import VaubanDB.Disk.BTreeInsert

/-!
Reading a B+tree, and taking an entry out of it.

`findFirst` answers the first entry at or past a probe, wherever the leaves before it are empty.  A
walk along the links reads on from there, so `seek` answers the entries of the range in order, or in
the opposite order (`seek_spec`), and `delete` takes away the one entry its probe names.
-/

namespace VaubanDB

open List

namespace BTree

open EStateM

section Walks

variable {order : KeyOrder} {keys : Set (List Value)} {limit : ℕ} {leaves A B : List Leaf}
  {probe : Probe} {page : PageId → TreePage} {prev next : Option PageId} {l : Leaf}
  {es fs : List TreeEntry} {f : TreeEntry}

/-- The place of the first entry of a chain at or past a probe. -/
def FirstAt (order : KeyOrder) (probe : Probe) (leaves : List Leaf) : Option Cursor → Prop
  | none => ∀ g ∈ contents leaves, compareEntry order g probe = .ok .lt
  | some cursor => ∃ B l A es f fs, leaves = B ++ l :: A ∧ l.entries = es ++ f :: fs ∧
      cursor = ⟨l.id, es.length⟩ ∧
      (∀ g ∈ contents B ++ es, compareEntry order g probe = .ok .lt) ∧
      ∃ o, compareEntry order f probe = .ok o ∧ o ≠ .lt

variable {cursor : Option Cursor}

lemma FirstAt.cons (h : FirstAt order probe leaves cursor)
    (hl : ∀ g ∈ l.entries, compareEntry order g probe = .ok .lt) :
    FirstAt order probe (l :: leaves) cursor := by
  cases cursor with
  | none =>
    intro g hg
    rcases mem_append.mp (show g ∈ l.entries ++ contents leaves from hg) with hg | hg
    · exact hl g hg
    · exact h g hg
  | some cursor =>
    obtain ⟨B, m, A, es, f, fs, rfl, hm, rfl, hbefore, hf⟩ := h
    refine ⟨l :: B, m, A, es, f, fs, rfl, hm, rfl, fun g hg => ?_, hf⟩
    rw [contents, flatMap_cons, append_assoc] at hg
    rcases mem_append.mp hg with hg | hg
    · exact hl g hg
    · exact hbefore g hg

lemma FirstAt.append (h : FirstAt order probe leaves cursor)
    (hB : ∀ g ∈ contents B, compareEntry order g probe = .ok .lt) :
    FirstAt order probe (B ++ leaves) cursor := by
  induction B with
  | nil => exact h
  | cons b B ih =>
    rw [contents, flatMap_cons, forall_mem_append] at hB
    exact (ih hB.2).cons hB.1

variable (hlimit : limit ≤ maxInsertBytes)
include hlimit

lemma findFirstLoop_step (h : HoldsLeaf (page l.id) prev next l.entries)
    (hgood : ∀ g ∈ l.entries, Good order keys limit g) (hl : l.entries = es ++ fs)
    (hes : ∀ g ∈ es, compareEntry order g probe = .ok .lt)
    (hfs : ∀ g ∈ fs, ∃ o, compareEntry order g probe = .ok o ∧ o ≠ .lt) (fuel : ℕ) :
    findFirstLoop order page probe (fuel + 1) l.id = if fs ≠ [] then .ok (some ⟨l.id, es.length⟩)
      else next.elim (.ok none) (findFirstLoop order page probe fuel) := by
  have hpos : leafPosition order probe (page l.id) = .ok es.length :=
    (HoldsLeaf.position hlimit (hl ▸ h) (hl ▸ hgood) hes hfs).2 _ h.laid rfl
  have hnext : (page l.id).leafNext = next := by rw [TreePage.leafNext, h.header]
  have hlen : es.length < (page l.id).slots.length ↔ fs ≠ [] := by
    rw [h.length, hl, length_append, ← length_pos_iff]
    omega
  rw [findFirstLoop, h.expectKind, hpos, hnext]
  simp only [bind, Except.bind, hlen]
  cases next <;> rfl

/-- The loop of `findFirst`: empty leaves, and leaves before the probe, are walked over. -/
lemma findFirstLoop_spec (hp : probe.Good order keys)
    (h : LeavesOk order keys limit leaves) {fuel : ℕ} (hlinked : Linked page prev none (l :: A))
    (hsub : ∀ m ∈ l :: A, m ∈ leaves) (hfuel : A.length < fuel) :
    ∃ cursor, findFirstLoop order page probe fuel l.id = .ok cursor ∧
      FirstAt order probe (l :: A) cursor := by
  induction fuel generalizing l prev A with
  | zero => simp at hfuel
  | succ fuel ih =>
    have hmem := hsub l (by simp)
    obtain ⟨es, fs, hl, hes, hfs⟩ := h.cutAt hp hmem
    rw [findFirstLoop_step hlimit hlinked.1 (h.good l hmem) hl hes hfs]
    cases fs with
    | nil =>
      rw [append_nil] at hl
      cases A with
      | nil => exact ⟨none, rfl, fun g hg => hes g (by simpa [contents, hl] using hg)⟩
      | cons m A =>
        obtain ⟨cursor, hloop, hfirst⟩ := ih hlinked.2 (fun k hk => hsub k (by simp [hk]))
          (Nat.lt_of_succ_lt_succ hfuel)
        exact ⟨cursor, hloop, hfirst.cons (hl ▸ hes)⟩
    | cons f fs =>
      exact ⟨some ⟨l.id, es.length⟩, rfl, [], l, A, es, f, fs, rfl, hl, rfl,
        by simpa [contents] using hes, hfs f (by simp)⟩

/-- The tree as a call finds it in the pool. -/
abbrev Tree.WellFormed (t : Tree) (keys : Set (List Value)) (limit : ℕ) (leaves : List Leaf)
    (levels : List (List Inner)) : Prop :=
  BTree.WellFormed t.order keys limit (.new t.pages) t.root leaves levels

variable {levels : List (List Inner)}

omit hlimit in
lemma Tree.WellFormed.descends {t : Tree}
    (h : t.WellFormed keys limit leaves levels) : Descends t leaves levels := by
  refine ⟨h.levelsOk, fun l hl => ?_⟩
  obtain ⟨_, _, hholds⟩ := h.linked.holds hl
  exact hholds.kind

omit hlimit in
lemma LeavesOk.before (hp : probe.Fits order) (h : LeavesOk order keys limit (B ++ l :: A))
    (hfence : NotPast order probe l.fence) {g : TreeEntry} (hg : g ∈ contents B) :
    compareEntry order g probe = .ok .lt := by
  obtain ⟨b, hb, hg⟩ := mem_flatMap.mp hg
  have hpast := (pairwise_append.mp h.below).2.2 b hb l (by simp) g hg
  cases hl : l.fence with
  | none =>
    rw [hl] at hpast
    exact hpast.elim
  | some a =>
    rw [hl] at hpast hfence
    obtain ⟨o, ho, hne⟩ := hfence
    have hlt : EntryLt order g a :=
      .of_gt (h.good b (by simp [hb]) g hg).width (h.fence_good (by simp) a hl).width hpast
    exact hlt.side_left hp ho hne

lemma findFirst_spec {t : Tree}
    (hp : probe.Good t.order keys) (h : t.WellFormed keys limit leaves levels) :
    ∃ cursor, t.findFirst probe = .ok cursor ∧ FirstAt t.order probe leaves cursor := by
  obtain ⟨B, l, A, path, rfl, hfence, _, _, hdescend⟩ :=
    descend_spec hlimit hp h.stacked h.leavesOk.fences h.descends h.depth_lt.le
  have hfuel : A.length < t.pages.next := by
    have := h.length_le
    simp at this
    omega
  obtain ⟨cursor, hloop, hfirst⟩ := findFirstLoop_spec hlimit hp h.leavesOk
    (linked_append.mp h.linked).2 (fun m hm => by simp [mem_cons.mp hm]) hfuel
  refine ⟨cursor, ?_, hfirst.append fun g hg => h.leavesOk.before hp.fits hfence hg⟩
  rw [Tree.findFirst, hdescend]
  exact hloop

/-! ### Walks along the leaves -/

lemma HoldsLeaf.leafEntries {page : TreePage}
    (h : HoldsLeaf page prev next es) (hgood : ∀ g ∈ es, Good order keys limit g) :
    leafEntries page = .ok (es, prev, next) := by
  have hmap : ((range page.slots.length).mapM fun index => do
      let bytes ← page.entryAt leafDirectory index
      decodeEntryKey bytes.1) = .ok (es.map id) := by
    rw [h.length]
    refine mapM_range_eq fun i g hg => ?_
    have hentry : page.entries[i]? = some (encodeEntryKey g, []) := by
      rw [h.entries, getElem?_map, hg]
      rfl
    have hmem : g ∈ es := mem_of_getElem? hg
    simp [h.laid.entryAt hentry, (hgood g hmem).decode hlimit, bind, Except.bind]
  have hprev : page.leafPrev = prev := by rw [TreePage.leafPrev, h.header]
  have hnext : page.leafNext = next := by rw [TreePage.leafNext, h.header]
  rw [BTree.leafEntries, h.expectKind, hmap, hprev, hnext, map_id]
  rfl

omit hlimit

lemma takeUntil_spec {stop : TreeEntry → Except InternalError Bool} {p : TreeEntry → Bool}
    (h : ∀ g ∈ es, stop g = .ok (p g)) :
    takeUntil stop es = .ok (es.takeWhile fun g => !p g, es.any p) := by
  induction es with
  | nil => rfl
  | cons g es ih =>
    rw [takeUntil, h g (by simp), ih fun k hk => h k (by simp [hk])]
    cases hg : p g <;> simp [hg, bind, Except.bind]

lemma takeWhile_append_of_any {α : Type} (p : α → Bool) (l m : List α) :
    (l ++ m).takeWhile (fun a => !p a) = if l.any p then l.takeWhile (fun a => !p a)
      else l.takeWhile (fun a => !p a) ++ m.takeWhile fun a => !p a := by
  induction l with
  | nil => simp
  | cons a l ih =>
    cases ha : p a with
    | true => simp [ha]
    | false =>
      simp only [cons_append, takeWhile_cons, ha, Bool.not_false, if_true, ih,
        any_cons, Bool.false_or]
      split <;> simp

section Loops

variable {stop : TreeEntry → Except InternalError Bool} {p : TreeEntry → Bool} {fuel : ℕ}

variable (hlimit : limit ≤ maxInsertBytes)
include hlimit

lemma forwardLoop_step (h : HoldsLeaf (page l.id) prev next l.entries)
    (hgood : ∀ g ∈ l.entries, Good order keys limit g)
    (hstop : ∀ g ∈ l.entries, stop g = .ok (p g)) (skip : ℕ) :
    forwardLoop page stop (fuel + 1) l.id skip =
      if (l.entries.drop skip).any p then .ok ((l.entries.drop skip).takeWhile fun g => !p g)
      else next.elim (.ok ((l.entries.drop skip).takeWhile fun g => !p g)) fun id =>
        (forwardLoop page stop fuel id 0).map
          ((l.entries.drop skip).takeWhile (fun g => !p g) ++ ·) := by
  have hread := takeUntil_spec fun g hg => hstop g (drop_subset skip _ hg)
  rw [forwardLoop, h.leafEntries hlimit hgood]
  simp only [bind, Except.bind, hread]
  cases next with
  | none => rfl
  | some id =>
    simp only [Option.elim_some]
    cases forwardLoop page stop fuel id 0 <;> rfl

/-- The walk to the right reads the entries of the leaves in order, up to the first one it stops
at. -/
lemma forwardLoop_spec {skip : ℕ} (hlinked : Linked page prev none (l :: A))
    (hgood : ∀ g ∈ contents (l :: A), Good order keys limit g)
    (hstop : ∀ g ∈ contents (l :: A), stop g = .ok (p g)) (hfuel : A.length < fuel) :
    forwardLoop page stop fuel l.id skip =
      .ok ((l.entries.drop skip ++ contents A).takeWhile fun g => !p g) := by
  induction fuel generalizing l prev A skip with
  | zero => simp at hfuel
  | succ fuel ih =>
    rw [contents, flatMap_cons, forall_mem_append] at hgood hstop
    rw [forwardLoop_step hlimit hlinked.1 hgood.1 hstop.1]
    cases A with
    | nil => simp [headId, contents]
    | cons m A =>
      simp only [headId, Option.elim_some, takeWhile_append_of_any]
      rw [ih hlinked.2 hgood.2 hstop.2 (Nat.lt_of_succ_lt_succ hfuel)]
      split <;> simp [Except.map, contents]

lemma backwardLoop_step (h : HoldsLeaf (page l.id) prev next l.entries)
    (hgood : ∀ g ∈ l.entries, Good order keys limit g)
    (hstop : ∀ g ∈ l.entries, stop g = .ok (p g)) (upTo : Option ℕ) :
    backwardLoop page stop (fuel + 1) l.id upTo =
      let kept := (l.entries.take (upTo.getD l.entries.length)).reverse
      if kept.any p then .ok (kept.takeWhile fun g => !p g)
      else prev.elim (.ok (kept.takeWhile fun g => !p g)) fun id =>
        (backwardLoop page stop fuel id none).map (kept.takeWhile (fun g => !p g) ++ ·) := by
  have hstop' : ∀ g ∈ (l.entries.take (upTo.getD l.entries.length)).reverse,
      stop g = .ok (p g) := fun g hg => hstop g (take_subset _ _ (mem_reverse.mp hg))
  have hread := takeUntil_spec hstop'
  rw [backwardLoop, h.leafEntries hlimit hgood]
  simp only [bind, Except.bind, hread]
  cases prev with
  | none => rfl
  | some id =>
    simp only [Option.elim_some]
    cases backwardLoop page stop fuel id none <;> rfl

omit hlimit in
lemma lastId_append (prev : Option PageId) (B : List Leaf) (l : Leaf) :
    lastId prev (B ++ [l]) = some l.id := by
  induction B generalizing prev with
  | nil => rfl
  | cons b B ih => exact ih (some b.id)

/-- The walk to the left reads the entries of the leaves in the opposite order, up to the first
one it stops at. -/
lemma backwardLoop_spec {upTo : Option ℕ} (hlinked : Linked page none next (B ++ [l]))
    (hgood : ∀ g ∈ contents (B ++ [l]), Good order keys limit g)
    (hstop : ∀ g ∈ contents (B ++ [l]), stop g = .ok (p g)) (hfuel : B.length < fuel) :
    backwardLoop page stop fuel l.id upTo =
      .ok ((contents B ++ l.entries.take (upTo.getD l.entries.length)).reverse.takeWhile
        fun g => !p g) := by
  induction fuel generalizing l next B upTo with
  | zero => simp at hfuel
  | succ fuel ih =>
    rw [contents, flatMap_append, forall_mem_append] at hgood hstop
    obtain ⟨hB, hl⟩ := linked_append.mp hlinked
    rw [backwardLoop_step hlimit hl.1 (by simpa using hgood.2) (by simpa using hstop.2)]
    rcases eq_nil_or_concat' B with rfl | ⟨B, m, rfl⟩
    · simp [lastId, contents]
    · have hm : contents B ++ m.entries.take ((none : Option ℕ).getD m.entries.length) =
          contents (B ++ [m]) := by simp [contents]
      simp only [lastId_append, Option.elim_some]
      rw [ih hB hgood.1 hstop.1 (by simp at hfuel; omega), hm, reverse_append,
        takeWhile_append_of_any]
      split <;> simp [Except.map]

end Loops

/-! ### The entries of a range -/

/-- A key is on the inner side of a lower bound, which may be a prefix of it. -/
def Bound.below (order : KeyOrder) (key : List Value) : Bound → Bool
  | .unbounded => true
  | .included values => (order.comparePrefix key values matches .ok .eq | .ok .gt)
  | .excluded values => (order.comparePrefix key values matches .ok .gt)

/-- A key is on the inner side of an upper bound. -/
def Bound.above (order : KeyOrder) (key : List Value) : Bound → Bool
  | .unbounded => true
  | .included values => (order.comparePrefix key values matches .ok .lt | .ok .eq)
  | .excluded values => (order.comparePrefix key values matches .ok .lt)

def inRange (order : KeyOrder) (range : KeyRange) (key : List Value) : Bool :=
  Bound.below order key (rangeBounds range).1 && Bound.above order key (rangeBounds range).2

/-- A bound the order takes and can compare with the keys of a tree. -/
def Bound.Usable (order : KeyOrder) (keys : Set (List Value)) (bound : Bound) : Prop :=
  ∀ values, bound.key? = some values → values.length ≤ order.arity ∧
    ∀ a ∈ keys, ∃ o, order.comparePrefix a values = .ok o

def Usable (order : KeyOrder) (keys : Set (List Value)) (range : KeyRange) : Prop :=
  Bound.Usable order keys (rangeBounds range).1 ∧ Bound.Usable order keys (rangeBounds range).2

def side (order : KeyOrder) (probe : Probe) (e : TreeEntry) : Ordering :=
  match compareEntry order e probe with
  | .ok o => o
  | .error _ => .eq

lemma side_of_ok {o : Ordering} (h : compareEntry order f probe = .ok o) :
    side order probe f = o := by
  rw [side, h]

lemma comparePrefix_nil (order : KeyOrder) (key : List Value) :
    order.comparePrefix key [] = .ok .eq := by
  rw [KeyOrder.comparePrefix]
  cases order.columns.map OrderColumn.compare <;> cases key <;> rfl

variable {bound : Bound}

lemma Bound.Usable.probes (h : Bound.Usable order keys bound) :
    (lowerProbe bound).Good order keys ∧ (upperProbe bound).Good order keys := by
  cases bound with
  | unbounded =>
    constructor <;> exact ⟨⟨Nat.zero_le _, by simp [lowerProbe, upperProbe]⟩,
      fun a _ => ⟨.eq, comparePrefix_nil order a⟩⟩
  | included values | excluded values =>
    constructor <;> exact ⟨⟨(h values rfl).1, by simp [lowerProbe, upperProbe]⟩, (h values rfl).2⟩

lemma Bound.Usable.check (h : Bound.Usable order keys bound) : checkBound order bound = .ok () := by
  rw [checkBound]
  cases hb : bound.key? with
  | none => rfl
  | some values => exact if_neg (not_lt.mpr (h values hb).1)

lemma side_probes (h : Bound.Usable order keys bound) (hf : f.1 ∈ keys) :
    (side order (lowerProbe bound) f ≠ .lt ↔ Bound.below order f.1 bound = true) ∧
    (side order (upperProbe bound) f = .lt ↔ Bound.above order f.1 bound = true) := by
  cases bound with
  | unbounded => simp [side, compareEntry, lowerProbe, upperProbe, comparePrefix_nil,
      PayloadBound.side, Bound.below, Bound.above]
  | included values | excluded values =>
    obtain ⟨o, ho⟩ := (h values rfl).2 f.1 hf
    cases o <;> simp [side, compareEntry, lowerProbe, upperProbe, ho, PayloadBound.side,
      Bound.below, Bound.above]

lemma Probe.Good.ok_side (hp : probe.Good order keys) (hf : f.1 ∈ keys) :
    BTree.compareEntry order f probe = .ok (side order probe f) := by
  obtain ⟨o, ho⟩ := hp.compareEntry hf
  rw [ho, side_of_ok ho]

lemma EntryLt.side_lt {g : TreeEntry} (hfg : EntryLt order f g) (hp : probe.Good order keys)
    (hg : g.1 ∈ keys) (h : side order probe g = .lt) : side order probe f = .lt :=
  side_of_ok (hfg.side_left hp.fits (h ▸ hp.ok_side hg) (by decide))

/-- The entries on the inner side of two probes. -/
def between (order : KeyOrder) (low high : Probe) (l : List TreeEntry) : List TreeEntry :=
  l.filter fun g => side order low g ≠ .lt && side order high g = .lt

variable {C₂ C₁ : List TreeEntry}

lemma between_of_low {low high : Probe}
    (h₁ : ∀ g ∈ C₁, side order low g = .lt) (h₂ : ∀ g ∈ C₂, side order low g ≠ .lt) :
    between order low high (C₁ ++ C₂) = C₂.filter fun g => side order high g = .lt := by
  rw [between, filter_append, filter_eq_nil_iff.mpr fun g hg => by simp [h₁ g hg], nil_append]
  exact filter_congr fun g hg => by simp [h₂ g hg]

lemma between_of_high {low high : Probe}
    (h₁ : ∀ g ∈ C₁, side order high g = .lt) (h₂ : ∀ g ∈ C₂, side order high g ≠ .lt) :
    between order low high (C₁ ++ C₂) = C₁.filter fun g => side order low g ≠ .lt := by
  rw [between, filter_append, (filter_eq_nil_iff (l := C₂)).mpr fun g hg => by simp [h₂ g hg],
    append_nil]
  exact filter_congr fun g hg => by simp [h₁ g hg]

lemma side_ne_lt_of_first {C : List TreeEntry} {o : Ordering} (hp : probe.Fits order)
    (hsorted : (f :: C).Pairwise (EntryLt order)) (ho : compareEntry order f probe = .ok o)
    (hne : o ≠ .lt) : ∀ g ∈ f :: C, side order probe g ≠ .lt := by
  intro g hg
  rcases mem_cons.mp hg with rfl | hg
  · rwa [side_of_ok ho]
  · rw [side_of_ok (((pairwise_cons.mp hsorted).1 g hg).side_right hp ho hne)]
    decide

section Collect

variable {t : Tree} {levels : List (List Inner)} {low high : Probe}

variable (hlimit : limit ≤ maxInsertBytes)
include hlimit

variable (h : t.WellFormed keys limit leaves levels)
include h

lemma collectForward_spec (hlow : low.Good t.order keys) (hhigh : high.Good t.order keys) :
    t.collectForward low high = .ok (between t.order low high (contents leaves)) := by
  have hsorted := h.leavesOk.sorted_contents
  obtain ⟨cursor, hfind, hfirst⟩ := findFirst_spec hlimit hlow h
  rw [Tree.collectForward, hfind]
  cases cursor with
  | none =>
    rw [← append_nil (contents leaves),
      between_of_low (fun g hg => side_of_ok (hfirst g hg)) (by simp)]
    rfl
  | some cursor =>
    obtain ⟨B, l, A, es, f, fs, rfl, hl, rfl, hbefore, o, ho, hne⟩ := hfirst
    have hcontents : contents (B ++ l :: A) = (contents B ++ es) ++ f :: (fs ++ contents A) := by
      simp [contents_cut, hl]
    have hdrop : l.entries.drop es.length ++ contents A = f :: (fs ++ contents A) := by simp [hl]
    have hkey : ∀ g ∈ contents (B ++ l :: A), g.1 ∈ keys := fun g hg =>
      (h.leavesOk.good_contents hg).key
    have htail : ∀ g ∈ contents (l :: A), g ∈ contents (B ++ l :: A) := by
      intro g hg
      rw [contents, flatMap_append]
      exact mem_append_right _ hg
    have hfuel : A.length < t.pages.next := by
      have := h.length_le
      simp at this
      omega
    have hwalk : forwardLoop t.pages.page (fun entry => do
        let ordering ← compareEntry t.order entry high
        .ok (ordering ≠ .lt)) t.pages.next l.id es.length =
        .ok ((l.entries.drop es.length ++ contents A).takeWhile
          fun g => !decide (side t.order high g ≠ .lt)) :=
      forwardLoop_spec hlimit (linked_append.mp h.linked).2
        (fun g hg => h.leavesOk.good_contents (htail g hg))
        (fun g hg => by rw [hhigh.ok_side (hkey g (htail g hg))]; rfl) hfuel
    have hsorted' := hsorted
    rw [hcontents] at hsorted'
    rw [hcontents, between_of_low (fun g hg => side_of_ok (hbefore g hg))
      (side_ne_lt_of_first hlow.fits (pairwise_append.mp hsorted').2.1 ho hne)]
    refine hwalk.trans (congrArg Except.ok ?_)
    rw [hdrop]
    simp only [ne_eq, decide_not, Bool.not_not]
    refine takeWhile_eq_filter_of_pairwise (pairwise_append.mp hsorted').2.1 ?_
    intro a _ b hb hab hlt
    rw [decide_eq_true_eq] at hlt ⊢
    exact hab.side_lt hhigh (hkey b (hcontents ▸ mem_append_right _ hb)) hlt

omit h in
/-- A walk to the left from a place in the tree reads the entries before it down to a probe. -/
lemma backwardLoop_filter
    (h : t.WellFormed keys limit (B ++ l :: A) levels) (hlow : low.Good t.order keys)
    (upTo : Option ℕ) :
    backwardLoop t.pages.page (fun entry => do
      let ordering ← compareEntry t.order entry low
      .ok (ordering = .lt)) t.pages.next l.id upTo =
      .ok ((contents B ++ l.entries.take (upTo.getD l.entries.length)).filter
        fun g => side t.order low g ≠ .lt).reverse := by
  have hlinked := h.linked
  rw [append_cons, linked_append, PageSet.new_view] at hlinked
  have hhead : ∀ g ∈ contents (B ++ [l]), g ∈ contents (B ++ l :: A) := by
    intro g hg
    rw [append_cons, contents, flatMap_append]
    exact mem_append_left _ hg
  have hsub : (contents B ++ l.entries.take (upTo.getD l.entries.length)).Sublist
      (contents (B ++ l :: A)) := by
    rw [contents_cut]
    exact ((take_sublist _ _).append_left _).trans (sublist_append_left _ _)
  have hkey : ∀ g ∈ contents (B ++ l :: A), g.1 ∈ keys := fun g hg =>
    (h.leavesOk.good_contents hg).key
  rw [backwardLoop_spec (p := fun g => side t.order low g = .lt) hlimit hlinked.1
    (fun g hg => h.leavesOk.good_contents (hhead g hg))
    (fun g hg => by rw [hlow.ok_side (hkey g (hhead g hg))]; rfl)
    (by have := h.length_le; simp at this; omega), ← filter_reverse]
  refine congrArg Except.ok (Eq.trans ?_ (takeWhile_eq_filter_of_pairwise
    (pairwise_reverse.mpr (h.leavesOk.sorted_contents.sublist hsub)) ?_))
  · simp
  · intro a ha b _ hba hq
    rw [decide_eq_true_eq] at hq ⊢
    exact fun hlt => hq (hba.side_lt hlow (hkey a (hsub.subset (mem_reverse.mp ha))) hlt)

lemma lastLeaf_spec : ∃ B l, leaves = B ++ [l] ∧ t.lastLeaf = .ok l.id := by
  have hhigh : (⟨[], .highest⟩ : Probe).Good t.order keys :=
    ⟨⟨Nat.zero_le _, by simp⟩, fun a _ => ⟨.eq, comparePrefix_nil t.order a⟩⟩
  obtain ⟨B, l, A, path, rfl, _, hpast, _, hdescend⟩ :=
    descend_spec hlimit hhigh h.stacked h.leavesOk.fences h.descends h.depth_lt.le
  have hA : A = [] := by
    refine eq_nil_iff_forall_not_mem.mpr fun m hm => ?_
    have := hpast m hm
    cases hfence : m.fence with
    | none => simp [Past, hfence] at this
    | some a => simp [Past, hfence, compareEntry, comparePrefix_nil, PayloadBound.side] at this
  subst hA
  refine ⟨B, l, rfl, ?_⟩
  rw [Tree.lastLeaf, hdescend]
  rfl

lemma collectBackward_spec (hlow : low.Good t.order keys) (hhigh : high.Good t.order keys) :
    t.collectBackward low high = .ok (between t.order low high (contents leaves)).reverse := by
  have hsorted := h.leavesOk.sorted_contents
  obtain ⟨cursor, hfind, hfirst⟩ := findFirst_spec hlimit hhigh h
  rw [Tree.collectBackward, hfind]
  cases cursor with
  | none =>
    obtain ⟨B, l, rfl, hlast⟩ := lastLeaf_spec hlimit h
    have hcontents : contents (B ++ [l]) =
        (contents B ++ l.entries.take ((none : Option ℕ).getD l.entries.length)) ++ [] := by
      simp [contents]
    rw [hcontents, between_of_high (fun g hg => side_of_ok (hfirst g (by simp_all))) (by simp),
      ← backwardLoop_filter hlimit h hlow none]
    simp only [bind, Except.bind, hlast]
  | some cursor =>
    obtain ⟨B, l, A, es, f, fs, rfl, hl, rfl, hbefore, o, ho, hne⟩ := hfirst
    have hcontents : contents (B ++ l :: A) =
        (contents B ++ l.entries.take ((some es.length).getD l.entries.length)) ++
          f :: (fs ++ contents A) := by simp [contents_cut, hl]
    have htake : l.entries.take ((some es.length).getD l.entries.length) = es := by simp [hl]
    rw [hcontents] at hsorted ⊢
    rw [between_of_high (fun g hg => side_of_ok (hbefore g (htake ▸ hg)))
      (side_ne_lt_of_first hhigh.fits (pairwise_append.mp hsorted).2.1 ho hne),
      ← backwardLoop_filter hlimit h hlow (some es.length)]
    rfl

/-- A seek answers the entries of the range in order, or in the opposite order. -/
theorem seek_spec {range : KeyRange} (hrange : Usable t.order keys range) :
    t.seek range .forward = .ok ((contents leaves).filter fun g => inRange t.order range g.1) ∧
      t.seek range .backward =
        .ok ((contents leaves).filter fun g => inRange t.order range g.1).reverse := by
  obtain ⟨hlo, hhi⟩ := hrange
  have hbetween : between t.order (lowerProbe (rangeBounds range).1)
      (upperProbe (rangeBounds range).2) (contents leaves) =
      (contents leaves).filter fun g => inRange t.order range g.1 := by
    refine filter_congr fun g hg => ?_
    have hkey := (h.leavesOk.good_contents hg).key
    rw [inRange, Bool.eq_iff_iff, Bool.and_eq_true, Bool.and_eq_true, decide_eq_true_eq,
      decide_eq_true_eq, (side_probes hlo hkey).1, (side_probes hhi hkey).2]
  rw [← hbetween]
  constructor
  · rw [← collectForward_spec hlimit h hlo.probes.1 hhi.probes.2, Tree.seek]
    simp only [hlo.check, hhi.check, bind, Except.bind]
  · rw [← collectBackward_spec hlimit h hlo.probes.1 hhi.probes.2, Tree.seek]
    simp only [hlo.check, hhi.check, bind, Except.bind]

end Collect

end Walks

end BTree

end VaubanDB
