import VaubanDB.Disk.BTreeSplit

/-!
The outcomes of `putInLeaf` and `putInInternal`.

A put that succeeds leaves the page with one entry more, or the entries shared between the page and
a fresh one around the new entry (`putInLeaf_spec`, `putInInternal_spec`); no other page changes,
apart from a link.  A put fails only when no page is left to allocate, or, in an internal page, when
entries are longer than `safeInsertBytes`.
-/

namespace VaubanDB

open Prod (fst)
open List

namespace BTree

open EStateM

/-! ### Page sets and the allocator -/

variable {id : PageId}

namespace PageSet

@[simp] lemma new_view (pages : Pages) : (new pages).view = pages.page := rfl

@[simp] lemma new_pages (pages : Pages) : (new pages).pages = pages := rfl

lemma view_put_self (ps : PageSet) (id : PageId) (page : TreePage) :
    (ps.put id page).view id = page := by
  simp [view, put]

lemma view_put_of_ne (ps : PageSet) {other : PageId} (page : TreePage) (hne : other ≠ id) :
    (ps.put id page).view other = ps.view other := by
  simp [view, put, hne.symm]

lemma view_put_view (ps : PageSet) (id : PageId) : (ps.put id (ps.view id)).view = ps.view := by
  funext other
  by_cases h : other = id
  · subst h
    exact ps.view_put_self _ _
  · exact ps.view_put_of_ne _ h

end PageSet

open PageSet (view_put_self view_put_of_ne)

variable {ps : PageSet} {α : Type}

lemma writePage_of_ok {change : TreePage → Except InternalError (α × TreePage)} {a : α}
    {page : TreePage} (h : change (ps.view id) = .ok (a, page)) :
    writePage id change ps = .ok a (ps.put id page) := by
  rw [writePage, get_bind_apply]
  simp only [h]
  rfl

lemma ends_writePage {β : Type} {change : TreePage → Except InternalError (α × TreePage)}
    {f : α → EStateM InternalError PageSet β} {Q : β → PageSet → Prop} {E : PageSet → Prop} (a : α)
    (page : TreePage) (h : change (ps.view id) = .ok (a, page))
    (hf : Ends (ps.put id page) (f a) Q E) : Ends ps (writePage id change >>= f) Q E :=
  (ends_bind_of_ok (writePage_of_ok h)).mpr hf

lemma writePage_onKind {kind : PageKind} {change : TreePage → Except InternalError (α × TreePage)}
    {a : α} {page : TreePage} (hkind : (ps.view id).expectKind kind = .ok ())
    (h : change (ps.view id) = .ok (a, page)) :
    writePage id (onKind kind change) ps = .ok a (ps.put id page) := by
  refine writePage_of_ok ?_
  rw [onKind, hkind]
  exact h

variable {read : TreePage → Except InternalError α}

lemma readPage_of_ok {a : α} (h : read (ps.view id) = .ok a) : readPage id read ps = .ok a ps := by
  rw [readPage, get_bind_apply, h]
  rfl

/-- The allocator owns its free pages, and none of the pages in use. -/
structure AllocOk (pages : Pages) (used : List PageId) : Prop where
  freeNodup : pages.free.Nodup
  free : ∀ id ∈ pages.free, id < pages.next ∧ id ∉ used
  used : ∀ id ∈ used, id < pages.next
  next : pages.next ≤ maxU64

/-- The number of pages the allocator can still hand out. -/
def available (pages : Pages) : ℕ := pages.free.length + (maxU64 - pages.next)

/-- The allocator has handed out more pages, and the pages are as they were. -/
structure Grown (pages pages' : Pages) : Prop where
  page : pages'.page = pages.page
  free : pages'.free.Sublist pages.free
  next : pages.next ≤ pages'.next
  bound : pages.next ≤ maxU64 → pages'.next ≤ maxU64

variable {used : List PageId}

namespace Grown

lemma refl (pages : Pages) : Grown pages pages := ⟨rfl, .refl _, le_rfl, id⟩

lemma trans {p q r : Pages} (hpq : Grown p q) (hqr : Grown q r) : Grown p r :=
  ⟨hqr.page.trans hpq.page, hqr.free.trans hpq.free, hpq.next.trans hqr.next,
    fun h => hqr.bound (hpq.bound h)⟩

lemma allocOk {p q : Pages} (h : Grown p q) (hp : AllocOk p used) : AllocOk q used := by
  refine ⟨h.free.nodup hp.freeNodup, fun id hid => ?_, fun id hid => ?_, h.bound hp.next⟩
  · obtain ⟨hlt, hnot⟩ := hp.free id (h.free.subset hid)
    exact ⟨hlt.trans_le h.next, hnot⟩
  · exact (hp.used id hid).trans_le h.next

end Grown

lemma allocate_spec (h : AllocOk ps.pages used) : Ends ps allocate
      (fun id ps' => id ∉ used ∧ ps'.view = ps.view ∧ Grown ps.pages ps'.pages ∧
        AllocOk ps'.pages (id :: used) ∧ available ps'.pages + 1 = available ps.pages)
      fun ps' => ps' = ps ∧ available ps.pages = 0 := by
  rw [allocate, ends_get_bind]
  cases hfree : ps.pages.free with
  | cons head rest =>
    have hnodup := h.freeNodup
    rw [hfree, nodup_cons] at hnodup
    obtain ⟨hlt, hnot⟩ := h.free head (by simp [hfree])
    simp only [ends_set_bind, ends_pure]
    refine ⟨hnot, rfl, ⟨rfl, ?_, le_rfl, id⟩, ⟨hnodup.2, ?_, ?_, h.next⟩, ?_⟩
    · rw [hfree]
      exact sublist_cons_self _ _
    · intro id hid
      obtain ⟨hid', hnot'⟩ := h.free id (by simp [hfree, hid])
      refine ⟨hid', ?_⟩
      rw [mem_cons, not_or]
      exact ⟨fun heq => hnodup.1 (heq ▸ hid), hnot'⟩
    · intro id hid
      rcases mem_cons.mp hid with rfl | hid
      · exact hlt
      · exact h.used id hid
    · simp only [available, hfree, length_cons]
      omega
  | nil =>
    have hnext := h.next
    simp only
    by_cases hmax : ps.pages.next = maxU64
    · rw [if_pos hmax]
      refine ⟨rfl, ?_⟩
      simp [available, hfree, hmax]
    · rw [if_neg hmax]
      simp only [ends_set_bind, ends_pure]
      have hlt : ps.pages.next < maxU64 := lt_of_le_of_ne hnext hmax
      refine ⟨fun hin => lt_irrefl _ (h.used _ hin), rfl,
        ⟨rfl, .refl _, Nat.le_succ _, fun _ => hlt⟩, ⟨h.freeNodup, ?_, ?_, hlt⟩, ?_⟩
      · intro id hid
        simp [hfree] at hid
      · intro id hid
        rcases mem_cons.mp hid with rfl | hid
        · exact Nat.lt_succ_self _
        · exact (h.used id hid).trans (Nat.lt_succ_self _)
      · simp only [available]
        lia

/-! ### The halves of a split page -/

/-- A page of these entries, as a split or a put leaves it. -/
structure Filled (directory : ℕ) (page : TreePage) (header : Header) (es : List Entry) : Prop where
  header : page.header = header
  entries : page.entries = es
  laid : Laid directory page

/-- What a split leaves: two pages, the second one fresh. -/
structure Halved (directory : ℕ) (used : List PageId) (ps ps' : PageSet) (left right : PageId)
    (lower upper : Header) (ls rs : List Entry) : Prop where
  fresh : right ∉ used
  alloc : AllocOk ps'.pages (right :: used)
  grown : Grown ps.pages ps'.pages
  spent : available ps'.pages + 1 = available ps.pages
  left : Filled directory (ps'.view left) lower ls
  right : Filled directory (ps'.view right) upper rs

section Halves

variable {left : PageId} {prev next : Option PageId} {first : PageId} {es : List Entry}
  {directory i : ℕ}

/-- Puts entries on a page that is written from scratch. -/
def fillWith (directory : ℕ) (init : TreePage → TreePage) (es : List Entry) (id : PageId)
    (page : TreePage) : Except InternalError (Unit × TreePage) := do
  let page ← (init page).fill directory es id
  .ok ((), page)

/-- The two writes of a split. -/
lemma ends_halve {header : Header} (h : Filled directory (ps.view left) header es)
    (halloc : AllocOk ps.pages used) (hleft : left ∈ used) (i j : ℕ)
    (lower upper : PageId → TreePage → TreePage) (low up : PageId → Header)
    (hlow : ∀ right, lower right (ps.view left) = ⟨(ps.view left).id, low right, []⟩)
    (hup : ∀ right page, upper right page = ⟨page.id, up right, []⟩)
    {f : PageId → SetM Split} {Q : Split → PageSet → Prop} {E : PageSet → Prop}
    (hE : available ps.pages = 0 → E ps) (hf : ∀ right ps',
      Halved directory used ps ps' left right (low right) (up right) (es.take i) (es.drop j) →
      (∀ id, id ≠ left → id ≠ right → ps'.view id = ps.view id) → Ends ps' (f right) Q E) :
    Ends ps (do
      let right ← allocate
      writePage right (fillWith directory (upper right) (es.drop j) right)
      writePage left (fillWith directory (lower right) (es.take i) left)
      f right) Q E := by
  have hfit := h.laid.weight_le
  rw [TreePage.weight, h.entries] at hfit
  have hl := (Nat.add_le_add_left
    (((take_sublist i es).map entryWeight).sum_le_sum (by simp)) directory).trans hfit
  have hr := (Nat.add_le_add_left
    (((drop_sublist j es).map entryWeight).sum_le_sum (by simp)) directory).trans hfit
  have hdir := (Nat.le_add_right _ _).trans hl
  rw [ends_bind]
  refine (allocate_spec halloc).mono ?_ ?_
  · rintro right ps₁ ⟨hfresh, hview, hgrown, halloc₁, havail⟩
    have hne : right ≠ left := fun heq => hfresh (heq ▸ hleft)
    -- The fresh page takes the upper half, the page that split keeps the lower one.
    obtain ⟨page₁, hfill₁, -, hheader₁, hentries₁, hlaid₁, -⟩ :=
      fill_spec hdir right (ps₁.view right).id (up right) hr
    obtain ⟨page₂, hfill₂, -, hheader₂, hentries₂, hlaid₂, -⟩ :=
      fill_spec hdir left (ps.view left).id (low right) hl
    refine ends_writePage () page₁ (by rw [fillWith, hup, hfill₁]; rfl) ?_
    refine ends_writePage () page₂ ?_ (hf right _ ⟨hfresh, halloc₁, hgrown, havail, ?_, ?_⟩ ?_)
    · rw [view_put_of_ne _ _ hne.symm, hview, fillWith, hlow, hfill₂]
      rfl
    · rw [view_put_self]
      exact ⟨hheader₂, hentries₂, hlaid₂⟩
    · rw [view_put_of_ne _ _ hne, view_put_self]
      exact ⟨hheader₁, hentries₁, hlaid₁⟩
    · intro id hl hr
      rw [view_put_of_ne _ _ hl, view_put_of_ne _ _ hr, hview]
  · rintro ps₁ ⟨rfl, hnone⟩
    exact hE hnone

/-- Where a leaf is cut. -/
def cutOf (es : List Entry) : Option ℕ := cutBetweenKeys es (balancePoint (es.map entryWeight))

lemma exists_cut_at {n : ℕ} {xs : List α} (h : n < xs.length) :
    ∃ l x r, xs = l ++ x :: r ∧ l.length = n := by
  refine ⟨xs.take n, xs[n], xs.drop (n + 1), ?_, ?_⟩
  · rw [getElem_cons_drop, take_append_drop]
  · rw [length_take]
    omega

/-- A cut at `i`, between two different keys. -/
def CutAt (es : List Entry) (i : ℕ) (ks : List Entry) (z x : Entry) (rs : List Entry) : Prop :=
  es = ks ++ z :: x :: rs ∧ z.1 ≠ x.1 ∧ es.take i = ks ++ [z] ∧ es.drop i = x :: rs ∧
    es.getD i ([], []) = x

lemma exists_cutAt (hi : 0 < i) (hlen : i < es.length) (hne : keyAt es (i - 1) ≠ keyAt es i) :
    ∃ ks z x rs, CutAt es i ks z x rs := by
  obtain ⟨l, x, rs, rfl, rfl⟩ := exists_cut_at hlen
  obtain ⟨ks, z, rfl⟩ := (eq_nil_or_concat l).resolve_left (ne_nil_of_length_pos hi)
  refine ⟨ks, z, x, rs, by simp, fun heq => hne ?_, ?_, drop_left, by simp⟩
  · simp [keyAt, heq]
  · rw [take_left, concat_eq_append]

lemma exists_cutAt_of_cutOf (h : cutOf es = some i) : ∃ ks z x rs, CutAt es i ks z x rs := by
  have hmem := argmin_mem h
  rw [mem_filter, mem_range'_1, decide_eq_true_eq] at hmem
  exact exists_cutAt (by omega) (by omega) hmem.2

lemma key_eq_of_cutOf_eq_none (h : cutOf es = none) {ks rs : List Entry} {z x : Entry}
    (hes : es = ks ++ z :: x :: rs) : z.1 = x.1 := by
  subst hes
  have hnone := filter_eq_nil_iff.mp (argmin_eq_none.mp h) (ks.length + 1)
    (mem_range'_1.mpr (by simp; omega))
  simpa [keyAt] using hnone

lemma splitLeaf_halves (h : Filled leafDirectory (ps.view left) (.leaf prev next) es)
    (halloc : AllocOk ps.pages used) (hleft : left ∈ used)
    (hfar : ∀ id, next = some id → id ∈ used ∧ id ≠ left ∧
      (ps.view id).expectKind .btreeLeaf = .ok ()) : Ends ps (splitLeaf left)
      (fun split ps' => ∃ middle, cutOf es = some middle ∧
        split.separator = (es.getD middle ([], [])).1 ∧
        Halved leafDirectory used ps ps' left split.right (.leaf prev (some split.right))
          (.leaf (some left) next) (es.take middle) (es.drop middle) ∧
        (∀ id, next = some id → ps'.view id = (ps.view id).setLeafPrev (some split.right)) ∧
        ∀ id, id ≠ left → id ≠ split.right → next ≠ some id → ps'.view id = ps.view id)
      fun ps' => Grown ps.pages ps'.pages ∧
        (available ps.pages = 0 ∨ es.length < 2 ∨ cutOf es = none) := by
  have hread : readPage left readLeafToSplit ps = .ok (es, next) ps := by
    refine readPage_of_ok ?_
    simp [readLeafToSplit, TreePage.expectKind, TreePage.kind, h.header, h.laid.ownedEntries,
      h.entries, TreePage.leafNext, bind, Except.bind]
  rw [splitLeaf, ends_bind_of_ok hread]
  by_cases hcount : es.length < 2
  · simp only [if_pos hcount]
    exact ⟨.refl _, .inr (.inl hcount)⟩
  simp only [if_neg hcount]
  rw [← cutOf]
  rcases hcut : cutOf es with _ | middle
  · exact ⟨.refl _, .inr (.inr rfl)⟩
  simp only
  refine ends_halve h halloc hleft middle middle
    (fun right page => page.clearEntries.setLeafNext (some right))
    (fun _ page => (page.initLeaf.setLeafPrev (some left)).setLeafNext next)
    (fun right => .leaf prev (some right)) (fun _ => .leaf (some left) next) ?_ (fun _ _ => rfl)
    (fun hnone => ⟨.refl _, .inl hnone⟩) fun right ps' hhalves hframe => ?_
  · intro right
    simp only [TreePage.clearEntries, TreePage.setLeafNext, h.header]
  cases hnext : next with
  | none =>
    subst hnext
    exact ⟨middle, rfl, rfl, hhalves, by simp, fun id hl hr _ => hframe id hl hr⟩
  | some far =>
    subst hnext
    obtain ⟨hfarUsed, hfarNe, hfarKind⟩ := hfar far rfl
    have hfarRight : far ≠ right := fun heq => hhalves.fresh (heq ▸ hfarUsed)
    refine ends_writePage () ((ps.view far).setLeafPrev (some right)) ?_ ?_
    · rw [hframe far hfarNe hfarRight, hfarKind]
      rfl
    refine ⟨middle, rfl, rfl, { hhalves with left := ?_, right := ?_ }, ?_, ?_⟩
    · rw [view_put_of_ne _ _ hfarNe.symm]
      exact hhalves.left
    · rw [view_put_of_ne _ _ hfarRight.symm]
      exact hhalves.right
    · rintro id heq
      cases heq
      exact view_put_self _ _ _
    · intro id hl hr hn
      have hidfar : id ≠ far := fun heq => hn (heq ▸ rfl)
      rw [view_put_of_ne _ _ hidfar, hframe id hl hr]

/-- The key of an internal page that is promoted. -/
def promotedOf (es : List Entry) : Option ℕ :=
  keyToPromote es (min (balancePoint (es.map entryWeight)) (es.length - 2))

lemma exists_cutAt_of_promotedOf (h : promotedOf es = some i) :
    ∃ ks z x r rs, CutAt es i ks z x (r :: rs) := by
  have hmem := argmin_mem h
  rw [mem_filter, mem_range'_1, decide_eq_true_eq] at hmem
  obtain ⟨ks, z, x, rs, hcut⟩ := exists_cutAt (by omega) (by omega) hmem.2.1
  have hlen := congrArg length hcut.2.2.2.1
  rw [length_drop, length_cons] at hlen
  obtain ⟨r, rs, rfl⟩ := exists_cons_of_length_pos (show 0 < rs.length by omega)
  exact ⟨ks, z, x, r, rs, hcut⟩

lemma key_eq_of_promotedOf_eq_none (h : promotedOf es = none) {ks rs : List Entry}
    {z x r : Entry} (hes : es = ks ++ z :: x :: r :: rs) : z.1 = x.1 ∨ x.1 = r.1 := by
  subst hes
  have hnone := filter_eq_nil_iff.mp (argmin_eq_none.mp h) (ks.length + 1)
    (mem_range'_1.mpr (by simp; omega))
  rw [decide_eq_true_eq, not_and_or, not_not, not_not] at hnone
  exact hnone.imp (fun h => by simpa [keyAt] using h)
    fun h => by simpa [keyAt, add_assoc, getElem?_append_right] using h

lemma splitInternal_halves (h : Filled internalDirectory (ps.view left) (.internal first) es)
    (halloc : AllocOk ps.pages used) (hleft : left ∈ used)
    (hchild : ∀ e ∈ es, e.2.length = childBytes) : Ends ps (splitInternal left)
      (fun split ps' => ∃ promoted, promotedOf es = some promoted ∧
        split.separator = (es.getD promoted ([], [])).1 ∧
        Halved internalDirectory used ps ps' left split.right (.internal first)
          (.internal (leNat (es.getD promoted ([], [])).2)) (es.take promoted)
          (es.drop (promoted + 1)) ∧ ∀ id, id ≠ left → id ≠ split.right → ps'.view id = ps.view id)
      fun ps' => Grown ps.pages ps'.pages ∧
        (available ps.pages = 0 ∨ es.length < 3 ∨ promotedOf es = none) := by
  have hread : readPage left readInternalToSplit ps = .ok (es, first) ps := by
    refine readPage_of_ok ?_
    simp [readInternalToSplit, TreePage.expectKind, TreePage.kind, h.header, h.laid.ownedEntries,
      h.entries, TreePage.leftmostChild, bind, Except.bind]
  rw [splitInternal, ends_bind_of_ok hread]
  by_cases hcount : es.length < 3
  · simp only [if_pos hcount]
    exact ⟨.refl _, .inr (.inl hcount)⟩
  simp only [if_neg hcount]
  rw [← promotedOf]
  rcases hcut : promotedOf es with _ | promoted
  · exact ⟨.refl _, .inr (.inr rfl)⟩
  have hpayload : childOf left (es.getD promoted ([], [])).2 =
      .ok (leNat (es.getD promoted ([], [])).2) := by
    obtain ⟨ks, z, x, r, rs, rfl, -, -, -, hx⟩ := exists_cutAt_of_promotedOf hcut
    rw [hx]
    exact if_neg (not_not.mpr (hchild x (by simp)))
  simp only [hpayload, ends_lift_ok_bind]
  exact ends_halve h halloc hleft promoted (promoted + 1)
    (fun _ page => { page.clearEntries with header := .internal first })
    (fun _ page => page.initInternal (leNat (es.getD promoted ([], [])).2)) _ _ (fun _ => rfl)
    (fun _ _ => rfl) (fun hnone => ⟨.refl _, .inl hnone⟩)
    fun right ps' hhalves hframe => ⟨promoted, rfl, rfl, hhalves, hframe⟩

/-! ### The keys of the halves -/

section Order

variable {lt : List UInt8 → List UInt8 → Prop} {sep : List UInt8}

/-- The keys of a page in the order of the page; equal ones may stand in a row. -/
def InOrder (lt : List UInt8 → List UInt8 → Prop) (es : List Entry) : Prop :=
  (es.map fst).Pairwise fun a b => lt a b ∨ a = b

/-- The keys of two pages on the two sides of a separator. -/
structure Separates (lt : List UInt8 → List UInt8 → Prop) (sep : List UInt8) (ls rs : List Entry) :
    Prop where
  nonempty : ls ≠ [] ∧ rs ≠ []
  below : ∀ e ∈ ls, lt e.1 sep
  above : ∀ e ∈ rs, lt sep e.1 ∨ sep = e.1

/-- A cut between two different keys separates the page. -/
lemma InOrder.separates [IsTrans _ lt] {ks rs : List Entry} {z x : Entry} (h : InOrder lt es)
    (hcut : CutAt es i ks z x rs) : Separates lt x.1 (ks ++ [z]) (x :: rs) := by
  obtain ⟨rfl, hne, -⟩ := hcut
  simp only [InOrder, map_append, map_cons, pairwise_append, pairwise_cons, mem_cons, mem_map,
    forall_eq_or_imp] at h
  obtain ⟨-, ⟨⟨hzx, -⟩, hx, -⟩, hks⟩ := h
  have hlt := hzx.resolve_right hne
  refine ⟨by simp, fun e he => ?_, fun e he => ?_⟩
  · rcases mem_append.mp he with he | he
    · rcases (hks e.1 ⟨e, he, rfl⟩).1 with hez | heq
      · exact IsTrans.trans _ _ _ hez hlt
      · rwa [heq]
    · rwa [mem_singleton.mp he]
  · rcases mem_cons.mp he with rfl | he
    · exact .inr rfl
    · exact hx e.1 ⟨e, he, rfl⟩

/-- The children of an internal page. -/
def TreePage.children (page : TreePage) : List PageId :=
  page.leftmostChild :: page.entries.map fun e => leNat e.2

/-- **A split keeps the entries of the page in order, on the two sides of a separator**, and the
children of an internal page, each once.  It fails only when no page is left, or when no two
neighbours of a leaf have different keys and no key of an internal page differs from both of its
neighbours. -/
theorem splits_keep_the_entries {lt : List UInt8 → List UInt8 → Prop} [IsTrans _ lt] {ps : PageSet}
    {used : List PageId} {left : PageId} {es : List Entry} (halloc : AllocOk ps.pages used)
    (hleft : left ∈ used) (horder : InOrder lt es) :
    (∀ prev next, Filled leafDirectory (ps.view left) (.leaf prev next) es →
      (∀ id, next = some id → id ∈ used ∧ id ≠ left ∧
        (ps.view id).expectKind .btreeLeaf = .ok ()) →
      Ends ps (splitLeaf left)
        (fun split ps' => (ps'.view left).entries ++ (ps'.view split.right).entries = es ∧
          Separates lt split.separator (ps'.view left).entries (ps'.view split.right).entries)
        fun _ => available ps.pages = 0 ∨ ∀ ks z x rs, es = ks ++ z :: x :: rs → z.1 = x.1) ∧
    ∀ first, Filled internalDirectory (ps.view left) (.internal first) es →
      (∀ e ∈ es, e.2.length = childBytes) → Ends ps (splitInternal left)
        (fun split ps' => (∃ x, x.1 = split.separator ∧
          (ps'.view left).entries ++ x :: (ps'.view split.right).entries = es) ∧
          Separates lt split.separator (ps'.view left).entries (ps'.view split.right).entries ∧
          (ps'.view left).children ++ (ps'.view split.right).children = (ps.view left).children)
        fun _ => available ps.pages = 0 ∨
          ∀ ks z x r rs, es = ks ++ z :: x :: r :: rs → z.1 = x.1 ∨ x.1 = r.1 := by
  refine ⟨fun prev next h hfar => ?_, fun first h hchild => ?_⟩
  · refine (splitLeaf_halves h halloc hleft hfar).mono ?_ fun _ hend => hend.2.imp_right ?_
    rotate_left
    · rintro (hlen | hnone) ks z x rs hes
      · simp [hes] at hlen
        omega
      · exact key_eq_of_cutOf_eq_none hnone hes
    rintro split ps' ⟨middle, hcut, hsep, hhalves, -⟩
    obtain ⟨ks, z, x, rs, hcut⟩ := exists_cutAt_of_cutOf hcut
    rw [hhalves.left.entries, hhalves.right.entries, hsep, hcut.2.2.2.2]
    refine ⟨take_append_drop _ _, ?_⟩
    rw [hcut.2.2.1, hcut.2.2.2.1]
    exact horder.separates hcut
  · refine (splitInternal_halves h halloc hleft hchild).mono ?_ fun _ hend => hend.2.imp_right ?_
    rotate_left
    · rintro (hlen | hnone) ks z x r rs hes
      · simp [hes] at hlen
        omega
      · exact key_eq_of_promotedOf_eq_none hnone hes
    rintro split ps' ⟨promoted, hcut, hsep, hhalves, -⟩
    obtain ⟨ks, z, x, r, rs, hcut⟩ := exists_cutAt_of_promotedOf hcut
    have hseps := horder.separates hcut
    obtain ⟨hes, -, htake, hdrop, hx⟩ := hcut
    rw [← drop_drop, hdrop, htake, hx] at hhalves
    simp only [TreePage.children, TreePage.leftmostChild, hhalves.left.entries,
      hhalves.right.entries, hhalves.left.header, hhalves.right.header, h.header, h.entries, hsep,
        hx]
    refine ⟨⟨x, rfl, by simp [hes]⟩, ⟨by simp, hseps.below, fun e he => ?_⟩, by simp [hes]⟩
    exact hseps.above e (mem_cons_of_mem _ he)

/-- A leaf of two entries. -/
def twoEntries : TreePage := ⟨0, .leaf none none, [⟨8187, ([1], [])⟩, ⟨8182, ([2], [])⟩]⟩

/-- An internal page of three keys and four children. -/
def fourChildren : TreePage :=
  ⟨0, .internal 4, [⟨8179, ([1], leBytes 8 5)⟩, ⟨8166, ([2], leBytes 8 6)⟩,
    ⟨8153, ([3], leBytes 8 7)⟩]⟩

/-- The leaf is halved, and the internal page with its middle key promoted. -/
theorem two_pages_are_split : Ends ⟨⟨fun _ => twoEntries, [], 1⟩, []⟩ (splitLeaf 0)
    (fun split ps' => (ps'.view 0).entries ++ (ps'.view split.right).entries = twoEntries.entries ∧
      Separates (· < ·) split.separator (ps'.view 0).entries (ps'.view split.right).entries)
    (fun _ => False) ∧
    Ends ⟨⟨fun _ => fourChildren, [], 1⟩, []⟩ (splitInternal 0)
      (fun split ps' => (∃ x, x.1 = split.separator ∧
        (ps'.view 0).entries ++ x :: (ps'.view split.right).entries = fourChildren.entries) ∧
        (ps'.view 0).children ++ (ps'.view split.right).children = [4, 5, 6, 7])
      fun _ => False := by
  have halloc : ∀ page, AllocOk ⟨fun _ => page, [], 1⟩ [0] :=
    fun page => ⟨by simp, by simp, by simp, (by decide : 1 ≤ maxU64)⟩
  have horder : InOrder (· < ·) twoEntries.entries ∧ InOrder (· < ·) fourChildren.entries := by
    unfold InOrder
    decide
  constructor
  · refine ((splits_keep_the_entries (halloc twoEntries) mem_cons_self horder.1).1 none none
      ⟨rfl, rfl, by decide, by decide, by decide⟩ (by simp)).mono (fun _ _ h => h) fun _ h => ?_
    exact absurd (h.resolve_left (by decide) [] _ _ [] rfl) (by decide)
  · refine ((splits_keep_the_entries (halloc fourChildren) mem_cons_self horder.2).2 4
      ⟨rfl, rfl, by decide, by decide, by decide⟩ (by decide)).mono
      (fun _ _ h => ⟨h.1, h.2.2⟩) fun _ h => ?_
    exact absurd (h.resolve_left (by decide) [] _ _ _ [] rfl) (by decide)

end Order

end Halves

/-! ### Entries that can be compared, and pages that hold them -/

/-- Any two of these keys can be compared. -/
def Comparable (order : KeyOrder) (keys : Set (List Value)) : Prop :=
  ∀ a ∈ keys, ∀ b ∈ keys, ∃ o, order.comparePrefix a b = .ok o

/-- An entry of one of these keys, whole and not too long. -/
structure Good (order : KeyOrder) (keys : Set (List Value)) (limit : ℕ) (e : TreeEntry) : Prop where
  key : e.1 ∈ keys
  width : e.1.length = order.arity
  size : (encodeEntryKey e).length ≤ limit

/-- A probe that can be compared with any entry of these keys. -/
structure Probe.Good (order : KeyOrder) (keys : Set (List Value)) (probe : Probe) : Prop where
  fits : probe.Fits order
  total : ∀ a ∈ keys, ∃ o, order.comparePrefix a probe.values = .ok o

structure HoldsLeaf (page : TreePage) (prev next : Option PageId) (es : List TreeEntry) : Prop where
  header : page.header = .leaf prev next
  entries : page.entries = es.map fun e => (encodeEntryKey e, [])
  laid : Laid leafDirectory page

def sepEntry (s : TreeEntry × PageId) : Entry := (encodeEntryKey s.1, leBytes childBytes s.2)

/-- An internal page, its leftmost child and its separators. -/
structure HoldsInner (page : TreePage) (first : PageId) (seps : List (TreeEntry × PageId)) :
    Prop where
  header : page.header = .internal first
  entries : page.entries = seps.map sepEntry
  laid : Laid internalDirectory page

section Entries

variable {order : KeyOrder} {keys : Set (List Value)} {limit : ℕ} {e f : TreeEntry}
  {probe : Probe}

lemma Probe.Good.compareEntry (hp : probe.Good order keys) (he : e.1 ∈ keys) :
    ∃ o, compareEntry order e probe = .ok o := by
  obtain ⟨o, ho⟩ := hp.total e.1 he
  cases o with
  | eq => exact ⟨_, compareEntry_eq_ok.mpr (.inr ⟨ho, rfl⟩)⟩
  | lt => exact ⟨.lt, compareEntry_eq_ok.mpr (.inl ⟨ho, by decide⟩)⟩
  | gt => exact ⟨.gt, compareEntry_eq_ok.mpr (.inl ⟨ho, by decide⟩)⟩

lemma Good.probeAt (hkeys : Comparable order keys) (he : Good order keys limit e) :
    (probeAt e).Good order keys :=
  ⟨⟨he.width.le, fun _ _ => he.width⟩, fun a ha => hkeys a ha e.1 he.key⟩

lemma Good.lt_pow (hlimit : limit ≤ maxInsertBytes) (he : Good order keys limit e) :
    (encodeEntryKey e).length < 2 ^ 32 := by
  have h := he.size.trans hlimit
  refine h.trans_lt ?_
  decide

lemma Good.decode (hlimit : limit ≤ maxInsertBytes) (he : Good order keys limit e) :
    decodeEntryKey (encodeEntryKey e) = .ok e :=
  decodeEntryKey_encodeEntryKey (he.lt_pow hlimit)

lemma Good.trichotomy (hkeys : Comparable order keys) (he : Good order keys limit e)
    (hf : Good order keys limit f) :
    EntryLt order e f ∨ EntryLt order f e ∨
      BTree.compareEntry order e (BTree.probeAt f) = .ok .eq := by
  obtain ⟨o, ho⟩ := (hf.probeAt hkeys).compareEntry he.key
  cases o with
  | lt => exact .inl ⟨he.width, hf.width, ho⟩
  | gt => exact .inr (.inl (.of_gt hf.width he.width ho))
  | eq => exact .inr (.inr ho)

lemma nodup_encode (hlimit : limit ≤ maxInsertBytes) {es : List TreeEntry}
    (hes : es.Pairwise (EntryLt order)) (hgood : ∀ e ∈ es, Good order keys limit e) :
    (es.map encodeEntryKey).Nodup := by
  rw [nodup_map_iff_inj_on]
  · intro x hx y hy hxy
    have hdecode := (hgood x hx).decode hlimit
    rw [hxy, (hgood y hy).decode hlimit] at hdecode
    exact (Except.ok.inj hdecode).symm
  · rw [nodup_iff_pairwise_ne]
    exact hes.imp fun h => h.ne

end Entries

/-! ### A put in a leaf -/

variable {left : PageId}

section Leaf

variable {order : KeyOrder} {keys : Set (List Value)} {limit : ℕ} {page : TreePage}
  {prev next : Option PageId} {es fs : List TreeEntry} {e : TreeEntry} {probe : Probe}
  {sep : TreeEntry} {ls rs : List TreeEntry} {ps : PageSet} {used : List PageId}

variable (h : HoldsLeaf page prev next es)
include h

lemma HoldsLeaf.kind : page.kind = .btreeLeaf := by
  rw [TreePage.kind, h.header]

lemma HoldsLeaf.expectKind : page.expectKind .btreeLeaf = .ok () := by
  rw [TreePage.expectKind, h.kind]
  rfl

lemma HoldsLeaf.keyBytes : page.entries.map fst = es.map encodeEntryKey := by
  rw [h.entries, map_map]
  rfl

lemma HoldsLeaf.length : page.slots.length = es.length := by
  rw [← TreePage.length_entries, h.entries, length_map]

omit h in
lemma HoldsLeaf.position (hlimit : limit ≤ maxInsertBytes) (h : HoldsLeaf page prev next (es ++ fs))
    (hgood : ∀ e ∈ es ++ fs, Good order keys limit e)
    (hes : ∀ e ∈ es, compareEntry order e probe = .ok .lt)
    (hfs : ∀ e ∈ fs, ∃ o, compareEntry order e probe = .ok o ∧ o ≠ .lt) :
    ReadsEntries page (leafPosition order probe) leafDirectory es.length := by
  refine ⟨by rw [h.length, length_append]; omega, fun page' hlaid hentries => ?_⟩
  refine pagePosition_spec hlaid (hentries ▸ h.keyBytes)
    (fun e he => (hgood e he).lt_pow hlimit) ?_ ?_
  · intro e he
    exact ⟨.lt, hes e he, rfl⟩
  · intro e he
    obtain ⟨o, ho, hne⟩ := hfs e he
    exact ⟨o, ho, by simpa using hne⟩

def leafWeight (e : TreeEntry) : ℕ := slotSize + entryOverhead + (encodeEntryKey e).length

omit h in
lemma entryWeight_leaf (e : TreeEntry) : entryWeight (encodeEntryKey e, []) = leafWeight e := by
  simp [entryWeight, entryLength, leafWeight, Nat.add_assoc]

lemma HoldsLeaf.weights : page.entries.map entryWeight = es.map leafWeight := by
  rw [h.entries, map_map]
  exact map_congr_left fun e _ => entryWeight_leaf e

lemma HoldsLeaf.weight : page.weight = (es.map leafWeight).sum := by
  rw [TreePage.weight, h.weights]

omit h

variable (hlimit : limit ≤ maxInsertBytes)
include hlimit

lemma Good.leafWeight_le (he : Good order keys limit e) :
    leafWeight e ≤ slotSize + entryOverhead + maxInsertBytes :=
  Nat.add_le_add_left (he.size.trans hlimit) _

variable {n : ℕ}

lemma Good.entry_size (he : Good order keys limit e)
    (hn : n ≤ childBytes) : (encodeEntryKey e).length + n ≤ maxEntryBytes := by
  have h := he.size.trans hlimit
  have h₁ : maxInsertBytes = 2028 := rfl
  have h₂ : maxEntryBytes = 8064 := rfl
  have h₃ : childBytes = 8 := rfl
  omega

lemma HoldsLeaf.place (h : HoldsLeaf page prev next (es ++ fs))
    (hgood : ∀ f ∈ es ++ fs, Good order keys limit f) (he : Good order keys limit e)
    (hes : ∀ f ∈ es, EntryLt order f e) (hfs : ∀ f ∈ fs, EntryLt order e f) :
    (placeInLeaf order (probeAt e) (encodeEntryKey e) page = .ok (.full, page) ∧
      pageSize < leafDirectory + ((es ++ fs).map leafWeight).sum + leafWeight e) ∨
    ∃ page', placeInLeaf order (probeAt e) (encodeEntryKey e) page = .ok (.inserted, page') ∧
      HoldsLeaf page' prev next (es ++ e :: fs) := by
  have hpos : ReadsEntries page (leafPosition order (probeAt e)) leafDirectory es.length :=
    h.position hlimit hgood (fun f hf => (hes f hf).lt) fun f hf => ⟨.gt, (hfs f hf).gt, by decide⟩
  have hsize : ((encodeEntryKey e, []) : Entry).1.length +
      ((encodeEntryKey e, []) : Entry).2.length ≤ maxEntryBytes :=
    he.entry_size hlimit (Nat.zero_le _)
  rcases placeEntry_spec h.laid hpos hsize with
    ⟨hput, hfull⟩ | ⟨page', hput, hputs⟩
  · left
    rw [h.weight, entryWeight_leaf] at hfull
    exact ⟨hput, hfull⟩
  · right
    refine ⟨page', hput, hputs.header.trans h.header, ?_, hputs.laid⟩
    rw [hputs.entries, h.entries, map_append, insertIdx_eq_take_append (by simp)]
    simp

lemma goesRight_of_lt (hsep : Good order keys limit sep)
    (h : EntryLt order sep e) : goesRight order (encodeEntryKey sep) (probeAt e) = .ok true := by
  simp [goesRight, hsep.decode hlimit, h.lt, bind, Except.bind]

lemma goesRight_of_gt (hsep : Good order keys limit sep)
    (h : EntryLt order e sep) : goesRight order (encodeEntryKey sep) (probeAt e) = .ok false := by
  simp [goesRight, hsep.decode hlimit, h.gt, bind, Except.bind]

omit hlimit

lemma lt_length_of_full {w : α → ℕ} {xs : List α} {b m k : ℕ}
    (hw : ∀ x ∈ xs, w x ≤ b) (hfit : n * b + k ≤ m) (hfull : m < (xs.map w).sum + k) :
    n < xs.length := by
  by_contra hle
  have hsum := sum_le_card_nsmul (xs.map w) b (by simpa using hw)
  rw [length_map, smul_eq_mul] at hsum
  have := Nat.mul_le_mul_right b (not_lt.mp hle)
  omega

lemma two_le_length_of_full (hlimit : limit ≤ maxInsertBytes)
    (hgood : ∀ f ∈ es, Good order keys limit f) (he : Good order keys limit e)
    (hfull : pageSize < leafDirectory + (es.map leafWeight).sum + leafWeight e) :
    2 ≤ es.length := by
  have hnew := he.leafWeight_le hlimit
  refine lt_length_of_full (w := leafWeight) (n := 1) (m := pageSize - leafDirectory)
    (k := leafWeight e)
    (fun f hf => (hgood f hf).leafWeight_le hlimit) ?_ ?_ <;>
  · simp only [slotSize, entryOverhead, maxInsertBytes, leafDirectory, pageSize, headerSize] at *
    omega

def leafCut (es : List TreeEntry) : ℕ := balancePoint (es.map leafWeight)

lemma leafCut_spec (hlen : 2 ≤ es.length) : ∃ ls sep rs, es = ls ++ sep :: rs ∧
    ls.length = leafCut es ∧ ls ≠ [] ∧ es.take (leafCut es) = ls ∧
    es.drop (leafCut es) = sep :: rs := by
  obtain ⟨h1, h2, _, _⟩ := balancePoint_spec (es.map leafWeight) (by simpa using hlen)
  simp only [length_map] at h2
  rw [← leafCut] at h1 h2
  obtain ⟨ls, sep, rs, heq, hcut⟩ := exists_cut_at (show leafCut es < es.length by omega)
  refine ⟨ls, sep, rs, heq, hcut, ne_nil_of_length_pos (by omega), ?_, ?_⟩
  · rw [← hcut, heq, take_left]
  · rw [← hcut, heq, drop_left]

lemma HoldsLeaf.cut (hlimit : limit ≤ maxInsertBytes) (h : HoldsLeaf page prev next es)
    (hsorted : es.Pairwise (EntryLt order)) (hgood : ∀ f ∈ es, Good order keys limit f)
    (hlen : 2 ≤ es.length) :
    cutBetweenKeys page.entries (balancePoint (page.entries.map entryWeight)) =
      some (leafCut es) := by
  have hnodup : (page.entries.map fst).Nodup := by
    rw [h.keyBytes]
    exact nodup_encode hlimit hsorted hgood
  rw [cutBetweenKeys_eq hnodup (by rw [TreePage.length_entries, h.length]; exact hlen), h.weights]
  rfl

lemma HoldsLeaf.separator (h : HoldsLeaf page prev next es) (heq : es = ls ++ sep :: rs)
    (hcut : ls.length = leafCut es) :
    (page.entries.getD (leafCut es) ([], [])).1 = encodeEntryKey sep := by
  rw [h.entries, ← hcut, heq]
  simp

lemma leafHalves_fit (hlimit : limit ≤ maxInsertBytes) (h : HoldsLeaf page prev next es)
    (hgood : ∀ f ∈ es, Good order keys limit f) (he : Good order keys limit e)
    (hlen : 2 ≤ es.length) (heq : es = ls ++ rs) (hcut : ls.length = leafCut es) :
    (ls.map leafWeight).sum + leafWeight e ≤ pageSize - leafDirectory ∧
      (rs.map leafWeight).sum + leafWeight e ≤ pageSize - leafDirectory := by
  have hfit := h.laid.weight_le
  rw [h.weight] at hfit
  have hpos : 0 < (es.map leafWeight).sum := by
    obtain ⟨f, l, rfl⟩ := exists_cons_of_length_pos (show 0 < es.length by omega)
    simp only [map_cons, sum_cons, leafWeight, slotSize]
    omega
  have hM : ∀ w ∈ es.map leafWeight, w ≤ slotSize + entryOverhead + maxInsertBytes := by
    intro w hw
    obtain ⟨f, hf, rfl⟩ := mem_map.mp hw
    exact (hgood f hf).leafWeight_le hlimit
  have hhalf := leafHalf_fits (by simpa using hlen) hM (he.leafWeight_le hlimit) hpos hfit
  rw [← leafCut, ← map_take, ← map_drop, ← hcut, heq, take_left, drop_left] at hhalf
  exact hhalf

lemma HoldsLeaf.leafSplitFits (hkeys : Comparable order keys) (hlimit : limit ≤ maxInsertBytes)
    (h : HoldsLeaf page prev next es) (hsorted : es.Pairwise (EntryLt order))
    (hgood : ∀ f ∈ es, Good order keys limit f) (he : Good order keys limit e)
    (hlen : 2 ≤ es.length) : leafSplitFits order (probeAt e) (encodeEntryKey e) page = .ok () := by
  obtain ⟨ls, sep, rs, heq, hcut, _, hls, hrs⟩ := leafCut_spec hlen
  have hsep : Good order keys limit sep := hgood sep (by simp [heq])
  obtain ⟨hl, hr⟩ := leafHalves_fit hlimit h hgood he hlen heq hcut
  obtain ⟨o, ho⟩ := (he.probeAt hkeys).compareEntry hsep.key
  have hright : goesRight order (encodeEntryKey sep) (probeAt e) = .ok (o ≠ .gt) := by
    simp [goesRight, hsep.decode hlimit, ho, bind, Except.bind]
  have htake : (page.entries.map entryWeight).take (leafCut es) = ls.map leafWeight := by
    rw [h.weights, ← map_take, hls]
  have hdrop : (page.entries.map entryWeight).drop (leafCut es) = (sep :: rs).map leafWeight := by
    rw [h.weights, ← map_drop, hrs]
  have hcount : ¬ page.entries.length < 2 := by
    rw [TreePage.length_entries, h.length]
    omega
  simp only [BTree.leafSplitFits, h.laid.ownedEntries, bind, Except.bind, hcount, if_false,
    h.cut hlimit hsorted hgood hlen, h.separator heq hcut, hright, htake, hdrop, entryWeight_leaf]
  refine if_neg (not_lt.mpr ?_)
  split_ifs
  · exact hr
  · exact hl

/-- What a split of a leaf leaves: two halves, linked, and a separator that begins the second
one. -/
structure LeafSplit (used : List PageId) (ps ps' : PageSet) (left : PageId)
    (prev next : Option PageId) (split : Split) (ls rs : List TreeEntry) : Prop where
  fresh : split.right ∉ used
  alloc : AllocOk ps'.pages (split.right :: used)
  grown : Grown ps.pages ps'.pages
  spent : available ps'.pages + 1 = available ps.pages
  separator : ∃ sep tail, rs = sep :: tail ∧ split.separator = encodeEntryKey sep
  holdsLeft : HoldsLeaf (ps'.view left) prev (some split.right) ls
  holdsRight : HoldsLeaf (ps'.view split.right) (some left) next rs
  far : ∀ id, next = some id → ps'.view id = (ps.view id).setLeafPrev (some split.right)
  frame : ∀ id, id ≠ left → id ≠ split.right → next ≠ some id → ps'.view id = ps.view id

lemma splitLeaf_spec (hlimit : limit ≤ maxInsertBytes)
    (h : HoldsLeaf (ps.view left) prev next es) (hsorted : es.Pairwise (EntryLt order))
    (hgood : ∀ f ∈ es, Good order keys limit f) (hlen : 2 ≤ es.length)
    (halloc : AllocOk ps.pages used) (hleft : left ∈ used)
    (hfar : ∀ id, next = some id → id ∈ used ∧ id ≠ left ∧
      (ps.view id).expectKind .btreeLeaf = .ok ()) : Ends ps (splitLeaf left)
      (fun split ps' => LeafSplit used ps ps' left prev next split (es.take (leafCut es))
        (es.drop (leafCut es)))
      fun ps' => Grown ps.pages ps'.pages ∧ BTree.available ps.pages = 0 := by
  obtain ⟨ls, sep, rs, heq, hcut, _, htake, hdrop⟩ := leafCut_spec hlen
  have hcutOf := h.cut hlimit hsorted hgood hlen
  refine (splitLeaf_halves ⟨h.header, rfl, h.laid⟩ halloc hleft hfar).mono ?_ ?_
  · rintro split ps' ⟨middle, hmiddle, hsep, hhalves, hfar, hframe⟩
    cases hcutOf.symm.trans hmiddle
    refine ⟨hhalves.fresh, hhalves.alloc, hhalves.grown, hhalves.spent, ⟨sep, rs, hdrop, ?_⟩,
      ⟨hhalves.left.header, ?_, hhalves.left.laid⟩, ⟨hhalves.right.header, ?_, hhalves.right.laid⟩,
      hfar, hframe⟩
    · rw [hsep, h.separator heq hcut]
    · rw [hhalves.left.entries, h.entries, map_take]
    · rw [hhalves.right.entries, h.entries, map_drop]
  · rintro ps' ⟨hgrown, hnone | hcount | hnone⟩
    · exact ⟨hgrown, hnone⟩
    · rw [TreePage.length_entries, h.length] at hcount
      omega
    · cases hcutOf.symm.trans hnone

lemma LeafSplit.putLeft {ps' : PageSet} {split : Split}
    (h : LeafSplit used ps ps' left prev next split ls rs) (hleft : left ∈ used)
    (hfar : ∀ id, next = some id → id ≠ left)
    (hpage : HoldsLeaf page prev (some split.right) (es ++ e :: fs)) :
    LeafSplit used ps (ps'.put left page) left prev next split (es ++ e :: fs) rs where
  __ := h
  holdsLeft := by rwa [view_put_self]
  holdsRight := by
    have hne : split.right ≠ left := fun heq => h.fresh (heq ▸ hleft)
    rw [view_put_of_ne _ _ hne]
    exact h.holdsRight
  far := by
    intro id hid
    rw [view_put_of_ne _ _ (hfar id hid)]
    exact h.far id hid
  frame := by
    intro id hl hr hn
    rw [view_put_of_ne _ _ hl]
    exact h.frame id hl hr hn

lemma LeafSplit.putRight {ps' : PageSet} {split : Split}
    (h : LeafSplit used ps ps' left prev next split ls (sep :: es ++ fs)) (hleft : left ∈ used)
    (hfar : ∀ id, next = some id → id ∈ used)
    (hpage : HoldsLeaf page (some left) next (sep :: es ++ e :: fs)) :
    LeafSplit used ps (ps'.put split.right page) left prev next split ls
      (sep :: es ++ e :: fs) where
  __ := h
  separator := by
    obtain ⟨sep', tail, heq, hsep⟩ := h.separator
    cases heq
    exact ⟨sep, _, rfl, hsep⟩
  holdsLeft := by
    have hne : left ≠ split.right := fun heq => h.fresh (heq ▸ hleft)
    rw [view_put_of_ne _ _ hne]
    exact h.holdsLeft
  holdsRight := by rwa [view_put_self]
  far := by
    intro id hid
    have hne : id ≠ split.right := fun heq => h.fresh (heq ▸ hfar id hid)
    rw [view_put_of_ne _ _ hne]
    exact h.far id hid
  frame := by
    intro id hl hr hn
    rw [view_put_of_ne _ _ hr]
    exact h.frame id hl hr hn

def LeafOutcome (used : List PageId) (ps : PageSet) (leaf : PageId) (prev next : Option PageId)
    (es : List TreeEntry) (out : Option Split) (ps' : PageSet) : Prop :=
  match out with
  | none => ps'.pages = ps.pages ∧ HoldsLeaf (ps'.view leaf) prev next es ∧
      ∀ id, id ≠ leaf → ps'.view id = ps.view id
  | some split => ∃ ls rs, ls ++ rs = es ∧ ls ≠ [] ∧
      LeafSplit used ps ps' leaf prev next split ls rs

/-- An entry is put between those before it and those past it; the leaf is cut in two around it
when it has no room. -/
theorem putInLeaf_spec {leaf : PageId} (hkeys : Comparable order keys)
    (hlimit : limit ≤ maxInsertBytes) (h : HoldsLeaf (ps.view leaf) prev next (es ++ fs))
    (hsorted : (es ++ fs).Pairwise (EntryLt order))
    (hgood : ∀ f ∈ es ++ fs, Good order keys limit f) (he : Good order keys limit e)
    (hes : ∀ f ∈ es, EntryLt order f e) (hfs : ∀ f ∈ fs, EntryLt order e f)
    (halloc : AllocOk ps.pages used) (hleaf : leaf ∈ used)
    (hfar : ∀ id, next = some id → id ∈ used ∧ id ≠ leaf ∧
      (ps.view id).expectKind .btreeLeaf = .ok ()) :
    Ends ps (putInLeaf order leaf (encodeEntryKey e) (BTree.probeAt e))
      (LeafOutcome used ps leaf prev next (es ++ e :: fs))
      fun ps' => Grown ps.pages ps'.pages ∧ available ps.pages = 0 := by
  have hkind := h.expectKind
  rcases h.place hlimit hgood he hes hfs with ⟨hput, hfull⟩ | ⟨page, hput, hholds⟩
  · -- The leaf is full: it splits, and the entry goes to the half it belongs to.
    have hlen := two_le_length_of_full hlimit hgood he hfull
    have hwrite := writePage_onKind hkind hput
    have hview := ps.view_put_view leaf
    set ps₀ := ps.put leaf (ps.view leaf) with hps₀
    have hpages : ps₀.pages = ps.pages := rfl
    rw [putInLeaf, ends_bind_of_ok hwrite, if_neg (by decide)]
    have h₀ : HoldsLeaf (ps₀.view leaf) prev next (es ++ fs) := by rwa [hview]
    have hfits := readPage_of_ok (h₀.leafSplitFits hkeys hlimit hsorted hgood he hlen)
    rw [ends_bind_of_ok hfits, ends_bind]
    refine (splitLeaf_spec hlimit h₀ hsorted hgood hlen (hpages ▸ halloc) hleaf
      (by rwa [hview])).mono ?_ fun _ hend => hend
    intro split ps₁ hsplit
    obtain ⟨ls, sep, rs, heq, hcut, hne, htake, hdrop⟩ := leafCut_spec hlen
    rw [htake, hdrop] at hsplit
    obtain ⟨hl, hr⟩ := leafHalves_fit hlimit h hgood he hlen heq hcut
    have hsplit : LeafSplit used ps ps₁ leaf prev next split ls (sep :: rs) :=
      { hsplit with far := hview ▸ hsplit.far, frame := hview ▸ hsplit.frame }
    obtain ⟨sep', tail, hcons, hseparator⟩ := hsplit.separator
    cases hcons
    have hsepGood : Good order keys limit sep := hgood sep (by simp [heq])
    have hdir : leafDirectory ≤ pageSize := by decide
    rcases append_eq_append_cons heq with ⟨mid, rfl, rfl⟩ | ⟨mid, rfl, rfl⟩
    · -- The separator is past the entry, which goes to the left half.
      have hgo := goesRight_of_gt hlimit hsepGood (hfs sep (by simp))
      rcases hsplit.holdsLeft.place hlimit (fun f hf => hgood f (by grind)) he hes
          (fun f hf => hfs f (by simp [hf])) with ⟨_, hover⟩ | ⟨page, hput', hholds⟩
      · omega
      · rw [hseparator, hgo, ends_lift_ok_bind]
        simp only [Bool.false_eq_true, if_false]
        rw [ends_bind_of_ok (writePage_of_ok hput'), if_neg (by decide), ends_pure]
        exact ⟨es ++ e :: mid, sep :: rs, by simp, by simp,
          hsplit.putLeft hleaf (fun id hid => (hfar id hid).2.1) hholds⟩
    · -- The separator is before the entry, which goes to the right half.
      have hgo := goesRight_of_lt hlimit hsepGood (hes sep (by simp))
      have hsplit' : LeafSplit used ps ps₁ leaf prev next split ls (sep :: mid ++ fs) := hsplit
      rcases hsplit'.holdsRight.place hlimit
          (fun f hf => hgood f (by grind)) he (fun f hf => hes f (by grind)) hfs with
        ⟨_, hover⟩ | ⟨page, hput', hholds⟩
      · rw [cons_append] at hover
        omega
      · rw [hseparator, hgo, ends_lift_ok_bind]
        simp only [if_true]
        rw [ends_bind_of_ok (writePage_of_ok hput'), if_neg (by decide), ends_pure]
        exact ⟨ls, sep :: mid ++ e :: fs, by simp, hne,
          hsplit'.putRight hleaf (fun id hid => (hfar id hid).1) hholds⟩
  · rw [putInLeaf, ends_bind_of_ok (writePage_onKind hkind hput), if_pos rfl, ends_pure]
    refine ⟨rfl, ?_, fun id hid => view_put_of_ne _ _ hid⟩
    rwa [view_put_self]

end Leaf

/-! ### A put in an internal page -/

section Inner

variable {order : KeyOrder} {keys : Set (List Value)} {limit : ℕ} {page : TreePage} {first : PageId}
  {ss ts : List (TreeEntry × PageId)} {s : TreeEntry × PageId} {probe : Probe}
  {l r : List (TreeEntry × PageId)} {p : TreeEntry × PageId}

variable (h : HoldsInner page first ss)
include h

lemma HoldsInner.kind : page.kind = .btreeInternal := by
  rw [TreePage.kind, h.header]

lemma HoldsInner.expectKind : page.expectKind .btreeInternal = .ok () := by
  rw [TreePage.expectKind, h.kind]
  rfl

lemma HoldsInner.keyBytes : page.entries.map fst = (ss.map fst).map encodeEntryKey := by
  rw [h.entries, map_map, map_map]
  rfl

lemma HoldsInner.length : page.slots.length = ss.length := by
  rw [← TreePage.length_entries, h.entries, length_map]

omit h in
lemma HoldsInner.position (hlimit : limit ≤ maxInsertBytes) (h : HoldsInner page first (ss ++ ts))
    (hgood : ∀ s ∈ ss ++ ts, Good order keys limit s.1)
    (hss : ∀ s ∈ ss, ∃ o, compareEntry order s.1 probe = .ok o ∧ o ≠ .gt)
    (hts : ∀ s ∈ ts, compareEntry order s.1 probe = .ok .gt) :
    ReadsEntries page (internalPosition order probe) internalDirectory ss.length := by
  refine ⟨by rw [h.length, length_append]; omega, fun page' hlaid hentries => ?_⟩
  have hkeyBytes : page'.entries.map fst = (ss.map fst ++ ts.map fst).map encodeEntryKey := by
    rw [hentries, h.keyBytes, map_append]
  rw [show ss.length = (ss.map fst).length from (length_map _).symm]
  refine pagePosition_spec hlaid hkeyBytes ?_ ?_ ?_
  · intro e he
    rw [← map_append] at he
    obtain ⟨s, hs, rfl⟩ := mem_map.mp he
    exact (hgood s hs).lt_pow hlimit
  · intro e he
    obtain ⟨s, hs, rfl⟩ := mem_map.mp he
    obtain ⟨o, ho, hne⟩ := hss s hs
    exact ⟨o, ho, by simpa using hne⟩
  · intro e he
    obtain ⟨s, hs, rfl⟩ := mem_map.mp he
    exact ⟨.gt, hts s hs, rfl⟩

def innerWeight (s : TreeEntry × PageId) : ℕ :=
  slotSize + entryOverhead + childBytes + (encodeEntryKey s.1).length

omit h in
lemma entryWeight_sepEntry (s : TreeEntry × PageId) : entryWeight (sepEntry s) = innerWeight s := by
  simp only [entryWeight, entryLength, sepEntry, innerWeight, length_leBytes]
  omega

lemma HoldsInner.weights : page.entries.map entryWeight = ss.map innerWeight := by
  rw [h.entries, map_map]
  exact map_congr_left fun s _ => entryWeight_sepEntry s

lemma HoldsInner.weight : page.weight = (ss.map innerWeight).sum := by
  rw [TreePage.weight, h.weights]

variable (hlimit : limit ≤ maxInsertBytes)
include hlimit

omit h in
lemma HoldsInner.place (h : HoldsInner page first (ss ++ ts))
    (hgood : ∀ t ∈ ss ++ ts, Good order keys limit t.1) (hs : Good order keys limit s.1)
    (hss : ∀ t ∈ ss, EntryLt order t.1 s.1) (hts : ∀ t ∈ ts, EntryLt order s.1 t.1) :
    (placeInInternal order (probeAt s.1) (encodeEntryKey s.1) s.2 page = .ok (.full, page) ∧
      pageSize < internalDirectory + ((ss ++ ts).map innerWeight).sum + innerWeight s) ∨
    ∃ page', placeInInternal order (probeAt s.1) (encodeEntryKey s.1) s.2 page =
        .ok (.inserted, page') ∧ HoldsInner page' first (ss ++ s :: ts) := by
  have hpos :
      ReadsEntries page (internalPosition order (probeAt s.1)) internalDirectory ss.length :=
    h.position hlimit hgood (fun t ht => ⟨.lt, (hss t ht).lt, by decide⟩) fun t ht => (hts t ht).gt
  have hsize : (sepEntry s).1.length + (sepEntry s).2.length ≤ maxEntryBytes := by
    rw [show (sepEntry s).2.length = childBytes from length_leBytes _ _]
    exact hs.entry_size hlimit le_rfl
  rcases placeEntry_spec h.laid hpos hsize with ⟨hput, hfull⟩ | ⟨page', hput, hputs⟩
  · left
    rw [h.weight, entryWeight_sepEntry] at hfull
    exact ⟨hput, hfull⟩
  · right
    refine ⟨page', hput, hputs.header.trans h.header, ?_, hputs.laid⟩
    rw [hputs.entries, h.entries, map_append, insertIdx_eq_take_append (by simp)]
    simp

def innerCut (ss : List (TreeEntry × PageId)) : ℕ := promotedIndex (ss.map innerWeight)

omit hlimit in
omit h in
lemma innerCut_spec (hlen : 3 ≤ ss.length) : ∃ l p r, ss = l ++ p :: r ∧
    l.length = innerCut ss ∧ l ≠ [] ∧ r ≠ [] := by
  obtain ⟨h1, h2, _, _⟩ := balancePoint_spec (ss.map innerWeight) (by simp; omega)
  simp only [length_map] at h2
  have hle : 1 ≤ innerCut ss ∧ innerCut ss ≤ ss.length - 2 := by
    simp only [innerCut, promotedIndex, length_map]
    omega
  obtain ⟨l, p, r, heq, hcut⟩ := exists_cut_at (show innerCut ss < ss.length by omega)
  have hlength := congrArg length heq
  rw [length_append, length_cons] at hlength
  exact ⟨l, p, r, heq, hcut, ne_nil_of_length_pos (by omega), ne_nil_of_length_pos (by omega)⟩

omit h in
lemma HoldsInner.cut (h : HoldsInner page first ss)
    (hsorted : (ss.map fst).Pairwise (EntryLt order))
    (hgood : ∀ t ∈ ss, Good order keys limit t.1) (hlen : 3 ≤ ss.length) : keyToPromote page.entries
      (min (balancePoint (page.entries.map entryWeight)) (page.entries.length - 2)) =
      some (innerCut ss) := by
  have hnodup : (page.entries.map fst).Nodup := by
    rw [h.keyBytes]
    have hgood' : ∀ e ∈ ss.map fst, Good order keys limit e := by
      intro e he
      obtain ⟨t, ht, rfl⟩ := mem_map.mp he
      exact hgood t ht
    exact nodup_encode hlimit hsorted hgood'
  rw [keyToPromote_eq hnodup (by rw [TreePage.length_entries, h.length]; exact hlen), h.weights]
  rfl

omit hlimit in
lemma HoldsInner.promoted (heq : ss = l ++ p :: r)
    (hcut : l.length = innerCut ss) : page.entries.getD (innerCut ss) ([], []) = sepEntry p := by
  rw [h.entries, ← hcut, heq]
  simp

omit h

omit hlimit in
lemma Good.innerWeight_le {limit' : ℕ} (hs : Good order keys limit s.1) (hlimit : limit ≤ limit') :
    innerWeight s ≤ slotSize + entryOverhead + childBytes + limit' :=
  Nat.add_le_add_left (hs.size.trans hlimit) _

lemma three_le_length_of_full
    (hgood : ∀ t ∈ ss, Good order keys limit t.1) (hs : Good order keys limit s.1)
    (hfull : pageSize < internalDirectory + (ss.map innerWeight).sum + innerWeight s) :
    3 ≤ ss.length := by
  have hnew := hs.innerWeight_le hlimit
  refine lt_length_of_full (w := innerWeight) (n := 2) (m := pageSize - internalDirectory)
    (k := innerWeight s)
    (fun t ht => (hgood t ht).innerWeight_le hlimit) ?_ ?_ <;>
  · simp only [slotSize, entryOverhead, childBytes, maxInsertBytes, leafDirectory,
      internalDirectory, pageSize, headerSize] at *
    omega

omit hlimit in
lemma innerHalves_fit (hlimit : limit ≤ safeInsertBytes) (h : HoldsInner page first ss)
    (hgood : ∀ t ∈ ss, Good order keys limit t.1) (hs : Good order keys limit s.1)
    (hlen : 3 ≤ ss.length) (heq : ss = l ++ p :: r) (hcut : l.length = innerCut ss) :
    (l.map innerWeight).sum + innerWeight s ≤ pageSize - internalDirectory ∧
      (r.map innerWeight).sum + innerWeight s ≤ pageSize - internalDirectory := by
  have hfit := h.laid.weight_le
  rw [h.weight] at hfit
  have hpos : 0 < (ss.map innerWeight).sum := by
    obtain ⟨t, m, rfl⟩ := exists_cons_of_length_pos (show 0 < ss.length by omega)
    simp only [map_cons, sum_cons, innerWeight, slotSize]
    omega
  have hM : ∀ w ∈ ss.map innerWeight,
      w ≤ slotSize + entryOverhead + childBytes + safeInsertBytes := by
    intro w hw
    obtain ⟨t, ht, rfl⟩ := mem_map.mp hw
    exact (hgood t ht).innerWeight_le hlimit
  have hhalf := internalHalf_fits (by simpa using hlen) hM (hs.innerWeight_le hlimit) hpos hfit
  have hdrop : ss.drop (innerCut ss + 1) = r := by
    rw [← hcut, heq]
    simp
  have htake : ss.take (innerCut ss) = l := by rw [← hcut, heq, take_left]
  rw [← innerCut, ← map_take, ← map_drop, hdrop, htake] at hhalf
  exact hhalf

/-- The half of an internal page a separator goes to has room for it. -/
def HalfFits (order : KeyOrder) (s p : TreeEntry × PageId) (l r : List (TreeEntry × PageId)) :
    Prop :=
  (EntryLt order s.1 p.1 →
    (l.map innerWeight).sum + innerWeight s ≤ pageSize - internalDirectory) ∧
  (EntryLt order p.1 s.1 →
    (r.map innerWeight).sum + innerWeight s ≤ pageSize - internalDirectory)

lemma HoldsInner.internalSplitFits (h : HoldsInner page first ss)
    (hsorted : (ss.map fst).Pairwise (EntryLt order))
    (hgood : ∀ t ∈ ss, Good order keys limit t.1) (hlen : 3 ≤ ss.length) (heq : ss = l ++ p :: r)
    (hcut : l.length = innerCut ss) (hside : EntryLt order s.1 p.1 ∨ EntryLt order p.1 s.1) :
    (internalSplitFits order (probeAt s.1) (encodeEntryKey s.1) page = .ok () ∧
      HalfFits order s p l r) ∨
    ((∃ m, internalSplitFits order (probeAt s.1) (encodeEntryKey s.1) page = .error (.bug m)) ∧
      ¬ HalfFits order s p l r) := by
  have hp : Good order keys limit p.1 := hgood p (by simp [heq])
  have htake : (page.entries.map entryWeight).take (innerCut ss) = l.map innerWeight := by
    rw [h.weights, ← map_take, ← hcut, heq, take_left]
  have hdrop : (page.entries.map entryWeight).drop (innerCut ss + 1) = r.map innerWeight := by
    rw [h.weights, ← map_drop, ← hcut, heq]
    simp
  have hcount : ¬ page.entries.length < 3 := by
    rw [TreePage.length_entries, h.length]
    omega
  have hwant : slotSize + entryOverhead + (encodeEntryKey s.1).length + childBytes =
      innerWeight s := by
    rw [innerWeight]
    omega
  -- the half the separator goes to
  obtain ⟨right, hgo, hhalf⟩ : ∃ right,
      goesRight order (encodeEntryKey p.1) (probeAt s.1) = .ok right ∧ (HalfFits order s p l r ↔
        (if right then (r.map innerWeight).sum else (l.map innerWeight).sum) + innerWeight s ≤
          pageSize - internalDirectory) := by
    rcases hside with hlt | hgt
    · exact ⟨false, goesRight_of_gt hlimit hp hlt, fun h => h.1 hlt,
        fun h => ⟨fun _ => h, fun hgt => absurd hgt hlt.asymm⟩⟩
    · exact ⟨true, goesRight_of_lt hlimit hp hgt, fun h => h.2 hgt,
        fun h => ⟨fun hlt => absurd hlt hgt.asymm, fun _ => h⟩⟩
  have hfits : BTree.internalSplitFits order (probeAt s.1) (encodeEntryKey s.1) page =
      checkHalf internalDirectory page.id right
        (if right then (r.map innerWeight).sum else (l.map innerWeight).sum) (innerWeight s) := by
    simp only [BTree.internalSplitFits, h.laid.ownedEntries, bind, Except.bind, hcount, if_false,
      h.cut hlimit hsorted hgood hlen, h.promoted heq hcut, sepEntry, hgo, htake, hdrop, hwant]
  rw [hfits, checkHalf, hhalf]
  by_cases hroom : (if right then (r.map innerWeight).sum else (l.map innerWeight).sum) +
      innerWeight s ≤ pageSize - internalDirectory
  · exact .inl ⟨if_neg (not_lt.mpr hroom), hroom⟩
  · exact .inr ⟨⟨_, if_pos (not_le.mp hroom)⟩, hroom⟩

/-- What a split of an internal page leaves: two halves, and a separator between them. -/
structure InnerSplit (used : List PageId) (ps ps' : PageSet) (left first : PageId)
    (split : Split) (l : List (TreeEntry × PageId)) (p : TreeEntry × PageId)
    (r : List (TreeEntry × PageId)) : Prop where
  fresh : split.right ∉ used
  alloc : AllocOk ps'.pages (split.right :: used)
  grown : Grown ps.pages ps'.pages
  spent : available ps'.pages + 1 = available ps.pages
  separator : split.separator = encodeEntryKey p.1
  holdsLeft : HoldsInner (ps'.view left) first l
  holdsRight : HoldsInner (ps'.view split.right) p.2 r
  frame : ∀ id, id ≠ left → id ≠ split.right → ps'.view id = ps.view id

omit hlimit in
lemma childOf_leBytes (id : PageId) {child : PageId} (h : child < maxU64) :
    childOf id (leBytes childBytes child) = .ok child := by
  have hlt : child < 256 ^ 8 := h.trans (by decide)
  rw [childOf]
  simp only [length_leBytes]
  rw [if_neg (by simp), childBytes, leNat_leBytes hlt]

lemma splitInternal_spec (h : HoldsInner (ps.view left) first ss)
    (hsorted : (ss.map fst).Pairwise (EntryLt order))
    (hgood : ∀ t ∈ ss, Good order keys limit t.1) (hlen : 3 ≤ ss.length) (heq : ss = l ++ p :: r)
    (hcut : l.length = innerCut ss) (hp : p.2 < maxU64) (halloc : AllocOk ps.pages used)
    (hleft : left ∈ used) : Ends ps (splitInternal left)
      (fun split ps' => InnerSplit used ps ps' left first split l p r)
      fun ps' => Grown ps.pages ps'.pages ∧ BTree.available ps.pages = 0 := by
  have hcutOf := h.cut hlimit hsorted hgood hlen
  have hchild : ∀ e ∈ (ps.view left).entries, e.2.length = childBytes := by
    rw [h.entries]
    simp only [mem_map, forall_exists_index, and_imp, forall_apply_eq_imp_iff₂]
    exact fun s _ => length_leBytes _ _
  refine (splitInternal_halves ⟨h.header, rfl, h.laid⟩ halloc hleft hchild).mono ?_ ?_
  · rintro split ps' ⟨promoted, hpromoted, hsep, hhalves, hframe⟩
    cases hcutOf.symm.trans hpromoted
    rw [h.promoted heq hcut] at hsep hhalves
    refine ⟨hhalves.fresh, hhalves.alloc, hhalves.grown, hhalves.spent, hsep,
      ⟨hhalves.left.header, ?_, hhalves.left.laid⟩, ⟨?_, ?_, hhalves.right.laid⟩, hframe⟩
    · rw [hhalves.left.entries, h.entries, ← map_take, ← hcut, heq, take_left]
    · rw [hhalves.right.header]
      exact congrArg _ (leNat_leBytes (hp.trans (by decide)))
    · rw [hhalves.right.entries, h.entries, ← map_drop, ← hcut, heq]
      simp
  · rintro ps' ⟨hgrown, hnone | hcount | hnone⟩
    · exact ⟨hgrown, hnone⟩
    · rw [TreePage.length_entries, h.length] at hcount
      omega
    · cases hcutOf.symm.trans hnone

def InnerOutcome (used : List PageId) (ps : PageSet) (parent first : PageId)
    (ss : List (TreeEntry × PageId)) (out : Option Split) (ps' : PageSet) : Prop :=
  match out with
  | none => ps'.pages = ps.pages ∧ HoldsInner (ps'.view parent) first ss ∧
      ∀ id, id ≠ parent → ps'.view id = ps.view id
  | some split => ∃ l p r, l ++ p :: r = ss ∧ l ≠ [] ∧ r ≠ [] ∧
      InnerSplit used ps ps' parent first split l p r

/-- A separator and its child are put between those before and those past it; the page is cut
in two around them when it has no room. -/
theorem putInInternal_spec {parent : PageId} (h : HoldsInner (ps.view parent) first (ss ++ ts))
    (hsorted : ((ss ++ ts).map fst).Pairwise (EntryLt order))
    (hgood : ∀ t ∈ ss ++ ts, Good order keys limit t.1) (hs : Good order keys limit s.1)
    (hss : ∀ t ∈ ss, EntryLt order t.1 s.1) (hts : ∀ t ∈ ts, EntryLt order s.1 t.1)
    (hchild : ∀ t ∈ ss ++ ts, t.2 < maxU64) (halloc : AllocOk ps.pages used)
    (hparent : parent ∈ used) : Ends ps (putInInternal order parent ⟨s.2, encodeEntryKey s.1⟩)
      (InnerOutcome used ps parent first (ss ++ s :: ts)) fun ps' => Grown ps.pages ps'.pages ∧
        (available ps.pages = 0 ∨ safeInsertBytes < limit) := by
  have hkind := h.expectKind
  have hprobe : probeOf (encodeEntryKey s.1) = .ok (probeAt s.1) := by
    simp [probeOf, hs.decode hlimit, bind, Except.bind]
  rw [putInInternal]
  simp only [hprobe, ends_lift_ok_bind]
  rcases h.place hlimit hgood hs hss hts with ⟨hput, hfull⟩ | ⟨page, hput, hholds⟩
  · -- The page is full: it splits, and the separator goes to the half it belongs to.
    have hlen := three_le_length_of_full hlimit hgood hs hfull
    have hwrite := writePage_onKind hkind hput
    have hview := ps.view_put_view parent
    set ps₀ := ps.put parent (ps.view parent) with hps₀
    have hpages : ps₀.pages = ps.pages := rfl
    rw [ends_bind_of_ok hwrite, if_neg (by decide)]
    have h₀ : HoldsInner (ps₀.view parent) first (ss ++ ts) := by rwa [hview]
    obtain ⟨l, p, r, heq, hcut, hl, hr⟩ := innerCut_spec hlen
    have hside : EntryLt order s.1 p.1 ∨ EntryLt order p.1 s.1 := by
      have hmem : p ∈ ss ++ ts := by simp [heq]
      rcases mem_append.mp hmem with hm | hm
      · exact .inr (hss p hm)
      · exact .inl (hts p hm)
    rcases h₀.internalSplitFits hlimit hsorted hgood hlen heq hcut hside with
      ⟨hfits, hhalf⟩ | ⟨⟨m, hfits⟩, hhalf⟩
    · have hread := readPage_of_ok hfits
      rw [ends_bind_of_ok hread, ends_bind]
      refine (splitInternal_spec hlimit h₀ hsorted hgood hlen heq hcut
        (hchild p (by simp [heq])) (hpages ▸ halloc) hparent).mono ?_ ?_
      · intro split ps₁ hsplit
        have hp : Good order keys limit p.1 := hgood p (by simp [heq])
        have hne : split.right ≠ parent := fun heq => hsplit.fresh (heq ▸ hparent)
        have hframe : ∀ id, id ≠ parent → id ≠ split.right → ps₁.view id = ps.view id :=
          hview ▸ hsplit.frame
        have hdir : internalDirectory ≤ pageSize := by decide
        rcases append_eq_append_cons heq with ⟨mid, rfl, rfl⟩ | ⟨mid, rfl, rfl⟩
        · -- The promoted separator is past the new one, which goes to the left half.
          have hlt : EntryLt order s.1 p.1 := hts p (by simp)
          have hroom := hhalf.1 hlt
          rcases hsplit.holdsLeft.place hlimit (fun t ht => hgood t (by grind)) hs hss
              (fun t ht => hts t (by simp [ht])) with ⟨_, hover⟩ | ⟨page, hput', hholds⟩
          · omega
          · rw [hsplit.separator, goesRight_of_gt hlimit hp hlt, ends_lift_ok_bind]
            simp only [Bool.false_eq_true, if_false]
            rw [ends_bind_of_ok (writePage_of_ok hput'), if_neg (by decide), ends_pure]
            refine ⟨ss ++ s :: mid, p, r, by simp, by simp, hr,
              { hsplit with holdsLeft := ?_, holdsRight := ?_, frame := ?_ }⟩
            · rwa [view_put_self]
            · rw [view_put_of_ne _ _ hne]
              exact hsplit.holdsRight
            · intro id hidl hidr
              rw [view_put_of_ne _ _ hidl]
              exact hframe id hidl hidr
        · -- The promoted separator is before the new one, which goes to the right half.
          have hgt : EntryLt order p.1 s.1 := hss p (by simp)
          have hroom := hhalf.2 hgt
          rcases hsplit.holdsRight.place hlimit (fun t ht => hgood t (by grind)) hs
              (fun t ht => hss t (by simp [ht])) hts with ⟨_, hover⟩ | ⟨page, hput', hholds⟩
          · omega
          · rw [hsplit.separator, goesRight_of_lt hlimit hp hgt, ends_lift_ok_bind]
            simp only [if_true]
            rw [ends_bind_of_ok (writePage_of_ok hput'), if_neg (by decide), ends_pure]
            refine ⟨l, p, mid ++ s :: ts, by simp, hl, by simp,
              { hsplit with holdsLeft := ?_, holdsRight := ?_, frame := ?_ }⟩
            · rw [view_put_of_ne _ _ hne.symm]
              exact hsplit.holdsLeft
            · rwa [view_put_self]
            · intro id hidl hidr
              rw [view_put_of_ne _ _ hidr]
              exact hframe id hidl hidr
      · rintro ps₁ ⟨hgrown, hnone⟩
        exact ⟨hgrown, .inl hnone⟩
    · -- The half has no room: this takes an entry longer than the safe length.
      rw [ends_bind, Ends, readPage, get_bind_apply, hfits]
      refine ⟨.refl _, .inr ?_⟩
      by_contra hle
      obtain ⟨hfl, hfr⟩ := innerHalves_fit (not_lt.mp hle) h hgood hs hlen heq hcut
      exact hhalf ⟨fun _ => hfl, fun _ => hfr⟩
  · rw [ends_bind_of_ok (writePage_onKind hkind hput), if_pos rfl, ends_pure]
    refine ⟨rfl, ?_, fun id hid => view_put_of_ne _ _ hid⟩
    rwa [view_put_self]

end Inner

end BTree

end VaubanDB
