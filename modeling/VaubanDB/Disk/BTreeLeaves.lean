import VaubanDB.Disk.BTreeRecord

/-!
The leaves of a B+tree.

`Linked` says what the chain of leaves holds in the pages.  `LeavesOk` says where the entries are:
in order in each leaf, none before the fence of its leaf and all before the fences of the later
ones.  It is kept by an entry put where it belongs (`LeavesOk.insert`), a leaf cut in two
(`LeavesOk.cut`) and an entry taken away (`LeavesOk.remove`).
-/

namespace VaubanDB

open List

namespace BTree

structure Leaf where
  id : PageId
  /-- The entry all its entries are at or past, none for the first leaf. -/
  fence : Option TreeEntry
  entries : List TreeEntry

/-- How the level above names the leaf. -/
def Leaf.ref (l : Leaf) : Ref := (l.fence, l.id)

def contents (leaves : List Leaf) : List TreeEntry := leaves.flatMap Leaf.entries

lemma contents_cut (B A : List Leaf) (l : Leaf) :
    contents (B ++ l :: A) = contents B ++ l.entries ++ contents A := by
  simp [contents]

/-! ### The links of the chain -/

/-- The first leaf of a chain, and the leaf past it when the chain is empty. -/
def headId (next : Option PageId) : List Leaf → Option PageId
  | [] => next
  | l :: _ => some l.id

/-- The last leaf of a chain, and the leaf before it when the chain is empty. -/
def lastId (prev : Option PageId) : List Leaf → Option PageId
  | [] => prev
  | l :: ls => lastId (some l.id) ls

/-- Each leaf of the chain carries its entries and names its neighbours. -/
def Linked (page : PageId → TreePage) (prev next : Option PageId) : List Leaf → Prop
  | [] => True
  | l :: ls => HoldsLeaf (page l.id) prev (headId next ls) l.entries ∧
      Linked page (some l.id) next ls

variable {es : List TreeEntry}

section Links

variable {page page' : PageId → TreePage} {prev next : Option PageId} {leaves A B : List Leaf}

lemma headId_append (next : Option PageId) (A B : List Leaf) :
    headId next (A ++ B) = headId (headId next B) A := by
  cases A <;> rfl

lemma linked_append : Linked page prev next (A ++ B) ↔
    Linked page prev (headId next B) A ∧ Linked page (lastId prev A) next B := by
  induction A generalizing prev with
  | nil => simp [Linked, lastId]
  | cons l A ih => rw [cons_append, Linked, Linked, ih, headId_append, lastId, and_assoc]

lemma linked_cut {l : Leaf} : Linked page prev next (B ++ l :: A) ↔ Linked page prev (some l.id) B ∧
      HoldsLeaf (page l.id) (lastId prev B) (headId next A) l.entries ∧
      Linked page (some l.id) next A := by
  rw [linked_append]
  rfl

lemma Linked.congr (h : Linked page prev next leaves)
    (heq : ∀ l ∈ leaves, page' l.id = page l.id) : Linked page' prev next leaves := by
  induction leaves generalizing prev with
  | nil => trivial
  | cons l ls ih =>
    refine ⟨?_, ih h.2 fun m hm => heq m (by simp [hm])⟩
    rw [heq l (by simp)]
    exact h.1

lemma Linked.holds (h : Linked page prev next leaves) {l : Leaf} (hl : l ∈ leaves) :
    ∃ prev next, HoldsLeaf (page l.id) prev next l.entries := by
  obtain ⟨B, A, rfl⟩ := append_of_mem hl
  exact ⟨_, _, (linked_cut.mp h).2.1⟩

lemma HoldsLeaf.setLeafPrev {page : TreePage} {prev' : Option PageId}
    (h : HoldsLeaf page prev next es) : HoldsLeaf (page.setLeafPrev prev') prev' next es := by
  have heq : page.setLeafPrev prev' = { page with header := .leaf prev' next } := by
    rw [TreePage.setLeafPrev, h.header]
  rw [heq]
  exact ⟨rfl, h.entries, ⟨h.laid.directoryFits, h.laid.inside, h.laid.apart⟩⟩

lemma Linked.relink (h : Linked page prev next leaves) {right : PageId}
    (hhead : ∀ l ls, leaves = l :: ls → page' l.id = (page l.id).setLeafPrev (some right) ∧
      ∀ m ∈ ls, page' m.id = page m.id) : Linked page' (some right) next leaves := by
  cases leaves with
  | nil => trivial
  | cons l ls =>
    obtain ⟨hl, hls⟩ := hhead l ls rfl
    refine ⟨?_, h.2.congr hls⟩
    rw [hl]
    exact h.1.setLeafPrev

end Links

/-! ### The entries of the chain -/

/-- Where the entries of a chain of leaves are. -/
structure LeavesOk (order : KeyOrder) (keys : Set (List Value)) (limit : ℕ) (leaves : List Leaf) :
    Prop where
  fences : FencesOk order keys limit (leaves.map Leaf.fence)
  sorted : ∀ l ∈ leaves, l.entries.Pairwise (EntryLt order)
  good : ∀ l ∈ leaves, ∀ e ∈ l.entries, Good order keys limit e
  above : ∀ l ∈ leaves, ∀ e ∈ l.entries, NotPast order (probeAt e) l.fence
  below : leaves.Pairwise fun l m => ∀ e ∈ l.entries, Past order (probeAt e) m.fence

section Order

variable {order : KeyOrder} {keys : Set (List Value)} {limit : ℕ} {leaves A B : List Leaf}
  {l : Leaf} {e : TreeEntry} {es fs : List TreeEntry} {fence : Option TreeEntry}

lemma EntryLt.of_fence {f : TreeEntry} (he : Good order keys limit e)
    (hf : Good order keys limit f) (hfence : ∀ a, fence = some a → Good order keys limit a)
    (hpast : Past order (probeAt e) fence) (hnot : NotPast order (probeAt f) fence) :
    EntryLt order e f := by
  cases fence with
  | none => exact hpast.elim
  | some a =>
    obtain ⟨o, ho, hne⟩ := hnot
    have hlt : EntryLt order e a := .of_gt he.width (hfence a rfl).width hpast
    refine ⟨he.width, hf.width, hlt.side_left ⟨hf.width.le, fun _ _ => hf.width⟩ ho hne⟩

lemma EntryLt.of_notPast {a f : TreeEntry} (hkeys : Comparable order keys)
    (ha : Good order keys limit a) (he : Good order keys limit e)
    (h : NotPast order (probeAt f) (some a)) (hfe : EntryLt order f e) : EntryLt order a e := by
  obtain ⟨o, ho, hne⟩ := h
  have hnot : ¬ EntryLt order f a := by
    intro hfa
    rw [hfa.gt] at ho
    exact hne (Except.ok.inj ho).symm
  rcases he.trichotomy hkeys ha with hea | hae | heq
  · exact absurd (hfe.trans hea) hnot
  · exact hae
  · exact absurd ⟨hfe.widthLeft, ha.width,
      hfe.side_left ⟨ha.width.le, fun _ _ => ha.width⟩ heq (by decide)⟩ hnot

lemma FenceLt.trans {f g h : Option TreeEntry} (hfg : FenceLt order f g) (hgh : FenceLt order g h) :
    FenceLt order f h := by
  cases f <;> cases g <;> cases h <;> simp only [FenceLt] at hfg hgh ⊢
  exact EntryLt.trans hfg hgh

lemma Past.fenceLt (he : Good order keys limit e)
    (hfence : ∀ a, fence = some a → Good order keys limit a)
    (h : Past order (probeAt e) fence) : FenceLt order (some e) fence := by
  cases fence with
  | none => exact h.elim
  | some a => exact EntryLt.of_gt he.width (hfence a rfl).width h

lemma LeavesOk.fence_good (h : LeavesOk order keys limit leaves) (hl : l ∈ leaves) (a : TreeEntry)
    (ha : l.fence = some a) : Good order keys limit a :=
  h.fences.good a (ha ▸ mem_map_of_mem hl)

lemma LeavesOk.good_contents (h : LeavesOk order keys limit leaves) (he : e ∈ contents leaves) :
    Good order keys limit e := by
  obtain ⟨l, hl, he⟩ := mem_flatMap.mp he
  exact h.good l hl e he

lemma LeavesOk.sorted_contents (h : LeavesOk order keys limit leaves) :
    (contents leaves).Pairwise (EntryLt order) := by
  rw [contents, pairwise_flatMap]
  refine ⟨h.sorted, ?_⟩
  refine h.below.imp_of_mem ?_
  intro l m hl hm hlm e he f hf
  exact .of_fence (h.good l hl e he) (h.good m hm f hf) (h.fence_good hm) (hlm e he)
    (h.above m hm f hf)

lemma LeavesOk.update (h : LeavesOk order keys limit (B ++ l :: A))
    (hsorted : es.Pairwise (EntryLt order)) (hgood : ∀ e ∈ es, Good order keys limit e)
    (habove : ∀ e ∈ es, NotPast order (probeAt e) l.fence)
    (hbelow : ∀ e ∈ es, ∀ m ∈ A, Past order (probeAt e) m.fence) :
    LeavesOk order keys limit (B ++ { l with entries := es } :: A) := by
  have hmem : ∀ m ∈ B ++ { l with entries := es } :: A,
      m = { l with entries := es } ∨ m ∈ B ++ l :: A := by
    intro m hm
    simp only [mem_append, mem_cons] at hm ⊢
    tauto
  refine ⟨?_, ?_, ?_, ?_, ?_⟩
  · simpa using h.fences
  · intro m hm
    rcases hmem m hm with rfl | hm
    · exact hsorted
    · exact h.sorted m hm
  · intro m hm
    rcases hmem m hm with rfl | hm
    · exact hgood
    · exact h.good m hm
  · intro m hm
    rcases hmem m hm with rfl | hm
    · exact habove
    · exact h.above m hm
  · have hbefore := h.below
    simp only [pairwise_append, pairwise_cons, mem_cons] at hbefore ⊢
    obtain ⟨hB, ⟨_, hA⟩, hBA⟩ := hbefore
    refine ⟨hB, ⟨fun m hm e he => hbelow e he m hm, hA⟩, ?_⟩
    rintro b hb m (rfl | hm)
    · exact hBA b hb l (.inl rfl)
    · exact hBA b hb m (.inr hm)

lemma LeavesOk.insert (h : LeavesOk order keys limit (B ++ l :: A))
    (hl : l.entries = es ++ fs) (he : Good order keys limit e)
    (hfence : NotPast order (probeAt e) l.fence) (hA : ∀ m ∈ A, Past order (probeAt e) m.fence)
    (hes : ∀ f ∈ es, EntryLt order f e) (hfs : ∀ f ∈ fs, EntryLt order e f) :
    LeavesOk order keys limit (B ++ { l with entries := es ++ e :: fs } :: A) := by
  have hmem : ∀ f ∈ es ++ e :: fs, f = e ∨ f ∈ l.entries := by
    intro f hf
    rw [hl]
    simp only [mem_append, mem_cons] at hf ⊢
    tauto
  refine h.update ?_ ?_ ?_ ?_
  · have hsorted := h.sorted l (by simp)
    rw [hl, pairwise_append] at hsorted
    refine pairwise_append.mpr ⟨hsorted.1, pairwise_cons.mpr ⟨hfs, hsorted.2.1⟩, ?_⟩
    rintro f hf g hg
    rcases mem_cons.mp hg with rfl | hg
    · exact hes f hf
    · exact (hes f hf).trans (hfs g hg)
  · intro f hf
    rcases hmem f hf with rfl | hf
    · exact he
    · exact h.good l (by simp) f hf
  · intro f hf
    rcases hmem f hf with rfl | hf
    · exact hfence
    · exact h.above l (by simp) f hf
  · intro f hf m hm
    rcases hmem f hf with rfl | hf
    · exact hA m hm
    · exact ((pairwise_cons.mp (pairwise_append.mp h.below).2.1).1 m hm) f hf

lemma LeavesOk.remove (h : LeavesOk order keys limit (B ++ l :: A))
    (hl : l.entries = es ++ e :: fs) :
    LeavesOk order keys limit (B ++ { l with entries := es ++ fs } :: A) := by
  have hmem : ∀ f ∈ es ++ fs, f ∈ l.entries := by
    intro f hf
    rw [hl]
    simp only [mem_append, mem_cons] at hf ⊢
    tauto
  refine h.update ?_ (fun f hf => h.good l (by simp) f (hmem f hf))
    (fun f hf => h.above l (by simp) f (hmem f hf)) ?_
  · have hsorted := h.sorted l (by simp)
    rw [hl] at hsorted
    exact hsorted.sublist ((sublist_cons_self e fs).append_left es)
  · intro f hf m hm
    exact ((pairwise_cons.mp (pairwise_append.mp h.below).2.1).1 m hm) f (hmem f hf)

/-- A leaf cut in two in front of one of its entries, which becomes the fence of the right half. -/
lemma LeavesOk.cut (hkeys : Comparable order keys) (h : LeavesOk order keys limit (B ++ l :: A))
    (hl : l.entries = es ++ e :: fs) (hes : es ≠ []) (right : PageId) : LeavesOk order keys limit
      (B ++ { l with entries := es } :: ⟨right, some e, e :: fs⟩ :: A) := by
  have hlm : l ∈ B ++ l :: A := by simp
  have hsorted := h.sorted l hlm
  rw [hl, pairwise_append, pairwise_cons] at hsorted
  obtain ⟨hsortedL, ⟨hhead, hsortedR⟩, hcross⟩ := hsorted
  have hin : ∀ f ∈ es ++ e :: fs, f ∈ l.entries := fun f hf => hl ▸ hf
  have hgood : ∀ f ∈ es ++ e :: fs, Good order keys limit f := fun f hf => h.good l hlm f (hin f hf)
  have he := hgood e (by simp)
  -- Some entry stays in the left half, so the old fence is strictly before the new one.
  have hfence : FenceLt order l.fence (some e) := by
    obtain ⟨f, hf⟩ := exists_mem_of_ne_nil es hes
    have habove := h.above l hlm f (hin f (by simp [hf]))
    cases hfence : l.fence with
    | none => trivial
    | some a =>
      rw [hfence] at habove
      exact .of_notPast hkeys (h.fence_good hlm a hfence) he habove (hcross f hf e (by simp))
  have hpast : ∀ f ∈ es ++ e :: fs, ∀ m ∈ A, Past order (probeAt f) m.fence := fun f hf m hm =>
    (pairwise_cons.mp (pairwise_append.mp h.below).2.1).1 m hm f (hin f hf)
  have hleft := h.update hsortedL (fun f hf => hgood f (by simp [hf]))
    (fun f hf => h.above l hlm f (hin f (by simp [hf]))) fun f hf => hpast f (by simp [hf])
  have hmem : ∀ m ∈ B ++ { l with entries := es } :: ⟨right, some e, e :: fs⟩ :: A,
      m = ⟨right, some e, e :: fs⟩ ∨ m ∈ B ++ { l with entries := es } :: A := by
    intro m hm
    simp only [mem_append, mem_cons] at hm ⊢
    tauto
  refine ⟨⟨?_, ?_⟩, ?_, ?_, ?_, ?_⟩
  · have hfences := h.fences.sorted
    simp only [map_append, map_cons, pairwise_append, pairwise_cons, mem_cons] at hfences ⊢
    obtain ⟨hB, ⟨hlA, hA⟩, hBA⟩ := hfences
    refine ⟨hB, ⟨?_, ?_, hA⟩, ?_⟩
    · rintro a (rfl | ha)
      · exact hfence
      · exact hlA a ha
    · intro a ha
      obtain ⟨m, hm, rfl⟩ := mem_map.mp ha
      exact (hpast e (by simp) m hm).fenceLt he (h.fence_good (by simp [hm]))
    · rintro b hb a (rfl | rfl | ha)
      · exact hBA b hb _ (.inl rfl)
      · exact (hBA b hb _ (.inl rfl)).trans hfence
      · exact hBA b hb a (.inr ha)
  · intro a ha
    obtain ⟨m, hm, hma⟩ := mem_map.mp ha
    rcases hmem m hm with rfl | hm
    · cases hma
      exact he
    · exact hleft.fence_good hm a hma
  · intro m hm
    rcases hmem m hm with rfl | hm
    · exact pairwise_cons.mpr ⟨hhead, hsortedR⟩
    · exact hleft.sorted m hm
  · intro m hm
    rcases hmem m hm with rfl | hm
    · exact fun f hf => hgood f (mem_append_right _ hf)
    · exact hleft.good m hm
  · intro m hm
    rcases hmem m hm with rfl | hm
    · intro f hf
      rcases mem_cons.mp hf with rfl | hf
      · rcases he.trichotomy hkeys he with h | h | h
        · exact (EntryLt.irrefl h).elim
        · exact (EntryLt.irrefl h).elim
        · exact ⟨.eq, h, by decide⟩
      · exact ⟨.lt, (hhead f hf).lt, by decide⟩
    · exact hleft.above m hm
  · have hbelow := hleft.below
    simp only [pairwise_append, pairwise_cons, mem_cons] at hbelow ⊢
    obtain ⟨hB, ⟨_, hA⟩, hBA⟩ := hbelow
    refine ⟨hB, ⟨?_, fun m hm f hf => hpast f (by simp [hf]) m hm, hA⟩, ?_⟩
    · rintro m (rfl | hm) f hf
      · exact (hcross f hf e (by simp)).gt
      · exact hpast f (by simp [hf]) m hm
    · rintro b hb m (rfl | rfl | hm) f hf
      · exact hBA b hb _ (.inl rfl) f hf
      · -- The entries before the leaf are before those the leaf had.
        have hlt : EntryLt order f e := .of_fence (h.good b (by simp [hb]) f hf) he
          (h.fence_good hlm) (hBA b hb _ (.inl rfl) f hf) (h.above l hlm e (hin e (by simp)))
        exact hlt.gt
      · exact hBA b hb m (.inr hm) f hf

end Order

end BTree

end VaubanDB
