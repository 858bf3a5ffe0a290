import VaubanDB.Disk.BTreePut

/-!
The shape of a B+tree, level by level.

All leaves are at one depth, so a tree is its list of leaves and, above it, levels of internal
pages.  A page is referred to with its fence, the least entry it may hold.  The first child of a
page has the fence of the page, the others its separators, so a level is what `children` makes of
the level above (`Stacked`).  A descent ends at the leaf whose fence is the last one not past the
probe (`descend_levels`).
-/

namespace VaubanDB

open List Prod

namespace BTree

open EStateM

/-! ### Levels -/

/-- A page with its fence; the first page of a level has none. -/
abbrev Ref := Option TreeEntry × PageId

structure Inner where
  id : PageId
  fence : Option TreeEntry
  first : PageId
  seps : List (TreeEntry × PageId)

def sepRef (s : TreeEntry × PageId) : Ref := (some s.1, s.2)

namespace Inner

def ref (x : Inner) : Ref := (x.fence, x.id)

def children (x : Inner) : List Ref := (x.fence, x.first) :: x.seps.map sepRef

end Inner

/-- The levels above a list of pages, up to the root. -/
def Stacked : List Ref → List (List Inner) → PageId → Prop
  | lower, [], root => lower = [(none, root)]
  | lower, level :: rest, root =>
    level.flatMap Inner.children = lower ∧ Stacked (level.map Inner.ref) rest root

def FenceLt (order : KeyOrder) : Option TreeEntry → Option TreeEntry → Prop
  | none, some _ => True
  | some a, some b => EntryLt order a b
  | _, none => False

/-- The fences of a level are in order, and can be compared. -/
structure FencesOk (order : KeyOrder) (keys : Set (List Value)) (limit : ℕ)
    (fences : List (Option TreeEntry)) : Prop where
  sorted : fences.Pairwise (FenceLt order)
  good : ∀ a, some a ∈ fences → Good order keys limit a

structure InnerOk (page : TreePage) (x : Inner) : Prop where
  holds : HoldsInner page x.first x.seps
  nonempty : x.seps ≠ []
  child : ∀ s ∈ x.seps, s.2 < maxU64

def levelIds (levels : List (List Inner)) : List PageId :=
  levels.flatMap fun level => level.map Inner.id

/-- The pages of the levels hold what they should. -/
def LevelsOk (page : PageId → TreePage) (levels : List (List Inner)) : Prop :=
  ∀ level ∈ levels, ∀ x ∈ level, InnerOk (page x.id) x

variable {x : Inner}

section Fences

variable {order : KeyOrder} {keys : Set (List Value)} {limit : ℕ}

lemma FencesOk.sublist {fences fences' : List (Option TreeEntry)}
    (h : FencesOk order keys limit fences) (hsub : fences'.Sublist fences) :
    FencesOk order keys limit fences' :=
  ⟨h.sorted.sublist hsub, fun a ha => h.good a (hsub.subset ha)⟩

@[simp] lemma map_fst_children (x : Inner) :
    x.children.map fst = x.fence :: x.seps.map fun s => some s.1 := by
  simp [Inner.children, sepRef]

lemma fences_sublist (level : List Inner) :
    (level.map Inner.fence).Sublist ((level.flatMap Inner.children).map fst) := by
  induction level with
  | nil => simp
  | cons x level ih =>
    simp only [map_cons, flatMap_cons, map_append, map_fst_children, cons_append]
    exact (ih.trans (sublist_append_right _ _)).cons_cons _

lemma children_sublist {level : List Inner} (hx : x ∈ level) :
    (x.children.map fst).Sublist ((level.flatMap Inner.children).map fst) := by
  obtain ⟨B, A, rfl⟩ := append_of_mem hx
  simp only [flatMap_append, flatMap_cons, map_append]
  exact (sublist_append_left _ _).trans (sublist_append_right _ _)

lemma map_fst_map_ref (level : List Inner) :
    (level.map Inner.ref).map fst = level.map Inner.fence := by
  simp [Inner.ref, Function.comp_def]

lemma FencesOk.seps (h : FencesOk order keys limit (x.children.map fst)) :
    (x.seps.map fst).Pairwise (EntryLt order) ∧ ∀ s ∈ x.seps, Good order keys limit s.1 := by
  rw [map_fst_children] at h
  refine ⟨?_, fun s hs => h.good s.1 (by simp only [mem_cons, mem_map]; exact .inr ⟨s, hs, rfl⟩)⟩
  have hsorted := (pairwise_cons.mp h.sorted).2
  rw [pairwise_map] at hsorted ⊢
  exact hsorted.imp fun h => h

end Fences

/-! ### Descents -/

variable {levels : List (List Inner)} {lower : List Ref}

section Descent

variable {order : KeyOrder} {keys : Set (List Value)} {limit : ℕ} {probe : Probe}

def NotPast (order : KeyOrder) (probe : Probe) : Option TreeEntry → Prop
  | none => True
  | some a => ∃ o, compareEntry order a probe = .ok o ∧ o ≠ .gt

def Past (order : KeyOrder) (probe : Probe) : Option TreeEntry → Prop
  | none => False
  | some a => compareEntry order a probe = .ok .gt

lemma Past.of_lt (hp : probe.Fits order) {f g : Option TreeEntry} (hf : Past order probe f)
    (hfg : FenceLt order f g) : Past order probe g := by
  cases f with
  | none => exact hf.elim
  | some a =>
    cases g with
    | none => exact hfg.elim
    | some b => exact EntryLt.side_right hfg hp hf (by decide)

/-- The path from the root to one page of the lowest level; the page nearest to it comes first. -/
def PathTo : List Ref → Ref → List Ref → List (List Inner) → List PageId → Prop
  | before, _, after, [], path => before = [] ∧ after = [] ∧ path = []
  | before, r, after, level :: rest, path =>
    ∃ (B : List Inner) (x : Inner) (A : List Inner) (cb ca : List Ref) (up : List PageId),
      level = B ++ x :: A ∧ x.children = cb ++ r :: ca ∧
      before = B.flatMap Inner.children ++ cb ∧ after = ca ++ A.flatMap Inner.children ∧
      path = x.id :: up ∧ PathTo (B.map Inner.ref) x.ref (A.map Inner.ref) rest up

lemma PathTo.length {before after : List Ref} {r : Ref}
    {path : List PageId} (h : PathTo before r after levels path) : path.length = levels.length := by
  induction levels generalizing before r after path with
  | nil => simp [h.2.2]
  | cons level rest ih =>
    obtain ⟨B, x, A, cb, ca, up, _, _, _, _, rfl, hup⟩ := h
    simp [ih hup]

/-- A descent goes from an internal page to the child whose fence is the last one not past the
probe. -/
lemma descendStep_spec (hlimit : limit ≤ maxInsertBytes) (hp : probe.Good order keys)
    {page : TreePage} (h : InnerOk page x)
    (hfences : FencesOk order keys limit (x.children.map fst))
    (hfence : NotPast order probe x.fence) (root node : PageId) :
    ∃ cb c ca, x.children = cb ++ c :: ca ∧ NotPast order probe c.1 ∧
      (∀ r ∈ ca, Past order probe r.1) ∧
      descendStep order root probe node page = .ok (some c.2) := by
  obtain ⟨hsorted, hgood⟩ := hfences.seps
  have hall : ∀ e ∈ x.seps.map fst, ∃ o, compareEntry order e probe = .ok o := by
    intro e he
    obtain ⟨s, hs, rfl⟩ := mem_map.mp he
    exact hp.compareEntry (hgood s hs).key
  obtain ⟨es, fs, hcut, hes, hfs⟩ :=
    exists_cut (· ≠ .gt) hp.fits hsorted hall (by decide) (by decide)
  obtain ⟨ss, ts, hseps, rfl, rfl⟩ := map_eq_append_iff.mp hcut
  have hss : ∀ s ∈ ss, ∃ o, compareEntry order s.1 probe = .ok o ∧ o ≠ .gt := by
    intro s hs
    obtain ⟨o, ho, hb⟩ := hes s.1 (mem_map_of_mem hs)
    exact ⟨o, ho, by simpa using hb⟩
  have hts : ∀ s ∈ ts, compareEntry order s.1 probe = .ok .gt := by
    intro s hs
    obtain ⟨o, ho, hb⟩ := hfs s.1 (mem_map_of_mem hs)
    have : o = .gt := by simpa using hb
    rw [ho, this]
  have hholds := h.holds
  rw [hseps] at hholds hgood
  have hindex : internalPosition order probe page = .ok ss.length :=
    (hholds.position hlimit hgood hss hts).2 page hholds.laid rfl
  have hpast : ∀ r ∈ ts.map sepRef, Past order probe r.1 := by
    intro r hr
    obtain ⟨s, hs, rfl⟩ := mem_map.mp hr
    exact hts s hs
  have hstep : ∀ child, internalChild page ss.length = .ok child →
      descendStep order root probe node page = .ok (some child) := by
    intro child hchild
    simp [descendStep, hholds.kind, hindex, hchild, bind, Except.bind]
  rcases eq_nil_or_concat ss with rfl | ⟨ss, s, rfl⟩
  · refine ⟨[], (x.fence, x.first), ts.map sepRef, by simp [Inner.children, hseps], hfence, hpast,
      hstep _ ?_⟩
    simp [internalChild, hholds.expectKind, TreePage.leftmostChild, hholds.header, bind,
      Except.bind]
  · refine ⟨(x.fence, x.first) :: ss.map sepRef, sepRef s, ts.map sepRef,
      by simp [Inner.children, hseps], hss s (by simp), hpast, hstep _ ?_⟩
    have hget : page.entries[ss.length]? = some (sepEntry s) := by
      rw [hholds.entries]
      simp
    have hchild := childOf_leBytes page.id (h.child s (by simp [hseps]))
    simp [internalChild, hholds.expectKind, hholds.laid.entryAt hget, sepEntry, hchild, sepRef,
      bind, Except.bind]

/-- A descent goes through one page of each level, to the page of the lowest level whose fence
is the last one not past the probe. -/
lemma descend_levels (hlimit : limit ≤ maxInsertBytes) (hp : probe.Good order keys)
    {page : PageId → TreePage} {root : PageId}
    (hstack : Stacked lower levels root) (hfences : FencesOk order keys limit (lower.map fst))
    (hpages : LevelsOk page levels) (hdepth : levels.length ≤ maxDepth) :
    ∃ before r after path, lower = before ++ r :: after ∧ NotPast order probe r.1 ∧
      (∀ s ∈ after, Past order probe s.1) ∧ PathTo before r after levels path ∧
      ∀ fuel, descendLoop order page root probe (fuel + levels.length) root [] =
        descendLoop order page root probe fuel r.2 path.reverse := by
  induction levels generalizing lower with
  | nil =>
    refine ⟨[], (none, root), [], [], hstack, trivial, by simp, ⟨rfl, rfl, rfl⟩, ?_⟩
    intro fuel
    rfl
  | cons level rest ih =>
    obtain ⟨rfl, hstack⟩ := hstack
    have hupper : FencesOk order keys limit ((level.map Inner.ref).map fst) := by
      rw [map_fst_map_ref]
      exact hfences.sublist (fences_sublist level)
    simp only [length_cons] at hdepth
    obtain ⟨before, r, after, path, hlower, hnot, hpast, hpath, hloop⟩ :=
      ih hstack hupper (fun level hl => hpages level (by simp [hl])) (by omega)
    obtain ⟨B, A', rfl, rfl, hA⟩ := map_eq_append_iff.mp hlower
    obtain ⟨x, A, rfl, rfl, rfl⟩ := map_eq_cons_iff.mp hA
    have hx : x ∈ B ++ x :: A := by simp
    have hxok := hpages _ (by simp) x hx
    obtain ⟨cb, c, ca, hchildren, hc, hca, hstep⟩ := descendStep_spec hlimit hp hxok
      (hfences.sublist (children_sublist hx)) hnot root x.id
    refine ⟨B.flatMap Inner.children ++ cb, c, ca ++ A.flatMap Inner.children, x.id :: path, ?_,
      hc, ?_, ⟨B, x, A, cb, ca, path, rfl, hchildren, rfl, rfl, rfl, hpath⟩, ?_⟩
    · simp [hchildren]
    · intro s hs
      rcases mem_append.mp hs with hs | hs
      · exact hca s hs
      · -- A child of a page past the probe is past it, like the fence of the page.
        obtain ⟨y, hy, hsy⟩ := mem_flatMap.mp hs
        have hyref : Past order probe y.fence := hpast y.ref (mem_map_of_mem hy)
        rcases mem_cons.mp hsy with rfl | hsy
        · exact hyref
        · have hsorted := (hfences.sublist (children_sublist
            (show y ∈ B ++ x :: A by simp [hy]))).sorted
          rw [map_fst_children, pairwise_cons] at hsorted
          obtain ⟨t, ht, rfl⟩ := mem_map.mp hsy
          exact hyref.of_lt hp.fits
            (hsorted.1 (some t.1) (mem_map_of_mem (f := fun s => some s.1) ht))
    · intro fuel
      have hlen : ¬ (path.reverse ++ [x.id]).length > maxDepth := by
        simp only [length_append, length_reverse, length_singleton, hpath.length]
        omega
      have h : _ = descendLoop order page root probe (fuel + 1) x.id path.reverse :=
        hloop (fuel + 1)
      rw [length_cons, show fuel + (rest.length + 1) = fuel + 1 + rest.length by omega, h]
      simp only [descendLoop, hstep, bind, Except.bind]
      rw [if_neg hlen, reverse_cons]

end Descent

lemma Stacked.two_pow_le {root : PageId} (hstack : Stacked lower levels root)
    (hseps : ∀ level ∈ levels, ∀ x ∈ level, x.seps ≠ []) : 2 ^ levels.length ≤ lower.length := by
  induction levels generalizing lower with
  | nil =>
    rw [show lower = _ from hstack]
    simp
  | cons level rest ih =>
    obtain ⟨rfl, hstack⟩ := hstack
    have hrest := ih hstack fun level hl => hseps level (by simp [hl])
    rw [length_map] at hrest
    have htwice : 2 * level.length ≤ (level.flatMap Inner.children).length := by
      have hlevel := hseps level (by simp)
      clear ih hrest hstack hseps
      induction level with
      | nil => simp
      | cons x level ih =>
        have hx : 1 ≤ x.seps.length := length_pos_iff.mpr (hlevel x (by simp))
        have := ih fun y hy => hlevel y (by simp [hy])
        simp only [flatMap_cons, length_append, length_cons, Inner.children, length_map] at this ⊢
        omega
    rw [length_cons, pow_succ]
    omega

end BTree

end VaubanDB
