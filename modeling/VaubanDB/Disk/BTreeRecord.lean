import VaubanDB.Disk.BTreeShape

/-!
A split is recorded in the levels above it.

`recordSplit_spec` goes up the path of a descent: at each level a page takes the separator and
the page of the split below it, and is cut in two when it has no room, up to a new root.
-/

namespace VaubanDB

open List Prod

namespace BTree

open EStateM

section Record

variable {order : KeyOrder} {keys : Set (List Value)} {limit : ℕ} {x : Inner}
  {s : TreeEntry × PageId} {rest levels : List (List Inner)} {B A : List Inner} {root : PageId}
  {outside : List PageId} {ps : PageSet} {r : Ref}

lemma Inner.children_cut {cb ca : List Ref} (h : x.children = cb ++ r :: ca) :
    ∃ ss ts, x.seps = ss ++ ts ∧
      (x.fence, x.first) :: ss.map sepRef = cb ++ [r] ∧ ts.map sepRef = ca := by
  cases cb with
  | nil =>
    simp only [children, nil_append, cons.injEq] at h
    exact ⟨[], x.seps, rfl, by simp [h.1], h.2⟩
  | cons c cb =>
    simp only [children, cons_append, cons.injEq] at h
    obtain ⟨rfl, h⟩ := h
    rw [append_cons] at h
    obtain ⟨ss, ts, hseps, hss, hts⟩ := map_eq_append_iff.mp h
    exact ⟨ss, ts, hseps, by simp [hss], hts⟩

/-- The separators of a page around a new one, which follows the child it was split from. -/
lemma Inner.around {cb ca : List Ref} (hchildren : x.children = cb ++ r :: ca)
    (hfences : FencesOk order keys limit ((cb ++ r :: sepRef s :: ca).map fst)) :
    ∃ ss ts, x.seps = ss ++ ts ∧
      ({ x with seps := ss ++ s :: ts } : Inner).children = cb ++ r :: sepRef s :: ca ∧
      (∀ t ∈ ss, EntryLt order t.1 s.1) ∧ (∀ t ∈ ts, EntryLt order s.1 t.1) ∧
      ((ss ++ ts).map fst).Pairwise (EntryLt order) ∧
      ∀ t ∈ ss ++ s :: ts, Good order keys limit t.1 := by
  obtain ⟨ss, ts, hseps, hcb, rfl⟩ := children_cut hchildren
  have hnew : ({ x with seps := ss ++ s :: ts } : Inner).children =
      cb ++ r :: sepRef s :: ts.map sepRef := by
    simp only [children, map_append, map_cons]
    rw [← cons_append, hcb]
    simp
  rw [← hnew] at hfences
  obtain ⟨hsorted, hgood⟩ := hfences.seps
  have hsub : ((ss ++ ts).map fst).Sublist ((ss ++ s :: ts).map fst) :=
    ((sublist_cons_self s ts).append_left ss).map fst
  refine ⟨ss, ts, hseps, hnew, ?_, ?_, hsorted.sublist hsub, hgood⟩
  · intro t ht
    rw [map_append, pairwise_append] at hsorted
    exact hsorted.2.2 t.1 (mem_map_of_mem ht) s.1 (by simp)
  · intro t ht
    rw [map_append, pairwise_append, map_cons, pairwise_cons] at hsorted
    exact hsorted.2.1.1 t.1 (mem_map_of_mem ht)

variable {used : List PageId}

lemma AllocOk.mono {pages : Pages} {used' : List PageId} (h : AllocOk pages used)
    (hsub : ∀ id ∈ used', id ∈ used) : AllocOk pages used' :=
  ⟨h.freeNodup, fun id hid => ⟨(h.free id hid).1, fun hin => (h.free id hid).2 (hsub id hin)⟩,
    fun id hid => h.used id (hsub id hid), h.next⟩

/-- The levels of a tree after a split of one page below them. -/
structure Recorded (ps ps' : PageSet) (lower : List Ref) (outside : List PageId)
    (levels : List (List Inner)) (root : PageId) : Prop where
  stacked : Stacked lower levels root
  levelsOk : LevelsOk ps'.view levels
  nodup : (outside ++ levelIds levels).Nodup
  alloc : AllocOk ps'.pages (outside ++ levelIds levels)
  grown : Grown ps.pages ps'.pages
  frame : ∀ id ∈ outside, ps'.view id = ps.view id

lemma levelIds_cons (level : List Inner) (rest : List (List Inner)) :
    levelIds (level :: rest) = level.map Inner.id ++ levelIds rest := rfl

variable {page : PageId → TreePage}

lemma levelsOk_cons {level : List Inner} :
    LevelsOk page (level :: rest) ↔ (∀ x ∈ level, InnerOk (page x.id) x) ∧ LevelsOk page rest := by
  simp [LevelsOk]

lemma LevelsOk.congr {page' : PageId → TreePage} (h : LevelsOk page levels)
    (heq : ∀ id ∈ levelIds levels, page' id = page id) : LevelsOk page' levels := by
  intro level hl x hx
  rw [heq x.id (mem_flatMap.mpr ⟨level, hl, mem_map_of_mem hx⟩)]
  exact h level hl x hx

/-- The other pages around one page of a level. -/
def othersOf (B A : List Inner) (rest : List (List Inner)) (outside : List PageId) : List PageId :=
  outside ++ B.map Inner.id ++ A.map Inner.id ++ levelIds rest

lemma ne_of_mem_othersOf (h : (outside ++ levelIds ((B ++ x :: A) :: rest)).Nodup) {id : PageId}
    (hid : id ∈ othersOf B A rest outside) : id ≠ x.id := by
  have hperm : (outside ++ levelIds ((B ++ x :: A) :: rest)).Perm
      (x.id :: othersOf B A rest outside) := by
    have h₁ : outside ++ levelIds ((B ++ x :: A) :: rest) =
        (outside ++ B.map Inner.id) ++ x.id :: (A.map Inner.id ++ levelIds rest) := by
      simp [levelIds]
    rw [h₁, othersOf, append_assoc (outside ++ B.map Inner.id)]
    exact perm_middle
  rintro rfl
  exact (nodup_cons.mp (hperm.nodup_iff.mp h)).1 hid

lemma mem_othersOf {id : PageId} :
    id ∈ othersOf B A rest outside ↔ id ∈ outside ∨ id ∈ B.map Inner.id ∨
      id ∈ A.map Inner.id ∨ id ∈ levelIds rest := by
  simp only [othersOf, mem_append, or_assoc]

/-- The pages of the levels around one page of the lowest are as they were. -/
lemma LevelsOk.around {page' : PageId → TreePage} (h : LevelsOk page ((B ++ x :: A) :: rest))
    (heq : ∀ id ∈ othersOf B A rest outside, page' id = page id) :
    (∀ z ∈ B ++ A, InnerOk (page' z.id) z) ∧ LevelsOk page' rest ∧
      ∀ id ∈ outside, page' id = page id := by
  obtain ⟨hlevel, hrest⟩ := levelsOk_cons.mp h
  refine ⟨fun z hz => ?_, hrest.congr fun id hid => heq id (mem_othersOf.mpr (by simp [hid])),
    fun id hid => heq id (mem_othersOf.mpr (.inl hid))⟩
  rw [heq z.id]
  · exact hlevel z (by simp at hz ⊢; tauto)
  · rw [mem_othersOf, ← or_assoc (a := z.id ∈ B.map _), ← mem_append, ← map_append]
    exact .inr (.inl (mem_map_of_mem hz))

variable {lower : List Ref}

lemma Recorded.ofPut {ps' : PageSet} {seps : List (TreeEntry × PageId)}
    (hstack : Stacked ((B ++ x :: A).map Inner.ref) rest root)
    (hlevels : LevelsOk ps.view ((B ++ x :: A) :: rest))
    (hnodup : (outside ++ levelIds ((B ++ x :: A) :: rest)).Nodup)
    (halloc : AllocOk ps.pages (outside ++ levelIds ((B ++ x :: A) :: rest)))
    (hlower : (B ++ { x with seps := seps } :: A).flatMap Inner.children = lower)
    (hpages : ps'.pages = ps.pages) (hx : InnerOk (ps'.view x.id) { x with seps := seps })
    (hframe : ∀ id, id ≠ x.id → ps'.view id = ps.view id) :
    Recorded ps ps' lower outside ((B ++ { x with seps := seps } :: A) :: rest) root := by
  have hids : levelIds ((B ++ { x with seps := seps } :: A) :: rest) =
      levelIds ((B ++ x :: A) :: rest) := by simp [levelIds]
  have hothers : ∀ id ∈ othersOf B A rest outside, ps'.view id = ps.view id :=
    fun id hid => hframe id (ne_of_mem_othersOf hnodup hid)
  obtain ⟨hlevel, hrest, hout⟩ := hlevels.around hothers
  refine ⟨⟨hlower, by simpa [Inner.ref] using hstack⟩, levelsOk_cons.mpr ⟨?_, hrest⟩, hids ▸ hnodup,
    hpages ▸ hids ▸ halloc, hpages ▸ .refl _, hout⟩
  simp only [forall_mem_append, forall_mem_cons] at hlevel ⊢
  exact ⟨hlevel.1, hx, hlevel.2⟩

/-- A page of a level cut in two: the pages in use, and what is left to record. -/
structure Cut (ps ps' : PageSet) (B : List Inner) (xl y : Inner) (A : List Inner)
    (rest : List (List Inner)) (outside : List PageId) : Prop where
  level : ∀ z ∈ B ++ xl :: y :: A, InnerOk (ps'.view z.id) z
  upper : LevelsOk ps'.view rest
  nodup : (outside ++ (B ++ xl :: y :: A).map Inner.id ++ levelIds rest).Nodup
  alloc : AllocOk ps'.pages (outside ++ (B ++ xl :: y :: A).map Inner.id ++ levelIds rest)
  grown : Grown ps.pages ps'.pages
  frame : ∀ id ∈ outside, ps'.view id = ps.view id

lemma Cut.ofSplit {ps' : PageSet} {split : Split} {l r : List (TreeEntry × PageId)}
    {p : TreeEntry × PageId} (hlevels : LevelsOk ps.view ((B ++ x :: A) :: rest))
    (hnodup : (outside ++ levelIds ((B ++ x :: A) :: rest)).Nodup)
    (h : InnerSplit (outside ++ levelIds ((B ++ x :: A) :: rest)) ps ps' x.id x.first split l p r)
    (hl : l ≠ []) (hr : r ≠ []) (hchild : ∀ t ∈ l ++ p :: r, t.2 < maxU64) :
    Cut ps ps' B { x with seps := l } ⟨split.right, some p.1, p.2, r⟩ A rest outside := by
  have hids : (outside ++ (B ++ { x with seps := l } :: ⟨split.right, some p.1, p.2, r⟩ ::
      A).map Inner.id ++ levelIds rest).Perm
      (split.right :: (outside ++ levelIds ((B ++ x :: A) :: rest))) := by
    have h₁ : outside ++ (B ++ { x with seps := l } :: ⟨split.right, some p.1, p.2, r⟩ ::
        A).map Inner.id ++ levelIds rest = (outside ++ B.map Inner.id ++ [x.id]) ++
          split.right :: (A.map Inner.id ++ levelIds rest) := by simp
    have h₂ : outside ++ levelIds ((B ++ x :: A) :: rest) =
        (outside ++ B.map Inner.id ++ [x.id]) ++ (A.map Inner.id ++ levelIds rest) := by
      simp [levelIds]
    rw [h₁, h₂]
    exact perm_middle
  have hused : ∀ id ∈ outside ++ levelIds ((B ++ x :: A) :: rest), id ≠ split.right := by
    rintro id hid rfl
    exact h.fresh hid
  have hothers : ∀ id ∈ othersOf B A rest outside, ps'.view id = ps.view id := by
    intro id hid
    refine h.frame id (ne_of_mem_othersOf hnodup hid) (hused id ?_)
    rw [mem_othersOf] at hid
    simp only [levelIds_cons, map_append, map_cons, mem_append, mem_cons]
    tauto
  obtain ⟨hlevel, hrest, hout⟩ := hlevels.around hothers
  refine ⟨?_, hrest, ?_, ?_, h.grown, hout⟩
  · simp only [forall_mem_append, forall_mem_cons] at hlevel ⊢
    exact ⟨hlevel.1, ⟨h.holdsLeft, hl, fun t ht => hchild t (by simp [ht])⟩,
      ⟨h.holdsRight, hr, fun t ht => hchild t (by simp [ht])⟩, hlevel.2⟩
  · rw [hids.nodup_iff, nodup_cons]
    exact ⟨h.fresh, hnodup⟩
  · exact h.alloc.mono fun id hid => hids.subset hid

/-- A page of a level cut in two, once the levels above have recorded it. -/
lemma Cut.recorded {ps₁ ps₂ : PageSet} {xl y : Inner} (h : Cut ps ps₁ B xl y A rest outside)
    (hlower : (B ++ xl :: y :: A).flatMap Inner.children = lower)
    (hrec : Recorded ps₁ ps₂ ((B ++ xl :: y :: A).map Inner.ref)
      (outside ++ (B ++ xl :: y :: A).map Inner.id) levels root) :
    Recorded ps ps₂ lower outside ((B ++ xl :: y :: A) :: levels) root := by
  refine ⟨⟨hlower, hrec.stacked⟩, levelsOk_cons.mpr ⟨fun z hz => ?_, hrec.levelsOk⟩, ?_, ?_,
    h.grown.trans hrec.grown, fun id hid => ?_⟩
  · rw [hrec.frame z.id (mem_append_right _ (mem_map_of_mem hz))]
    exact h.level z hz
  · rw [levelIds_cons, ← append_assoc]
    exact hrec.nodup
  · rw [levelIds_cons, ← append_assoc]
    exact hrec.alloc
  · rw [hrec.frame id (mem_append_left _ hid), h.frame id hid]

lemma growRoot_spec (hlimit : limit ≤ maxInsertBytes)
    (hs : Good order keys limit s.1) (halloc : AllocOk ps.pages used) :
    Ends ps (growRoot root ⟨s.2, encodeEntryKey s.1⟩)
      (fun new ps' => new ∉ used ∧ AllocOk ps'.pages (new :: used) ∧ Grown ps.pages ps'.pages ∧
        HoldsInner (ps'.view new) root [s] ∧ ∀ id, id ≠ new → ps'.view id = ps.view id)
      fun ps' => Grown ps.pages ps'.pages ∧ available ps.pages = 0 := by
  rw [growRoot, ends_bind]
  refine (allocate_spec halloc).mono ?_ ?_
  · rintro new ps₁ ⟨hfresh, hview, hgrown, halloc₁, _⟩
    have hsize : ¬ (encodeEntryKey s.1).length + childBytes > maxEntryBytes :=
      not_lt.mpr (hs.entry_size hlimit le_rfl)
    have hw := hs.innerWeight_le hlimit
    obtain ⟨hlaid, htight⟩ := laid_nil (show internalDirectory ≤ pageSize by decide)
      (ps₁.view new).id (.internal root)
    rcases putEntry_spec hlaid (Nat.zero_le _) (sepEntry s) with ⟨_, hfull⟩ | ⟨page, hput, hputs, _⟩
    · have hover := hfull htight
      rw [entryWeight_sepEntry] at hover
      simp only [TreePage.weight, TreePage.entries, map_nil, sum_nil, slotSize,
        entryOverhead, childBytes, maxInsertBytes, leafDirectory, internalDirectory, pageSize,
        headerSize] at hover hw
      omega
    · have hcheck : checkEntrySize new (encodeEntryKey s.1).length childBytes = .ok () :=
        if_neg hsize
      have hput' : TreePage.putEntry ⟨(ps₁.view new).id, .internal root, []⟩ internalDirectory 0
          (encodeEntryKey s.1, leBytes childBytes s.2) = .ok (.inserted, page) := hput
      refine ends_writePage () page ?_ ?_
      · simp only [TreePage.initInternal, hcheck, hput', bind, Except.bind]
        rfl
      rw [ends_pure]
      refine ⟨hfresh, halloc₁, hgrown, ?_, ?_⟩
      · rw [PageSet.view_put_self]
        refine ⟨hputs.header, ?_, hputs.laid⟩
        rw [hputs.entries]
        rfl
      · intro id hid
        rw [PageSet.view_put_of_ne _ _ hid, hview]
  · rintro ps₁ ⟨rfl, hnone⟩
    exact ⟨.refl _, hnone⟩

/-- A split of a page is recorded in the levels above it, up to a new root. -/
theorem recordSplit_spec (hlimit : limit ≤ maxInsertBytes) {before after : List Ref}
    {path : List PageId} (hstack : Stacked (before ++ r :: after) levels root)
    (hpath : PathTo before r after levels path)
    (hfences : FencesOk order keys limit ((before ++ r :: sepRef s :: after).map fst))
    (hlevels : LevelsOk ps.view levels) (hright : s.2 < maxU64)
    (hnodup : (outside ++ levelIds levels).Nodup)
    (halloc : AllocOk ps.pages (outside ++ levelIds levels)) :
    Ends ps (recordSplit order root path ⟨s.2, encodeEntryKey s.1⟩)
      (fun new ps' => ∃ levels', Recorded ps ps' (before ++ r :: sepRef s :: after) outside levels'
        (new.getD root))
      fun ps' => Grown ps.pages ps'.pages ∧
        (available ps.pages < levels.length + 1 ∨ safeInsertBytes < limit) := by
  have hs : Good order keys limit s.1 := hfences.good s.1 (by simp [sepRef])
  induction levels generalizing before after r path outside s ps with
  | nil =>
    obtain ⟨rfl, rfl, rfl⟩ := hpath
    have hroot : r = (none, root) := by simpa [Stacked] using hstack
    subst hroot
    rw [recordSplit, ends_bind]
    refine (growRoot_spec hlimit hs halloc).mono ?_ ?_
    · rintro new ps' ⟨hfresh, halloc', hgrown, hholds, hframe⟩
      rw [ends_pure]
      refine ⟨[[⟨new, none, root, [s]⟩]], ⟨rfl, rfl⟩, ?_, ?_, ?_, hgrown, ?_⟩
      · simp only [LevelsOk, mem_singleton]
        rintro _ rfl x hx
        rw [mem_singleton] at hx
        subst hx
        exact ⟨hholds, by simp, by simpa using hright⟩
      · simp only [levelIds, flatMap_nil, append_nil] at hnodup hfresh
        simp only [levelIds, flatMap_cons, flatMap_nil, append_nil, map_cons, map_nil]
        rw [nodup_append]
        exact ⟨hnodup, by simp, by
          intro a ha b hb hab
          simp only [mem_singleton] at hb
          exact hfresh (hb ▸ hab ▸ ha)⟩
      · refine halloc'.mono fun id hid => ?_
        simp only [levelIds, flatMap_cons, flatMap_nil, append_nil, map_cons,
          map_nil, mem_append, mem_singleton] at hid ⊢
        rcases hid with hid | rfl
        · exact mem_cons_of_mem _ (by simpa using hid)
        · exact mem_cons_self
      · intro id hid
        refine hframe id fun heq => hfresh ?_
        rw [← heq]
        exact mem_append_left _ hid
    · rintro ps' ⟨hgrown, hnone⟩
      exact ⟨hgrown, .inl (by simp [hnone])⟩
  | cons level rest ih =>
    obtain ⟨B, x, A, cb, ca, up, rfl, hchildren, rfl, rfl, rfl, hup⟩ := hpath
    obtain ⟨_, hstack⟩ := hstack
    have hx := (levelsOk_cons.mp hlevels).1 x (by simp)
    have hlower : B.flatMap Inner.children ++ cb ++ r :: sepRef s ::
        (ca ++ A.flatMap Inner.children) = B.flatMap Inner.children ++
          ((cb ++ r :: sepRef s :: ca) ++ A.flatMap Inner.children) := by simp
    rw [hlower] at hfences ⊢
    have hmid : FencesOk order keys limit ((cb ++ r :: sepRef s :: ca).map fst) := by
      exact hfences.sublist (((sublist_append_left _ _).trans (sublist_append_right _ _)).map fst)
    obtain ⟨ss, ts, hseps, hnew, hss, hts, hsorted, hgood⟩ := Inner.around hchildren hmid
    have hchild : ∀ t ∈ ss ++ s :: ts, t.2 < maxU64 := by
      intro t ht
      have hmem : t = s ∨ t ∈ x.seps := by
        rw [hseps]
        simp only [mem_append, mem_cons] at ht ⊢
        tauto
      rcases hmem with rfl | hmem
      · exact hright
      · exact hx.child t hmem
    rw [recordSplit, ends_bind]
    refine (putInInternal_spec hlimit (hseps ▸ hx.holds) hsorted
      (fun t ht => hgood t (by simp only [mem_append, mem_cons] at ht ⊢; tauto)) hs hss
      hts (hseps ▸ hx.child) halloc (by simp [levelIds])).mono ?_ ?_
    · rintro (_ | split) ps₁ hout
      · obtain ⟨hpages, hholds, hframe⟩ := hout
        rw [ends_pure]
        refine ⟨_, .ofPut hstack hlevels hnodup halloc ?_ hpages ⟨hholds, by simp, hchild⟩ hframe⟩
        rw [flatMap_append, flatMap_cons, hnew]
      · obtain ⟨l, p, r', hcut, hl, hr, hsplit⟩ := hout
        have hcuts := Cut.ofSplit hlevels hnodup hsplit hl hr (hcut ▸ hchild)
        have hflat : (B ++ { x with seps := l } :: ⟨split.right, some p.1, p.2, r'⟩ ::
            A).flatMap Inner.children = B.flatMap Inner.children ++
              ((cb ++ r :: sepRef s :: ca) ++ A.flatMap Inner.children) := by
          rw [← hnew]
          simp [Inner.children, ← hcut, sepRef]
        have hrefs : (B ++ { x with seps := l } :: ⟨split.right, some p.1, p.2, r'⟩ ::
            A).map Inner.ref = B.map Inner.ref ++ x.ref :: sepRef (p.1, split.right) ::
              A.map Inner.ref := by simp [Inner.ref, sepRef]
        have hfences' : FencesOk order keys limit ((B.map Inner.ref ++ x.ref ::
            sepRef (p.1, split.right) :: A.map Inner.ref).map fst) := by
          rw [← hrefs, map_fst_map_ref]
          refine hfences.sublist ?_
          rw [← hflat]
          exact fences_sublist _
        have hnext : split.right < maxU64 :=
          (hsplit.alloc.used _ mem_cons_self).trans_le hsplit.alloc.next
        have hih := ih (s := (p.1, split.right)) (by simpa using hstack) hup hfences'
          hcuts.upper hnext hcuts.nodup hcuts.alloc (hgood p (by simp [← hcut]))
        rw [← hsplit.separator] at hih
        refine hih.mono ?_ ?_
        · rintro new ps₂ ⟨levels, hrec⟩
          exact ⟨_, hcuts.recorded hflat (hrefs ▸ hrec)⟩
        · rintro ps₂ ⟨hgrown, h⟩
          refine ⟨hcuts.grown.trans hgrown, h.imp (fun h => ?_) fun h => h⟩
          have := hsplit.spent
          rw [length_cons]
          omega
    · rintro ps₁ ⟨hgrown, h⟩
      exact ⟨hgrown, h.imp (fun h => by simp [h]) fun h => h⟩

end Record

end BTree

end VaubanDB
