import VaubanDB.Disk.BTreeLeaves

/-!
An insert keeps a B+tree well formed.

`WellFormed` is the invariant of a tree: the leaves are linked, their entries in order and between
their fences, the levels of internal pages stacked above them, and no page is used twice or free. An
insert puts an entry the tree does not hold at its place in the contents (`insertIn_spec`).
-/

namespace VaubanDB

open List

namespace BTree

open EStateM

def pageIds (leaves : List Leaf) (levels : List (List Inner)) : List PageId :=
  leaves.map Leaf.id ++ levelIds levels

/-- The pages of a tree, as a call sees them. -/
structure WellFormed (order : KeyOrder) (keys : Set (List Value)) (limit : ℕ) (ps : PageSet)
    (root : PageId) (leaves : List Leaf) (levels : List (List Inner)) : Prop where
  linked : Linked ps.view none none leaves
  leavesOk : LeavesOk order keys limit leaves
  stacked : Stacked (leaves.map Leaf.ref) levels root
  levelsOk : LevelsOk ps.view levels
  nodup : (pageIds leaves levels).Nodup
  alloc : AllocOk ps.pages (pageIds leaves levels)

/-- What the pool holds of a tree while a call changes its leaves: a descent reads the pool. -/
structure Descends (t : Tree) (leaves : List Leaf) (levels : List (List Inner)) : Prop where
  levelsOk : LevelsOk t.pages.page levels
  kind : ∀ l ∈ leaves, (t.pages.page l.id).kind = .btreeLeaf

section Tree

variable {order : KeyOrder} {keys : Set (List Value)} {limit : ℕ} {ps : PageSet} {root : PageId}
  {leaves : List Leaf} {levels : List (List Inner)} {probe : Probe} {e : TreeEntry}

lemma map_fst_map_leafRef (leaves : List Leaf) :
    (leaves.map Leaf.ref).map Prod.fst = leaves.map Leaf.fence := by
  rw [map_map]
  rfl

lemma WellFormed.length_le (h : WellFormed order keys limit ps root leaves levels) :
    leaves.length ≤ ps.pages.next := by
  have hids : (leaves.map Leaf.id).Nodup := (nodup_append.mp h.nodup).1
  have hsub : leaves.map Leaf.id ⊆ range ps.pages.next := by
    intro id hid
    rw [mem_range]
    exact h.alloc.used id (mem_append_left _ hid)
  simpa using (hids.subperm hsub).length_le

/-- Every internal page has two children and there are fewer than `2 ^ 64` pages. -/
lemma WellFormed.depth_lt (h : WellFormed order keys limit ps root leaves levels) :
    levels.length < maxDepth := by
  have hpow : 2 ^ levels.length ≤ leaves.length := by
    have := h.stacked.two_pow_le fun level hl x hx => (h.levelsOk level hl x hx).nonempty
    simpa using this
  have hlen : leaves.length ≤ maxU64 := h.length_le.trans h.alloc.next
  by_contra hdepth
  have : 2 ^ maxDepth ≤ 2 ^ levels.length := Nat.pow_le_pow_right (by decide) (not_lt.mp hdepth)
  have : maxU64 < 2 ^ maxDepth := by decide
  omega

lemma descend_spec {t : Tree} (hlimit : limit ≤ maxInsertBytes) (hp : probe.Good t.order keys)
    (hstack : Stacked (leaves.map Leaf.ref) levels t.root)
    (hfences : FencesOk t.order keys limit (leaves.map Leaf.fence))
    (hpool : Descends t leaves levels)
    (hdepth : levels.length ≤ maxDepth) :
    ∃ B l A path, leaves = B ++ l :: A ∧ NotPast t.order probe l.fence ∧
      (∀ m ∈ A, Past t.order probe m.fence) ∧
      PathTo (B.map Leaf.ref) l.ref (A.map Leaf.ref) levels path ∧
      t.descend probe = .ok (l.id, path.reverse) := by
  rw [← map_fst_map_leafRef] at hfences
  obtain ⟨before, r, after, path, hrefs, hnot, hpast, hpath, hloop⟩ :=
    descend_levels hlimit hp hstack hfences hpool.levelsOk hdepth
  obtain ⟨B, rest, rfl, rfl, hrest⟩ := map_eq_append_iff.mp hrefs
  obtain ⟨l, A, rfl, rfl, rfl⟩ := map_eq_cons_iff.mp hrest
  refine ⟨B, l, A, path, rfl, hnot, ?_, hpath, ?_⟩
  · exact fun m hm => hpast m.ref (mem_map_of_mem hm)
  · have hfuel : maxDepth + 1 = (maxDepth - levels.length + 1) + levels.length := by omega
    rw [Tree.descend, hfuel, hloop, descendLoop, descendStep,
      show (t.pages.page l.ref.2).kind = .btreeLeaf from hpool.kind l (by simp)]
    rfl

variable {l : Leaf}

lemma LeavesOk.cutAt {probe : Probe} (hp : probe.Good order keys)
    (h : LeavesOk order keys limit leaves) (hl : l ∈ leaves) : ∃ es fs, l.entries = es ++ fs ∧
      (∀ f ∈ es, compareEntry order f probe = .ok .lt) ∧
      ∀ f ∈ fs, ∃ o, compareEntry order f probe = .ok o ∧ o ≠ .lt := by
  obtain ⟨es, fs, heq, hes, hfs⟩ := exists_cut (· = .lt) hp.fits (h.sorted l hl)
    (fun f hf => hp.compareEntry (h.good l hl f hf).key) rfl rfl
  refine ⟨es, fs, heq, fun f hf => ?_, fun f hf => ?_⟩
  · obtain ⟨o, ho, hlt⟩ := hes f hf
    rw [decide_eq_true_eq] at hlt
    exact hlt ▸ ho
  · obtain ⟨o, ho, hlt⟩ := hfs f hf
    exact ⟨o, ho, by simpa using hlt⟩

lemma LeavesOk.place (hkeys : Comparable order keys)
    (h : LeavesOk order keys limit leaves) (hl : l ∈ leaves) (he : Good order keys limit e)
    (hnew : ∀ f ∈ l.entries, compareEntry order f (probeAt e) ≠ .ok .eq) :
    ∃ es fs, l.entries = es ++ fs ∧ (∀ f ∈ es, EntryLt order f e) ∧
      ∀ f ∈ fs, EntryLt order e f := by
  obtain ⟨es, fs, heq, hes, hfs⟩ := h.cutAt (he.probeAt hkeys) hl
  have hwidth : ∀ f ∈ es ++ fs, _ := fun f hf => (h.good l hl f (heq ▸ hf)).width
  refine ⟨es, fs, heq, fun f hf => ⟨hwidth f (by simp [hf]), he.width, hes f hf⟩, fun f hf => ?_⟩
  obtain ⟨o, ho, hlt⟩ := hfs f hf
  refine .of_gt he.width (hwidth f (by simp [hf])) ?_
  cases o with
  | lt => exact absurd rfl hlt
  | eq => exact absurd ho (hnew f (by simp [heq, hf]))
  | gt => exact ho

/-- The tree after an insert: the entry is at its place in the contents. -/
def Inserted (order : KeyOrder) (keys : Set (List Value)) (limit : ℕ) (leaves : List Leaf)
    (e : TreeEntry) (root : PageId) (ps' : PageSet) : Prop :=
  ∃ leaves' levels' C₁ C₂, WellFormed order keys limit ps' root leaves' levels' ∧
    contents leaves = C₁ ++ C₂ ∧ contents leaves' = C₁ ++ e :: C₂

variable {B A : List Leaf}

lemma ne_of_nodup_pageIds {levels : List (List Inner)} (h : (pageIds (B ++ l :: A) levels).Nodup) :
    (∀ m ∈ B, m.id ≠ l.id) ∧ (∀ m ∈ A, m.id ≠ l.id) ∧ ∀ id ∈ levelIds levels, id ≠ l.id := by
  rw [pageIds, map_append, map_cons, append_assoc, cons_append, nodup_middle, nodup_cons] at h
  refine ⟨fun m hm heq => h.1 ?_, fun m hm heq => h.1 ?_, fun id hid heq => h.1 ?_⟩
  · exact heq ▸ mem_append_left _ (mem_map_of_mem hm)
  · exact heq ▸ mem_append_right _ (mem_append_left _ (mem_map_of_mem hm))
  · exact heq ▸ mem_append_right _ (mem_append_right _ hid)

lemma WellFormed.put {es : List TreeEntry} {ps' : PageSet}
    (h : WellFormed order keys limit ps root (B ++ l :: A) levels)
    (hleaves : LeavesOk order keys limit (B ++ { l with entries := es } :: A))
    (hpages : ps'.pages = ps.pages)
    (hholds : HoldsLeaf (ps'.view l.id) (lastId none B) (headId none A) es)
    (hframe : ∀ id, id ≠ l.id → ps'.view id = ps.view id) :
    WellFormed order keys limit ps' root (B ++ { l with entries := es } :: A) levels := by
  have hids : pageIds (B ++ { l with entries := es } :: A) levels =
    pageIds (B ++ l :: A) levels := by
    simp [pageIds]
  have hne := ne_of_nodup_pageIds h.nodup
  obtain ⟨hB, _, hA⟩ := linked_cut.mp h.linked
  refine ⟨linked_cut.mpr ⟨hB.congr fun m hm => hframe _ (hne.1 m hm), hholds,
    hA.congr fun m hm => hframe _ (hne.2.1 m hm)⟩, hleaves, ?_,
    h.levelsOk.congr fun id hid => hframe id (hne.2.2 id hid), hids ▸ h.nodup,
    hpages ▸ hids ▸ h.alloc⟩
  simpa [Leaf.ref] using h.stacked

lemma WellFormed.cut {ls tail : List TreeEntry} {sep : TreeEntry}
    {split : Split} {ps' : PageSet} (h : WellFormed order keys limit ps root (B ++ l :: A) levels)
    (hs : LeafSplit (pageIds (B ++ l :: A) levels) ps ps' l.id (lastId none B) (headId none A) split
      ls (sep :: tail)) :
    let leaves := B ++ { l with entries := ls } :: ⟨split.right, some sep, sep :: tail⟩ :: A
    Linked ps'.view none none leaves ∧ LevelsOk ps'.view levels ∧ (pageIds leaves levels).Nodup ∧
      AllocOk ps'.pages (pageIds leaves levels) := by
  intro leaves
  have hperm : (pageIds leaves levels).Perm (split.right :: pageIds (B ++ l :: A) levels) := by
    have h₁ : pageIds leaves levels =
        (B.map Leaf.id ++ [l.id]) ++ split.right :: (A.map Leaf.id ++ levelIds levels) := by
      simp [leaves, pageIds]
    have h₂ : pageIds (B ++ l :: A) levels =
        (B.map Leaf.id ++ [l.id]) ++ (A.map Leaf.id ++ levelIds levels) := by simp [pageIds]
    rw [h₁, h₂]
    exact perm_middle
  have hused : ∀ id ∈ pageIds (B ++ l :: A) levels, id ≠ split.right := by
    rintro id hid rfl
    exact hs.fresh hid
  obtain ⟨hneB, hneA, hneLevels⟩ := ne_of_nodup_pageIds h.nodup
  obtain ⟨hB, _, hA⟩ := linked_cut.mp h.linked
  -- Only the first leaf past the one that split is relinked.
  have hfar : ∀ m ms, A = m :: ms → (∀ k ∈ B, k.id ≠ m.id) ∧ (∀ k ∈ ms, k.id ≠ m.id) ∧
      ∀ id ∈ levelIds levels, id ≠ m.id := by
    rintro m ms rfl
    have hnodup := h.nodup
    rw [append_cons] at hnodup
    obtain ⟨hB', hms, hlevels⟩ := ne_of_nodup_pageIds hnodup
    exact ⟨fun k hk => hB' k (by simp [hk]), hms, hlevels⟩
  have hnext : ∀ id, headId none A = some id → ∃ m ms, A = m :: ms ∧ id = m.id := by
    intro id hid
    cases A with
    | nil => cases hid
    | cons m ms =>
      cases hid
      exact ⟨m, ms, rfl, rfl⟩
  have hleaf : ∀ m ∈ B ++ l :: A, m.id ∈ pageIds (B ++ l :: A) levels := fun m hm =>
    mem_append_left _ (mem_map_of_mem hm)
  refine ⟨linked_cut.mpr ⟨hB.congr fun k hk => ?_, hs.holdsLeft, hs.holdsRight, hA.relink ?_⟩,
    h.levelsOk.congr fun id hid => ?_, ?_, hs.alloc.mono fun id hid => hperm.subset hid⟩
  · refine hs.frame _ (hneB k hk) (hused _ (hleaf k (by simp [hk]))) fun hid => ?_
    obtain ⟨m, ms, hA, heq⟩ := hnext _ hid
    exact (hfar m ms hA).1 k hk heq
  · rintro m ms rfl
    refine ⟨hs.far m.id rfl, fun k hk => hs.frame _ (hneA k (by simp [hk]))
      (hused _ (hleaf k (by simp [hk]))) fun hid => ?_⟩
    exact (hfar m ms rfl).2.1 k hk (Option.some.inj hid).symm
  · refine hs.frame id (hneLevels id hid) (hused id (mem_append_right _ hid)) fun heq => ?_
    obtain ⟨m, ms, hA, heq⟩ := hnext _ heq
    exact (hfar m ms hA).2.2 id hid heq
  · rw [hperm.nodup_iff, nodup_cons]
    exact ⟨hs.fresh, h.nodup⟩

/-- An insert puts an entry the tree does not hold at its place.  It fails only when pages run out,
or when the entries of the tree may be longer than `safeInsertBytes`. -/
theorem insertIn_spec {t : Tree} (hkeys : Comparable t.order keys) (hlimit : limit ≤ maxInsertBytes)
    (h : WellFormed t.order keys limit ps t.root leaves levels) (hpool : Descends t leaves levels)
    (he : Good t.order keys limit e)
    (hnew : ∀ f ∈ contents leaves, compareEntry t.order f (probeAt e) ≠ .ok .eq) :
    Ends ps (t.insertIn e)
      (fun new ps' => Inserted t.order keys limit leaves e (new.getD t.root) ps' ∧
        Grown ps.pages ps'.pages)
      fun ps' => Grown ps.pages ps'.pages ∧
        (available ps.pages ≤ maxDepth ∨ safeInsertBytes < limit) := by
  have hdepth := h.depth_lt
  obtain ⟨B, l, A, path, rfl, hfence, hpast, hpath, hdescend⟩ :=
    descend_spec hlimit (he.probeAt hkeys) h.stacked h.leavesOk.fences hpool hdepth.le
  obtain ⟨es, fs, hl, hes, hfs⟩ := h.leavesOk.place (l := l) hkeys (by simp) he fun f hf =>
    hnew f (by simp [contents_cut, hf])
  have hleaves := h.leavesOk.insert hl he hfence hpast hes hfs
  have hsize : ¬ (encodeEntryKey e).length > maxInsertBytes := not_lt.mpr (he.size.trans hlimit)
  have hcheck : t.order.checkKey e.1 = .ok () := by simp [KeyOrder.checkKey, he.width]
  have hlm : l ∈ B ++ l :: A := by simp
  obtain ⟨hB, hholds, hA⟩ := linked_cut.mp h.linked
  rw [Tree.insertIn, hcheck, ends_lift_ok_bind]
  simp only [hsize, if_false]
  rw [hdescend, ends_lift_ok_bind, ends_bind]
  refine (putInLeaf_spec hkeys hlimit (hl ▸ hholds)
    (hl ▸ h.leavesOk.sorted l hlm) (hl ▸ h.leavesOk.good l hlm) he hes hfs h.alloc
    (mem_append_left _ (mem_map_of_mem hlm)) ?_).mono ?_ ?_
  · intro id hid
    cases A with
    | nil => cases hid
    | cons m A =>
      cases hid
      refine ⟨mem_append_left _ (mem_map_of_mem (by simp)),
        (ne_of_nodup_pageIds h.nodup).2.1 m (by simp), hA.1.expectKind⟩
  · rintro (_ | split) ps₁ hout
    · obtain ⟨hpages, hholds', hframe⟩ := hout
      rw [ends_pure]
      refine ⟨⟨_, levels, contents B ++ es, fs ++ contents A, h.put hleaves hpages hholds' hframe,
        ?_, ?_⟩, hpages ▸ .refl _⟩
      · simp [contents_cut, hl]
      · simp [contents_cut]
    · obtain ⟨ls, rs, hcut, hls, hsplit⟩ := hout
      obtain ⟨sep, tail, rfl, hsep⟩ := hsplit.separator
      have hleaves' := hleaves.cut hkeys hcut.symm hls split.right
      obtain ⟨hlinked, hlevels, hnodup, halloc⟩ := h.cut hsplit
      have hnext : split.right < maxU64 :=
        (hsplit.alloc.used _ mem_cons_self).trans_le hsplit.alloc.next
      have hrefs : (B ++ { l with entries := ls } :: ⟨split.right, some sep, sep :: tail⟩ ::
          A).map Leaf.ref = B.map Leaf.ref ++ l.ref :: sepRef (sep, split.right) ::
            A.map Leaf.ref := by simp [Leaf.ref, sepRef]
      have hfences := hleaves'.fences
      rw [← map_fst_map_leafRef, hrefs] at hfences
      have hstack := h.stacked
      rw [map_append, map_cons] at hstack
      have hrecord := recordSplit_spec hlimit hstack hpath hfences hlevels hnext hnodup halloc
      rw [← hsep] at hrecord
      simp only [reverse_reverse]
      refine hrecord.mono ?_ ?_
      · rintro new ps₂ ⟨levels', hrec⟩
        refine ⟨⟨_, levels', contents B ++ es, fs ++ contents A,
          ⟨?_, hleaves', hrefs ▸ hrec.stacked,
          hrec.levelsOk, hrec.nodup, hrec.alloc⟩, ?_, ?_⟩, hsplit.grown.trans hrec.grown⟩
        · exact hlinked.congr fun m hm => hrec.frame m.id (mem_map_of_mem hm)
        · simp [contents_cut, hl]
        · simp only [contents, flatMap_append, flatMap_cons]
          rw [← append_assoc ls, hcut]
          simp
      · rintro ps₂ ⟨hgrown, hend⟩
        refine ⟨hsplit.grown.trans hgrown, hend.imp (fun hend => ?_) fun hend => hend⟩
        have := hsplit.spent
        omega
  · rintro ps₁ ⟨hgrown, hnone⟩
    exact ⟨hgrown, .inl (by omega)⟩

end Tree

end BTree

end VaubanDB
