import VaubanDB.Disk.BTreeCalls
import VaubanDB.Library.Machine

/-!
Runs of one B+tree, from its creation on.

The state of a run is the tree and, beside it, the entries that were inserted and not deleted.  The
tree is the sorted set of these entries (`tree_is_a_sorted_set`), and an insert succeeds when the
entries have at most `safeInsertBytes` bytes and pages are left (`short_entries_are_inserted`). That
limit is below `maxInsertBytes`: fourteen inserts lead to a tree in which the fifteenth is refused
(`separator_has_no_room`).
-/

namespace VaubanDB

open List

namespace BTree

open EStateM

/-! ### The runs -/

inductive TreeCall where
  | insert (e : TreeEntry)
  | delete (e : TreeEntry)
  | replace (key : List Value) (old new : List UInt8)

/-- A tree, and the entries inserted and not deleted. -/
structure Session where
  tree : Tree
  held : List TreeEntry

namespace Session

variable (s : Session)

/-- The entries held without the one a delete takes away. -/
def without (e : TreeEntry) : List TreeEntry := s.held.filter fun f => !same s.tree.order e f

def call : TreeCall → Session
  | .insert e =>
    match s.tree.insert e with
    | (.ok _, t) => ⟨t, e :: s.held⟩
    | (.error _, t) => ⟨t, s.held⟩
  | .delete e =>
    match s.tree.delete e with
    | (.ok true, t) => ⟨t, s.without e⟩
    | (_, t) => ⟨t, s.held⟩
  | .replace key old new =>
    match s.tree.replace key old new with
    | (.ok true, t) => ⟨t, (key, new) :: s.without (key, old)⟩
    | (_, t) => ⟨t, s.held⟩

end Session

/-- The runs of a tree that was just created. -/
def treeMachine (t : Tree) : Machine Session TreeCall := ⟨⟨t, []⟩, fun s c => some (s.call c)⟩

/-- The keys of a call can be compared with those of the others, and its entry told from them. -/
def Distinct (keys : Set (List Value)) (s : Session) : TreeCall → Prop
  | .insert e => e.1 ∈ keys ∧ ∀ f ∈ s.held, ¬ same s.tree.order e f
  | .delete e => e.1 ∈ keys
  | .replace key old new => key ∈ keys ∧ ∀ f ∈ s.without (key, old),
      ¬ same s.tree.order (key, new) f

def TreeCall.entry? : TreeCall → Option TreeEntry
  | .insert e => some e
  | .delete _ => none
  | .replace key _ new => some (key, new)

/-- The entry a call inserts has at most `limit` encoded bytes. -/
def Sized (limit : ℕ) (c : TreeCall) : Prop :=
  ∀ e, c.entry? = some e → (encodeEntryKey e).length ≤ limit

/-- The same, or the entry is too long for every tree. -/
def SizedOrRefused (limit : ℕ) (c : TreeCall) : Prop :=
  ∀ e, c.entry? = some e →
    (encodeEntryKey e).length ≤ limit ∨ maxInsertBytes < (encodeEntryKey e).length

/-! ### What a run keeps -/

section Runs

variable {keys : Set (List Value)} {limit : ℕ} {s : Session} {t : Tree}

/-- The tree is well formed and its entries are those that are held. -/
def Session.Sound (s : Session) (keys : Set (List Value)) (limit : ℕ) : Prop :=
  ∃ C, s.tree.Holds keys limit C ∧ C.Perm s.held

variable {e : TreeEntry}

lemma perm_without {C₁ C₂ : List TreeEntry} {f : TreeEntry} (hf : same s.tree.order e f = true)
    (hkeep : ∀ g ∈ C₁ ++ C₂, ¬ same s.tree.order e g) (hperm : (C₁ ++ f :: C₂).Perm s.held) :
    (C₁ ++ C₂).Perm (s.without e) := by
  have hfilter : (C₁ ++ f :: C₂).filter (fun g => !same s.tree.order e g) = C₁ ++ C₂ := by
    rw [filter_append, filter_cons_of_neg (by simp [hf]), ← filter_append,
      filter_eq_self.mpr fun g hg => by simpa using hkeep g hg]
  rw [← hfilter]
  exact hperm.filter _

variable (hkeys : Comparable s.tree.order keys)
include hkeys

lemma Session.Sound.insert
    (hlimit : limit ≤ maxInsertBytes) (h : s.Sound keys limit) (hd : Distinct keys s (.insert e))
    (hs : SizedOrRefused limit (.insert e)) : (s.call (.insert e)).Sound keys limit := by
  obtain ⟨C, hC, hperm⟩ := h
  have hout := insert_spec hkeys hlimit hC hd.1 (hs e rfl) fun f hf => hd.2 f (hperm.subset hf)
  rw [call]
  match hcall : s.tree.insert e, hout with
  | (.ok _, t'), ⟨C₁, C₂, heq, hC'⟩ =>
    refine ⟨_, hC', perm_middle.trans (Perm.cons e ?_)⟩
    exact heq ▸ hperm
  | (.error _, t'), hout => exact ⟨C, hout.1, hperm⟩

lemma Session.Sound.delete
    (hlimit : limit ≤ maxInsertBytes) (h : s.Sound keys limit) (hd : Distinct keys s (.delete e)) :
    (s.call (.delete e)).Sound keys limit := by
  obtain ⟨C, hC, hperm⟩ := h
  have hout := delete_spec hkeys hlimit hC hd
  rw [call]
  match hcall : s.tree.delete e, hout with
  | (.ok true, t'), ⟨C₁, f, C₂, heq, hsame, hkeep, hC'⟩ =>
    exact ⟨_, hC', perm_without hsame hkeep (heq ▸ hperm)⟩
  | (.ok false, t'), hout => exact ⟨C, hout.2, hperm⟩
  | (.error _, t'), hout => exact ⟨C, hout.2, hperm⟩

lemma Session.Sound.replace {key : List Value} {old new : List UInt8}
    (hlimit : limit ≤ maxInsertBytes)
    (h : s.Sound keys limit) (hd : Distinct keys s (.replace key old new))
    (hs : SizedOrRefused limit (.replace key old new)) :
    (s.call (.replace key old new)).Sound keys limit := by
  obtain ⟨C, hC, hperm⟩ := h
  have hout := replace_spec old hkeys hlimit hC hd.1 (hs _ rfl) fun f hf hold =>
    hd.2 f (mem_filter.mpr ⟨hperm.subset hf, by simpa using hold⟩)
  rw [call]
  match hcall : s.tree.replace key old new, hout with
  | (.ok true, t'), ⟨C₁, f, C₂, D₁, D₂, heq, hsame, hkeep, hD, hC'⟩ =>
    refine ⟨_, hC', perm_middle.trans (Perm.cons _ ?_)⟩
    exact hD ▸ perm_without hsame hkeep (heq ▸ hperm)
  | (.ok false, t'), hout => exact ⟨C, hout.2, hperm⟩
  | (.error _, t'), hout => exact ⟨C, hout, hperm⟩

omit hkeys in
lemma Session.call_order (s : Session) (c : TreeCall) : (s.call c).tree.order = s.tree.order := by
  cases c with
  | insert e =>
    have := insert_order s.tree e
    rw [call]
    split <;> simp_all
  | delete e =>
    have := delete_order s.tree e
    rw [call]
    split <;> simp_all
  | replace key old new =>
    have := replace_order s.tree key old new
    rw [call]
    split <;> simp_all

lemma Session.Sound.call (hlimit : limit ≤ maxInsertBytes)
    (h : s.Sound keys limit) {c : TreeCall} (hd : Distinct keys s c) (hs : SizedOrRefused limit c) :
    (s.call c).Sound keys limit := by
  cases c with
  | insert e => exact h.insert hkeys hlimit hd hs
  | delete e => exact h.delete hkeys hlimit hd
  | replace key old new => exact h.replace hkeys hlimit hd hs

omit hkeys

variable {columns : List KeyColumn} {types : List TypeInfo}

lemma create_spec {pages : Pages}
    (hpages : AllocOk pages []) (h : create pages columns types = .ok t) :
    t.Holds keys limit [] := by
  rw [create, Except.bind_eq_ok_iff] at h
  obtain ⟨order, _, h⟩ := h
  have hbody : Ends (.new pages) (do
      let root ← allocate
      writePage root fun page => .ok ((), page.initLeaf)
      return root : SetM PageId)
      (fun root ps => WellFormed order keys limit ps root [⟨root, none, []⟩] []) fun _ => True := by
    rw [ends_bind]
    refine (allocate_spec (show AllocOk (PageSet.new pages).pages [] from hpages)).mono ?_
      fun _ _ => trivial
    rintro root ps ⟨_, _, _, halloc, _⟩
    rw [ends_bind_of_ok (writePage_of_ok rfl), ends_pure]
    refine ⟨⟨?_, trivial⟩, ⟨⟨by simp, by simp⟩, by simp, by simp, by simp, by simp⟩, rfl,
      by simp [LevelsOk], by simp [pageIds, levelIds], halloc⟩
    rw [PageSet.view_put_self]
    exact ⟨rfl, rfl, (laid_nil (by decide) _ _).1⟩
  unfold Ends at hbody
  split at hbody
  · rename_i root ps heq
    simp only [heq, Except.ok.injEq] at h
    subst h
    exact ⟨_, _, hbody.moved ⟨order, root, pages⟩ none, rfl⟩
  · rename_i err ps heq
    simp only [heq, reduceCtorEq] at h

lemma sound_of_reachable {pages : Pages}
    (hpages : AllocOk pages []) (hcreate : create pages columns types = .ok t)
    (hkeys : Comparable t.order keys) (hlimit : limit ≤ maxInsertBytes)
    (hs : (treeMachine t).Reachable (fun s c => Distinct keys s c ∧ SizedOrRefused limit c) s) :
    s.tree.order = t.order ∧ s.Sound keys limit := by
  refine hs.invariant (P := fun s => s.tree.order = t.order ∧ s.Sound keys limit)
    ⟨rfl, [], create_spec hpages hcreate, .refl _⟩ ?_
  rintro s c s' ⟨horder, hsound⟩ ⟨hd, hsize⟩ hstep
  cases hstep
  exact ⟨(s.call_order c).trans horder, hsound.call (horder ▸ hkeys) hlimit hd hsize⟩

end Runs

/-! ### Trees over one column -/

/-- Pages none of which is handed out but the first. -/
def freshPages : Pages := ⟨fun id => ⟨id, .other .free, []⟩, [], 1⟩

lemma freshPages_ok : AllocOk freshPages [] :=
  ⟨by simp [freshPages], by simp [freshPages], by simp, by decide⟩

def tinyTree : Tree :=
  ((create freshPages [⟨0, false⟩] [⟨.tinyInt, false, none⟩]).toOption).get (by decide)

lemma create_tinyTree :
    create freshPages [⟨0, false⟩] [⟨.tinyInt, false, none⟩] = .ok tinyTree := rfl

def tinyKeys : Set (List Value) := {key | ∃ n, key = [.i8 n]}

lemma tinyKeys_comparable : Comparable tinyTree.order tinyKeys := by
  rintro _ ⟨m, rfl⟩ _ ⟨n, rfl⟩
  have hcolumn : (⟨false, Collation.default⟩ : OrderColumn).compare (.i8 m) (.i8 n) =
      .ok (Ord.compare (m.toNat : ℤ) n.toNat) := rfl
  have hcompare : tinyTree.order.comparePrefix [.i8 m] [.i8 n] =
      lexCmp [(⟨false, Collation.default⟩ : OrderColumn).compare] [.i8 m] [.i8 n] := rfl
  rw [hcompare, lexCmp, hcolumn]
  cases Ord.compare (m.toNat : ℤ) n.toNat <;> exact ⟨_, rfl⟩

/-- An entry of a tiny key, filled up to a number of encoded bytes. -/
def tinyEntry (n : UInt8) (size : ℕ) : TreeEntry := ([.i8 n], replicate (size - 12) 0)

def isTiny : List Value → Bool
  | [.i8 _] => true
  | _ => false

/-- `Distinct` and `Sized maxInsertBytes`, evaluated on tiny keys. -/
def tinyCheck (limit : ℕ) (s : Session) : TreeCall → Bool
  | .insert e => isTiny e.1 && s.held.all (fun f => !same s.tree.order e f) &&
      (encodeEntryKey e).length ≤ limit
  | .delete e => isTiny e.1
  | .replace key old new => isTiny key &&
      (s.without (key, old)).all (fun f => !same s.tree.order (key, new) f) &&
      (encodeEntryKey (key, new)).length ≤ limit

lemma tinyCheck_ok {limit : ℕ} {s : Session} {c : TreeCall} (h : tinyCheck limit s c = true) :
    Distinct tinyKeys s c ∧ Sized limit c := by
  have htiny : ∀ key, isTiny key = true → key ∈ tinyKeys := by
    intro key hkey
    unfold isTiny at hkey
    split at hkey
    · exact ⟨_, rfl⟩
    · cases hkey
  cases c with
  | delete e => exact ⟨htiny _ h, fun f hf => by cases hf⟩
  | insert | replace =>
    simp only [tinyCheck, Bool.and_eq_true, all_eq_true, decide_eq_true_eq] at h
    obtain ⟨⟨hkey, hall⟩, hsize⟩ := h
    refine ⟨⟨htiny _ hkey, fun f hf => by simpa using hall f hf⟩, fun f hf => ?_⟩
    cases hf
    exact hsize

/-! ### The sorted set -/

/-- A tree answers like the sorted set of the entries that are held. -/
structure Session.IsSortedSet (s : Session) (keys : Set (List Value)) : Prop where
  /-- A seek answers the entries of its range, each once, in order, or in the opposite order. -/
  seek : ∀ range, Usable s.tree.order keys range → ∃ found,
    found.Perm (s.held.filter fun e => inRange s.tree.order range e.1) ∧
    found.Pairwise (EntryLt s.tree.order) ∧ s.tree.seek range .forward = .ok found ∧
    s.tree.seek range .backward = .ok found.reverse
  /-- A delete answers whether the entry is held. -/
  delete : ∀ e : TreeEntry, e.1 ∈ keys → e.1.length = s.tree.order.arity →
    (s.tree.delete e).1 = .ok (s.held.any (same s.tree.order e))

/-- Over every run of calls on keys that can be compared, inserting entries the order tells from
those that are held, a tree is the sorted set of what was inserted and not deleted. -/
theorem tree_is_a_sorted_set {pages : Pages} {columns : List KeyColumn} {types : List TypeInfo}
    {t : Tree} {keys : Set (List Value)} {s : Session} (hpages : AllocOk pages [])
    (hcreate : create pages columns types = .ok t) (hkeys : Comparable t.order keys)
    (hs : (treeMachine t).Reachable (Distinct keys) s) : s.IsSortedSet keys := by
  obtain ⟨horder, C, hC, hperm⟩ := sound_of_reachable hpages hcreate hkeys le_rfl
    (hs.mono fun s c hd => ⟨hd, fun e _ => le_or_gt _ _⟩)
  rw [← horder] at hkeys
  refine ⟨fun range hrange => ?_, fun e hkey hwidth => ?_⟩
  · obtain ⟨leaves, levels, hwf, rfl⟩ := hC
    obtain ⟨hforward, hbackward⟩ := seek_spec le_rfl hwf hrange
    exact ⟨_, hperm.filter _, hwf.leavesOk.sorted_contents.filter _, hforward, hbackward⟩
  · have hout := delete_spec hkeys le_rfl hC hkey
    have hany : s.held.any (same s.tree.order e) = C.any (same s.tree.order e) :=
      (hperm.symm.any_eq)
    rw [hany]
    match hcall : s.tree.delete e, hout with
    | (.ok true, t'), ⟨C₁, f, C₂, heq, hsame, _, _⟩ => simp [heq, hsame]
    | (.ok false, t'), ⟨hnone, _⟩ =>
      have : C.any (same s.tree.order e) = false := by
        rw [any_eq_false]
        exact hnone
      rw [this]
    | (.error _, t'), ⟨hne, _⟩ => exact absurd hwidth hne

/-- Inserts out of order that split a leaf, then a delete and a replace. -/
def mixedCalls : List TreeCall :=
  [.insert (tinyEntry 40 2028), .insert (tinyEntry 20 2028), .insert (tinyEntry 10 2028),
    .insert (tinyEntry 30 2028), .insert (tinyEntry 25 2028), .delete (tinyEntry 20 2028),
    .replace [.i8 10] (tinyEntry 10 2028).2 [7]]

theorem mixedCalls_is_a_sorted_set : ∃ s, (treeMachine tinyTree).Reachable (Distinct tinyKeys) s ∧
    s.held = [([.i8 10], [7]), tinyEntry 25 2028, tinyEntry 30 2028, tinyEntry 40 2028] ∧
    s.IsSortedSet tinyKeys := by
  obtain ⟨s, hs, hp⟩ := (treeMachine tinyTree).exists_reachable (tinyCheck maxInsertBytes)
    mixedCalls (fun s => s.held =
      [([.i8 10], [7]), tinyEntry 25 2028, tinyEntry 30 2028, tinyEntry 40 2028])
    (fun s c hc => (tinyCheck_ok hc).1) (by decide +kernel)
  exact ⟨s, hs, of_decide_eq_true hp,
    tree_is_a_sorted_set freshPages_ok create_tinyTree tinyKeys_comparable hs⟩

/-- **Over the same runs the tree stays well formed**: its leaves are linked and sorted, its levels
stacked over them and fewer than a descent follows, and no page is shared or unknown to the
allocator. -/
theorem tree_stays_well_formed {pages : Pages} {columns : List KeyColumn} {types : List TypeInfo}
    {t : Tree} {keys : Set (List Value)} {s : Session} (hpages : AllocOk pages [])
    (hcreate : create pages columns types = .ok t) (hkeys : Comparable t.order keys)
    (hs : (treeMachine t).Reachable (Distinct keys) s) : ∃ leaves levels,
      s.tree.WellFormed keys maxInsertBytes leaves levels ∧ levels.length < maxDepth ∧
      (contents leaves).Perm s.held := by
  obtain ⟨-, _, ⟨leaves, levels, hwf, rfl⟩, hperm⟩ := sound_of_reachable hpages hcreate hkeys le_rfl
    (hs.mono fun s c hd => ⟨hd, fun e _ => le_or_gt _ _⟩)
  exact ⟨leaves, levels, hwf, hwf.depth_lt, hperm⟩

theorem mixedCalls_stay_well_formed : ∃ s : Session, s.held.length = 4 ∧ ∃ leaves levels,
    s.tree.WellFormed tinyKeys maxInsertBytes leaves levels ∧ (contents leaves).Perm s.held := by
  obtain ⟨s, hs, hp⟩ := (treeMachine tinyTree).exists_reachable (tinyCheck maxInsertBytes)
    mixedCalls (fun s => s.held.length = 4) (fun s c hc => (tinyCheck_ok hc).1) (by decide +kernel)
  obtain ⟨leaves, levels, hwf, -, hperm⟩ :=
    tree_stays_well_formed freshPages_ok create_tinyTree tinyKeys_comparable hs
  exact ⟨s, of_decide_eq_true hp, leaves, levels, hwf, hperm⟩

def floatTree : Tree :=
  ((create freshPages [⟨0, false⟩] [⟨.float, false, none⟩]).toOption).get (by decide)

/-- The tree takes a NaN, and a seek of the keys equal to 1 then answers an error. -/
theorem nan_key_stops_seek : ∃ s,
    (treeMachine floatTree).Reachable (fun _ c => c = .insert ([.f64 0x7ff8000000000000], [])) s ∧
    s.held = [([.f64 0x7ff8000000000000], [])] ∧
    ∃ message, s.tree.seek (.point [.f64 0x3ff0000000000000]) .forward = .error (.bug message) := by
  refine ⟨_, .next .start rfl rfl, ?_, ?_⟩
  · decide +kernel
  · exact ⟨"comparing two key values of a B+tree", by decide +kernel⟩

/-! ### The entries an insert takes -/

/-- Over every run whose entries have at most `safeInsertBytes` bytes, an insert of such an entry
succeeds while the instance has pages left for a split of every level. -/
theorem short_entries_are_inserted {pages : Pages} {columns : List KeyColumn}
    {types : List TypeInfo} {t : Tree} {keys : Set (List Value)} {s : Session} {e : TreeEntry}
    (hpages : AllocOk pages []) (hcreate : create pages columns types = .ok t)
    (hkeys : Comparable t.order keys)
    (hs : (treeMachine t).Reachable (fun s c => Distinct keys s c ∧ Sized safeInsertBytes c) s)
    (hd : Distinct keys s (.insert e)) (hwidth : e.1.length = t.order.arity)
    (hsize : (encodeEntryKey e).length ≤ safeInsertBytes)
    (hleft : maxDepth < available s.tree.pages) :
    (s.tree.insert e).1 = .ok () := by
  obtain ⟨horder, C, hC, hperm⟩ := sound_of_reachable hpages hcreate hkeys (by decide)
    (hs.mono fun s c hc => ⟨hc.1, fun e he => .inl (hc.2 e he)⟩)
  rw [← horder] at hkeys hwidth
  have hout := insert_spec hkeys (by decide) hC hd.1 (.inl hsize) fun f hf =>
    hd.2 f (hperm.subset hf)
  match hcall : s.tree.insert e, hout with
  | (.ok _, t'), _ => rfl
  | (.error _, t'), ⟨_, hfail⟩ =>
    rcases hfail ⟨hd.1, hwidth, hsize⟩ with hfew | hlong
    · omega
    · exact absurd hlong (lt_irrefl _)


theorem shortCalls_are_inserted : ∃ s, (treeMachine tinyTree).Reachable
      (fun s c => Distinct tinyKeys s c ∧ Sized safeInsertBytes c) s ∧ s.held.length = 4 ∧
    (s.tree.insert (tinyEntry 50 2022)).1 = .ok () := by
  obtain ⟨s, hs, hp⟩ := (treeMachine tinyTree).exists_reachable (tinyCheck safeInsertBytes)
    ([10, 20, 30, 40].map fun n => .insert (tinyEntry n 2022))
    (fun s => s.held.length = 4 && (tinyCheck safeInsertBytes s (.insert (tinyEntry 50 2022)) &&
      decide (maxDepth < available s.tree.pages)))
    (fun s c => tinyCheck_ok) (by decide +kernel)
  simp only [Bool.and_eq_true, decide_eq_true_eq] at hp
  obtain ⟨hlen, hcheck, hleft⟩ := hp
  obtain ⟨hd, hsize⟩ := tinyCheck_ok hcheck
  exact ⟨s, hs, hlen, short_entries_are_inserted freshPages_ok create_tinyTree tinyKeys_comparable
    hs hd rfl (hsize _ rfl) hleft⟩

/-- Fourteen inserts: separators of 2019, 2016, 2028, 1020 and 984 bytes in the root. -/
def crowdedRoot : List TreeCall :=
  [(10, 1002), (20, 2019), (30, 2016), (40, 2028), (50, 2016), (60, 1020), (70, 2028), (80, 2020),
    (90, 984), (100, 2028), (110, 2020), (11, 2028), (12, 2028), (13, 2028)].map
      fun p => .insert (tinyEntry p.1 p.2)

/-- The separator of 2028 bytes belongs to the left half of the root, which would hold 6111 bytes of
8152 and has no room for the 2044 it weighs. -/
theorem separator_has_no_room : ∃ s, (treeMachine tinyTree).Reachable
      (fun s c => Distinct tinyKeys s c ∧ Sized maxInsertBytes c) s ∧
    Distinct tinyKeys s (.insert (tinyEntry 14 2028)) ∧
    (encodeEntryKey (tinyEntry 14 2028)).length = maxInsertBytes ∧
    maxDepth < available s.tree.pages ∧
    ∃ message, (s.tree.insert (tinyEntry 14 2028)).1 = .error (.bug message) := by
  obtain ⟨s, hs, hp⟩ := (treeMachine tinyTree).exists_reachable (tinyCheck maxInsertBytes)
    crowdedRoot (fun s => tinyCheck maxInsertBytes s (.insert (tinyEntry 14 2028)) &&
      (decide (maxDepth < available s.tree.pages) &&
        ((s.tree.insert (tinyEntry 14 2028)).1 matches .error (.bug _))))
    (fun s c => tinyCheck_ok) (by decide +kernel)
  simp only [Bool.and_eq_true, decide_eq_true_eq] at hp
  obtain ⟨hcheck, hleft, hbug⟩ := hp
  refine ⟨s, hs, (tinyCheck_ok hcheck).1, by decide +kernel, hleft, ?_⟩
  split at hbug
  · exact ⟨_, by assumption⟩
  · cases hbug

end BTree

end VaubanDB
