import VaubanDB.Txn.Visibility

/-!
First committer wins.

A transaction at SNAPSHOT updates or deletes a row only after it got the exclusive lock on it and
`checkWriteConflict` answered `proceed`: the last writer of the row is the transaction itself, or it
was closed before the snapshot was built.  The lock keeps it so until the write.  Hence of any two
writers of a row that have a snapshot, one was closed before the snapshot of the other was built.

The check says nothing about a row that does not exist yet.  A transaction that locks and checks the
identifier of a row before the row is inserted may later overwrite an insert that it does not see.
-/

namespace VaubanDB

open MemoryStorage ManagerState OrderedMap List

def Version.Names (v : Version) (x : TxnId) : Prop := v.xmin = x ∨ v.xmax = some x

lemma Version.names_last (v : Version) : v.Names (v.xmax.getD v.xmin) := by
  cases hxmax : v.xmax with
  | none => exact .inl rfl
  | some y => exact .inr hxmax

namespace TxnSystem

variable {w w' : TxnSystem} {s : Inner}

/-- `x` was closed before the snapshot of `y` was built. -/
def ClosedBefore (w : TxnSystem) (x y : TxnId) : Prop :=
  ∃ i j, w.closedAt.get? x = some i ∧ w.pinnedAt.get? y = some j ∧ i < j

/-- A version of the row is one that the transaction has created or deleted. -/
def Wrote (w : TxnSystem) (x : TxnId) (T : TableId) (r : RowId) : Prop :=
  ∃ v ∈ w.storage.chainOf T r, v.Names x

def Pinned (w : TxnSystem) (x : TxnId) : Prop := (w.state.find x).any fun o => o.pinned.isSome

instance (w : TxnSystem) (x : TxnId) : Decidable (w.Pinned x) := inferInstanceAs (Decidable (_ = _))

/-- No other open transaction has written the row. -/
def Settled (w : TxnSystem) (x : TxnId) (T : TableId) (r : RowId) : Prop :=
  ∀ v ∈ w.storage.chainOf T r, ∀ y ∈ w.state.ids, v.Names y → y = x

/-- A transaction that has its snapshot updates and deletes a row after it got the exclusive lock on
it and the check answered that it may proceed, and it took the snapshot before its first check. The
other transactions update and delete under the lock and not over what an open transaction has
written. -/
def Checked (w : TxnSystem) (e : TxnEvent) : Prop :=
  w.Locked e ∧ match e with
    | .statementSnapshot x => w.pins x = true → ∀ cleared ∈ w.cleared, cleared.1 ≠ x
    | .checkWriteConflict x T r => w.Pinned x → w.lives.Exclusive x T r
    | .update x T r _ | .delete x T r =>
      if w.Pinned x then (x, T, r) ∈ w.cleared else w.Settled x T r
    | _ => True

def FirstCommitter (w : TxnSystem) (e : TxnEvent) : Prop :=
  w.Checked e ∧ match e with
    | .checkWriteConflict x T r => w.Pinned x → w.storage.chainOf T r ≠ []
    | _ => True

/-! ### Times -/

/-- What an event does to the identifiers and to the times. -/
inductive TimeStep (w : TxnSystem) (e : TxnEvent) (w' : TxnSystem) : Prop
  | quiet (hids : w'.state.ids = w.state.ids) (hnext : w'.state.nextId = w.state.nextId)
      (hclosed : w'.closedAt = w.closedAt) (hpinned : w'.pinnedAt = w.pinnedAt)
      (hnot : ∀ x, e = .statementSnapshot x → w.pins x = false)
  | pin (x : TxnId) (he : e = .statementSnapshot x) (hpins : w.pins x = true)
      (hids : w'.state.ids = w.state.ids) (hnext : w'.state.nextId = w.state.nextId)
      (hclosed : w'.closedAt = w.closedAt) (hpinned : w'.pinnedAt = w.pinnedAt.insert x w.clock)
  | begin (he : ∀ x, e ≠ .statementSnapshot x)
      (hids : w'.state.ids = w.state.ids ++ [w.state.nextId])
      (hnext : w'.state.nextId = w.state.nextId + 1) (hclosed : w'.closedAt = w.closedAt)
      (hpinned : w'.pinnedAt = w.pinnedAt)
  | close (x : TxnId) (he : ∀ x, e ≠ .statementSnapshot x) (hx : x ∈ w.state.ids)
      (hids : w'.state.ids = w.state.ids.filter fun y => y != x)
      (hnext : w'.state.nextId = w.state.nextId)
      (hclosed : w'.closedAt = w.closedAt.insert x w.clock) (hpinned : w'.pinnedAt = w.pinnedAt)

/-- What an event does to the times. -/
theorem time_cases (hc : w.Committing) {e : TxnEvent} (hs : w.event e = some w') (clock : ℕ) :
    TimeStep w e { w' with clock } := by
  have hquiet : ∀ {w₁ : TxnSystem}, (∀ x, e ≠ .statementSnapshot x) → w₁.state.ids = w.state.ids →
      w₁.state.nextId = w.state.nextId → w₁.closedAt = w.closedAt → w₁.pinnedAt = w.pinnedAt →
      TimeStep w e w₁ :=
    fun he hids hnext hclosed hpinned => .quiet hids hnext hclosed hpinned fun x hx =>
      absurd hx (he x)
  cases effect_of_event hs with
  | idle he => exact hquiet he rfl rfl rfl rfl
  | begin db isolation he => exact .begin he (ids_begin _ _) rfl rfl rfl
  | snapshot x =>
    obtain ⟨f, hf, heq⟩ := w.state.statementSnapshot_eq w.modeOf x
    have hids : (w.state.statementSnapshot w.modeOf x).2.ids = w.state.ids := by
      rw [heq, ids_modify fun o => (hf o).1]
    have hnext : (w.state.statementSnapshot w.modeOf x).2.nextId = w.state.nextId := by
      rw [heq]
      rfl
    cases hp : w.pins x with
    | true => exact .pin x rfl hp hids hnext rfl rfl
    | false =>
      refine .quiet hids hnext rfl rfl fun y hy => ?_
      exact TxnEvent.statementSnapshot.inj hy ▸ hp
  | mark x o _ | reopen x order c _ => exact hquiet nofun (ids_modify fun _ => rfl) rfl rfl rfl
  | finish c hcall _ hclose =>
    obtain ⟨o, ho, _⟩ := hc.ending c (mem_of_find?_eq_some hcall)
    obtain ⟨locks, _, rfl⟩ := Option.map_eq_some_iff.mp hclose
    exact .close c.txn nofun (mem_ids_of_find ho) (ids_remove hc.ids) rfl rfl rfl
  | rollbackClose o hlive hclose =>
    obtain ⟨locks, _, rfl⟩ := Option.map_eq_some_iff.mp hclose
    exact .close _ nofun (mem_ids_of_live hlive) (ids_remove hc.ids) rfl rfl rfl
  | call c he x _ _ f hf =>
    refine hquiet ?_ (ids_modify fun o => (hf o).1) rfl rfl rfl
    rintro y rfl
    cases he
  | lock a he locks _ =>
    refine hquiet ?_ rfl rfl rfl rfl
    rintro x rfl
    cases he
  | _ => exact hquiet nofun rfl rfl rfl rfl

/-- The snapshot of an entry was built at the time noted, and whom it does not list was closed. -/
structure PinnedFor (w : TxnSystem) (o : OpenTxn) (snap : Snapshot) : Prop where
  own : snap.own = o.id
  xmax_le : snap.xmax ≤ w.state.nextId
  time : ∃ j, w.pinnedAt.get? o.id = some j ∧ j < w.clock
  settled : ∀ x, 1 ≤ x → x < snap.xmax → x ∉ snap.active → x ≠ o.id → w.ClosedBefore x o.id

/-- The times agree with the entries. -/
structure Timed (w : TxnSystem) : Prop where
  unpinned : ∀ o ∈ w.state.opened, o.pinned = none → w.pinnedAt.get? o.id = none
  pinned : ∀ o ∈ w.state.opened, ∀ snap, o.pinned = some snap → w.PinnedFor o snap
  pinned_lt : ∀ x j, w.pinnedAt.get? x = some j → x < w.state.nextId
  closed : ∀ x, 1 ≤ x → x < w.state.nextId → x ∉ w.state.ids →
    ∃ i, w.closedAt.get? x = some i ∧ i < w.clock
  closedAt : ∀ x i, w.closedAt.get? x = some i → x ∉ w.state.ids ∧ x < w.state.nextId ∧
    i < w.clock ∧ ∀ j, w.pinnedAt.get? x = some j → j ≤ i

/-- The times that are noted stay, and those that come are later. -/
structure Longer (w w' : TxnSystem) : Prop where
  closedAt : ∀ x i, w.closedAt.get? x = some i → w'.closedAt.get? x = some i
  pinnedAt : ∀ x j, w.pinnedAt.get? x = some j → w'.pinnedAt.get? x = some j
  closedAt_new : ∀ x i, w'.closedAt.get? x = some i → w.closedAt.get? x = some i ∨ w.clock ≤ i
  pinnedAt_new : ∀ x j, w'.pinnedAt.get? x = some j → w.pinnedAt.get? x = some j ∨ w.clock ≤ j
  nextId : w.state.nextId ≤ w'.state.nextId

/-- `x` was closed before the snapshot of `y` was built, if it was, and before `y` was closed. -/
def Precedes (w : TxnSystem) (x y : TxnId) : Prop :=
  ∃ i, w.closedAt.get? x = some i ∧ (∀ j, w.pinnedAt.get? y = some j → i < j) ∧
    ∀ k, w.closedAt.get? y = some k → i < k

variable {x y : TxnId}

lemma Precedes.trans {z : TxnId} (hxy : w.Precedes x y) (hyz : w.Precedes y z) :
    w.Precedes x z := by
  obtain ⟨i, hi, -, hclosed⟩ := hxy
  obtain ⟨k, hk, hpinned', hclosed'⟩ := hyz
  have hlt : i < k := hclosed k hk
  exact ⟨i, hi, fun j hj => hlt.trans (hpinned' j hj), fun k' hk' => hlt.trans (hclosed' k' hk')⟩

lemma Precedes.closedBefore (h : w.Precedes x y)
    (hy : (w.pinnedAt.get? y).isSome = true) : w.ClosedBefore x y := by
  obtain ⟨i, hi, hpinned, -⟩ := h
  obtain ⟨j, hj⟩ := Option.isSome_iff_exists.mp hy
  exact ⟨i, j, hi, hj, hpinned j hj⟩

namespace Timed

variable {x : TxnId} {e : TxnEvent}

variable (h : w.Timed)
include h

lemma precedes_of_closedBefore (hxy : w.ClosedBefore x y) : w.Precedes x y := by
  obtain ⟨i, j, hi, hj, hlt⟩ := hxy
  refine ⟨i, hi, fun j' hj' => ?_, fun k hk => hlt.trans_le ((h.closedAt y k hk).2.2.2 j hj)⟩
  rw [hj] at hj'
  exact Option.some.inj hj' ▸ hlt

lemma precedes_of_open (h1 : 1 ≤ x) (hlt : x < w.state.nextId)
    (hx : x ∉ w.state.ids) (hy : y ∈ w.state.ids) (hpinned : ¬ w.Pinned y) : w.Precedes x y := by
  obtain ⟨i, hi, _⟩ := h.closed x h1 hlt hx
  refine ⟨i, hi, fun j hj => ?_, fun k hk => absurd hy (h.closedAt y k hk).1⟩
  obtain ⟨o, ho⟩ := find_of_mem_ids hy
  have hnone : o.pinned = none := by
    cases hp : o.pinned with
    | none => rfl
    | some snap => exact absurd ((Option.any_eq_true _ _).mpr ⟨o, ho, by rw [hp]; rfl⟩) hpinned
  rw [← id_of_find ho, h.unpinned o (mem_of_find?_eq_some ho) hnone] at hj
  cases hj

lemma precedes_longer (hl : Longer w w') (hxy : w.Precedes x y) : w'.Precedes x y := by
  obtain ⟨i, hi, hpinned, hclosed⟩ := hxy
  have hnow : i < w.clock := (h.closedAt x i hi).2.2.1
  refine ⟨i, hl.closedAt x i hi, fun j hj => ?_, fun k hk => ?_⟩
  · exact (hl.pinnedAt_new y j hj).elim (hpinned j) hnow.trans_le
  · exact (hl.closedAt_new y k hk).elim (hclosed k) hnow.trans_le

lemma exists_of_pins (hx : w.pins x = true) :
    w.pinnedAt.get? x = none ∧ ∃ o ∈ w.state.opened, o.id = x ∧ o.pinned = none ∧
      w.modeOf o = .txnSnapshot := by
  obtain ⟨o, ho, hp⟩ := (Option.any_eq_true _ _).mp hx
  have hmem := mem_of_find?_eq_some ho
  have hid := id_of_find ho
  simp only [Bool.and_eq_true, Option.isNone_iff_eq_none, beq_iff_eq] at hp
  exact ⟨hid ▸ h.unpinned o hmem hp.1, o, hmem, hid, hp.1, hp.2⟩

omit h in
lemma nextId_le (hs : TimeStep w e w') : w.state.nextId ≤ w'.state.nextId := by
  cases hs with
  | quiet _ hnext _ _ _ | pin _ _ _ _ hnext _ _ | close _ _ _ _ hnext _ _ => exact hnext.ge
  | begin _ _ hnext _ _ => exact hnext ▸ Nat.le_succ _

omit h in
lemma now_or_before {times : OrderedMap TxnId ℕ} {now i : ℕ}
    (h : (times.insert x now).get? y = some i) : times.get? y = some i ∨ now ≤ i := by
  rw [get?_insert] at h
  split_ifs at h
  · exact .inr (Option.some.inj h).le
  · exact .inl h

lemma longer (hs : TimeStep w e w') : Longer w w' := by
  have hle := nextId_le hs
  cases hs with
  | quiet _ _ hclosed hpinned _ | begin _ _ _ hclosed hpinned =>
    exact ⟨fun _ _ h => hclosed ▸ h, fun _ _ h => hpinned ▸ h, fun _ _ h => .inl (hclosed ▸ h),
      fun _ _ h => .inl (hpinned ▸ h), hle⟩
  | pin x _ hpins _ _ hclosed hpinned =>
    refine ⟨fun _ _ h => hclosed ▸ h, fun y j hy => ?_, fun _ _ h => .inl (hclosed ▸ h),
      fun y j hy => now_or_before (hpinned ▸ hy), hle⟩
    have hyx : y ≠ x := by
      rintro rfl
      rw [(h.exists_of_pins hpins).1] at hy
      cases hy
    rw [hpinned, get?_insert, if_neg hyx]
    exact hy
  | close x _ hx _ _ hclosed hpinned =>
    refine ⟨fun y i hy => ?_, fun _ _ h => hpinned ▸ h, fun y i hy => now_or_before (hclosed ▸ hy),
      fun _ _ h => .inl (hpinned ▸ h), hle⟩
    have hyx : y ≠ x := by
      rintro rfl
      exact (h.closedAt y i hy).1 hx
    rw [hclosed, get?_insert, if_neg hyx]
    exact hy

variable {o : OpenTxn}

omit h in
lemma pins_of_mem (hc : w.Committing) (ho : o ∈ w.state.opened)
    (hnone : o.pinned = none) (hmode : w.modeOf o = .txnSnapshot) : w.pins o.id = true := by
  obtain ⟨o', ho'⟩ := find_of_mem_ids (mem_map.mpr ⟨o, ho, rfl⟩)
  obtain rfl : o' = o := inj_on_of_nodup_map hc.ids (mem_of_find?_eq_some ho') ho (id_of_find ho')
  rw [pins, ho']
  simp [hnone, hmode]

lemma step_pinned_lt (hlt : ∀ x ∈ w.state.ids, x < w.state.nextId)
    (ht : TimeStep w e w') {j : ℕ} (hx : w'.pinnedAt.get? x = some j) : x < w.state.nextId := by
  cases ht with
  | quiet _ _ _ hpin _ | begin _ _ _ _ hpin | close _ _ _ _ _ _ hpin =>
    exact h.pinned_lt x j (hpin ▸ hx)
  | pin y _ hpins _ _ _ hpin =>
    rw [hpin, get?_insert] at hx
    split_ifs at hx with hxy
    · obtain ⟨_, o, ho, hid, _⟩ := h.exists_of_pins hpins
      exact hlt x (mem_map.mpr ⟨o, ho, hid.trans hxy.symm⟩)
    · exact h.pinned_lt x j hx

lemma step_unpinned (hc : w.Committing) (hlt : ∀ x ∈ w.state.ids, x < w.state.nextId)
    (ht : TimeStep w e w') (hentry : EntryStep w e o) (hnone : o.pinned = none) :
    w'.pinnedAt.get? o.id = none := by
  cases hentry with
  | kept o₁ ho₁ hid hpinned hnot =>
    have hold := h.unpinned o₁ ho₁ (hpinned ▸ hnone)
    rw [hid]
    cases ht with
    | quiet _ _ _ hpin _ | begin _ _ _ _ hpin | close _ _ _ _ _ _ hpin => exact hpin ▸ hold
    | pin x he hpins _ _ _ hpin =>
      rw [hpin, get?_insert]
      split_ifs with hx
      · obtain ⟨_, o₂, ho₂, hid₂, hnone₂, hmode₂⟩ := h.exists_of_pins hpins
        obtain rfl : o₂ = o₁ := inj_on_of_nodup_map hc.ids ho₂ ho₁ (hid₂.trans hx.symm)
        exact absurd ⟨hnone₂, hmode₂⟩ (hnot (hx ▸ he))
      · exact hold
  | pinned o₁ _ _ _ _ _ hsnap =>
    cases hsnap.symm.trans hnone
  | opened hid _ =>
    cases hget : w'.pinnedAt.get? o.id with
    | none => rfl
    | some j => exact absurd (h.step_pinned_lt hlt ht hget) (hid ▸ lt_irrefl _)

lemma step_pinned (hc : w.Committing) (ht : TimeStep w e w')
    (hclock : w'.clock = w.clock + 1) (hentry : EntryStep w e o) {snap : Snapshot}
    (hsnap : o.pinned = some snap) : w'.PinnedFor o snap := by
  have hlonger := h.longer ht
  cases hentry with
  | kept o₁ ho₁ hid hpinned _ =>
    obtain ⟨hown, hle, ⟨j, hj, hjlt⟩, hsettled⟩ := h.pinned o₁ ho₁ snap (hpinned ▸ hsnap)
    refine ⟨hid ▸ hown, hle.trans (nextId_le ht), ⟨j, hid ▸ hlonger.pinnedAt _ j hj, by omega⟩, ?_⟩
    rw [hid]
    intro x h1 hx ha hne
    obtain ⟨i, j, hi, hj, hlt⟩ := hsettled x h1 hx ha hne
    exact ⟨i, j, hlonger.closedAt _ i hi, hlonger.pinnedAt _ j hj, hlt⟩
  | pinned o₁ ho₁ hid hnone he hmode hp =>
    obtain rfl : w.state.snapshotFor o₁.id = snap := Option.mem_unique hp hsnap
    cases ht with
    | quiet _ _ _ _ hnot =>
      have := hnot _ he
      rw [pins_of_mem hc ho₁ hnone hmode] at this
      cases this
    | begin hno _ _ _ _ | close _ hno _ _ _ _ _ => exact absurd he (hno _)
    | pin x hx hpins hids hnext hclosed hpin =>
      obtain rfl : o₁.id = x := TxnEvent.statementSnapshot.inj (he.symm.trans hx)
      have hnow : w'.pinnedAt.get? o₁.id = some w.clock := by rw [hpin, get?_insert_self]
      refine ⟨hid.symm, hnext.ge, ⟨w.clock, hid ▸ hnow, by omega⟩, fun y h1 hy ha hne => ?_⟩
      -- who is not listed is not open, so it was closed before
      have hopen : y ∉ w.state.ids := fun hmem =>
        ha (mem_filter.mpr ⟨hmem, by simpa using hid ▸ hne⟩)
      obtain ⟨i, hi, hilt⟩ := h.closed y h1 hy hopen
      exact ⟨i, w.clock, hclosed ▸ hi, hid ▸ hnow, hilt⟩
  | opened _ hnone =>
    cases hnone.symm.trans hsnap

lemma step_closed (ht : TimeStep w e w') (hclock : w'.clock = w.clock + 1)
    (h1 : 1 ≤ x) (hx : x < w'.state.nextId) (hopen : x ∉ w'.state.ids) :
    ∃ i, w'.closedAt.get? x = some i ∧ i < w'.clock := by
  have hold : x < w.state.nextId → x ∉ w.state.ids →
      ∃ i, w'.closedAt.get? x = some i ∧ i < w'.clock := fun hx hopen =>
    let ⟨i, hi, hlt⟩ := h.closed x h1 hx hopen
    ⟨i, (h.longer ht).closedAt x i hi, by omega⟩
  cases ht with
  | quiet hids hnext _ _ _ | pin _ _ _ hids hnext _ _ => exact hold (hnext ▸ hx) (hids ▸ hopen)
  | begin _ hids hnext _ _ =>
    rw [hids, mem_append, mem_singleton, not_or] at hopen
    rw [hnext] at hx
    exact hold (lt_of_le_of_ne (Nat.le_of_lt_succ hx) hopen.2) hopen.1
  | close y _ _ hids hnext hclosed _ =>
    by_cases hxy : x = y
    · refine ⟨w.clock, ?_, by omega⟩
      rw [hclosed, hxy, get?_insert_self]
    · refine hold (hnext ▸ hx) fun hmem => hopen ?_
      rw [hids]
      exact mem_filter.mpr ⟨hmem, by simpa using hxy⟩

lemma step_closedAt (hlt : ∀ x ∈ w.state.ids, x < w.state.nextId)
    (ht : TimeStep w e w') (hclock : w'.clock = w.clock + 1) {i : ℕ}
    (hx : w'.closedAt.get? x = some i) : x ∉ w'.state.ids ∧ x < w'.state.nextId ∧ i < w'.clock ∧
      ∀ j, w'.pinnedAt.get? x = some j → j ≤ i := by
  cases ht with
  | quiet hids hnext hclosed hpin _ =>
    obtain ⟨hopen, hold, hnow, htimes⟩ := h.closedAt x i (hclosed ▸ hx)
    rw [hids, hnext, hpin]
    exact ⟨hopen, hold, by omega, htimes⟩
  | pin y _ hpins hids hnext hclosed hpin =>
    obtain ⟨hopen, hold, hnow, htimes⟩ := h.closedAt x i (hclosed ▸ hx)
    rw [hids, hnext, hpin]
    refine ⟨hopen, hold, by omega, fun j hj => ?_⟩
    rw [get?_insert] at hj
    split_ifs at hj with hxy
    · obtain ⟨_, o, ho, hid, _⟩ := h.exists_of_pins hpins
      exact absurd (mem_map.mpr ⟨o, ho, hid.trans hxy.symm⟩) hopen
    · exact htimes j hj
  | begin _ hids hnext hclosed hpin =>
    obtain ⟨hopen, hold, hnow, htimes⟩ := h.closedAt x i (hclosed ▸ hx)
    rw [hids, hnext, hpin]
    refine ⟨?_, Nat.lt_succ_of_lt hold, by omega, htimes⟩
    rw [mem_append, mem_singleton, not_or]
    exact ⟨hopen, hold.ne⟩
  | close y _ hy hids hnext hclosed hpin =>
    rw [hclosed, get?_insert] at hx
    rw [hids, hnext, hpin]
    split_ifs at hx with hxy
    · obtain rfl := Option.some.inj hx
      refine ⟨by simp [hxy], hxy ▸ hlt y hy, by omega, fun j hj => ?_⟩
      -- the snapshot of an open transaction was built before now
      obtain ⟨o, ho, hid⟩ := mem_map.mp (hxy ▸ hy)
      rw [← hid] at hj
      cases hp : o.pinned with
      | none =>
        rw [h.unpinned o ho hp] at hj
        cases hj
      | some snap =>
        obtain ⟨j', hj', hlt'⟩ := (h.pinned o ho snap hp).time
        rw [hj'] at hj
        exact Option.some.inj hj ▸ hlt'.le
    · obtain ⟨hopen, hold, hnow, htimes⟩ := h.closedAt x i hx
      exact ⟨fun hmem => hopen (mem_of_mem_filter hmem), hold, by omega, htimes⟩

/-- Every event keeps the times in agreement with the entries. -/
theorem step (hc : w.Committing) (hlt : ∀ x ∈ w.state.ids, x < w.state.nextId)
    (hs : w.exec e = some w') : w'.Timed ∧ Longer w w' := by
  obtain ⟨w₁, hevent, rfl⟩ := Option.map_eq_some_iff.mp hs
  have ht := time_cases hc hevent (w.clock + 1)
  refine ⟨⟨fun o ho hnone => ?_, fun o ho snap hsnap => ?_, fun x j hx => ?_,
    fun x h1 hx hopen => ?_,
    fun x i hx => ?_⟩, h.longer ht⟩
  · exact h.step_unpinned hc hlt ht (entry_cases hc.ids hevent ho) hnone
  · exact h.step_pinned hc ht rfl (entry_cases hc.ids hevent ho) hsnap
  · exact (h.step_pinned_lt hlt ht hx).trans_le (nextId_le ht)
  · exact h.step_closed ht rfl h1 hx hopen
  · exact h.step_closedAt hlt ht rfl hx

omit h

lemma start (s : Inner) : (TxnSystem.start s).Timed := by
  refine ⟨nofun, nofun, nofun, fun x h1 hx _ => ?_, nofun⟩
  exact absurd (Nat.lt_one_iff.mp hx) (Nat.one_le_iff_ne_zero.mp h1)

end Timed

/-! ### The writers of a row -/

/-- The writers of a chain come one after the other. -/
structure Successive (w : TxnSystem) (c : List Version) : Prop where
  range : ∀ v ∈ c, ∀ x, v.Names x → 1 ≤ x ∧ x < w.state.nextId
  stamps : ∀ v ∈ c, ∀ x, v.xmax = some x → v.xmin = x ∨ w.Precedes v.xmin x
  pairs : c.Pairwise fun a b => ∀ x y, a.Names x → b.Names y → x = y ∨ w.Precedes x y

/-- The writers of a chain precede `x`, itself aside. -/
def Clear (w : TxnSystem) (x : TxnId) (c : List Version) : Prop :=
  ∀ v ∈ c, ∀ y, v.Names y → y = x ∨ w.Precedes y x

variable {c : List Version}

lemma Clear.longer (h : w.Clear x c) (ht : w.Timed) (hl : Longer w w') : w'.Clear x c :=
  fun v hv y hy => (h v hv y hy).imp_right (ht.precedes_longer hl)

variable {c' : List Version}

lemma Clear.trim (h : w.Clear x c) (ht : Trimmed c' c) : w.Clear x c' := by
  intro v hv y hy
  obtain ⟨u, hu, huy⟩ := ht.exists_named hv hy
  exact h u hu y huy

variable {a : Version}

lemma Clear.stamp (h : w.Clear x (c ++ [a])) : w.Clear x (c ++ [{ a with xmax := some x }]) := by
  intro v hv y hy
  rcases mem_snoc.mp hv with hv | rfl
  · exact h v (mem_append_left _ hv) y hy
  · rcases hy with hy | hy
    · exact h a (by simp) y (.inl hy)
    · exact .inl (Option.some.inj hy).symm

namespace Successive

variable {c c' : List Version} {x : TxnId}

lemma longer (h : w.Successive c) (ht : w.Timed) (hl : Longer w w') : w'.Successive c :=
  ⟨fun v hv x hx => ⟨(h.range v hv x hx).1, (h.range v hv x hx).2.trans_le hl.nextId⟩,
    fun v hv x hx => (h.stamps v hv x hx).imp_right (ht.precedes_longer hl),
    h.pairs.imp fun hab x y hx hy => (hab x y hx hy).imp_right (ht.precedes_longer hl)⟩

lemma trim (h : w.Successive c) (ht : Trimmed c' c) : w.Successive c' := by
  refine ⟨fun v hv x hx => ?_, ?_, ?_⟩
  · obtain ⟨u, hu, hux⟩ := ht.exists_named hv hx
    exact h.range u hu x hux
  · obtain ⟨d, hsub, rfl | ⟨e, a, rfl, rfl⟩⟩ := ht
    · exact fun v hv => h.stamps v (hsub.subset hv)
    · intro v hv x hx
      rcases mem_snoc.mp hv with hv | rfl
      · exact h.stamps v (hsub.subset (mem_append_left _ hv)) x hx
      · cases hx
  · obtain ⟨d, hsub, rfl | ⟨e, a, rfl, rfl⟩⟩ := ht
    · exact h.pairs.sublist hsub
    · obtain ⟨hpairs, _, hlast⟩ := pairwise_append.mp (h.pairs.sublist hsub)
      refine pairwise_append.mpr ⟨hpairs, pairwise_singleton _ _, ?_⟩
      intro v hv b hb x y hx hy
      obtain rfl := mem_singleton.mp hb
      exact hlast v hv a (by simp) x y hx (.inl (hy.resolve_right nofun))

lemma snoc (h : w.Successive c) (hclear : w.Clear x c) (hx : 1 ≤ x ∧ x < w.state.nextId)
    {b : Version}
    (hb : b.xmin = x) (hxmax : b.xmax = none) : w.Successive (c ++ [b]) := by
  have hnames : ∀ y, b.Names y → y = x := by
    rintro y (hy | hy)
    · exact hy.symm.trans hb
    · cases hxmax.symm.trans hy
  refine ⟨fun v hv y hy => ?_, fun v hv y hy => ?_,
    pairwise_append.mpr ⟨h.pairs, pairwise_singleton _ _, fun a ha b' hb' y z hy hz => ?_⟩⟩
  · rcases mem_snoc.mp hv with hv | rfl
    · exact h.range v hv y hy
    · exact hnames y hy ▸ hx
  · rcases mem_snoc.mp hv with hv | rfl
    · exact h.stamps v hv y hy
    · cases hxmax.symm.trans hy
  · obtain rfl := mem_singleton.mp hb'
    rw [hnames z hz]
    exact hclear a ha y hy

lemma stamp (h : w.Successive (c ++ [a])) (hclear : w.Clear x (c ++ [a]))
    (hx : 1 ≤ x ∧ x < w.state.nextId) : w.Successive (c ++ [{ a with xmax := some x }]) := by
  obtain ⟨hpairs, _, hlast⟩ := pairwise_append.mp h.pairs
  refine ⟨fun v hv y hy => ?_, fun v hv y hy => ?_,
    pairwise_append.mpr ⟨hpairs, pairwise_singleton _ _, fun v hv b hb y z hy hz => ?_⟩⟩
  · rcases mem_snoc.mp hv with hv | rfl
    · exact h.range v (mem_append_left _ hv) y hy
    · rcases hy with hy | hy
      · exact h.range a (by simp) y (.inl hy)
      · exact Option.some.inj hy ▸ hx
  · rcases mem_snoc.mp hv with hv | rfl
    · exact h.stamps v (mem_append_left _ hv) y hy
    · exact Option.some.inj hy ▸ hclear a (by simp) a.xmin (.inl rfl)
  · obtain rfl := mem_singleton.mp hb
    rcases hz with hz | hz
    · exact hlast v hv a (by simp) y z hy (.inl hz)
    · exact Option.some.inj hz ▸ hclear v (mem_append_left _ hv) y hy

lemma clear (h : w.Successive (c ++ [a]))
    (hlast : a.xmax.getD a.xmin = x ∨ w.Precedes (a.xmax.getD a.xmin) x) :
    w.Clear x (c ++ [a]) := by
  have hbehind : ∀ y, y = a.xmax.getD a.xmin ∨ w.Precedes y (a.xmax.getD a.xmin) →
      y = x ∨ w.Precedes y x := by
    rintro y (rfl | hy)
    · exact hlast
    · rcases hlast with rfl | hlast
      · exact .inr hy
      · exact .inr (hy.trans hlast)
  intro v hv y hy
  refine hbehind y ?_
  rcases mem_snoc.mp hv with hv | rfl
  · exact (pairwise_append.mp h.pairs).2.2 v hv a (by simp) y _ hy a.names_last
  · cases hxmax : v.xmax with
    | none =>
      rcases hy with hy | hy
      · exact .inl hy.symm
      · cases hxmax.symm.trans hy
    | some z =>
      rcases hy with rfl | hy
      · exact h.stamps v (by simp) z hxmax
      · exact .inl (Option.mem_unique hy hxmax)

lemma precedes_or (h : w.Successive c) {b : Version} (ha : a ∈ c) (hb : b ∈ c)
    (hx : a.Names x) (hy : b.Names y) (hne : x ≠ y) : w.Precedes x y ∨ w.Precedes y x := by
  have hself : ∀ v ∈ c, ∀ x y, v.Names x → v.Names y → x = y ∨ w.Precedes x y ∨ w.Precedes y x := by
    rintro v hv x y (rfl | hx) (rfl | hy)
    · exact .inl rfl
    · exact (h.stamps v hv y hy).imp_right .inl
    · exact (h.stamps v hv x hx).imp Eq.symm .inr
    · exact .inl (Option.mem_unique hx hy)
  have hsymm : Std.Symm fun a b : Version => ∀ x y, a.Names x → b.Names y →
      x = y ∨ w.Precedes x y ∨ w.Precedes y x :=
    ⟨fun _ _ hab x y hx hy => (hab y x hy hx).imp Eq.symm Or.symm⟩
  have hpairs := h.pairs.imp (S := fun a b : Version => ∀ x y, a.Names x → b.Names y →
    x = y ∨ w.Precedes x y ∨ w.Precedes y x) fun hab x y hx hy => (hab x y hx hy).imp_right Or.inl
  exact (hpairs.forall_of_forall hself ha hb x y hx hy).resolve_left hne

end Successive

/-! ### Runs -/

variable {T : TableId} {r : RowId}

/-- What an event does to the storage: nothing, or a call of an open transaction. -/
inductive StorageStep (w : TxnSystem) (e : TxnEvent) (w' : TxnSystem) : Prop
  | same (h : w'.storage = w.storage)
  | call (c : Call) (x : TxnId) (hc : c.txn? = some x) (hopen : x ∈ w.state.ids)
      (h : w'.storage = c.after w.storage)
      (hupdate : ∀ T r row, c = .update x T r row → e = .update x T r row)
      (hdelete : ∀ T r, c = .delete x T r → e = .delete x T r)

theorem storage_cases (hc : w.Committing) {e : TxnEvent} (hs : w.event e = some w') :
    StorageStep w e w' := by
  cases effect_of_event hs with
  | commit x refused c hcall _ =>
    obtain ⟨o, ho, _⟩ := hc.ending c (mem_of_find?_eq_some hcall)
    obtain rfl : c.txn = x := by simpa using find?_some hcall
    exact .call (.commit c.txn) c.txn rfl (mem_ids_of_find ho) rfl nofun nofun
  | finish c _ _ hclose =>
    obtain ⟨locks, _, rfl⟩ := Option.map_eq_some_iff.mp hclose
    exact .same rfl
  | rollback x order o hlive =>
    exact .call (.rollback x) x rfl (mem_ids_of_live hlive) rfl nofun nofun
  | rollbackClose o hlive hclose =>
    obtain ⟨locks, _, rfl⟩ := Option.map_eq_some_iff.mp hclose
    exact .call (.rollback _) _ rfl (mem_ids_of_live hlive) rfl nofun nofun
  | call c he x hx hopen f _ =>
    refine .call c x hx hopen rfl ?_ ?_
    · rintro T r row rfl
      cases e <;> cases he
      rfl
    · rintro T r rfl
      cases e <;> cases he
      rfl
  | _ => exact .same rfl

lemma cleared_cases {e : TxnEvent} (hs : w.event e = some w')
    (hmem : (x, T, r) ∈ w'.cleared) : (x, T, r) ∈ w.cleared ∨
      (e = .checkWriteConflict x T r ∧ w.checkWriteConflict x T r = .ok .proceed ∧
        w'.state = w.state) := by
  cases effect_of_event hs with
  | check y T' r' hanswer =>
    rcases mem_cons.mp hmem with heq | hold
    · cases heq
      exact .inr ⟨rfl, hanswer, rfl⟩
    · exact .inl hold
  | finish c _ _ hclose | rollbackClose o _ hclose =>
    obtain ⟨locks, _, rfl⟩ := Option.map_eq_some_iff.mp hclose
    exact .inl hmem
  | _ => exact .inl hmem

/-- What the check has found: the last writer of the row is the transaction itself, or it was
closed before the snapshot of the transaction was built. -/
lemma clear_of_check (ht : w.Timed) (hsucc : ∀ T r c, w.storage.Chain T r c → w.Successive c)
    (hpinned : w.Pinned x) (hcheck : w.checkWriteConflict x T r = .ok .proceed)
    (hc : w.storage.Chain T r (c ++ [a])) : w.Clear x (c ++ [a]) := by
  obtain ⟨o, hfind, hsome⟩ := (Option.any_eq_true _ _).mp hpinned
  obtain ⟨snap, hsnap⟩ := Option.isSome_iff_exists.mp hsome
  have hmem := mem_of_find?_eq_some hfind
  have hid := id_of_find hfind
  have hfor := ht.pinned o hmem snap hsnap
  have hlatest : w.storage.latestVersion T r = .ok (some (a.xmax.getD a.xmin, a.data)) := by
    obtain ⟨t, htab, hrow⟩ := hc
    rw [Inner.latestVersion, Inner.table_eq_ok_iff.mpr htab]
    simp [bind, Except.bind, Table.latest_eq_some_iff.mpr ⟨c, hrow⟩]
  have hpos := ((hsucc T r _ hc).range a (by simp) _ a.names_last).1
  refine (hsucc T r _ hc).clear ?_
  rw [checkWriteConflict, hfind] at hcheck
  simp only [hsnap, Option.some_or, hlatest, bind, Except.bind] at hcheck
  split_ifs at hcheck with hwriter
  · rcases hwriter with hown | hsettled
    · exact .inl hown
    · rw [Snapshot.isSettled_iff, hfor.own, hid] at hsettled
      rcases hsettled with hown | ⟨hlt, hactive, _⟩
      · exact .inl hown
      · by_cases hown : a.xmax.getD a.xmin = x
        · exact .inl hown
        · exact .inr (ht.precedes_of_closedBefore
            (hid ▸ hfor.settled _ hpos hlt hactive (hid ▸ hown)))
  · split at hcheck <;> cases hcheck

/-- What the check of a transaction that has its snapshot says of a row, until it is closed. -/
structure Vouched (w : TxnSystem) (x : TxnId) (T : TableId) (r : RowId) : Prop where
  row_lt : ∀ t, w.storage.tables.get? T = some t → r < t.nextRowId
  exclusive : w.lives.Exclusive x T r
  clear : ∀ c, w.storage.Chain T r c → w.Clear x c

/-- What holds in every run where the first committer wins. -/
structure Wins (w : TxnSystem) : Prop where
  sound : w.lives.Sound
  committing : w.Committing
  timed : w.Timed
  next_pos : 1 ≤ w.state.nextId
  ids_pos : ∀ x ∈ w.state.ids, 1 ≤ x
  successive : ∀ T r c, w.storage.Chain T r c → w.Successive c
  cleared_lt : ∀ x T r, (x, T, r) ∈ w.cleared → x < w.state.nextId
  vouched : ∀ x T r, (x, T, r) ∈ w.cleared → w.Pinned x → w.Vouched x T r

lemma Pinned.mem_ids (h : w.Pinned x) : x ∈ w.state.ids := by
  obtain ⟨o, hfind, _⟩ := (Option.any_eq_true _ _).mp h
  exact mem_ids_of_find hfind

lemma chain_of_mem_chainOf {v : Version} (hv : v ∈ w.storage.chainOf T r) :
    w.storage.Chain T r (w.storage.chainOf T r) := by
  rcases ht : w.storage.tables.get? T with _ | t
  · simp [Inner.chainOf, ht] at hv
  rw [Inner.chainOf_eq ht] at hv ⊢
  obtain ⟨c, hrow, _⟩ := mem_chainOf_iff.mp hv
  exact ⟨t, ht, by rw [Table.chainOf, hrow]; rfl⟩

lemma mem_ids_of_check (h : w.checkWriteConflict x T r = .ok .proceed) : x ∈ w.state.ids := by
  rw [checkWriteConflict] at h
  split at h
  · cases h
  · exact mem_ids_of_find ‹_›

namespace Wins

variable {e : TxnEvent}

lemma start (hs : s.Prepared) : (TxnSystem.start s).Wins :=
  ⟨hs.sound, ⟨.nil, .nil, nofun, nofun⟩, .start s, le_rfl, nofun,
    fun T r c hc => absurd hc (hs.no_chain T r c), nofun, nofun⟩

variable (h : w.Wins)
include h

/-- Whoever is about to replace a row has its lock, and the other writers precede it. -/
lemma clear_of_call (hok : w.FirstCommitter e) {c : Call}
    (hopen : x ∈ w.state.ids) (hupdate : ∀ T r row, c = .update x T r row → e = .update x T r row)
    (hdelete : ∀ T r, c = .delete x T r → e = .delete x T r)
    (hc : (∃ row, c = .update x T r row) ∨ c = .delete x T r) :
    w.lives.Exclusive x T r ∧ ∀ c, w.storage.Chain T r c → w.Clear x c := by
  obtain ⟨⟨hlocked, hchecked⟩, _⟩ := hok
  have hboth : w.lives.Exclusive x T r ∧
      if w.Pinned x then (x, T, r) ∈ w.cleared else w.Settled x T r := by
    rcases hc with ⟨row, hc⟩ | hc
    · obtain rfl := hupdate T r row hc
      exact ⟨hlocked, hchecked⟩
    · obtain rfl := hdelete T r hc
      exact ⟨hlocked, hchecked⟩
  refine ⟨hboth.1, fun c hchain => ?_⟩
  have hwrite := hboth.2
  split_ifs at hwrite with hpinned
  · exact (h.vouched x T r hwrite hpinned).clear c hchain
  · intro v hv y hy
    obtain ⟨h1, hlt⟩ := (h.successive T r c hchain).range v hv y hy
    by_cases hyo : y ∈ w.state.ids
    · obtain ⟨t, ht, hrow⟩ := hchain
      exact .inl (hwrite v (Inner.chainOf_eq ht _ ▸ mem_chainOf_iff.mpr ⟨_, hrow, hv⟩) y hyo hy)
    · exact .inr (h.timed.precedes_of_open h1 hlt hyo hopen hpinned)

lemma successive_after (hok : w.FirstCommitter e) (hst : StorageStep w e w')
    (hc' : w'.storage.Chain T r c') : w.Successive c' := by
  cases hst with
  | same heq => exact h.successive T r c' (heq ▸ hc')
  | call c x hx hopen heq hupdate hdelete =>
    obtain ⟨hcat, hrows⟩ := h.sound.site.sound
    rw [heq] at hc'
    have hrange := And.intro (h.ids_pos x hopen) (h.sound.opened_lt x hopen)
    cases c.chain_cases hcat hrows hc' with
    | trimmed hold ht => exact (h.successive T r _ hold).trim ht
    | inserted hxmin hxmax _ =>
      obtain rfl := Option.some.inj hx
      have hnil : w.Successive [] := ⟨nofun, nofun, .nil⟩
      exact hnil.snoc nofun hrange hxmin hxmax
    | deleted hold _ =>
      obtain rfl := Option.some.inj hx
      obtain ⟨_, hclear⟩ := h.clear_of_call hok hopen hupdate hdelete (.inr rfl)
      exact (h.successive T r _ hold).stamp (hclear _ hold) hrange
    | updated hold _ hb hbmax =>
      obtain rfl := Option.some.inj hx
      obtain ⟨_, hclear⟩ := h.clear_of_call hok hopen hupdate hdelete (.inl ⟨_, rfl⟩)
      rw [append_cons]
      exact ((h.successive T r _ hold).stamp (hclear _ hold) hrange).snoc
        (hclear _ hold).stamp hrange hb hbmax

/-- Nobody else writes a row between the check and the end of the transaction. -/
lemma clear_after (hok : w.FirstCommitter e) (hst : StorageStep w e w')
    (hv : w.Vouched y T r) (hc' : w'.storage.Chain T r c') : w.Clear y c' := by
  cases hst with
  | same heq => exact hv.clear c' (heq ▸ hc')
  | call c x hx hopen heq hupdate hdelete =>
    obtain ⟨hcat, hrows⟩ := h.sound.site.sound
    rw [heq] at hc'
    have hholder : w.lives.Exclusive x T r → x = y := fun hlock =>
      LockWorld.eq_of_exclusive h.sound.ordered h.sound.honest hlock hv.exclusive
    cases c.chain_cases hcat hrows hc' with
    | trimmed hold ht => exact (hv.clear _ hold).trim ht
    | inserted _ _ hnew =>
      -- the row that was checked existed
      obtain ⟨t', ht', _⟩ := hc'
      obtain ⟨t, ht, _⟩ := Call.nextRowId_after hcat hrows rfl ht'
      exact absurd (hv.row_lt t ht) (hnew t ht ▸ lt_irrefl _)
    | deleted hold _ =>
      obtain rfl := Option.some.inj hx
      obtain rfl := hholder (h.clear_of_call hok hopen hupdate hdelete (.inr rfl)).1
      exact (hv.clear _ hold).stamp
    | updated hold _ hb hbmax =>
      obtain rfl := Option.some.inj hx
      obtain rfl := hholder (h.clear_of_call hok hopen hupdate hdelete (.inl ⟨_, rfl⟩)).1
      rw [append_cons]
      intro v hmem z hz
      rcases mem_snoc.mp hmem with hmem | rfl
      · exact (hv.clear _ hold).stamp v hmem z hz
      · rcases hz with hz | hz
        · exact .inl (hz.symm.trans hb)
        · cases hbmax.symm.trans hz

lemma row_lt_after (hv : w.Vouched y T r) (hst : StorageStep w e w') {t' : Table}
    (ht' : w'.storage.tables.get? T = some t') : r < t'.nextRowId := by
  cases hst with
  | same heq => exact hv.row_lt t' (heq ▸ ht')
  | call c x hx _ heq _ _ =>
    rw [heq] at ht'
    obtain ⟨hcat, hrows⟩ := h.sound.site.sound
    obtain ⟨t, ht, hle⟩ := Call.nextRowId_after hcat hrows hx ht'
    exact (hv.row_lt t ht).trans_le hle

lemma of_check (hpinned : w.Pinned x) (hok : w.FirstCommitter (.checkWriteConflict x T r))
    (hcheck : w.checkWriteConflict x T r = .ok .proceed) : w.Vouched x T r := by
  obtain ⟨⟨_, hlock⟩, hrow⟩ := hok
  refine ⟨fun t ht => ?_, hlock hpinned, fun c hc => ?_⟩
  · have hne : w.storage.chainOf T r ≠ [] := hrow hpinned
    rw [Inner.chainOf_eq ht, Table.chainOf] at hne
    cases hc : t.rows.get? r with
    | none => exact absurd (by rw [hc]; rfl) hne
    | some c => exact (h.sound.site.sound.2.wellFormed T t ht).row_lt r c hc
  · rcases eq_nil_or_concat' c with rfl | ⟨d, a, rfl⟩
    · rintro _ ⟨⟩
    · exact clear_of_check h.timed h.successive hpinned hcheck hc

lemma pinned_before (hok : w.FirstCommitter e) (hs : w.event e = some w')
    (hcl : (x, T, r) ∈ w.cleared) (hx : w'.Pinned x) : w.Pinned x := by
  obtain ⟨o', hfind', hsome⟩ := (Option.any_eq_true _ _).mp hx
  have hid' := id_of_find hfind'
  cases entry_cases h.committing.ids hs (mem_of_find?_eq_some hfind') with
  | kept o ho hid hpinned _ =>
    have hox : o.id = x := hid.symm.trans hid'
    obtain ⟨o₁, ho₁⟩ := find_of_mem_ids (mem_map.mpr ⟨o, ho, hox⟩)
    obtain rfl : o₁ = o := inj_on_of_nodup_map h.committing.ids
      (mem_of_find?_eq_some ho₁) ho ((id_of_find ho₁).trans hox.symm)
    exact (Option.any_eq_true _ _).mpr ⟨o₁, ho₁, hpinned ▸ hsome⟩
  | pinned o ho hid hnone he hmode _ =>
    have hox : o.id = x := hid.symm.trans hid'
    subst he
    have hpins := Timed.pins_of_mem h.committing ho hnone hmode
    exact absurd hox.symm (hok.1.2 hpins _ hcl)
  | opened hid _ => exact absurd (h.cleared_lt x T r hcl) (hid'.symm.trans hid ▸ lt_irrefl _)

/-- Every event keeps it. -/
theorem step (hok : w.FirstCommitter e) (hs : w.exec e = some w') : w'.Wins := by
  obtain ⟨hleads, hcommitting⟩ := exec_leads ⟨h.sound, h.committing⟩ hok.1.1 hs
  obtain ⟨htimed, hlonger⟩ := h.timed.step h.committing h.sound.opened_lt hs
  obtain ⟨w₁, hevent, rfl⟩ := Option.map_eq_some_iff.mp hs
  have hst := storage_cases h.committing hevent
  have hnext : w.state.nextId ≤ w₁.state.nextId := hlonger.nextId
  refine ⟨hleads.sound h.sound, hcommitting, htimed, h.next_pos.trans hnext, fun x hx => ?_,
    fun T r c hc => (h.successive_after hok hst hc).longer h.timed hlonger, fun x T r hcl => ?_,
    fun x T r hcl hx => ?_⟩
  · cases time_cases h.committing hevent 0 with
    | quiet hids _ _ _ _ | pin _ _ _ hids _ _ _ => exact h.ids_pos x (hids ▸ hx)
    | begin _ hids _ _ _ =>
      rcases mem_append.mp (hids ▸ hx) with hx | hx
      · exact h.ids_pos x hx
      · exact mem_singleton.mp hx ▸ h.next_pos
    | close _ _ _ hids _ _ _ => exact h.ids_pos x (mem_of_mem_filter (hids ▸ hx))
  · rcases cleared_cases hevent hcl with hold | ⟨rfl, hcheck, _⟩
    · exact (h.cleared_lt x T r hold).trans_le hnext
    · exact (h.sound.opened_lt x (mem_ids_of_check hcheck)).trans_le hnext
  · have hkept : w.Vouched x T r → x < w.state.nextId →
        Vouched { w₁ with clock := w.clock + 1 } x T r :=
      fun hv hlt => ⟨fun t ht => h.row_lt_after hv hst ht,
        hleads.exclusive hlt hv.exclusive (Pinned.mem_ids hx),
        fun c hc => (h.clear_after hok hst hv hc).longer h.timed hlonger⟩
    rcases cleared_cases hevent hcl with hcl | ⟨rfl, hcheck, heq⟩
    · exact hkept (h.vouched x T r hcl (h.pinned_before hok hevent hcl hx)) (h.cleared_lt x T r hcl)
    · have hpinned : w.Pinned x := by
        rw [Pinned, ← heq]
        exact hx
      exact hkept (h.of_check hpinned hok hcheck) (h.sound.opened_lt x hpinned.mem_ids)

end Wins

/-- In every run where transactions that have a snapshot write rows that exist, under their lock and
after their check, and the others write over nothing uncommitted: of two transactions with snapshots
that have written one row, one was closed before the snapshot of the other was built, and a
transaction with a snapshot has replaced no version that was not committed when it was built. -/
theorem first_committer_wins (hs : s.Prepared)
    (hw : (transactionManager s).Reachable FirstCommitter w) (T : TableId) (r : RowId) :
    (∀ x y, x ≠ y → w.Wrote x T r → w.Wrote y T r → (w.pinnedAt.get? x).isSome = true →
      (w.pinnedAt.get? y).isSome = true → w.ClosedBefore x y ∨ w.ClosedBefore y x) ∧
    ∀ v ∈ w.storage.chainOf T r, ∀ y, v.xmax = some y → v.xmin ≠ y →
      (w.pinnedAt.get? y).isSome = true → w.ClosedBefore v.xmin y := by
  have h : w.Wins := hw.invariant (Wins.start hs) fun w e w' h hok hs => h.step hok hs
  refine ⟨fun x y hne hx hy hpx hpy => ?_, fun v hv y hy hne hp => ?_⟩
  · obtain ⟨a, ha, hax⟩ := hx
    obtain ⟨b, hb, hby⟩ := hy
    exact ((h.successive T r _ (chain_of_mem_chainOf ha)).precedes_or ha hb hax hby hne).imp
      (fun hxy => hxy.closedBefore hpy) fun hyx => hyx.closedBefore hpx
  · have hstamp := (h.successive T r _ (chain_of_mem_chainOf hv)).stamps v hv y hy
    exact (hstamp.resolve_left hne).closedBefore hp

/-! ### Two runs -/

instance (v : Version) (x : TxnId) : Decidable (v.Names x) := inferInstanceAs (Decidable (_ ∨ _))

instance (w : TxnSystem) (x y : TxnId) : Decidable (w.ClosedBefore x y) :=
  decidable_of_iff ((w.closedAt.get? x).any fun i => (w.pinnedAt.get? y).any fun j => i < j) (by
    simp only [Option.any_eq_true, decide_eq_true_eq, ClosedBefore, exists_and_left])

instance (w : TxnSystem) (x : TxnId) (T : TableId) (r : RowId) : Decidable (w.Wrote x T r) :=
  inferInstanceAs (Decidable (∃ v ∈ _, _))

instance (w : TxnSystem) (x : TxnId) (T : TableId) (r : RowId) : Decidable (w.Settled x T r) :=
  inferInstanceAs (Decidable (∀ v ∈ _, ∀ y ∈ _, _ → _))

instance (w : TxnSystem) (e : TxnEvent) : Decidable (w.Checked e) :=
  @instDecidableAnd _ _ _ (by casesm TxnEvent <;> infer_instance)

instance (w : TxnSystem) (e : TxnEvent) : Decidable (w.FirstCommitter e) :=
  @instDecidableAnd _ _ _ (by casesm TxnEvent <;> infer_instance)

/-- A transaction at SNAPSHOT takes its snapshot, locks and checks a row, replaces it and
commits. -/
def checkedUpdate (x : TxnId) (r : RowId) (value : Value) : List TxnEvent :=
  [.beginIn 1 .snapshot, .statementSnapshot x, .lock x (.row 1 r) .X false,
    .checkWriteConflict x 1 r, .update x 1 r [value]] ++ wholeCommit x [.row 1 r]

/-- Two transactions replace a row, one after the other. -/
theorem checkedUpdates_are_ordered : ∃ w : TxnSystem,
    (transactionManager oneTable).Reachable FirstCommitter w ∧ w.Wrote 2 1 1 ∧ w.Wrote 3 1 1 ∧
    (w.ClosedBefore 2 3 ∨ w.ClosedBefore 3 2) := by
  obtain ⟨w, hw, hp⟩ := (transactionManager oneTable).exists_reachable
    (fun w e => decide (w.FirstCommitter e))
    (.setVersioningOptions 1 ⟨true, false⟩ :: twoRows ++ checkedUpdate 2 1 (.i32 2) ++
      checkedUpdate 3 1 (.i32 3))
    (fun w => decide (w.Wrote 2 1 1 ∧ w.Wrote 3 1 1 ∧ (w.pinnedAt.get? 2).isSome = true ∧
      (w.pinnedAt.get? 3).isSome = true)) (fun _ _ => of_decide_eq_true) (by decide +kernel)
  obtain ⟨h2, h3, hp2, hp3⟩ := of_decide_eq_true hp
  exact ⟨w, hw, h2, h3,
    (first_committer_wins oneTable_prepared hw 1 1).1 2 3 (by decide) h2 h3 hp2 hp3⟩

/-- The first transaction checks a row that does not exist yet, and replaces it once it does. -/
def checkedTooEarly : List TxnEvent :=
  [.setVersioningOptions 1 ⟨true, false⟩, .beginIn 1 .snapshot, .beginIn 1 .snapshot,
    .statementSnapshot 1, .statementSnapshot 2, .lock 1 (.row 1 1) .X false,
    .checkWriteConflict 1 1 1, .insert 2 1 [.i32 2]] ++ wholeCommit 2 [] ++
  [.update 1 1 1 [.i32 1]] ++ wholeCommit 1 [.row 1 1]

/-- The check of a row that does not exist lets a transaction overwrite a committed insert that its
snapshot does not show. -/
theorem an_unseen_insert_is_overwritten : ∃ w : TxnSystem,
    (transactionManager oneTable).Reachable Checked w ∧ w.Wrote 1 1 1 ∧ w.Wrote 2 1 1 ∧
    w.storage.status 1 = .committed ∧ w.storage.status 2 = .committed ∧
    ¬ w.ClosedBefore 1 2 ∧ ¬ w.ClosedBefore 2 1 := by
  obtain ⟨w, hw, hp⟩ := (transactionManager oneTable).exists_reachable
    (fun w e => decide (w.Checked e)) checkedTooEarly
    (fun w => decide (w.Wrote 1 1 1 ∧ w.Wrote 2 1 1 ∧ w.storage.status 1 = .committed ∧
      w.storage.status 2 = .committed ∧ ¬ w.ClosedBefore 1 2 ∧ ¬ w.ClosedBefore 2 1))
    (fun _ _ => of_decide_eq_true) (by decide +kernel)
  exact ⟨w, hw, of_decide_eq_true hp⟩

end TxnSystem

end VaubanDB
