import VaubanDB.Txn.TableLockSafety

/-!
Lock escalation and the rows it is about.

`maybeEscalate` gives the row locks back one by one and asks for the lock of the table when the last
one is gone.  `escalation_keeps_rows_iff` says when no other transaction gets a lock in conflict
with a row lock held before the call: exactly when the call does not escalate, because a data mode
of the table is held or there are too few rows.  A call that fails has lost rows.
`rows_are_exposed` is a run in which another transaction takes a row in between.
-/

namespace VaubanDB

open LockWorld TableLockProgram TableStanding Operations List

/-! ### Rows that stay held -/

/-- Nobody else has a mode on a row of the table that conflicts with one of `H`. -/
def Unexposed (x : TxnId) (table : TableId) (H : LockResource → List Holder) (w : LockWorld) :
    Prop :=
  ∀ row, ∀ h ∈ H (.row table row), ∀ g ∈ (w.table.entry (.row table row)).holders, g.txn ≠ x →
    g.mode.compatibleWith h.mode = true

lemma LockMode.compatibleWith_of_covers {m n o : LockMode} (hcov : n.covers o = true)
    (h : m.compatibleWith n = true) : m.compatibleWith o = true := by
  revert hcov h
  cases m <;> cases n <;> cases o <;> decide

variable {H : LockResource → List Holder} {x : TxnId} {table : TableId}

lemma unexposed_of_covers {w : LockWorld} (ho : w.Ordered none)
    (h : ∀ row, ∀ h ∈ H (.row table row), ∃ h' ∈ w.table.mine x (.row table row),
      h'.mode.covers h.mode = true) : Unexposed x table H w := by
  intro row h₀ hh₀ g hg hne
  obtain ⟨h', hh', hcov⟩ := h row h₀ hh₀
  obtain ⟨hmem, htxn⟩ := LockTable.mem_mine.mp hh'
  exact LockMode.compatibleWith_of_covers hcov ((ho.holders _).compatible g hg h' hmem (htxn ▸ hne))

/-- The rows of a table, as a standing knows them. -/
structure HoldsRows (x : TxnId) (table : TableId) (H : LockResource → List Holder)
    (σ : TableStanding) : Prop where
  own : ∀ r, OwnHolders x (σ.mine r)
  rows : ∀ row, ∀ h ∈ H (.row table row), ∃ h' ∈ σ.mine (.row table row),
    h'.mode.covers h.mode = true

def GivesNoRow (table : TableId) : TableLockOp → Prop
  | .lock (.unlock (.row t _)) => t ≠ table
  | _ => True

variable {r : LockResource}

namespace HoldsRows

variable {x : TxnId} {table : TableId} {H : LockResource → List Holder} {σ : TableStanding}

lemma grant (h : HoldsRows x table H σ) (r : LockResource) (m : LockMode) :
    HoldsRows x table H (σ.grant x r m) := by
  refine ⟨fun r' => ?_, fun row g hg => ?_⟩
  · by_cases hr : r' = r
    · subst hr
      rw [mine_grant_self]
      exact (h.own r').taking
    · rw [mine_grant_of_ne hr]
      exact h.own r'
  · obtain ⟨g₁, hg₁, hcov₁⟩ := h.rows row g hg
    by_cases hr : LockResource.row table row = r
    · subst hr
      rw [mine_grant_self]
      obtain ⟨g₂, hg₂, hcov₂⟩ := (h.own _).taking_covers (m := m) hg₁
      exact ⟨g₂, hg₂, LockMode.covers_trans hcov₂ hcov₁⟩
    · rw [mine_grant_of_ne hr]
      exact ⟨g₁, hg₁, hcov₁⟩

lemma release (h : HoldsRows x table H σ)
    (hr : ∀ row, r ≠ .row table row) : HoldsRows x table H (σ.release r) := by
  refine ⟨fun r' => ?_, fun row g hg => ?_⟩
  · by_cases heq : r' = r
    · subst heq
      rw [mine_release_self]
      exact .nil x
    · rw [mine_release_of_ne heq]
      exact h.own r'
  · rw [mine_release_of_ne (hr row).symm]
    exact h.rows row g hg

lemma spec {o : TableLockOp} {Q : o.Answer → TableStanding → Prop} (h : HoldsRows x table H σ)
    (ho : GivesNoRow table o) (hQ : ∀ a σ', HoldsRows x table H σ' → Q a σ') :
    tableSpec x o σ Q := by
  cases o with
  | recordStatementTableLock t | takeStatementTableLock t => exact hQ _ _ ⟨h.own, h.rows⟩
  | lock o =>
    cases o with
    | tryAcquire r m t => exact ⟨hQ _ _ (h.grant r m), fun _ _ => hQ _ _ h⟩
    | held => exact fun l _ _ => hQ _ _ h
    | unlock r =>
      refine ⟨fun _ => hQ _ _ h, fun _ => hQ _ _ (h.release fun row heq => ?_)⟩
      subst heq
      exact ho rfl
    | readVersioning level | takeRowRead t row => exact fun _ => hQ _ _ h
    | recordRowRead t row => exact hQ _ _ h

end HoldsRows

/-! ### When the call does nothing -/

/-- The call leaves the locks alone: a data mode of the table is held, or there are too few rows. -/
def StaysAtRows (t : LockTable) (x : TxnId) (table : TableId) : Prop :=
  (∃ h ∈ t.mine x (.table table), h.mode.isData = true) ∨
    (rowsOnTable table (t.heldBy x)).length < escalationThreshold

variable {s : TableLocks}

namespace TableLockProgram

variable {x : TxnId} {table : TableId} {σ : TableStanding} {l : List (LockResource × LockMode)}

lemma wp_maybeEscalate {txn : TxnHandle} {I : TableStanding → Prop}
    {Q : Except LockError (Option TableLockDecision) → TableStanding → Prop} (hI : I σ)
    (hown : OwnHolders x (σ.mine (.table table)))
    (hstays : (∃ h ∈ σ.mine (.table table), h.mode.isData = true) ∨
      ∀ l : List (LockResource × LockMode), l.Nodup → (∀ r m, (r, m) ∈ l ↔ ⟨x, m⟩ ∈ σ.mine r) →
        (rowsOnTable table l).length < escalationThreshold) (hQ : Q (.ok none) σ) :
    (maybeEscalate txn table).run.wp (fun op σ Q => I σ ∧ tableSpec x op σ Q) Q σ := by
  refine ⟨hI, fun l hl hnodup => ?_⟩
  change Program.wp _ (ExceptT.run (if ((l.find? fun p => p.1 = .table table ∧
    p.2.isData).map Prod.snd).isSome = true then _ else _)) Q σ
  split_ifs with hsome
  · exact hQ
  · have hfew := hstays.resolve_left ?_
    · refine ⟨hI, fun l' hl' hnodup' => ?_⟩
      change Program.wp _ (ExceptT.run (if (rowsOnTable table l').length < escalationThreshold
        then _ else _)) Q σ
      rw [if_pos (hfew l' hnodup' hl')]
      exact hQ
    · rintro ⟨h, hh, hdata⟩
      have hmem : (LockResource.table table, h.mode) ∈ l := (hl _ _).mpr (by
        rw [← hown.own h hh]
        exact hh)
      refine hsome ?_
      rw [Option.isSome_map, find?_isSome]
      exact ⟨_, hmem, by simpa using hdata⟩

/-! ### The first steps of an escalation -/

variable {α : Type} {q : Except LockError (Option TableLockDecision) → TableLockProgram α}

/-- The call, and then whatever the transaction goes on with. -/
def escalateThen (txn : TxnHandle) (table : TableId)
    (q : Except LockError (Option TableLockDecision) → TableLockProgram α) : TableLockProgram α :=
  Program.attempt (maybeEscalate txn table) >>= q

lemma run_tableDataMode (f : Option LockMode → TableLockProgram α) :
    (tableDataMode table >>= f).run = .call (.lock .held) fun l =>
      (f ((l.find? fun p => p.1 = .table table ∧ p.2.isData).map Prod.snd)).run := rfl

lemma run_rowLocksOnTable (f : List (RowId × LockMode) → TableLockProgram α) :
    (rowLocksOnTable table >>= f).run = .call (.lock .held) fun l =>
      (f (rowsOnTable table l)).run :=
  rfl

lemma run_unlockRows (txn : TxnHandle) (table : TableId) (p : RowId × LockMode)
    (rows : List (RowId × LockMode)) (f : PUnit → TableLockProgram α) :
    ∃ k, ((p :: rows).forM (fun p => locking (LockProgram.unlock txn (.row table p.1))) >>= f).run =
      .call (.lock (.unlock (.row table p.1))) k :=
  ⟨_, rfl⟩

variable {p : RowId × LockMode}

lemma mem_rowsOnTable (h : p ∈ rowsOnTable table l) :
    (LockResource.row table p.1, p.2) ∈ l ∧ p.2.isData = true := by
  obtain ⟨⟨r, m⟩, hmem, heq⟩ := mem_filterMap.mp h
  cases r with
  | table t => cases heq
  | row t row =>
    simp only at heq
    split_ifs at heq with hcond
    cases heq
    exact ⟨hcond.1 ▸ hmem, hcond.2⟩

/-- A call that escalates gives its first row back before anything else. -/
lemma escalate_goes (txn : TxnHandle)
    (hdata : ∀ h ∈ s.world.table.mine txn.id (.table table), h.mode.isData = false)
    {rows : List (RowId × LockMode)}
    (hrows : rowsOnTable table (s.world.table.heldBy txn.id) = p :: rows)
    (hmany : escalationThreshold ≤ (p :: rows).length) :
    ∃ rest, (tableLockOps txn.id).Goes s (maybeEscalate txn table).run
      { s with world := s.world.retire txn.id (.row table p.1) } rest := by
  have hnone : (s.world.table.heldBy txn.id).find?
      (fun p => p.1 = .table table ∧ p.2.isData) = none := by
    refine find?_eq_none.mpr fun e he hcond => ?_
    obtain ⟨r, m⟩ := e
    simp only [decide_eq_true_eq] at hcond
    obtain ⟨rfl, hm⟩ := hcond
    rw [hdata _ (LockTable.mem_heldBy.mp he)] at hm
    cases hm
  have hheld : s.world.table.mine txn.id (.row table p.1) ≠ [] := by
    have hp : p ∈ rowsOnTable table (s.world.table.heldBy txn.id) := by simp [hrows]
    exact ne_nil_of_mem (LockTable.mem_heldBy.mp (mem_rowsOnTable hp).1)
  have hstart : (tableLockOps txn.id).start (.lock (.unlock (.row table p.1)))
      ⟨false, .cancelled, .off⟩ s =
        some ({ s with world := s.world.retire txn.id (.row table p.1) }, .inl true) :=
    congrArg (Option.map _) (if_pos (LockTable.any_holders_iff.mpr hheld))
  rw [maybeEscalate, run_tableDataMode]
  obtain ⟨k, hk⟩ := run_unlockRows txn table p rows fun _ => do
    acquireTableLock table (escalatedMode (p :: rows)) {}
    return some (if escalatedMode (p :: rows) = .X then TableLockDecision.tableExclusive
      else .tableShared)
  refine ⟨k true, .step ⟨false, .cancelled, .off⟩ rfl ?_⟩
  simp only [hnone, Option.map_none, Option.isSome_none, Bool.false_eq_true, if_false]
  rw [run_rowLocksOnTable]
  refine .step ⟨false, .cancelled, .off⟩ rfl ?_
  simp only [hrows, if_neg hmany.not_gt]
  rw [hk]
  exact .step ⟨false, .cancelled, .off⟩ hstart (.refl _ _)

/-! ### What an error leaves -/

variable {txn : TxnHandle}

lemma wp_unlockRows {rows : List (RowId × LockMode)}
    {Q : Except LockError PUnit → TableStanding → Prop} (hgone : σ.mine r = [])
    (hQ : ∀ res σ', σ'.mine r = [] → Q res σ') :
    (rows.forM fun p => locking (LockProgram.unlock txn (.row table p.1))).run.wp
      (tableSpec x) Q σ := by
  induction rows generalizing σ with
  | nil => exact hQ _ _ hgone
  | cons p rows ih =>
    change Program.wp _ (ExceptT.run (locking (LockProgram.unlock txn (.row table p.1)) >>=
      fun _ => rows.forM _)) Q σ
    rw [Program.wp_run_bind]
    refine wp_unlock (fun _ => ih ?_) fun _ e => hQ _ _ hgone
    by_cases hr : r = .row table p.1
    · rw [hr, mine_release_self]
    · rwa [mine_release_of_ne hr]

/-- A call that fails has given a row back. -/
lemma wp_maybeEscalate_lost (σ : TableStanding) : (maybeEscalate txn table).run.wp (tableSpec x)
    (fun res σ' => ∀ e, res = .error e →
      ∃ row, σ.mine (.row table row) ≠ [] ∧ σ'.mine (.row table row) = []) σ := by
  refine fun l hl _ => ?_
  change Program.wp _ (ExceptT.run (if ((l.find? fun p => p.1 = .table table ∧
    p.2.isData).map Prod.snd).isSome = true then _ else _)) _ σ
  split_ifs
  · exact fun _ he => nomatch he
  refine fun l hl _ => ?_
  change Program.wp _ (ExceptT.run (if (rowsOnTable table l).length < escalationThreshold
    then _ else _)) _ σ
  by_cases hfew : (rowsOnTable table l).length < escalationThreshold
  · rw [if_pos hfew]
    exact fun _ he => nomatch he
  obtain ⟨p, rows, hrows⟩ := exists_cons_of_length_pos
    (Nat.lt_of_lt_of_le (by decide) (not_lt.mp hfew))
  have hheld : σ.mine (.row table p.1) ≠ [] :=
    ne_nil_of_mem ((hl _ _).mp (mem_rowsOnTable (hrows ▸ mem_cons_self)).1)
  rw [if_neg hfew, hrows, Program.wp_run_bind]
  change Program.wp _ (ExceptT.run (locking (LockProgram.unlock txn (.row table p.1)) >>=
    fun _ => rows.forM _)) _ σ
  rw [Program.wp_run_bind]
  refine wp_unlock (fun _ => ?_) fun hnil => absurd hnil hheld
  refine wp_unlockRows mine_release_self fun res σ' hgone => ?_
  cases res with
  | error e => exact fun _ _ => ⟨p.1, hheld, hgone⟩
  | ok _ =>
    change Program.wp _ (ExceptT.run (acquireTableLock table _ {} >>= _)) _ σ'
    rw [Program.wp_run_bind]
    exact wp_take (fun _ he => nomatch he) fun _ _ _ => ⟨p.1, hheld, hgone⟩

end TableLockProgram

/-! ### Runs -/

/-- While a lock is waited for, what is held is what was held, or the lock as well. -/
lemma TableLocks.Awaits.mine {m : LockMode} {c : LockCall}
    {σ : TableStanding} (h : s.Awaits x r m c σ) :
    s.world.table.mine x = σ.mine ∨ s.world.table.mine x = (σ.grant x r m).mine := by
  obtain ⟨u, hwaits, hgrant⟩ := h.place
  rcases hwaits.stage with hp | hp
  · exact .inl (funext hp.mine)
  · refine .inr (Eq.trans (funext fun r' => ?_) hgrant)
    rw [Function.update_apply, hp.mine r']
    split_ifs with hr
    · rw [hr]
    · rfl

lemma unexposed_of_follows {α : Type} {th : (tableLockOps x).Thread α}
    (h : Follows (fun op σ Q => HoldsRows x table H σ ∧ tableSpec x op σ Q)
      (TableLocks.Views x) (TableLocks.Waiting x) (fun _ σ => HoldsRows x table H σ) (s, th)) :
    Unexposed x table H s.world := by
  cases th with
  | next p =>
    obtain ⟨σ, hviews, hp⟩ := h
    have hrows : HoldsRows x table H σ := by
      cases p with
      | done a => exact hp
      | call op k => exact hp.1
    refine unexposed_of_covers hviews.ordered fun row g hg => ?_
    rw [hviews.idle.mine]
    exact hrows.rows row g hg
  | waiting op ticket k =>
    obtain ⟨σ, hwaiting, hrows, _⟩ := h
    match op with
    | .lock (.tryAcquire r m timeout) =>
      have hawaits : s.Awaits x r m ticket.1 σ := hwaiting
      refine unexposed_of_covers hawaits.ordered fun row g hg => ?_
      rcases hawaits.mine with heq | heq
      · exact heq ▸ hrows.rows row g hg
      · exact heq ▸ (hrows.grant r m).rows row g hg

/-! ### A row that was given back -/

namespace LockEntry

variable {holders : List Holder}

lemma length_grantTo_le (txn : TxnId) (m : LockMode) (holders : List Holder) :
    (grantTo txn m holders).length ≤ holders.length + 1 := by
  induction holders with
  | nil => rfl
  | cons h hs ih =>
    rw [grantTo]
    split
    · simp
    · simpa using ih

/-- A grant pass moves candidates to the holders, it makes no new ones. -/
lemma length_grantLoop_le (holders : List Holder) (queue : List Waiter) :
    (grantLoop holders queue).1.holders.length + (grantLoop holders queue).1.queue.length ≤
      holders.length + queue.length := by
  induction queue generalizing holders with
  | nil => rfl
  | cons w queue ih =>
    rw [grantLoop]
    split
    · have hloop := ih (grantTo w.txn w.mode holders)
      have hgrant := length_grantTo_le w.txn w.mode holders
      simp only [length_cons]
      omega
    · rfl

end LockEntry

lemma LockWorld.entry_retire (w : LockWorld) (y : TxnId) (r : LockResource) :
    (w.retire y r).table.entry r = (LockEntry.grantLoop ((w.table.entry r).without y).holders
      ((w.table.entry r).without y).queue).1 := by
  have hleft : (w.leave y r).table.entry r = (w.table.entry r).without y :=
    (LockTable.entry_insert ..).trans (if_pos rfl)
  refine (LockTable.entry_grantPass ..).trans ?_
  rw [if_pos rfl, hleft]

/-- With every holder that leaves, an entry gets shorter. -/
lemma LockWorld.length_entry_retire_lt {w : LockWorld} {g : Holder}
    (hg : g ∈ (w.table.entry r).holders) :
    ((w.retire g.txn r).table.entry r).holders.length +
        ((w.retire g.txn r).table.entry r).queue.length <
      (w.table.entry r).holders.length + (w.table.entry r).queue.length := by
  rw [entry_retire]
  refine (LockEntry.length_grantLoop_le _ _).trans_lt ?_
  refine Nat.add_lt_add_of_lt_of_le ?_ (length_filter_le _ _)
  exact length_filter_lt_length_iff_exists.mpr ⟨g, hg, by simp⟩

variable {txn : TxnHandle} {α : Type} {s₀ : TableLocks} {p₀ : TableLockProgram α}

/-- The others may give back whatever they hold on a resource that the transaction has left. -/
lemma exists_freed {σ : TableStanding} {th : (tableLockOps txn.id).Thread (Except LockError α)}
    (hviews : s.Views txn.id σ) (hgone : σ.mine r = [])
    (hs : (tableLocking txn s₀ p₀).Reachable (Among (Foreign txn)) (s, th)) :
    ∃ s', (tableLocking txn s₀ p₀).Reachable (Among (Foreign txn)) (s', th) ∧
      s'.world.table.entry r = .empty := by
  induction hn : (s.world.table.entry r).holders.length + (s.world.table.entry r).queue.length
    using Nat.strong_induction_on generalizing s with
  | _ n ih =>
    by_cases hholders : (s.world.table.entry r).holders = []
    · -- a candidate at the front would be refused by nobody
      have hqueue : (s.world.table.entry r).queue = [] := by
        by_contra hne
        obtain ⟨u, us, hu⟩ := exists_cons_of_ne_nil hne
        have hrefused := hviews.ordered.refused r u (by simp) (by rw [hu]; rfl)
        rw [hholders] at hrefused
        cases hrefused
      refine ⟨s, hs, ?_⟩
      rw [LockEntry.empty, ← hholders, ← hqueue]
    · obtain ⟨g, hg⟩ := exists_mem_of_ne_nil _ hholders
      have hforeign : g.txn ≠ txn.id := by
        intro heq
        have hmine : g ∈ s.world.table.mine txn.id r := LockTable.mem_mine.mpr ⟨hg, heq⟩
        rw [hviews.idle.mine, hgone] at hmine
        cases hmine
      have hothers : s.others (.act (.unlock g.txn r)) =
          some { s with world := s.world.retire g.txn r } := by
        refine congrArg (Option.map _) (if_pos ?_)
        exact any_eq_true.mpr ⟨g, hg, by simp⟩
      have hviews' := hviews.others (e := .act (.unlock g.txn r)) hforeign hothers
      refine ih _ (hn ▸ LockWorld.length_entry_retire_lt hg) hviews'
        (hs.next (a := .other (.act (.unlock g.txn r))) hforeign ?_) rfl
      exact (exec_other ..).trans (congrArg (Option.map _) hothers)

lemma LockMode.exclusive_conflicts {m : LockMode} (h : m.isData = true) :
    LockMode.X.compatibleWith m = false := by
  revert h
  cases m <;> decide

/-- Another transaction gets a row that an escalating transaction has given back. -/
lemma exists_exposed {H : LockResource → List Holder} {σ : TableStanding} {row : RowId}
    {th : (tableLockOps txn.id).Thread (Except LockError α)} {h : Holder}
    (hh : h ∈ H (.row table row)) (hdata : h.mode.isData = true) (hviews : s.Views txn.id σ)
    (hgone : σ.mine (.row table row) = [])
    (hs : (tableLocking txn s₀ p₀).Reachable (Among (Foreign txn)) (s, th)) :
    ∃ s', (tableLocking txn s₀ p₀).Reachable (Among (Foreign txn)) (s', th) ∧
      ¬ Unexposed txn.id table H s'.world := by
  obtain ⟨s', hs', hfree⟩ := exists_freed hviews hgone hs
  have hforeign : txn.id + 1 ≠ txn.id := Nat.succ_ne_self _
  refine ⟨_, hs'.next (a := .other (.act (.request (txn.id + 1) (.row table row) .X true)))
    hforeign (exec_other ..), fun hun => ?_⟩
  have hcompat := hun row h hh ⟨txn.id + 1, .X⟩ (by
    rw [entry_request_of_free hfree, if_pos rfl]
    exact mem_singleton_self _) hforeign
  rw [LockMode.exclusive_conflicts hdata] at hcompat
  cases hcompat

/-- **Lock escalation**: the transaction goes on with anything that gives no row of the table back.
No other transaction gets a lock in conflict with a row lock held before, in any state of any run,
if and only if the call does not escalate; and a call that ends with an error has escalated and lost
a row. -/
theorem escalation_keeps_rows_iff {ok : LockWorld → LockAction → Prop} {txn : TxnHandle}
    {s : TableLocks} {table : TableId} {α : Type}
    {q : Except LockError (Option TableLockDecision) → TableLockProgram α}
    (hworld : lockManager.Reachable ok s.world)
    (hwaits : ∀ r, s.world.table.waits txn.id r = [])
    (hq : ∀ res, (q res).run.Asks (GivesNoRow table)) :
    ((∀ s' th, (tableLocking txn s (escalateThen txn table q)).Reachable
        (Among (Foreign txn)) (s', th) →
      Unexposed txn.id table (s.world.table.mine txn.id) s'.world) ↔
    StaysAtRows s.world.table txn.id table) ∧
    ∀ s' e, (tableLocking txn s (maybeEscalate txn table)).Reachable (Among (Foreign txn))
        (s', .next (.done (.error e))) →
      ¬ StaysAtRows s.world.table txn.id table ∧
        ∃ row, s.world.table.mine txn.id (.row table row) ≠ [] ∧
          s'.world.table.mine txn.id (.row table row) = [] := by
  have hviews := TableLocks.views_of_reachable hworld hwaits
  have hfew : (rowsOnTable table (s.world.table.heldBy txn.id)).length <
      escalationThreshold → ∀ l : List (LockResource × LockMode), l.Nodup →
        (∀ r m, (r, m) ∈ l ↔ ⟨txn.id, m⟩ ∈ s.world.table.mine txn.id r) →
          (rowsOnTable table l).length < escalationThreshold := by
    intro hlt l hl hmem
    have hperm := (perm_ext_iff_of_nodup hl (TableLocks.nodup_heldBy hviews.ordered txn.id)).mpr
      fun p => (hmem p.1 p.2).trans LockTable.mem_heldBy.symm
    exact (hperm.filterMap _).length_eq.trans_lt hlt
  refine ⟨⟨fun h => ?_, fun hstays s' th hrun => ?_⟩, fun s' e hrun => ⟨fun hstays => ?_, ?_⟩⟩
  · by_contra hnot
    simp only [StaysAtRows, not_or, not_exists, not_and, Bool.not_eq_true, not_lt] at hnot
    obtain ⟨hdata, hmany⟩ := hnot
    obtain ⟨p, rows, hrows⟩ := exists_cons_of_length_pos (Nat.lt_of_lt_of_le (by decide) hmany)
    obtain ⟨rest, hgoes⟩ := escalate_goes txn hdata hrows (hrows ▸ hmany)
    have hgoes' := hgoes.bind fun res => (q res).run
    rw [← Program.run_attempt_bind] at hgoes'
    have hreach : (tableLocking txn s (escalateThen txn table q)).Reachable
        (Among (Foreign txn)) _ := hgoes'.reachable .start
    obtain ⟨hheld, hmode⟩ := mem_rowsOnTable (hrows ▸ mem_cons_self : p ∈ rowsOnTable table _)
    have hleft : TableLocks.Views txn.id { s with world := s.world.retire txn.id (.row table p.1) }
        (TableStanding.release ⟨_, _⟩ (.row table p.1)) :=
      ⟨hviews.ordered.retire .., hviews.known.retire hviews.ordered _ _, hviews.idle.retire _,
        hviews.marks⟩
    obtain ⟨s', hs', hexposed⟩ := exists_exposed (LockTable.mem_heldBy.mp hheld) hmode hleft
      (Function.update_self ..) hreach
    exact hexposed (h s' _ hs')
  · have hrows : HoldsRows txn.id table (s.world.table.mine txn.id)
        ⟨s.world.table.mine txn.id, fun table => s.marks.count (txn.id, table)⟩ :=
      ⟨hviews.own, fun _ h hh => ⟨h, hh, LockMode.covers_refl _⟩⟩
    refine unexposed_of_follows (((TableLocks.tableLockOps_refine txn).guard _).runs_follow hviews
      ?_ hrun)
    rw [escalateThen, Program.wp_run_bind, Program.wp_run_attempt]
    refine wp_maybeEscalate hrows (hviews.own _) (hstays.imp_right hfew) ?_
    exact Program.wp_of_asks (fun _ _ _ ho hσ hQ => ⟨hσ, hσ.spec ho hQ⟩) (hq _) hrows
  · have hdone := ((TableLocks.tableLockOps_refine txn).guard fun _ => True).runs_follow hviews
      (wp_maybeEscalate (Q := fun res _ => ∃ d, res = .ok d) trivial (hviews.own _)
        (hstays.imp_right hfew) ⟨none, rfl⟩) hrun
    obtain ⟨_, _, d, hd⟩ := hdone
    cases hd
  · obtain ⟨σ', hviews', hlost⟩ := (TableLocks.tableLockOps_refine txn).runs_follow hviews
      (wp_maybeEscalate_lost _) hrun
    obtain ⟨row, hheld, hgone⟩ := hlost e rfl
    exact ⟨row, hheld, (hviews'.idle.mine _).trans hgone⟩

/-! ### A row that is exposed -/

/-- Transaction 1 holds the first rows of table 1. -/
def rowsLocked : ℕ → LockWorld
  | 0 => .initial
  | n + 1 => (rowsLocked n).request 1 (.row 1 n) .X true

lemma rowsLocked_reachable (n : ℕ) : lockManager.Reachable Machine.Any (rowsLocked n) := by
  induction n with
  | zero => exact .start
  | succ n ih => exact ih.next (a := .request 1 (.row 1 n) .X true) trivial rfl

lemma entry_rowsLocked (n : ℕ) :
    (∀ k < n, (rowsLocked n).table.entry (.row 1 k) = ⟨[⟨1, .X⟩], []⟩) ∧
      ∀ r, (∀ k < n, r ≠ .row 1 k) → (rowsLocked n).table.entry r = .empty := by
  induction n with
  | zero => exact ⟨nofun, fun _ _ => rfl⟩
  | succ n ih =>
    have hfree := ih.2 (.row 1 n) fun k hk heq => by
      cases heq
      exact hk.false
    refine ⟨fun k hk => ?_, fun r hr => ?_⟩
    · rw [rowsLocked, entry_request_of_free hfree]
      split_ifs with heq
      · rfl
      · exact ih.1 k (by grind)
    · rw [rowsLocked, entry_request_of_free hfree, if_neg (hr n n.lt_succ_self)]
      exact ih.2 r fun k hk => hr k (hk.trans n.lt_succ_self)

/-- Transaction 1 has written three rows of table 1, and holds the intent of the table. -/
def threeWritten : LockWorld := (rowsLocked 3).request 1 (.table 1) .IX true

lemma threeWritten_unqueued : Unqueued threeWritten := by
  have hrows : Unqueued (rowsLocked 3) := by
    intro r
    by_cases hr : ∃ k < 3, r = .row 1 k
    · obtain ⟨k, hk, rfl⟩ := hr
      rw [(entry_rowsLocked 3).1 k hk]
    · push Not at hr
      rw [(entry_rowsLocked 3).2 r hr]
      rfl
  exact hrows.request ((entry_rowsLocked 3).2 (.table 1) fun _ _ => nofun) 1 .IX true

/-- The call has ended without an escalation, and two others wait for rows. -/
def endedUnescalated : TableLocks × (tableLockOps 1).Thread
    (Except LockError (Except LockError (Option TableLockDecision))) → Bool
  | (s, .next (.done (.ok (.ok none)))) =>
    s.world.table.waits 2 (.row 1 1) ≠ [] ∧ s.world.table.waits 3 (.row 1 2) ≠ []
  | _ => false

lemma exists_of_endedUnescalated {s : TableLocks × (tableLockOps 1).Thread
    (Except LockError (Except LockError (Option TableLockDecision)))}
    (h : endedUnescalated s = true) : s.2 = .next (.done (.ok (.ok none))) ∧
      s.1.world.table.waits 2 (.row 1 1) ≠ [] ∧ s.1.world.table.waits 3 (.row 1 2) ≠ [] := by
  unfold endedUnescalated at h
  split at h
  · exact ⟨rfl, of_decide_eq_true h⟩
  · cases h

/-- One transaction asks for a row before the call and another one after it; both wait, and no row
is exposed. -/
theorem intent_keeps_the_rows : ∃ s' : TableLocks,
    threeWritten.table.mine 1 (.row 1 1) = [⟨1, .X⟩] ∧
    (tableLocking ⟨1, .readCommitted⟩ ⟨threeWritten, [], []⟩ (escalateThen ⟨1, .readCommitted⟩ 1
      fun res => pure res)).Reachable (Among (Foreign ⟨1, .readCommitted⟩))
        (s', .next (.done (.ok (.ok none)))) ∧
    s'.world.table.waits 2 (.row 1 1) ≠ [] ∧ s'.world.table.waits 3 (.row 1 2) ≠ [] ∧
    Unexposed 1 1 (threeWritten.table.mine 1) s'.world := by
  obtain ⟨⟨s', th⟩, hs', hended⟩ := (tableLocking ⟨1, .readCommitted⟩ ⟨threeWritten, [], []⟩
    (escalateThen ⟨1, .readCommitted⟩ 1 fun res => pure res)).exists_reachable (foreign 1)
    [.other (.act (.request 2 (.row 1 1) .X false)), .run ⟨false, .cancelled, .off⟩,
      .other (.act (.request 3 (.row 1 2) .S false))] endedUnescalated among_of_foreign
    (by decide +kernel)
  obtain ⟨rfl, hwaits⟩ := exists_of_endedUnescalated hended
  have hworld : lockManager.Reachable Machine.Any threeWritten :=
    (rowsLocked_reachable 3).next (a := .request 1 (.table 1) .IX true) trivial rfl
  have hstays : StaysAtRows threeWritten.table 1 1 := .inl ⟨⟨1, .IX⟩, by decide +kernel, rfl⟩
  refine ⟨s', by decide +kernel, hs', hwaits.1, hwaits.2, ?_⟩
  exact (escalation_keeps_rows_iff (q := fun res => pure res) hworld
    (threeWritten_unqueued.waits 1) fun _ => trivial).1.mpr hstays s' _ hs'

lemma le_length_rowsLocked (n : ℕ) :
    n ≤ (rowsOnTable 1 ((rowsLocked n).table.heldBy 1)).length := by
  have hsub : (range n).map (fun k => (k, LockMode.X)) ⊆
      rowsOnTable 1 ((rowsLocked n).table.heldBy 1) := by
    intro p hp
    obtain ⟨k, hk, rfl⟩ := mem_map.mp hp
    refine mem_filterMap.mpr ⟨(.row 1 k, .X), LockTable.mem_heldBy.mpr ?_, rfl⟩
    rw [LockTable.mem_mine, (entry_rowsLocked n).1 k (mem_range.mp hk)]
    exact ⟨mem_singleton_self _, rfl⟩
  have hnodup : ((range n).map fun k => (k, LockMode.X)).Nodup :=
    nodup_range.map fun _ _ h => congrArg Prod.fst h
  simpa using (hnodup.subperm hsub).length_le

/-- A transaction that holds enough rows escalates, and another one takes a row that it has just
given back. -/
theorem rows_are_exposed : ∃ (s' : TableLocks) (row : RowId)
    (th : (tableLockOps 1).Thread (Except LockError (Option TableLockDecision))),
    lockManager.Reachable Machine.Any (rowsLocked escalationThreshold) ∧
    (tableLocking ⟨1, .readCommitted⟩ ⟨rowsLocked escalationThreshold, [], []⟩
      (maybeEscalate ⟨1, .readCommitted⟩ 1)).Reachable
        (Among (Foreign ⟨1, .readCommitted⟩)) (s', th) ∧
    ⟨1, .X⟩ ∈ (rowsLocked escalationThreshold).table.mine 1 (.row 1 row) ∧
    (s'.world.table.entry (.row 1 row)).holders = [⟨2, .X⟩] := by
  have hworld := rowsLocked_reachable escalationThreshold
  have hentry := entry_rowsLocked escalationThreshold
  have hmany := le_length_rowsLocked escalationThreshold
  generalize rowsLocked escalationThreshold = w at *
  have hdata : ∀ h ∈ w.table.mine 1 (.table 1), h.mode.isData = false := by
    intro h hh
    rw [LockTable.mem_mine, hentry.2 (.table 1) fun _ _ => nofun] at hh
    cases hh.1
  obtain ⟨p, rows, hrows⟩ := exists_cons_of_length_pos (Nat.lt_of_lt_of_le (by decide) hmany)
  obtain ⟨rest, hgoes⟩ := escalate_goes ⟨1, .readCommitted⟩
    (s := ⟨w, [], []⟩) hdata hrows (hrows ▸ hmany)
  have hp : p ∈ rowsOnTable 1 (w.table.heldBy 1) := by simp [hrows]
  have hheld := LockTable.mem_heldBy.mp (mem_rowsOnTable hp).1
  have hrow : p.1 < escalationThreshold := by
    by_contra hnot
    rw [LockTable.mem_mine, hentry.2 (.row 1 p.1) fun k hk heq => by grind] at hheld
    cases hheld.1
  have hfree : (w.retire 1 (.row 1 p.1)).table.entry (.row 1 p.1) = .empty := by
    rw [LockWorld.entry_retire, hentry.1 _ hrow]
    rfl
  have hgiven : (tableLocking ⟨1, .readCommitted⟩ ⟨w, [], []⟩
      (maybeEscalate ⟨1, .readCommitted⟩ 1)).Reachable
        (Among (Foreign ⟨1, .readCommitted⟩)) _ := hgoes.reachable .start
  refine ⟨_, p.1, _, hworld, hgiven.next
    (a := .other (.act (.request 2 (.row 1 p.1) .X true))) (show (2 : TxnId) ≠ 1 by decide)
    (exec_other ..), ?_, ?_⟩
  · rw [LockTable.mem_mine, hentry.1 _ hrow]
    exact ⟨mem_singleton_self _, rfl⟩
  · have hgranted := entry_request_of_free hfree 2 .X true (.row 1 p.1)
    exact congrArg LockEntry.holders (hgranted.trans (if_pos rfl))

end VaubanDB
