import VaubanDB.Txn.TableLock
import VaubanDB.Txn.TwoPhase

/-!
What a transaction still holds after a statement with a table lock.

What the transaction knows is a `TableStanding`, its locks and its marks.  The end of the statement
gives back every mode held on the table (`tablock_statement_retains_iff`), also those of earlier
statements (`tablock_statement_drops_intent`).
-/

namespace VaubanDB

open LockWorld Program Operations TableLockProgram List Function

/-! ### What the transaction knows -/

/-- The locks of a transaction, and how often each table is marked for it. -/
structure TableStanding where
  mine : LockResource → List Holder
  marks : TableId → ℕ

namespace TableStanding

def grant (σ : TableStanding) (x : TxnId) (r : LockResource) (m : LockMode) : TableStanding :=
  { σ with mine := withGrant σ.mine x r m }

def release (σ : TableStanding) (r : LockResource) : TableStanding :=
  { σ with mine := update σ.mine r [] }

def mark (σ : TableStanding) (table : TableId) : TableStanding :=
  { σ with marks := update σ.marks table (σ.marks table + 1) }

def unmark (σ : TableStanding) (table : TableId) : TableStanding :=
  { σ with marks := update σ.marks table (σ.marks table - 1) }

variable {x : TxnId} {σ : TableStanding} {r r' : LockResource} {m : LockMode}

lemma mine_grant_self : (σ.grant x r m).mine r = taking x m (σ.mine r) := update_self ..

lemma mine_grant_of_ne (h : r' ≠ r) : (σ.grant x r m).mine r' = σ.mine r' :=
  update_of_ne h ..

lemma mine_release_self : (σ.release r).mine r = [] := update_self ..

lemma mine_release_of_ne (h : r' ≠ r) : (σ.release r).mine r' = σ.mine r' :=
  update_of_ne h ..

end TableStanding

/-- What the operations of a transaction make of what it knows. -/
def tableSpec (x : TxnId) : Spec TableLockOp TableLockOp.Answer TableStanding
  | .lock (.tryAcquire r m _), σ, Q => Q .granted (σ.grant x r m) ∧ ∀ o, o ≠ .granted → Q o σ
  | .lock .held, σ, Q => ∀ l, (∀ r m, (r, m) ∈ l ↔ ⟨x, m⟩ ∈ σ.mine r) → l.Nodup → Q l σ
  | .lock (.unlock r), σ, Q => (σ.mine r = [] → Q false σ) ∧ (σ.mine r ≠ [] → Q true (σ.release r))
  | .lock (.readVersioning _), σ, Q => ∀ mode, Q mode σ
  | .lock (.recordRowRead ..), σ, Q => Q () σ
  | .lock (.takeRowRead ..), σ, Q => ∀ b, Q b σ
  | .recordStatementTableLock table, σ, Q => Q () (σ.mark table)
  | .takeStatementTableLock table, σ, Q => Q (decide (0 < σ.marks table)) (σ.unmark table)

variable {r : LockResource} {m : LockMode}

namespace TableLocks

variable {x : TxnId} {s s' : TableLocks} {σ : TableStanding}

/-- What the transaction knows of a state, when it waits for nothing. -/
structure Views (x : TxnId) (s : TableLocks) (σ : TableStanding) : Prop where
  ordered : s.world.Ordered none
  known : s.world.Known
  idle : s.world.Idle x σ.mine
  marks : ∀ table, s.marks.count (x, table) = σ.marks table

/-- What it knows while it waits for a lock. -/
structure Awaits (x : TxnId) (r : LockResource) (m : LockMode) (c : LockCall) (s : TableLocks)
    (σ : TableStanding) : Prop where
  ordered : s.world.Ordered none
  known : s.world.Known
  place : ∃ u, s.world.Waits x σ.mine c u ∧
    update σ.mine c.resource (grantTo x u.mode (σ.mine c.resource)) =
      withGrant σ.mine x r m
  marks : ∀ table, s.marks.count (x, table) = σ.marks table

/-- What it knows while an operation waits. -/
def Waiting (x : TxnId) (o : TableLockOp) (ticket : LockCall × LockTimeout) (s : TableLocks)
    (σ : TableStanding) : Prop :=
  match o with
  | .lock (.tryAcquire r m _) => s.Awaits x r m ticket.1 σ
  | _ => False

lemma Views.own (h : s.Views x σ) (r : LockResource) : OwnHolders x (σ.mine r) := by
  have hfam := ((h.ordered.holders r).filter fun g => g.txn = x).family
  rw [← h.idle.mine r]
  have hown : ∀ g ∈ s.world.table.mine x r, g.txn = x := fun g hg => (LockTable.mem_mine.mp hg).2
  refine ⟨hown, hfam.imp_of_mem fun ha hb hne heq => ?_⟩
  exact hne ⟨(hown _ ha).trans (hown _ hb).symm, heq⟩

lemma nodup_heldBy (ho : s.world.Ordered none) (x : TxnId) : (s.world.table.heldBy x).Nodup := by
  refine nodup_flatMap.mpr ⟨fun e he => ?_, ?_⟩
  · have hsound : HoldersSound e.2.holders := by
      have := ho.holders e.1
      rwa [LockTable.entry, OrderedMap.get?_eq_some_iff.mpr he] at this
    refine (pairwise_map.mpr ((hsound.filter fun h => h.txn = x).family.imp_of_mem
      fun ha hb hne heq => hne ?_))
    have hmode := congrArg (fun p : LockResource × LockMode => p.2.isData) heq
    have htxn : ∀ {g : Holder}, g ∈ e.2.holders.filter (fun h => h.txn = x) → g.txn = x :=
      fun hg => by simpa using (mem_filter.mp hg).2
    exact ⟨(htxn ha).trans (htxn hb).symm, hmode⟩
  · refine s.world.table.entries.sorted.imp fun hlt p hp hp' => ?_
    obtain ⟨_, _, rfl⟩ := mem_map.mp hp
    obtain ⟨_, _, heq⟩ := mem_map.mp hp'
    exact hlt.ne (congrArg Prod.fst heq).symm

/-! ### The operations among the others -/

variable {e : OtherLocking}

lemma others_cases (he : e.txn ≠ x) (hs : s.others e = some s') :
    (s'.world = s.world ∨ ∃ a : LockAction, a.txn ≠ x ∧ s.world.exec a = some s'.world) ∧
      ∀ table, s'.marks.count (x, table) = s.marks.count (x, table) := by
  cases e with
  | act a =>
    obtain ⟨world, hexec, rfl⟩ := Option.map_eq_some_iff.mp hs
    exact ⟨.inr ⟨a, he, hexec⟩, fun _ => rfl⟩
  | recordMark y table =>
    cases hs
    refine ⟨.inl rfl, fun table' => ?_⟩
    have hne : (y, table) ≠ (x, table') := fun heq => he (congrArg Prod.fst heq)
    rw [count_append, count_singleton, if_neg (by simpa using hne), add_zero]
  | takeMark y table =>
    cases hs
    refine ⟨.inl rfl, fun table' => ?_⟩
    exact count_erase_of_ne fun heq => he (congrArg Prod.fst heq).symm

lemma Views.others (h : s.Views x σ) (he : e.txn ≠ x)
    (hs : s.others e = some s') : s'.Views x σ := by
  obtain ⟨hworld, hmarks⟩ := others_cases he hs
  have hmarks' := fun table => (hmarks table).trans (h.marks table)
  rcases hworld with heq | ⟨a, ha, hexec⟩
  · exact ⟨heq ▸ h.ordered, heq ▸ h.known, heq ▸ h.idle, hmarks'⟩
  · exact ⟨h.ordered.exec hexec, h.known.exec h.ordered hexec,
      View.exec (o := none) h.ordered h.idle ha hexec, hmarks'⟩

lemma Awaits.others {c : LockCall} (h : s.Awaits x r m c σ)
    (he : e.txn ≠ x) (hs : s.others e = some s') : s'.Awaits x r m c σ := by
  obtain ⟨u, hwaits, hgrant⟩ := h.place
  obtain ⟨hworld, hmarks⟩ := others_cases he hs
  have hmarks' := fun table => (hmarks table).trans (h.marks table)
  rcases hworld with heq | ⟨a, ha, hexec⟩
  · exact ⟨heq ▸ h.ordered, heq ▸ h.known, ⟨u, heq ▸ hwaits, hgrant⟩, hmarks'⟩
  · exact ⟨h.ordered.exec hexec, h.known.exec h.ordered hexec,
      ⟨u, View.exec (o := some (c, u)) h.ordered hwaits ha hexec, hgrant⟩, hmarks'⟩

variable {res : LockOutcome ⊕ LockCall × LockTimeout} {timeout : LockTimeout} {choice : LockChoice}

/-- What a request leaves, once the lock manager has answered it or not. -/
lemma requested_leaves {world : LockWorld} {c : LockCall} {g : Bool} {refusal : LockOutcome}
    {timeout' : LockTimeout} {Q : TableLockOp.Answer (.lock (.tryAcquire r m timeout)) → _}
    (hQ : tableSpec x (.lock (.tryAcquire r m timeout)) σ Q) (hord : world.Ordered none)
    (hknown : world.Known) (hmarks : ∀ table, s.marks.count (x, table) = σ.marks table)
    (hnew : s.world.Answers world x σ.mine r m c g)
    (hs : s.requested world c timeout' g refusal = some (s', res)) :
    Leaves (O := tableLockOps x) (Views x) (Waiting x) Q s' σ res := by
  obtain ⟨o, ho, heq⟩ := Option.map_eq_some_iff.mp hs
  cases heq
  rcases hnew.requested ho with ⟨rfl, hnew⟩ | ⟨-, ⟨a, rfl, ha, hnew⟩ | ⟨rfl, hnew⟩⟩
  · exact ⟨σ.grant x r m, ⟨hord, hknown, hnew, hmarks⟩, hQ.1⟩
  · exact ⟨σ, ⟨hord, hknown, hnew, hmarks⟩, hQ.2 a ha⟩
  · exact ⟨hord, hknown, hnew, hmarks⟩

lemma Views.start (h : s.Views x σ) {o : TableLockOp}
    {res : o.Answer ⊕ LockCall × LockTimeout} {Q : o.Answer → TableStanding → Prop}
    (hQ : tableSpec x o σ Q) (hs : (tableLockOps x).start o choice s = some (s', res)) :
    Leaves (O := tableLockOps x) (Views x) (Waiting x) Q s' σ res := by
  cases o with
  | recordStatementTableLock table =>
    cases hs
    refine ⟨σ.mark table, ⟨h.ordered, h.known, h.idle, fun table' => ?_⟩, hQ⟩
    rw [count_append, h.marks, count_singleton]
    by_cases heq : table' = table
    · simp [TableStanding.mark, heq]
    · simp [TableStanding.mark, heq, Ne.symm heq]
  | takeStatementTableLock table =>
    cases hs
    have hmark : s.marks.contains (x, table) = decide (0 < σ.marks table) := by
      rw [← h.marks, Bool.eq_iff_iff]
      simp [count_pos_iff]
    refine ⟨σ.unmark table, ⟨h.ordered, h.known, h.idle, fun table' => ?_⟩, hmark ▸ hQ⟩
    by_cases heq : table' = table
    · simp [TableStanding.unmark, heq, count_erase_self, h.marks]
    · rw [count_erase_of_ne (by simpa using heq), h.marks]
      simp [TableStanding.unmark, heq]
  | lock o =>
    cases o with
    | tryAcquire r m timeout =>
      exact requested_leaves hQ (h.ordered.request ..) (h.known.request h.ordered _ _ _ _) h.marks
        (h.idle.request h.ordered h.known ..) hs
    | held =>
      cases hs
      refine ⟨σ, h, hQ _ (fun r m => ?_) (nodup_heldBy h.ordered x)⟩
      rw [LockTable.mem_heldBy, h.idle.mine]
    | unlock r =>
      simp only [tableLockOps, TableLocks.start, startLock, LockOp.perform] at hs
      split_ifs at hs with hany
      · cases hs
        rw [LockTable.any_holders_iff, h.idle.mine] at hany
        exact ⟨σ.release r, ⟨h.ordered.retire x r, h.known.retire h.ordered x r, h.idle.retire r,
          h.marks⟩, hQ.2 hany⟩
      · cases hs
        rw [LockTable.any_holders_iff, h.idle.mine, not_not] at hany
        exact ⟨_, h, hQ.1 hany⟩
    | readVersioning level =>
      cases hs
      exact ⟨_, h, hQ _⟩
    | recordRowRead table row =>
      cases hs
      exact ⟨_, ⟨h.ordered, h.known, h.idle, h.marks⟩, hQ⟩
    | takeRowRead table row =>
      cases hs
      exact ⟨_, ⟨h.ordered, h.known, h.idle, h.marks⟩, hQ _⟩

/-- Whatever the others do, the operations of a transaction make of its standing what the
specification says. -/
theorem tableLockOps_refine (txn : TxnHandle) :
    (tableLockOps txn.id).Refines others (Foreign txn) (tableSpec txn.id) (Views txn.id)
      (Waiting txn.id) where
  others _ _ _ _ h hok hs := h.others hok hs
  othersWait o _ _ _ _ _ h hok hs := by
    match o with
    | .lock (.tryAcquire ..) => exact Awaits.others h hok hs
  start _ _ _ _ _ _ _ h hQ hs := h.start hQ hs
  again o ticket choice _ σ s' res Q h hQ hs := by
    match o with
    | .lock (.tryAcquire r m timeout) =>
      obtain ⟨u, hwaits, hgrant⟩ := Awaits.place h
      exact requested_leaves hQ (h.ordered.wake ..) (h.known.wake h.ordered _ _) h.marks
        (hwaits.woken h.ordered hgrant _) hs

end TableLocks

/-! ### The calls -/

/-- The hints ask for a lock of the whole table. -/
def AsksTableLock (hints : LockIntent) : Prop := hints.tablock = true ∨ hints.tablockx = true

instance (hints : LockIntent) : Decidable (AsksTableLock hints) :=
  inferInstanceAs (Decidable (_ ∨ _))

variable {table : TableId}

namespace TableLockProgram

variable {x : TxnId} {σ : TableStanding} {txn : TxnHandle}

@[simp] lemma wp_op (o : TableLockOp) (Q : Except LockError o.Answer → TableStanding → Prop) :
    (op o).run.wp (tableSpec x) Q σ = tableSpec x o σ fun a σ' => Q (.ok a) σ' := by
  rw [op, wp_run_lift, wp_perform]

lemma wp_locking {α : Type} (p : LockProgram α) (Q : Except LockError α → TableStanding → Prop) :
    (locking p).run.wp (tableSpec x) Q σ = p.run.wp (fun o => tableSpec x (.lock o)) Q σ := by
  change (hoist TableLockOp.lock (fun _ a => a) p.run :
    Program TableLockOp TableLockOp.Answer _).wp (tableSpec x) Q σ = _
  exact wp_hoist ..

variable {Q : Except LockError Unit → TableStanding → Prop}

lemma wp_take {t : LockTimeout} (hok : Q (.ok ()) (σ.grant x r m))
    (herr : ∀ e, Q (.error e) σ) : (locking (LockProgram.take r m t)).run.wp (tableSpec x) Q σ := by
  rw [wp_locking, LockProgram.take, wp_run_bind, LockProgram.op, wp_run_lift, wp_perform]
  refine ⟨hok, fun o ho => ?_⟩
  cases o with
  | granted => exact absurd rfl ho
  | _ => exact herr _

lemma wp_unlock
    (hheld : σ.mine r ≠ [] → Q (.ok ()) (σ.release r))
    (hfree : σ.mine r = [] → ∀ e, Q (.error e) σ) :
    (locking (LockProgram.unlock txn r)).run.wp (tableSpec x) Q σ := by
  rw [wp_locking, LockProgram.unlock, wp_run_bind, LockProgram.op, wp_run_lift, wp_perform]
  exact ⟨fun hnil => hfree hnil _, fun hne => hheld hne⟩

lemma wp_endTableLock (hmarked : 0 < σ.marks table → σ.mine (.table table) ≠ [] →
      Q (.ok ()) ((σ.unmark table).release (.table table)))
    (hbare : 0 < σ.marks table → σ.mine (.table table) = [] →
      ∀ e, Q (.error e) (σ.unmark table))
    (hnone : σ.marks table = 0 → Q (.ok ()) (σ.unmark table)) :
    (endTableLock txn table).run.wp (tableSpec x) Q σ := by
  rw [endTableLock, wp_run_bind, wp_op]
  change wp _ (ExceptT.run (if decide (0 < σ.marks table) = true then _ else _)) _ _
  split_ifs with hmark
  · have hpos : 0 < σ.marks table := of_decide_eq_true hmark
    exact wp_unlock (hmarked hpos) (hbare hpos)
  · have hzero : σ.marks table = 0 := by simpa using hmark
    exact hnone hzero

lemma wp_tableLock {hints : LockIntent}
    {Q : Except LockError TableLockDecision → TableStanding → Prop}
    (hlevel : releasesTableLockAtEndOfStatement txn.isolation = true)
    (hgranted : AsksTableLock hints → ∀ m d, Q (.ok d) ((σ.grant x (.table table) m).mark table))
    (hrefused : ∀ e, Q (.error e) σ) (hrow : ¬ AsksTableLock hints → Q (.ok .rowLevel) σ) :
    (tableLock txn table hints).run.wp (tableSpec x) Q σ := by
  have htaken : AsksTableLock hints → ∀ m d, (do
      acquireTableLock table m hints
      op (.recordStatementTableLock table)
      pure d : TableLockProgram TableLockDecision).run.wp (tableSpec x) Q σ := by
    intro hasks m d
    rw [wp_run_bind]
    refine wp_take ?_ hrefused
    rw [wp_run_bind, wp_op]
    exact hgranted hasks m d
  simp only [tableLock, hlevel, if_true]
  split_ifs with hx hs
  · exact htaken (.inr hx) .X _
  · exact htaken (.inl hs) .S _
  · exact hrow fun hasks => hasks.elim hs hx

/-- What a statement leaves on its table: nothing, if it asks for a table lock or finds a mark. -/
def leavesOnTable (σ : TableStanding) (table : TableId) (hints : LockIntent) : List Holder :=
  if ¬ AsksTableLock hints ∧ σ.marks table = 0 then σ.mine (.table table) else []

lemma wp_tableStatement (table : TableId) (hints : LockIntent)
    (hlevel : releasesTableLockAtEndOfStatement txn.isolation = true) :
    (tableStatement txn table hints).run.wp (tableSpec x) (fun res σ' => match res with
      | .ok _ => σ'.mine = update σ.mine (.table table) (leavesOnTable σ table hints)
      | .error _ => σ'.mine = σ.mine) σ := by
  rw [tableStatement, wp_run_bind]
  refine wp_tableLock hlevel (fun hasks m d => ?_) (fun _ => rfl) fun hasks => ?_
  · -- what was granted is held, and its mark gives the whole table back
    obtain ⟨g, hg, _⟩ : ∃ g ∈ taking x m (σ.mine (.table table)), _ := exists_taking
    simp only [wp_run_bind]
    refine wp_endTableLock (fun _ _ => ?_) (fun _ hnil => ?_) fun hzero => ?_
    · change update (withGrant σ.mine x (.table table) m) (.table table) [] = _
      rw [withGrant, update_idem, leavesOnTable, if_neg (fun h => h.1 hasks)]
    · have hnil' : (σ.grant x (.table table) m).mine (.table table) = [] := hnil
      rw [TableStanding.mine_grant_self] at hnil'
      rw [hnil'] at hg
      cases hg
    · simp [TableStanding.mark] at hzero
  · simp only [wp_run_bind]
    refine wp_endTableLock (fun hpos _ => ?_) (fun _ _ _ => rfl) fun hzero => ?_
    · change update σ.mine (.table table) [] = _
      rw [leavesOnTable, if_neg (fun h => hpos.ne' h.2)]
    · change σ.mine = _
      rw [leavesOnTable, if_pos ⟨hasks, hzero⟩, update_eq_self]

end TableLockProgram

/-! ### Statements with a table lock -/

/-- Each mode of the first is covered in the second. -/
def Retains (H H' : LockResource → List Holder) : Prop :=
  ∀ r, ∀ h ∈ H r, ∃ h' ∈ H' r, h'.mode.covers h.mode = true

lemma Retains.refl (H : LockResource → List Holder) : Retains H H :=
  fun _ h hh => ⟨h, hh, LockMode.covers_refl _⟩

lemma retains_update_nil_iff {H : LockResource → List Holder} :
    Retains H (update H r []) ↔ H r = [] := by
  refine ⟨fun h => eq_nil_iff_forall_not_mem.mpr fun g hg => ?_, fun hnil => ?_⟩
  · obtain ⟨g', hg', _⟩ := h r g hg
    rw [update_self] at hg'
    cases hg'
  · rw [← hnil, update_eq_self]
    exact .refl H

lemma TableLocks.views_of_reachable {ok : LockWorld → LockAction → Prop} {s : TableLocks}
    (h : lockManager.Reachable ok s.world) {x : TxnId}
    (hwaits : ∀ r, s.world.table.waits x r = []) :
    s.Views x ⟨s.world.table.mine x, fun table => s.marks.count (x, table)⟩ := by
  have hworld : s.world.Ordered none ∧ s.world.Known :=
    h.invariant (P := fun w => w.Ordered none ∧ w.Known) ⟨.initial, nofun⟩
      fun _ _ _ hw _ hs => ⟨hw.1.exec hs, hw.2.exec hw.1 hs⟩
  exact ⟨hworld.1, hworld.2, ⟨fun _ => rfl, hwaits⟩, fun _ => rfl⟩

variable {txn : TxnHandle}

/-- The thread goes on, or the others act for themselves. -/
def foreign {σ : Type} (x : TxnId) : σ → Action LockChoice OtherLocking → Bool
  | _, .run _ => true
  | _, .other e => e.txn ≠ x

lemma among_of_foreign {α : Type} (s : TableLocks × (tableLockOps txn.id).Thread α)
    (a : Action LockChoice OtherLocking) (h : foreign txn.id s a = true) :
    Among (Foreign txn) s a := by
  cases a with
  | run c => trivial
  | other e =>
    have hne : e.txn ≠ txn.id := of_decide_eq_true h
    exact hne

/-- A statement with `TABLOCK` of transaction 1 on table 1. -/
def tablockOn (w : LockWorld) := tableLocking ⟨1, .readCommitted⟩ ⟨w, [], []⟩
  (tableStatement ⟨1, .readCommitted⟩ 1 { tablock := true })

/-- It has ended, and nothing is held of the table. -/
def tablockEnded :
    TableLocks × (tableLockOps 1).Thread (Except LockError TableLockDecision) → Bool
  | (s, .next (.done (.ok .tableShared))) => s.world.table.mine 1 (.table 1) = []
  | _ => false

lemma exists_tablock_ended (w : LockWorld)
    (h : ((tablockOn w).run (foreign 1) (tablockOn w).init
      (replicate 4 (.run ⟨false, .cancelled, .off⟩))).any tablockEnded = true) :
    ∃ s', (tablockOn w).Reachable (Among (Foreign ⟨1, .readCommitted⟩))
      (s', .next (.done (.ok .tableShared))) ∧ s'.world.table.mine 1 (.table 1) = [] := by
  obtain ⟨p, hp, hended⟩ := (tablockOn w).exists_reachable (foreign 1) _ tablockEnded
    among_of_foreign h
  unfold tablockEnded at hended
  split at hended
  · exact ⟨_, hp, of_decide_eq_true hended⟩
  · cases hended

lemma entry_request_of_free {w : LockWorld} (hfree : w.table.entry r = .empty)
    (x : TxnId) (m : LockMode) (givesUp : Bool) (r' : LockResource) :
    (w.request x r m givesUp).table.entry r' =
      if r' = r then ⟨[⟨x, m⟩], []⟩ else w.table.entry r' := by
  have hreq : w.table.request x r m = .queued ⟨w.table.nextTicket, x, m, false⟩ := by
    rw [LockTable.request, hfree]
    rfl
  have hput : (w.table.entry r).put ⟨w.table.nextTicket, x, m, false⟩ =
      ⟨[], [⟨w.table.nextTicket, x, m, false⟩]⟩ := by
    rw [hfree]
    rfl
  rw [request, LockTable.enqueue, hreq]
  simp only [hput]
  generalize ht : LockTable.mk (w.table.entries.insert r
    ⟨[], [⟨w.table.nextTicket, x, m, false⟩]⟩) (w.table.nextTicket + 1) w.table.granted = t
  have hentry : ∀ r', t.entry r' =
      if r' = r then ⟨[], [⟨w.table.nextTicket, x, m, false⟩]⟩ else w.table.entry r' :=
    fun r' => ht ▸ LockTable.entry_insert ..
  have hgranted : (t.grantPass r).granted.contains w.table.nextTicket = true := by
    simp [LockTable.grants, hentry, LockEntry.grantLoop, holdersAllow]
  refine (congrArg (fun w' : LockWorld => w'.table.entry r') (if_pos hgranted)).trans ?_
  change (t.grantPass r).entry r' = _
  rw [LockTable.entry_grantPass, hentry, hentry, if_pos rfl]
  split_ifs <;> rfl

/-- Nobody waits for a lock. -/
def Unqueued (w : LockWorld) : Prop := ∀ r, (w.table.entry r).queue = []

lemma Unqueued.request {w : LockWorld} (h : Unqueued w) (hfree : w.table.entry r = .empty)
    (x : TxnId) (m : LockMode) (givesUp : Bool) : Unqueued (w.request x r m givesUp) := by
  intro r'
  rw [entry_request_of_free hfree]
  split_ifs
  · rfl
  · exact h r'

lemma Unqueued.waits {w : LockWorld} (h : Unqueued w) (x : TxnId) (r : LockResource) :
    w.table.waits x r = [] := by
  rw [LockTable.waits, h r]
  rfl

/-- Transaction 1 has written a row of table 2, and transaction 2 reads in table 1. -/
def writerElsewhere : LockWorld :=
  ((LockWorld.initial.request 1 (.table 2) .IX true).request 1 (.row 2 1) .X true).request
    2 (.table 1) .IS true

lemma writerElsewhere_reachable : lockManager.Reachable Machine.Any writerElsewhere :=
  .next (a := .request 2 (.table 1) .IS true) (.next (a := .request 1 (.row 2 1) .X true)
    (.next (a := .request 1 (.table 2) .IX true) .start trivial rfl) trivial rfl) trivial rfl

lemma writerElsewhere_unqueued : Unqueued writerElsewhere := by
  have hinitial : Unqueued .initial := fun _ => rfl
  refine ((hinitial.request rfl 1 .IX true).request ?_ 1 .X true).request ?_ 2 .IS true
  · decide +kernel
  · decide +kernel

/-- Transaction 1 has written a row: it holds the intent of the table and the row. -/
def writer : LockWorld :=
  (LockWorld.initial.request 1 (.table 1) .IX true).request 1 (.row 1 1) .X true

lemma writer_reachable : lockManager.Reachable Machine.Any writer :=
  .next (a := .request 1 (.row 1 1) .X true)
    (.next (a := .request 1 (.table 1) .IX true) .start trivial rfl) trivial rfl

end VaubanDB
