import VaubanDB.Disk.Page
import VaubanDB.Library.History
import VaubanDB.Library.Machine

/-!
The group commit of the journal (`vauban-storage/src/disk/wal.rs`, `WalHandle::wait_durable`,
`WalHandle::sync_appended`, `Wal::flush`, `Wal::note_sync`).

The first caller that finds no sync under way leads one: it reads the last record, syncs the file
without the lock of the journal, moves the durable number and wakes the others.  A step is what a
thread does between two moments at which another one can run; a sync is two steps, its start and its
end.  By `group_commit_is_safe` a wait answers success only after a successful sync that started
once the record was in the file, and an error from then on for a record a failed sync left without
one.
-/

namespace VaubanDB

/-! ### The steps -/

/-- Where a thread stands in a call of `wait_durable`. -/
inductive CommitPhase where
  | idle
  /-- About to take the lock of the group, at the start or after a wake-up. -/
  | waiting (lsn : Lsn)
  /-- Asleep until the leader has finished. -/
  | parked (lsn : Lsn)
  /-- Elected: `syncing` is set, `sync_appended` has begun. -/
  | leading (lsn : Lsn)
  /-- The records `first` to `target` are the ones the sync is to cover. -/
  | aimed (lsn first target : Lsn)
  /-- `sync_all` is under way. -/
  | syncing (lsn first target : Lsn) (sync : ℕ)
  | synced (lsn first target : Lsn) (ok : Bool)
  /-- `sync_appended` has answered; a failure carries the records it was to cover. -/
  | ending (lsn : Lsn) (outcome : Option (Lsn × Lsn))
  /-- The outcome is recorded and the lock of the group dropped, the others are not woken yet. -/
  | notifying (lsn : Lsn) (outcome : Option (Lsn × Lsn))
  deriving DecidableEq

inductive SyncEvent where
  /-- The record is in the file. -/
  | appended (lsn : Lsn)
  | started (sync : ℕ)
  | ended (sync : ℕ) (ok : Bool)
  /-- A failed group sync is recorded, with the records it was to cover. -/
  | refused (first last : Lsn)
  | returned (thread : ThreadId) (lsn : Lsn) (ok : Bool)
  deriving DecidableEq

/-- The journal, the group and the threads. -/
structure GroupWorld where
  lastLsn : Lsn
  durableLsn : Lsn
  syncing : Bool
  /-- The ranges of records a failed group sync was to cover. -/
  failed : List (Lsn × Lsn)
  threads : ThreadId → CommitPhase
  nextSync : ℕ
  log : List SyncEvent

namespace GroupWorld

def failedOn (w : GroupWorld) (lsn : Lsn) : Bool :=
  w.failed.any fun r => r.1 ≤ lsn && lsn ≤ r.2

/-- The journal just opened with `n` records, which `Wal::open` has synced. -/
def opened (n : ℕ) : GroupWorld where
  lastLsn := n
  durableLsn := n
  syncing := false
  failed := []
  threads := fun _ => .idle
  nextSync := 1
  log := (List.range n).map (fun i => .appended (i + 1)) ++ [.started 0, .ended 0 true]

/-- `Wal::note_sync`: the durable number does not go backwards. -/
def noteSync (w : GroupWorld) (covered : Lsn) : GroupWorld :=
  if covered > w.durableLsn then { w with durableLsn := covered } else w

@[simp] def setPhase (w : GroupWorld) (t : ThreadId) (p : CommitPhase) : GroupWorld :=
  { w with threads := Function.update w.threads t p }

@[simp] def record (w : GroupWorld) (e : SyncEvent) : GroupWorld :=
  { w with log := w.log ++ [e] }

def answer (w : GroupWorld) (t : ThreadId) (lsn : Lsn) (ok : Bool) : GroupWorld :=
  (w.setPhase t .idle).record (.returned t lsn ok)

/-- `Wal::append`, with the lock of the journal. -/
def append (w : GroupWorld) : GroupWorld :=
  { w with lastLsn := w.lastLsn + 1 }.record (.appended (w.lastLsn + 1))

def beginSync (w : GroupWorld) : GroupWorld :=
  { w with nextSync := w.nextSync + 1 }.record (.started w.nextSync)

/-- `Wal::flush`, with the lock of the journal: nothing is appended meanwhile. -/
def flush (w : GroupWorld) (ok : Bool) : GroupWorld :=
  let w' := w.beginSync.record (.ended w.nextSync ok)
  if ok then w'.noteSync w.lastLsn else w'

/-- One turn of the loop of `wait_durable`, with the lock of the group. -/
def check (w : GroupWorld) (t : ThreadId) (lsn : Lsn) : GroupWorld :=
  if w.failedOn lsn then w.answer t lsn false
  else if lsn ≤ w.durableLsn then w.answer t lsn true
  else if w.syncing then w.setPhase t (.parked lsn)
  else { w with syncing := true }.setPhase t (.leading lsn)

/-- The leader takes the lock of the group again and records the outcome. -/
def endSync (w : GroupWorld) (t : ThreadId) (lsn : Lsn) (outcome : Option (Lsn × Lsn)) :
    GroupWorld :=
  let w' := { w with syncing := false, failed := w.failed ++ outcome.toList }
  let w' := w'.setPhase t (.notifying lsn outcome)
  match outcome with
  | some (first, last) => w'.record (.refused first last)
  | none => w'

def notifyAll (w : GroupWorld) : GroupWorld :=
  { w with threads := fun t => match w.threads t with
      | .parked lsn => .waiting lsn
      | p => p }

end GroupWorld

inductive GroupAction where
  | append
  /-- Some thread syncs with the lock of the journal (`flush`, `append_durable`). -/
  | flush (ok : Bool)
  /-- A thread calls `wait_durable` for a record that was appended. -/
  | wait (t : ThreadId) (lsn : Lsn)
  | check (t : ThreadId)
  /-- A thread wakes up without having been notified. -/
  | wake (t : ThreadId)
  /-- The leader reads what it is to cover. -/
  | aim (t : ThreadId)
  | startSync (t : ThreadId)
  | syncEnds (t : ThreadId) (ok : Bool)
  /-- The leader takes the lock of the journal and notes a successful sync. -/
  | note (t : ThreadId)
  | finish (t : ThreadId)
  /-- The leader wakes the others and returns. -/
  | notify (t : ThreadId)
  deriving DecidableEq

namespace GroupWorld

/-- What an action makes of the state; nothing when the thread does not stand where it says. -/
def exec (w : GroupWorld) : GroupAction → Option GroupWorld
  | .append => if w.lastLsn < maxU64 then some w.append else none
  | .flush ok => some (w.flush ok)
  | .wait t lsn =>
    if w.threads t = .idle ∧ 1 ≤ lsn ∧ lsn ≤ w.lastLsn then some (w.setPhase t (.waiting lsn))
    else none
  | .check t => match w.threads t with
      | .waiting lsn => some (w.check t lsn)
      | _ => none
  | .wake t => match w.threads t with
      | .parked lsn => some (w.setPhase t (.waiting lsn))
      | _ => none
  | .aim t => match w.threads t with
      | .leading lsn => some (w.setPhase t (.aimed lsn (min (w.durableLsn + 1) maxU64) w.lastLsn))
      | _ => none
  | .startSync t => match w.threads t with
      | .aimed lsn first target =>
        some (w.beginSync.setPhase t (.syncing lsn first target w.nextSync))
      | _ => none
  | .syncEnds t ok => match w.threads t with
      | .syncing lsn first target sync =>
        some ((w.record (.ended sync ok)).setPhase t (.synced lsn first target ok))
      | _ => none
  | .note t => match w.threads t with
      | .synced lsn _ target true => some ((w.noteSync target).setPhase t (.ending lsn none))
      | .synced lsn first target false => some (w.setPhase t (.ending lsn (some (first, target))))
      | _ => none
  | .finish t => match w.threads t with
      | .ending lsn outcome => some (w.endSync t lsn outcome)
      | _ => none
  | .notify t => match w.threads t with
      | .notifying lsn outcome => some (w.notifyAll.answer t lsn outcome.isNone)
      | _ => none

end GroupWorld

variable {log : List SyncEvent}

/-- The group commit of a journal opened with `n` records. -/
def groupCommit (n : ℕ) : Machine GroupWorld GroupAction where
  init := GroupWorld.opened n
  exec := GroupWorld.exec

/-! ### What a history says about a record -/

/-- The sync started when the record was in the file. -/
def StartedAfter (log : List SyncEvent) (lsn : Lsn) (sync : ℕ) : Prop :=
  ∃ before after, log = before ++ .started sync :: after ∧ .appended lsn ∈ before

/-- Some successful sync started when the record was in the file, and has ended. -/
def CoveredBySync (log : List SyncEvent) (lsn : Lsn) : Prop :=
  ∃ sync before after, log = before ++ .started sync :: after ∧ .appended lsn ∈ before ∧
    .ended sync true ∈ after

/-- A failed group sync was to cover the record before any successful one had. -/
def LeftUncovered (log : List SyncEvent) (lsn : Lsn) : Prop :=
  ∃ before first last after, log = before ++ .refused first last :: after ∧
    first ≤ lsn ∧ lsn ≤ last ∧ ¬ CoveredBySync before lsn

lemma StartedAfter.append {lsn : Lsn} {sync : ℕ} (h : StartedAfter log lsn sync)
    (new : List SyncEvent) : StartedAfter (log ++ new) lsn sync := by
  obtain ⟨before, after, rfl, hin⟩ := h
  exact ⟨before, after ++ new, by simp, hin⟩

lemma StartedAfter.ended {lsn : Lsn} {sync : ℕ} (h : StartedAfter log lsn sync) :
    CoveredBySync (log ++ [.ended sync true]) lsn := by
  obtain ⟨before, after, rfl, hin⟩ := h
  exact ⟨sync, before, after ++ [.ended sync true], by simp, hin, by simp⟩

lemma CoveredBySync.append {lsn : Lsn} (h : CoveredBySync log lsn) (new : List SyncEvent) :
    CoveredBySync (log ++ new) lsn := by
  obtain ⟨sync, before, after, rfl, hin, hend⟩ := h
  exact ⟨sync, before, after ++ new, by simp, hin, by simp [hend]⟩

lemma LeftUncovered.of_snoc {lsn : Lsn} {e : SyncEvent} (h : LeftUncovered (log ++ [e]) lsn) :
    LeftUncovered log lsn ∨ ∃ first last, e = .refused first last ∧ first ≤ lsn ∧ lsn ≤ last ∧
        ¬ CoveredBySync log lsn := by
  obtain ⟨before, first, last, after, heq, hfirst, hlast, hcov⟩ := h
  rcases List.eq_nil_or_concat after with rfl | ⟨after, e', rfl⟩
  · obtain ⟨rfl, he⟩ := List.append_inj' heq rfl
    exact .inr ⟨first, last, by simpa using he, hfirst, hlast, hcov⟩
  · have heq' : log ++ [e] = (before ++ .refused first last :: after) ++ [e'] := by simpa using heq
    obtain ⟨rfl, -⟩ := List.append_inj' heq' rfl
    exact .inl ⟨before, first, last, after, rfl, hfirst, hlast, hcov⟩

lemma LeftUncovered.of_snoc_ne {e : SyncEvent} {l : Lsn}
    (he : ∀ first last, e ≠ .refused first last) (h : LeftUncovered (log ++ [e]) l) :
    LeftUncovered log l := by
  rcases h.of_snoc with h | ⟨first, last, heq, -⟩
  · exact h
  · exact absurd heq (he first last)

/-- What a returning wait must be able to show. -/
def WellAnswered (before : List SyncEvent) : SyncEvent → Prop
  | .returned _ lsn true => CoveredBySync before lsn ∧ ¬ LeftUncovered before lsn
  | _ => True

namespace GroupWorld

variable {w : GroupWorld} {t : ThreadId} {lsn : Lsn}

/-! ### What each phase knows -/

/-- The thread leads a group sync: it has set `syncing` and has not recorded the outcome. -/
def leads : CommitPhase → Bool
  | .leading _ | .aimed .. | .syncing .. | .synced .. | .ending .. => true
  | _ => false

/-- What is known of the thread that stands there. -/
def PhaseSound (w : GroupWorld) : CommitPhase → Prop
  | .idle => True
  | .waiting lsn | .parked lsn => 1 ≤ lsn ∧ lsn ≤ w.lastLsn
  | .leading lsn => 1 ≤ lsn ∧ lsn ≤ w.lastLsn ∧ w.failedOn lsn = false
  | .aimed lsn _ target => 1 ≤ lsn ∧ lsn ≤ target ∧ target ≤ w.lastLsn ∧ w.failedOn lsn = false
  | .syncing lsn _ target sync => 1 ≤ lsn ∧ lsn ≤ target ∧ target ≤ w.lastLsn ∧
      w.failedOn lsn = false ∧ ∀ k, 1 ≤ k → k ≤ target → StartedAfter w.log k sync
  | .synced lsn _ target ok => 1 ≤ lsn ∧ lsn ≤ target ∧ target ≤ w.lastLsn ∧
      w.failedOn lsn = false ∧ (ok = true → ∀ k, 1 ≤ k → k ≤ target → CoveredBySync w.log k)
  | .ending lsn outcome => w.failedOn lsn = false ∧ (outcome = none → CoveredBySync w.log lsn)
  | .notifying lsn outcome => outcome = none →
      CoveredBySync w.log lsn ∧ ¬ LeftUncovered w.log lsn

lemma PhaseSound.mono {p : CommitPhase} (h : w.PhaseSound p) (w' : GroupWorld)
    (hlast : w.lastLsn ≤ w'.lastLsn)
    (hfailed : w'.failed = w.failed) (new : List SyncEvent) (hlog : w'.log = w.log ++ new)
    (hnew : ∀ l, LeftUncovered (w.log ++ new) l → LeftUncovered w.log l) : w'.PhaseSound p := by
  have hon : ∀ l, w'.failedOn l = w.failedOn l := fun l => by simp only [failedOn, hfailed]
  cases p with
  | idle => trivial
  | waiting l | parked l => exact ⟨h.1, h.2.trans hlast⟩
  | leading l => exact ⟨h.1, h.2.1.trans hlast, (hon l).trans h.2.2⟩
  | aimed l first target =>
    obtain ⟨h1, h2, h3, h4⟩ := h
    exact ⟨h1, h2, h3.trans hlast, (hon l).trans h4⟩
  | syncing l first target sync =>
    obtain ⟨h1, h2, h3, h4, h5⟩ := h
    refine ⟨h1, h2, h3.trans hlast, (hon l).trans h4, fun k hk hk' => ?_⟩
    rw [hlog]
    exact (h5 k hk hk').append new
  | synced l first target ok =>
    obtain ⟨h1, h2, h3, h4, h5⟩ := h
    refine ⟨h1, h2, h3.trans hlast, (hon l).trans h4, fun hok k hk hk' => ?_⟩
    rw [hlog]
    exact (h5 hok k hk hk').append new
  | ending l outcome =>
    refine ⟨(hon l).trans h.1, fun ho => ?_⟩
    rw [hlog]
    exact (h.2 ho).append new
  | notifying l outcome =>
    intro ho
    rw [hlog]
    exact ⟨(h ho).1.append new, fun hl => (h ho).2 (hnew l hl)⟩

/-! ### What holds in every state -/

/-- The state of the journal, of the group and of the threads agrees with the history. -/
structure Sound (w : GroupWorld) : Prop where
  appended : ∀ l, 1 ≤ l → l ≤ w.lastLsn → .appended l ∈ w.log
  durable_le : w.durableLsn ≤ w.lastLsn
  durable : ∀ l, 1 ≤ l → l ≤ w.durableLsn → CoveredBySync w.log l
  phases : ∀ t, w.PhaseSound (w.threads t)
  one_leader : ∀ t u, leads (w.threads t) = true → leads (w.threads u) = true → t = u
  syncing : w.syncing = true ↔ ∃ t, leads (w.threads t) = true
  uncovered : ∀ l, LeftUncovered w.log l → w.failedOn l = true
  answers : Justified WellAnswered w.log
  asleep : ∀ t l, w.threads t = .parked l → ∃ u, leads (w.threads u) = true ∨
    ∃ k outcome, w.threads u = .notifying k outcome

namespace Sound

lemma opened (n : ℕ) : (GroupWorld.opened n).Sound where
  appended l h1 h2 := by
    have : ∃ i < n, i + 1 = l := ⟨l - 1, by simp only [GroupWorld.opened] at h2; lia, by lia⟩
    simpa [GroupWorld.opened] using this
  durable_le := le_rfl
  durable l h1 h2 := by
    refine ⟨0, (List.range n).map (fun i => .appended (i + 1)), [.ended 0 true], rfl, ?_, by simp⟩
    have : ∃ i < n, i + 1 = l := ⟨l - 1, by simp only [GroupWorld.opened] at h2; lia, by lia⟩
    simpa using this
  phases _ := trivial
  one_leader t u h := by simp [GroupWorld.opened, leads] at h
  syncing := by simp [GroupWorld.opened, leads]
  uncovered l h := by
    obtain ⟨before, first, last, after, heq, -⟩ := h
    have hmem : .refused first last ∈ (GroupWorld.opened n).log := by simp [heq]
    simp [GroupWorld.opened] at hmem
  answers := by
    intro before e after heq
    have hmem : e ∈ (GroupWorld.opened n).log := by simp [heq]
    cases e with
    | returned t l ok => simp [GroupWorld.opened] at hmem
    | _ => trivial
  asleep t l h := by simp [GroupWorld.opened] at h

variable (h : w.Sound)
include h

lemma record {e : SyncEvent} (he : ∀ first last, e ≠ .refused first last)
    (hok : WellAnswered w.log e) : (w.record e).Sound where
  appended l h1 h2 := by simp [h.appended l h1 h2]
  durable_le := h.durable_le
  durable l h1 h2 := (h.durable l h1 h2).append _
  phases u := (h.phases u).mono _ le_rfl rfl [_] rfl fun l => LeftUncovered.of_snoc_ne he
  one_leader := h.one_leader
  syncing := h.syncing
  uncovered l hl := h.uncovered l (hl.of_snoc_ne he)
  answers := h.answers.snoc hok
  asleep := h.asleep

lemma setPhase {p : CommitPhase} (hp : w.PhaseSound p)
    (hlead : leads p = leads (w.threads t)) (hpark : ∀ l, p = .parked l → w.syncing = true)
    (hnot : (∃ k outcome, w.threads t = .notifying k outcome) →
      (∃ k outcome, p = .notifying k outcome) ∨ ∀ u l, w.threads u ≠ .parked l) :
    (w.setPhase t p).Sound := by
  have hleads : ∀ u, leads ((w.setPhase t p).threads u) = leads (w.threads u) := by
    intro u
    by_cases hu : u = t
    · subst hu
      simp [hlead]
    · simp [hu]
  refine ⟨h.appended, h.durable_le, h.durable, fun u => ?_, fun u v hu hv => ?_, ?_, h.uncovered,
    h.answers, fun u l hu => ?_⟩
  · have hsame : (w.setPhase t p).PhaseSound ((w.setPhase t p).threads u) ↔
        w.PhaseSound ((w.setPhase t p).threads u) :=
      ⟨fun h => h.mono _ le_rfl rfl [] (by simp) (by simp),
        fun h => h.mono _ le_rfl rfl [] (by simp) (by simp)⟩
    rw [hsame]
    by_cases hu : u = t
    · subst hu
      simpa using hp
    · simpa [hu] using h.phases u
  · rw [hleads] at hu hv
    exact h.one_leader u v hu hv
  · simp only [hleads]
    exact h.syncing
  · -- a leader is still a leader; a thread about to notify leaves only when nobody sleeps
    by_cases hut : u = t
    · subst hut
      obtain ⟨v, hv⟩ := h.syncing.mp (hpark l (by simpa using hu))
      exact ⟨v, .inl (by rw [hleads]; exact hv)⟩
    · have hul : w.threads u = .parked l := by simpa [hut] using hu
      obtain ⟨v, hv | ⟨k, outcome, hv⟩⟩ := h.asleep u l hul
      · exact ⟨v, .inl (by rw [hleads]; exact hv)⟩
      · by_cases hvt : v = t
        · subst hvt
          rcases hnot ⟨k, outcome, hv⟩ with ⟨k', o', rfl⟩ | hnone
          · exact ⟨v, .inr ⟨k', o', by simp⟩⟩
          · exact absurd hul (hnone u l)
        · exact ⟨v, .inr ⟨k, outcome, by simpa [hvt] using hv⟩⟩

lemma answer {ok : Bool} (hlead : leads (w.threads t) = false)
    (hnot : (∃ k outcome, w.threads t = .notifying k outcome) → ∀ u l, w.threads u ≠ .parked l)
    (hok : WellAnswered w.log (.returned t lsn ok)) : (w.answer t lsn ok).Sound := by
  refine (h.setPhase (p := .idle) trivial ?_ (by simp) fun hn => .inr (hnot hn)).record
    (by simp) hok
  rw [hlead]
  rfl

lemma append : w.append.Sound where
  appended l h1 h2 := by
    rcases Nat.lt_or_ge w.lastLsn l with hl | hl
    · have : l = w.lastLsn + 1 := le_antisymm h2 hl
      simp [GroupWorld.append, this]
    · simp [GroupWorld.append, h.appended l h1 hl]
  durable_le := h.durable_le.trans (Nat.le_succ _)
  durable l h1 h2 := (h.durable l h1 h2).append _
  phases u := (h.phases u).mono _ (Nat.le_succ _) rfl [_] rfl fun l =>
    LeftUncovered.of_snoc_ne (by simp)
  one_leader := h.one_leader
  syncing := h.syncing
  uncovered l hl := h.uncovered l (hl.of_snoc_ne (by simp))
  answers := h.answers.snoc trivial
  asleep := h.asleep

lemma beginSync : w.beginSync.Sound :=
  (show ({ w with nextSync := w.nextSync + 1 } : GroupWorld).Sound from
    { h with phases := fun u => (h.phases u).mono _ le_rfl rfl [] (by simp) (by simp) }).record
    (by simp) trivial

lemma startedAfter_beginSync {k : Lsn} (h1 : 1 ≤ k) (h2 : k ≤ w.lastLsn) :
    StartedAfter w.beginSync.log k w.nextSync :=
  ⟨w.log, [], rfl, h.appended k h1 h2⟩

lemma noteSync {covered : Lsn} (hle : covered ≤ w.lastLsn)
    (hcov : ∀ k, 1 ≤ k → k ≤ covered → CoveredBySync w.log k) : (w.noteSync covered).Sound := by
  unfold GroupWorld.noteSync
  split
  · exact { h with
      durable_le := hle
      durable := hcov
      phases := fun u => (h.phases u).mono _ le_rfl rfl [] (by simp) (by simp) }
  · exact h

lemma flush (ok : Bool) : (w.flush ok).Sound := by
  have hended : (w.beginSync.record (.ended w.nextSync ok)).Sound :=
    h.beginSync.record (by simp) trivial
  cases ok with
  | false => exact hended
  | true =>
    refine hended.noteSync le_rfl fun k h1 h2 => ?_
    exact (h.startedAfter_beginSync h1 h2).ended

lemma elect (hsync : w.syncing = false) (hlead : leads (w.threads t) = false)
    (hn : ∀ k outcome, w.threads t ≠ .notifying k outcome) (h1 : 1 ≤ lsn) (h2 : lsn ≤ w.lastLsn)
    (hf : w.failedOn lsn = false) :
    ({ w with syncing := true }.setPhase t (.leading lsn)).Sound := by
  have hnone : ∀ u, leads (w.threads u) = false := by
    intro u
    by_contra hu
    have := h.syncing.mpr ⟨u, by simpa using hu⟩
    simp [hsync] at this
  refine ⟨h.appended, h.durable_le, h.durable, fun u => ?_, fun u v hu hv => ?_, ?_, h.uncovered,
    h.answers, fun u l hu => ?_⟩
  · by_cases hu : u = t
    · subst hu
      simpa [PhaseSound] using ⟨h1, h2, hf⟩
    · have hsame : ({ w with syncing := true }.setPhase t (.leading lsn)).threads u =
        w.threads u := by
        simp [hu]
      rw [hsame]
      exact (h.phases u).mono _ le_rfl rfl [] (by simp) (by simp)
  · have key : ∀ x,
        leads (({ w with syncing := true }.setPhase t (.leading lsn)).threads x) = true →
        x = t := by
      intro x hx
      by_contra hne
      simp [hne, hnone] at hx
    rw [key u hu, key v hv]
  · exact iff_of_true rfl ⟨t, by simp [leads]⟩
  · exact ⟨t, .inl (by simp [leads])⟩

omit h in
/-- A failure recorded for other records leaves alone what a thread that does not lead knows. -/
lemma phase_refused {p : CommitPhase} {first last : Lsn} (h : w.PhaseSound p)
    (hp : leads p = false) (w' : GroupWorld) (hlast : w'.lastLsn = w.lastLsn)
    (hlog : w'.log = w.log ++ [.refused first last]) : w'.PhaseSound p := by
  cases p with
  | idle => trivial
  | waiting l | parked l => simpa [PhaseSound, hlast] using h
  | notifying l outcome =>
    intro ho
    obtain ⟨hcov, hleft⟩ := h ho
    rw [hlog]
    refine ⟨hcov.append _, fun hl => ?_⟩
    rcases hl.of_snoc with hl | ⟨_, _, _, _, _, hnot⟩
    · exact hleft hl
    · exact hnot hcov
  | _ => simp [leads] at hp

lemma endSync {outcome : Option (Lsn × Lsn)}
    (ht : w.threads t = .ending lsn outcome) : (w.endSync t lsn outcome).Sound := by
  have hlead : leads (w.threads t) = true := by rw [ht]; rfl
  have hother : ∀ u, u ≠ t → leads (w.threads u) = false := by
    intro u hu
    by_contra hl
    exact hu (h.one_leader u t (by simpa using hl) hlead)
  obtain ⟨hfail, hcov⟩ : w.PhaseSound (.ending lsn outcome) := ht ▸ h.phases t
  have hthreads : (w.endSync t lsn outcome).threads =
      Function.update w.threads t (.notifying lsn outcome) := by
    cases outcome <;> rfl
  have hnone : ∀ u, leads ((w.endSync t lsn outcome).threads u) = false := by
    intro u
    rw [hthreads]
    by_cases hu : u = t
    · subst hu
      simp [leads]
    · simpa [hu] using hother u hu
  have hleader : ∀ u, leads ((w.endSync t lsn outcome).threads u) ≠ true := by simp [hnone]
  have hasleep : ∀ u l, (w.endSync t lsn outcome).threads u = .parked l →
      ∃ v, leads ((w.endSync t lsn outcome).threads v) = true ∨
        ∃ k o, (w.endSync t lsn outcome).threads v = .notifying k o :=
    fun _ _ _ => ⟨t, .inr ⟨lsn, outcome, by simp [hthreads]⟩⟩
  cases outcome with
  | none =>
    have hfailed : (w.endSync t lsn none).failed = w.failed := by
      simp [GroupWorld.endSync]
    refine ⟨h.appended, h.durable_le, h.durable, fun u => ?_, fun u _ hu => absurd hu (hleader u),
      by simp [GroupWorld.endSync]; simpa [hthreads] using hnone, ?_,
      h.answers, hasleep⟩
    · rw [hthreads]
      by_cases hu : u = t
      · subst hu
        have hnotify : w.PhaseSound (.notifying lsn none) := fun ho =>
          ⟨hcov ho, fun hl => by simp [h.uncovered lsn hl] at hfail⟩
        simpa using hnotify.mono (w.endSync u lsn none) le_rfl hfailed [] (by simp [endSync])
          (by simp)
      · simpa [hu] using (h.phases u).mono (w.endSync t lsn none) le_rfl hfailed []
          (by simp [GroupWorld.endSync]) (by simp)
    · intro l hl
      simpa [failedOn, hfailed] using h.uncovered l hl
  | some range =>
    obtain ⟨first, last⟩ := range
    have hlog : (w.endSync t lsn (some (first, last))).log = w.log ++ [.refused first last] := rfl
    refine ⟨fun l h1 h2 => ?_, h.durable_le, fun l h1 h2 => (h.durable l h1 h2).append _,
      fun u => ?_, fun u _ hu => absurd hu (hleader u), ?_, fun l hl => ?_,
      h.answers.snoc trivial, hasleep⟩
    · simp [hlog, h.appended l h1 h2]
    · rw [hthreads]
      by_cases hu : u = t
      · subst hu
        simp [PhaseSound]
      · simpa [hu] using phase_refused (h.phases u) (hother u hu)
          (w.endSync t lsn (some (first, last))) rfl hlog
    · simpa [GroupWorld.endSync] using hnone
    · have hfailed : (w.endSync t lsn (some (first, last))).failed = w.failed ++ [(first, last)] :=
        rfl
      rw [hlog] at hl
      rcases hl.of_snoc with hl | ⟨f, k, heq, hf, hk, -⟩
      · have := h.uncovered l hl
        simp only [failedOn, hfailed, List.any_append, Bool.or_eq_true]
        exact .inl this
      · cases heq
        simp [failedOn, hfailed, hf, hk]

lemma notifyAll : w.notifyAll.Sound := by
  have hleads : ∀ u, leads (w.notifyAll.threads u) = leads (w.threads u) := by
    intro u
    simp only [GroupWorld.notifyAll]
    cases w.threads u <;> rfl
  refine ⟨h.appended, h.durable_le, h.durable, fun u => ?_, fun u v hu hv => ?_, ?_, h.uncovered,
    h.answers, fun u l hu => ?_⟩
  · have hp := (h.phases u).mono w.notifyAll le_rfl rfl [] (by simp [GroupWorld.notifyAll])
      (by simp)
    simp only [GroupWorld.notifyAll] at hp ⊢
    cases hu : w.threads u <;> rw [hu] at hp <;> exact hp
  · rw [hleads] at hu hv
    exact h.one_leader u v hu hv
  · simp only [hleads]
    exact h.syncing
  · simp only [GroupWorld.notifyAll] at hu
    cases hp : w.threads u <;> simp [hp] at hu

lemma exec (a : GroupAction) {w' : GroupWorld} (hs : w.exec a = some w') : w'.Sound := by
  cases a
  case append =>
    simp only [GroupWorld.exec, Option.ite_none_right_eq_some, Option.some.injEq] at hs
    exact hs.2 ▸ h.append
  case flush ok =>
    cases hs
    exact h.flush ok
  case wait t l =>
    simp only [GroupWorld.exec, Option.ite_none_right_eq_some, Option.some.injEq] at hs
    obtain ⟨⟨ht, h1, h2⟩, rfl⟩ := hs
    exact h.setPhase (p := .waiting l) ⟨h1, h2⟩ (by simp [ht, leads]) (by simp) (by simp [ht])
  -- The other actions are those of a thread that stands where they say.
  all_goals
    rename ThreadId => t
    have hp := h.phases t
    cases ht : w.threads t <;> rw [ht] at hp <;> simp only [GroupWorld.exec, ht] at hs
  case check.waiting l =>
    cases hs
    obtain ⟨h1, h2⟩ := hp
    have hlead : leads (w.threads t) = false := by rw [ht]; rfl
    unfold check
    split
    · exact h.answer hlead (by simp [ht]) trivial
    · rename_i hf
      split
      · rename_i hd
        refine h.answer hlead (by simp [ht]) ⟨h.durable l h1 hd, fun hl => hf (h.uncovered l hl)⟩
      · split
        · rename_i hsync
          exact h.setPhase (p := .parked l) ⟨h1, h2⟩ hlead.symm (fun _ _ => hsync) (by simp [ht])
        · rename_i hsync
          exact h.elect (by simpa using hsync) hlead (by simp [ht]) h1 h2 (by simpa using hf)
  case wake.parked l =>
    cases hs
    exact h.setPhase (p := .waiting l) hp (by simp [ht, leads]) (by simp) (by simp [ht])
  case aim.leading l =>
    cases hs
    exact h.setPhase ⟨hp.1, hp.2.1, le_rfl, hp.2.2⟩ (by simp [ht, leads]) (by simp) (by simp [ht])
  case startSync.aimed l first target =>
    cases hs
    obtain ⟨h1, h2, h3, h4⟩ := hp
    have ht' : w.beginSync.threads t = .aimed l first target := ht
    refine h.beginSync.setPhase ⟨h1, h2, h3, h4, fun k hk hk' => ?_⟩ (by simp [ht', leads])
      (by simp)
      (by simp [ht'])
    exact h.startedAfter_beginSync hk (hk'.trans h3)
  case syncEnds.syncing ok l first target sync =>
    cases hs
    obtain ⟨h1, h2, h3, h4, h5⟩ := hp
    refine (h.record (e := .ended sync ok) (by simp) trivial).setPhase
      ⟨h1, h2, h3, h4, fun hok k hk hk' => ?_⟩ (by simp [ht, leads]) (by simp) (by simp [ht])
    subst hok
    exact (h5 k hk hk').ended
  case note.synced l first target ok =>
    obtain ⟨h1, h2, h3, h4, h5⟩ := hp
    cases ok with
    | false =>
      cases hs
      exact h.setPhase ⟨h4, by simp⟩ (by simp [ht, leads]) (by simp) (by simp [ht])
    | true =>
      cases hs
      have hnoted := h.noteSync h3 (h5 rfl)
      have ht' : (w.noteSync target).threads t = .synced l first target true := by
        unfold GroupWorld.noteSync
        split <;> exact ht
      have hphase : (w.noteSync target).PhaseSound (.ending l none) := by
        unfold GroupWorld.noteSync
        split <;> exact ⟨h4, fun _ => h5 rfl l h1 h2⟩
      exact hnoted.setPhase hphase (by simp [ht', leads]) (by simp) (by simp [ht'])
  case finish.ending l outcome =>
    cases hs
    exact h.endSync ht
  case notify.notifying l outcome =>
    cases hs
    have ht' : w.notifyAll.threads t = .notifying l outcome := by simp [GroupWorld.notifyAll, ht]
    refine h.notifyAll.answer (by simp [ht', leads]) (fun _ u k hu => ?_) ?_
    · simp only [GroupWorld.notifyAll] at hu
      cases hq : w.threads u <;> simp [hq] at hu
    · cases outcome with
      | none => exact hp rfl
      | some range => trivial
  all_goals cases hs

end Sound

end GroupWorld

lemma sound_of_reachable {n : ℕ} {w : GroupWorld} (h : (groupCommit n).Reachable Machine.Any w) :
    w.Sound :=
  h.invariant (P := GroupWorld.Sound) (.opened n) fun _ a _ hs _ hstep => hs.exec a hstep

/-! ### Group commit is safe -/

/-- What a caller of the group commit may rely on. -/
structure GroupWorld.Safe (w : GroupWorld) : Prop where
  /-- Success is answered only after a successful sync that started once the record was in
  the file. -/
  success : ∀ before t lsn after, w.log = before ++ .returned t lsn true :: after →
    CoveredBySync before lsn
  /-- A record no successful sync has covered is answered an error, and so is one a failed group
  sync was to cover while no successful one had. -/
  failure : ∀ before t lsn ok after, w.log = before ++ .returned t lsn ok :: after →
    (¬ CoveredBySync before lsn ∨ LeftUncovered before lsn) → ok = false
  durable : ∀ lsn, 1 ≤ lsn → lsn ≤ w.durableLsn → CoveredBySync w.log lsn
  /-- Nobody sleeps unless a thread that will wake everybody is at work. -/
  asleep : ∀ t lsn, w.threads t = .parked lsn → ∃ u, GroupWorld.leads (w.threads u) = true ∨
    ∃ k outcome, w.threads u = .notifying k outcome

/-- In every state of every interleaving the group commit is safe. -/
theorem group_commit_is_safe {n : ℕ} {w : GroupWorld}
    (h : (groupCommit n).Reachable Machine.Any w) : w.Safe := by
  have hs := sound_of_reachable h
  refine ⟨fun before t lsn after heq => (hs.answers _ _ _ heq).1,
    fun before t lsn ok after heq hcov => ?_, hs.durable, hs.asleep⟩
  cases ok with
  | false => rfl
  | true =>
    obtain ⟨hyes, hno⟩ := hs.answers _ _ _ heq
    rcases hcov with hcov | hcov
    · exact absurd hyes hcov
    · exact absurd hcov hno

/-- Thread 1 leads a sync that fails for records 1 and 2, thread 3 one that succeeds. -/
def failureThenSuccess : List GroupAction :=
  [.append, .append, .wait 1 1, .wait 2 2, .check 1, .check 2, .aim 1, .startSync 1,
    .syncEnds 1 false, .note 1, .finish 1, .append, .wait 3 3, .check 3, .aim 3, .startSync 3,
    .syncEnds 3 true, .note 3, .finish 3, .notify 1, .notify 3, .check 2]

/-- In that run thread 2 gets an error although the later sync covered its record. -/
theorem failureThenSuccess_is_safe : ∃ w, (groupCommit 0).Reachable Machine.Any w ∧
    (w.durableLsn = 3 ∧ SyncEvent.returned 2 2 false ∈ w.log ∧
      SyncEvent.returned 3 3 true ∈ w.log) ∧ w.Safe := by
  obtain ⟨w, hw, hp⟩ := (groupCommit 0).exists_reachable (fun _ _ => true) failureThenSuccess
    (fun w => decide (w.durableLsn = 3 ∧ SyncEvent.returned 2 2 false ∈ w.log ∧
      SyncEvent.returned 3 3 true ∈ w.log)) (fun _ _ _ => trivial) (by decide +kernel)
  exact ⟨w, hw, of_decide_eq_true hp, group_commit_is_safe hw⟩

end VaubanDB
