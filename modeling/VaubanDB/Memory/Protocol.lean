import VaubanDB.Memory.Registry

/-!
The storage under the protocol of its contract (`vauban-storage/src/storage.rs`).

Identifiers are handed out in order, the open transactions are listed, and a snapshot counts as
active the transactions in progress when it is taken: a transaction leaves the list with the call
that ends it.  A `World` is the storage, its history and the list.  What a snapshot counts as
settled is fixed when it is taken (`World.settled`): its own transaction, and those that had
committed.  The manager of `vauban-txn` builds its snapshots the same way (`Manager.snapshotFor`)
and removes a transaction in a later section than the commit of the storage: that is `Listing` for
the unique keys, and `TxnSystem` for whole sessions.
-/

namespace VaubanDB

open MemoryStorage List

/-! ### The list of the open transactions -/

/-- The identifiers handed out and the transactions that are open. -/
structure Manager where
  nextId : TxnId
  opened : List TxnId
  deriving DecidableEq, Repr

variable {own : TxnId}

namespace Manager

def initial : Manager := ⟨1, []⟩

variable (m : Manager)

def begin : Manager := ⟨m.nextId + 1, m.opened ++ [m.nextId]⟩

def close (id : TxnId) : Manager := { m with opened := m.opened.filter fun t => t != id }

def oldestOpen : Option TxnId := m.opened.min?

def snapshotFor (own : TxnId) : Snapshot :=
  { xmin := m.oldestOpen.getD m.nextId
    xmax := m.nextId
    active := m.opened.filter fun id => id != own
    own := own }

/-- The calls that end a transaction close it. -/
def after : Call → Manager
  | .commit t | .rollback t => m.close t
  | _ => m

lemma not_opened_of_lt_xmin {x : TxnId} (h : x < (m.snapshotFor own).xmin) : x ∉ m.opened := by
  intro hx
  obtain ⟨y, hy⟩ : ∃ y, m.opened.min? = some y := by
    cases hmin : m.opened.min? with
    | none =>
      rw [min?_eq_none_iff] at hmin
      rw [hmin] at hx
      cases hx
    | some y => exact ⟨y, rfl⟩
  have hle := ((min?_eq_some_iff).mp hy).2 x hx
  rw [snapshotFor, oldestOpen, hy] at h
  exact absurd h (not_lt.mpr hle)

end Manager

/-! ### Runs -/

/-- The storage, its history and its manager. -/
structure World where
  site : Site
  manager : Manager

/-- What happens in a run: a transaction begins, or a call of the storage is made. -/
inductive Event where
  | begin
  | call (c : Call)

namespace World

variable {allowed : Inner → Call → Prop} {w : World} {x : TxnId}

abbrev inner (w : World) : Inner := w.site.inner

abbrev committed (w : World) : Set TxnId := w.site.history.committed

def initial : World := ⟨.initial, .initial⟩

def after (w : World) : Event → World
  | .begin => ⟨w.site, w.manager.begin⟩
  | .call c => ⟨w.site.after c, w.manager.after c⟩

/-- An event may happen: the transaction of a call is open, and the call is an allowed one. -/
def May (allowed : Inner → Call → Prop) (w : World) : Event → Prop
  | .begin => True
  | .call c => (∀ t, c.txn? = some t → t ∈ w.manager.opened) ∧ allowed w.inner c

inductive Step (allowed : Inner → Call → Prop) (w : World) : World → Prop
  | event (e : Event) (h : w.May allowed e) : Step allowed w (w.after e)

def Leads (allowed : Inner → Call → Prop) (w w' : World) : Prop :=
  Relation.ReflTransGen (Step allowed) w w'

/-- The worlds that allowed events reach from the empty storage. -/
def Reachable (allowed : Inner → Call → Prop) (w : World) : Prop := initial.Leads allowed w

variable {w' : World}

lemma Leads.induction {P : World → Prop} (hw : P w)
    (hstep : ∀ w e, P w → w.May allowed e → P (w.after e)) (h : w.Leads allowed w') : P w' := by
  induction h with
  | refl => exact hw
  | tail _ hs ih =>
    cases hs with
    | event e he => exact hstep _ e ih he

/-- The events may follow one another from `w`. -/
def Runs (allowed : Inner → Call → Prop) (w : World) : List Event → Prop
  | [] => True
  | e :: es => w.May allowed e ∧ (w.after e).Runs allowed es

instance instDecidableRuns [∀ s c, Decidable (allowed s c)] (w : World) : (es : List Event) →
    Decidable (w.Runs allowed es)
  | [] => .isTrue trivial
  | .begin :: es =>
    have := instDecidableRuns (w.after .begin) es
    inferInstanceAs (Decidable (True ∧ (w.after .begin).Runs allowed es))
  | .call c :: es =>
    have := instDecidableRuns (w.after (.call c)) es
    have : Decidable (∀ t, c.txn? = some t → t ∈ w.manager.opened) :=
      decidable_of_iff (c.txn?.all fun t => decide (t ∈ w.manager.opened)) (by
        simp [Option.all_eq_true])
    inferInstanceAs (Decidable (((∀ t, c.txn? = some t → t ∈ w.manager.opened) ∧
      allowed w.inner c) ∧ (w.after (.call c)).Runs allowed es))

def run (w : World) (events : List Event) : World := events.foldl after w

lemma Leads.run {events : List Event} (h : w.Runs allowed events) :
    w.Leads allowed (w.run events) := by
  induction events generalizing w with
  | nil => exact .refl
  | cons e es ih => exact .head (.event e h.1) (ih h.2)

lemma Leads.mono {allowed' : Inner → Call → Prop}
    (h : ∀ s c, allowed s c → allowed' s c) (hl : w.Leads allowed w') : w.Leads allowed' w' := by
  refine Relation.ReflTransGen.mono ?_ _ _ hl
  rintro a b ⟨e, he⟩
  refine .event e ?_
  cases e with
  | begin => exact he
  | call c => exact ⟨he.1, h _ c he.2⟩

/-! ### Identifiers -/

/-- The open transactions have not ended, and every identifier in use is below the next one. -/
structure Ordered (w : World) : Prop where
  opened_lt : ∀ x ∈ w.manager.opened, x < w.manager.nextId
  opened_live : ∀ x ∈ w.manager.opened, x ∉ w.site.history.ended
  ended_lt : ∀ x ∈ w.site.history.ended, x < w.manager.nextId

variable {c : Call}

lemma ended_after {h : History} (hx : x ∈ (h.after c).ended) :
    x ∈ h.ended ∨ c = .commit x ∨ c = .rollback x := by
  cases c <;> first
    | exact .inl hx
    | exact hx.elim (fun hxt => by simp [hxt]) .inl

lemma committed_after {h : History} (hx : x ∈ (h.after c).committed) :
    x ∈ h.committed ∨ c = .commit x := by
  cases c <;> first
    | exact .inl hx
    | exact hx.elim (fun hxt => by simp [hxt]) .inl

lemma opened_after {m : Manager} (hx : x ∈ (m.after c).opened) :
    x ∈ m.opened ∧ c ≠ .commit x ∧ c ≠ .rollback x := by
  cases c with
  | commit t =>
    obtain ⟨hmem, hne⟩ := mem_filter.mp hx
    exact ⟨hmem, fun h => by simp [Call.commit.inj h] at hne, nofun⟩
  | rollback t =>
    obtain ⟨hmem, hne⟩ := mem_filter.mp hx
    exact ⟨hmem, nofun, fun h => by simp [Call.rollback.inj h] at hne⟩
  | _ => exact ⟨hx, nofun, nofun⟩

lemma nextId_after (m : Manager) (c : Call) : (m.after c).nextId = m.nextId := by
  cases c <;> rfl

lemma Ordered.after (h : w.Ordered) (e : Event) (he : w.May allowed e) : (w.after e).Ordered := by
  cases e with
  | begin =>
    refine ⟨fun x hx => ?_, fun x hx => ?_, fun x hx => ?_⟩
    · rcases mem_append.mp hx with hx | hx
      · exact Nat.lt_succ_of_lt (h.opened_lt x hx)
      · exact mem_singleton.mp hx ▸ Nat.lt_succ_self _
    · rcases mem_append.mp hx with hx | hx
      · exact h.opened_live x hx
      · intro hended
        exact absurd (h.ended_lt x hended) (mem_singleton.mp hx ▸ lt_irrefl _)
    · exact Nat.lt_succ_of_lt (h.ended_lt x hx)
  | call c =>
    refine ⟨fun x hx => ?_, fun x hx hended => ?_, fun x hx => ?_⟩
    · exact (nextId_after w.manager c).symm ▸ h.opened_lt x (opened_after hx).1
    · obtain ⟨hopen, hcommit, hrollback⟩ := opened_after hx
      rcases ended_after hended with hended | hc | hc
      · exact h.opened_live x hopen hended
      · exact hcommit hc
      · exact hrollback hc
    · refine (nextId_after w.manager c).symm ▸ ?_
      rcases ended_after hx with hx | rfl | rfl
      · exact h.ended_lt x hx
      · exact h.opened_lt x (he.1 x rfl)
      · exact h.opened_lt x (he.1 x rfl)

lemma Ordered.initial : World.initial.Ordered := ⟨nofun, nofun, nofun⟩

lemma Reachable.ordered (h : w.Reachable allowed) : w.Ordered :=
  h.induction .initial fun _ e hw he => hw.after e he

lemma Leads.site (hw : w.Ordered) (hr : w.site.Reachable allowed)
    (h : w.Leads allowed w') : w'.Ordered ∧ w'.site.Reachable allowed := by
  refine h.induction (P := fun w => w.Ordered ∧ w.site.Reachable allowed) ⟨hw, hr⟩ ?_
  rintro w e ⟨hw, hr⟩ he
  refine ⟨hw.after e he, ?_⟩
  cases e with
  | begin => exact hr
  | call c => exact hr.tail (.call c (fun t ht => hw.opened_live t (he.1 t ht)) he.2)

lemma Reachable.site (h : w.Reachable allowed) : w.site.Reachable allowed :=
  (Leads.site .initial .refl h).2

/-! ### After a snapshot -/

/-- What has happened to the identifiers since `w₀`. -/
structure Since (w₀ w : World) : Prop where
  nextId_le : w₀.manager.nextId ≤ w.manager.nextId
  opened : ∀ x ∈ w.manager.opened, x ∈ w₀.manager.opened ∨ w₀.manager.nextId ≤ x
  committed : ∀ x ∈ w.committed,
    x ∈ w₀.committed ∨ x ∈ w₀.manager.opened ∨ w₀.manager.nextId ≤ x
  committed_mono : ∀ x ∈ w₀.committed, x ∈ w.committed

lemma Since.refl (w : World) : Since w w :=
  ⟨le_rfl, fun _ => .inl, fun _ => .inl, fun _ => id⟩

variable {w₀ : World}

lemma Since.after (h : Since w₀ w) (e : Event) (he : w.May allowed e) : Since w₀ (w.after e) := by
  cases e with
  | begin =>
    refine ⟨h.nextId_le.trans (Nat.le_succ _), fun x hx => ?_, h.committed, h.committed_mono⟩
    rcases mem_append.mp hx with hx | hx
    · exact h.opened x hx
    · exact .inr (mem_singleton.mp hx ▸ h.nextId_le)
  | call c =>
    refine ⟨(nextId_after w.manager c).symm ▸ h.nextId_le, fun x hx => h.opened x
      (opened_after hx).1, fun x hx => ?_, fun x hx => ?_⟩
    · rcases committed_after hx with hx | rfl
      · exact h.committed x hx
      · exact .inr (h.opened x (he.1 x rfl))
    · have := h.committed_mono x hx
      cases c <;> first
        | exact this
        | exact .inr this

/-- The transactions that count as done for the snapshots of `own` taken in the world. -/
def settled (w : World) (own : TxnId) : Set TxnId := {x | x = own ∨ x ∈ w.committed}

lemma isSettled_of_mem (hord : w₀.Ordered) (hsince : Since w₀ w)
    (hl : Ledger w.inner.txns w.site.history) (hended : ∀ x ∈ w₀.committed,
      x ∈ w₀.site.history.ended) (hx : x ∈ w₀.settled own) :
    (w₀.manager.snapshotFor own).isSettled w.inner.status x = true := by
  rw [Snapshot.isSettled_iff]
  rcases hx with rfl | hx
  · exact .inl rfl
  · refine .inr ⟨hord.ended_lt x (hended x hx), fun hmem => ?_,
      hl.status_of_committed (hsince.committed_mono x hx)⟩
    exact hord.opened_live x (mem_of_mem_filter hmem) (hended x hx)

lemma mem_of_isSettled (hsince : Since w₀ w)
    (htrue : w.inner.status x = .committed → x ∈ w.committed)
    (hx : (w₀.manager.snapshotFor own).isSettled w.inner.status x = true) : x ∈ w₀.settled own := by
  rcases Snapshot.isSettled_iff.mp hx with rfl | ⟨hlt, hactive, hstatus⟩
  · exact .inl rfl
  · rcases hsince.committed x (htrue hstatus) with hc | hopen | hle
    · exact .inr hc
    · by_cases hxo : x = own
      · exact .inl hxo
      · exact absurd (mem_filter.mpr ⟨hopen, by simpa using hxo⟩) hactive
    · exact absurd hlt (not_lt.mpr hle)

lemma notMem_settled (hord : w₀.Ordered)
    (hended : ∀ x ∈ w₀.committed, x ∈ w₀.site.history.ended) (hsince : Since w₀ w)
    (hx : x ∈ w.manager.opened) (hown : x ≠ own) : x ∉ w₀.settled own := by
  rintro (rfl | hc)
  · exact hown rfl
  · rcases hsince.opened x hx with hopen | hle
    · exact hord.opened_live x hopen (hended x hc)
    · exact absurd (hord.ended_lt x (hended x hc)) (not_lt.mpr hle)

lemma Reachable.ended (h : w.Reachable allowed) : ∀ x ∈ w.committed, x ∈ w.site.history.ended :=
  h.site.registry.ledger.ended

end World

end VaubanDB
