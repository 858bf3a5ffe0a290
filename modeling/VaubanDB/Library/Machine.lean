import Mathlib.Tactic

/-!
Machines that take one action after another.

`Machine σ α` has an initial state and a partial function that says what an action makes of a
state.  What a machine leaves open (a schedule, a choice, a failure) is part of the action.
`Reachable ok` are the states of the runs whose actions all satisfy `ok`; a fact about them is
proved by `Reachable.invariant`, and a concrete state is reached by evaluating its run
(`reachable_of_run`).
-/

/-- A machine: its initial state, and the state an action leads to, if it can be taken. -/
structure Machine (σ α : Type) where
  init : σ
  exec : σ → α → Option σ

namespace Machine

variable {σ α : Type} {M : Machine σ α} {ok ok' : σ → α → Prop} {s s' : σ}

/-- The states of the runs whose actions all satisfy `ok`. -/
inductive Reachable (M : Machine σ α) (ok : σ → α → Prop) : σ → Prop
  | start : Reachable M ok M.init
  | next {s s' : σ} {a : α} (h : Reachable M ok s) (ha : ok s a) (hs : M.exec s a = some s') :
      Reachable M ok s'

/-- The machine that goes on from a state. -/
def after (M : Machine σ α) (s : σ) : Machine σ α := { M with init := s }

def Any (_ : σ) (_ : α) : Prop := True

/-- What holds at the start and is kept by every action holds in every reachable state. -/
theorem Reachable.invariant {P : σ → Prop} (h : M.Reachable ok s) (hinit : P M.init)
    (hstep : ∀ s a s', P s → ok s a → M.exec s a = some s' → P s') : P s := by
  induction h with
  | start => exact hinit
  | next _ ha hs ih => exact hstep _ _ _ ih ha hs

lemma Reachable.mono (h : M.Reachable ok s) (hok : ∀ s a, ok s a → ok' s a) : M.Reachable ok' s :=
  h.invariant .start fun _ _ _ hs ha hstep => .next hs (hok _ _ ha) hstep

/-- The state a list of actions leads to, if each can be taken and satisfies `ok`. -/
def run (M : Machine σ α) (ok : σ → α → Bool) : σ → List α → Option σ
  | s, [] => some s
  | s, a :: as => if ok s a then (M.exec s a).bind fun s' => M.run ok s' as else none

lemma exists_reachable (M : Machine σ α) (b : σ → α → Bool) (as : List α) (p : σ → Bool)
    (hok : ∀ s a, b s a = true → ok s a) (h : (M.run b M.init as).any p = true) :
    ∃ s, M.Reachable ok s ∧ p s = true := by
  suffices hrun : ∀ (as : List α) (t : σ), M.Reachable ok t → (M.run b t as).any p = true →
      ∃ s, M.Reachable ok s ∧ p s = true from hrun as M.init .start h
  intro as
  induction as with
  | nil =>
    intro t ht hp
    exact ⟨t, ht, hp⟩
  | cons a as ih =>
    intro t ht hp
    simp only [run] at hp
    split at hp
    · rename_i ha
      cases hs : M.exec t a with
      | none => simp [hs] at hp
      | some t' =>
        rw [hs] at hp
        exact ih t' (ht.next (hok t a ha) hs) hp
    · simp at hp

end Machine
