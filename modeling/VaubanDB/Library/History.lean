import Mathlib.Tactic

/-!
Histories: what happened, as a list of events with the oldest first.

A machine that keeps a history extends it at its end.  `Justified P log` says that each event
of the history had `P` at the moment it happened, `P` being about the history before the event
and the event itself; it is kept by appending an event that has `P` now (`Justified.snoc`).
-/

variable {ε : Type}

/-- Every event of the history satisfied `P` when it happened. -/
def Justified (P : List ε → ε → Prop) (log : List ε) : Prop :=
  ∀ before e after, log = before ++ e :: after → P before e

namespace Justified

variable {P : List ε → ε → Prop} {log : List ε} {e : ε}

lemma nil : Justified P [] := by
  intro before e after h
  simp at h

lemma snoc (h : Justified P log) (he : P log e) : Justified P (log ++ [e]) := by
  intro before e' after heq
  rcases List.eq_nil_or_concat after with rfl | ⟨after, last, rfl⟩
  · obtain ⟨rfl, hlast⟩ := List.append_inj' heq rfl
    cases hlast
    exact he
  · have heq' : log ++ [e] = (before ++ e' :: after) ++ [last] := by simpa using heq
    obtain ⟨rfl, -⟩ := List.append_inj' heq' rfl
    exact h before e' after rfl

end Justified
