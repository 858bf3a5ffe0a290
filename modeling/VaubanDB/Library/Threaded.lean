import Mathlib.Tactic

/-!
Lists threaded through a store: each cell names the next one.

`link a` is what the cell `a` says: nothing when `a` is not a cell of such a list, else the
next cell or the end.  `Threaded link head l` says that following the links from `head` reads
exactly the cells `l` and then the end.
-/

variable {α : Type} {link link' : α → Option (Option α)} {head : Option α} {a : α} {l : List α}

/-- Following the links from `head` reads the cells `l`, then the end. -/
def Threaded (link : α → Option (Option α)) : Option α → List α → Prop
  | none, [] => True
  | some a, b :: l => a = b ∧ ∃ next, link a = some next ∧ Threaded link next l
  | _, _ => False

namespace Threaded

@[simp] lemma nil : Threaded link none [] := trivial

lemma cons (ha : link a = some head) (h : Threaded link head l) : Threaded link (some a) (a :: l) :=
  ⟨rfl, head, ha, h⟩

lemma uncons (h : Threaded link (some a) l) :
    ∃ next rest, l = a :: rest ∧ link a = some next ∧ Threaded link next rest := by
  cases l with
  | nil => exact h.elim
  | cons b l =>
    obtain ⟨rfl, next, ha, h⟩ := h
    exact ⟨next, l, rfl, ha, h⟩

lemma of_cons (h : Threaded link head (a :: l)) :
    head = some a ∧ ∃ next, link a = some next ∧ Threaded link next l := by
  cases head with
  | none => exact h.elim
  | some b =>
    obtain ⟨rfl, next, ha, h⟩ := h
    exact ⟨rfl, next, ha, h⟩

lemma head_mem (h : Threaded link (some a) l) : a ∈ l := by
  obtain ⟨next, rest, rfl, -⟩ := h.uncons
  simp

lemma congr (h : Threaded link head l) (heq : ∀ a ∈ l, link' a = link a) :
    Threaded link' head l := by
  induction l generalizing head with
  | nil =>
    cases head with
    | none => trivial
    | some a => exact h.elim
  | cons b l ih =>
    cases head with
    | none => exact h.elim
    | some a =>
      obtain ⟨rfl, next, ha, h⟩ := h
      refine ⟨rfl, next, ?_, ih h fun c hc => heq c (by simp [hc])⟩
      rw [heq a (by simp), ha]

lemma link_of_mem (h : Threaded link head l) (ha : a ∈ l) : ∃ next, link a = some next := by
  induction l generalizing head with
  | nil => cases ha
  | cons b l ih =>
    cases head with
    | none => exact h.elim
    | some c =>
      obtain ⟨rfl, next, hc, h⟩ := h
      rcases List.mem_cons.mp ha with rfl | ha
      · exact ⟨next, hc⟩
      · exact ih h ha

end Threaded
