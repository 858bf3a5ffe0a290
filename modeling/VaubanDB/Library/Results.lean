import Mathlib.Tactic

/-!
Rules for computations that may fail: inversion (`bind_eq_ok_iff`, `mapM_eq_ok_iff`), and, for
`EStateM ε σ`, whole computations.  `EStateM.Preserves` is an invariant that holds after the
computation whether it succeeds or fails, `EStateM.Achieves` a computation that succeeds and
establishes a postcondition, `EStateM.Ends` a postcondition for each of the two outcomes, each with
its rules for `bind` and for a loop.
-/

lemma List.Forall₂.exists_of_mem_right {α β : Type} {r : α → β → Prop} {l : List α} {m : List β}
    (h : List.Forall₂ r l m) {b : β} (hb : b ∈ m) : ∃ a ∈ l, r a b := by
  induction h with
  | nil => cases hb
  | cons hab _ ih =>
    rcases mem_cons.mp hb with rfl | hb
    · exact ⟨_, by simp, hab⟩
    · obtain ⟨a, ha, hr⟩ := ih hb
      exact ⟨a, by simp [ha], hr⟩

namespace Except

variable {ε α β : Type}

lemma bind_eq_ok_iff {x : Except ε α} {f : α → Except ε β} {b : β} :
    (x >>= f) = .ok b ↔ ∃ a, x = .ok a ∧ f a = .ok b := by
  cases x <;> simp [bind, Except.bind]

lemma bind_eq_error_iff {x : Except ε α} {f : α → Except ε β} {e : ε} :
    (x >>= f) = .error e ↔ x = .error e ∨ ∃ a, x = .ok a ∧ f a = .error e := by
  cases x <;> simp [bind, Except.bind]

lemma map_eq_ok_iff {x : Except ε α} {f : α → β} {b : β} :
    x.map f = .ok b ↔ ∃ a, x = .ok a ∧ f a = b := by
  cases x <;> simp [Except.map]

lemma mapM_eq_ok_iff {f : α → Except ε β} {l : List α} {ys : List β} :
    l.mapM f = .ok ys ↔ List.Forall₂ (fun x y => f x = .ok y) l ys := by
  induction l generalizing ys with
  | nil =>
    rw [List.mapM_nil, List.forall₂_nil_left_iff]
    simp [pure, Except.pure, eq_comm]
  | cons x l ih =>
    rw [List.mapM_cons]
    constructor
    · intro h
      obtain ⟨y, hy, h⟩ := bind_eq_ok_iff.mp h
      obtain ⟨ys', hys, h⟩ := bind_eq_ok_iff.mp h
      cases h
      exact .cons hy (ih.mp hys)
    · intro h
      cases h with
      | cons hy hys => simp [hy, ih.mpr hys, bind, Except.bind, pure, Except.pure]

lemma mapM_eq_error {f : α → Except ε β} {l : List α} {e : ε} (h : l.mapM f = .error e) :
    ∃ x ∈ l, f x = .error e := by
  induction l with
  | nil => simp [pure, Except.pure] at h
  | cons x l ih =>
    rw [List.mapM_cons] at h
    rcases bind_eq_error_iff.mp h with h | ⟨y, _, h⟩
    · exact ⟨x, by simp, h⟩
    · rcases bind_eq_error_iff.mp h with h | ⟨ys, _, h⟩
      · obtain ⟨z, hz, hf⟩ := ih h
        exact ⟨z, by simp [hz], hf⟩
      · cases h

end Except

namespace EStateM

variable {ε σ α β : Type} {f : α → EStateM ε σ β}

/-- The state a computation leaves, whether it succeeds or fails. -/
def Result.state : Result ε σ α → σ
  | .ok _ s => s
  | .error _ s => s

@[simp] lemma Result.state_ok (a : α) (s : σ) : (.ok a s : Result ε σ α).state = s := rfl

def liftExcept (x : Except ε α) : EStateM ε σ α :=
  match x with
  | .ok a => pure a
  | .error e => throw e

instance instMonadLiftExcept : MonadLift (Except ε) (EStateM ε σ) := ⟨liftExcept⟩

@[simp] lemma pure_apply (a : α) (s : σ) : (pure a : EStateM ε σ α) s = .ok a s := rfl

@[simp] lemma set_apply (s s' : σ) : (set s' : EStateM ε σ PUnit) s = .ok ⟨⟩ s' := rfl

@[simp] lemma modify_apply (f : σ → σ) (s : σ) :
    (modify f : EStateM ε σ PUnit) s = .ok ⟨⟩ (f s) := rfl

@[simp] lemma throw_apply (e : ε) (s : σ) : (throw e : EStateM ε σ α) s = .error e s := rfl

@[simp] lemma modify_bind_apply (g : σ → σ) (f : PUnit → EStateM ε σ β) (s : σ) :
    (modify g >>= f) s = f ⟨⟩ (g s) := rfl

@[simp] lemma liftExcept_ok (a : α) (s : σ) :
    (liftExcept (.ok a) : EStateM ε σ α) s = .ok a s := rfl

@[simp] lemma liftExcept_error (e : ε) (s : σ) :
    (liftExcept (.error e) : EStateM ε σ α) s = .error e s := rfl

variable {x : EStateM ε σ α} {s' s : σ}

lemma bind_of_ok {a : α} (h : x s = .ok a s') : (x >>= f) s = f a s' := by
  simp only [bind, EStateM.bind, h]

lemma bind_of_error {e : ε} (h : x s = .error e s') : (x >>= f) s = .error e s' := by
  simp only [bind, EStateM.bind, h]

@[simp] lemma get_bind_apply (f : σ → EStateM ε σ β) (s : σ) : (get >>= f) s = f s s := rfl

@[simp] lemma set_bind_apply (f : PUnit → EStateM ε σ β) (s s' : σ) :
    (set s' >>= f) s = f ⟨⟩ s' := rfl

@[simp] lemma liftExcept_ok_bind_apply (a : α) (f : α → EStateM ε σ β) (s : σ) :
    (liftExcept (.ok a) >>= f) s = f a s := rfl

lemma liftExcept_eq_error_iff {x : Except ε α} {e : ε} :
    (liftExcept x : EStateM ε σ α) s = .error e s' ↔ x = .error e ∧ s' = s := by
  cases x with
  | error e => simp [eq_comm]
  | ok b => simp

lemma bind_eq_ok_iff {s'' : σ} {b : β} :
    (x >>= f) s = .ok b s'' ↔ ∃ a s', x s = .ok a s' ∧ f a s' = .ok b s'' := by
  simp only [bind, EStateM.bind]
  cases x s <;> simp

/-! ### Invariants -/

/-- The computation keeps `P`, whether it succeeds or fails. -/
def Preserves (P : σ → Prop) (m : EStateM ε σ α) : Prop := ∀ s, P s → P (m s).state

namespace Preserves

variable {P : σ → Prop}

lemma pure (a : α) : Preserves P (Pure.pure a : EStateM ε σ α) := fun _ h => h

lemma bind {f : α → EStateM ε σ β} (hx : Preserves P x)
    (hf : ∀ a, Preserves P (f a)) : Preserves P (x >>= f) := by
  intro s h
  have h' := hx s h
  simp only [Bind.bind, EStateM.bind]
  cases hxs : x s with
  | ok a s' =>
    rw [hxs] at h'
    exact hf a s' h'
  | error e s' =>
    rw [hxs] at h'
    exact h'

lemma forM {l : List β} {f : β → EStateM ε σ PUnit} (hf : ∀ x ∈ l, Preserves P (f x)) :
    Preserves P (l.forM f) := by
  induction l with
  | nil => exact pure _
  | cons x l ih => exact bind (hf x (by simp)) fun _ => ih fun y hy => hf y (by simp [hy])

end Preserves

/-! ### Postconditions -/

/-- From a state that satisfies `P` the computation succeeds, in a state that satisfies `Q`. -/
def Achieves (P : σ → Prop) (m : EStateM ε σ α) (Q : α → σ → Prop) : Prop :=
  ∀ s, P s → ∃ a s', m s = .ok a s' ∧ Q a s'

namespace Achieves

variable {P : σ → Prop}

lemma bind {f : α → EStateM ε σ β} {Q : α → σ → Prop} {R : β → σ → Prop}
    (hx : Achieves P x Q) (hf : ∀ a, Achieves (Q a) (f a) R) : Achieves P (x >>= f) R := by
  intro s h
  obtain ⟨a, s', hxs, hq⟩ := hx s h
  obtain ⟨b, s'', hfs, hr⟩ := hf a s' hq
  exact ⟨b, s'', bind_eq_ok_iff.mpr ⟨a, s', hxs, hfs⟩, hr⟩

lemma forM {f : β → EStateM ε σ PUnit} (I : List β → σ → Prop)
    (hf : ∀ x l, Achieves (I (x :: l)) (f x) fun _ => I l) (l : List β) :
    Achieves (I l) (l.forM f) fun _ => I [] := by
  induction l with
  | nil => exact fun s h => ⟨⟨⟩, s, rfl, h⟩
  | cons x l ih => exact bind (hf x l) fun _ => ih

end Achieves

/-! ### Both outcomes -/

/-- From the state `s` the computation ends in `Q` if it succeeds, and in `E` if it fails. -/
def Ends (s : σ) (m : EStateM ε σ α) (Q : α → σ → Prop) (E : σ → Prop) : Prop :=
  match m s with
  | .ok a s' => Q a s'
  | .error _ s' => E s'

section Ends

variable {s : σ} {Q Q' : α → σ → Prop} {E E' : σ → Prop} {m : EStateM ε σ α}

@[simp] lemma ends_pure {a : α} : Ends s (pure a : EStateM ε σ α) Q E ↔ Q a s := Iff.rfl

@[simp] lemma ends_throw {e : ε} : Ends s (throw e : EStateM ε σ α) Q E ↔ E s := Iff.rfl

@[simp] lemma ends_get_bind {f : σ → EStateM ε σ α} :
    Ends s (get >>= f) Q E ↔ Ends s (f s) Q E := Iff.rfl

variable {f : β → EStateM ε σ α}

@[simp] lemma ends_set_bind {f : PUnit → EStateM ε σ α} :
    Ends s (set s' >>= f) Q E ↔ Ends s' (f ⟨⟩) Q E := Iff.rfl

@[simp] lemma ends_modify_bind {g : σ → σ} {f : PUnit → EStateM ε σ α} :
    Ends s (modify g >>= f) Q E ↔ Ends (g s) (f ⟨⟩) Q E := Iff.rfl

@[simp] lemma ends_lift_ok_bind {b : β} :
    Ends s ((liftM (Except.ok b : Except ε β) : EStateM ε σ β) >>= f) Q E ↔ Ends s (f b) Q E :=
  Iff.rfl

lemma Ends.lift_bind {x : Except ε β} (hE : E s) (h : ∀ b, x = .ok b → Ends s (f b) Q E) :
    Ends s ((liftM x : EStateM ε σ β) >>= f) Q E := by
  cases x with
  | ok b => exact h b rfl
  | error e => exact hE

lemma ends_bind {x : EStateM ε σ β} :
    Ends s (x >>= f) Q E ↔ Ends s x (fun b s' => Ends s' (f b) Q E) E := by
  simp only [Ends, bind, EStateM.bind]
  cases x s <;> rfl

lemma ends_bind_of_ok {x : EStateM ε σ β} {b : β}
    (h : x s = .ok b s') : Ends s (x >>= f) Q E ↔ Ends s' (f b) Q E := by
  rw [ends_bind]
  unfold Ends
  rw [h]

lemma Ends.of_ok {a : α} (h : m s = .ok a s') (hQ : Q a s') : Ends s m Q E := by
  unfold Ends
  rwa [h]

lemma Ends.mono (h : Ends s m Q E) (hQ : ∀ a s', Q a s' → Q' a s') (hE : ∀ s', E s' → E' s') :
    Ends s m Q' E' := by
  unfold Ends at h ⊢
  split at h
  · exact hQ _ _ h
  · exact hE _ h

lemma Ends.forM {I : σ → Prop} {f : β → EStateM ε σ PUnit} {l : List β}
    (hf : ∀ x ∈ l, ∀ s, I s → Ends s (f x) (fun _ => I) E) (hs : I s) :
    Ends s (l.forM f) (fun _ => I) E := by
  induction l generalizing s with
  | nil => exact hs
  | cons x l ih =>
    refine ends_bind.mpr ((hf x (by simp) s hs).mono (fun _ s' hs' => ?_) fun _ h => h)
    exact ih (fun y hy => hf y (by simp [hy])) hs'

lemma Ends.state {R : σ → Prop} (h : Ends s m (fun _ => R) R) : R (m s).state := by
  unfold Ends at h
  split at h <;> rename_i heq <;> rw [heq] <;> exact h

end Ends

end EStateM
