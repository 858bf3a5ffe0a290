import Mathlib.Tactic

/-!
Comparators that may refuse a pair.

A program that compares values of unknown families answers an error on some pairs, so its order is
only known along the pairs it has compared.  `LawfulCmp` is what is left of a total preorder there:
an answer can be read the other way round, and two answers that go the same way compose.  `lexCmp`
compares two lists column by column, over the shorter one.
-/

/-- A comparator whose answers can be swapped and composed. -/
structure LawfulCmp {ε α : Type} (cmp : α → α → Except ε Ordering) : Prop where
  swap : ∀ {a b o}, cmp a b = .ok o → cmp b a = .ok o.swap
  trans : ∀ {a b c o₁ o₂}, cmp a b = .ok o₁ → cmp b c = .ok o₂ → o₁ ≠ .gt → o₂ ≠ .gt →
    cmp a c = .ok (o₁.then o₂)

variable {o : Ordering}

namespace LawfulCmp

variable {ε α β : Type} {cmp : α → α → Except ε Ordering}

def reverse (cmp : α → α → Except ε Ordering) (a b : α) : Except ε Ordering :=
  (cmp a b).map Ordering.swap

lemma reverse_eq_ok {a b : α} : reverse cmp a b = .ok o ↔ cmp a b = .ok o.swap := by
  rw [reverse]
  cases cmp a b with
  | error e => simp [Except.map]
  | ok p => cases p <;> cases o <;> simp [Except.map, Ordering.swap]

lemma reversed (h : LawfulCmp cmp) : LawfulCmp (reverse cmp) where
  swap := by
    intro a b o hab
    rw [reverse_eq_ok] at hab ⊢
    exact h.swap hab
  trans := by
    intro a b c o₁ o₂ hab hbc h₁ h₂
    rw [reverse_eq_ok] at hab hbc ⊢
    have hca := h.trans (h.swap hbc) (h.swap hab) (by simpa using h₂) (by simpa using h₁)
    have hac := h.swap hca
    rw [hac]
    cases o₁ <;> cases o₂ <;> simp_all [Ordering.then, Ordering.swap]

end LawfulCmp

/-! ### Lists compared column by column -/

/-- Compares two lists column by column, over the columns both have: the first difference decides.
-/
def lexCmp {ε α : Type} : List (α → α → Except ε Ordering) → List α → List α →
    Except ε Ordering
  | c :: cs, x :: xs, y :: ys =>
    match c x y with
    | .error e => .error e
    | .ok .eq => lexCmp cs xs ys
    | .ok o => .ok o
  | _, _, _ => .ok .eq

section Lexicographic

variable {ε α : Type} {cs : List (α → α → Except ε Ordering)} {xs ys : List α}

variable (h : ∀ c ∈ cs, LawfulCmp c)
include h

lemma lexCmp_swap (hxy : lexCmp cs xs ys = .ok o) : lexCmp cs ys xs = .ok o.swap := by
  fun_induction lexCmp cs xs ys with
  | case1 => cases hxy
  | case2 c cs x xs y ys hc ih =>
    rw [lexCmp, (h c (by simp)).swap hc]
    exact ih (fun d hd => h d (by simp [hd])) hxy
  | case3 c cs x xs y ys p hp hc =>
    cases hxy
    rw [lexCmp, (h c (by simp)).swap hc]
    cases o with
    | eq => exact absurd rfl hp
    | lt | gt => rfl
  | case4 cs xs ys hshort =>
    cases hxy
    rw [lexCmp]
    · rfl
    · exact fun c cs' y ys' x xs' hcs hy hx => hshort c cs' x xs' y ys' hcs hx hy

variable {o₂ o₁ : Ordering}

lemma lexCmp_trans {zs : List α}
    (hxy : xs.length = ys.length) (hyz : ys.length = zs.length) (h₁ : lexCmp cs xs ys = .ok o₁)
    (h₂ : lexCmp cs ys zs = .ok o₂) (ho₁ : o₁ ≠ .gt) (ho₂ : o₂ ≠ .gt) :
    lexCmp cs xs zs = .ok (o₁.then o₂) := by
  induction cs generalizing xs ys zs with
  | nil =>
    simp only [lexCmp, Except.ok.injEq] at h₁ h₂ ⊢
    subst h₁ h₂
    rfl
  | cons c cs ih =>
    match xs, ys, zs, hxy, hyz with
    | [], [], [], _, _ =>
      simp only [lexCmp, Except.ok.injEq] at h₁ h₂ ⊢
      subst h₁ h₂
      rfl
    | x :: xs, y :: ys, z :: zs, hxy, hyz =>
      have hc := h c (by simp)
      simp only [lexCmp] at h₁ h₂ ⊢
      rcases hcxy : c x y with e | p
      · simp [hcxy] at h₁
      rcases hcyz : c y z with e | q
      · simp [hcyz] at h₂
      have hp : p ≠ .gt := by
        rintro rfl
        simp only [hcxy, Except.ok.injEq] at h₁
        exact ho₁ h₁.symm
      have hq : q ≠ .gt := by
        rintro rfl
        simp only [hcyz, Except.ok.injEq] at h₂
        exact ho₂ h₂.symm
      rw [hc.trans hcxy hcyz hp hq]
      cases p with
      | gt => exact absurd rfl hp
      | lt =>
        simp only [hcxy, Except.ok.injEq] at h₁
        subst h₁
        rfl
      | eq =>
        simp only [hcxy] at h₁
        cases q with
        | gt => exact absurd rfl hq
        | lt =>
          simp only [hcyz, Except.ok.injEq] at h₂
          subst h₂
          cases o₁ with
          | gt => exact absurd rfl ho₁
          | lt => rfl
          | eq => rfl
        | eq =>
          simp only [hcyz] at h₂
          exact ih (fun d hd => h d (by simp [hd]))
            (by simpa using hxy) (by simpa using hyz) h₁ h₂

omit h in
lemma lexCmp_take (cs : List (α → α → Except ε Ordering)) (xs ys : List α) :
    lexCmp cs xs ys = lexCmp cs (xs.take ys.length) ys := by
  induction cs generalizing xs ys with
  | nil => simp [lexCmp]
  | cons c cs ih =>
    cases xs with
    | nil => simp
    | cons x xs =>
      cases ys with
      | nil => simp [lexCmp]
      | cons y ys =>
        simp only [List.length_cons, List.take_succ_cons, lexCmp]
        rw [ih xs ys]

omit h in
lemma lexCmp_take_le (n : ℕ) (hxy : lexCmp cs xs ys = .ok o) (ho : o ≠ .gt) :
    ∃ o', lexCmp cs (xs.take n) (ys.take n) = .ok o' ∧ o' ≠ .gt := by
  induction cs generalizing xs ys n with
  | nil => exact ⟨.eq, by simp [lexCmp], by decide⟩
  | cons c cs ih =>
    match xs, ys, n with
    | [], _, _ => exact ⟨.eq, by simp [lexCmp], by decide⟩
    | _ :: _, [], _ => exact ⟨.eq, by simp [lexCmp], by decide⟩
    | _ :: _, _ :: _, 0 => exact ⟨.eq, by simp [lexCmp], by decide⟩
    | x :: xs, y :: ys, n + 1 =>
      simp only [List.take_succ_cons, lexCmp] at hxy ⊢
      rcases hc : c x y with e | p
      · simp [hc] at hxy
      cases p with
      | lt => exact ⟨.lt, rfl, by decide⟩
      | gt =>
        simp only [hc, Except.ok.injEq] at hxy
        exact absurd hxy.symm ho
      | eq =>
        simp only [hc] at hxy
        exact ih n hxy

lemma lexCmp_le_of_le {ps : List α}
    (hxy : xs.length = ys.length) (hp : ps.length ≤ ys.length) (h₁ : lexCmp cs xs ys = .ok o₁)
    (ho₁ : o₁ ≠ .gt) (h₂ : lexCmp cs ys ps = .ok o₂) (ho₂ : o₂ ≠ .gt) :
    ∃ o, lexCmp cs xs ps = .ok o ∧ o ≠ .gt ∧ (o₂ = .lt → o = .lt) := by
  obtain ⟨o, ho, hne⟩ := lexCmp_take_le ps.length h₁ ho₁
  rw [lexCmp_take] at h₂ ⊢
  have hlen : (xs.take ps.length).length = (ys.take ps.length).length := by simp [hxy]
  have hlen' : (ys.take ps.length).length = ps.length := by simp [hp]
  refine ⟨_, lexCmp_trans h hlen hlen' ho h₂ hne ho₂, ?_⟩
  revert ho₂ hne
  cases o <;> cases o₂ <;> decide

lemma lexCmp_ge_of_ge {ps : List α}
    (hxy : xs.length = ys.length) (hp : ps.length ≤ xs.length) (h₁ : lexCmp cs xs ys = .ok o₁)
    (ho₁ : o₁ ≠ .gt) (h₂ : lexCmp cs xs ps = .ok o₂) (ho₂ : o₂ ≠ .lt) :
    ∃ o, lexCmp cs ys ps = .ok o ∧ o ≠ .lt ∧ (o₂ = .gt → o = .gt) := by
  obtain ⟨o, ho, hne⟩ := lexCmp_take_le ps.length h₁ ho₁
  rw [lexCmp_take] at h₂ ⊢
  have hlen : (xs.take ps.length).length = (ys.take ps.length).length := by simp [hxy]
  have hlen' : ps.length = (xs.take ps.length).length := by simp [hp]
  have hpy := lexCmp_trans h hlen' hlen (lexCmp_swap h h₂) ho
    (by revert ho₂; cases o₂ <;> decide) hne
  refine ⟨_, lexCmp_swap h hpy, ?_⟩
  revert ho₂ hne
  cases o <;> cases o₂ <;> decide

omit h

lemma lexCmp_self (h : ∀ c ∈ cs, ∀ x ∈ xs, c x x = .ok .eq) : lexCmp cs xs xs = .ok .eq := by
  induction cs generalizing xs with
  | nil => simp [lexCmp]
  | cons c cs ih =>
    cases xs with
    | nil => simp [lexCmp]
    | cons x xs =>
      simp only [lexCmp, h c (by simp) x (by simp)]
      exact ih fun d hd y hy => h d (by simp [hd]) y (by simp [hy])

lemma lexCmp_total (h : ∀ (i : ℕ) (c : α → α → Except ε Ordering) (x y : α),
    cs[i]? = some c → xs[i]? = some x → ys[i]? = some y → ∃ o, c x y = .ok o) :
    ∃ o, lexCmp cs xs ys = .ok o := by
  induction cs generalizing xs ys with
  | nil => exact ⟨.eq, by simp [lexCmp]⟩
  | cons c cs ih =>
    match xs, ys with
    | [], _ => exact ⟨.eq, by simp [lexCmp]⟩
    | _ :: _, [] => exact ⟨.eq, by simp [lexCmp]⟩
    | x :: xs, y :: ys =>
      obtain ⟨o, ho⟩ := h 0 c x y rfl rfl rfl
      simp only [lexCmp, ho]
      cases o with
      | lt => exact ⟨.lt, rfl⟩
      | gt => exact ⟨.gt, rfl⟩
      | eq => exact ih fun i d x' y' hd hx hy => h (i + 1) d x' y' hd hx hy

lemma lexCmp_error {e : ε} (h : lexCmp cs xs ys = .error e) :
    ∃ c ∈ cs, ∃ x y, c x y = .error e := by
  fun_induction lexCmp cs xs ys with
  | case1 c cs x xs y ys e' hc =>
    cases h
    exact ⟨c, by simp, x, y, hc⟩
  | case2 c cs x xs y ys hc ih =>
    obtain ⟨d, hd, hex⟩ := ih h
    exact ⟨d, by simp [hd], hex⟩
  | case3 | case4 => cases h

end Lexicographic
