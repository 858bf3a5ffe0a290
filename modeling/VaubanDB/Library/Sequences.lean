import VaubanDB.Library.Comparator

/-!
Comparison of sequences: lexicographic, or with the shorter one extended by a padding value.

`padCmp cmp pad` pads both lists to one length and compares them lexicographically; padding
further changes nothing (`padCmp_eq_padTo`), so three lists can be padded alike and the order
is transitive like the one of `cmp`.
-/

lemma compare_eq_compare {α β : Type} [LinearOrder α] [LinearOrder β] {a b : α} {x y : β}
    (hlt : a < b ↔ x < y) (hgt : b < a ↔ y < x) : compare a b = compare x y := by
  cases h : compare x y with
  | lt => exact compare_lt_iff_lt.mpr (hlt.mpr (compare_lt_iff_lt.mp h))
  | eq =>
    have hxy := compare_eq_iff_eq.mp h
    exact compare_eq_iff_eq.mpr
      (le_antisymm (not_lt.mp (hgt.not.mpr hxy.not_gt)) (not_lt.mp (hlt.not.mpr hxy.not_lt)))
  | gt => exact compare_gt_iff_gt.mpr (hgt.mpr (compare_gt_iff_gt.mp h))

open Std

variable {α : Type}

namespace LawfulCmp

lemma ofTransCmp (ε : Type) (cmp : α → α → Ordering) [TransCmp cmp] :
    LawfulCmp fun a b : α => (.ok (cmp a b) : Except ε Ordering) where
  swap := by
    intro a b o hab
    simp only [Except.ok.injEq] at hab ⊢
    rw [← hab, @OrientedCmp.eq_swap _ cmp]
  trans := by
    intro a b c o₁ o₂ hab hbc h₁ h₂
    simp only [Except.ok.injEq] at hab hbc ⊢
    cases o₁ with
    | gt => exact absurd rfl h₁
    | lt =>
      have hbc' : (cmp b c).isLE := by
        rw [hbc]
        cases o₂ <;> simp_all
      exact TransCmp.lt_of_lt_of_isLE hab hbc'
    | eq =>
      rw [TransCmp.congr_left hab, hbc]
      rfl

end LawfulCmp

lemma transCmp_comap {β : Type} (cmp : α → α → Ordering) [TransCmp cmp] (f : β → α) :
    TransCmp fun a b : β => cmp (f a) (f b) where
  eq_swap {a b} := OrientedCmp.eq_swap (a := f a) (b := f b)
  isLE_trans {a b c} := TransCmp.isLE_trans (a := f a) (b := f b) (c := f c)

lemma swap_of_transCmp (cmp : α → α → Ordering) [TransCmp cmp] (x y : α) :
    cmp y x = (cmp x y).swap :=
  OrientedCmp.eq_swap

lemma then_of_transCmp (cmp : α → α → Ordering) [TransCmp cmp] {x y z : α}
    (h₁ : cmp x y ≠ .gt) (h₂ : cmp y z ≠ .gt) : cmp x z = (cmp x y).then (cmp y z) :=
  Except.ok.inj ((LawfulCmp.ofTransCmp Unit cmp).trans rfl rfl h₁ h₂)

lemma Nat.compare_div_mod (a b n : ℕ) :
    (compare (a / n) (b / n)).then (compare (a % n) (b % n)) = compare a b := by
  have ha := div_add_mod a n
  have hb := div_add_mod b n
  rcases Nat.lt_trichotomy (a / n) (b / n) with h | h | h
  · have : a < b := lt_of_div_lt_div h
    rw [compare_eq_lt.mpr h, compare_eq_lt.mpr this]
    rfl
  · rw [h, Nat.compare_eq_eq.mpr rfl, Ordering.eq_then]
    rw [h] at ha
    exact compare_eq_compare (by omega) (by omega)
  · have : b < a := lt_of_div_lt_div h
    rw [compare_eq_gt.mpr h, compare_eq_gt.mpr this]
    rfl

section Padding

variable {α : Type} (cmp : α → α → Ordering) (pad : α)

def padTo (n : ℕ) (xs : List α) : List α := xs ++ List.replicate (n - xs.length) pad

/-- Lexicographic comparison, the shorter list being extended with `pad`. -/
def padCmp (xs ys : List α) : Ordering :=
  List.compareLex cmp (padTo pad (max xs.length ys.length) xs)
    (padTo pad (max xs.length ys.length) ys)

variable {cmp pad}

lemma compareLex_append {as bs cs ds : List α} (h : as.length = bs.length) :
    List.compareLex cmp (as ++ cs) (bs ++ ds)
      = (List.compareLex cmp as bs).then (List.compareLex cmp cs ds) := by
  induction as generalizing bs with
  | nil =>
    have : bs = [] := List.eq_nil_of_length_eq_zero h.symm
    subst this
    simp [List.compareLex]
  | cons a as ih =>
    cases bs with
    | nil => simp at h
    | cons b bs =>
      simp only [List.cons_append, List.compareLex_cons_cons]
      rw [ih (by simpa using h), Ordering.then_assoc]

variable {xs : List α} {n : ℕ}

lemma padTo_length (h : xs.length ≤ n) : (padTo pad n xs).length = n := by
  simp only [padTo, List.length_append, List.length_replicate]
  omega

lemma padTo_padTo {m : ℕ} (h : n ≤ m) (hx : xs.length ≤ n) :
    padTo pad m xs = padTo pad n xs ++ List.replicate (m - n) pad := by
  simp only [padTo, List.append_assoc, List.replicate_append_replicate]
  congr 2
  omega

lemma padCmp_eq_padTo [ReflCmp cmp] {ys : List α} (hx : xs.length ≤ n) (hy : ys.length ≤ n) :
    padCmp cmp pad xs ys = List.compareLex cmp (padTo pad n xs) (padTo pad n ys) := by
  have hm : max xs.length ys.length ≤ n := max_le hx hy
  rw [padTo_padTo hm (le_max_left _ _), padTo_padTo hm (le_max_right _ _), compareLex_append,
    @ReflCmp.compare_self _ (List.compareLex cmp), Ordering.then_eq]
  · rfl
  · rw [padTo_length (le_max_left _ _), padTo_length (le_max_right _ _)]

instance [TransCmp cmp] : TransCmp (padCmp cmp pad) where
  eq_swap := by
    intro xs ys
    rw [padCmp, padCmp, max_comm]
    exact @OrientedCmp.eq_swap _ (List.compareLex cmp) _ _ _
  isLE_trans := by
    intro xs ys zs hxy hyz
    have hx : xs.length ≤ max xs.length (max ys.length zs.length) := by omega
    have hy : ys.length ≤ max xs.length (max ys.length zs.length) := by omega
    have hz : zs.length ≤ max xs.length (max ys.length zs.length) := by omega
    rw [padCmp_eq_padTo hx hy] at hxy
    rw [padCmp_eq_padTo hy hz] at hyz
    rw [padCmp_eq_padTo hx hz]
    exact TransCmp.isLE_trans hxy hyz

lemma padCmp_cons_cons (x y : α) (xs ys : List α) :
    padCmp cmp pad (x :: xs) (y :: ys) = (cmp x y).then (padCmp cmp pad xs ys) := by
  have hpad : ∀ n, ∀ (z : α) (zs : List α), padTo pad (n + 1) (z :: zs) = z :: padTo pad n zs := by
    intro n z zs
    simp [padTo]
  rw [padCmp, show max (x :: xs).length (y :: ys).length = max xs.length ys.length + 1 from by
    simp only [List.length_cons]; omega, hpad, hpad, List.compareLex_cons_cons]
  rfl

lemma padCmp_append [ReflCmp cmp] (zs xs ys : List α) :
    padCmp cmp pad (zs ++ xs) (zs ++ ys) = padCmp cmp pad xs ys := by
  have hpad : ∀ n, ∀ xs : List α, padTo pad (zs.length + n) (zs ++ xs) = zs ++ padTo pad n xs := by
    intro n xs
    simp only [padTo, List.length_append, List.append_assoc]
    congr 3
    omega
  have hmax : max (zs ++ xs).length (zs ++ ys).length = zs.length + max xs.length ys.length := by
    simp only [List.length_append]
    omega
  rw [padCmp, hmax, hpad, hpad, compareLex_append rfl,
    @ReflCmp.compare_self _ (List.compareLex cmp)]
  rfl

lemma padCmp_headD_tail [TransCmp cmp] (xs ys : List α) : padCmp cmp pad xs ys
      = (cmp (xs.headD pad) (ys.headD pad)).then (padCmp cmp pad xs.tail ys.tail) := by
  have hcons : ∀ zs : List α, padCmp cmp pad (zs.headD pad :: zs.tail) zs = .eq := by
    intro zs
    cases zs with
    | nil => simp [padCmp, padTo, ReflCmp.compare_self]
    | cons z zs => exact ReflCmp.compare_self
  rw [← TransCmp.congr_left (hcons xs), ← TransCmp.congr_right (hcons ys), padCmp_cons_cons]

/-- Induction on two lists read in step, an empty list being its own tail. -/
lemma List.tail_induction {motive : List α → List α → Prop} (xs ys : List α)
    (nil : motive [] []) (step : ∀ xs ys, motive xs.tail ys.tail → motive xs ys) :
    motive xs ys := by
  induction xs generalizing ys with
  | nil =>
    induction ys with
    | nil => exact nil
    | cons y ys ih => exact step [] (y :: ys) ih
  | cons x xs ih => exact step (x :: xs) ys (ih ys.tail)

/-- The list without the padding at its end. -/
def dropPadding [DecidableEq α] (pad : α) (xs : List α) : List α :=
  (xs.reverse.dropWhile (· = pad)).reverse

lemma dropPadding_headD_tail [DecidableEq α] (xs : List α) :
    dropPadding pad xs = if dropPadding pad xs.tail = [] ∧ xs.headD pad = pad then []
      else xs.headD pad :: dropPadding pad xs.tail := by
  cases xs with
  | nil => simp [dropPadding]
  | cons x xs =>
    have hnil : (xs.reverse.dropWhile (· = pad)).isEmpty = true ↔ dropPadding pad xs = [] := by
      rw [dropPadding, List.isEmpty_iff, List.reverse_eq_nil_iff]
    rw [dropPadding, List.reverse_cons, List.dropWhile_append, List.tail_cons, List.headD_cons]
    by_cases hxs : dropPadding pad xs = []
    · rw [if_pos (hnil.mpr hxs)]
      by_cases hx : x = pad <;> simp [hx, hxs]
    · rw [if_neg (mt hnil.mp hxs), if_neg (fun h => hxs h.1)]
      simp [dropPadding]

/-- When nothing is below the padding, comparing with it is comparing what is left without
the padding at the end. -/
lemma padCmp_eq_dropPadding [DecidableEq α] [TransCmp cmp] [LawfulEqCmp cmp]
    (hmin : ∀ x, cmp pad x ≠ .gt) (xs ys : List α) :
    padCmp cmp pad xs ys = List.compareLex cmp (dropPadding pad xs) (dropPadding pad ys) := by
  -- padding next to something else than padding alone
  have hlt : ∀ (z : α) (zs : List α), ¬(zs = [] ∧ z = pad) →
      (cmp pad z).then (List.compareLex cmp [] zs) = .lt := by
    intro z zs h
    cases hc : cmp pad z with
    | lt => rfl
    | gt => exact absurd hc (hmin z)
    | eq =>
      have hz := (LawfulEqCmp.compare_eq_iff_eq.mp hc).symm
      cases zs with
      | nil => exact absurd ⟨rfl, hz⟩ h
      | cons z' zs => rw [Ordering.eq_then, List.compareLex_nil_cons]
  induction xs, ys using List.tail_induction with
  | nil => exact @ReflCmp.compare_self _ (padCmp cmp pad) _ _
  | step xs ys htail =>
    rw [padCmp_headD_tail, htail, dropPadding_headD_tail xs, dropPadding_headD_tail ys]
    split_ifs with hx hy hy
    · rw [hx.1, hx.2, hy.1, hy.2, @ReflCmp.compare_self _ cmp]
      rfl
    · rw [hx.1, hx.2, hlt _ _ hy, List.compareLex_nil_cons]
    · rw [hy.1, hy.2, swap_of_transCmp cmp pad, swap_of_transCmp (List.compareLex cmp) [],
        ← Ordering.swap_then, hlt _ _ hx, List.compareLex_cons_nil]
      rfl
    · rw [List.compareLex_cons_cons]

end Padding
