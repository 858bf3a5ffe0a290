import Mathlib.Data.Int.Log
import Mathlib.Data.Rat.Floor
import Mathlib.Tactic

/-!
Rounding of rational numbers, the same on both sides of zero.

`bySign` carries a rule for the numbers that are not negative over to the negative ones.
`truncate` and `roundHalfAway` are the rules of the floor and of the half, and `truncate_div`,
`roundHalfAway_div` compute them on a quotient of integers from the magnitudes alone.  `binary64` is
the rule of the arithmetic in 64 bits.
-/

namespace Rounding

/-- A rule for the numbers that are not negative, on every number. -/
def bySign (f : ℚ → ℤ) (q : ℚ) : ℤ := if 0 ≤ q then f q else -f (-q)

def truncate (q : ℚ) : ℤ := bySign Int.floor q

/-- To the nearest integer, a half away from zero. -/
def roundHalfAway (q : ℚ) : ℤ := bySign (fun q => ⌊q + 1 / 2⌋) q

/-- To the nearest integer, a half to the even one. -/
def roundHalfEven (q : ℚ) : ℤ :=
  if q - ⌊q⌋ < 1 / 2 ∨ q - ⌊q⌋ = 1 / 2 ∧ ⌊q⌋ % 2 = 0 then ⌊q⌋ else ⌊q⌋ + 1

/-- The number of 53 bits nearest to one that is not negative and below `2 ^ 1024`; the least
exponent is that of the subnormal ones. -/
def binary64 (q : ℚ) : ℚ :=
  let e := max (Int.log 2 q - 52) (-1074)
  roundHalfEven (q / 2 ^ e) * 2 ^ e

/-- The quotient of two magnitudes, rounded half up. -/
def roundedQuotient (m n : ℕ) : ℕ := m / n + if n ≤ 2 * (m % n) then 1 else 0

lemma bySign_neg {f : ℚ → ℤ} (hf : f 0 = 0) (q : ℚ) : bySign f (-q) = -bySign f q := by
  rcases lt_trichotomy q 0 with hq | rfl | hq
  · rw [bySign, if_pos (neg_nonneg.mpr hq.le), bySign, if_neg hq.not_ge, neg_neg]
  · simp [bySign, hf]
  · rw [bySign, if_neg (neg_neg_iff_pos.mpr hq).not_ge, neg_neg, bySign, if_pos hq.le]

lemma bySign_div {f : ℚ → ℤ} (hf : f 0 = 0) (x y : ℤ) :
    bySign f (x / y) = x.sign * y.sign * f (x.natAbs / y.natAbs) := by
  have hnat : ∀ m n : ℕ, bySign f (m / n) = (m : ℤ).sign * (n : ℤ).sign * f (m / n) := by
    intro m n
    rw [bySign, if_pos (by positivity)]
    rcases Nat.eq_zero_or_pos m with rfl | hm
    · simp [hf]
    rcases Nat.eq_zero_or_pos n with rfl | hn
    · simp [hf]
    rw [Int.sign_natCast_of_ne_zero hm.ne', Int.sign_natCast_of_ne_zero hn.ne', mul_one, one_mul]
  obtain ⟨m, rfl | rfl⟩ := x.eq_nat_or_neg <;> obtain ⟨n, rfl | rfl⟩ := y.eq_nat_or_neg <;>
    simp [neg_div, div_neg, bySign_neg hf, hnat]

lemma truncate_div (x y : ℤ) : truncate (x / y) = x.sign * y.sign * (x.natAbs / y.natAbs : ℕ) := by
  rw [truncate, bySign_div Int.floor_zero, Rat.floor_natCast_div_natCast, Int.natCast_ediv]

lemma truncate_eq_tdiv (x y : ℤ) : truncate (x / y) = x.tdiv y := by
  rw [truncate_div]
  obtain ⟨m, rfl | rfl⟩ := x.eq_nat_or_neg <;> obtain ⟨n, rfl | rfl⟩ := y.eq_nat_or_neg
  all_goals
    rcases Nat.eq_zero_or_pos m with rfl | hm <;> rcases Nat.eq_zero_or_pos n with rfl | hn
    all_goals simp_all [Int.sign_natCast_of_ne_zero, Nat.pos_iff_ne_zero]

lemma floor_add_half (m : ℕ) {n : ℕ} (hn : 0 < n) :
    ⌊(m / n + 1 / 2 : ℚ)⌋ = roundedQuotient m n := by
  have hmod := Nat.mod_add_div m n
  have hlt := Nat.mod_lt m hn
  rw [roundedQuotient]
  generalize m % n = r at *
  generalize m / n = q at *
  have hn' : (0 : ℚ) < n := by exact_mod_cast hn
  have hquotient : (m / n + 1 / 2 : ℚ) = q + (2 * r + n) / (2 * n) := by
    rw [← hmod]
    push_cast
    field_simp
    ring
  rw [hquotient, Int.floor_natCast_add, Nat.cast_add, add_right_inj, Int.floor_eq_iff]
  split_ifs with hhalf
  · have hhalf' : (n : ℚ) ≤ 2 * r := by exact_mod_cast hhalf
    have hlt' : (r : ℚ) < n := by exact_mod_cast hlt
    rw [le_div_iff₀ (by linarith), div_lt_iff₀ (by linarith)]
    constructor <;> push_cast <;> linarith
  · have hhalf' : 2 * (r : ℚ) < n := by exact_mod_cast not_le.mp hhalf
    rw [le_div_iff₀ (by linarith), div_lt_iff₀ (by linarith)]
    constructor <;> push_cast <;> linarith [(Nat.cast_nonneg r : (0 : ℚ) ≤ r)]

lemma roundHalfAway_div (x : ℤ) {y : ℤ} (hy : y ≠ 0) :
    roundHalfAway (x / y) = x.sign * y.sign * roundedQuotient x.natAbs y.natAbs := by
  rw [roundHalfAway, bySign_div (by norm_num), floor_add_half _ (Int.natAbs_pos.mpr hy)]

lemma roundHalfAway_one (n : ℤ) : roundHalfAway (n / (1 : ℤ)) = n := by
  rw [roundHalfAway_div n one_ne_zero]
  simp [roundedQuotient, Nat.mod_one, Int.sign_mul_abs]

end Rounding
