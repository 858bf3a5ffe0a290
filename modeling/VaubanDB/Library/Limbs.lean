import Mathlib.Data.List.DropRight
import Mathlib.Data.Nat.Digits.Lemmas
import Mathlib.Tactic

/-!
Long arithmetic on limbs, the least significant first.

A number is normalised when it has no zero limb on top: its limbs are its digits in the base
(`trimmed_eq`).  `plus`, `minus` and `times` carry from limb to limb, and `dividedBy` is the long
division whose quotient limbs are found by bisection.  On normalised numbers they answer the
normalised sum, difference, product, quotient and remainder (`plus_digits`, `minus_digits`,
`times_digits`, `dividedBy_digits`).
-/

open List Nat

namespace Limbs

/-- The limbs without the zeros on top. -/
def trimmed (xs : List ℕ) : List ℕ := xs.rdropWhile (· == 0)

variable (β : ℕ)

/-- The sum with a carry, over the longer number. -/
def plusLoop : ℕ → List ℕ → List ℕ → List ℕ
  | carry, [], [] => if 0 < carry then [carry] else []
  | carry, x :: xs, [] => (carry + x) % β :: plusLoop ((carry + x) / β) xs []
  | carry, [], y :: ys => (carry + y) % β :: plusLoop ((carry + y) / β) [] ys
  | carry, x :: xs, y :: ys => (carry + x + y) % β :: plusLoop ((carry + x + y) / β) xs ys

def plus (xs ys : List ℕ) : List ℕ := trimmed (plusLoop β 0 xs ys)

/-- The difference with a borrow, over the first number, and the borrow that is left. -/
def minusLoop : ℕ → List ℕ → List ℕ → List ℕ × ℕ
  | borrow, [], _ => ([], borrow)
  | borrow, x :: xs, ys =>
    let y := ys.headD 0
    if x < y + borrow then
      let rest := minusLoop 1 xs ys.tail
      ((x + β - y - borrow) :: rest.1, rest.2)
    else
      let rest := minusLoop 0 xs ys.tail
      ((x - y - borrow) :: rest.1, rest.2)

/-- Zero where the difference is negative. -/
def minus (xs ys : List ℕ) : List ℕ :=
  let out := minusLoop β 0 xs ys
  if out.2 ≠ 0 then [] else trimmed out.1

/-- The carry of a row, added to the limbs above it. -/
def carryInto : ℕ → List ℕ → List ℕ
  | _, [] => []
  | carry, a :: acc =>
    if 0 < carry then (a + carry) % β :: carryInto ((a + carry) / β) acc else a :: acc

/-- The product of a number by one limb, added to the limbs from its place on. -/
def timesRow (x : ℕ) : ℕ → List ℕ → List ℕ → List ℕ
  | carry, acc, [] => carryInto β carry acc
  | _, [], _ :: _ => []
  | carry, a :: acc, y :: ys =>
    (a + x * y + carry) % β :: timesRow x ((a + x * y + carry) / β) acc ys

/-- One row for each limb; the next one starts a place higher. -/
def timesLoop (ys : List ℕ) : List ℕ → List ℕ → List ℕ
  | [], acc => acc
  | x :: xs, acc =>
    match timesRow β x 0 acc ys with
    | [] => []
    | low :: acc => low :: timesLoop ys xs acc

def times (xs ys : List ℕ) : List ℕ :=
  if xs = [] ∨ ys = [] then []
  else trimmed (timesLoop β ys xs (replicate (xs.length + ys.length) 0))

/-- Numbers of one length, from the limb on top downwards. -/
def compareTop : List ℕ → List ℕ → Ordering
  | x :: xs, y :: ys => (compareTop xs ys).then (compare x y)
  | _, _ => .eq

/-- The longer of two normalised numbers is the larger one. -/
def cmp (xs ys : List ℕ) : Ordering := (compare xs.length ys.length).then (compareTop xs ys)

/-- The last number of an interval that `fits` accepts, by bisection. -/
def bisect (fits : ℕ → Bool) : ℕ → ℕ → ℕ → ℕ
  | 0, low, _ => low
  | turns + 1, low, high =>
    if low < high then
      let middle := low + (high - low + 1) / 2
      if fits middle then bisect fits turns middle high else bisect fits turns low (middle - 1)
    else low

/-- One limb more of the dividend: the limb of the quotient, and the remainder. -/
def divideStep (divisor : List ℕ) (limb : ℕ) (out : List ℕ × List ℕ) : List ℕ × List ℕ :=
  let remainder := trimmed (limb :: out.2)
  let low := bisect (fun middle => cmp (times β divisor (digits β middle)) remainder ≠ .gt)
    (β - 1) 0 (β - 1)
  (low :: out.1, minus β remainder (times β divisor (digits β low)))

/-- The quotient and the remainder, the limb on top first. -/
def dividedBy (xs divisor : List ℕ) : List ℕ × List ℕ :=
  if divisor = [] then ([], [])
  else
    let out := xs.foldr (divideStep β divisor) ([], [])
    (trimmed out.1, out.2)

variable {β} {xs ys acc : List ℕ} {x carry m n : ℕ}

/-! ### Normalised numbers -/

lemma trimmed_eq (hβ : 1 < β) (h : ∀ x ∈ xs, x < β) :
    trimmed xs = digits β (ofDigits β xs) := by
  induction xs using List.reverseRecOn with
  | nil => simp [trimmed]
  | append_singleton xs x ih =>
    by_cases hx : x = 0
    · rw [trimmed, rdropWhile_concat_pos _ _ _ (by simp [hx]), ← trimmed,
        ih fun y hy => h y (mem_append_left _ hy)]
      simp [ofDigits_append, hx]
    · rw [trimmed, rdropWhile_concat_neg _ _ _ (by simp [hx]), digits_ofDigits β hβ _ h]
      simpa using hx

/-! ### Sum and difference -/

lemma ofDigits_plusLoop (carry : ℕ) (xs ys : List ℕ) :
    ofDigits β (plusLoop β carry xs ys) = carry + ofDigits β xs + ofDigits β ys := by
  fun_induction plusLoop β carry xs ys with
  | case1 => simp
  | case2 carry hzero => simp [Nat.eq_zero_of_not_pos hzero]
  | case3 carry x xs ih =>
    have hmod := Nat.mod_add_div (carry + x) β
    simp only [ofDigits_cons, ih, ofDigits_nil, Nat.mul_add]
    omega
  | case4 carry y ys ih =>
    have hmod := Nat.mod_add_div (carry + y) β
    simp only [ofDigits_cons, ih, ofDigits_nil, Nat.mul_add]
    omega
  | case5 carry x xs y ys ih =>
    have hmod := Nat.mod_add_div (carry + x + y) β
    simp only [ofDigits_cons, ih, Nat.mul_add]
    omega

lemma plusLoop_lt (hβ : 1 < β) (hcarry : carry ≤ 1) (hx : ∀ x ∈ xs, x < β)
    (hy : ∀ y ∈ ys, y < β) : ∀ z ∈ plusLoop β carry xs ys, z < β := by
  have hmod : ∀ s, s % β < β := fun s => Nat.mod_lt s (by omega)
  have hdiv : ∀ s, s < 2 * β → s / β ≤ 1 := fun s hs =>
    Nat.lt_succ_iff.mp (Nat.div_lt_of_lt_mul (by rwa [Nat.mul_comm]))
  fun_induction plusLoop β carry xs ys with
  | case1 => simpa using by omega
  | case2 => simp
  | case3 carry x xs ih =>
    rw [forall_mem_cons] at hx
    exact forall_mem_cons.mpr ⟨hmod _, ih (hdiv _ (by omega)) hx.2 hy⟩
  | case4 carry y ys ih =>
    rw [forall_mem_cons] at hy
    exact forall_mem_cons.mpr ⟨hmod _, ih (hdiv _ (by omega)) hx hy.2⟩
  | case5 carry x xs y ys ih =>
    rw [forall_mem_cons] at hx hy
    exact forall_mem_cons.mpr ⟨hmod _, ih (hdiv _ (by omega)) hx.2 hy.2⟩

lemma plus_digits (hβ : 1 < β) (m n : ℕ) : plus β (digits β m) (digits β n) = digits β (m + n) := by
  rw [plus, trimmed_eq hβ, ofDigits_plusLoop, ofDigits_digits, ofDigits_digits, Nat.zero_add]
  exact plusLoop_lt hβ zero_le_one (fun _ => digits_lt_base hβ) fun _ => digits_lt_base hβ

lemma minusLoop_spec (hx : ∀ x ∈ xs, x < β) (hy : ∀ y ∈ ys, y < β) {borrow : ℕ}
    (hborrow : borrow ≤ 1) (hlen : ys.length ≤ xs.length) :
    let out := minusLoop β borrow xs ys
    out.1.length = xs.length ∧ (∀ z ∈ out.1, z < β) ∧
      ofDigits β out.1 + ofDigits β ys + borrow = ofDigits β xs + β ^ xs.length * out.2 := by
  induction xs generalizing borrow ys with
  | nil =>
    obtain rfl : ys = [] := by simpa using hlen
    simp [minusLoop]
  | cons x xs ih =>
    rw [forall_mem_cons] at hx
    have htail : ys.tail.length ≤ xs.length := by simpa using Nat.sub_le_of_le_add hlen
    have hytail : ∀ y ∈ ys.tail, y < β := fun y h => hy y (mem_of_mem_tail h)
    have hhead : ys.headD 0 < β := by
      cases ys with
      | nil => exact hx.1.trans_le' (Nat.zero_le x)
      | cons y ys => exact hy y mem_cons_self
    have hvalue : ofDigits β ys = ys.headD 0 + β * ofDigits β ys.tail := by
      cases ys <;> simp [ofDigits_cons]
    have hrest : ∀ b ≤ 1, let out := minusLoop β b xs ys.tail
        out.1.length = xs.length ∧ (∀ z ∈ out.1, z < β) ∧
          β * ofDigits β out.1 + β * ofDigits β ys.tail + β * b =
            β * ofDigits β xs + β ^ (xs.length + 1) * out.2 := fun b hb => by
      obtain ⟨hl, hs, hv⟩ := ih hx.2 hytail hb htail
      refine ⟨hl, hs, ?_⟩
      rw [← Nat.mul_add, ← Nat.mul_add, hv, Nat.mul_add, pow_succ', Nat.mul_assoc]
    simp only [minusLoop, length_cons]
    split_ifs with hlt
    · obtain ⟨hl, hs, hv⟩ := hrest 1 le_rfl
      refine ⟨by simp [hl], forall_mem_cons.mpr ⟨by omega, hs⟩, ?_⟩
      simp only [ofDigits_cons, hvalue]
      omega
    · obtain ⟨hl, hs, hv⟩ := hrest 0 zero_le_one
      refine ⟨by simp [hl], forall_mem_cons.mpr ⟨by omega, hs⟩, ?_⟩
      simp only [ofDigits_cons, hvalue]
      omega

lemma minus_digits (hβ : 1 < β) (h : n ≤ m) :
    minus β (digits β m) (digits β n) = digits β (m - n) := by
  obtain ⟨hlen, hsmall, hvalue⟩ := @minusLoop_spec β (digits β m) (digits β n)
    (fun _ => digits_lt_base hβ) (fun _ => digits_lt_base hβ) 0 zero_le_one
    (le_length_digits_le β n m h)
  rw [ofDigits_digits, ofDigits_digits, Nat.add_zero] at hvalue
  have hlt := ofDigits_lt_base_pow_length hβ hsmall
  rw [hlen] at hlt
  -- a borrow that is left would make the difference too large for its limbs
  have hborrow : (minusLoop β 0 (digits β m) (digits β n)).2 = 0 := by
    by_contra hne
    have hle := Nat.mul_le_mul_left (β ^ (digits β m).length) (Nat.one_le_iff_ne_zero.mpr hne)
    omega
  rw [hborrow, Nat.mul_zero, Nat.add_zero] at hvalue
  rw [minus, if_neg (not_not.mpr hborrow), trimmed_eq hβ hsmall]
  congr 1
  omega

/-! ### Product -/

/-- What is left for the limbs above, when the whole fits. -/
lemma div_add_lt {s v k : ℕ} (h : s + β * v < β ^ (k + 1)) : s / β + v < β ^ k := by
  refine Nat.lt_of_mul_lt_mul_left (a := β) ?_
  have hmod := Nat.mod_add_div s β
  have hpow : β ^ (k + 1) = β * β ^ k := Nat.pow_succ'
  rw [Nat.mul_add]
  omega

lemma carryInto_spec (hβ : 0 < β) (hacc : ∀ a ∈ acc, a < β)
    (h : ofDigits β acc + carry < β ^ acc.length) :
    (carryInto β carry acc).length = acc.length ∧ (∀ z ∈ carryInto β carry acc, z < β) ∧
      ofDigits β (carryInto β carry acc) = ofDigits β acc + carry := by
  fun_induction carryInto β carry acc with
  | case1 carry => simpa [eq_comm] using h
  | case2 carry a acc hpos ih =>
    rw [forall_mem_cons] at hacc
    rw [ofDigits_cons, length_cons] at h
    obtain ⟨hl, hs, hv⟩ := ih hacc.2 (Nat.add_comm (ofDigits β acc) _ ▸ div_add_lt (by omega))
    refine ⟨by simp [hl], forall_mem_cons.mpr ⟨Nat.mod_lt _ hβ, hs⟩, ?_⟩
    have hmod := Nat.mod_add_div (a + carry) β
    simp only [ofDigits_cons, hv, Nat.mul_add]
    omega
  | case3 carry a acc hzero =>
    rw [Nat.eq_zero_of_not_pos hzero]
    exact ⟨rfl, hacc, rfl⟩

lemma timesRow_spec (hβ : 0 < β) (hacc : ∀ a ∈ acc, a < β) (hlen : ys.length ≤ acc.length)
    (h : ofDigits β acc + x * ofDigits β ys + carry < β ^ acc.length) :
    (timesRow β x carry acc ys).length = acc.length ∧ (∀ z ∈ timesRow β x carry acc ys, z < β) ∧
      ofDigits β (timesRow β x carry acc ys) =
        ofDigits β acc + x * ofDigits β ys + carry := by
  fun_induction timesRow β x carry acc ys with
  | case1 carry acc => simpa using carryInto_spec hβ hacc (by simpa using h)
  | case2 => simp at hlen
  | case3 carry a acc y ys ih =>
    rw [forall_mem_cons] at hacc
    have hmul : x * (y + β * ofDigits β ys) = x * y + β * (x * ofDigits β ys) := by ring
    rw [ofDigits_cons, ofDigits_cons, hmul, length_cons] at h
    have hfits : ofDigits β acc + x * ofDigits β ys + (a + x * y + carry) / β < β ^ acc.length := by
      have := @div_add_lt β (a + x * y + carry) (ofDigits β acc + x * ofDigits β ys) acc.length
        (by rw [Nat.mul_add]; omega)
      omega
    obtain ⟨hl, hs, hv⟩ := ih hacc.2 (Nat.le_of_succ_le_succ hlen) hfits
    refine ⟨by simp [hl], forall_mem_cons.mpr ⟨Nat.mod_lt _ hβ, hs⟩, ?_⟩
    have hmod := Nat.mod_add_div (a + x * y + carry) β
    simp only [ofDigits_cons, hv, Nat.mul_add, hmul]
    omega

lemma timesLoop_spec (hβ : 1 < β) (hx : ∀ x ∈ xs, x < β) (hy : ∀ y ∈ ys, y < β)
    (hacc : ∀ a ∈ acc, a < β) (hlen : acc.length = xs.length + ys.length)
    (h : ofDigits β acc < β ^ ys.length) :
    (∀ z ∈ timesLoop β ys xs acc, z < β) ∧
      ofDigits β (timesLoop β ys xs acc) = ofDigits β acc + ofDigits β xs * ofDigits β ys := by
  induction xs generalizing acc with
  | nil => simpa [timesLoop] using hacc
  | cons x xs ih =>
    rw [forall_mem_cons] at hx
    have hβ' : 0 < β := by omega
    have hys := ofDigits_lt_base_pow_length hβ hy
    -- the row is below `β` times what the other number is below
    have hrow : ofDigits β acc + x * ofDigits β ys < β ^ (ys.length + 1) := by
      have hmul := Nat.mul_le_mul (Nat.le_sub_one_of_lt hx.1) hys.le
      have hsucc : β ^ (ys.length + 1) = (β - 1) * β ^ ys.length + β ^ ys.length := by
        rw [Nat.pow_succ', ← Nat.succ_mul, Nat.succ_eq_add_one, Nat.sub_add_cancel hβ']
      omega
    have hfits : ofDigits β acc + x * ofDigits β ys + 0 < β ^ acc.length :=
      hrow.trans_le (Nat.pow_le_pow_right hβ' (by rw [hlen, length_cons]; omega))
    obtain ⟨hl, hs, hv⟩ := timesRow_spec hβ' hacc (by rw [hlen]; omega) hfits
    rw [timesLoop]
    cases hout : timesRow β x 0 acc ys with
    | nil =>
      rw [hout, hlen] at hl
      simp only [length_nil, length_cons] at hl
      omega
    | cons low rest =>
      rw [hout] at hl hs hv
      rw [forall_mem_cons] at hs
      rw [ofDigits_cons, Nat.add_zero] at hv
      have hrest : ofDigits β rest < β ^ ys.length := by
        refine Nat.lt_of_mul_lt_mul_left (a := β) ?_
        rw [← Nat.pow_succ', Nat.succ_eq_add_one]
        omega
      obtain ⟨hs', hv'⟩ := ih hx.2 hs.2 (by simp only [length_cons, hlen] at hl; omega) hrest
      refine ⟨forall_mem_cons.mpr ⟨hs.1, hs'⟩, ?_⟩
      simp only [ofDigits_cons, hv', Nat.mul_add, Nat.add_mul]
      rw [Nat.mul_assoc]
      omega

lemma times_digits (hβ : 1 < β) (m n : ℕ) :
    times β (digits β m) (digits β n) = digits β (m * n) := by
  rw [times]
  split_ifs with hnil
  · rcases hnil with hm | hn
    · simp [(digits_eq_nil_iff_eq_zero).mp hm]
    · simp [(digits_eq_nil_iff_eq_zero).mp hn]
  · have hβ' : 0 < β := by omega
    obtain ⟨hs, hv⟩ := @timesLoop_spec β (digits β m) (digits β n)
      (replicate ((digits β m).length + (digits β n).length) 0) hβ
      (fun _ => digits_lt_base hβ) (fun _ => digits_lt_base hβ)
      (fun a ha => eq_of_mem_replicate ha ▸ hβ') length_replicate
      (by simpa using Nat.pow_pos hβ')
    rw [trimmed_eq hβ hs, hv, ofDigits_digits, ofDigits_digits]
    simp

/-! ### Quotient -/

/-- The limb on top decides, whatever is below it. -/
lemma compare_limb {v w : ℕ} {y : ℕ} (hx : x < β) (hy : y < β) :
    compare (x + β * v) (y + β * w) = (compare v w).then (compare x y) := by
  have hlt : ∀ {v w x y : ℕ}, x < β → v < w → x + β * v < y + β * w := by
    intro v w x y hx h
    have hmul := Nat.mul_le_mul_left β h
    rw [Nat.mul_succ] at hmul
    omega
  rcases lt_trichotomy v w with h | rfl | h
  · rw [Nat.compare_eq_lt.mpr h]
    exact Nat.compare_eq_lt.mpr (hlt hx h)
  · simp [Nat.compare_eq_ite_lt]
  · rw [Nat.compare_eq_gt.mpr h]
    exact Nat.compare_eq_gt.mpr (hlt hy h)

lemma compareTop_eq (hlen : xs.length = ys.length) (hx : ∀ x ∈ xs, x < β) (hy : ∀ y ∈ ys, y < β) :
    compareTop xs ys = compare (ofDigits β xs) (ofDigits β ys) := by
  induction xs generalizing ys with
  | nil =>
    obtain rfl : ys = [] := length_eq_zero_iff.mp hlen.symm
    exact (Nat.compare_eq_eq.mpr rfl).symm
  | cons x xs ih =>
    cases ys with
    | nil => simp at hlen
    | cons y ys =>
      rw [forall_mem_cons] at hx hy
      rw [compareTop, ih (Nat.succ.inj hlen) hx.2 hy.2, ofDigits_cons, ofDigits_cons]
      exact (compare_limb hx.1 hy.1).symm

lemma cmp_digits (hβ : 1 < β) (m n : ℕ) : cmp (digits β m) (digits β n) = compare m n := by
  rw [cmp]
  rcases lt_trichotomy (digits β m).length (digits β n).length with h | h | h
  · rw [Nat.compare_eq_lt.mpr h, Nat.compare_eq_lt.mpr]
    · rfl
    · exact lt_of_not_ge fun hle => h.not_ge (le_length_digits_le β n m hle)
  · rw [Nat.compare_eq_eq.mpr h, compareTop_eq h (fun _ => digits_lt_base hβ)
      fun _ => digits_lt_base hβ, ofDigits_digits, ofDigits_digits]
    rfl
  · rw [Nat.compare_eq_gt.mpr h, Nat.compare_eq_gt.mpr]
    · rfl
    · exact lt_of_not_ge fun hle => h.not_ge (le_length_digits_le β m n hle)

lemma cmp_ne_gt_iff (hβ : 1 < β) (m n : ℕ) : cmp (digits β m) (digits β n) ≠ .gt ↔ m ≤ n := by
  rw [cmp_digits hβ, ne_eq, Nat.compare_eq_gt, not_lt]

lemma bisect_eq {fits : ℕ → Bool} {k turns low high : ℕ} (hlow : low ≤ k) (hhigh : k ≤ high)
    (hturns : high - low ≤ turns) (hfits : ∀ i ≤ high, fits i = true ↔ i ≤ k) :
    bisect fits turns low high = k := by
  induction turns generalizing low high with
  | zero =>
    rw [bisect]
    omega
  | succ turns ih =>
    rw [bisect]
    by_cases hlt : low < high
    · have hk := hfits (low + (high - low + 1) / 2) (by omega)
      rw [if_pos hlt]
      dsimp only
      split_ifs with hmiddle
      · exact ih (hk.mp hmiddle) hhigh (by omega) hfits
      · have hk := mt hk.mpr hmiddle
        exact ih hlow (by omega) (by omega) fun i hi => hfits i (by omega)
    · rw [if_neg hlt]
      omega

/-- The step of the long division: the remainder stays below the divisor, and what is read so far
is the quotient so far times the divisor, and the remainder. -/
lemma divideStep_spec (hβ : 1 < β) {d r : ℕ} {q : List ℕ} (hr : r < d) (hq : ∀ z ∈ q, z < β)
    (hx : x < β) :
    let out := divideStep β (digits β d) x (q, digits β r)
    out.2 = digits β ((x + β * r) % d) ∧ (∀ z ∈ out.1, z < β) ∧
      ofDigits β out.1 = (x + β * r) / d + β * ofDigits β q := by
  have hd : 0 < d := by omega
  have hremainder : trimmed (x :: digits β r) = digits β (x + β * r) := by
    rw [trimmed_eq hβ (forall_mem_cons.mpr ⟨hx, fun _ => digits_lt_base hβ⟩), ofDigits_cons,
      ofDigits_digits]
  -- the quotient limb is below the base, since the remainder is below the divisor
  have hlimb : (x + β * r) / d < β := by
    refine Nat.div_lt_of_lt_mul ?_
    have hmul := Nat.mul_le_mul_left β hr
    rw [Nat.mul_succ] at hmul
    rw [Nat.mul_comm d]
    omega
  have hlow : bisect (fun middle => cmp (times β (digits β d) (digits β middle))
      (trimmed (x :: digits β r)) ≠ .gt) (β - 1) 0 (β - 1) = (x + β * r) / d := by
    refine bisect_eq (Nat.zero_le _) (by omega) (by omega) fun i _ => ?_
    rw [hremainder, times_digits hβ, decide_eq_true_iff, cmp_ne_gt_iff hβ, Nat.le_div_iff_mul_le hd,
      Nat.mul_comm]
  have hle : d * ((x + β * r) / d) ≤ x + β * r := Nat.mul_div_le _ _
  rw [divideStep]
  simp only [hlow]
  refine ⟨?_, forall_mem_cons.mpr ⟨hlimb, hq⟩, by rw [ofDigits_cons]⟩
  rw [hremainder, times_digits hβ, minus_digits hβ hle, Nat.mod_def]

lemma dividedBy_digits (hβ : 1 < β) (m : ℕ) {d : ℕ} (hd : d ≠ 0) :
    dividedBy β (digits β m) (digits β d) = (digits β (m / d), digits β (m % d)) := by
  have hfold : ∀ xs : List ℕ, (∀ x ∈ xs, x < β) →
      let out := xs.foldr (divideStep β (digits β d)) ([], [])
      out.2 = digits β (ofDigits β xs % d) ∧ (∀ z ∈ out.1, z < β) ∧
        ofDigits β out.1 = ofDigits β xs / d := by
    intro xs hxs
    induction xs with
    | nil => simp
    | cons x xs ih =>
      rw [forall_mem_cons] at hxs
      obtain ⟨hrem, hsmall, hquot⟩ := ih hxs.2
      rw [foldr_cons]
      rw [← Prod.mk.eta (p := foldr (divideStep β (digits β d)) ([], []) xs), hrem]
      obtain ⟨hrem', hsmall', hquot'⟩ :=
        divideStep_spec hβ (Nat.mod_lt (ofDigits β xs) (Nat.pos_of_ne_zero hd)) hsmall hxs.1
      have hmod := Nat.mod_add_div (ofDigits β xs) d
      have hvalue : ofDigits β (x :: xs) =
          x + β * (ofDigits β xs % d) + d * (β * (ofDigits β xs / d)) := by
        rw [ofDigits_cons]
        nth_rewrite 1 [← hmod]
        ring
      refine ⟨?_, hsmall', ?_⟩
      · rw [hrem', hvalue, Nat.add_mul_mod_self_left]
      · rw [hquot', hquot, hvalue, Nat.add_mul_div_left _ _ (Nat.pos_of_ne_zero hd)]
  have hne : digits β d ≠ [] := digits_ne_nil_iff_ne_zero.mpr hd
  obtain ⟨hrem, hsmall, hquot⟩ := hfold (digits β m) fun _ => digits_lt_base hβ
  rw [dividedBy, if_neg hne]
  dsimp only
  rw [trimmed_eq hβ hsmall, hquot, hrem, ofDigits_digits]

end Limbs
