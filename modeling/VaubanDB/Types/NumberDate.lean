import VaubanDB.Library.Rounding
import VaubanDB.Types.Compare

/-!
Numbers as dates (`number_to_datetime` in `vauban-types/src/convert/datetime.rs`).

A number counts days from 1900-01-01.  Its product with the units of a day is formed on a reduced
fraction, in two halves; every machine operation on the way is checked, and answers `none` where it
would leave its word.
-/

open Rounding

namespace VaubanDB

/-- What a conversion raises: 8115 for a target, 529 for a pair, or an internal error. -/
inductive ConvertError where
  | arithmeticOverflow (target : SqlType)
  | explicitConversionNotAllowed (source target : SqlType)
  | bug (msg : String)
  deriving DecidableEq, Repr

/-- The exact value behind a numeric one. -/
inductive ExactValue where
  | scaled (mantissa : ℤ) (scale : ℕ)
  | double (bits : BitVec 64)

def exactValue : Value → Option ExactValue
  | .bit b => some (.scaled b.toNat 0)
  | .i8 n => some (.scaled n.toNat 0)
  | .i16 n => some (.scaled n.toInt 0)
  | .i32 n => some (.scaled n.toInt 0)
  | .i64 n => some (.scaled n.toInt 0)
  | .decimal d => some (.scaled d.mantissa.toInt d.scale.toNat)
  | .money n => some (.scaled n.toInt 4)
  | .f64 bits => some (.double bits)
  | .f32 bits => some (.double (f64OfF32 bits))
  | _ => none

def ticks300thPerDay : ℕ := 25920000

def ticks300thPerMinute : ℕ := 18000

/-- A day count that names no date, whatever the target. -/
def impossibleDay : ℕ := 2958464

def i128 (z : ℤ) : Option ℤ := if -2 ^ 127 ≤ z ∧ z < 2 ^ 127 then some z else none

def divRoundHalfAway (numerator denominator : ℤ) : Option ℤ := do
  let quotient := numerator.tdiv denominator
  let remainder := numerator.tmod denominator
  if remainder.natAbs * 2 < denominator.natAbs then return quotient
  if numerator < 0 then i128 (quotient - 1) else i128 (quotient + 1)

def gcd (a b : ℕ) : ℕ := if b = 0 then a else gcd b (a % b)
termination_by b
decreasing_by exact Nat.mod_lt _ (Nat.pos_of_ne_zero ‹_›)

/-- The inner `none` is a number that names no date. -/
def scaledUnits (mantissa : ℤ) (scale unitsPerDay : ℕ) : Option (Option ℤ) := do
  let power := 10 ^ scale
  if 2 ^ 127 ≤ power then return none
  if 2 ^ 127 ≤ mantissa.natAbs then return none
  if mantissa.natAbs / power > impossibleDay then return none
  let common := gcd unitsPerDay power
  let factor := unitsPerDay / common
  let divisor := power / common
  let whole ← i128 ((mantissa.natAbs / divisor : ℕ) * factor)
  let rest ← i128 ((mantissa.natAbs % divisor : ℕ) * factor)
  let total ← i128 (whole + (← divRoundHalfAway rest divisor))
  return some (if mantissa < 0 then -total else total)

/-- A finite double is a mantissa and a power of two. -/
def decompose (bits : BitVec 64) : Option (ℤ × ℤ) :=
  let biased : ℕ := bits.toNat / 2 ^ 52 % 2 ^ 11
  let fraction := bits.toNat % 2 ^ 52
  let signed (n : ℕ) : ℤ := if bits.msb then -n else n
  if biased = 2047 then none
  else if biased = 0 then some (signed fraction, -1074)
  else some (signed (fraction + 2 ^ 52), (biased : ℤ) - 1075)

def doubleUnits (bits : BitVec 64) (unitsPerDay : ℕ) : Option (Option ℤ) := do
  -- the magnitudes of floats are ordered like their bits; the bound is 2 958 464.0
  if bits.toNat % 2 ^ 63 > 0x4146924000000000 then return none
  match decompose bits with
  | none => return none
  | some (mantissa, exponent) =>
    let product ← i128 (mantissa * unitsPerDay)
    if 0 ≤ exponent then return some (← i128 (product * 2 ^ exponent.toNat))
    if 127 ≤ exponent.natAbs then return some 0
    return some (← divRoundHalfAway product (2 ^ exponent.natAbs))

def totalUnits (unitsPerDay : ℕ) : ExactValue → Option (Option ℤ)
  | .scaled mantissa scale => scaledUnits mantissa scale unitsPerDay
  | .double bits => doubleUnits bits unitsPerDay

/-- The units a target counts in a day, their ticks, and its first and last days. -/
def dateTarget : SqlType → Option (ℕ × ℕ × ℤ × ℤ)
  | .dateTime => some (ticks300thPerDay, 1, -53690, 2958463)
  | .smallDateTime => some (ticks300thPerDay / ticks300thPerMinute, ticks300thPerMinute, 0, 65535)
  | _ => none

def numberToDateTime (v : Value) (source target : SqlType) :
    Option (Except ConvertError Value) := do
  match exactValue v with
  | none => return .error (.bug "convert: a numeric type without a numeric value")
  | some value =>
    match dateTarget target with
    | none =>
      match target with
      | .date | .time _ | .dateTime2 _ | .dateTimeOffset _ =>
        return .error (.explicitConversionNotAllowed source target)
      | _ => return .error (.bug "convert: not a date target")
    | some (perDay, step, first, last) =>
      match ← totalUnits perDay value with
      | none => return .error (.arithmeticOverflow target)
      | some total =>
        let days := total / perDay
        if days < -2 ^ 31 ∨ 2 ^ 31 ≤ days then return .error (.arithmeticOverflow target)
        if days < first ∨ last < days then return .error (.arithmeticOverflow target)
        return .ok (.dateTime ⟨.ofInt days, .ofNat ((total % perDay).toNat * step)⟩)

/-! ### The product -/

lemma i128_eq {n : ℕ} (h : n < 2 ^ 127) : i128 n = some (n : ℤ) := by
  rw [i128, if_pos ⟨by omega, by exact_mod_cast h⟩]

lemma gcd_eq (a b : ℕ) : gcd a b = Nat.gcd a b := by
  fun_induction gcd a b with
  | case1 a => simp
  | case2 a b hb ih => rw [ih, Nat.gcd_comm b, ← Nat.gcd_rec, Nat.gcd_comm]

lemma divRoundHalfAway_eq {m : ℕ} (n : ℕ) (hm : m < 2 ^ 126) :
    divRoundHalfAway m n = some (roundedQuotient m n : ℤ) := by
  have hle := Nat.div_le_self m n
  rw [divRoundHalfAway, ← Int.ofNat_tdiv, ← Int.ofNat_tmod, Int.natAbs_natCast,
    Int.natAbs_natCast, if_neg (Int.natCast_nonneg m).not_gt, roundedQuotient, Nat.mul_comm 2]
  by_cases h : m % n * 2 < n
  · rw [if_pos h, if_neg h.not_ge]
    rfl
  · rw [if_neg h, if_pos (not_lt.mp h)]
    exact i128_eq (n := m / n + 1) (by omega)

lemma roundedQuotient_add_mul (a k : ℕ) {n : ℕ} (hn : 0 < n) :
    roundedQuotient (a + n * k) n = roundedQuotient a n + k := by
  rw [roundedQuotient, Nat.add_mul_div_left _ _ hn, Nat.add_mul_mod_self_left, roundedQuotient]
  omega

lemma sign_mul_eq {m : ℤ} {n : ℕ} (h : m = 0 → n = 0) :
    (if m < 0 then -(n : ℤ) else n) = m.sign * n := by
  rcases lt_trichotomy m 0 with hm | rfl | hm
  · simp [hm, Int.sign_eq_neg_one_of_neg]
  · simp [h]
  · simp [hm.not_gt, Int.sign_eq_one_of_pos hm]

/-- The fraction of a target, reduced: small enough for an `i128`. -/
structure ReducedFraction (scale perDay g factor divisor : ℕ) : Prop where
  gcd_eq : gcd perDay (10 ^ scale) = g
  perDay_eq : perDay = g * factor
  power_eq : 10 ^ scale = g * divisor
  g_pos : 0 < g
  factor_pos : 0 < factor
  divisor_pos : 0 < divisor
  perDay_le : perDay ≤ ticks300thPerDay
  small : divisor * factor < 2 ^ 125

lemma exists_reduced {scale perDay : ℕ} (hs : scale ≤ 38)
    (hu : perDay = ticks300thPerDay ∨ perDay = ticks300thPerDay / ticks300thPerMinute) :
    ∃ g factor divisor, ReducedFraction scale perDay g factor divisor := by
  have hsmall : ∀ scale < 39, ∀ perDay ∈ [25920000, 1440],
      10 ^ scale / perDay.gcd (10 ^ scale) * (perDay / perDay.gcd (10 ^ scale)) < 2 ^ 125 := by
    decide +kernel
  replace hsmall := hsmall scale (by omega) perDay (by rcases hu with rfl | rfl <;> decide)
  have hpos : 0 < perDay := by rcases hu with rfl | rfl <;> decide
  have hg := Nat.gcd_pos_of_pos_left (10 ^ scale) hpos
  have hfactor := Nat.gcd_dvd_left perDay (10 ^ scale)
  have hdivisor := Nat.gcd_dvd_right perDay (10 ^ scale)
  exact ⟨_, _, _, gcd_eq _ _, (Nat.mul_div_cancel' hfactor).symm,
    (Nat.mul_div_cancel' hdivisor).symm, hg, Nat.div_pos (Nat.le_of_dvd hpos hfactor) hg,
    Nat.div_pos (Nat.le_of_dvd (pow_pos (by decide) _) hdivisor) hg,
    by rcases hu with rfl | rfl <;> decide, hsmall⟩

namespace ReducedFraction

variable {scale perDay g factor divisor : ℕ} {m : ℤ}
  (h : ReducedFraction scale perDay g factor divisor)
include h

lemma roundHalfAway_eq (m : ℤ) : roundHalfAway (m / 10 ^ scale * perDay) =
    m.sign * roundedQuotient (m.natAbs * factor) divisor := by
  have hquotient : (m / 10 ^ scale * perDay : ℚ) = (m * factor : ℤ) / (divisor : ℤ) := by
    have hg : (g : ℚ) ≠ 0 := by exact_mod_cast h.g_pos.ne'
    have hpower : (10 ^ scale : ℚ) = g * divisor := by exact_mod_cast h.power_eq
    rw [hpower, h.perDay_eq]
    push_cast
    field_simp
  rw [hquotient, roundHalfAway_div _ (by exact_mod_cast h.divisor_pos.ne'), Int.natAbs_mul,
    Int.sign_mul, Int.natAbs_natCast, Int.natAbs_natCast,
    Int.sign_natCast_of_ne_zero h.factor_pos.ne', Int.sign_natCast_of_ne_zero h.divisor_pos.ne',
    mul_one, mul_one]

/-- The two halves of the product fit, and so does their sum. -/
lemma scaledUnits_eq (hs : scale ≤ 38) (hm : m.natAbs < 2 ^ 127) : scaledUnits m scale perDay = some
    (if m.natAbs / 10 ^ scale > impossibleDay then none
      else some (roundHalfAway (m / 10 ^ scale * perDay))) := by
  have hpower : 10 ^ scale < 2 ^ 127 :=
    (Nat.pow_le_pow_right (by decide) hs).trans_lt (by decide : 10 ^ 38 < 2 ^ 127)
  simp only [scaledUnits, if_neg hpower.not_ge, h.gcd_eq, if_neg hm.not_ge]
  by_cases hday : m.natAbs / 10 ^ scale > impossibleDay
  · simp only [if_pos hday, Option.pure_def]
  simp only [if_neg hday, h.roundHalfAway_eq m]
  have hfactor : perDay / g = factor := by rw [h.perDay_eq, Nat.mul_div_cancel_left _ h.g_pos]
  have hdivisor : 10 ^ scale / g = divisor := by rw [h.power_eq, Nat.mul_div_cancel_left _ h.g_pos]
  rw [hfactor, hdivisor]
  have hwhole : m.natAbs / divisor * factor < 2 ^ 125 := by
    have hmagnitude : m.natAbs < divisor * ((impossibleDay + 1) * g) := by
      have := Nat.lt_mul_of_div_lt (Nat.lt_succ_of_le (not_lt.mp hday)) (by positivity)
      rw [h.power_eq] at this
      linarith
    have hlt := Nat.mul_lt_mul_of_pos_right (Nat.div_lt_of_lt_mul hmagnitude) h.factor_pos
    rw [mul_assoc, ← h.perDay_eq] at hlt
    exact (hlt.trans_le (Nat.mul_le_mul_left _ h.perDay_le)).trans (by decide)
  have hrest : m.natAbs % divisor * factor < 2 ^ 125 :=
    (Nat.mul_lt_mul_of_pos_right (Nat.mod_lt _ h.divisor_pos) h.factor_pos).trans h.small
  have hround : roundedQuotient (m.natAbs % divisor * factor) divisor ≤
      m.natAbs % divisor * factor + 1 := by
    have := Nat.div_le_self (m.natAbs % divisor * factor) divisor
    rw [roundedQuotient]
    split_ifs <;> omega
  have hsum : m.natAbs / divisor * factor + roundedQuotient (m.natAbs % divisor * factor) divisor =
      roundedQuotient (m.natAbs * factor) divisor := by
    rw [Nat.add_comm, ← roundedQuotient_add_mul _ _ h.divisor_pos]
    congr 1
    nlinarith [Nat.mod_add_div m.natAbs divisor]
  rw [← Nat.cast_mul, i128_eq (by omega), Option.bind_eq_bind, Option.bind_some, ← Nat.cast_mul,
    i128_eq (by omega), Option.bind_some, divRoundHalfAway_eq _ (by omega), Option.bind_some,
    ← Nat.cast_add, i128_eq (by omega), Option.bind_some, hsum, sign_mul_eq]
  · rfl
  · rintro rfl
    simp [roundedQuotient, h.divisor_pos.ne']

lemma mul_le_abs (hday : m.natAbs / 10 ^ scale > impossibleDay) :
    ((impossibleDay + 1 : ℕ) * perDay : ℤ) ≤ |roundHalfAway (m / 10 ^ scale * perDay)| := by
  have hmagnitude : (impossibleDay + 1) * 10 ^ scale ≤ m.natAbs :=
    (Nat.le_div_iff_mul_le (by positivity)).mp hday
  have hquotient : (impossibleDay + 1) * perDay ≤ m.natAbs * factor / divisor := by
    rw [Nat.le_div_iff_mul_le h.divisor_pos, h.perDay_eq]
    rw [h.power_eq] at hmagnitude
    have := Nat.mul_le_mul_right factor hmagnitude
    linarith
  have hsign : |m.sign| = 1 := by
    rw [Int.abs_sign_of_ne_zero]
    rintro rfl
    simp at hday
  rw [h.roundHalfAway_eq, abs_mul, hsign, one_mul, Nat.abs_cast, roundedQuotient]
  exact_mod_cast hquotient.trans (Nat.le_add_right _ _)

end ReducedFraction

/-! ### The conversion -/

/-- The number an integer, an amount of money or a decimal stands for; 38 digits never reach the
least `i128`, which has no magnitude in the word. -/
inductive Value.Number : Value → ℚ → Prop
  | bit (b : Bool) : Number (.bit b) b.toNat
  | i8 (n : UInt8) : Number (.i8 n) n.toNat
  | i16 (n : Int16) : Number (.i16 n) n.toInt
  | i32 (n : Int32) : Number (.i32 n) n.toInt
  | i64 (n : Int64) : Number (.i64 n) n.toInt
  | money (n : Int64) : Number (.money n) (n.toInt / 10 ^ 4)
  | decimal (d : Decimal) (hm : d.mantissa.toInt.natAbs < 2 ^ 127) (hs : d.scale.toNat ≤ 38) :
      Number (.decimal d) (d.mantissa.toInt / 10 ^ d.scale.toNat)

lemma Value.Number.exactValue_eq {v : Value} {q : ℚ} (h : v.Number q) :
    ∃ (m : ℤ) (scale : ℕ), exactValue v = some (.scaled m scale) ∧ q = m / 10 ^ scale ∧
      m.natAbs < 2 ^ 127 ∧ scale ≤ 38 := by
  cases h with
  | bit b => exact ⟨_, _, rfl, by simp, by cases b <;> decide, by decide⟩
  | i8 n => exact ⟨_, _, rfl, by simp, by have := n.toNat_lt; omega, by decide⟩
  | i16 n | i32 n =>
    exact ⟨_, _, rfl, by simp, by have := n.toInt_lt; have := n.le_toInt; omega, by decide⟩
  | i64 n => exact ⟨_, _, rfl, by simp, by have := n.toInt_lt; have := n.le_toInt; omega, by decide⟩
  | money n => exact ⟨_, _, rfl, rfl, by have := n.toInt_lt; have := n.le_toInt; omega, by decide⟩
  | decimal d hm hs => exact ⟨_, _, rfl, rfl, hm, hs⟩

lemma dateTarget_spec {target : SqlType} {perDay step : ℕ} {first last : ℤ}
    (h : dateTarget target = some (perDay, step, first, last)) :
    (perDay = ticks300thPerDay ∨ perDay = ticks300thPerDay / ticks300thPerMinute) ∧
      perDay * step = ticks300thPerDay ∧ -53690 ≤ first ∧ last ≤ 2958463 := by
  cases target <;> cases h <;> decide

/-- **Numbers convert exactly**: to the day and the time of day of the rounded product, or, when
that instant is outside the calendar of the target, to 8115. -/
theorem numbers_convert_exactly {v : Value} {q : ℚ} (hv : v.Number q) (source : SqlType)
    {target : SqlType} {perDay step : ℕ} {first last : ℤ}
    (ht : dateTarget target = some (perDay, step, first, last)) :
    (first ≤ roundHalfAway (q * perDay) / perDay ∧ roundHalfAway (q * perDay) / perDay ≤ last →
      ∃ d : DateTime, numberToDateTime v source target = some (.ok (.dateTime d)) ∧
        d.days.toInt = roundHalfAway (q * perDay) / perDay ∧
        d.ticks300th.toNat = roundHalfAway (q * perDay) % perDay * step) ∧
    (¬ (first ≤ roundHalfAway (q * perDay) / perDay ∧ roundHalfAway (q * perDay) / perDay ≤ last) →
      numberToDateTime v source target = some (.error (.arithmeticOverflow target))) := by
  obtain ⟨m, scale, hexact, rfl, hm, hs⟩ := hv.exactValue_eq
  obtain ⟨hu, hstep, hfirst, hlast⟩ := dateTarget_spec ht
  obtain ⟨g, factor, divisor, hreduced⟩ := exists_reduced hs hu
  have hpos : 0 < (perDay : ℤ) := by rcases hu with rfl | rfl <;> decide
  simp only [numberToDateTime, hexact, ht, totalUnits, hreduced.scaledUnits_eq hs hm,
    Option.bind_eq_bind, Option.bind_some, Option.pure_def]
  have hfar := hreduced.mul_le_abs (m := m)
  generalize roundHalfAway (m / 10 ^ scale * perDay) = total at *
  split_ifs with hday
  · -- past the guard
    refine ⟨?_, fun _ => rfl⟩
    rintro ⟨hge, hle⟩
    have hge' := (Int.le_ediv_iff_mul_le hpos).mp (hfirst.trans hge)
    have hle' := (Int.ediv_lt_iff_lt_mul hpos).mp (Int.lt_add_one_of_le (hle.trans hlast))
    have hfar := hfar hday
    rw [impossibleDay] at hfar
    rcases abs_cases total with ⟨habs, _⟩ | ⟨habs, _⟩ <;> rw [habs] at hfar <;>
      push_cast at hfar <;> nlinarith
  · have hrest := Int.emod_nonneg total hpos.ne'
    have hrest' := Int.emod_lt_of_pos total hpos
    dsimp only
    generalize total / perDay = day at *
    generalize total % perDay = rest at *
    refine ⟨fun hin => ⟨⟨.ofInt day, .ofNat (rest.toNat * step)⟩, ?_, ?_, ?_⟩, fun hout => ?_⟩
    · simp only [if_neg (show ¬ (day < -2 ^ 31 ∨ 2 ^ 31 ≤ day) by omega),
        if_neg (show ¬ (day < first ∨ last < day) by omega)]
    · exact Int32.toInt_ofInt_of_le (by simp; omega) (by simp; omega)
    · have hticks : rest.toNat * step < 2 ^ 32 := by
        have := Nat.mul_le_mul_right step (show rest.toNat ≤ perDay by omega)
        rw [hstep] at this
        exact this.trans_lt (by decide)
      rw [UInt32.toNat_ofNat_of_lt' hticks, Nat.cast_mul, Int.toNat_of_nonneg hrest]
    · simp only [if_pos (show day < first ∨ last < day by omega), ite_self]

/-- An amount of 0.0035 is five minutes and a fraction. -/
theorem small_amount_converts_exactly : ∃ d : DateTime,
    numberToDateTime (.money 35) .money .smallDateTime = some (.ok (.dateTime d)) ∧
      d.days.toInt = 0 ∧ d.ticks300th.toNat = 5 * ticks300thPerMinute := by
  obtain ⟨d, hd, hdays, hticks⟩ := (numbers_convert_exactly (.money 35) .money
    (show dateTarget .smallDateTime = some _ from rfl)).1 (by decide +kernel)
  have hfive : (d.ticks300th.toNat : ℤ) = (5 * ticks300thPerMinute : ℕ) :=
    hticks.trans (by decide +kernel)
  exact ⟨d, hd, hdays.trans (by decide +kernel), by exact_mod_cast hfive⟩

end VaubanDB
