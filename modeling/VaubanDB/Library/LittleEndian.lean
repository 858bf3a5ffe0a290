import Mathlib.Tactic

/-!
Numbers as little-endian bytes.

`leBytes k n` are the `k` low bytes of `n`, the lowest first, and `leNat` reads them back:
`leNat_leBytes` for a number that fits, `leBytes_leNat` for bytes of the right length.
-/

/-- The `k` low bytes of a number, the lowest first. -/
def leBytes : ℕ → ℕ → List UInt8
  | 0, _ => []
  | k + 1, n => UInt8.ofNat (n % 256) :: leBytes k (n / 256)

/-- The number some bytes stand for, the lowest first. -/
def leNat : List UInt8 → ℕ
  | [] => 0
  | b :: bs => b.toNat + 256 * leNat bs

@[simp] lemma length_leBytes (k n : ℕ) : (leBytes k n).length = k := by
  induction k generalizing n with
  | zero => rfl
  | succ k ih => simp [leBytes, ih]

lemma leNat_leBytes {k n : ℕ} (h : n < 256 ^ k) : leNat (leBytes k n) = n := by
  induction k generalizing n with
  | zero => simp at h; simp [leBytes, leNat, h]
  | succ k ih =>
    have hdiv : n / 256 < 256 ^ k := by
      rw [Nat.div_lt_iff_lt_mul (by norm_num)]
      simpa [pow_succ] using h
    have hmod : (UInt8.ofNat (n % 256)).toNat = n % 256 := by simp [UInt8.toNat_ofNat']
    rw [leBytes, leNat, ih hdiv, hmod]
    omega

lemma leBytes_leNat (bs : List UInt8) :
    leBytes bs.length (leNat bs) = bs ∧ leNat bs < 256 ^ bs.length := by
  induction bs with
  | nil => exact ⟨rfl, by simp [leNat]⟩
  | cons b bs ih =>
    have hb : b.toNat < 256 := b.toNat_lt
    have hmod : (b.toNat + 256 * leNat bs) % 256 = b.toNat := by omega
    have hdiv : (b.toNat + 256 * leNat bs) / 256 = leNat bs := by omega
    rw [leNat, List.length_cons, leBytes, hmod, hdiv, ih.1, UInt8.ofNat_toNat, pow_succ]
    exact ⟨rfl, by omega⟩

def leField (bytes : List UInt8) (offset k : ℕ) : ℕ := leNat ((bytes.drop offset).take k)

lemma leField_append (before after : List UInt8) {k n : ℕ} (h : n < 256 ^ k) :
    leField (before ++ (leBytes k n ++ after)) before.length k = n := by
  simp [leField, leNat_leBytes h]

/-- Words of eight bytes, one after the other. -/
def leWords (words : List ℕ) : List UInt8 := words.flatMap (leBytes 8)

@[simp] lemma length_leWords (words : List ℕ) : (leWords words).length = 8 * words.length := by
  induction words with
  | nil => rfl
  | cons w ws ih =>
    simp only [leWords] at ih
    simp [leWords, ih]
    omega

lemma leField_leWords (before after : List UInt8) (words : List ℕ) (i : ℕ) {n : ℕ}
    (hi : words[i]? = some n) (hn : n < 256 ^ 8) :
    leField (before ++ (leWords words ++ after)) (before.length + 8 * i) 8 = n := by
  induction words generalizing before i with
  | nil => simp at hi
  | cons w ws ih =>
    cases i with
    | zero =>
      simp only [List.getElem?_cons_zero, Option.some.injEq] at hi
      subst hi
      rw [show leWords (w :: ws) = leBytes 8 w ++ leWords ws from rfl, List.append_assoc]
      exact leField_append _ _ hn
    | succ i =>
      have h := ih (before ++ leBytes 8 w) i (by simpa using hi)
      rw [show leWords (w :: ws) = leBytes 8 w ++ leWords ws from rfl]
      simpa [List.append_assoc, Nat.mul_add, Nat.add_assoc, Nat.add_comm 8] using h
