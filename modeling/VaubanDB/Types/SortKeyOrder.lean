import VaubanDB.Types.SortKey

/-!
The order of the sort keys is the order of `compare` (`sortKeys_embed_compare`).

The bytes of a value are told apart from those of any other value, family by family and, for a
string, level by level.  The weight of a character at the last level holds its position in its upper
half, a key keeps 64 bits of it, so the keys follow the comparison for the strings of fewer than
`2^32` characters.
-/

open Std (TransCmp ReflCmp LawfulEqCmp)

namespace VaubanDB

open Option (elim some mem_unique)
open List (replicate replicate_succ append_nil cons_append append_assoc nil_append mem_cons
  length_cons mem_cons_self mem_map compareLex map_cons map_nil)
open Decimal

variable {n : ℕ} {level : Level} {m : ℕ}

namespace Collation

variable {c : Collation} {t : Table}

/-! ### Weights -/

def Width.bound : Width → ℕ
  | .two => 2 ^ 16
  | .wide => 2 ^ 24
  | .eight => 2 ^ 64

lemma putWeight_wide_lt (hm : m < wideFrom) (hn : ¬n < wideFrom) :
    TellsApart (putWeight .wide m) (putWeight .wide n) .lt := by
  have hbyte : Ord.compare (UInt8.ofNat (m / 256 ^ 1 % 256)) 0xFF = .lt := by
    rw [UInt8.compare_eq_toNat_compare_toNat, Nat.compare_eq_lt, UInt8.toNat_ofNat']
    rw [wideFrom] at hm
    have : m / 256 ^ 1 < 255 := by omega
    simp only [UInt8.reduceToNat]
    omega
  rw [putWeight, putWeight, if_pos hm, if_neg hn, beBytes]
  exact .cons_lt hbyte _ _

lemma putWeight_tellsApart {width : Width} (hm : m < width.bound) (hn : n < width.bound) :
    TellsApart (putWeight width m) (putWeight width n) (Ord.compare m n) := by
  cases width with
  | two | eight => exact beBytes_tellsApart_of_lt hm hn
  | wide =>
    by_cases hm' : m < wideFrom <;> by_cases hn' : n < wideFrom
    · rw [putWeight, putWeight, if_pos hm', if_pos hn']
      rw [wideFrom] at hm' hn'
      exact beBytes_tellsApart_of_lt (by omega) (by omega)
    · rw [Nat.compare_eq_lt.mpr (by omega)]
      exact putWeight_wide_lt hm' hn'
    · rw [Nat.compare_eq_gt.mpr (by omega)]
      exact (putWeight_wide_lt hn' hm').swap
    · rw [putWeight, putWeight, if_neg hm', if_neg hn']
      exact (beBytes_tellsApart_of_lt hm hn).cons_self 0xFF

/-! ### Padded levels -/

variable {xs ys : List ℕ}

namespace PaddedLevel

abbrev code (pad : ℕ) (width : Width) : List ℕ → List UInt8 :=
  paddedCode Ord.compare pad (putWeight width) below stop above

variable {pad : ℕ} {width : Width}

lemma padCmp_replicate (pad p : ℕ) (ws : List ℕ) :
    padCmp Ord.compare pad (replicate p pad ++ ws) [] = padCmp Ord.compare pad ws [] := by
  induction p with
  | zero => rfl
  | succ p ih =>
    rw [padCmp_headD_tail]
    simpa [replicate_succ] using ih

lemma code_replicate (p : ℕ) :
    code pad width (replicate p pad) = putWeight width pad ++ [stop] := by
  cases p with
  | zero => rfl
  | succ p =>
    have h := padCmp_replicate pad p []
    rw [append_nil, @ReflCmp.compare_self _ (padCmp Ord.compare pad)] at h
    simp [replicate_succ, paddedCode, h]

/-- Padding followed by another weight carries the flag of that weight. -/
lemma code_replicate_cons {w : ℕ} (hw : w ≠ pad) (p : ℕ) (ws : List ℕ) :
    code pad width (replicate p pad ++ w :: ws)
      = (replicate p (putWeight width pad ++ [if w < pad then below else above])).flatten
        ++ (putWeight width w ++ code pad width ws) := by
  induction p with
  | zero => simp [paddedCode, hw]
  | succ p ih =>
    have h := padCmp_replicate pad p (w :: ws)
    rw [padCmp_headD_tail (w :: ws)] at h
    rw [replicate_succ, cons_append, code, paddedCode, if_pos rfl, h,
      replicate_succ, List.flatten_cons, append_assoc, ← ih]
    rcases Nat.lt_or_gt_of_ne hw with hlt | hgt
    · simp [Nat.compare_eq_lt.mpr hlt, hlt]
    · simp [Nat.compare_eq_gt.mpr hgt, Nat.lt_asymm hgt]

/-- **The loop over the weights writes the code of the padded list**, the pending padding
being what it has read and not written. -/
lemma write_eq (p : ℕ) (ws : List ℕ) :
    write ⟨pad, width, p⟩ ws = code pad width (replicate p pad ++ ws) := by
  induction ws generalizing p with
  | nil => rw [append_nil, code_replicate]; rfl
  | cons w ws ih =>
    by_cases hw : w = pad
    · simp only [write, push, if_pos hw]
      rw [nil_append, ih (p + 1), hw, List.replicate_succ', append_assoc, List.singleton_append]
    · simp only [write, push, if_neg hw]
      rw [ih 0, code_replicate_cons hw, append_assoc]
      rfl

lemma write_tellsApart (hpad : pad < width.bound)
    (hxs : ∀ x ∈ xs, x < width.bound) (hys : ∀ y ∈ ys, y < width.bound) :
    TellsApart (write ⟨pad, width, 0⟩ xs) (write ⟨pad, width, 0⟩ ys)
      (padCmp Ord.compare pad xs ys) := by
  rw [write_eq, write_eq, List.replicate_zero, nil_append, nil_append]
  exact paddedCode_tellsApart (s := {n | n < width.bound}) (by decide) (by decide) hpad
    (fun x hx y hy => putWeight_tellsApart hx hy) hxs hys

end PaddedLevel

/-! ### The weights fit their width -/

/-- The rows of a table hold 16-bit weights. -/
def Table.Narrow (t : Table) : Prop :=
  ∀ row ∈ t.weights, row.primary < 2 ^ 16 ∧ row.accent < 2 ^ 16 ∧ row.caseAccent < 2 ^ 16 ∧
    row.caseOnly < 2 ^ 16

lemma rules_narrow (hr : c.rules = .table t) : t.Narrow := by
  rw [rules] at hr
  split_ifs at hr
  all_goals
    cases hr
    unfold Table.Narrow
    decide +kernel

lemma Table.Narrow.row (h : t.Narrow) (byte : ℕ) :
    (t.row byte).primary < 2 ^ 16 ∧ (t.row byte).accent < 2 ^ 16 ∧
      (t.row byte).caseAccent < 2 ^ 16 ∧ (t.row byte).caseOnly < 2 ^ 16 := by
  rw [Table.row, List.getD_eq_getElem?_getD]
  cases hrow : t.weights[byte]? with
  | none => decide
  | some row => exact h row (List.mem_of_getElem? hrow)

lemma char_toNat_lt (ch : Char) : ch.toNat < 0x110000 := by
  rcases ch.valid with h | h
  · exact h.trans (by decide)
  · exact h.2

/-- The code a character is looked up under, with its width and its kana. -/
def foldedForm (code : ℕ) : ℕ × Bool × Bool :=
  if 0xFF01 ≤ code ∧ code ≤ 0xFF5E then (code - 0xFEE0, true, false)
  else if 0x30A1 ≤ code ∧ code ≤ 0x30F6 then (code - 0x60, false, false)
  else if 0x3041 ≤ code ∧ code ≤ 0x3096 then (code, false, true)
  else (code, false, false)

/-- The element of a folded character. -/
def Table.elementOf (t : Table) (form : ℕ × Bool × Bool) : Element :=
  match cp1252Byte (Char.ofNat form.1) with
  | some byte => ⟨t.row byte, none, form.2.1, form.2.2⟩
  | none => ⟨w 0 0 0 0, some (primaryAboveTable + form.1), form.2.1, form.2.2⟩

lemma Table.element_eq (t : Table) (ch : Char) :
    t.element ch = t.elementOf (foldedForm ch.toNat) := rfl

lemma foldedForm_lt {code : ℕ} (h : code < 0x110000) : (foldedForm code).1 < 0x110000 := by
  unfold foldedForm
  split_ifs <;> dsimp only <;> omega

variable (h : t.Narrow)
include h

lemma Table.Narrow.element (ch : Char) :
    (t.element ch).primaryWeight < 2 ^ 24 ∧ (t.element ch).weights.accent < 2 ^ 16 ∧
      (t.element ch).weights.caseAccent < 2 ^ 16 ∧ (t.element ch).weights.caseOnly < 2 ^ 16 := by
  have hform := foldedForm_lt (char_toNat_lt ch)
  rw [t.element_eq]
  generalize foldedForm ch.toNat = form at hform ⊢
  unfold elementOf
  cases cp1252Byte (Char.ofNat form.1) with
  | some byte =>
    have hrow := h.row byte
    exact ⟨hrow.1.trans (by decide), hrow.2⟩
  | none =>
    refine ⟨?_, Nat.two_pow_pos 16, Nat.two_pow_pos 16, Nat.two_pow_pos 16⟩
    simp only [Element.primaryWeight, Option.getD_some, primaryAboveTable]
    omega

lemma Table.Narrow.weight (ch : Char) (hl : level ≠ .last) :
    (t.element ch).weight level c < (levelWidth level).bound := by
  obtain ⟨hp, ha, hca, hco⟩ := h.element ch
  cases level with
  | primary => exact hp
  | accent => exact ha
  | own => exact (by decide : (0 : ℕ) < 2 ^ 24)
  | last => exact absurd rfl hl
  | tertiary =>
    have hb : ∀ b : Bool, b.toNat ≤ 1 := by decide
    have h1 := hb (!c.has flagIgnoreWidth && (t.element ch).wide)
    have h2 := hb (!c.has flagIgnoreKana && (t.element ch).hiragana)
    simp only [Element.weight, levelWidth, Width.bound]
    split_ifs <;> omega

/-- What the characters of a table contribute fits. -/
inductive CollationUnit.Fits (c : Collation) : CollationUnit → Prop where
  | ignored : Fits c .ignored
  | last {weight : ℕ} (h : weight < 2 ^ 32) : Fits c (.last weight)
  | elements {first : Element} {second : Option Element} {own : ℕ}
      (hfirst : ∀ level, level ≠ .last → first.weight level c < (levelWidth level).bound)
      (hsecond : ∀ e ∈ second, ∀ level, level ≠ .last →
        e.weight level c < (levelWidth level).bound)
      (hown : own < 2 ^ 24) : Fits c (.elements first second own)

lemma Table.Narrow.unit (ch : Char) : (t.unit ch).Fits c := by
  have hone : ∀ x : Char, ∀ level, level ≠ .last →
      (t.element x).weight level c < (levelWidth level).bound := fun x level hl => h.weight x hl
  have hlast : ∀ (narrow : Char) (wide : Bool),
      2 * ((cp1252Byte narrow).elim 0 fun byte => (t.row byte).caseAccent) + wide.toNat
        < 2 ^ 32 := by
    intro narrow wide
    have hb : wide.toNat ≤ 1 := by cases wide <;> decide
    cases cp1252Byte narrow with
    | none => simp only [elim]; omega
    | some byte =>
      have hrow := (h.row byte).2.2.1
      simp only [elim]
      omega
  unfold Table.unit
  split_ifs
  · exact .elements (hone ch) (by simp) (h.element ch).1
  · exact .ignored
  · dsimp only
    generalize (t.expansions.find? fun e => e.1 == ch) = expansion
    generalize (t.aliases.find? fun e => e.1 == ch).elim ch Prod.snd = letter
    have hpair : ∀ e : Char × Char × Char, (CollationUnit.elements (t.element e.2.1)
        (some (t.element e.2.2)) (t.element ch).primaryWeight).Fits c := by
      refine fun e => .elements (hone e.2.1) ?_ (h.element ch).1
      rintro _ ⟨⟩
      exact hone e.2.2
    cases expansion with
    | none =>
      split_ifs
      all_goals first
        | exact .last (hlast _ _)
        | exact .elements (hone letter) (by simp) (h.element ch).1
    | some e => split_ifs <;> first | exact .last (hlast _ _) | exact hpair e

lemma weightsFrom_lt (hl : level ≠ .last) (n : ℕ) (s : List Char) :
    ∀ x ∈ c.weightsFrom t level n s, x < (levelWidth level).bound := by
  induction s generalizing n with
  | nil => simp [weightsFrom]
  | cons ch s ih =>
    have hu := h.unit (c := c) ch
    cases hch : t.unit ch with
    | ignored =>
      simp only [weightsFrom, hch]
      exact ih n
    | last weight =>
      have hnil : c.unitWeights level n (.last weight) = [] := by
        cases level <;> simp_all [unitWeights]
      simp only [weightsFrom, hch, hnil, nil_append]
      exact ih (n + 1)
    | elements first second own =>
      rw [hch] at hu
      cases hu with
      | elements hfirst hsecond hown =>
        simp only [weightsFrom, hch, List.mem_append]
        rintro x (hx | hx)
        · cases level with
          | last => exact absurd rfl hl
          | own =>
            simp only [unitWeights, List.mem_singleton] at hx
            exact hx ▸ hown
          | _ =>
            simp only [unitWeights, mem_cons, Option.mem_toList, Option.map_eq_some_iff] at hx
            rcases hx with rfl | ⟨e, he, rfl⟩
            · exact hfirst _ hl
            · exact hsecond e he _ hl
        · exact ih (n + 1) x hx

lemma weightsFrom_last_lt (n : ℕ) (s : List Char) :
    ∀ x ∈ c.weightsFrom t .last n s, x < (n + s.length) * 2 ^ 32 := by
  induction s generalizing n with
  | nil => simp [weightsFrom]
  | cons ch s ih =>
    have hu := h.unit (c := c) ch
    have hrest : ∀ x ∈ c.weightsFrom t .last (n + 1) s, x < (n + (ch :: s).length) * 2 ^ 32 := by
      intro x hx
      refine (ih (n + 1) x hx).trans_le (Nat.mul_le_mul_right _ ?_)
      rw [length_cons]
      omega
    cases hch : t.unit ch with
    | ignored =>
      simp only [weightsFrom, hch, length_cons]
      exact fun x hx => (ih n x hx).trans_le (Nat.mul_le_mul_right _ (by omega))
    | last weight =>
      rw [hch] at hu
      cases hu with
      | last hw =>
        simp only [weightsFrom, hch, unitWeights, List.mem_append, List.mem_singleton]
        rintro x (rfl | hx)
        · rw [length_cons]
          split_ifs <;> omega
        · exact hrest x hx
    | elements first second own =>
      simp only [weightsFrom, hch, unitWeights, nil_append]
      exact hrest

omit h

lemma padding_lt (hrows : t.AsciiRows) (h : t.Narrow) (hl : level ≠ .last) :
    c.asciiWeight (t.row 0x20) level < (levelWidth level).bound := by
  have hspace := weightsFrom_lt (c := c) h hl 0 [' ']
  rw [weightsFrom_cons_plain hrows hl (by decide)
    (show t.asciiClass (' ' : Char).toNat = .plain from hrows.space)] at hspace
  exact hspace _ mem_cons_self

/-! ### The keys of two strings -/

/-- The order of the keys of a level, from the 64 bits of each weight a key keeps. -/
def levelKeyOrder (c : Collation) (t : Table) (level : Level) (a b : List Char) : Ordering :=
  compareSequences ((c.levelWeights t a level).map (· % 2 ^ 64))
    ((c.levelWeights t b level).map (· % 2 ^ 64)) (c.padding t level)

lemma map_mod_of_lt (h : ∀ x ∈ xs, x < m) : xs.map (· % m) = xs := by
  rw [List.map_congr_left fun x hx => Nat.mod_eq_of_lt (h x hx), List.map_id']

lemma bound_le (width : Width) : width.bound ≤ 2 ^ 64 := by
  cases width <;> decide

lemma levelKeyOrder_of_ne (h : t.Narrow) (hl : level ≠ .last) (a b : List Char) :
    c.levelKeyOrder t level a b = c.levelOrder t level a b := by
  have hlt : ∀ s, ∀ x ∈ c.levelWeights t s level, x < 2 ^ 64 := by
    intro s x hx
    rw [levelWeights_eq_from] at hx
    exact (weightsFrom_lt h hl 0 s x hx).trans_le (bound_le _)
  rw [levelKeyOrder, map_mod_of_lt (hlt a), map_mod_of_lt (hlt b), levelOrder]

lemma levelKeyOrder_of_length (h : t.Narrow) {a b : List Char} (ha : a.length < 2 ^ 32)
    (hb : b.length < 2 ^ 32) (level : Level) :
    c.levelKeyOrder t level a b = c.levelOrder t level a b := by
  by_cases hl : level = .last
  · subst hl
    have hlt : ∀ s : List Char, s.length < 2 ^ 32 → ∀ x ∈ c.levelWeights t s .last, x < 2 ^ 64 := by
      intro s hs x hx
      rw [levelWeights_eq_from] at hx
      have := weightsFrom_last_lt h 0 s x hx
      omega
    rw [levelKeyOrder, map_mod_of_lt (hlt a ha), map_mod_of_lt (hlt b hb), levelOrder]
  · exact levelKeyOrder_of_ne h hl a b

lemma writeAsciiLevel_eq (hrows : t.AsciiRows) {s : List Char} (hs : ∀ ch ∈ s, ch.toNat < 128)
    (level : Level) : c.writeAsciiLevel t s level = c.writeLevel t s level := by
  rw [writeAsciiLevel, writeLevel]
  split_ifs with hl
  · subst hl
    rw [levelWeights_eq_from, weightsFrom_ascii_last hrows hs]
    rfl
  · have hpad := padding_eq (c := c) hrows hl
    rw [padding, if_neg hl] at hpad
    rw [hpad, levelWeights_eq_from, weightsFrom_ascii hrows hl hs]
    rfl

lemma writeLevel_tellsApart (hrows : t.AsciiRows) (h : t.Narrow) (level : Level) (a b : List Char) :
    TellsApart (c.writeLevel t a level) (c.writeLevel t b level) (c.levelKeyOrder t level a b) := by
  rw [writeLevel, writeLevel]
  split_ifs with hl
  · subst hl
    have hput : ∀ x, putWeight .eight x = putWeight .eight (x % 2 ^ 64) := fun x => by
      have := beBytes_tellsApart 8 x (x % 2 ^ 64)
      rw [show (256 ^ 8 : ℕ) = 2 ^ 64 from rfl, Nat.mod_mod, Nat.compare_eq_eq.mpr rfl] at this
      exact this.eq_iff.mpr rfl
    have hcode : ∀ s, ((c.levelWeights t s .last).flatMap fun weight =>
        writeUnpadded weight .eight) ++ [keyEnd]
        = listCode (putWeight .eight) keyMore keyEnd
          ((c.levelWeights t s .last).map (· % 2 ^ 64)) := by
      intro s
      rw [listCode, List.flatMap_map]
      simp only [writeUnpadded, ← hput]
    rw [hcode, hcode]
    refine listCode_tellsApart (by decide) fun x hx y hy => ?_
    obtain ⟨x, -, rfl⟩ := mem_map.mp hx
    obtain ⟨y, -, rfl⟩ := mem_map.mp hy
    exact putWeight_tellsApart (Nat.mod_lt _ (by decide)) (Nat.mod_lt _ (by decide))
  · have hpad := padding_eq (c := c) hrows hl
    rw [levelKeyOrder_of_ne h hl, levelOrder, hpad]
    rw [padding, if_neg hl] at hpad
    rw [hpad]
    simp only [levelWeights_eq_from]
    exact PaddedLevel.write_tellsApart (padding_lt hrows h hl) (weightsFrom_lt h hl 0 a)
      (weightsFrom_lt h hl 0 b)

lemma utf16_lt (ch : Char) : ∀ u ∈ utf16 ch, u < 2 ^ 16 := by
  have hch := char_toNat_lt ch
  intro u hu
  rw [utf16] at hu
  split_ifs at hu with h
  · rw [List.mem_singleton] at hu
    omega
  · simp only [mem_cons, List.not_mem_nil, or_false] at hu
    omega

lemma units_lt (s : List Char) : ∀ u ∈ s.flatMap utf16, u < 2 ^ 16 := by
  intro u hu
  obtain ⟨ch, -, hch⟩ := List.mem_flatMap.mp hu
  exact utf16_lt ch u hch

lemma compareLex_leBytes (hx : ∀ u ∈ xs, u < 2 ^ 16) (hy : ∀ u ∈ ys, u < 2 ^ 16) :
    compareLex Ord.compare (xs.flatMap (leBytes 2)) (ys.flatMap (leBytes 2))
      = compareLex Ord.compare (xs.flatMap fun u => [u % 256, u / 256])
        (ys.flatMap fun u => [u % 256, u / 256]) := by
  have hbytes : ∀ zs : List ℕ, (∀ u ∈ zs, u < 2 ^ 16) →
      (zs.flatMap fun u => [u % 256, u / 256]) = (zs.flatMap (leBytes 2)).map UInt8.toNat := by
    intro zs hz
    rw [List.map_flatMap]
    refine List.flatMap_congr fun u hu => ?_
    have := hz u hu
    have hhigh : u / 256 % 256 = u / 256 := Nat.mod_eq_of_lt (by omega)
    simp [leBytes, hhigh]
  have hmap : ∀ as bs : List UInt8, compareLex Ord.compare (as.map UInt8.toNat)
      (bs.map UInt8.toNat) = compareLex Ord.compare as bs := by
    intro as
    induction as with
    | nil => intro bs; cases bs <;> rfl
    | cons x as ih =>
      intro bs
      cases bs with
      | nil => rfl
      | cons y bs =>
        rw [map_cons, map_cons, List.compareLex_cons_cons,
          List.compareLex_cons_cons, ih, UInt8.compare_eq_toNat_compare_toNat]
  rw [hbytes xs hx, hbytes ys hy, hmap]

lemma writeBinaryKey_tellsApart (hx : ∀ u ∈ xs, u < 2 ^ 16) (hy : ∀ u ∈ ys, u < 2 ^ 16) :
    TellsApart (writeBinaryKey xs) (writeBinaryKey ys) (compareBinary xs ys) := by
  cases xs with
  | nil =>
    cases ys with
    | nil => exact TellsApart.nil.cons_self keyEnd
    | cons y ys => exact .cons_lt (by decide) _ _
  | cons x xs =>
    cases ys with
    | nil => exact .cons_gt (by decide) _ _
    | cons y ys =>
      have hfirst : TellsApart (putWeight .two x) (putWeight .two y) (Ord.compare x y) :=
        putWeight_tellsApart (hx x mem_cons_self) (hy y mem_cons_self)
      have hrest := escapeBytes_tellsApart (xs.flatMap (leBytes 2)) (ys.flatMap (leBytes 2))
      rw [compareLex_leBytes (fun u hu => hx u (List.mem_cons_of_mem _ hu))
        fun u hu => hy u (List.mem_cons_of_mem _ hu)] at hrest
      simp only [writeBinaryKey, writeUnpadded, append_assoc, cons_append]
      exact (hfirst.append hrest).cons_self keyMore

def keyOrder (c : Collation) (a b : String) : Ordering :=
  match c.rules with
  | .binary => compareBinary ((trimEnd a.toList).flatMap utf16) ((trimEnd b.toList).flatMap utf16)
  | .binary2 => compareSequences (a.toList.flatMap utf16) (b.toList.flatMap utf16) (some 0x20)
  | .table t =>
    ((c.levels t).map fun level => c.levelKeyOrder t level a.toList b.toList).foldr
      Ordering.then .eq

/-- **The keys of two strings are told apart as `keyOrder` says**, whatever their lengths. -/
lemma writeStringKey_tellsApart (c : Collation) (a b : String) :
    TellsApart (c.writeStringKey a) (c.writeStringKey b) (c.keyOrder a b) := by
  unfold writeStringKey keyOrder
  cases hr : c.rules with
  | binary => exact writeBinaryKey_tellsApart (units_lt _) (units_lt _)
  | binary2 =>
    exact PaddedLevel.write_tellsApart (show 0x20 < Width.two.bound by decide) (units_lt _)
      (units_lt _)
  | table t =>
    have hascii : ∀ s : String, ((c.levels t).flatMap fun level =>
        if s.toList.all (·.toNat < 128) then c.writeAsciiLevel t s.toList level
        else c.writeLevel t s.toList level)
        = (c.levels t).flatMap fun level => c.writeLevel t s.toList level := by
      intro s
      refine List.flatMap_congr fun level _ => ?_
      split_ifs with hs
      · simp only [List.all_eq_true, decide_eq_true_eq] at hs
        exact writeAsciiLevel_eq (rules_asciiRows hr) hs level
      · rfl
    have hlevel : ∀ word ∈ (c.levels t).map fun level => (c.writeLevel t a.toList level,
        c.writeLevel t b.toList level, c.levelKeyOrder t level a.toList b.toList),
        TellsApart word.1 word.2.1 word.2.2 := by
      simp only [mem_map]
      rintro _ ⟨level, -, rfl⟩
      exact writeLevel_tellsApart (rules_asciiRows hr) (rules_narrow hr) level _ _
    have hlevels := TellsApart.flatten hlevel
    simp only [List.flatMap_map, List.map_map] at hlevels
    simp only [hascii]
    exact hlevels

/-- The comparison of the rules without any shortcut: of the code units, or of the weights
level by level. -/
def plainOrder (c : Collation) (a b : String) : Ordering :=
  match c.rules with
  | .binary => compareBinary ((trimEnd a.toList).flatMap utf16) ((trimEnd b.toList).flatMap utf16)
  | .binary2 => compareSequences (a.toList.flatMap utf16) (b.toList.flatMap utf16) (some 0x20)
  | .table t => c.compareLevels t a.toList b.toList (c.levels t)

lemma compare_eq_plainOrder (c : Collation) (a b : String) : c.compare a b = c.plainOrder a b := by
  rw [compare_eq_ruleOrder, ruleOrder, plainOrder]
  cases hr : c.rules with
  | binary => rfl
  | binary2 => rfl
  | table t => exact compareWeighted_eq_levels (rules_asciiRows hr) _ _

lemma keyOrder_eq_compare {a b : String} (ha : a.length < 2 ^ 32) (hb : b.length < 2 ^ 32) :
    c.keyOrder a b = c.compare a b := by
  rw [compare_eq_plainOrder, plainOrder, keyOrder]
  cases hr : c.rules with
  | binary => rfl
  | binary2 => rfl
  | table t =>
    rw [← String.length_toList] at ha hb
    simp only [levelKeyOrder_of_length (rules_narrow hr) ha hb]
    induction c.levels t with
    | nil => rfl
    | cons level ls ih => rw [map_cons, List.foldr_cons, ih, compareLevels_cons_level]

end Collation

/-! ### The other families -/

variable {y : ℤ}

lemma compare_of_add {x k : ℤ} (hm : (m : ℤ) = x + k) (hn : (n : ℤ) = y + k) :
    Ord.compare m n = Ord.compare x y :=
  compare_eq_compare (by omega) (by omega)

lemma xor_two_pow {k : ℕ} (h : n < 2 ^ (k + 1)) :
    n ^^^ 2 ^ k = if n < 2 ^ k then n + 2 ^ k else n - 2 ^ k := by
  have hmod := Nat.xor_mod_two_pow (a := n) (b := 2 ^ k) (n := k)
  have hdiv := Nat.xor_div_two_pow (a := n) (b := 2 ^ k) (n := k)
  rw [Nat.mod_self, Nat.xor_zero] at hmod
  rw [Nat.div_self (by positivity)] at hdiv
  have hsum := Nat.div_add_mod (n ^^^ 2 ^ k) (2 ^ k)
  rw [hmod, hdiv] at hsum
  rw [pow_succ] at h
  split_ifs with hn
  · rw [Nat.div_eq_of_lt hn, Nat.mod_eq_of_lt hn] at hsum
    simp only [Nat.zero_xor, Nat.mul_one] at hsum
    omega
  · have hone : n / 2 ^ k = 1 := by
      rw [Nat.div_eq_iff (by positivity)]
      omega
    have hrest := Nat.div_add_mod n (2 ^ k)
    rw [hone] at hsum hrest
    simp only [Nat.xor_self, Nat.mul_zero, Nat.zero_add] at hsum
    omega

lemma toNat_ofInt_xor {k : ℕ} {x : ℤ} (h₁ : -2 ^ k ≤ x) (h₂ : x < 2 ^ k) :
    ((BitVec.ofInt (k + 1) x ^^^ BitVec.twoPow (k + 1) k).toNat : ℤ) = x + 2 ^ k := by
  have hpow : (2 : ℤ) ^ (k + 1) = 2 ^ k * 2 := pow_succ 2 k
  have hcast : ((2 ^ (k + 1) : ℕ) : ℤ) = 2 ^ (k + 1) := by push_cast; rfl
  have hlt : (x % (2 ^ (k + 1) : ℕ)).toNat < 2 ^ (k + 1) := by
    rw [← BitVec.toNat_ofInt]
    exact BitVec.isLt _
  rw [BitVec.toNat_xor, BitVec.toNat_twoPow, BitVec.toNat_ofInt,
    Nat.mod_eq_of_lt (Nat.pow_lt_pow_right (by decide) k.lt_succ_self), xor_two_pow hlt]
  have hx : x % (2 ^ (k + 1) : ℕ) = if 0 ≤ x then x else x + 2 ^ (k + 1) := by
    rw [hcast]
    split_ifs with h
    · exact Int.emod_eq_of_lt h (by omega)
    · rw [← Int.add_emod_right]
      exact Int.emod_eq_of_lt (by omega) (by omega)
  rw [hx]
  have hk : (((2 ^ k : ℕ)) : ℤ) = 2 ^ k := by push_cast; rfl
  split_ifs <;> omega

lemma flipSign_tellsApart {x : ℤ} (hx : -2 ^ 63 ≤ x ∧ x < 2 ^ 63) (hy : -2 ^ 63 ≤ y ∧ y < 2 ^ 63) :
    TellsApart (beBytes 8 (flipSign x).toNat) (beBytes 8 (flipSign y).toNat) (Ord.compare x y) := by
  rw [← compare_of_add (toNat_ofInt_xor hx.1 hx.2) (toNat_ofInt_xor hy.1 hy.2)]
  exact beBytes_tellsApart_of_lt (BitVec.isLt _) (BitVec.isLt _)

lemma compare_int64 (x y : Int64) : Ord.compare x y = Ord.compare x.toInt y.toInt := by
  simp only [Ord.compare, compareOfLessAndEq, Int64.lt_iff_toInt_lt, ← Int64.toInt_inj]

lemma compare_int32 (x y : Int32) : Ord.compare x y = Ord.compare x.toInt y.toInt := by
  simp only [Ord.compare, compareOfLessAndEq, Int32.lt_iff_toInt_lt, ← Int32.toInt_inj]

lemma days_tellsApart (x y : Int32) :
    TellsApart (beBytes 4 (flipSign32 x.toInt).toNat) (beBytes 4 (flipSign32 y.toInt).toNat)
      (Ord.compare x y) := by
  rw [compare_int32, ← compare_of_add (toNat_ofInt_xor x.le_toInt x.toInt_lt)
    (toNat_ofInt_xor y.le_toInt y.toInt_lt)]
  exact beBytes_tellsApart_of_lt (BitVec.isLt _) (BitVec.isLt _)

lemma ticks_tellsApart (x y : UInt64) :
    TellsApart (beBytes 8 x.toNat) (beBytes 8 y.toNat) (Ord.compare x y) := by
  rw [UInt64.compare_eq_toNat_compare_toNat]
  exact beBytes_tellsApart_of_lt x.toNat_lt y.toNat_lt

lemma writeDateTime2Key_tellsApart (x y : DateTime2) :
    TellsApart (writeDateTime2Key x) (writeDateTime2Key y) (compareDateTime2 x y) :=
  (days_tellsApart _ _).append (ticks_tellsApart _ _)

lemma integerAsI64_range {v : Value} {x : ℤ} (h : integerAsI64 v = some x) :
    -2 ^ 63 ≤ x ∧ x < 2 ^ 63 := by
  cases v with
  | i8 n =>
    have := n.toNat_lt
    simp only [integerAsI64, some.injEq] at h
    omega
  | i16 n | i32 n | i64 n =>
    have := n.le_toInt
    have := n.toInt_lt
    simp only [integerAsI64, some.injEq] at h
    omega
  | _ => simp [integerAsI64] at h

/-- The key of a float: above `2^63` for the floats from zero on, below for the others. -/
lemma toNat_floatKey (x : BitVec 64) :
    ((floatKey x).toNat : ℤ) = if 0 ≤ f64Order x then f64Order x + 2 ^ 63
      else f64Order x + (2 ^ 63 - 1) := by
  have hx := x.isLt
  have hor : ∀ n < 2 ^ 63, n ||| 2 ^ 63 = n + 2 ^ 63 := by
    intro n hn
    have := Nat.two_pow_add_eq_or_of_lt hn 1
    rw [Nat.mul_one] at this
    rw [Nat.or_comm, ← this, Nat.add_comm]
  have hzero : (0#64 ||| BitVec.twoPow 64 63).toNat = 2 ^ 63 := by decide
  unfold floatKey f64Order
  by_cases h0 : x.toNat % 2 ^ 63 = 0
  · simp only [if_pos h0, BitVec.msb_zero, Bool.false_eq_true, if_false, hzero]
    split_ifs <;> omega
  · simp only [if_neg h0, BitVec.msb_eq_decide, decide_eq_true_eq]
    by_cases hneg : 2 ^ 63 ≤ x.toNat
    · rw [if_pos hneg, BitVec.toNat_not, if_neg (by omega : ¬x.toNat < 2 ^ 63)]
      split_ifs <;> omega
    · rw [if_neg hneg, BitVec.toNat_or, BitVec.toNat_twoPow,
        Nat.mod_eq_of_lt (by decide : 2 ^ 63 < 2 ^ 64), hor _ (by omega),
        if_pos (by omega : x.toNat < 2 ^ 63)]
      split_ifs <;> omega

lemma floatKey_tellsApart (x y : BitVec 64) :
    TellsApart (beBytes 8 (floatKey x).toNat) (beBytes 8 (floatKey y).toNat)
      (Ord.compare (f64Order x) (f64Order y)) := by
  have hx := toNat_floatKey x
  have hy := toNat_floatKey y
  have hcompare : Ord.compare (floatKey x).toNat (floatKey y).toNat
      = Ord.compare (f64Order x) (f64Order y) := by
    split_ifs at hx hy <;> exact compare_eq_compare (by omega) (by omega)
  rw [← hcompare]
  exact beBytes_tellsApart_of_lt (BitVec.isLt _) (BitVec.isLt _)

lemma writeBytesKey_tellsApart (x y : List UInt8) :
    TellsApart (writeBytesKey x) (writeBytesKey y) (compareBytes x y) := by
  have hmin : ∀ b : UInt8, Ord.compare 0 b ≠ .gt := by
    intro b h
    rw [UInt8.compare_eq_toNat_compare_toNat, Nat.compare_eq_gt] at h
    exact absurd h (Nat.not_lt_zero _)
  rw [compareBytes, padCmp_eq_dropPadding hmin]
  exact escapeBytes_tellsApart _ _

lemma bit_tellsApart (x y : Bool) :
    TellsApart [if x then (1 : UInt8) else 0] [if y then (1 : UInt8) else 0] (Ord.compare x y) := by
  have h := TellsApart.nil.cons (if x then (1 : UInt8) else 0) (if y then (1 : UInt8) else 0)
  have hcompare : (Ord.compare (if x then (1 : UInt8) else 0) (if y then (1 : UInt8) else 0)).then
      .eq = Ord.compare x y := by
    cases x <;> cases y <;> decide
  rwa [hcompare] at h

/-! ### Decimals -/

/-- The key of a decimal, from its value in units of `10^-38`. -/
def decimalKey (u : ℤ) : List UInt8 :=
  if u = 0 then [1]
  else if u < 0 then
    0 :: (beBytes 16 (2 ^ 128 - 1 - u.natAbs / 10 ^ 38)
      ++ beBytes 16 (2 ^ 128 - 1 - u.natAbs % 10 ^ 38))
  else 2 :: (beBytes 16 (u.natAbs / 10 ^ 38) ++ beBytes 16 (u.natAbs % 10 ^ 38))

variable {x : Decimal}

lemma writeDecimalKey_eq_ok_iff {k : List UInt8} : writeDecimalKey x = .ok k ↔
      (x.mantissa.toInt = 0 ∨ x.scale.toNat ≤ 38) ∧ k = decimalKey x.units := by
  have hpos : (0 : ℤ) < 10 ^ (38 - x.scale.toNat) := by positivity
  unfold writeDecimalKey decimalKey
  by_cases h0 : x.mantissa.toInt = 0
  · have hu : x.units = 0 := by rw [units, h0, zero_mul]
    simp [h0, hu, eq_comm]
  have hu : x.units ≠ 0 := mul_ne_zero h0 hpos.ne'
  have hneg : x.units < 0 ↔ x.mantissa.toInt < 0 := by
    rw [← Int.sign_eq_neg_one_iff_neg, sign_units, Int.sign_eq_neg_one_iff_neg]
  rw [if_neg h0, if_neg hu]
  by_cases hs : x.scale > maxDecimalScale
  · have hs' : ¬x.scale.toNat ≤ 38 := by
      have := UInt8.lt_iff_toNat_lt.mp hs
      simpa [maxDecimalScale] using this
    simp [hs, h0, hs', bug]
  · have hs' : x.scale.toNat ≤ 38 := by
      have := UInt8.lt_iff_toNat_lt.not.mp hs
      simpa [maxDecimalScale] using this
    have hle : x.scale ≤ maxDecimalScale := UInt8.le_iff_toNat_le.mpr hs'
    have hsplit := splitDecimal_eq_ok hle (by decide)
    rw [show maxDecimalScale.toNat = 38 from rfl, ← natAbs_units] at hsplit
    rw [if_neg hs, hsplit]
    simp only [bind, Except.bind, hneg]
    split_ifs <;> simp [hs', h0, eq_comm]

lemma Decimal.units_div_lt : x.units.natAbs / 10 ^ 38 < 2 ^ 128 := by
  have hm : x.mantissa.toInt.natAbs < 2 ^ 128 := by
    have h₁ := BitVec.le_toInt x.mantissa
    have h₂ := BitVec.toInt_lt (x := x.mantissa)
    omega
  rw [natAbs_units, Nat.div_lt_iff_lt_mul (by positivity)]
  calc x.mantissa.toInt.natAbs * 10 ^ (38 - x.scale.toNat)
      ≤ x.mantissa.toInt.natAbs * 10 ^ 38 :=
        Nat.mul_le_mul_left _ (Nat.pow_le_pow_right (by decide) (Nat.sub_le _ _))
    _ < 2 ^ 128 * 10 ^ 38 := Nat.mul_lt_mul_of_pos_right hm (by positivity)

/-- Quotient and remainder, written one after the other, tell two magnitudes apart. -/
lemma magnitude_tellsApart (hm : m / 10 ^ 38 < 2 ^ 128) (hn : n / 10 ^ 38 < 2 ^ 128) :
    TellsApart (beBytes 16 (m / 10 ^ 38) ++ beBytes 16 (m % 10 ^ 38))
      (beBytes 16 (n / 10 ^ 38) ++ beBytes 16 (n % 10 ^ 38)) (Ord.compare m n) := by
  have hrem : ∀ i : ℕ, i % 10 ^ 38 < 256 ^ 16 := fun i =>
    (Nat.mod_lt i (by positivity)).trans (by decide)
  rw [← Nat.compare_div_mod m n (10 ^ 38)]
  exact (beBytes_tellsApart_of_lt hm hn).append (beBytes_tellsApart_of_lt (hrem m) (hrem n))

lemma compare_complement {b : ℕ} (hm : m ≤ b) (hn : n ≤ b) :
    Ord.compare (b - m) (b - n) = (Ord.compare m n).swap := by
  rw [Nat.compare_swap]
  exact compare_eq_compare (by omega) (by omega)

lemma complement_tellsApart (hm : m / 10 ^ 38 < 2 ^ 128) (hn : n / 10 ^ 38 < 2 ^ 128) : TellsApart
      (beBytes 16 (2 ^ 128 - 1 - m / 10 ^ 38) ++ beBytes 16 (2 ^ 128 - 1 - m % 10 ^ 38))
      (beBytes 16 (2 ^ 128 - 1 - n / 10 ^ 38) ++ beBytes 16 (2 ^ 128 - 1 - n % 10 ^ 38))
      (Ord.compare m n).swap := by
  have hrem : ∀ i : ℕ, i % 10 ^ 38 ≤ 2 ^ 128 - 1 := fun i =>
    (Nat.mod_lt i (by positivity)).le.trans (by decide)
  have hfit : ∀ i : ℕ, 2 ^ 128 - 1 - i < 256 ^ 16 := fun i => (Nat.sub_le _ _).trans_lt (by decide)
  rw [← Nat.compare_div_mod m n (10 ^ 38), Ordering.swap_then,
    ← compare_complement (Nat.le_sub_one_of_lt hm) (Nat.le_sub_one_of_lt hn),
    ← compare_complement (hrem m) (hrem n)]
  exact (beBytes_tellsApart_of_lt (hfit _) (hfit _)).append
    (beBytes_tellsApart_of_lt (hfit _) (hfit _))

lemma decimalKey_lt {u v : ℤ} (h : u < 0 ∧ 0 ≤ v ∨ u ≤ 0 ∧ 0 < v) :
    TellsApart (decimalKey u) (decimalKey v) .lt := by
  unfold decimalKey
  split_ifs <;> first | omega | exact .cons_lt (by decide) _ _

lemma decimalKey_tellsApart {u v : ℤ} (hu : u.natAbs / 10 ^ 38 < 2 ^ 128)
    (hv : v.natAbs / 10 ^ 38 < 2 ^ 128) :
    TellsApart (decimalKey u) (decimalKey v) (Ord.compare u v) := by
  by_cases hlt : u < 0 ∧ 0 ≤ v ∨ u ≤ 0 ∧ 0 < v
  · rw [compare_lt_iff_lt.mpr (by omega)]
    exact decimalKey_lt hlt
  by_cases hgt : v < 0 ∧ 0 ≤ u ∨ v ≤ 0 ∧ 0 < u
  · rw [compare_gt_iff_gt.mpr (by omega)]
    exact (decimalKey_lt hgt).swap
  -- The signs are equal.
  unfold decimalKey
  rcases lt_trichotomy u 0 with hu' | rfl | hu'
  · have hv' : v < 0 := by omega
    rw [if_neg hu'.ne, if_pos hu', if_neg hv'.ne, if_pos hv', compare_of_sign_eq
      (by rw [Int.sign_eq_neg_one_of_neg hu', Int.sign_eq_neg_one_of_neg hv']),
      if_pos (by rw [Int.sign_eq_neg_one_of_neg hu']; decide)]
    exact (complement_tellsApart hu hv).cons_self 0
  · obtain rfl : v = 0 := by omega
    exact TellsApart.nil.cons_self 1
  · have hv' : 0 < v := by omega
    rw [if_neg hu'.ne', if_neg hu'.not_gt, if_neg hv'.ne', if_neg hv'.not_gt, compare_of_sign_eq
        (by rw [Int.sign_eq_one_of_pos hu', Int.sign_eq_one_of_pos hv']),
      if_neg (by rw [Int.sign_eq_one_of_pos hu']; decide)]
    exact (magnitude_tellsApart hu hv).cons_self 2

/-! ### The keys of two values -/

def Value.keyFamily : Value → KeyFamily
  | .null => .null
  | .bit _ => .bit
  | .i8 _ | .i16 _ | .i32 _ | .i64 _ => .integer
  | .decimal _ => .decimal
  | .f64 _ | .f32 _ => .float
  | .money _ => .money
  | .string _ => .string
  | .bytes _ => .bytes
  | .date _ => .date
  | .time _ => .time
  | .dateTime _ => .dateTime
  | .dateTime2 _ => .dateTime2
  | .dateTimeOffset _ => .dateTimeOffset
  | .guid _ => .guid

/-- The values whose keys follow `compare`: a string is of fewer than `2^32` characters. -/
def Value.keyable : Value → Bool
  | .string s => s.length < 2 ^ 32
  | v => v.selfComparable

section Keys

variable {a b v : Value} {c : Collation} {k ka kb : List UInt8}

lemma byte_ne {f g : KeyFamily} (h : f ≠ g) : Ord.compare f.byte g.byte ≠ .eq := by
  cases f <;> cases g <;> first | exact absurd rfl h | decide

lemma selfComparable_of_keyable (h : v.keyable) : v.selfComparable := by
  cases v <;> first | exact h | rfl

lemma sortKey_integer {x : ℤ} (h : integerAsI64 v = some x) :
    sortKey v c = .ok (KeyFamily.integer.byte :: beBytes 8 (flipSign x).toNat) := by
  simp [sortKey, h]

lemma sortKey_float {x : BitVec 64} (h : floatAsF64 v = some x) :
    sortKey v c = .ok (KeyFamily.float.byte :: beBytes 8 (floatKey x).toNat) := by
  cases v <;> simp_all [sortKey, integerAsI64, floatAsF64]

lemma sortKey_decimal (h : sortKey (.decimal x) c = .ok k) :
    (x.mantissa.toInt = 0 ∨ x.scale.toNat ≤ 38) ∧
      k = KeyFamily.decimal.byte :: decimalKey x.units := by
  have hmap : (writeDecimalKey x).map (KeyFamily.decimal.byte :: ·) = .ok k := h
  rcases hx : writeDecimalKey x with e | body
  · simp [hx, Except.map] at hmap
  obtain ⟨hs, rfl⟩ := writeDecimalKey_eq_ok_iff.mp hx
  rw [hx] at hmap
  exact ⟨hs, (Except.ok.inj hmap).symm⟩

lemma sortKey_eq_cons (h : sortKey v c = .ok k) : ∃ body, k = v.keyFamily.byte :: body := by
  cases v with
  | decimal x => exact ⟨_, (sortKey_decimal h).2⟩
  | _ =>
    simp only [sortKey, integerAsI64, floatAsF64, Except.ok.injEq] at h
    exact ⟨_, h.symm⟩

lemma sortKey_tellsApart_of_family (hf : a.keyFamily = b.keyFamily) (ha : sortKey a c = .ok ka)
    (hb : sortKey b c = .ok kb) : ∃ o, TellsApart ka kb o ∧
      (a ≠ .null → a.keyable → b.keyable → Ordered c a b o) := by
  have hbody : ∀ {f : KeyFamily} {x y : List UInt8} {o : Ordering},
      sortKey a c = .ok (f.byte :: x) → sortKey b c = .ok (f.byte :: y) → TellsApart x y o →
      (a.keyable → b.keyable → Ordered c a b o) →
      ∃ o, TellsApart ka kb o ∧ (a ≠ .null → a.keyable → b.keyable → Ordered c a b o) := by
    intro f x y o hx hy h ho
    obtain rfl := Except.ok.inj (hx.symm.trans ha)
    obtain rfl := Except.ok.inj (hy.symm.trans hb)
    exact ⟨o, h.cons_self _, fun _ => ho⟩
  have hinteger {x y : ℤ} (hx : integerAsI64 a = some x) (hy : integerAsI64 b = some y) :=
    hbody (sortKey_integer hx) (sortKey_integer hy) (flipSign_tellsApart (integerAsI64_range hx)
      (integerAsI64_range hy)) fun _ _ => .integers hx hy
  have hfloat {x y : BitVec 64} (hx : floatAsF64 a = some x) (hy : floatAsF64 b = some y)
      (hfa : a.family = some .float) (hfb : b.family = some .float) :=
    hbody (sortKey_float hx) (sortKey_float hy) (floatKey_tellsApart x y) fun hka hkb => by
      obtain ⟨x', hx', hnx⟩ := floatAsF64_of_family hfa (selfComparable_of_keyable hka)
      obtain ⟨y', hy', hny⟩ := floatAsF64_of_family hfb (selfComparable_of_keyable hkb)
      obtain rfl := mem_unique hx hx'
      obtain rfl := mem_unique hy hy'
      exact .floats hx hy hnx hny
  cases a <;> cases b <;> simp only [Value.keyFamily, reduceCtorEq] at hf
  case null.null =>
    obtain rfl := Except.ok.inj ha
    obtain rfl := Except.ok.inj hb
    exact ⟨_, TellsApart.nil.cons_self _, fun h => absurd rfl h⟩
  case bit.bit x y => exact hbody rfl rfl (bit_tellsApart x y) fun _ _ => .bit x y
  case decimal.decimal x y =>
    obtain ⟨hx, rfl⟩ := sortKey_decimal ha
    obtain ⟨hy, rfl⟩ := sortKey_decimal hb
    exact hbody ha hb (decimalKey_tellsApart units_div_lt units_div_lt)
      fun _ _ => .decimal (.of_range hx hy)
  case money.money x y =>
    have h := flipSign_tellsApart ⟨x.le_toInt, x.toInt_lt⟩ ⟨y.le_toInt, y.toInt_lt⟩
    rw [← compare_int64] at h
    exact hbody rfl rfl h fun _ _ => .money x y
  case string.string x y =>
    refine hbody rfl rfl (c.writeStringKey_tellsApart x y) fun hka hkb => ?_
    rw [Collation.keyOrder_eq_compare (by simpa [Value.keyable] using hka)
      (by simpa [Value.keyable] using hkb)]
    exact .string x y
  case bytes.bytes x y => exact hbody rfl rfl (writeBytesKey_tellsApart x y) fun _ _ => .bytes x y
  case guid.guid x y =>
    exact hbody rfl rfl (fun _ _ => compareLex_append (by simp)) fun _ _ => .guid x y
  case date.date x y => exact hbody rfl rfl (days_tellsApart _ _) fun _ _ => .date x y
  case time.time x y => exact hbody rfl rfl (ticks_tellsApart _ _) fun _ _ => .time x y
  case dateTime.dateTime x y =>
    refine hbody rfl rfl ((days_tellsApart _ _).append ?_) fun _ _ => .dateTime x y
    rw [compareOn, UInt32.compare_eq_toNat_compare_toNat]
    exact beBytes_tellsApart_of_lt x.ticks300th.toNat_lt y.ticks300th.toNat_lt
  case dateTime2.dateTime2 x y =>
    exact hbody rfl rfl (writeDateTime2Key_tellsApart x y) fun _ _ => .dateTime2 x y
  case dateTimeOffset.dateTimeOffset x y =>
    exact hbody rfl rfl (writeDateTime2Key_tellsApart x.utc y.utc) fun _ _ => .dateTimeOffset x y
  all_goals first | exact hinteger rfl rfl | exact hfloat rfl rfl rfl rfl

/-- **The keys of any two values are told apart**, as `compare` orders the values when they
are of one family. -/
lemma sortKey_tellsApart (ha : sortKey a c = .ok ka) (hb : sortKey b c = .ok kb) :
    ∃ o, TellsApart ka kb o ∧ (a ≠ .null → a.family = b.family → a.keyable → b.keyable →
      compare a b c = .ok (some o)) := by
  by_cases hf : a.keyFamily = b.keyFamily
  · obtain ⟨o, h, ho⟩ := sortKey_tellsApart_of_family hf ha hb
    exact ⟨o, h, fun hnull _ hka hkb => compare_eq_ok_iff.mpr (ho hnull hka hkb)⟩
  · obtain ⟨x, rfl⟩ := sortKey_eq_cons ha
    obtain ⟨y, rfl⟩ := sortKey_eq_cons hb
    exact ⟨_, .cons_of_ne (byte_ne hf) x y, fun _ hfam => absurd (by
      cases a <;> cases b <;> simp_all [Value.family, Value.keyFamily]) hf⟩

lemma sortKey_isOk (h : v.keyable) (c : Collation) : ∃ k, sortKey v c = .ok k := by
  cases v with
  | decimal x =>
    have hx : x.mantissa.toInt = 0 ∨ x.scale.toNat ≤ 38 := by
      simpa [Value.keyable, Value.selfComparable] using h
    refine ⟨KeyFamily.decimal.byte :: decimalKey x.units, ?_⟩
    simp [sortKey, integerAsI64, floatAsF64, writeDecimalKey_eq_ok_iff.mpr ⟨hx, rfl⟩, Except.map]
  | _ => exact ⟨_, rfl⟩

/-- Two columns of one row each: the values of a column are of one family and keyable. -/
def Comparable (a b : Value) : Prop :=
  a ≠ .null ∧ a.family = b.family ∧ a.keyable ∧ b.keyable

lemma Comparable.tellsApart (h : Comparable a b) (c : Collation) :
    ∃ ka kb o, sortKey a c = .ok ka ∧ sortKey b c = .ok kb ∧
      compare a b c = .ok (some o) ∧ TellsApart ka kb o := by
  obtain ⟨hnull, hfam, hka, hkb⟩ := h
  obtain ⟨ka, ha⟩ := sortKey_isOk hka c
  obtain ⟨kb, hb⟩ := sortKey_isOk hkb c
  obtain ⟨o, ho, hcmp⟩ := sortKey_tellsApart ha hb
  exact ⟨ka, kb, o, ha, hb, hcmp hnull hfam hka hkb, ho⟩

lemma encodeKeys_cons {cs : List Collation} {vs : List Value} (hv : sortKey v c = .ok k)
    (hvs : encodeKeys cs vs = .ok ka) : encodeKeys (c :: cs) (v :: vs) = .ok (k ++ ka) := by
  rw [encodeKeys] at hvs ⊢
  cases hm : (vs.zip cs).mapM (fun p => sortKey p.1 p.2) with
  | error e => simp [hm, Except.map] at hvs
  | ok keys =>
    simp only [hm, Except.map, Except.ok.injEq] at hvs
    simp [List.mapM_cons, hv, hm, hvs, Except.map, bind, Except.bind, pure, Except.pure]

lemma encodeKeys_tellsApart {cols : List (Collation × Value × Value)}
    (h : ∀ col ∈ cols, Comparable col.2.1 col.2.2) :
    ∃ ka kb os, encodeKeys (cols.map fun col => col.1) (cols.map fun col => col.2.1) = .ok ka ∧
      encodeKeys (cols.map fun col => col.1) (cols.map fun col => col.2.2) = .ok kb ∧
      List.Forall₂ (fun col o => compare col.2.1 col.2.2 col.1 = .ok (some o)) cols os ∧
      TellsApart ka kb (os.foldr Ordering.then .eq) := by
  induction cols with
  | nil => exact ⟨[], [], [], rfl, rfl, .nil, .nil⟩
  | cons col cols ih =>
    obtain ⟨ka, kb, os, ha, hb, hos, htell⟩ := ih fun x hx => h x (List.mem_cons_of_mem _ hx)
    obtain ⟨k, l, o, hk, hl, ho, hkl⟩ := (h col mem_cons_self).tellsApart col.1
    exact ⟨k ++ ka, l ++ kb, o :: os, encodeKeys_cons hk ha, encodeKeys_cons hl hb, .cons ho hos,
      hkl.append htell⟩

end Keys

namespace Collation

def latin1GeneralCsAs : Collation := ⟨0x0409, 0x0C, 0, 0⟩

def afterLetters (n : ℕ) (s : List Char) : String := String.ofList (replicate n 'x' ++ s)

/-- The letters before a string count in the positions of its characters. -/
lemma weightsFrom_last_replicate (n k : ℕ) (s : List Char) :
    latin1GeneralCsAs.weightsFrom windows .last k (replicate n 'x' ++ s)
      = latin1GeneralCsAs.weightsFrom windows .last (k + n) s := by
  obtain ⟨first, second, own, hx⟩ :
      ∃ first second own, windows.unit 'x' = .elements first second own := ⟨_, _, _, rfl⟩
  induction n generalizing k with
  | zero => rfl
  | succ n ih =>
    simp only [replicate_succ, cons_append, weightsFrom, hx, unitWeights, nil_append]
    rw [ih, Nat.add_assoc, Nat.add_comm 1 n]

lemma rules_latin1GeneralCsAs : latin1GeneralCsAs.rules = .table windows := rfl

lemma levelOrder_hyphen (hl : level = .primary ∨ level = .accent ∨ level = .tertiary) (n : ℕ) :
    latin1GeneralCsAs.levelOrder windows level (afterLetters n ['-', 'a']).toList
      (afterLetters n ['a', '-']).toList = .eq := by
  have hne : level ≠ .last := by rcases hl with rfl | rfl | rfl <;> decide
  have htail : latin1GeneralCsAs.weightsFrom windows level 0 ['-', 'a']
      = latin1GeneralCsAs.weightsFrom windows level 0 ['a', '-'] := by
    rcases hl with rfl | rfl | rfl <;> decide +kernel
  have := levelOrder_transCmp latin1GeneralCsAs windows level
  have heq : latin1GeneralCsAs.levelWeights windows (afterLetters n ['-', 'a']).toList level
      = latin1GeneralCsAs.levelWeights windows (afterLetters n ['a', '-']).toList level := by
    simp only [afterLetters, String.toList_ofList, levelWeights_eq_from, weightsFrom_append hne,
      htail]
  rw [levelOrder, heq]
  exact @ReflCmp.compare_self _ (latin1GeneralCsAs.levelOrder windows level) _ _

lemma levelWeights_hyphen (n : ℕ) :
    latin1GeneralCsAs.levelWeights windows (afterLetters n ['-', 'a']).toList .last
        = [n * 2 ^ 32 + 70] ∧
      latin1GeneralCsAs.levelWeights windows (afterLetters n ['a', '-']).toList .last
        = [(n + 1) * 2 ^ 32 + 70] := by
  obtain ⟨first, second, own, ha⟩ :
      ∃ first second own, windows.unit 'a' = .elements first second own := ⟨_, _, _, rfl⟩
  have hhyphen : windows.unit '-' = .last 70 := by decide +kernel
  have hw : latin1GeneralCsAs.has flagIgnoreWidth = true := rfl
  simp only [afterLetters, String.toList_ofList, levelWeights_eq_from, weightsFrom_last_replicate,
    Nat.zero_add, weightsFrom, ha, hhyphen, unitWeights, hw, if_true, append_nil,
    nil_append, and_self]

lemma levels_latin1GeneralCsAs :
    latin1GeneralCsAs.levels windows = [.primary, .accent, .tertiary, .last] := rfl

/-- The comparison finds the first hyphen first, however many letters come before. -/
lemma compare_hyphen (n : ℕ) :
    latin1GeneralCsAs.compare (afterLetters n ['-', 'a']) (afterLetters n ['a', '-']) = .lt := by
  obtain ⟨hfirst, hsecond⟩ := levelWeights_hyphen n
  rw [compare_eq_plainOrder, plainOrder, rules_latin1GeneralCsAs]
  simp only [levels_latin1GeneralCsAs, compareLevels_cons_level, levelOrder_hyphen (.inl rfl),
    levelOrder_hyphen (.inr (.inl rfl)), levelOrder_hyphen (.inr (.inr rfl)), Ordering.eq_then]
  rw [levelOrder, hfirst, hsecond, show latin1GeneralCsAs.padding windows .last = none from rfl,
    compareSequences, List.compareLex_cons_cons, Nat.compare_eq_lt.mpr (by omega)]
  rfl

/-- The key keeps 32 bits of a position: after `2^32 - 1` letters, those of the second hyphen
are zero. -/
lemma keyOrder_hyphen (hn : n + 1 = 2 ^ 32) :
    latin1GeneralCsAs.keyOrder (afterLetters n ['-', 'a']) (afterLetters n ['a', '-']) = .gt := by
  obtain ⟨hfirst, hsecond⟩ := levelWeights_hyphen n
  have hnarrow := rules_narrow rules_latin1GeneralCsAs
  have hkey : ∀ level, level = .primary ∨ level = .accent ∨ level = .tertiary →
      latin1GeneralCsAs.levelKeyOrder windows level (afterLetters n ['-', 'a']).toList
        (afterLetters n ['a', '-']).toList = .eq := by
    intro level hl
    rw [levelKeyOrder_of_ne hnarrow (by rcases hl with rfl | rfl | rfl <;> decide),
      levelOrder_hyphen hl]
  have hlow : (n * 2 ^ 32 + 70) % 2 ^ 64 = n * 2 ^ 32 + 70 := Nat.mod_eq_of_lt (by omega)
  have hwrap : ((n + 1) * 2 ^ 32 + 70) % 2 ^ 64 = 70 := by
    rw [hn]
    rfl
  rw [keyOrder, rules_latin1GeneralCsAs]
  simp only [levels_latin1GeneralCsAs, map_cons, map_nil, List.foldr_cons,
    List.foldr_nil, hkey _ (.inl rfl), hkey _ (.inr (.inl rfl)), hkey _ (.inr (.inr rfl)),
    Ordering.eq_then, Ordering.then_eq]
  rw [levelKeyOrder, hfirst, hsecond, show latin1GeneralCsAs.padding windows .last = none from rfl,
    map_cons, map_nil, map_cons, map_nil, hlow, hwrap, compareSequences,
    List.compareLex_cons_cons, Nat.compare_eq_gt.mpr (by omega)]
  rfl

end Collation

end VaubanDB
