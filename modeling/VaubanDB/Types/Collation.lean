import VaubanDB.Library.Sequences
import VaubanDB.Types.CollationTables

/-!
The comparison of strings under a collation (`Collation::compare` of
`vauban-types/src/collation.rs`).

The source compares two strings under a weight table with three shortcuts: an identical leading run
is skipped, two runs of plain ASCII characters are compared in one pass over the three weights, and
two ASCII strings read the rows of their bytes directly.  None of them changes the answer: it is the
comparison, level by level, of the weights (`compareWeighted_eq_levels`), and every collation is a
total preorder on strings (`Collation.compare_transCmp`).
-/

namespace VaubanDB

open List (compareLex zipIdx_cons cons_append nil_append)
open Std (TransCmp OrientedCmp ReflCmp ReflOrd)

namespace Collation

/-! ### Flags and tables -/

def flagIgnoreCase : UInt8 := 0x01
def flagIgnoreAccent : UInt8 := 0x02
def flagIgnoreKana : UInt8 := 0x04
def flagIgnoreWidth : UInt8 := 0x08
def flagBinary : UInt8 := 0x10
def flagBinary2 : UInt8 := 0x20

def has (c : Collation) (flag : UInt8) : Bool := c.flags &&& flag != 0

/-- One level of a table comparison. -/
inductive Level where
  | primary | accent | own | tertiary | last
  deriving DecidableEq, Repr

/-- A weight table and the rules that go with it. -/
structure Table where
  weights : List Weights
  expansions : List (Char × Char × Char)
  aliases : List (Char × Char)
  last : List Char
  ignored : List Char
  ownLevel : Bool
  hasLastLevel : Bool

/-- How an ASCII character takes part in a table comparison. -/
inductive AsciiClass where
  | plain | last | ignored
  deriving DecidableEq, Repr

/-- The code page 1252 byte of a character, if it has one (`code_page::encode`). -/
def cp1252Byte (c : Char) : Option ℕ :=
  let code := c.toNat
  if code ≤ 0x7F ∨ (0xA0 ≤ code ∧ code ≤ 0xFF) then some code
  else if 0x80 ≤ code ∧ code ≤ 0x9F then
    if (cp1252HighRange.getD (code - 0x80) none).isNone then some code else none
  else (cp1252HighRange.findIdx? fun entry => entry == some c).map (0x80 + ·)

def Table.row (t : Table) (byte : ℕ) : Weights := t.weights.getD byte (w 0 0 0 0)

/-- The class of an ASCII byte, as `ascii_rows` computes it. -/
def Table.asciiClass (t : Table) (byte : ℕ) : AsciiClass :=
  if t.ignored.any fun c => c.toNat == byte then .ignored
  else if t.last.any fun c => c.toNat == byte then .last
  else .plain

/-- One collation element: the weights a character, or half of an expansion, carries. -/
structure Element where
  weights : Weights
  outside : Option ℕ
  wide : Bool
  hiragana : Bool
  deriving DecidableEq, Repr

/-- What one character contributes to a table comparison. -/
inductive CollationUnit where
  | ignored
  | last (weight : ℕ)
  | elements (first : Element) (second : Option Element) (own : ℕ)
  deriving DecidableEq, Repr

def Element.primaryWeight (e : Element) : ℕ := e.outside.getD e.weights.primary

def Element.weight (e : Element) (level : Level) (c : Collation) : ℕ :=
  match level with
  | .primary => e.outside.getD e.weights.primary
  | .accent => e.weights.accent
  | .tertiary =>
    let caseWeight :=
      if c.has flagIgnoreCase || e.outside.isSome then 0
      else if c.has flagIgnoreAccent then e.weights.caseOnly
      else e.weights.caseAccent
    let wide := !c.has flagIgnoreWidth && e.wide
    let hiragana := !c.has flagIgnoreKana && e.hiragana
    4 * caseWeight + 2 * wide.toNat + hiragana.toNat
  | .own | .last => 0

/-- The primary weight of the first character without a code page byte. -/
def primaryAboveTable : ℕ := 0x10000

/-- The element of a single character, full-width forms and katakana folded. -/
def Table.element (t : Table) (c : Char) : Element :=
  let code := c.toNat
  let (folded, wide, hiragana) :=
    if 0xFF01 ≤ code ∧ code ≤ 0xFF5E then (code - 0xFEE0, true, false)
    else if 0x30A1 ≤ code ∧ code ≤ 0x30F6 then (code - 0x60, false, false)
    else if 0x3041 ≤ code ∧ code ≤ 0x3096 then (code, false, true)
    else (code, false, false)
  match cp1252Byte (Char.ofNat folded) with
  | some byte => ⟨t.row byte, none, wide, hiragana⟩
  | none => ⟨w 0 0 0 0, some (primaryAboveTable + folded), wide, hiragana⟩

/-- What a character contributes to a comparison under a table. -/
def Table.unit (t : Table) (c : Char) : CollationUnit :=
  if c.isAlphanum || c == ' ' then
    .elements (t.element c) none (t.element c).primaryWeight
  else if t.ignored.contains c then .ignored
  else
    let code := c.toNat
    let (narrow, wide) :=
      if 0xFF01 ≤ code ∧ code ≤ 0xFF5E then (Char.ofNat (code - 0xFEE0), true) else (c, false)
    if t.last.contains narrow then
      .last (2 * ((cp1252Byte narrow).elim 0 fun byte => (t.row byte).caseAccent) + wide.toNat)
    else
      match t.expansions.find? fun e => e.1 == c with
      | some (_, first, second) =>
        .elements (t.element first) (some (t.element second)) (t.element c).primaryWeight
      | none =>
        .elements (t.element ((t.aliases.find? fun e => e.1 == c).elim c Prod.snd)) none
          (t.element c).primaryWeight

/-- The control characters the Windows rules compare at the last level. -/
def windowsControls : List Char :=
  ['\x01', '\x02', '\x03', '\x04', '\x05', '\x06', '\x07', '\x08', '\x0E', '\x0F', '\x10',
   '\x11', '\x12', '\x13', '\x14', '\x15', '\x16', '\x17', '\x18', '\x19', '\x1A', '\x1B',
   '\x1C', '\x1D', '\x1E', '\x1F', '\x7F']

/-- The letters both Windows tables expand to two. -/
def windowsExpansions : List (Char × Char × Char) :=
  [('Æ', 'A', 'E'), ('æ', 'a', 'e'), ('Œ', 'O', 'E'), ('œ', 'o', 'e'), ('ß', 's', 's'),
   ('Þ', 'T', 'H'), ('þ', 't', 'h')]

def sqlCp1 : Table where
  weights := sqlCp1Weights
  expansions := [('Æ', 'A', 'E'), ('æ', 'a', 'e'), ('ß', 's', 's')]
  aliases := [('Ç', 'C'), ('ç', 'c')]
  last := []
  ignored := []
  ownLevel := true
  hasLastLevel := false

def windows : Table where
  weights := windowsWeights
  expansions := windowsExpansions
  aliases := []
  last := ['-', '\x27', '\u2013', '\u2014', '\u00AD', '\u0081', '\u008D', '\u008F', '\u0090',
    '\u009D'] ++ windowsControls
  ignored := ['\x00']
  ownLevel := false
  hasLastLevel := true

def windows100 : Table where
  weights := windows100Weights
  expansions := windowsExpansions
  aliases := []
  last := ['-', '\x27', '\u2013', '\u2014'] ++ windowsControls
  ignored := ['\x00', '\u00AD']
  ownLevel := false
  hasLastLevel := true

inductive Rules where
  | binary | binary2
  | table (t : Table)

def rules (c : Collation) : Rules :=
  if c.has flagBinary2 then .binary2
  else if c.has flagBinary then .binary
  else if c.sortId ≠ 0 then .table sqlCp1
  else if c.version = 2 then .table windows100
  else .table windows

/-- The levels a table comparison goes through, in order. -/
def levels (c : Collation) (t : Table) : List Level :=
  [.primary]
    ++ (if c.has flagIgnoreAccent then [] else [.accent])
    ++ (if t.ownLevel then [.own] else [])
    ++ (if c.has flagIgnoreCase && c.has flagIgnoreKana && c.has flagIgnoreWidth then []
        else [.tertiary])
    ++ (if t.hasLastLevel then [.last] else [])

/-! ### The comparison of the source -/

/-- Compares two sequences of weights; with `padding` the shorter one is extended with it. -/
def compareSequences (xs ys : List ℕ) : Option ℕ → Ordering
  | some pad => padCmp compare pad xs ys
  | none => compareLex compare xs ys

/-- The weight of a character at a level, given its position among the characters that are
not ignored.  The 64 bits of the source hold it below position `2 ^ 32`. -/
def unitWeights (c : Collation) (level : Level) (position : ℕ) : CollationUnit → List ℕ
  | .ignored => []
  | .last weight =>
    match level with
    | .last =>
      [position * 2 ^ 32 + if c.has flagIgnoreWidth then weight / 2 * 2 else weight]
    | _ => []
  | .elements first second own =>
    match level with
    | .own => [own]
    | .last => []
    | _ => first.weight level c :: (second.map fun e => e.weight level c).toList

/-- The weights of a string at one level, in order. -/
def levelWeights (c : Collation) (t : Table) (s : List Char) (level : Level) : List ℕ :=
  ((s.map t.unit).filter (· != .ignored)).zipIdx.flatMap fun u => c.unitWeights level u.2 u.1

/-- The padding of a level: the weight of a space, except at the last level. -/
def padding (c : Collation) (t : Table) (level : Level) : Option ℕ :=
  if level = .last then none else (c.levelWeights t [' '] level).head?

/-- Level after level, the first that differs decides. -/
def compareLevels (c : Collation) (t : Table) (a b : List Char) : List Level → Ordering
  | [] => .eq
  | level :: rest =>
    match compareSequences (c.levelWeights t a level) (c.levelWeights t b level)
      (c.padding t level) with
    | .eq => compareLevels c t a b rest
    | o => o

/-- The weight of a plain ASCII row at a level before the last (`ascii_weight`). -/
def asciiWeight (c : Collation) (row : Weights) : Level → ℕ
  | .primary | .own => row.primary
  | .accent => row.accent
  | .tertiary =>
    4 * (if c.has flagIgnoreCase then 0
      else if c.has flagIgnoreAccent then row.caseOnly
      else row.caseAccent)
  | .last => 0

/-- The weights of the last level of an ASCII string, with the same bound on the positions. -/
def asciiLast (t : Table) (s : List Char) : List ℕ :=
  ((s.filter fun ch => t.asciiClass ch.toNat ≠ .ignored).zipIdx.filter fun p =>
      t.asciiClass p.1.toNat = .last).map fun p =>
    p.2 * 2 ^ 32 + (t.row p.1.toNat).caseAccent * 2

/-- Level after level on two ASCII strings, through the rows of their bytes
(`compare_ascii`). -/
def compareAscii (c : Collation) (t : Table) (a b : List Char) : List Level → Ordering
  | [] => .eq
  | level :: rest =>
    let weights (s : List Char) : List ℕ :=
      (s.filter fun ch => t.asciiClass ch.toNat = .plain).map fun ch =>
        c.asciiWeight (t.row ch.toNat) level
    let ordering :=
      if level = .last then compareSequences (asciiLast t a) (asciiLast t b) none
      else compareSequences (weights a) (weights b) (some (c.asciiWeight (t.row 0x20) level))
    match ordering with
    | .eq => compareAscii c t a b rest
    | o => o

/-- The outcome of the pass over two runs of plain ASCII characters. -/
inductive Pass where
  /-- A primary weight differs: the pass decides. -/
  | decided (o : Ordering)
  /-- A character is not plain ASCII, or the strings have different lengths. -/
  | stopped
  /-- The whole strings are plain, with these first accent and case differences. -/
  | whole (accent caseOrder : Ordering)
  deriving DecidableEq, Repr

/-- The one pass over two plain ASCII strings: the first primary difference decides. -/
def asciiPass (c : Collation) (t : Table) : List Char → List Char → Ordering → Ordering → Pass
  | [], [], accent, caseOrder => .whole accent caseOrder
  | x :: xs, y :: ys, accent, caseOrder =>
    if 128 ≤ x.toNat ∨ 128 ≤ y.toNat then .stopped
    else if t.asciiClass x.toNat ≠ .plain ∨ t.asciiClass y.toNat ≠ .plain then .stopped
    else
      let p := t.row x.toNat
      let q := t.row y.toNat
      if p.primary ≠ q.primary then .decided (compare p.primary q.primary)
      else
        asciiPass c t xs ys (accent.then (compare p.accent q.accent))
          (caseOrder.then (if c.has flagIgnoreAccent then compare p.caseOnly q.caseOnly
            else compare p.caseAccent q.caseAccent))
  | _, _, _, _ => .stopped

/-- The two strings without their longest common leading run of characters. -/
def dropCommon : List Char → List Char → List Char × List Char
  | x :: xs, y :: ys => if x = y then dropCommon xs ys else (x :: xs, y :: ys)
  | xs, ys => (xs, ys)

/-- Two strings level by level under a weight table, once their common head is gone. -/
def compareTails (c : Collation) (t : Table) (a b : List Char) : Ordering :=
  match asciiPass c t a b .eq .eq with
  | .decided o => o
  | .whole accent caseOrder =>
    if !c.has flagIgnoreAccent && accent ≠ .eq then accent
    else if !c.has flagIgnoreCase then caseOrder
    else .eq
  | .stopped =>
    if a.all (·.toNat < 128) && b.all (·.toNat < 128) then compareAscii c t a b (c.levels t)
    else compareLevels c t a b (c.levels t)

/-- Two strings level by level under a weight table (`compare_weighted`). -/
def compareWeighted (c : Collation) (t : Table) (a b : List Char) : Ordering :=
  compareTails c t (dropCommon a b).1 (dropCommon a b).2

def utf16 (ch : Char) : List ℕ :=
  if ch.toNat < 0x10000 then [ch.toNat]
  else [0xD800 + (ch.toNat - 0x10000) / 0x400, 0xDC00 + (ch.toNat - 0x10000) % 0x400]

/-- The `_BIN` order: the first code unit, then the little-endian bytes of the others. -/
def compareBinary (a b : List ℕ) : Ordering :=
  match a, b with
  | [], [] => .eq
  | [], _ :: _ => .lt
  | _ :: _, [] => .gt
  | x :: xs, y :: ys =>
    (compare x y).then (compareSequences (xs.flatMap fun u => [u % 256, u / 256])
      (ys.flatMap fun u => [u % 256, u / 256]) none)

def trimEnd (s : List Char) : List Char := (s.reverse.dropWhile (· = ' ')).reverse

def compare (c : Collation) (a b : String) : Ordering :=
  if a = b then .eq
  else
    match c.rules with
    | .binary => compareBinary ((trimEnd a.toList).flatMap utf16) ((trimEnd b.toList).flatMap utf16)
    | .binary2 =>
      compareSequences (a.toList.flatMap utf16) (b.toList.flatMap utf16) (some 0x20)
    | .table t => compareWeighted c t a.toList b.toList

/-! ### The ASCII half of the tables -/

/-- The rows of the ASCII characters are what the comparison reads of them. -/
structure Table.AsciiRows (t : Table) : Prop where
  unit_eq : ∀ n < 128, t.unit (Char.ofNat n) = match t.asciiClass n with
    | .plain => .elements ⟨t.row n, none, false, false⟩ none (t.row n).primary
    | .last => .last (2 * (t.row n).caseAccent)
    | .ignored => .ignored
  space : t.asciiClass 0x20 = .plain

lemma sqlCp1_asciiRows : sqlCp1.AsciiRows := ⟨by decide +kernel, by decide +kernel⟩

lemma windows_asciiRows : windows.AsciiRows := ⟨by decide +kernel, by decide +kernel⟩

lemma windows100_asciiRows : windows100.AsciiRows := ⟨by decide +kernel, by decide +kernel⟩

variable {c : Collation} {t : Table} {level : Level}

lemma Table.AsciiRows.unit (h : t.AsciiRows) {ch : Char} (hch : ch.toNat < 128) :
    t.unit ch = match t.asciiClass ch.toNat with
      | .plain => .elements ⟨t.row ch.toNat, none, false, false⟩ none (t.row ch.toNat).primary
      | .last => .last (2 * (t.row ch.toNat).caseAccent)
      | .ignored => .ignored := by
  have := h.unit_eq ch.toNat hch
  rwa [Char.ofNat_toNat] at this

/-! ### The weights of a string, piece by piece -/

/-- The weights of a string at a level, the positions being counted from `n`. -/
def weightsFrom (c : Collation) (t : Table) (level : Level) (n : ℕ) : List Char → List ℕ
  | [] => []
  | ch :: s =>
    match t.unit ch with
    | .ignored => weightsFrom c t level n s
    | u => c.unitWeights level n u ++ weightsFrom c t level (n + 1) s

lemma levelWeights_eq_from (s : List Char) (level : Level) :
    c.levelWeights t s level = c.weightsFrom t level 0 s := by
  have key : ∀ (s : List Char) (n : ℕ), (((s.map t.unit).filter (· != .ignored)).zipIdx n).flatMap
          (fun u => c.unitWeights level u.2 u.1)
        = c.weightsFrom t level n s := by
    intro s
    induction s with
    | nil => intro n; rfl
    | cons ch s ih =>
      intro n
      cases hu : t.unit ch with
      | ignored => simpa [weightsFrom, hu] using ih n
      | last weight | elements first second own =>
        simpa [weightsFrom, hu, zipIdx_cons] using ih (n + 1)
  exact key s 0

lemma weightsFrom_eq_zero (hl : level ≠ .last) (n : ℕ) (s : List Char) :
    c.weightsFrom t level n s = c.weightsFrom t level 0 s := by
  induction s generalizing n with
  | nil => rfl
  | cons ch s ih =>
    cases hu : t.unit ch with
    | ignored => simp only [weightsFrom, hu]; exact ih n
    | last weight =>
      simp only [weightsFrom, hu]
      rw [ih (n + 1), ih (0 + 1)]
      cases level <;> simp_all [unitWeights]
    | elements first second own =>
      simp only [weightsFrom, hu]
      rw [ih (n + 1), ih (0 + 1)]
      cases level <;> rfl

lemma weightsFrom_append (hl : level ≠ .last) (p s : List Char) :
    c.weightsFrom t level 0 (p ++ s) = c.weightsFrom t level 0 p ++ c.weightsFrom t level 0 s := by
  induction p with
  | nil => rfl
  | cons ch p ih =>
    cases hu : t.unit ch with
    | ignored => simpa only [cons_append, weightsFrom, hu] using ih
    | last weight | elements first second own =>
      simp only [cons_append, weightsFrom, hu]
      rw [weightsFrom_eq_zero hl, ih, weightsFrom_eq_zero hl (0 + 1) p, List.append_assoc]

lemma weightsFrom_last_shift (n k : ℕ) (s : List Char) : c.weightsFrom t .last (n + k) s
      = (c.weightsFrom t .last n s).map (· + k * 2 ^ 32) := by
  induction s generalizing n with
  | nil => rfl
  | cons ch s ih =>
    cases hu : t.unit ch with
    | ignored => simp only [weightsFrom, hu]; exact ih n
    | last weight =>
      have hadd : ∀ m : ℕ, (n + k) * 2 ^ 32 + m = n * 2 ^ 32 + m + k * 2 ^ 32 := by
        intro m
        omega
      simp only [weightsFrom, hu, unitWeights, List.map_append, List.map_cons, List.map_nil]
      rw [show n + k + 1 = n + 1 + k from by omega, ih (n + 1), hadd]
    | elements first second own =>
      simp only [weightsFrom, hu, unitWeights, nil_append]
      rw [show n + k + 1 = n + 1 + k from by omega, ih (n + 1)]

lemma compareLex_map_add (k : ℕ) (xs ys : List ℕ) :
    compareLex Ord.compare (xs.map (· + k)) (ys.map (· + k)) = compareLex Ord.compare xs ys := by
  induction xs generalizing ys with
  | nil => cases ys <;> rfl
  | cons x xs ih =>
    cases ys with
    | nil => rfl
    | cons y ys =>
      simp only [List.map_cons, List.compareLex_cons_cons, ih]
      congr 1
      exact compare_eq_compare (by omega) (by omega)

lemma compareLevels_cons (ch : Char) (a b : List Char) (ls : List Level) :
    c.compareLevels t (ch :: a) (ch :: b) ls = c.compareLevels t a b ls := by
  induction ls with
  | nil => rfl
  | cons level rest ih =>
    have hseq : compareSequences (c.levelWeights t (ch :: a) level)
          (c.levelWeights t (ch :: b) level) (c.padding t level)
        = compareSequences (c.levelWeights t a level) (c.levelWeights t b level)
          (c.padding t level) := by
      simp only [levelWeights_eq_from]
      by_cases hl : level = .last
      · subst hl
        rw [show c.padding t .last = none from rfl]
        cases hu : t.unit ch with
        | ignored => simp only [weightsFrom, hu]
        | last weight =>
          simp only [weightsFrom, hu, compareSequences, unitWeights, cons_append,
            nil_append, List.compareLex_cons_cons, ReflOrd.compare_self,
            weightsFrom_last_shift 0 1, compareLex_map_add]
          rfl
        | elements first second own =>
          simp only [weightsFrom, hu, compareSequences, unitWeights, nil_append,
            weightsFrom_last_shift 0 1, compareLex_map_add]
      · have h := fun s => weightsFrom_append (c := c) (t := t) hl [ch] s
        simp only [cons_append, nil_append] at h
        rw [h a, h b]
        cases c.padding t level with
        | some pad => exact padCmp_append _ _ _
        | none =>
          simp only [compareSequences]
          rw [compareLex_append rfl,
            @ReflCmp.compare_self _ (compareLex (Ord.compare : ℕ → ℕ → Ordering))]
          rfl
    simp only [compareLevels, hseq, ih]

lemma dropCommon_levels (a b : List Char) (ls : List Level) :
    c.compareLevels t (dropCommon a b).1 (dropCommon a b).2 ls = c.compareLevels t a b ls := by
  induction a generalizing b with
  | nil => rfl
  | cons x a ih =>
    cases b with
    | nil => rfl
    | cons y b =>
      rw [dropCommon]
      split_ifs with hxy
      · subst hxy
        rw [ih b, compareLevels_cons]
      · rfl

/-! ### The shortcuts on ASCII characters -/

def levelOrder (c : Collation) (t : Table) (level : Level) (a b : List Char) : Ordering :=
  compareSequences (c.levelWeights t a level) (c.levelWeights t b level) (c.padding t level)

lemma compareLevels_cons_level (level : Level) (ls : List Level) (a b : List Char) :
    c.compareLevels t a b (level :: ls)
      = (c.levelOrder t level a b).then (c.compareLevels t a b ls) := by
  rw [compareLevels, levelOrder]
  cases compareSequences (c.levelWeights t a level) (c.levelWeights t b level)
    (c.padding t level) <;> rfl

lemma compareSequences_cons (x y : ℕ) (xs ys : List ℕ) (pad : Option ℕ) :
    compareSequences (x :: xs) (y :: ys) pad
      = (Ord.compare x y).then (compareSequences xs ys pad) := by
  cases pad with
  | some pad => exact padCmp_cons_cons x y xs ys
  | none => exact List.compareLex_cons_cons

lemma weight_eq_asciiWeight (hl : level ≠ .last) (hown : level ≠ .own) (row : Weights) :
    Element.weight ⟨row, none, false, false⟩ level c = c.asciiWeight row level := by
  cases level with
  | primary => rfl
  | accent => rfl
  | own => exact absurd rfl hown
  | tertiary => simp [Element.weight, asciiWeight]
  | last => exact absurd rfl hl

variable (h : t.AsciiRows)
include h

lemma weightsFrom_cons_plain (hl : level ≠ .last) {ch : Char}
    (hch : ch.toNat < 128) (hp : t.asciiClass ch.toNat = .plain) (n : ℕ) (s : List Char) :
    c.weightsFrom t level n (ch :: s)
      = c.asciiWeight (t.row ch.toNat) level :: c.weightsFrom t level 0 s := by
  have hu := h.unit hch
  rw [hp] at hu
  simp only [weightsFrom, hu]
  rw [weightsFrom_eq_zero hl]
  by_cases hown : level = .own
  · subst hown
    rfl
  · rw [← weight_eq_asciiWeight hl hown]
    cases level <;> simp_all [unitWeights]

lemma weightsFrom_ascii (hl : level ≠ .last) {s : List Char}
    (hs : ∀ ch ∈ s, ch.toNat < 128) (n : ℕ) : c.weightsFrom t level n s
      = (s.filter fun ch => t.asciiClass ch.toNat = .plain).map fun ch =>
          c.asciiWeight (t.row ch.toNat) level := by
  induction s generalizing n with
  | nil => rfl
  | cons ch s ih =>
    have hch := hs ch (by simp)
    have ih' := fun n => ih (fun x hx => hs x (by simp [hx])) n
    have hu := h.unit hch
    cases hc : t.asciiClass ch.toNat with
    | plain =>
      rw [weightsFrom_cons_plain h hl hch hc, ih' 0]
      simp [hc]
    | last =>
      rw [hc] at hu
      have hnil : c.unitWeights level n (.last (2 * (t.row ch.toNat).caseAccent)) = [] := by
        cases level <;> simp_all [unitWeights]
      simp only [weightsFrom, hu, hnil, nil_append, ih']
      simp [hc]
    | ignored =>
      rw [hc] at hu
      simp only [weightsFrom, hu, ih']
      simp [hc]

lemma weightsFrom_ascii_last {s : List Char} (hs : ∀ ch ∈ s, ch.toNat < 128) (n : ℕ) :
    c.weightsFrom t .last n s
      = (((s.filter fun ch => t.asciiClass ch.toNat ≠ .ignored).zipIdx n).filter fun p =>
          t.asciiClass p.1.toNat = .last).map fun p =>
        p.2 * 2 ^ 32 + (t.row p.1.toNat).caseAccent * 2 := by
  induction s generalizing n with
  | nil => rfl
  | cons ch s ih =>
    have hch := hs ch (by simp)
    have ih' := fun n => ih (fun x hx => hs x (by simp [hx])) n
    have hu := h.unit hch
    cases hc : t.asciiClass ch.toNat with
    | plain =>
      rw [hc] at hu
      simp only [weightsFrom, hu, unitWeights, nil_append, ih']
      simp [hc, zipIdx_cons]
    | last =>
      rw [hc] at hu
      have hw : (if c.has flagIgnoreWidth = true then
          2 * (t.row ch.toNat).caseAccent / 2 * 2 else 2 * (t.row ch.toNat).caseAccent)
          = (t.row ch.toNat).caseAccent * 2 := by
        split_ifs <;> omega
      simp only [weightsFrom, hu, unitWeights, hw, ih']
      simp [hc, zipIdx_cons]
    | ignored =>
      rw [hc] at hu
      simp only [weightsFrom, hu, ih']
      simp [hc]

lemma padding_eq (hl : level ≠ .last) :
    c.padding t level = some (c.asciiWeight (t.row 0x20) level) := by
  rw [padding, if_neg hl, levelWeights_eq_from,
    weightsFrom_cons_plain h hl (by decide) (show t.asciiClass (' ' : Char).toNat = .plain from
      h.space)]
  rfl

lemma compareAscii_eq_levels {a b : List Char} (ha : ∀ ch ∈ a, ch.toNat < 128)
    (hb : ∀ ch ∈ b, ch.toNat < 128) (ls : List Level) :
    c.compareAscii t a b ls = c.compareLevels t a b ls := by
  induction ls with
  | nil => rfl
  | cons level rest ih =>
    rw [compareAscii, compareLevels, ih]
    by_cases hl : level = .last
    · subst hl
      simp only [if_true, levelWeights_eq_from, weightsFrom_ascii_last h ha,
        weightsFrom_ascii_last h hb]
      rfl
    · simp only [if_neg hl, levelWeights_eq_from, weightsFrom_ascii h hl ha,
        weightsFrom_ascii h hl hb, padding_eq h hl]

lemma levelOrder_cons_plain (hl : level ≠ .last) {x y : Char} (hx : x.toNat < 128)
    (hy : y.toNat < 128) (hpx : t.asciiClass x.toNat = .plain) (hpy : t.asciiClass y.toNat = .plain)
    (a b : List Char) : c.levelOrder t level (x :: a) (y :: b)
      = (Ord.compare (c.asciiWeight (t.row x.toNat) level)
          (c.asciiWeight (t.row y.toNat) level)).then (c.levelOrder t level a b) := by
  simp only [levelOrder, levelWeights_eq_from, weightsFrom_cons_plain h hl hx hpx,
    weightsFrom_cons_plain h hl hy hpy, compareSequences_cons]

lemma levelOrder_cons_plain_last {x y : Char}
    (hx : x.toNat < 128) (hy : y.toNat < 128) (hpx : t.asciiClass x.toNat = .plain)
    (hpy : t.asciiClass y.toNat = .plain) (a b : List Char) :
    c.levelOrder t .last (x :: a) (y :: b) = c.levelOrder t .last a b := by
  have hux := h.unit hx
  have huy := h.unit hy
  rw [hpx] at hux
  rw [hpy] at huy
  simp only [levelOrder, levelWeights_eq_from, weightsFrom, hux, huy, unitWeights, nil_append]
  rw [weightsFrom_last_shift 0 1, weightsFrom_last_shift 0 1]
  exact compareLex_map_add _ _ _

omit h in
lemma compare_four_mul (m n : ℕ) : Ord.compare (4 * m) (4 * n) = Ord.compare m n :=
  compare_eq_compare (by omega) (by omega)

/-- What the pass over two runs of plain ASCII characters has found: the order at the primary
level when it decides, and at each level when it has read both strings. -/
lemma asciiPass_spec (a b : List Char) (accent caseOrder : Ordering) :
    match asciiPass c t a b accent caseOrder with
    | .decided o => o ≠ .eq ∧ c.levelOrder t .primary a b = o
    | .whole acc cas =>
      c.levelOrder t .primary a b = .eq ∧ c.levelOrder t .own a b = .eq ∧
      c.levelOrder t .last a b = .eq ∧ acc = accent.then (c.levelOrder t .accent a b) ∧
      (c.has flagIgnoreCase = false → cas = caseOrder.then (c.levelOrder t .tertiary a b)) ∧
      (c.has flagIgnoreCase = true → c.levelOrder t .tertiary a b = .eq)
    | .stopped => True := by
  fun_induction asciiPass c t a b accent caseOrder with
  | case1 =>
    have hnil : ∀ level, c.levelOrder t level [] [] = .eq := by
      intro level
      rw [levelOrder, levelWeights_eq_from]
      cases c.padding t level <;> rfl
    simp [hnil]
  | case2 | case3 | case6 => trivial
  | case4 x a y b accent caseOrder hascii hplain p q hprim =>
    -- the primary weights differ: nothing after them counts
    simp only [not_or, not_le, not_not] at hascii hplain
    have hne : Ord.compare p.primary q.primary ≠ .eq := fun he => hprim (Nat.compare_eq_eq.mp he)
    refine ⟨hne, ?_⟩
    rw [levelOrder_cons_plain h (by decide) hascii.1 hascii.2 hplain.1 hplain.2]
    change (Ord.compare p.primary q.primary).then _ = _
    cases hcmp : Ord.compare p.primary q.primary with
    | eq => exact absurd hcmp hne
    | lt | gt => rfl
  | case5 x a y b accent caseOrder hascii hplain p q hprim ih =>
    simp only [not_or, not_le, not_not] at hascii hplain hprim
    have hcons : ∀ level, level ≠ .last → c.levelOrder t level (x :: a) (y :: b)
        = (Ord.compare (c.asciiWeight p level) (c.asciiWeight q level)).then
          (c.levelOrder t level a b) :=
      fun level hl => levelOrder_cons_plain h hl hascii.1 hascii.2 hplain.1 hplain.2 a b
    have hlast := levelOrder_cons_plain_last (c := c) h hascii.1 hascii.2 hplain.1 hplain.2 a b
    have hprimary : ∀ level, level = .primary ∨ level = .own →
        c.levelOrder t level (x :: a) (y :: b) = c.levelOrder t level a b := by
      rintro level (rfl | rfl) <;> rw [hcons _ (by decide)] <;> simp [asciiWeight, hprim]
    rw [hprimary .primary (Or.inl rfl), hprimary .own (Or.inr rfl), hlast,
      hcons .accent (by decide), hcons .tertiary (by decide)]
    simp only [asciiWeight, compare_four_mul]
    revert ih
    cases asciiPass c t a b _ _ with
    | decided o => exact id
    | stopped => exact fun _ => trivial
    | whole acc cas =>
      rintro ⟨h1, h2, h3, h4, h5, h6⟩
      refine ⟨h1, h2, h3, ?_, fun hcase => ?_, fun hcase => ?_⟩
      · rw [h4, Ordering.then_assoc]
      · rw [h5 hcase, Ordering.then_assoc]
        cases c.has flagIgnoreAccent <;> simp [hcase]
      · simp [hcase, h6 hcase]

omit h in
lemma compareLevels_nil (a b : List Char) : c.compareLevels t a b [] = .eq := rfl

lemma compareTails_eq_levels (a b : List Char) :
    c.compareTails t a b = c.compareLevels t a b (c.levels t) := by
  have hspec := asciiPass_spec (c := c) h a b .eq .eq
  rw [compareTails]
  cases hpass : asciiPass c t a b .eq .eq with
  | decided o =>
    rw [hpass] at hspec
    obtain ⟨hne, hprim⟩ := hspec
    simp only [levels, List.append_assoc, cons_append, nil_append]
    rw [compareLevels_cons_level, hprim]
    cases o with
    | eq => exact absurd rfl hne
    | lt | gt => rfl
  | whole accent caseOrder =>
    rw [hpass] at hspec
    obtain ⟨h1, h2, h3, h4, h5, h6⟩ := hspec
    replace h4 : accent = c.levelOrder t .accent a b := h4
    replace h5 : c.has flagIgnoreCase = false → caseOrder = c.levelOrder t .tertiary a b := h5
    subst h4
    cases hcase : c.has flagIgnoreCase with
    | false =>
      rw [h5 hcase]
      cases hacc : c.has flagIgnoreAccent <;> cases hown : t.ownLevel <;>
        cases hlast : t.hasLastLevel <;> cases hlo : c.levelOrder t .accent a b <;>
        simp [levels, compareLevels_cons_level, compareLevels_nil, h1, h2, h3, hcase, hacc, hlo,
          hown, hlast]
    | true =>
      have h6' := h6 hcase
      cases hacc : c.has flagIgnoreAccent <;> cases hown : t.ownLevel <;>
        cases hlast : t.hasLastLevel <;> cases hlo : c.levelOrder t .accent a b <;>
        cases hk : c.has flagIgnoreKana <;> cases hw : c.has flagIgnoreWidth <;>
        simp [levels, compareLevels_cons_level, compareLevels_nil, h1, h2, h3, h6', hcase, hacc,
          hlo, hown, hlast, hk, hw]
  | stopped =>
    simp only
    split_ifs with hall
    · simp only [Bool.and_eq_true, List.all_eq_true, decide_eq_true_eq] at hall
      exact compareAscii_eq_levels h hall.1 hall.2 _
    · rfl

/-- **The shortcuts of the source change nothing**: two strings compare level by level. -/
theorem compareWeighted_eq_levels (a b : List Char) :
    c.compareWeighted t a b = c.compareLevels t a b (c.levels t) := by
  rw [compareWeighted, compareTails_eq_levels h, dropCommon_levels]

omit h

/-! ### Every collation is a total preorder -/

lemma levelOrder_transCmp (c : Collation) (t : Table) (level : Level) :
    TransCmp (c.levelOrder t level) := by
  have h : ∀ pad, TransCmp fun xs ys => compareSequences xs ys pad := by
    intro pad
    cases pad with
    | some pad => exact inferInstanceAs (TransCmp (padCmp Ord.compare pad))
    | none => exact inferInstanceAs (TransCmp (compareLex (Ord.compare : ℕ → ℕ → Ordering)))
  have := h (c.padding t level)
  exact transCmp_comap (fun xs ys => compareSequences xs ys (c.padding t level))
    fun a => c.levelWeights t a level

lemma compareLevels_transCmp (c : Collation) (t : Table) (ls : List Level) :
    TransCmp fun a b => c.compareLevels t a b ls := by
  induction ls with
  | nil => exact { eq_swap := rfl, isLE_trans := fun _ _ => rfl }
  | cons level rest ih =>
    have := levelOrder_transCmp c t level
    have heq : (fun a b => c.compareLevels t a b (level :: rest))
        = compareLex (c.levelOrder t level) fun a b => c.compareLevels t a b rest := by
      funext a b
      exact compareLevels_cons_level level rest a b
    rw [heq]
    infer_instance

/-- The list whose lexicographic order is the `_BIN` order. -/
def binaryKey : List ℕ → List ℕ
  | [] => []
  | x :: xs => x :: xs.flatMap fun u => [u % 256, u / 256]

lemma compareBinary_eq (a b : List ℕ) :
    compareBinary a b = compareLex Ord.compare (binaryKey a) (binaryKey b) := by
  cases a with
  | nil => cases b <;> rfl
  | cons x xs =>
    cases b with
    | nil => rfl
    | cons y ys => exact List.compareLex_cons_cons.symm

/-- The order of the rules, before the shortcut on identical strings. -/
def ruleOrder (c : Collation) (a b : String) : Ordering :=
  match c.rules with
  | .binary => compareBinary ((trimEnd a.toList).flatMap utf16) ((trimEnd b.toList).flatMap utf16)
  | .binary2 => compareSequences (a.toList.flatMap utf16) (b.toList.flatMap utf16) (some 0x20)
  | .table t => compareWeighted c t a.toList b.toList

lemma rules_asciiRows (hr : c.rules = .table t) : t.AsciiRows := by
  rw [rules] at hr
  split_ifs at hr <;> cases hr
  exacts [sqlCp1_asciiRows, windows100_asciiRows, windows_asciiRows]

lemma ruleOrder_transCmp (c : Collation) : TransCmp c.ruleOrder := by
  cases hr : c.rules with
  | binary =>
    have heq : c.ruleOrder = fun a b =>
        compareLex Ord.compare (binaryKey ((trimEnd a.toList).flatMap utf16))
          (binaryKey ((trimEnd b.toList).flatMap utf16)) := by
      funext a b
      simp only [ruleOrder, hr, compareBinary_eq]
    rw [heq]
    exact transCmp_comap (compareLex Ord.compare) fun a : String =>
      binaryKey ((trimEnd a.toList).flatMap utf16)
  | binary2 =>
    have heq : c.ruleOrder = fun a b =>
        padCmp Ord.compare 0x20 (a.toList.flatMap utf16) (b.toList.flatMap utf16) := by
      funext a b
      simp only [ruleOrder, hr, compareSequences]
    rw [heq]
    exact transCmp_comap (padCmp Ord.compare 0x20) fun a : String => a.toList.flatMap utf16
  | table t =>
    have heq : c.ruleOrder = fun a b =>
        c.compareLevels t a.toList b.toList (c.levels t) := by
      funext a b
      simp only [ruleOrder, hr, compareWeighted_eq_levels (rules_asciiRows hr)]
    have := compareLevels_transCmp c t (c.levels t)
    rw [heq]
    exact transCmp_comap (fun a b => c.compareLevels t a b (c.levels t)) String.toList

lemma compare_eq_ruleOrder (c : Collation) : c.compare = c.ruleOrder := by
  funext a b
  have := ruleOrder_transCmp c
  rw [compare]
  split_ifs with hab
  · subst hab
    exact (@ReflCmp.compare_self _ c.ruleOrder _ _).symm
  · rfl

/-- **Every collation is a total preorder on strings.** -/
instance compare_transCmp (c : Collation) : TransCmp c.compare := by
  rw [compare_eq_ruleOrder]
  exact ruleOrder_transCmp c

end Collation

end VaubanDB
