import VaubanDB.Library.Codes
import VaubanDB.Library.LittleEndian
import VaubanDB.Types.Compare

/-!
Sort keys (`vauban-types/src/compare.rs`): byte strings whose order is the order of `compare`.

A key begins with the family of its value.  A string is written level by level: a level compared
with padding leaves out the padding at its end and flags the padding inside (`PaddedLevel`), the
last level announces each of its weights.  Every function returns the bytes it appends.
-/

namespace VaubanDB

namespace Collation

/-! ### Weights -/

/-- The byte that ends a sequence compared without padding. -/
def keyEnd : UInt8 := 0
/-- The byte before each element of a sequence compared without padding. -/
def keyMore : UInt8 := 1

/-- How the weights of a sequence are written. -/
inductive Width where
  | two | wide | eight
  deriving DecidableEq, Repr

def levelWidth : Level → Width
  | .accent => .two
  | .primary | .own | .tertiary => .wide
  | .last => .eight

/-- The first weight `Width.wide` writes on four bytes. -/
def wideFrom : ℕ := 0xFF00

/-- The bytes of a weight, most significant first. -/
def putWeight (width : Width) (weight : ℕ) : List UInt8 :=
  match width with
  | .two => beBytes 2 weight
  | .wide => if weight < wideFrom then beBytes 2 weight else 0xFF :: beBytes 3 weight
  | .eight => beBytes 8 weight

/-- One element of a sequence compared without padding. -/
def writeUnpadded (weight : ℕ) (width : Width) : List UInt8 := keyMore :: putWeight width weight

/-- The key of a sequence of weights compared with padding, as it is being written. -/
structure PaddedLevel where
  pad : ℕ
  width : Width
  /-- The `pad` weights read and not yet written. -/
  pending : ℕ
  deriving DecidableEq, Repr

namespace PaddedLevel

/-- The flag of a `pad` weight followed by a smaller weight. -/
def below : UInt8 := 0
/-- The flag of the end of the sequence. -/
def stop : UInt8 := 1
/-- The flag of a `pad` weight followed by a larger weight. -/
def above : UInt8 := 2

/-- Takes the next weight of the sequence. -/
def push (l : PaddedLevel) (weight : ℕ) : PaddedLevel × List UInt8 :=
  if weight = l.pad then ({ l with pending := l.pending + 1 }, [])
  else
    let flag := if weight < l.pad then below else above
    ({ l with pending := 0 },
      (List.replicate l.pending (putWeight l.width l.pad ++ [flag])).flatten
        ++ putWeight l.width weight)

/-- Ends the sequence, dropping its trailing `pad` weights. -/
def finish (l : PaddedLevel) : List UInt8 := putWeight l.width l.pad ++ [stop]

/-- Pushes the weights in order, then ends the sequence. -/
def write (l : PaddedLevel) : List ℕ → List UInt8
  | [] => l.finish
  | weight :: weights => (l.push weight).2 ++ write (l.push weight).1 weights

end PaddedLevel

/-! ### Strings -/

/-- The key of one level of a table comparison. -/
def writeLevel (c : Collation) (t : Table) (s : List Char) (level : Level) : List UInt8 :=
  if level = .last then
    ((c.levelWeights t s level).flatMap fun weight => writeUnpadded weight .eight) ++ [keyEnd]
  else
    let pad := (c.levelWeights t [' '] level).head?.getD 0
    PaddedLevel.write ⟨pad, levelWidth level, 0⟩ (c.levelWeights t s level)

/-- The key of one level of an ASCII string, through the rows of the table. -/
def writeAsciiLevel (c : Collation) (t : Table) (s : List Char) (level : Level) : List UInt8 :=
  if level = .last then
    ((asciiLast t s).flatMap fun weight => writeUnpadded weight .eight) ++ [keyEnd]
  else
    let pad := c.asciiWeight (t.row 0x20) level
    PaddedLevel.write ⟨pad, levelWidth level, 0⟩
      ((s.filter fun ch => t.asciiClass ch.toNat = .plain).map fun ch =>
        c.asciiWeight (t.row ch.toNat) level)

/-- The `_BIN` key of the code units of a string whose trailing spaces are dropped. -/
def writeBinaryKey : List ℕ → List UInt8
  | [] => [keyEnd]
  | first :: units =>
    writeUnpadded first .two ++ escapeBytes (units.flatMap (leBytes 2)) ++ [0, 0]

def writeStringKey (c : Collation) (s : String) : List UInt8 :=
  match c.rules with
  | .binary => writeBinaryKey ((trimEnd s.toList).flatMap utf16)
  | .binary2 => PaddedLevel.write ⟨0x20, .two, 0⟩ (s.toList.flatMap utf16)
  | .table t =>
    (c.levels t).flatMap fun level =>
      if s.toList.all (·.toNat < 128) then c.writeAsciiLevel t s.toList level
      else c.writeLevel t s.toList level

end Collation

/-! ### Values -/

/-- The first byte of a key: the family of the value. -/
inductive KeyFamily where
  | null | bit | integer | decimal | float | money | string | bytes
  | guid | date | time | dateTime | dateTime2 | dateTimeOffset
  deriving DecidableEq, Repr

def KeyFamily.byte : KeyFamily → UInt8
  | .null => 0
  | .bit => 1
  | .integer => 2
  | .decimal => 3
  | .float => 4
  | .money => 5
  | .string => 6
  | .bytes => 7
  | .guid => 8
  | .date => 9
  | .time => 10
  | .dateTime => 11
  | .dateTime2 => 12
  | .dateTimeOffset => 13

/-- A signed 64-bit integer as an unsigned one of the same order. -/
def flipSign (x : ℤ) : BitVec 64 := BitVec.ofInt 64 x ^^^ BitVec.twoPow 64 63

def flipSign32 (x : ℤ) : BitVec 32 := BitVec.ofInt 32 x ^^^ BitVec.twoPow 32 31

/-- A float as an unsigned integer of the same order, `-0.0` folded onto `0.0`. -/
def floatKey (x : BitVec 64) : BitVec 64 :=
  let bits := if x.toNat % 2 ^ 63 = 0 then 0#64 else x
  if bits.msb then ~~~bits else bits ||| BitVec.twoPow 64 63

def maxDecimalScale : UInt8 := 38

/-- The key of a decimal: sign, integer part and fraction on 38 digits, complemented if negative. -/
def writeDecimalKey (x : Decimal) : SqlResult (List UInt8) :=
  if x.mantissa.toInt = 0 then .ok [1]
  else if x.scale > maxDecimalScale then
    let scale := x.scale
    bug s!"sort_key: decimal scale {scale} out of range"
  else do
    let (integer, fraction) ← splitDecimal x maxDecimalScale
    if x.mantissa.toInt < 0 then
      .ok (0 :: (beBytes 16 (2 ^ 128 - 1 - integer) ++ beBytes 16 (2 ^ 128 - 1 - fraction)))
    else .ok (2 :: (beBytes 16 integer ++ beBytes 16 fraction))

/-- The key of `binary` data: its bytes without the trailing zeros, each zero escaped. -/
def writeBytesKey (x : List UInt8) : List UInt8 := escapeBytes (dropPadding 0 x) ++ [0, 0]

def writeDateTime2Key (x : DateTime2) : List UInt8 :=
  beBytes 4 (flipSign32 x.date.days.toInt).toNat ++ beBytes 8 x.time.ticks100ns.toNat

def sortKey (v : Value) (collation : Collation) : SqlResult (List UInt8) :=
  match integerAsI64 v with
  | some x => .ok (KeyFamily.integer.byte :: beBytes 8 (flipSign x).toNat)
  | none =>
    match floatAsF64 v with
    | some x => .ok (KeyFamily.float.byte :: beBytes 8 (floatKey x).toNat)
    | none =>
      match v with
      | .null => .ok [KeyFamily.null.byte]
      | .bit x => .ok [KeyFamily.bit.byte, if x then 1 else 0]
      | .decimal x => (writeDecimalKey x).map (KeyFamily.decimal.byte :: ·)
      | .money x => .ok (KeyFamily.money.byte :: beBytes 8 (flipSign x.toInt).toNat)
      | .string x => .ok (KeyFamily.string.byte :: collation.writeStringKey x)
      | .bytes x => .ok (KeyFamily.bytes.byte :: writeBytesKey x)
      | .guid x => .ok (KeyFamily.guid.byte :: guidOrder.map x.get)
      | .date x => .ok (KeyFamily.date.byte :: beBytes 4 (flipSign32 x.days.toInt).toNat)
      | .time x => .ok (KeyFamily.time.byte :: beBytes 8 x.ticks100ns.toNat)
      | .dateTime x =>
        .ok (KeyFamily.dateTime.byte ::
          (beBytes 4 (flipSign32 x.days.toInt).toNat ++ beBytes 4 x.ticks300th.toNat))
      | .dateTime2 x => .ok (KeyFamily.dateTime2.byte :: writeDateTime2Key x)
      | .dateTimeOffset x => .ok (KeyFamily.dateTimeOffset.byte :: writeDateTime2Key x.utc)
      -- the integers and the floats are read before the match
      | _ => .ok []

/-- The key of a row: the keys of its columns end to end (`KeyEncoder::encode`). -/
def encodeKeys (collations : List Collation) (values : List Value) : SqlResult (List UInt8) :=
  ((values.zip collations).mapM fun (value, collation) => sortKey value collation).map
    List.flatten

end VaubanDB
