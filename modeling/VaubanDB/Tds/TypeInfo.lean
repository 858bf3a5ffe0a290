import VaubanDB.Library.LittleEndian
import VaubanDB.Tds.Packet
import VaubanDB.Types.Compare

/-!
Types and values on the wire (`vauban-tds/src/types`): the `TYPE_INFO` of a column and the
layout of a value under it.

Three families: the fixed-length and `BYTELEN` types (`bytelen.rs`), the strings and binaries
with a declared length (`ushortlen.rs`), and those of length `max`, sent in chunks (`plp.rs`).
Every function returns the bytes it appends; nothing is appended when it fails.
-/

namespace VaubanDB.Tds

abbrev Encoded := Except TdsError (List UInt8)

/-- The families of types on the wire. -/
inductive TypeFamily where
  | byteLen | uShortLen | plp
  deriving DecidableEq, Repr

def typeFamily : SqlType → TypeFamily
  | .varChar .max | .nVarChar .max | .varBinary .max => .plp
  | .char _ | .varChar _ | .nChar _ | .nVarChar _ | .binary _ | .varBinary _ => .uShortLen
  | _ => .byteLen

def typeName : SqlType → String
  | .bit => "bit"
  | .tinyInt => "tinyint"
  | .smallInt => "smallint"
  | .int => "int"
  | .bigInt => "bigint"
  | .decimal .. => "decimal"
  | .numeric .. => "numeric"
  | .float => "float"
  | .real => "real"
  | .money => "money"
  | .smallMoney => "smallmoney"
  | .char _ => "char"
  | .varChar _ => "varchar"
  | .nChar _ => "nchar"
  | .nVarChar _ => "nvarchar"
  | .binary _ => "binary"
  | .varBinary _ => "varbinary"
  | .date => "date"
  | .time _ => "time"
  | .dateTime => "datetime"
  | .smallDateTime => "smalldatetime"
  | .dateTime2 _ => "datetime2"
  | .dateTimeOffset _ => "datetimeoffset"
  | .uniqueIdentifier => "uniqueidentifier"

/-- The value does not match the type it is announced under. -/
def mismatch {α : Type} (ty : SqlType) : Except TdsError α :=
  .error (.valueTypeMismatch (typeName ty))

def encodeCollation (c : Collation) : List UInt8 :=
  leBytes 4 ((c.lcid.toNat % 2 ^ 20) + c.flags.toNat * 2 ^ 20 + (c.version.toNat % 2 ^ 4) * 2 ^ 28)
    ++ [c.sortId]

/-! ### Fixed-length and `BYTELEN` types -/

/-- How the `TYPE_INFO` and the values of such a type travel. -/
inductive ByteLenWire where
  | fixed (token : UInt8)
  | byteLen (token maxLen : UInt8)
  | decimal (token len precision scale : UInt8)
  | date
  | scaled (token scale : UInt8)
  deriving DecidableEq, Repr

/-- The announced length of a decimal: a sign, then 4, 8, 12 or 16 bytes. -/
def decimalLen (precision : UInt8) : Except TdsError UInt8 :=
  if 1 ≤ precision ∧ precision ≤ 9 then .ok 5
  else if 10 ≤ precision ∧ precision ≤ 19 then .ok 9
  else if 20 ≤ precision ∧ precision ≤ 28 then .ok 13
  else if 29 ≤ precision ∧ precision ≤ 38 then .ok 17
  else .error (.malformed "TYPE_INFO decimal precision out of range 1..=38")

/-- Validates a scale of fractional seconds. -/
def checkedScale (scale : UInt8) : Except TdsError UInt8 :=
  if scale ≤ 7 then .ok scale
  else .error (.malformed "TYPE_INFO fractional-seconds scale out of range 0..=7")

/-- The wire form of a type; a nullable one has a length before each value. -/
def byteLenWire (ti : TypeInfo) : Except TdsError ByteLenWire :=
  let twoForms (fixed nToken len : UInt8) : ByteLenWire :=
    if ti.nullable then .byteLen nToken len else .fixed fixed
  match ti.ty with
  | .bit => .ok (twoForms 0x32 0x68 1)
  | .tinyInt => .ok (twoForms 0x30 0x26 1)
  | .smallInt => .ok (twoForms 0x34 0x26 2)
  | .int => .ok (twoForms 0x38 0x26 4)
  | .bigInt => .ok (twoForms 0x7F 0x26 8)
  | .real => .ok (twoForms 0x3B 0x6D 4)
  | .float => .ok (twoForms 0x3E 0x6D 8)
  | .money => .ok (twoForms 0x3C 0x6E 8)
  | .smallMoney => .ok (twoForms 0x7A 0x6E 4)
  | .dateTime => .ok (twoForms 0x3D 0x6F 8)
  | .smallDateTime => .ok (twoForms 0x3A 0x6F 4)
  | .decimal precision scale =>
    (decimalLen precision).map fun len => .decimal 0x6A len precision scale
  | .numeric precision scale =>
    (decimalLen precision).map fun len => .decimal 0x6C len precision scale
  | .uniqueIdentifier => .ok (.byteLen 0x24 16)
  | .date => .ok .date
  | .time scale => (checkedScale scale).map fun s => .scaled 0x29 s
  | .dateTime2 scale => (checkedScale scale).map fun s => .scaled 0x2A s
  | .dateTimeOffset scale => (checkedScale scale).map fun s => .scaled 0x2B s
  | _ => .error (.malformed "string or binary type is not a fixed-length or BYTELEN type")

def byteLenTypeInfo (ti : TypeInfo) : Encoded := do
  match ← byteLenWire ti with
  | .fixed token => .ok [token]
  | .byteLen token maxLen => .ok [token, maxLen]
  | .decimal token len precision scale => .ok [token, len, precision, scale]
  | .date => .ok [0x28]
  | .scaled token scale => .ok [token, scale]

/-- A payload, after its length when there is one. -/
def putPrefixed (prefixed : Bool) (payload : List UInt8) : List UInt8 :=
  if prefixed then UInt8.ofNat payload.length :: payload else payload

def dateBytes (d : Date) (ty : SqlType) : Encoded :=
  if 0 ≤ d.days.toInt ∧ d.days.toInt ≤ 0x00FFFFFF then .ok (leBytes 3 d.days.toInt.toNat)
  else mismatch ty

def timeLen (scale : UInt8) : ℕ := if scale ≤ 2 then 3 else if scale ≤ 4 then 4 else 5

def timeBytes (t : Time) (scale : UInt8) (ty : SqlType) : Encoded :=
  if 7 < scale then .error (.malformed "TYPE_INFO fractional-seconds scale out of range 0..=7")
  else
    let divisor := 10 ^ (7 - scale.toNat)
    if t.ticks100ns.toNat % divisor ≠ 0 then mismatch ty
    else
      let units := t.ticks100ns.toNat / divisor
      if units < 256 ^ timeLen scale then .ok (leBytes (timeLen scale) units) else mismatch ty

def ticks300thPerMinute : ℕ := 300 * 60

/-- A value in the layout of a fixed-length or `BYTELEN` type. -/
def byteLenValue (ti : TypeInfo) (value : Value) : Encoded := do
  let wire ← byteLenWire ti
  let prefixed := match wire with
    | .fixed _ => false
    | _ => true
  match ti.ty, value with
  | _, .null => if ti.nullable then .ok [0] else .error .nullInNotNullable
  | .bit, .bit b => .ok (putPrefixed prefixed [if b then 1 else 0])
  | .tinyInt, .i8 v => .ok (putPrefixed prefixed [v])
  | .smallInt, .i16 v => .ok (putPrefixed prefixed (leBytes 2 v.toUInt16.toNat))
  | .int, .i32 v => .ok (putPrefixed prefixed (leBytes 4 v.toUInt32.toNat))
  | .bigInt, .i64 v => .ok (putPrefixed prefixed (leBytes 8 v.toUInt64.toNat))
  | .real, .f32 v => .ok (putPrefixed prefixed (leBytes 4 v.toNat))
  | .float, .f64 v => .ok (putPrefixed prefixed (leBytes 8 v.toNat))
  | .money, .money v =>
    -- the high word first, each word little-endian
    let le := leBytes 8 v.toUInt64.toNat
    .ok (putPrefixed prefixed (le.drop 4 ++ le.take 4))
  | .smallMoney, .money v =>
    if -2 ^ 31 ≤ v.toInt ∧ v.toInt < 2 ^ 31 then
      .ok (putPrefixed prefixed (leBytes 4 v.toUInt64.toNat))
    else mismatch ti.ty
  | .dateTime, .dateTime dt =>
    .ok (putPrefixed prefixed (leBytes 4 dt.days.toUInt32.toNat ++ leBytes 4 dt.ticks300th.toNat))
  | .smallDateTime, .dateTime dt =>
    if ¬(0 ≤ dt.days.toInt ∧ dt.days.toInt < 2 ^ 16) then mismatch ti.ty
    else if dt.ticks300th.toNat % ticks300thPerMinute ≠ 0 then mismatch ti.ty
    else
      let minutes := dt.ticks300th.toNat / ticks300thPerMinute
      if minutes < 2 ^ 16 then
        .ok (putPrefixed prefixed (leBytes 2 dt.days.toInt.toNat ++ leBytes 2 minutes))
      else mismatch ti.ty
  | .decimal _ scale, .decimal d | .numeric _ scale, .decimal d =>
    match wire with
    | .decimal _ len _ _ =>
      let n := len.toNat - 1
      if d.scale ≠ scale then mismatch ti.ty
      else if 256 ^ n ≤ d.mantissa.toInt.natAbs then mismatch ti.ty
      else
        .ok (putPrefixed true
          ((if 0 ≤ d.mantissa.toInt then 1 else 0) :: leBytes n d.mantissa.toInt.natAbs))
    | _ => mismatch ti.ty
  | .uniqueIdentifier, .guid g => .ok (putPrefixed true g.toList)
  | .date, .date d => (dateBytes d ti.ty).map (putPrefixed true)
  | .time scale, .time t => (timeBytes t scale ti.ty).map (putPrefixed true)
  | .dateTime2 scale, .dateTime2 dt => do
      let time ← timeBytes dt.time scale ti.ty
      let date ← dateBytes dt.date ti.ty
      .ok (putPrefixed true (time ++ date))
  | .dateTimeOffset scale, .dateTimeOffset dto => do
      let time ← timeBytes dto.utc.time scale ti.ty
      let date ← dateBytes dto.utc.date ti.ty
      .ok (putPrefixed true (time ++ date ++ leBytes 2 dto.offsetMinutes.toUInt16.toNat))
  | _, _ => mismatch ti.ty

/-! ### Strings and binaries -/

/-- How the data of a string or binary type is laid out. -/
inductive TextEncoding where
  | cp1252 | utf16Le | raw
  deriving DecidableEq, Repr

/-- What a fixed-width value is padded with. -/
def TextEncoding.padding : TextEncoding → List UInt8
  | .cp1252 => [0x20]
  | .utf16Le => [0x20, 0x00]
  | .raw => [0x00]

/-- The code page byte of a character; a control of `0x80`-`0x9F` has none. -/
def encodeCp1252Char (ch : Char) : Option UInt8 :=
  let code := ch.toNat
  if code ≤ 0x7F ∨ (0xA0 ≤ code ∧ code ≤ 0xFF) then some (UInt8.ofNat code)
  else if 0x80 ≤ code ∧ code ≤ 0x9F then none
  else (cp1252HighRange.findIdx? fun entry => entry == some ch).map fun i => UInt8.ofNat (0x80 + i)

/-- The code page bytes of a text, a question mark where there is none. -/
def encodeCp1252 (text : String) : List UInt8 :=
  text.toList.map fun ch => (encodeCp1252Char ch).getD 0x3F

def encodeUtf16Le (text : String) : List UInt8 :=
  (text.toList.flatMap Collation.utf16).flatMap (leBytes 2)

/-- The data bytes of a value that is not `NULL`. -/
def encodePayload (ty : SqlType) (encoding : TextEncoding) (value : Value) : Encoded :=
  match encoding, value with
  | .cp1252, .string s => .ok (encodeCp1252 s)
  | .utf16Le, .string s => .ok (encodeUtf16Le s)
  | .raw, .bytes b => .ok b
  | _, _ => mismatch ty

/-- The wire form of a string or binary type with a declared length. -/
structure UShortLenWire where
  token : UInt8
  maxBytes : ℕ
  encoding : TextEncoding
  fixedWidth : Bool
  collation : Option Collation
  deriving DecidableEq, Repr

/-- The collation written for a type: a string type without one gets the default. -/
def wireCollation (ti : TypeInfo) : Option Collation :=
  if ti.ty.isString then some (ti.collation.getD .default) else none

/-- The wire form of a type, its declared length being validated. -/
def uShortLenWire (ti : TypeInfo) : Except TdsError UShortLenWire :=
  let form (token : UInt8) (len : Len) (fixedWidth : Bool) (unitBytes : ℕ)
      (encoding : TextEncoding) : Except TdsError UShortLenWire :=
    match len with
    | .max => .error (.malformed "TYPE_INFO char, nchar and binary have no (max) form")
    | .fixed n =>
      let (bound, outOfRange) :=
        if unitBytes = 2 then
          (4000, "TYPE_INFO nchar/nvarchar length out of range 1..=4000")
        else (8000, "TYPE_INFO char/varchar/binary/varbinary length out of range 1..=8000")
      if n.toNat = 0 ∨ bound < n.toNat then .error (.malformed outOfRange)
      else .ok ⟨token, n.toNat * unitBytes, encoding, fixedWidth, wireCollation ti⟩
  match ti.ty with
  | .char len => form 0xAF len true 1 .cp1252
  | .varChar len => form 0xA7 len false 1 .cp1252
  | .nChar len => form 0xEF len true 2 .utf16Le
  | .nVarChar len => form 0xE7 len false 2 .utf16Le
  | .binary len => form 0xAD len true 1 .raw
  | .varBinary len => form 0xA5 len false 1 .raw
  | _ => .error (.malformed "type is not a USHORTLEN string or binary type")

/-- The `TYPE_INFO` of a string or binary type with a declared length. -/
def uShortLenTypeInfo (ti : TypeInfo) : Encoded := do
  let wire ← uShortLenWire ti
  .ok (wire.token :: leBytes 2 wire.maxBytes ++ (wire.collation.map encodeCollation).getD [])

def padPayload (unit : List UInt8) (maxBytes : ℕ) (payload : List UInt8) : List UInt8 :=
  payload ++ (List.replicate ((maxBytes - payload.length + unit.length - 1) / unit.length)
    unit).flatten

/-- A value in the layout of a string or binary type with a declared length. -/
def uShortLenValue (ti : TypeInfo) (value : Value) : Encoded := do
  let wire ← uShortLenWire ti
  if value.isNull then
    if ti.nullable then .ok (leBytes 2 0xFFFF) else .error .nullInNotNullable
  else do
    let payload ← encodePayload ti.ty wire.encoding value
    if wire.maxBytes < payload.length then mismatch ti.ty
    else
      let payload :=
        if wire.fixedWidth then padPayload wire.encoding.padding wire.maxBytes payload else payload
      .ok (leBytes 2 payload.length ++ payload)

/-! ### Values of length `max` -/

/-- The token and the layout of a type of length `max`. -/
def plpWire (ti : TypeInfo) : Except TdsError (UInt8 × TextEncoding) :=
  match ti.ty with
  | .varChar .max => .ok (0xA7, .cp1252)
  | .nVarChar .max => .ok (0xE7, .utf16Le)
  | .varBinary .max => .ok (0xA5, .raw)
  | _ => .error (.malformed "type is not a PLP (max) string or binary type")

def plpTypeInfo (ti : TypeInfo) : Encoded := do
  let (token, _) ← plpWire ti
  .ok (token :: leBytes 2 0xFFFF ++ ((wireCollation ti).map encodeCollation).getD [])

/-- A value of length `max`: its length, its chunks, an empty chunk. -/
def plpValue (ti : TypeInfo) (value : Value) : Encoded := do
  let (_, encoding) ← plpWire ti
  if value.isNull then
    if ti.nullable then .ok (leBytes 8 0xFFFFFFFFFFFFFFFF) else .error .nullInNotNullable
  else do
    let payload ← encodePayload ti.ty encoding value
    if 0x7FFFFFFF < payload.length then mismatch ti.ty
    else
      .ok (leBytes 8 payload.length
        ++ ((chunks 8000 payload).flatMap fun chunk => leBytes 4 chunk.length ++ chunk)
        ++ leBytes 4 0)

/-! ### All types -/

def encodeTypeInfo (ti : TypeInfo) : Encoded :=
  match typeFamily ti.ty with
  | .byteLen => byteLenTypeInfo ti
  | .uShortLen => uShortLenTypeInfo ti
  | .plp => plpTypeInfo ti

/-- A value in the layout its type announces. -/
def encodeValue (ti : TypeInfo) (value : Value) : Encoded :=
  match typeFamily ti.ty with
  | .byteLen => byteLenValue ti value
  | .uShortLen => uShortLenValue ti value
  | .plp => plpValue ti value

end VaubanDB.Tds
