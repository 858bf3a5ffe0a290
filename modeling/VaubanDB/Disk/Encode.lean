import VaubanDB.Library.LittleEndian
import VaubanDB.Types.Value

/-!
The encoding of values and rows on disk (`vauban-storage/src/disk/encode.rs`).

Each value carries its tag, so a row is read back without the types of its columns.  `Decodes m bs
a` says that `m` reads exactly the bytes `bs` and answers `a`, wherever they stand in a buffer; it
composes along the reader, and a row whose counts fit their fields is read back as it was written
(`decodeRow_append`).
-/

namespace VaubanDB

/-! ### The writer -/

def rowCodecVersion : UInt8 := 1

/-- A length as the four bytes of a `u32`, where it saturates. -/
def encodeLen (n : ℕ) : List UInt8 := leBytes 4 (min n (2 ^ 32 - 1))

/-- A byte count followed by the bytes themselves. -/
def encodeLenPrefixed (bytes : List UInt8) : List UInt8 := encodeLen bytes.length ++ bytes

def encodeDatePayload (date : Date) : List UInt8 := leBytes 4 date.days.toBitVec.toNat

def encodeTimePayload (time : Time) : List UInt8 := leBytes 8 time.ticks100ns.toNat

def encodeDateTime2Payload (stamp : DateTime2) : List UInt8 :=
  encodeDatePayload stamp.date ++ encodeTimePayload stamp.time

def utf8Bytes (text : String) : List UInt8 := text.toUTF8.data.toList

/-- The encoding of one value: its tag, then its payload, little-endian. -/
def encodeValue : Value → List UInt8
  | .null => [0]
  | .bit flag => [1, if flag then 1 else 0]
  | .i8 number => [2, number]
  | .i16 number => 3 :: leBytes 2 number.toBitVec.toNat
  | .i32 number => 4 :: leBytes 4 number.toBitVec.toNat
  | .i64 number => 5 :: leBytes 8 number.toBitVec.toNat
  | .decimal d => 6 :: (leBytes 16 d.mantissa.toNat ++ [d.precision, d.scale])
  | .f64 bits => 7 :: leBytes 8 bits.toNat
  | .f32 bits => 8 :: leBytes 4 bits.toNat
  | .money amount => 9 :: leBytes 8 amount.toBitVec.toNat
  | .string text => 10 :: encodeLenPrefixed (utf8Bytes text)
  | .bytes bytes => 11 :: encodeLenPrefixed bytes
  | .date date => 12 :: encodeDatePayload date
  | .time time => 13 :: encodeTimePayload time
  | .dateTime stamp =>
    14 :: (leBytes 4 stamp.days.toBitVec.toNat ++ leBytes 4 stamp.ticks300th.toNat)
  | .dateTime2 stamp => 15 :: encodeDateTime2Payload stamp
  | .dateTimeOffset stamp =>
    16 :: (encodeDateTime2Payload stamp.utc ++ leBytes 2 stamp.offsetMinutes.toBitVec.toNat)
  | .guid bytes => 17 :: bytes.toList

/-- The encoding of a row: the version, the number of columns, then the columns in order. -/
def encodeRow (row : List Value) : List UInt8 :=
  rowCodecVersion :: (encodeLen row.length ++ row.flatMap encodeValue)

/-! ### The reader -/

structure Reader where
  bytes : List UInt8
  pos : ℕ

namespace Reader

abbrev Read (α : Type) := EStateM InternalError Reader α

def remaining (r : Reader) : ℕ := r.bytes.length - r.pos

/-- Consumes `len` bytes, or reports the truncation. -/
def take (len : ℕ) (what : String) : Read (List UInt8) := do
  let r ← get
  let left := r.remaining
  let pos := r.pos
  if pos + len > r.bytes.length then
    throw (.corruption s!"{what} needs {len} bytes at offset {pos}, the buffer has {left} left")
  else
    set { r with pos := pos + len }
    return (r.bytes.drop pos).take len

def byte (what : String) : Read UInt8 := do
  let slice ← take 1 what
  return slice.headD 0

def array (n : ℕ) (what : String) : Read (Vector UInt8 n) := do
  let slice ← take n what
  return Vector.ofFn fun i => slice.getD i 0

/-- Consumes the `n` bytes of a number. -/
def number (n : ℕ) (what : String) : Read ℕ := do
  let bytes ← array n what
  return leNat bytes.toList

/-- Consumes a byte count and the bytes it announces. -/
def lenPrefixed (what : String) : Read (List UInt8) := do
  let announced ← number 4 what
  take announced what

end Reader

open Reader

def readDatePayload : Read Date := do
  let days ← number 4 "date days"
  return ⟨.ofBitVec (.ofNat 32 days)⟩

def readTimePayload : Read Time := do
  let ticks ← number 8 "time ticks"
  return ⟨.ofNat ticks⟩

def readDateTime2Payload : Read DateTime2 := do
  let date ← readDatePayload
  let time ← readTimePayload
  return ⟨date, time⟩

def readBit : Read Value := do
  let pos := (← get).pos
  let flag ← byte "bit payload"
  if flag = 0 then return .bit false
  else if flag = 1 then return .bit true
  else throw (.corruption s!"bit payload {flag} at offset {pos}, expected 0 or 1")

def readDecimal : Read Value := do
  let mantissa ← number 16 "decimal mantissa"
  let precision ← byte "decimal precision"
  let scale ← byte "decimal scale"
  return .decimal ⟨.ofNat 128 mantissa, precision, scale⟩

/-- The payload of a string; the reason for bytes that are not UTF-8 is left out of the message. -/
def readString : Read Value := do
  let pos := (← get).pos
  let bytes ← lenPrefixed "string payload"
  match String.fromUTF8? ⟨bytes.toArray⟩ with
  | some text => return .string text
  | none => throw (.corruption s!"string payload at offset {pos} is not valid UTF-8")

def readDateTime : Read Value := do
  let days ← number 4 "datetime days"
  let ticks ← number 4 "datetime ticks"
  return .dateTime ⟨.ofBitVec (.ofNat 32 days), .ofNat ticks⟩

def readDateTimeOffset : Read Value := do
  let utc ← readDateTime2Payload
  let minutes ← number 2 "datetimeoffset offset"
  return .dateTimeOffset ⟨utc, .ofBitVec (.ofNat 16 minutes)⟩

/-- The payload that follows the tag of a value, the tag having been read at `tagAt`. -/
def readPayload (tagAt : ℕ) (tag : UInt8) : Read Value :=
  match tag with
  | 0 => return .null
  | 1 => readBit
  | 2 => return .i8 (← byte "tinyint payload")
  | 3 => return .i16 (.ofBitVec (.ofNat 16 (← number 2 "smallint payload")))
  | 4 => return .i32 (.ofBitVec (.ofNat 32 (← number 4 "int payload")))
  | 5 => return .i64 (.ofBitVec (.ofNat 64 (← number 8 "bigint payload")))
  | 6 => readDecimal
  | 7 => return .f64 (.ofNat 64 (← number 8 "float payload"))
  | 8 => return .f32 (.ofNat 32 (← number 4 "real payload"))
  | 9 => return .money (.ofBitVec (.ofNat 64 (← number 8 "money payload")))
  | 10 => readString
  | 11 => return .bytes (← lenPrefixed "binary payload")
  | 12 => return .date (← readDatePayload)
  | 13 => return .time (← readTimePayload)
  | 14 => readDateTime
  | 15 => return .dateTime2 (← readDateTime2Payload)
  | 16 => readDateTimeOffset
  | 17 => return .guid (← array 16 "uniqueidentifier payload")
  | other => throw (.corruption s!"unknown value tag {other} at offset {tagAt}")

def readValue : Read Value := do
  let tagAt := (← get).pos
  let tag ← byte "value tag"
  readPayload tagAt tag

/-- The error of a column, the column named in front of the reason. -/
def inColumn (column : ℕ) : InternalError → InternalError
  | .corruption reason => .corruption s!"column {column} of a row: {reason}"
  | other => other

def readColumns : ℕ → ℕ → Read (List Value)
  | _, 0 => return []
  | column, count + 1 => do
      let value ← tryCatch readValue fun e => throw (inColumn column e)
      let rest ← readColumns (column + 1) count
      return value :: rest

def readRow : Read (List Value) := do
  let codec ← byte "row codec version"
  if codec ≠ rowCodecVersion then
    throw (.corruption s!"row declares codec version {codec}, this build reads {rowCodecVersion}")
  else
    let columns ← number 4 "row column count"
    let values ← readColumns 0 columns
    let left := (← get).remaining
    if left ≠ 0 then throw (.corruption s!"row of {columns} columns leaves {left} unread bytes")
    else return values

def decodeRow (bytes : List UInt8) : Except InternalError (List Value) :=
  match readRow ⟨bytes, 0⟩ with
  | .ok row _ => .ok row
  | .error e _ => .error e

/-! ### Reading what was written -/

/-- The computation reads exactly these bytes, wherever they stand, and answers this. -/
def Decodes {α : Type} (m : Read α) (bs : List UInt8) (a : α) : Prop :=
  ∀ before after : List UInt8, m ⟨before ++ (bs ++ after), before.length⟩ =
    .ok a ⟨before ++ (bs ++ after), before.length + bs.length⟩

namespace Decodes

variable {α β : Type} {m : Read α} {f : α → Read β} {bs cs : List UInt8} {a : α} {b : β}

lemma pure (a : α) : Decodes (Pure.pure a) [] a := fun _ _ => rfl

lemma bind (hm : Decodes m bs a) (hf : Decodes (f a) cs b) : Decodes (m >>= f) (bs ++ cs) b := by
  intro before after
  have h₁ := hm before (cs ++ after)
  have h₂ := hf (before ++ bs) after
  simp only [List.append_assoc, List.length_append] at h₁ h₂ ⊢
  rw [EStateM.bind_of_ok h₁, h₂, add_assoc]

lemma andThen (hm : Decodes m bs a) (hf : Decodes (f a) [] b) : Decodes (m >>= f) bs b := by
  have h := hm.bind hf
  rwa [List.append_nil] at h

lemma map (hm : Decodes m bs a) {g : α → β} (hg : g a = b) :
    Decodes (m >>= fun x => Pure.pure (g x)) bs b :=
  hm.andThen (hg ▸ pure (g a))

/-- The position is known to a computation that does not depend on it. -/
lemma get_bind {f : Reader → Read α} (h : ∀ r, Decodes (f r) bs a) :
    Decodes (MonadState.get >>= f) bs a := by
  intro before after
  exact h ⟨before ++ (bs ++ after), before.length⟩ before after

lemma take (bs : List UInt8) (what : String) : Decodes (Reader.take bs.length what) bs bs := by
  intro before after
  have hfits : ¬ before.length + bs.length > (before ++ (bs ++ after)).length := by
    simp only [List.length_append]
    omega
  rw [Reader.take, EStateM.get_bind_apply]
  simp only [if_neg hfits]
  simp

lemma byte (b : UInt8) (what : String) : Decodes (Reader.byte what) [b] b :=
  (take [b] what).map rfl

lemma array {n : ℕ} (v : Vector UInt8 n) (what : String) :
    Decodes (Reader.array n what) v.toList v := by
  have h := take v.toList what
  rw [Vector.length_toList] at h
  refine h.map ?_
  ext i hi
  simp

lemma number {k n : ℕ} (hn : n < 256 ^ k) (what : String) :
    Decodes (Reader.number k what) (leBytes k n) n := by
  have hsize : (leBytes k n).toArray.size = k := by simp
  exact (array ⟨(leBytes k n).toArray, hsize⟩ what).map (leNat_leBytes hn)

lemma lenPrefixed {bs : List UInt8} (h : bs.length < 2 ^ 32) (what : String) :
    Decodes (Reader.lenPrefixed what) (encodeLenPrefixed bs) bs := by
  have hmin : min bs.length (2 ^ 32 - 1) = bs.length := by omega
  rw [encodeLenPrefixed, encodeLen, hmin]
  exact (number (by omega) what).bind (take bs what)

lemma tryCatch (hm : Decodes m bs a) (handler : InternalError → Read α) :
    Decodes (MonadExcept.tryCatch m handler) bs a := by
  intro before after
  simp only [MonadExcept.tryCatch, tryCatchThe, MonadExceptOf.tryCatch, EStateM.tryCatch,
    hm before after]

end Decodes

lemma reads_datePayload (date : Date) : Decodes readDatePayload (encodeDatePayload date) date :=
  (Decodes.number (k := 4) date.days.toBitVec.isLt _).map (by simp)

lemma reads_timePayload (time : Time) : Decodes readTimePayload (encodeTimePayload time) time :=
  (Decodes.number (k := 8) time.ticks100ns.toNat_lt _).map (by simp)

lemma reads_dateTime2Payload (stamp : DateTime2) :
    Decodes readDateTime2Payload (encodeDateTime2Payload stamp) stamp :=
  (reads_datePayload stamp.date).bind ((reads_timePayload stamp.time).map rfl)

lemma fromUTF8?_utf8Bytes (text : String) :
    String.fromUTF8? ⟨(utf8Bytes text).toArray⟩ = some text := by
  have hbytes : (⟨(utf8Bytes text).toArray⟩ : ByteArray) = text.toByteArray := by simp [utf8Bytes]
  rw [hbytes, String.fromUTF8?, dif_pos text.isValidUTF8]
  rfl

/-- The payload of the value fits the byte count in front of it. -/
def Value.Counted : Value → Prop
  | .string text => (utf8Bytes text).length < 2 ^ 32
  | .bytes bs => bs.length < 2 ^ 32
  | _ => True

lemma reads_payload {v : Value} (h : v.Counted) (tagAt : ℕ) :
    ∃ tag payload, encodeValue v = tag :: payload ∧ Decodes (readPayload tagAt tag) payload v := by
  cases v with
  | null => exact ⟨0, [], rfl, Decodes.pure _⟩
  | bit flag =>
    refine ⟨1, [if flag then 1 else 0], rfl, Decodes.get_bind fun r =>
      (Decodes.byte _ _).andThen ?_⟩
    cases flag <;> exact Decodes.pure _
  | i8 n => exact ⟨2, [n], rfl, (Decodes.byte n _).map rfl⟩
  | i16 n => exact ⟨3, _, rfl, (Decodes.number (k := 2) n.toBitVec.isLt _).map (by simp)⟩
  | i32 n => exact ⟨4, _, rfl, (Decodes.number (k := 4) n.toBitVec.isLt _).map (by simp)⟩
  | i64 n => exact ⟨5, _, rfl, (Decodes.number (k := 8) n.toBitVec.isLt _).map (by simp)⟩
  | decimal d =>
    exact ⟨6, _, rfl, (Decodes.number (k := 16) d.mantissa.isLt _).bind
      ((Decodes.byte d.precision _).bind ((Decodes.byte d.scale _).map (by simp)))⟩
  | f64 bits => exact ⟨7, _, rfl, (Decodes.number (k := 8) bits.isLt _).map (by simp)⟩
  | f32 bits => exact ⟨8, _, rfl, (Decodes.number (k := 4) bits.isLt _).map (by simp)⟩
  | money n => exact ⟨9, _, rfl, (Decodes.number (k := 8) n.toBitVec.isLt _).map (by simp)⟩
  | string text =>
    refine ⟨10, _, rfl, Decodes.get_bind fun r => (Decodes.lenPrefixed h _).andThen ?_⟩
    rw [fromUTF8?_utf8Bytes]
    exact Decodes.pure _
  | bytes bs => exact ⟨11, _, rfl, (Decodes.lenPrefixed h _).map rfl⟩
  | date d => exact ⟨12, _, rfl, (reads_datePayload d).map rfl⟩
  | time t => exact ⟨13, _, rfl, (reads_timePayload t).map rfl⟩
  | dateTime d =>
    exact ⟨14, _, rfl, (Decodes.number (k := 4) d.days.toBitVec.isLt _).bind
      ((Decodes.number (k := 4) d.ticks300th.toNat_lt _).map (by simp))⟩
  | dateTime2 d => exact ⟨15, _, rfl, (reads_dateTime2Payload d).map rfl⟩
  | dateTimeOffset d =>
    exact ⟨16, _, rfl, (reads_dateTime2Payload d.utc).bind
      ((Decodes.number (k := 2) d.offsetMinutes.toBitVec.isLt _).map (by simp))⟩
  | guid bs => exact ⟨17, _, rfl, (Decodes.array bs _).map rfl⟩

lemma reads_value {v : Value} (h : v.Counted) : Decodes readValue (encodeValue v) v := by
  refine Decodes.get_bind fun r => ?_
  obtain ⟨tag, payload, heq, hread⟩ := reads_payload h r.pos
  rw [heq]
  exact (Decodes.byte tag "value tag").bind hread

variable {row : List Value}

lemma reads_columns (h : ∀ v ∈ row, v.Counted) (column : ℕ) :
    Decodes (readColumns column row.length) (row.flatMap encodeValue) row := by
  induction row generalizing column with
  | nil => exact Decodes.pure _
  | cons v row ih =>
    rw [List.forall_mem_cons] at h
    exact ((reads_value h.1).tryCatch _).bind ((ih h.2 (column + 1)).map rfl)

lemma length_le_length_flatMap_encodeValue (row : List Value) :
    row.length ≤ (row.flatMap encodeValue).length := by
  induction row with
  | nil => simp
  | cons v row ih =>
    have hv : 1 ≤ (encodeValue v).length := by cases v <;> simp [encodeValue]
    simp only [List.length_cons, List.flatMap_cons, List.length_append]
    omega

@[simp] lemma length_encodeLen (n : ℕ) : (encodeLen n).length = 4 := by simp [encodeLen]

/-- The number of columns and the payloads of the row fit their counts. -/
def RowCounted (row : List Value) : Prop := row.length < 2 ^ 32 ∧ ∀ v ∈ row, v.Counted

/-- A row is read back as it was written, and refused when anything stands behind it. -/
theorem decodeRow_append (h : RowCounted row) (rest : List UInt8) :
    decodeRow (encodeRow row ++ rest) = if rest.length = 0 then .ok row else
      .error (.corruption s!"row of {row.length} columns leaves {rest.length} unread bytes") := by
  have hmin : min row.length (2 ^ 32 - 1) = row.length := by
    have := h.1
    omega
  have hversion := Decodes.byte rowCodecVersion "row codec version" []
    (leBytes 4 row.length ++ (row.flatMap encodeValue ++ rest))
  have hcolumns := Decodes.number (k := 4) h.1 "row column count" [rowCodecVersion]
    (row.flatMap encodeValue ++ rest)
  have hvalues := reads_columns h.2 0 (rowCodecVersion :: leBytes 4 row.length) rest
  simp only [List.nil_append, List.cons_append, List.length_nil, List.length_cons, zero_add,
    length_leBytes] at hversion hcolumns hvalues
  rw [show 4 + 1 = 1 + 4 from rfl] at hvalues
  have hbytes : encodeRow row ++ rest =
      rowCodecVersion :: (leBytes 4 row.length ++ (row.flatMap encodeValue ++ rest)) := by
    rw [encodeRow, encodeLen, hmin, List.cons_append, List.append_assoc]
  rw [decodeRow, hbytes, readRow, EStateM.bind_of_ok hversion, if_neg (by simp),
    EStateM.bind_of_ok hcolumns, EStateM.bind_of_ok hvalues, EStateM.get_bind_apply]
  have hleft : (⟨rowCodecVersion :: (leBytes 4 row.length ++ (row.flatMap encodeValue ++ rest)),
      1 + 4 + (row.flatMap encodeValue).length⟩ : Reader).remaining = rest.length := by
    simp only [remaining, List.length_cons, List.length_append, length_leBytes]
    omega
  rw [hleft]
  by_cases hrest : rest.length = 0 <;> simp [hrest]

/-- A row whose encoding has fewer than `2^32` bytes is read back as it was written. -/
theorem decodeRow_encodeRow (h : (encodeRow row).length < 2 ^ 32) :
    decodeRow (encodeRow row) = .ok row := by
  have hcounted : RowCounted row := by
    simp only [encodeRow, List.length_cons, List.length_append, length_encodeLen] at h
    have hcount := length_le_length_flatMap_encodeValue row
    refine ⟨by omega, fun v hv => ?_⟩
    have hle := (List.sublist_flatten_of_mem (List.mem_map_of_mem (f := encodeValue) hv)).length_le
    rw [← List.flatMap_def] at hle
    cases v <;> simp only [encodeValue, encodeLenPrefixed, List.length_cons, List.length_append,
      Value.Counted] at hle ⊢ <;> omega
  have happend := decodeRow_append hcounted []
  rwa [List.append_nil, if_pos List.length_nil] at happend

end VaubanDB
