import VaubanDB.Tds.TypeInfo

/-!
The tokens of a response (`vauban-tds/src/tokens`).

An encoder returns the bytes of its token.  `encodeTokens` threads the columns of the last
`COLMETADATA` it has encoded: a row is laid out under them.  When a token fails, the bytes of
the tokens before it are lost to the caller but the columns they set are not.
-/

namespace VaubanDB.Tds

/-- What an `INFO` or an `ERROR` says. -/
structure ServerMessage where
  number : UInt32
  state : UInt8
  severity : UInt8
  message : String
  procedure : Option String
  line : UInt32
  deriving DecidableEq, Repr

inductive EnvChange where
  | database (old new : String)
  | language (old new : String)
  | packetSize (old new : UInt16)
  | collation (old : Option Collation) (new : Collation)
  | beginTransaction (descriptor : UInt64)
  | commitTransaction (descriptor : UInt64)
  | rollbackTransaction (descriptor : UInt64)
  deriving DecidableEq, Repr

structure ColumnFlags where
  nullable : Bool
  caseSensitive : Bool
  updatable : Bool
  identity : Bool
  computed : Bool
  deriving DecidableEq, Repr

structure ColumnMeta where
  name : String
  ty : TypeInfo
  flags : ColumnFlags
  deriving DecidableEq, Repr

structure FeatureAck where
  id : UInt8
  data : List UInt8
  deriving DecidableEq, Repr

inductive DoneKind where
  | done | doneProc | doneInProc
  deriving DecidableEq, Repr

inductive Token where
  | loginAck (tdsVersion : UInt32) (programName : String) (version : Vector UInt8 4)
  | envChange (change : EnvChange)
  | info (m : ServerMessage)
  | error (m : ServerMessage)
  | colMetaData (columns : List ColumnMeta)
  | row (values : List Value)
  | done (kind : DoneKind) (status : UInt16) (curCmd : UInt16) (rowCount : Option UInt64)
  | returnStatus (status : Int32)
  | returnValue (name : String) (ordinal : UInt16) (ty : TypeInfo) (value : Value)
  | order (ordinals : List UInt16)
  | featureExtAck (acks : List FeatureAck)
  deriving DecidableEq, Repr

/-- The state carried across the tokens of a response: the columns of the last
`COLMETADATA`. -/
structure EncodeContext where
  columns : List ColumnMeta
  deriving DecidableEq, Repr

def EncodeContext.default : EncodeContext := ⟨[]⟩

/-! ### Texts and byte strings -/

def utf16Length (s : String) : ℕ := (s.toList.flatMap Collation.utf16).length

def putBVarchar (s : String) : Encoded :=
  if utf16Length s ≤ 255 then .ok (UInt8.ofNat (utf16Length s) :: encodeUtf16Le s)
  else .error (.malformed "B_VARCHAR longer than 255 chars")

def putUsVarchar (s : String) : Encoded :=
  if utf16Length s ≤ 65535 then .ok (leBytes 2 (utf16Length s) ++ encodeUtf16Le s)
  else .error (.malformed "US_VARCHAR longer than 65535 chars")

def putBVarbyte (b : List UInt8) : Encoded :=
  if b.length ≤ 255 then .ok (UInt8.ofNat b.length :: b)
  else .error (.malformed "B_VARBYTE longer than 255 bytes")

/-- A token whose length on two bytes comes before its body. -/
def putSized (tokenType : UInt8) (body : List UInt8) (tooLong : String) : Encoded :=
  if body.length ≤ 65535 then .ok (tokenType :: leBytes 2 body.length ++ body)
  else .error (.malformed tooLong)

/-! ### The encoders -/

def encodeLoginAck (tdsVersion : UInt32) (programName : String) (version : Vector UInt8 4) :
    Encoded := do
  let name ← putBVarchar programName
  putSized 0xAD (0x01 :: beBytes 4 tdsVersion.toNat ++ name ++ version.toList)
    "LOGINACK longer than 65535 bytes"

def putVarcharPair (envType : UInt8) (new old : String) : Encoded := do
  let new ← putBVarchar new
  let old ← putBVarchar old
  .ok (envType :: new ++ old)

/-- `Type`, then the new and the old value as bytes. -/
def putVarbytePair (envType : UInt8) (new old : List UInt8) : Encoded := do
  let new ← putBVarbyte new
  let old ← putBVarbyte old
  .ok (envType :: new ++ old)

def encodeEnvChange (change : EnvChange) : Encoded := do
  let body ← match change with
    | .database old new => putVarcharPair 1 new old
    | .language old new => putVarcharPair 2 new old
    | .packetSize old new => putVarcharPair 4 (toString new) (toString old)
    | .collation old new =>
      putVarbytePair 7 (encodeCollation new) ((old.map encodeCollation).getD [])
    | .beginTransaction descriptor => putVarbytePair 8 (leBytes 8 descriptor.toNat) []
    | .commitTransaction descriptor => putVarbytePair 9 [] (leBytes 8 descriptor.toNat)
    | .rollbackTransaction descriptor => putVarbytePair 10 [] (leBytes 8 descriptor.toNat)
  putSized 0xE3 body "ENVCHANGE longer than 65535 bytes"

/-- `INFO` and `ERROR`, which share one layout. -/
def encodeMessage (tokenType : UInt8) (m : ServerMessage) : Encoded := do
  let message ← putUsVarchar m.message
  let serverName ← putBVarchar ""
  let procedure ← putBVarchar (m.procedure.getD "")
  putSized tokenType
    (leBytes 4 m.number.toNat ++ [m.state, m.severity] ++ message ++ serverName ++ procedure
      ++ leBytes 4 m.line.toNat)
    "INFO/ERROR longer than 65535 bytes"

def flagsBits (f : ColumnFlags) : ℕ :=
  (if f.nullable then 0x01 else 0) + (if f.caseSensitive then 0x02 else 0)
    + (if f.updatable then 0x08 else 0) + (if f.identity then 0x10 else 0)
    + (if f.computed then 0x20 else 0)

/-- One `ColumnData` of a `COLMETADATA`. -/
def encodeColumn (column : ColumnMeta) : Encoded := do
  let typeInfo ← encodeTypeInfo column.ty
  let name ← putBVarchar column.name
  .ok (leBytes 4 0 ++ leBytes 2 (flagsBits column.flags) ++ typeInfo ++ name)

/-- `COLMETADATA`; an empty list of columns is written `0xFFFF`. -/
def encodeColMetaData (columns : List ColumnMeta) : Encoded :=
  if 65534 < columns.length then .error (.malformed "COLMETADATA with more than 65534 columns")
  else do
    let data ← columns.mapM encodeColumn
    let count := if columns.isEmpty then 0xFFFF else columns.length
    .ok (0x81 :: leBytes 2 count ++ data.flatten)

/-- The null bitmap of a row: bit `i % 8` of byte `i / 8` for column `i`. -/
def nullBitmap (values : List Value) : List UInt8 :=
  (List.range ((values.length + 7) / 8)).map fun byte =>
    UInt8.ofNat (((values.drop (8 * byte)).take 8).zipIdx.foldl
      (fun bits v => if v.1.isNull then bits + 2 ^ v.2 else bits) 0)

/-- The values of a row, each in the layout of its column. -/
def encodeValues (columns : List ColumnMeta) (values : List Value) : Encoded :=
  ((columns.zip values).mapM fun p => encodeValue p.1.ty p.2).map List.flatten

/-- `ROW`, or `NBCROW` when a value is `NULL`, under the columns of the context. -/
def encodeRow (columns : List ColumnMeta) (values : List Value) : Encoded :=
  if values.length ≠ columns.length then
    if columns.isEmpty then .error .rowWithoutMetadata
    else .error (.columnCountMismatch columns.length values.length)
  else if (columns.zip values).any fun (column, value) => value.isNull && !column.ty.nullable then
    .error .nullInNotNullable
  else if values.any Value.isNull then
    let present := (columns.zip values).filter fun (_, value) => !value.isNull
    (encodeValues (present.map Prod.fst) (present.map Prod.snd)).map fun data =>
      0xD2 :: nullBitmap values ++ data
  else (encodeValues columns values).map fun data => 0xD1 :: data

/-- `DONE`, `DONEPROC`, `DONEINPROC`: the row count drives the `DONE_COUNT` bit. -/
def encodeDone (kind : DoneKind) (status curCmd : UInt16) (rowCount : Option UInt64) : Encoded :=
  let tokenType : UInt8 := match kind with
    | .done => 0xFD
    | .doneProc => 0xFE
    | .doneInProc => 0xFF
  let (status, count) := match rowCount with
    | some count => (status ||| 0x0010, count)
    | none => (status &&& ~~~0x0010, 0)
  .ok (tokenType :: leBytes 2 status.toNat ++ leBytes 2 curCmd.toNat ++ leBytes 8 count.toNat)

/-- `RETURNVALUE` of an output parameter. -/
def encodeReturnValue (name : String) (ordinal : UInt16) (ty : TypeInfo) (value : Value) :
    Encoded := do
  let name ← putBVarchar name
  let typeInfo ← encodeTypeInfo ty
  let data ← encodeValue ty value
  .ok (0xAC :: leBytes 2 ordinal.toNat ++ name ++ [0x01] ++ leBytes 4 0 ++ leBytes 2 0
    ++ typeInfo ++ data)

def encodeOrder (ordinals : List UInt16) : Encoded :=
  if 65535 < ordinals.length * 2 then .error (.malformed "ORDER with more than 32767 columns")
  else .ok (0xA9 :: leBytes 2 (ordinals.length * 2) ++ ordinals.flatMap fun o => leBytes 2 o.toNat)

/-- One feature of a `FEATUREEXTACK`; the terminator is not an identifier. -/
def encodeFeatureAck (ack : FeatureAck) : Encoded :=
  if ack.id = 0xFF then .error (.malformed "FEATUREEXTACK FeatureId 0xFF is the terminator")
  else if 2 ^ 32 ≤ ack.data.length then
    .error (.malformed "FEATUREEXTACK data longer than 4 GiB")
  else .ok (ack.id :: leBytes 4 ack.data.length ++ ack.data)

def encodeFeatureExtAck (acks : List FeatureAck) : Encoded := do
  let body ← acks.mapM encodeFeatureAck
  .ok (0xAE :: body.flatten ++ [0xFF])

/-- The bytes of a token under the columns of a context. -/
def encodeToken (columns : List ColumnMeta) : Token → Encoded
  | .loginAck tdsVersion programName version => encodeLoginAck tdsVersion programName version
  | .envChange change => encodeEnvChange change
  | .info m => encodeMessage 0xAB m
  | .error m => encodeMessage 0xAA m
  | .colMetaData cs => encodeColMetaData cs
  | .row values => encodeRow columns values
  | .done kind status curCmd rowCount => encodeDone kind status curCmd rowCount
  | .returnStatus status => .ok (0x79 :: leBytes 4 status.toUInt32.toNat)
  | .returnValue name ordinal ty value => encodeReturnValue name ordinal ty value
  | .order ordinals => encodeOrder ordinals
  | .featureExtAck acks => encodeFeatureExtAck acks

/-- The columns a token leaves in the context once it is encoded. -/
def EncodeContext.after (ctx : EncodeContext) : Token → EncodeContext
  | .colMetaData cs => ⟨cs⟩
  | _ => ctx

/-- Encodes tokens up to the first error; the context keeps what they have set. -/
def encodeTokens (ctx : EncodeContext) : List Token → EncodeContext × Encoded
  | [] => (ctx, .ok [])
  | token :: rest =>
    match encodeToken ctx.columns token with
    | .error e => (ctx, .error e)
    | .ok bytes =>
      let (ctx, more) := encodeTokens (ctx.after token) rest
      (ctx, more.map (bytes ++ ·))

end VaubanDB.Tds
