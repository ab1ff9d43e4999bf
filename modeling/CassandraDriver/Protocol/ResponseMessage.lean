import CassandraDriver.Protocol.ColumnOption

/-!
# Response messages

Library `Protocol`. Models `src/io/protocol/response_message.hpp` and
`src/io/protocol/events/schema_change.{hpp,cpp}`: the `DoParseBody` of every response
class as a reader. The readers take the size of the buffer they run on, from which the
fuel for column types comes. `reserve` throws when a negative count becomes a size; an
allocation that fails for lack of memory is not modelled.
-/

namespace CassandraDriver.Protocol
open CassandraDriver.Lib CassandraDriver.Io

/-- `flags & static_cast<Int>(flag)` as a condition. -/
def hasFlag (flags flag : Int32) : Bool := flags &&& flag != 0

/-- `ResultMessage::Flags`, `src/io/protocol/response_message.hpp:160`. -/
def kGlobalTableSpec : Int32 := 0x0001

@[inherit_doc kGlobalTableSpec] def kHasMorePages : Int32 := 0x0002

@[inherit_doc kGlobalTableSpec] def kNoMetadata : Int32 := 0x0004

/-- `ResultMessage::ResultColumn`, `response_message.hpp:96`. -/
structure ResultColumn where
  keySpace : List UInt8
  table : List UInt8
  name : List UInt8
  type : ColumnOption

/-- A conditional pair of strings: key space and table. -/
def parseTableSpec (present : Bool) : Reader (List UInt8 × List UInt8) :=
  if present then do
    let keySpace ← Ty.string.read
    let table ← Ty.string.read
    return (keySpace, table)
  else return ([], [])

/-- `ResultColumn::Parse`, `response_message.hpp:102`. -/
def ResultColumn.parse (size : Nat) (globalTableSpecEnabled : Bool) : Reader ResultColumn := do
  let (keySpace, table) ← parseTableSpec (!globalTableSpecEnabled)
  let name ← Ty.string.read
  let type ← ColumnOption.parse (ColumnOption.fuelFor size)
  return ⟨keySpace, table, name, type⟩

/-- A loop `for (Int i = 0; i < count; ++i)` that appends what its body parses. -/
def parseTimes {α : Type} (count : Int32) (item : Reader α) : Reader (List α) :=
  .forCount count.toInt.toNat (fun items ↦ do
    let x ← item
    return items ++ [x]) []

/-- `std::vector::reserve` of a signed count. -/
def reserve (count : Int32) : Reader Unit :=
  if count.toInt < 0 then .fail .lengthError else pure ()

/-- `ResultMessage::RowKind`, `response_message.hpp:115`. -/
structure RowKind where
  flags : Int32
  columnsCount : Int32
  pagingState : List UInt8
  globalKeySpace : List UInt8
  globalTable : List UInt8
  columns : List ResultColumn
  rowsCount : Int32
  rowsContent : List (List (List UInt8))

/-- The paging state of `ParseRows`, `response_message.hpp:171–174`. -/
def RowKind.parsePaging (flags : Int32) : Reader (List UInt8) :=
  if hasFlag flags kHasMorePages then Ty.bytes.read else return []

/-- The metadata part of `ParseRows`, `response_message.hpp:175–189`. -/
def RowKind.parseMetadata (size : Nat) (flags columnsCount : Int32) :
    Reader (List UInt8 × List UInt8 × List ResultColumn) :=
  if hasFlag flags kNoMetadata then return ([], [], [])
  else do
    let (keySpace, table) ← parseTableSpec (hasFlag flags kGlobalTableSpec)
    reserve columnsCount
    let columns ← parseTimes columnsCount
      (ResultColumn.parse size (hasFlag flags kGlobalTableSpec))
    return (keySpace, table, columns)

/-- `ResultMessage::ParseRows`, `response_message.hpp:166`. -/
def RowKind.parse (size : Nat) : Reader RowKind := do
  let flags ← readIntBE .int
  let columnsCount ← readIntBE .int
  let pagingState ← RowKind.parsePaging flags
  let (keySpace, table, columns) ← RowKind.parseMetadata size flags columnsCount
  let rowsCount ← readIntBE .int
  reserve rowsCount
  let rowsContent ← parseTimes rowsCount (parseTimes columnsCount Ty.bytes.read)
  return ⟨flags, columnsCount, pagingState, keySpace, table, columns, rowsCount, rowsContent⟩

/-- `ResultMessage::PreparedKind`, `response_message.hpp:126`. -/
structure PreparedKind where
  id : List UInt8
  flags : Int32
  columnCount : Int32
  partitionKeyCount : Int32
  partitionKeyIndexes : List UInt16
  globalKeySpace : List UInt8
  globalTable : List UInt8
  columns : List ResultColumn

/-- `PreparedKind::Parse`, `response_message.hpp:136`. Nothing is reserved here, and what
follows the columns is left unread. -/
def PreparedKind.parse (size : Nat) : Reader PreparedKind := do
  let id ← Ty.shortBytes.read
  let flags ← readIntBE .int
  let columnCount ← readIntBE .int
  let partitionKeyIndexes ← (Ty.sequence (.integral .short)).read
  let (keySpace, table) ← parseTableSpec (hasFlag flags kGlobalTableSpec)
  let columns ← parseTimes columnCount (ResultColumn.parse size (hasFlag flags kGlobalTableSpec))
  return ⟨id, flags, columnCount, Int32.ofNat (List.length partitionKeyIndexes),
    partitionKeyIndexes, keySpace, table, columns⟩

/-- `SchemaChange::TargetOptions`, `src/io/protocol/events/schema_change.hpp:9–25`. -/
inductive TargetOptions
  | keyspace (value : List UInt8)
  | table (keyspace targetName : List UInt8)
  | function (keyspace functionName : List UInt8) (args : List (List UInt8))
  deriving DecidableEq, Repr

/-- `events::SchemaChange`, `schema_change.hpp:8`. -/
structure SchemaChange where
  changeType : List UInt8
  target : List UInt8
  targetOptions : TargetOptions
  deriving DecidableEq, Repr

/-- `SchemaChange::Parse`, `src/io/protocol/events/schema_change.cpp:5`. Functions are
recognised by the change type, not by the target; an unknown target leaves the first
alternative of the variant, default constructed. -/
def SchemaChange.parse : Reader SchemaChange := do
  let changeType : List UInt8 ← Ty.string.read
  let target : List UInt8 ← Ty.string.read
  if target = utf8 "KEYSPACE" then
    let value ← Ty.string.read
    return ⟨changeType, target, .keyspace value⟩
  else if target = utf8 "TABLE" ∨ target = utf8 "TYPE" then
    let keyspace ← Ty.string.read
    let targetName ← Ty.string.read
    return ⟨changeType, target, .table keyspace targetName⟩
  else if changeType = utf8 "FUNCTION" ∨ target = utf8 "AGGREGATE" then
    let keyspace ← Ty.string.read
    let functionName ← Ty.string.read
    let args ← Ty.stringList.read
    return ⟨changeType, target, .function keyspace functionName args⟩
  else return ⟨changeType, target, .keyspace []⟩

/-- `ResultMessage::Payload`, `response_message.hpp:267`. -/
inductive ResultPayload
  | void
  | rows (kind : RowKind)
  | setKeyspace (keySpace : List UInt8)
  | prepared (kind : PreparedKind)
  | schemaChange (change : SchemaChange)

/-- The payload a result kind selects, `response_message.hpp:218–234`. A kind outside
`ResultKind` matches no case and leaves the payload as constructed. -/
def ResultPayload.parse (size : Nat) (kind : Int32) : Reader ResultPayload :=
  if kind = 0x0002 then do
    let rows ← RowKind.parse size
    return .rows rows
  else if kind = 0x0003 then do
    let keySpace ← Ty.string.read
    return .setKeyspace keySpace
  else if kind = 0x0004 then do
    let prepared ← PreparedKind.parse size
    return .prepared prepared
  else if kind = 0x0005 then do
    let change ← SchemaChange.parse
    return .schemaChange change
  else return .void

/-- The response classes of `response_message.hpp`. -/
inductive ResponseClass
  | error | ready | authentificate | support | result
  deriving DecidableEq, Repr

/-- A response after `DoParseBody`, with the fields of its class. -/
inductive ResponseMessage
  | error (errorCode : Int32) (errorMessage : List UInt8)
  | ready
  | authentificate (authChallenge : List UInt8)
  | support (options : Ty.stringMultiMap.Val)
  | result (kind : Int32) (payload : ResultPayload)

namespace ResponseMessage

/-- `DoParseBody` of each class: `response_message.hpp:49` (ERROR), 65 (READY), 73
(AUTHENTICATE), 87 (SUPPORTED) and 214 (RESULT). -/
def bodyReader (size : Nat) : ResponseClass → Reader ResponseMessage
  | .error => do
    let errorCode ← readIntBE .int
    let errorMessage ← Ty.string.read
    return .error errorCode errorMessage
  | .ready => return .ready
  | .authentificate => do
    let authChallenge ← Ty.string.read
    return .authentificate authChallenge
  | .support => do
    let options ← Ty.stringMultiMap.read
    return .support options
  | .result => do
    let kind ← readIntBE .int
    let payload ← ResultPayload.parse size kind
    return .result kind payload

/-- `DoParseBody` on a buffer with what memory holds behind it. -/
def doParseBody (cls : ResponseClass) (buffer : View) : Except Exception ResponseMessage :=
  (Program.run buffer (bodyReader buffer.data.length cls) (.at 0)).1

/-- `ResponseMessage::ParseBody`, `response_message.hpp:29`: with a compressor every body is
decompressed. `memory` is what lies behind the buffer that is parsed. -/
def parseBody (cls : ResponseClass) (compressor : Option Compressor)
    (memory : List UInt8 → Nat → UInt8) (buffer : List UInt8) :
    Except Exception ResponseMessage :=
  match compressor with
  | some compressor => do
    let uncompressed ← compressor.decompress buffer
    doParseBody cls ⟨uncompressed, memory uncompressed⟩
  | none => doParseBody cls ⟨buffer, memory buffer⟩

end ResponseMessage
end CassandraDriver.Protocol
