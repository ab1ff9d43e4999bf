import CassandraDriver.Protocol.Frame

/-!
# Request messages

Library `Protocol`. Models `src/io/protocol/request_message.hpp`: the six request classes,
their bodies and `RequestMessage::Serialize` with and without a compressor. Parameter
lists and statement lists are the buffers that `QueryParameters` and `BatchStatement`
refer to (`include/cassandra/detail/query_parameters.hpp:19`,
`include/cassandra/batch_query.hpp:203`).
-/

namespace CassandraDriver.Protocol
open CassandraDriver.Lib CassandraDriver.Io

/-- `Consistency`, `include/cassandra/options.hpp:60`. -/
inductive Consistency
  | any | one | two | three | quorum | all | localQuorum | eachQuorum | serial | localSerial
  | localOne
  deriving DecidableEq, Repr

/-- The wire number of a consistency level. -/
def Consistency.code : Consistency → UInt16
  | any => 0x0000
  | one => 0x0001
  | two => 0x0002
  | three => 0x0003
  | quorum => 0x0004
  | all => 0x0005
  | localQuorum => 0x0006
  | eachQuorum => 0x0007
  | serial => 0x0008
  | localSerial => 0x0009
  | localOne => 0x000A

/-- Objects of type `StringMap`. -/
abbrev StringMap := Carrier.MapObject (.plain (List UInt8)) (.plain (List UInt8))

/-- `StartupMessage`, `request_message.hpp:56`. The options are an unordered map, so their
iteration order is open. -/
structure StartupMessage where
  compressionProtocol : Option (List UInt8)
  options : StringMap
  built : options.1.Perm ((utf8 "CQL_VERSION", utf8 "3.0.0") ::
    (compressionProtocol.map (fun c ↦ (utf8 "COMPRESSION", c))).toList)

/-- `BatchStatement::query`: CQL text or a prepared id. -/
inductive StatementQuery
  | string (query : List UInt8)
  | id (id : List UInt8)
  deriving DecidableEq, Repr

/-- `BatchStatement`, `include/cassandra/batch_query.hpp:203`. Its constructors tie
`kind` to the alternative of `query`. -/
structure BatchStatement where
  query : StatementQuery
  params : List (List UInt8)
  deriving DecidableEq, Repr

/-- `BatchStatement::kind` as its byte. -/
def BatchStatement.kind (s : BatchStatement) : UInt8 :=
  match s.query with
  | .string _ => 0
  | .id _ => 1

/-- The request classes with the data they are constructed from. -/
inductive RequestMessage
  | options
  | startup (message : StartupMessage)
  | query (level : Consistency) (query : List UInt8) (params : List (List UInt8))
  | prepare (query : List UInt8)
  | execute (level : Consistency) (id : List UInt8) (params : List (List UInt8))
  | batch (queries : List BatchStatement) (level : Consistency)

/-- `Write<Byte>`. -/
def writeByte (x : UInt8) : BufferWriter Unit := Ty.write (.integral .byte) x

/-- `Write<Short>` of a value that converts to `Short`. -/
def writeShort (x : UInt16) : BufferWriter Unit := Ty.write (.integral .short) x

/-- The part that `QueryMessage` and `ExecuteMessage` have in common,
`request_message.hpp:120–135` and `154–168`. -/
def writeParameters (level : Consistency) (params : List (List UInt8)) : BufferWriter Unit := do
  writeShort level.code
  writeByte (if params.isEmpty then 0x02 else 0x02 ||| 0x01)
  if params.isEmpty then return ()
  writeShort (UInt16.ofNat params.length)
  params.forM Ty.bytes.write

/-- One round of the statement loop, `request_message.hpp:191–212`. -/
def writeStatement (s : BatchStatement) : BufferWriter Unit := do
  writeByte s.kind
  match s.query with
  | .string query => Ty.longString.write query
  | .id id => Ty.shortBytes.write id
  writeShort (UInt16.ofNat s.params.length)
  if s.params.isEmpty then return ()
  s.params.forM Ty.bytes.write

namespace RequestMessage

/-- The opcode each constructor passes to `FrameHeader`. -/
def opcode : RequestMessage → Opcode
  | options => .options
  | startup _ => .startup
  | query _ _ _ => .query
  | prepare _ => .prepare
  | execute _ _ _ => .execute
  | batch _ _ => .batch

/-- `SerializeBody` of each class. -/
def serializeBody : RequestMessage → BufferWriter Unit
  | options => pure ()
  | startup m => Ty.stringMap.write m.options
  | query level text params => do
    Ty.longString.write text
    writeParameters level params
  | prepare text => Ty.longString.write text
  | execute level id params => do
    Ty.shortBytes.write id
    writeParameters level params
  | batch queries level => do
    writeByte 0
    writeShort (UInt16.ofNat queries.length)
    queries.forM writeStatement
    writeShort level.code
    writeByte 0

/-- The header after construction and `SetStreamId`. -/
def header (m : RequestMessage) (stream : Int16) : FrameHeader :=
  ⟨kRequest, 0, stream, m.opcode.code, 0⟩

/-- The header with the compression flag, `request_message.hpp:28`. -/
def compressedHeader (m : RequestMessage) (stream : Int16) : FrameHeader :=
  ⟨kRequest, 0 ||| kCompression, stream, m.opcode.code, 0⟩

/-- Header and body, before the length is known. -/
def serializeParts (m : RequestMessage) (stream : Int16) :
    Option Compressor → BufferWriter Unit
  | none => do
    (m.header stream).serialize
    m.serializeBody
  | some compressor => do
    (m.compressedHeader stream).serialize
    let body ← StateT.lift (m.serializeBody.run [])
    let _ ← compressor.compress body.2

/-- The length patch at the end of `Serialize`, `request_message.hpp:38–41`. -/
def patchLength : BufferWriter Unit := fun buffer ↦
  let bodyLength := Int32.ofNat (buffer.length - FrameHeader.kHeaderSize)
  if 0 < bodyLength.toInt then (FrameHeader.updateLength bodyLength).run buffer
  else .ok ((), buffer)

/-- `RequestMessage::Serialize`, `request_message.hpp:21`. -/
def serialize (m : RequestMessage) (stream : Int16) (compressor : Option Compressor) :
    BufferWriter Unit := do
  m.serializeParts stream compressor
  patchLength

end RequestMessage
end CassandraDriver.Protocol
