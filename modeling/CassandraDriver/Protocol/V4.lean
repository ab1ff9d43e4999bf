import CassandraDriver.Lib.BigEndian
import CassandraDriver.Lib.Decoder
import CassandraDriver.Protocol.RequestMessage

/-!
# The native protocol, version 4: request grammar

Library `Protocol`. What a server reads: the notations of the protocol document as
checked decoders over byte lists, the frame header and the bodies of the six requests.
Written from the protocol alone; nothing here is taken from the serializers.
-/

namespace CassandraDriver.Protocol.V4
open CassandraDriver.Lib CassandraDriver.Lib.Decoder

/-- An unsigned number of `w` bytes. -/
def unsigned (w : Nat) : Decoder Nat := do
  let bs ← Decoder.take w
  return ofBE bs

/-- An unsigned integer of the front bytes. -/
theorem unsigned_run {w : Nat} {bs : List UInt8} (h : w ≤ bs.length) :
    (unsigned w).run bs = some (ofBE (bs.take w), bs.drop w) := by
  rw [unsigned, StateT.run_bind, Decoder.take_run h]
  rfl

/-- The two's complement reading of an unsigned number of `w` bytes. -/
def twosComplement (w n : Nat) : Int :=
  if 2 * n < 256 ^ w then (n : Int) else (n : Int) - 256 ^ w

/-- A two's complement number of `w` bytes. -/
def signed (w : Nat) : Decoder Int := do
  let n ← unsigned w
  return twosComplement w n

/-- [byte]. -/
def byte : Decoder Nat := unsigned 1

/-- [short]. -/
def short : Decoder Nat := unsigned 2

/-- [int]. -/
def int : Decoder Int := signed 4

/-- [long]. -/
def long : Decoder Int := signed 8

/-- [string]: a [short] n, then n bytes. -/
def string : Decoder (List UInt8) := do
  let n ← short
  Decoder.take n

/-- [long string]: an [int] n, then n bytes. -/
def longString : Decoder (List UInt8) := do
  let n ← int
  if n < 0 then reject else Decoder.take n.toNat

/-- [short bytes]: a [short] n, then n bytes. -/
def shortBytes : Decoder (List UInt8) := do
  let n ← short
  Decoder.take n

/-- [bytes]: an [int] n, then n bytes; negative means null. -/
def bytes : Decoder (Option (List UInt8)) := do
  let n ← int
  if n < 0 then return none
  let bs ← Decoder.take n.toNat
  return some bs

/-- A bound value: bytes, null or not set. -/
inductive Value
  | bytes (b : List UInt8)
  | null
  | unset
  deriving DecidableEq, Repr

/-- [value]: an [int] n, then n bytes; -1 means null and -2 means not set. -/
def value : Decoder Value := do
  let n ← int
  if n = -1 then return .null
  if n = -2 then return .unset
  if n < 0 then reject
  let bs ← Decoder.take n.toNat
  return .bytes bs

/-- [string map]: a [short] n, then n pairs of [string]. -/
def stringMap : Decoder (List (List UInt8 × List UInt8)) := do
  let n ← short
  many n (do
    let k ← string
    let v ← string
    return (k, v))

/-- The levels of the [consistency] notation. -/
def consistencyOfCode : Nat → Option Consistency
  | 0x0000 => some .any
  | 0x0001 => some .one
  | 0x0002 => some .two
  | 0x0003 => some .three
  | 0x0004 => some .quorum
  | 0x0005 => some .all
  | 0x0006 => some .localQuorum
  | 0x0007 => some .eachQuorum
  | 0x0008 => some .serial
  | 0x0009 => some .localSerial
  | 0x000A => some .localOne
  | _ => none

/-- [consistency]: a [short] that names a level. -/
def consistency : Decoder Consistency := do
  let n ← short
  match consistencyOfCode n with
  | some level => return level
  | none => reject

/-- A frame header as the protocol defines it. -/
structure Header where
  version : Nat
  flags : Nat
  stream : Int
  opcode : Nat
  length : Int
  deriving DecidableEq, Repr

/-- Version, flags, stream, opcode, length. -/
def frameHeader : Decoder Header := do
  let version ← byte
  let flags ← byte
  let stream ← signed 2
  let opcode ← byte
  let length ← int
  return ⟨version, flags, stream, opcode, length⟩

/-- The query parameters of QUERY and EXECUTE with all optional sections. -/
structure QueryParameters where
  consistency : Consistency
  values : List (Option (List UInt8) × Value)
  skipMetadata : Bool
  pageSize : Option Int
  pagingState : Option (Option (List UInt8))
  serialConsistency : Option Consistency
  timestamp : Option Int
  deriving DecidableEq, Repr

/-- An optional section, present when its flag is. -/
def optional {α : Type} (flag : Bool) (d : Decoder α) : Decoder (Option α) := do
  if flag then
    let a ← d
    return some a
  else return none

/-- One bound value, preceded by its name when the names flag is set. -/
def namedValue (names : Bool) : Decoder (Option (List UInt8) × Value) := do
  let name ← optional names string
  let v ← value
  return (name, v)

/-- `<consistency><flags>[<n><value_1>...][<result_page_size>][<paging_state>]`
`[<serial_consistency>][<timestamp>]`. -/
def queryParameters : Decoder QueryParameters := do
  let level ← consistency
  let flags ← byte
  let values ← optional (flags.testBit 0) (do
    let n ← short
    many n (namedValue (flags.testBit 6)))
  let pageSize ← optional (flags.testBit 2) int
  let pagingState ← optional (flags.testBit 3) bytes
  let serial ← optional (flags.testBit 4) consistency
  let timestamp ← optional (flags.testBit 5) long
  return ⟨level, values.getD [], flags.testBit 1, pageSize, pagingState, serial, timestamp⟩

/-- One statement of a batch. -/
structure Statement where
  query : StatementQuery
  values : List Value
  deriving DecidableEq, Repr

/-- `<kind><string_or_id><n><value_1>...<value_n>`. -/
def statement : Decoder Statement := do
  let kind ← byte
  let query ← (match kind with
    | 0 => do
      let s ← longString
      return StatementQuery.string s
    | 1 => do
      let id ← shortBytes
      return StatementQuery.id id
    | _ => reject : Decoder StatementQuery)
  let n ← short
  let values ← many n value
  return ⟨query, values⟩

/-- The requests of the protocol that a driver of this kind sends. -/
inductive Request
  | startup (options : List (List UInt8 × List UInt8))
  | options
  | query (query : List UInt8) (parameters : QueryParameters)
  | prepare (query : List UInt8)
  | execute (id : List UInt8) (parameters : QueryParameters)
  | batch (type : Nat) (statements : List Statement) (consistency : Consistency)
      (serialConsistency : Option Consistency) (timestamp : Option Int)
  deriving DecidableEq, Repr

/-- The body of a request, chosen by the opcode of its header. -/
def request : Nat → Decoder Request
  | 0x01 => do
    let options ← stringMap
    return .startup options
  | 0x05 => return .options
  | 0x07 => do
    let text ← longString
    let parameters ← queryParameters
    return .query text parameters
  | 0x09 => do
    let text ← longString
    return .prepare text
  | 0x0A => do
    let id ← shortBytes
    let parameters ← queryParameters
    return .execute id parameters
  | 0x0D => do
    let type ← byte
    let n ← short
    let statements ← many n statement
    let level ← consistency
    let flags ← byte
    let serial ← optional (flags.testBit 4) consistency
    let timestamp ← optional (flags.testBit 5) long
    return .batch type statements level serial timestamp
  | _ => reject

end CassandraDriver.Protocol.V4
