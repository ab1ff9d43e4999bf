import Mathlib.Data.Finmap
import CassandraDriver.Io.BufferIO

/-!
# Typed readers and writers

Library `Io`. Models the parsers and formatters of `include/cassandra/io/`
(`string_types.hpp`, `list_types.hpp`, `map_types.hpp`, `floating_point_types.hpp`)
and the `Input`/`Output` traits that choose them from the C++ type. `Ty` spells the
types these traits accept; a map object is kept in the order its container iterates,
and `den` is what `==` compares, so two maps are equal as finite maps.
-/

namespace CassandraDriver.Io
open CassandraDriver.Lib

/-- The two length types: `TagType` of the strong typedefs, `ListLenBySize`, `MapLenBySize`. -/
inductive LenType
  | short | int
  deriving DecidableEq, Repr

namespace LenType

/-- The integral type of the prefix. -/
def integral : LenType → IntegralType
  | short => .short
  | int => .int

/-- The prefix as a number; only an `Int` prefix can be negative. -/
def toInt : (l : LenType) → l.integral.Val → Int
  | short, x => (UInt16.toNat x : Int)
  | int, x => Int32.toInt x

/-- `static_cast` of a container's size to the prefix type. -/
def cast : (l : LenType) → Nat → l.integral.Val
  | short, n => UInt16.ofNat n
  | int, n => Int32.ofNat n

/-- The largest size that the prefix represents. -/
def bound : LenType → Nat
  | short => 65535
  | int => 2 ^ 31 - 1

/-- `Read<SizeType>`. -/
def read (l : LenType) : Reader Int := do
  let x ← readIntBE l.integral
  return l.toInt x

/-- `Write<SizeType>` of a container's size. -/
def write (l : LenType) (size : Nat) : BufferWriter Unit := writeIntBE l.integral (l.cast size)

end LenType

/-- Conversion of a prefix to `size_t`, which sends a negative one near 2^64. -/
def sizeT (n : Int) : Nat := (n % 2 ^ 64).toNat

/-- `StringBinaryParser`, `include/cassandra/io/string_types.hpp:20`, and with a `Short`
prefix `CommonStringBinaryParser`, line 36. Only `reserve` looks at the size: it throws
when a negative one becomes larger than `max_size`. -/
def stringBinaryParser (l : LenType) : Reader (List UInt8) := do
  let size ← l.read
  if size < 0 then .fail .lengthError else memcpy size.toNat

/-- `BytesBinaryParser`, `include/cassandra/io/list_types.hpp:84`. -/
def bytesBinaryParser (l : LenType) : Reader (List UInt8) := do
  let len ← l.read
  if 0 < len then memcpy len.toNat else return []

/-- `ListBinaryParser`, `include/cassandra/io/list_types.hpp:60`. -/
def listBinaryParser {α : Type} (l : LenType) (element : Reader α) : Reader (List α) := do
  let count ← l.read
  .forCount (sizeT count) (fun value ↦ do
    let e ← element
    return value ++ [e]) []

/-- `reserve`, `resize` and `memcpy` behind the current end, with the size as the prefix
type holds it. A negative size wraps in `offset + size`: the sum is above `max_size`, or
the buffer shrinks and the copy leaves it. -/
def appendCopy (size : Int) (source : List UInt8) : BufferWriter Unit := fun buffer ↦
  if 0 ≤ size then .ok ((), buffer ++ source.take size.toNat)
  else if (buffer.length : Int) + size < 0 then .error .lengthError
  else .error .memoryFault

/-- `StringBinaryFormatter`, `include/cassandra/io/string_types.hpp:66`, and with a `Short`
prefix `CommonStringBinaryFormatter`, line 86. -/
def stringBinaryFormatter (l : LenType) (value : List UInt8) : BufferWriter Unit := do
  l.write value.length
  appendCopy (l.toInt (l.cast value.length)) value

/-- `BytesBinaryFormatter`, `include/cassandra/io/list_types.hpp:103`. -/
def bytesBinaryFormatter (l : LenType) (value : List UInt8) : BufferWriter Unit := do
  l.write value.length
  if l.toInt (l.cast value.length) ≤ 0 then return ()
  appendCopy (l.toInt (l.cast value.length)) value

/-- `ListBinaryFormatter`, `include/cassandra/io/list_types.hpp:124`. -/
def listBinaryFormatter {α : Type} (l : LenType) (element : α → BufferWriter Unit)
    (value : List α) : BufferWriter Unit := do
  l.write value.length
  value.forM element

/-- A C++ type: its objects, the values that `==` compares, and the value of an object. -/
structure Carrier where
  Val : Type
  Den : Type
  decEq : DecidableEq Den
  den : Val → Den

namespace Carrier

instance (c : Carrier) : DecidableEq c.Den := c.decEq

/-- A type whose objects are their own values. -/
def plain (α : Type) [DecidableEq α] : Carrier := ⟨α, α, inferInstance, id⟩

/-- Sequence containers: element by element, in order. -/
def list (c : Carrier) : Carrier := ⟨List c.Val, List c.Den, inferInstance, List.map c.den⟩

/-- Entries of a map object as key and mapped values. -/
def entries (k v : Carrier) (l : List (k.Val × v.Val)) : List (Sigma fun _ : k.Den ↦ v.Den) :=
  l.map (fun e ↦ ⟨k.den e.1, v.den e.2⟩)

/-- Key-unique map objects: the entries in iteration order, no two with equal keys. -/
abbrev MapObject (k v : Carrier) : Type :=
  { l : List (k.Val × v.Val) // (l.map (fun e ↦ k.den e.1)).Nodup }

/-- Key-unique maps: the value of an object is the finite map of its entries. -/
def map (k v : Carrier) : Carrier where
  Val := MapObject k v
  Den := Finmap (fun _ : k.Den ↦ v.Den)
  decEq := inferInstance
  den l := (entries k v l.1).toFinmap

namespace MapObject
variable {k v : Carrier}

/-- The map without entries. -/
def empty : MapObject k v := ⟨[], List.nodup_nil⟩

/-- `emplace`: an entry whose key is already present is dropped. -/
def emplace (m : MapObject k v) (key : k.Val) (value : v.Val) : MapObject k v :=
  if h : k.den key ∈ m.1.map (fun e ↦ k.den e.1) then m
  else ⟨m.1 ++ [(key, value)], by
    rw [List.map_append, List.map_singleton]
    exact List.Nodup.append m.2 (List.nodup_singleton _) (by simpa using h)⟩

end MapObject
end Carrier

/-- `MapBinaryParser`, `include/cassandra/io/map_types.hpp:85`. -/
def mapBinaryParser {k v : Carrier} (l : LenType) (keyType : Reader k.Val)
    (mappedType : Reader v.Val) : Reader (Carrier.MapObject k v) := do
  let count ← l.read
  .forCount (sizeT count) (fun value ↦ do
    let key ← keyType
    let mapped ← mappedType
    return value.emplace key mapped) .empty

/-- `MapBinaryFormatter`, `include/cassandra/io/map_types.hpp:104`. -/
def mapBinaryFormatter {k v : Carrier} (l : LenType) (keyType : k.Val → BufferWriter Unit)
    (mappedType : v.Val → BufferWriter Unit) (value : Carrier.MapObject k v) :
    BufferWriter Unit := do
  l.write value.1.length
  value.1.forM (fun e ↦ do
    keyType e.1
    mappedType e.2)

/-- C++ types accepted by `Read` and `Write`. `list` and `map` carry the length type that
the `Input` and `Output` traits select for the container. -/
inductive Ty
  | integral (i : IntegralType)
  | float
  | double
  | string
  | longString
  | stdString
  | bytes
  | shortBytes
  | list (len : LenType) (element : Ty)
  | map (len : LenType) (key mapped : Ty)
  deriving DecidableEq, Repr

namespace Ty

/-- `StringList`, read and written with a `Short` count (`list_types.hpp:142–150`). -/
def stringList : Ty := .list .short .string

/-- `StringMap`, `map_types.hpp:113–126`. -/
def stringMap : Ty := .map .short .string .string

/-- `StringMultiMap`, `map_types.hpp:118–131`. -/
def stringMultiMap : Ty := .map .short .string stringList

/-- `BytesMap`, `map_types.hpp:143–151`. -/
def bytesMap : Ty := .map .short .string .bytes

/-- Any other sequence container, with an `Int` count (`list_types.hpp:132–140`). -/
def sequence (element : Ty) : Ty := .list .int element

/-- Any other map container, with an `Int` count (`map_types.hpp:133–141`). -/
def mapping (key mapped : Ty) : Ty := .map .int key mapped

/-- Objects and values of a type. Floating-point objects are their bit patterns. -/
def carrier : Ty → Carrier
  | integral i => .plain i.Val
  | float => .plain UInt32
  | double => .plain UInt64
  | string => .plain (List UInt8)
  | longString => .plain (List UInt8)
  | stdString => .plain (List UInt8)
  | bytes => .plain (List UInt8)
  | shortBytes => .plain (List UInt8)
  | list _ t => .list t.carrier
  | map _ k v => .map k.carrier v.carrier

/-- Objects of a type. -/
abbrev Val (t : Ty) : Type := t.carrier.Val

/-- `Read<T>`, `include/cassandra/io/buffer_io_base.hpp:71`. -/
def read : (t : Ty) → Reader t.Val
  | integral i => readIntBE i
  | float => do
    let tmp ← readIntBE .int
    return Int32.toUInt32 tmp
  | double => do
    let tmp ← readIntBE .bigInt
    return Int64.toUInt64 tmp
  | string => stringBinaryParser .short
  | longString => stringBinaryParser .int
  | stdString => stringBinaryParser .short
  | bytes => bytesBinaryParser .int
  | shortBytes => bytesBinaryParser .short
  | list l t => listBinaryParser l t.read
  | map l k v => mapBinaryParser l k.read v.read

/-- `Write<T>`, `include/cassandra/io/buffer_io_base.hpp:92`. -/
def write : (t : Ty) → t.Val → BufferWriter Unit
  | integral i, x => writeIntBE i x
  | float, x => writeIntBE .int (UInt32.toInt32 x)
  | double, x => writeIntBE .bigInt (UInt64.toInt64 x)
  | string, s => stringBinaryFormatter .short s
  | longString, s => stringBinaryFormatter .int s
  | stdString, s => stringBinaryFormatter .short s
  | bytes, s => bytesBinaryFormatter .int s
  | shortBytes, s => bytesBinaryFormatter .short s
  | list l t, xs => listBinaryFormatter l t.write xs
  | map l k v, m => mapBinaryFormatter l k.write v.write m

/-- Every length and count in the object is one that its prefix represents. -/
def Fits : (t : Ty) → t.Val → Prop
  | integral _, _ => True
  | float, _ => True
  | double, _ => True
  | string, (s : List UInt8) => s.length ≤ LenType.short.bound
  | longString, (s : List UInt8) => s.length ≤ LenType.int.bound
  | stdString, (s : List UInt8) => s.length ≤ LenType.short.bound
  | bytes, (s : List UInt8) => s.length ≤ LenType.int.bound
  | shortBytes, (s : List UInt8) => s.length ≤ LenType.short.bound
  | list l t, (xs : List t.Val) => xs.length ≤ l.bound ∧ ∀ x ∈ xs, t.Fits x
  | map l k v, (m : Carrier.MapObject k.carrier v.carrier) =>
    m.1.length ≤ l.bound ∧ ∀ e ∈ m.1, k.Fits e.1 ∧ v.Fits e.2

instance decidableFits : (t : Ty) → (v : t.Val) → Decidable (t.Fits v)
  | integral _, _ => .isTrue trivial
  | float, _ => .isTrue trivial
  | double, _ => .isTrue trivial
  | string, (s : List UInt8) => inferInstanceAs (Decidable (s.length ≤ _))
  | longString, (s : List UInt8) => inferInstanceAs (Decidable (s.length ≤ _))
  | stdString, (s : List UInt8) => inferInstanceAs (Decidable (s.length ≤ _))
  | bytes, (s : List UInt8) => inferInstanceAs (Decidable (s.length ≤ _))
  | shortBytes, (s : List UInt8) => inferInstanceAs (Decidable (s.length ≤ _))
  | list l t, (xs : List t.Val) =>
    have := t.decidableFits
    inferInstanceAs (Decidable (xs.length ≤ l.bound ∧ ∀ x ∈ xs, t.Fits x))
  | map l k v, (m : Carrier.MapObject k.carrier v.carrier) =>
    have := k.decidableFits
    have := v.decidableFits
    inferInstanceAs (Decidable (m.1.length ≤ l.bound ∧ ∀ e ∈ m.1, k.Fits e.1 ∧ v.Fits e.2))

end Ty
end CassandraDriver.Io
