import CassandraDriver.Lib.Append
import CassandraDriver.Lib.BigEndian
import CassandraDriver.Lib.ReadProgram

/-!
# Buffer input and output of integral values

Library `Io`. Models `include/cassandra/io/buffer_io_base.hpp` and
`include/cassandra/io/integral_types.hpp`. Reading runs over a view of memory with an
offset; only `ReadIntBE` checks the remaining size. Writing appends to a growing buffer.
Sizes are unbounded naturals: a buffer that does not fit in memory is not modelled.
-/

namespace CassandraDriver.Io
open CassandraDriver.Lib

/-- Exceptions that leave the code, and the two ways a modelled run ends otherwise:
`memoryFault` is a write outside every object, `recursionLimit` is the model's own fuel. -/
inductive Exception
  | runtimeError (what : String)
  | lengthError
  | outOfRange (what : String)
  | error (what : String)
  | memoryFault
  | recursionLimit
  deriving DecidableEq, Repr

/-- Reading code: `include/cassandra/io/buffer_reader.hpp:19`. -/
abbrev Reader (α : Type) := Program Exception α

/-- Writing code: `include/cassandra/io/buffer_writer.hpp:15`. -/
abbrev BufferWriter (α : Type) := Lib.Writer Exception α

/-- `EnsureSize`, `include/cassandra/io/buffer_io_base.hpp:44`. -/
def ensureSize (required : Nat) : Reader Unit :=
  .guard required (.runtimeError "Buffer underread") (.done ())

/-- `std::memcpy` out of the buffer and the following `offset +=`; it checks nothing. -/
def memcpy (n : Nat) : Reader (List UInt8) := .copy n .done

/-- The integral types of `include/cassandra/io/cassandra_types.hpp:15–24`. -/
inductive IntegralType
  | boolean | byte | tinyInt | smallInt | short | int | bigInt
  deriving DecidableEq, Repr

namespace IntegralType

/-- `sizeof(T)`. -/
def width : IntegralType → Nat
  | boolean => 1
  | byte => 1
  | tinyInt => 1
  | smallInt => 2
  | short => 2
  | int => 4
  | bigInt => 8

/-- The values of the type. -/
def Val : IntegralType → Type
  | boolean => Bool
  | byte => UInt8
  | tinyInt => Int8
  | smallInt => Int16
  | short => UInt16
  | int => Int32
  | bigInt => Int64

instance : (i : IntegralType) → DecidableEq i.Val
  | boolean => inferInstanceAs (DecidableEq Bool)
  | byte => inferInstanceAs (DecidableEq UInt8)
  | tinyInt => inferInstanceAs (DecidableEq Int8)
  | smallInt => inferInstanceAs (DecidableEq Int16)
  | short => inferInstanceAs (DecidableEq UInt16)
  | int => inferInstanceAs (DecidableEq Int32)
  | bigInt => inferInstanceAs (DecidableEq Int64)

/-- The object representation as an unsigned number. -/
def toBits : (i : IntegralType) → i.Val → Nat
  | boolean, b => Bool.toNat b
  | byte, x => UInt8.toNat x
  | tinyInt, x => (Int8.toBitVec x).toNat
  | smallInt, x => (Int16.toBitVec x).toNat
  | short, x => UInt16.toNat x
  | int, x => (Int32.toBitVec x).toNat
  | bigInt, x => (Int64.toBitVec x).toNat

/-- The value with a given object representation. For `bool` only 0 and 1 are ever
written; the model reads every other byte as `true`. -/
def ofBits : (i : IntegralType) → Nat → i.Val
  | boolean, n => n != 0
  | byte, n => UInt8.ofNat n
  | tinyInt, n => Int8.ofBitVec (BitVec.ofNat 8 n)
  | smallInt, n => Int16.ofBitVec (BitVec.ofNat 16 n)
  | short, n => UInt16.ofNat n
  | int, n => Int32.ofBitVec (BitVec.ofNat 32 n)
  | bigInt, n => Int64.ofBitVec (BitVec.ofNat 64 n)

private theorem bits_toNat {w : Nat} (b : BitVec w) : BitVec.ofNat w b.toNat = b := by
  simp

/-- The representation determines the value. -/
theorem ofBits_toBits (i : IntegralType) (x : i.Val) : i.ofBits (i.toBits x) = x := by
  cases i with
  | boolean => cases x <;> rfl
  | byte => exact UInt8.ofNat_toNat
  | tinyInt => exact (congrArg Int8.ofBitVec (bits_toNat _)).trans (Int8.ofBitVec_toBitVec x)
  | smallInt => exact (congrArg Int16.ofBitVec (bits_toNat _)).trans (Int16.ofBitVec_toBitVec x)
  | short => exact UInt16.ofNat_toNat
  | int => exact (congrArg Int32.ofBitVec (bits_toNat _)).trans (Int32.ofBitVec_toBitVec x)
  | bigInt => exact (congrArg Int64.ofBitVec (bits_toNat _)).trans (Int64.ofBitVec_toBitVec x)

/-- A representation fits the type's width. -/
theorem toBits_lt (i : IntegralType) (x : i.Val) : i.toBits x < 256 ^ i.width := by
  cases i with
  | boolean => cases x <;> decide
  | byte => exact UInt8.toNat_lt x
  | tinyInt => exact (Int8.toBitVec x).isLt
  | smallInt => exact (Int16.toBitVec x).isLt
  | short => exact UInt16.toNat_lt x
  | int => exact (Int32.toBitVec x).isLt
  | bigInt => exact (Int64.toBitVec x).isLt

end IntegralType

/-- `ReadIntBE`, `include/cassandra/io/buffer_io_base.hpp:50`. -/
def readIntBE (i : IntegralType) : Reader i.Val := do
  ensureSize i.width
  let value ← memcpy i.width
  return i.ofBits (ofBE value)

/-- `WriteIntBE`, `include/cassandra/io/buffer_io_base.hpp:59`. -/
def writeIntBE (i : IntegralType) (value : i.Val) : BufferWriter Unit :=
  modify (· ++ toBE i.width (i.toBits value))

/-- An integral value is written big-endian in its own width. -/
theorem writeIntBE_appends (i : IntegralType) (x : i.Val) :
    Appends (writeIntBE i x) (toBE i.width (i.toBits x)) := Appends.modify _

/-- Reading an integral value back from its big-endian bytes. -/
theorem readIntBE_decodes (i : IntegralType) (x : i.Val) :
    Program.Decodes (readIntBE i) (toBE i.width (i.toBits x)) x := by
  have hw : (toBE i.width (i.toBits x)).length = i.width := length_toBE _ _
  have hb : i.ofBits (ofBE (toBE i.width (i.toBits x))) = x := by
    rw [ofBE_toBE _ _ (i.toBits_lt x), i.ofBits_toBits]
  have h := (Program.Decodes.copy (ε := Exception) (toBE i.width (i.toBits x)) hw.symm).map
    (fun bs ↦ i.ofBits (ofBE bs))
  rw [hb] at h
  exact Program.Decodes.guard (Nat.le_of_eq hw.symm) h

/-- Reading an integral value at the start of a buffer: it stands in the first bytes, when
there are enough of them. -/
theorem readIntBE_run (i : IntegralType) (v : View) :
    (Program.run v (readIntBE i) (.at 0)).1 =
      if i.width ≤ v.data.length then .ok (i.ofBits (ofBE (v.data.take i.width)))
      else .error (.runtimeError "Buffer underread") := by
  change (Program.run v (Program.guard i.width (Exception.runtimeError "Buffer underread")
    (.copy i.width (fun bs ↦ .done (i.ofBits (ofBE bs))))) (.at 0)).1 = _
  simp only [Program.run, Cursor.at, Nat.zero_add]
  split
  · next h =>
    have hl : (v.data.take i.width).length = i.width := List.length_take_of_le h
    have hw := v.window_segment [] (v.data.take i.width) (v.data.drop i.width) (by simp)
    rw [hl, List.length_nil] at hw
    rw [hw]
  · rfl

end CassandraDriver.Io
