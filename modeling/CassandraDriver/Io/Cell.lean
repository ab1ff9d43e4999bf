import CassandraDriver.Io.BufferIO

/-!
# Values as parameter buffers and cells

Library `Io`. Models the `Bytes` overloads of `include/cassandra/io/integral_types.hpp:19–33`
and `include/cassandra/io/string_types.hpp:48–57,99–110`: how a value is written to the
buffer of a parameter and read from the cell of a row. Neither has a length prefix of its
own, and a `std::string` is its bytes.
-/

namespace CassandraDriver.Io
open CassandraDriver.Lib

/-- The parameter types with a scalar representation. -/
inductive ParamType
  | integral (i : IntegralType)
  | string
  deriving DecidableEq, Repr

namespace ParamType

/-- The values of the type. -/
def Val : ParamType → Type
  | integral i => i.Val
  | string => List UInt8

/-- `Write<T>(Bytes&, const T&)`, `include/cassandra/io/buffer_io_base.hpp:98`: an integral
value is appended to the buffer, a string replaces it. -/
def write : (t : ParamType) → t.Val → BufferWriter Unit
  | integral i, x => writeIntBE i x
  | string, s => set (show List UInt8 from s)

/-- `Read<T>(const Bytes&)`, `buffer_io_base.hpp:80`: an integral value stands at the start of
the buffer, a string is all of it. -/
def read : (t : ParamType) → List UInt8 → Except Exception t.Val
  | integral i, cell => (Program.run ⟨cell, fun _ ↦ 0⟩ (readIntBE i) (.at 0)).1
  | string, cell => .ok cell

/-- The content of a buffer to which only this value was written. -/
def encode : (t : ParamType) → t.Val → List UInt8
  | integral i, x => toBE i.width (i.toBits x)
  | string, s => s

/-- The length of a string is below `2 ^ 31`. -/
def Fits : (t : ParamType) → t.Val → Prop
  | integral _, _ => True
  | string, s => List.length s < 2 ^ 31

/-- Writing to an empty buffer. -/
theorem write_run (t : ParamType) (x : t.Val) : (t.write x).run [] = .ok ((), t.encode x) := by
  cases t with
  | integral i => exact writeIntBE_appends i x []
  | string => rfl

/-- Reading returns what was written. -/
theorem read_encode (t : ParamType) (x : t.Val) : t.read (t.encode x) = .ok x := by
  cases t with
  | integral i =>
    have h := ((readIntBE_decodes i x).run_at [] [] (fun _ ↦ 0)).1
    rw [List.nil_append, List.append_nil] at h
    exact h
  | string => rfl

/-- The buffer of a value is never too long for an `Int` prefix. -/
theorem length_encode_lt (t : ParamType) (x : t.Val) (h : t.Fits x) :
    (t.encode x).length < 2 ^ 31 := by
  cases t with
  | integral i =>
    rw [encode, length_toBE]
    cases i <;> decide
  | string => exact h

end ParamType

/-- Argument lists and `std::tuple`s of the given element types. -/
def Tuple : List ParamType → Type
  | [] => Unit
  | t :: ts => t.Val × Tuple ts

namespace Tuple

/-- Every string among the elements is short enough. -/
def Fits : (ts : List ParamType) → Tuple ts → Prop
  | [], _ => True
  | t :: ts, x => t.Fits x.1 ∧ Fits ts x.2

/-- The buffers of the elements in order. -/
def encode : (ts : List ParamType) → Tuple ts → List (List UInt8)
  | [], _ => []
  | t :: ts, x => t.encode x.1 :: encode ts x.2

/-- A tuple has a cell for each field. -/
@[simp] theorem length_encode (ts : List ParamType) (x : Tuple ts) :
    (encode ts x).length = ts.length := by
  induction ts with
  | nil => rfl
  | cons t ts ih => simp only [encode, List.length_cons, ih]

/-- No buffer of a fitting tuple is too long for an `Int` prefix. -/
theorem length_lt_of_mem_encode (ts : List ParamType) (x : Tuple ts) (h : Fits ts x) :
    ∀ bs ∈ encode ts x, bs.length < 2 ^ 31 := by
  induction ts with
  | nil => simp [encode]
  | cons t ts ih =>
    intro bs hbs
    rcases List.mem_cons.mp hbs with rfl | hbs
    · exact t.length_encode_lt x.1 h.1
    · exact ih x.2 h.2 bs hbs

end Tuple
end CassandraDriver.Io
