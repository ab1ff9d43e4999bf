import CassandraDriver.Io.Codec
import CassandraDriver.Lib.Layout

/-!
# The typed readers and their layouts

Library `Io`. What each C++ type looks like on the wire, and that its reader follows this
layout: integral reads check the size, strings and byte strings trust the length on the
wire. No typed read meets the model's own limit.
-/

namespace CassandraDriver.Io
open CassandraDriver.Lib CassandraDriver.Lib.Program

/-- An integral field, whose value may select what follows. -/
def IntegralType.layout (i : IntegralType) (next : i.Val → Layout) : Layout :=
  .field i.width (fun bs ↦ next (i.ofBits (ofBE bs)))

namespace LenType

/-- The number that a prefix announces. -/
def announced (l : LenType) (bs : List UInt8) : Int := l.toInt (l.integral.ofBits (ofBE bs))

/-- A string, which may select what follows; a negative size is refused. -/
def stringLayout (l : LenType) (next : List UInt8 → Layout) : Layout :=
  .blob l.integral.width
    (fun bs ↦ if l.announced bs < 0 then none else some (l.announced bs).toNat) next

/-- A byte string; a negative size means an empty one. -/
def bytesLayout (l : LenType) : Layout :=
  .blob l.integral.width (fun bs ↦ some (l.announced bs).toNat) (fun _ ↦ .nothing)

/-- Items behind their count. -/
def itemsLayout (l : LenType) (item : Layout) : Layout :=
  l.integral.layout (fun count ↦ .times (sizeT (l.toInt count)) item)

end LenType

/-- A type on the wire. -/
def Ty.layout : Ty → Layout
  | integral i => i.layout (fun _ ↦ .nothing)
  | float => IntegralType.int.layout (fun _ ↦ .nothing)
  | double => IntegralType.bigInt.layout (fun _ ↦ .nothing)
  | string => LenType.short.stringLayout (fun _ ↦ .nothing)
  | longString => LenType.int.stringLayout (fun _ ↦ .nothing)
  | stdString => LenType.short.stringLayout (fun _ ↦ .nothing)
  | bytes => LenType.int.bytesLayout
  | shortBytes => LenType.short.bytesLayout
  | list l t => l.itemsLayout t.layout
  | map l k w => l.itemsLayout (.append k.layout w.layout)

section Follows
variable {v : View} {α : Type}

/-- An integral read, and what is read behind it. -/
theorem readIntBE_follows (i : IntegralType) {f : i.Val → Reader α} {next : i.Val → Layout}
    (hf : ∀ x, Follows v (f x) (next x)) : Follows v (readIntBE i >>= f) (i.layout next) :=
  Follows.field (fun _ ↦ hf _)

/-- A read of a string, and what is read behind it. -/
theorem stringBinaryParser_follows (l : LenType) {f : List UInt8 → Reader α}
    {next : List UInt8 → Layout} (hf : ∀ s, Follows v (f s) (next s)) :
    Follows v (stringBinaryParser l >>= f) (l.stringLayout next) := by
  refine Follows.blob (f := f) (fun bs hsize ↦ ?_) (fun bs k hsize o ↦ ?_) hf
  · split at hsize
    · next hneg => exact ⟨.lengthError, congrArg (fun p ↦ Program.bind p f) (if_pos hneg)⟩
    · cases hsize
  · split at hsize
    · cases hsize
    · next hneg =>
      cases hsize
      exact ⟨congrArg (fun p ↦ finish v (Program.bind p f) o) (if_neg hneg),
        congrArg (fun p ↦ reach v (Program.bind p f) o) (if_neg hneg)⟩

private theorem string_follows (l : LenType) :
    Follows v (stringBinaryParser l) (l.stringLayout (fun _ ↦ .nothing)) := by
  rw [← bind_done (stringBinaryParser l)]
  exact stringBinaryParser_follows l Follows.pure

private theorem bytesBinaryParser_follows (l : LenType) :
    Follows v (bytesBinaryParser l) l.bytesLayout := by
  refine Follows.blob (f := Program.done) (fun bs hsize ↦ by cases hsize) (fun bs k hsize o ↦ ?_)
    (fun s ↦ Follows.pure s)
  cases hsize
  by_cases hpos : 0 < l.announced bs
  · exact ⟨congrArg (fun p ↦ finish v p o) (if_pos hpos),
      congrArg (fun p ↦ reach v p o) (if_pos hpos)⟩
  · -- nothing is copied, which is what a copy of no bytes does
    have hzero : (l.announced bs).toNat = 0 := by omega
    rw [hzero]
    exact ⟨(congrArg (fun p ↦ finish v p o) (if_neg hpos)).trans rfl,
      (congrArg (fun p ↦ reach v p o) (if_neg hpos)).trans rfl⟩

/-- Every typed read follows the layout of its type. -/
theorem Ty.read_follows (t : Ty) : Follows v t.read t.layout := by
  induction t with
  | integral i => exact Follows.field (fun _ ↦ Follows.pure _)
  | float => exact Follows.field (fun _ ↦ Follows.pure _)
  | double => exact Follows.field (fun _ ↦ Follows.pure _)
  | string => exact string_follows .short
  | longString => exact string_follows .int
  | stdString => exact string_follows .short
  | bytes => exact bytesBinaryParser_follows .int
  | shortBytes => exact bytesBinaryParser_follows .short
  | list l t ih =>
    exact Follows.field (fun _ ↦ Follows.forCount (fun _ ↦ ih.map _) _ _)
  | map l k w ihk ihw =>
    exact Follows.field (fun _ ↦ Follows.forCount (fun _ ↦ ihk.bind (fun _ ↦ ihw.map _)) _ _)

end Follows

section Raises
variable {P : Exception → Prop}

/-- Whether a type has a string with a signed prefix, whose negative size is refused. -/
def Ty.hasLongString : Ty → Bool
  | longString => true
  | list _ t => t.hasLongString
  | map _ k w => k.hasLongString || w.hasLongString
  | _ => false

/-- Reading an integer can only fail in `EnsureSize`. -/
theorem readIntBE_raises (i : IntegralType) (hu : P (.runtimeError "Buffer underread")) :
    Raises P (readIntBE i) := ⟨hu, fun _ ↦ trivial⟩

private theorem prefix_raises (l : LenType) (hu : P (.runtimeError "Buffer underread")) :
    Raises P l.read :=
  (readIntBE_raises l.integral hu).bind (fun _ ↦ Raises.pure _)

private theorem memcpy_raises (n : Nat) : Raises P (memcpy n) := fun _ ↦ trivial

private theorem shortString_raises (hu : P (.runtimeError "Buffer underread")) :
    Raises P (stringBinaryParser .short) := by
  refine ⟨hu, fun bs ↦ ?_⟩
  have hsize : ¬ LenType.short.toInt (LenType.short.integral.ofBits (ofBE bs)) < 0 := by
    simp [LenType.toInt]
  change Raises P (if LenType.short.toInt (LenType.short.integral.ofBits (ofBE bs)) < 0 then
    .fail .lengthError else memcpy _)
  rw [if_neg hsize]
  exact memcpy_raises _

private theorem longString_raises (hu : P (.runtimeError "Buffer underread"))
    (hl : P .lengthError) : Raises P (stringBinaryParser .int) := by
  apply (prefix_raises .int hu).bind
  intro size
  split
  · exact hl
  · exact memcpy_raises _

private theorem bytesBinaryParser_raises (l : LenType)
    (hu : P (.runtimeError "Buffer underread")) : Raises P (bytesBinaryParser l) := by
  apply (prefix_raises l hu).bind
  intro len
  split
  · exact memcpy_raises _
  · exact Raises.pure _

/-- A typed read throws on a missing prefix, or on a negative size of a long string. -/
theorem Ty.read_raises (t : Ty) (hu : P (.runtimeError "Buffer underread"))
    (hl : t.hasLongString = true → P .lengthError) : Raises P t.read := by
  induction t with
  | integral i => exact readIntBE_raises i hu
  | float => exact (readIntBE_raises .int hu).bind (fun _ ↦ Raises.pure _)
  | double => exact (readIntBE_raises .bigInt hu).bind (fun _ ↦ Raises.pure _)
  | string => exact shortString_raises hu
  | longString => exact longString_raises hu (hl rfl)
  | stdString => exact shortString_raises hu
  | bytes => exact bytesBinaryParser_raises .int hu
  | shortBytes => exact bytesBinaryParser_raises .short hu
  | list l t ih =>
    apply (prefix_raises l hu).bind
    intro count
    exact Raises.forCount (fun _ ↦ (ih hl).bind (fun _ ↦ Raises.pure _)) _ _
  | map l k w ihk ihw =>
    have hk := ihk (fun h ↦ hl (by simp [hasLongString, h]))
    have hw := ihw (fun h ↦ hl (by simp [hasLongString, h]))
    apply (prefix_raises l hu).bind
    intro count
    exact Raises.forCount (fun _ ↦ hk.bind (fun _ ↦ hw.bind (fun _ ↦ Raises.pure _))) _ _

end Raises

/-- An exception that no reading code throws. -/
def Exception.Foreign (e : Exception) : Prop :=
  e ≠ .runtimeError "Buffer underread" ∧ e ≠ .lengthError

section Foreign
variable {v : View} {lo : Nat} {α : Type} {e : Exception} (he : e.Foreign)
include he

/-- An integral read, with what is known after it: so many bytes were there. -/
theorem readIntBE_bind_avoids (i : IntegralType) {f : i.Val → Reader α}
    (hf : lo + i.width ≤ v.data.length → ∀ x, Avoids v e (lo + i.width) (f x)) :
    Avoids v e lo (readIntBE i >>= f) :=
  Avoids.guard he.1.symm (fun h ↦ Avoids.copy (fun _ ↦ hf h _))

/-- Reading an integer is checked first. -/
theorem readIntBE_avoids (i : IntegralType) : Avoids v e lo (readIntBE i) :=
  Avoids.guard he.1.symm (fun _ ↦ Avoids.copy (fun _ ↦ Avoids.pure _))

/-- A typed read fails with an exception of reading code only. -/
theorem Ty.read_avoids (t : Ty) : Avoids v e lo t.read :=
  (t.read_raises (P := fun e' ↦ e ≠ e') he.1 (fun _ ↦ he.2)).avoids (not_not.mpr rfl) lo

end Foreign
end CassandraDriver.Io
