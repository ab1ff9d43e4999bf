import CassandraDriver.Io.Codec

/-!
# The typed codec round trip

Library `Io`. `encode` is the layout of a type in the terms of the protocol notations:
a prefix, then the content, nested to any depth. Writers append exactly this layout and
readers decode exactly it, so reading back is framed: the bytes before and after a value
do not matter.
-/

namespace CassandraDriver.Io
open CassandraDriver.Lib CassandraDriver.Lib.Program

namespace LenType

/-- The bytes of a prefix. -/
def encode (l : LenType) (n : Nat) : List UInt8 := toBE l.integral.width n

/-- A size within the bound is represented as itself. -/
theorem toBits_cast (l : LenType) (n : Nat) (h : n ≤ l.bound) :
    l.integral.toBits (l.cast n) = n := by
  cases l with
  | short =>
    have h' : n < 2 ^ 16 := Nat.lt_of_le_of_lt h (by decide)
    exact (UInt16.toNat_ofNat_of_lt' h')
  | int =>
    have h' : n < 2 ^ 32 := Nat.lt_of_le_of_lt h (by decide)
    change (BitVec.ofNat 32 n).toNat = n
    rw [BitVec.toNat_ofNat, Nat.mod_eq_of_lt h']

/-- A size within the bound is read as itself. -/
theorem toInt_cast (l : LenType) (n : Nat) (h : n ≤ l.bound) : l.toInt (l.cast n) = n := by
  cases l with
  | short => exact congrArg Int.ofNat (toBits_cast .short n h)
  | int =>
    have h' : n < 2 ^ 31 := Nat.lt_of_le_of_lt h (by decide)
    change (BitVec.ofNat 32 n).toInt = n
    rw [BitVec.toInt_eq_toNat_of_lt (by rw [BitVec.toNat_ofNat]; omega), BitVec.toNat_ofNat,
      Nat.mod_eq_of_lt (by omega)]

/-- Writing a size within the bound appends its prefix. -/
theorem write_appends (l : LenType) (n : Nat) (h : n ≤ l.bound) :
    Appends (l.write n) (l.encode n) := by
  have hw := writeIntBE_appends l.integral (l.cast n)
  rwa [toBits_cast l n h] at hw

/-- Reading a prefix within the bound returns the size. -/
theorem read_decodes (l : LenType) (n : Nat) (h : n ≤ l.bound) :
    Decodes l.read (l.encode n) (n : Int) := by
  have hr := (readIntBE_decodes l.integral (l.cast n)).map l.toInt
  rwa [toBits_cast l n h, toInt_cast l n h] at hr

end LenType

/-- A count that fits a prefix is kept by the conversion to `size_t`. -/
theorem sizeT_natCast (l : LenType) (n : Nat) (h : n ≤ l.bound) :
    sizeT (n : Int) = n := by
  have hb : n < 2 ^ 64 := by
    cases l with
    | short => exact Nat.lt_of_le_of_lt h (by decide)
    | int => exact Nat.lt_of_le_of_lt h (by decide)
  have hm : (n : Int) % 2 ^ 64 = n := Int.emod_eq_of_lt (by omega) (by exact_mod_cast hb)
  rw [sizeT, hm, Int.toNat_natCast]

private theorem appendCopy_appends (s : List UInt8) : Appends (appendCopy s.length s) s := by
  intro buf
  have hn : 0 ≤ (s.length : Int) := by omega
  simp only [StateT.run, appendCopy, if_pos hn, Int.toNat_natCast, List.take_length]

/-- A string is written as its prefix and its bytes. -/
theorem stringBinaryFormatter_appends (l : LenType) (s : List UInt8)
    (h : s.length ≤ l.bound) :
    Appends (stringBinaryFormatter l s) (l.encode s.length ++ s) := by
  unfold stringBinaryFormatter
  rw [l.toInt_cast _ h]
  exact (l.write_appends _ h).seq (appendCopy_appends s)

/-- A byte string is written as its prefix and its bytes, also when it is empty. -/
theorem bytesBinaryFormatter_appends (l : LenType) (s : List UInt8)
    (h : s.length ≤ l.bound) :
    Appends (bytesBinaryFormatter l s) (l.encode s.length ++ s) := by
  unfold bytesBinaryFormatter
  rw [l.toInt_cast _ h]
  apply (l.write_appends _ h).seq
  split
  · next hs =>
    have he : s = [] := List.length_eq_zero_iff.mp (by omega)
    rw [he]
    exact Appends.pure
  · exact appendCopy_appends s

/-- A string is read from its prefix and its bytes. -/
theorem stringBinaryParser_decodes (l : LenType) (s : List UInt8) (h : s.length ≤ l.bound) :
    Decodes (stringBinaryParser l) (l.encode s.length ++ s) s := by
  apply (l.read_decodes _ h).bind
  rw [if_neg (by omega), Int.toNat_natCast]
  exact Decodes.copy s rfl

/-- A byte string is read from its prefix and its bytes. -/
theorem bytesBinaryParser_decodes (l : LenType) (s : List UInt8) (h : s.length ≤ l.bound) :
    Decodes (bytesBinaryParser l) (l.encode s.length ++ s) s := by
  apply (l.read_decodes _ h).bind
  split
  · rw [Int.toNat_natCast]
    exact Decodes.copy s rfl
  · next hs =>
    have he : s = [] := List.length_eq_zero_iff.mp (by omega)
    rw [he]
    exact Decodes.pure []

/-- The copy behind the prefix never depends on the buffer in front. -/
theorem appendCopy_uniform (size : Int) (source : List UInt8) :
    Uniform (appendCopy size source) := by
  by_cases h : 0 ≤ size
  · refine Uniform.of_appends (fun buf ↦ ?_ : Appends _ (source.take size.toNat))
    simp only [StateT.run, appendCopy, if_pos h]
  · refine .inr (fun buf ↦ ?_)
    simp only [StateT.run, appendCopy, if_neg h]
    split
    · exact ⟨_, rfl⟩
    · exact ⟨_, rfl⟩

/-- A string of any length is written uniformly. -/
theorem stringBinaryFormatter_uniform (l : LenType) (s : List UInt8) :
    Uniform (stringBinaryFormatter l s) :=
  (Uniform.of_appends (writeIntBE_appends l.integral (l.cast s.length))).seq
    (appendCopy_uniform _ s)

/-- A byte string of any length is written uniformly. -/
theorem bytesBinaryFormatter_uniform (l : LenType) (s : List UInt8) :
    Uniform (bytesBinaryFormatter l s) := by
  unfold bytesBinaryFormatter
  apply (Uniform.of_appends (writeIntBE_appends l.integral (l.cast s.length))).seq
  split
  · exact .pure
  · exact appendCopy_uniform _ s

/-- A sequence is written as its count and its elements in order. -/
theorem listBinaryFormatter_appends {α : Type} (l : LenType) {element : α → BufferWriter Unit}
    {enc : α → List UInt8} (xs : List α) (h : xs.length ≤ l.bound)
    (he : ∀ x ∈ xs, Appends (element x) (enc x)) :
    Appends (listBinaryFormatter l element xs) (l.encode xs.length ++ xs.flatMap enc) :=
  (l.write_appends _ h).seq (Appends.forM xs he)

/-- Elements added at the back one by one. -/
theorem foldl_snoc {α : Type} (xs acc : List α) :
    xs.foldl (fun value e ↦ value ++ [e]) acc = acc ++ xs := by
  induction xs generalizing acc with
  | nil => rw [List.foldl_nil, List.append_nil]
  | cons x xs ih => rw [List.foldl_cons, ih, List.append_assoc, List.singleton_append]

/-- A sequence is read from its count and its elements in order. -/
theorem listBinaryParser_decodes {α : Type} (l : LenType) {element : Reader α}
    {enc : α → List UInt8} (xs : List α) (h : xs.length ≤ l.bound)
    (he : ∀ x ∈ xs, Decodes element (enc x) x) :
    Decodes (listBinaryParser l element) (l.encode xs.length ++ xs.flatMap enc) xs := by
  apply (l.read_decodes _ h).bind
  rw [sizeT_natCast l _ h]
  have hb : ∀ x ∈ xs, ∀ value : List α,
      Decodes (element >>= fun e ↦ pure (value ++ [e])) (enc x) (value ++ [x]) :=
    fun x hx value ↦ (he x hx).map (fun e ↦ value ++ [e])
  have hl := Decodes.forCount xs [] hb
  rwa [foldl_snoc, List.nil_append] at hl

section Maps
variable {k v : Carrier}

private theorem emplace_new (m : Carrier.MapObject k v) (x : k.Val × v.Val)
    (h : ((m.1 ++ [x]).map (fun e ↦ k.den e.1)).Nodup) :
    m.emplace x.1 x.2 = ⟨m.1 ++ [x], h⟩ := by
  have hx : k.den x.1 ∉ m.1.map (fun e ↦ k.den e.1) := by
    rw [List.map_append] at h
    intro hm
    exact List.disjoint_of_nodup_append h hm (List.mem_singleton.mpr rfl)
  exact dif_neg hx

/-- Entries with new keys are all kept, in the order they come. -/
theorem foldl_emplace (xs : List (k.Val × v.Val)) (m : Carrier.MapObject k v)
    (h : ((m.1 ++ xs).map (fun e ↦ k.den e.1)).Nodup) :
    xs.foldl (fun value e ↦ value.emplace e.1 e.2) m = ⟨m.1 ++ xs, h⟩ := by
  induction xs generalizing m with
  | nil => exact Subtype.ext (List.append_nil m.1).symm
  | cons x xs ih =>
    have hs : m.1 ++ x :: xs = (m.1 ++ [x]) ++ xs := by simp
    have h₁ : ((m.1 ++ [x]).map (fun e ↦ k.den e.1)).Nodup := by
      rw [hs, List.map_append] at h
      exact h.of_append_left
    rw [List.foldl_cons, emplace_new m x h₁, ih ⟨m.1 ++ [x], h₁⟩ (by rwa [← hs])]
    exact Subtype.ext hs.symm

/-- A map is written as its count and its entries in iteration order. -/
theorem mapBinaryFormatter_appends (l : LenType) {key : k.Val → BufferWriter Unit}
    {mapped : v.Val → BufferWriter Unit} {enck : k.Val → List UInt8}
    {encv : v.Val → List UInt8} (m : Carrier.MapObject k v) (h : m.1.length ≤ l.bound)
    (hk : ∀ e ∈ m.1, Appends (key e.1) (enck e.1))
    (hv : ∀ e ∈ m.1, Appends (mapped e.2) (encv e.2)) :
    Appends (mapBinaryFormatter l key mapped m)
      (l.encode m.1.length ++ m.1.flatMap (fun e ↦ enck e.1 ++ encv e.2)) :=
  (l.write_appends _ h).seq (Appends.forM m.1 (fun e he ↦ (hk e he).seq (hv e he)))

/-- A map is read from its count and its entries, whatever order they come in. -/
theorem mapBinaryParser_decodes (l : LenType) {key : Reader k.Val} {mapped : Reader v.Val}
    {enck : k.Val → List UInt8} {encv : v.Val → List UInt8} (m : Carrier.MapObject k v)
    (h : m.1.length ≤ l.bound) (hk : ∀ e ∈ m.1, Decodes key (enck e.1) e.1)
    (hv : ∀ e ∈ m.1, Decodes mapped (encv e.2) e.2) :
    Decodes (mapBinaryParser l key mapped)
      (l.encode m.1.length ++ m.1.flatMap (fun e ↦ enck e.1 ++ encv e.2)) m := by
  apply (l.read_decodes _ h).bind
  rw [sizeT_natCast l _ h]
  have hb : ∀ e ∈ m.1, ∀ value : Carrier.MapObject k v,
      Decodes (key >>= fun x ↦ mapped >>= fun y ↦ pure (value.emplace x y))
        (enck e.1 ++ encv e.2) (value.emplace e.1 e.2) :=
    fun e he value ↦ (hk e he).bind ((hv e he).map (value.emplace e.1))
  have hl := Decodes.forCount m.1 .empty hb
  rwa [foldl_emplace m.1 .empty m.2] at hl

end Maps

namespace Ty

/-- The layout of a value: prefixes and contents, nested as the type is. -/
def encode : (t : Ty) → t.Val → List UInt8
  | integral i, x => toBE i.width (i.toBits x)
  | float, (x : UInt32) => toBE 4 x.toNat
  | double, (x : UInt64) => toBE 8 x.toNat
  | string, (s : List UInt8) => LenType.short.encode s.length ++ s
  | longString, (s : List UInt8) => LenType.int.encode s.length ++ s
  | stdString, (s : List UInt8) => LenType.short.encode s.length ++ s
  | bytes, (s : List UInt8) => LenType.int.encode s.length ++ s
  | shortBytes, (s : List UInt8) => LenType.short.encode s.length ++ s
  | list l t, (xs : List t.Val) => l.encode xs.length ++ xs.flatMap t.encode
  | map l k v, (m : Carrier.MapObject k.carrier v.carrier) =>
    l.encode m.1.length ++ m.1.flatMap (fun e ↦ k.encode e.1 ++ v.encode e.2)

/-- Writing a value that fits appends exactly its layout. -/
theorem write_appends (t : Ty) (v : t.Val) (h : t.Fits v) : Appends (t.write v) (t.encode v) := by
  induction t with
  | integral i => exact writeIntBE_appends i v
  | float => exact writeIntBE_appends .int (UInt32.toInt32 v)
  | double => exact writeIntBE_appends .bigInt (UInt64.toInt64 v)
  | string => exact stringBinaryFormatter_appends .short v h
  | longString => exact stringBinaryFormatter_appends .int v h
  | stdString => exact stringBinaryFormatter_appends .short v h
  | bytes => exact bytesBinaryFormatter_appends .int v h
  | shortBytes => exact bytesBinaryFormatter_appends .short v h
  | list l t ih => exact listBinaryFormatter_appends l v h.1 (fun x hx ↦ ih x (h.2 x hx))
  | map l k w ihk ihw =>
    exact mapBinaryFormatter_appends l v h.1 (fun e he ↦ ihk e.1 (h.2 e he).1)
      (fun e he ↦ ihw e.2 (h.2 e he).2)

/-- Every value is written uniformly, also one that does not fit. -/
theorem write_uniform (t : Ty) (v : t.Val) : Uniform (t.write v) := by
  induction t with
  | integral i => exact .of_appends (writeIntBE_appends i v)
  | float => exact .of_appends (writeIntBE_appends .int (UInt32.toInt32 v))
  | double => exact .of_appends (writeIntBE_appends .bigInt (UInt64.toInt64 v))
  | string => exact stringBinaryFormatter_uniform .short v
  | longString => exact stringBinaryFormatter_uniform .int v
  | stdString => exact stringBinaryFormatter_uniform .short v
  | bytes => exact bytesBinaryFormatter_uniform .int v
  | shortBytes => exact bytesBinaryFormatter_uniform .short v
  | list l t ih =>
    exact (Uniform.of_appends (writeIntBE_appends l.integral _)).seq (.forM v ih)
  | map l k w ihk ihw =>
    exact (Uniform.of_appends (writeIntBE_appends l.integral _)).seq
      (.forM v.1 (fun e ↦ (ihk e.1).seq (ihw e.2)))

/-- Reading decodes exactly the layout of a value that fits. -/
theorem read_decodes (t : Ty) (v : t.Val) (h : t.Fits v) : Decodes t.read (t.encode v) v := by
  induction t with
  | integral i => exact readIntBE_decodes i v
  | float =>
    have hr := (readIntBE_decodes .int (UInt32.toInt32 v)).map Int32.toUInt32
    exact hr
  | double =>
    have hr := (readIntBE_decodes .bigInt (UInt64.toInt64 v)).map Int64.toUInt64
    exact hr
  | string => exact stringBinaryParser_decodes .short v h
  | longString => exact stringBinaryParser_decodes .int v h
  | stdString => exact stringBinaryParser_decodes .short v h
  | bytes => exact bytesBinaryParser_decodes .int v h
  | shortBytes => exact bytesBinaryParser_decodes .short v h
  | list l t ih => exact listBinaryParser_decodes l v h.1 (fun x hx ↦ ih x (h.2 x hx))
  | map l k w ihk ihw =>
    exact mapBinaryParser_decodes l v h.1 (fun e he ↦ ihk e.1 (h.2 e he).1)
      (fun e he ↦ ihw e.2 (h.2 e he).2)

/-- Every value that fits is read back from the middle of any buffer, and the offset
moves by what was written. The writer may hold the value as any object `w`, so with its
maps in any iteration order; the object read has the same value. -/
theorem read_write (t : Ty) (v w : t.Val) (hw : t.carrier.den w = t.carrier.den v)
    (hf : t.Fits w) (p r : List UInt8) (beyond : Nat → UInt8) :
    ∃ bytes, (∀ buffer, (t.write w).run buffer = .ok ((), buffer ++ bytes)) ∧
      ∃ u, (run ⟨p ++ bytes ++ r, beyond⟩ t.read (.at p.length)).1 = .ok u ∧
        t.carrier.den u = t.carrier.den v ∧
        (run ⟨p ++ bytes ++ r, beyond⟩ t.read (.at p.length)).2.offset =
          p.length + bytes.length := by
  obtain ⟨hr, ho⟩ := (t.read_decodes w hf).run_at p r beyond
  exact ⟨t.encode w, t.write_appends w hf, w, hr, hw, ho⟩

/-- A map from integers to string lists, written in one order and compared in another. -/
def sampleMap (swap : Bool) : (mapping (.integral .int) stringList).Val :=
  if swap then ⟨[((2 : Int32), ([] : List (List UInt8))), ((1 : Int32), [[97]])], by decide⟩
  else ⟨[((1 : Int32), [[97]]), ((2 : Int32), ([] : List (List UInt8)))], by decide⟩

/-- The map is written in one order and read as the value of the other. -/
theorem read_write_sampleMap :
    ∃ bytes, (∀ buffer, ((mapping (.integral .int) stringList).write (sampleMap true)).run buffer
        = .ok ((), buffer ++ bytes)) ∧
      ∃ u, (run ⟨[7] ++ bytes ++ [9, 9], fun _ ↦ 0⟩ (mapping (.integral .int) stringList).read
          (.at 1)).1 = .ok u ∧
        (mapping (.integral .int) stringList).carrier.den u =
          (mapping (.integral .int) stringList).carrier.den (sampleMap false) ∧
        (run ⟨[7] ++ bytes ++ [9, 9], fun _ ↦ 0⟩ (mapping (.integral .int) stringList).read
          (.at 1)).2.offset = 1 + bytes.length :=
  read_write _ (sampleMap false) (sampleMap true) (by decide) (by decide) [7] [9, 9] (fun _ ↦ 0)

end Ty
end CassandraDriver.Io
