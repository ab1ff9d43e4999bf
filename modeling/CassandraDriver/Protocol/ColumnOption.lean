import CassandraDriver.Protocol.Frame

/-!
# Column types of results

Library `Protocol`. Models `src/io/protocol/column_option.{hpp,cpp}`: a column type is a
16-bit id, and six of the ids carry a payload that may hold further column types. The
recursion of the code is bounded by the input only; here it runs on fuel and fails with
`recursionLimit` when that is spent, which half the buffer size rules out. Each node
started is one tick.
-/

namespace CassandraDriver.Protocol
open CassandraDriver.Lib CassandraDriver.Lib.Program CassandraDriver.Io

/-- An id that carries no payload, known to `ColumnType` or not. -/
def IsScalar (id : UInt16) : Prop :=
  id ≠ 0x00 ∧ id ≠ 0x20 ∧ id ≠ 0x21 ∧ id ≠ 0x22 ∧ id ≠ 0x30 ∧ id ≠ 0x31

instance : DecidablePred IsScalar := fun _ ↦ inferInstanceAs (Decidable (_ ∧ _))

/-- `ColumnType`, `include/cassandra/io/protocol/frame.hpp:50`, as `ColumnOption::Parse`
tells its values apart: a `static_cast` keeps every 16-bit value. -/
inductive ColumnType
  | custom | list | map | set | udt | tuple
  | scalar (id : { id : UInt16 // IsScalar id })
  deriving DecidableEq

namespace ColumnType

/-- The id on the wire. -/
def code : ColumnType → UInt16
  | custom => 0x00
  | list => 0x20
  | map => 0x21
  | set => 0x22
  | udt => 0x30
  | tuple => 0x31
  | scalar id => id.1

/-- `static_cast<ColumnType>`. -/
def ofShort (id : UInt16) : ColumnType :=
  if h : IsScalar id then scalar ⟨id, h⟩
  else if id = 0x00 then custom
  else if id = 0x20 then list
  else if id = 0x21 then map
  else if id = 0x22 then set
  else if id = 0x30 then udt
  else tuple

/-- The id determines the type. -/
theorem ofShort_code (t : ColumnType) : ofShort t.code = t := by
  cases t with
  | scalar id => exact dif_pos id.2
  | _ => rfl

end ColumnType

/-- A string with its two-byte length. -/
def encodeString (s : List UInt8) : List UInt8 := LenType.short.encode s.length ++ s

/-- Reading a string from its layout. -/
theorem string_decodes (s : List UInt8) (h : s.length ≤ 65535) :
    Decodes Ty.string.read (encodeString s) s := stringBinaryParser_decodes .short s h

/-- `ColumnOption` with its payload, `src/io/protocol/column_option.hpp:29–104`. -/
inductive ColumnOption
  | custom (value : List UInt8)
  | list (elementType : ColumnOption)
  | map (keyType valueType : ColumnOption)
  | set (elementType : ColumnOption)
  | udt (keyspace udtName : List UInt8) (fields : List (List UInt8 × ColumnOption))
  | tuple (elements : List ColumnOption)
  | scalar (id : { id : UInt16 // IsScalar id })

namespace ColumnOption

/-- `CustomPayload::Parse`, `src/io/protocol/column_option.cpp:40`. -/
def customPayload : Reader ColumnOption := do
  let value ← Ty.string.read
  return custom value

/-- `ListPayload::Parse`, `column_option.cpp:36`. -/
def listPayload (option : Reader ColumnOption) : Reader ColumnOption := do
  let elementType ← option
  return list elementType

/-- `MapPayload::Parse`, `column_option.cpp:44`. -/
def mapPayload (option : Reader ColumnOption) : Reader ColumnOption := do
  let keyType ← option
  let valueType ← option
  return map keyType valueType

/-- `SetPayload::Parse`, `column_option.cpp:49`. -/
def setPayload (option : Reader ColumnOption) : Reader ColumnOption := do
  let elementType ← option
  return set elementType

/-- `UdtPayload::Parse`, `column_option.cpp:53`. -/
def udtPayload (option : Reader ColumnOption) : Reader ColumnOption := do
  let keyspace ← Ty.string.read
  let udtName ← Ty.string.read
  let count ← readIntBE .short
  let fields ← .forCount (UInt16.toNat count) (fun fields ↦ do
    let name ← Ty.string.read
    let type ← option
    return fields ++ [(name, type)]) []
  return udt keyspace udtName fields

/-- `TuplePayload::Parse`, `column_option.cpp:65`. -/
def tuplePayload (option : Reader ColumnOption) : Reader ColumnOption := do
  let count ← readIntBE .short
  let elements ← .forCount (UInt16.toNat count) (fun elements ↦ do
    let element ← option
    return elements ++ [element]) []
  return tuple elements

/-- The payload that a type selects, `column_option.cpp:9–33`. -/
def payload (option : Reader ColumnOption) : ColumnType → Reader ColumnOption
  | .custom => customPayload
  | .list => listPayload option
  | .map => mapPayload option
  | .set => setPayload option
  | .udt => udtPayload option
  | .tuple => tuplePayload option
  | .scalar id => return scalar id

/-- `ColumnOption::Parse`, `column_option.cpp:7`. -/
def parse : Nat → Reader ColumnOption
  | 0 => .fail .recursionLimit
  | fuel + 1 => .tick (do
    let type ← readIntBE .short
    payload (parse fuel) (.ofShort type))

/-- Fuel that no buffer of this size uses up: each nested node takes two bytes for its id. -/
def fuelFor (size : Nat) : Nat := size / 2 + 1

mutual

/-- The layout of an option: its id and what the protocol puts behind it. -/
def encode : ColumnOption → List UInt8
  | custom value => toBE 2 0x00 ++ encodeString value
  | list elementType => toBE 2 0x20 ++ elementType.encode
  | map keyType valueType => toBE 2 0x21 ++ (keyType.encode ++ valueType.encode)
  | set elementType => toBE 2 0x22 ++ elementType.encode
  | udt keyspace udtName fields =>
    toBE 2 0x30 ++ (encodeString keyspace ++ (encodeString udtName ++
      (toBE 2 fields.length ++ encodeFields fields)))
  | tuple elements => toBE 2 0x31 ++ (toBE 2 elements.length ++ encodeElements elements)
  | scalar id => toBE 2 id.1.toNat

/-- The named fields of a user type, one after another. -/
def encodeFields : List (List UInt8 × ColumnOption) → List UInt8
  | [] => []
  | (name, type) :: fields => encodeString name ++ type.encode ++ encodeFields fields

/-- The elements of a tuple, one after another. -/
def encodeElements : List ColumnOption → List UInt8
  | [] => []
  | type :: elements => type.encode ++ encodeElements elements

end

mutual

/-- Every name and count in the option fits its two-byte prefix. -/
def Fits : ColumnOption → Prop
  | custom value => value.length ≤ 65535
  | list elementType => elementType.Fits
  | map keyType valueType => keyType.Fits ∧ valueType.Fits
  | set elementType => elementType.Fits
  | udt keyspace udtName fields =>
    keyspace.length ≤ 65535 ∧ udtName.length ≤ 65535 ∧ fields.length ≤ 65535 ∧
      FieldsFit fields
  | tuple elements => elements.length ≤ 65535 ∧ ElementsFit elements
  | scalar _ => True

/-- Every name and type of a field fits. -/
def FieldsFit : List (List UInt8 × ColumnOption) → Prop
  | [] => True
  | (name, type) :: fields => (name.length ≤ 65535 ∧ type.Fits) ∧ FieldsFit fields

/-- Every element type fits. -/
def ElementsFit : List ColumnOption → Prop
  | [] => True
  | type :: elements => type.Fits ∧ ElementsFit elements

end

/-- The fields one after another. -/
theorem encodeFields_eq (fields : List (List UInt8 × ColumnOption)) :
    encodeFields fields = fields.flatMap (fun f ↦ encodeString f.1 ++ f.2.encode) := by
  induction fields with
  | nil => rfl
  | cons f fields ih => rw [encodeFields, ih, List.flatMap_cons]

/-- The elements one after another. -/
theorem encodeElements_eq (elements : List ColumnOption) :
    encodeElements elements = elements.flatMap encode := by
  induction elements with
  | nil => rfl
  | cons e elements ih => rw [encodeElements, ih, List.flatMap_cons]

private theorem code_decodes (type : ColumnType) {bs : List UInt8} {t : ColumnOption} {fuel : Nat}
    (h : Decodes (payload (parse fuel) type) bs t) :
    Decodes (parse (fuel + 1)) (toBE 2 type.code.toNat ++ bs) t := by
  apply Decodes.tick
  apply Decodes.bind (readIntBE_decodes .short type.code)
  rwa [ColumnType.ofShort_code]

private theorem count_decodes (n : Nat) (h : n ≤ 65535) :
    ∃ count : UInt16, count.toNat = n ∧ Decodes (readIntBE .short) (toBE 2 n) count := by
  have hn : IntegralType.short.toBits (LenType.short.cast n) = n := LenType.short.toBits_cast n h
  have hr := readIntBE_decodes .short (LenType.short.cast n)
  rw [hn] at hr
  exact ⟨_, hn, hr⟩

private theorem udtPayload_decodes {option : Reader ColumnOption} (keyspace udtName : List UInt8)
    (fields : List (List UInt8 × ColumnOption)) (hk : keyspace.length ≤ 65535)
    (hu : udtName.length ≤ 65535) (hc : fields.length ≤ 65535)
    (hf : ∀ f ∈ fields, f.1.length ≤ 65535 ∧ Decodes option f.2.encode f.2) :
    Decodes (udtPayload option) (encodeString keyspace ++ (encodeString udtName ++
      (toBE 2 fields.length ++ encodeFields fields))) (udt keyspace udtName fields) := by
  obtain ⟨count, hn, hr⟩ := count_decodes fields.length hc
  apply Decodes.bind (string_decodes keyspace hk)
  apply Decodes.bind (string_decodes udtName hu)
  apply Decodes.bind hr
  have hb : ∀ f ∈ fields, ∀ acc : List (List UInt8 × ColumnOption),
      Decodes (Ty.string.read >>= fun (name : List UInt8) ↦
        option >>= fun type ↦ pure (acc ++ [(name, type)]))
        (encodeString f.1 ++ f.2.encode) (acc ++ [f]) :=
    fun f hm acc ↦ .bind (string_decodes f.1 (hf f hm).1)
      ((hf f hm).2.map (fun type ↦ acc ++ [(f.1, type)]))
  have hl := Decodes.forCount fields [] hb
  rw [foldl_snoc, List.nil_append, ← encodeFields_eq, ← hn] at hl
  exact hl.map (udt keyspace udtName)

private theorem tuplePayload_decodes {option : Reader ColumnOption} (elements : List ColumnOption)
    (hc : elements.length ≤ 65535) (he : ∀ e ∈ elements, Decodes option e.encode e) :
    Decodes (tuplePayload option) (toBE 2 elements.length ++ encodeElements elements)
      (tuple elements) := by
  obtain ⟨count, hn, hr⟩ := count_decodes elements.length hc
  apply Decodes.bind hr
  have hb : ∀ e ∈ elements, ∀ acc : List ColumnOption,
      Decodes (option >>= fun element ↦ pure (acc ++ [element])) e.encode (acc ++ [e]) :=
    fun e hm acc ↦ (he e hm).map (fun element ↦ acc ++ [element])
  have hl := Decodes.forCount elements [] hb
  rw [foldl_snoc, List.nil_append, ← encodeElements_eq, ← hn] at hl
  exact hl.map tuple

/-- Every option has at least its id. -/
theorem two_le_length_encode (t : ColumnOption) : 2 ≤ t.encode.length := by
  cases t <;> simp [encode]

mutual

/-- Parsing recovers every option from its layout, given two bytes of it per unit of fuel. -/
theorem parse_decodes : (t : ColumnOption) → (fuel : Nat) → t.Fits →
    t.encode.length ≤ 2 * fuel → Decodes (parse fuel) t.encode t
  | t, 0, _, hl => by
    have h2 := two_le_length_encode t
    omega
  | custom value, fuel + 1, hf, _ => by
    rw [encode]
    exact code_decodes .custom ((string_decodes value hf).map custom)
  | list elementType, fuel + 1, hf, hl => by
    rw [encode, List.length_append, length_toBE] at hl
    rw [encode]
    exact code_decodes .list ((parse_decodes elementType fuel hf (by omega)).map list)
  | map keyType valueType, fuel + 1, hf, hl => by
    rw [Fits] at hf
    rw [encode, List.length_append, List.length_append, length_toBE] at hl
    rw [encode]
    exact code_decodes .map (.bind (parse_decodes keyType fuel hf.1 (by omega))
      ((parse_decodes valueType fuel hf.2 (by omega)).map (map keyType)))
  | set elementType, fuel + 1, hf, hl => by
    rw [encode, List.length_append, length_toBE] at hl
    rw [encode]
    exact code_decodes .set ((parse_decodes elementType fuel hf (by omega)).map set)
  | udt keyspace udtName fields, fuel + 1, hf, hl => by
    rw [Fits] at hf
    simp only [encode, List.length_append, length_toBE] at hl
    rw [encode]
    exact code_decodes .udt (udtPayload_decodes keyspace udtName fields hf.1 hf.2.1 hf.2.2.1
      (fields_decode fields fuel hf.2.2.2 (by omega)))
  | tuple elements, fuel + 1, hf, hl => by
    rw [Fits] at hf
    simp only [encode, List.length_append, length_toBE] at hl
    rw [encode]
    exact code_decodes .tuple (tuplePayload_decodes elements hf.1
      (elements_decode elements fuel hf.2 (by omega)))
  | scalar id, fuel + 1, _, _ => by
    have h : Decodes (parse (fuel + 1)) (toBE 2 id.1.toNat ++ []) (scalar id) :=
      code_decodes (.scalar id) (.pure (scalar id))
    rw [List.append_nil] at h
    rw [encode]
    exact h

private theorem fields_decode : (fields : List (List UInt8 × ColumnOption)) → (fuel : Nat) →
    FieldsFit fields → (encodeFields fields).length ≤ 2 * fuel →
    ∀ f ∈ fields, f.1.length ≤ 65535 ∧ Decodes (parse fuel) f.2.encode f.2
  | [], _, _, _ => by simp
  | (name, type) :: fields, fuel, hf, hl => by
    rw [FieldsFit] at hf
    rw [encodeFields, List.length_append, List.length_append] at hl
    have ht := parse_decodes type fuel hf.1.2 (by omega)
    intro f hm
    rcases List.mem_cons.mp hm with rfl | hm
    · exact ⟨hf.1.1, ht⟩
    · exact fields_decode fields fuel hf.2 (by omega) f hm

private theorem elements_decode : (elements : List ColumnOption) → (fuel : Nat) →
    ElementsFit elements → (encodeElements elements).length ≤ 2 * fuel →
    ∀ e ∈ elements, Decodes (parse fuel) e.encode e
  | [], _, _, _ => by simp
  | type :: elements, fuel, hf, hl => by
    rw [ElementsFit] at hf
    rw [encodeElements, List.length_append] at hl
    have ht := parse_decodes type fuel hf.1 (by omega)
    intro e hm
    rcases List.mem_cons.mp hm with rfl | hm
    · exact ht
    · exact elements_decode elements fuel hf.2 (by omega) e hm

end

end ColumnOption
end CassandraDriver.Protocol
