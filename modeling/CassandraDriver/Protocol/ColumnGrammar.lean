import CassandraDriver.Io.Grammar
import CassandraDriver.Protocol.ColumnOption

/-!
# The grammar of column types

Library `Protocol`. `ColumnOption::Parse` accepts inside its buffer the layouts of the column
types and nothing else, whatever the nesting.
-/

namespace CassandraDriver.Protocol
open CassandraDriver.Lib CassandraDriver.Lib.Grammar CassandraDriver.Lib.Program CassandraDriver.Io

/-- A string that fits its prefix. -/
def StringFits (s : List UInt8) : Prop := s.length ≤ 65535

/-- A [string] is read from its layout. -/
theorem string_recognizes {size : Nat} :
    @Recognizes Exception (List UInt8) size Ty.string.read (ofLayout StringFits encodeString) :=
  stringBinaryParser_recognizes .short

namespace ColumnOption

/-- The layout of a column type whose names and counts fit. -/
def Means : Grammar ColumnOption := ofLayout Fits encode

/-- Column types that stand inside each other on so many levels at most. -/
def NestsWithin : Nat → ColumnOption → Prop
  | 0, _ => False
  | _ + 1, custom _ => True
  | fuel + 1, list elementType => elementType.NestsWithin fuel
  | fuel + 1, map keyType valueType => keyType.NestsWithin fuel ∧ valueType.NestsWithin fuel
  | fuel + 1, set elementType => elementType.NestsWithin fuel
  | fuel + 1, udt _ _ fields => ∀ f ∈ fields, f.2.NestsWithin fuel
  | fuel + 1, tuple elements => ∀ e ∈ elements, e.NestsWithin fuel
  | _ + 1, scalar _ => True

/-- Each level takes two bytes. -/
theorem nestsWithin_of_length_le {fuel : Nat} {t : ColumnOption}
    (h : t.encode.length ≤ 2 * fuel) : t.NestsWithin fuel := by
  induction fuel generalizing t with
  | zero =>
    have h2 := two_le_length_encode t
    omega
  | succ fuel ih =>
    cases t with
    | custom value => trivial
    | list elementType =>
      rw [encode, List.length_append, length_toBE] at h
      exact ih (by omega)
    | map keyType valueType =>
      rw [encode, List.length_append, List.length_append, length_toBE] at h
      exact ⟨ih (by omega), ih (by omega)⟩
    | set elementType =>
      rw [encode, List.length_append, length_toBE] at h
      exact ih (by omega)
    | udt keyspace udtName fields =>
      intro f hf
      simp only [encode, List.length_append, length_toBE, encodeFields_eq] at h
      have hle := mem_length_le_flatMap (fun f ↦ encodeString f.1 ++ f.2.encode) fields f hf
      rw [List.length_append] at hle
      exact ih (by omega)
    | tuple elements =>
      intro e he
      simp only [encode, List.length_append, length_toBE, encodeElements_eq] at h
      have hle := mem_length_le_flatMap encode elements e he
      exact ih (by omega)
    | scalar id => trivial

private theorem fieldsFit_iff (fields : List (List UInt8 × ColumnOption)) :
    FieldsFit fields ↔ ∀ f ∈ fields, f.1.length ≤ 65535 ∧ f.2.Fits := by
  induction fields with
  | nil => simp [FieldsFit]
  | cons f fields ih => rw [FieldsFit, ih, List.forall_mem_cons]

private theorem elementsFit_iff (elements : List ColumnOption) :
    ElementsFit elements ↔ ∀ e ∈ elements, e.Fits := by
  induction elements with
  | nil => simp [ElementsFit]
  | cons e elements ih => rw [ElementsFit, ih, List.forall_mem_cons]

/-- The type that selects the payload. -/
def type : ColumnOption → ColumnType
  | custom _ => .custom
  | list _ => .list
  | map _ _ => .map
  | set _ => .set
  | udt _ _ _ => .udt
  | tuple _ => .tuple
  | scalar id => .scalar id

/-- Column types that fit, within some levels. -/
def FitsWithin (fuel : Nat) (t : ColumnOption) : Prop := t.Fits ∧ t.NestsWithin fuel

/-- What follows the id of a type. -/
def MeansPayload (fuel : Nat) (type : ColumnType) : Grammar ColumnOption := fun bs t ↦
  t.type = type ∧ t.FitsWithin (fuel + 1) ∧ toBE 2 type.code.toNat ++ bs = t.encode

section
variable {size fuel : Nat} {option : Reader ColumnOption}

private theorem customPayload_recognizes :
    Recognizes size customPayload (MeansPayload fuel .custom) := by
  refine (string_recognizes.map custom).congr fun bs t _ ↦ ?_
  constructor
  · rintro ⟨value, ⟨hvalue, rfl⟩, rfl⟩
    exact ⟨rfl, ⟨hvalue, trivial⟩, rfl⟩
  · rintro ⟨htype, ⟨hfits, -⟩, hbs⟩
    cases t with
    | custom value => exact ⟨value, ⟨hfits, List.append_cancel_left hbs⟩, rfl⟩
    | _ => cases htype

private theorem counted_recognizes {α : Type} {G : Grammar α} {body : List α → Reader (List α)}
    (make : List α → ColumnOption)
    (hb : ∀ xs, Recognizes size (body xs) (fun bs ys ↦ ∃ x, G bs x ∧ ys = xs ++ [x])) :
    Recognizes size (do
      let count ← readIntBE .short
      let xs ← Program.forCount (UInt16.toNat count) body []
      return make xs) (fun bs t ↦ ∃ xs, LenType.short.MeansItems G bs xs ∧ t = make xs) := by
  refine ((readIntBE_recognizes .short).bind fun count ↦
    (Recognizes.forCount hb (UInt16.toNat count) []).map make).congr fun bs t _ ↦ ?_
  constructor
  · rintro ⟨head, items, rfl, count, hhead, _, ⟨xs, hlength, hitems, rfl⟩, rfl⟩
    obtain rfl := (IntegralType.means_iff (by decide)).mp hhead
    rw [foldl_snoc]
    refine ⟨xs, ⟨?_, items, ?_, hitems⟩, rfl⟩
    · rw [hlength]
      exact Nat.le_of_lt_succ (UInt16.toNat_lt count)
    · rw [hlength]
      rfl
  · rintro ⟨xs, ⟨hlength, items, rfl, hitems⟩, rfl⟩
    have hcount : (UInt16.ofNat xs.length).toNat = xs.length :=
      UInt16.toNat_ofNat_of_lt' (Nat.lt_succ_of_le hlength)
    refine ⟨_, items, rfl, UInt16.ofNat xs.length,
      (IntegralType.means_iff (by decide)).mpr ?_, xs, ⟨xs, hcount.symm, hitems, ?_⟩, rfl⟩
    · exact congrArg (toBE 2) hcount.symm
    · exact (foldl_snoc xs []).symm

variable (ho : Recognizes size option (ofLayout (FitsWithin fuel) encode))
include ho

private theorem listPayload_recognizes :
    Recognizes size (listPayload option) (MeansPayload fuel .list) := by
  refine (ho.map list).congr fun bs t _ ↦ ?_
  constructor
  · rintro ⟨elementType, ⟨helement, rfl⟩, rfl⟩
    exact ⟨rfl, helement, rfl⟩
  · rintro ⟨htype, hfits, hbs⟩
    cases t with
    | list elementType => exact ⟨elementType, ⟨hfits, List.append_cancel_left hbs⟩, rfl⟩
    | _ => cases htype

private theorem setPayload_recognizes :
    Recognizes size (setPayload option) (MeansPayload fuel .set) := by
  refine (ho.map set).congr fun bs t _ ↦ ?_
  constructor
  · rintro ⟨elementType, ⟨helement, rfl⟩, rfl⟩
    exact ⟨rfl, helement, rfl⟩
  · rintro ⟨htype, hfits, hbs⟩
    cases t with
    | set elementType => exact ⟨elementType, ⟨hfits, List.append_cancel_left hbs⟩, rfl⟩
    | _ => cases htype

private theorem mapPayload_recognizes :
    Recognizes size (mapPayload option) (MeansPayload fuel .map) := by
  have hpair := ho.pair map ho
  rw [pair_ofLayout] at hpair
  refine hpair.congr fun bs t _ ↦ ?_
  constructor
  · rintro ⟨⟨keyType, valueType⟩, ⟨⟨hkey, hvalue⟩, rfl⟩, rfl⟩
    exact ⟨rfl, ⟨⟨hkey.1, hvalue.1⟩, hkey.2, hvalue.2⟩, rfl⟩
  · rintro ⟨htype, ⟨hfits, hnests⟩, hbs⟩
    cases t with
    | map keyType valueType =>
      exact ⟨(keyType, valueType), ⟨⟨⟨hfits.1, hnests.1⟩, hfits.2, hnests.2⟩,
        List.append_cancel_left hbs⟩, rfl⟩
    | _ => cases htype

private theorem tuplePayload_recognizes :
    Recognizes size (tuplePayload option) (MeansPayload fuel .tuple) := by
  refine (counted_recognizes tuple fun elements ↦ ho.map (elements ++ [·])).congr fun bs t _ ↦ ?_
  constructor
  · rintro ⟨elements, ⟨hlength, items, rfl, hitems⟩, rfl⟩
    obtain ⟨helements, rfl⟩ := each_ofLayout.mp hitems
    refine ⟨rfl, ⟨⟨hlength, (elementsFit_iff _).mpr fun e he ↦ (helements e he).1⟩,
      fun e he ↦ (helements e he).2⟩, ?_⟩
    rw [encode, encodeElements_eq]
    rfl
  · rintro ⟨htype, ⟨hfits, hnests⟩, hbs⟩
    cases t with
    | tuple elements =>
      rw [encode, encodeElements_eq] at hbs
      have hfit := (elementsFit_iff elements).mp hfits.2
      exact ⟨elements, ⟨hfits.1, _, List.append_cancel_left hbs,
        each_ofLayout.mpr ⟨fun e he ↦ ⟨hfit e he, hnests e he⟩, rfl⟩⟩, rfl⟩
    | _ => cases htype

private theorem udtPayload_recognizes :
    Recognizes size (udtPayload option) (MeansPayload fuel .udt) := by
  have hfield : ∀ fields : List (List UInt8 × ColumnOption), Recognizes size (do
      let name : List UInt8 ← Ty.string.read
      let type ← option
      return fields ++ [(name, type)]) _ := fun fields ↦
    string_recognizes.pair (fun name type ↦ fields ++ [(name, type)]) ho
  simp only [pair_ofLayout] at hfield
  refine (string_recognizes.bind fun keyspace ↦ string_recognizes.bind fun udtName ↦
    counted_recognizes (udt keyspace udtName) hfield).congr fun bs t _ ↦ ?_
  constructor
  · rintro ⟨_, _, rfl, keyspace, ⟨hkeyspace, rfl⟩, _, _, rfl, udtName, ⟨hname, rfl⟩, fields,
      ⟨hlength, items, rfl, hitems⟩, rfl⟩
    obtain ⟨hfields, rfl⟩ := each_ofLayout.mp hitems
    refine ⟨rfl, ⟨⟨hkeyspace, hname, hlength, (fieldsFit_iff _).mpr fun f hf ↦
      ⟨(hfields f hf).1, (hfields f hf).2.1⟩⟩, fun f hf ↦ (hfields f hf).2.2⟩, ?_⟩
    rw [encode, encodeFields_eq]
    rfl
  · rintro ⟨htype, ⟨hfits, hnests⟩, hbs⟩
    cases t with
    | udt keyspace udtName fields =>
      rw [encode, encodeFields_eq] at hbs
      obtain ⟨hkeyspace, hname, hlength, hfit⟩ := hfits
      have hfit' := (fieldsFit_iff fields).mp hfit
      exact ⟨_, _, List.append_cancel_left hbs, keyspace, ⟨hkeyspace, rfl⟩, _, _, rfl, udtName,
        ⟨hname, rfl⟩, fields, ⟨hlength, _, rfl, each_ofLayout.mpr
          ⟨fun f hf ↦ ⟨(hfit' f hf).1, (hfit' f hf).2, hnests f hf⟩, rfl⟩⟩, rfl⟩
    | _ => cases htype

private theorem payload_recognizes (type : ColumnType) :
    Recognizes size (payload option type) (MeansPayload fuel type) := by
  cases type with
  | custom => exact customPayload_recognizes
  | list => exact listPayload_recognizes ho
  | map => exact mapPayload_recognizes ho
  | set => exact setPayload_recognizes ho
  | udt => exact udtPayload_recognizes ho
  | tuple => exact tuplePayload_recognizes ho
  | scalar id =>
    refine (Recognizes.pure _).congr fun bs t _ ↦ ?_
    constructor
    · rintro ⟨rfl, rfl⟩
      exact ⟨rfl, ⟨trivial, trivial⟩, List.append_nil _⟩
    · rintro ⟨htype, -, hbs⟩
      cases t with
      | scalar id' =>
        cases htype
        exact ⟨List.self_eq_append_right.mp hbs.symm, rfl⟩
      | _ => cases htype

end

private theorem encode_eq (t : ColumnOption) : ∃ bs, t.encode = toBE 2 t.type.code.toNat ++ bs := by
  cases t with
  | scalar id => exact ⟨[], (List.append_nil _).symm⟩
  | _ => exact ⟨_, rfl⟩

private theorem code_ofShort (id : UInt16) : (ColumnType.ofShort id).code = id := by
  unfold ColumnType.ofShort
  split
  · rfl
  · next hscalar =>
    unfold IsScalar at hscalar
    split_ifs <;> simp_all [ColumnType.code]

private theorem parse_recognizes {size : Nat} (fuel : Nat) :
    Recognizes size (parse fuel) (ofLayout (FitsWithin fuel) encode) := by
  induction fuel with
  | zero =>
    refine (Recognizes.fail _).congr fun bs t _ ↦ ⟨False.elim, ?_⟩
    rintro ⟨⟨-, hnests⟩, -⟩
    cases t <;> exact hnests.elim
  | succ fuel ih =>
    refine ((readIntBE_recognizes .short).bind fun id ↦
      payload_recognizes ih (.ofShort id)).tick.congr fun bs t _ ↦ ?_
    constructor
    · rintro ⟨head, back, rfl, id, hhead, htype, hfits, hbs⟩
      obtain rfl := (IntegralType.means_iff (by decide)).mp hhead
      exact ⟨hfits, (congrArg (fun n : UInt16 ↦ toBE 2 n.toNat ++ back)
        (code_ofShort id)).symm.trans hbs⟩
    · rintro ⟨hfits, rfl⟩
      obtain ⟨bs, hbs⟩ := t.encode_eq
      refine ⟨_, bs, hbs, t.type.code, (IntegralType.means_iff (by decide)).mpr rfl, ?_⟩
      change MeansPayload fuel (.ofShort t.type.code) bs t
      rw [ColumnType.ofShort_code]
      exact ⟨rfl, hfits, hbs.symm⟩

/-- `ColumnOption::Parse` accepts the layouts of the column types and nothing else: the fuel is
never what stops it. -/
theorem recognizes (size : Nat) : Recognizes size (parse (fuelFor size)) Means := by
  refine (parse_recognizes (fuelFor size)).congr fun bs t hsize ↦ ?_
  refine ⟨fun h ↦ ⟨h.1.1, h.2⟩, fun h ↦ ⟨⟨h.1, nestsWithin_of_length_le ?_⟩, h.2⟩⟩
  rw [← h.2]
  unfold fuelFor
  omega

/-- A column type is accepted from a position on exactly if its layout stands there. -/
theorem parse_accepts_iff (v : View) {o : Nat} (ho : o ≤ v.data.length) (t : ColumnOption)
    (o' : Nat) :
    Accepts v (parse (fuelFor v.data.length)) o t o' ↔
      t.Fits ∧ o' = o + t.encode.length ∧ ∃ post, v.data.drop o = t.encode ++ post := by
  rw [(recognizes v.data.length).accepts_segment (Nat.le_refl _) ho]
  constructor
  · rintro ⟨_, post, hdrop, ho', hfits, rfl⟩
    exact ⟨hfits, ho', post, hdrop⟩
  · rintro ⟨hfits, ho', post, hdrop⟩
    exact ⟨_, post, hdrop, ho', hfits, rfl⟩

/-- Behind two other bytes, a list of a type that the driver does not know, with a byte behind. -/
theorem parse_accepts_iff_listOfCustom :
    Accepts ⟨[7, 7, 0, 32, 0, 0, 0, 1, 120, 9], fun _ ↦ 0⟩ (parse (fuelFor 10)) 2
      (list (custom [120])) 9 :=
  (parse_accepts_iff ⟨[7, 7, 0, 32, 0, 0, 0, 1, 120, 9], fun _ ↦ 0⟩ (by decide) _ _).mpr
    ⟨by simp [Fits], by decide, [9], by decide⟩

end ColumnOption
end CassandraDriver.Protocol
