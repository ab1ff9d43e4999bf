import CassandraDriver.Io.ReadBounds
import CassandraDriver.Protocol.ResponseMessage

/-!
# Memory safety of the response parsers

Library `Protocol`. The layouts of the response bodies, and every typed read and every
`DoParseBody` under one notion: the run copies only bytes of the buffer, whether it throws or
returns. A copy that leaves the buffer is undefined behaviour of the code, also where a later
check would throw. Column types never spend their fuel, so a failing run of the model is a
throwing run of the code.
-/

namespace CassandraDriver.Protocol
open CassandraDriver.Lib CassandraDriver.Lib.Program CassandraDriver.Io

section Limit
variable {v : View} {e : Exception} (he : e.Foreign)
include he

private theorem payload_avoids {option : Reader ColumnOption} {lo : Nat} (type : ColumnType)
    (h : Avoids v e lo option) :
    Avoids v e lo (ColumnOption.payload option type) := by
  cases type with
  | custom => exact (Ty.read_avoids he .string).bind (fun _ ↦ Avoids.pure _)
  | list => exact h.bind (fun _ ↦ Avoids.pure _)
  | map => exact h.bind (fun _ ↦ h.bind (fun _ ↦ Avoids.pure _))
  | set => exact h.bind (fun _ ↦ Avoids.pure _)
  | udt =>
    apply (Ty.read_avoids he .string).bind
    intro keyspace
    apply (Ty.read_avoids he .string).bind
    intro udtName
    apply (readIntBE_avoids he .short).bind
    intro count
    have hb : ∀ fields : List (List UInt8 × ColumnOption), Avoids v e lo (do
        let name : List UInt8 ← Ty.string.read
        let type ← option
        return fields ++ [(name, type)]) :=
      fun _ ↦ (Ty.read_avoids he .string).bind (fun _ ↦ h.bind (fun _ ↦ Avoids.pure _))
    exact (Avoids.forCount hb _ _).bind (fun _ ↦ Avoids.pure _)
  | tuple =>
    apply (readIntBE_avoids he .short).bind
    intro count
    have hb : ∀ elements : List ColumnOption, Avoids v e lo (do
        let element ← option
        return elements ++ [element]) :=
      fun _ ↦ h.bind (fun _ ↦ Avoids.pure _)
    exact (Avoids.forCount hb _ _).bind (fun _ ↦ Avoids.pure _)
  | scalar id => exact Avoids.pure _

/-- Fuel for two bytes each of what remains is never spent: a node reads its id first. -/
theorem ColumnOption.parse_avoids (fuel lo : Nat) (hf : 0 < fuel)
    (hl : v.data.length < lo + 2 * fuel) : Avoids v e lo (parse fuel) := by
  induction fuel generalizing lo with
  | zero => omega
  | succ fuel ih =>
    rw [parse]
    apply Avoids.tick
    apply readIntBE_bind_avoids he .short
    intro hs type
    change lo + 2 ≤ v.data.length at hs
    apply payload_avoids he
    exact ih (lo + 2) (by omega) (by omega)

private theorem columnOption_avoids {lo : Nat} :
    Avoids v e lo (ColumnOption.parse (ColumnOption.fuelFor v.data.length)) := by
  apply ColumnOption.parse_avoids he
  · rw [ColumnOption.fuelFor]
    omega
  · rw [ColumnOption.fuelFor]
    omega

variable {lo : Nat}

private theorem tableSpec_avoids (present : Bool) :
    Avoids v e lo (parseTableSpec present) := by
  cases present with
  | false => exact Avoids.pure _
  | true =>
    exact (Ty.read_avoids he .string).bind (fun _ ↦ (Ty.read_avoids he .string).bind
      (fun _ ↦ Avoids.pure _))

omit he in
private theorem parseTimes_avoids {α : Type} (count : Int32) {item : Reader α}
    (h : Avoids v e lo item) :
    Avoids v e lo (parseTimes count item) :=
  Avoids.forCount (fun _ ↦ h.bind (fun _ ↦ Avoids.pure _)) _ _

private theorem reserve_avoids (count : Int32) :
    Avoids v e lo (reserve count) := by
  rw [reserve]
  split
  · exact Avoids.fail he.2.symm
  · exact Avoids.pure _

private theorem resultColumn_avoids (global : Bool) :
    Avoids v e lo (ResultColumn.parse v.data.length global) :=
  (tableSpec_avoids he _).bind (fun _ ↦ (Ty.read_avoids he .string).bind
    (fun _ ↦ (columnOption_avoids he).bind (fun _ ↦ Avoids.pure _)))

private theorem paging_avoids (flags : Int32) :
    Avoids v e lo (RowKind.parsePaging flags) := by
  rw [RowKind.parsePaging]
  cases hasFlag flags kHasMorePages with
  | true => exact Ty.read_avoids he .bytes
  | false => exact Avoids.pure []

private theorem metadata_avoids (flags columnsCount : Int32) :
    Avoids v e lo (RowKind.parseMetadata v.data.length flags columnsCount) := by
  rw [RowKind.parseMetadata]
  split
  · exact Avoids.pure _
  · exact (tableSpec_avoids he _).bind (fun _ ↦ (reserve_avoids he _).bind
      (fun _ ↦ (parseTimes_avoids _ (resultColumn_avoids he _)).bind (fun _ ↦ Avoids.pure _)))

private theorem rowKind_avoids :
    Avoids v e lo (RowKind.parse v.data.length) := by
  apply (readIntBE_avoids he .int).bind
  intro flags
  apply (readIntBE_avoids he .int).bind
  intro columnsCount
  apply (paging_avoids he flags).bind
  intro pagingState
  apply (metadata_avoids he flags columnsCount).bind
  intro metadata
  apply (readIntBE_avoids he .int).bind
  intro rowsCount
  apply (reserve_avoids he rowsCount).bind
  intro _
  exact (parseTimes_avoids _ (parseTimes_avoids _ (Ty.read_avoids he .bytes))).bind
    (fun _ ↦ Avoids.pure _)

private theorem preparedKind_avoids :
    Avoids v e lo (PreparedKind.parse v.data.length) :=
  (Ty.read_avoids he .shortBytes).bind (fun _ ↦ (readIntBE_avoids he .int).bind
    (fun _ ↦ (readIntBE_avoids he .int).bind (fun _ ↦ (Ty.read_avoids he _).bind
      (fun _ ↦ (tableSpec_avoids he _).bind
        (fun _ ↦ (parseTimes_avoids _ (resultColumn_avoids he _)).bind (fun _ ↦ Avoids.pure _))))))

private theorem schemaChange_avoids : Avoids v e lo SchemaChange.parse := by
  apply (Ty.read_avoids he .string).bind
  intro changeType
  apply (Ty.read_avoids he .string).bind
  intro target
  split
  · exact (Ty.read_avoids he .string).bind (fun _ ↦ Avoids.pure _)
  · split
    · exact (Ty.read_avoids he .string).bind (fun _ ↦ (Ty.read_avoids he .string).bind
        (fun _ ↦ Avoids.pure _))
    · split
      · exact (Ty.read_avoids he .string).bind (fun _ ↦ (Ty.read_avoids he .string).bind
          (fun _ ↦ (Ty.read_avoids he .stringList).bind (fun _ ↦ Avoids.pure _)))
      · exact Avoids.pure _

private theorem resultPayload_avoids (kind : Int32) :
    Avoids v e lo (ResultPayload.parse v.data.length kind) := by
  rw [ResultPayload.parse]
  split
  · exact (rowKind_avoids he).bind (fun _ ↦ Avoids.pure _)
  · split
    · exact (Ty.read_avoids he .string).bind (fun _ ↦ Avoids.pure _)
    · split
      · exact (preparedKind_avoids he).bind (fun _ ↦ Avoids.pure _)
      · split
        · exact (schemaChange_avoids he).bind (fun _ ↦ Avoids.pure _)
        · exact Avoids.pure _

/-- A response parser fails with an exception of reading code only. -/
theorem ResponseMessage.bodyReader_avoids (cls : ResponseClass) :
    Avoids v e lo (bodyReader v.data.length cls) := by
  cases cls with
  | error =>
    exact (readIntBE_avoids he .int).bind (fun _ ↦ (Ty.read_avoids he .string).bind
      (fun _ ↦ Avoids.pure _))
  | ready => exact Avoids.pure _
  | authentificate => exact (Ty.read_avoids he .string).bind (fun _ ↦ Avoids.pure _)
  | support => exact (Ty.read_avoids he .stringMultiMap).bind (fun _ ↦ Avoids.pure _)
  | result =>
    exact (readIntBE_avoids he .int).bind (fun _ ↦ (resultPayload_avoids he _).bind
      (fun _ ↦ Avoids.pure _))

end Limit

/-- The payload of a column type on the wire. -/
def ColumnOption.payloadLayout (option : Layout) : ColumnType → Layout
  | .custom => Ty.string.layout
  | .list => option
  | .map => .append option option
  | .set => option
  | .udt => .append Ty.string.layout (.append Ty.string.layout
      (IntegralType.short.layout (fun count ↦
        .times (UInt16.toNat count) (.append Ty.string.layout option))))
  | .tuple => IntegralType.short.layout (fun count ↦ .times (UInt16.toNat count) option)
  | .scalar _ => .nothing

/-- A column type on the wire, with so many levels at most. -/
def ColumnOption.layout : Nat → Layout
  | 0 => .stop
  | fuel + 1 => IntegralType.short.layout (fun type ↦
      payloadLayout (layout fuel) (.ofShort type))

/-- Key space and table, where they are present. -/
def tableSpecLayout (present : Bool) : Layout :=
  if present then .append Ty.string.layout Ty.string.layout else .nothing

/-- A column of a result. -/
def ResultColumn.layout (size : Nat) (globalTableSpecEnabled : Bool) : Layout :=
  .append (tableSpecLayout (!globalTableSpecEnabled))
    (.append Ty.string.layout (ColumnOption.layout (ColumnOption.fuelFor size)))

/-- A count that must not be negative. -/
def reserveLayout (count : Int32) : Layout := if count.toInt < 0 then .stop else .nothing

/-- The metadata of rows. -/
def RowKind.metadataLayout (size : Nat) (flags columnsCount : Int32) : Layout :=
  if hasFlag flags kNoMetadata then .nothing
  else .append (tableSpecLayout (hasFlag flags kGlobalTableSpec))
    (.append (reserveLayout columnsCount) (.times columnsCount.toInt.toNat
      (ResultColumn.layout size (hasFlag flags kGlobalTableSpec))))

/-- A result of kind rows: flags, column count, paging state, metadata, and the cells of the
announced number of rows. -/
def RowKind.layout (size : Nat) : Layout :=
  IntegralType.int.layout (fun flags ↦ IntegralType.int.layout (fun columnsCount ↦
    .append (if hasFlag flags kHasMorePages then Ty.bytes.layout else .nothing)
      (.append (metadataLayout size flags columnsCount)
        (IntegralType.int.layout (fun rowsCount ↦ .append (reserveLayout rowsCount)
          (.times (Int32.toInt rowsCount).toNat
            (.times (Int32.toInt columnsCount).toNat Ty.bytes.layout)))))))

/-- A result of kind prepared, up to its columns. -/
def PreparedKind.layout (size : Nat) : Layout :=
  .append Ty.shortBytes.layout
    (IntegralType.int.layout (fun flags ↦ IntegralType.int.layout (fun columnCount ↦
      .append (Ty.sequence (.integral .short)).layout
        (.append (tableSpecLayout (hasFlag flags kGlobalTableSpec))
          (.times (Int32.toInt columnCount).toNat
            (ResultColumn.layout size (hasFlag flags kGlobalTableSpec)))))))

/-- A schema change: the change type and the target select the options. -/
def SchemaChange.layout : Layout :=
  LenType.short.stringLayout (fun changeType ↦ LenType.short.stringLayout (fun target ↦
    if target = utf8 "KEYSPACE" then Ty.string.layout
    else if target = utf8 "TABLE" ∨ target = utf8 "TYPE" then
      .append Ty.string.layout Ty.string.layout
    else if changeType = utf8 "FUNCTION" ∨ target = utf8 "AGGREGATE" then
      .append Ty.string.layout (.append Ty.string.layout Ty.stringList.layout)
    else .nothing))

/-- What a result kind is followed by. -/
def ResultPayload.layout (size : Nat) (kind : Int32) : Layout :=
  if kind = 0x0002 then RowKind.layout size
  else if kind = 0x0003 then Ty.string.layout
  else if kind = 0x0004 then PreparedKind.layout size
  else if kind = 0x0005 then SchemaChange.layout
  else .nothing

/-- The body of a response of a class, in a buffer of the given size. -/
def ResponseClass.layout (size : Nat) : ResponseClass → Layout
  | .error => IntegralType.int.layout (fun _ ↦ Ty.string.layout)
  | .ready => .nothing
  | .authentificate => Ty.string.layout
  | .support => Ty.stringMultiMap.layout
  | .result => IntegralType.int.layout (ResultPayload.layout size)

section Follows
variable {v : View}

private theorem payload_follows {option : Reader ColumnOption} {l : Layout} (type : ColumnType)
    (h : Follows v option l) :
    Follows v (ColumnOption.payload option type) (ColumnOption.payloadLayout l type) := by
  cases type with
  | custom => exact (Ty.read_follows .string).map _
  | list => exact h.map _
  | map => exact h.bind (fun _ ↦ h.map _)
  | set => exact h.map _
  | udt =>
    refine (Ty.read_follows .string).bind (fun _ ↦ (Ty.read_follows .string).bind (fun _ ↦ ?_))
    refine readIntBE_follows .short (fun count ↦ Follows.map _ ?_)
    exact Follows.forCount (fun _ ↦ (Ty.read_follows .string).bind (fun _ ↦ h.map _)) _ _
  | tuple =>
    have hloop : ∀ count : UInt16, Follows v _ (.times count.toNat l) := fun count ↦
      Follows.forCount (fun elements ↦ h.map (fun element ↦ elements ++ [element])) count.toNat []
    exact readIntBE_follows .short (fun count ↦ (hloop count).map _)
  | scalar id => exact Follows.pure _

private theorem ColumnOption.parse_follows (fuel : Nat) : Follows v (parse fuel) (layout fuel) := by
  induction fuel with
  | zero => exact Follows.fail _
  | succ fuel ih =>
    exact Follows.tick (readIntBE_follows .short (fun type ↦ payload_follows _ ih))

private theorem tableSpec_follows (present : Bool) :
    Follows v (parseTableSpec present) (tableSpecLayout present) := by
  cases present with
  | false => exact Follows.pure _
  | true => exact (Ty.read_follows .string).bind (fun _ ↦ (Ty.read_follows .string).map _)

private theorem resultColumn_follows (size : Nat) (global : Bool) :
    Follows v (ResultColumn.parse size global) (ResultColumn.layout size global) := by
  refine (tableSpec_follows _).bind (fun _ ↦ (Ty.read_follows .string).bind (fun _ ↦ ?_))
  exact (ColumnOption.parse_follows _).map _

private theorem reserve_follows (count : Int32) :
    Follows v (reserve count) (reserveLayout count) := by
  unfold reserve reserveLayout
  split
  · exact Follows.fail _
  · exact Follows.pure ()

private theorem parseTimes_follows {α : Type} {item : Reader α} {l : Layout} (count : Int32)
    (h : Follows v item l) :
    Follows v (parseTimes count item) (.times count.toInt.toNat l) :=
  Follows.forCount (fun _ ↦ h.map _) _ _

/-- Metadata is read as its layout says. -/
theorem metadata_follows (size : Nat) (flags columnsCount : Int32) :
    Follows v (RowKind.parseMetadata size flags columnsCount)
      (RowKind.metadataLayout size flags columnsCount) := by
  unfold RowKind.parseMetadata RowKind.metadataLayout
  split
  · exact Follows.pure _
  · refine (tableSpec_follows _).bind (fun _ ↦ (reserve_follows _).bind (fun _ ↦ ?_))
    exact (parseTimes_follows _ (resultColumn_follows _ _)).map _

/-- A paging state is read as its layout says, where it is present. -/
theorem paging_follows (flags : Int32) : Follows v (RowKind.parsePaging flags)
    (if hasFlag flags kHasMorePages then Ty.bytes.layout else .nothing) := by
  unfold RowKind.parsePaging
  cases hasFlag flags kHasMorePages with
  | true => exact Ty.read_follows .bytes
  | false => exact Follows.pure []

private theorem rowKind_follows (size : Nat) :
    Follows v (RowKind.parse size) (RowKind.layout size) := by
  refine readIntBE_follows .int (fun flags ↦ readIntBE_follows .int (fun columnsCount ↦ ?_))
  refine (paging_follows _).bind (fun _ ↦ (metadata_follows _ _ _).bind (fun _ ↦ ?_))
  refine readIntBE_follows .int (fun rowsCount ↦ (reserve_follows _).bind (fun _ ↦ ?_))
  exact (parseTimes_follows _ (parseTimes_follows _ (Ty.read_follows .bytes))).map _

private theorem preparedKind_follows (size : Nat) :
    Follows v (PreparedKind.parse size) (PreparedKind.layout size) := by
  refine (Ty.read_follows .shortBytes).bind (fun _ ↦ readIntBE_follows .int (fun flags ↦ ?_))
  refine readIntBE_follows .int (fun columnCount ↦ (Ty.read_follows _).bind (fun _ ↦ ?_))
  refine (tableSpec_follows _).bind (fun _ ↦ ?_)
  exact (parseTimes_follows _ (resultColumn_follows _ _)).map _

private theorem schemaChange_follows : Follows v SchemaChange.parse SchemaChange.layout := by
  refine stringBinaryParser_follows .short (fun changeType ↦ ?_)
  refine stringBinaryParser_follows .short (fun target ↦ ?_)
  split
  · exact (Ty.read_follows .string).map _
  · split
    · exact (Ty.read_follows .string).bind (fun _ ↦ (Ty.read_follows .string).map _)
    · split
      · exact (Ty.read_follows .string).bind (fun _ ↦ (Ty.read_follows .string).bind
          (fun _ ↦ (Ty.read_follows .stringList).map _))
      · exact Follows.pure _

private theorem resultPayload_follows (size : Nat) (kind : Int32) :
    Follows v (ResultPayload.parse size kind) (ResultPayload.layout size kind) := by
  unfold ResultPayload.parse ResultPayload.layout
  split
  · exact (rowKind_follows size).map _
  · split
    · exact (Ty.read_follows .string).map _
    · split
      · exact (preparedKind_follows size).map _
      · split
        · exact schemaChange_follows.map _
        · exact Follows.pure _

/-- Every `DoParseBody` follows the layout of its class. -/
theorem ResponseMessage.bodyReader_follows (size : Nat) (cls : ResponseClass) :
    Follows v (bodyReader size cls) (cls.layout size) := by
  cases cls with
  | error => exact readIntBE_follows .int (fun _ ↦ (Ty.read_follows .string).map _)
  | ready => exact Follows.pure _
  | authentificate => exact (Ty.read_follows .string).map _
  | support => exact (Ty.read_follows .stringMultiMap).map _
  | result => exact readIntBE_follows .int (fun kind ↦ (resultPayload_follows size kind).map _)

end Follows

/-- The reads of the driver: a typed value, or the body of a response. -/
inductive Readable
  | value (t : Ty)
  | body (cls : ResponseClass)

namespace Readable

/-- What is read. -/
def Out : Readable → Type
  | value t => t.Val
  | body _ => ResponseMessage

/-- `Read<T>` or `DoParseBody` for a buffer of the given size. -/
def reader (size : Nat) : (r : Readable) → Reader r.Out
  | value t => t.read
  | body cls => ResponseMessage.bodyReader size cls

/-- What is to be read, as it lies on the wire. -/
def layout (size : Nat) : Readable → Layout
  | value t => t.layout
  | body cls => cls.layout size

end Readable

/-- From offset `o` the read copies only positions below the buffer size, and it throws an
exception of the code, or returns with the offset at most there. -/
def ReadsInside (r : Readable) (v : View) (o : Nat) : Prop :=
  match run v (r.reader v.data.length) (.at o) with
  | (.error e, c) => c.InBounds v.data.length ∧ e ≠ .recursionLimit
  | (.ok _, c) => c.InBounds v.data.length ∧ c.offset ≤ v.data.length

private theorem reader_avoids (r : Readable) (v : View) (o : Nat) :
    (run v (r.reader v.data.length) (.at o)).1 ≠ .error .recursionLimit := by
  cases r with
  | value t => exact Ty.read_avoids ⟨by decide, by decide⟩ t (.at o) (Nat.le_refl o)
  | body cls =>
    exact ResponseMessage.bodyReader_avoids ⟨by decide, by decide⟩ cls (.at o) (Nat.le_refl o)

private theorem reader_follows (r : Readable) (v : View) :
    Follows v (r.reader v.data.length) (r.layout v.data.length) := by
  cases r with
  | value t => exact Ty.read_follows t
  | body cls => exact ResponseMessage.bodyReader_follows _ cls

/-- A read stays inside its buffer exactly when, behind the fields that lie whole in it, no
string or byte string announces more bytes than remain. -/
theorem readsInside_iff (r : Readable) (v : View) (o : Nat) (ho : o ≤ v.data.length) :
    ReadsInside r v o ↔ (r.layout v.data.length).overruns (v.data.drop o) = false := by
  have hlimit := reader_avoids r v o
  rw [← (reader_follows r v).staysInside_iff ho]
  unfold ReadsInside StaysInside
  split
  · next e c hrun =>
    rw [hrun] at hlimit ⊢
    refine and_congr_right fun _ ↦ ⟨fun _ hok ↦ Bool.noConfusion hok, fun _ he ↦ ?_⟩
    exact hlimit (congrArg Except.error he)
  · next a c hrun =>
    rw [hrun]
    exact and_congr_right fun _ ↦ ⟨fun hle _ ↦ hle, fun h ↦ h rfl⟩

/-- A SUPPORTED body with an option without values is read inside. -/
theorem readsInside_support :
    ReadsInside (.body .support) ⟨[0x00, 0x01, 0x00, 0x01, 0x61, 0x00, 0x00], fun _ ↦ 0⟩ 0 :=
  (readsInside_iff _ _ _ (by decide)).mpr (by decide)

-- The first string of a list leaves the buffer, though the prefix of the second would throw.
example : Ty.stringList.layout.overruns [0x00, 0x02, 0xFF, 0xFF, 0x61] = true := by decide

/-- A two-byte buffer that announces a string of five bytes. -/
def shortString : View := ⟨[0x00, 0x05], fun _ ↦ 0⟩

/-- A string that announces five bytes where none are left is not. -/
theorem shortString_leaves :
    ¬ ∀ (r : Readable) (v : View) (o : Nat), o ≤ v.data.length → ReadsInside r v o := by
  intro h
  have hs := h (.value .string) shortString 0 (by decide)
  obtain ⟨hb, -⟩ := hs
  exact absurd (hb (2, 5) (by decide) 0 (by decide)) (by decide)

end CassandraDriver.Protocol
