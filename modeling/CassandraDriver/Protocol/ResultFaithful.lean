import CassandraDriver.Protocol.ResponseMessage

/-!
# Results of the native protocol, version 4

Library `Protocol`. The Rows, Prepared and Set_keyspace results as a server means them,
their layout in the terms of the protocol document, and that parsing a body recovers
every field. Optional sections are present by the shape of the value, never by a flag
that could disagree with it.
-/

namespace CassandraDriver.Protocol
open CassandraDriver.Lib CassandraDriver.Lib.Program CassandraDriver.Io

namespace V4

/-- [int] of a count. -/
def encodeInt (n : Nat) : List UInt8 := toBE 4 n

/-- [bytes]: null has length minus one and no content. -/
def encodeBytes : Option (List UInt8) → List UInt8
  | none => [0xFF, 0xFF, 0xFF, 0xFF]
  | some bs => toBE 4 bs.length ++ bs

/-- The bit of a flag. -/
def bit (mask : Nat) (set : Bool) : Nat := if set then mask else 0

/-- Column specifications: one table for all of them, or one with each. -/
inductive Columns
  | global (keySpace table : List UInt8) (columns : List (List UInt8 × ColumnOption))
  | perColumn (columns : List ResultColumn)

namespace Columns

/-- Whether the table is given once. -/
def isGlobal : Columns → Bool
  | global .. => true
  | perColumn _ => false

/-- The number of columns. -/
def count : Columns → Nat
  | global _ _ columns => columns.length
  | perColumn columns => columns.length

/-- `<global_table_spec>`, or nothing. -/
def encodeTable : Columns → List UInt8
  | global keySpace table _ => encodeString keySpace ++ encodeString table
  | perColumn _ => []

/-- `<col_spec_1>` to `<col_spec_n>`. -/
def encodeColumns : Columns → List UInt8
  | global _ _ columns => columns.flatMap (fun c ↦ encodeString c.1 ++ c.2.encode)
  | perColumn columns => columns.flatMap (fun c ↦
    encodeString c.keySpace ++ (encodeString c.table ++ (encodeString c.name ++ c.type.encode)))

/-- Names, counts and types fit their prefixes. -/
def Fits : Columns → Prop
  | global keySpace table columns =>
    keySpace.length ≤ 65535 ∧ table.length ≤ 65535 ∧ columns.length ≤ LenType.int.bound ∧
      ∀ c ∈ columns, c.1.length ≤ 65535 ∧ c.2.Fits
  | perColumn columns => columns.length ≤ LenType.int.bound ∧
      ∀ c ∈ columns, c.keySpace.length ≤ 65535 ∧ c.table.length ≤ 65535 ∧
        c.name.length ≤ 65535 ∧ c.type.Fits

/-- The global table as a parser keeps it: empty when absent. -/
def tableSpec : Columns → List UInt8 × List UInt8
  | global keySpace table _ => (keySpace, table)
  | perColumn _ => ([], [])

/-- The columns as a parser keeps them: a global table is not repeated. -/
def toColumns : Columns → List ResultColumn
  | global _ _ columns => columns.map (fun c ↦ ⟨[], [], c.1, c.2⟩)
  | perColumn columns => columns

end Columns

/-- `<metadata>` of rows: left out with No_metadata, which may come with or without the
global flag, or present. -/
inductive Metadata
  | omitted (globalTablesSpec : Bool) (columnsCount : Nat)
  | present (columns : Columns)

namespace Metadata

/-- `<columns_count>`, sent in any case. -/
def columnsCount : Metadata → Nat
  | omitted _ n => n
  | present columns => columns.count

/-- The Global_tables_spec flag. -/
def isGlobal : Metadata → Bool
  | omitted global _ => global
  | present columns => columns.isGlobal

/-- The No_metadata flag. -/
def isOmitted : Metadata → Bool
  | omitted .. => true
  | present _ => false

/-- What follows the paging state. -/
def encode : Metadata → List UInt8
  | omitted .. => []
  | present columns => columns.encodeTable ++ columns.encodeColumns

/-- The count fits, and so does everything present. -/
def Fits : Metadata → Prop
  | omitted _ n => n ≤ LenType.int.bound
  | present columns => columns.Fits

/-- Global table and columns as a parser keeps them. -/
def toColumns : Metadata → List UInt8 × List UInt8 × List ResultColumn
  | omitted .. => ([], [], [])
  | present columns => (columns.tableSpec.1, columns.tableSpec.2, columns.toColumns)

end Metadata

/-- A Rows result. Has_more_pages is set when there is a paging state, and every row has
one cell, possibly null, for each column. -/
structure Rows where
  metadata : Metadata
  pagingState : Option (List UInt8)
  rows : List (List (Option (List UInt8)))
  rectangular : ∀ row ∈ rows, row.length = metadata.columnsCount

namespace Rows

/-- `<flags>`. -/
def flags (r : Rows) : Nat :=
  bit 1 r.metadata.isGlobal + bit 2 r.pagingState.isSome + bit 4 r.metadata.isOmitted

/-- `<paging_state>`, or nothing. -/
def encodePaging (r : Rows) : List UInt8 :=
  match r.pagingState with
  | none => []
  | some state => encodeBytes (some state)

/-- The body behind the result kind. -/
def encode (r : Rows) : List UInt8 :=
  encodeInt r.flags ++ (encodeInt r.metadata.columnsCount ++ (r.encodePaging ++
    (r.metadata.encode ++ (encodeInt r.rows.length ++
      r.rows.flatMap (fun row ↦ row.flatMap encodeBytes)))))

/-- Everything fits its prefix. -/
def Fits (r : Rows) : Prop :=
  r.metadata.Fits ∧ (∀ state ∈ r.pagingState, state.length ≤ LenType.int.bound) ∧
    r.rows.length ≤ LenType.int.bound ∧
    ∀ row ∈ r.rows, ∀ cell ∈ row, ∀ bs ∈ cell, bs.length ≤ LenType.int.bound

/-- The result as a parser keeps it, a null cell as an empty one. -/
def toRowKind (r : Rows) : RowKind where
  flags := Int32.ofNat r.flags
  columnsCount := Int32.ofNat r.metadata.columnsCount
  pagingState := r.pagingState.getD []
  globalKeySpace := r.metadata.toColumns.1
  globalTable := r.metadata.toColumns.2.1
  columns := r.metadata.toColumns.2.2
  rowsCount := Int32.ofNat r.rows.length
  rowsContent := r.rows.map (fun row ↦ row.map (fun cell ↦ cell.getD []))

end Rows

/-- A Prepared result, and whatever result metadata stands behind it. -/
structure Prepared where
  id : List UInt8
  partitionKeys : List UInt16
  columns : Columns
  resultMetadata : List UInt8

namespace Prepared

/-- The body behind the result kind, without the result metadata. -/
def encodeOwn (p : Prepared) : List UInt8 :=
  encodeString p.id ++ (encodeInt (bit 1 p.columns.isGlobal) ++ (encodeInt p.columns.count ++
    ((encodeInt p.partitionKeys.length ++ p.partitionKeys.flatMap (fun i ↦ toBE 2 i.toNat)) ++
      (p.columns.encodeTable ++ p.columns.encodeColumns))))

/-- Everything fits its prefix. -/
def Fits (p : Prepared) : Prop :=
  p.id.length ≤ 65535 ∧ p.partitionKeys.length ≤ LenType.int.bound ∧ p.columns.Fits

/-- The result as a parser keeps it. -/
def toPreparedKind (p : Prepared) : PreparedKind where
  id := p.id
  flags := Int32.ofNat (bit 1 p.columns.isGlobal)
  columnCount := Int32.ofNat p.columns.count
  partitionKeyCount := Int32.ofNat p.partitionKeys.length
  partitionKeyIndexes := p.partitionKeys
  globalKeySpace := p.columns.tableSpec.1
  globalTable := p.columns.tableSpec.2
  columns := p.columns.toColumns

end Prepared

/-- The results that carry data to the driver. -/
inductive Result
  | rows (r : Rows)
  | setKeyspace (keySpace : List UInt8)
  | prepared (p : Prepared)

namespace Result

/-- `<kind>`. -/
def kind : Result → Nat
  | rows _ => 2
  | setKeyspace _ => 3
  | prepared _ => 4

/-- What a parser has to read. -/
def encodeOwn : Result → List UInt8
  | rows r => encodeInt 2 ++ r.encode
  | setKeyspace keySpace => encodeInt 3 ++ encodeString keySpace
  | prepared p => encodeInt 4 ++ p.encodeOwn

/-- The whole body of the RESULT frame. -/
def encode : Result → List UInt8
  | prepared p => (prepared p).encodeOwn ++ p.resultMetadata
  | r => r.encodeOwn

/-- Everything fits its prefix. -/
def Fits : Result → Prop
  | rows r => r.Fits
  | setKeyspace keySpace => keySpace.length ≤ 65535
  | prepared p => p.Fits

/-- The payload as a parser keeps it. -/
def toPayload : Result → ResultPayload
  | rows r => .rows r.toRowKind
  | setKeyspace keySpace => .setKeyspace keySpace
  | prepared p => .prepared p.toPreparedKind

end Result

/-- An [int] that is not negative is read as itself. -/
theorem int_decodes (n : Nat) (h : n ≤ LenType.int.bound) :
    Decodes (readIntBE .int) (encodeInt n) (Int32.ofNat n) := by
  have hn : IntegralType.int.toBits (Int32.ofNat n) = n := LenType.int.toBits_cast n h
  have hr := readIntBE_decodes .int (Int32.ofNat n)
  rwa [hn] at hr

/-- A cell is read as its bytes, null as the empty cell. -/
theorem bytes_decodes (cell : Option (List UInt8))
    (h : ∀ bs ∈ cell, bs.length ≤ LenType.int.bound) :
    Decodes Ty.bytes.read (encodeBytes cell) (cell.getD []) := by
  cases cell with
  | none =>
    have he : toBE IntegralType.int.width (IntegralType.int.toBits (-1 : Int32)) =
        encodeBytes none := by decide
    have hr := (readIntBE_decodes .int (-1 : Int32)).map LenType.int.toInt
    rw [he] at hr
    have hb : Decodes Ty.bytes.read (encodeBytes none ++ []) [] := .bind hr (.pure [])
    rwa [List.append_nil] at hb
  | some bs => exact bytesBinaryParser_decodes .int bs (h bs rfl)

private theorem reserve_decodes (n : Nat) (h : n ≤ LenType.int.bound) :
    Decodes (reserve (Int32.ofNat n)) [] () := by
  have hn : (Int32.ofNat n).toInt = n := LenType.int.toInt_cast n h
  rw [reserve, hn, if_neg (by omega)]
  exact Decodes.pure ()

/-- A counted loop reads as many items as were counted. -/
theorem parseTimes_decodes {α ι : Type} {item : Reader α} {enc : ι → List UInt8} {val : ι → α}
    (items : List ι) (h : items.length ≤ LenType.int.bound)
    (hi : ∀ x ∈ items, Decodes item (enc x) (val x)) :
    Decodes (parseTimes (Int32.ofNat items.length) item) (items.flatMap enc)
      (items.map val) := by
  have hn : (Int32.ofNat items.length).toInt = items.length := LenType.int.toInt_cast _ h
  have hb : ∀ x ∈ items, ∀ acc : List α,
      Decodes (item >>= fun y ↦ pure (acc ++ [y])) (enc x) (acc ++ [val x]) :=
    fun x hx acc ↦ (hi x hx).map (fun y ↦ acc ++ [y])
  have hl := Decodes.forCount items [] hb
  have hf := foldl_snoc (items.map val) []
  rw [List.foldl_map, List.nil_append] at hf
  rw [hf] at hl
  rwa [parseTimes, hn, Int.toNat_natCast]

private theorem tableSpec_decodes (keySpace table : List UInt8) (hk : keySpace.length ≤ 65535)
    (ht : table.length ≤ 65535) :
    Decodes (parseTableSpec true) (encodeString keySpace ++ encodeString table)
      (keySpace, table) :=
  .bind (string_decodes keySpace hk) ((string_decodes table ht).map (Prod.mk keySpace))

private theorem globalTable_decodes (columns : Columns) (h : columns.Fits) :
    Decodes (parseTableSpec columns.isGlobal) columns.encodeTable columns.tableSpec := by
  cases columns with
  | global keySpace table cs => exact tableSpec_decodes keySpace table h.1 h.2.1
  | perColumn cs => exact Decodes.pure ([], [])

private theorem column_decodes (size : Nat) (global : Bool) (c : ResultColumn)
    {spec : List UInt8} (hspec : Decodes (parseTableSpec (!global)) spec (c.keySpace, c.table))
    (hn : c.name.length ≤ 65535) (ht : c.type.Fits) (hs : c.type.encode.length ≤ size) :
    Decodes (ResultColumn.parse size global) (spec ++ (encodeString c.name ++ c.type.encode))
      c := by
  have hfuel : c.type.encode.length ≤ 2 * ColumnOption.fuelFor size := by
    rw [ColumnOption.fuelFor]
    omega
  exact .bind hspec (.bind (string_decodes c.name hn)
    ((ColumnOption.parse_decodes c.type _ ht hfuel).map
      (ResultColumn.mk c.keySpace c.table c.name)))

/-- Columns are read back when the parser knows whether their table is global. -/
theorem columns_decode (size : Nat) (columns : Columns) (h : columns.Fits)
    (hs : columns.encodeColumns.length ≤ size) :
    Decodes (parseTimes (Int32.ofNat columns.count) (ResultColumn.parse size columns.isGlobal))
      columns.encodeColumns columns.toColumns := by
  cases columns with
  | global keySpace table cs =>
    apply parseTimes_decodes cs h.2.2.1
    intro c hc
    have hm := mem_length_le_flatMap (fun c ↦ encodeString c.1 ++ c.2.encode) cs c hc
    rw [Columns.encodeColumns] at hs
    rw [List.length_append] at hm
    obtain ⟨hn, ht⟩ := h.2.2.2 c hc
    have hc : c.2.encode.length ≤ size := by omega
    exact column_decodes size true ⟨[], [], c.1, c.2⟩ (.pure ([], [])) hn ht hc
  | perColumn cs =>
    have hi : ∀ c ∈ cs, Decodes (ResultColumn.parse size false) (encodeString c.keySpace ++
        (encodeString c.table ++ (encodeString c.name ++ c.type.encode))) (id c) := by
      intro c hc
      have hm := mem_length_le_flatMap (fun c : ResultColumn ↦ encodeString c.keySpace ++
        (encodeString c.table ++ (encodeString c.name ++ c.type.encode))) cs c hc
      rw [Columns.encodeColumns] at hs
      simp only [List.length_append] at hm
      obtain ⟨hk, htb, hn, ht⟩ := h.2 c hc
      have hd := column_decodes size false c (tableSpec_decodes _ _ hk htb) hn ht (by omega)
      rwa [List.append_assoc] at hd
    have hl := parseTimes_decodes cs h.1 hi
    rwa [List.map_id] at hl

private theorem hasFlag_rows (g p o : Bool) :
    hasFlag (Int32.ofNat (bit 1 g + bit 2 p + bit 4 o)) kGlobalTableSpec = g ∧
      hasFlag (Int32.ofNat (bit 1 g + bit 2 p + bit 4 o)) kHasMorePages = p ∧
      hasFlag (Int32.ofNat (bit 1 g + bit 2 p + bit 4 o)) kNoMetadata = o := by
  cases g <;> cases p <;> cases o <;> decide

/-- The column count fits its field. -/
theorem columnsCount_le (metadata : Metadata) (h : metadata.Fits) :
    metadata.columnsCount ≤ LenType.int.bound := by
  cases metadata with
  | omitted g n => exact h
  | present columns =>
    cases columns with
    | global keySpace table cs => exact h.2.2.1
    | perColumn cs => exact h.1

private theorem metadata_decodes (size : Nat) (r : Rows) (h : r.metadata.Fits)
    (hs : r.metadata.encode.length ≤ size) :
    Decodes (RowKind.parseMetadata size (Int32.ofNat r.flags)
      (Int32.ofNat r.metadata.columnsCount)) r.metadata.encode r.metadata.toColumns := by
  obtain ⟨hg, -, ho⟩ :=
    hasFlag_rows r.metadata.isGlobal r.pagingState.isSome r.metadata.isOmitted
  have hc := columnsCount_le r.metadata h
  rw [RowKind.parseMetadata, Rows.flags, ho, hg]
  cases hm : r.metadata with
  | omitted g n => exact Decodes.pure ([], [], [])
  | present columns =>
    rw [hm] at h hs hc
    rw [Metadata.encode, List.length_append] at hs
    have hcols := columns_decode size columns h (by omega)
    have hd : Decodes (do
        reserve (Int32.ofNat columns.count)
        let cs ← parseTimes (Int32.ofNat columns.count)
          (ResultColumn.parse size columns.isGlobal)
        return (columns.tableSpec.1, columns.tableSpec.2, cs)) ([] ++ columns.encodeColumns)
        (columns.tableSpec.1, columns.tableSpec.2, columns.toColumns) :=
      .bind (reserve_decodes _ hc)
        (hcols.map (fun cs ↦ (columns.tableSpec.1, columns.tableSpec.2, cs)))
    exact .bind (globalTable_decodes columns h) hd

private theorem paging_decodes (r : Rows)
    (h : ∀ state ∈ r.pagingState, state.length ≤ LenType.int.bound) :
    Decodes (RowKind.parsePaging (Int32.ofNat r.flags)) r.encodePaging
      (r.pagingState.getD []) := by
  obtain ⟨-, hp, -⟩ :=
    hasFlag_rows r.metadata.isGlobal r.pagingState.isSome r.metadata.isOmitted
  rw [RowKind.parsePaging, Rows.flags, hp, Rows.encodePaging]
  cases hs : r.pagingState with
  | none => exact Decodes.pure []
  | some state => exact bytes_decodes (some state) (hs ▸ h)

private theorem rows_decode (r : Rows) (h : r.Fits) :
    Decodes (parseTimes (Int32.ofNat r.rows.length)
        (parseTimes (Int32.ofNat r.metadata.columnsCount) Ty.bytes.read))
      (r.rows.flatMap (fun row ↦ row.flatMap encodeBytes))
      (r.rows.map (fun row ↦ row.map (fun cell ↦ cell.getD []))) := by
  apply parseTimes_decodes r.rows h.2.2.1
  intro row hr
  have hl := r.rectangular row hr
  have hc := columnsCount_le r.metadata h.1
  rw [← hl] at hc ⊢
  exact parseTimes_decodes row hc (fun cell hx ↦ bytes_decodes cell (h.2.2.2 row hr cell hx))

private theorem flags_le (r : Rows) : r.flags ≤ LenType.int.bound := by
  have hb : ∀ m b, bit m b ≤ m := by
    intro m b
    cases b <;> simp [bit]
  have h₁ := hb 1 r.metadata.isGlobal
  have h₂ := hb 2 r.pagingState.isSome
  have h₄ := hb 4 r.metadata.isOmitted
  rw [Rows.flags, LenType.bound]
  omega

/-- A Rows body is read back with every optional section where its flags say. -/
theorem rowKind_decodes (size : Nat) (r : Rows) (h : r.Fits) (hs : r.encode.length ≤ size) :
    Decodes (RowKind.parse size) r.encode r.toRowKind := by
  have hm : r.metadata.encode.length ≤ size := by
    simp only [Rows.encode, List.length_append] at hs
    omega
  have hrows : Decodes (do
      reserve (Int32.ofNat r.rows.length)
      let rowsContent ← parseTimes (Int32.ofNat r.rows.length)
        (parseTimes (Int32.ofNat r.metadata.columnsCount) Ty.bytes.read)
      return RowKind.mk (Int32.ofNat r.flags) (Int32.ofNat r.metadata.columnsCount)
        (r.pagingState.getD []) r.metadata.toColumns.1 r.metadata.toColumns.2.1
        r.metadata.toColumns.2.2 (Int32.ofNat r.rows.length) rowsContent)
      ([] ++ r.rows.flatMap (fun row ↦ row.flatMap encodeBytes)) r.toRowKind :=
    .bind (reserve_decodes _ h.2.2.1) ((rows_decode r h).map _)
  exact .bind (int_decodes _ (flags_le r)) (.bind (int_decodes _ (columnsCount_le _ h.1))
    (.bind (paging_decodes r h.2.1) (.bind (metadata_decodes size r h.1 hm)
      (.bind (int_decodes _ h.2.2.1) hrows))))

private theorem partitionKeys_decode (keys : List UInt16) (h : keys.length ≤ LenType.int.bound) :
    Decodes (Ty.sequence (.integral .short)).read
      (encodeInt keys.length ++ keys.flatMap (fun i ↦ toBE 2 i.toNat)) keys :=
  (Ty.sequence (.integral .short)).read_decodes keys ⟨h, fun _ _ ↦ trivial⟩

private theorem hasFlag_prepared (g : Bool) :
    hasFlag (Int32.ofNat (bit 1 g)) kGlobalTableSpec = g := by
  cases g <;> decide

/-- A Prepared body is read back; the result metadata behind it is not touched. -/
theorem preparedKind_decodes (size : Nat) (p : Prepared) (h : p.Fits)
    (hs : p.encodeOwn.length ≤ size) :
    Decodes (PreparedKind.parse size) p.encodeOwn p.toPreparedKind := by
  have hc : p.columns.count ≤ LenType.int.bound := columnsCount_le (.present p.columns) h.2.2
  have hf : bit 1 p.columns.isGlobal ≤ LenType.int.bound := by
    cases p.columns.isGlobal <;> decide
  have hm : p.columns.encodeColumns.length ≤ size := by
    simp only [Prepared.encodeOwn, List.length_append] at hs
    omega
  have hcols : Decodes (do
      let spec ← parseTableSpec
        (hasFlag (Int32.ofNat (bit 1 p.columns.isGlobal)) kGlobalTableSpec)
      let columns ← parseTimes (Int32.ofNat p.columns.count) (ResultColumn.parse size
        (hasFlag (Int32.ofNat (bit 1 p.columns.isGlobal)) kGlobalTableSpec))
      return PreparedKind.mk p.id (Int32.ofNat (bit 1 p.columns.isGlobal))
        (Int32.ofNat p.columns.count) (Int32.ofNat p.partitionKeys.length) p.partitionKeys
        spec.1 spec.2 columns)
      (p.columns.encodeTable ++ p.columns.encodeColumns) p.toPreparedKind := by
    rw [hasFlag_prepared]
    exact .bind (globalTable_decodes p.columns h.2.2)
      ((columns_decode size p.columns h.2.2 hm).map _)
  exact .bind (bytesBinaryParser_decodes .short p.id h.1) (.bind (int_decodes _ hf)
    (.bind (int_decodes _ hc) (.bind (partitionKeys_decode p.partitionKeys h.2.1) hcols)))

/-- The reader of a RESULT body recovers the part of its layout that it reads. -/
theorem result_decodes (size : Nat) (r : Result) (h : r.Fits)
    (hs : r.encodeOwn.length ≤ size) :
    Decodes (ResponseMessage.bodyReader size .result) r.encodeOwn
      (.result (Int32.ofNat r.kind) r.toPayload) := by
  cases r with
  | rows r =>
    rw [Result.encodeOwn, List.length_append] at hs
    exact .bind (int_decodes 2 (by decide))
      (((rowKind_decodes size r h (by omega)).map ResultPayload.rows).map
        (ResponseMessage.result 2))
  | setKeyspace keySpace =>
    exact .bind (int_decodes 3 (by decide))
      (((string_decodes keySpace h).map ResultPayload.setKeyspace).map (ResponseMessage.result 3))
  | prepared p =>
    rw [Result.encodeOwn, List.length_append] at hs
    exact .bind (int_decodes 4 (by decide))
      (((preparedKind_decodes size p h (by omega)).map ResultPayload.prepared).map
        (ResponseMessage.result 4))

/-- RESULT decoding is faithful: on the layout of any Rows, Prepared or Set_keyspace result
`DoParseBody` returns, and what it returns holds every encoded field. -/
theorem doParseBody_result (r : Result) (h : r.Fits) (beyond : Nat → UInt8) :
    ResponseMessage.doParseBody .result ⟨r.encode, beyond⟩ =
      .ok (.result (Int32.ofNat r.kind) r.toPayload) := by
  obtain ⟨post, he⟩ : ∃ post, r.encode = r.encodeOwn ++ post := by
    cases r with
    | prepared p => exact ⟨p.resultMetadata, rfl⟩
    | rows r => exact ⟨[], (List.append_nil _).symm⟩
    | setKeyspace k => exact ⟨[], (List.append_nil _).symm⟩
  have hs : r.encodeOwn.length ≤ r.encode.length := by
    rw [he, List.length_append]
    omega
  have hr := ((result_decodes r.encode.length r h hs).run_at [] post beyond).1
  rw [List.nil_append, ← he] at hr
  exact hr

/-- Two rows of a nested column and a scalar one, with a null cell and a further page. -/
def sampleRows : Rows where
  metadata := .present (.global [107] [116]
    [([97], .map (.scalar ⟨9, by decide⟩) (.tuple [.list (.custom [120]), .udt [107] [117]
      [([102], .set (.scalar ⟨13, by decide⟩))]])), ([98], .scalar ⟨9, by decide⟩)])
  pagingState := some [1, 2, 3]
  rows := [[some [7], none], [some [], some [0, 0, 0, 5]]]
  rectangular := by decide

/-- The sample of rows is parsed with all that it has. -/
theorem doParseBody_result_sampleRows :
    ResponseMessage.doParseBody .result ⟨(Result.rows sampleRows).encode, fun _ ↦ 0⟩ =
      .ok (.result 2 (.rows sampleRows.toRowKind)) :=
  doParseBody_result (.rows sampleRows) (by
    simp [Result.Fits, Rows.Fits, sampleRows, Metadata.Fits, Columns.Fits, LenType.bound,
      ColumnOption.Fits, ColumnOption.FieldsFit, ColumnOption.ElementsFit]) (fun _ ↦ 0)

end V4
end CassandraDriver.Protocol
