import CassandraDriver.Protocol.ColumnGrammar
import CassandraDriver.Protocol.ResponseFaithful

/-!
# The grammar of the responses

Library `Protocol`. Which bodies the `DoParseBody` of each response class accepts inside the
buffer, and what each of them stands for. The responses of the protocol are among them, and so are
bodies that its document rules out: error codes, flags and change types that it does not know, a
negative number of columns where no column follows, an option of SUPPORTED that comes twice, or a
result kind that selects nothing. Whatever stands behind is left alone.
-/

namespace CassandraDriver.Protocol
open CassandraDriver.Lib CassandraDriver.Lib.Grammar CassandraDriver.Lib.Program CassandraDriver.Io

/-- [int]. -/
def encodeInt32 (n : Int32) : List UInt8 := toBE 4 (IntegralType.int.toBits n)

/-- Key space and table, empty when they are not present. -/
def TableFits (present : Bool) (spec : List UInt8 × List UInt8) : Prop :=
  if present then StringFits spec.1 ∧ StringFits spec.2 else spec = ([], [])

/-- Key space and table, when they are present. -/
def encodeTable (present : Bool) (spec : List UInt8 × List UInt8) : List UInt8 :=
  if present then encodeString spec.1 ++ encodeString spec.2 else []

namespace ResultColumn

/-- A column that fits, with a table of its own unless there is a global one. -/
def Fits (global : Bool) (c : ResultColumn) : Prop :=
  TableFits (!global) (c.keySpace, c.table) ∧ StringFits c.name ∧ c.type.Fits

/-- `<col_spec>`. -/
def encode (global : Bool) (c : ResultColumn) : List UInt8 :=
  encodeTable (!global) (c.keySpace, c.table) ++ (encodeString c.name ++ c.type.encode)

end ResultColumn

namespace RowKind

/-- The paging state that the flag announces. -/
def MeansPaging (flags : Int32) : Grammar (List UInt8) :=
  if hasFlag flags kHasMorePages then LenType.int.MeansBytes else nothing []

/-- Global table and columns: none, or as many columns as announced. -/
def MetadataFits (flags columnsCount : Int32)
    (metadata : List UInt8 × List UInt8 × List ResultColumn) : Prop :=
  if hasFlag flags kNoMetadata then metadata = ([], [], [])
  else TableFits (hasFlag flags kGlobalTableSpec) (metadata.1, metadata.2.1) ∧
    metadata.2.2.length = columnsCount.toInt ∧
    ∀ c ∈ metadata.2.2, c.Fits (hasFlag flags kGlobalTableSpec)

/-- `<global_table_spec>` and the columns, unless they are left out. -/
def encodeMetadata (flags : Int32)
    (metadata : List UInt8 × List UInt8 × List ResultColumn) : List UInt8 :=
  if hasFlag flags kNoMetadata then []
  else encodeTable (hasFlag flags kGlobalTableSpec) (metadata.1, metadata.2.1) ++
    metadata.2.2.flatMap (ResultColumn.encode (hasFlag flags kGlobalTableSpec))

/-- The rows: each has a cell for each column, and none if the number of columns is negative. -/
def MeansRows (columnsCount rowsCount : Int32) : Grammar (List (List (List UInt8))) :=
  fun bs rows ↦ rows.length = rowsCount.toInt ∧
    Each (fun cs row ↦ row.length = columnsCount.toInt.toNat ∧ Each LenType.int.MeansBytes cs row)
      bs rows

/-- A Rows result. -/
def Means : Grammar RowKind := fun bs k ↦
  ∃ paging rows,
    bs = encodeInt32 k.flags ++ (encodeInt32 k.columnsCount ++ (paging ++
      (encodeMetadata k.flags (k.globalKeySpace, k.globalTable, k.columns) ++
        (encodeInt32 k.rowsCount ++ rows)))) ∧
    MeansPaging k.flags paging k.pagingState ∧
    MetadataFits k.flags k.columnsCount (k.globalKeySpace, k.globalTable, k.columns) ∧
    MeansRows k.columnsCount k.rowsCount rows k.rowsContent

end RowKind

namespace PreparedKind

/-- What a Prepared result can hold: a negative number of columns is that of no columns. -/
def Fits (k : PreparedKind) : Prop :=
  StringFits k.id ∧ k.partitionKeyIndexes.length ≤ LenType.int.bound ∧
    k.partitionKeyCount = Int32.ofNat k.partitionKeyIndexes.length ∧
    TableFits (hasFlag k.flags kGlobalTableSpec) (k.globalKeySpace, k.globalTable) ∧
    k.columns.length = k.columnCount.toInt.toNat ∧
    ∀ c ∈ k.columns, c.Fits (hasFlag k.flags kGlobalTableSpec)

/-- A Prepared result up to its columns. -/
def encode (k : PreparedKind) : List UInt8 :=
  encodeString k.id ++ (encodeInt32 k.flags ++ (encodeInt32 k.columnCount ++
    (V4.encodeInt k.partitionKeyIndexes.length ++
      k.partitionKeyIndexes.flatMap (fun i ↦ toBE 2 i.toNat) ++
        (encodeTable (hasFlag k.flags kGlobalTableSpec) (k.globalKeySpace, k.globalTable) ++
          k.columns.flatMap (ResultColumn.encode (hasFlag k.flags kGlobalTableSpec))))))

end PreparedKind

namespace SchemaChange

/-- The options that a change type and a target select. -/
def MeansOptions (changeType target : List UInt8) (bs : List UInt8) : TargetOptions → Prop
  | .keyspace value =>
    if target = utf8 "KEYSPACE" then StringFits value ∧ bs = encodeString value
    else target ≠ utf8 "TABLE" ∧ target ≠ utf8 "TYPE" ∧ changeType ≠ utf8 "FUNCTION" ∧
      target ≠ utf8 "AGGREGATE" ∧ value = [] ∧ bs = []
  | .table keyspace targetName => (target = utf8 "TABLE" ∨ target = utf8 "TYPE") ∧
      StringFits keyspace ∧ StringFits targetName ∧
      bs = encodeString keyspace ++ encodeString targetName
  | .function keyspace functionName args =>
    target ≠ utf8 "KEYSPACE" ∧ target ≠ utf8 "TABLE" ∧ target ≠ utf8 "TYPE" ∧
      (changeType = utf8 "FUNCTION" ∨ target = utf8 "AGGREGATE") ∧
      StringFits keyspace ∧ StringFits functionName ∧ V4.Target.ArgsFit args ∧
      bs = V4.Target.encodeFunction keyspace functionName args

/-- A schema change. -/
def Means : Grammar SchemaChange := fun bs c ↦
  ∃ options, bs = encodeString c.changeType ++ (encodeString c.target ++ options) ∧
    StringFits c.changeType ∧ StringFits c.target ∧
    MeansOptions c.changeType c.target options c.targetOptions

end SchemaChange

/-- What follows a result kind. -/
def ResultPayload.Means (kind : Int32) (bs : List UInt8) : ResultPayload → Prop
  | void => kind ≠ 0x0002 ∧ kind ≠ 0x0003 ∧ kind ≠ 0x0004 ∧ kind ≠ 0x0005 ∧ bs = []
  | rows k => kind = 0x0002 ∧ k.Means bs
  | setKeyspace keySpace => kind = 0x0003 ∧ StringFits keySpace ∧ bs = encodeString keySpace
  | prepared k => kind = 0x0004 ∧ k.Fits ∧ bs = k.encode
  | schemaChange c => kind = 0x0005 ∧ c.Means bs

/-- The bodies of a class and their messages. -/
def ResponseClass.Means : ResponseClass → Grammar ResponseMessage
  | error => fun bs m ↦ ∃ code text, m = .error code text ∧ StringFits text ∧
      bs = encodeInt32 code ++ encodeString text
  | ready => nothing .ready
  | authentificate => fun bs m ↦ ∃ challenge, m = .authentificate challenge ∧
      StringFits challenge ∧ bs = encodeString challenge
  | support => fun bs m ↦ ∃ options, m = .support options ∧ Ty.stringMultiMap.Means bs options
  | result => fun bs m ↦ ∃ kind payload rest, m = .result kind payload ∧
      bs = encodeInt32 kind ++ rest ∧ payload.Means kind rest

section
variable {changeType target bs : List UInt8} {options : TargetOptions}

private theorem meansOptions_keyspace (hkeyspace : target = utf8 "KEYSPACE") :
    SchemaChange.MeansOptions changeType target bs options ↔
      ∃ value, (StringFits value ∧ bs = encodeString value) ∧ options = .keyspace value := by
  constructor
  · intro h
    cases options with
    | keyspace value =>
      rw [SchemaChange.MeansOptions, if_pos hkeyspace] at h
      exact ⟨value, h, rfl⟩
    | table keyspace targetName =>
      rw [hkeyspace] at h
      exact absurd h.1 (by decide)
    | function keyspace functionName args => exact absurd hkeyspace h.1
  · rintro ⟨value, h, rfl⟩
    rwa [SchemaChange.MeansOptions, if_pos hkeyspace]

private theorem meansOptions_table (hkeyspace : target ≠ utf8 "KEYSPACE")
    (htable : target = utf8 "TABLE" ∨ target = utf8 "TYPE") :
    SchemaChange.MeansOptions changeType target bs options ↔
      ∃ keyspace targetName, ((StringFits keyspace ∧ StringFits targetName) ∧
        bs = encodeString keyspace ++ encodeString targetName) ∧
        options = .table keyspace targetName := by
  constructor
  · intro h
    cases options with
    | keyspace value =>
      rw [SchemaChange.MeansOptions, if_neg hkeyspace] at h
      exact absurd htable (not_or.mpr ⟨h.1, h.2.1⟩)
    | table keyspace targetName => exact ⟨_, _, ⟨⟨h.2.1, h.2.2.1⟩, h.2.2.2⟩, rfl⟩
    | function keyspace functionName args => exact absurd htable (not_or.mpr ⟨h.2.1, h.2.2.1⟩)
  · rintro ⟨keyspace, targetName, ⟨⟨hk, hn⟩, hbs⟩, rfl⟩
    exact ⟨htable, hk, hn, hbs⟩

private theorem meansOptions_function (hkeyspace : target ≠ utf8 "KEYSPACE")
    (htable : ¬ (target = utf8 "TABLE" ∨ target = utf8 "TYPE"))
    (hfunction : changeType = utf8 "FUNCTION" ∨ target = utf8 "AGGREGATE") :
    SchemaChange.MeansOptions changeType target bs options ↔
      ∃ keyspace functionName args, (StringFits keyspace ∧ StringFits functionName ∧
        V4.Target.ArgsFit args ∧ bs = V4.Target.encodeFunction keyspace functionName args) ∧
        options = .function keyspace functionName args := by
  constructor
  · intro h
    cases options with
    | keyspace value =>
      rw [SchemaChange.MeansOptions, if_neg hkeyspace] at h
      exact absurd hfunction (not_or.mpr ⟨h.2.2.1, h.2.2.2.1⟩)
    | table keyspace targetName => exact absurd h.1 htable
    | function keyspace functionName args =>
      obtain ⟨-, -, -, -, h⟩ := h
      exact ⟨keyspace, functionName, args, h, rfl⟩
  · rintro ⟨keyspace, functionName, args, h, rfl⟩
    rw [not_or] at htable
    exact ⟨hkeyspace, htable.1, htable.2, hfunction, h⟩

private theorem meansOptions_unknown (hkeyspace : target ≠ utf8 "KEYSPACE")
    (htable : ¬ (target = utf8 "TABLE" ∨ target = utf8 "TYPE"))
    (hfunction : ¬ (changeType = utf8 "FUNCTION" ∨ target = utf8 "AGGREGATE")) :
    SchemaChange.MeansOptions changeType target bs options ↔
      bs = [] ∧ options = .keyspace [] := by
  constructor
  · intro h
    cases options with
    | keyspace value =>
      rw [SchemaChange.MeansOptions, if_neg hkeyspace] at h
      obtain ⟨-, -, -, -, rfl, rfl⟩ := h
      exact ⟨rfl, rfl⟩
    | table keyspace targetName => exact absurd h.1 htable
    | function keyspace functionName args => exact absurd h.2.2.2.1 hfunction
  · rintro ⟨rfl, rfl⟩
    rw [not_or] at htable hfunction
    rw [SchemaChange.MeansOptions, if_neg hkeyspace]
    exact ⟨htable.1, htable.2, hfunction.1, hfunction.2, rfl, rfl⟩

end

section
variable {size : Nat}

private theorem int32_recognizes : @Recognizes Exception Int32 size (readIntBE .int)
    (ofLayout (fun _ ↦ True) encodeInt32) :=
  (readIntBE_recognizes .int).congr fun bs n _ ↦
    (IntegralType.means_iff (by decide)).trans (and_iff_right trivial).symm

private theorem tableSpec_recognizes (present : Bool) :
    Recognizes size (parseTableSpec present)
      (ofLayout (TableFits present) (encodeTable present)) := by
  cases present with
  | false =>
    refine (Recognizes.pure _).congr fun bs spec _ ↦ ?_
    exact and_comm
  | true =>
    have hpair := (@string_recognizes size).pair Prod.mk string_recognizes
    rw [pair_ofLayout] at hpair
    refine hpair.congr fun bs spec _ ↦ ?_
    constructor
    · rintro ⟨_, h, rfl⟩
      exact h
    · intro h
      exact ⟨spec, h, rfl⟩

private theorem parseTimes_recognizes {α : Type} {item : Reader α} {G : Grammar α} (count : Int32)
    (hi : Recognizes size item G) : Recognizes size (parseTimes count item)
      (fun bs xs ↦ xs.length = count.toInt.toNat ∧ Each G bs xs) :=
  hi.collect _

private theorem reserve_recognizes (count : Int32) :
    Recognizes size (reserve count) (fun bs _ ↦ 0 ≤ count.toInt ∧ bs = []) := by
  unfold reserve
  split
  · next hneg =>
    refine (Recognizes.fail _).congr fun bs u _ ↦ ⟨False.elim, fun h ↦ ?_⟩
    omega
  · next hpos =>
    refine (Recognizes.pure _).congr fun bs u _ ↦ ?_
    exact ⟨fun h ↦ ⟨by omega, h.1⟩, fun h ↦ ⟨h.2, rfl⟩⟩

private theorem ResultColumn.recognizes (global : Bool) :
    Recognizes size (ResultColumn.parse size global)
      (ofLayout (ResultColumn.Fits global) (ResultColumn.encode global)) := by
  refine ((tableSpec_recognizes (!global)).bind fun spec ↦
    string_recognizes.pair (fun name type ↦ ResultColumn.mk spec.1 spec.2 name type)
      (ColumnOption.recognizes size)).congr fun bs c _ ↦ ?_
  constructor
  · rintro ⟨_, _, rfl, spec, ⟨hspec, rfl⟩, ⟨name, type⟩, ⟨_, _, rfl, ⟨hname, rfl⟩, htype, rfl⟩, rfl⟩
    exact ⟨⟨hspec, hname, htype⟩, rfl⟩
  · rintro ⟨⟨hspec, hname, htype⟩, rfl⟩
    exact ⟨_, _, rfl, _, ⟨hspec, rfl⟩, (c.name, c.type), ⟨_, _, rfl, ⟨hname, rfl⟩, htype, rfl⟩, rfl⟩

private theorem metadata_recognizes (flags columnsCount : Int32) :
    Recognizes size (RowKind.parseMetadata size flags columnsCount)
      (ofLayout (RowKind.MetadataFits flags columnsCount) (RowKind.encodeMetadata flags)) := by
  unfold RowKind.parseMetadata
  split
  · next hnone =>
    refine (Recognizes.pure _).congr fun bs metadata _ ↦ ?_
    simp only [ofLayout, RowKind.MetadataFits, RowKind.encodeMetadata, if_pos hnone]
    exact and_comm
  · next hsome =>
    refine ((tableSpec_recognizes (hasFlag flags kGlobalTableSpec)).bind fun spec ↦
      (reserve_recognizes columnsCount).bind fun _ ↦
        (parseTimes_recognizes columnsCount (ResultColumn.recognizes _)).map
          fun columns ↦ (spec.1, spec.2, columns)).congr fun bs metadata _ ↦ ?_
    simp only [ofLayout, RowKind.MetadataFits, RowKind.encodeMetadata, if_neg hsome]
    constructor
    · rintro ⟨_, _, rfl, spec, ⟨hspec, rfl⟩, _, _, rfl, _, ⟨hcount, rfl⟩, columns,
        ⟨hlength, hitems⟩, rfl⟩
      obtain ⟨hcolumns, rfl⟩ := each_ofLayout.mp hitems
      exact ⟨⟨hspec, by rw [hlength, Int.toNat_of_nonneg hcount], hcolumns⟩, rfl⟩
    · obtain ⟨keySpace, table, columns⟩ := metadata
      rintro ⟨⟨hspec, hlength, hcolumns⟩, rfl⟩
      change (columns.length : Int) = _ at hlength
      refine ⟨_, _, rfl, (keySpace, table), ⟨hspec, rfl⟩, [], _, rfl, (), ⟨?_, rfl⟩, columns,
        ⟨?_, each_ofLayout.mpr ⟨hcolumns, rfl⟩⟩, rfl⟩ <;> omega

private theorem paging_recognizes (flags : Int32) :
    Recognizes size (RowKind.parsePaging flags) (RowKind.MeansPaging flags) := by
  unfold RowKind.parsePaging RowKind.MeansPaging
  cases hasFlag flags kHasMorePages with
  | true => exact bytesBinaryParser_recognizes .int
  | false => exact Recognizes.pure []

private theorem RowKind.recognizes : Recognizes size (RowKind.parse size) RowKind.Means := by
  refine (int32_recognizes.bind fun flags ↦ int32_recognizes.bind fun columnsCount ↦
    (paging_recognizes flags).bind fun pagingState ↦
      (metadata_recognizes flags columnsCount).bind fun metadata ↦
        int32_recognizes.bind fun rowsCount ↦ (reserve_recognizes rowsCount).bind fun _ ↦
          (parseTimes_recognizes rowsCount (parseTimes_recognizes columnsCount
            (bytesBinaryParser_recognizes .int))).map fun rowsContent ↦
              RowKind.mk flags columnsCount pagingState metadata.1 metadata.2.1 metadata.2.2
                rowsCount rowsContent).congr fun bs k _ ↦ ?_
  constructor
  · rintro ⟨_, _, rfl, flags, ⟨-, rfl⟩, _, _, rfl, columnsCount, ⟨-, rfl⟩, paging, _, rfl,
      pagingState, hpaging, _, _, rfl, metadata, ⟨hmetadata, rfl⟩, _, _, rfl, rowsCount, ⟨-, rfl⟩,
      _, rows, rfl, _, ⟨hcount, rfl⟩, rowsContent, ⟨hlength, hrows⟩, rfl⟩
    exact ⟨paging, rows, rfl, hpaging, hmetadata,
      by rw [hlength, Int.toNat_of_nonneg hcount], hrows⟩
  · rintro ⟨paging, rows, rfl, hpaging, hmetadata, hlength, hrows⟩
    refine ⟨_, _, rfl, k.flags, ⟨trivial, rfl⟩, _, _, rfl, k.columnsCount, ⟨trivial, rfl⟩, _, _,
      rfl, _, hpaging, _, _, rfl, (k.globalKeySpace, k.globalTable, k.columns), ⟨hmetadata, rfl⟩,
      _, _, rfl, k.rowsCount, ⟨trivial, rfl⟩, [], _, rfl, (), ⟨?_, rfl⟩, k.rowsContent,
      ⟨?_, hrows⟩, rfl⟩
      <;> omega

private theorem id_recognizes : @Recognizes Exception (List UInt8) size Ty.shortBytes.read
    (ofLayout StringFits encodeString) :=
  (bytesBinaryParser_recognizes .short).congr fun _ _ _ ↦ LenType.meansBytes_short

variable (hsize : size < 2 ^ 63)
include hsize

private theorem partitionKeys_recognize :
    @Recognizes Exception (List UInt16) size (Ty.sequence (.integral .short)).read
      (ofLayout (fun keys ↦ keys.length ≤ LenType.int.bound ∧ ∀ i ∈ keys, True)
        (fun keys ↦ V4.encodeInt keys.length ++ keys.flatMap (fun i ↦ toBE 2 i.toNat))) :=
  listBinaryParser_recognizes_layout .int hsize (fun _ _ ↦ by rw [length_toBE]; decide)
    ((readIntBE_recognizes .short).congr fun bs i _ ↦
      (IntegralType.means_iff (by decide)).trans (and_iff_right trivial).symm)

private theorem args_recognize : @Recognizes Exception (List (List UInt8)) size Ty.stringList.read
    (ofLayout V4.Target.ArgsFit (fun args ↦ toBE 2 args.length ++ args.flatMap encodeString)) := by
  refine listBinaryParser_recognizes_layout .short hsize (fun (s : List UInt8) _ ↦ ?_)
    string_recognizes
  change 0 < (LenType.short.encode s.length ++ s).length
  rw [List.length_append, LenType.encode, length_toBE]
  exact Nat.lt_of_lt_of_le (by decide) (Nat.le_add_right _ _)

private theorem PreparedKind.recognizes : Recognizes size (PreparedKind.parse size)
    (ofLayout PreparedKind.Fits PreparedKind.encode) := by
  refine (id_recognizes.bind fun id ↦ int32_recognizes.bind fun flags ↦
    int32_recognizes.bind fun columnCount ↦ (partitionKeys_recognize hsize).bind fun keys ↦
      (tableSpec_recognizes (hasFlag flags kGlobalTableSpec)).bind fun spec ↦
        (parseTimes_recognizes columnCount (ResultColumn.recognizes _)).map fun columns ↦
          PreparedKind.mk id flags columnCount (Int32.ofNat keys.length) keys spec.1 spec.2
            columns).congr fun bs k _ ↦ ?_
  constructor
  · rintro ⟨_, _, rfl, id, ⟨hid, rfl⟩, _, _, rfl, flags, ⟨-, rfl⟩, _, _, rfl, columnCount, ⟨-, rfl⟩,
      _, _, rfl, keys, ⟨⟨hkeys, -⟩, rfl⟩, _, _, rfl, spec, ⟨hspec, rfl⟩, columns, ⟨hlength, hitems⟩,
      rfl⟩
    obtain ⟨hcolumns, rfl⟩ := each_ofLayout.mp hitems
    exact ⟨⟨hid, hkeys, rfl, hspec, hlength, hcolumns⟩, rfl⟩
  · obtain ⟨id, flags, columnCount, count, keys, keySpace, table, columns⟩ := k
    rintro ⟨⟨hid, hkeys, hcount, hspec, hlength, hcolumns⟩, rfl⟩
    obtain rfl : count = Int32.ofNat keys.length := hcount
    exact ⟨_, _, rfl, id, ⟨hid, rfl⟩, _, _, rfl, flags, ⟨trivial, rfl⟩, _, _, rfl, columnCount,
      ⟨trivial, rfl⟩, _, _, rfl, keys, ⟨⟨hkeys, fun _ _ ↦ trivial⟩, rfl⟩, _, _, rfl,
      (keySpace, table), ⟨hspec, rfl⟩, columns, ⟨hlength, each_ofLayout.mpr ⟨hcolumns, rfl⟩⟩, rfl⟩

private theorem SchemaChange.recognizes :
    Recognizes size SchemaChange.parse SchemaChange.Means := by
  -- what the options are read as, behind a change type and a target
  have hoptions : Recognizes size SchemaChange.parse ((ofLayout StringFits encodeString).andThen
      fun changeType ↦ (ofLayout StringFits encodeString).andThen fun target bs c ↦
        ∃ options, SchemaChange.MeansOptions changeType target bs options ∧
          c = ⟨changeType, target, options⟩) := by
    refine string_recognizes.bind fun changeType ↦ string_recognizes.bind fun target ↦ ?_
    split
    · next hkeyspace =>
      refine (string_recognizes.map _).congr fun bs c _ ↦ ?_
      simp only [meansOptions_keyspace hkeyspace]
      constructor
      · rintro ⟨value, hvalue, rfl⟩
        exact ⟨_, ⟨value, hvalue, rfl⟩, rfl⟩
      · rintro ⟨_, ⟨value, hvalue, rfl⟩, rfl⟩
        exact ⟨value, hvalue, rfl⟩
    · next hkeyspace =>
      split
      · next htable =>
        refine (string_recognizes.pair _ string_recognizes).congr fun bs c _ ↦ ?_
        simp only [pair_ofLayout, meansOptions_table hkeyspace htable]
        constructor
        · rintro ⟨⟨keyspace, targetName⟩, hfits, rfl⟩
          exact ⟨_, ⟨keyspace, targetName, hfits, rfl⟩, rfl⟩
        · rintro ⟨_, ⟨keyspace, targetName, hfits, rfl⟩, rfl⟩
          exact ⟨(keyspace, targetName), hfits, rfl⟩
      · next htable =>
        split
        · next hfunction =>
          have hrest := fun keyspace ↦ string_recognizes.pair (fun functionName args ↦
            SchemaChange.mk changeType target (.function keyspace functionName args))
            (args_recognize hsize)
          simp only [pair_ofLayout] at hrest
          refine (string_recognizes.bind hrest).congr fun bs c _ ↦ ?_
          simp only [meansOptions_function hkeyspace htable hfunction]
          constructor
          · rintro ⟨_, _, rfl, keyspace, ⟨hk, rfl⟩, ⟨functionName, args⟩, ⟨⟨hn, ha⟩, rfl⟩, rfl⟩
            exact ⟨_, ⟨keyspace, functionName, args, ⟨hk, hn, ha, rfl⟩, rfl⟩, rfl⟩
          · rintro ⟨_, ⟨keyspace, functionName, args, ⟨hk, hn, ha, rfl⟩, rfl⟩, rfl⟩
            exact ⟨_, _, rfl, keyspace, ⟨hk, rfl⟩, (functionName, args), ⟨⟨hn, ha⟩, rfl⟩, rfl⟩
        · next hfunction =>
          refine (Recognizes.pure _).congr fun bs c _ ↦ ?_
          simp only [meansOptions_unknown hkeyspace htable hfunction]
          constructor
          · rintro ⟨rfl, rfl⟩
            exact ⟨_, ⟨rfl, rfl⟩, rfl⟩
          · rintro ⟨_, ⟨rfl, rfl⟩, rfl⟩
            exact ⟨rfl, rfl⟩
  refine hoptions.congr fun bs c _ ↦ ?_
  constructor
  · rintro ⟨_, _, rfl, changeType, ⟨hchange, rfl⟩, _, bs, rfl, target, ⟨htarget, rfl⟩, options, h,
      rfl⟩
    exact ⟨bs, rfl, hchange, htarget, h⟩
  · rintro ⟨bs, rfl, hchange, htarget, h⟩
    exact ⟨_, _, rfl, _, ⟨hchange, rfl⟩, _, bs, rfl, _, ⟨htarget, rfl⟩, c.targetOptions, h, rfl⟩

private theorem ResultPayload.recognizes (kind : Int32) :
    Recognizes size (ResultPayload.parse size kind) (ResultPayload.Means kind) := by
  unfold ResultPayload.parse
  split
  · next hrows =>
    refine (RowKind.recognizes.map ResultPayload.rows).congr fun bs payload _ ↦ ?_
    constructor
    · rintro ⟨k, hk, rfl⟩
      exact ⟨hrows, hk⟩
    · intro h
      cases payload with
      | rows k => exact ⟨k, h.2, rfl⟩
      | _ => simp [ResultPayload.Means, hrows] at h
  · next hrows =>
    split
    · next hkeyspace =>
      refine (string_recognizes.map ResultPayload.setKeyspace).congr fun bs payload _ ↦ ?_
      constructor
      · rintro ⟨keySpace, hk, rfl⟩
        exact ⟨hkeyspace, hk⟩
      · intro h
        cases payload with
        | setKeyspace keySpace => exact ⟨keySpace, h.2, rfl⟩
        | _ => simp [ResultPayload.Means, hkeyspace] at h
    · next hkeyspace =>
      split
      · next hprepared =>
        refine ((PreparedKind.recognizes hsize).map ResultPayload.prepared).congr
          fun bs payload _ ↦ ?_
        constructor
        · rintro ⟨k, hk, rfl⟩
          exact ⟨hprepared, hk⟩
        · intro h
          cases payload with
          | prepared k => exact ⟨k, h.2, rfl⟩
          | _ => simp [ResultPayload.Means, hprepared] at h
      · next hprepared =>
        split
        · next hschema =>
          refine ((SchemaChange.recognizes hsize).map ResultPayload.schemaChange).congr
            fun bs payload _ ↦ ?_
          constructor
          · rintro ⟨c, hc, rfl⟩
            exact ⟨hschema, hc⟩
          · intro h
            cases payload with
            | schemaChange c => exact ⟨c, h.2, rfl⟩
            | _ => simp [ResultPayload.Means, hschema] at h
        · next hschema =>
          refine (Recognizes.pure _).congr fun bs payload _ ↦ ?_
          constructor
          · rintro ⟨rfl, rfl⟩
            exact ⟨hrows, hkeyspace, hprepared, hschema, rfl⟩
          · intro h
            cases payload with
            | void => exact ⟨h.2.2.2.2, rfl⟩
            | _ => simp [ResultPayload.Means, hrows, hkeyspace, hprepared, hschema] at h

private theorem ResponseMessage.bodyReader_recognizes (cls : ResponseClass) :
    Recognizes size (bodyReader size cls) cls.Means := by
  cases cls with
  | error =>
    refine (int32_recognizes.pair ResponseMessage.error string_recognizes).congr fun bs m _ ↦ ?_
    rw [pair_ofLayout]
    constructor
    · rintro ⟨⟨code, text⟩, ⟨⟨-, htext⟩, rfl⟩, rfl⟩
      exact ⟨code, text, rfl, htext, rfl⟩
    · rintro ⟨code, text, rfl, htext, rfl⟩
      exact ⟨(code, text), ⟨⟨trivial, htext⟩, rfl⟩, rfl⟩
  | ready => exact Recognizes.pure _
  | authentificate =>
    refine (string_recognizes.map ResponseMessage.authentificate).congr fun bs m _ ↦ ?_
    constructor
    · rintro ⟨challenge, ⟨hfits, rfl⟩, rfl⟩
      exact ⟨challenge, rfl, hfits, rfl⟩
    · rintro ⟨challenge, rfl, hfits, rfl⟩
      exact ⟨challenge, ⟨hfits, rfl⟩, rfl⟩
  | support =>
    refine ((Ty.read_recognizes hsize .stringMultiMap).map ResponseMessage.support).congr
      fun bs m _ ↦ ?_
    exact exists_congr fun options ↦ and_comm
  | result =>
    refine (int32_recognizes.bind fun kind ↦
      (ResultPayload.recognizes hsize kind).map (ResponseMessage.result kind)).congr
      fun bs m _ ↦ ?_
    constructor
    · rintro ⟨_, rest, rfl, kind, ⟨-, rfl⟩, payload, hpayload, rfl⟩
      exact ⟨kind, payload, rest, rfl, rfl, hpayload⟩
    · rintro ⟨kind, payload, rest, rfl, rfl, hpayload⟩
      exact ⟨_, rest, rfl, kind, ⟨trivial, rfl⟩, payload, hpayload, rfl⟩

end

/-- The grammar has every response of the protocol, with the message that stands for it. -/
theorem V4.Response.means (r : V4.Response) (h : r.Fits) (hs : r.encodeOwn.length < 2 ^ 63) :
    r.cls.Means r.encodeOwn r.toMessage :=
  (ResponseMessage.bodyReader_recognizes hs r.cls).of_decodes
    (r.decodes r.encodeOwn.length h (Nat.le_refl _)) (Nat.le_refl _)

namespace ResponseMessage

/-- `DoParseBody` accepts a body, without leaving the buffer, exactly if the grammar of the class
has a message for the front of it, and that is the message. -/
theorem bodyReader_accepts_iff (cls : ResponseClass) (buffer : View)
    (h : buffer.data.length < 2 ^ 63) (m : ResponseMessage) (n : Nat) :
    Accepts buffer (bodyReader buffer.data.length cls) 0 m n ↔
      ∃ bs post, buffer.data = bs ++ post ∧ n = bs.length ∧ cls.Means bs m := by
  rw [(bodyReader_recognizes h cls).accepts_segment (Nat.le_refl _) (Nat.zero_le _), List.drop_zero]
  simp only [Nat.zero_add]

/-- An error, with a byte behind its text. -/
theorem bodyReader_accepts_iff_serverError :
    Accepts ⟨[0, 0, 0, 0, 0, 1, 97, 255], fun _ ↦ 0⟩ (bodyReader 8 .error) 0 (.error 0 [97]) 7 :=
  (bodyReader_accepts_iff .error ⟨[0, 0, 0, 0, 0, 1, 97, 255], fun _ ↦ 0⟩ (by decide) _ _).mpr
    ⟨[0, 0, 0, 0, 0, 1, 97], [255], rfl, rfl, 0, [97], rfl, Nat.le_of_ble_eq_true rfl, by decide⟩

end ResponseMessage

end CassandraDriver.Protocol
