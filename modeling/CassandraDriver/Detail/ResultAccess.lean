import CassandraDriver.Detail.Prepare
import CassandraDriver.Detail.ResultSet
import CassandraDriver.Protocol.ReadBounds

/-!
# Access to accepted results

Library `Detail`. Models the accessors of `include/cassandra/result_set.hpp` and
`include/cassandra/detail/result_wrapper.hpp`, and says when they are safe on what
`DoParseBody` accepts. The counts of a Rows body are signed and taken from the wire; they
bound loops when the body is parsed and guard unchecked cell accesses when it is extracted.
Every other result has no wrapper at all.
-/

namespace CassandraDriver.Detail
open CassandraDriver.Lib CassandraDriver.Lib.Program CassandraDriver.Io CassandraDriver.Protocol

namespace ResultSet

/-- `_pimpl->`, which a null wrapper does not survive. -/
def wrapper (set : ResultSet) : Except Exception ResultWrapper :=
  match set with
  | none => .error .memoryFault
  | some content => .ok content

/-- `ResultSet::Empty`, `include/cassandra/result_set.hpp:95`. -/
def empty (set : ResultSet) : Bool :=
  match set with
  | none => true
  | some content => content.rowsContent.isEmpty

/-- `ResultSet::RowsAffected`, `result_set.hpp:113`. -/
def rowsAffected (set : ResultSet) : Except Exception Int32 := do
  let content ← set.wrapper
  return content.rowsCount

/-- `ResultSet::ColumnsAffected`, `result_set.hpp:130`. -/
def columnsAffected (set : ResultSet) : Except Exception Int32 := do
  let content ← set.wrapper
  return content.columnsCount

/-- `_pimpl->RowsContentView()`, `include/cassandra/detail/result_wrapper.hpp:24`. -/
def rowsContentView (set : ResultSet) : Except Exception (List (List (List UInt8))) := do
  let content ← set.wrapper
  return content.rowsContent

/-- `ResultSet::AsSingleRow<std::tuple<...>>(kRowTag)`, `result_set.hpp:229`. -/
def asSingleRow (set : ResultSet) (ts : List ParamType) : Except Exception (Tuple ts) := do
  let row ← set.front
  row.asTuple ts

/-- `ResultSet::AsSingleRow<T>(kFieldTag)`, `result_set.hpp:184`. -/
def asSingleField (set : ResultSet) (t : ParamType) : Except Exception t.Val := do
  let row ← set.front
  row.asField t

end ResultSet

/-- The [int] at a position of a body. -/
def wireInt (body : List UInt8) (o : Nat) : Int32 :=
  IntegralType.int.ofBits (ofBE ((body.drop o).take 4))

/-- The row count of a Rows body: the [int] behind paging state and metadata. Kind, flags and
column count stand in front of these. -/
def wireRowsCount (body : List UInt8) : Option Int32 :=
  ((Layout.append (if hasFlag (wireInt body 4) kHasMorePages then Ty.bytes.layout else .nothing)
    (RowKind.metadataLayout body.length (wireInt body 4) (wireInt body 8))).skip
      (body.drop 12)).map (fun rest ↦ wireInt rest 0)

private theorem finish_int {v : View} {o o' : Nat} {x : Int32}
    (h : finish v (readIntBE .int) o = some (x, o')) :
    x = wireInt v.data o ∧ o' = o + 4 ∧ o' ≤ v.data.length := by
  rw [finish_readIntBE] at h
  split at h
  · next hle =>
    cases h
    exact ⟨rfl, rfl, hle⟩
  · cases h

private theorem finish_forCount {α : Type} {v : View} {item : Reader α} (n : Nat) :
    ∀ {o o' : Nat} {acc xs : List α},
      finish v (Program.forCount n (fun items ↦ do
        let x ← item
        return items ++ [x]) acc) o = some (xs, o') →
      ∃ new, xs = acc ++ new ∧ new.length = n ∧
        ∀ x ∈ new, ∃ o₁ o₂, finish v item o₁ = some (x, o₂) := by
  induction n with
  | zero =>
    intro o o' acc xs h
    cases h
    exact ⟨[], (List.append_nil _).symm, rfl, by simp⟩
  | succ n ih =>
    intro o o' acc xs h
    obtain ⟨acc', o₁, hround, hrest⟩ := finish_bind_eq_some h
    obtain ⟨x, o₂, hitem, hdone⟩ := finish_bind_eq_some hround
    cases hdone
    obtain ⟨new, rfl, hlength, hnew⟩ := ih hrest
    refine ⟨x :: new, by simp, by simp [hlength], ?_⟩
    intro y hy
    rcases List.mem_cons.mp hy with rfl | hy
    · exact ⟨o, o₁, hitem⟩
    · exact hnew y hy

private theorem finish_parseTimes {α : Type} {v : View} {item : Reader α} {count : Int32}
    {o o' : Nat} {xs : List α} (h : finish v (parseTimes count item) o = some (xs, o')) :
    xs.length = count.toInt.toNat ∧ ∀ x ∈ xs, ∃ o₁ o₂, finish v item o₁ = some (x, o₂) := by
  obtain ⟨new, rfl, hlength, hnew⟩ := finish_forCount _ h
  exact ⟨hlength, hnew⟩

private theorem rowKind_finish {v : View} {rows : RowKind} {o : Nat}
    (h : finish v (RowKind.parse v.data.length) 4 = some (rows, o)) :
    rows.columnsCount = wireInt v.data 8 ∧ wireRowsCount v.data = some rows.rowsCount ∧
      (rows.rowsContent.length : Int) = rows.rowsCount.toInt ∧
      ∀ row ∈ rows.rowsContent, row.length = rows.columnsCount.toInt.toNat := by
  obtain ⟨flags, o₁, hflags, h⟩ := finish_bind_eq_some h
  obtain ⟨rfl, rfl, -⟩ := finish_int hflags
  obtain ⟨columnsCount, o₂, hcolumns, h⟩ := finish_bind_eq_some h
  obtain ⟨rfl, rfl, hle⟩ := finish_int hcolumns
  obtain ⟨paging, o₃, hpaging, h⟩ := finish_bind_eq_some h
  obtain ⟨metadata, o₄, hmetadata, h⟩ := finish_bind_eq_some h
  obtain ⟨rowsCount, o₅, hrows, h⟩ := finish_bind_eq_some h
  obtain ⟨rfl, rfl, hle₄⟩ := finish_int hrows
  obtain ⟨_, o₆, hreserve, h⟩ := finish_bind_eq_some h
  obtain ⟨content, o₇, hcontent, h⟩ := finish_bind_eq_some h
  cases h
  obtain ⟨hlength, hcells⟩ := finish_parseTimes hcontent
  have hnonneg : 0 ≤ (wireInt v.data o₄).toInt := by
    by_contra hneg
    rw [reserve, if_pos (by omega)] at hreserve
    cases hreserve
  have hboth : finish v (RowKind.parsePaging (wireInt v.data 4) >>= fun _ ↦
      RowKind.parseMetadata v.data.length (wireInt v.data 4) (wireInt v.data 8)) 12 =
        some (metadata, o₄) := by
    rw [finish_bind, hpaging]
    exact hmetadata
  have hskip := (((paging_follows (v := v) (wireInt v.data 4)).bind
    (fun _ ↦ metadata_follows v.data.length (wireInt v.data 4) (wireInt v.data 8))).whole 12 hle
      (v.data.drop o₄)).mpr ⟨metadata, o₄, by omega, rfl, hboth⟩
  refine ⟨rfl, ?_, ?_, ?_⟩
  · rw [wireRowsCount, hskip]
    rfl
  · change (content.length : Int) = (wireInt v.data o₄).toInt
    omega
  · intro row hrow
    obtain ⟨o₁, o₂, hrow⟩ := hcells row hrow
    exact (finish_parseTimes hrow).1

private theorem read_ne_memoryFault (t : ParamType) (cell : List UInt8) :
    t.read cell ≠ .error .memoryFault := by
  cases t with
  | integral i =>
    intro h
    have hrun := (readIntBE_run i ⟨cell, fun _ ↦ 0⟩).symm.trans h
    split at hrun
    · cases hrun
    · cases hrun
  | string =>
    intro h
    cases h

private theorem extractTuple_ne_memoryFault (cells : List (List UInt8)) (ts : List ParamType) :
    ∀ index, index + ts.length ≤ cells.length →
      Row.extractTuple cells ts index ≠ .error .memoryFault := by
  induction ts with
  | nil => simp [Row.extractTuple]
  | cons t ts ih =>
    intro index hle
    rw [List.length_cons] at hle
    have hlt : index < cells.length := by omega
    simp only [Row.extractTuple, List.getElem?_eq_getElem hlt]
    cases hread : t.read cells[index] with
    | error e =>
      intro h
      cases h
      exact read_ne_memoryFault t _ hread
    | ok value =>
      cases hrest : Row.extractTuple cells ts (index + 1) with
      | error e =>
        intro h
        cases h
        exact ih (index + 1) (by omega) hrest
      | ok rest =>
        intro h
        cases h

private theorem asTuple_ne_memoryFault (row : Row) (ts : List ParamType)
    (h : (row.rowContent.length : Int) = row.columnsCount.toInt) :
    row.asTuple ts ≠ .error .memoryFault := by
  have hbound : row.rowContent.length ≤ LenType.int.bound := by
    have hlt := Int32.toInt_lt row.columnsCount
    rw [← h] at hlt
    change row.rowContent.length ≤ 2 ^ 31 - 1
    omega
  have hsize : row.size = row.rowContent.length := by
    rw [Row.size, ← h, sizeT_natCast .int _ hbound]
  rw [Row.asTuple, hsize]
  split
  · simp
  · next hle => exact extractTuple_ne_memoryFault _ _ 0 (by omega)

private theorem mapM_ne_memoryFault {α β : Type} {f : α → Except Exception β} (xs : List α)
    (h : ∀ x ∈ xs, f x ≠ .error .memoryFault) : xs.mapM f ≠ .error .memoryFault := by
  induction xs with
  | nil =>
    intro he
    cases he
  | cons x xs ih =>
    have htail := ih (fun y hy ↦ h y (List.mem_cons_of_mem _ hy))
    rw [List.mapM_cons]
    cases hhead : f x with
    | error e =>
      intro he
      cases he
      exact h x List.mem_cons_self hhead
    | ok y =>
      cases hrest : xs.mapM f with
      | error e =>
        intro he
        cases he
        exact htail hrest
      | ok ys =>
        intro he
        cases he

namespace ResultWrapper

/-- As many rows as announced, and as many cells in each. -/
structure Rectangular (content : ResultWrapper) : Prop where
  rows : (content.rowsContent.length : Int) = content.rowsCount.toInt
  cells : ∀ row ∈ content.rowsContent, (row.length : Int) = content.columnsCount.toInt

/-- No way of extracting tuples or fields reaches for a row or a cell that is not there. -/
structure ExtractsInside (content : ResultWrapper) : Prop where
  row : ∀ row ∈ content.rowsContent, ∀ ts,
    Row.asTuple ⟨row, content.columnsCount⟩ ts ≠ .error .memoryFault
  field : ∀ row ∈ content.rowsContent, ∀ t,
    Row.asField ⟨row, content.columnsCount⟩ t ≠ .error .memoryFault
  singleRow : ∀ ts, ResultSet.asSingleRow (some content) ts ≠ .error .memoryFault
  singleField : ∀ t, ResultSet.asSingleField (some content) t ≠ .error .memoryFault
  container : ∀ ts, ResultSet.asContainer (some content) ts ≠ .error .memoryFault

/-- A rectangular result with rows and columns is extracted inside. -/
theorem Rectangular.extractsInside {content : ResultWrapper} (h : content.Rectangular)
    (hrows : content.rowsContent ≠ []) (hcolumns : 1 ≤ content.columnsCount.toInt) :
    content.ExtractsInside := by
  have hrow : ∀ row ∈ content.rowsContent, ∀ ts,
      Row.asTuple ⟨row, content.columnsCount⟩ ts ≠ .error .memoryFault :=
    fun row hr ts ↦ asTuple_ne_memoryFault ⟨row, content.columnsCount⟩ ts (h.cells row hr)
  have hfield : ∀ row ∈ content.rowsContent, ∀ t,
      Row.asField ⟨row, content.columnsCount⟩ t ≠ .error .memoryFault := by
    intro row hr t
    have hlength := h.cells row hr
    cases row with
    | nil =>
      rw [List.length_nil] at hlength
      omega
    | cons cell row => exact read_ne_memoryFault t cell
  obtain ⟨first, rest, hcontent⟩ := List.exists_cons_of_ne_nil hrows
  have hfront : ResultSet.front (some content) = .ok ⟨first, content.columnsCount⟩ := by
    simp only [ResultSet.front, hcontent]
  have hfirst : first ∈ content.rowsContent := hcontent ▸ List.mem_cons_self
  refine ⟨hrow, hfield, ?_, ?_, ?_⟩
  · intro ts
    rw [ResultSet.asSingleRow, hfront]
    exact hrow first hfirst ts
  · intro t
    rw [ResultSet.asSingleField, hfront]
    exact hfield first hfirst t
  · intro ts
    exact mapM_ne_memoryFault _ (fun row hr ↦ hrow row hr ts)

/-- Rows without cells have no first field. -/
theorem ExtractsInside.columns_pos {content : ResultWrapper} (h : content.ExtractsInside)
    (hrows : content.rowsContent ≠ [])
    (hcells : ∀ row ∈ content.rowsContent, row.length = content.columnsCount.toInt.toNat) :
    1 ≤ content.columnsCount.toInt := by
  obtain ⟨first, hfirst⟩ := List.exists_mem_of_ne_nil _ hrows
  have hlength := hcells first hfirst
  have hfield := h.field first hfirst .string
  cases first with
  | nil => exact absurd rfl hfield
  | cons cell first =>
    rw [List.length_cons] at hlength
    omega

end ResultWrapper

private theorem resultSet_of_doParseBody {body : View} {message : ResponseMessage}
    (h : ResponseMessage.doParseBody .result body = .ok message) :
    (wireInt body.data 0 = 2 ∧ ∃ rows o,
      finish body (RowKind.parse body.data.length) 4 = some (rows, o) ∧
      resultSetOfBody body = .ok (some ⟨rows.rowsContent, rows.columnsCount, rows.rowsCount⟩)) ∨
    (wireInt body.data 0 ≠ 2 ∧ resultSetOfBody body = .ok none) := by
  obtain ⟨-, payload, o, rfl, hpayload⟩ := result_of_doParseBody h
  change finish body (ResultPayload.parse body.data.length (wireInt body.data 0)) 4 = _ at hpayload
  change ResponseMessage.doParseBody .result body =
    .ok (.result (wireInt body.data 0) payload) at h
  by_cases hkind : wireInt body.data 0 = 2
  · rw [ResultPayload.parse, if_pos hkind] at hpayload
    obtain ⟨rows, o', hrows, hdone⟩ := finish_bind_eq_some hpayload
    cases hdone
    refine .inl ⟨hkind, rows, o, hrows, ?_⟩
    rw [resultSetOfBody, h, hkind]
    rfl
  · refine .inr ⟨hkind, ?_⟩
    rw [resultSetOfBody, h]
    exact if_pos hkind

/-- An accepted Rows body is rectangular and its extraction stays inside exactly when it
holds no rows or at least one column. -/
theorem acceptedRows_inside_iff (body : View) (message : ResponseMessage)
    (h : ResponseMessage.doParseBody .result body = .ok message)
    (hkind : wireInt body.data 0 = 2) :
    ∃ content, resultSetOfBody body = .ok (some content) ∧
      ((content.Rectangular ∧ (ResultSet.empty (some content) = false → content.ExtractsInside)) ↔
        (wireRowsCount body.data = some 0 ∨ 1 ≤ (wireInt body.data 8).toInt)) := by
  rcases resultSet_of_doParseBody h with ⟨-, rows, o, hrows, hset⟩ | ⟨hne, -⟩
  · obtain ⟨hcolumns, hcount, hlength, hcells⟩ := rowKind_finish hrows
    refine ⟨_, hset, ?_⟩
    rw [hcount, ← hcolumns]
    have hzero : some rows.rowsCount = some 0 ↔ rows.rowsContent = [] := by
      rw [Option.some_inj, ← List.length_eq_zero_iff, ← Int32.toInt_inj]
      change rows.rowsCount.toInt = 0 ↔ _
      omega
    have hempty : rows.rowsContent ≠ [] ↔
        ResultSet.empty (some ⟨rows.rowsContent, rows.columnsCount, rows.rowsCount⟩) = false := by
      simp [ResultSet.empty]
    rw [hzero, ← hempty]
    constructor
    · rintro ⟨-, hinside⟩
      by_cases hnil : rows.rowsContent = []
      · exact .inl hnil
      · exact .inr ((hinside hnil).columns_pos hnil hcells)
    · rintro (hnil | hpos)
      · refine ⟨⟨hlength, ?_⟩, fun hne ↦ absurd hnil hne⟩
        change ∀ row ∈ rows.rowsContent, _
        simp [hnil]
      · have hrect : ResultWrapper.Rectangular
            ⟨rows.rowsContent, rows.columnsCount, rows.rowsCount⟩ := by
          refine ⟨hlength, fun row hrow ↦ ?_⟩
          have hcell := hcells row hrow
          change (row.length : Int) = rows.columnsCount.toInt
          omega
        exact ⟨hrect, fun hne ↦ hrect.extractsInside hne hpos⟩
  · exact absurd hkind hne

/-- One row, no metadata, and minus one columns. -/
def negativeColumns : View := ⟨[0, 0, 0, 2, 0, 0, 0, 4, 255, 255, 255, 255, 0, 0, 0, 1], fun _ ↦ 0⟩

/-- The body is accepted; its only row has no cells, and the guard of `Row::To` lets a tuple
of one field through to the first of them. -/
theorem negativeColumns_leaves :
    (∃ message, ResponseMessage.doParseBody .result negativeColumns = .ok message) ∧
      resultSetOfBody negativeColumns = .ok (some ⟨[[]], -1, 1⟩) ∧
      Row.asTuple ⟨[], -1⟩ [.integral .int] = .error .memoryFault ∧
      ¬ ∀ (body : View) (message : ResponseMessage) (content : ResultWrapper),
        ResponseMessage.doParseBody .result body = .ok message →
        resultSetOfBody body = .ok (some content) →
        content.Rectangular ∧
          (ResultSet.empty (some content) = false → content.ExtractsInside) := by
  have hset : resultSetOfBody negativeColumns = .ok (some ⟨[[]], -1, 1⟩) := rfl
  refine ⟨⟨_, rfl⟩, hset, rfl, ?_⟩
  intro hall
  have hrect := (hall negativeColumns _ _ rfl hset).1
  have hcells := hrect.cells [] List.mem_cons_self
  exact absurd hcells (by decide)

/-- One row of one column without metadata. -/
def oneCell : View :=
  ⟨[0, 0, 0, 2, 0, 0, 0, 4, 0, 0, 0, 1, 0, 0, 0, 1, 0, 0, 0, 1, 7], fun _ ↦ 0⟩

/-- The one cell is extracted inside its row. -/
theorem acceptedRows_inside_oneCell :
    ∃ content, resultSetOfBody oneCell = .ok (some content) ∧ content.Rectangular ∧
      (ResultSet.empty (some content) = false → content.ExtractsInside) := by
  obtain ⟨content, hset, hiff⟩ := acceptedRows_inside_iff oneCell _ rfl (by decide)
  obtain ⟨hrect, hinside⟩ := hiff.mpr (.inr (by decide))
  exact ⟨content, hset, hrect, hinside⟩

/-- No accessor meets a null wrapper, and a result that is not Rows counts as no rows. -/
structure AccessorsDefined (kind : Int32) (set : ResultSet) : Prop where
  rowsAffected : set.rowsAffected ≠ .error .memoryFault
  columnsAffected : set.columnsAffected ≠ .error .memoryFault
  rowsContentView : set.rowsContentView ≠ .error .memoryFault
  noRows : kind ≠ 2 →
    set.rowsAffected = .ok 0 ∧ set.empty = true ∧ ∀ ts, set.asContainer ts = .ok []

/-- The accessors are defined on the set of an accepted body exactly when its kind is Rows. -/
theorem accessorsDefined_iff (body : View) (message : ResponseMessage)
    (h : ResponseMessage.doParseBody .result body = .ok message) :
    ∃ set, resultSetOfBody body = .ok set ∧
      (AccessorsDefined (wireInt body.data 0) set ↔ wireInt body.data 0 = 2) := by
  rcases resultSet_of_doParseBody h with ⟨hkind, rows, o, -, hset⟩ | ⟨hkind, hset⟩
  · refine ⟨_, hset, fun _ ↦ hkind, fun _ ↦ ⟨?_, ?_, ?_, fun hne ↦ absurd hkind hne⟩⟩
    · intro he
      cases he
    · intro he
      cases he
    · intro he
      cases he
  · refine ⟨_, hset, fun hdefined ↦ absurd rfl hdefined.rowsAffected, fun he ↦ absurd he hkind⟩

/-- A Void result, the answer to every successful mutation. -/
def voidResult : View := ⟨[0, 0, 0, 1], fun _ ↦ 0⟩

/-- `RowsAffected` after a mutation goes through the null wrapper. -/
theorem voidResult_dereferenced :
    (∃ message, ResponseMessage.doParseBody .result voidResult = .ok message) ∧
      resultSetOfBody voidResult = .ok none ∧
      ResultSet.rowsAffected none = .error .memoryFault ∧
      ResultSet.asContainer none [.integral .int] = .error .memoryFault ∧
      ¬ ∀ (body : View) (message : ResponseMessage) (set : ResultSet),
        ResponseMessage.doParseBody .result body = .ok message →
        resultSetOfBody body = .ok set → AccessorsDefined (wireInt body.data 0) set := by
  refine ⟨⟨_, rfl⟩, rfl, rfl, rfl, ?_⟩
  intro hall
  exact absurd rfl (hall voidResult _ none rfl rfl).rowsAffected

/-- All accessors are defined on the one row. -/
theorem accessorsDefined_oneCell :
    ∃ set, resultSetOfBody oneCell = .ok set ∧ AccessorsDefined (wireInt oneCell.data 0) set := by
  obtain ⟨set, hset, hiff⟩ := accessorsDefined_iff oneCell _ rfl
  exact ⟨set, hset, hiff.mpr (by decide)⟩

end CassandraDriver.Detail
