import Mathlib.Data.List.Forall2
import CassandraDriver.Detail.ResultSet

/-!
# What the cells of a row keep

Library `Detail`. Models nothing new: what the cell parser of
`include/cassandra/io/list_types.hpp:77` and the extraction of `include/cassandra/row.hpp:332`
make of a cell. A null cell becomes an empty one, and an integral field takes the bytes it
needs from the front of its cell.
-/

namespace CassandraDriver.Detail
open CassandraDriver.Lib CassandraDriver.Io CassandraDriver.Protocol

/-- Two cells are the same, or one is null and the other an empty value. -/
def NullOrEmpty (cell cell' : Option (List UInt8)) : Prop :=
  cell = cell' ∨ (cell = none ∧ cell' = some []) ∨ (cell = some [] ∧ cell' = none)

/-- Two results differ, and in nothing but cells that are null in one and empty in the other. -/
structure DifferInNulls (r r' : V4.Rows) : Prop where
  metadata : r'.metadata = r.metadata
  pagingState : r'.pagingState = r.pagingState
  cells : List.Forall₂ (List.Forall₂ NullOrEmpty) r.rows r'.rows
  differ : r.rows ≠ r'.rows

private theorem map_eq_of_forall₂ {α β : Type} {R : α → α → Prop} {f : α → β} {xs ys : List α}
    (hf : ∀ x y, R x y → f x = f y) (h : List.Forall₂ R xs ys) : xs.map f = ys.map f := by
  induction h with
  | nil => rfl
  | cons hxy _ ih => rw [List.map_cons, List.map_cons, hf _ _ hxy, ih]

/-- A parser keeps the same content for both cells. -/
theorem NullOrEmpty.content_eq {cell cell' : Option (List UInt8)} (h : NullOrEmpty cell cell') :
    cell.getD [] = cell'.getD [] := by
  rcases h with rfl | ⟨rfl, rfl⟩ | ⟨rfl, rfl⟩
  · rfl
  · rfl
  · rfl

/-- The cells that a parser keeps are the same for both. -/
theorem DifferInNulls.rowsContent_eq {r r' : V4.Rows} (h : DifferInNulls r r') :
    r.toRowKind.rowsContent = r'.toRowKind.rowsContent := by
  apply map_eq_of_forall₂ _ h.cells
  intro row row' hrow
  exact map_eq_of_forall₂ (fun _ _ hcell ↦ hcell.content_eq) hrow

/-- Whatever two well-formed Rows bodies differ in nulls and empty values only, their result
sets are the same. -/
theorem nulls_lost {r r' : V4.Rows} (hr : r.Fits) (hr' : r'.Fits) (h : DifferInNulls r r')
    (beyond beyond' : Nat → UInt8) :
    ∃ set, resultSetOfBody ⟨(V4.Result.rows r).encode, beyond⟩ = .ok set ∧
      resultSetOfBody ⟨(V4.Result.rows r').encode, beyond'⟩ = .ok set := by
  refine ⟨_, resultSetOfBody_rows r hr beyond, ?_⟩
  rw [resultSetOfBody_rows r' hr' beyond', h.rowsContent_eq, h.metadata, h.cells.length_eq]

/-- One column and one row, with a null cell or an empty value in it. -/
def singleCell (cell : Option (List UInt8)) : V4.Rows where
  metadata := .omitted false 1
  pagingState := none
  rows := [[cell]]
  rectangular := by simp [V4.Metadata.columnsCount]

private theorem singleCell_differ : DifferInNulls (singleCell none) (singleCell (some [])) where
  metadata := rfl
  pagingState := rfl
  cells := .cons (.cons (.inr (.inl ⟨rfl, rfl⟩)) .nil) .nil
  differ := by decide

private theorem singleCell_fits (cell : Option (List UInt8))
    (h : ∀ bs ∈ cell, bs.length ≤ LenType.int.bound) : (singleCell cell).Fits := by
  refine ⟨by simp [singleCell, V4.Metadata.Fits, LenType.bound], by simp [singleCell], ?_, ?_⟩
  · simp [singleCell, LenType.bound]
  · simpa [singleCell] using h

/-- A null cell and an empty one arrive alike. -/
theorem nulls_lost_singleCell :
    DifferInNulls (singleCell none) (singleCell (some [])) ∧ ∃ set,
      resultSetOfBody ⟨(V4.Result.rows (singleCell none)).encode, fun _ ↦ 0⟩ = .ok set ∧
      resultSetOfBody ⟨(V4.Result.rows (singleCell (some []))).encode, fun _ ↦ 0⟩ = .ok set :=
  ⟨singleCell_differ, nulls_lost (singleCell_fits _ (by simp)) (singleCell_fits _ (by simp))
    singleCell_differ (fun _ ↦ 0) (fun _ ↦ 0)⟩

/-- So bodies that differ in nulls are not told apart. -/
theorem singleCell_indistinct :
    ¬ ∀ (r r' : V4.Rows), r.Fits → r'.Fits → DifferInNulls r r' → ∀ beyond beyond',
      resultSetOfBody ⟨(V4.Result.rows r).encode, beyond⟩ ≠
        resultSetOfBody ⟨(V4.Result.rows r').encode, beyond'⟩ := by
  intro h
  have hne := h (singleCell none) (singleCell (some [])) (singleCell_fits _ (by simp))
    (singleCell_fits _ (by simp)) singleCell_differ (fun _ ↦ 0) (fun _ ↦ 0)
  rw [resultSetOfBody_rows _ (singleCell_fits _ (by simp)),
    resultSetOfBody_rows _ (singleCell_fits _ (by simp))] at hne
  exact hne rfl

namespace Cell

/-- The width of a field, where its type has one. -/
def width : ParamType → Option Nat
  | .integral i => some i.width
  | .string => none

/-- The cell has fewer bytes than the field is wide. -/
def Narrow (t : ParamType) (cell : List UInt8) : Prop := ∃ w ∈ width t, cell.length < w

/-- The cell has more bytes than the field is wide. -/
def Wide (t : ParamType) (cell : List UInt8) : Prop := ∃ w ∈ width t, w < cell.length

/-- The cell has as many bytes as the field is wide, where that has a width. -/
def Exact (t : ParamType) (cell : List UInt8) : Prop := ∀ w ∈ width t, cell.length = w

/-- A conversion returns a value only if the cell of every field is exact, and otherwise
throws. -/
def ChecksWidths {α : Type} (fields : List (ParamType × List UInt8))
    (result : Except Exception α) : Prop :=
  ((∃ value, result = .ok value) → ∀ f ∈ fields, Exact f.1 f.2) ∧
    ((¬ ∀ f ∈ fields, Exact f.1 f.2) → ∃ e, e ≠ .memoryFault ∧ result = .error e)

private theorem exact_iff (t : ParamType) (cell : List UInt8) :
    Exact t cell ↔ ¬ Narrow t cell ∧ ¬ Wide t cell := by
  cases hw : width t with
  | none => simp [Exact, Narrow, Wide, hw]
  | some w =>
    simp only [Exact, Narrow, Wide, hw, Option.mem_some_iff, forall_eq', exists_eq_left']
    omega

/-- Reading a field succeeds unless its cell is too narrow. -/
theorem read_cases (t : ParamType) (cell : List UInt8) :
    (¬ Narrow t cell ∧ ∃ value, t.read cell = .ok value) ∨
      (Narrow t cell ∧ t.read cell = .error (.runtimeError "Buffer underread")) := by
  cases t with
  | string => exact .inl ⟨by simp [Narrow, width], cell, rfl⟩
  | integral i =>
    have hnarrow : Narrow (.integral i) cell ↔ ¬ 0 + i.width ≤ cell.length := by
      simp only [Narrow, width, Option.mem_some_iff, exists_eq_left']
      omega
    by_cases hsize : 0 + i.width ≤ cell.length
    · exact .inl ⟨fun h ↦ hnarrow.mp h hsize, _, congrArg Prod.fst (if_pos hsize)⟩
    · exact .inr ⟨hnarrow.mpr hsize, congrArg Prod.fst (if_neg hsize)⟩

/-- Extraction succeeds unless the cell of some field is too narrow. -/
theorem extractTuple_cases (ts : List ParamType) (pre cells : List (List UInt8))
    (h : ts.length ≤ cells.length) :
    ((∀ f ∈ ts.zip cells, ¬ Narrow f.1 f.2) ∧
        ∃ value, Row.extractTuple (pre ++ cells) ts pre.length = .ok value) ∨
      ((∃ f ∈ ts.zip cells, Narrow f.1 f.2) ∧ Row.extractTuple (pre ++ cells) ts pre.length =
        .error (.runtimeError "Buffer underread")) := by
  induction ts generalizing pre cells with
  | nil => exact .inl ⟨by simp, (), rfl⟩
  | cons t ts ih =>
    cases cells with
    | nil => simp at h
    | cons cell cells =>
      have hcell : (pre ++ cell :: cells)[pre.length]? = some cell := by simp
      have hrest := ih (pre ++ [cell]) cells (by simpa using h)
      rw [List.append_assoc, List.singleton_append, List.length_append, List.length_singleton]
        at hrest
      rw [List.zip_cons_cons]
      simp only [Row.extractTuple, hcell]
      rcases read_cases t cell with ⟨hwide, value, hread⟩ | ⟨hnarrow, hread⟩
      · rcases hrest with ⟨hall, rest, hrest⟩ | ⟨hsome, hrest⟩
        · refine .inl ⟨List.forall_mem_cons.mpr ⟨hwide, hall⟩, (value, rest), ?_⟩
          simp only [hread, hrest]
          rfl
        · obtain ⟨f, hf, hnarrow⟩ := hsome
          refine .inr ⟨⟨f, List.mem_cons_of_mem _ hf, hnarrow⟩, ?_⟩
          simp only [hread, hrest]
          rfl
      · refine .inr ⟨⟨(t, cell), List.mem_cons_self, hnarrow⟩, ?_⟩
        simp only [hread]
        rfl

/-- When a conversion that fails on cells that are too narrow, and only then, checks the
widths. -/
theorem checksWidths_iff {α : Type} {fields : List (ParamType × List UInt8)}
    {result : Except Exception α}
    (h : ((∀ f ∈ fields, ¬ Narrow f.1 f.2) ∧ ∃ value, result = .ok value) ∨
      ((∃ f ∈ fields, Narrow f.1 f.2) ∧ result = .error (.runtimeError "Buffer underread"))) :
    ChecksWidths fields result ↔
      (∃ f ∈ fields, Narrow f.1 f.2) ∨ ∀ f ∈ fields, ¬ Wide f.1 f.2 := by
  rcases h with ⟨hall, value, hresult⟩ | ⟨hsome, hresult⟩
  · constructor
    · intro hchecks
      refine .inr (fun f hf ↦ ?_)
      exact ((exact_iff _ _).mp (hchecks.1 ⟨value, hresult⟩ f hf)).2
    · intro hcond
      have hexact : ∀ f ∈ fields, Exact f.1 f.2 := by
        intro f hf
        rcases hcond with ⟨f', hf', hnarrow⟩ | hwide
        · exact absurd hnarrow (hall f' hf')
        · exact (exact_iff _ _).mpr ⟨hall f hf, hwide f hf⟩
      exact ⟨fun _ ↦ hexact, fun hnot ↦ absurd hexact hnot⟩
  · constructor
    · intro _
      exact .inl hsome
    · intro _
      refine ⟨?_, fun _ ↦ ⟨_, by decide, hresult⟩⟩
      rintro ⟨value, hok⟩
      rw [hresult] at hok
      cases hok

/-- A row that has its columns, for at most as many fields, is handed to the extraction. -/
theorem asTuple_eq {row : Row} {ts : List ParamType}
    (hcolumns : row.columnsCount.toInt = row.rowContent.length)
    (hfields : ts.length ≤ row.rowContent.length) :
    row.asTuple ts = Row.extractTuple row.rowContent ts 0 := by
  have hsize : row.size = row.rowContent.length := by
    have hlt := Int32.toInt_lt row.columnsCount
    rw [Row.size, sizeT]
    omega
  rw [Row.asTuple, hsize, if_neg (by omega)]

/-- Conversion of a row to a tuple checks the widths exactly when some cell is too narrow for
its field or none is too wide; conversion of its first cell does exactly when that is not too
wide. -/
theorem checksWidths_row_iff (row : Row) (ts : List ParamType)
    (hcolumns : row.columnsCount.toInt = row.rowContent.length)
    (hfields : ts.length ≤ row.rowContent.length) :
    (ChecksWidths (ts.zip row.rowContent) (row.asTuple ts) ↔
      (∃ f ∈ ts.zip row.rowContent, Narrow f.1 f.2) ∨
        ∀ f ∈ ts.zip row.rowContent, ¬ Wide f.1 f.2) ∧
    ∀ t cell rest, row.rowContent = cell :: rest →
      (ChecksWidths [(t, cell)] (row.asField t) ↔ ¬ Wide t cell) := by
  constructor
  · rw [asTuple_eq hcolumns hfields]
    exact checksWidths_iff (extractTuple_cases ts [] row.rowContent hfields)
  · intro t cell rest hrow
    have hfield : row.asField t = t.read cell := by rw [Row.asField, hrow]
    have hexcludes : Narrow t cell → ¬ Wide t cell := by
      rintro ⟨w, hw, hlt⟩ ⟨w', hw', hlt'⟩
      cases Option.mem_unique hw hw'
      omega
    have hread : ((∀ f ∈ [(t, cell)], ¬ Narrow f.1 f.2) ∧ ∃ value, t.read cell = .ok value) ∨
        ((∃ f ∈ [(t, cell)], Narrow f.1 f.2) ∧
          t.read cell = .error (.runtimeError "Buffer underread")) := by
      simpa using read_cases t cell
    rw [hfield, checksWidths_iff hread]
    simp only [List.mem_singleton, exists_eq_left, forall_eq]
    constructor
    · rintro (hnarrow | hwide)
      · exact hexcludes hnarrow
      · exact hwide
    · exact fun hwide ↦ .inr hwide

/-- The answer to a `COUNT(*)`, a `BIGINT` of five. -/
def countRow : Row := ⟨[[0, 0, 0, 0, 0, 0, 0, 5]], 1⟩

/-- The count is checked as a field of 64 bits, and not as one of 32. -/
theorem checksWidths_row_iff_countRow :
    countRow.columnsCount.toInt = countRow.rowContent.length ∧
      ChecksWidths ([.integral .bigInt].zip countRow.rowContent)
        (countRow.asTuple [.integral .bigInt]) ∧
      ¬ ChecksWidths [(.integral .int, [0, 0, 0, 0, 0, 0, 0, 5])]
        (countRow.asField (.integral .int)) := by
  have hcolumns : countRow.columnsCount.toInt = countRow.rowContent.length := by decide
  have hiff := checksWidths_row_iff countRow [.integral .bigInt] hcolumns (by decide)
  refine ⟨hcolumns, hiff.1.mpr (.inr ?_), fun h ↦ (hiff.2 _ _ [] rfl).mp h ?_⟩
  · rintro f hf ⟨w, hw, hlt⟩
    cases List.mem_singleton.mp hf
    cases hw
    exact absurd hlt (by decide)
  · exact ⟨4, rfl, by decide⟩

/-- Read as a 32-bit number, that count is zero. -/
theorem countRow_misread :
    countRow.asTuple [.integral .int] = .ok ((0 : Int32), ()) ∧
      ¬ ∀ (row : Row) (ts : List ParamType), row.columnsCount.toInt = row.rowContent.length →
        ts.length ≤ row.rowContent.length →
        ChecksWidths (ts.zip row.rowContent) (row.asTuple ts) := by
  have hvalue : countRow.asTuple [.integral .int] = .ok ((0 : Int32), ()) := by rfl
  refine ⟨hvalue, fun h ↦ ?_⟩
  have hexact := (h countRow [.integral .int] (by decide) (by decide)).1 ⟨_, hvalue⟩
    (.integral .int, [0, 0, 0, 0, 0, 0, 0, 5]) (by decide) 4 rfl
  exact absurd hexact (by decide)

end Cell
end CassandraDriver.Detail
