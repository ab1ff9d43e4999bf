import CassandraDriver.Io.Cell
import CassandraDriver.Protocol.ResultFaithful

/-!
# Parameters and result sets

Library `Detail`. Models `include/cassandra/detail/query_parameters.hpp`, the extraction of
`include/cassandra/row.hpp` and `include/cassandra/result_set.hpp`, and
`ResultMessage::GetResultSet`. Packs of arguments and tuples are `Tuple`s; a fold over a pack
is a recursion that carries the source's own index counter.
-/

namespace CassandraDriver.Detail
open CassandraDriver.Lib CassandraDriver.Io CassandraDriver.Protocol

/-- `Write(index, arg)` of both parameter holders, `query_parameters.hpp:51,98`. The array of
the static holder is indexed unchecked, the vector of the dynamic one with `at`. -/
def writeAt (missing : Exception) (cells : List (List UInt8)) (index : Nat) (t : ParamType)
    (arg : t.Val) : Except Exception (List (List UInt8)) :=
  match cells[index]? with
  | some cell => ((t.write arg).run cell).map (fun written ↦ cells.set index written.2)
  | none => .error missing

/-- `(Write(index++, args), ...)` from a given index on. -/
def writeFrom (missing : Exception) :
    (ts : List ParamType) → Tuple ts → Nat → List (List UInt8) →
      Except Exception (List (List UInt8))
  | [], _, _, cells => .ok cells
  | t :: ts, args, index, cells => do
    let cells ← writeAt missing cells index t args.1
    writeFrom missing ts args.2 (index + 1) cells

/-- `StaticQueryParameters::Write(args...)`, `query_parameters.hpp:60`. -/
def StaticQueryParameters.write (paramsCount : Nat) (cells : List (List UInt8))
    (ts : List ParamType) (args : Tuple ts) : Except Exception (List (List UInt8)) :=
  if ts.length ≠ paramsCount then
    .error (.error ("Invalid number of arguments: expected " ++ toString paramsCount ++
      ", got " ++ toString ts.length))
  else writeFrom .memoryFault ts args 0 cells

/-- `DynamicQueryParameters::Write(args...)`, `query_parameters.hpp:104`. -/
def DynamicQueryParameters.write (cells : List (List UInt8)) (ts : List ParamType)
    (args : Tuple ts) : Except Exception (List (List UInt8)) :=
  writeFrom (.outOfRange "vector::at") ts args 0
    (cells.take ts.length ++ List.replicate (ts.length - cells.length) [])

/-- The two parameter holders. -/
inductive ParamsHolder
  | static
  | dynamic
  deriving DecidableEq, Repr

/-- The buffers of a new holder that is given one argument list, as in `Session::Execute`
(`include/cassandra/session.hpp:393`) and `BatchQuery` (`include/cassandra/batch_query.hpp:81`). -/
def ParamsHolder.bind (ts : List ParamType) (args : Tuple ts) :
    ParamsHolder → Except Exception (List (List UInt8))
  | static => StaticQueryParameters.write ts.length (List.replicate ts.length []) ts args
  | dynamic => DynamicQueryParameters.write [] ts args

/-- The fold fills the empty buffers behind those already written. -/
theorem writeFrom_replicate (missing : Exception) (ts : List ParamType) (args : Tuple ts)
    (pre : List (List UInt8)) :
    writeFrom missing ts args pre.length (pre ++ List.replicate ts.length []) =
      .ok (pre ++ Tuple.encode ts args) := by
  induction ts generalizing pre with
  | nil => rfl
  | cons t ts ih =>
    have hget : (pre ++ List.replicate (t :: ts).length ([] : List UInt8))[pre.length]? =
        some [] := by
      simp [List.replicate_succ]
    have hset : (pre ++ List.replicate (t :: ts).length ([] : List UInt8)).set pre.length
        (t.encode args.1) = pre ++ [t.encode args.1] ++ List.replicate ts.length [] := by
      simp [List.replicate_succ]
    have hat : writeAt missing (pre ++ List.replicate (t :: ts).length []) pre.length t args.1 =
        .ok (pre ++ [t.encode args.1] ++ List.replicate ts.length []) := by
      rw [writeAt, hget]
      simp only [t.write_run, Except.map, hset]
    have htail := ih args.2 (pre ++ [t.encode args.1])
    rw [List.length_append, List.length_singleton] at htail
    rw [writeFrom, hat]
    exact htail.trans (by rw [List.append_assoc]; rfl)

/-- Both holders end up with the buffers of the arguments. -/
theorem ParamsHolder.bind_eq (ts : List ParamType) (args : Tuple ts) (holder : ParamsHolder) :
    holder.bind ts args = .ok (Tuple.encode ts args) := by
  cases holder with
  | static =>
    rw [bind, StaticQueryParameters.write, if_neg (not_not.mpr rfl)]
    exact writeFrom_replicate .memoryFault ts args []
  | dynamic =>
    rw [bind, DynamicQueryParameters.write, List.take_nil, List.length_nil, Nat.sub_zero]
    exact writeFrom_replicate (.outOfRange "vector::at") ts args []

/-- `Row`, `include/cassandra/row.hpp:68`. -/
structure Row where
  rowContent : List (List UInt8)
  columnsCount : Int32

namespace Row

/-- `Row::Size`: the count becomes a `size_t`. -/
def size (row : Row) : Nat := sizeT row.columnsCount.toInt

/-- `RowDataExtractorBase::ExtractTuple`, `row.hpp:332`, from a column index on. The cells
are indexed unchecked. -/
def extractTuple (cells : List (List UInt8)) :
    (ts : List ParamType) → Nat → Except Exception (Tuple ts)
  | [], _ => .ok ()
  | t :: ts, columnIndex =>
    match cells[columnIndex]? with
    | none => .error .memoryFault
    | some cell => do
      let value ← t.read cell
      let rest ← extractTuple cells ts (columnIndex + 1)
      return (value, rest)

/-- `As<std::tuple<...>>(kRowTag)` with `Row::To`, `row.hpp:421`. -/
def asTuple (row : Row) (ts : List ParamType) : Except Exception (Tuple ts) :=
  if ts.length > row.size then
    .error (.error ("Row size (" ++ toString row.size ++
      ") is less than the number of data members in C++ user datatype (" ++
      toString ts.length ++ ")"))
  else extractTuple row.rowContent ts 0

/-- `As<T>(kFieldTag)`, `row.hpp:160`: the first cell. -/
def asField (row : Row) (t : ParamType) : Except Exception t.Val :=
  match row.rowContent with
  | [] => .error .memoryFault
  | cell :: _ => t.read cell

/-- Extraction reads the tuple whose buffers stand from the index on. -/
theorem extractTuple_encode (ts : List ParamType) (x : Tuple ts) (pre : List (List UInt8)) :
    extractTuple (pre ++ Tuple.encode ts x) ts pre.length = .ok x := by
  induction ts generalizing pre with
  | nil => rfl
  | cons t ts ih =>
    have hget : (pre ++ Tuple.encode (t :: ts) x)[pre.length]? = some (t.encode x.1) := by
      simp [Tuple.encode]
    have hcells : pre ++ Tuple.encode (t :: ts) x =
        pre ++ [t.encode x.1] ++ Tuple.encode ts x.2 := by
      simp [Tuple.encode]
    have htail := ih x.2 (pre ++ [t.encode x.1])
    rw [List.length_append, List.length_singleton, ← hcells] at htail
    simp only [extractTuple, hget, t.read_encode, htail]
    rfl

/-- A row whose cells are the buffers of a tuple is extracted as that tuple. -/
theorem asTuple_encode (ts : List ParamType) (x : Tuple ts)
    (h : ts.length ≤ LenType.int.bound) :
    asTuple ⟨Tuple.encode ts x, Int32.ofNat ts.length⟩ ts = .ok x := by
  have hcast : (Int32.ofNat ts.length).toInt = ts.length := LenType.int.toInt_cast ts.length h
  have hsize : size ⟨Tuple.encode ts x, Int32.ofNat ts.length⟩ = ts.length := by
    rw [size, hcast, sizeT_natCast .int ts.length h]
  rw [asTuple, hsize, if_neg (Nat.lt_irrefl _)]
  exact extractTuple_encode ts x []

end Row

/-- `ResultWrapper`, `include/cassandra/detail/result_wrapper.hpp`. -/
structure ResultWrapper where
  rowsContent : List (List (List UInt8))
  columnsCount : Int32
  rowsCount : Int32

/-- `ResultSet`: a shared pointer to the content, which may be null. -/
abbrev ResultSet := Option ResultWrapper

/-- `ResultMessage::GetResultSet`, `src/io/protocol/response_message.hpp:237`. -/
def getResultSet (kind : Int32) (payload : ResultPayload) : Except Exception ResultSet :=
  if kind ≠ 0x0002 then .ok none
  else match payload with
    | .rows rows => .ok (some ⟨rows.rowsContent, rows.columnsCount, rows.rowsCount⟩)
    | _ => .error (.runtimeError "std::get: wrong index for variant")

/-- The end of `ConnectionImpl::Execute`, `src/detail/connection_impl.cpp:455–458`, on the
body of a RESULT frame. -/
def resultSetOfBody (body : View) : Except Exception ResultSet := do
  match ← ResponseMessage.doParseBody .result body with
  | .result kind payload => getResultSet kind payload
  | _ => .error (.runtimeError "Unexpected response type")

namespace ResultSet

/-- `ResultSet::AsContainer<std::vector<std::tuple<...>>>(kRowTag)`,
`include/cassandra/result_set.hpp:282`. -/
def asContainer (set : ResultSet) (ts : List ParamType) : Except Exception (List (Tuple ts)) :=
  match set with
  | none => .error .memoryFault
  | some content => content.rowsContent.mapM (fun row ↦ Row.asTuple ⟨row, content.columnsCount⟩ ts)

/-- `ResultSet::Front`, `result_set.hpp:328`. -/
def front (set : ResultSet) : Except Exception Row :=
  match set with
  | none => .error .memoryFault
  | some content =>
    match content.rowsContent with
    | [] => .error .memoryFault
    | row :: _ => .ok ⟨row, content.columnsCount⟩

end ResultSet

/-- The result set of a Rows body has the cells of its rows. -/
theorem resultSetOfBody_rows (result : V4.Rows) (h : result.Fits) (beyond : Nat → UInt8) :
    resultSetOfBody ⟨(V4.Result.rows result).encode, beyond⟩ =
      .ok (some ⟨result.toRowKind.rowsContent, Int32.ofNat result.metadata.columnsCount,
        Int32.ofNat result.rows.length⟩) := by
  have hparse : ResponseMessage.doParseBody .result ⟨(V4.Result.rows result).encode, beyond⟩ =
      .ok (.result (Int32.ofNat 2) (.rows result.toRowKind)) := by
    have hrun := ((V4.result_decodes _ (.rows result) h le_rfl).run_at [] [] beyond).1
    rw [List.nil_append, List.append_nil] at hrun
    exact hrun
  rw [resultSetOfBody, hparse]
  rfl

private theorem mapM_ok {α β : Type} {f : α → Except Exception β} {g : α → β} (xs : List α)
    (h : ∀ x ∈ xs, f x = .ok (g x)) : xs.mapM f = .ok (xs.map g) := by
  induction xs with
  | nil => rfl
  | cons x xs ih =>
    rw [List.mapM_cons, h x List.mem_cons_self, ih (fun y hy ↦ h y (List.mem_cons_of_mem _ hy))]
    rfl

/-- Whatever rows are bound, by either holder, their buffers as the cells of a Rows body come
back as the same rows, and the first field of the first row as its first value. -/
theorem boundRows_survive (t : ParamType) (ts : List ParamType)
    (rows : List (ParamsHolder × Tuple (t :: ts))) (hrows : rows ≠ [])
    (hfits : ∀ row ∈ rows, Tuple.Fits (t :: ts) row.2) :
    ∃ cells, rows.mapM (fun row ↦ row.1.bind (t :: ts) row.2) = .ok cells ∧
      ∀ result : V4.Rows, result.rows = cells.map (List.map some) → result.metadata.Fits →
        (∀ state ∈ result.pagingState, state.length ≤ LenType.int.bound) →
        result.rows.length ≤ LenType.int.bound → ∀ beyond, ∃ set,
          resultSetOfBody ⟨(V4.Result.rows result).encode, beyond⟩ = .ok set ∧
          set.asContainer (t :: ts) = .ok (rows.map Prod.snd) ∧
          set.front.bind (fun row ↦ row.asField t) = .ok (rows.head hrows).2.1 := by
  refine ⟨rows.map (fun row ↦ Tuple.encode (t :: ts) row.2),
    mapM_ok rows (fun row _ ↦ row.1.bind_eq (t :: ts) row.2), ?_⟩
  intro result hr hmetadata hpaging hcount beyond
  have hcells : ∀ row ∈ result.rows, ∀ cell ∈ row, ∀ bs ∈ cell, bs.length ≤ LenType.int.bound := by
    rw [hr]
    intro row hrow cell hcell bs hbs
    simp only [List.map_map, List.mem_map, Function.comp_apply] at hrow
    obtain ⟨bound, hbound, rfl⟩ := hrow
    obtain ⟨bs', hbs', rfl⟩ := List.mem_map.mp hcell
    obtain rfl := Option.mem_some_iff.mp hbs
    have hlt := Tuple.length_lt_of_mem_encode _ _ (hfits bound hbound) bs' hbs'
    exact Nat.le_sub_one_of_lt hlt
  have hcolumns : result.metadata.columnsCount = (t :: ts).length := by
    have hmem : (Tuple.encode (t :: ts) (rows.head hrows).2).map some ∈ result.rows := by
      rw [hr, List.map_map]
      exact List.mem_map.mpr ⟨_, List.head_mem hrows, rfl⟩
    rw [← result.rectangular _ hmem, List.length_map, Tuple.length_encode]
  have hcontent : result.toRowKind.rowsContent =
      rows.map (fun row ↦ Tuple.encode (t :: ts) row.2) := by
    simp only [V4.Rows.toRowKind, hr, List.map_map]
    refine List.map_congr_left (fun row _ ↦ ?_)
    simp [Function.comp_def]
  have hset : resultSetOfBody ⟨(V4.Result.rows result).encode, beyond⟩ =
      .ok (some ⟨rows.map (fun row ↦ Tuple.encode (t :: ts) row.2),
        Int32.ofNat (t :: ts).length, Int32.ofNat result.rows.length⟩) := by
    rw [resultSetOfBody_rows result ⟨hmetadata, hpaging, hcount, hcells⟩, hcontent, hcolumns]
  refine ⟨_, hset, ?_, ?_⟩
  · have hle : (t :: ts).length ≤ LenType.int.bound :=
      hcolumns ▸ V4.columnsCount_le result.metadata hmetadata
    rw [ResultSet.asContainer, List.mapM_map]
    exact mapM_ok rows (fun row _ ↦ Row.asTuple_encode (t :: ts) row.2 hle)
  · cases rows with
    | nil => exact absurd rfl hrows
    | cons row rows => exact t.read_encode row.2.1

/-- A negative number with an empty string, and a second row bound by the other holder. -/
def sampleArguments : List (ParamsHolder × Tuple [.integral .int, .string]) :=
  [(.static, ((-1 : Int32), [], ())), (.dynamic, ((7 : Int32), [97, 98], ()))]

/-- Their buffers as the cells of a page without metadata. -/
def sampleResult : V4.Rows where
  metadata := .omitted true 2
  pagingState := some [1]
  rows := [[some [255, 255, 255, 255], some []], [some [0, 0, 0, 7], some [97, 98]]]
  rectangular := by decide

/-- The sample comes back, and its first field alone too. -/
theorem boundRows_survive_sample :
    ∃ set, resultSetOfBody ⟨(V4.Result.rows sampleResult).encode, fun _ ↦ 0⟩ = .ok set ∧
      set.asContainer [.integral .int, .string] = .ok (sampleArguments.map Prod.snd) ∧
      set.front.bind (fun row ↦ row.asField (.integral .int)) = .ok (-1 : Int32) := by
  obtain ⟨cells, hbind, hset⟩ := boundRows_survive (.integral .int) [.string] sampleArguments
    (by simp [sampleArguments]) (by simp [sampleArguments, Tuple.Fits, ParamType.Fits])
  have hcells : sampleResult.rows = cells.map (List.map some) := by
    cases hbind
    rfl
  exact hset sampleResult hcells (by simp [sampleResult, V4.Metadata.Fits, LenType.bound])
    (by simp [sampleResult, LenType.bound]) (by simp [sampleResult, LenType.bound]) (fun _ ↦ 0)

end CassandraDriver.Detail
