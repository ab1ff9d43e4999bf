import CassandraDriver.Lib.ReadWork
import CassandraDriver.Protocol.ReadBounds

/-!
# The work of parsing a column type

Library `Protocol`. `ColumnOption::Parse` calls itself as deep and as often as the wire
says. Each node reads two bytes of the buffer before it goes on, also where a string runs
past the end, so the unread bytes bound the nodes. The fuel of `parse` is the depth that
is allowed: a run that meets no limit is a run of the code.
-/

namespace CassandraDriver.Protocol
open CassandraDriver.Lib CassandraDriver.Lib.Program CassandraDriver.Io

section Reads
variable {v : View} {w : Nat}

private theorem readIntBE_pays (i : IntegralType) : Pays v w (readIntBE i) :=
  Pays.guard (Pays.copy (fun _ ↦ Pays.pure _))

private theorem string_pays : Pays v w Ty.string.read := by
  apply Pays.bind ((readIntBE_pays .short).bind (fun _ ↦ Pays.pure _))
  intro size
  split
  · exact Pays.fail _
  · exact Pays.copy Pays.pure

private theorem readIntBE_unrolls (i : IntegralType) :
    Unrolls Exception.recursionLimit (readIntBE i) (readIntBE i) :=
  .of_raises (readIntBE_raises i (by decide))

private theorem string_unrolls :
    Unrolls Exception.recursionLimit Ty.string.read Ty.string.read :=
  .of_raises (Ty.string.read_raises (by decide) (fun _ ↦ by decide))

end Reads

namespace ColumnOption

section Payload
variable {v : View} {w : Nat} {option : Reader ColumnOption}

private theorem payload_pays (h : Pays v w option) (type : ColumnType) :
    Pays v w (payload option type) := by
  cases type with
  | custom => exact string_pays.bind (fun _ ↦ Pays.pure _)
  | list => exact h.bind (fun _ ↦ Pays.pure _)
  | map => exact h.bind (fun _ ↦ h.bind (fun _ ↦ Pays.pure _))
  | set => exact h.bind (fun _ ↦ Pays.pure _)
  | udt =>
    apply string_pays.bind
    intro keyspace
    apply string_pays.bind
    intro udtName
    apply (readIntBE_pays .short).bind
    intro count
    have hfield : ∀ fields : List (List UInt8 × ColumnOption), Pays v w (do
        let name : List UInt8 ← Ty.string.read
        let type ← option
        return fields ++ [(name, type)]) :=
      fun _ ↦ string_pays.bind (fun _ ↦ h.bind (fun _ ↦ Pays.pure _))
    exact (Pays.forCount hfield _ _).bind (fun _ ↦ Pays.pure _)
  | tuple =>
    apply (readIntBE_pays .short).bind
    intro count
    have helement : ∀ elements : List ColumnOption, Pays v w (do
        let element ← option
        return elements ++ [element]) :=
      fun _ ↦ h.bind (fun _ ↦ Pays.pure _)
    exact (Pays.forCount helement _ _).bind (fun _ ↦ Pays.pure _)
  | scalar id => exact Pays.pure _

end Payload

/-- Every node is paid for with the two bytes of its id, at any depth allowed. -/
theorem parse_pays (v : View) (fuel : Nat) : Pays v 2 (parse fuel) := by
  induction fuel with
  | zero => exact Pays.fail _
  | succ fuel ih => exact Pays.node (fun _ ↦ payload_pays ih _)

private theorem payload_unrolls {option option' : Reader ColumnOption}
    (h : Unrolls Exception.recursionLimit option option') (type : ColumnType) :
    Unrolls Exception.recursionLimit (payload option type) (payload option' type) := by
  cases type with
  | custom => exact string_unrolls.map _
  | list => exact h.map _
  | map => exact h.bind (fun _ ↦ h.map _)
  | set => exact h.map _
  | udt =>
    apply string_unrolls.bind
    intro keyspace
    apply string_unrolls.bind
    intro udtName
    apply (readIntBE_unrolls .short).bind
    intro count
    exact (Unrolls.forCount (fun _ ↦ string_unrolls.bind (fun _ ↦ h.map _)) _ _).map _
  | tuple =>
    apply (readIntBE_unrolls .short).bind
    intro count
    exact (Unrolls.forCount (fun _ ↦ h.map _) _ _).map _
  | scalar id => exact .done _

/-- One more level of depth continues where the limit was met, and nowhere else. -/
theorem parse_unrolling : Unrolling Exception.recursionLimit parse := by
  intro fuel
  induction fuel with
  | zero => exact .stop _
  | succ fuel ih =>
    apply Unrolls.tick
    apply (readIntBE_unrolls .short).bind
    intro type
    exact payload_unrolls ih _

/-- From offset `o`, some call of `Parse` has more than `depth` calls of `Parse` open at
once: with that depth allowed the run is cut. -/
def NestsBeyond (v : View) (o depth : Nat) : Prop :=
  (run v (parse depth) (.at o)).1 = .error .recursionLimit

/-- Parsing from any offset ends, by returning or by throwing, in an outcome that no depth
allowed beyond half the unread bytes and one changes. It starts no more nodes than that,
and nests no deeper than it starts nodes. -/
theorem parse_bounded (v : View) (o : Nat) :
    ∃ outcome : Except Exception ColumnOption × Cursor,
      outcome.1 ≠ .error .recursionLimit ∧
      (∀ depth, v.unread o / 2 + 1 ≤ depth → run v (parse depth) (.at o) = outcome) ∧
      outcome.2.ticks ≤ v.unread o / 2 + 1 ∧
      ∀ depth, NestsBeyond v o depth → depth < outcome.2.ticks := by
  have hends : (run v (parse (v.unread o / 2 + 1)) (.at o)).1 ≠ .error .recursionLimit := by
    apply parse_avoids ⟨by decide, by decide⟩ _ o (Nat.succ_pos _) _ _ (Nat.le_refl o)
    rw [View.unread]
    omega
  refine ⟨run v (parse (v.unread o / 2 + 1)) (.at o), hends, ?_, ?_, ?_⟩
  · intro depth hdepth
    exact parse_unrolling.run_eq hends hdepth
  · exact (parse_pays v _).ticks_le (by decide) o
  · intro depth hnests
    have hdepth : depth < v.unread o / 2 + 1 := by
      by_contra hle
      rw [NestsBeyond, parse_unrolling.run_eq hends (Nat.le_of_not_lt hle)] at hnests
      exact hends hnests
    have hdeep := parse_unrolling.lt_ticks hnests hdepth
    simpa only [Cursor.at, Nat.zero_add] using hdeep

end ColumnOption
end CassandraDriver.Protocol
