import CassandraDriver.Protocol.ResultFaithful

/-!
# Schema changes of the native protocol, version 4

Library `Protocol`. The schema changes a server announces, their layout in the terms of
the protocol document, and what `SchemaChange::Parse` makes of it. The layout follows the
target; the parser recognises a function by the change type, so that the options of a
changed function stay unread unless the change type is itself that word.
-/

namespace CassandraDriver.Protocol
open CassandraDriver.Lib CassandraDriver.Lib.Program CassandraDriver.Io

namespace V4

/-- `<target>` and `<options>` of a schema change, in the terms of the protocol document. -/
inductive Target
  | keyspace (keyspace : List UInt8)
  | table (keyspace name : List UInt8)
  | type (keyspace name : List UInt8)
  | function (keyspace name : List UInt8) (args : List (List UInt8))
  | aggregate (keyspace name : List UInt8) (args : List (List UInt8))
  deriving DecidableEq, Repr

namespace Target

/-- `<target>`. -/
def word : Target → List UInt8
  | keyspace _ => utf8 "KEYSPACE"
  | table .. => utf8 "TABLE"
  | type .. => utf8 "TYPE"
  | function .. => utf8 "FUNCTION"
  | aggregate .. => utf8 "AGGREGATE"

/-- Keyspace, name and argument types of a function or an aggregate. -/
def encodeFunction (keyspace name : List UInt8) (args : List (List UInt8)) : List UInt8 :=
  encodeString keyspace ++ (encodeString name ++ (toBE 2 args.length ++ args.flatMap encodeString))

/-- `<options>`. -/
def encodeOptions : Target → List UInt8
  | keyspace ks => encodeString ks
  | table ks name => encodeString ks ++ encodeString name
  | type ks name => encodeString ks ++ encodeString name
  | function ks name args => encodeFunction ks name args
  | aggregate ks name args => encodeFunction ks name args

/-- Argument types that a [string list] can hold. -/
def ArgsFit (args : List (List UInt8)) : Prop :=
  args.length ≤ 65535 ∧ ∀ arg ∈ args, arg.length ≤ 65535

/-- Names and argument lists that a [string] and a [string list] can hold. -/
def Fits : Target → Prop
  | keyspace ks => ks.length ≤ 65535
  | table ks name => ks.length ≤ 65535 ∧ name.length ≤ 65535
  | type ks name => ks.length ≤ 65535 ∧ name.length ≤ 65535
  | function ks name args => ks.length ≤ 65535 ∧ name.length ≤ 65535 ∧ ArgsFit args
  | aggregate ks name args => ks.length ≤ 65535 ∧ name.length ≤ 65535 ∧ ArgsFit args

/-- The options in the variant that matches the target. -/
def toOptions : Target → TargetOptions
  | keyspace ks => .keyspace ks
  | table ks name => .table ks name
  | type ks name => .table ks name
  | function ks name args => .function ks name args
  | aggregate ks name args => .function ks name args

/-- Whether a user function changed. -/
def isFunction : Target → Bool
  | function .. => true
  | _ => false

end Target

/-- A schema change: what happened, and to what. -/
structure Change where
  changeType : List UInt8
  target : Target
  deriving DecidableEq, Repr

namespace Change

/-- The layout behind the result kind. -/
def encode (c : Change) : List UInt8 :=
  encodeString c.changeType ++ (encodeString c.target.word ++ c.target.encodeOptions)

/-- Every string and list fits its prefix. -/
def Fits (c : Change) : Prop := c.changeType.length ≤ 65535 ∧ c.target.Fits

/-- The change as a parser is to keep it. -/
def toSchemaChange (c : Change) : SchemaChange :=
  ⟨c.changeType, c.target.word, c.target.toOptions⟩

end Change

/-- The options of `SchemaChange::Parse` behind change type and target. -/
private def options (changeType target : List UInt8) : Reader SchemaChange :=
  if target = utf8 "KEYSPACE" then do
    let value ← Ty.string.read
    return ⟨changeType, target, .keyspace value⟩
  else if target = utf8 "TABLE" ∨ target = utf8 "TYPE" then do
    let keyspace ← Ty.string.read
    let targetName ← Ty.string.read
    return ⟨changeType, target, .table keyspace targetName⟩
  else if changeType = utf8 "FUNCTION" ∨ target = utf8 "AGGREGATE" then do
    let keyspace ← Ty.string.read
    let functionName ← Ty.string.read
    let args ← Ty.stringList.read
    return ⟨changeType, target, .function keyspace functionName args⟩
  else return ⟨changeType, target, .keyspace []⟩

private theorem parse_decodes {changeType target bs : List UInt8} {change : SchemaChange}
    (hc : changeType.length ≤ 65535) (ht : target.length ≤ 65535)
    (ho : Decodes (options changeType target) bs change) :
    Decodes SchemaChange.parse (encodeString changeType ++ (encodeString target ++ bs)) change :=
  .bind (string_decodes changeType hc) (.bind (string_decodes target ht) ho)

private theorem word_length (target : Target) : target.word.length ≤ 65535 := by
  cases target <;> simp only [Target.word] <;> decide

private theorem options_keyspace (changeType keyspace : List UInt8)
    (hk : keyspace.length ≤ 65535) :
    Decodes (options changeType (utf8 "KEYSPACE")) (encodeString keyspace)
      ⟨changeType, utf8 "KEYSPACE", .keyspace keyspace⟩ := by
  rw [options, if_pos rfl]
  exact (string_decodes keyspace hk).map
    (fun x ↦ SchemaChange.mk changeType (utf8 "KEYSPACE") (.keyspace x))

private theorem options_table (changeType : List UInt8) {target keyspace name : List UInt8}
    (ht : target = utf8 "TABLE" ∨ target = utf8 "TYPE") (hk : keyspace.length ≤ 65535)
    (hn : name.length ≤ 65535) :
    Decodes (options changeType target) (encodeString keyspace ++ encodeString name)
      ⟨changeType, target, .table keyspace name⟩ := by
  have hks : target ≠ utf8 "KEYSPACE" := by
    rcases ht with rfl | rfl <;> decide
  rw [options, if_neg hks, if_pos ht]
  exact .bind (string_decodes keyspace hk) ((string_decodes name hn).map
    (fun x ↦ SchemaChange.mk changeType target (.table keyspace x)))

private theorem options_function {changeType target keyspace name : List UInt8}
    {args : List (List UInt8)} (ht : target = utf8 "FUNCTION" ∨ target = utf8 "AGGREGATE")
    (hf : changeType = utf8 "FUNCTION" ∨ target = utf8 "AGGREGATE")
    (hk : keyspace.length ≤ 65535) (hn : name.length ≤ 65535) (ha : Target.ArgsFit args) :
    Decodes (options changeType target) (Target.encodeFunction keyspace name args)
      ⟨changeType, target, .function keyspace name args⟩ := by
  have hks : target ≠ utf8 "KEYSPACE" := by
    rcases ht with rfl | rfl <;> decide
  have htb : ¬ (target = utf8 "TABLE" ∨ target = utf8 "TYPE") := by
    rcases ht with rfl | rfl <;> decide
  rw [options, if_neg hks, if_neg htb, if_pos hf]
  exact .bind (string_decodes keyspace hk) (.bind (string_decodes name hn)
    ((Ty.stringList.read_decodes args ha).map
      (fun xs ↦ SchemaChange.mk changeType target (.function keyspace name xs))))

private theorem options_decodes (c : Change) (h : c.target.Fits)
    (hf : c.target.isFunction = true → c.changeType = utf8 "FUNCTION") :
    Decodes (options c.changeType c.target.word) c.target.encodeOptions c.toSchemaChange := by
  obtain ⟨changeType, target⟩ := c
  cases target with
  | keyspace ks => exact options_keyspace changeType ks h
  | table ks name => exact options_table changeType (.inl rfl) h.1 h.2
  | type ks name => exact options_table changeType (.inr rfl) h.1 h.2
  | function ks name args => exact options_function (.inl rfl) (.inl (hf rfl)) h.1 h.2.1 h.2.2
  | aggregate ks name args => exact options_function (.inr rfl) (.inr rfl) h.1 h.2.1 h.2.2

/-- Without the word as change type, a changed function comes out as an empty keyspace, and
its options stay in the buffer. -/
theorem schemaChange_function_unread (changeType : List UInt8) (hc : changeType.length ≤ 65535)
    (hf : changeType ≠ utf8 "FUNCTION") :
    Decodes SchemaChange.parse (encodeString changeType ++ (encodeString (utf8 "FUNCTION") ++ []))
      ⟨changeType, utf8 "FUNCTION", .keyspace []⟩ := by
  apply parse_decodes hc (by decide)
  rw [options, if_neg (by decide), if_neg (by decide), if_neg ?_]
  · exact Decodes.pure _
  · rintro (h | h)
    · exact hf h
    · exact absurd h (by decide)

/-- The change as `SchemaChange::Parse` keeps it: a changed function loses its options when the
change type is any other word than the target's. -/
def Change.kept (c : Change) : SchemaChange :=
  if c.target.isFunction = true ∧ c.changeType ≠ utf8 "FUNCTION" then
    ⟨c.changeType, c.target.word, .keyspace []⟩
  else c.toSchemaChange

/-- The part of a change's layout that `SchemaChange::Parse` reads. -/
def Change.encodeKept (c : Change) : List UInt8 :=
  encodeString c.changeType ++ (encodeString c.target.word ++
    if c.target.isFunction = true ∧ c.changeType ≠ utf8 "FUNCTION" then []
    else c.target.encodeOptions)

/-- `SchemaChange::Parse` on a change of any kind. -/
theorem schemaChange_decodes (c : Change) (h : c.Fits) :
    Decodes SchemaChange.parse c.encodeKept c.kept := by
  rw [Change.encodeKept, Change.kept]
  split
  · next hlost =>
    obtain ⟨changeType, target⟩ := c
    cases target with
    | function ks name args => exact schemaChange_function_unread changeType h.1 hlost.2
    | keyspace ks => cases hlost.1
    | table ks name => cases hlost.1
    | type ks name => cases hlost.1
    | aggregate ks name args => cases hlost.1
  · next hkept =>
    refine parse_decodes h.1 (word_length c.target) (options_decodes c h.2 fun ht ↦ ?_)
    by_contra hne
    exact hkept ⟨ht, hne⟩

/-- `SchemaChange::Parse` recovers a change and reads the whole of its layout, unless a
function changed and the change type is any other word than the target's. -/
theorem schemaChange_parse_iff (c : Change) (h : c.Fits) (pre post : List UInt8)
    (beyond : Nat → UInt8) :
    ((run ⟨pre ++ c.encode ++ post, beyond⟩ SchemaChange.parse (.at pre.length)).1 =
        .ok c.toSchemaChange ∧
      (run ⟨pre ++ c.encode ++ post, beyond⟩ SchemaChange.parse (.at pre.length)).2.offset =
        pre.length + c.encode.length) ↔
    c.target.isFunction = false ∨ c.changeType = utf8 "FUNCTION" := by
  constructor
  · rintro ⟨hr, -⟩
    by_contra hn
    rw [not_or, Bool.not_eq_false] at hn
    obtain ⟨changeType, target⟩ := c
    cases target with
    | function ks name args =>
      have hd := ((schemaChange_function_unread changeType h.1 hn.2).run_at pre
        (Target.encodeFunction ks name args ++ post) beyond).1
      simp only [Change.encode, Target.word, Target.encodeOptions, List.append_nil,
        List.append_assoc] at hr hd
      rw [hd] at hr
      cases hr
    | keyspace ks => cases hn.1
    | table ks name => cases hn.1
    | type ks name => cases hn.1
    | aggregate ks name args => cases hn.1
  · intro hc
    have hf : c.target.isFunction = true → c.changeType = utf8 "FUNCTION" := by
      intro ht
      rcases hc with hc | hc
      · rw [hc] at ht
        cases ht
      · exact hc
    exact (parse_decodes h.1 (word_length c.target) (options_decodes c h.2 hf)).run_at
      pre post beyond

/-- A function of one argument, created in keyspace `k`. -/
def createdFunction : Change := ⟨utf8 "CREATED", .function [107] [102] [[105, 110, 116]]⟩

/-- The created function is announced, and the parser makes an empty keyspace of it. -/
theorem createdFunction_lost :
    createdFunction.Fits ∧
      (run ⟨createdFunction.encode, fun _ ↦ 0⟩ SchemaChange.parse (.at 0)).1 =
        .ok ⟨utf8 "CREATED", utf8 "FUNCTION", .keyspace []⟩ ∧
      (run ⟨createdFunction.encode, fun _ ↦ 0⟩ SchemaChange.parse (.at 0)).2.offset = 19 ∧
      createdFunction.encode.length = 32 ∧
      ¬ ∀ c : Change, c.Fits → ∀ (pre post : List UInt8) (beyond : Nat → UInt8),
        (run ⟨pre ++ c.encode ++ post, beyond⟩ SchemaChange.parse (.at pre.length)).1 =
            .ok c.toSchemaChange ∧
          (run ⟨pre ++ c.encode ++ post, beyond⟩ SchemaChange.parse (.at pre.length)).2.offset =
            pre.length + c.encode.length := by
  have hfits : createdFunction.Fits :=
    ⟨by decide, by decide, by decide, by simp [Target.ArgsFit]⟩
  have hrun : (run ⟨createdFunction.encode, fun _ ↦ 0⟩ SchemaChange.parse (.at 0)).1 =
      .ok ⟨utf8 "CREATED", utf8 "FUNCTION", .keyspace []⟩ := by decide +kernel
  refine ⟨hfits, hrun, by decide +kernel, by decide +kernel, ?_⟩
  intro hall
  have hbad := (hall createdFunction hfits [] [] (fun _ ↦ 0)).1
  rw [List.append_nil, List.nil_append, List.length_nil, hrun] at hbad
  cases hbad

/-- A dropped aggregate, in the middle of a buffer, is read back whole. -/
theorem schemaChange_parse_aggregate :
    (run ⟨[9] ++ (Change.mk (utf8 "DROPPED") (.aggregate [107] [97] [[105], []])).encode ++ [8],
        fun _ ↦ 0⟩ SchemaChange.parse (.at 1)).1 =
      .ok ⟨utf8 "DROPPED", utf8 "AGGREGATE", .function [107] [97] [[105], []]⟩ :=
  ((schemaChange_parse_iff ⟨utf8 "DROPPED", .aggregate [107] [97] [[105], []]⟩
    ⟨by decide, by decide, by decide, by simp [Target.ArgsFit]⟩ [9] [8] (fun _ ↦ 0)).mpr
      (.inl rfl)).1

end V4
end CassandraDriver.Protocol
