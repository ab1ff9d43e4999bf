import CassandraDriver.Detail.Prepare
import CassandraDriver.Detail.ReadFrame
import CassandraDriver.Protocol.CompressedRequest
import CassandraDriver.Protocol.ReadBounds
import CassandraDriver.Protocol.ResultFaithful

/-!
# The flags of a response frame

Library `Detail`. What the flags in the header of a response mean to a server, and what
`ConnectionImpl::ReadFrame` and `ResponseMessage::ParseBody` make of frames that carry them.
The flags are parsed and then never looked at: the connection alone decides whether a body is
decompressed, and a list of warnings in front of a body is parsed as the body.
-/

namespace CassandraDriver.Detail
open CassandraDriver.Lib CassandraDriver.Io CassandraDriver.Protocol

/-- `Flags::kWarning`, `include/cassandra/io/protocol/frame.hpp:14`. -/
def kWarning : UInt8 := 0x08

/-- The header of a response with these flags, and its body. -/
def responseFrame (flags : UInt8) (stream : Int16) (cls : ResponseClass) (body : List UInt8) :
    List UInt8 :=
  FrameHeader.encode ⟨kResponse, flags, stream, (opcodeOf cls).code, Int32.ofNat body.length⟩ ++
    body

/-- The message that one call of `ReadFrame` gives, or its exception. -/
def receive (compressor : Option Compressor) (memory : List UInt8 → Nat → UInt8)
    (frame : List UInt8) : Except Exception ResponseMessage :=
  (readFrame compressor memory frame).map (fun received ↦ received.1.message)

private theorem responseClass_opcodeOf (cls : ResponseClass) :
    responseClass (opcodeOf cls).code = some cls := by
  cases cls <;> decide

/-- A frame is received as its body is parsed; its flags are not asked. -/
theorem receive_responseFrame (compressor : Option Compressor)
    (memory : List UInt8 → Nat → UInt8) (flags : UInt8) (stream : Int16) (cls : ResponseClass)
    (body : List UInt8) (h : body.length < 2 ^ 31) :
    receive compressor memory (responseFrame flags stream cls body) =
      ResponseMessage.parseBody cls compressor memory body := by
  have hclass : getResponseMessageFromHeader ⟨kResponse, flags, stream, (opcodeOf cls).code,
      Int32.ofNat body.length⟩ = .ok cls := by
    simp only [getResponseMessageFromHeader, ne_eq, not_true_eq_false, if_false,
      responseClass_opcodeOf]
  have hlength : (Int32.ofNat body.length).toInt = body.length :=
    LenType.int.toInt_cast body.length (Nat.le_sub_one_of_lt h)
  have hbody : readBody compressor memory _ (body ++ []) = _ := readBody_complete hclass hlength []
  rw [List.append_nil] at hbody
  rw [receive, responseFrame, readFrame_encode, hbody]
  cases ResponseMessage.parseBody cls compressor memory body with
  | error e => rfl
  | ok message => rfl

/-- A body as a connection with or without compression carries it. -/
def wireBody (lz4 : Option Lz4Api) (body : List UInt8) : List UInt8 :=
  match lz4 with
  | none => body
  | some api => api.encode body

/-- The LZ4 library compresses only what is within its input size. -/
theorem length_le_of_worksOn {api : Lz4Api} {body : List UInt8} (h : api.WorksOn body) :
    body.length ≤ lz4MaxInputSize := by
  by_contra hlt
  have hbound : lz4CompressBound body.length = 0 := by
    rw [lz4CompressBound, if_pos (by omega)]
  have hsucceeds := h.succeeds
  have hwithin := h.within
  rw [hbound] at hsucceeds hwithin
  omega

private theorem lz4MaxInputSize_lt : lz4MaxInputSize < 2 ^ 31 := by decide

/-- What was compressed on its way is parsed as if it had not been. -/
theorem receive_wireBody (lz4 : Option Lz4Api) (memory : List UInt8 → Nat → UInt8)
    (flags : UInt8) (stream : Int16) (cls : ResponseClass) (body : List UInt8)
    (h : body.length < 2 ^ 31) (hlz4 : ∀ api ∈ lz4, api.WorksOn body) :
    receive (lz4.map Lz4Api.compressor) memory
        (responseFrame flags stream cls (wireBody lz4 body)) =
      ResponseMessage.doParseBody cls ⟨body, memory body⟩ := by
  cases lz4 with
  | none => exact receive_responseFrame none memory flags stream cls body h
  | some api =>
    have hworks := hlz4 api rfl
    have hencode := api.length_encode_lt body (length_le_of_worksOn hworks) hworks
    refine (receive_responseFrame _ memory flags stream cls _ hencode).trans ?_
    change (api.toLz4.decompress (api.encode body) >>= _) = _
    rw [api.decompress_encode body h hworks]
    rfl

/-- The kinds of results that are followed by a payload, as they stand on the wire. -/
def payloadKinds : List (List UInt8) := [[0, 0, 0, 2], [0, 0, 0, 3], [0, 0, 0, 4], [0, 0, 0, 5]]

private theorem int_inj {x y : List UInt8} (hx : x.length = 4) (hy : y.length = 4)
    (h : IntegralType.int.ofBits (ofBE x) = IntegralType.int.ofBits (ofBE y)) : x = y := by
  have hbits : ∀ z : List UInt8, z.length = 4 →
      IntegralType.int.toBits (IntegralType.int.ofBits (ofBE z)) = ofBE z := by
    intro z hz
    have hlt : ofBE z < 2 ^ 32 := by
      have hbytes := ofBE_lt z
      rwa [hz] at hbytes
    change (BitVec.ofNat 32 (ofBE z)).toNat = _
    rw [BitVec.toNat_ofNat, Nat.mod_eq_of_lt hlt]
  have hnat := congrArg IntegralType.int.toBits h
  rw [hbits x hx, hbits y hy] at hnat
  rw [← toBE_ofBE x, ← toBE_ofBE y, hx, hy, hnat]

private theorem readIntBE_bind_run {α : Type} (i : IntegralType) (f : i.Val → Reader α)
    {v : View} (h : i.width ≤ v.data.length) :
    Program.run v (readIntBE i >>= f) (.at 0) =
      Program.run v (f (i.ofBits (ofBE (v.data.take i.width))))
        ⟨0 + i.width, [(0, i.width)], 0⟩ := by
  have hguard : 0 + i.width ≤ v.data.length := by omega
  have hwindow : v.window 0 i.width = v.data.take i.width := v.window_eq_take hguard
  rw [← hwindow]
  exact if_pos hguard

private theorem readIntBE_bind_short {α : Type} (i : IntegralType) (f : i.Val → Reader α)
    {v : View} (h : v.data.length < i.width) :
    (Program.run v (readIntBE i >>= f) (.at 0)).1 = .error (.runtimeError "Buffer underread") := by
  have hguard : ¬ 0 + i.width ≤ v.data.length := by omega
  exact congrArg Prod.fst (if_neg hguard)

private theorem result_short {v : View} (h : v.data.length < 4) :
    ResponseMessage.doParseBody .result v = .error (.runtimeError "Buffer underread") :=
  readIntBE_bind_short .int _ h

private theorem parse_void (size : Nat) {kind : Int32} (h₂ : kind ≠ 2) (h₃ : kind ≠ 3)
    (h₄ : kind ≠ 4) (h₅ : kind ≠ 5) : ResultPayload.parse size kind = pure .void := by
  rw [ResultPayload.parse, if_neg h₂, if_neg h₃, if_neg h₄, if_neg h₅]

private theorem payload_cut {v : View} {c : Cursor} {size : Nat} {kind : Int32} {α : Type}
    (f : ResultPayload → Reader α) (hkind : kind = 2 ∨ kind = 3 ∨ kind = 4 ∨ kind = 5)
    (h : v.data.length < c.offset + 2) :
    (Program.run v (ResultPayload.parse size kind >>= f) c).1 =
      .error (.runtimeError "Buffer underread") := by
  have htwo : ¬ c.offset + 2 ≤ v.data.length := by omega
  have hfour : ¬ c.offset + 4 ≤ v.data.length := by omega
  rcases hkind with rfl | rfl | rfl | rfl
  · rw [ResultPayload.parse, if_pos rfl]
    exact congrArg Prod.fst (if_neg hfour)
  · rw [ResultPayload.parse, if_neg (by decide), if_pos rfl]
    exact congrArg Prod.fst (if_neg htwo)
  · rw [ResultPayload.parse, if_neg (by decide), if_neg (by decide), if_pos rfl]
    exact congrArg Prod.fst (if_neg htwo)
  · rw [ResultPayload.parse, if_neg (by decide), if_neg (by decide), if_neg (by decide),
      if_pos rfl]
    exact congrArg Prod.fst (if_neg htwo)

private theorem result_run {v : View} (h : 4 ≤ v.data.length) :
    ResponseMessage.doParseBody .result v =
      (Program.run v (ResultPayload.parse v.data.length
        (IntegralType.int.ofBits (ofBE (v.data.take 4))) >>= fun payload ↦
          pure (ResponseMessage.result (IntegralType.int.ofBits (ofBE (v.data.take 4))) payload))
        ⟨4, [(0, 4)], 0⟩).1 := by
  have hrun := readIntBE_bind_run .int (fun kind ↦ do
    let payload ← ResultPayload.parse v.data.length kind
    return ResponseMessage.result kind payload) h
  exact congrArg Prod.fst hrun

private theorem result_void {v : View} (h : 4 ≤ v.data.length)
    (hkind : v.data.take 4 ∉ payloadKinds) :
    ResponseMessage.doParseBody .result v =
      .ok (.result (IntegralType.int.ofBits (ofBE (v.data.take 4))) .void) := by
  have hne : ∀ field ∈ payloadKinds, field.length = 4 →
      IntegralType.int.ofBits (ofBE (v.data.take 4)) ≠ IntegralType.int.ofBits (ofBE field) := by
    intro field hmem hlength he
    rw [int_inj (List.length_take_of_le h) hlength he] at hkind
    exact hkind hmem
  rw [result_run h, parse_void _ (hne [0, 0, 0, 2] (by decide) rfl)
    (hne [0, 0, 0, 3] (by decide) rfl) (hne [0, 0, 0, 4] (by decide) rfl)
    (hne [0, 0, 0, 5] (by decide) rfl)]
  rfl

private theorem result_cut {v : View} (h : 4 ≤ v.data.length) (hlt : v.data.length < 6)
    (hkind : v.data.take 4 ∈ payloadKinds) :
    ResponseMessage.doParseBody .result v = .error (.runtimeError "Buffer underread") := by
  rw [result_run h]
  refine payload_cut _ ?_ hlt
  simp only [payloadKinds, List.mem_cons, List.not_mem_nil, or_false] at hkind
  rcases hkind with hkind | hkind | hkind | hkind
  · rw [hkind]
    exact .inl rfl
  · rw [hkind]
    exact .inr (.inl rfl)
  · rw [hkind]
    exact .inr (.inr (.inl rfl))
  · rw [hkind]
    exact .inr (.inr (.inr rfl))

private theorem take_eq_of_result {v v' : View} (h : 4 ≤ v.data.length)
    (hkind : v.data.take 4 ∉ payloadKinds)
    (he : ResponseMessage.doParseBody .result v' = ResponseMessage.doParseBody .result v) :
    v'.data.take 4 = v.data.take 4 := by
  rw [result_void h hkind] at he
  obtain ⟨h', payload, o, hmessage, -⟩ := result_of_doParseBody he
  exact (int_inj (List.length_take_of_le h) (List.length_take_of_le h')
    (ResponseMessage.result.inj hmessage).1).symm

/-- The encoding of a list of warnings, and a body behind it. -/
def warned (warnings : List (List UInt8)) (b : List UInt8) : List UInt8 :=
  toBE 2 warnings.length ++ warnings.flatMap encodeString ++ b

/-- The warnings do not show: the kind reads the same with them and without, or there are none
and both bodies end before their payload. -/
def WarningsHidden (warnings : List (List UInt8)) (b : List UInt8) : Prop :=
  (4 ≤ b.length ∧ (warned warnings b).take 4 = b.take 4) ∨
    (b.length < 4 ∧ warnings = [] ∧
      (b.length < 2 ∨ b.take 2 ∈ [[0, 2], [0, 3], [0, 4], [0, 5]]))

private theorem warned_nil (b : List UInt8) : warned [] b = 0 :: 0 :: b := rfl

private theorem warned_cons (w : List UInt8) (ws : List (List UInt8)) (b : List UInt8)
    (h : (w :: ws).length ≤ 65535) :
    4 ≤ (warned (w :: ws) b).length ∧ (warned (w :: ws) b).take 4 ∉ payloadKinds := by
  have hlength : 4 ≤ (warned (w :: ws) b).length := by
    simp [warned, encodeString, LenType.encode, LenType.integral, IntegralType.width]
    omega
  refine ⟨hlength, fun hmem ↦ ?_⟩
  have htwo : ((warned (w :: ws) b).take 4).take 2 = toBE 2 (w :: ws).length := by
    rw [List.take_take, warned, List.append_assoc]
    exact List.take_left' (length_toBE _ _)
  have hcount := ofBE_toBE 2 (w :: ws).length (by omega)
  rw [← htwo] at hcount
  have hzero : ∀ field ∈ payloadKinds, ofBE (field.take 2) = 0 := by decide
  rw [hzero _ hmem] at hcount
  simp at hcount

private theorem exists_two {b : List UInt8} (h : 2 ≤ b.length) :
    ∃ x y rest, b = x :: y :: rest := by
  cases b with
  | nil => simp at h
  | cons x b =>
    cases b with
    | nil => simp at h
    | cons y rest => exact ⟨x, y, rest, rfl⟩

private theorem warned_kinds (warnings : List (List UInt8)) (b : List UInt8)
    (h : warnings.length ≤ 65535) :
    (warned warnings b).take 4 ∉ payloadKinds ∨ b.take 4 ∉ payloadKinds := by
  cases warnings with
  | cons w ws => exact .inl (warned_cons w ws b h).2
  | nil =>
    by_cases hkind : b.take 4 ∈ payloadKinds
    · left
      have hzero : ∀ field ∈ payloadKinds, field.take 2 = [0, 0] := by decide
      have htwo : b.take 2 = [0, 0] := by
        have hfield := hzero _ hkind
        rwa [List.take_take] at hfield
      have hfour : (0 :: 0 :: b).take 4 = 0 :: 0 :: b.take 2 := rfl
      rw [warned_nil, hfour, htwo]
      decide
    · exact .inr hkind

private theorem warned_result_kind (warnings : List (List UInt8)) (b : List UInt8)
    (h : warnings.length ≤ 65535) (hb : 4 ≤ b.length) (beyond beyond' : Nat → UInt8) :
    ResponseMessage.doParseBody .result ⟨warned warnings b, beyond⟩ =
      ResponseMessage.doParseBody .result ⟨b, beyond'⟩ ↔
        (warned warnings b).take 4 = b.take 4 := by
  have hlength : 4 ≤ (warned warnings b).length := by
    rw [warned, List.length_append]
    omega
  have hkinds := warned_kinds warnings b h
  constructor
  · intro he
    rcases hkinds with hkind | hkind
    · exact (take_eq_of_result (v := ⟨warned warnings b, beyond⟩) hlength hkind he.symm).symm
    · exact take_eq_of_result (v := ⟨b, beyond'⟩) hb hkind he
  · intro he
    have hplain : b.take 4 ∉ payloadKinds := by
      rcases hkinds with hkind | hkind
      · rwa [he] at hkind
      · exact hkind
    rw [result_void (v := ⟨warned warnings b, beyond⟩) hlength (he ▸ hplain),
      result_void (v := ⟨b, beyond'⟩) hb hplain]
    simp only [he]

private theorem warned_result_short (warnings : List (List UInt8)) (b : List UInt8)
    (h : warnings.length ≤ 65535) (hb : b.length < 4) (beyond beyond' : Nat → UInt8) :
    ResponseMessage.doParseBody .result ⟨warned warnings b, beyond⟩ =
      ResponseMessage.doParseBody .result ⟨b, beyond'⟩ ↔
        warnings = [] ∧ (b.length < 2 ∨ b.take 2 ∈ [[0, 2], [0, 3], [0, 4], [0, 5]]) := by
  rw [result_short (v := ⟨b, beyond'⟩) hb]
  cases warnings with
  | cons w ws =>
    obtain ⟨hlength, hkind⟩ := warned_cons w ws b h
    rw [result_void (v := ⟨warned (w :: ws) b, beyond⟩) hlength hkind]
    simp
  | nil =>
    rw [warned_nil]
    by_cases htwo : b.length < 2
    · rw [result_short (v := ⟨0 :: 0 :: b, beyond⟩) (by simp only [List.length_cons]; omega)]
      exact ⟨fun _ ↦ ⟨rfl, .inl htwo⟩, fun _ ↦ rfl⟩
    · obtain ⟨x, y, rest, rfl⟩ := exists_two (Nat.not_lt.mp htwo)
      have hlength : 4 ≤ (0 :: 0 :: x :: y :: rest : List UInt8).length := by simp
      have hlt : (0 :: 0 :: x :: y :: rest : List UInt8).length < 6 := by
        simp only [List.length_cons] at hb ⊢
        omega
      have hkinds : (0 :: 0 :: x :: y :: rest : List UInt8).take 4 ∈ payloadKinds ↔
          (x :: y :: rest).take 2 ∈ [[0, 2], [0, 3], [0, 4], [0, 5]] := by
        simp [payloadKinds]
      rw [← hkinds]
      by_cases hkind : (0 :: 0 :: x :: y :: rest : List UInt8).take 4 ∈ payloadKinds
      · rw [result_cut (v := ⟨0 :: 0 :: x :: y :: rest, beyond⟩) hlength hlt hkind]
        exact ⟨fun _ ↦ ⟨rfl, .inr hkind⟩, fun _ ↦ rfl⟩
      · rw [result_void (v := ⟨0 :: 0 :: x :: y :: rest, beyond⟩) hlength hkind]
        constructor
        · intro he
          cases he
        · rintro ⟨-, hlt | hmem⟩
          · exact absurd hlt htwo
          · exact absurd hmem hkind

/-- A frame with warnings in front of its RESULT body is received as the frame without them
exactly when the warnings are hidden. -/
theorem receive_warned_iff (lz4 : Option Lz4Api) (memory : List UInt8 → Nat → UInt8)
    (flags : UInt8) (stream : Int16) (warnings : List (List UInt8)) (b : List UInt8)
    (hwarnings : warnings.length ≤ 65535 ∧ ∀ w ∈ warnings, w.length ≤ 65535)
    (hbody : (warned warnings b).length < 2 ^ 31)
    (hlz4 : ∀ api ∈ lz4, api.WorksOn (warned warnings b) ∧ api.WorksOn b) :
    receive (lz4.map Lz4Api.compressor) memory
        (responseFrame (flags ||| kWarning) stream .result (wireBody lz4 (warned warnings b))) =
      receive (lz4.map Lz4Api.compressor) memory
        (responseFrame (flags &&& ~~~kWarning) stream .result (wireBody lz4 b)) ↔
    WarningsHidden warnings b := by
  have hplain : b.length < 2 ^ 31 := by
    rw [warned, List.length_append] at hbody
    omega
  rw [receive_wireBody lz4 memory _ stream .result _ hbody (fun api ha ↦ (hlz4 api ha).1),
    receive_wireBody lz4 memory _ stream .result b hplain (fun api ha ↦ (hlz4 api ha).2)]
  by_cases hb : 4 ≤ b.length
  · rw [warned_result_kind warnings b hwarnings.1 hb]
    simp only [WarningsHidden, hb, true_and, Nat.not_lt.mpr hb, false_and, or_false]
  · rw [warned_result_short warnings b hwarnings.1 (Nat.not_le.mp hb)]
    simp only [WarningsHidden, hb, false_and, Nat.not_le.mp hb, true_and, false_or]

/-- One row of one column. -/
def oneRow : List UInt8 :=
  [0, 0, 0, 2, 0, 0, 0, 4, 0, 0, 0, 1, 0, 0, 0, 1, 0, 0, 0, 1, 7]

/-- With one warning in front, the row is received as an empty success of an unknown kind. -/
theorem oneRow_warned_lost :
    receive none (fun _ _ ↦ 0) (responseFrame kWarning 1 .result (warned [utf8 "w"] oneRow)) =
      .ok (.result 65537 .void) ∧
    ¬ ∀ (lz4 : Option Lz4Api) (memory : List UInt8 → Nat → UInt8) (flags : UInt8)
        (stream : Int16) (warnings : List (List UInt8)) (b : List UInt8),
      (warnings.length ≤ 65535 ∧ ∀ w ∈ warnings, w.length ≤ 65535) →
      (warned warnings b).length < 2 ^ 31 →
      (∀ api ∈ lz4, api.WorksOn (warned warnings b) ∧ api.WorksOn b) →
      receive (lz4.map Lz4Api.compressor) memory
          (responseFrame (flags ||| kWarning) stream .result
            (wireBody lz4 (warned warnings b))) =
        receive (lz4.map Lz4Api.compressor) memory
          (responseFrame (flags &&& ~~~kWarning) stream .result (wireBody lz4 b)) := by
  have hlost : receive none (fun _ _ ↦ 0)
      (responseFrame kWarning 1 .result (warned [utf8 "w"] oneRow)) =
        .ok (.result 65537 .void) := by
    rw [receive_responseFrame _ _ _ _ _ _ (by decide)]
    exact result_void (v := ⟨warned [utf8 "w"] oneRow, fun _ ↦ 0⟩) (by decide) (by decide)
  refine ⟨hlost, fun hall ↦ ?_⟩
  have hrow := hall none (fun _ _ ↦ 0) 0 1 [utf8 "w"] oneRow
    ⟨by decide, by decide⟩ (by decide) (by simp)
  have hlost' : receive none (fun _ _ ↦ 0)
      (responseFrame 0 1 .result oneRow) = .ok (.result 65537 .void) := hrow.symm.trans hlost
  rw [receive_responseFrame _ _ _ _ _ _ (by decide)] at hlost'
  obtain ⟨-, payload, o, hmessage, -⟩ := result_of_doParseBody hlost'
  have hkind : (65537 : Int32) = 2 := (ResponseMessage.result.inj hmessage).1
  exact absurd hkind (by decide)

/-- LZ4 blocks of literals only; an empty input is no block. -/
def literalBlocks : Lz4Api where
  compressDefault := RequestMessage.shortBlocks.compressDefault
  decompressSafe block capacity :=
    if block = [] then .error (-1) else RequestMessage.shortBlocks.decompressSafe block capacity

/-- A body of an unknown kind that begins as the warning in front of it does. -/
theorem receive_warned_unknownKind :
    receive (some literalBlocks.compressor) (fun _ _ ↦ 0) (responseFrame (0 ||| kWarning) 1 .result
        (literalBlocks.encode (warned [[97]] [0, 1, 0, 1]))) =
      receive (some literalBlocks.compressor) (fun _ _ ↦ 0)
        (responseFrame (0 &&& ~~~kWarning) 1 .result (literalBlocks.encode [0, 1, 0, 1])) := by
  have hworks : literalBlocks.WorksOn (warned [[97]] [0, 1, 0, 1]) ∧
      literalBlocks.WorksOn [0, 1, 0, 1] :=
    ⟨⟨by decide, by decide, by decide⟩, ⟨by decide, by decide, by decide⟩⟩
  exact (receive_warned_iff (some literalBlocks) (fun _ _ ↦ 0) 0 1 [[97]] [0, 1, 0, 1]
    (by simp) (by decide) (fun api ha ↦ Option.mem_some_iff.mp ha ▸ hworks)).mpr
      (.inl ⟨by decide, by decide⟩)

/-- The bytes end before the first number that the parser of the class asks for beyond them,
within the first four. -/
def CutShort : ResponseClass → List UInt8 → Prop
  | .error, b => b.length < 4
  | .ready, _ => False
  | .authentificate, b => b.length < 2
  | .support, b => b.length < 2 ∨ (b.length < 4 ∧ b.take 2 ≠ [0, 0])
  | .result, b => b.length < 4

/-- Read as a compressed body, the bytes fail as they do on their own, or they are the size and
the block of a body that parses as they do. -/
def ReadsAsCompressed (api : Lz4Api) (memory : List UInt8 → Nat → UInt8) (cls : ResponseClass)
    (b : List UInt8) : Prop :=
  CutShort cls b ∨ ∃ content : List UInt8, content.length < 2 ^ 31 ∧
    b.take 4 = toBE 4 content.length ∧
    api.decompressSafe (b.drop 4) content.length = .ok content ∧
    ResponseMessage.doParseBody cls ⟨content, memory content⟩ =
      ResponseMessage.doParseBody cls ⟨b, memory b⟩

private theorem cutShort_length {cls : ResponseClass} {b : List UInt8} (h : CutShort cls b) :
    b.length < 4 := by
  cases cls with
  | error => exact h
  | ready => exact h.elim
  | authentificate =>
    change b.length < 2 at h
    omega
  | support =>
    rcases h with h | h
    · omega
    · exact h.1
  | result => exact h

private theorem authentificate_ok {v : View} (h : 2 ≤ v.data.length) :
    ∃ message, ResponseMessage.doParseBody .authentificate v = .ok message := by
  have hguard : 0 + 2 ≤ v.data.length := by omega
  have hsize : ¬ LenType.short.toInt (LenType.short.integral.ofBits (ofBE (v.window 0 2))) < 0 := by
    simp [LenType.toInt]
  have hrun : Program.run v (ResponseMessage.bodyReader v.data.length .authentificate) (.at 0) =
      Program.run v
        ((if LenType.short.toInt (LenType.short.integral.ofBits (ofBE (v.window 0 2))) < 0 then
            .fail .lengthError
          else memcpy (LenType.short.toInt
            (LenType.short.integral.ofBits (ofBE (v.window 0 2)))).toNat) >>=
          fun challenge ↦ pure (ResponseMessage.authentificate challenge))
        ⟨2, [(0, 2)], 0⟩ := if_pos hguard
  rw [if_neg hsize] at hrun
  exact ⟨_, congrArg Prod.fst hrun⟩

private theorem support_iff {v : View} (h : 2 ≤ v.data.length) (hlt : v.data.length < 4) :
    ResponseMessage.doParseBody .support v = .error (.runtimeError "Buffer underread") ↔
      v.data.take 2 ≠ [0, 0] := by
  have hguard : 0 + 2 ≤ v.data.length := by omega
  have hwindow : v.window 0 2 = v.data.take 2 := v.window_eq_take hguard
  have hrun : Program.run v (ResponseMessage.bodyReader v.data.length .support) (.at 0) =
      Program.run v
        (Program.forCount
            (sizeT (LenType.short.toInt (LenType.short.integral.ofBits (ofBE (v.window 0 2)))))
            (fun value ↦ do
              let key ← Ty.string.read
              let mapped ← Ty.stringList.read
              return value.emplace key mapped) .empty >>=
          fun options ↦ pure (ResponseMessage.support options))
        ⟨2, [(0, 2)], 0⟩ := if_pos hguard
  have hcount : sizeT (LenType.short.toInt (LenType.short.integral.ofBits (ofBE (v.window 0 2)))) =
      0 ↔ v.data.take 2 = [0, 0] := by
    have htwo : (v.data.take 2).length = 2 := List.length_take_of_le h
    have hbound : ofBE (v.data.take 2) ≤ LenType.short.bound := by
      have hbytes := ofBE_lt (v.data.take 2)
      rw [htwo] at hbytes
      exact Nat.le_of_lt_succ hbytes
    have hnat : LenType.short.toInt (LenType.short.integral.ofBits (ofBE (v.window 0 2))) =
        ofBE (v.data.take 2) := by
      rw [hwindow]
      exact LenType.short.toInt_cast _ hbound
    rw [hnat, sizeT_natCast .short _ hbound]
    constructor
    · intro hzero
      have hbytes := toBE_ofBE (v.data.take 2)
      rw [htwo, hzero] at hbytes
      exact hbytes.symm
    · intro hzero
      rw [hzero]
      rfl
  change (Program.run v (ResponseMessage.bodyReader v.data.length .support) (.at 0)).1 = _ ↔ _
  rw [hrun, ← not_iff_not, not_not, ← hcount]
  cases sizeT (LenType.short.toInt (LenType.short.integral.ofBits (ofBE (v.window 0 2)))) with
  | zero =>
    refine ⟨fun _ ↦ rfl, fun _ he ↦ ?_⟩
    cases he
  | succ n =>
    have hcut : ¬ 2 + 2 ≤ v.data.length := by omega
    exact ⟨fun hne ↦ absurd (congrArg Prod.fst (if_neg hcut)) hne, fun he ↦ (by cases he)⟩

private theorem cutShort_iff (cls : ResponseClass) {v : View} (h : v.data.length < 4) :
    ResponseMessage.doParseBody cls v = .error (.runtimeError "Buffer underread") ↔
      CutShort cls v.data := by
  cases cls with
  | error => exact ⟨fun _ ↦ h, fun _ ↦ readIntBE_bind_short .int _ h⟩
  | ready => exact ⟨fun he ↦ (by cases he), fun hf ↦ hf.elim⟩
  | authentificate =>
    constructor
    · intro he
      by_contra hle
      obtain ⟨message, hok⟩ := authentificate_ok (Nat.not_lt.mp hle)
      rw [hok] at he
      cases he
    · intro hlt
      have hguard : ¬ 0 + 2 ≤ v.data.length := by
        change v.data.length < 2 at hlt
        omega
      exact congrArg Prod.fst (if_neg hguard)
  | support =>
    by_cases hlt : v.data.length < 2
    · have hguard : ¬ 0 + 2 ≤ v.data.length := by omega
      exact ⟨fun _ ↦ .inl hlt, fun _ ↦ congrArg Prod.fst (if_neg hguard)⟩
    · rw [support_iff (Nat.not_lt.mp hlt) h]
      exact ⟨fun hne ↦ .inr ⟨h, hne⟩, fun hcut ↦ (hcut.resolve_left hlt).2⟩
  | result => exact ⟨fun _ ↦ h, fun _ ↦ result_short h⟩

private theorem decompress_ok_iff (lz4 : Lz4) (source output : List UInt8) :
    lz4.decompress source = .ok output ↔ output.length < 2 ^ 31 ∧
      source.take 4 = toBE 4 output.length ∧
      lz4.decompressSafe (source.drop 4) output.length = .ok output := by
  constructor
  · intro h
    obtain ⟨-, hlt, hfield⟩ := Lz4Api.decompress_size lz4 source output h
    obtain ⟨-, -, -, hsafe⟩ := (Lz4Api.decompress_eq_ok_iff lz4 source output).mp h
    exact ⟨hlt, hfield, hsafe⟩
  · rintro ⟨hlt, hfield, hsafe⟩
    have hbound : output.length ≤ LenType.int.bound := Nat.le_sub_one_of_lt hlt
    have hread := ((V4.int_decodes output.length hbound).run_at [] (source.drop 4)
      (fun _ ↦ 0)).1
    rw [List.nil_append, V4.encodeInt, ← hfield, List.take_append_drop] at hread
    exact (Lz4Api.decompress_eq_ok_iff lz4 source output).mpr
      ⟨Int32.ofNat output.length, hread, LenType.int.toInt_cast _ hbound, hsafe⟩

private theorem decompress_error (lz4 : Lz4) {source : List UInt8} {e : Exception}
    (hsize : 4 ≤ source.length) (h : lz4.decompress source = .error e) :
    (e = .lengthError ∧ (Int32.toInt (IntegralType.int.ofBits (ofBE (source.take 4)))) < 0) ∨
      ∃ what, e = .error what := by
  have hread := readIntBE_run .int ⟨source, fun _ ↦ 0⟩
  rw [if_pos (show IntegralType.int.width ≤ source.length from hsize)] at hread
  unfold Lz4.decompress at h
  rw [hread] at h
  simp only [bind, Except.bind, pure, Except.pure] at h
  split at h
  · next hneg =>
    cases h
    exact .inl ⟨rfl, hneg⟩
  · split at h
    · cases h
      exact .inr ⟨_, rfl⟩
    · split at h
      · cases h
        exact .inr ⟨_, rfl⟩
      · cases h

private theorem plain_ne_error (cls : ResponseClass) (v : View) (what : String) :
    ResponseMessage.doParseBody cls v ≠ .error (.error what) :=
  ResponseMessage.bodyReader_avoids ⟨by simp, by simp⟩ cls (.at 0) (Nat.le_refl 0)

private theorem plain_ne_lengthError (cls : ResponseClass) {v : View} (h : 4 ≤ v.data.length)
    (hneg : Int32.toInt (IntegralType.int.ofBits (ofBE (v.data.take 4))) < 0) :
    ResponseMessage.doParseBody cls v ≠ .error .lengthError := by
  have hraises : ∀ {α : Type} {p : Reader α}, Program.Raises (fun e ↦ e ≠ .lengthError) p →
      (Program.run v p (.at 0)).1 ≠ .error .lengthError := fun hp he ↦ hp.of_run he rfl
  cases cls with
  | error =>
    exact hraises ((readIntBE_raises .int (by simp)).bind (fun _ ↦
      (Ty.string.read_raises (by simp) (by simp [Ty.hasLongString])).bind
        (fun _ ↦ Program.Raises.pure _)))
  | ready =>
    intro he
    cases he
  | authentificate =>
    exact hraises ((Ty.string.read_raises (by simp) (by simp [Ty.hasLongString])).bind
      (fun _ ↦ Program.Raises.pure _))
  | support =>
    exact hraises ((Ty.stringMultiMap.read_raises (by simp) (by decide)).bind
      (fun _ ↦ Program.Raises.pure _))
  | result =>
    have hkind : v.data.take 4 ∉ payloadKinds := by
      intro hmem
      have hpos : ∀ field ∈ payloadKinds,
          0 ≤ Int32.toInt (IntegralType.int.ofBits (ofBE field)) := by decide
      have hfield := hpos _ hmem
      omega
    rw [result_void h hkind]
    simp

private theorem parseBody_uncompressed_iff (api : Lz4Api) (memory : List UInt8 → Nat → UInt8)
    (cls : ResponseClass) (b : List UInt8) :
    ResponseMessage.parseBody cls (some api.compressor) memory b =
      ResponseMessage.doParseBody cls ⟨b, memory b⟩ ↔ ReadsAsCompressed api memory cls b := by
  change (api.toLz4.decompress b >>= fun content ↦
    ResponseMessage.doParseBody cls ⟨content, memory content⟩) = _ ↔ _
  by_cases hb : b.length < 4
  · have hshort : api.toLz4.decompress b = .error (.runtimeError "Buffer underread") := by
      have hread := readIntBE_run .int ⟨b, fun _ ↦ 0⟩
      rw [if_neg (show ¬ IntegralType.int.width ≤ b.length from Nat.not_le.mpr hb)] at hread
      rw [Lz4.decompress, hread]
      rfl
    rw [hshort]
    change Except.error (Exception.runtimeError "Buffer underread") = _ ↔ _
    rw [eq_comm, cutShort_iff cls (v := ⟨b, memory b⟩) hb]
    constructor
    · exact .inl
    · rintro (hcut | ⟨content, -, hfield, -⟩)
      · exact hcut
      · have hlength := congrArg List.length hfield
        rw [length_toBE, List.length_take] at hlength
        omega
  · have hfour : 4 ≤ b.length := Nat.not_lt.mp hb
    cases hdecompress : api.toLz4.decompress b with
    | error e =>
      change Except.error e = _ ↔ _
      constructor
      · intro he
        rcases decompress_error _ hfour hdecompress with ⟨rfl, hneg⟩ | ⟨what, rfl⟩
        · exact absurd he.symm (plain_ne_lengthError cls (v := ⟨b, memory b⟩) hfour hneg)
        · exact absurd he.symm (plain_ne_error cls ⟨b, memory b⟩ what)
      · rintro (hcut | ⟨content, hlt, hfield, hsafe, -⟩)
        · exact absurd (cutShort_length hcut) hb
        · rw [(decompress_ok_iff api.toLz4 b content).mpr ⟨hlt, hfield, hsafe⟩] at hdecompress
          cases hdecompress
    | ok content =>
      change ResponseMessage.doParseBody cls ⟨content, memory content⟩ = _ ↔ _
      obtain ⟨hlt, hfield, hsafe⟩ := (decompress_ok_iff api.toLz4 b content).mp hdecompress
      constructor
      · exact fun he ↦ .inr ⟨content, hlt, hfield, hsafe, he⟩
      · rintro (hcut | ⟨content', hlt', hfield', hsafe', he⟩)
        · exact absurd (cutShort_length hcut) hb
        · rw [(decompress_ok_iff api.toLz4 b content').mpr ⟨hlt', hfield', hsafe'⟩] at hdecompress
          cases hdecompress
          exact he

/-- On a connection with a compressor the compressed frame of a body is always received as the
body is without one; the uncompressed frame of it is so exactly when the body reads as a
compressed one. -/
theorem receive_compression_iff (api : Lz4Api) (memory : List UInt8 → Nat → UInt8)
    (flags : UInt8) (stream : Int16) (cls : ResponseClass) (b : List UInt8)
    (hlz4 : api.WorksOn b) :
    ∃ compressed, (api.compress b).run [] = .ok (Int32.ofNat b.length, compressed) ∧
      ((receive (some api.compressor) memory
            (responseFrame (flags ||| kCompression) stream cls compressed) =
          receive none memory (responseFrame (flags &&& ~~~kCompression) stream cls b) ∧
        receive (some api.compressor) memory
            (responseFrame (flags &&& ~~~kCompression) stream cls b) =
          receive none memory (responseFrame (flags &&& ~~~kCompression) stream cls b)) ↔
        ReadsAsCompressed api memory cls b) := by
  have hlt : b.length < 2 ^ 31 :=
    Nat.lt_of_le_of_lt (length_le_of_worksOn hlz4) lz4MaxInputSize_lt
  have hcompressed := receive_wireBody (some api) memory (flags ||| kCompression) stream cls b hlt
    (fun api' ha ↦ Option.mem_some_iff.mp ha ▸ hlz4)
  have hplain := receive_wireBody none memory (flags &&& ~~~kCompression) stream cls b hlt
    (by simp)
  refine ⟨api.encode b, by simpa using api.compress_run b [] hlz4, ?_⟩
  rw [show receive none memory (responseFrame (flags &&& ~~~kCompression) stream cls b) =
      ResponseMessage.doParseBody cls ⟨b, memory b⟩ from hplain,
    receive_responseFrame _ memory _ stream cls b hlt, parseBody_uncompressed_iff]
  exact ⟨fun h ↦ h.2, fun h ↦ ⟨hcompressed, h⟩⟩

/-- A Void result that the server did not compress is refused on a connection with a
compressor. -/
theorem voidBody_refused :
    literalBlocks.WorksOn [0, 0, 0, 1] ∧
    receive (some literalBlocks.compressor) (fun _ _ ↦ 0)
        (responseFrame 0 1 .result [0, 0, 0, 1]) =
      .error (.error "LZ4 decompression failed, expected: 1, actual size: -1") ∧
    receive none (fun _ _ ↦ 0) (responseFrame 0 1 .result [0, 0, 0, 1]) = .ok (.result 1 .void) ∧
    ¬ ∀ (api : Lz4Api) (memory : List UInt8 → Nat → UInt8) (flags : UInt8) (stream : Int16)
        (cls : ResponseClass) (b : List UInt8), api.WorksOn b →
      receive (some api.compressor) memory
          (responseFrame (flags &&& ~~~kCompression) stream cls b) =
        receive none memory (responseFrame (flags &&& ~~~kCompression) stream cls b) := by
  have hworks : literalBlocks.WorksOn [0, 0, 0, 1] := ⟨by decide, by decide, by decide⟩
  have hrefused : receive (some literalBlocks.compressor) (fun _ _ ↦ 0)
      (responseFrame 0 1 .result [0, 0, 0, 1]) =
        .error (.error "LZ4 decompression failed, expected: 1, actual size: -1") := by
    rw [receive_responseFrame _ _ _ _ _ _ (by decide)]
    rfl
  have hplain : receive none (fun _ _ ↦ 0) (responseFrame 0 1 .result [0, 0, 0, 1]) =
      .ok (.result 1 .void) := by
    rw [receive_responseFrame _ _ _ _ _ _ (by decide)]
    exact result_void (v := ⟨[0, 0, 0, 1], fun _ ↦ 0⟩) (by decide) (by decide)
  refine ⟨hworks, hrefused, hplain, fun hall ↦ ?_⟩
  have hsame := hall literalBlocks (fun _ _ ↦ 0) 0 1 .result [0, 0, 0, 1] hworks
  have hcontra := hrefused.symm.trans (hsame.trans hplain)
  cases hcontra

/-- A READY body that happens to be a size and a block. -/
theorem receive_compression_ready :
    literalBlocks.WorksOn [0, 0, 0, 1, 16, 7] ∧
      receive (some literalBlocks.compressor) (fun _ _ ↦ 0)
          (responseFrame (0 &&& ~~~kCompression) 1 .ready [0, 0, 0, 1, 16, 7]) =
        receive none (fun _ _ ↦ 0)
          (responseFrame (0 &&& ~~~kCompression) 1 .ready [0, 0, 0, 1, 16, 7]) := by
  have hworks : literalBlocks.WorksOn [0, 0, 0, 1, 16, 7] := ⟨by decide, by decide, by decide⟩
  obtain ⟨compressed, -, hiff⟩ := receive_compression_iff literalBlocks (fun _ _ ↦ 0) 0 1 .ready
    [0, 0, 0, 1, 16, 7] hworks
  exact ⟨hworks, (hiff.mpr (.inr ⟨[7], by decide, by decide, by decide, rfl⟩)).2⟩

end CassandraDriver.Detail
