import CassandraDriver.Lib.Layout
import CassandraDriver.Protocol.ResponseMessage
import CassandraDriver.Protocol.V4

/-!
# PREPARE and its answers

Library `Detail`. Models `CheckError`, the part of `ExecuteMessageAsync` behind its queue, and
`Prepare` and `ExecutePrepared` of `src/detail/connection_impl.cpp`, with
`ResultMessage::GetPreparedStatementId`. A body that the receiver cannot parse ends its loop
and never reaches the call, which then times out.
-/

namespace CassandraDriver.Detail
open CassandraDriver.Lib CassandraDriver.Io CassandraDriver.Protocol

/-- What leaves a call of `ConnectionImpl`: one of the classes that `CheckError` throws, told
apart by the error code, `ConnectionError("Timeout")` or another `std::exception`. -/
inductive CallError
  | frameError (code : Int32) (message : List UInt8)
  | timeout
  | other (e : Exception)
  deriving DecidableEq, Repr

/-- `io::protocol::ErrorCode`, `include/cassandra/io/protocol/types.hpp:36`. -/
def errorCodes : List Int32 :=
  [0x0000, 0x000A, 0x0100, 0x1000, 0x1001, 0x1002, 0x1003, 0x1100, 0x1200, 0x1300, 0x1400, 0x1500,
   0x2000, 0x2100, 0x2200, 0x2300, 0x2400, 0x2500]

/-- `ErrorCode::kUnprepared`. -/
def kUnprepared : Int32 := 0x2500

/-- `CheckError`, `src/detail/connection_impl.cpp:43`. The switch has no default. -/
def checkError : ResponseMessage → Except CallError Unit
  | .error code message => if code ∈ errorCodes then .error (.frameError code message) else .ok ()
  | _ => .ok ()

/-- What the node sends back for a request, if anything: a class of response and its body,
decompressed, with what memory holds behind it. -/
abbrev Answer := Option (ResponseClass × View)

/-- `ExecuteMessageAsync` from its `Pop` on, `connection_impl.cpp:193–204`. -/
def executeMessageAsync : Answer → Except CallError ResponseMessage
  | none => .error .timeout
  | some (cls, buffer) =>
    match ResponseMessage.doParseBody cls buffer with
    | .error _ => .error .timeout
    | .ok message => do
      checkError message
      return message

/-- `ResultMessage::GetPreparedStatementId`, `src/io/protocol/response_message.hpp:251`. -/
def getPreparedStatementId (kind : Int32) (payload : ResultPayload) :
    Except CallError (List UInt8) :=
  if kind ≠ 0x0004 then .ok []
  else match payload with
    | .prepared prepared => .ok prepared.id
    | _ => .error (.other (.runtimeError "std::get: wrong index for variant"))

/-- `ConnectionImpl::Prepare`, `connection_impl.cpp:488`. -/
def prepare (answer : Answer) : Except CallError (List UInt8) := do
  match ← executeMessageAsync answer with
  | .result kind payload => getPreparedStatementId kind payload
  | _ => .error (.other (.runtimeError "Unexpected response type"))

/-- `ExecutePrepared` and `BatchExecute` throw `exceptions::Unprepared` on this answer. -/
def throwsUnprepared (answer : Answer) : Bool :=
  match executeMessageAsync answer with
  | .error (.frameError code _) => code == kUnprepared
  | _ => false

/-- The kind of a RESULT, by the layout of the protocol. -/
def wireResultKind : Decoder Int := V4.int

/-- The id of a RESULT of kind Prepared, by the layout of the protocol: the kind, then the id
as [short bytes]. -/
def wirePreparedId : Decoder (List UInt8) := do
  let kind ← wireResultKind
  if kind = 4 then V4.shortBytes else Decoder.reject

/-- A response is a RESULT of kind Prepared with this id. -/
def IsPrepared (cls : ResponseClass) (body id : List UInt8) : Prop :=
  cls = .result ∧ (wirePreparedId.run body).map Prod.fst = some id

/-- A RESULT that the driver reads to its end and whose kind is not Prepared. -/
def OtherResult : Answer → Prop
  | some (.result, buffer) => (ResponseMessage.doParseBody .result buffer).isOk = true ∧
      (wireResultKind.run buffer.data).map Prod.fst ≠ some 4
  | _ => False

instance : DecidablePred OtherResult
  | some (.result, _) => inferInstanceAs (Decidable (_ ∧ _))
  | some (.error, _) => inferInstanceAs (Decidable False)
  | some (.ready, _) => inferInstanceAs (Decidable False)
  | some (.authentificate, _) => inferInstanceAs (Decidable False)
  | some (.support, _) => inferInstanceAs (Decidable False)
  | none => inferInstanceAs (Decidable False)

/-- An integer is read where it lies whole in the buffer, and nowhere else. -/
theorem finish_readIntBE (i : IntegralType) (v : View) (o : Nat) :
    Program.finish v (readIntBE i) o =
      if o + i.width ≤ v.data.length then
        some (i.ofBits (ofBE ((v.data.drop o).take i.width)), o + i.width)
      else none := by
  change Program.finish v (Program.guard i.width (Exception.runtimeError "Buffer underread")
    (.copy i.width (fun bs ↦ .done (i.ofBits (ofBE bs))))) o = _
  simp only [Program.finish]
  split
  · next h => rw [v.window_eq_take h]
  · rfl

/-- The number that the protocol reads in the kind of a RESULT. -/
theorem wireResultKind_run (body : List UInt8) (h : 4 ≤ body.length) :
    wireResultKind.run body =
      some (V4.twosComplement 4 (ofBE (body.take 4)), body.drop 4) := by
  rw [wireResultKind, V4.int, V4.signed, StateT.run_bind, V4.unsigned_run h]
  rfl

/-- The kind in the message is the kind on the wire. -/
theorem kind_eq_four_iff (body : List UInt8) (h : 4 ≤ body.length) :
    IntegralType.int.ofBits (ofBE (body.take 4)) = (0x0004 : Int32) ↔
      V4.twosComplement 4 (ofBE (body.take 4)) = 4 := by
  have hlt := ofBE_lt (body.take 4)
  rw [List.length_take_of_le h] at hlt
  have hwire : V4.twosComplement 4 (ofBE (body.take 4)) = 4 ↔ ofBE (body.take 4) = 4 := by
    unfold V4.twosComplement
    split <;> omega
  rw [hwire]
  constructor
  · intro hkind
    have hbits : BitVec.ofNat 32 (ofBE (body.take 4)) = BitVec.ofNat 32 4 :=
      congrArg Int32.toBitVec hkind
    have hnat := congrArg BitVec.toNat hbits
    rw [BitVec.toNat_ofNat, BitVec.toNat_ofNat] at hnat
    omega
  · intro hkind
    rw [hkind]
    rfl

/-- The id behind the kind, if that is Prepared. -/
theorem wirePreparedId_run (body : List UInt8) : wirePreparedId.run body =
    (wireResultKind.run body).bind (fun x ↦
      (if x.1 = 4 then V4.shortBytes else Decoder.reject).run x.2) := rfl

/-- A Prepared result is no RESULT of another kind. -/
theorem not_otherResult_of_isPrepared {buffer : View} {id : List UInt8}
    (h : IsPrepared .result buffer.data id) : ¬ OtherResult (some (.result, buffer)) := by
  rintro ⟨-, hkind⟩
  have hid := h.2
  rw [wirePreparedId_run] at hid
  cases hwire : wireResultKind.run buffer.data with
  | none =>
    rw [hwire] at hid
    cases hid
  | some x =>
    rw [hwire] at hkind
    rw [hwire, Option.bind_some, if_neg (fun hfour ↦ hkind (congrArg some hfour))] at hid
    cases hid

/-- What the driver reads of a RESULT: its kind, and a payload behind it. -/
theorem result_of_doParseBody {v : View} {message : ResponseMessage}
    (h : ResponseMessage.doParseBody .result v = .ok message) :
    4 ≤ v.data.length ∧ ∃ payload o,
      message = .result (IntegralType.int.ofBits (ofBE (v.data.take 4))) payload ∧
      Program.finish v (ResultPayload.parse v.data.length
        (IntegralType.int.ofBits (ofBE (v.data.take 4)))) 4 = some (payload, o) := by
  obtain ⟨o, hfinish⟩ := Program.finish_of_run_ok h
  obtain ⟨kind, o₁, hkind, hrest⟩ := Program.finish_bind_eq_some hfinish
  rw [finish_readIntBE] at hkind
  split at hkind
  · next hlength =>
    cases hkind
    obtain ⟨payload, o₂, hpayload, hdone⟩ := Program.finish_bind_eq_some hrest
    cases hdone
    exact ⟨hlength, payload, o, rfl, hpayload⟩
  · cases hkind

/-- What the driver copies for [short bytes], checked only at the length. -/
theorem finish_shortBytes {v : View} {o o' : Nat} {bs : List UInt8}
    (h : Program.finish v Ty.shortBytes.read o = some (bs, o')) :
    o' = o + 2 + ofBE ((v.data.drop o).take 2) ∧
    bs = v.window (o + 2) (ofBE ((v.data.drop o).take 2)) := by
  obtain ⟨len, o₁, hlen, hrest⟩ := Program.finish_bind_eq_some h
  obtain ⟨word, o₂, hword, hdone⟩ := Program.finish_bind_eq_some hlen
  cases hdone
  rw [finish_readIntBE] at hword
  split at hword
  · next hlength =>
    cases hword
    have hlt : ofBE ((v.data.drop o).take 2) < 65536 := by
      have hbytes := ofBE_lt ((v.data.drop o).take 2)
      rw [List.length_take_of_le (by simp; change o + 2 ≤ _ at hlength; omega)] at hbytes
      exact hbytes
    have hnat : LenType.short.toInt (LenType.short.integral.ofBits
        (ofBE ((v.data.drop o).take LenType.short.integral.width))) =
        (ofBE ((v.data.drop o).take 2) : Int) :=
      congrArg Int.ofNat (UInt16.toNat_ofNat_of_lt' hlt)
    rw [hnat, Int.toNat_natCast] at hrest
    split at hrest
    · cases hrest
      exact ⟨rfl, rfl⟩
    · next hzero =>
      cases hrest
      have hempty : ofBE ((v.data.drop o).take 2) = 0 := by omega
      rw [hempty]
      exact ⟨rfl, rfl⟩
  · cases hword

/-- The id of a Prepared result that the driver has read to its end lies inside the body: the
flags behind it are read with a check. -/
theorem preparedKind_id {v : View} {size o : Nat} {prepared : PreparedKind}
    (h : Program.finish v (PreparedKind.parse size) 4 = some (prepared, o)) :
    6 + ofBE ((v.data.drop 4).take 2) ≤ v.data.length ∧
    prepared.id = (v.data.drop 6).take (ofBE ((v.data.drop 4).take 2)) := by
  obtain ⟨id, o₁, hid, hrest⟩ := Program.finish_bind_eq_some h
  obtain ⟨flags, o₂, hflags, hrest⟩ := Program.finish_bind_eq_some hrest
  have hid' : prepared.id = id := by
    obtain ⟨count, o₃, -, hrest⟩ := Program.finish_bind_eq_some hrest
    obtain ⟨indexes, o₄, -, hrest⟩ := Program.finish_bind_eq_some hrest
    obtain ⟨spec, o₅, -, hrest⟩ := Program.finish_bind_eq_some hrest
    obtain ⟨columns, o₆, -, hrest⟩ := Program.finish_bind_eq_some hrest
    cases hrest
    rfl
  rw [finish_readIntBE] at hflags
  split at hflags
  · next hlength =>
    obtain ⟨rfl, rfl⟩ := finish_shortBytes hid
    change 4 + 2 + ofBE ((v.data.drop 4).take 2) + 4 ≤ v.data.length at hlength
    refine ⟨by omega, ?_⟩
    rw [hid', v.window_eq_take (by omega)]
  · cases hflags

/-- A Prepared result that the driver has read to its end is one on the wire, with that id. -/
theorem isPrepared_of_finish {v : View} {size o : Nat} {prepared : PreparedKind}
    (hkind : V4.twosComplement 4 (ofBE (v.data.take 4)) = 4)
    (h : Program.finish v (PreparedKind.parse size) 4 = some (prepared, o)) :
    IsPrepared .result v.data prepared.id := by
  obtain ⟨hlength, hid⟩ := preparedKind_id h
  refine ⟨rfl, ?_⟩
  rw [wirePreparedId_run, wireResultKind_run v.data (by omega), Option.bind_some, if_pos hkind, hid]
  have htwo : 2 ≤ (v.data.drop 4).length := by
    rw [List.length_drop]
    omega
  have hrest : ofBE ((v.data.drop 4).take 2) ≤ ((v.data.drop 4).drop 2).length := by
    rw [List.length_drop, List.length_drop]
    omega
  rw [V4.shortBytes, StateT.run_bind, V4.short, V4.unsigned_run htwo]
  change ((Decoder.take _).run _).map Prod.fst = _
  rw [Decoder.take_run hrest, List.drop_drop]
  rfl

/-- The class of a message. -/
def messageClass : ResponseMessage → ResponseClass
  | .error _ _ => .error
  | .ready => .ready
  | .authentificate _ => .authentificate
  | .support _ => .support
  | .result _ _ => .result

/-- Every class makes messages of its own only. -/
theorem messageClass_of_doParseBody {cls : ResponseClass} {v : View} {message : ResponseMessage}
    (h : ResponseMessage.doParseBody cls v = .ok message) : messageClass message = cls := by
  obtain ⟨o, hfinish⟩ := Program.finish_of_run_ok h
  cases cls with
  | error =>
    obtain ⟨code, o₁, -, hrest⟩ := Program.finish_bind_eq_some hfinish
    obtain ⟨text, o₂, -, hdone⟩ := Program.finish_bind_eq_some hrest
    cases hdone
    rfl
  | ready =>
    cases hfinish
    rfl
  | authentificate =>
    obtain ⟨challenge, o₁, -, hdone⟩ := Program.finish_bind_eq_some hfinish
    cases hdone
    rfl
  | support =>
    obtain ⟨options, o₁, -, hdone⟩ := Program.finish_bind_eq_some hfinish
    cases hdone
    rfl
  | result =>
    obtain ⟨kind, o₁, -, hrest⟩ := Program.finish_bind_eq_some hfinish
    obtain ⟨payload, o₂, -, hdone⟩ := Program.finish_bind_eq_some hrest
    cases hdone
    rfl

/-- What `Prepare` has received when it returns. -/
theorem prepare_eq_ok_iff (answer : Answer) (id : List UInt8) :
    prepare answer = .ok id ↔ ∃ buffer kind payload, answer = some (.result, buffer) ∧
      ResponseMessage.doParseBody .result buffer = .ok (.result kind payload) ∧
      getPreparedStatementId kind payload = .ok id := by
  constructor
  · intro h
    rcases answer with _ | ⟨cls, buffer⟩
    · cases h
    · cases hparse : ResponseMessage.doParseBody cls buffer with
      | error e =>
        simp only [prepare, executeMessageAsync, hparse] at h
        cases h
      | ok message =>
        simp only [prepare, executeMessageAsync, hparse] at h
        cases message with
        | result kind payload =>
          obtain rfl := messageClass_of_doParseBody hparse
          exact ⟨buffer, kind, payload, rfl, hparse, h⟩
        | error code text =>
          simp only [checkError] at h
          split at h <;> cases h
        | ready => cases h
        | authentificate challenge => cases h
        | support options => cases h
  · rintro ⟨buffer, kind, payload, rfl, hparse, hid⟩
    simp only [prepare, executeMessageAsync, hparse]
    exact hid

/-- What `Prepare` returns is the id of a Prepared result, or empty for another RESULT. -/
theorem prepare_eq_ok {answer : Answer} {id : List UInt8} (h : prepare answer = .ok id) :
    OtherResult answer ∧ id = [] ∨
      ∃ buffer, answer = some (.result, buffer) ∧ IsPrepared .result buffer.data id := by
  obtain ⟨buffer, kind, payload, rfl, hparse, hid⟩ := (prepare_eq_ok_iff answer id).mp h
  obtain ⟨hlength, payload', o, hmessage, hfinish⟩ := result_of_doParseBody hparse
  cases hmessage
  have hwire := wireResultKind_run buffer.data hlength
  unfold getPreparedStatementId at hid
  split at hid
  · next hkind =>
    cases hid
    refine .inl ⟨⟨by rw [hparse]; rfl, ?_⟩, rfl⟩
    rw [hwire]
    intro hfour
    exact hkind ((kind_eq_four_iff buffer.data hlength).mpr (Option.some.inj hfour))
  · next hkind =>
    refine .inr ⟨buffer, rfl, ?_⟩
    have hfour := not_not.mp hkind
    rw [hfour] at hfinish
    change Program.finish buffer (PreparedKind.parse buffer.data.length >>= fun prepared ↦
      (Pure.pure (ResultPayload.prepared prepared) : Reader ResultPayload)) 4 = _ at hfinish
    obtain ⟨prepared, o₁, hprepared, hdone⟩ := Program.finish_bind_eq_some hfinish
    cases hdone
    cases hid
    exact isPrepared_of_finish ((kind_eq_four_iff buffer.data hlength).mp hfour) hprepared

/-- A RESULT of another kind does not make `Prepare` fail. -/
theorem prepare_of_otherResult {buffer : View} (h : OtherResult (some (.result, buffer))) :
    prepare (some (.result, buffer)) = .ok [] := by
  obtain ⟨hok, hkind⟩ := h
  cases hparse : ResponseMessage.doParseBody .result buffer with
  | error e =>
    rw [hparse] at hok
    cases hok
  | ok message =>
    obtain ⟨hlength, payload, o, rfl, -⟩ := result_of_doParseBody hparse
    refine (prepare_eq_ok_iff _ _).mpr ⟨buffer, _, payload, rfl, hparse, ?_⟩
    rw [wireResultKind_run buffer.data hlength] at hkind
    refine if_pos (fun hfour ↦ hkind ?_)
    exact congrArg some ((kind_eq_four_iff buffer.data hlength).mp hfour)

/-- Whatever is not a Prepared result makes `Prepare` fail, but for a RESULT of another kind. -/
theorem prepare_fails_iff {answer : Answer}
    (h : ∀ cls buffer id, answer = some (cls, buffer) → ¬ IsPrepared cls buffer.data id) :
    (∃ e, prepare answer = .error e) ↔ ¬ OtherResult answer := by
  constructor
  · rintro ⟨e, he⟩ hother
    rcases answer with _ | ⟨_ | _ | _ | _ | _, buffer⟩
    case some.result =>
      rw [prepare_of_otherResult hother] at he
      cases he
    all_goals exact hother
  · intro hother
    cases hprepare : prepare answer with
    | error e => exact ⟨e, rfl⟩
    | ok id =>
      rcases prepare_eq_ok hprepare with ⟨hbad, -⟩ | ⟨buffer, rfl, hprepared⟩
      · exact absurd hbad hother
      · exact absurd hprepared (h _ _ _ rfl)

end CassandraDriver.Detail
