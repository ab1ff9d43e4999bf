import CassandraDriver.Protocol.SchemaChangeFaithful

/-!
# Responses of the native protocol, version 4

Library `Protocol`. Everything a server answers a request with, its layout in the terms of
the protocol document, and the message that `DoParseBody` makes of it. A parser may leave the
end of a body unread: the details of an error, the result metadata of a prepared statement,
the options of a changed function.
-/

namespace CassandraDriver.Protocol
open CassandraDriver.Lib CassandraDriver.Lib.Program CassandraDriver.Io

namespace V4

/-- The responses to a request. What follows the message of an ERROR depends on its code. -/
inductive Response
  | error (code : Int32) (message details : List UInt8)
  | ready
  | authenticate (authenticator : List UInt8)
  | supported (options : Ty.stringMultiMap.Val)
  | void
  | result (r : Result)
  | schemaChange (c : Change)

namespace Response

/-- The class of the message. -/
def cls : Response → ResponseClass
  | error .. => .error
  | ready => .ready
  | authenticate _ => .authentificate
  | supported _ => .support
  | void => .result
  | result _ => .result
  | schemaChange _ => .result

/-- What a parser reads of the body. -/
def encodeOwn : Response → List UInt8
  | error code message _ => toBE 4 (IntegralType.int.toBits code) ++ encodeString message
  | ready => []
  | authenticate authenticator => encodeString authenticator
  | supported options => Ty.stringMultiMap.encode options
  | void => encodeInt 1
  | result r => r.encodeOwn
  | schemaChange c => encodeInt 5 ++ c.encodeKept

/-- The body of the frame. -/
def encode : Response → List UInt8
  | error code message details =>
    toBE 4 (IntegralType.int.toBits code) ++ (encodeString message ++ details)
  | ready => []
  | authenticate authenticator => encodeString authenticator
  | supported options => Ty.stringMultiMap.encode options
  | void => encodeInt 1
  | result r => r.encode
  | schemaChange c => encodeInt 5 ++ c.encode

/-- Everything fits its prefix. -/
def Fits : Response → Prop
  | error _ message _ => message.length ≤ 65535
  | ready => True
  | authenticate authenticator => authenticator.length ≤ 65535
  | supported options => Ty.stringMultiMap.Fits options
  | void => True
  | result r => r.Fits
  | schemaChange c => c.Fits

/-- The response as a parser keeps it. -/
def toMessage : Response → ResponseMessage
  | error code message _ => .error code message
  | ready => .ready
  | authenticate authenticator => .authentificate authenticator
  | supported options => .support options
  | void => .result 1 .void
  | result r => .result (Int32.ofNat r.kind) r.toPayload
  | schemaChange c => .result 5 (.schemaChange c.kept)

/-- The part that is read stands in front. -/
theorem exists_encode_eq (r : Response) : ∃ post, r.encode = r.encodeOwn ++ post := by
  cases r with
  | error code message details =>
    exact ⟨details, by rw [encode, encodeOwn, List.append_assoc]⟩
  | ready => exact ⟨[], rfl⟩
  | authenticate a => exact ⟨[], (List.append_nil _).symm⟩
  | supported options => exact ⟨[], (List.append_nil _).symm⟩
  | void => exact ⟨[], (List.append_nil _).symm⟩
  | result r =>
    cases r with
    | prepared p => exact ⟨p.resultMetadata, rfl⟩
    | rows rows => exact ⟨[], (List.append_nil _).symm⟩
    | setKeyspace keySpace => exact ⟨[], (List.append_nil _).symm⟩
  | schemaChange c =>
    rw [encode, encodeOwn, Change.encode, Change.encodeKept]
    split
    · exact ⟨c.target.encodeOptions, by simp only [List.append_assoc, List.nil_append]⟩
    · exact ⟨[], (List.append_nil _).symm⟩

/-- The reader of a class recovers a response of that class from its layout. -/
theorem decodes (size : Nat) (r : Response) (h : r.Fits) (hs : r.encodeOwn.length ≤ size) :
    Decodes (ResponseMessage.bodyReader size r.cls) r.encodeOwn r.toMessage := by
  cases r with
  | error code message details =>
    exact (readIntBE_decodes .int code).bind
      ((string_decodes message h).map (ResponseMessage.error code))
  | ready => exact Decodes.pure _
  | authenticate a => exact (string_decodes a h).map ResponseMessage.authentificate
  | supported options =>
    exact (Ty.stringMultiMap.read_decodes options h).map ResponseMessage.support
  | void =>
    have hvoid := (int_decodes 1 (by decide)).bind (f := fun kind ↦ do
      let payload ← ResultPayload.parse size kind
      return ResponseMessage.result kind payload) (.pure (ResponseMessage.result 1 .void))
    rwa [List.append_nil] at hvoid
  | result r => exact result_decodes size r h hs
  | schemaChange c =>
    exact (int_decodes 5 (by decide)).bind
      (((schemaChange_decodes c h).map ResultPayload.schemaChange).map (ResponseMessage.result 5))

/-- `DoParseBody` recovers every response from its body, whatever stands behind the part it
reads. -/
theorem doParseBody_encode (r : Response) (h : r.Fits) (beyond : Nat → UInt8) :
    ResponseMessage.doParseBody r.cls ⟨r.encode, beyond⟩ = .ok r.toMessage := by
  obtain ⟨post, he⟩ := r.exists_encode_eq
  have hs : r.encodeOwn.length ≤ r.encode.length := by
    rw [he, List.length_append]
    omega
  have hr := ((decodes r.encode.length r h hs).run_at [] post beyond).1
  rw [List.nil_append, ← he] at hr
  exact hr

end Response
end V4
end CassandraDriver.Protocol
