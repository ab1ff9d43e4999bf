import CassandraDriver.Protocol.V4

/-!
# Request frames are faithful

Library `Protocol`. `encodeBody` lays out the body of each request; the serializers
append exactly this layout, the protocol's own decoder consumes exactly it, and the
length patched in at the end counts it. Hence a server recovers every field.
-/

namespace CassandraDriver.Protocol
open CassandraDriver.Lib CassandraDriver.Lib.Decoder CassandraDriver.Io

namespace V4

private theorem unsigned_consumes (w n : Nat) (h : n < 256 ^ w) :
    Consumes (unsigned w) (toBE w n) n := by
  have hc := (Consumes.take (toBE w n) (length_toBE w n)).map ofBE
  rwa [ofBE_toBE w n h] at hc

private theorem short_consumes (n : Nat) (h : n ≤ LenType.short.bound) :
    Consumes short (LenType.short.encode n) n :=
  unsigned_consumes 2 n (Nat.lt_of_le_of_lt h (by decide))

private theorem byte_consumes (x : UInt8) : Consumes byte (toBE 1 x.toNat) x.toNat :=
  unsigned_consumes 1 x.toNat (UInt8.toNat_lt x)

private theorem int_consumes (n : Nat) (h : n ≤ LenType.int.bound) :
    Consumes int (LenType.int.encode n) (n : Int) := by
  have hn : n < 2 ^ 31 := Nat.lt_of_le_of_lt h (by decide)
  have hc := (unsigned_consumes 4 n (by omega)).map (twosComplement 4)
  rwa [twosComplement, if_pos (by omega)] at hc

/-- A stream id is read as the signed number it is. -/
theorem stream_consumes (x : Int16) :
    Consumes (signed 2) (toBE 2 (IntegralType.smallInt.toBits x)) x.toInt := by
  have hc := (unsigned_consumes 2 _ (IntegralType.smallInt.toBits_lt x)).map (twosComplement 2)
  have hi : twosComplement 2 (IntegralType.smallInt.toBits x) = x.toInt :=
    (BitVec.toInt_eq_toNat_cond x.toBitVec).symm
  rwa [hi] at hc

private theorem string_consumes (s : List UInt8) (h : s.length ≤ LenType.short.bound) :
    Consumes string (Ty.string.encode s) s :=
  (short_consumes s.length h).bind (Consumes.take s rfl)

private theorem shortBytes_consumes (s : List UInt8) (h : s.length ≤ LenType.short.bound) :
    Consumes shortBytes (Ty.shortBytes.encode s) s :=
  (short_consumes s.length h).bind (Consumes.take s rfl)

private theorem longString_consumes (s : List UInt8) (h : s.length ≤ LenType.int.bound) :
    Consumes longString (Ty.longString.encode s) s := by
  apply (int_consumes s.length h).bind
  rw [if_neg (by omega), Int.toNat_natCast]
  exact Consumes.take s rfl

private theorem value_consumes (s : List UInt8) (h : s.length ≤ LenType.int.bound) :
    Consumes value (Ty.bytes.encode s) (.bytes s) := by
  apply (int_consumes s.length h).bind
  rw [if_neg (by omega), if_neg (by omega), if_neg (by omega), Int.toNat_natCast]
  exact (Consumes.take s rfl).map Value.bytes

private theorem stringMap_consumes (m : StringMap) (h : Ty.stringMap.Fits m) :
    Consumes stringMap (Ty.stringMap.encode m) m.1 := by
  have he : ∀ e ∈ m.1, Consumes (do
      let k ← string
      let v ← string
      return (k, v)) (Ty.string.encode e.1 ++ Ty.string.encode e.2) e :=
    fun e he ↦ (string_consumes e.1 (h.2 e he).1).bind
      ((string_consumes e.2 (h.2 e he).2).map (fun v ↦ (e.1, v)))
  have hm : Consumes stringMap (Ty.stringMap.encode m) (m.1.map (fun e ↦ e)) :=
    (short_consumes _ h.1).bind (Consumes.many m.1 he)
  exact List.map_id' m.1 ▸ hm

private theorem consistency_consumes (level : Consistency) :
    Consumes consistency (toBE 2 level.code.toNat) level := by
  have hc : consistencyOfCode level.code.toNat = some level := by cases level <;> rfl
  have hs : Consumes short (toBE 2 level.code.toNat) level.code.toNat :=
    unsigned_consumes 2 _ (UInt16.toNat_lt _)
  intro rest
  have h := hs rest
  unfold consistency
  rw [StateT.run_bind, h]
  simp only [Option.bind_eq_bind, Option.bind_some, hc]
  rfl

end V4

/-- The layout of the parameters of QUERY and EXECUTE. -/
def encodeParameters (level : Consistency) (params : List (List UInt8)) : List UInt8 :=
  toBE 2 level.code.toNat ++
    if params.isEmpty then toBE 1 0x02
    else toBE 1 0x03 ++ (LenType.short.encode params.length ++ params.flatMap Ty.bytes.encode)

/-- The layout of the text or id of a statement. -/
def StatementQuery.encode : StatementQuery → List UInt8
  | .string query => toBE 1 0 ++ Ty.longString.encode query
  | .id i => toBE 1 1 ++ Ty.shortBytes.encode i

/-- The layout of one statement of a batch. -/
def BatchStatement.encode (s : BatchStatement) : List UInt8 :=
  s.query.encode ++ (LenType.short.encode s.params.length ++ s.params.flatMap Ty.bytes.encode)

/-- At most 65535 parameters, and an id of at most 65535 bytes. -/
def BatchStatement.Sendable (s : BatchStatement) : Prop :=
  s.params.length ≤ 65535 ∧ ∀ i, s.query = .id i → i.length ≤ 65535

namespace RequestMessage

/-- The layout of a request body. -/
def encodeBody : RequestMessage → List UInt8
  | options => []
  | startup m => Ty.stringMap.encode m.options
  | query level text params => Ty.longString.encode text ++ encodeParameters level params
  | prepare text => Ty.longString.encode text
  | execute level id params => Ty.shortBytes.encode id ++ encodeParameters level params
  | batch queries level =>
    toBE 1 0 ++ (LenType.short.encode queries.length ++ (queries.flatMap BatchStatement.encode ++
      (toBE 2 level.code.toNat ++ toBE 1 0)))

/-- The counts and ids that a `Short` prefix must hold do fit it. -/
def Sendable : RequestMessage → Prop
  | options => True
  | startup m => ∀ c ∈ m.compressionProtocol, c.length ≤ 65535
  | query _ _ params => params.length ≤ 65535
  | prepare _ => True
  | execute _ id params => id.length ≤ 65535 ∧ params.length ≤ 65535
  | batch queries _ => queries.length ≤ 65535 ∧ ∀ s ∈ queries, s.Sendable

end RequestMessage

/-- Parameter count and parameter lengths fit their prefixes. -/
def ParamsFit (params : List (List UInt8)) : Prop :=
  params.length ≤ LenType.short.bound ∧ ∀ p ∈ params, Ty.bytes.Fits p

/-- Every prefix in a statement is wide enough. -/
def BatchStatement.Fits (s : BatchStatement) : Prop :=
  ParamsFit s.params ∧ match s.query with
    | .string text => Ty.longString.Fits text
    | .id i => Ty.shortBytes.Fits i

/-- Every prefix in a request is wide enough. -/
def RequestMessage.Fits : RequestMessage → Prop
  | options => True
  | startup m => Ty.stringMap.Fits m.options
  | query _ text params => Ty.longString.Fits text ∧ ParamsFit params
  | prepare text => Ty.longString.Fits text
  | execute _ id params => Ty.shortBytes.Fits id ∧ ParamsFit params
  | batch queries _ => queries.length ≤ LenType.short.bound ∧ ∀ s ∈ queries, s.Fits

private theorem longString_fits (s : List UInt8) (n : Nat)
    (hn : (Ty.longString.encode s).length ≤ n) (hb : n < 2 ^ 31) : Ty.longString.Fits s := by
  change (LenType.int.encode s.length ++ s).length ≤ n at hn
  rw [List.length_append] at hn
  exact Nat.le_sub_one_of_lt (by omega)

private theorem params_fit (params : List (List UInt8)) (n : Nat) (hc : params.length ≤ 65535)
    (hn : (params.flatMap Ty.bytes.encode).length ≤ n) (hb : n < 2 ^ 31) : ParamsFit params := by
  refine ⟨hc, fun p hp ↦ ?_⟩
  have h₁ := mem_length_le_flatMap Ty.bytes.encode params p hp
  exact longString_fits p n (Nat.le_trans h₁ hn) hb

private theorem encodeParameters_ge (level : Consistency) (params : List (List UInt8)) :
    (params.flatMap Ty.bytes.encode).length ≤ (encodeParameters level params).length := by
  cases params with
  | nil => exact Nat.zero_le _
  | cons p ps =>
    simp only [encodeParameters, List.isEmpty_cons, Bool.false_eq_true, ite_false,
      List.length_append]
    omega

private theorem statement_fits (s : BatchStatement) (n : Nat) (h : s.Sendable)
    (hn : s.encode.length ≤ n) (hb : n < 2 ^ 31) : s.Fits := by
  rw [BatchStatement.encode, List.length_append, List.length_append] at hn
  refine ⟨params_fit s.params n h.1 (by omega) hb, ?_⟩
  cases hq : s.query with
  | string text =>
    rw [hq, StatementQuery.encode, List.length_append] at hn
    exact longString_fits text n (by omega) hb
  | id i => exact h.2 i hq

private theorem startup_fits (m : StartupMessage)
    (h : ∀ c ∈ m.compressionProtocol, c.length ≤ 65535) : Ty.stringMap.Fits m.options := by
  have hn : m.options.1.length ≤ 2 := by
    rw [m.built.length_eq]
    cases m.compressionProtocol with
    | none => decide
    | some c => exact Nat.le_refl 2
  constructor
  · exact Nat.le_trans hn (by decide)
  · intro e he
    have hm := m.built.mem_iff.mp he
    rcases List.mem_cons.mp hm with rfl | hm
    · exact ⟨by decide, by decide⟩
    · obtain ⟨c, hc, rfl⟩ := Option.mem_map.mp (Option.mem_toList.mp hm)
      exact ⟨(by decide : (utf8 "COMPRESSION").length ≤ 65535), h c hc⟩

/-- A body below 2^31 bytes bounds every text and value inside it. -/
theorem RequestMessage.fits_of_sendable (m : RequestMessage) (h : m.Sendable)
    (hb : m.encodeBody.length < 2 ^ 31) : m.Fits := by
  cases m with
  | options => trivial
  | startup m => exact startup_fits m h
  | query level text params =>
    have hp := encodeParameters_ge level params
    rw [encodeBody, List.length_append] at hb
    exact ⟨longString_fits text _ (Nat.le_add_right _ _) hb,
      params_fit params _ h (by omega) hb⟩
  | prepare text => exact longString_fits text _ (Nat.le_refl _) hb
  | execute level i params =>
    have hp := encodeParameters_ge level params
    rw [encodeBody, List.length_append] at hb
    exact ⟨h.1, params_fit params _ h.2 (by omega) hb⟩
  | batch queries level =>
    refine ⟨h.1, fun s hs ↦ ?_⟩
    have hm := mem_length_le_flatMap BatchStatement.encode queries s hs
    simp only [encodeBody, List.length_append] at hb
    exact statement_fits s _ (h.2 s hs) (by omega) hb

/-- A [byte] is one byte. -/
theorem writeByte_appends (x : UInt8) : Appends (writeByte x) (toBE 1 x.toNat) :=
  writeIntBE_appends .byte x

private theorem writeShort_appends (n : Nat) (h : n ≤ LenType.short.bound) :
    Appends (writeShort (UInt16.ofNat n)) (LenType.short.encode n) :=
  LenType.short.write_appends n h

private theorem params_append (params : List (List UInt8)) (h : ParamsFit params) :
    Appends (params.forM Ty.bytes.write) (params.flatMap Ty.bytes.encode) :=
  Appends.forM params (fun p hp ↦ Ty.bytes.write_appends p (h.2 p hp))

/-- Query parameters that fit are written as their layout. -/
theorem writeParameters_appends (level : Consistency) (params : List (List UInt8))
    (h : ParamsFit params) :
    Appends (writeParameters level params) (encodeParameters level params) := by
  unfold writeParameters encodeParameters
  apply (writeIntBE_appends .short level.code).seq
  cases params.isEmpty with
  | true =>
    have h := (writeByte_appends 0x02).seq Appends.pure
    rwa [List.append_nil] at h
  | false =>
    exact (writeByte_appends 0x03).seq ((writeShort_appends _ h.1).seq (params_append params h))

private theorem writeStatement_appends (s : BatchStatement) (h : s.Fits) :
    Appends (writeStatement s) s.encode := by
  have htail : Appends (do
      writeShort (UInt16.ofNat s.params.length)
      if s.params.isEmpty then return ()
      s.params.forM Ty.bytes.write)
      (LenType.short.encode s.params.length ++ s.params.flatMap Ty.bytes.encode) := by
    apply (writeShort_appends _ h.1.1).seq
    cases he : s.params with
    | nil => exact Appends.pure
    | cons p ps => exact params_append (p :: ps) (he ▸ h.1)
  have hq := h.2
  unfold writeStatement BatchStatement.encode BatchStatement.kind
  cases hs : s.query with
  | string text =>
    rw [hs] at hq
    rw [StatementQuery.encode, List.append_assoc]
    exact (writeByte_appends 0).seq ((Ty.longString.write_appends text hq).seq htail)
  | id i =>
    rw [hs] at hq
    rw [StatementQuery.encode, List.append_assoc]
    exact (writeByte_appends 1).seq ((Ty.shortBytes.write_appends i hq).seq htail)

/-- Every body that fits is laid out as the protocol says. -/
theorem RequestMessage.serializeBody_appends (m : RequestMessage) (h : m.Fits) :
    Appends m.serializeBody m.encodeBody := by
  cases m with
  | options => exact Appends.pure
  | startup m => exact Ty.stringMap.write_appends m.options h
  | query level text params =>
    exact (Ty.longString.write_appends text h.1).seq (writeParameters_appends level params h.2)
  | prepare text => exact Ty.longString.write_appends text h
  | execute level i params =>
    exact (Ty.shortBytes.write_appends i h.1).seq (writeParameters_appends level params h.2)
  | batch queries level =>
    exact (writeByte_appends 0).seq ((writeShort_appends _ h.1).seq
      ((Appends.forM queries (fun s hs ↦ writeStatement_appends s (h.2 s hs))).seq
        ((writeIntBE_appends .short level.code).seq (writeByte_appends 0))))

/-- The query parameters that a server must see: the level, the values in order, metadata
skipped and no other section. -/
def toQueryParameters (level : Consistency) (params : List (List UInt8)) : V4.QueryParameters :=
  ⟨level, params.map (fun p ↦ (none, .bytes p)), true, none, none, none, none⟩

/-- The statement that a server must see: its own kind, text or id and values. -/
def BatchStatement.toStatement (s : BatchStatement) : V4.Statement :=
  ⟨s.query, s.params.map .bytes⟩

/-- The request that a server must see. -/
def RequestMessage.toRequest : RequestMessage → V4.Request
  | options => .options
  | startup m => .startup m.options.1
  | query level text params => .query text (toQueryParameters level params)
  | prepare text => .prepare text
  | execute level i params => .execute i (toQueryParameters level params)
  | batch queries level => .batch 0 (queries.map BatchStatement.toStatement) level none none

namespace V4

private theorem optional_absent {α : Type} (d : Decoder α) : Consumes (optional false d) [] none :=
  fun _ ↦ rfl

private theorem optional_present {α : Type} {d : Decoder α} {bs : List UInt8} {a : α}
    (h : Consumes d bs a) : Consumes (optional true d) bs (some a) := h.map some

/-- Positional values, with no names in front. -/
theorem values_consume (params : List (List UInt8)) (h : ParamsFit params) :
    Consumes (do
        let n ← short
        many n (namedValue false))
      (LenType.short.encode params.length ++ params.flatMap Ty.bytes.encode)
      (params.map (fun p ↦ (none, .bytes p))) :=
  (short_consumes _ h.1).bind (Consumes.many params (fun p hp ↦
    (optional_absent string).bind ((value_consumes p (h.2 p hp)).map (fun v ↦ (none, v)))))

private theorem queryParameters_consumes (level : Consistency) (params : List (List UInt8))
    (h : ParamsFit params) :
    Consumes queryParameters (encodeParameters level params) (toQueryParameters level params) := by
  apply (consistency_consumes level).bind
  cases params with
  | nil =>
    apply (byte_consumes 0x02).bind_nil
    exact (optional_absent _).bind ((optional_absent int).bind ((optional_absent bytes).bind
      ((optional_absent consistency).bind ((optional_absent long).map _))))
  | cons p ps =>
    apply (byte_consumes 0x03).bind
    apply (optional_present (values_consume (p :: ps) h)).bind_nil
    exact (optional_absent int).bind ((optional_absent bytes).bind
      ((optional_absent consistency).bind ((optional_absent long).map _)))

private theorem statement_consumes (s : BatchStatement) (h : s.Fits) :
    Consumes statement s.encode s.toStatement := by
  have htail : Consumes (do
      let n ← short
      let values ← many n value
      return Statement.mk s.query values)
      (LenType.short.encode s.params.length ++ s.params.flatMap Ty.bytes.encode)
      s.toStatement :=
    (short_consumes _ h.1.1).bind
      ((Consumes.many s.params (fun p hp ↦ value_consumes p (h.1.2 p hp))).map _)
  have hq := h.2
  unfold BatchStatement.encode
  cases hs : s.query with
  | string text =>
    rw [hs] at hq htail
    rw [StatementQuery.encode, List.append_assoc]
    exact (byte_consumes 0).bind (((longString_consumes text hq).map _).bind htail)
  | id i =>
    rw [hs] at hq htail
    rw [StatementQuery.encode, List.append_assoc]
    exact (byte_consumes 1).bind (((shortBytes_consumes i hq).map _).bind htail)

/-- The decoder for a request's opcode recovers the request from its layout. -/
theorem request_consumes (m : RequestMessage) (h : m.Fits) :
    Consumes (request m.opcode.code.toNat) m.encodeBody m.toRequest := by
  cases m with
  | options => exact Consumes.pure Request.options
  | startup m => exact (stringMap_consumes m.options h).map Request.startup
  | query level text params =>
    exact (longString_consumes text h.1).bind
      ((queryParameters_consumes level params h.2).map (Request.query text))
  | prepare text => exact (longString_consumes text h).map Request.prepare
  | execute level i params =>
    exact (shortBytes_consumes i h.1).bind
      ((queryParameters_consumes level params h.2).map (Request.execute i))
  | batch queries level =>
    exact (byte_consumes 0).bind ((short_consumes _ h.1).bind
      ((Consumes.many queries (fun s hs ↦ statement_consumes s (h.2 s hs))).bind
        ((consistency_consumes level).bind ((byte_consumes 0).bind_nil
          ((optional_absent consistency).bind ((optional_absent long).map _))))))

/-- The decoder recovers the header fields from their layout. -/
theorem frameHeader_consumes (h : FrameHeader) (n : Nat) (hn : n ≤ LenType.int.bound)
    (hl : h.length = Int32.ofNat n) :
    Consumes frameHeader h.encode
      ⟨h.version.toNat, h.flags.toNat, h.stream.toInt, h.opcode.toNat, n⟩ := by
  have hi : Consumes int (toBE 4 (IntegralType.int.toBits h.length)) (n : Int) := by
    rw [hl]
    exact (LenType.int.toBits_cast n hn).symm ▸ int_consumes n hn
  have hc : Consumes frameHeader (toBE 1 h.version.toNat ++ (toBE 1 h.flags.toNat ++
      (toBE 2 (IntegralType.smallInt.toBits h.stream) ++ (toBE 1 h.opcode.toNat ++
        toBE 4 (IntegralType.int.toBits h.length)))))
      ⟨h.version.toNat, h.flags.toNat, h.stream.toInt, h.opcode.toNat, n⟩ :=
    .bind (byte_consumes h.version) (.bind (byte_consumes h.flags)
      (.bind (stream_consumes h.stream) (.bind (byte_consumes h.opcode)
        (hi.map (fun length ↦ Header.mk h.version.toNat h.flags.toNat h.stream.toInt
          h.opcode.toNat length)))))
  simpa only [FrameHeader.encode, FrameHeader.encodeFront, List.append_assoc] using hc

end V4

namespace RequestMessage

/-- The length patch writes the number of bytes behind the header. -/
theorem patchLength_run (h : FrameHeader) (hz : h.length = 0) (body : List UInt8)
    (hb : body.length < 2 ^ 31) :
    patchLength.run (h.encode ++ body) =
      .ok ((), { h with length := Int32.ofNat body.length }.encode ++ body) := by
  have hs : (h.encode ++ body).length - FrameHeader.kHeaderSize = body.length := by
    rw [List.length_append, FrameHeader.length_encode]
    omega
  have hi : (Int32.ofNat body.length).toInt = body.length :=
    LenType.int.toInt_cast body.length (Nat.le_sub_one_of_lt hb)
  change (if 0 < (Int32.ofNat ((h.encode ++ body).length - FrameHeader.kHeaderSize)).toInt then
    (FrameHeader.updateLength (Int32.ofNat ((h.encode ++ body).length -
      FrameHeader.kHeaderSize))).run (h.encode ++ body) else .ok ((), h.encode ++ body)) = _
  rw [hs, hi]
  split
  · exact FrameHeader.updateLength_run h _ body
  · next hn =>
    have he : body = [] := List.length_eq_zero_iff.mp (by omega)
    have hh : { h with length := Int32.ofNat body.length } = h := by
      rw [he]
      cases h
      cases hz
      rfl
    rw [hh]

/-- Serializing into an empty buffer, once header and body are there. -/
theorem serialize_run_of_parts (m : RequestMessage) (stream : Int16)
    (compressor : Option Compressor) (header : FrameHeader) (body : List UInt8)
    (hparts : (m.serializeParts stream compressor).run [] = .ok ((), header.encode ++ body))
    (hlength : header.length = 0) (hbody : body.length < 2 ^ 31) :
    (m.serialize stream compressor).run [] =
      .ok ((), { header with length := Int32.ofNat body.length }.encode ++ body) := by
  have hr : (m.serialize stream compressor).run [] =
      ((m.serializeParts stream compressor).run [] >>= fun p ↦ patchLength.run p.2) := rfl
  rw [hr, hparts]
  exact patchLength_run header hlength body hbody

/-- Serializing a request without a compressor into an empty buffer. -/
theorem serialize_run (m : RequestMessage) (stream : Int16) (h : m.Fits)
    (hb : m.encodeBody.length < 2 ^ 31) :
    (m.serialize stream none).run [] =
      .ok ((), { m.header stream with length := Int32.ofNat m.encodeBody.length }.encode ++
        m.encodeBody) := by
  have hparts := ((m.header stream).serialize_appends.seq (m.serializeBody_appends h)) []
  exact serialize_run_of_parts m stream none (m.header stream) m.encodeBody hparts rfl hb

/-- A request frame is faithful: nine header bytes with the version, no flags, the stream
id, the opcode and the number of bytes that follow, then a body from which the protocol's
decoder for that opcode recovers the same request with nothing left over. -/
theorem serialize_faithful (m : RequestMessage) (stream : Int16) (h : m.Sendable)
    (hb : m.encodeBody.length < 2 ^ 31) :
    ∃ header body, (m.serialize stream none).run [] = .ok ((), header ++ body) ∧
      header.length = 9 ∧
      V4.frameHeader.run header =
        some (⟨0x04, 0, stream.toInt, m.opcode.code.toNat, body.length⟩, []) ∧
      (V4.request m.opcode.code.toNat).run body = some (m.toRequest, []) := by
  have hf := m.fits_of_sendable h hb
  refine ⟨_, m.encodeBody, m.serialize_run stream hf hb, FrameHeader.length_encode _, ?_, ?_⟩
  · have hc := V4.frameHeader_consumes
      { m.header stream with length := Int32.ofNat m.encodeBody.length }
      m.encodeBody.length (Nat.le_sub_one_of_lt hb) rfl []
    rwa [List.append_nil] at hc
  · have hc := V4.request_consumes m hf []
    rwa [List.append_nil] at hc

/-- A batch of a text statement and a prepared one, with parameters of different shape. -/
def sampleBatch : RequestMessage :=
  .batch [⟨.string (utf8 "DELETE"), []⟩, ⟨.id [1, 2], [[7], []]⟩] .localOne

/-- A BATCH is written with its header and decoded. -/
theorem serialize_faithful_sampleBatch :
    ∃ header body, (sampleBatch.serialize 3 none).run [] = .ok ((), header ++ body) ∧
      header.length = 9 ∧
      V4.frameHeader.run header = some (⟨0x04, 0, 3, 0x0D, body.length⟩, []) ∧
      (V4.request 0x0D).run body = some (sampleBatch.toRequest, []) :=
  serialize_faithful sampleBatch 3 (by
    refine ⟨by decide, fun s hs ↦ ?_⟩
    rcases List.mem_cons.mp hs with rfl | hs
    · exact ⟨by decide, by simp⟩
    · rw [List.mem_singleton] at hs
      subst hs
      exact ⟨by decide, by simp⟩) (by decide)

end RequestMessage
end CassandraDriver.Protocol
