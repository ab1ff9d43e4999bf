import CassandraDriver.Protocol.CompressedRequest

/-!
# Length and count fields

Library `Protocol`. When the writers are honest about how much they write: a field holds the
true number of bytes or entries, and exactly so many follow. The formatters narrow every size
with a `static_cast`, so that one too large for its field is written wrapped; only a long
string whose wrapped size is negative makes them fail.
-/

namespace CassandraDriver.Protocol
open CassandraDriver.Lib CassandraDriver.Io

/-- A field of the prefix type that holds the number `n`. -/
def Announces (l : LenType) (n : Nat) (field : List UInt8) : Prop :=
  field.length = l.integral.width ∧ l.toInt (l.integral.ofBits (ofBE field)) = n

/-- The number of items, and then exactly these items. -/
def ItemsExact {α : Type} (l : LenType) (item : α → List UInt8 → Prop) (xs : List α)
    (out : List UInt8) : Prop :=
  ∃ field items, Announces l xs.length field ∧ List.Forall₂ item xs items ∧
    out = field ++ items.flatten

/-- The number of bytes, and then exactly these bytes. -/
def BytesExact (l : LenType) (s out : List UInt8) : Prop :=
  ∃ field, Announces l s.length field ∧ out = field ++ s

/-- The bytes hold an object, every field of it with its true number. -/
def ValueExact : (t : Ty) → t.Val → List UInt8 → Prop
  | .integral i, x, out => out = toBE i.width (i.toBits x)
  | .float, (x : UInt32), out => out = toBE 4 x.toNat
  | .double, (x : UInt64), out => out = toBE 8 x.toNat
  | .string, (s : List UInt8), out => BytesExact .short s out
  | .longString, (s : List UInt8), out => BytesExact .int s out
  | .stdString, (s : List UInt8), out => BytesExact .short s out
  | .bytes, (s : List UInt8), out => BytesExact .int s out
  | .shortBytes, (s : List UInt8), out => BytesExact .short s out
  | .list l t, (xs : List t.Val), out => ItemsExact l (ValueExact t) xs out
  | .map l k w, (m : Carrier.MapObject k.carrier w.carrier), out =>
    ItemsExact l (fun e item ↦ ∃ key mapped, ValueExact k e.1 key ∧ ValueExact w e.2 mapped ∧
      item = key ++ mapped) m.1 out

/-- The parameters of QUERY and EXECUTE behind their consistency level. -/
def ParametersExact (level : Consistency) (params : List (List UInt8)) (out : List UInt8) : Prop :=
  if params.isEmpty then out = toBE 2 level.code.toNat ++ toBE 1 0x02
  else ∃ values, ItemsExact .short (ValueExact .bytes) params values ∧
    out = toBE 2 level.code.toNat ++ (toBE 1 0x03 ++ values)

/-- The kind of a statement, and its text or id. -/
def QueryExact : StatementQuery → List UInt8 → Prop
  | .string text, out => ∃ q, ValueExact .longString text q ∧ out = toBE 1 0 ++ q
  | .id i, out => ∃ q, ValueExact .shortBytes i q ∧ out = toBE 1 1 ++ q

/-- A statement of a batch, and its parameters. -/
def StatementExact (s : BatchStatement) (out : List UInt8) : Prop :=
  ∃ q values, QueryExact s.query q ∧ ItemsExact .short (ValueExact .bytes) s.params values ∧
    out = q ++ values

/-- The statements of a batch between its type and its consistency level. -/
def BatchExact (queries : List BatchStatement) (level : Consistency) (out : List UInt8) : Prop :=
  ∃ statements, ItemsExact .short StatementExact queries statements ∧
    out = toBE 1 0 ++ (statements ++ (toBE 2 level.code.toNat ++ toBE 1 0))

/-- Wherever the writer runs, it fails or it adds what is exact. -/
def Honest (m : BufferWriter Unit) (exact : List UInt8 → Prop) : Prop :=
  ∀ buffer, (∃ e, m.run buffer = .error e) ∨
    ∃ out, exact out ∧ m.run buffer = .ok ((), buffer ++ out)

private theorem announces_iff (l : LenType) (n : Nat) (field : List UInt8) :
    Announces l n field ↔ n ≤ l.bound ∧ field = l.encode n := by
  constructor
  · rintro ⟨hwidth, hnumber⟩
    have hlt := ofBE_lt field
    have hbytes := toBE_ofBE field
    rw [hwidth] at hlt hbytes
    have hfits : ofBE field = n ∧ n ≤ l.bound := by
      cases l with
      | short =>
        have hnat : (UInt16.ofNat (ofBE field)).toNat = n := Int.ofNat.inj hnumber
        rw [UInt16.toNat_ofNat_of_lt' hlt] at hnat
        exact ⟨hnat, hnat ▸ Nat.le_of_lt_succ hlt⟩
      | int =>
        have hint : (BitVec.ofNat 32 (ofBE field)).toInt = n := hnumber
        have hlt' : ofBE field < 2 ^ 32 := hlt
        rw [BitVec.toInt_eq_toNat_cond, BitVec.toNat_ofNat, Nat.mod_eq_of_lt hlt'] at hint
        rw [LenType.bound]
        split at hint
        · omega
        · omega
    refine ⟨hfits.2, ?_⟩
    rw [LenType.encode, ← hfits.1, hbytes]
  · rintro ⟨hle, rfl⟩
    refine ⟨length_toBE _ _, ?_⟩
    have hlt : n < 256 ^ l.integral.width := by
      cases l with
      | short => exact Nat.lt_succ_of_le hle
      | int => exact Nat.lt_of_le_of_lt hle (by decide)
    have hcast := l.toInt_cast n hle
    rw [LenType.encode, ofBE_toBE _ _ hlt]
    cases l with
    | short => exact hcast
    | int => exact hcast

private theorem bytesExact_iff (l : LenType) (s out : List UInt8) :
    BytesExact l s out ↔ s.length ≤ l.bound ∧ out = l.encode s.length ++ s := by
  simp only [BytesExact, announces_iff]
  constructor
  · rintro ⟨field, ⟨hle, rfl⟩, rfl⟩
    exact ⟨hle, rfl⟩
  · rintro ⟨hle, rfl⟩
    exact ⟨_, ⟨hle, rfl⟩, rfl⟩

/-- Items are exact when their number fits and each of them is. -/
theorem itemsExact_iff {α : Type} {l : LenType} {item : α → List UInt8 → Prop} {fits : α → Prop}
    {enc : α → List UInt8} {xs : List α} {out : List UInt8}
    (h : ∀ x ∈ xs, ∀ bs, item x bs ↔ fits x ∧ bs = enc x) :
    ItemsExact l item xs out ↔
      (xs.length ≤ l.bound ∧ ∀ x ∈ xs, fits x) ∧ out = l.encode xs.length ++ xs.flatMap enc := by
  have hitems : ∀ items, List.Forall₂ item xs items ↔
      (∀ x ∈ xs, fits x) ∧ items = xs.map enc := by
    clear out
    induction xs with
    | nil => simp
    | cons x xs ih =>
      intro items
      have htail := ih (fun y hy ↦ h y (List.mem_cons_of_mem _ hy))
      rw [List.forall₂_cons_left_iff]
      simp only [htail, h x List.mem_cons_self, List.forall_mem_cons, List.map_cons]
      constructor
      · rintro ⟨b, rest, ⟨hx, rfl⟩, ⟨hxs, rfl⟩, rfl⟩
        exact ⟨⟨hx, hxs⟩, rfl⟩
      · rintro ⟨⟨hx, hxs⟩, rfl⟩
        exact ⟨_, _, ⟨hx, rfl⟩, ⟨hxs, rfl⟩, rfl⟩
  simp only [ItemsExact, announces_iff, hitems]
  constructor
  · rintro ⟨field, items, ⟨hle, rfl⟩, ⟨hfits, rfl⟩, rfl⟩
    exact ⟨⟨hle, hfits⟩, rfl⟩
  · rintro ⟨⟨hle, hfits⟩, rfl⟩
    exact ⟨_, _, ⟨hle, rfl⟩, ⟨hfits, rfl⟩, rfl⟩

/-- An object is exact in its layout, when it fits, and nowhere else. -/
theorem valueExact_iff (t : Ty) (v : t.Val) (out : List UInt8) :
    ValueExact t v out ↔ t.Fits v ∧ out = t.encode v := by
  induction t generalizing out with
  | integral i => exact ⟨fun h ↦ ⟨trivial, h⟩, fun h ↦ h.2⟩
  | float => exact ⟨fun h ↦ ⟨trivial, h⟩, fun h ↦ h.2⟩
  | double => exact ⟨fun h ↦ ⟨trivial, h⟩, fun h ↦ h.2⟩
  | string => exact bytesExact_iff .short v out
  | longString => exact bytesExact_iff .int v out
  | stdString => exact bytesExact_iff .short v out
  | bytes => exact bytesExact_iff .int v out
  | shortBytes => exact bytesExact_iff .short v out
  | list l t ih => exact itemsExact_iff (fun x _ ↦ ih x)
  | map l k w ihk ihw =>
    refine itemsExact_iff (fun e _ bs ↦ ?_)
    simp only [ihk, ihw]
    constructor
    · rintro ⟨key, mapped, ⟨hk, rfl⟩, ⟨hw, rfl⟩, rfl⟩
      exact ⟨⟨hk, hw⟩, rfl⟩
    · rintro ⟨⟨hk, hw⟩, rfl⟩
      exact ⟨_, _, ⟨hk, rfl⟩, ⟨hw, rfl⟩, rfl⟩

private theorem taggedExact_iff (tag : List UInt8) (t : Ty) (v : t.Val) (out : List UInt8) :
    (∃ q, ValueExact t v q ∧ out = tag ++ q) ↔ t.Fits v ∧ out = tag ++ t.encode v := by
  simp only [valueExact_iff]
  constructor
  · rintro ⟨q, ⟨hfits, rfl⟩, rfl⟩
    exact ⟨hfits, rfl⟩
  · rintro ⟨hfits, rfl⟩
    exact ⟨_, ⟨hfits, rfl⟩, rfl⟩

private theorem paramsExact_iff (params : List (List UInt8)) (out : List UInt8) :
    ItemsExact .short (ValueExact .bytes) params out ↔ ParamsFit params ∧
      out = LenType.short.encode params.length ++ params.flatMap Ty.bytes.encode :=
  itemsExact_iff (fun p _ ↦ valueExact_iff .bytes p)

private theorem parametersExact_iff (level : Consistency) (params : List (List UInt8))
    (out : List UInt8) :
    ParametersExact level params out ↔ ParamsFit params ∧ out = encodeParameters level params := by
  cases params with
  | nil => exact ⟨fun h ↦ ⟨⟨Nat.zero_le _, by simp⟩, h⟩, fun h ↦ h.2⟩
  | cons p ps =>
    simp only [ParametersExact, encodeParameters, List.isEmpty_cons, Bool.false_eq_true, if_false,
      paramsExact_iff]
    constructor
    · rintro ⟨values, ⟨hfits, rfl⟩, rfl⟩
      exact ⟨hfits, rfl⟩
    · rintro ⟨hfits, rfl⟩
      exact ⟨_, ⟨hfits, rfl⟩, rfl⟩

private theorem statementExact_iff (s : BatchStatement) (out : List UInt8) :
    StatementExact s out ↔ s.Fits ∧ out = s.encode := by
  -- Text and id differ in the tag and the type only.
  have hboth : ∀ (q : List UInt8 → Prop) (fits : Prop) (enc : List UInt8),
      (∀ bs, q bs ↔ fits ∧ bs = enc) →
      ((∃ bs values, q bs ∧ ItemsExact .short (ValueExact .bytes) s.params values ∧
          out = bs ++ values) ↔
        (ParamsFit s.params ∧ fits) ∧ out = enc ++
          (LenType.short.encode s.params.length ++ s.params.flatMap Ty.bytes.encode)) := by
    intro q fits enc hq
    simp only [hq, paramsExact_iff]
    constructor
    · rintro ⟨bs, values, ⟨hfits, rfl⟩, ⟨hparams, rfl⟩, rfl⟩
      exact ⟨⟨hparams, hfits⟩, rfl⟩
    · rintro ⟨⟨hparams, hfits⟩, rfl⟩
      exact ⟨_, _, ⟨hfits, rfl⟩, ⟨hparams, rfl⟩, rfl⟩
  obtain ⟨query, params⟩ := s
  cases query with
  | string text => exact hboth _ _ _ (taggedExact_iff (toBE 1 0) .longString text)
  | id i => exact hboth _ _ _ (taggedExact_iff (toBE 1 1) .shortBytes i)

private theorem batchExact_iff (queries : List BatchStatement) (level : Consistency)
    (out : List UInt8) :
    BatchExact queries level out ↔ (RequestMessage.batch queries level).Fits ∧
      out = (RequestMessage.batch queries level).encodeBody := by
  simp only [BatchExact, itemsExact_iff (fun s _ ↦ statementExact_iff s), RequestMessage.Fits,
    RequestMessage.encodeBody]
  constructor
  · rintro ⟨statements, ⟨hfits, rfl⟩, rfl⟩
    exact ⟨hfits, by simp only [List.append_assoc]⟩
  · rintro ⟨hfits, rfl⟩
    exact ⟨_, ⟨hfits, rfl⟩, by simp only [List.append_assoc]⟩

/-- A length that a 32-bit prefix holds as a negative number. -/
def ReadsNegative (n : Nat) : Prop := 2 ^ 31 ≤ n % 2 ^ 32

instance (n : Nat) : Decidable (ReadsNegative n) := inferInstanceAs (Decidable (_ ≤ _))

/-- An object with a long string whose length reads as negative. -/
def Refused : (t : Ty) → t.Val → Prop
  | .longString, (s : List UInt8) => ReadsNegative s.length
  | .list _ t, (xs : List t.Val) => ∃ x ∈ xs, Refused t x
  | .map _ k w, (m : Carrier.MapObject k.carrier w.carrier) =>
    ∃ e ∈ m.1, Refused k e.1 ∨ Refused w e.2
  | _, _ => False

private theorem toInt_cast_short_nonneg (n : Nat) :
    0 ≤ LenType.short.toInt (LenType.short.cast n) := by
  simp [LenType.toInt]

private theorem toInt_cast_neg_iff (n : Nat) :
    LenType.int.toInt (LenType.int.cast n) < 0 ↔ ReadsNegative n := by
  change (BitVec.ofNat 32 n).toInt < 0 ↔ 2 ^ 31 ≤ n % 2 ^ 32
  rw [BitVec.toInt_eq_toNat_cond, BitVec.toNat_ofNat]
  split
  · omega
  · omega

private theorem appendCopy_fails_iff (size : Int) (source : List UInt8) :
    Fails (appendCopy size source) ↔ size < 0 := by
  constructor
  · intro hf
    by_contra hle
    have happends : Appends (appendCopy size source) (source.take size.toNat) := by
      intro buf
      simp only [StateT.run, appendCopy, if_pos (Int.not_lt.mp hle)]
    exact Fails.not_of_appends happends hf
  · intro hneg buf
    simp only [StateT.run, appendCopy, if_neg (Int.not_le.mpr hneg)]
    split
    · exact ⟨_, rfl⟩
    · exact ⟨_, rfl⟩

private theorem stringBinaryFormatter_fails_iff (l : LenType) (s : List UInt8) :
    Fails (stringBinaryFormatter l s) ↔ l.toInt (l.cast s.length) < 0 :=
  (Fails.seq_appends_iff (writeIntBE_appends l.integral (l.cast s.length))
    (appendCopy_uniform _ s)).trans (appendCopy_fails_iff _ s)

private theorem shortString_not_fails (s : List UInt8) :
    ¬ Fails (stringBinaryFormatter .short s) := by
  rw [stringBinaryFormatter_fails_iff]
  exact Int.not_lt.mpr (toInt_cast_short_nonneg _)

private theorem bytesBinaryFormatter_not_fails (l : LenType) (s : List UInt8) :
    ¬ Fails (bytesBinaryFormatter l s) := by
  unfold bytesBinaryFormatter
  by_cases hle : l.toInt (l.cast s.length) ≤ 0
  · rw [if_pos hle]
    exact Fails.not_of_appends ((writeIntBE_appends l.integral (l.cast s.length)).seq .pure)
  · rw [if_neg hle, LenType.write, Fails.seq_appends_iff
      (writeIntBE_appends l.integral (l.cast s.length)) (appendCopy_uniform _ s),
      appendCopy_fails_iff]
    omega

/-- Writing an object fails exactly when it is refused. -/
theorem write_fails_iff (t : Ty) (v : t.Val) : Fails (t.write v) ↔ Refused t v := by
  induction t with
  | integral i => exact iff_of_false (Fails.not_of_appends (writeIntBE_appends i v)) id
  | float =>
    exact iff_of_false (Fails.not_of_appends (writeIntBE_appends .int (UInt32.toInt32 v))) id
  | double =>
    exact iff_of_false (Fails.not_of_appends (writeIntBE_appends .bigInt (UInt64.toInt64 v))) id
  | string => exact iff_of_false (shortString_not_fails v) id
  | longString => exact (stringBinaryFormatter_fails_iff .int v).trans (toInt_cast_neg_iff _)
  | stdString => exact iff_of_false (shortString_not_fails v) id
  | bytes => exact iff_of_false (bytesBinaryFormatter_not_fails .int v) id
  | shortBytes => exact iff_of_false (bytesBinaryFormatter_not_fails .short v) id
  | list l t ih =>
    refine (Fails.seq_appends_iff (writeIntBE_appends l.integral _)
      (.forM v t.write_uniform)).trans ((Fails.forM_iff v t.write_uniform).trans ?_)
    exact exists_congr (fun x ↦ and_congr_right (fun _ ↦ ih x))
  | map l k w ihk ihw =>
    have huniform : ∀ e : k.Val × w.Val, Uniform (do
        k.write e.1
        w.write e.2) := fun e ↦ (k.write_uniform e.1).seq (w.write_uniform e.2)
    refine (Fails.seq_appends_iff (writeIntBE_appends l.integral _)
      (.forM v.1 huniform)).trans ((Fails.forM_iff v.1 huniform).trans ?_)
    refine exists_congr (fun e ↦ and_congr_right (fun _ ↦ ?_))
    rw [Fails.seq_iff (k.write_uniform e.1) (w.write_uniform e.2), ihk, ihw]

private theorem values_not_fail (params : List (List UInt8)) :
    ¬ Fails (params.forM Ty.bytes.write) := by
  rw [Fails.forM_iff params Ty.bytes.write_uniform]
  rintro ⟨p, -, hp⟩
  exact bytesBinaryFormatter_not_fails .int p hp

private theorem writeParameters_not_fails (level : Consistency) (params : List (List UInt8)) :
    ¬ Fails (writeParameters level params) := by
  have hvalues : Uniform (do
      writeShort (UInt16.ofNat params.length)
      params.forM Ty.bytes.write) :=
    (Ty.write_uniform (.integral .short) _).seq (.forM params Ty.bytes.write_uniform)
  cases params with
  | nil =>
    exact Fails.not_of_appends ((writeIntBE_appends .short level.code).seq
      ((writeByte_appends 0x02).seq .pure))
  | cons p ps =>
    intro hf
    have hflags := (Fails.seq_appends_iff (writeIntBE_appends .short level.code)
      ((Uniform.of_appends (writeByte_appends 0x03)).seq hvalues)).mp hf
    have hcount := (Fails.seq_appends_iff (writeByte_appends 0x03) hvalues).mp hflags
    exact values_not_fail (p :: ps) ((Fails.seq_appends_iff (writeIntBE_appends .short _)
      (.forM _ Ty.bytes.write_uniform)).mp hcount)

/-- What a statement writes behind its text or id. -/
private def writeValues (params : List (List UInt8)) : BufferWriter Unit := do
  writeShort (UInt16.ofNat params.length)
  if params.isEmpty then return ()
  params.forM Ty.bytes.write

private theorem writeValues_uniform (params : List (List UInt8)) :
    Uniform (writeValues params) := by
  apply (Ty.write_uniform (.integral .short) _).seq
  cases params.isEmpty with
  | true => exact .pure
  | false => exact .forM params Ty.bytes.write_uniform

private theorem writeValues_not_fails (params : List (List UInt8)) :
    ¬ Fails (writeValues params) := by
  cases params with
  | nil => exact Fails.not_of_appends ((writeIntBE_appends .short _).seq .pure)
  | cons p ps =>
    intro hf
    exact values_not_fail (p :: ps) ((Fails.seq_appends_iff (writeIntBE_appends .short _)
      (.forM _ Ty.bytes.write_uniform)).mp hf)

private theorem writeStatement_fails_iff (s : BatchStatement) :
    Fails (writeStatement s) ↔ ∃ text, s.query = .string text ∧ ReadsNegative text.length := by
  obtain ⟨query, params⟩ := s
  have hparams := writeValues_uniform params
  cases query with
  | string text =>
    have hseq : Fails (writeStatement ⟨.string text, params⟩) ↔
        Fails (Ty.longString.write text) ∨ Fails (writeValues params) :=
      (Fails.seq_appends_iff (writeByte_appends 0)
        ((Ty.longString.write_uniform text).seq hparams)).trans
          (Fails.seq_iff (Ty.longString.write_uniform text) hparams)
    rw [hseq, or_iff_left (writeValues_not_fails params)]
    refine (write_fails_iff .longString text).trans ?_
    constructor
    · exact fun h ↦ ⟨text, rfl, h⟩
    · rintro ⟨text', he, h⟩
      cases he
      exact h
  | id i =>
    have hseq : Fails (writeStatement ⟨.id i, params⟩) ↔
        Fails (Ty.shortBytes.write i) ∨ Fails (writeValues params) :=
      (Fails.seq_appends_iff (writeByte_appends 1)
        ((Ty.shortBytes.write_uniform i).seq hparams)).trans
          (Fails.seq_iff (Ty.shortBytes.write_uniform i) hparams)
    rw [hseq, or_iff_left (writeValues_not_fails params)]
    refine (write_fails_iff .shortBytes i).trans ?_
    constructor
    · exact False.elim
    · rintro ⟨text, he, -⟩
      cases he

private theorem batch_fails_iff (queries : List BatchStatement) (level : Consistency) :
    Fails (RequestMessage.batch queries level).serializeBody ↔
      ∃ s ∈ queries, ∃ text, s.query = .string text ∧ ReadsNegative text.length := by
  have hlevel : Appends (do
      writeShort level.code
      writeByte 0) (toBE 2 level.code.toNat ++ toBE 1 0) :=
    (writeIntBE_appends .short level.code).seq (writeByte_appends 0)
  have hstatements := Uniform.forM queries writeStatement_uniform
  have hrest := hstatements.seq (.of_appends hlevel)
  refine (Fails.seq_appends_iff (writeByte_appends 0)
    ((Ty.write_uniform (.integral .short) _).seq hrest)).trans ?_
  refine (Fails.seq_appends_iff (writeIntBE_appends .short _) hrest).trans ?_
  rw [Fails.seq_iff hstatements (.of_appends hlevel),
    or_iff_left (Fails.not_of_appends hlevel), Fails.forM_iff queries writeStatement_uniform]
  exact exists_congr (fun s ↦ and_congr_right (fun _ ↦ writeStatement_fails_iff s))

/-- What is given to a writer with length and count fields. -/
inductive Counted
  | value (t : Ty) (v : t.Val)
  | parameters (level : Consistency) (params : List (List UInt8))
  | batch (queries : List BatchStatement) (level : Consistency)

namespace Counted

/-- The writer. -/
def write : Counted → BufferWriter Unit
  | value t v => t.write v
  | parameters level params => writeParameters level params
  | batch queries level => (RequestMessage.batch queries level).serializeBody

/-- Output in which every field tells the truth. -/
def Exact : Counted → List UInt8 → Prop
  | value t v => ValueExact t v
  | parameters level params => ParametersExact level params
  | batch queries level => BatchExact queries level

/-- Every length and every count is one that its field represents. -/
def Fits : Counted → Prop
  | value t v => t.Fits v
  | parameters _ params => ParamsFit params
  | batch queries level => (RequestMessage.batch queries level).Fits

/-- A long string in it has a length that reads as negative. -/
def Refused : Counted → Prop
  | value t v => Protocol.Refused t v
  | parameters .. => False
  | batch queries _ => ∃ s ∈ queries, ∃ text, s.query = .string text ∧ ReadsNegative text.length

end Counted

private theorem honest_iff {m : BufferWriter Unit} {exact : List UInt8 → Prop} {fits : Prop}
    {enc : List UInt8} (hm : Uniform m) (hexact : ∀ out, exact out ↔ fits ∧ out = enc)
    (happends : fits → Appends m enc) : Honest m exact ↔ fits ∨ Fails m := by
  constructor
  · intro h
    rcases hm with ⟨bs, hm⟩ | hm
    · rcases h [] with ⟨e, he⟩ | ⟨out, hout, -⟩
      · rw [hm []] at he
        cases he
      · exact .inl ((hexact out).mp hout).1
    · exact .inr hm
  · rintro (hfits | hfails) buffer
    · exact .inr ⟨enc, (hexact enc).mpr ⟨hfits, rfl⟩, happends hfits buffer⟩
    · exact .inl (hfails buffer)

/-- A writer fails or writes true numbers, and then exactly so much, if and only if every
length and count fits its field or a long string is refused. -/
theorem honest_iff_fits (c : Counted) : Honest c.write c.Exact ↔ c.Fits ∨ c.Refused := by
  cases c with
  | value t v =>
    refine (honest_iff (t.write_uniform v) (valueExact_iff t v) (t.write_appends v)).trans ?_
    exact or_congr_right (write_fails_iff t v)
  | parameters level params =>
    refine (honest_iff (writeParameters_uniform level params) (parametersExact_iff level params)
      (writeParameters_appends level params)).trans ?_
    exact or_congr_right (iff_of_false (writeParameters_not_fails level params) id)
  | batch queries level =>
    refine (honest_iff (RequestMessage.serializeBody_uniform _) (batchExact_iff queries level)
      (RequestMessage.serializeBody_appends _)).trans ?_
    exact or_congr_right (batch_fails_iff queries level)

private theorem write_of_length {s : List UInt8} (h : s.length = 65536) :
    (Ty.string.write s).run [] = .ok ((), [0, 0]) := by
  change (stringBinaryFormatter .short s).run [] = _
  rw [stringBinaryFormatter, h]
  rfl

/-- A string of 65536 bytes is written as an empty one. -/
theorem longText_truncated :
    (Ty.string.write (List.replicate 65536 (97 : UInt8))).run [] = .ok ((), [0, 0]) ∧
      ¬ ∀ c : Counted, Honest c.write c.Exact := by
  have hwritten := write_of_length (List.length_replicate (n := 65536) (a := (97 : UInt8)))
  refine ⟨hwritten, fun hall ↦ ?_⟩
  rcases hall (.value .string (List.replicate 65536 (97 : UInt8))) [] with ⟨e, he⟩ | ⟨out, hout, -⟩
  · have herror := hwritten.symm.trans he
    cases herror
  · obtain ⟨hle, -⟩ := (valueExact_iff .string _ out).mp hout
    change (List.replicate 65536 (97 : UInt8)).length ≤ 65535 at hle
    rw [List.length_replicate] at hle
    omega

end CassandraDriver.Protocol
