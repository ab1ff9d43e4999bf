import CassandraDriver.Io.ReadBounds
import CassandraDriver.Io.RoundTrip
import CassandraDriver.Lib.Grammar

/-!
# Grammars of the typed readers

Library `Io`. Which bytes stand for which value of a C++ type, and that its reader accepts
exactly these inside a buffer. Next to the layout of the value itself there are three other
spellings: a negative length of a byte string, a map that repeats a key, and a byte above one
for `true`.
-/

namespace CassandraDriver.Io
open CassandraDriver.Lib CassandraDriver.Lib.Grammar CassandraDriver.Lib.Program

namespace IntegralType

/-- So many bytes, most significant first. -/
def Means (i : IntegralType) : Grammar i.Val :=
  fun bs x ↦ bs.length = i.width ∧ x = i.ofBits (ofBE bs)

private theorem toBits_ofBits {i : IntegralType} (hi : i ≠ .boolean) {n : Nat}
    (h : n < 256 ^ i.width) : i.toBits (i.ofBits n) = n := by
  cases i with
  | boolean => exact absurd rfl hi
  | byte => exact UInt8.toNat_ofNat_of_lt' h
  | tinyInt => exact Nat.mod_eq_of_lt h
  | smallInt => exact Nat.mod_eq_of_lt h
  | short => exact UInt16.toNat_ofNat_of_lt' h
  | int => exact Nat.mod_eq_of_lt h
  | bigInt => exact Nat.mod_eq_of_lt h

/-- Every value but a `bool` has one spelling. -/
theorem means_iff {i : IntegralType} (hi : i ≠ .boolean) {bs : List UInt8} {x : i.Val} :
    i.Means bs x ↔ bs = toBE i.width (i.toBits x) := by
  constructor
  · rintro ⟨hlength, rfl⟩
    rw [toBits_ofBits hi (hlength ▸ ofBE_lt bs), ← hlength, toBE_ofBE]
  · rintro rfl
    refine ⟨length_toBE _ _, ?_⟩
    rw [ofBE_toBE _ _ (i.toBits_lt x), i.ofBits_toBits]

end IntegralType

/-- An integer is read from the bytes that mean it. -/
theorem readIntBE_recognizes {size : Nat} (i : IntegralType) :
    Recognizes size (readIntBE i) i.Means := by
  have hcopy : Recognizes size (Program.copy i.width (Program.done (ε := Exception)) >>= fun bs ↦
      Pure.pure (i.ofBits (ofBE bs))) i.Means := by
    refine ((Recognizes.copy i.width).map _).congr fun bs x _ ↦ ?_
    constructor
    · rintro ⟨_, ⟨hlength, rfl⟩, rfl⟩
      exact ⟨hlength, rfl⟩
    · rintro ⟨hlength, rfl⟩
      exact ⟨bs, ⟨hlength, rfl⟩, rfl⟩
  exact hcopy.guard fun bs x h ↦ Nat.le_of_eq h.1.symm

namespace LenType

/-- A prefix announces a size in one spelling only. -/
theorem announced_eq_iff (l : LenType) {head : List UInt8} (hh : head.length = l.integral.width)
    (n : Nat) : l.announced head = n ↔ n ≤ l.bound ∧ head = l.encode n := by
  constructor
  · intro h
    have hlt := ofBE_lt head
    have hn : ofBE head = n ∧ n ≤ l.bound := by
      cases l with
      | short =>
        rw [hh] at hlt
        have hv : (UInt16.ofNat (ofBE head)).toNat = ofBE head := UInt16.toNat_ofNat_of_lt' hlt
        have he : ((UInt16.ofNat (ofBE head)).toNat : Int) = n := h
        rw [hv] at he
        have hb : ofBE head < 65536 := hlt
        exact ⟨Int.ofNat.inj he, by simp only [bound]; omega⟩
      | int =>
        rw [hh] at hlt
        have hb : ofBE head < 4294967296 := hlt
        have he : (BitVec.ofNat 32 (ofBE head)).toInt = n := h
        rw [BitVec.toInt_eq_toNat_cond, BitVec.toNat_ofNat, Nat.mod_eq_of_lt hb] at he
        simp only [bound]
        split at he <;> omega
    refine ⟨hn.2, ?_⟩
    rw [encode, ← hn.1, ← hh, toBE_ofBE]
  · rintro ⟨hn, rfl⟩
    have hlt : n < 256 ^ l.integral.width := by
      have h := l.integral.toBits_lt (l.cast n)
      rwa [l.toBits_cast n hn] at h
    have hv : l.integral.ofBits n = l.cast n := by
      rw [← l.integral.ofBits_toBits (l.cast n), l.toBits_cast n hn]
    rw [announced, encode, ofBE_toBE _ _ hlt, hv, l.toInt_cast n hn]

/-- Only an [int] can announce less than nothing. -/
theorem announced_le (l : LenType) (head : List UInt8) : l.announced head < 2 ^ 31 ∧
    -2 ^ 31 ≤ l.announced head := by
  cases l with
  | short =>
    have h := UInt16.toNat_lt (UInt16.ofNat (ofBE head))
    have he : announced .short head = ((UInt16.ofNat (ofBE head)).toNat : Int) := rfl
    omega
  | int =>
    have hlt := Int32.toInt_lt (IntegralType.int.ofBits (ofBE head))
    have hge := Int32.le_toInt (IntegralType.int.ofBits (ofBE head))
    exact ⟨hlt, hge⟩

/-- A prefix and the number it announces. -/
def Announces (l : LenType) : Grammar Int :=
  fun head n ↦ head.length = l.integral.width ∧ n = l.announced head

private theorem read_recognizes {size : Nat} (l : LenType) :
    Recognizes size l.read l.Announces := by
  refine ((readIntBE_recognizes l.integral).map l.toInt).congr fun head n _ ↦ ?_
  constructor
  · rintro ⟨x, ⟨hh, rfl⟩, rfl⟩
    exact ⟨hh, rfl⟩
  · rintro ⟨hh, rfl⟩
    exact ⟨_, ⟨hh, rfl⟩, rfl⟩

/-- A string behind its size. -/
def MeansString (l : LenType) : Grammar (List UInt8) :=
  fun bs s ↦ s.length ≤ l.bound ∧ bs = l.encode s.length ++ s

/-- A byte string behind its size, or a negative size. -/
def MeansBytes (l : LenType) : Grammar (List UInt8) :=
  fun bs s ↦ l.MeansString bs s ∨ s = [] ∧ bs.length = l.integral.width ∧ l.announced bs < 0

private theorem length_le_of_meansBytes {l : LenType} {bs s : List UInt8} (h : l.MeansBytes bs s) :
    s.length ≤ l.bound := by
  rcases h with h | ⟨rfl, -, -⟩
  · exact h.1
  · exact Nat.zero_le _

/-- A [short] announces nothing negative. -/
theorem meansBytes_short {bs s : List UInt8} :
    MeansBytes .short bs s ↔ MeansString .short bs s := by
  refine ⟨fun h ↦ h.resolve_right ?_, Or.inl⟩
  rintro ⟨-, -, hneg⟩
  have he : announced .short bs = ((UInt16.ofNat (ofBE bs)).toNat : Int) := rfl
  omega

/-- Items behind their number. -/
def MeansItems {α : Type} (l : LenType) (G : Grammar α) : Grammar (List α) :=
  fun bs xs ↦ xs.length ≤ l.bound ∧ ∃ items, bs = l.encode xs.length ++ items ∧ Each G items xs

end LenType

section
variable {size : Nat}

/-- A string is read from the bytes that mean it. -/
theorem stringBinaryParser_recognizes (l : LenType) :
    Recognizes size (stringBinaryParser l) l.MeansString := by
  have hcontent : ∀ n : Int, Recognizes size
      (if n < 0 then .fail Exception.lengthError else memcpy n.toNat)
      (fun bs s ↦ n = bs.length ∧ s = bs) := by
    intro n
    split
    · next hneg =>
      refine (Recognizes.fail _).congr fun bs s _ ↦ ⟨False.elim, fun h ↦ ?_⟩
      omega
    · next hpos =>
      refine (Recognizes.copy _).congr fun bs s _ ↦ and_congr_left fun _ ↦ ?_
      omega
  refine (l.read_recognizes.bind hcontent).congr fun bs s _ ↦ ?_
  constructor
  · rintro ⟨head, _, rfl, n, ⟨hh, rfl⟩, hn, rfl⟩
    obtain ⟨hle, hhead⟩ := (l.announced_eq_iff hh _).mp hn
    exact ⟨hle, by rw [hhead]⟩
  · rintro ⟨hle, rfl⟩
    have hh : (l.encode s.length).length = l.integral.width := length_toBE _ _
    exact ⟨_, s, rfl, _, ⟨hh, rfl⟩, (l.announced_eq_iff hh _).mpr ⟨hle, rfl⟩, rfl⟩

/-- A byte string is read from the bytes that mean it. -/
theorem bytesBinaryParser_recognizes (l : LenType) :
    Recognizes size (bytesBinaryParser l) l.MeansBytes := by
  have hcontent : ∀ n : Int, Recognizes size
      (if 0 < n then memcpy n.toNat else return [] : Reader (List UInt8))
      (fun bs s ↦ (n = bs.length ∨ bs = [] ∧ n < 0) ∧ s = bs) := by
    intro n
    split
    · next hpos =>
      refine (Recognizes.copy _).congr fun bs s _ ↦ and_congr_left fun _ ↦ ?_
      omega
    · next hneg =>
      refine (Recognizes.pure _).congr fun bs s _ ↦ ?_
      constructor
      · rintro ⟨rfl, rfl⟩
        rcases Int.lt_or_eq_of_le (Int.not_lt.mp hneg) with hlt | rfl
        · exact ⟨.inr ⟨rfl, hlt⟩, rfl⟩
        · exact ⟨.inl rfl, rfl⟩
      · rintro ⟨h | ⟨hnil, -⟩, rfl⟩
        · have hnil : s = [] := List.length_eq_zero_iff.mp (by omega)
          exact ⟨hnil, hnil⟩
        · exact ⟨hnil, hnil⟩
  refine (l.read_recognizes.bind hcontent).congr fun bs s _ ↦ ?_
  constructor
  · rintro ⟨head, _, rfl, n, ⟨hh, rfl⟩, hn | ⟨rfl, hn⟩, rfl⟩
    · obtain ⟨hle, hhead⟩ := (l.announced_eq_iff hh _).mp hn
      exact .inl ⟨hle, by rw [hhead]⟩
    · rw [List.append_nil]
      exact .inr ⟨rfl, hh, hn⟩
  · rintro (⟨hle, rfl⟩ | ⟨rfl, hh, hn⟩)
    · have hh : (l.encode s.length).length = l.integral.width := length_toBE _ _
      exact ⟨_, s, rfl, _, ⟨hh, rfl⟩, .inl ((l.announced_eq_iff hh _).mpr ⟨hle, rfl⟩), rfl⟩
    · exact ⟨bs, [], (List.append_nil bs).symm, _, ⟨hh, rfl⟩, .inr ⟨rfl, hn⟩, rfl⟩

/-- A counted loop behind its count. A negative count would be near 2^64 as a `size_t`, and no
buffer has bytes for so many items. -/
theorem items_recognize {α σ : Type} (l : LenType) {G : Grammar α} {body : σ → Reader σ}
    {upd : σ → α → σ} (hsize : size < 2 ^ 63) (hG : ∀ bs x, G bs x → 0 < bs.length)
    (hb : ∀ s, Recognizes size (body s) (fun bs t ↦ ∃ x, G bs x ∧ t = upd s x)) (s : σ) :
    Recognizes size (l.read >>= fun count ↦ Program.forCount (sizeT count) body s)
      (fun bs t ↦ ∃ xs, l.MeansItems G bs xs ∧ t = xs.foldl upd s) := by
  refine (l.read_recognizes.bind fun n ↦ Recognizes.forCount hb (sizeT n) s).congr
    fun bs t hbs ↦ ?_
  constructor
  · rintro ⟨head, items, rfl, n, ⟨hh, rfl⟩, xs, hcount, hitems, rfl⟩
    have hle := length_le_of_each hG hitems
    have hbounds := l.announced_le head
    rw [List.length_append] at hbs
    simp only [sizeT] at hcount
    have hn : l.announced head = xs.length := by omega
    obtain ⟨hbound, hhead⟩ := (l.announced_eq_iff hh _).mp hn
    exact ⟨xs, ⟨hbound, items, by rw [hhead], hitems⟩, rfl⟩
  · rintro ⟨xs, ⟨hbound, items, rfl, hitems⟩, rfl⟩
    have hh : (l.encode xs.length).length = l.integral.width := length_toBE _ _
    refine ⟨_, items, rfl, _, ⟨hh, rfl⟩, xs, ?_, hitems, rfl⟩
    rw [(l.announced_eq_iff hh _).mpr ⟨hbound, rfl⟩, sizeT_natCast l _ hbound]

private theorem listBinaryParser_recognizes {α : Type} (l : LenType) {element : Reader α}
    {G : Grammar α} (hsize : size < 2 ^ 63) (hG : ∀ bs x, G bs x → 0 < bs.length)
    (he : Recognizes size element G) :
    Recognizes size (listBinaryParser l element) (l.MeansItems G) := by
  refine (items_recognize l hsize hG (fun xs ↦ he.map (xs ++ [·])) []).congr fun bs xs _ ↦ ?_
  constructor
  · rintro ⟨xs, hxs, rfl⟩
    rwa [foldl_snoc]
  · intro hxs
    exact ⟨xs, hxs, (foldl_snoc xs []).symm⟩

/-- A list of items that each have a layout. -/
theorem listBinaryParser_recognizes_layout {α : Type} (l : LenType) {element : Reader α}
    {P : α → Prop} {enc : α → List UInt8} (hsize : size < 2 ^ 63)
    (hpos : ∀ x, P x → 0 < (enc x).length) (he : Recognizes size element (ofLayout P enc)) :
    Recognizes size (listBinaryParser l element)
      (ofLayout (fun xs ↦ xs.length ≤ l.bound ∧ ∀ x ∈ xs, P x)
        (fun xs ↦ l.encode xs.length ++ xs.flatMap enc)) := by
  have hitem : ∀ bs x, ofLayout P enc bs x → 0 < bs.length := by
    rintro bs x ⟨hx, rfl⟩
    exact hpos x hx
  refine (listBinaryParser_recognizes l hsize hitem he).congr fun bs xs _ ↦ ?_
  constructor
  · rintro ⟨hlength, items, rfl, hitems⟩
    obtain ⟨hxs, rfl⟩ := each_ofLayout.mp hitems
    exact ⟨⟨hlength, hxs⟩, rfl⟩
  · rintro ⟨⟨hlength, hxs⟩, rfl⟩
    exact ⟨hlength, _, rfl, each_ofLayout.mpr ⟨hxs, rfl⟩⟩

end

private theorem perm_entries {k v : Carrier} {m n : Carrier.MapObject k v}
    (h : (Carrier.map k v).den m = (Carrier.map k v).den n) :
    (Carrier.entries k v m.1).Perm (Carrier.entries k v n.1) := by
  have hkeys (l : Carrier.MapObject k v) : (Carrier.entries k v l.1).NodupKeys := by
    have hfst : (Carrier.entries k v l.1).keys = l.1.map (fun e ↦ k.den e.1) := List.map_map
    rw [List.NodupKeys, hfst]
    exact l.2
  refine List.lookup_ext (hkeys m) (hkeys n) (fun key value ↦ ?_)
  have hvalue : (Carrier.entries k v m.1).toFinmap = (Carrier.entries k v n.1).toFinmap := h
  rw [← Finmap.dlookup_list_toFinmap, hvalue, Finmap.dlookup_list_toFinmap]

namespace Ty

/-- The bytes of a value. A key that a map repeats keeps its first value. -/
def Means : (t : Ty) → Grammar t.Val
  | integral i => i.Means
  | float => fun bs (x : UInt32) ↦ bs = toBE 4 x.toNat
  | double => fun bs (x : UInt64) ↦ bs = toBE 8 x.toNat
  | string => LenType.short.MeansString
  | longString => LenType.int.MeansString
  | stdString => LenType.short.MeansString
  | bytes => LenType.int.MeansBytes
  | shortBytes => LenType.short.MeansBytes
  | list l t => l.MeansItems t.Means
  | map l k w => fun bs (m : Carrier.MapObject k.carrier w.carrier) ↦
    ∃ entries : List (k.Val × w.Val), l.MeansItems (k.Means.pair w.Means) bs entries ∧
      m = entries.foldl (fun m e ↦ m.emplace e.1 e.2) .empty

/-- No value takes no bytes. -/
theorem length_pos_of_means (t : Ty) {bs : List UInt8} {x : t.Val} (h : t.Means bs x) :
    0 < bs.length := by
  have hencode : ∀ (l : LenType) (n : Nat) (cs : List UInt8), 0 < (l.encode n ++ cs).length := by
    intro l n cs
    rw [List.length_append, LenType.encode, length_toBE]
    cases l <;> exact Nat.lt_of_lt_of_le (by decide) (Nat.le_add_right _ _)
  have hstring : ∀ (l : LenType) (s : List UInt8), l.MeansString bs s → 0 < bs.length := by
    rintro l s ⟨-, rfl⟩
    exact hencode l _ _
  have hbytes : ∀ (l : LenType) (s : List UInt8), l.MeansBytes bs s → 0 < bs.length := by
    rintro l s (h | ⟨-, hh, -⟩)
    · exact hstring l s h
    · rw [hh]
      cases l <;> decide
  cases t with
  | integral i =>
    rw [h.1]
    cases i <;> decide
  | float =>
    obtain rfl := h
    simp
  | double =>
    obtain rfl := h
    simp
  | string => exact hstring _ _ h
  | longString => exact hstring _ _ h
  | stdString => exact hstring _ _ h
  | bytes => exact hbytes _ _ h
  | shortBytes => exact hbytes _ _ h
  | list l t =>
    obtain ⟨-, items, rfl, -⟩ := h
    exact hencode l _ _
  | map l k w =>
    obtain ⟨entries, ⟨-, items, rfl, -⟩, -⟩ := h
    exact hencode l _ _

/-- `Read<T>` accepts the bytes of the values of `T` and nothing else. -/
theorem read_recognizes {size : Nat} (hsize : size < 2 ^ 63) (t : Ty) :
    Recognizes size t.read t.Means := by
  induction t with
  | integral i => exact readIntBE_recognizes i
  | float =>
    refine ((readIntBE_recognizes .int).map Int32.toUInt32).congr fun bs x _ ↦ ?_
    constructor
    · rintro ⟨tmp, htmp, rfl⟩
      exact (IntegralType.means_iff (by decide)).mp htmp
    · intro hbs
      exact ⟨UInt32.toInt32 x, (IntegralType.means_iff (by decide)).mpr hbs, rfl⟩
  | double =>
    refine ((readIntBE_recognizes .bigInt).map Int64.toUInt64).congr fun bs x _ ↦ ?_
    constructor
    · rintro ⟨tmp, htmp, rfl⟩
      exact (IntegralType.means_iff (by decide)).mp htmp
    · intro hbs
      exact ⟨UInt64.toInt64 x, (IntegralType.means_iff (by decide)).mpr hbs, rfl⟩
  | string => exact stringBinaryParser_recognizes .short
  | longString => exact stringBinaryParser_recognizes .int
  | stdString => exact stringBinaryParser_recognizes .short
  | bytes => exact bytesBinaryParser_recognizes .int
  | shortBytes => exact bytesBinaryParser_recognizes .short
  | list l t ih =>
    exact listBinaryParser_recognizes l hsize (fun _ _ ↦ t.length_pos_of_means) ih
  | map l k w ihk ihw =>
    refine items_recognize l hsize (fun bs e h ↦ ?_)
      (fun m ↦ ihk.pair (Carrier.MapObject.emplace m) ihw) _
    obtain ⟨front, back, rfl, hk, -⟩ := h
    rw [List.length_append]
    exact Nat.lt_of_lt_of_le (k.length_pos_of_means hk) (Nat.le_add_right _ _)

section
variable {k w : Carrier}

private theorem foldl_emplace (entries : List (k.Val × w.Val)) (m : Carrier.MapObject k w) :
    (entries.foldl (fun m e ↦ m.emplace e.1 e.2) m).1.length ≤ m.1.length + entries.length ∧
      ∀ e ∈ (entries.foldl (fun m e ↦ m.emplace e.1 e.2) m).1, e ∈ m.1 ∨ e ∈ entries := by
  induction entries generalizing m with
  | nil => exact ⟨Nat.le_refl _, fun e he ↦ .inl he⟩
  | cons entry entries ih =>
    have hone : (m.emplace entry.1 entry.2).1.length ≤ m.1.length + 1 ∧
        ∀ e ∈ (m.emplace entry.1 entry.2).1, e ∈ m.1 ∨ e = entry := by
      unfold Carrier.MapObject.emplace
      split
      · exact ⟨Nat.le_succ _, fun e he ↦ .inl he⟩
      · exact ⟨by simp, fun e he ↦ by simpa using he⟩
    obtain ⟨hlength, hmem⟩ := ih (m.emplace entry.1 entry.2)
    refine ⟨?_, fun e he ↦ ?_⟩
    · rw [List.foldl_cons, List.length_cons]
      omega
    · rw [List.mem_cons]
      rcases hmem e he with h | h
      · rcases hone.2 e h with h | h
        · exact .inl h
        · exact .inr (.inl h)
      · exact .inr (.inr h)

end

/-- Whatever stands for a value stands for one that fits. -/
theorem fits_of_means (t : Ty) {bs : List UInt8} {x : t.Val} (h : t.Means bs x) : t.Fits x := by
  induction t generalizing bs with
  | integral i => trivial
  | float => trivial
  | double => trivial
  | string => exact h.1
  | longString => exact h.1
  | stdString => exact h.1
  | bytes => exact LenType.length_le_of_meansBytes h
  | shortBytes => exact LenType.length_le_of_meansBytes h
  | list l t ih =>
    obtain ⟨hlength, items, -, hitems⟩ := h
    exact ⟨hlength, forall_of_each (fun _ _ hx ↦ ih hx) hitems⟩
  | map l k w ihk ihw =>
    obtain ⟨entries, ⟨hlength, items, -, hitems⟩, rfl⟩ := h
    have hentries : ∀ e ∈ entries, k.Fits e.1 ∧ w.Fits e.2 := by
      refine forall_of_each (fun bs e he ↦ ?_) hitems
      obtain ⟨front, back, -, hk, hw⟩ := he
      exact ⟨ihk hk, ihw hw⟩
    obtain ⟨hle, hmem⟩ := foldl_emplace entries (.empty : Carrier.MapObject k.carrier w.carrier)
    have hempty : (Carrier.MapObject.empty : Carrier.MapObject k.carrier w.carrier).1 = [] := rfl
    rw [hempty, List.length_nil, Nat.zero_add] at hle
    refine ⟨Nat.le_trans hle hlength, fun e he ↦ hentries e ?_⟩
    exact (hmem e he).resolve_left (by rw [hempty]; exact List.not_mem_nil)

/-- Types whose values have one spelling each. -/
def isCanonical : Ty → Bool
  | integral i => i != .boolean
  | bytes => false
  | map .. => false
  | list _ t => t.isCanonical
  | _ => true

/-- There the layout is the only spelling. -/
theorem means_eq_layout (t : Ty) (h : t.isCanonical = true) :
    t.Means = ofLayout t.Fits t.encode := by
  induction t with
  | integral i =>
    funext bs x
    have hi : i ≠ .boolean := by simpa [isCanonical] using h
    exact propext ((IntegralType.means_iff hi).trans (and_iff_right trivial).symm)
  | float => exact funext fun _ ↦ funext fun _ ↦ propext (and_iff_right trivial).symm
  | double => exact funext fun _ ↦ funext fun _ ↦ propext (and_iff_right trivial).symm
  | string => rfl
  | longString => rfl
  | stdString => rfl
  | bytes => cases h
  | shortBytes => exact funext fun _ ↦ funext fun _ ↦ propext LenType.meansBytes_short
  | list l t ih =>
    funext bs xs
    refine propext ⟨?_, ?_⟩
    · rintro ⟨hlength, items, rfl, hitems⟩
      rw [ih h] at hitems
      obtain ⟨hxs, rfl⟩ := each_ofLayout.mp hitems
      exact ⟨⟨hlength, hxs⟩, rfl⟩
    · rintro ⟨⟨hlength, hxs⟩, rfl⟩
      refine ⟨hlength, _, rfl, ?_⟩
      rw [ih h]
      exact each_ofLayout.mpr ⟨hxs, rfl⟩
  | map => cases h

/-- `Read<T>` accepts from a position on exactly the bytes of a value that stand there. -/
theorem read_accepts_iff (t : Ty) (v : View) (hv : v.data.length < 2 ^ 63) {o : Nat}
    (ho : o ≤ v.data.length) (x : t.Val) (o' : Nat) :
    Accepts v t.read o x o' ↔
      ∃ bs post, v.data.drop o = bs ++ post ∧ o' = o + bs.length ∧ t.Means bs x :=
  (t.read_recognizes hv).accepts_segment (Nat.le_refl _) ho

/-- A map with a key that comes twice, of which the first value stays. -/
theorem read_accepts_iff_repeatedKey :
    Accepts ⟨[0, 2, 0, 1, 97, 0, 1, 98, 0, 1, 97, 0, 0], fun _ ↦ 0⟩ stringMap.read 0
      (⟨[([97], [98])], by decide⟩ : stringMap.Val) 13 :=
  (read_accepts_iff stringMap ⟨[0, 2, 0, 1, 97, 0, 1, 98, 0, 1, 97, 0, 0], fun _ ↦ 0⟩ (by decide)
    (by decide) _ _).mpr
    ⟨_, [], rfl, rfl, [([97], [98]), ([97], [])], ⟨by decide, _, rfl,
      .cons ⟨[0, 1, 97], [0, 1, 98], rfl, ⟨by decide, by decide⟩, by decide, by decide⟩
        (.cons ⟨[0, 1, 97], [0, 0], rfl, ⟨by decide, by decide⟩, by decide, by decide⟩ .nil)⟩,
      rfl⟩

/-- Whether an object fits depends on its value only. -/
theorem fits_congr (t : Ty) {w x : t.Val} (hw : t.carrier.den w = t.carrier.den x)
    (h : t.Fits x) : t.Fits w := by
  induction t with
  | integral i => trivial
  | float => trivial
  | double => trivial
  | string | longString | stdString | bytes | shortBytes =>
    obtain rfl : w = x := hw
    exact h
  | list l t ih =>
    change List t.carrier.Val at w x
    have hlist : w.map t.carrier.den = x.map t.carrier.den := hw
    have hlength : w.length = x.length := by simpa using congrArg List.length hlist
    refine ⟨hlength.trans_le h.1, fun y hy ↦ ?_⟩
    obtain ⟨z, hz, hden⟩ := List.mem_map.mp (hlist ▸ List.mem_map_of_mem hy)
    exact ih hden.symm (h.2 z hz)
  | map l k v ihk ihv =>
    have hperm := perm_entries hw
    have hlength := hperm.length_eq
    rw [Carrier.entries, Carrier.entries, List.length_map, List.length_map] at hlength
    refine ⟨hlength.trans_le h.1, fun e he ↦ ?_⟩
    obtain ⟨e', he', hden⟩ := List.mem_map.mp (hperm.subset (List.mem_map_of_mem he))
    obtain ⟨hkey, hmapped⟩ := Sigma.mk.inj hden
    exact ⟨ihk hkey.symm (h.2 e' he').1, ihv (eq_of_heq hmapped).symm (h.2 e' he').2⟩

/-- A value with one spelling has one object. -/
theorem eq_of_den_eq (t : Ty) (h : t.isCanonical = true) {w x : t.Val}
    (hw : t.carrier.den w = t.carrier.den x) : w = x := by
  induction t with
  | integral | float | double | string | longString | stdString | bytes | shortBytes => exact hw
  | list l t ih =>
    have hinj : Function.Injective t.carrier.den := fun _ _ ↦ ih h
    exact hinj.list_map hw
  | map => cases h

/-- What `Read<T>` has accepted can be written and read again, and but for `bool`, [bytes] and
maps the bytes are those that it was read from. The writer may hold the value as any object `w`,
so with its maps in any iteration order. -/
theorem write_of_accepts (t : Ty) {v : View} (hv : v.data.length < 2 ^ 63) {o : Nat}
    (ho : o ≤ v.data.length) {x : t.Val} {o' : Nat} (h : Accepts v t.read o x o') (w : t.Val)
    (hw : t.carrier.den w = t.carrier.den x) :
    ∃ bytes, (∀ buffer, (t.write w).run buffer = .ok ((), buffer ++ bytes)) ∧
      (∀ beyond, Accepts ⟨bytes, beyond⟩ t.read 0 w bytes.length) ∧
      (t.isCanonical = true → ∃ post, v.data.drop o = bytes ++ post ∧ o' = o + bytes.length) := by
  obtain ⟨bs, post, hdrop, ho', hmeans⟩ :=
    ((t.read_recognizes hv).accepts_segment (Nat.le_refl _) ho).mp h
  have hfits := t.fits_congr hw (t.fits_of_means hmeans)
  refine ⟨t.encode w, t.write_appends w hfits, fun beyond ↦ ?_, fun hc ↦ ?_⟩
  · obtain ⟨c, hrun, hoffset⟩ :=
      t.read_decodes w hfits ⟨t.encode w, beyond⟩ [] [] (.at 0) (by simp) rfl
    exact ⟨c, hrun, by simpa using hoffset, Nat.le_refl _⟩
  · obtain rfl := t.eq_of_den_eq hc hw
    rw [t.means_eq_layout hc] at hmeans
    obtain ⟨-, rfl⟩ := hmeans
    exact ⟨post, hdrop, ho'⟩

/-- A list of one string, between two other bytes. -/
def listInside : View := ⟨[7, 0, 1, 0, 1, 97, 9], fun _ ↦ 0⟩

/-- A map of two entries, in either order. -/
def twoEntries (swap : Bool) : stringMap.Val :=
  if swap then ⟨[([98], []), ([97], [])], by decide⟩ else ⟨[([97], []), ([98], [])], by decide⟩

/-- The list goes back to its bytes, and the map is written in its other order. -/
theorem write_of_accepts_listInside :
    (∃ bytes, (∀ buffer, (stringList.write ([[97]] : List (List UInt8))).run buffer =
        .ok ((), buffer ++ bytes)) ∧
      ∃ post, listInside.data.drop 1 = bytes ++ post ∧ 6 = 1 + bytes.length) ∧
    ∃ bytes, (∀ buffer, (stringMap.write (twoEntries true)).run buffer =
        .ok ((), buffer ++ bytes)) ∧
      ∀ beyond, Accepts ⟨bytes, beyond⟩ stringMap.read 0 (twoEntries true) bytes.length := by
  constructor
  · have hread : Accepts listInside stringList.read 1 ([[97]] : List (List UInt8)) 6 :=
      ⟨_, rfl, rfl, by decide⟩
    obtain ⟨bytes, hwrite, -, hback⟩ :=
      write_of_accepts stringList (by decide) (by decide) hread _ rfl
    exact ⟨bytes, hwrite, hback rfl⟩
  · have hread : Accepts ⟨[0, 2, 0, 1, 97, 0, 0, 0, 1, 98, 0, 0], fun _ ↦ 0⟩ stringMap.read 0
        (twoEntries false) 12 :=
      ⟨_, rfl, rfl, by decide⟩
    obtain ⟨bytes, hwrite, hback, -⟩ :=
      write_of_accepts stringMap (by decide) (by decide) hread (twoEntries true) (by decide)
    exact ⟨bytes, hwrite, hback⟩

end Ty
end CassandraDriver.Io
