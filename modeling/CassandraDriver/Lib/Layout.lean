import CassandraDriver.Lib.ReadBounds

/-!
# Wire layouts

Library `Lib`. A layout describes what lies on the wire: fields of fixed size, and blobs
whose prefix announces their size. `skip` passes over bytes that hold a layout whole, and
`overruns` says that the first part of it that is not whole is the content of a blob. A reader
that checks the size before it reads a field or a prefix, but not before it copies a blob,
leaves its buffer on exactly the bytes that a layout overruns.
-/

namespace CassandraDriver.Lib

/-- Formats. What was read so far selects what follows; `stop` is a format that nothing
meets. -/
inductive Layout
  | nothing
  | stop
  | field (n : Nat) (next : List UInt8 → Layout)
  | blob (n : Nat) (size : List UInt8 → Option Nat) (next : List UInt8 → Layout)
  | append (first second : Layout)
  | times (n : Nat) (item : Layout)

namespace Layout

private def skipTimes (skip : List UInt8 → Option (List UInt8)) :
    Nat → List UInt8 → Option (List UInt8)
  | 0, bs => some bs
  | n + 1, bs => (skip bs).bind (skipTimes skip n)

/-- What follows a layout in bytes that hold all of it. -/
def skip : Layout → List UInt8 → Option (List UInt8)
  | nothing, bs => some bs
  | stop, _ => none
  | field n next, bs =>
    if n ≤ bs.length then (next (bs.take n)).skip (bs.drop n) else none
  | blob n size next, bs =>
    if n ≤ bs.length then
      match size (bs.take n) with
      | none => none
      | some k =>
        if n + k ≤ bs.length then
          (next ((bs.drop n).take k)).skip (bs.drop (n + k))
        else none
    else none
  | append first second, bs => (first.skip bs).bind second.skip
  | times n item, bs => skipTimes item.skip n bs

private def overrunsTimes (skip : List UInt8 → Option (List UInt8)) (overruns : List UInt8 → Bool) :
    Nat → List UInt8 → Bool
  | 0, _ => false
  | n + 1, bs =>
    match skip bs with
    | some rest => overrunsTimes skip overruns n rest
    | none => overruns bs

/-- Behind parts that are whole, a blob announces more bytes than remain. -/
def overruns : Layout → List UInt8 → Bool
  | nothing, _ => false
  | stop, _ => false
  | field n next, bs => n ≤ bs.length && (next (bs.take n)).overruns (bs.drop n)
  | blob n size next, bs =>
    n ≤ bs.length &&
      match size (bs.take n) with
      | none => false
      | some k =>
        if n + k ≤ bs.length then
          (next ((bs.drop n).take k)).overruns (bs.drop (n + k))
        else true
  | append first second, bs =>
    match first.skip bs with
    | some rest => second.overruns rest
    | none => first.overruns bs
  | times n item, bs => overrunsTimes item.skip item.overruns n bs

end Layout

namespace View

/-- A copy inside the buffer. -/
theorem window_eq_take (v : View) {o n : Nat} (h : o + n ≤ v.data.length) :
    v.window o n = (v.data.drop o).take n := by
  apply List.ext_getElem
  · simp
    omega
  · intro i hi hj
    have hlt : i < n := by simpa using hi
    have hget : o + i < v.data.length := by omega
    simp [window, byteAt, List.getElem?_eq_getElem hget]

end View

namespace Program

variable {ε α β : Type} {v : View}

/-- A program reads what a layout describes: it ends behind bytes that hold the layout, and
past the buffer on bytes that the layout overruns. -/
structure Follows (v : View) (p : Program ε α) (l : Layout) : Prop where
  whole : ∀ o ≤ v.data.length, ∀ rest, l.skip (v.data.drop o) = some rest ↔
    ∃ a o', o' ≤ v.data.length ∧ rest = v.data.drop o' ∧ finish v p o = some (a, o')
  overruns : ∀ o ≤ v.data.length, l.overruns (v.data.drop o) = true ↔
    v.data.length < reach v p o

namespace Follows

/-- To read nothing follows the empty layout. -/
theorem pure (a : α) : Follows v (Pure.pure a : Program ε α) .nothing := by
  refine ⟨fun o ho rest ↦ ?_, fun o ho ↦ ?_⟩
  · constructor
    · intro h
      cases h
      exact ⟨a, o, ho, rfl, rfl⟩
    · rintro ⟨_, _, -, rfl, h⟩
      cases h
      rfl
  · exact ⟨fun h ↦ Bool.noConfusion h, fun h ↦ absurd h (Nat.not_lt.mpr ho)⟩

/-- A failure follows the layout that nothing meets. -/
theorem fail (e : ε) : Follows v (Program.fail e : Program ε α) .stop := by
  refine ⟨fun o _ rest ↦ ?_, fun o ho ↦ ?_⟩
  · constructor
    · intro h
      cases h
    · rintro ⟨_, _, -, -, h⟩
      cases h
  · exact ⟨fun h ↦ Bool.noConfusion h, fun h ↦ absurd h (Nat.not_lt.mpr ho)⟩

/-- Counting work changes nothing on the wire. -/
theorem tick {p : Program ε α} {l : Layout} (hp : Follows v p l) :
    Follows v (Program.tick p) l := ⟨hp.whole, hp.overruns⟩

private theorem past_of_skip_eq_none {p : Program ε α} {l : Layout} (hp : Follows v p l) {o : Nat}
    (ho : o ≤ v.data.length) (hl : l.skip (v.data.drop o) = none) {a : α} {o' : Nat}
    (h : finish v p o = some (a, o')) : v.data.length < o' := by
  by_contra hle
  rw [(hp.whole o ho _).mpr ⟨a, o', Nat.not_lt.mp hle, rfl, h⟩] at hl
  cases hl

/-- One part after another, when the second does not depend on what the first returns. -/
theorem bind {p : Program ε α} {f : α → Program ε β} {l m : Layout} (hp : Follows v p l)
    (hf : ∀ a, Follows v (f a) m) : Follows v (p >>= f) (.append l m) := by
  refine ⟨fun o ho rest ↦ ?_, fun o ho ↦ ?_⟩
  · rw [finish_bind, Layout.skip, Option.bind_eq_some_iff]
    constructor
    · rintro ⟨mid, hl, hm⟩
      obtain ⟨a, o₁, ho₁, rfl, h₁⟩ := (hp.whole o ho mid).mp hl
      obtain ⟨b, o₂, ho₂, rfl, h₂⟩ := ((hf a).whole o₁ ho₁ rest).mp hm
      exact ⟨b, o₂, ho₂, rfl, by rw [h₁]; exact h₂⟩
    · rintro ⟨b, o₂, ho₂, rfl, h⟩
      obtain ⟨⟨a, o₁⟩, h₁, h₂⟩ := Option.bind_eq_some_iff.mp h
      have ho₁ : o₁ ≤ v.data.length := Nat.le_trans (le_of_finish h₂) ho₂
      exact ⟨v.data.drop o₁, (hp.whole o ho _).mpr ⟨a, o₁, ho₁, rfl, h₁⟩,
        ((hf a).whole o₁ ho₁ _).mpr ⟨b, o₂, ho₂, rfl, h₂⟩⟩
  · rw [reach_bind, Layout.overruns]
    cases hl : l.skip (v.data.drop o) with
    | some mid =>
      obtain ⟨a, o₁, ho₁, rfl, h₁⟩ := (hp.whole o ho mid).mp hl
      simp only [h₁]
      exact (hf a).overruns o₁ ho₁
    | none =>
      rw [hp.overruns o ho]
      cases h₁ : finish v p o with
      | none => exact Iff.rfl
      | some x =>
        -- the first part has already left the buffer, and the offset never moves back
        have hpast := hp.past_of_skip_eq_none ho hl h₁
        rw [reach_of_finish h₁]
        exact ⟨fun _ ↦ Nat.lt_of_lt_of_le hpast (le_reach v (f x.1) x.2), fun _ ↦ hpast⟩

/-- Post-processing the value changes nothing on the wire. -/
theorem map {p : Program ε α} {l : Layout} (g : α → β) (hp : Follows v p l) :
    Follows v (p >>= fun a ↦ Pure.pure (g a)) l := by
  have hfinish : ∀ o, finish v (p >>= fun a ↦ (Pure.pure (g a) : Program ε β)) o =
      (finish v p o).map (fun x ↦ (g x.1, x.2)) := by
    intro o
    rw [finish_bind]
    cases finish v p o <;> rfl
  refine ⟨fun o ho rest ↦ ?_, fun o ho ↦ ?_⟩
  · rw [hp.whole o ho, hfinish]
    constructor
    · rintro ⟨a, o', ho', rfl, h⟩
      exact ⟨g a, o', ho', rfl, by rw [h]; rfl⟩
    · rintro ⟨b, o', ho', rfl, h⟩
      obtain ⟨⟨a, _⟩, h', he⟩ := Option.map_eq_some_iff.mp h
      cases he
      exact ⟨a, _, ho', rfl, h'⟩
  · rw [hp.overruns o ho, reach_bind]
    cases h : finish v p o with
    | none => exact Iff.rfl
    | some x => rw [reach_of_finish h]; rfl

private theorem le_length_drop {o : Nat} (n : Nat) (ho : o ≤ v.data.length) :
    n ≤ (v.data.drop o).length ↔ o + n ≤ v.data.length := by
  rw [List.length_drop]
  omega

/-- A field is read behind a check of its size. -/
theorem field {n : Nat} {e : ε} {f : List UInt8 → Program ε α} {next : List UInt8 → Layout}
    (hf : ∀ bs, Follows v (f bs) (next bs)) :
    Follows v (Program.guard n e (Program.copy n f)) (.field n next) := by
  refine ⟨fun o ho rest ↦ ?_, fun o ho ↦ ?_⟩
  · simp only [Layout.skip, le_length_drop n ho, finish]
    split
    · next hn =>
      rw [List.drop_drop, ← v.window_eq_take hn]
      exact (hf _).whole (o + n) hn rest
    · simp
  · simp only [Layout.overruns, le_length_drop n ho, reach, Bool.and_eq_true, decide_eq_true_eq]
    split
    · next hn =>
      rw [List.drop_drop, ← v.window_eq_take hn, (hf _).overruns (o + n) hn]
      simp [hn]
    · next hn => simp [hn, Nat.not_lt.mpr ho]

private theorem content {k : Nat} {f : List UInt8 → Program ε α} {next : List UInt8 → Layout}
    (hf : ∀ bs, Follows v (f bs) (next bs)) (o : Nat) (ho : o ≤ v.data.length) :
    (∀ rest, (if k ≤ (v.data.drop o).length then
        (next ((v.data.drop o).take k)).skip (v.data.drop (o + k)) else none) = some rest ↔
      ∃ a o', o' ≤ v.data.length ∧ rest = v.data.drop o' ∧
        finish v (Program.copy k f) o = some (a, o')) ∧
    ((if k ≤ (v.data.drop o).length then
        (next ((v.data.drop o).take k)).overruns (v.data.drop (o + k)) else true) = true ↔
      v.data.length < reach v (Program.copy k f) o) := by
  simp only [le_length_drop k ho]
  by_cases hk : o + k ≤ v.data.length
  · simp only [if_pos hk, finish, reach, ← v.window_eq_take hk]
    exact ⟨(hf _).whole (o + k) hk, (hf _).overruns (o + k) hk⟩
  · have hpast : v.data.length < o + k := by omega
    simp only [if_neg hk, finish, reach]
    refine ⟨fun rest ↦ ?_, ?_⟩
    · constructor
      · intro h
        cases h
      · rintro ⟨a, o', ho', -, h⟩
        have hle := le_of_finish h
        omega
    · simpa using Nat.lt_of_lt_of_le hpast (le_reach v (f (v.window o k)) (o + k))

/-- A blob behind its prefix. -/
theorem blob {n : Nat} {e : ε} {size : List UInt8 → Option Nat} {q f : List UInt8 → Program ε α}
    {next : List UInt8 → Layout} (hnone : ∀ bs, size bs = none → ∃ e', q bs = .fail e')
    (hsome : ∀ bs k, size bs = some k → ∀ o, finish v (q bs) o = finish v (.copy k f) o ∧
      reach v (q bs) o = reach v (.copy k f) o)
    (hf : ∀ bs, Follows v (f bs) (next bs)) :
    Follows v (Program.guard n e (Program.copy n q)) (.blob n size next) := by
  refine ⟨fun o ho rest ↦ ?_, fun o ho ↦ ?_⟩
  · by_cases hn : o + n ≤ v.data.length
    · rw [Layout.skip, if_pos ((le_length_drop n ho).mpr hn), finish, if_pos hn, finish,
        ← v.window_eq_take hn]
      cases hs : size (v.window o n) with
      | none =>
        obtain ⟨e', he'⟩ := hnone _ hs
        simp [he', finish]
      | some k =>
        have hc := (content hf (o + n) hn (k := k)).1 rest
        rw [(hsome _ k hs _).1, ← hc]
        simp only [List.length_drop, List.drop_drop, Nat.add_assoc]
        have hiff : n + k ≤ v.data.length - o ↔ k ≤ v.data.length - (o + n) := by omega
        simp only [hiff]
    · rw [Layout.skip, if_neg (fun h ↦ hn ((le_length_drop n ho).mp h)), finish, if_neg hn]
      simp
  · by_cases hn : o + n ≤ v.data.length
    · rw [Layout.overruns, decide_eq_true ((le_length_drop n ho).mpr hn), Bool.true_and, reach,
        if_pos hn, reach, ← v.window_eq_take hn]
      cases hs : size (v.window o n) with
      | none =>
        obtain ⟨e', he'⟩ := hnone _ hs
        simp [he', reach, hn]
      | some k =>
        have hc := (content hf (o + n) hn (k := k)).2
        rw [(hsome _ k hs _).2, ← hc]
        simp only [List.length_drop, List.drop_drop, Nat.add_assoc]
        have hiff : n + k ≤ v.data.length - o ↔ k ≤ v.data.length - (o + n) := by omega
        simp only [hiff]
    · rw [Layout.overruns, decide_eq_false (fun h ↦ hn ((le_length_drop n ho).mp h)), reach,
        if_neg hn]
      simp [ho]

/-- A counted loop repeats its body on the wire. -/
theorem forCount {σ : Type} {body : σ → Program ε σ} {l : Layout}
    (hb : ∀ s, Follows v (body s) l) (n : Nat) (s : σ) :
    Follows v (Program.forCount n body s) (.times n l) := by
  induction n generalizing s with
  | zero =>
    have h : Follows v (Pure.pure s : Program ε σ) .nothing := .pure s
    exact ⟨h.whole, h.overruns⟩
  | succ n ih =>
    have h : Follows v (body s >>= Program.forCount n body) (.append l (.times n l)) :=
      (hb s).bind ih
    exact ⟨h.whole, h.overruns⟩

/-- A program that follows a layout stays inside its buffer unless the layout overruns it. -/
theorem staysInside_iff {p : Program ε α} {l : Layout} (hp : Follows v p l) {o : Nat}
    (ho : o ≤ v.data.length) :
    StaysInside v p (.at o) ↔ l.overruns (v.data.drop o) = false := by
  rw [Program.staysInside_iff v p ho, ← Bool.not_eq_true, hp.overruns o ho, Nat.not_lt]

end Follows
end Program
end CassandraDriver.Lib
