import Mathlib.Data.List.Basic
import Mathlib.Tactic.Common

/-!
# Buffer-reading programs

Library `Lib`. A reader of a byte buffer as a program over three effects: a size check
that may fail, a raw copy that checks nothing, and a tick that counts units of work.
`run` gives the meaning over a buffer in memory; a copy past the end finds whatever
memory holds there, and the log records which positions were copied.
`Decodes` is the framing notion the codec proofs compose: the program turns exactly
those bytes into that value, wherever in a buffer they stand.
-/

namespace CassandraDriver.Lib

/-- A read-only buffer: its bytes, and what memory holds past its end. -/
structure View where
  data : List UInt8
  beyond : Nat → UInt8

namespace View

/-- The byte a raw load finds at a position. -/
def byteAt (v : View) (i : Nat) : UInt8 := v.data[i]?.getD (v.beyond i)

/-- The bytes a raw copy of length `n` finds from `start` on. -/
def window (v : View) (start n : Nat) : List UInt8 :=
  (List.range n).map (fun i ↦ v.byteAt (start + i))

/-- A copy always yields as many bytes as were asked for. -/
@[simp] theorem length_window (v : View) (start n : Nat) : (v.window start n).length = n := by
  simp [window]

/-- A copy of a segment of the buffer yields that segment. -/
theorem window_segment (v : View) (pre bs post : List UInt8)
    (h : v.data = pre ++ bs ++ post) : v.window pre.length bs.length = bs := by
  apply List.ext_getElem
  · simp
  · intro i hi hj
    simp only [window, byteAt, List.getElem_map, List.getElem_range, h]
    rw [List.append_assoc, List.getElem?_append_right (by omega),
      List.getElem?_append_left (by omega), Nat.add_sub_cancel_left,
      List.getElem?_eq_getElem hj, Option.getD_some]

end View

/-- Reader programs with exceptions in `ε` and result in `α`. -/
inductive Program (ε α : Type) : Type
  | done (a : α)
  | fail (e : ε)
  | guard (n : Nat) (e : ε) (next : Program ε α)
  | copy (n : Nat) (next : List UInt8 → Program ε α)
  | tick (next : Program ε α)

/-- Where a run stands: next position, positions copied so far, ticks so far. -/
structure Cursor where
  offset : Nat
  copies : List (Nat × Nat)
  ticks : Nat
  deriving DecidableEq, Repr

/-- A fresh cursor at an offset, before anything is copied. -/
def Cursor.at (offset : Nat) : Cursor := ⟨offset, [], 0⟩

/-- Every copied position lies below `size`. -/
def Cursor.InBounds (size : Nat) (c : Cursor) : Prop :=
  ∀ s ∈ c.copies, ∀ i < s.2, s.1 + i < size

instance (size : Nat) (c : Cursor) : Decidable (c.InBounds size) :=
  inferInstanceAs (Decidable (∀ s ∈ c.copies, ∀ i < s.2, s.1 + i < size))

namespace Program

variable {ε α β : Type}

/-- Sequential composition; an exception ends the whole program. -/
def bind : Program ε α → (α → Program ε β) → Program ε β
  | done a, f => f a
  | fail e, _ => fail e
  | guard n e next, f => guard n e (bind next f)
  | copy n next, f => copy n (fun bs ↦ bind (next bs) f)
  | tick next, f => tick (bind next f)

instance : Monad (Program ε) where
  pure := done
  bind := bind

/-- The meaning of a program over a buffer. The cursor is kept also when it fails. -/
def run (v : View) : Program ε α → Cursor → Except ε α × Cursor
  | done a, c => (.ok a, c)
  | fail e, c => (.error e, c)
  | guard n e next, c =>
    if c.offset + n ≤ v.data.length then run v next c else (.error e, c)
  | copy n next, c =>
    run v (next (v.window c.offset n))
      { c with offset := c.offset + n, copies := c.copies ++ [(c.offset, n)] }
  | tick next, c => run v next { c with ticks := c.ticks + 1 }

/-- `n` rounds of a loop body over its accumulator. -/
def forCount {σ : Type} : Nat → (σ → Program ε σ) → σ → Program ε σ
  | 0, _, s => pure s
  | n + 1, body, s => body s >>= forCount n body

/-- A sequence runs its first part and, if that returns, its second from there. -/
theorem run_bind (v : View) (p : Program ε α) (f : α → Program ε β) (c : Cursor) :
    run v (p >>= f) c =
      match run v p c with
      | (.ok a, c') => run v (f a) c'
      | (.error e, c') => (.error e, c') := by
  change run v (bind p f) c = _
  induction p generalizing c with
  | done a => simp only [bind, run]
  | fail e => simp only [bind, run]
  | guard n e next ih =>
    simp only [bind, run]
    split
    · exact ih c
    · rfl
  | copy n next ih =>
    simp only [bind, run]
    exact ih _ _
  | tick next ih =>
    simp only [bind, run]
    exact ih _

/-- A program that only returns may be left out behind another. -/
theorem bind_done (p : Program ε α) : p >>= done = p := by
  change bind p done = p
  induction p with
  | done a => rfl
  | fail e => rfl
  | guard n e next ih => rw [bind, ih]
  | copy n next ih =>
    rw [bind]
    exact congrArg (copy n) (funext ih)
  | tick next ih => rw [bind, ih]

/-- The program reads exactly `bs` as `a`, wherever in a buffer these bytes stand. -/
def Decodes (p : Program ε α) (bs : List UInt8) (a : α) : Prop :=
  ∀ (v : View) (pre post : List UInt8) (c : Cursor),
    v.data = pre ++ bs ++ post → c.offset = pre.length →
      ∃ c', run v p c = (.ok a, c') ∧ c'.offset = pre.length + bs.length

namespace Decodes

/-- Returning reads nothing. -/
theorem pure (a : α) : Decodes (Pure.pure a : Program ε α) [] a := by
  intro v pre post c _ ho
  exact ⟨c, rfl, by simpa using ho⟩

/-- Decoders compose along concatenation of their bytes. -/
theorem bind {p : Program ε α} {f : α → Program ε β} {bs cs : List UInt8} {a : α} {b : β}
    (hp : Decodes p bs a) (hf : Decodes (f a) cs b) : Decodes (p >>= f) (bs ++ cs) b := by
  intro v pre post c hv ho
  obtain ⟨c₁, h₁, o₁⟩ := hp v pre (cs ++ post) c (by simpa using hv) ho
  obtain ⟨c₂, h₂, o₂⟩ := hf v (pre ++ bs) post c₁ (by simpa using hv) (by simpa using o₁)
  refine ⟨c₂, ?_, by simpa [Nat.add_assoc] using o₂⟩
  rw [run_bind, h₁]
  exact h₂

/-- Post-processing the value does not change the bytes read. -/
theorem map {p : Program ε α} {bs : List UInt8} {a : α} (f : α → β)
    (hp : Decodes p bs a) : Decodes (p >>= fun x ↦ Pure.pure (f x)) bs (f a) := by
  have h : Decodes (p >>= fun x ↦ Pure.pure (f x)) (bs ++ []) (f a) := hp.bind (.pure (f a))
  rwa [List.append_nil] at h

/-- A size check that the bytes to be read satisfy is passed. -/
theorem guard {p : Program ε α} {bs : List UInt8} {a : α} {n : Nat} {e : ε}
    (hn : n ≤ bs.length) (hp : Decodes p bs a) : Decodes (Program.guard n e p) bs a := by
  intro v pre post c hv ho
  obtain ⟨c', h, o⟩ := hp v pre post c hv ho
  refine ⟨c', ?_, o⟩
  have hle : c.offset + n ≤ v.data.length := by
    rw [hv, ho]
    simp only [List.length_append]
    omega
  rw [run, if_pos hle, h]

/-- A raw copy of the bytes at hand yields them. -/
theorem copy (bs : List UInt8) {n : Nat} (hn : n = bs.length) :
    Decodes (Program.copy n Program.done : Program ε (List UInt8)) bs bs := by
  intro v pre post c hv ho
  subst hn
  refine ⟨⟨c.offset + bs.length, c.copies ++ [(c.offset, bs.length)], c.ticks⟩, ?_,
    congrArg (· + bs.length) ho⟩
  rw [run, run, ho, View.window_segment v pre bs post hv]

/-- Counting work reads nothing. -/
theorem tick {p : Program ε α} {bs : List UInt8} {a : α} (hp : Decodes p bs a) :
    Decodes (Program.tick p) bs a := by
  intro v pre post c hv ho
  exact hp v pre post { c with ticks := c.ticks + 1 } hv ho

/-- A counted loop reads its items back to back, folding them into the accumulator. -/
theorem forCount {σ ι : Type} {body : σ → Program ε σ} {enc : ι → List UInt8}
    {upd : σ → ι → σ} (items : List ι) (s : σ)
    (h : ∀ x ∈ items, ∀ s, Decodes (body s) (enc x) (upd s x)) :
    Decodes (Program.forCount items.length body s) (items.flatMap enc)
      (items.foldl upd s) := by
  induction items generalizing s with
  | nil => exact Decodes.pure s
  | cons x items ih =>
    rw [List.length_cons, Program.forCount, List.flatMap_cons, List.foldl_cons]
    exact (h x List.mem_cons_self s).bind
      (ih (upd s x) (fun y hy ↦ h y (List.mem_cons_of_mem _ hy)))

/-- In a buffer that holds exactly the bytes in question, the run starts at zero. -/
theorem run_at {p : Program ε α} {bs : List UInt8} {a : α} (hp : Decodes p bs a)
    (pre post : List UInt8) (beyond : Nat → UInt8) :
    (run ⟨pre ++ bs ++ post, beyond⟩ p (.at pre.length)).1 = .ok a ∧
      (run ⟨pre ++ bs ++ post, beyond⟩ p (.at pre.length)).2.offset =
        pre.length + bs.length := by
  obtain ⟨c', h, o⟩ := hp ⟨pre ++ bs ++ post, beyond⟩ pre post (.at pre.length) rfl rfl
  rw [h]
  exact ⟨rfl, o⟩

end Decodes

end Program
end CassandraDriver.Lib
