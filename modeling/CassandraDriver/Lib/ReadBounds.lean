import CassandraDriver.Lib.ReadProgram

/-!
# Memory safety of reader programs

Library `Lib`. A run stays inside its buffer when it copies only positions of the buffer,
whether it returns or fails in the end, and with its offset not past the end if it returns.
Copies follow each other without gaps, so the position where the run ends decides.
-/

namespace CassandraDriver.Lib.Program

variable {ε α β : Type}

/-- Every copied position lies in the buffer, also in a run that fails later; a run that
returns ends inside the buffer. -/
def StaysInside (v : View) (p : Program ε α) (c : Cursor) : Prop :=
  (run v p c).2.InBounds v.data.length ∧
    ((run v p c).1.isOk = true → (run v p c).2.offset ≤ v.data.length)

/-- What a run returns and where it ends, when it does not fail. -/
def finish (v : View) : Program ε α → Nat → Option (α × Nat)
  | done a, o => some (a, o)
  | fail _, _ => none
  | guard n _ next, o => if o + n ≤ v.data.length then finish v next o else none
  | copy n next, o => finish v (next (v.window o n)) (o + n)
  | tick next, o => finish v next o

/-- `finish` is what the run does, without the log. -/
theorem finish_run (v : View) (p : Program ε α) (c : Cursor) :
    finish v p c.offset =
      match run v p c with
      | (.ok a, c') => some (a, c'.offset)
      | (.error _, _) => none := by
  induction p generalizing c with
  | done a => rfl
  | fail e => rfl
  | guard n e next ih =>
    rw [finish, run]
    split
    · exact ih c
    · rfl
  | copy n next ih => exact ih _ ⟨c.offset + n, c.copies ++ [(c.offset, n)], c.ticks⟩
  | tick next ih => exact ih ⟨c.offset, c.copies, c.ticks + 1⟩

/-- A run that returns finishes. -/
theorem finish_of_run_ok {v : View} {p : Program ε α} {c : Cursor} {a : α}
    (h : (run v p c).1 = .ok a) : ∃ o, finish v p c.offset = some (a, o) := by
  rw [finish_run]
  cases hrun : run v p c with
  | mk result c' =>
    rw [hrun] at h
    cases h
    exact ⟨c'.offset, rfl⟩

/-- A sequence goes on from where its first part ends. -/
theorem finish_bind (v : View) (p : Program ε α) (f : α → Program ε β) (o : Nat) :
    finish v (p >>= f) o = (finish v p o).bind (fun x ↦ finish v (f x.1) x.2) := by
  change finish v (bind p f) o = _
  induction p generalizing o with
  | done a => rfl
  | fail e => rfl
  | guard n e next ih =>
    simp only [bind, finish]
    split
    · exact ih o
    · rfl
  | copy n next ih =>
    simp only [bind, finish]
    exact ih _ _
  | tick next ih =>
    simp only [bind, finish]
    exact ih o

/-- What a sequence that finishes went through. -/
theorem finish_bind_eq_some {v : View} {p : Program ε α} {f : α → Program ε β} {o : Nat}
    {x : β × Nat} (h : finish v (p >>= f) o = some x) :
    ∃ a o', finish v p o = some (a, o') ∧ finish v (f a) o' = some x := by
  rw [finish_bind, Option.bind_eq_some_iff] at h
  obtain ⟨⟨a, o'⟩, hp, hf⟩ := h
  exact ⟨a, o', hp, hf⟩

/-- Where a run ends, also when it fails. -/
def reach (v : View) : Program ε α → Nat → Nat
  | done _, o => o
  | fail _, o => o
  | guard n _ next, o => if o + n ≤ v.data.length then reach v next o else o
  | copy n next, o => reach v (next (v.window o n)) (o + n)
  | tick next, o => reach v next o

/-- `reach` is where the run ends, without the log. -/
theorem reach_run (v : View) (p : Program ε α) (c : Cursor) :
    reach v p c.offset = (run v p c).2.offset := by
  induction p generalizing c with
  | done a => rfl
  | fail e => rfl
  | guard n e next ih =>
    rw [reach, run]
    split
    · exact ih c
    · rfl
  | copy n next ih => exact ih _ ⟨c.offset + n, c.copies ++ [(c.offset, n)], c.ticks⟩
  | tick next ih => exact ih ⟨c.offset, c.copies, c.ticks + 1⟩

/-- A program that finishes ends there. -/
theorem reach_of_finish {v : View} {p : Program ε α} {o o' : Nat} {a : α}
    (h : finish v p o = some (a, o')) : reach v p o = o' := by
  induction p generalizing o with
  | done b =>
    cases h
    rfl
  | fail e => cases h
  | guard n e next ih =>
    rw [finish] at h
    split at h
    · next hn =>
      rw [reach, if_pos hn]
      exact ih h
    · cases h
  | copy n next ih => exact ih _ h
  | tick next ih => exact ih h

/-- A sequence ends where its second part does, if its first part finishes. -/
theorem reach_bind (v : View) (p : Program ε α) (f : α → Program ε β) (o : Nat) :
    reach v (p >>= f) o =
      match finish v p o with
      | some (a, o') => reach v (f a) o'
      | none => reach v p o := by
  change reach v (bind p f) o = _
  induction p generalizing o with
  | done a => rfl
  | fail e => rfl
  | guard n e next ih =>
    simp only [bind, reach, finish]
    split
    · exact ih o
    · rfl
  | copy n next ih => exact ih _ _
  | tick next ih => exact ih o

/-- The offset never moves back. -/
theorem le_reach (v : View) (p : Program ε α) (o : Nat) : o ≤ reach v p o := by
  induction p generalizing o with
  | done a => exact Nat.le_refl _
  | fail e => exact Nat.le_refl _
  | guard n e next ih =>
    rw [reach]
    split
    · exact ih o
    · exact Nat.le_refl _
  | copy n next ih => exact Nat.le_trans (Nat.le_add_right o n) (ih _ _)
  | tick next ih => exact ih o

/-- A program that finishes does so at or behind its start. -/
theorem le_of_finish {v : View} {p : Program ε α} {o o' : Nat} {a : α}
    (h : finish v p o = some (a, o')) : o ≤ o' := by
  rw [← reach_of_finish h]
  exact le_reach v p o

/-- The offset never moves back, also in a run that fails. -/
theorem offset_le_run (v : View) (p : Program ε α) (c : Cursor) :
    c.offset ≤ (run v p c).2.offset := by
  rw [← reach_run]
  exact le_reach v p c.offset

/-- Everything copied lies below the offset. -/
theorem inBounds_run (v : View) (p : Program ε α) (c : Cursor) (hc : c.InBounds c.offset) :
    (run v p c).2.InBounds (run v p c).2.offset := by
  induction p generalizing c with
  | done a => exact hc
  | fail e => exact hc
  | guard n e next ih =>
    rw [run]
    split
    · exact ih c hc
    · exact hc
  | copy n next ih =>
    refine ih _ ⟨c.offset + n, c.copies ++ [(c.offset, n)], c.ticks⟩ ?_
    intro s hs i hi
    change s.1 + i < c.offset + n
    rcases List.mem_append.mp hs with hs | hs
    · exact Nat.lt_of_lt_of_le (hc s hs i hi) (Nat.le_add_right _ _)
    · rw [List.mem_singleton] at hs
      subst hs
      exact Nat.add_lt_add_left hi _
  | tick next ih => exact ih ⟨c.offset, c.copies, c.ticks + 1⟩ hc

private theorem copies_run (v : View) (p : Program ε α) (c : Cursor) {s : Nat × Nat}
    (hs : s ∈ c.copies) : s ∈ (run v p c).2.copies := by
  induction p generalizing c with
  | done a => exact hs
  | fail e => exact hs
  | guard n e next ih =>
    rw [run]
    split
    · exact ih c hs
    · exact hs
  | copy n next ih =>
    exact ih _ ⟨c.offset + n, c.copies ++ [(c.offset, n)], c.ticks⟩ (List.mem_append_left _ hs)
  | tick next ih => exact ih ⟨c.offset, c.copies, c.ticks + 1⟩ hs

/-- A run copies every position between its start and its end. -/
theorem exists_copy_run (v : View) (p : Program ε α) (c : Cursor) {i : Nat}
    (hlo : c.offset ≤ i) (hi : i < (run v p c).2.offset) :
    ∃ s ∈ (run v p c).2.copies, ∃ j < s.2, s.1 + j = i := by
  induction p generalizing c with
  | done a => exact absurd hi (Nat.not_lt.mpr hlo)
  | fail e => exact absurd hi (Nat.not_lt.mpr hlo)
  | guard n e next ih =>
    rw [run] at hi ⊢
    split
    · next hn =>
      rw [if_pos hn] at hi
      exact ih c hlo hi
    · next hn =>
      rw [if_neg hn] at hi
      exact absurd hi (Nat.not_lt.mpr hlo)
  | copy n next ih =>
    by_cases hn : c.offset + n ≤ i
    · exact ih _ ⟨c.offset + n, c.copies ++ [(c.offset, n)], c.ticks⟩ hn hi
    · refine ⟨(c.offset, n), ?_, i - c.offset, by omega, by omega⟩
      exact copies_run v _ ⟨c.offset + n, c.copies ++ [(c.offset, n)], c.ticks⟩
        (List.mem_append_right _ (List.mem_singleton_self _))
  | tick next ih => exact ih ⟨c.offset, c.copies, c.ticks + 1⟩ hlo hi

/-- A run stays inside exactly when it does not end past the buffer, be it by an exception. -/
theorem staysInside_iff (v : View) (p : Program ε α) {o : Nat} (ho : o ≤ v.data.length) :
    StaysInside v p (.at o) ↔ reach v p o ≤ v.data.length := by
  have hreach : reach v p o = (run v p (.at o)).2.offset := reach_run v p (.at o)
  have hcopied := inBounds_run v p (.at o) (by simp [Cursor.InBounds, Cursor.at])
  rw [hreach]
  constructor
  · rintro ⟨hinside, -⟩
    by_contra hpast
    -- the first position past the buffer is among those copied
    obtain ⟨s, hs, j, hj, hsj⟩ := exists_copy_run v p (.at o) ho (by omega)
    have hlt := hinside s hs j hj
    omega
  · intro hle
    exact ⟨fun s hs i hi ↦ Nat.lt_of_lt_of_le (hcopied s hs i hi) hle, fun _ ↦ hle⟩

/-- No run that starts at or behind position `lo` fails with `e`. -/
def Avoids (v : View) (e : ε) (lo : Nat) (p : Program ε α) : Prop :=
  ∀ c : Cursor, lo ≤ c.offset → (run v p c).1 ≠ .error e

namespace Avoids

variable {v : View} {e : ε} {lo : Nat}

/-- A constant avoids every exception. -/
theorem pure (a : α) : Avoids v e lo (Pure.pure a) := by
  intro c _ h
  cases h

/-- A failure avoids the other exceptions. -/
theorem fail {e' : ε} (he : e' ≠ e) : Avoids v e lo (Program.fail e' : Program ε α) := by
  intro c _ h
  exact he (Except.error.inj h)

/-- A size check that is passed says that so many bytes were there. -/
theorem guard {n : Nat} {e' : ε} {p : Program ε α} (he : e' ≠ e)
    (hp : lo + n ≤ v.data.length → Avoids v e lo p) : Avoids v e lo (Program.guard n e' p) := by
  intro c hc
  rw [run]
  split
  · exact hp (by omega) c hc
  · intro h
    exact he (Except.error.inj h)

/-- A copy moves every later position on. -/
theorem copy {n : Nat} {next : List UInt8 → Program ε α}
    (hp : ∀ bs, Avoids v e (lo + n) (next bs)) : Avoids v e lo (Program.copy n next) := by
  intro c hc
  exact hp _ _ (Nat.add_le_add_right hc n)

/-- A tick avoids what its program does. -/
theorem tick {p : Program ε α} (hp : Avoids v e lo p) : Avoids v e lo (Program.tick p) := by
  intro c hc
  exact hp { c with ticks := c.ticks + 1 } hc

/-- One program behind another avoids what both do. -/
theorem bind {p : Program ε α} {f : α → Program ε β} (hp : Avoids v e lo p)
    (hf : ∀ a, Avoids v e lo (f a)) : Avoids v e lo (p >>= f) := by
  intro c hc
  have hm := offset_le_run v p c
  have hr := hp c hc
  rw [run_bind]
  split
  · next a c' h =>
    rw [h] at hm
    exact hf a c' (Nat.le_trans hc hm)
  · next e' c' h =>
    rw [h] at hr
    exact fun he ↦ hr (congrArg Except.error (Except.error.inj he))

/-- A loop avoids what its body does. -/
theorem forCount {σ : Type} {body : σ → Program ε σ} (hb : ∀ s, Avoids v e lo (body s))
    (n : Nat) (s : σ) : Avoids v e lo (Program.forCount n body s) := by
  induction n generalizing s with
  | zero => exact Avoids.pure s
  | succ n ih => exact (hb s).bind ih

end Avoids

/-- Every exception that the program names is of a kind `P`. -/
def Raises (P : ε → Prop) : Program ε α → Prop
  | done _ => True
  | fail e => P e
  | guard _ e next => P e ∧ next.Raises P
  | copy _ next => ∀ bs, (next bs).Raises P
  | tick next => next.Raises P

namespace Raises

variable {P : ε → Prop}

/-- A constant raises nothing. -/
theorem pure (a : α) : Raises P (Pure.pure a : Program ε α) := trivial

/-- A sequence names what its parts name. -/
theorem bind {p : Program ε α} {f : α → Program ε β} (hp : Raises P p)
    (hf : ∀ a, Raises P (f a)) : Raises P (p >>= f) := by
  change Raises P (Program.bind p f)
  induction p with
  | done a => exact hf a
  | fail e => exact hp
  | guard n e next ih => exact ⟨hp.1, ih hp.2⟩
  | copy n next ih => exact fun bs ↦ ih bs (hp bs)
  | tick next ih => exact ih hp

/-- A loop raises what its body does. -/
theorem forCount {σ : Type} {body : σ → Program ε σ} (hb : ∀ s, Raises P (body s)) (n : Nat)
    (s : σ) : Raises P (Program.forCount n body s) := by
  induction n generalizing s with
  | zero => exact Raises.pure s
  | succ n ih => exact (hb s).bind ih

/-- A run fails with an exception that the program names. -/
theorem of_run {v : View} {p : Program ε α} {c : Cursor} {e : ε} (hp : Raises P p)
    (h : (run v p c).1 = .error e) : P e := by
  induction p generalizing c with
  | done a => cases h
  | fail e' =>
    cases h
    exact hp
  | guard n e' next ih =>
    rw [run] at h
    split at h
    · exact ih hp.2 h
    · cases h
      exact hp.1
  | copy n next ih => exact ih _ (hp _) h
  | tick next ih => exact ih hp h

/-- What a program does not name does not occur. -/
theorem avoids {v : View} {p : Program ε α} {e : ε} (hp : Raises P p) (he : ¬ P e) (lo : Nat) :
    Avoids v e lo p :=
  fun _ _ h ↦ he (hp.of_run h)

end Raises

end CassandraDriver.Lib.Program
