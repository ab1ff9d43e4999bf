import CassandraDriver.Lib.ReadBounds

/-!
# Work of reader programs

Library `Lib`. A tick is a unit of work. `Pays` bounds the ticks of a run by the bytes
before it: a unit starts by reading a few bytes, so a run that goes on has paid for it,
and only the unit that the run fails in may be owed. A recursive reader is the limit of
its unrollings; `Unrolls` compares two of them, and `Unrolling` says what the whole family
has in common: unrollings that are deep enough agree, and depth costs work.
-/

namespace CassandraDriver.Lib

/-- The bytes of the buffer from a position on; none past the end. -/
def View.unread (v : View) (offset : Nat) : Nat := v.data.length - offset

namespace Program

variable {ε α β : Type}

/-- Each unit of work is paid for with `w` bytes of the buffer, except the one unit in
which a run fails. -/
structure Pays (v : View) (w : Nat) (p : Program ε α) : Prop where
  returned : ∀ {c c' : Cursor} {a : α}, run v p c = (.ok a, c') →
    w * c'.ticks + v.unread c'.offset ≤ w * c.ticks + v.unread c.offset
  failed : ∀ {c c' : Cursor} {e : ε}, run v p c = (.error e, c') →
    w * c'.ticks ≤ w * c.ticks + v.unread c.offset + w

namespace Pays

variable {v : View} {w : Nat}

/-- A constant is no work. -/
theorem pure (a : α) : Pays v w (Pure.pure a : Program ε α) where
  returned h := by
    cases h
    exact Nat.le_refl _
  failed h := by cases h

/-- A failure is no work. -/
theorem fail (e : ε) : Pays v w (Program.fail e : Program ε α) where
  returned h := by cases h
  failed h := by
    cases h
    omega

/-- A size check costs nothing. -/
theorem guard {n : Nat} {e : ε} {p : Program ε α} (hp : Pays v w p) :
    Pays v w (Program.guard n e p) where
  returned h := by
    rw [run] at h
    split at h
    · exact hp.returned h
    · cases h
  failed h := by
    rw [run] at h
    split at h
    · exact hp.failed h
    · cases h
      omega

/-- A copy, also one past the end, leaves no more unread than there was. -/
theorem copy {n : Nat} {next : List UInt8 → Program ε α} (hp : ∀ bs, Pays v w (next bs)) :
    Pays v w (Program.copy n next) where
  returned {c _ _} h := by
    have hpaid := (hp (v.window c.offset n)).returned h
    simp only [View.unread] at hpaid ⊢
    omega
  failed {c _ _} h := by
    have hpaid := (hp (v.window c.offset n)).failed h
    simp only [View.unread] at hpaid ⊢
    omega

/-- A unit that first reads the bytes it is paid with. -/
theorem node {e : ε} {next : List UInt8 → Program ε α} (hp : ∀ bs, Pays v w (next bs)) :
    Pays v w (Program.tick (Program.guard w e (Program.copy w next))) where
  returned {c _ _} h := by
    rw [run, run] at h
    split at h
    · next hsize =>
      have hpaid := (hp (v.window c.offset w)).returned h
      simp only [View.unread, Nat.mul_succ] at hsize hpaid ⊢
      omega
    · cases h
  failed {c _ _} h := by
    rw [run, run] at h
    split at h
    · next hsize =>
      have hpaid := (hp (v.window c.offset w)).failed h
      simp only [View.unread, Nat.mul_succ] at hsize hpaid ⊢
      omega
    · cases h
      simp only [Nat.mul_succ]
      omega

/-- Work adds up along a sequence. -/
theorem bind {p : Program ε α} {f : α → Program ε β} (hp : Pays v w p)
    (hf : ∀ a, Pays v w (f a)) : Pays v w (p >>= f) where
  returned {c c' b} h := by
    rw [run_bind] at h
    split at h
    · next a c₁ hrun =>
      have h₁ := hp.returned hrun
      have h₂ := (hf a).returned h
      omega
    · cases h
  failed {c c' e} h := by
    rw [run_bind] at h
    split at h
    · next a c₁ hrun =>
      have h₁ := hp.returned hrun
      have h₂ := (hf a).failed h
      omega
    · next e' c₁ hrun =>
      cases h
      exact hp.failed hrun

/-- A loop is paid for if its body is. -/
theorem forCount {σ : Type} {body : σ → Program ε σ} (hb : ∀ s, Pays v w (body s)) (n : Nat)
    (s : σ) : Pays v w (Program.forCount n body s) := by
  induction n generalizing s with
  | zero => exact Pays.pure s
  | succ n ih => exact (hb s).bind ih

/-- The work of a run, however it ends: one unit per `w` unread bytes, and one more. -/
theorem ticks_le {p : Program ε α} (hp : Pays v w p) (hw : 0 < w) (o : Nat) :
    (run v p (.at o)).2.ticks ≤ v.unread o / w + 1 := by
  have hall : w * (run v p (.at o)).2.ticks ≤ v.unread o + w := by
    cases hrun : run v p (.at o) with
    | mk result c' =>
      cases result with
      | ok a =>
        have hpaid := hp.returned hrun
        simp only [Cursor.at, Nat.mul_zero, Nat.zero_add] at hpaid
        change w * c'.ticks ≤ _
        omega
      | error e =>
        have hpaid := hp.failed hrun
        simp only [Cursor.at, Nat.mul_zero, Nat.zero_add] at hpaid
        exact hpaid
  rw [← Nat.add_div_right _ hw, Nat.le_div_iff_mul_le hw, Nat.mul_comm]
  exact hall

end Pays

/-- Work is never undone. -/
theorem ticks_le_run (v : View) (p : Program ε α) (c : Cursor) :
    c.ticks ≤ (run v p c).2.ticks := by
  induction p generalizing c with
  | done a => exact Nat.le_refl _
  | fail e => exact Nat.le_refl _
  | guard n e next ih =>
    rw [run]
    split
    · exact ih c
    · exact Nat.le_refl _
  | copy n next ih => exact ih _ ⟨c.offset + n, c.copies ++ [(c.offset, n)], c.ticks⟩
  | tick next ih => exact Nat.le_trans (Nat.le_succ _) (ih { c with ticks := c.ticks + 1 })

/-- The two programs are alike, except that the first fails with `limit` where the second
starts another unit of work. -/
inductive Unrolls (limit : ε) : Program ε α → Program ε α → Prop
  | done (a : α) : Unrolls limit (done a) (done a)
  | fail {e : ε} (he : e ≠ limit) : Unrolls limit (fail e) (fail e)
  | guard {n : Nat} {e : ε} {p q : Program ε α} (he : e ≠ limit) (h : Unrolls limit p q) :
    Unrolls limit (guard n e p) (guard n e q)
  | copy {n : Nat} {p q : List UInt8 → Program ε α} (h : ∀ bs, Unrolls limit (p bs) (q bs)) :
    Unrolls limit (copy n p) (copy n q)
  | tick {p q : Program ε α} (h : Unrolls limit p q) : Unrolls limit (tick p) (tick q)
  | stop (q : Program ε α) : Unrolls limit (Program.fail limit) (Program.tick q)

namespace Unrolls

variable {limit : ε}

/-- Code that does not name the limit has nothing to unroll. -/
theorem of_raises {p : Program ε α} (h : Raises (· ≠ limit) p) : Unrolls limit p p := by
  induction p with
  | done a => exact .done a
  | fail e => exact .fail h
  | guard n e next ih => exact .guard h.1 (ih h.2)
  | copy n next ih => exact .copy (fun bs ↦ ih bs (h bs))
  | tick next ih => exact .tick (ih h)

/-- One program behind another is unrolled part by part. -/
theorem bind {p q : Program ε α} {f g : α → Program ε β} (h : Unrolls limit p q)
    (hf : ∀ a, Unrolls limit (f a) (g a)) : Unrolls limit (p >>= f) (q >>= g) := by
  change Unrolls limit (Program.bind p f) (Program.bind q g)
  induction h with
  | done a => exact hf a
  | fail he => exact .fail he
  | guard he _ ih => exact .guard he ih
  | copy _ ih => exact .copy ih
  | tick _ ih => exact .tick ih
  | stop q => exact .stop _

/-- What is made of the result does not matter. -/
theorem map {p q : Program ε α} (h : Unrolls limit p q) (f : α → β) :
    Unrolls limit (p >>= fun a ↦ Pure.pure (f a)) (q >>= fun a ↦ Pure.pure (f a)) :=
  h.bind (fun a ↦ .done (f a))

/-- A loop is unrolled where its body is. -/
theorem forCount {σ : Type} {body body' : σ → Program ε σ}
    (hb : ∀ s, Unrolls limit (body s) (body' s)) (n : Nat) (s : σ) :
    Unrolls limit (Program.forCount n body s) (Program.forCount n body' s) := by
  induction n generalizing s with
  | zero => exact .done s
  | succ n ih => exact (hb s).bind ih

/-- The runs are the same, or the first meets the limit and the second works more. -/
theorem run_cases {p q : Program ε α} (h : Unrolls limit p q) (v : View) (c : Cursor) :
    (run v p c = run v q c ∧ (run v p c).1 ≠ .error limit) ∨
      ((run v p c).1 = .error limit ∧ (run v p c).2.ticks < (run v q c).2.ticks) := by
  induction h generalizing c with
  | done a => exact .inl ⟨rfl, fun h ↦ by cases h⟩
  | fail he => exact .inl ⟨rfl, fun h ↦ he (Except.error.inj h)⟩
  | guard he _ ih =>
    rw [run, run]
    split
    · exact ih c
    · exact .inl ⟨rfl, fun h ↦ he (Except.error.inj h)⟩
  | copy _ ih => exact ih _ _
  | tick _ ih => exact ih _
  | stop q =>
    refine .inr ⟨rfl, ?_⟩
    have hmore := ticks_le_run v q { c with ticks := c.ticks + 1 }
    exact Nat.lt_of_lt_of_le (Nat.lt_succ_self _) hmore

end Unrolls

/-- A family of programs, each with one more level of a recursion unrolled. -/
def Unrolling (limit : ε) (p : Nat → Program ε α) : Prop := ∀ n, Unrolls limit (p n) (p (n + 1))

namespace Unrolling

variable {limit : ε} {p : Nat → Program ε α} {v : View} {c : Cursor} {n : Nat}

/-- Levels beyond those that a run needs change nothing. -/
theorem run_eq (h : Unrolling limit p) (hn : (run v (p n) c).1 ≠ .error limit) {m : Nat}
    (hm : n ≤ m) : run v (p m) c = run v (p n) c := by
  induction hm with
  | refl => rfl
  | @step m _ ih =>
    rcases (h m).run_cases v c with ⟨heq, -⟩ | ⟨hlimit, -⟩
    · rw [← heq, ih]
    · rw [ih] at hlimit
      exact absurd hlimit hn

private theorem ticks_le_succ (h : Unrolling limit p) (n : Nat) :
    (run v (p n) c).2.ticks ≤ (run v (p (n + 1)) c).2.ticks := by
  rcases (h n).run_cases v c with ⟨heq, -⟩ | ⟨-, hlt⟩
  · exact Nat.le_of_eq (congrArg (·.2.ticks) heq)
  · exact Nat.le_of_lt hlt

private theorem lt_ticks_succ (h : Unrolling limit p) (hn : (run v (p n) c).1 = .error limit) :
    c.ticks + n < (run v (p (n + 1)) c).2.ticks := by
  induction n with
  | zero =>
    rcases (h 0).run_cases v c with ⟨-, hne⟩ | ⟨-, hlt⟩
    · exact absurd hn hne
    · exact Nat.lt_of_le_of_lt (ticks_le_run v (p 0) c) hlt
  | succ n ih =>
    -- a run that needs no level beyond `n` would be the same with one more
    have hbefore : (run v (p n) c).1 = .error limit := by
      by_contra hne
      rw [h.run_eq hne (Nat.le_succ n)] at hn
      exact hne hn
    have hdeep := ih hbefore
    rcases (h (n + 1)).run_cases v c with ⟨-, hne⟩ | ⟨-, hlt⟩
    · exact absurd hn hne
    · omega

/-- A run that needs a level beyond `n` does more than `n` units of work once it has it. -/
theorem lt_ticks (h : Unrolling limit p) (hn : (run v (p n) c).1 = .error limit) {m : Nat}
    (hm : n < m) : c.ticks + n < (run v (p m) c).2.ticks := by
  induction hm with
  | refl => exact h.lt_ticks_succ hn
  | @step m _ ih => exact Nat.lt_of_lt_of_le ih (h.ticks_le_succ m)

end Unrolling

end Program
end CassandraDriver.Lib
