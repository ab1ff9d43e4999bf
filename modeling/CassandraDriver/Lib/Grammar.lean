import CassandraDriver.Lib.ReadBounds

/-!
# Grammars of reader programs

Library `Lib`. A grammar says which bytes stand for which value. A program recognizes a grammar
when it reads a segment of a buffer as a value, and ends right behind it, exactly if the grammar
says that the segment stands for that value: what it accepts inside its buffer is well formed,
and everything well formed is accepted. The size of the buffers is bounded, for programs that
know it.
-/

namespace CassandraDriver.Lib

/-- Which bytes stand for which value. -/
abbrev Grammar (α : Type) := List UInt8 → α → Prop

namespace Grammar

variable {α β : Type}

/-- No bytes, for one value. -/
def nothing (a : α) : Grammar α := fun bs x ↦ bs = [] ∧ x = a

/-- One part behind another, which the value of the first selects. -/
def andThen (G : Grammar α) (H : α → Grammar β) : Grammar β :=
  fun bs b ↦ ∃ front back, bs = front ++ back ∧ ∃ a, G front a ∧ H a back b

/-- Two parts, each for itself. -/
def pair (G : Grammar α) (H : Grammar β) : Grammar (α × β) :=
  fun bs p ↦ ∃ front back, bs = front ++ back ∧ G front p.1 ∧ H back p.2

/-- Items one behind another. -/
inductive Each (G : Grammar α) : Grammar (List α)
  | nil : Each G [] []
  | cons {bs cs : List UInt8} {x : α} {xs : List α} (h : G bs x) (hs : Each G cs xs) :
      Each G (bs ++ cs) (x :: xs)

/-- One layout for each value of a kind. -/
def ofLayout (P : α → Prop) (enc : α → List UInt8) : Grammar α := fun bs x ↦ P x ∧ bs = enc x

/-- Layouts one behind the other are a layout. -/
theorem pair_ofLayout {P : α → Prop} {Q : β → Prop} {enc : α → List UInt8} {enc' : β → List UInt8} :
    (ofLayout P enc).pair (ofLayout Q enc') =
      ofLayout (fun x ↦ P x.1 ∧ Q x.2) (fun x ↦ enc x.1 ++ enc' x.2) := by
  funext bs x
  refine propext ⟨?_, ?_⟩
  · rintro ⟨front, back, rfl, ⟨hp, rfl⟩, hq, rfl⟩
    exact ⟨⟨hp, hq⟩, rfl⟩
  · rintro ⟨⟨hp, hq⟩, rfl⟩
    exact ⟨_, _, rfl, ⟨hp, rfl⟩, hq, rfl⟩

/-- Items that each have one layout have one layout together. -/
theorem each_ofLayout {P : α → Prop} {enc : α → List UInt8} {bs : List UInt8} {xs : List α} :
    Each (ofLayout P enc) bs xs ↔ (∀ x ∈ xs, P x) ∧ bs = xs.flatMap enc := by
  constructor
  · intro h
    induction h with
    | nil => exact ⟨by simp, rfl⟩
    | cons h hs ih =>
      obtain ⟨hp, rfl⟩ := h
      obtain ⟨hps, rfl⟩ := ih
      exact ⟨List.forall_mem_cons.mpr ⟨hp, hps⟩, List.flatMap_cons.symm⟩
  · rintro ⟨hp, rfl⟩
    induction xs with
    | nil => exact .nil
    | cons x xs ih =>
      rw [List.forall_mem_cons] at hp
      rw [List.flatMap_cons]
      exact .cons ⟨hp.1, rfl⟩ (ih hp.2)

/-- What the grammar of the items grants, it grants to each. -/
theorem forall_of_each {G : Grammar α} {P : α → Prop} (hG : ∀ bs x, G bs x → P x)
    {bs : List UInt8} {xs : List α} (h : Each G bs xs) : ∀ x ∈ xs, P x := by
  induction h with
  | nil => simp
  | cons h hs ih => exact List.forall_mem_cons.mpr ⟨hG _ _ h, ih⟩

/-- Items that take some bytes each are no more than the bytes. -/
theorem length_le_of_each {G : Grammar α} (hG : ∀ bs x, G bs x → 0 < bs.length)
    {bs : List UInt8} {xs : List α} (h : Each G bs xs) : xs.length ≤ bs.length := by
  induction h with
  | nil => exact Nat.le_refl _
  | cons h hs ih =>
    have hpos := hG _ _ h
    rw [List.length_cons, List.length_append]
    omega

end Grammar

namespace Program
open Grammar

variable {ε α β : Type}

/-- In buffers up to a size the program reads a segment as a value exactly if the segment
stands for it. -/
def Recognizes (size : Nat) (p : Program ε α) (G : Grammar α) : Prop :=
  ∀ (v : View) (pre bs post : List UInt8), v.data = pre ++ bs ++ post → v.data.length ≤ size →
    ∀ a, finish v p pre.length = some (a, pre.length + bs.length) ↔ G bs a

/-- A run from position `o` returns `a` with the offset at `o'`, inside the buffer, and so are
the bytes it has copied. -/
def Accepts (v : View) (p : Program ε α) (o : Nat) (a : α) (o' : Nat) : Prop :=
  ∃ c, run v p (.at o) = (.ok a, c) ∧ c.offset = o' ∧ o' ≤ v.data.length

private theorem accepts_iff_finish {v : View} {p : Program ε α} {o o' : Nat} {a : α} :
    Accepts v p o a o' ↔ finish v p o = some (a, o') ∧ o' ≤ v.data.length := by
  have hfinish := finish_run v p (.at o)
  change finish v p o = _ at hfinish
  unfold Accepts
  rw [hfinish]
  split
  · next b c hrun => simp [hrun, and_assoc]
  · next e c hrun => simp [hrun]

namespace Recognizes

variable {size : Nat}

/-- What is accepted from a position on is a segment that stands for the value. -/
theorem accepts_segment {v : View} {p : Program ε α} {G : Grammar α} {o o' : Nat} {a : α}
    (hp : Recognizes size p G) (hs : v.data.length ≤ size) (ho : o ≤ v.data.length) :
    Accepts v p o a o' ↔
      ∃ bs post, v.data.drop o = bs ++ post ∧ o' = o + bs.length ∧ G bs a := by
  have hpre : (v.data.take o).length = o := List.length_take_of_le ho
  rw [accepts_iff_finish]
  constructor
  · rintro ⟨h, ho'⟩
    have hle := le_of_finish h
    have hlength : ((v.data.drop o).take (o' - o)).length = o' - o := by
      rw [List.length_take, List.length_drop]
      omega
    refine ⟨_, _, (List.take_append_drop (o' - o) _).symm, by omega, ?_⟩
    refine (hp v (v.data.take o) _ ((v.data.drop o).drop (o' - o)) ?_ hs a).mp ?_
    · rw [List.append_assoc, List.take_append_drop, List.take_append_drop]
    · rw [hpre, hlength, h]
      congr 2
      omega
  · rintro ⟨bs, post, hdrop, rfl, h⟩
    have hdata : v.data = v.data.take o ++ bs ++ post := by
      rw [List.append_assoc, ← hdrop, List.take_append_drop]
    have hfinish := (hp v _ bs post hdata hs a).mpr h
    have hlength := congrArg List.length hdrop
    rw [hpre] at hfinish
    rw [List.length_drop, List.length_append] at hlength
    exact ⟨hfinish, by omega⟩

/-- What a program decodes, wherever it stands, is in its grammar. -/
theorem of_decodes {p : Program ε α} {G : Grammar α} {bs : List UInt8} {a : α}
    (hp : Recognizes size p G) (hd : Decodes p bs a) (hs : bs.length ≤ size) : G bs a := by
  have hdata : bs = [] ++ bs ++ [] := by simp
  obtain ⟨c, hrun, hoffset⟩ := hd ⟨bs, fun _ ↦ 0⟩ [] [] (.at 0) hdata rfl
  refine (hp ⟨bs, fun _ ↦ 0⟩ [] bs [] hdata hs a).mp ?_
  exact (accepts_iff_finish.mp ⟨c, hrun, hoffset, by simp⟩).1

/-- A constant is read from no bytes. -/
theorem pure (a : α) : Recognizes size (Pure.pure a : Program ε α) (nothing a) := by
  intro v pre bs post _ _ x
  change some (a, pre.length) = some (x, pre.length + bs.length) ↔ bs = [] ∧ x = a
  rw [Option.some.injEq, Prod.mk.injEq, ← List.length_eq_zero_iff]
  constructor
  · rintro ⟨rfl, h⟩
    exact ⟨by omega, rfl⟩
  · rintro ⟨h, rfl⟩
    exact ⟨rfl, by omega⟩

/-- A failure is read from none at all. -/
theorem fail (e : ε) : Recognizes size (Program.fail e : Program ε α) (fun _ _ ↦ False) := by
  intro v pre bs post _ _ x
  constructor
  · intro h
    cases h
  · exact False.elim

/-- Ticks do not change what is read. -/
theorem tick {p : Program ε α} {G : Grammar α} (hp : Recognizes size p G) :
    Recognizes size (Program.tick p) G := hp

/-- A raw copy takes as many bytes as it is asked for. -/
theorem copy (n : Nat) : Recognizes size (Program.copy n Program.done : Program ε (List UInt8))
    (fun bs x ↦ bs.length = n ∧ x = bs) := by
  intro v pre bs post hv _ x
  change some (v.window pre.length n, pre.length + n) = some (x, pre.length + bs.length) ↔ _
  rw [Option.some.injEq, Prod.mk.injEq]
  constructor
  · rintro ⟨rfl, h⟩
    obtain rfl : n = bs.length := by omega
    exact ⟨rfl, v.window_segment pre bs post hv⟩
  · rintro ⟨rfl, rfl⟩
    exact ⟨v.window_segment pre x post hv, rfl⟩

/-- A size check is passed when the bytes to be read are as many. -/
theorem guard {p : Program ε α} {G : Grammar α} {n : Nat} {e : ε} (hp : Recognizes size p G)
    (hn : ∀ bs a, G bs a → n ≤ bs.length) : Recognizes size (Program.guard n e p) G := by
  intro v pre bs post hv hs a
  rw [finish, ← hp v pre bs post hv hs a]
  split
  · rfl
  · next hlt =>
    constructor
    · intro h
      cases h
    · intro h
      have hle := hn bs a ((hp v pre bs post hv hs a).mp h)
      rw [hv] at hlt
      simp only [List.length_append] at hlt
      omega

/-- One program behind another reads one grammar behind the other. -/
theorem bind {p : Program ε α} {f : α → Program ε β} {G : Grammar α} {H : α → Grammar β}
    (hp : Recognizes size p G) (hf : ∀ a, Recognizes size (f a) (H a)) :
    Recognizes size (p >>= f) (G.andThen H) := by
  intro v pre bs post hv hs b
  have hfront : ∀ front back a, bs = front ++ back →
      (finish v p pre.length = some (a, pre.length + front.length) ↔ G front a) :=
    fun front back a h ↦ hp v pre front (back ++ post) (by simpa [h] using hv) hs a
  have hback : ∀ front back a, bs = front ++ back →
      (finish v (f a) (pre.length + front.length) = some (b, pre.length + bs.length) ↔
        H a back b) := by
    rintro front back a rfl
    have h := hf a v (pre ++ front) back post (by simpa using hv) hs b
    rwa [List.length_append, Nat.add_assoc, ← @List.length_append _ front] at h
  rw [finish_bind, Option.bind_eq_some_iff]
  constructor
  · rintro ⟨⟨a, o⟩, h₁, h₂⟩
    have hlo := le_of_finish h₁
    have hhi := le_of_finish h₂
    -- where the first part ends cuts the segment in two
    obtain ⟨front, back, hcut, rfl⟩ :
        ∃ front back, bs = front ++ back ∧ o = pre.length + front.length := by
      refine ⟨_, _, (List.take_append_drop (o - pre.length) bs).symm, ?_⟩
      rw [List.length_take]
      omega
    exact ⟨front, back, hcut, a, (hfront front back a hcut).mp h₁,
      (hback front back a hcut).mp h₂⟩
  · rintro ⟨front, back, hcut, a, h₁, h₂⟩
    exact ⟨_, (hfront front back a hcut).mpr h₁, (hback front back a hcut).mpr h₂⟩

/-- The same grammar in other words. -/
theorem congr {p : Program ε α} {G H : Grammar α} (hp : Recognizes size p G)
    (h : ∀ bs a, bs.length ≤ size → (G bs a ↔ H bs a)) : Recognizes size p H := by
  intro v pre bs post hv hs a
  rw [hp v pre bs post hv hs a]
  refine h bs a (Nat.le_trans ?_ hs)
  rw [hv]
  simp only [List.length_append]
  omega

/-- Post-processing changes the values only. -/
theorem map {p : Program ε α} {G : Grammar α} (g : α → β) (hp : Recognizes size p G) :
    Recognizes size (p >>= fun a ↦ Pure.pure (g a)) (fun bs b ↦ ∃ a, G bs a ∧ b = g a) := by
  refine (hp.bind fun a ↦ .pure (g a)).congr fun bs b _ ↦ ?_
  constructor
  · rintro ⟨front, back, rfl, a, ha, rfl, rfl⟩
    exact ⟨a, by rwa [List.append_nil], rfl⟩
  · rintro ⟨a, ha, rfl⟩
    exact ⟨bs, [], (List.append_nil bs).symm, a, ha, rfl, rfl⟩

/-- Two reads whose values make one. -/
theorem pair {γ : Type} {p : Program ε α} {q : Program ε β} {G : Grammar α} {H : Grammar β}
    (g : α → β → γ) (hp : Recognizes size p G) (hq : Recognizes size q H) :
    Recognizes size (p >>= fun a ↦ q >>= fun b ↦ Pure.pure (g a b))
      (fun bs c ↦ ∃ x, G.pair H bs x ∧ c = g x.1 x.2) := by
  refine (hp.bind fun a ↦ hq.map (g a)).congr fun bs c _ ↦ ?_
  constructor
  · rintro ⟨front, back, rfl, a, ha, b, hb, rfl⟩
    exact ⟨(a, b), ⟨front, back, rfl, ha, hb⟩, rfl⟩
  · rintro ⟨x, ⟨front, back, rfl, ha, hb⟩, rfl⟩
    exact ⟨front, back, rfl, x.1, ha, x.2, hb, rfl⟩

/-- A counted loop takes its items one behind another and folds them into the accumulator. -/
theorem forCount {σ ι : Type} {body : σ → Program ε σ} {G : Grammar ι} {upd : σ → ι → σ}
    (hb : ∀ s, Recognizes size (body s) (fun bs t ↦ ∃ x, G bs x ∧ t = upd s x)) (n : Nat) (s : σ) :
    Recognizes size (Program.forCount n body s)
      (fun bs t ↦ ∃ xs : List ι, xs.length = n ∧ Each G bs xs ∧ t = xs.foldl upd s) := by
  induction n generalizing s with
  | zero =>
    refine (Recognizes.pure s).congr fun bs t _ ↦ ?_
    constructor
    · rintro ⟨rfl, rfl⟩
      exact ⟨[], rfl, .nil, rfl⟩
    · rintro ⟨xs, hlength, hxs, rfl⟩
      obtain rfl := List.length_eq_zero_iff.mp hlength
      cases hxs
      exact ⟨rfl, rfl⟩
  | succ n ih =>
    refine ((hb s).bind ih).congr fun bs t _ ↦ ?_
    constructor
    · rintro ⟨front, back, rfl, _, ⟨x, hx, rfl⟩, xs, rfl, hxs, rfl⟩
      exact ⟨x :: xs, rfl, .cons hx hxs, rfl⟩
    · rintro ⟨xs, hlength, hxs, rfl⟩
      cases hxs with
      | nil => cases hlength
      | cons h hs => exact ⟨_, _, rfl, _, ⟨_, h, rfl⟩, _, Nat.succ.inj hlength, hs, rfl⟩

/-- A loop that collects its items. -/
theorem collect {item : Program ε α} {G : Grammar α} (hi : Recognizes size item G) (n : Nat) :
    Recognizes size (Program.forCount n (fun xs ↦ item >>= fun x ↦ Pure.pure (xs ++ [x])) [])
      (fun bs xs ↦ xs.length = n ∧ Each G bs xs) := by
  have hfold : ∀ xs : List α, xs.foldl (fun xs x ↦ xs ++ [x]) [] = xs := fun xs ↦
    List.flatMap_eq_foldl.symm.trans (List.flatMap_singleton' xs)
  refine (forCount (fun xs ↦ hi.map (xs ++ [·])) n []).congr fun bs xs _ ↦ ?_
  constructor
  · rintro ⟨xs, rfl, hxs, rfl⟩
    rw [hfold]
    exact ⟨rfl, hxs⟩
  · rintro ⟨rfl, hxs⟩
    exact ⟨xs, rfl, hxs, (hfold xs).symm⟩

end Recognizes
end Program
end CassandraDriver.Lib
