import CassandraDriver.Detail.MaintainPass
import CassandraDriver.Detail.PoolOwnership

/-!
# A pass as a run of the pool

Library `Detail`. Connects the pass of `Maintain` as a function with the steps of the pool: in a
run in which only `Maintain` takes steps and the connection that it pings may break, the pool
gets from any state at rest to the vector that the function computes.
-/

namespace CassandraDriver.Detail
open CassandraDriver.Lib

/-- The steps of a pass: those of `Maintain`, and the end of a connection that is pinged. -/
def PoolEvent.ofMaintain : PoolEvent → Bool
  | .maintain => true
  | .acquireImmediate => true
  | .scan => true
  | .idleTest => true
  | .close _ => true
  | .pingTakeStream => true
  | .pingGiveStream => true
  | .pinged _ => true
  | .release => true
  | .maintainEnds => true
  | .markBroken _ => true
  | _ => false

/-- Connections with their states. -/
def pooled (conns : Nat → PoolConnection) (vector : List Nat) : List Pooled :=
  vector.map fun c ↦ ⟨c, conns c⟩

/-- The pool in the middle of a pass. -/
def Pool.passing (p : Pool) (conns : Nat → PoolConnection) (vector : List Nat)
    (locked : LockedSection) (m : MaintainPhase) : Pool :=
  { p with conns := conns, vector := vector, locked := locked, maintain := m }

/-- The states that `Maintain` alone can lead to. -/
def Pool.Passes (p q : Pool) : Prop := Reaches Pool.step (fun _ e ↦ e.ofMaintain = true) p q

section Vector

variable {conns : Nat → PoolConnection} {vector : List Nat} {c : Nat}

/-- A connection outside the vector changes. -/
theorem pooled_update (h : c ∉ vector) (s : PoolConnection) :
    pooled (Function.update conns c s) vector = pooled conns vector := by
  apply List.map_congr_left
  intro d hd
  have hne : d ≠ c := by
    rintro rfl
    exact h hd
  rw [Function.update_of_ne hne]

@[simp]
private theorem pooled_append (left right : List Nat) :
    pooled conns (left ++ right) = pooled conns left ++ pooled conns right :=
  List.map_append

@[simp]
private theorem pooled_cons (c : Nat) (rest : List Nat) :
    pooled conns (c :: rest) = ⟨c, conns c⟩ :: pooled conns rest := rfl

end Vector

namespace Pool.Passes

variable {p : Pool} {conns : Nat → PoolConnection} {vector : List Nat}

private theorem next {q r : Pool} (h : p.Passes q) (e : PoolEvent) (he : e.ofMaintain = true)
    (hstep : q.step e = some r) : p.Passes r := Reaches.step h he hstep

/-- What `AcquireImmediate` leaves, as the pool has it: the connection that it returns is out of
the vector and will be tested, or there is none and the pass ends. -/
def AfterScan (p : Pool) (found : Option Pooled) (left : List Pooled) (n drops : Nat) : Prop :=
  ∃ conns vector, pooled conns vector = left ∧
    (found = none ∧ p.Passes (p.passing conns vector .free .sleeping) ∨
      ∃ c, found = some ⟨c, conns c⟩ ∧ (c :: vector).Nodup ∧
        (∀ d ∈ c :: vector, d < p.created) ∧
        p.Passes (p.passing conns vector .free (.testing c n drops)))

section Scan

variable {skipped rest : List Nat} {c n drops : Nat}

private theorem drop
    (h : p.Passes (p.passing conns (skipped ++ c :: rest) (.scanning skipped.length)
      (.looking n drops)))
    (hdrop : (conns c).expired = true ∧ (conns c).isIdle = true ∨
      (conns c).expired = false ∧ (conns c).broken = true) :
    p.Passes (p.passing (Function.update conns c { conns c with destroyed := true })
      (skipped ++ rest) (.scanning skipped.length) (.looking n drops)) := by
  apply h.next .scan rfl
  have hdropped : (p.passing conns (skipped ++ c :: rest) (.scanning skipped.length)
      (.looking n drops)).dropAt skipped.length c =
      p.passing (Function.update conns c { conns c with destroyed := true }) (skipped ++ rest)
        (.scanning skipped.length) (.looking n drops) := by
    simp only [Pool.dropAt, Pool.destroy, Pool.setConn, Pool.passing, eraseIdx_at]
  rw [← hdropped]
  rcases hdrop with ⟨hexpired, hidle⟩ | ⟨hexpired, hbroken⟩
  · simp [Pool.step, Pool.passing, Pool.scan, hexpired, hidle]
  · simp [Pool.step, Pool.passing, Pool.scan, hexpired, hbroken]

/-- The loop of `AcquireImmediate`, past the connections that it has skipped. -/
theorem scan
    (h : p.Passes (p.passing conns (skipped ++ rest) (.scanning skipped.length)
      (.looking n drops)))
    (hnodup : (skipped ++ rest).Nodup) (hcreated : ∀ d ∈ skipped ++ rest, d < p.created) :
    AfterScan p (acquireImmediate (pooled conns rest)).found
      (pooled conns skipped ++ (acquireImmediate (pooled conns rest)).left) n drops := by
  induction rest generalizing conns skipped with
  | nil =>
    refine ⟨conns, skipped, (List.append_nil _).symm, .inl ⟨rfl, ?_⟩⟩
    apply h.next .scan rfl
    simp [Pool.step, Pool.passing, Pool.scan]
  | cons c rest ih =>
    have hperm : (skipped ++ c :: rest).Perm (c :: (skipped ++ rest)) := List.perm_middle
    have hnodup' := hperm.nodup_iff.mp hnodup
    have hcreated' : ∀ d ∈ c :: (skipped ++ rest), d < p.created := fun d hd ↦
      hcreated d (hperm.mem_iff.mpr hd)
    have hout := List.nodup_cons.mp hnodup'
    rw [pooled_cons, acquireImmediate]
    split
    · next hexpired =>
      change (conns c).expired = true at hexpired
      split
      · next hidle =>
        have hrest := ih (h.drop (.inl ⟨hexpired, hidle⟩)) hout.2
          (fun d hd ↦ hcreated' d (List.mem_cons_of_mem _ hd))
        rw [pooled_update (fun hc ↦ hout.1 (List.mem_append_right _ hc)),
          pooled_update (fun hc ↦ hout.1 (List.mem_append_left _ hc))] at hrest
        exact hrest
      · next hidle =>
        have hskip : p.Passes (p.passing conns (skipped ++ [c] ++ rest)
            (.scanning (skipped ++ [c]).length) (.looking n drops)) := by
          apply h.next .scan rfl
          change ¬ (conns c).isIdle = true at hidle
          simp [Pool.step, Pool.passing, Pool.scan, hexpired, hidle]
        have hrest := ih hskip (by simpa using hnodup) (by simpa using hcreated)
        rw [pooled_append, List.append_assoc] at hrest
        exact hrest
    · next hexpired =>
      change ¬ (conns c).expired = true at hexpired
      split
      · next hbroken =>
        have hrest := ih (h.drop (.inr ⟨Bool.not_eq_true _ ▸ hexpired, hbroken⟩)) hout.2
          (fun d hd ↦ hcreated' d (List.mem_cons_of_mem _ hd))
        rw [pooled_update (fun hc ↦ hout.1 (List.mem_append_right _ hc)),
          pooled_update (fun hc ↦ hout.1 (List.mem_append_left _ hc))] at hrest
        exact hrest
      · next hbroken =>
        change ¬ (conns c).broken = true at hbroken
        refine ⟨conns, skipped ++ rest, pooled_append _ _, .inr ⟨c, rfl, hnodup', hcreated', ?_⟩⟩
        apply h.next .scan rfl
        simp [Pool.step, Pool.passing, Pool.scan, hexpired, hbroken, eraseIdx_at]

end Scan

section Round

variable {c n drops : Nat}

private theorem ping (h : p.Passes (p.passing conns vector .free (.testing c n drops)))
    (hc : c < p.created)
    (hpings : ¬ (n > p.settings.minSize ∧ drops > 0 ∧ (conns c).isIdle = true))
    (breaks aborts : Bool) :
    p.Passes (p.passing
      (Function.update conns c (Pooled.brokenIf ⟨c, conns c⟩ breaks).state) vector .free
      (.releasing c .release aborts n drops)) := by
  have hping : p.Passes (p.passing conns vector .free (.pinging c false n drops)) :=
    h.next .idleTest rfl (if_neg hpings)
  have htaken : p.Passes (p.passing
      (Function.update conns c { conns c with usedStreams := (conns c).usedStreams + 1 }) vector
      .free (.pinging c true n drops)) := hping.next .pingTakeStream rfl rfl
  have hbroken : p.Passes (p.passing (Function.update conns c { conns c with
        usedStreams := (conns c).usedStreams + 1
        broken := (conns c).broken || breaks }) vector .free (.pinging c true n drops)) := by
    cases breaks with
    | true =>
      apply htaken.next (.markBroken c) rfl
      simp [Pool.step, Pool.passing, Pool.markBroken, Pool.setConn, hc]
    | false =>
      rw [Bool.or_false]
      exact htaken
  have hgiven : p.Passes (p.passing
      (Function.update conns c (Pooled.brokenIf ⟨c, conns c⟩ breaks).state) vector .free
      (.pinging c false n drops)) := by
    apply hbroken.next .pingGiveStream rfl
    simp [Pool.step, Pool.passing, Pool.useStream, Pool.setConn, Pooled.brokenIf]
  exact hgiven.next (.pinged aborts) rfl rfl

private theorem release {aborts : Bool}
    (h : p.Passes (p.passing conns vector .free (.releasing c .release aborts n drops)))
    (hc : c ∉ vector) :
    ∃ conns', p.Passes (p.passing conns'
        (vector ++ if (conns c).isDoomed then [] else [c]) .free
        (MaintainPhase.next aborts n drops)) ∧
      pooled conns' (vector ++ if (conns c).isDoomed then [] else [c]) =
        pooled conns vector ++ if (conns c).isDoomed then [] else [⟨c, conns c⟩] := by
  cases hdoomed : (conns c).isDoomed with
  | true =>
    refine ⟨Function.update conns c { conns c with destroyed := true }, ?_, ?_⟩
    · apply h.next .release rfl
      simp [Pool.step, Pool.passing, Pool.put, Pool.destroy, Pool.setConn, hdoomed]
    · simp [pooled_update hc]
  | false =>
    refine ⟨conns, ?_, by simp [pooled]⟩
    have hpush : p.Passes (p.passing conns vector .free (.releasing c .push aborts n drops)) := by
      apply h.next .release rfl
      simp [Pool.step, Pool.passing, Pool.put, hdoomed]
    have hback : p.Passes
        (p.passing conns vector .free (.releasing c .pushBack aborts n drops)) := by
      apply hpush.next .release rfl
      simp [Pool.step, Pool.passing, Pool.put, hdoomed]
    apply hback.next .release rfl
    simp [Pool.step, Pool.passing, Pool.put]

end Round

private theorem nodup_put {c : Nat} (h : c ∉ vector ∧ vector.Nodup) {doomed : Bool} :
    (vector ++ if doomed then [] else [c]).Nodup := by
  cases doomed with
  | true =>
    rw [if_pos rfl, List.append_nil]
    exact h.2
  | false => exact List.nodup_append_comm.mp (List.nodup_cons.mpr h)

private theorem forall_put {c : Nat} {P : Nat → Prop} (h : ∀ d ∈ c :: vector, P d) {doomed : Bool} :
    ∀ d ∈ vector ++ if doomed then [] else [c], P d := by
  intro d hd
  rcases List.mem_append.mp hd with hd | hd
  · exact h d (List.mem_cons_of_mem _ hd)
  · cases doomed with
    | true => cases hd
    | false =>
      rw [List.mem_singleton.mp hd]
      exact h c List.mem_cons_self

/-- The loop of `Maintain`. -/
theorem loop (drops : Nat) (pings : Nat → Ping) {n : Nat} {s : Pass}
    (h : p.Passes (p.passing conns vector .free (.looking n drops))) (hnodup : vector.Nodup)
    (hcreated : ∀ d ∈ vector, d < p.created) (hvector : pooled conns vector = s.vector) :
    ∃ conns' vector', p.Passes (p.passing conns' vector' .free .sleeping) ∧
      pooled conns' vector' = (maintainLoop p.settings.minSize n drops pings s).vector := by
  induction n generalizing drops pings s conns vector with
  | zero => exact ⟨conns, vector, h.next .maintainEnds rfl rfl, hvector⟩
  | succ n ih =>
    have hscanning : p.Passes (p.passing conns ([] ++ vector) (.scanning ([] : List Nat).length)
        (.looking (n + 1) drops)) := h.next .acquireImmediate rfl rfl
    obtain ⟨conns₁, left, hleft, hfound⟩ := hscanning.scan hnodup hcreated
    rw [hvector] at hleft hfound
    change pooled conns₁ left = (acquireImmediate s.vector).left at hleft
    rcases hfound with ⟨hfound, hends⟩ | ⟨c, hfound, hout, hcreated₁, htesting⟩
    · refine ⟨conns₁, left, hends, ?_⟩
      simp only [maintainLoop, hfound]
      exact hleft
    · rw [List.nodup_cons] at hout
      simp only [maintainLoop, hfound]
      by_cases hcloses : n + 1 > p.settings.minSize ∧ drops > 0 ∧
          (Pooled.mk c (conns₁ c)).isIdle = true
      · rw [if_pos hcloses]
        have hclosing : p.Passes
            (p.passing conns₁ left .free (.closing c (n + 1) (drops - 1))) :=
          htesting.next .idleTest rfl (if_pos hcloses)
        have hclosed : p.Passes (p.passing
            (Function.update conns₁ c { conns₁ c with destroyed := true }) left .free
            (.looking n (drops - 1))) := hclosing.next (.close false) rfl rfl
        apply ih (drops - 1) _ hclosed hout.2
        · exact fun d hd ↦ hcreated₁ d (List.mem_cons_of_mem _ hd)
        · rw [pooled_update hout.1]
          exact hleft
      · rw [if_neg hcloses]
        have hreleasing := htesting.ping (hcreated₁ c List.mem_cons_self) hcloses
          (pings 0).breaks (pingEscapes s.cache (pings 0))
        obtain ⟨conns₂, hnext, hpooled⟩ := hreleasing.release hout.1
        simp only [Function.update_self] at hnext hpooled
        rw [pooled_update hout.1, hleft] at hpooled
        have hafter := hpooled.trans
          (s.acquired.vector_pingAndRelease ⟨c, conns₁ c⟩ (pings 0)).symm
        cases hescapes : pingEscapes s.cache (pings 0) with
        | true =>
          rw [hescapes] at hnext
          exact ⟨conns₂, _, hnext, hafter⟩
        | false =>
          rw [hescapes] at hnext
          apply ih drops _ hnext _ _ hafter
          · exact nodup_put hout
          · exact forall_put hcreated₁

end Pool.Passes

/-- From every state that a pool reaches in its life and in which nothing holds its lock and no
pass is going on, `Maintain` alone can make the pass that the function computes. -/
theorem maintain_passes {settings : PoolSettings} {p₀ : Pool} {l : PoolLife} {deletions : List Nat}
    (hinit : Pool.init settings = .ok p₀)
    (hreach : Reaches (recording PoolLife.step PoolLife.deletes) (fun _ _ ↦ True)
      (⟨p₀, .alive⟩, []) (l, deletions))
    (hready : l.pool.Ready) (hlocked : l.pool.locked = .free)
    (hmaintain : l.pool.maintain = .sleeping)
    (pings : Nat → Ping) (cache : Statement → Option StatementId) :
    ∃ conns vector, l.pool.Passes { l.pool with conns := conns, vector := vector } ∧
      pooled conns vector = (maintain l.pool.settings.minSize pings
        (pooled l.pool.conns l.pool.vector) cache).vector := by
  obtain ⟨place, hplaced⟩ := PoolLife.exists_placed hinit hreach
  have hcreated : ∀ c ∈ l.pool.vector, c < l.pool.created := by
    intro c hc
    apply Nat.lt_of_not_le
    intro hunborn
    have hboth := ((hplaced.vector c).mpr hc).symm.trans ((hplaced.unborn c).mpr hunborn)
    cases hboth
  have hstart : l.pool.Passes (l.pool.passing l.pool.conns l.pool.vector .free
      (.looking l.pool.vector.length kIdleDropLimit)) := by
    have hhere : l.pool.Passes l.pool := .init
    apply hhere.next .maintain rfl
    simp [Pool.step, hmaintain, hready, hlocked, Pool.passing, kIdleDropLimit]
  obtain ⟨conns, vector, hends, hvector⟩ := hstart.loop kIdleDropLimit pings
    (s := ⟨pooled l.pool.conns l.pool.vector, cache, []⟩) hplaced.nodup hcreated rfl
  refine ⟨conns, vector, ?_, ?_⟩
  · rw [Pool.passing, ← hlocked, ← hmaintain] at hends
    exact hends
  · rw [hvector, maintain, pooled, List.length_map]

end CassandraDriver.Detail
