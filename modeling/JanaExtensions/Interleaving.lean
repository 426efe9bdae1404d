import Mathlib.Logic.Function.Basic

/-! Processes that share a state and take turns in any order. An invariant of the shared
state and a condition for each process, which the steps of the other processes keep, hold
along every schedule. -/

namespace Interleaving

variable {ι σ π ε : Type*} [DecidableEq ι]

/-- The shared state, and for each process how far it has come. -/
structure State (ι σ π : Type*) where
  shared : σ
  point : ι → π

variable (step : ε → ι → σ → π → Option (σ × π))

/-- A turn of one process, which has no effect if the process is blocked or has ended. The
environment of the turn is what the process sees besides the shared state. -/
def turn (s : State ι σ π) (t : ι × ε) : State ι σ π :=
  match step t.2 t.1 s.shared (s.point t.1) with
  | some (shared, point) => ⟨shared, Function.update s.point t.1 point⟩
  | none => s

def run (s : State ι σ π) (schedule : List (ι × ε)) : State ι σ π :=
  schedule.foldl (turn step) s

variable {step}

theorem turn_of_step {s : State ι σ π} {i : ι} {e : ε} {shared : σ} {point : π}
    (h : step e i s.shared (s.point i) = some (shared, point)) :
    turn step s (i, e) = ⟨shared, Function.update s.point i point⟩ := by
  rw [turn, h]

theorem turn_of_blocked {s : State ι σ π} {i : ι} {e : ε}
    (h : step e i s.shared (s.point i) = none) : turn step s (i, e) = s := by
  rw [turn, h]

theorem turn_point_of_ne {s : State ι σ π} {t : ι × ε} {j : ι} (h : j ≠ t.1) :
    (turn step s t).point j = s.point j := by
  rw [turn]
  split
  · exact Function.update_of_ne h _ _
  · rfl

theorem run_cons (s : State ι σ π) (t : ι × ε) (schedule : List (ι × ε)) :
    run step s (t :: schedule) = run step (turn step s t) schedule := rfl

theorem run_append (s : State ι σ π) (schedule more : List (ι × ε)) :
    run step s (schedule ++ more) = run step (run step s schedule) more :=
  List.foldl_append

/-- What holds at the end of a run and not at its start begins to hold with one of the turns. -/
theorem exists_turn_of_run {Q : State ι σ π → Prop} {s : State ι σ π} {schedule : List (ι × ε)}
    (hstart : ¬ Q s) (hend : Q (run step s schedule)) :
    ∃ before t after, schedule = before ++ t :: after ∧ ¬ Q (run step s before) ∧
      Q (turn step (run step s before) t) := by
  induction schedule generalizing s with
  | nil => exact absurd hend hstart
  | cons t schedule ih =>
    by_cases hturn : Q (turn step s t)
    · exact ⟨[], t, schedule, rfl, hstart, hturn⟩
    · obtain ⟨before, u, after, rfl, hbefore, hafter⟩ := ih hturn hend
      exact ⟨t :: before, u, after, rfl, hbefore, hafter⟩

theorem run_point_of_ne {s : State ι σ π} {schedule : List (ι × ε)} {j : ι}
    (h : ∀ t ∈ schedule, j ≠ t.1) : (run step s schedule).point j = s.point j := by
  induction schedule generalizing s with
  | nil => rfl
  | cons t schedule ih =>
    rw [run_cons, ih fun u hu => h u (List.mem_cons_of_mem t hu),
      turn_point_of_ne (h t List.mem_cons_self)]

/-- An invariant of the shared state with a condition for each process. -/
structure Invariant (G : σ → Prop) (L : σ → ι → π → Prop) (s : State ι σ π) : Prop where
  shared : G s.shared
  each : ∀ i, L s.shared i (s.point i)

variable {G : σ → Prop} {L : σ → ι → π → Prop}

/-- The step rule: the process that moves keeps the invariant and its own condition, and
does not interfere with the conditions of the others. -/
theorem Invariant.turn
    (hown : ∀ e i s p s' p', G s → L s i p → step e i s p = some (s', p') → G s' ∧ L s' i p')
    (hothers : ∀ e i s p s' p', G s → L s i p → step e i s p = some (s', p') →
      ∀ j ≠ i, ∀ q, L s j q → L s' j q)
    {s : State ι σ π} (hs : Invariant G L s) (t : ι × ε) :
    Invariant G L (turn step s t) := by
  cases hstep : step t.2 t.1 s.shared (s.point t.1) with
  | none => rwa [turn_of_blocked hstep]
  | some r =>
    obtain ⟨shared, point⟩ := r
    rw [turn_of_step hstep]
    obtain ⟨hshared, hpoint⟩ := hown _ _ _ _ _ _ hs.shared (hs.each t.1) hstep
    refine ⟨hshared, fun j => ?_⟩
    by_cases hj : j = t.1
    · subst hj
      simpa using hpoint
    · simp only [Function.update_of_ne hj]
      exact hothers _ _ _ _ _ _ hs.shared (hs.each t.1) hstep j hj _ (hs.each j)

theorem Invariant.run
    (hown : ∀ e i s p s' p', G s → L s i p → step e i s p = some (s', p') → G s' ∧ L s' i p')
    (hothers : ∀ e i s p s' p', G s → L s i p → step e i s p = some (s', p') →
      ∀ j ≠ i, ∀ q, L s j q → L s' j q)
    {s : State ι σ π} (hs : Invariant G L s) (schedule : List (ι × ε)) :
    Invariant G L (run step s schedule) := by
  induction schedule generalizing s with
  | nil => exact hs
  | cons t schedule ih => exact ih (hs.turn hown hothers t)

theorem run_shared
    (hstep : ∀ e i s p s' p', G s → step e i s p = some (s', p') → G s')
    {s : State ι σ π} (hs : G s.shared) (schedule : List (ι × ε)) :
    G (run step s schedule).shared := by
  have hrun : Invariant G (fun _ _ _ => True) (run step s schedule) := by
    refine Invariant.run ?_ ?_ ⟨hs, fun _ => trivial⟩ schedule
    · exact fun e i s p s' p' hs _ h => ⟨hstep e i s p s' p' hs h, trivial⟩
    · exact fun _ _ _ _ _ _ _ _ _ _ _ _ _ => trivial
  exact hrun.shared

variable (step) in
/-- A process that is never blocked, and comes nearer to its end with each turn, ends when
it is given enough turns of its own. -/
theorem exists_run_ended (remaining : π → Nat) {L : π → Prop} (e : ε) (i : ι)
    (hmoves : ∀ s p, L p → remaining p ≠ 0 → ∃ s' p', step e i s p = some (s', p') ∧ L p' ∧
      remaining p' < remaining p)
    {s : State ι σ π} (hs : L (s.point i)) :
    ∃ schedule : List (ι × ε), (∀ t ∈ schedule, t.1 = i) ∧
      remaining ((run step s schedule).point i) = 0 := by
  induction hn : remaining (s.point i) using Nat.strongRecOn generalizing s with
  | ind n ih =>
    by_cases hzero : n = 0
    · exact ⟨[], by simp, hn.trans hzero⟩
    · obtain ⟨shared, point, hstep, hL, hlt⟩ := hmoves s.shared _ hs (hn ▸ hzero)
      have hpoint : (turn step s (i, e)).point i = point := by
        rw [turn_of_step hstep]
        exact Function.update_self _ _ _
      obtain ⟨schedule, howned, hend⟩ := ih _ (hn ▸ hpoint ▸ hlt) (s := turn step s (i, e))
        (hpoint ▸ hL) rfl
      refine ⟨(i, e) :: schedule, ?_, hend⟩
      intro t ht
      rcases List.mem_cons.mp ht with rfl | ht
      · rfl
      · exact howned t ht

end Interleaving
