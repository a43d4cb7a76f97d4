import SvgdCollect.Lib.Runs
import Mathlib.Data.List.GetD
import Mathlib.Order.WellFounded

/-!
# Infinite executions

What happens at last: if one kind of action is performed again and again as long as a goal
has not been reached, each of them comes closer to the goal in a well-founded order, and no
other action leads away from it, then the goal is reached.
-/

namespace SvgdCollect
namespace Lib

variable {State Action : Type} {step : State → Action → Option State}

/-- An infinite sequence of steps. -/
structure Execution (step : State → Action → Option State) where
  state : ℕ → State
  action : ℕ → Action
  step_eq : ∀ i, step (state i) (action i) = some (state (i + 1))

namespace Execution

variable (e : Execution step)

/-- The beginning of an execution is a run. -/
theorem run_take (i : ℕ) :
    run step (e.state 0) ((List.range i).map e.action) = some (e.state i) := by
  induction i with
  | zero => rfl
  | succ i ih =>
      rw [List.range_succ, List.map_append, run_append, ih, Option.bind_some, List.map_singleton,
        run_cons, e.step_eq i]
      rfl

/-- What survives every step holds from then on. -/
theorem always_of_step {P : State → Prop} (hStep : ∀ s a s', P s → step s a = some s' → P s')
    {i : ℕ} (hi : P (e.state i)) {j : ℕ} (hj : i ≤ j) : P (e.state j) := by
  induction j, hj using Nat.le_induction with
  | base => exact hi
  | succ j hj ih => exact hStep _ _ _ ih (e.step_eq j)

variable (own : Action → Prop) (Inv goal : State → Prop) {Rank : Type} [LT Rank]
  (rank : State → Rank)

/-- Up to the next own action nothing gets worse, and behind it the goal is closer. -/
theorem descends (hInv : ∀ s a s', Inv s → step s a = some s' → Inv s')
    (hOwn : ∀ s a s', Inv s → ¬ goal s → own a → step s a = some s' → rank s' < rank s)
    (hOther : ∀ s a s', Inv s → ¬ own a → step s a = some s' → rank s' = rank s)
    (d : ℕ) {i : ℕ} (hi : Inv (e.state i)) (hNext : own (e.action (i + d))) :
    ∃ j, i ≤ j ∧ (goal (e.state j) ∨ Inv (e.state j) ∧ rank (e.state j) < rank (e.state i)) := by
  induction d generalizing i with
  | zero =>
      by_cases hGoal : goal (e.state i)
      · exact ⟨i, le_rfl, Or.inl hGoal⟩
      · exact ⟨i + 1, Nat.le_succ i, Or.inr ⟨hInv _ _ _ hi (e.step_eq i),
          hOwn _ _ _ hi hGoal hNext (e.step_eq i)⟩⟩
  | succ d ih =>
      by_cases hGoal : goal (e.state i)
      · exact ⟨i, le_rfl, Or.inl hGoal⟩
      have hAfter := hInv _ _ _ hi (e.step_eq i)
      by_cases hFirst : own (e.action i)
      · exact ⟨i + 1, Nat.le_succ i, Or.inr ⟨hAfter, hOwn _ _ _ hi hGoal hFirst (e.step_eq i)⟩⟩
      · have hNext' : own (e.action (i + 1 + d)) := by
          rwa [Nat.add_right_comm]
        obtain ⟨j, hj, hEnd⟩ := ih hAfter hNext'
        rw [hOther _ _ _ hi hFirst (e.step_eq i)] at hEnd
        exact ⟨j, Nat.le_of_succ_le hj, hEnd⟩

/-- The rule for goals under fairness. -/
theorem eventually [WellFoundedLT Rank] (hInv : ∀ s a s', Inv s → step s a = some s' → Inv s')
    (hOwn : ∀ s a s', Inv s → ¬ goal s → own a → step s a = some s' → rank s' < rank s)
    (hOther : ∀ s a s', Inv s → ¬ own a → step s a = some s' → rank s' = rank s)
    (hFair : ∀ i, ¬ goal (e.state i) → ∃ j, i ≤ j ∧ own (e.action j))
    {i : ℕ} (hi : Inv (e.state i)) : ∃ j, i ≤ j ∧ goal (e.state j) := by
  generalize hRank : rank (e.state i) = r
  induction r using WellFoundedLT.induction generalizing i with
  | ind r ih =>
      by_cases hGoal : goal (e.state i)
      · exact ⟨i, le_rfl, hGoal⟩
      obtain ⟨next, hLe, hNext⟩ := hFair i hGoal
      obtain ⟨d, rfl⟩ := Nat.exists_eq_add_of_le hLe
      obtain ⟨j, hj, hEnd⟩ := e.descends own Inv goal rank hInv hOwn hOther d hi hNext
      rcases hEnd with hEnd | ⟨hInv', hLt⟩
      · exact ⟨j, hj, hEnd⟩
      · obtain ⟨k, hk, hEnd⟩ := ih _ (hRank ▸ hLt) hInv' rfl
        exact ⟨k, le_trans hj hk, hEnd⟩

/-! ## Runs that come to rest -/

section Rest

variable {start : State} {actions : List Action} {idle : Action}

/-- A run up to a state in which some action changes nothing, and this action ever after. -/
def ofRun (start : State) (actions : List Action) (idle : Action)
    (h : ∃ s, run step start actions = some s ∧ step s idle = some s) : Execution step where
  state i := (run step start (actions.take i)).getD start
  action i := actions.getD i idle
  step_eq i := by
    obtain ⟨s, hRun, hIdle⟩ := h
    by_cases hi : i < actions.length
    · have hSplit : actions = actions.take i ++ actions[i] :: actions.drop (i + 1) := by
        rw [List.getElem_cons_drop hi, List.take_append_drop]
      rw [hSplit, run_append, Option.bind_eq_some_iff] at hRun
      obtain ⟨before, hBefore, hRest⟩ := hRun
      rw [run_cons, Option.bind_eq_some_iff] at hRest
      obtain ⟨after, hStep, -⟩ := hRest
      have hAfter : run step start (actions.take (i + 1)) = some after := by
        rw [List.take_succ_eq_append_getElem hi, run_append, hBefore, Option.bind_some, run_cons,
          hStep]
        rfl
      rw [hBefore, hAfter, List.getD_eq_getElem _ _ hi]
      exact hStep
    · rw [not_lt] at hi
      rw [List.take_of_length_le hi, List.take_of_length_le (Nat.le_succ_of_le hi), hRun,
        List.getD_eq_default _ _ hi]
      exact hIdle

variable {h : ∃ s, run step start actions = some s ∧ step s idle = some s}

theorem ofRun_state {i : ℕ} {s : State} (hRun : run step start (actions.take i) = some s) :
    (ofRun start actions idle h).state i = s := by
  show (run step start (actions.take i)).getD start = s
  rw [hRun, Option.getD_some]

/-- Behind the run the state does not change. -/
theorem ofRun_at_rest {i : ℕ} {s : State} (hRun : run step start actions = some s)
    (hi : actions.length ≤ i) : (ofRun start actions idle h).state i = s := by
  apply ofRun_state
  rwa [List.take_of_length_le hi]

end Rest

end Execution

end Lib
end SvgdCollect
