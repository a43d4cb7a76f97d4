import Mathlib.Data.List.Induction

/-!
# Runs of a partial step function

A component is a state type with a step function on actions; `none` means that
the action is not possible in that state.  Invariants may mention the actions
performed so far, so that a property of the state can be compared with what the
trace says should have happened.
-/

namespace SvgdCollect
namespace Lib

variable {State Action : Type}

/-- Perform a list of actions, first action first. -/
def run (step : State → Action → Option State) : State → List Action → Option State
  | s, [] => some s
  | s, a :: rest =>
      match step s a with
      | none => none
      | some s' => run step s' rest

@[simp] theorem run_nil (step : State → Action → Option State) (s : State) :
    run step s [] = some s := rfl

theorem run_cons (step : State → Action → Option State) (s : State) (a : Action)
    (rest : List Action) :
    run step s (a :: rest) = (step s a).bind fun s' => run step s' rest := by
  cases h : step s a <;> simp [run, h]

theorem run_append (step : State → Action → Option State) (s : State)
    (first second : List Action) :
    run step s (first ++ second) =
      (run step s first).bind fun s' => run step s' second := by
  induction first generalizing s with
  | nil => rfl
  | cons a first ih =>
      cases h : step s a <;> simp [run, h, ih]

/-- The invariant rule: what holds of the empty trace and survives one more
action holds after every run. -/
theorem run_invariant {step : State → Action → Option State} {start : State}
    (Inv : List Action → State → Prop) (hStart : Inv [] start)
    (hStep : ∀ trace s a s', Inv trace s → step s a = some s' → Inv (trace ++ [a]) s')
    {trace : List Action} {s : State} (hRun : run step start trace = some s) :
    Inv trace s := by
  induction trace using List.reverseRecOn generalizing s with
  | nil => simpa [Option.some.inj hRun] using hStart
  | append_singleton trace a ih =>
      rw [run_append, Option.bind_eq_some_iff] at hRun
      obtain ⟨before, hBefore, hLast⟩ := hRun
      rw [run_cons, Option.bind_eq_some_iff] at hLast
      obtain ⟨after, hAfter, hNil⟩ := hLast
      have hs : after = s := Option.some.inj hNil
      subst hs
      exact hStep trace before a after (ih hBefore) hAfter

end Lib
end SvgdCollect
