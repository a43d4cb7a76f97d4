import SvgdCollect.Lib.Runs
import Mathlib.Data.List.Count
import Mathlib.Tactic.Linarith

/-!
# Handles

What a program does with descriptors, blocks and other things that it has to give back:
it acquires a handle, uses it and releases it.  A log of these events can be audited:
nothing may be acquired while it is held, and nothing may be used or released while it is
not.
-/

namespace SvgdCollect
namespace Lib

variable {H : Type} [DecidableEq H]

inductive HandleEvent (H : Type)
  | acquire (h : H)
  | use (h : H)
  | release (h : H)
  deriving DecidableEq

/-- The handles that are held behind an event; there are none behind a misuse. -/
def HandleEvent.step (held : List H) : HandleEvent H → Option (List H)
  | .acquire h => if h ∈ held then none else some (h :: held)
  | .use h => if h ∈ held then some held else none
  | .release h => if h ∈ held then some (held.erase h) else none

/-- The handles that are held behind a log without misuse. -/
def audit (held : List H) (log : List (HandleEvent H)) : Option (List H) :=
  run HandleEvent.step held log

theorem audit_append {held mid : List H} {first second : List (HandleEvent H)}
    (h : audit held first = some mid) : audit held (first ++ second) = audit mid second := by
  rw [audit, run_append]
  rw [audit] at h
  rw [h]
  rfl

theorem step_counts {held held' : List H} {event : HandleEvent H}
    (hStep : event.step held = some held') (h : H) :
    held.count h + [event].count (.acquire h) = held'.count h + [event].count (.release h) := by
  cases event with
  | acquire g =>
      simp only [HandleEvent.step] at hStep
      split at hStep
      · cases hStep
      · obtain rfl := Option.some.inj hStep
        by_cases hg : g = h <;> simp [hg]
  | use g =>
      simp only [HandleEvent.step] at hStep
      split at hStep
      · obtain rfl := Option.some.inj hStep
        simp
      · cases hStep
  | release g =>
      simp only [HandleEvent.step] at hStep
      split at hStep
      · rename_i hHeld
        obtain rfl := Option.some.inj hStep
        by_cases hg : g = h
        · subst hg
          have hPositive := List.count_pos_iff.mpr hHeld
          rw [List.count_erase_self, List.count_singleton_self]
          simp only [List.count_singleton, beq_iff_eq, reduceCtorEq, if_false]
          omega
        · rw [List.count_erase_of_ne (Ne.symm hg)]
          simp [hg]
      · cases hStep

/-- What has been acquired is held or has been released. -/
theorem audit_counts {held held' : List H} {log : List (HandleEvent H)}
    (hAudit : audit held log = some held') (h : H) :
    held.count h + log.count (.acquire h) = held'.count h + log.count (.release h) := by
  induction log generalizing held with
  | nil =>
      obtain rfl := Option.some.inj hAudit
      rfl
  | cons event log ih =>
      rw [audit, run_cons, Option.bind_eq_some_iff] at hAudit
      obtain ⟨mid, hStep, hRest⟩ := hAudit
      have hFirst := step_counts hStep h
      have hLater := ih hRest
      rw [← List.singleton_append, List.count_append, List.count_append]
      omega

end Lib
end SvgdCollect
