import SvgdCollect.Lib.Bytes

/-!
# Computations that allocate

A program that calls `malloc` and `realloc` is modelled over an oracle: the
outcome of the `k`-th call is either failure or a block, and the bytes of a fresh
block are arbitrary.  The state counts the calls made so far.

`Yields` is the partial specification of such a computation.  It does not depend
on how many calls were made before.
-/

namespace SvgdCollect
namespace Lib

/-- The outcome of each allocation: `none` for failure, else what the fresh bytes
happen to hold. -/
abbrev Oracle := Nat → Option (Nat → Byte)

/-- The state is the number of allocations made so far. -/
abbrev Alloc (α : Type) := StateM Nat α

/-- One call of `malloc` or `realloc`. -/
def allocate (o : Oracle) : Alloc (Option (Nat → Byte)) := fun k => (o k, k + 1)

/-- No allocation fails. -/
def Oracle.Succeeds (o : Oracle) : Prop := ∀ k, (o k).isSome = true

/-- The other oracle differs only where an allocation fails, and none of its own does. -/
def Oracle.CompletedBy (o o' : Oracle) : Prop :=
  o'.Succeeds ∧ ∀ k fresh, o k = some fresh → o' k = some fresh

theorem Oracle.exists_completedBy (o : Oracle) : ∃ o', o.CompletedBy o' := by
  refine ⟨fun k => some ((o k).getD fun _ => 0), fun k => rfl, ?_⟩
  intro k fresh hFresh
  simp [hFresh]

/-- The result satisfies `P`, wherever in the run the computation starts. -/
def Yields {α : Type} (x : Alloc α) (P : α → Prop) : Prop := ∀ k, P (x.run k).1

section Rules

variable {α β : Type} {P : α → Prop} {Q : β → Prop}

theorem Yields.pure {a : α} (h : P a) : Yields (Pure.pure a) P := fun _ => h

theorem Yields.bind {x : Alloc α} {f : α → Alloc β} (hx : Yields x P)
    (hf : ∀ a, P a → Yields (f a) Q) : Yields (x >>= f) Q :=
  fun k => hf _ (hx k) _

/-- Whatever the first part gives, the second one yields `Q`. -/
theorem Yields.bind_any {x : Alloc α} {f : α → Alloc β} (hf : ∀ a, Yields (f a) Q) :
    Yields (x >>= f) Q :=
  fun _ => hf _ _

/-- The second part goes on behind the calls of the first one. -/
theorem Alloc.run_bind (x : Alloc α) (f : α → Alloc β) (k : Nat) :
    (x >>= f).run k = (f (x.run k).1).run (x.run k).2 := rfl

theorem Alloc.run_allocate (o : Oracle) (k : Nat) : (allocate o).run k = (o k, k + 1) := rfl

theorem yields_allocate {o : Oracle} (ho : o.Succeeds) :
    Yields (allocate o) fun r => ∃ fresh, r = some fresh :=
  fun k => Option.isSome_iff_exists.mp (ho k)

/-- A loop that threads a value keeps a relation between the value and the list
of elements it has passed. -/
theorem Yields.foldlM {R : List α → β → Prop} {f : β → α → Alloc β}
    (hf : ∀ done a b, R done b → Yields (f b a) (R (done ++ [a]))) (l : List α) {b : β}
    (hb : R [] b) : Yields (l.foldlM f b) (R l) := by
  have hFrom : ∀ l done b, R done b → Yields (List.foldlM f b l) (R (done ++ l)) := by
    intro l
    induction l with
    | nil =>
        intro done b hb
        rw [List.append_nil]
        exact Yields.pure hb
    | cons a l ih =>
        intro done b hb
        rw [List.foldlM_cons]
        refine Yields.bind (hf done a b hb) fun b' hb' => ?_
        have hRec := ih _ _ hb'
        rwa [List.append_assoc] at hRec
  exact hFrom l [] b hb

end Rules

end Lib
end SvgdCollect
