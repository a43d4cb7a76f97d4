import Mathlib.Data.List.Infix
import Mathlib.Data.List.Basic

/-!
# Trees of files and directories

A tree says of every location, the list of names from the root, whether it is a
directory, a file or nothing; what is above something is a directory.  `mkdir` resolves a
path step by step and creates its last directory.  `descend` creates all directories on
the way, which is what calling `mkdir` for one prefix of the path after the other does.
-/

namespace SvgdCollect
namespace Lib

inductive Node
  | dir
  | file
  deriving DecidableEq

abbrev Location (Name : Type) := List Name

structure FileTree (Name : Type) where
  node : Location Name → Option Node
  root : node [] = some .dir
  above : ∀ l name, node (l ++ [name]) ≠ none → node l = some .dir

/-- One component of a path: nothing between two slashes, `.`, `..` or a name. -/
inductive PathStep (Name : Type)
  | empty
  | here
  | up
  | down (name : Name)
  deriving DecidableEq

namespace FileTree

variable {Name : Type} [DecidableEq Name]

/-- A new directory, if there is nothing at its location and a directory above. -/
def addDir (t : FileTree Name) (l : Location Name) (name : Name) : FileTree Name where
  node q :=
    if q = l ++ [name] ∧ t.node l = some .dir ∧ t.node q = none then some .dir else t.node q
  root := by simp [t.root]
  above := by
    intro l' name' hNode
    have hKeep : t.node l' = some .dir →
        (if l' = l ++ [name] ∧ t.node l = some .dir ∧ t.node l' = none then some .dir
          else t.node l') = some .dir := fun h => by simp [h]
    apply hKeep
    split at hNode
    · rename_i hNew
      obtain ⟨rfl, -⟩ := List.append_inj' hNew.1 rfl
      exact hNew.2.1
    · exact t.above l' name' hNode

/-- The location that a path leads to, if all of its steps lead to directories. -/
def resolve (t : FileTree Name) : Location Name → List (PathStep Name) → Option (Location Name)
  | l, [] => some l
  | l, .empty :: p => resolve t l p
  | l, .here :: p => resolve t l p
  | l, .up :: p => resolve t l.dropLast p
  | l, .down name :: p =>
      if t.node (l ++ [name]) = some .dir then resolve t (l ++ [name]) p else none

/-- `mkdir`, where `allow` says which directories the system lets the process make.
Slashes at the end do not count. -/
def mkdir (allow : Location Name → Bool) (t : FileTree Name) :
    Location Name → List (PathStep Name) → FileTree Name
  | _, [] => t
  | l, .empty :: p => mkdir allow t l p
  | l, .here :: p => mkdir allow t l p
  | l, .up :: p => mkdir allow t l.dropLast p
  | l, .down name :: p =>
      match t.node (l ++ [name]) with
      | some .dir => mkdir allow t (l ++ [name]) p
      | some .file => t
      | none =>
          if (∀ s ∈ p, s = .empty) ∧ allow (l ++ [name]) then t.addDir l name else t

/-- All directories of a path, as far as there is no file in the way and they may be made. -/
def descend (allow : Location Name → Bool) (t : FileTree Name) :
    Location Name → List (PathStep Name) → FileTree Name
  | _, [] => t
  | l, .empty :: p => descend allow t l p
  | l, .here :: p => descend allow t l p
  | l, .up :: p => descend allow t l.dropLast p
  | l, .down name :: p =>
      match t.node (l ++ [name]) with
      | some .dir => descend allow t (l ++ [name]) p
      | some .file => t
      | none =>
          if allow (l ++ [name]) then descend allow (t.addDir l name) (l ++ [name]) p else t

/-- The locations that a path names on its way. -/
def visited : Location Name → List (PathStep Name) → List (Location Name)
  | _, [] => []
  | l, .empty :: p => visited l p
  | l, .here :: p => visited l p
  | l, .up :: p => visited l.dropLast p
  | l, .down name :: p => (l ++ [name]) :: visited (l ++ [name]) p

/-- The location that a path names at its end. -/
def target : Location Name → List (PathStep Name) → Location Name
  | l, [] => l
  | l, .empty :: p => target l p
  | l, .here :: p => target l p
  | l, .up :: p => target l.dropLast p
  | l, .down name :: p => target (l ++ [name]) p

variable {allow : Location Name → Bool} {t : FileTree Name}

/-! ## Where a path leads -/

omit [DecidableEq Name] in
theorem target_append (l : Location Name) (p q : List (PathStep Name)) :
    target l (p ++ q) = target (target l p) q := by
  fun_induction target l p with
  | case1 => rfl
  | case2 l p ih | case3 l p ih | case4 l p ih | case5 l name p ih => exact ih

omit [DecidableEq Name] in
/-- A path that can be resolved leads to its target. -/
theorem eq_target_of_resolve {l q : Location Name} {p : List (PathStep Name)}
    (h : t.resolve l p = some q) : q = target l p := by
  fun_induction target l p with
  | case1 => exact (Option.some.inj h).symm
  | case2 l p ih | case3 l p ih | case4 l p ih => exact ih h
  | case5 l name p ih =>
      rw [resolve] at h
      split at h
      · exact ih h
      · cases h

/-! ## Adding a directory -/

theorem addDir_self {l : Location Name} {name : Name} (hl : t.node l = some .dir)
    (hNone : t.node (l ++ [name]) = none) : (t.addDir l name).node (l ++ [name]) = some .dir :=
  if_pos ⟨rfl, hl, hNone⟩

theorem addDir_keeps {l q : Location Name} {name : Name} {k : Node} (h : t.node q = some k) :
    (t.addDir l name).node q = some k := by
  simp [addDir, h]

theorem addDir_other {l q : Location Name} {name : Name} (h : q ≠ l ++ [name]) :
    (t.addDir l name).node q = t.node q := by
  simp [addDir, h]

omit [DecidableEq Name] in
theorem dir_dropLast {l : Location Name} (hl : t.node l = some .dir) :
    t.node l.dropLast = some .dir := by
  rcases List.eq_nil_or_concat l with rfl | ⟨front, name, rfl⟩
  · exact hl
  · rw [List.concat_eq_append, List.dropLast_concat]
    rw [List.concat_eq_append] at hl
    exact t.above front name (by rw [hl]; simp)

/-! ## What `mkdir` does -/

theorem mkdir_keeps {l q : Location Name} {p : List (PathStep Name)} {k : Node}
    (h : t.node q = some k) : (t.mkdir allow l p).node q = some k := by
  fun_induction mkdir allow t l p with
  | case1 => exact h
  | case2 l p ih => exact ih
  | case3 l p ih => exact ih
  | case4 l p ih => exact ih
  | case5 l name p hDir ih => exact ih
  | case6 => exact h
  | case7 => exact addDir_keeps h
  | case8 => exact h

theorem descend_keeps {l q : Location Name} {p : List (PathStep Name)} {k : Node}
    (h : t.node q = some k) : (t.descend allow l p).node q = some k := by
  fun_induction descend allow t l p with
  | case1 => exact h
  | case2 t l p ih => exact ih h
  | case3 t l p ih => exact ih h
  | case4 t l p ih => exact ih h
  | case5 t l name p hDir ih => exact ih h
  | case6 => exact h
  | case7 t l name p hNone hAllow ih => exact ih (addDir_keeps h)
  | case8 => exact h

/-- Whatever is new is a directory on the way that may be made. -/
theorem descend_new {l q : Location Name} {p : List (PathStep Name)}
    (h : (t.descend allow l p).node q ≠ t.node q) :
    t.node q = none ∧ (t.descend allow l p).node q = some .dir ∧ q ∈ visited l p ∧
      allow q = true := by
  fun_induction descend allow t l p with
  | case1 => exact absurd rfl h
  | case2 t l p ih => exact ih h
  | case3 t l p ih => exact ih h
  | case4 t l p ih => exact ih h
  | case5 t l name p hDir ih =>
      obtain ⟨hNone, hNode, hMem, hAllow⟩ := ih h
      exact ⟨hNone, hNode, List.mem_cons_of_mem _ hMem, hAllow⟩
  | case6 => exact absurd rfl h
  | case7 t l name p hNone hAllow ih =>
      by_cases hSame : q = l ++ [name]
      · subst hSame
        refine ⟨hNone, ?_, List.mem_cons_self, hAllow⟩
        by_cases hKept : ((t.addDir l name).descend allow (l ++ [name]) p).node (l ++ [name]) =
            (t.addDir l name).node (l ++ [name])
        · -- the step itself has made it
          rw [hKept] at h ⊢
          by_cases hl : t.node l = some .dir
          · exact addDir_self hl hNone
          · exact absurd (by simp [addDir, hl]) h
        · exact (ih hKept).2.1
      · rw [← addDir_other (t := t) hSame] at h ⊢
        obtain ⟨hNew, hNode, hMem, hq⟩ := ih h
        exact ⟨hNew, hNode, List.mem_cons_of_mem _ hMem, hq⟩
  | case8 => exact absurd rfl h

/-- A location at which a directory is or can be made. -/
def CanBeDir (allow : Location Name → Bool) (t : FileTree Name) (q : Location Name) : Prop :=
  t.node q = some .dir ∨ t.node q = none ∧ allow q = true

theorem canBeDir_addDir_iff {l q : Location Name} {name : Name} (hl : t.node l = some .dir)
    (hNone : t.node (l ++ [name]) = none) (hAllow : allow (l ++ [name]) = true) :
    CanBeDir allow (t.addDir l name) q ↔ CanBeDir allow t q := by
  by_cases hSame : q = l ++ [name]
  · subst hSame
    exact iff_of_true (Or.inl (addDir_self hl hNone)) (Or.inr ⟨hNone, hAllow⟩)
  · rw [CanBeDir, CanBeDir, addDir_other hSame]

omit [DecidableEq Name] in
/-- A path leads to a directory exactly if all locations on the way are directories. -/
theorem resolve_isSome_iff (t : FileTree Name) (l : Location Name) (p : List (PathStep Name)) :
    (t.resolve l p).isSome ↔ ∀ q ∈ visited l p, t.node q = some .dir := by
  fun_induction visited l p with
  | case1 => simp [resolve]
  | case2 l p ih => exact ih
  | case3 l p ih => exact ih
  | case4 l p ih => exact ih
  | case5 l name p ih =>
      rw [resolve, List.forall_mem_cons, ← ih]
      by_cases hDir : t.node (l ++ [name]) = some .dir
      · rw [if_pos hDir]
        exact (and_iff_right hDir).symm
      · rw [if_neg hDir]
        exact iff_of_false (by simp) fun h => hDir h.1

/-- If nothing stands in the way, all of them are directories afterwards. -/
theorem descend_reaches {l : Location Name} {p : List (PathStep Name)}
    (hl : t.node l = some .dir) (hFree : ∀ q ∈ visited l p, CanBeDir allow t q) :
    ∀ q ∈ visited l p, (t.descend allow l p).node q = some .dir := by
  fun_induction descend allow t l p with
  | case1 => simp [visited]
  | case2 t l p ih => exact ih hl hFree
  | case3 t l p ih => exact ih hl hFree
  | case4 t l p ih => exact ih (dir_dropLast hl) hFree
  | case5 t l name p hDir ih =>
      rw [visited, List.forall_mem_cons] at hFree ⊢
      exact ⟨descend_keeps hDir, ih hDir hFree.2⟩
  | case6 t l name p hFile =>
      exfalso
      rcases hFree _ List.mem_cons_self with hDir | hNone
      · rw [hFile] at hDir
        cases hDir
      · rw [hFile] at hNone
        cases hNone.1
  | case7 t l name p hNone hAllow ih =>
      have hMade := addDir_self hl hNone
      rw [visited, List.forall_mem_cons] at hFree ⊢
      exact ⟨descend_keeps hMade,
        ih hMade fun q hq => (canBeDir_addDir_iff hl hNone hAllow).mpr (hFree.2 q hq)⟩
  | case8 t l name p hNone hForbidden =>
      exfalso
      rcases hFree _ List.mem_cons_self with hDir | hMay
      · rw [hNone] at hDir
        cases hDir
      · exact hForbidden hMay.2

/-! ## One prefix after the other -/

/-- Two loops that agree as long as an invariant holds. -/
theorem foldl_congr_of_inv {σ α : Type} {P : σ → Prop} {f g : σ → α → σ}
    (hKeep : ∀ s a, P s → P (f s a)) (hSame : ∀ s a, P s → f s a = g s a) (as : List α)
    {s : σ} (hs : P s) : as.foldl f s = as.foldl g s := by
  induction as generalizing s with
  | nil => rfl
  | cons a as ih =>
      rw [List.foldl_cons, List.foldl_cons, ← hSame s a hs]
      exact ih (hKeep s a hs)

theorem foldl_of_fixed {σ α : Type} {f : σ → α → σ} {s : σ} (h : ∀ a, f s a = s) (as : List α) :
    as.foldl f s = s := by
  induction as with
  | nil => rfl
  | cons a as ih => rw [List.foldl_cons, h, ih]

/-- `mkdir` for each prefix of a path, the shortest first. -/
def mkdirPrefixes (allow : Location Name → Bool) (t : FileTree Name) (l : Location Name)
    (p : List (PathStep Name)) : FileTree Name :=
  p.inits.foldl (fun t q => t.mkdir allow l q) t

theorem mkdirPrefixes_cons (l : Location Name) (s : PathStep Name) (p : List (PathStep Name)) :
    t.mkdirPrefixes allow l (s :: p) = p.inits.foldl (fun t q => t.mkdir allow l (s :: q)) t := by
  rw [mkdirPrefixes, List.inits_cons, List.foldl_cons, List.foldl_map]
  rfl

/-- Below a directory the step down is only taken. -/
theorem mkdirPrefixes_down {l : Location Name} {name : Name} {p : List (PathStep Name)}
    (hDir : t.node (l ++ [name]) = some .dir) :
    p.inits.foldl (fun t q => t.mkdir allow l (.down name :: q)) t =
      t.mkdirPrefixes allow (l ++ [name]) p := by
  refine foldl_congr_of_inv (P := fun t : FileTree Name => t.node (l ++ [name]) = some .dir)
    (fun t q h => mkdir_keeps h) (fun t q h => ?_) _ hDir
  rw [mkdir, h]

/-- Making one prefix after the other creates all directories of the path. -/
theorem mkdirPrefixes_eq_descend {l : Location Name} {p : List (PathStep Name)}
    (hl : t.node l = some .dir) : t.mkdirPrefixes allow l p = t.descend allow l p := by
  fun_induction descend allow t l p with
  | case1 => rfl
  | case2 t l p ih => rw [mkdirPrefixes_cons, ← ih hl]; rfl
  | case3 t l p ih => rw [mkdirPrefixes_cons, ← ih hl]; rfl
  | case4 t l p ih => rw [mkdirPrefixes_cons, ← ih (dir_dropLast hl)]; rfl
  | case5 t l name p hDir ih => rw [mkdirPrefixes_cons, mkdirPrefixes_down hDir, ih hDir]
  | case6 t l name p hFile =>
      rw [mkdirPrefixes_cons]
      exact foldl_of_fixed (fun q => by rw [mkdir, hFile]) _
  | case7 t l name p hNone hAllow ih =>
      -- the shortest prefix creates the directory that the others find
      have hMade := addDir_self hl hNone
      have hFirst : t.mkdir allow l [.down name] = t.addDir l name := by
        simp [mkdir, hNone, hAllow]
      have hFound : (t.addDir l name).mkdir allow l [.down name] = t.addDir l name := by
        rw [mkdir, hMade]
        rfl
      have hInits : ∃ rest, p.inits = [] :: rest := by cases p <;> exact ⟨_, rfl⟩
      obtain ⟨rest, hRest⟩ := hInits
      rw [mkdirPrefixes_cons, ← ih hMade, ← mkdirPrefixes_down hMade, hRest, List.foldl_cons,
        List.foldl_cons, hFirst, hFound]
  | case8 t l name p hNone hForbidden =>
      rw [mkdirPrefixes_cons]
      exact foldl_of_fixed (fun q => by simp [mkdir, hNone, hForbidden]) _

end FileTree

end Lib
end SvgdCollect
