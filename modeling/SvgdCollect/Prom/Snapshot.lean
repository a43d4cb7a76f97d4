import SvgdCollect.Lib.Growth
import SvgdCollect.Lib.Runs
import SvgdCollect.Prom.SnapMetric
import Mathlib.Logic.Function.Basic

/-!
# The snapshot store shared by collector and scraper

`prom.c` keeps two growable buffers.  The collection thread fills the staged
one, `prom_snapshot_publish` swaps it with the published one under `g_lock`, and
the HTTP thread copies the published one out under the same lock.

The model is a step function over a heap of buffers and the two global
pointers.  Only what the lock protects is one step: the swap, and the copy in
`prom_render`.  `prom_snapshot_begin` and `prom_snapshot_add` run without the
lock, so each of their statements is a step of its own and renders may fall
between any two of them.  Every allocation is an argument of the step that
performs it.

`Track` is the store as its users see it: what has been handed over since the
last `begin`, and what the latest published cycle consisted of.  It is computed
from the trace of actions alone.  The invariant `Inv` relates the two.
-/

namespace SvgdCollect
namespace Prom

open Lib

variable {D : Type}

/-! ## Buffers -/

/-- `snap_buf_t`, with the cells of the `items` block. -/
structure SnapBuf (D : Type) where
  items : List (SnapMetric D)
  count : Nat
  cap : Nat
  length_items : items.length = cap
  count_le_cap : count ≤ cap

/-- `sb_new`: zeroed by `calloc`. -/
def sbNew : SnapBuf D :=
  { items := [], count := 0, cap := 0, length_items := rfl, count_le_cap := le_rfl }

/-- The cells in use. -/
def SnapBuf.contents (sb : SnapBuf D) : List (SnapMetric D) := sb.items.take sb.count

/-- `count = 0`. -/
def SnapBuf.reset (sb : SnapBuf D) : SnapBuf D :=
  { sb with count := 0, count_le_cap := Nat.zero_le _ }

/-- `sb_reserve`.  `fresh` is the outcome of `realloc`: `none` for failure, else
what the new cells happen to hold. -/
def sbReserve (sb : SnapBuf D) (need : Nat) (fresh : Option (Nat → SnapMetric D)) :
    SnapBuf D :=
  if sb.cap ≥ need then sb
  else
    match fresh with
    | none => sb
    | some cells =>
        let nc := grownCapacity 32 sb.cap need
        { items := sb.items ++ (List.range (nc - sb.cap)).map cells
          count := sb.count
          cap := nc
          length_items := by
            have hle : sb.cap ≤ nc := self_le_grownCapacity 32 sb.cap need
            simp only [List.length_append, List.length_map, List.length_range, sb.length_items]
            omega
          count_le_cap := le_trans sb.count_le_cap (self_le_grownCapacity 32 sb.cap need) }

/-- `copy_metric(&items[count], m)`. -/
def SnapBuf.store (sb : SnapBuf D) (m : SnapMetric D) : SnapBuf D :=
  { sb with
    items := sb.items.set sb.count m
    length_items := by simp [sb.length_items] }

/-- `count++`, reached only with a free cell. -/
def SnapBuf.bump (sb : SnapBuf D) (h : sb.count < sb.cap) : SnapBuf D :=
  { sb with count := sb.count + 1, count_le_cap := h }

@[simp] theorem contents_sbNew : (sbNew : SnapBuf D).contents = [] := rfl

@[simp] theorem contents_reset (sb : SnapBuf D) : sb.reset.contents = [] := by
  simp [SnapBuf.contents, SnapBuf.reset]

@[simp] theorem count_sbReserve (sb : SnapBuf D) (need : Nat)
    (fresh : Option (Nat → SnapMetric D)) : (sbReserve sb need fresh).count = sb.count := by
  unfold sbReserve
  split
  · rfl
  · cases fresh <;> rfl

/-- Growing keeps the cells in use. -/
@[simp] theorem contents_sbReserve (sb : SnapBuf D) (need : Nat)
    (fresh : Option (Nat → SnapMetric D)) :
    (sbReserve sb need fresh).contents = sb.contents := by
  unfold sbReserve
  split
  · rfl
  · cases fresh with
    | none => rfl
    | some cells =>
        have hle : sb.count ≤ sb.items.length := by
          rw [sb.length_items]
          exact sb.count_le_cap
        simp [SnapBuf.contents, List.take_append_of_le_length hle]

/-- A successful `realloc` provides the room that was asked for. -/
theorem le_cap_sbReserve (sb : SnapBuf D) (need : Nat) (cells : Nat → SnapMetric D) :
    need ≤ (sbReserve sb need (some cells)).cap := by
  unfold sbReserve
  split
  · assumption
  · exact le_grownCapacity (by decide) sb.cap need

@[simp] theorem contents_store (sb : SnapBuf D) (m : SnapMetric D) :
    (sb.store m).contents = sb.contents := by
  simp only [SnapBuf.contents, SnapBuf.store]
  exact List.take_set_of_le le_rfl

/-- Counting the cell that was just written appends it to the contents. -/
theorem contents_bump (sb : SnapBuf D) (h : sb.count < sb.cap) {m : SnapMetric D}
    (hCell : sb.items[sb.count]? = some m) :
    (sb.bump h).contents = sb.contents ++ [m] := by
  simp [SnapBuf.contents, SnapBuf.bump, List.take_add_one, hCell]

theorem getElem?_store (sb : SnapBuf D) (h : sb.count < sb.cap) (m : SnapMetric D) :
    (sb.store m).items[(sb.store m).count]? = some m := by
  have hlt : sb.count < sb.items.length := by
    rw [sb.length_items]
    exact h
  simp [SnapBuf.store, List.getElem?_set_self hlt]

/-! ## The step function -/

/-- Where the collection thread stands.  `filling` is between two calls of a
cycle; the `add` positions carry the metric of the call in progress. -/
inductive Position (D : Type)
  | idle
  | beginReset
  | filling
  | addReserve (m : Metric D)
  | addCopy (m : Metric D)
  | addCount (m : Metric D)

/-- The heap with its allocation frontier, the two globals `g_staged` and
`g_published`, and the position of the collection thread. -/
structure State (D : Type) where
  heap : Nat → SnapBuf D
  next : Nat
  staged : Option Nat
  published : Option Nat
  position : Position D

/-- Statements of the collection thread and renders of the HTTP thread.  The
flags are outcomes of allocations. -/
inductive Action (D : Type)
  | beginAlloc (ok : Bool)
  | beginReset
  | addAlloc (m : Metric D) (ok : Bool)
  | addReserve (fresh : Option (Nat → SnapMetric D))
  | addCopy
  | addCount
  | publish
  | render (ok : Bool)

def State.initial : State D :=
  { heap := fun _ => sbNew, next := 0, staged := none, published := none, position := .idle }

/-- `if (g_staged == NULL) g_staged = sb_new();`  Failure is only possible where
an allocation takes place. -/
def stageBuffer (s : State D) (ok : Bool) : Option (State D) :=
  match s.staged, ok with
  | some _, true => some s
  | some _, false => none
  | none, true =>
      some { s with
        heap := Function.update s.heap s.next sbNew
        next := s.next + 1
        staged := some s.next }
  | none, false => some s

/-- One statement of the collection thread, or one render. -/
def step (s : State D) : Action D → Option (State D)
  | .beginAlloc ok =>
      match s.position with
      | .idle => (stageBuffer s ok).map fun s => { s with position := .beginReset }
      | _ => none
  | .beginReset =>
      match s.position, s.staged with
      | .beginReset, some p =>
          some { s with
            heap := Function.update s.heap p (s.heap p).reset
            position := .filling }
      | .beginReset, none => some { s with position := .filling }
      | _, _ => none
  | .addAlloc m ok =>
      match s.position with
      | .filling =>
          (stageBuffer s ok).map fun s =>
            -- `if (g_staged == NULL) return;`
            match s.staged with
            | some _ => { s with position := .addReserve m }
            | none => s
      | _ => none
  | .addReserve fresh =>
      match s.position, s.staged with
      | .addReserve m, some p =>
          let sb := s.heap p
          if sb.count ≥ sb.cap then
            some { s with
              heap := Function.update s.heap p (sbReserve sb (sb.count + 1) fresh)
              position := .addCopy m }
          -- nothing is allocated, so nothing can fail
          else if fresh.isSome then some { s with position := .addCopy m }
          else none
      | _, _ => none
  | .addCopy =>
      match s.position, s.staged with
      | .addCopy m, some p =>
          let sb := s.heap p
          if sb.count < sb.cap then
            some { s with
              heap := Function.update s.heap p (sb.store (copyMetric m))
              position := .addCount m }
          -- the buffer could not grow: the metric is dropped
          else some { s with position := .filling }
      | _, _ => none
  | .addCount =>
      match s.position, s.staged with
      | .addCount _, some p =>
          let sb := s.heap p
          if h : sb.count < sb.cap then
            some { s with
              heap := Function.update s.heap p (sb.bump h)
              position := .filling }
          else none
      | _, _ => none
  | .publish =>
      match s.position with
      | .filling =>
          -- the buffer that was published is filled in the next cycle
          some { s with staged := s.published, published := s.staged, position := .idle }
      | _ => none
  | .render _ => some s

/-- The list of metrics `prom_render` copies out under the lock; `ok` is the
outcome of its `malloc`. -/
def promRenderCopy (s : State D) (ok : Bool) : List (SnapMetric D) :=
  match s.published with
  | none => []
  | some p =>
      if (s.heap p).count = 0 then []
      else if ok then (s.heap p).items.take (s.heap p).count
      else []

/-! ## What the trace says -/

/-- The metrics added in one cycle, and whether an allocation failed in it. -/
structure Cycle (D : Type) where
  metrics : List (Metric D)
  failed : Bool

/-- The cycle in progress and the latest published one. -/
structure Track (D : Type) where
  current : Cycle D
  latest : Cycle D

def Track.initial : Track D := { current := ⟨[], false⟩, latest := ⟨[], false⟩ }

def Track.step (t : Track D) : Action D → Track D
  | .beginAlloc ok => { t with current := ⟨[], !ok⟩ }
  | .addAlloc m ok =>
      { t with current := ⟨t.current.metrics ++ [m], t.current.failed || !ok⟩ }
  | .addReserve fresh =>
      { t with current := ⟨t.current.metrics, t.current.failed || fresh.isNone⟩ }
  | .publish => { t with latest := t.current }
  | .beginReset => t
  | .addCopy => t
  | .addCount => t
  | .render _ => t

def track (trace : List (Action D)) : Track D := trace.foldl Track.step Track.initial

@[simp] theorem track_append_singleton (trace : List (Action D)) (a : Action D) :
    track (trace ++ [a]) = (track trace).step a := by
  simp [track]

/-- The metrics between the `begin` and the `publish` of the latest cycle
published by a trace. -/
def latestCycle (trace : List (Action D)) : Cycle D := (track trace).latest

/-! ## The invariant -/

/-- What a buffer pointer refers to; a null pointer refers to no metrics. -/
def contentsAt (heap : Nat → SnapBuf D) : Option Nat → List (SnapMetric D)
  | none => []
  | some p => (heap p).contents

/-- Copies represent a cycle if they are copies of some of its metrics in order,
and of all of them unless an allocation failed. -/
def Represents (copies : List (SnapMetric D)) (cycle : Cycle D) : Prop :=
  copies.Sublist (cycle.metrics.map copyMetric) ∧
    (cycle.failed = false → copies = cycle.metrics.map copyMetric)

/-- Both pointers are allocated and they never share a buffer. -/
structure Separate (s : State D) : Prop where
  staged_lt : ∀ p, s.staged = some p → p < s.next
  published_lt : ∀ p, s.published = some p → p < s.next
  ne : ∀ p, s.staged = some p → s.published ≠ some p

/-- What the staged buffer holds during an `add` of `m`: the metrics before `m`. -/
def HoldsBefore (s : State D) (cycle : Cycle D) (m : Metric D) : Prop :=
  ∃ earlier p, cycle.metrics = earlier ++ [m] ∧ s.staged = some p ∧
    Represents (s.heap p).contents ⟨earlier, cycle.failed⟩

/-- The staged buffer against the cycle in progress, position by position. -/
def StagedAgrees (s : State D) (cycle : Cycle D) : Prop :=
  match s.position with
  | .idle => True
  | .beginReset => cycle.metrics = []
  | .filling => Represents (contentsAt s.heap s.staged) cycle
  | .addReserve m => HoldsBefore s cycle m
  | .addCopy m =>
      HoldsBefore s cycle m ∧
        (cycle.failed = false → ∀ p, s.staged = some p → (s.heap p).count < (s.heap p).cap)
  | .addCount m =>
      HoldsBefore s cycle m ∧
        ∀ p, s.staged = some p →
          (s.heap p).items[(s.heap p).count]? = some (copyMetric m)

/-- The invariant of the store along a trace. -/
structure Inv (trace : List (Action D)) (s : State D) : Prop where
  separate : Separate s
  published : Represents (contentsAt s.heap s.published) (track trace).latest
  staged : StagedAgrees s (track trace).current

theorem represents_nil (failed : Bool) :
    Represents ([] : List (SnapMetric D)) ⟨[], failed⟩ :=
  ⟨by simp, by simp⟩

/-- Fewer promises are made about a cycle in which an allocation failed. -/
theorem Represents.weaken {copies : List (SnapMetric D)} {metrics : List (Metric D)}
    {failed : Bool} (h : Represents copies ⟨metrics, failed⟩) (failed' : Bool) :
    Represents copies ⟨metrics, failed || failed'⟩ := by
  refine ⟨h.1, fun hFailed => h.2 ?_⟩
  have hBoth : (failed || failed') = false := hFailed
  exact (Bool.or_eq_false_iff.mp hBoth).1

/-- A metric that could not be stored is missing, and the cycle is marked. -/
theorem Represents.skip {copies : List (SnapMetric D)} {metrics : List (Metric D)}
    (h : copies.Sublist (metrics.map copyMetric)) (m : Metric D) :
    Represents copies ⟨metrics ++ [m], true⟩ := by
  refine ⟨?_, fun hFailed => by simp at hFailed⟩
  rw [List.map_append]
  exact h.trans (List.sublist_append_left _ _)

theorem Represents.append {copies : List (SnapMetric D)} {metrics : List (Metric D)}
    {failed : Bool} (h : Represents copies ⟨metrics, failed⟩) (m : Metric D) :
    Represents (copies ++ [copyMetric m]) ⟨metrics ++ [m], failed⟩ := by
  constructor
  · simpa using h.1.append_right [copyMetric m]
  · intro hFailed
    simp [h.2 hFailed]

/-- Separation only concerns the pointers and the allocation frontier. -/
theorem Separate.congr {s s' : State D} (h : Separate s) (hNext : s'.next = s.next)
    (hStaged : s'.staged = s.staged) (hPublished : s'.published = s.published) :
    Separate s' where
  staged_lt p hp := by
    rw [hNext]
    exact h.staged_lt p (hStaged ▸ hp)
  published_lt p hp := by
    rw [hNext]
    exact h.published_lt p (hPublished ▸ hp)
  ne p hp := by
    rw [hPublished]
    exact h.ne p (hStaged ▸ hp)

/-- Writing to the staged buffer leaves the published one alone. -/
theorem contentsAt_update_of_ne (heap : Nat → SnapBuf D) {p : Nat} {q : Option Nat}
    (sb : SnapBuf D) (h : q ≠ some p) :
    contentsAt (Function.update heap p sb) q = contentsAt heap q := by
  cases q with
  | none => rfl
  | some q =>
      have hq : q ≠ p := fun hqp => h (by rw [hqp])
      simp [contentsAt, Function.update_of_ne hq]

/-- Replacing the staged buffer keeps what the invariant says about the
published one. -/
theorem Inv.published_update {trace : List (Action D)} {s : State D} (h : Inv trace s)
    {p : Nat} (hp : s.staged = some p) (sb : SnapBuf D) :
    Represents (contentsAt (Function.update s.heap p sb) s.published) (track trace).latest := by
  rw [contentsAt_update_of_ne s.heap sb (h.separate.ne p hp)]
  exact h.published

/-- Lazy creation gives an empty buffer where there was none, and changes
nothing the pointers refer to. -/
theorem stageBuffer_spec {s s' : State D} {ok : Bool} (hSep : Separate s)
    (h : stageBuffer s ok = some s') :
    Separate s' ∧ s'.position = s.position ∧
      contentsAt s'.heap s'.staged = contentsAt s.heap s.staged ∧
      contentsAt s'.heap s'.published = contentsAt s.heap s.published ∧
      (s'.staged = none → ok = false) := by
  cases hStaged : s.staged with
  | some p =>
      cases ok with
      | false => simp [stageBuffer, hStaged] at h
      | true =>
          simp only [stageBuffer, hStaged, Option.some.injEq] at h
          subst h
          exact ⟨hSep, rfl, by rw [hStaged], rfl, by simp [hStaged]⟩
  | none =>
      cases ok with
      | false =>
          simp only [stageBuffer, hStaged, Option.some.injEq] at h
          subst h
          exact ⟨hSep, rfl, by rw [hStaged], rfl, by simp⟩
      | true =>
          simp only [stageBuffer, hStaged, Option.some.injEq] at h
          subst h
          -- the new address lies beyond every pointer in use
          have hFresh : s.published ≠ some s.next :=
            fun hEq => absurd (hSep.published_lt _ hEq) (lt_irrefl _)
          refine ⟨⟨?_, ?_, ?_⟩, rfl, ?_, contentsAt_update_of_ne s.heap sbNew hFresh, by simp⟩
          · intro p hp
            have hp' : s.next = p := Option.some.inj hp
            show p < s.next + 1
            omega
          · intro p hp
            have hlt := hSep.published_lt p hp
            show p < s.next + 1
            omega
          · intro p hp
            have hp' : s.next = p := Option.some.inj hp
            rw [← hp']
            exact hFresh
          · simp [contentsAt]

/-! ## One step keeps the invariant -/

section Step

variable {trace : List (Action D)} {s s' : State D}

theorem inv_beginAlloc {ok : Bool} (h : Inv trace s)
    (hStep : step s (.beginAlloc ok) = some s') : Inv (trace ++ [.beginAlloc ok]) s' := by
  cases hPos : s.position with
  | idle =>
      simp only [step, hPos, Option.map_eq_some_iff] at hStep
      obtain ⟨staged, hStaged, rfl⟩ := hStep
      obtain ⟨hSep, -, -, hPub, -⟩ := stageBuffer_spec h.separate hStaged
      refine ⟨hSep.congr rfl rfl rfl, ?_, ?_⟩
      · simpa [hPub, Track.step] using h.published
      · simp [StagedAgrees, Track.step]
  | _ => simp [step, hPos] at hStep

theorem inv_beginReset (h : Inv trace s)
    (hStep : step s .beginReset = some s') : Inv (trace ++ [.beginReset]) s' := by
  cases hPos : s.position with
  | beginReset =>
      have hEmpty : (track trace).current.metrics = [] := by
        simpa [StagedAgrees, hPos] using h.staged
      have hCurrent : (track trace).current = ⟨[], (track trace).current.failed⟩ := by
        rw [← hEmpty]
      cases hStaged : s.staged with
      | none =>
          simp only [step, hPos, hStaged, Option.some.injEq] at hStep
          subst hStep
          refine ⟨h.separate.congr rfl hStaged.symm rfl, ?_, ?_⟩
          · simpa [Track.step] using h.published
          · simp only [StagedAgrees, track_append_singleton, Track.step, contentsAt]
            rw [hCurrent]
            exact represents_nil _
      | some p =>
          simp only [step, hPos, hStaged, Option.some.injEq] at hStep
          subst hStep
          refine ⟨h.separate.congr rfl hStaged.symm rfl, ?_, ?_⟩
          · simpa [Track.step] using h.published_update hStaged (s.heap p).reset
          · simp only [StagedAgrees, track_append_singleton, Track.step, contentsAt,
              Function.update_self, contents_reset]
            rw [hCurrent]
            exact represents_nil _
  | _ => simp [step, hPos] at hStep

theorem inv_addAlloc {m : Metric D} {ok : Bool} (h : Inv trace s)
    (hStep : step s (.addAlloc m ok) = some s') : Inv (trace ++ [.addAlloc m ok]) s' := by
  cases hPos : s.position with
  | filling =>
      simp only [step, hPos, Option.map_eq_some_iff] at hStep
      obtain ⟨mid, hMid, hNext⟩ := hStep
      obtain ⟨hSep, hMidPos, hStagedEq, hPub, hNone⟩ := stageBuffer_spec h.separate hMid
      have hBefore : Represents (contentsAt mid.heap mid.staged) (track trace).current := by
        rw [hStagedEq]
        simpa [StagedAgrees, hPos] using h.staged
      cases hMidStaged : mid.staged with
      | none =>
          -- there is still no buffer, so its allocation failed and the call returns
          simp only [hMidStaged] at hNext
          subst hNext
          refine ⟨hSep, ?_, ?_⟩
          · simpa [hPub, Track.step] using h.published
          · have hok : ok = false := hNone hMidStaged
            subst hok
            simp only [StagedAgrees, hMidPos, hPos, track_append_singleton, Track.step,
              Bool.not_false, Bool.or_true]
            exact Represents.skip hBefore.1 m
      | some p =>
          simp only [hMidStaged] at hNext
          subst hNext
          refine ⟨hSep.congr rfl hMidStaged.symm rfl, ?_, ?_⟩
          · simpa [hPub, Track.step] using h.published
          · simp only [StagedAgrees, track_append_singleton, Track.step]
            refine ⟨(track trace).current.metrics, p, rfl, rfl, ?_⟩
            simp only [hMidStaged, contentsAt] at hBefore
            exact hBefore.weaken _
  | _ => simp [step, hPos] at hStep

theorem inv_addReserve {fresh : Option (Nat → SnapMetric D)} (h : Inv trace s)
    (hStep : step s (.addReserve fresh) = some s') :
    Inv (trace ++ [.addReserve fresh]) s' := by
  cases hPos : s.position with
  | addReserve m =>
      obtain ⟨earlier, p, hMetrics, hStaged, hRep⟩ : HoldsBefore s (track trace).current m := by
        simpa [StagedAgrees, hPos] using h.staged
      simp only [step, hPos, hStaged] at hStep
      split at hStep
      · rename_i hFull
        simp only [Option.some.injEq] at hStep
        subst hStep
        refine ⟨h.separate.congr rfl hStaged.symm rfl, ?_, ?_⟩
        · simpa [Track.step] using h.published_update hStaged _
        · -- growing keeps the contents, and makes room unless `realloc` failed
          simp only [StagedAgrees, track_append_singleton, Track.step]
          constructor
          · refine ⟨earlier, p, hMetrics, rfl, ?_⟩
            simpa using hRep.weaken fresh.isNone
          · intro hFailed q hq
            obtain rfl : p = q := Option.some.inj hq
            cases fresh with
            | none => simp at hFailed
            | some cells =>
                simp only [Function.update_self, count_sbReserve]
                exact Nat.lt_of_lt_of_le (Nat.lt_succ_self _)
                  (le_cap_sbReserve (s.heap p) ((s.heap p).count + 1) cells)
      · rename_i hRoom
        cases fresh with
        | none => simp at hStep
        | some cells =>
            simp only [Option.isSome_some, if_true, Option.some.injEq] at hStep
            subst hStep
            refine ⟨h.separate.congr rfl hStaged.symm rfl, ?_, ?_⟩
            · simpa [Track.step] using h.published
            · simp only [StagedAgrees, track_append_singleton, Track.step]
              refine ⟨⟨earlier, p, hMetrics, rfl, hRep.weaken _⟩, ?_⟩
              intro _ q hq
              obtain rfl : p = q := Option.some.inj hq
              exact Nat.lt_of_not_le hRoom
  | _ => simp [step, hPos] at hStep

theorem inv_addCopy (h : Inv trace s)
    (hStep : step s .addCopy = some s') : Inv (trace ++ [.addCopy]) s' := by
  cases hPos : s.position with
  | addCopy m =>
      obtain ⟨⟨earlier, p, hMetrics, hStaged, hRep⟩, hRoom⟩ :
          HoldsBefore s (track trace).current m ∧
            ((track trace).current.failed = false → ∀ p, s.staged = some p →
              (s.heap p).count < (s.heap p).cap) := by
        simpa [StagedAgrees, hPos] using h.staged
      simp only [step, hPos, hStaged] at hStep
      split at hStep
      · rename_i hlt
        simp only [Option.some.injEq] at hStep
        subst hStep
        refine ⟨h.separate.congr rfl hStaged.symm rfl, ?_, ?_⟩
        · simpa [Track.step] using h.published_update hStaged _
        · simp only [StagedAgrees, track_append_singleton, Track.step]
          refine ⟨⟨earlier, p, hMetrics, rfl, by simpa using hRep⟩, ?_⟩
          intro q hq
          obtain rfl : p = q := Option.some.inj hq
          simpa only [Function.update_self] using getElem?_store (s.heap p) hlt (copyMetric m)
      · rename_i hFull
        simp only [Option.some.injEq] at hStep
        subst hStep
        -- no room although `sb_reserve` ran: its `realloc` failed
        have hFailed : (track trace).current.failed = true := by
          by_contra hOk
          exact hFull (hRoom (Bool.eq_false_of_not_eq_true hOk) p hStaged)
        refine ⟨h.separate.congr rfl hStaged.symm rfl, ?_, ?_⟩
        · simpa [Track.step] using h.published
        · simp only [StagedAgrees, track_append_singleton, Track.step, contentsAt]
          have hCurrent : (track trace).current = ⟨earlier ++ [m], true⟩ := by
            rw [← hMetrics, ← hFailed]
          rw [hCurrent]
          exact Represents.skip hRep.1 m
  | _ => simp [step, hPos] at hStep

theorem inv_addCount (h : Inv trace s)
    (hStep : step s .addCount = some s') : Inv (trace ++ [.addCount]) s' := by
  cases hPos : s.position with
  | addCount m =>
      obtain ⟨⟨earlier, p, hMetrics, hStaged, hRep⟩, hCell⟩ :
          HoldsBefore s (track trace).current m ∧ ∀ p, s.staged = some p →
            (s.heap p).items[(s.heap p).count]? = some (copyMetric m) := by
        simpa [StagedAgrees, hPos] using h.staged
      simp only [step, hPos, hStaged] at hStep
      split at hStep
      · rename_i hlt
        simp only [Option.some.injEq] at hStep
        subst hStep
        refine ⟨h.separate.congr rfl hStaged.symm rfl, ?_, ?_⟩
        · simpa [Track.step] using h.published_update hStaged _
        · simp only [StagedAgrees, track_append_singleton, Track.step, contentsAt,
            Function.update_self]
          rw [contents_bump (s.heap p) hlt (hCell p hStaged)]
          have hCurrent : (track trace).current =
              ⟨earlier ++ [m], (track trace).current.failed⟩ := by
            rw [← hMetrics]
          rw [hCurrent]
          exact hRep.append m
      · simp at hStep
  | _ => simp [step, hPos] at hStep

theorem inv_publish (h : Inv trace s)
    (hStep : step s .publish = some s') : Inv (trace ++ [.publish]) s' := by
  cases hPos : s.position with
  | filling =>
      simp only [step, hPos, Option.some.injEq] at hStep
      subst hStep
      -- the pointers change places, and with them what they refer to
      refine ⟨⟨h.separate.2, h.separate.1, ?_⟩, ?_, ?_⟩
      · intro p hp hs
        exact h.separate.ne p hs hp
      · simpa [StagedAgrees, hPos, Track.step] using h.staged
      · simp [StagedAgrees]
  | _ => simp [step, hPos] at hStep

theorem inv_step {a : Action D} (h : Inv trace s) (hStep : step s a = some s') :
    Inv (trace ++ [a]) s' := by
  cases a with
  | beginAlloc ok => exact inv_beginAlloc h hStep
  | beginReset => exact inv_beginReset h hStep
  | addAlloc m ok => exact inv_addAlloc h hStep
  | addReserve fresh => exact inv_addReserve h hStep
  | addCopy => exact inv_addCopy h hStep
  | addCount => exact inv_addCount h hStep
  | publish => exact inv_publish h hStep
  | render ok =>
      have hs : s = s' := Option.some.inj hStep
      subst hs
      refine ⟨h.separate, ?_, ?_⟩
      · simpa [Track.step] using h.published
      · simpa [Track.step] using h.staged

end Step

theorem inv_initial : Inv [] (State.initial : State D) where
  separate :=
    { staged_lt := by simp [State.initial]
      published_lt := by simp [State.initial]
      ne := by simp [State.initial] }
  published := represents_nil false
  staged := trivial

/-- The invariant holds after every interleaving. -/
theorem inv_of_run {trace : List (Action D)} {s : State D}
    (hRun : run step State.initial trace = some s) : Inv trace s :=
  run_invariant Inv inv_initial (fun _ _ _ _ h hStep => inv_step h hStep) hRun

/-! ## What a render sees -/

/-- A render copies the published buffer, or nothing if its `malloc` failed. -/
theorem promRenderCopy_eq (s : State D) (ok : Bool) :
    promRenderCopy s ok = [] ∨ promRenderCopy s ok = contentsAt s.heap s.published := by
  cases hPub : s.published with
  | none => simp [promRenderCopy, hPub]
  | some p =>
      simp only [promRenderCopy, hPub, contentsAt, SnapBuf.contents]
      split
      · exact Or.inl rfl
      · cases ok <;> simp

theorem promRenderCopy_true (s : State D) :
    promRenderCopy s true = contentsAt s.heap s.published := by
  cases hPub : s.published with
  | none => simp [promRenderCopy, hPub, contentsAt]
  | some p =>
      simp only [promRenderCopy, hPub, contentsAt, SnapBuf.contents, if_true]
      split
      · rename_i hZero
        simp [hZero]
      · rfl

/-- **Snapshot isolation.**  At any point of any interleaving, with allocations
failing anywhere, a render copies out some of the metrics of the latest
published cycle in order; all of them if no allocation failed in that cycle or
in the render.  The two globals never refer to one buffer. -/
theorem promRender_copies_latest_cycle {trace : List (Action D)} {s : State D}
    (hRun : run step State.initial trace = some s) (ok : Bool) :
    (promRenderCopy s ok).Sublist ((latestCycle trace).metrics.map copyMetric) ∧
      ((latestCycle trace).failed = false → ok = true →
        promRenderCopy s ok = (latestCycle trace).metrics.map copyMetric) ∧
      ∀ p, s.staged = some p → s.published ≠ some p := by
  have h := inv_of_run hRun
  refine ⟨?_, ?_, h.separate.ne⟩
  · rcases promRenderCopy_eq s ok with hNil | hAll
    · rw [hNil]
      exact List.nil_sublist _
    · rw [hAll]
      exact h.published.1
  · intro hFailed hok
    subst hok
    rw [promRenderCopy_true]
    exact h.published.2 hFailed

/-- A load metric with its three values. -/
def loadSample (one five fifteen : Nat) : Metric Nat :=
  { plugin := ascii "load", pluginInstance := none, type := ascii "load", typeInstance := none,
    dsCount := 3, values := [one, five, fifteen] }

/-- One published cycle, then a second one in which a metric has been counted
but not published. -/
def twoCycles : List (Action Nat) :=
  let cells := some fun _ => copyMetric (loadSample 0 0 0)
  [.beginAlloc true, .beginReset,
    .addAlloc (loadSample 1 2 3) true, .addReserve cells, .addCopy, .addCount, .publish,
    .beginAlloc true, .beginReset,
    .addAlloc (loadSample 4 5 6) true, .addReserve cells, .addCopy, .addCount]

/-- In the second cycle a render still copies out exactly the first one. -/
theorem promRender_during_second_cycle :
    ∃ s : State Nat, run step State.initial twoCycles = some s ∧
      promRenderCopy s true = [copyMetric (loadSample 1 2 3)] := by
  refine ⟨_, rfl, ?_⟩
  exact (promRender_copies_latest_cycle
    (show run step State.initial twoCycles = some _ from rfl) true).2.1 rfl rfl

end Prom
end SvgdCollect
