import SvgdCollect.Collect
import SvgdCollect.Config.Cells
import SvgdCollect.Layout
import SvgdCollect.Prom.Snapshot
import SvgdCollect.Writer.Outage

/-!
# The collection loop

`collect_run` shares its process with the HTTP thread, which renders between any two
of its statements, with the signals that clear `g_running`, and with rrdcached, which
applies the updates it holds whenever it likes.

The model is a step function over the points of the loop.  The readers, the writer
and the statements of the snapshot are those of their own modules; this one adds the
order in which the thread performs them, the RRD files of all metrics, and the clock.
The environment chooses what it contributes to a step: the files that a reader sees,
the second and the outcomes of a call of the writer, and the second at which a sleep
ends.  Nothing is said here about these seconds: somebody may set the clock.
-/

namespace SvgdCollect
namespace Loop

open Lib

variable {D : Type}

/-! ## In front of the loop -/

/-- What `collect_run` has computed when it enters the loop. -/
structure Setup where
  interval : Int
  writer : Writer
  enabled : List Reader
  one_le : 1 ≤ interval
  nodup : enabled.Nodup

/-- The beginning of `collect_run` behind `config_load`: the writer, and the readers
that the names in the configuration enable. -/
def collectSetup (file : Option Bytes) : Setup :=
  let cfg := (Config.configLoad file).2
  -- `rptr` has 16 entries and `enabled` has 32
  { interval := cfg.interval
    writer := writerInit cfg.datadir cfg.host (some cfg.rrdcached)
    enabled := collectBuildEnabled (some ((cfg.readers.take 16).map some)) 32
    one_le := Config.one_le_interval_configLoad file
    nodup := collectBuildEnabled_nodup _ _ }

/-! ## The state -/

/-- Where the collection thread stands.  `reading` holds the metrics that the reader
in progress has still to emit and the readers behind it; `adding` is in `emit_cb`
behind `writer_write`; `sleeping` counts the seconds of the inner loop. -/
inductive Point (D : Type)
  | test
  | begun
  | reading (pending : List (Metric D)) (rest : List Reader)
  | adding (m : Metric D) (pending : List (Metric D)) (rest : List Reader)
  | sleeping (n : Int)
  | stopping
  | returned

/-- The thread, `g_running`, the latest second at which somebody has looked at the
clock, what the cpu reader keeps, the RRD files and the daemon's queues by the path
that `writer_write` builds, and the snapshot store. -/
structure State (D : Type) where
  point : Point D
  running : Bool
  clock : Int
  cpu : CpuState
  files : Bytes → Store
  snap : Prom.State D

def start (files : Bytes → Store) (clock : Int) : State D :=
  { point := .test, running := true, clock := clock, cpu := CpuState.initial, files := files
    snap := Prom.State.initial }

/-- One statement of the collection thread, or one event around it: a render, the
daemon applying its oldest update of a file, a signal. -/
inductive Move (D : Type)
  | snap (a : Prom.Action D)
  | read (src : Sources)
  | write (m : Metric D) (c : Call)
  | sleep (now : Int) (interrupted : Bool)
  | wake
  | leave
  | shutdown
  | apply (path : Bytes)
  | signal

/-! ## The step function -/

/-- Inside `prom_snapshot_add`, or behind it once the call has returned. -/
def Point.afterAdd (m : Metric D) (pending : List (Metric D)) (rest : List Reader) :
    Prom.Position D → Point D
  | .filling => .reading pending rest
  | _ => .adding m pending rest

/-- The point behind a statement of the snapshot, if the thread is in front of it.
Renders belong to the HTTP thread. -/
def Point.after [DecidableEq D] (setup : Setup) (running : Bool) (position : Prom.Position D)
    (point : Point D) : Prom.Action D → Option (Point D)
  | .render _ => some point
  | .beginAlloc _ =>
      match point with
      | .test => if running then some .begun else none
      | _ => none
  | .beginReset =>
      match point with
      | .begun => some (.reading [] setup.enabled)
      | _ => none
  | .addAlloc m' _ =>
      match point with
      | .adding m pending rest =>
          if m' = m then some (Point.afterAdd m pending rest position) else none
      | _ => none
  | .publish =>
      match point with
      | .reading [] [] => some (.sleeping 0)
      | _ => none
  -- the other statements of `prom_snapshot_add`
  | _ =>
      match point with
      | .adding m pending rest => some (Point.afterAdd m pending rest position)
      | _ => none

section Code

variable [CDouble D] [DecidableEq D] [Inhabited D] (printf : Printf D) (setup : Setup)

/-- `writer_write` on the file of the metric. -/
def writeFile (files : Bytes → Store) (m : Metric D) (c : Call) : Bytes → Store :=
  match writerPath setup.writer m with
  | none => files
  | some path =>
      Function.update files path (writerWrite printf setup.writer (files path) m c).2

/-- One step. -/
def step (s : State D) : Move D → Option (State D)
  | .snap a =>
      match Prom.step s.snap a with
      | none => none
      | some snap =>
          (s.point.after setup s.running snap.position a).map fun point =>
            { s with point := point, snap := snap }
  | .read src =>
      match s.point with
      | .reading [] (r :: rest) =>
          let (cpu, result) := r.read src s.cpu
          -- the return value is ignored
          some { s with point := .reading result.metrics rest, cpu := cpu }
      | _ => none
  | .write m' c =>
      match s.point with
      | .reading (m :: pending) rest =>
          if m' = m then
            some { s with
              point := .adding m pending rest
              clock := c.now
              files := writeFile printf setup s.files m c }
          else none
      | _ => none
  | .sleep now interrupted =>
      match s.point with
      | .sleeping n =>
          -- a signal ends the call early, but it has cleared `g_running` then
          if n < setup.interval ∧ s.running = true then
            some { s with
              point := .sleeping (n + 1)
              clock := now
              running := !interrupted }
          else none
      | _ => none
  | .wake =>
      match s.point with
      | .sleeping n =>
          if n < setup.interval ∧ s.running = true then none else some { s with point := .test }
      | _ => none
  | .leave =>
      match s.point with
      | .test => if s.running then none else some { s with point := .stopping }
      | _ => none
  | .shutdown =>
      match s.point with
      | .stopping => some { s with point := .returned }
      | _ => none
  | .apply path =>
      -- the refused updates of a file are counted elsewhere
      some { s with
        files := Function.update s.files path
          (applyQueued { store := s.files path, acked := [], refused := [] }).store }
  | .signal => some { s with running := false }

/-- What a step can do. -/
inductive Moves (s : State D) : Move D → State D → Prop
  | render (ok : Bool) : Moves s (.snap (.render ok)) s
  | beginAlloc {ok : Bool} {snap : Prom.State D} (hPoint : s.point = .test)
      (hRunning : s.running = true) (hSnap : Prom.step s.snap (.beginAlloc ok) = some snap) :
      Moves s (.snap (.beginAlloc ok)) { s with point := .begun, snap := snap }
  | beginReset {snap : Prom.State D} (hPoint : s.point = .begun)
      (hSnap : Prom.step s.snap .beginReset = some snap) :
      Moves s (.snap .beginReset) { s with point := .reading [] setup.enabled, snap := snap }
  | addAlloc {m : Metric D} {pending : List (Metric D)} {rest : List Reader} {ok : Bool}
      {snap : Prom.State D} (hPoint : s.point = .adding m pending rest)
      (hSnap : Prom.step s.snap (.addAlloc m ok) = some snap) :
      Moves s (.snap (.addAlloc m ok))
        { s with point := Point.afterAdd m pending rest snap.position, snap := snap }
  | add {m : Metric D} {pending : List (Metric D)} {rest : List Reader} {a : Prom.Action D}
      {snap : Prom.State D} (hPoint : s.point = .adding m pending rest)
      (hAction : a = .addCopy ∨ a = .addCount ∨ ∃ fresh, a = .addReserve fresh)
      (hSnap : Prom.step s.snap a = some snap) :
      Moves s (.snap a)
        { s with point := Point.afterAdd m pending rest snap.position, snap := snap }
  | publish {snap : Prom.State D} (hPoint : s.point = .reading [] [])
      (hSnap : Prom.step s.snap .publish = some snap) :
      Moves s (.snap .publish) { s with point := .sleeping 0, snap := snap }
  | read {r : Reader} {rest : List Reader} (src : Sources)
      (hPoint : s.point = .reading [] (r :: rest)) :
      Moves s (.read src)
        { s with
          point := .reading (r.read src s.cpu).2.metrics rest
          cpu := (r.read src s.cpu : CpuState × ReadResult D).1 }
  | write {m : Metric D} {pending : List (Metric D)} {rest : List Reader} {c : Call}
      (hPoint : s.point = .reading (m :: pending) rest) :
      Moves s (.write m c)
        { s with
          point := .adding m pending rest
          clock := c.now
          files := writeFile printf setup s.files m c }
  | sleep {n now : Int} {interrupted : Bool} (hPoint : s.point = .sleeping n)
      (hMore : n < setup.interval) (hRunning : s.running = true) :
      Moves s (.sleep now interrupted)
        { s with point := .sleeping (n + 1), clock := now, running := !interrupted }
  | wake {n : Int} (hPoint : s.point = .sleeping n)
      (hDone : s.running = true → setup.interval ≤ n) : Moves s .wake { s with point := .test }
  | leave (hPoint : s.point = .test) (hStopped : s.running = false) :
      Moves s .leave { s with point := .stopping }
  | shutdown (hPoint : s.point = .stopping) : Moves s .shutdown { s with point := .returned }
  | apply (path : Bytes) :
      Moves s (.apply path)
        { s with
          files := Function.update s.files path
            (applyQueued { store := s.files path, acked := [], refused := [] }).store }
  | signal : Moves s .signal { s with running := false }

variable {printf setup}

theorem step_snap {s s' : State D} {a : Prom.Action D}
    (h : step printf setup s (.snap a) = some s') :
    ∃ snap point, Prom.step s.snap a = some snap ∧
      s.point.after setup s.running snap.position a = some point ∧
      s' = { s with point := point, snap := snap } := by
  simp only [step] at h
  cases hSnap : Prom.step s.snap a with
  | none => simp [hSnap] at h
  | some snap =>
      simp only [hSnap, Option.map_eq_some_iff] at h
      obtain ⟨point, hPoint, rfl⟩ := h
      exact ⟨snap, point, rfl, hPoint, rfl⟩

/-- Every step is one of these. -/
theorem step_cases {s s' : State D} {a : Move D} (h : step printf setup s a = some s') :
    Moves printf setup s a s' := by
  cases a with
  | snap a =>
      obtain ⟨snap, point, hSnap, hAfter, rfl⟩ := step_snap h
      cases a with
      | render ok =>
          obtain rfl : s.snap = snap := Option.some.inj hSnap
          obtain rfl : s.point = point := Option.some.inj hAfter
          exact .render ok
      | beginAlloc ok =>
          simp only [Point.after] at hAfter
          split at hAfter
          · rename_i hPoint
            split at hAfter
            · rename_i hRunning
              obtain rfl := Option.some.inj hAfter
              exact .beginAlloc hPoint hRunning hSnap
            · cases hAfter
          · cases hAfter
      | beginReset =>
          simp only [Point.after] at hAfter
          split at hAfter
          · rename_i hPoint
            obtain rfl := Option.some.inj hAfter
            exact .beginReset hPoint hSnap
          · cases hAfter
      | addAlloc m' ok =>
          simp only [Point.after] at hAfter
          split at hAfter
          · rename_i m pending rest hPoint
            split at hAfter
            · rename_i hMetric
              obtain rfl := Option.some.inj hAfter
              subst hMetric
              exact .addAlloc hPoint hSnap
            · cases hAfter
          · cases hAfter
      | publish =>
          simp only [Point.after] at hAfter
          split at hAfter
          · rename_i hPoint
            obtain rfl := Option.some.inj hAfter
            exact .publish hPoint hSnap
          · cases hAfter
      | addReserve fresh =>
          simp only [Point.after] at hAfter
          split at hAfter
          · rename_i m pending rest hPoint
            obtain rfl := Option.some.inj hAfter
            exact .add hPoint (Or.inr (Or.inr ⟨fresh, rfl⟩)) hSnap
          · cases hAfter
      | addCopy =>
          simp only [Point.after] at hAfter
          split at hAfter
          · rename_i m pending rest hPoint
            obtain rfl := Option.some.inj hAfter
            exact .add hPoint (Or.inl rfl) hSnap
          · cases hAfter
      | addCount =>
          simp only [Point.after] at hAfter
          split at hAfter
          · rename_i m pending rest hPoint
            obtain rfl := Option.some.inj hAfter
            exact .add hPoint (Or.inr (Or.inl rfl)) hSnap
          · cases hAfter
  | read src =>
      simp only [step] at h
      split at h
      · rename_i r rest hPoint
        obtain rfl := Option.some.inj h
        exact .read src hPoint
      · cases h
  | write m' c =>
      simp only [step] at h
      split at h
      · rename_i m pending rest hPoint
        split at h
        · rename_i hMetric
          obtain rfl := Option.some.inj h
          subst hMetric
          exact .write hPoint
        · cases h
      · cases h
  | sleep now interrupted =>
      simp only [step] at h
      split at h
      · rename_i n hPoint
        split at h
        · rename_i hGuard
          obtain rfl := Option.some.inj h
          exact .sleep hPoint hGuard.1 hGuard.2
        · cases h
      · cases h
  | wake =>
      simp only [step] at h
      split at h
      · rename_i n hPoint
        split at h
        · cases h
        · rename_i hDone
          obtain rfl := Option.some.inj h
          exact .wake hPoint fun hRunning => not_lt.mp fun hLt => hDone ⟨hLt, hRunning⟩
      · cases h
  | leave =>
      simp only [step] at h
      split at h
      · rename_i hPoint
        split at h
        · cases h
        · rename_i hStopped
          obtain rfl := Option.some.inj h
          exact .leave hPoint (Bool.eq_false_of_not_eq_true hStopped)
      · cases h
  | shutdown =>
      simp only [step] at h
      split at h
      · rename_i hPoint
        obtain rfl := Option.some.inj h
        exact .shutdown hPoint
      · cases h
  | apply path =>
      obtain rfl := Option.some.inj h
      exact .apply path
  | signal =>
      obtain rfl := Option.some.inj h
      exact .signal

end Code

end Loop
end SvgdCollect
