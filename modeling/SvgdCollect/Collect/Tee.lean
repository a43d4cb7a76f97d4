import SvgdCollect.Collect.Loop

/-!
# Two sinks for every metric

`emit_cb` hands a metric to `writer_write` and then to `prom_snapshot_add`.  The
snapshot counts cycles of its own; here they are compared with what the writer was
given and with what the readers produced, at every point of every run.
-/

namespace SvgdCollect
namespace Loop

open Lib

variable {D : Type}

/-! ## Cycle after cycle -/

section Cycles

variable [CDouble D]

/-- Successive cycles of the enabled readers, each with its own files: the metrics of
each, and the state of the cpu reader behind the last. -/
def collectCycles (enabled : List Reader) :
    CpuState → List (Reader → Sources) → CpuState × List (List (Metric D))
  | st, [] => (st, [])
  | st, srcs :: history =>
      let (st, metrics) := collectCycle srcs st enabled
      let (st, batches) := collectCycles enabled st history
      (st, metrics :: batches)

/-- A reader at the end of a cycle finds the state that the others leave. -/
theorem collectCycle_concat (srcs : Reader → Sources) (st : CpuState) (done : List Reader)
    (r : Reader) :
    (collectCycle srcs st (done ++ [r]) : CpuState × List (Metric D)) =
      ((r.read (srcs r) (collectCycle srcs st done : CpuState × List (Metric D)).1 :
          CpuState × ReadResult D).1,
        (collectCycle srcs st done).2 ++
          (r.read (srcs r) (collectCycle srcs st done : CpuState × List (Metric D)).1).2.metrics) := by
  induction done generalizing st with
  | nil => simp [collectCycle]
  | cons r' done ih => simp [collectCycle, ih]

/-- Only the files of the readers in the cycle matter. -/
theorem collectCycle_congr {srcs srcs' : Reader → Sources} {done : List Reader}
    (h : ∀ r ∈ done, srcs r = srcs' r) (st : CpuState) :
    (collectCycle srcs st done : CpuState × List (Metric D)) = collectCycle srcs' st done := by
  induction done generalizing st with
  | nil => rfl
  | cons r done ih =>
      have hRest := fun st => ih (fun r' hr' => h r' (List.mem_cons_of_mem r hr')) st
      simp only [collectCycle, h r List.mem_cons_self, hRest]

theorem collectCycles_concat (enabled : List Reader) (st : CpuState)
    (history : List (Reader → Sources)) (srcs : Reader → Sources) :
    (collectCycles enabled st (history ++ [srcs]) : CpuState × List (List (Metric D))) =
      ((collectCycle srcs (collectCycles (D := D) enabled st history).1 enabled :
          CpuState × List (Metric D)).1,
        (collectCycles enabled st history).2 ++
          [(collectCycle srcs (collectCycles (D := D) enabled st history).1 enabled).2]) := by
  induction history generalizing st with
  | nil => simp [collectCycles]
  | cons srcs' history ih => simp [collectCycles, ih]

/-- A metric of one of the cycles comes from a reader. -/
theorem mem_collectCycles {enabled : List Reader} {st : CpuState}
    {history : List (Reader → Sources)} {batch : List (Metric D)} {m : Metric D}
    (hBatch : batch ∈ (collectCycles enabled st history).2) (hm : m ∈ batch) :
    ∃ srcs ∈ history, ∃ r ∈ enabled, ∃ st',
      m ∈ (r.read (srcs r) st' : CpuState × ReadResult D).2.metrics := by
  induction history generalizing st with
  | nil => cases hBatch
  | cons srcs history ih =>
      rcases List.mem_cons.mp hBatch with rfl | hBatch
      · exact ⟨srcs, List.mem_cons_self, mem_collectCycle hm⟩
      · obtain ⟨srcs', hMem, hRest⟩ := ih hBatch
        exact ⟨srcs', List.mem_cons_of_mem srcs hMem, hRest⟩

end Cycles

/-! ## What the trace says -/

/-- The statements of the snapshot, with the renders between them. -/
def snapTrace (trace : List (Move D)) : List (Prom.Action D) :=
  trace.filterMap fun
    | .snap a => some a
    | _ => none

/-- The files that the readers have seen, in the order of the calls. -/
def readTrace (trace : List (Move D)) : List Sources :=
  trace.filterMap fun
    | .read src => some src
    | _ => none

/-- The metrics that `writer_write` has got. -/
def writeTrace (trace : List (Move D)) : List (Metric D) :=
  trace.filterMap fun
    | .write m _ => some m
    | _ => none

/-- The metrics that `writer_write` has got since the last `publish`. -/
def cycleWrites (trace : List (Move D)) : List (Metric D) :=
  trace.foldl (fun ms a =>
    match a with
    | .snap .publish => []
    | .write m _ => ms ++ [m]
    | _ => ms) []

theorem cycleWrites_concat_of_ne {trace : List (Move D)} {a : Move D}
    (hPublish : a ≠ .snap .publish) (hWrite : ∀ m c, a ≠ .write m c) :
    cycleWrites (trace ++ [a]) = cycleWrites trace := by
  cases a with
  | snap b =>
      cases b with
      | publish => exact absurd rfl hPublish
      | _ => simp [cycleWrites]
  | write m c => exact absurd rfl (hWrite m c)
  | _ => simp [cycleWrites]

/-! ## The position of the snapshot -/

/-- Inside `prom_snapshot_add` of a metric. -/
def InAdd (m : Metric D) (position : Prom.Position D) : Prop :=
  position = .addReserve m ∨ position = .addCopy m ∨ position = .addCount m

section Positions

variable {snap snap' : Prom.State D}

theorem position_stageBuffer {ok : Bool} (h : Prom.stageBuffer snap ok = some snap') :
    snap'.position = snap.position := by
  unfold Prom.stageBuffer at h
  split at h
  · obtain rfl := Option.some.inj h
    rfl
  · cases h
  · obtain rfl := Option.some.inj h
    rfl
  · obtain rfl := Option.some.inj h
    rfl

theorem position_beginAlloc {ok : Bool} (h : Prom.step snap (.beginAlloc ok) = some snap') :
    snap.position = .idle ∧ snap'.position = .beginReset := by
  simp only [Prom.step] at h
  split at h
  · rename_i hIdle
    obtain ⟨mid, -, rfl⟩ := Option.map_eq_some_iff.mp h
    exact ⟨hIdle, rfl⟩
  · cases h

theorem position_beginReset (h : Prom.step snap .beginReset = some snap') :
    snap'.position = .filling := by
  simp only [Prom.step] at h
  split at h
  · obtain rfl := Option.some.inj h
    rfl
  · obtain rfl := Option.some.inj h
    rfl
  · cases h

/-- A call either starts or, without a buffer, returns at once. -/
theorem position_addAlloc {m : Metric D} {ok : Bool}
    (h : Prom.step snap (.addAlloc m ok) = some snap') :
    snap.position = .filling ∧ (snap'.position = .filling ∨ snap'.position = .addReserve m) := by
  simp only [Prom.step] at h
  split at h
  · rename_i hFilling
    obtain ⟨mid, hMid, rfl⟩ := Option.map_eq_some_iff.mp h
    refine ⟨hFilling, ?_⟩
    cases mid.staged with
    | none => exact Or.inl ((position_stageBuffer hMid).trans hFilling)
    | some p => exact Or.inr rfl
  · cases h

/-- The later statements of a call in their order; the copy is left out if there is no room
for it. -/
theorem position_add_cases {a : Prom.Action D}
    (hAction : a = .addCopy ∨ a = .addCount ∨ ∃ fresh, a = .addReserve fresh)
    (h : Prom.step snap a = some snap') :
    ∃ m, snap.position = .addReserve m ∧ snap'.position = .addCopy m ∨
      snap.position = .addCopy m ∧
        (snap'.position = .addCount m ∨ snap'.position = .filling) ∨
      snap.position = .addCount m ∧ snap'.position = .filling := by
  rcases hAction with rfl | rfl | ⟨fresh, rfl⟩
  · simp only [Prom.step] at h
    split at h
    · rename_i m p hPosition hStaged
      refine ⟨m, Or.inr (Or.inl ⟨hPosition, ?_⟩)⟩
      split at h
      · obtain rfl := Option.some.inj h
        exact Or.inl rfl
      · obtain rfl := Option.some.inj h
        exact Or.inr rfl
    · cases h
  · simp only [Prom.step] at h
    split at h
    · rename_i m p hPosition hStaged
      refine ⟨m, Or.inr (Or.inr ⟨hPosition, ?_⟩)⟩
      split at h
      · obtain rfl := Option.some.inj h
        rfl
      · cases h
    · cases h
  · simp only [Prom.step] at h
    split at h
    · rename_i m p hPosition hStaged
      refine ⟨m, Or.inl ⟨hPosition, ?_⟩⟩
      split at h
      · obtain rfl := Option.some.inj h
        rfl
      · split at h
        · obtain rfl := Option.some.inj h
          rfl
        · cases h
    · cases h

/-- They go on with the metric of the call, or end it. -/
theorem position_add {m : Metric D} {a : Prom.Action D}
    (hAction : a = .addCopy ∨ a = .addCount ∨ ∃ fresh, a = .addReserve fresh)
    (hIn : InAdd m snap.position ∨ snap.position = .filling)
    (h : Prom.step snap a = some snap') :
    InAdd m snap.position ∧ (snap'.position = .filling ∨ InAdd m snap'.position) := by
  obtain ⟨m', hCases⟩ := position_add_cases hAction h
  have hIn' : InAdd m' snap.position := by
    rcases hCases with ⟨hFrom, -⟩ | ⟨hFrom, -⟩ | ⟨hFrom, -⟩
    · exact Or.inl hFrom
    · exact Or.inr (Or.inl hFrom)
    · exact Or.inr (Or.inr hFrom)
  obtain rfl : m' = m := by
    rcases hIn with (hEq | hEq | hEq) | hEq <;> rcases hIn' with hEq' | hEq' | hEq' <;>
      simp [hEq] at hEq' <;> exact hEq'.symm
  refine ⟨hIn', ?_⟩
  rcases hCases with ⟨-, hTo⟩ | ⟨-, hTo | hTo⟩ | ⟨-, hTo⟩
  · exact Or.inr (Or.inr (Or.inl hTo))
  · exact Or.inr (Or.inr (Or.inr hTo))
  · exact Or.inl hTo
  · exact Or.inl hTo

theorem position_publish (h : Prom.step snap .publish = some snap') : snap'.position = .idle := by
  simp only [Prom.step] at h
  split at h
  · obtain rfl := Option.some.inj h
    rfl
  · cases h

end Positions

/-! ## The invariant -/

section Runs

variable [CDouble D] {setup : Setup}

/-- The trace against the cycles of `history` and the one in progress.  In this one the
readers `done` have run on `srcs`; of what they emitted, `written` has gone to the writer
and `pending` has not. -/
structure Accounts (setup : Setup) (trace : List (Move D)) (s : State D)
    (history : List (Reader → Sources)) (srcs : Reader → Sources) (done : List Reader)
    (written pending : List (Metric D)) : Prop where
  reads : readTrace trace = history.flatMap (fun srcs => setup.enabled.map srcs) ++ done.map srcs
  cycle : collectCycle srcs (collectCycles (D := D) setup.enabled CpuState.initial history).1 done =
    (s.cpu, written ++ pending)
  writes : writeTrace trace =
    (collectCycles setup.enabled CpuState.initial history).2.flatten ++ written
  current : cycleWrites trace = written
  latest : (Prom.track (snapTrace trace)).latest.metrics =
    (collectCycles setup.enabled CpuState.initial history).2.getLastD []

/-- Where the snapshot stands at a point of the loop, and what it has counted of the cycle
in progress: everything the writer got, but for a metric that is in between. -/
def Point.Agrees (setup : Setup) (position : Prom.Position D) (counted : List (Metric D))
    (done : List Reader) (written pending : List (Metric D)) : Point D → Prop
  | .begun => position = .beginReset ∧ counted = [] ∧ done = [] ∧ written = [] ∧ pending = []
  | .reading pending' rest =>
      position = .filling ∧ setup.enabled = done ++ rest ∧ pending = pending' ∧ written = counted
  | .adding m pending' rest =>
      setup.enabled = done ++ rest ∧ pending = pending' ∧
        (position = .filling ∧ written = counted ++ [m] ∨ InAdd m position ∧ written = counted)
  | _ => position = .idle ∧ done = [] ∧ written = [] ∧ pending = []

/-- The invariant of the two sinks along a trace. -/
structure Coupled (setup : Setup) (trace : List (Move D)) (s : State D) : Prop where
  run : Lib.run Prom.step Prom.State.initial (snapTrace trace) = some s.snap
  agrees : ∃ history srcs done written pending,
    Accounts setup trace s history srcs done written pending ∧
      s.point.Agrees setup s.snap.position (Prom.track (snapTrace trace)).current.metrics
        done written pending

/-- The files in front of the first call of a reader. -/
def noSources : Sources :=
  { file := fun _ => none, dir := fun _ => none, statvfs := fun _ => none, pageSize := 4096
    isFileName := isFileName_of_no_dir }

/-- Nothing has been read, and there is nothing to agree on. -/
theorem coupled_start (setup : Setup) (files : Bytes → Store) (clock : Int) :
    Coupled (D := D) setup [] (start files clock) where
  run := rfl
  agrees := ⟨[], fun _ => noSources, [], [], [],
    ⟨rfl, rfl, rfl, rfl, rfl⟩, rfl, rfl, rfl, rfl⟩

omit [CDouble D] in
/-- The readers of the cycle in progress are enabled. -/
theorem Point.Agrees.subset {position : Prom.Position D} {counted written pending : List (Metric D)}
    {done : List Reader} {point : Point D}
    (h : point.Agrees setup position counted done written pending) : done ⊆ setup.enabled := by
  cases point with
  | begun =>
      obtain ⟨-, -, rfl, -⟩ := h
      exact List.nil_subset _
  | reading pending' rest =>
      rw [h.2.1]
      exact List.subset_append_left _ _
  | adding m pending' rest =>
      rw [h.1]
      exact List.subset_append_left _ _
  | _ =>
      obtain ⟨-, rfl, -⟩ := h
      exact List.nil_subset _

omit [CDouble D] in
theorem mem_readTrace {trace : List (Move D)} {src : Sources} :
    src ∈ readTrace trace ↔ .read src ∈ trace := by
  rw [readTrace, List.mem_filterMap]
  constructor
  · rintro ⟨a, ha, hSrc⟩
    split at hSrc
    · cases hSrc
      exact ha
    · cases hSrc
  · exact fun h => ⟨_, h, rfl⟩

/-- Every metric that the writer gets comes from an enabled reader and from what it has
seen. -/
theorem Coupled.emitted {trace : List (Move D)} {s : State D} (h : Coupled setup trace s)
    {m : Metric D} {c : Call} (hWrite : .write m c ∈ trace) :
    ∃ r ∈ setup.enabled, ∃ src, .read src ∈ trace ∧
      ∃ st, m ∈ (r.read src st : CpuState × ReadResult D).2.metrics := by
  obtain ⟨history, srcs, done, written, pending, hAccounts, hAgrees⟩ := h.agrees
  have hSeen : ∀ src ∈ history.flatMap (fun srcs => setup.enabled.map srcs) ++ done.map srcs,
      .read src ∈ trace := by
    rw [← hAccounts.reads]
    exact fun src => mem_readTrace.mp
  have hMem : m ∈ writeTrace trace := List.mem_filterMap.mpr ⟨_, hWrite, rfl⟩
  rw [hAccounts.writes] at hMem
  rcases List.mem_append.mp hMem with hOld | hCurrent
  · obtain ⟨batch, hBatch, hm⟩ := List.mem_flatten.mp hOld
    obtain ⟨srcs', hSrcs, r, hr, st, hRead⟩ := mem_collectCycles hBatch hm
    exact ⟨r, hr, srcs' r, hSeen _ (List.mem_append_left _
      (List.mem_flatMap.mpr ⟨srcs', hSrcs, List.mem_map_of_mem hr⟩)), st, hRead⟩
  · have hCycle : m ∈ (collectCycle srcs
        (collectCycles (D := D) setup.enabled CpuState.initial history).1 done).2 := by
      rw [hAccounts.cycle]
      exact List.mem_append_left _ hCurrent
    obtain ⟨r, hDone, st, hRead⟩ := mem_collectCycle hCycle
    exact ⟨r, hAgrees.subset hDone, srcs r,
      hSeen _ (List.mem_append_right _ (List.mem_map_of_mem hDone)), st, hRead⟩

/-! ## One step keeps the invariant -/

omit [CDouble D] in
theorem run_snap {trace : List (Move D)} {before after : Prom.State D} {a : Prom.Action D}
    (hRun : Lib.run Prom.step Prom.State.initial (snapTrace trace) = some before)
    (hStep : Prom.step before a = some after) :
    Lib.run Prom.step Prom.State.initial (snapTrace (trace ++ [.snap a])) = some after := by
  have hTrace : snapTrace (trace ++ [.snap a]) = snapTrace trace ++ [a] := by
    simp [snapTrace]
  rw [hTrace, run_append, hRun, Option.bind_some, run_cons, hStep]
  rfl

variable {trace : List (Move D)} {s s' : State D}

/-- A statement of the snapshot in front of `publish` changes what has been counted, but
reads and writes nothing. -/
theorem Coupled.snap (h : Coupled setup trace s) {a : Prom.Action D} {snap : Prom.State D}
    {point : Point D} (hSnap : Prom.step s.snap a = some snap) (hPublish : a ≠ .publish)
    (hAgrees : ∀ done written pending,
      s.point.Agrees setup s.snap.position (Prom.track (snapTrace trace)).current.metrics
          done written pending →
        point.Agrees setup snap.position
          ((Prom.track (snapTrace trace)).step a).current.metrics done written pending) :
    Coupled setup (trace ++ [.snap a]) { s with point := point, snap := snap } := by
  obtain ⟨history, srcs, done, written, pending, hAccounts, hPoint⟩ := h.agrees
  have hTrace : snapTrace (trace ++ [.snap a]) = snapTrace trace ++ [a] := by
    simp [snapTrace]
  have hLatest : ((Prom.track (snapTrace trace)).step a).latest =
      (Prom.track (snapTrace trace)).latest := by
    cases a with
    | publish => exact absurd rfl hPublish
    | _ => rfl
  have hCurrent : cycleWrites (trace ++ [.snap a]) = cycleWrites trace :=
    cycleWrites_concat_of_ne (fun hEq => hPublish (Move.snap.inj hEq)) nofun
  refine ⟨run_snap h.run hSnap, history, srcs, done, written, pending,
    ⟨?_, hAccounts.cycle, ?_, hCurrent.trans hAccounts.current, ?_⟩, ?_⟩
  · simpa [readTrace] using hAccounts.reads
  · simpa [writeTrace] using hAccounts.writes
  · rw [hTrace, Prom.track_append_singleton, hLatest]
    exact hAccounts.latest
  · rw [hTrace, Prom.track_append_singleton]
    exact hAgrees _ _ _ hPoint

theorem coupled_beginAlloc {ok : Bool} {snap : Prom.State D} (h : Coupled setup trace s)
    (hPoint : s.point = .test) (hSnap : Prom.step s.snap (.beginAlloc ok) = some snap) :
    Coupled setup (trace ++ [.snap (.beginAlloc ok)])
      { s with point := .begun, snap := snap } := by
  refine h.snap hSnap nofun fun done written pending hAgrees => ?_
  rw [hPoint] at hAgrees
  obtain ⟨-, hDone, hWritten, hPending⟩ := hAgrees
  exact ⟨(position_beginAlloc hSnap).2, rfl, hDone, hWritten, hPending⟩

theorem coupled_beginReset {snap : Prom.State D} (h : Coupled setup trace s)
    (hPoint : s.point = .begun) (hSnap : Prom.step s.snap .beginReset = some snap) :
    Coupled setup (trace ++ [.snap .beginReset])
      { s with point := .reading [] setup.enabled, snap := snap } := by
  refine h.snap hSnap nofun fun done written pending hAgrees => ?_
  rw [hPoint] at hAgrees
  obtain ⟨-, hCounted, rfl, rfl, rfl⟩ := hAgrees
  exact ⟨position_beginReset hSnap, rfl, rfl, hCounted.symm⟩

theorem coupled_addAlloc {m : Metric D} {pending' : List (Metric D)} {rest : List Reader}
    {ok : Bool} {snap : Prom.State D} (h : Coupled setup trace s)
    (hPoint : s.point = .adding m pending' rest)
    (hSnap : Prom.step s.snap (.addAlloc m ok) = some snap) :
    Coupled setup (trace ++ [.snap (.addAlloc m ok)])
      { s with point := Point.afterAdd m pending' rest snap.position, snap := snap } := by
  obtain ⟨hFilling, hAfter⟩ := position_addAlloc hSnap
  refine h.snap hSnap nofun fun done written pending hAgrees => ?_
  rw [hPoint] at hAgrees
  obtain ⟨hDone, hPending, ⟨-, hWritten⟩ | ⟨hIn, -⟩⟩ := hAgrees
  · rcases hAfter with hAfter | hAfter <;> rw [hAfter]
    · exact ⟨rfl, hDone, hPending, hWritten⟩
    · exact ⟨hDone, hPending, Or.inr ⟨Or.inl rfl, hWritten⟩⟩
  · rcases hIn with hIn | hIn | hIn <;> simp [hFilling] at hIn

theorem coupled_add {m : Metric D} {pending' : List (Metric D)} {rest : List Reader}
    {a : Prom.Action D} {snap : Prom.State D} (h : Coupled setup trace s)
    (hPoint : s.point = .adding m pending' rest)
    (hAction : a = .addCopy ∨ a = .addCount ∨ ∃ fresh, a = .addReserve fresh)
    (hSnap : Prom.step s.snap a = some snap) :
    Coupled setup (trace ++ [.snap a])
      { s with point := Point.afterAdd m pending' rest snap.position, snap := snap } := by
  have hSame : ((Prom.track (snapTrace trace)).step a).current.metrics =
      (Prom.track (snapTrace trace)).current.metrics := by
    rcases hAction with rfl | rfl | ⟨fresh, rfl⟩ <;> rfl
  have hPublish : a ≠ .publish := by
    rcases hAction with rfl | rfl | ⟨fresh, rfl⟩ <;> exact nofun
  refine h.snap hSnap hPublish fun done written pending hAgrees => ?_
  rw [hPoint] at hAgrees
  rw [hSame]
  obtain ⟨hDone, hPending, hPosition⟩ := hAgrees
  have hStart : InAdd m s.snap.position ∨ s.snap.position = .filling :=
    hPosition.symm.imp And.left And.left
  obtain ⟨hIn, hAfter⟩ := position_add hAction hStart hSnap
  have hWritten : written = (Prom.track (snapTrace trace)).current.metrics := by
    rcases hPosition with ⟨hFilling, -⟩ | ⟨-, hWritten⟩
    · rcases hIn with hIn | hIn | hIn <;> simp [hFilling] at hIn
    · exact hWritten
  rcases hAfter with hAfter | hAfter
  · rw [hAfter]
    exact ⟨rfl, hDone, hPending, hWritten⟩
  · have hPoint' : Point.afterAdd m pending' rest snap.position = .adding m pending' rest := by
      rcases hAfter with hEq | hEq | hEq <;> rw [hEq] <;> rfl
    rw [hPoint']
    exact ⟨hDone, hPending, Or.inr ⟨hAfter, hWritten⟩⟩

/-- The cycle is complete: it becomes part of the history. -/
theorem coupled_publish {snap : Prom.State D} (h : Coupled setup trace s)
    (hPoint : s.point = .reading [] []) (hSnap : Prom.step s.snap .publish = some snap) :
    Coupled setup (trace ++ [.snap .publish])
      { s with point := .sleeping 0, snap := snap } := by
  obtain ⟨history, srcs, done, written, pending, hAccounts, hAgrees⟩ := h.agrees
  rw [hPoint] at hAgrees
  obtain ⟨-, hDone, rfl, hWritten⟩ := hAgrees
  obtain rfl : setup.enabled = done := by simpa using hDone
  have hCycle := hAccounts.cycle
  rw [List.append_nil] at hCycle
  have hTrace : snapTrace (trace ++ [.snap .publish]) = snapTrace trace ++ [.publish] := by
    simp [snapTrace]
  refine ⟨run_snap h.run hSnap, history ++ [srcs], srcs, [], [], [],
    ⟨?_, ?_, ?_, by simp [cycleWrites], ?_⟩, position_publish hSnap, rfl, rfl, rfl⟩
  · simpa [readTrace] using hAccounts.reads
  · simp [collectCycles_concat, collectCycle, hCycle]
  · simpa [writeTrace, collectCycles_concat, hCycle] using hAccounts.writes
  · rw [hTrace, Prom.track_append_singleton, collectCycles_concat, hCycle]
    simpa [Prom.Track.step] using hWritten.symm

/-- The next reader runs on files of its own. -/
theorem coupled_read {r : Reader} {rest : List Reader} (src : Sources)
    (h : Coupled setup trace s) (hPoint : s.point = .reading [] (r :: rest)) :
    Coupled setup (trace ++ [.read src])
      { s with
        point := .reading (r.read src s.cpu).2.metrics rest
        cpu := (r.read src s.cpu : CpuState × ReadResult D).1 } := by
  obtain ⟨history, srcs, done, written, pending, hAccounts, hAgrees⟩ := h.agrees
  rw [hPoint] at hAgrees
  obtain ⟨hFilling, hDone, rfl, hWritten⟩ := hAgrees
  have hNew : r ∉ done := by
    have hNodup := setup.nodup
    rw [hDone, List.nodup_append] at hNodup
    exact fun hMem => hNodup.2.2 r hMem r List.mem_cons_self rfl
  have hOld : ∀ r' ∈ done, Function.update srcs r src r' = srcs r' := fun r' hr' =>
    Function.update_of_ne (fun hEq : r' = r => hNew (hEq ▸ hr')) _ _
  have hTrace : snapTrace (trace ++ [.read src]) = snapTrace trace := by
    simp [snapTrace]
  refine ⟨hTrace ▸ h.run, history, Function.update srcs r src, done ++ [r], written,
    (r.read src s.cpu).2.metrics, ⟨?_, ?_, ?_, ?_, ?_⟩, hFilling, by simp [hDone], rfl, ?_⟩
  · have hReads := hAccounts.reads
    simp only [readTrace] at hReads
    simp [readTrace, hReads, List.map_congr_left hOld]
  · rw [collectCycle_concat, collectCycle_congr hOld, hAccounts.cycle]
    simp
  · simpa [writeTrace] using hAccounts.writes
  · have hCurrent : cycleWrites (trace ++ [.read src]) = cycleWrites trace :=
      cycleWrites_concat_of_ne nofun nofun
    exact hCurrent.trans hAccounts.current
  · rw [hTrace]
    exact hAccounts.latest
  · rw [hTrace]
    exact hWritten

/-- Other moves touch neither sink. -/
theorem Coupled.frame (h : Coupled setup trace s) {a : Move D}
    (hSnapTrace : snapTrace (trace ++ [a]) = snapTrace trace)
    (hReadTrace : readTrace (trace ++ [a]) = readTrace trace)
    (hWriteTrace : writeTrace (trace ++ [a]) = writeTrace trace)
    (hCycleWrites : cycleWrites (trace ++ [a]) = cycleWrites trace)
    (hSnap : s'.snap = s.snap) (hCpu : s'.cpu = s.cpu)
    (hPoint : ∀ position counted done written pending,
      s.point.Agrees setup position counted done written pending →
        s'.point.Agrees setup position counted done written pending) :
    Coupled setup (trace ++ [a]) s' := by
  obtain ⟨history, srcs, done, written, pending, hAccounts, hAgrees⟩ := h.agrees
  refine ⟨by rw [hSnapTrace, hSnap]; exact h.run, history, srcs, done, written, pending,
    ⟨?_, ?_, ?_, hCycleWrites.trans hAccounts.current, ?_⟩, ?_⟩
  · rw [hReadTrace]
    exact hAccounts.reads
  · rw [hCpu]
    exact hAccounts.cycle
  · rw [hWriteTrace]
    exact hAccounts.writes
  · rw [hSnapTrace]
    exact hAccounts.latest
  · rw [hSnapTrace, hSnap]
    exact hPoint _ _ _ _ _ hAgrees

variable [Inhabited D] {printf : Printf D}

theorem coupled_write {m : Metric D} {pending' : List (Metric D)} {rest : List Reader}
    {c : Call} (h : Coupled setup trace s) (hPoint : s.point = .reading (m :: pending') rest) :
    Coupled setup (trace ++ [.write m c])
      { s with
        point := .adding m pending' rest
        clock := c.now
        files := writeFile printf setup s.files m c } := by
  obtain ⟨history, srcs, done, written, pending, hAccounts, hAgrees⟩ := h.agrees
  rw [hPoint] at hAgrees
  obtain ⟨hFilling, hDone, rfl, hWritten⟩ := hAgrees
  have hTrace : snapTrace (trace ++ [.write m c]) = snapTrace trace := by
    simp [snapTrace]
  refine ⟨hTrace ▸ h.run, history, srcs, done, written ++ [m], pending',
    ⟨?_, ?_, ?_, ?_, ?_⟩, hDone, rfl, Or.inl ⟨hFilling, ?_⟩⟩
  · simpa [readTrace] using hAccounts.reads
  · simpa using hAccounts.cycle
  · have hWrites := hAccounts.writes
    simp only [writeTrace] at hWrites
    simp [writeTrace, hWrites]
  · have hCurrent := hAccounts.current
    simp only [cycleWrites] at hCurrent
    simp [cycleWrites, hCurrent]
  · rw [hTrace]
    exact hAccounts.latest
  · rw [hTrace, hWritten]

variable [DecidableEq D]

theorem coupled_step {a : Move D} (h : Coupled setup trace s)
    (hStep : step printf setup s a = some s') : Coupled setup (trace ++ [a]) s' := by
  cases step_cases hStep with
  | render ok =>
      have hSnap : Prom.step s.snap (.render ok) = some s.snap := rfl
      exact h.snap hSnap nofun fun _ _ _ hAgrees => hAgrees
  | beginAlloc hPoint hRunning hSnap => exact coupled_beginAlloc h hPoint hSnap
  | beginReset hPoint hSnap => exact coupled_beginReset h hPoint hSnap
  | addAlloc hPoint hSnap => exact coupled_addAlloc h hPoint hSnap
  | add hPoint hAction hSnap => exact coupled_add h hPoint hAction hSnap
  | publish hPoint hSnap => exact coupled_publish h hPoint hSnap
  | read src hPoint => exact coupled_read src h hPoint
  | write hPoint => exact coupled_write h hPoint
  | apply path | signal =>
      exact h.frame (by simp [snapTrace]) (by simp [readTrace]) (by simp [writeTrace])
        (cycleWrites_concat_of_ne nofun nofun) rfl rfl fun _ _ _ _ _ hAgrees => hAgrees
  | sleep hPoint | wake hPoint | leave hPoint | shutdown hPoint =>
      refine h.frame (by simp [snapTrace]) (by simp [readTrace]) (by simp [writeTrace])
        (cycleWrites_concat_of_ne nofun nofun) rfl rfl ?_
      intro position counted done written pending hAgrees
      rw [hPoint] at hAgrees
      exact hAgrees

theorem coupled_of_run {files : Bytes → Store} {clock : Int}
    (hRun : Lib.run (step printf setup) (start files clock) trace = some s) :
    Coupled setup trace s :=
  run_invariant (Coupled setup) (coupled_start setup files clock)
    (fun _ _ _ _ h hStep => coupled_step h hStep) hRun

/-! ## Both sinks get the same cycles -/

/-- **Writer and exposition agree.**  After any run, with renders between any two
statements and allocations failing anywhere, the trace splits into cycles: the readers
have run on the files that the trace lists, cycle after cycle, and the writer has got
their metrics in order, those of the cycle in progress up to the current one.  A render
copies some of the metrics of the last published cycle, and all of them if no allocation
failed in it and the render gets its own memory. -/
theorem writer_and_render_share_cycles {files : Bytes → Store} {clock : Int}
    {trace : List (Move D)} {s : State D}
    (hRun : Lib.run (step printf setup) (start files clock) trace = some s) :
    ∃ history srcs done written pending,
      done <+: setup.enabled ∧
      readTrace trace = history.flatMap (fun srcs => setup.enabled.map srcs) ++ done.map srcs ∧
      (collectCycle srcs (collectCycles (D := D) setup.enabled CpuState.initial history).1 done) =
        (s.cpu, written ++ pending) ∧
      writeTrace trace =
        (collectCycles setup.enabled CpuState.initial history).2.flatten ++ written ∧
      ∀ ok,
        (Prom.promRenderCopy s.snap ok).Sublist
          (((collectCycles setup.enabled CpuState.initial history).2.getLastD []).map
            Prom.copyMetric) ∧
        ((Prom.latestCycle (snapTrace trace)).failed = false → ok = true →
          Prom.promRenderCopy s.snap ok =
            ((collectCycles setup.enabled CpuState.initial history).2.getLastD []).map
              Prom.copyMetric) := by
  have h := coupled_of_run hRun
  have hInv := Prom.inv_of_run h.run
  obtain ⟨history, srcs, done, written, pending, hAccounts, hAgrees⟩ := h.agrees
  refine ⟨history, srcs, done, written, pending, ?_, hAccounts.reads, hAccounts.cycle,
    hAccounts.writes, fun ok => ?_⟩
  · cases hPoint : s.point with
    | reading pending' rest =>
        rw [hPoint] at hAgrees
        exact ⟨rest, hAgrees.2.1.symm⟩
    | adding m pending' rest =>
        rw [hPoint] at hAgrees
        exact ⟨rest, hAgrees.1.symm⟩
    | begun =>
        rw [hPoint] at hAgrees
        rw [hAgrees.2.2.1]
        exact List.nil_prefix
    | _ =>
        rw [hPoint] at hAgrees
        rw [hAgrees.2.1]
        exact List.nil_prefix
  · rw [← hAccounts.latest]
    have hPublished := hInv.published
    refine ⟨?_, fun hFailed hOk => ?_⟩
    · rcases Prom.promRenderCopy_eq s.snap ok with hNil | hAll
      · rw [hNil]
        exact List.nil_sublist _
      · rw [hAll]
        exact hPublished.1
    · subst hOk
      rw [Prom.promRenderCopy_true]
      exact hPublished.2 hFailed

end Runs

/-- Swap space of four kilobytes, one of them free. -/
def swapSources : Sources :=
  { noSources with
    file := fun path =>
      if path = ascii "/proc/meminfo" then some (ascii "SwapTotal: 4 kB\nSwapFree: 1 kB\n") else none
    isFileName := isFileName_of_no_dir }

def swapSetup : Setup :=
  { interval := 1, writer := daemonWriter, enabled := [.swap], one_le := by decide
    nodup := by decide }

/-- What `emit_cb` does with a metric when nothing fails. -/
def emitMoves (m : Metric Double) : List (Move Double) :=
  [.write m ⟨10, true, .ok⟩, .snap (.addAlloc m true),
    .snap (.addReserve (some fun _ => Prom.copyMetric m)), .snap .addCopy, .snap .addCount]

/-- The first cycle. -/
def swapTrace : List (Move Double) :=
  [.snap (.beginAlloc true), .snap .beginReset, .read swapSources] ++
    (emitMoves (swapMetric "used" 3) ++ (emitMoves (swapMetric "free" 1) ++ [.snap .publish]))

set_option maxRecDepth 20000 in
theorem swapTrace_runs :
    ∃ s, Lib.run (step integralPrintf swapSetup) (start (fun _ => ⟨none, []⟩) 5) swapTrace =
      some s :=
  Option.isSome_iff_exists.mp (by decide +kernel)

theorem swap_cycle_is_shared :
    ∃ s history written,
      Lib.run (step integralPrintf swapSetup) (start (fun _ => ⟨none, []⟩) 5) swapTrace = some s ∧
      writeTrace swapTrace =
        (collectCycles swapSetup.enabled CpuState.initial history).2.flatten ++ written ∧
      ∀ ok, (Prom.promRenderCopy s.snap ok).Sublist
        (((collectCycles swapSetup.enabled CpuState.initial history).2.getLastD []).map
          Prom.copyMetric) := by
  obtain ⟨s, hRun⟩ := swapTrace_runs
  obtain ⟨history, srcs, done, written, pending, -, -, -, hWrites, hRender⟩ :=
    writer_and_render_share_cycles hRun
  exact ⟨s, history, written, hRun, hWrites, fun ok => (hRender ok).1⟩

end Loop
end SvgdCollect
