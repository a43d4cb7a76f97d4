import SvgdCollect.Collect.Tee
import SvgdCollect.Series
import SvgdCollect.Writer.Directories
import SvgdCollect.Writer.Values

/-!
# The files of a running collector

The calls of the writer were described for one file at a time, under the assumption that
they come at increasing seconds.  In the loop that is a result: a file gets one sample in
a cycle, since the series of a cycle have paths of their own, and the interval goes by in
front of the next cycle.  So what was said about one file holds for every file of a run.

It is a result about runs in which nobody sets the clock back, and about names without
slashes: with them, two paths of one cycle can lead to the same file.
-/

namespace SvgdCollect
namespace Loop

open Lib

variable {D : Type}

/-! ## The trace of a file -/

/-- What a trace says about one file. -/
def fileTrace (w : Writer) (path : Bytes) (trace : List (Move D)) : List (Event D) :=
  trace.filterMap fun
    | .write m c => if writerPath w m = some path then some (.write m c) else none
    | .apply path' => if path' = path then some .apply else none
    | _ => none

/-- The last second of a file at the start, and the seconds of the calls on it. -/
def stamps (files : Bytes → Store) (w : Writer) (path : Bytes) (trace : List (Move D)) :
    List Int :=
  (files path).last.toList ++ seconds (fileTrace w path trace)

/-! ## The clock -/

/-- The second behind a move. -/
def Move.clock (before : Int) : Move D → Int
  | .write _ c => c.now
  | .sleep now _ => now
  | _ => before

/-- The clock is not set back, and a sleep that no signal ends takes a second of it. -/
def Move.OnTime (before : Int) : Move D → Prop
  | .write _ c => before ≤ c.now
  | .sleep now interrupted => before ≤ now ∧ (interrupted = false → before + 1 ≤ now)
  | _ => True

instance (before : Int) (a : Move D) : Decidable (a.OnTime before) :=
  match a with
  | .write _ c => inferInstanceAs (Decidable (before ≤ c.now))
  | .sleep now interrupted =>
      inferInstanceAs (Decidable (before ≤ now ∧ (interrupted = false → before + 1 ≤ now)))
  | .snap _ | .read _ | .wake | .leave | .shutdown | .apply _ | .signal => .isTrue trivial

/-- The second behind a trace. -/
def clockAfter (clock : Int) (trace : List (Move D)) : Int := trace.foldl Move.clock clock

/-- So it is in a whole trace from a second on. -/
def OnTime (clock : Int) : List (Move D) → Prop
  | [] => True
  | a :: trace => a.OnTime clock ∧ OnTime (a.clock clock) trace

instance decidableOnTime (clock : Int) : (trace : List (Move D)) → Decidable (OnTime clock trace)
  | [] => .isTrue trivial
  | a :: trace =>
      have := decidableOnTime (a.clock clock) trace
      inferInstanceAs (Decidable (_ ∧ _))

theorem onTime_concat {clock : Int} {trace : List (Move D)} {a : Move D} :
    OnTime clock (trace ++ [a]) ↔ OnTime clock trace ∧ a.OnTime (clockAfter clock trace) := by
  induction trace generalizing clock with
  | nil => simp [OnTime, clockAfter]
  | cons b trace ih =>
      have hClock : clockAfter clock (b :: trace) = clockAfter (b.clock clock) trace := rfl
      rw [List.cons_append, OnTime, OnTime, ih, hClock, and_assoc]

/-- The daemon applies an update whatever has been acknowledged and refused so far. -/
theorem store_applyQueued {p p' : Progress} (h : p.store = p'.store) :
    (applyQueued p).store = (applyQueued p').store := by
  unfold applyQueued
  rw [h]
  split
  · exact h
  · split <;> rfl

variable {setup : Setup} {files : Bytes → Store} {clock : Int} {trace : List (Move D)}
  {s s' : State D}

/-! ## The seconds of a file -/

/-- The calls on the file, if its next one may come at once, are `k` seconds old. -/
def Point.Waited (interval : Int) (w : Writer) (path : Bytes) (running : Bool)
    (written : List (Metric D)) (k : Int) : Point D → Prop
  | .test => running = true ∧ k = interval
  | .begun => k = interval
  | .reading _ _ => (∀ m ∈ written, writerPath w m ≠ some path) ∧ k = interval
  | .adding _ _ _ => (∀ m ∈ written, writerPath w m ≠ some path) ∧ k = interval
  | .sleeping n => running = true ∧ k = n
  | _ => False

/-- Inside a cycle nothing changes for a file until its metric is written. -/
theorem waited_of_afterAdd {interval k : Int} {w : Writer} {path : Bytes} {running : Bool}
    {written : List (Metric D)} {m : Metric D} {pending : List (Metric D)} {rest : List Reader}
    {position : Prom.Position D}
    (h : (Point.afterAdd m pending rest position).Waited interval w path running written k) :
    (Point.adding m pending rest).Waited interval w path running written k := by
  unfold Point.afterAdd at h
  split at h <;> exact h

/-- The invariant of the clock: the calls on a file are an interval apart, none is from the
future, and while no call on the file can follow at once the seconds since the last one are
counted. -/
structure Spaced (setup : Setup) (clock : Int) (trace : List (Move D)) (s : State D)
    (path : Bytes) : Prop where
  apart : (seconds (fileTrace setup.writer path trace)).Pairwise (· + setup.interval ≤ ·)
  since : ∀ t ∈ seconds (fileTrace setup.writer path trace), clock ≤ t
  past : ∀ t ∈ seconds (fileTrace setup.writer path trace), t ≤ s.clock
  later : clock ≤ s.clock
  waited : ∀ k, s.point.Waited setup.interval setup.writer path s.running (cycleWrites trace) k →
    ∀ t ∈ seconds (fileTrace setup.writer path trace), t + k ≤ s.clock

theorem spaced_start (path : Bytes) :
    Spaced setup clock [] (start files clock : State D) path where
  apart := List.Pairwise.nil
  since := nofun
  past := nofun
  later := le_rfl
  waited := nofun

/-- The files have their last samples from in front of the start. -/
def OlderThan (files : Bytes → Store) (clock : Int) : Prop :=
  ∀ path, ∀ l ∈ (files path).last, l < clock

/-- What the file held at the start is older than the calls, and these are in order. -/
theorem Spaced.sorted {path : Bytes} (h : Spaced setup clock trace s path)
    (hOlder : OlderThan files clock) :
    (stamps files setup.writer path trace).Pairwise (· < ·) ∧
      ∀ t ∈ stamps files setup.writer path trace, t ≤ s.clock := by
  have hPositive := setup.one_le
  have hBefore : ∀ l ∈ (files path).last.toList, l < clock := fun l hl =>
    hOlder path l (Option.mem_toList.mp hl)
  have hLater := h.later
  constructor
  · rw [stamps, List.pairwise_append]
    refine ⟨?_, h.apart.imp fun hApart => by omega, fun l hl t ht => ?_⟩
    · cases (files path).last <;> simp
    · exact lt_of_lt_of_le (hBefore l hl) (h.since t ht)
  · intro t ht
    rcases List.mem_append.mp ht with ht | ht
    · have hOld := hBefore t ht
      omega
    · exact h.past t ht

/-- Moves that are no calls leave the calls alone. -/
theorem Spaced.frame {path : Bytes} (h : Spaced setup clock trace s path) {a : Move D}
    (hCalls : seconds (fileTrace setup.writer path (trace ++ [a])) =
      seconds (fileTrace setup.writer path trace))
    (hClock : s.clock ≤ s'.clock)
    (hWaited : ∀ k', s'.point.Waited setup.interval setup.writer path s'.running
        (cycleWrites (trace ++ [a])) k' → k' ≤ 0 ∨
      ∃ k, s.point.Waited setup.interval setup.writer path s.running (cycleWrites trace) k ∧
        k' + s.clock ≤ k + s'.clock) :
    Spaced setup clock (trace ++ [a]) s' path := by
  refine ⟨?_, ?_, ?_, le_trans h.later hClock, fun k' hk' => ?_⟩ <;> rw [hCalls]
  · exact h.apart
  · exact h.since
  · exact fun t ht => le_trans (h.past t ht) hClock
  · intro t ht
    rcases hWaited k' hk' with hNow | ⟨k, hk, hLonger⟩
    · have hPast := h.past t ht
      omega
    · have hBefore := h.waited k hk t ht
      omega

theorem seconds_concat_of_ne {path : Bytes} {a : Move D}
    (h : ∀ m c, a = .write m c → writerPath setup.writer m ≠ some path) :
    seconds (fileTrace setup.writer path (trace ++ [a])) =
      seconds (fileTrace setup.writer path trace) := by
  cases a with
  | write m c => simp [fileTrace, h m c rfl]
  | apply path' =>
      by_cases hPath : path' = path <;> simp [fileTrace, hPath, seconds]
  | _ => simp [fileTrace]

/-- A move of the cycle in progress that is no call. -/
theorem Spaced.quiet {path : Bytes} (h : Spaced setup clock trace s path) {a : Move D}
    (hPublish : a ≠ .snap .publish) (hWrite : ∀ m c, a ≠ .write m c) (hClock : s.clock ≤ s'.clock)
    (hWaited : ∀ k', s'.point.Waited setup.interval setup.writer path s'.running
        (cycleWrites trace) k' →
      ∃ k, s.point.Waited setup.interval setup.writer path s.running (cycleWrites trace) k ∧
        k' + s.clock ≤ k + s'.clock) :
    Spaced setup clock (trace ++ [a]) s' path := by
  refine h.frame (seconds_concat_of_ne fun m c hEq => absurd hEq (hWrite m c)) hClock ?_
  rw [cycleWrites_concat_of_ne hPublish hWrite]
  exact fun k' hk' => Or.inr (hWaited k' hk')

/-! ## One step -/

/-- The names that a reader finds are distinct, whenever it looks. -/
def NamesDistinct (trace : List (Move D)) : Prop :=
  ∀ src, .read src ∈ trace → DistinctNames fun _ => src

theorem NamesDistinct.init {a : Move D} (h : NamesDistinct (trace ++ [a])) :
    NamesDistinct trace :=
  fun src hSrc => h src (List.mem_append_left _ hSrc)

/-- And they hold no slashes. -/
def NamesSlashFree (trace : List (Move D)) : Prop :=
  ∀ src, .read src ∈ trace → ∀ r : Reader, r.NamesSlashFree src

/-- No two paths of a trace lead to one file. -/
def PathsApart (cwd : Location Bytes) (w : Writer) (trace : List (Move D)) : Prop :=
  ∀ m c m' c' out out', .write m c ∈ trace → .write m' c' ∈ trace →
    writerPath w m = some out → writerPath w m' = some out' →
      fileOf cwd out = fileOf cwd out' → out = out'

/-- The seconds of the calls on a file, whatever their paths look like. -/
def callsOn (cwd : Location Bytes) (w : Writer) (file : Location Bytes)
    (trace : List (Move D)) : List Int :=
  trace.filterMap fun
    | .write m c => if (writerPath w m).map (fileOf cwd) = some file then some c.now else none
    | _ => none

/-- If no two paths lead to one file, the calls on it are those on its path. -/
theorem PathsApart.callsOn_cases {cwd : Location Bytes} {w : Writer}
    (h : PathsApart cwd w trace) (file : Location Bytes) :
    callsOn cwd w file trace = [] ∨
      ∃ path, callsOn cwd w file trace = seconds (fileTrace w path trace) := by
  by_cases hFile : ∃ m c out, .write m c ∈ trace ∧ writerPath w m = some out ∧ fileOf cwd out = file
  · obtain ⟨m, c, out, hWrite, hPath, rfl⟩ := hFile
    refine Or.inr ⟨out, ?_⟩
    rw [callsOn, seconds, fileTrace, List.filterMap_filterMap]
    refine List.filterMap_congr fun a ha => ?_
    cases a with
    | write m' c' =>
        by_cases hSame : writerPath w m' = some out
        · simp [hSame]
        · have hOther : (writerPath w m').map (fileOf cwd) ≠ some (fileOf cwd out) := by
            rw [ne_eq, Option.map_eq_some_iff]
            rintro ⟨out', hPath', hEq⟩
            exact hSame (h m' c' m c out' out ha hWrite hPath' hPath hEq ▸ hPath')
          simp only [if_neg hOther, if_neg hSame, Option.bind_none]
    | apply path' => by_cases hApply : path' = out <;> simp [hApply]
    | _ => rfl
  · refine Or.inl (List.filterMap_eq_nil_iff.mpr fun a ha => ?_)
    cases a with
    | write m c =>
        have hNone : (writerPath w m).map (fileOf cwd) ≠ some file := by
          rw [ne_eq, Option.map_eq_some_iff]
          rintro ⟨out, hPath, hEq⟩
          exact hFile ⟨m, c, out, ha, hPath, hEq⟩
        exact if_neg hNone
    | _ => rfl

theorem distinctNames_of_forall {srcs : Reader → Sources}
    (h : ∀ r, DistinctNames fun _ => srcs r) : DistinctNames srcs where
  interfaces := (h .interface).interfaces
  disks := (h .disk).disks
  mounts := (h .df).mounts
  zones := (h .thermal).zones

theorem distinctNames_noSources : DistinctNames fun _ => noSources where
  interfaces := nofun
  disks := nofun
  mounts := nofun
  zones := nofun

section Readers

variable [CDouble D]

/-- A path belongs to one series. -/
theorem series_eq_of_writerPath {w : Writer} {r r' : Reader} {m m' : Metric D} {path : Bytes}
    (h : Shape r m) (h' : Shape r' m') (hPath : writerPath w m = some path)
    (hPath' : writerPath w m' = some path) : m.series = m'.series := by
  have hEq := (writerPath_eq_some hPath).symm.trans (writerPath_eq_some hPath')
  exact series_eq_of_fullPath_eq h h' (List.append_cancel_right hEq)

/-- The names decide whether two paths can lead to one file. -/
theorem Coupled.pathsApart (h : Coupled setup trace s) (hSlash : NamesSlashFree trace)
    (cwd : Location Bytes) : PathsApart cwd setup.writer trace := by
  have hEmitted : ∀ m c, .write m c ∈ trace → ∃ r, Shape r m ∧ SlashFree m := by
    intro m c hWrite
    obtain ⟨r, -, src, hSeen, st, hRead⟩ := h.emitted hWrite
    exact ⟨r, shape_of_mem_read hRead, slashFree_read_iff.mpr (hSlash src hSeen r) st m hRead⟩
  intro m c m' c' out out' hWrite hWrite' hPath hPath' hFile
  obtain ⟨r, hShape, hFree⟩ := hEmitted m c hWrite
  obtain ⟨r', hShape', hFree'⟩ := hEmitted m' c' hWrite'
  exact path_eq_of_fileOf_eq hShape hShape' hFree hFree' hPath hPath' hFile

/-- The next metric of a cycle goes to a file that the cycle has not written. -/
theorem Coupled.path_new (h : Coupled setup trace s) (hNames : NamesDistinct trace)
    {m : Metric D} {pending : List (Metric D)} {rest : List Reader}
    (hPoint : s.point = .reading (m :: pending) rest) {path : Bytes}
    (hPath : writerPath setup.writer m = some path) :
    ∀ m' ∈ cycleWrites trace, writerPath setup.writer m' ≠ some path := by
  obtain ⟨history, srcs, done, written, pending', hAccounts, hAgrees⟩ := h.agrees
  rw [hPoint] at hAgrees
  obtain ⟨-, hDone, rfl, -⟩ := hAgrees
  rw [hAccounts.current]
  -- the readers that have not run yet see nothing
  have hSame : ∀ r ∈ done, srcs r = if r ∈ done then srcs r else noSources := fun r hr =>
    (if_pos hr).symm
  have hRead : ∀ r ∈ done, .read (srcs r) ∈ trace := by
    intro r hr
    rw [← mem_readTrace, hAccounts.reads]
    exact List.mem_append_right _ (List.mem_map_of_mem hr)
  have hDistinct : DistinctNames fun r => if r ∈ done then srcs r else noSources := by
    refine distinctNames_of_forall fun r => ?_
    by_cases hr : r ∈ done
    · simpa only [if_pos hr] using hNames _ (hRead r hr)
    · simpa only [if_neg hr] using distinctNames_noSources
  have hNodup : done.Nodup := by
    have hEnabled := setup.nodup
    rw [hDone] at hEnabled
    exact (List.nodup_append.mp hEnabled).1
  have hCycle := hAccounts.cycle
  rw [collectCycle_congr hSame] at hCycle
  have hSeries := seriesDistinct_collectCycle (D := D) hDistinct hNodup
    (collectCycles (D := D) setup.enabled CpuState.initial history).1
  have hShape : ∀ m' ∈ written ++ m :: pending, ∃ r, Shape r m' := by
    intro m' hm'
    have hMem : m' ∈ (collectCycle (fun r => if r ∈ done then srcs r else noSources)
        (collectCycles (D := D) setup.enabled CpuState.initial history).1 done).2 := by
      rwa [hCycle]
    obtain ⟨r, -, st, hr⟩ := mem_collectCycle hMem
    exact ⟨r, shape_of_mem_read hr⟩
  rw [hCycle] at hSeries
  intro m' hm' hPath'
  obtain ⟨r, hr⟩ := hShape m (by simp)
  obtain ⟨r', hr'⟩ := hShape m' (by simp [hm'])
  have hApart := (List.pairwise_append.mp hSeries).2.2 m' hm' m List.mem_cons_self
  exact hApart (series_eq_of_writerPath hr' hr hPath' hPath)

end Readers

section Runs

variable [Inhabited D] {printf : Printf D}

theorem writeFile_apply (files : Bytes → Store) (m : Metric D) (c : Call) (path : Bytes) :
    writeFile printf setup files m c path =
      if writerPath setup.writer m = some path then
        (writerWrite printf setup.writer (files path) m c).2
      else files path := by
  unfold writeFile
  cases hPath : writerPath setup.writer m with
  | none => rw [if_neg nofun]
  | some path' =>
      by_cases hEq : path' = path
      · subst hEq
        rw [if_pos rfl]
        exact Function.update_self _ _ _
      · rw [if_neg fun h => hEq (Option.some.inj h)]
        exact Function.update_of_ne (Ne.symm hEq) _ _

variable [CDouble D]

theorem spaced_write {m : Metric D} {pending : List (Metric D)} {rest : List Reader} {c : Call}
    {path : Bytes} (h : Spaced setup clock trace s path) (hCoupled : Coupled setup trace s)
    (hNames : NamesDistinct trace) (hPoint : s.point = .reading (m :: pending) rest)
    (hNow : s.clock ≤ c.now) :
    Spaced setup clock (trace ++ [.write m c])
      { s with
        point := .adding m pending rest
        clock := c.now
        files := writeFile printf setup s.files m c } path := by
  have hWritten : cycleWrites (trace ++ [.write m c]) = cycleWrites trace ++ [m] := by
    simp [cycleWrites]
  by_cases hPath : writerPath setup.writer m = some path
  · -- the call of this cycle on this file
    have hCalls : seconds (fileTrace setup.writer path (trace ++ [.write m c])) =
        seconds (fileTrace setup.writer path trace) ++ [c.now] := by
      simp [fileTrace, hPath, seconds]
    have hBefore : ∀ t ∈ seconds (fileTrace setup.writer path trace),
        t + setup.interval ≤ c.now := by
      intro t ht
      have hNew := hCoupled.path_new hNames hPoint hPath
      exact le_trans (h.waited setup.interval (by rw [hPoint]; exact ⟨hNew, rfl⟩) t ht) hNow
    have hLater : clock ≤ c.now := le_trans h.later hNow
    refine ⟨?_, ?_, ?_, hLater, fun k hk => ?_⟩
    · rw [hCalls, List.pairwise_append]
      refine ⟨h.apart, List.pairwise_singleton _ _, fun t ht t' ht' => ?_⟩
      rw [List.mem_singleton.mp ht']
      exact hBefore t ht
    · rw [hCalls, List.forall_mem_append]
      exact ⟨h.since, by simpa using hLater⟩
    · rw [hCalls, List.forall_mem_append]
      exact ⟨fun t ht => le_trans (h.past t ht) hNow, by simp⟩
    · exact absurd hPath (hk.1 m (by rw [hWritten]; simp))
  · refine h.frame (seconds_concat_of_ne ?_) hNow fun k hk => Or.inr ⟨k, ?_, ?_⟩
    · rintro m' c' ⟨⟩
      exact hPath
    · rw [hPoint]
      rw [hWritten] at hk
      exact ⟨fun m' hm' => hk.1 m' (List.mem_append_left _ hm'), hk.2⟩
    · exact Int.add_le_add_left hNow k

variable [DecidableEq D]

theorem spaced_step {a : Move D} {path : Bytes} (h : Spaced setup clock trace s path)
    (hCoupled : Coupled setup trace s) (hNames : NamesDistinct (trace ++ [a]))
    (hTime : a.OnTime s.clock) (hStep : step printf setup s a = some s') :
    Spaced setup clock (trace ++ [a]) s' path := by
  cases step_cases hStep with
  | write hPoint => exact spaced_write h hCoupled hNames.init hPoint hTime
  | render | apply => exact h.quiet nofun nofun le_rfl fun k hk => ⟨k, hk, le_rfl⟩
  | beginAlloc hPoint hRunning =>
      refine h.quiet nofun nofun le_rfl fun k hk => ⟨k, ?_, le_rfl⟩
      rw [hPoint]
      exact ⟨hRunning, hk⟩
  | beginReset hPoint =>
      refine h.quiet nofun nofun le_rfl fun k hk => ⟨k, ?_, le_rfl⟩
      rw [hPoint]
      exact hk.2
  | addAlloc hPoint =>
      refine h.quiet nofun nofun le_rfl fun k hk => ⟨k, ?_, le_rfl⟩
      rw [hPoint]
      exact waited_of_afterAdd hk
  | @add m pending rest a snap hPoint hAction =>
      have hPublish : (.snap a : Move D) ≠ .snap .publish := by
        rcases hAction with rfl | rfl | ⟨fresh, rfl⟩ <;> exact nofun
      refine h.quiet hPublish nofun le_rfl fun k hk => ⟨k, ?_, le_rfl⟩
      rw [hPoint]
      exact waited_of_afterAdd hk
  | publish =>
      -- the seconds of the pause are counted from here on
      exact h.frame (seconds_concat_of_ne nofun) le_rfl fun k hk => Or.inl hk.2.le
  | read src hPoint =>
      refine h.quiet nofun nofun le_rfl fun k hk => ⟨k, ?_, le_rfl⟩
      rw [hPoint]
      exact hk
  | @sleep n now interrupted hPoint hMore hRunning =>
      obtain ⟨hNow, hWhole⟩ : s.clock ≤ now ∧ (interrupted = false → s.clock + 1 ≤ now) := hTime
      refine h.quiet nofun nofun hNow fun k hk => ⟨n, ?_, ?_⟩
      · rw [hPoint]
        exact ⟨hRunning, rfl⟩
      · have hSecond := hWhole (by simpa using hk.1)
        have hCount : k = n + 1 := hk.2
        show k + s.clock ≤ n + now
        omega
  | @wake n hPoint hDone =>
      refine h.quiet nofun nofun le_rfl fun k hk => ⟨n, ?_, ?_⟩
      · rw [hPoint]
        exact ⟨hk.1, rfl⟩
      · have hCounted := hDone hk.1
        have hInterval : k = setup.interval := hk.2
        show k + s.clock ≤ n + s.clock
        omega
  | leave | shutdown => exact h.quiet nofun nofun le_rfl fun k hk => hk.elim
  | signal =>
      -- a cycle that has begun is finished, but no other one follows
      refine h.quiet nofun nofun le_rfl fun k hk => ⟨k, ?_, le_rfl⟩
      cases hPoint : s.point with
      | test =>
          rw [hPoint] at hk
          cases hk.1
      | sleeping n =>
          rw [hPoint] at hk
          cases hk.1
      | _ =>
          rw [hPoint] at hk
          exact hk

/-- The state knows the second behind its trace. -/
theorem clock_of_run (hRun : Lib.run (step printf setup) (start files clock) trace = some s) :
    s.clock = clockAfter clock trace := by
  refine run_invariant (fun trace (s : State D) => s.clock = clockAfter clock trace) rfl ?_ hRun
  intro trace s a s' h hStep
  have hConcat : clockAfter clock (trace ++ [a]) = a.clock s.clock := by
    rw [h, clockAfter, clockAfter, List.foldl_append]
    rfl
  rw [hConcat]
  cases step_cases hStep <;> rfl

theorem spaced_of_run (hNames : NamesDistinct trace) (hTime : OnTime clock trace)
    (hRun : Lib.run (step printf setup) (start files clock) trace = some s) (path : Bytes) :
    Spaced setup clock trace s path := by
  refine run_invariant
    (fun trace (s : State D) => Lib.run (step printf setup) (start files clock) trace = some s ∧
      (NamesDistinct trace → OnTime clock trace → Spaced setup clock trace s path))
    ⟨rfl, fun _ _ => spaced_start path⟩ ?_ hRun |>.2 hNames hTime
  intro trace s a s' h hStep
  refine ⟨?_, fun hNames hTime => ?_⟩
  · rw [run_append, h.1]
    exact (run_cons _ _ _ _).trans (by rw [hStep]; rfl)
  · obtain ⟨hBefore, hLast⟩ := onTime_concat.mp hTime
    rw [← clock_of_run h.1] at hLast
    exact spaced_step (h.2 hNames.init hBefore) (coupled_of_run h.1) hNames hLast hStep

/-- Every file of a run is in the state in which its own calls leave it. -/
theorem files_of_run (hRun : Lib.run (step printf setup) (start files clock) trace = some s)
    (path : Bytes) :
    s.files path =
      (runEvents printf setup.writer (Progress.start (files path))
        (fileTrace setup.writer path trace)).store := by
  refine run_invariant
    (fun trace (s : State D) => s.files path =
      (runEvents printf setup.writer (Progress.start (files path))
        (fileTrace setup.writer path trace)).store) rfl ?_ hRun
  intro trace s a s' h hStep
  have hConcat : runEvents printf setup.writer (Progress.start (files path))
        (fileTrace setup.writer path (trace ++ [a])) =
      runEvents printf setup.writer
        (runEvents printf setup.writer (Progress.start (files path))
          (fileTrace setup.writer path trace)) (fileTrace setup.writer path [a]) := by
    rw [fileTrace, List.filterMap_append, runEvents, List.foldl_append]
    rfl
  rw [hConcat]
  cases step_cases hStep with
  | @write m pending rest c hPoint =>
      show writeFile printf setup s.files m c path = _
      rw [writeFile_apply]
      by_cases hPath : writerPath setup.writer m = some path
      · simp [fileTrace, hPath, runEvents, stepEvent, h]
      · simpa [fileTrace, hPath, runEvents] using h
  | apply path' =>
      show Function.update s.files path' _ path = _
      by_cases hPath : path' = path
      · subst hPath
        rw [Function.update_self]
        simp only [fileTrace, List.filterMap_cons, if_true, List.filterMap_nil, runEvents,
          List.foldl_cons, List.foldl_nil, stepEvent]
        exact store_applyQueued h
      · rw [Function.update_of_ne (Ne.symm hPath)]
        simpa [fileTrace, hPath, runEvents] using h
  | _ => exact h

/-! ## All files at once -/

omit [CDouble D] [DecidableEq D] [Inhabited D] in
/-- A sample of the trace of a file is a call of the run on that file. -/
theorem mem_fileTrace_write {w : Writer} {path : Bytes} {m : Metric D} {c : Call} :
    .write m c ∈ fileTrace w path trace ↔ .write m c ∈ trace ∧ writerPath w m = some path := by
  constructor
  · intro h
    obtain ⟨a, ha, hEvent⟩ := List.mem_filterMap.mp h
    split at hEvent
    · split at hEvent
      · rename_i hPath
        cases hEvent
        exact ⟨ha, hPath⟩
      · cases hEvent
    · split at hEvent <;> cases hEvent
    · cases hEvent
  · rintro ⟨hMem, hPath⟩
    exact List.mem_filterMap.mpr ⟨_, hMem, if_pos hPath⟩

/-- A second in front of all calls on a file, from which on nothing is refused. -/
theorem exists_past_of_run (hOlder : OlderThan files clock) (hNames : NamesDistinct trace)
    (hTime : OnTime clock trace)
    (hRun : Lib.run (step printf setup) (start files clock) trace = some s) {path : Bytes}
    (hEmpty : (files path).queue = []) :
    ∃ bound, (bound :: seconds (fileTrace setup.writer path trace)).Pairwise (· < ·) ∧
      Past bound (Progress.start (files path)) := by
  have hSorted := ((spaced_of_run hNames hTime hRun path).sorted hOlder).1
  rw [stamps, List.pairwise_append] at hSorted
  exact exists_past_start hEmpty hSorted.2.1 fun l hl t ht =>
    hSorted.2.2 l (Option.mem_toList.mpr hl) t ht

/-- **One sample a second for every file.**  In a run in which the names that the readers
find are distinct and hold no slashes and the clock is not set back, from files whose last
samples are older than the start and empty queues: no two paths lead to one file; every file
is exactly as its own calls leave it; these come at increasing seconds, later than what the
file held at the start and not later than the clock; each of them succeeds if it gets as far
as the update; and if those that fall back to a direct update find the daemon's queue for the
file empty, no queued update of the file is ever refused. -/
theorem files_get_samples_in_order (hOlder : OlderThan files clock)
    (hEmpty : ∀ path, (files path).queue = []) (hNames : NamesDistinct trace)
    (hSlash : NamesSlashFree trace) (hTime : OnTime clock trace)
    (hRun : Lib.run (step printf setup) (start files clock) trace = some s)
    (cwd : Location Bytes) :
    PathsApart cwd setup.writer trace ∧ ∀ path,
      s.files path = (runEvents printf setup.writer (Progress.start (files path))
          (fileTrace setup.writer path trace)).store ∧
        (stamps files setup.writer path trace).Pairwise (· < ·) ∧
        (∀ t ∈ stamps files setup.writer path trace, t ≤ s.clock) ∧
        (∀ before m c after, fileTrace setup.writer path trace = before ++ .write m c :: after →
          let store := (runEvents printf setup.writer (Progress.start (files path)) before).store
          ((writerWrite printf setup.writer store m c).1 = 0 ↔
            (writerPrepare printf setup.writer store m c).1 = true)) ∧
        (FallbacksDrained printf setup.writer (Progress.start (files path))
            (fileTrace setup.writer path trace) →
          ∀ k, (runEvents printf setup.writer (Progress.start (files path))
            (fileTrace setup.writer path trace ++ List.replicate k .apply)).refused = []) := by
  refine ⟨(coupled_of_run hRun).pathsApart hSlash cwd, fun path => ?_⟩
  obtain ⟨hSorted, hPast⟩ := (spaced_of_run hNames hTime hRun path).sorted hOlder
  obtain ⟨bound, hTimes, hBound⟩ := exists_past_of_run hOlder hNames hTime hRun (hEmpty path)
  refine ⟨files_of_run hRun path, hSorted, hPast,
    fun before m c after hSplit => calls_succeed hBound hTimes hSplit, fun hDrained k => ?_⟩
  have hStart : InOrder (Progress.start (files path)) :=
    ⟨rfl, by simp [Progress.start, hEmpty], by simp [Progress.start, hEmpty]⟩
  have hOrder := inOrder_run hStart hBound hTimes hDrained
  rw [runEvents, List.foldl_append]
  exact (inOrder_applies printf setup.writer hOrder k).refused

end Runs

theorem distinctNames_swapSources : DistinctNames fun _ => swapSources where
  interfaces content h := by
    have hNone : swapSources.file (procPath procBase "/net/dev") = none := by decide
    cases hNone.symm.trans h
  disks content h := by
    have hNone : swapSources.file (procPath procBase "/diskstats") = none := by decide
    cases hNone.symm.trans h
  mounts content h := by
    have hNone : swapSources.file (procPath procBase "/mounts") = none := by decide
    cases hNone.symm.trans h
  zones names h := by cases h

theorem namesDistinct_swapTrace : NamesDistinct swapTrace := by
  intro src hSrc
  have hSwap : src = swapSources := by simpa [swapTrace, emitMoves] using hSrc
  rw [hSwap]
  exact distinctNames_swapSources

theorem slashFree_swapSources (r : Reader) : r.NamesSlashFree swapSources := by
  cases r with
  | interface =>
      intro content h
      have hNone : swapSources.file (procPath procBase "/net/dev") = none := by decide
      cases hNone.symm.trans h
  | processes | thermal =>
      intro names h
      cases h
  | _ => trivial

theorem namesSlashFree_swapTrace : NamesSlashFree swapTrace := by
  intro src hSrc r
  have hSwap : src = swapSources := by simpa [swapTrace, emitMoves] using hSrc
  rw [hSwap]
  exact slashFree_swapSources r

/-- The file of the used swap space after the first cycle. -/
theorem swap_file_in_order :
    ∃ s path, Lib.run (step integralPrintf swapSetup) (start (fun _ => ⟨none, []⟩) 5) swapTrace =
        some s ∧
      PathsApart [] swapSetup.writer swapTrace ∧
      writerPath swapSetup.writer (swapMetric (D := Double) "used" 3) = some path ∧
      (stamps (fun _ => ⟨none, []⟩) swapSetup.writer path swapTrace).Pairwise (· < ·) ∧
      ∀ t ∈ stamps (fun _ => ⟨none, []⟩) swapSetup.writer path swapTrace, t ≤ s.clock := by
  obtain ⟨s, hRun⟩ := swapTrace_runs
  obtain ⟨path, hPath⟩ : ∃ path, writerPath swapSetup.writer (swapMetric (D := Double) "used" 3) =
      some path := Option.isSome_iff_exists.mp (by decide)
  have hOlder : OlderThan (fun _ => ⟨none, []⟩) 5 := fun _ _ h => nomatch h
  obtain ⟨hApart, hFiles⟩ := files_get_samples_in_order hOlder (fun _ => rfl)
    namesDistinct_swapTrace namesSlashFree_swapTrace (by decide) hRun []
  exact ⟨s, path, hRun, hApart, hPath, (hFiles path).2.1, (hFiles path).2.2.1⟩

/-! ## The interval -/

/-- Numbers that are `d` apart need room. -/
theorem length_mul_le_of_apart {d low high : Int} {l : List Int} (hd : 0 ≤ d)
    (hApart : l.Pairwise (· + d ≤ ·)) (hLow : ∀ t ∈ l, low ≤ t) (hHigh : ∀ t ∈ l, t ≤ high)
    (hRange : low ≤ high) : ((l.length : Int) - 1) * d ≤ high - low := by
  induction l generalizing low with
  | nil =>
      rw [List.length_nil]
      omega
  | cons t l ih =>
      obtain ⟨hNext, hApart⟩ := List.pairwise_cons.mp hApart
      have hFirst := hLow t List.mem_cons_self
      have hLast := hHigh t List.mem_cons_self
      cases l with
      | nil =>
          rw [List.length_singleton]
          omega
      | cons t' l =>
          have hRest := ih hApart hNext (fun u hu => hHigh u (List.mem_cons_of_mem t hu))
            (le_trans (hNext t' List.mem_cons_self) (hHigh t' (by simp)))
          have hStep : (((t :: t' :: l).length : Int) - 1) * d =
              (((t' :: l).length : Int) - 1) * d + d := by
            simp only [List.length_cons]
            push_cast
            ring
          omega

section Interval

variable [CDouble D] [DecidableEq D] [Inhabited D] {printf : Printf D}

/-- The calls of a run on a file, whatever their paths look like, are an interval apart. -/
theorem callsOn_spaced (hNames : NamesDistinct trace) (hSlash : NamesSlashFree trace)
    (hTime : OnTime clock trace)
    (hRun : Lib.run (step printf setup) (start files clock) trace = some s)
    (cwd file : Location Bytes) :
    (callsOn cwd setup.writer file trace).Pairwise (· + setup.interval ≤ ·) ∧
      (∀ t ∈ callsOn cwd setup.writer file trace, clock ≤ t ∧ t ≤ s.clock) ∧
      clock ≤ s.clock := by
  have hLater := (spaced_of_run hNames hTime hRun []).later
  rcases ((coupled_of_run hRun).pathsApart hSlash cwd).callsOn_cases file with
    hNone | ⟨path, hCalls⟩
  · rw [hNone]
    exact ⟨List.Pairwise.nil, by simp, hLater⟩
  · have hSpaced := spaced_of_run hNames hTime hRun path
    rw [hCalls]
    exact ⟨hSpaced.apart, fun t ht => ⟨hSpaced.since t ht, hSpaced.past t ht⟩, hLater⟩

/-- **A file gets one sample in an interval.**  In a run in which the names that the readers
find are distinct and hold no slashes, and in which the clock is not set back and a whole
sleep takes a second, the calls of the writer on one file are at least the configured interval
apart, whatever signals and renders come in between; so in the time that has gone by there
is at most one call for each interval, and the first one. -/
theorem samples_keep_interval (hNames : NamesDistinct trace) (hSlash : NamesSlashFree trace)
    (hTime : OnTime clock trace)
    (hRun : Lib.run (step printf setup) (start files clock) trace = some s)
    (cwd file : Location Bytes) :
    (callsOn cwd setup.writer file trace).Pairwise (· + setup.interval ≤ ·) ∧
      (((callsOn cwd setup.writer file trace).length : Int) - 1) * setup.interval ≤
        s.clock - clock := by
  obtain ⟨hApart, hWithin, hLater⟩ := callsOn_spaced hNames hSlash hTime hRun cwd file
  have hPositive := setup.one_le
  exact ⟨hApart, length_mul_le_of_apart (by omega) hApart (fun t ht => (hWithin t ht).1)
    (fun t ht => (hWithin t ht).2) hLater⟩

end Interval

/-- The first cycle, a pause, and the second one. -/
def twoCycles : List (Move Double) :=
  let later (m : Metric Double) : List (Move Double) :=
    .write m ⟨11, true, .ok⟩ :: (emitMoves m).tail
  swapTrace ++ [.sleep 11 false, .wake, .snap (.beginAlloc true), .snap .beginReset,
    .read swapSources] ++
      (later (swapMetric "used" 3) ++ (later (swapMetric "free" 1) ++ [.snap .publish]))

set_option maxRecDepth 20000 in
theorem twoCycles_runs :
    ∃ s, Lib.run (step integralPrintf swapSetup) (start (fun _ => ⟨none, []⟩) 5) twoCycles =
      some s :=
  Option.isSome_iff_exists.mp (by decide +kernel)

theorem namesDistinct_twoCycles : NamesDistinct twoCycles := by
  intro src hSrc
  have hSwap : src = swapSources := by simpa [twoCycles, swapTrace, emitMoves] using hSrc
  rw [hSwap]
  exact distinctNames_swapSources

theorem namesSlashFree_twoCycles : NamesSlashFree twoCycles := by
  intro src hSrc r
  have hSwap : src = swapSources := by simpa [twoCycles, swapTrace, emitMoves] using hSrc
  rw [hSwap]
  exact slashFree_swapSources r

theorem swap_samples_keep_interval :
    let file := [ascii "rrd", ascii "web1", ascii "swap", ascii "swap-used.rrd"]
    callsOn [] swapSetup.writer file twoCycles = [10, 11] ∧
      ∃ s, Lib.run (step integralPrintf swapSetup) (start (fun _ => ⟨none, []⟩) 5) twoCycles =
          some s ∧
        (callsOn [] swapSetup.writer file twoCycles).Pairwise (· + 1 ≤ ·) := by
  intro file
  obtain ⟨s, hRun⟩ := twoCycles_runs
  exact ⟨by decide, s, hRun, (samples_keep_interval namesDistinct_twoCycles
    namesSlashFree_twoCycles (by decide) hRun [] file).1⟩

/-! ## Without a daemon -/

section Direct

variable [Inhabited D] {printf : Printf D} {w : Writer} {bound : Int} {p : Progress}

/-- Calls at increasing seconds that get as far as the update are all acknowledged, and the
file holds the last of them. -/
theorem acked_of_direct (hDirect : w.rrdcached = []) (hPast : Past bound p)
    (hQueue : p.store.queue = []) {events : List (Event D)}
    (hTimes : (bound :: seconds events).Pairwise (· < ·))
    (hReady : ∀ m c, .write m c ∈ events → ∀ s, (writerPrepare printf w s m c).1 = true) :
    (runEvents printf w p events).acked = p.acked ++ seconds events ∧
      (runEvents printf w p events).store =
        { last := (seconds events).getLast?.or p.store.last, queue := [] } := by
  induction events generalizing bound p with
  | nil =>
      refine ⟨by simp [runEvents, seconds], ?_⟩
      simp only [runEvents, List.foldl_nil, seconds, List.filterMap_nil, List.getLast?_nil,
        Option.none_or]
      rw [← hQueue]
  | cons e events ih =>
      have hRest : ∀ m c, .write m c ∈ events → ∀ s, (writerPrepare printf w s m c).1 = true :=
        fun m c hMem => hReady m c (List.mem_cons_of_mem e hMem)
      cases e with
      | apply =>
          have hApply : applyQueued p = p := by
            simp [applyQueued, hQueue]
          have hRun : runEvents printf w p (.apply :: events) = runEvents printf w p events := by
            simp [runEvents, stepEvent, hApply]
          rw [hRun]
          exact ih hPast hQueue hTimes hRest
      | write m c =>
          have hTimes' : (bound :: c.now :: seconds events).Pairwise (· < ·) := hTimes
          rw [List.pairwise_cons] at hTimes'
          have hNow : bound < c.now := hTimes'.1 c.now List.mem_cons_self
          have hCall := hReady m c List.mem_cons_self p.store
          obtain ⟨s, hs, hStep⟩ := stepEvent_write_cases printf w p m c
          have hAccepts := hs.accepts_now hPast hNow hCall
          -- the call is neither given up, nor does a daemon take it, nor is it refused
          have hDone : stepEvent printf w p (.write m c) =
              { p with store := { s with last := some c.now }, acked := p.acked ++ [c.now] } := by
            rcases hStep with ⟨hGivenUp, -⟩ | ⟨-, hDaemon, -⟩ | ⟨-, -, hStep⟩ | ⟨-, hRefused, -⟩
            · rw [hCall] at hGivenUp
              contradiction
            · exact absurd hDirect hDaemon.1
            · exact hStep
            · rw [hAccepts] at hRefused
              contradiction
          have hNext := ih (hPast.write printf w m hNow)
            (by rw [hDone]; exact hs.queue.trans hQueue) hTimes'.2 hRest
          have hRun : runEvents printf w p (.write m c :: events) =
              runEvents printf w (stepEvent printf w p (.write m c)) events := rfl
          have hSeconds : seconds (.write m c :: events) = c.now :: seconds events := rfl
          rw [hRun, hNext.1, hNext.2, hDone, hSeconds]
          refine ⟨by simp, ?_⟩
          simp only [List.getLast?_cons, Store.mk.injEq, and_true]
          cases (seconds events).getLast? <;> simp

end Direct

section Ready

variable {printf : Printf Double} {w : Writer}

/-- The definitions of every type fit the buffer of `rra_args`. -/
theorem rraArgs_of_typesLookup {type : Bytes} {td : TypeDef} (h : typesLookup type = some td) :
    0 ≤ (rraArgs td 64).1 := by
  have hTable : td ∈ typeTable := List.mem_of_find?_eq_some h
  have hSmall : ∀ td ∈ typeTable, dsSpace td ≤ 100 ∧ td.ds.length ≤ 3 := by decide +kernel
  obtain ⟨hSpace, hLength⟩ := hSmall td hTable
  have hCount : toInt32 (td.dsCount + 9) = ((td.ds.length + 9 : ℕ) : ℤ) :=
    @toInt32_of_lt (td.ds.length + 9) (by omega)
  rcases @rraArgs_cases td 64 (by rw [hCount]; omega) (hSpace.trans (by decide)) with ⟨-, hEq⟩ | ⟨hFull, -⟩
  · rw [hEq, hCount]
    exact Int.natCast_nonneg _
  · rw [rraBufSize] at hFull
    omega

/-- A call for an emitted metric gets as far as the update. -/
theorem writerPrepare_ready (hPrintf : PlainNumbers printf)
    (hShort : w.datadir.length + w.host.length < 3000) {src : Sources} {st : CpuState} {r : Reader}
    {m : Metric Double} (hm : m ∈ (r.read src st : CpuState × ReadResult Double).2.metrics)
    {c : Call} (hCreate : c.createOk = true) (s : Store) :
    (writerPrepare printf w s m c).1 = true := by
  have hShape := shape_of_mem_read hm
  obtain ⟨td, hType, hCount⟩ := typesLookup_of_kind (kind_of_shape hShape)
  have hPath : (metricToPath 4096 w.datadir w.host m).1 = 0 := by
    by_contra hRc
    have hNone : writerPath w m = none := by
      simp [writerPath, hType, hCount, hRc]
    rw [writerPath_of_shape hShape hShort] at hNone
    cases hNone
  obtain ⟨hDs, hText⟩ := length_updateText_lt hPrintf hm hType hCount
  have hFmt : (fmtValues printf 256 td m).1 = 0 := by
    rw [(fmtValues_cases printf hDs hCount (by norm_num)).1 hText]
  have hArgs : ¬ (rraArgs td 64).1 < 0 := not_lt.mpr (rraArgs_of_typesLookup hType)
  simp only [writerPrepare, hType, hCount, ne_eq, not_true_eq_false, if_false, hPath]
  cases hLast : s.last with
  | some l => simp [writerCreate, hLast, hFmt]
  | none => simp [writerCreate, hLast, hArgs, hCreate, hFmt]

/-- **Without a daemon no sample is lost.**  If the collector writes the files itself, their
last samples are older than the start and no updates are queued, the names that the readers
find are distinct and hold no slashes, the clock is not set back, the path in front of the
host's files is shorter than 3000 bytes, and missing files can be created, then every emitted
metric has a file of its own, every call on it succeeds, and the file holds the sample of the
last call. -/
theorem direct_run_keeps_every_sample {setup : Setup} {files : Bytes → Store} {clock : Int}
    {trace : List (Move Double)} {s : State Double} (hPrintf : PlainNumbers printf)
    (hDirect : setup.writer.rrdcached = [])
    (hShort : setup.writer.datadir.length + setup.writer.host.length < 3000)
    (hOlder : OlderThan files clock) (hEmpty : ∀ path, (files path).queue = [])
    (hNames : NamesDistinct trace) (hSlash : NamesSlashFree trace) (hTime : OnTime clock trace)
    (hCreate : ∀ m c, .write m c ∈ trace → c.createOk = true)
    (hRun : Lib.run (step printf setup) (start files clock) trace = some s)
    (cwd : Location Bytes) :
    (∀ m ∈ writeTrace trace, ∃ path, writerPath setup.writer m = some path) ∧
      PathsApart cwd setup.writer trace ∧
      ∀ path,
        (runEvents printf setup.writer (Progress.start (files path))
            (fileTrace setup.writer path trace)).acked =
          seconds (fileTrace setup.writer path trace) ∧
        s.files path =
          { last := (seconds (fileTrace setup.writer path trace)).getLast?.or (files path).last
            queue := [] } := by
  have hCoupled := coupled_of_run hRun
  refine ⟨fun m hm => ?_, hCoupled.pathsApart hSlash cwd, fun path => ?_⟩
  · obtain ⟨a, ha, hMetric⟩ := List.mem_filterMap.mp hm
    split at hMetric
    · cases hMetric
      obtain ⟨r, -, src, -, st, hRead⟩ := hCoupled.emitted ha
      exact ⟨_, writerPath_of_shape (shape_of_mem_read hRead) hShort⟩
    · cases hMetric
  · obtain ⟨bound, hTimes, hPast⟩ := exists_past_of_run hOlder hNames hTime hRun (hEmpty path)
    have hReady : ∀ m c, .write m c ∈ fileTrace setup.writer path trace →
        ∀ s, (writerPrepare printf setup.writer s m c).1 = true := by
      intro m c hMem s'
      obtain ⟨hWrite, -⟩ := mem_fileTrace_write.mp hMem
      obtain ⟨r, -, src, -, st, hRead⟩ := hCoupled.emitted hWrite
      exact writerPrepare_ready hPrintf hShort hRead (hCreate m c hWrite) s'
    obtain ⟨hAcked, hStore⟩ := acked_of_direct hDirect hPast (hEmpty path) hTimes hReady
    rw [files_of_run hRun path]
    exact ⟨by simpa [Progress.start] using hAcked, hStore⟩

end Ready

/-- The same cycle without a daemon. -/
def directSetup : Setup :=
  { swapSetup with writer := writerInit (ascii "/rrd") (ascii "web1") none }

set_option maxRecDepth 20000 in
theorem directTrace_runs :
    ∃ s, Lib.run (step shortPrintf directSetup) (start (fun _ => ⟨none, []⟩) 5) swapTrace =
      some s :=
  Option.isSome_iff_exists.mp (by decide +kernel)

theorem createOk_swapTrace : ∀ m c, .write m c ∈ swapTrace → c.createOk = true := by
  intro m c hWrite
  have hCall : c = ⟨10, true, .ok⟩ := by
    have hEither : (m = swapMetric "used" 3 ∧ c = ⟨10, true, .ok⟩) ∨
        (m = swapMetric "free" 1 ∧ c = ⟨10, true, .ok⟩) := by
      simpa [swapTrace, emitMoves] using hWrite
    rcases hEither with h | h
    · exact h.2
    · exact h.2
  rw [hCall]

theorem direct_swap_is_kept :
    ∃ s, Lib.run (step shortPrintf directSetup) (start (fun _ => ⟨none, []⟩) 5) swapTrace =
        some s ∧
      PathsApart [] directSetup.writer swapTrace ∧
      ∀ m ∈ writeTrace swapTrace, ∃ path, writerPath directSetup.writer m = some path ∧
        s.files path =
          { last := (seconds (fileTrace directSetup.writer path swapTrace)).getLast?.or none
            queue := [] } := by
  obtain ⟨s, hRun⟩ := directTrace_runs
  have hOlder : OlderThan (fun _ => ⟨none, []⟩) 5 := fun _ _ h => nomatch h
  obtain ⟨hPaths, hApart, hFiles⟩ := direct_run_keeps_every_sample plainNumbers_shortPrintf
    (by decide) (by decide) hOlder (fun _ => rfl) namesDistinct_swapTrace namesSlashFree_swapTrace
    (by decide) createOk_swapTrace hRun []
  refine ⟨s, hRun, hApart, fun m hm => ?_⟩
  obtain ⟨path, hPath⟩ := hPaths m hm
  exact ⟨path, hPath, (hFiles path).2⟩

end Loop
end SvgdCollect
