import SvgdCollect.Collect.Tee
import SvgdCollect.Lib.Executions
import Mathlib.Data.Prod.Lex

/-!
# Cycles come to an end

The collection thread is never stuck, whatever renders, signals and the daemon do between
its statements: every cycle ends, and after a signal the thread finishes the cycle it is
in, wakes up, shuts the writer down and returns.  How far it has to go is measured by the
phase of the loop, the readers that have not run or the seconds left, and the metrics that
have still to be handed on.
-/

namespace SvgdCollect
namespace Loop

open Lib

variable {D : Type}

/-- The moves of the collection thread; the others are its environment's. -/
def Move.own : Move D → Bool
  | .snap (.render _) => false
  | .apply _ => false
  | .signal => false
  | _ => true

/-! ## The measure -/

/-- The statements in front of the return of `prom_snapshot_add`. -/
def addRank : Prom.Position D → ℕ
  | .filling => 4
  | .addReserve _ => 3
  | .addCopy _ => 2
  | .addCount _ => 1
  | _ => 0

/-- How far it is to the end. -/
def State.rank (setup : Setup) (s : State D) : ℕ ×ₗ ℕ ×ₗ ℕ :=
  match s.point with
  | .begun => toLex (5, toLex (0, 0))
  | .reading pending rest => toLex (4, toLex (rest.length, 5 * pending.length))
  | .adding _ pending rest =>
      toLex (4, toLex (rest.length, 5 * pending.length + addRank s.snap.position))
  | .sleeping n => toLex (3, toLex ((setup.interval - n).toNat, 0))
  | .test => toLex (2, toLex (0, 0))
  | .stopping => toLex (1, toLex (0, 0))
  | .returned => toLex (0, toLex (0, 0))

theorem rank_phase {p q : ℕ} {a b : ℕ ×ₗ ℕ} (h : p < q) : toLex (p, a) < toLex (q, b) :=
  Prod.Lex.toLex_lt_toLex.mpr (Or.inl h)

theorem rank_middle {p a b c d : ℕ} (h : a < b) :
    toLex (p, toLex (a, c)) < toLex (p, toLex (b, d)) :=
  Prod.Lex.toLex_lt_toLex.mpr (Or.inr ⟨rfl, Prod.Lex.toLex_lt_toLex.mpr (Or.inl h)⟩)

theorem rank_last {p a c d : ℕ} (h : c < d) :
    toLex (p, toLex (a, c)) < toLex (p, toLex (a, d)) :=
  Prod.Lex.toLex_lt_toLex.mpr
    (Or.inr ⟨rfl, Prod.Lex.toLex_lt_toLex.mpr (Or.inr ⟨rfl, h⟩)⟩)

theorem addRank_le (position : Prom.Position D) : addRank position ≤ 4 := by
  cases position <;> simp [addRank]

/-- The later statements of a call lead to its end. -/
theorem addRank_add {snap snap' : Prom.State D} {a : Prom.Action D}
    (hAction : a = .addCopy ∨ a = .addCount ∨ ∃ fresh, a = .addReserve fresh)
    (h : Prom.step snap a = some snap') :
    snap'.position = .filling ∨
      (∃ m, InAdd m snap'.position) ∧ addRank snap'.position < addRank snap.position := by
  obtain ⟨m, hCases⟩ := position_add_cases hAction h
  rcases hCases with ⟨hFrom, hTo⟩ | ⟨hFrom, hTo | hTo⟩ | ⟨-, hTo⟩
  · exact Or.inr ⟨⟨m, Or.inr (Or.inl hTo)⟩, by simp [hFrom, hTo, addRank]⟩
  · exact Or.inr ⟨⟨m, Or.inr (Or.inr hTo)⟩, by simp [hFrom, hTo, addRank]⟩
  · exact Or.inl hTo
  · exact Or.inl hTo

theorem afterAdd_of_inAdd {m m' : Metric D} {pending : List (Metric D)} {rest : List Reader}
    {position : Prom.Position D} (h : InAdd m' position) :
    Point.afterAdd m pending rest position = .adding m pending rest := by
  rcases h with rfl | rfl | rfl <;> rfl

section Steps

variable [CDouble D] [DecidableEq D] [Inhabited D] {printf : Printf D} {setup : Setup}
  {s s' : State D} {a : Move D}

omit [CDouble D] [DecidableEq D] [Inhabited D] in
/-- A statement of a call that ends it or comes closer to its end. -/
theorem rank_afterAdd {m : Metric D} {pending : List (Metric D)} {rest : List Reader}
    {snap : Prom.State D} (hPoint : s.point = .adding m pending rest)
    (hPositive : 0 < addRank s.snap.position)
    (hAfter : snap.position = .filling ∨
      (∃ m, InAdd m snap.position) ∧ addRank snap.position < addRank s.snap.position) :
    State.rank setup { s with point := Point.afterAdd m pending rest snap.position, snap := snap } <
      s.rank setup := by
  have hRank : s.rank setup =
      toLex (4, toLex (rest.length, 5 * pending.length + addRank s.snap.position)) := by
    rw [State.rank, hPoint]
  rw [hRank]
  rcases hAfter with hFilling | ⟨⟨m', hIn⟩, hLt⟩
  · rw [hFilling]
    exact rank_last (Nat.lt_add_of_pos_right hPositive)
  · rw [afterAdd_of_inAdd hIn]
    exact rank_last (Nat.add_lt_add_left hLt _)

/-- Every move of the thread brings it closer to the end, but for the begin of a cycle. -/
theorem rank_own (hOwn : a.own = true) (h : step printf setup s a = some s') :
    s.point = .test ∧ s.running = true ∨ s'.rank setup < s.rank setup := by
  cases step_cases h with
  | render | apply | signal => cases hOwn
  | beginAlloc hPoint hRunning => exact Or.inl ⟨hPoint, hRunning⟩
  | beginReset hPoint =>
      refine Or.inr ?_
      simp only [State.rank, hPoint]
      exact rank_phase (by decide)
  | addAlloc hPoint hSnap =>
      obtain ⟨hFilling, hAfter⟩ := position_addAlloc hSnap
      have hStart : addRank s.snap.position = 4 := by rw [hFilling]; rfl
      refine Or.inr (rank_afterAdd hPoint (by omega) (hAfter.imp_right fun hTo => ?_))
      exact ⟨⟨_, Or.inl hTo⟩, by rw [hStart, hTo]; exact Nat.lt_succ_self 3⟩
  | add hPoint hAction hSnap =>
      have hAfter := addRank_add hAction hSnap
      obtain ⟨m, hCases⟩ := position_add_cases hAction hSnap
      have hPositive : 0 < addRank s.snap.position := by
        rcases hCases with ⟨hFrom, -⟩ | ⟨hFrom, -⟩ | ⟨hFrom, -⟩ <;> simp [hFrom, addRank]
      exact Or.inr (rank_afterAdd hPoint hPositive hAfter)
  | publish hPoint =>
      refine Or.inr ?_
      simp only [State.rank, hPoint]
      exact rank_phase (by decide)
  | read src hPoint =>
      refine Or.inr ?_
      simp only [State.rank, hPoint, List.length_cons]
      exact rank_middle (Nat.lt_succ_self _)
  | write hPoint =>
      have hLe := addRank_le s.snap.position
      refine Or.inr ?_
      simp only [State.rank, hPoint, List.length_cons]
      exact rank_last (by omega)
  | sleep hPoint hMore =>
      refine Or.inr ?_
      simp only [State.rank, hPoint]
      exact rank_middle (by omega)
  | wake hPoint | leave hPoint | shutdown hPoint =>
      refine Or.inr ?_
      simp only [State.rank, hPoint]
      exact rank_phase (by decide)

/-- Its environment cannot drive it away from the end. -/
theorem rank_other (hOwn : ¬ a.own = true) (h : step printf setup s a = some s') :
    s'.rank setup = s.rank setup := by
  cases step_cases h with
  | render | apply | signal => rfl
  | @add m pending rest a snap hPoint hAction =>
      rcases hAction with rfl | rfl | ⟨fresh, rfl⟩ <;> exact absurd rfl hOwn
  | _ => exact absurd rfl hOwn

/-- A signal is never forgotten. -/
theorem running_of_step (hStopped : s.running = false) (h : step printf setup s a = some s') :
    s'.running = false := by
  cases step_cases h with
  | sleep hPoint hMore hRunning =>
      rw [hStopped] at hRunning
      cases hRunning
  | signal => rfl
  | _ => exact hStopped

/-- A thread that has returned does not come back. -/
theorem returned_of_step (hPoint : s.point = .returned) (h : step printf setup s a = some s') :
    s'.point = .returned := by
  cases step_cases h with
  | render | apply | signal => exact hPoint
  | read src hAt => exact absurd (hPoint.symm.trans hAt) nofun
  | _ hAt => exact absurd (hPoint.symm.trans hAt) nofun

/-! ## The thread is never stuck -/

omit [DecidableEq D] [Inhabited D] [CDouble D] in
theorem stageBuffer_true (snap : Prom.State D) :
    ∃ snap', Prom.stageBuffer snap true = some snap' := by
  unfold Prom.stageBuffer
  cases snap.staged with
  | none => exact ⟨_, rfl⟩
  | some p => exact ⟨_, rfl⟩

theorem exists_snap_step {b : Prom.Action D} {snap : Prom.State D} {point : Point D}
    (hOwn : (Move.snap b).own = true) (hSnap : Prom.step s.snap b = some snap)
    (hAfter : s.point.after setup s.running snap.position b = some point) :
    ∃ a s', a.own = true ∧ step printf setup s a = some s' := by
  refine ⟨.snap b, { s with point := point, snap := snap }, hOwn, ?_⟩
  simp [step, hSnap, hAfter]

/-- Inside a call of `prom_snapshot_add` the next statement can be performed. -/
theorem exists_add_step {trace : List (Prom.Action D)} {m : Metric D} {pending : List (Metric D)}
    {rest : List Reader} (hInv : Prom.Inv trace s.snap)
    (hPoint : s.point = .adding m pending rest) (hIn : InAdd m s.snap.position) :
    ∃ a s', a.own = true ∧ step printf setup s a = some s' := by
  have hAgrees := hInv.staged
  rcases hIn with hPosition | hPosition | hPosition
  · rw [Prom.StagedAgrees, hPosition] at hAgrees
    obtain ⟨earlier, p, -, hStaged, -⟩ := hAgrees
    obtain ⟨snap, hSnap⟩ : ∃ snap, Prom.step s.snap
        (.addReserve (some fun _ => Prom.copyMetric m)) = some snap := by
      simp only [Prom.step, hPosition, hStaged]
      split
      · exact ⟨_, rfl⟩
      · exact ⟨_, rfl⟩
    exact exists_snap_step rfl hSnap (by rw [hPoint]; rfl)
  · rw [Prom.StagedAgrees, hPosition] at hAgrees
    obtain ⟨⟨earlier, p, -, hStaged, -⟩, -⟩ := hAgrees
    obtain ⟨snap, hSnap⟩ : ∃ snap, Prom.step s.snap .addCopy = some snap := by
      simp only [Prom.step, hPosition, hStaged]
      split
      · exact ⟨_, rfl⟩
      · exact ⟨_, rfl⟩
    exact exists_snap_step rfl hSnap (by rw [hPoint]; rfl)
  · rw [Prom.StagedAgrees, hPosition] at hAgrees
    obtain ⟨⟨earlier, p, -, hStaged, -⟩, hCell⟩ := hAgrees
    -- the cell that was just written lies in the buffer
    have hRoom : (s.snap.heap p).count < (s.snap.heap p).cap := by
      rw [← (s.snap.heap p).length_items]
      exact (List.getElem?_eq_some_iff.mp (hCell p hStaged)).1
    have hSnap : ∃ snap, Prom.step s.snap .addCount = some snap := by
      simp only [Prom.step, hPosition, hStaged, dif_pos hRoom]
      exact ⟨_, rfl⟩
    obtain ⟨snap, hSnap⟩ := hSnap
    exact exists_snap_step rfl hSnap (by rw [hPoint]; rfl)

/-- In every reachable state the thread has returned or can go on. -/
theorem can_step {trace : List (Move D)} (h : Coupled setup trace s) (hPoint : s.point ≠ .returned) :
    ∃ a s', a.own = true ∧ step printf setup s a = some s' := by
  obtain ⟨history, srcs, done, written, pending, -, hAgrees⟩ := h.agrees
  have hInv := Prom.inv_of_run h.run
  cases hAt : s.point with
  | test =>
      rw [hAt] at hAgrees
      cases hRunning : s.running with
      | true =>
          obtain ⟨snap, hStage⟩ := stageBuffer_true s.snap
          have hSnap : Prom.step s.snap (.beginAlloc true) =
              some { snap with position := .beginReset } := by
            simp [Prom.step, hAgrees.1, hStage]
          exact exists_snap_step rfl hSnap (by rw [hAt, hRunning]; rfl)
      | false => exact ⟨.leave, _, rfl, by simp only [step, hAt, hRunning]; rfl⟩
  | begun =>
      rw [hAt] at hAgrees
      obtain ⟨snap, hSnap⟩ : ∃ snap, Prom.step s.snap .beginReset = some snap := by
        simp only [Prom.step, hAgrees.1]
        cases s.snap.staged with
        | none => exact ⟨_, rfl⟩
        | some p => exact ⟨_, rfl⟩
      exact exists_snap_step rfl hSnap (by rw [hAt]; rfl)
  | reading pending' rest =>
      rw [hAt] at hAgrees
      cases pending' with
      | cons m pending' =>
          exact ⟨.write m { now := s.clock, createOk := true, reply := .ok }, _, rfl,
            by simp only [step, hAt, if_true]; rfl⟩
      | nil =>
          cases rest with
          | cons r rest => exact ⟨.read noSources, _, rfl, by simp only [step, hAt]; rfl⟩
          | nil =>
              obtain ⟨snap, hSnap⟩ : ∃ snap, Prom.step s.snap .publish = some snap := by
                simp only [Prom.step, hAgrees.1]
                exact ⟨_, rfl⟩
              exact exists_snap_step rfl hSnap (by rw [hAt]; rfl)
  | adding m pending' rest =>
      rw [hAt] at hAgrees
      rcases hAgrees.2.2 with ⟨hFilling, -⟩ | ⟨hIn, -⟩
      · obtain ⟨mid, hStage⟩ := stageBuffer_true s.snap
        obtain ⟨snap, hSnap⟩ : ∃ snap, Prom.step s.snap (.addAlloc m true) = some snap := by
          simp [Prom.step, hFilling, hStage]
        exact exists_snap_step rfl hSnap (by rw [hAt]; exact if_pos rfl)
      · exact exists_add_step hInv hAt hIn
  | sleeping n =>
      by_cases hMore : n < setup.interval ∧ s.running = true
      · exact ⟨.sleep (s.clock + 1) false, _, rfl, by
          simp only [step, hAt]
          exact if_pos hMore⟩
      · exact ⟨.wake, _, rfl, by simp only [step, hAt, if_neg hMore]; rfl⟩
  | stopping => exact ⟨.shutdown, _, rfl, by simp only [step, hAt]; rfl⟩
  | returned => exact absurd hAt hPoint

/-! ## Fair executions -/

/-- The thread gets its turn again and again until it returns. -/
def Fair (e : Execution (step printf setup)) : Prop :=
  ∀ i, (e.state i).point ≠ .returned → ∃ j, i ≤ j ∧ (e.action j).own = true

/-- **Cycles end, and a stopped collector returns.**  The thread never gets stuck: as long
as it has not returned, one of its moves is possible.  If it gets its turn again and again,
whatever renders, signals and the daemon do between its statements and whatever the
readers emit, then it is back at the head of the loop some time after every moment, or has
returned; and once `g_running` is cleared it returns. -/
theorem cycles_end_and_signal_returns {files : Bytes → Store} {clock : Int}
    (e : Execution (step printf setup)) (hStart : e.state 0 = start files clock) (hFair : Fair e)
    (i : ℕ) :
    ((e.state i).point ≠ .returned →
      ∃ a s', a.own = true ∧ step printf setup (e.state i) a = some s') ∧
    (∃ j, i ≤ j ∧ ((e.state j).point = .test ∨ (e.state j).point = .returned)) ∧
    ((e.state i).running = false → ∃ j, i ≤ j ∧ (e.state j).point = .returned) := by
  have hRun := e.run_take i
  rw [hStart] at hRun
  refine ⟨can_step (coupled_of_run hRun), ?_, ?_⟩
  · refine e.eventually (fun a => a.own = true) (fun _ => True)
      (fun s => s.point = .test ∨ s.point = .returned) (State.rank setup)
      (fun _ _ _ _ _ => trivial) ?_ (fun s a s' _ hOwn h => rank_other hOwn h) ?_ trivial
    · intro s a s' _ hGoal hOwn h
      exact (rank_own hOwn h).resolve_left fun hTest => hGoal (Or.inl hTest.1)
    · exact fun k hk => hFair k fun hReturned => hk (Or.inr hReturned)
  · refine e.eventually (fun a => a.own = true) (fun s => s.running = false)
      (fun s => s.point = .returned) (State.rank setup)
      (fun _ _ _ h hStep => running_of_step h hStep) ?_
      (fun s a s' _ hOwn h => rank_other hOwn h) hFair
    intro s a s' hStopped _ hOwn h
    refine (rank_own hOwn h).resolve_left fun hTest => ?_
    rw [hStopped] at hTest
    cases hTest.2

end Steps

/-- The first cycle, in which `g_running` is cleared. -/
def signalledCycle : List (Move Double) := swapTrace.take 8 ++ .signal :: swapTrace.drop 8

/-- The cycle is completed, and the thread returns. -/
def stoppedTrace : List (Move Double) := signalledCycle ++ [.wake, .leave, .shutdown]

def State.ended (s : State Double) : Bool :=
  match s.running, s.point with
  | false, .returned => true
  | _, _ => false

theorem State.ended_iff {s : State Double} :
    s.ended = true ↔ s.running = false ∧ s.point = .returned := by
  unfold ended
  split <;> simp_all

set_option maxRecDepth 20000 in
theorem stoppedTrace_runs :
    ∃ s, Lib.run (step integralPrintf swapSetup) (start (fun _ => ⟨none, []⟩) 5) stoppedTrace =
      some s ∧ s.ended = true :=
  (Option.any_eq_true _ _).mp (by decide +kernel)

/-- More signals change nothing. -/
theorem stoppedTrace_at_rest :
    ∃ s, Lib.run (step integralPrintf swapSetup) (start (fun _ => ⟨none, []⟩) 5) stoppedTrace =
      some s ∧ step integralPrintf swapSetup s .signal = some s := by
  obtain ⟨s, hRun, hEnded⟩ := stoppedTrace_runs
  obtain ⟨hRunning, -⟩ := State.ended_iff.mp hEnded
  refine ⟨s, hRun, ?_⟩
  simp only [step, ← hRunning]

/-- A collector that is stopped in its first cycle, and signalled ever after. -/
def stoppedExecution : Execution (step integralPrintf swapSetup) :=
  .ofRun (start (fun _ => ⟨none, []⟩) 5) stoppedTrace .signal stoppedTrace_at_rest

theorem stoppedExecution_fair : Fair stoppedExecution := by
  intro i hPoint
  have hLength : stoppedTrace.length = 18 := by decide
  by_cases hi : i < 18
  · exact ⟨17, by omega, rfl⟩
  · obtain ⟨s, hRun, hEnded⟩ := stoppedTrace_runs
    have hRest : stoppedExecution.state i = s := Execution.ofRun_at_rest hRun (by omega)
    rw [hRest] at hPoint
    exact absurd (State.ended_iff.mp hEnded).2 hPoint

theorem stoppedExecution_returns :
    (stoppedExecution.state 9).running = false ∧
      ∃ j, 9 ≤ j ∧ (stoppedExecution.state j).point = .returned := by
  have hStopped : (stoppedExecution.state 9).running = false := by decide +kernel
  exact ⟨hStopped, (cycles_end_and_signal_returns stoppedExecution rfl stoppedExecution_fair
    9).2.2 hStopped⟩

end Loop
end SvgdCollect
