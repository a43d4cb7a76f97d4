import SvgdCollect.Collect.Scrape
import SvgdCollect.Collect.Shutdown
import SvgdCollect.Http.Listener

/-!
# The daemon

`main` starts the listener if there is an address for it, runs the collector, joins the
thread of the listener and returns.  The two threads take turns in any order; they share
`g_running` and the snapshot.

A run of the daemon is a run of the collector with steps of the listener in between, so
everything that holds for the collector alone holds here.  What is new: each response is
a scrape of the cycle published last, every descriptor and block is given back once, and
after a signal both threads come to an end.
-/

namespace SvgdCollect
namespace Daemon

open Lib Prom

variable {D : Type}

/-- The collector in the main thread, the socket and the point of the listener's thread if
there is one, what the listener has done with its handles so far, and whether `main` has
returned. -/
structure State (D : Type) where
  collector : Loop.State D
  listener : Option (Nat × ThreadPoint)
  log : List (HandleEvent Handle)
  returned : Bool

/-- Behind the attempt to start the listener. -/
def boot (files : Bytes → Store) (clock : Int) (started : Option Nat)
    (log : List (HandleEvent Handle)) : State D :=
  { collector := Loop.start files clock
    listener := started.map fun sfd => (sfd, .entered)
    log := log
    returned := false }

inductive Move (D : Type)
  | collector (a : Loop.Move D)
  | listener (a : ThreadMove)
  | join

/-- `collect_run` has returned, and there is no thread or it has returned too. -/
def State.CanJoin (s : State D) : Prop :=
  s.collector.point = .returned ∧ ∀ l ∈ s.listener, l.2 = .closed

/-- What the thread of the listener has still to give back. -/
def State.held (s : State D) : List Handle :=
  match s.listener with
  | none => []
  | some (sfd, point) => point.held sfd

/-- When `main` returns there is nothing left to give back. -/
theorem held_of_canJoin {s : State D} (h : s.CanJoin) : s.held = [] := by
  unfold State.held
  split
  · rfl
  · rename_i sfd point hListener
    obtain rfl : point = .closed := h.2 _ hListener
    rfl

/-- How far the thread of the listener has to go. -/
def State.listenerRank (s : State D) : ℕ :=
  match s.listener with
  | none => 0
  | some (_, point) => point.rank

theorem listenerRank_eq (s : State D) {sfd : Nat} {point : ThreadPoint}
    (h : s.listener = some (sfd, point)) : s.listenerRank = point.rank := by
  rw [State.listenerRank, h]

/-- The steps of the collector and its environment. -/
def collectorTrace (trace : List (Move D)) : List (Loop.Move D) :=
  trace.filterMap fun
    | .collector a => some a
    | _ => none

section Code

variable [CDouble D] [DecidableEq D] [Inhabited D] (o : Oracle) (printf : Printf D)
  (qsort : Qsort) (setup : Loop.Setup)

/-- One step of one of the threads, or of their environment. -/
def step (s : State D) : Move D → Option (State D)
  | .collector a =>
      (Loop.step printf setup s.collector a).map fun collector => { s with collector := collector }
  | .listener a =>
      match s.listener with
      | none => none
      | some (sfd, point) =>
          (threadStep o printf qsort sfd s.collector.running s.collector.snap point a).map fun r =>
            { s with listener := some (sfd, r.1), log := s.log ++ r.2 }
  | .join =>
      match s.collector.point, s.listener with
      | .returned, none => some { s with returned := true }
      | .returned, some (_, .closed) => some { s with returned := true }
      | _, _ => none

/-- What a step can do. -/
inductive Moves (s : State D) : Move D → State D → Prop
  | collector {a : Loop.Move D} {collector : Loop.State D}
      (hLoop : Loop.step printf setup s.collector a = some collector) :
      Moves s (.collector a) { s with collector := collector }
  | listener {a : ThreadMove} {sfd : Nat} {point point' : ThreadPoint}
      {log : List (HandleEvent Handle)} (hListener : s.listener = some (sfd, point))
      (hThread : threadStep o printf qsort sfd s.collector.running s.collector.snap point a =
        some (point', log)) :
      Moves s (.listener a) { s with listener := some (sfd, point'), log := s.log ++ log }
  | join (hJoin : s.CanJoin) : Moves s .join { s with returned := true }

variable {o printf qsort setup} {s s' : State D} {a : Move D}

/-- Every step is one of these. -/
theorem step_cases (h : step o printf qsort setup s a = some s') :
    Moves o printf qsort setup s a s' := by
  cases a with
  | collector b =>
      obtain ⟨collector, hLoop, rfl⟩ := Option.map_eq_some_iff.mp h
      exact .collector hLoop
  | listener b =>
      simp only [step] at h
      split at h
      · cases h
      · rename_i sfd point hListener
        obtain ⟨⟨point', log⟩, hThread, rfl⟩ := Option.map_eq_some_iff.mp h
        exact .listener hListener hThread
  | join =>
      simp only [step] at h
      split at h
      · rename_i hPoint hListener
        obtain rfl := Option.some.inj h
        exact .join ⟨hPoint, by simp [hListener]⟩
      · rename_i sfd hPoint hListener
        obtain rfl := Option.some.inj h
        exact .join ⟨hPoint, by simp [hListener]⟩
      · cases h

theorem step_collector {b : Loop.Move D} {collector : Loop.State D}
    (h : Loop.step printf setup s.collector b = some collector) :
    step o printf qsort setup s (.collector b) = some { s with collector := collector } := by
  simp only [step, h, Option.map_some]

theorem step_listener {b : ThreadMove} {sfd : Nat} {point point' : ThreadPoint}
    {log : List (HandleEvent Handle)} (hListener : s.listener = some (sfd, point))
    (hThread : threadStep o printf qsort sfd s.collector.running s.collector.snap point b =
      some (point', log)) :
    step o printf qsort setup s (.listener b) =
      some { s with listener := some (sfd, point'), log := s.log ++ log } := by
  simp only [step, hListener, hThread, Option.map_some]

theorem step_join (h : s.CanJoin) :
    step o printf qsort setup s .join = some { s with returned := true } := by
  obtain ⟨hPoint, hListener⟩ := h
  cases hThread : s.listener with
  | none => simp only [step, hPoint, hThread]
  | some l =>
      obtain ⟨sfd, point⟩ := l
      obtain rfl : point = .closed := hListener _ hThread
      simp only [step, hPoint, hThread]

variable {files : Bytes → Store} {clock : Int} {started : Option Nat}
  {log : List (HandleEvent Handle)} {trace : List (Move D)}

/-! ## The collector inside the daemon -/

/-- The listener does not disturb the collector: leaving out its steps gives a run of the
collector that ends in the same state. -/
theorem collector_of_run
    (hRun : Lib.run (step o printf qsort setup) (boot files clock started log) trace = some s) :
    Lib.run (Loop.step printf setup) (Loop.start files clock) (collectorTrace trace) =
      some s.collector := by
  refine run_invariant (fun trace s => Lib.run (Loop.step printf setup) (Loop.start files clock)
    (collectorTrace trace) = some s.collector) rfl ?_ hRun
  intro trace s a s' hSame hStep
  rw [collectorTrace, List.filterMap_append, ← collectorTrace]
  cases step_cases hStep with
  | @collector b collector hLoop =>
      rw [run_append, hSame, Option.bind_some]
      show Lib.run (Loop.step printf setup) s.collector [b] = some collector
      rw [run_cons, hLoop]
      rfl
  | listener | join =>
      rw [← hSame]
      exact congrArg _ (List.append_nil _)

/-- **Every response is a scrape.**  Wherever in a run of the daemon a request for the
metrics is served, the client reads nothing, or families in increasing order with the
headers of their rules and exactly the samples of metrics of the last complete cycle of the
readers: of all of them if no allocation failed in it.  It reads them if the socket never
fails.  The allocations of the thread itself succeed. -/
theorem responses_are_scrapes (ho : o.Succeeds) (hSort : SortsFamilies qsort)
    (hVal : ∀ v, Exposition.space ∉ fmtVal printf 64 v ∧
      Exposition.newline ∉ fmtVal printf 64 v ∧ cr ∉ fmtVal printf 64 v)
    {before after : List (Move D)} {k : Nat} {chunks : List Bytes} {outcomes : List SendOutcome}
    {written : Bytes}
    (hRun : Lib.run (step o printf qsort setup) (boot files clock started log)
      (before ++ .listener (.serve k chunks outcomes written) :: after) = some s)
    (hAsks : Loop.AsksForMetrics chunks) :
    ∃ (history : List (Reader → Sources)) (done : List Reader) (srcs : Reader → Sources)
      (seen : List (Metric D)) (blocks : List Exposition.Block),
      Loop.readTrace (collectorTrace before) =
        history.flatMap (fun srcs => setup.enabled.map srcs) ++ done.map srcs ∧
      seen.Sublist (Loop.lastBatch setup history) ∧
      ((latestCycle (Loop.snapTrace (collectorTrace before))).failed = false →
        seen = Loop.lastBatch setup history) ∧
      blocks.Pairwise (fun b b' => strcmp b.family b'.family < 0) ∧
      (∀ b ∈ blocks, HasRule b) ∧
      (blockSamples blocks).Perm (seen.flatMap (metricSamples printf)) ∧
      (Loop.scrape written = none ∨ Loop.scrape written = some blocks) ∧
      ((∀ x ∈ outcomes, x.Progress) → Loop.scrape written = some blocks) := by
  rw [run_append, Option.bind_eq_some_iff] at hRun
  obtain ⟨s₁, hBefore, hRest⟩ := hRun
  rw [run_cons, Option.bind_eq_some_iff] at hRest
  obtain ⟨s₂, hServe, -⟩ := hRest
  have hCoupled := Loop.coupled_of_run (collector_of_run hBefore)
  cases step_cases hServe with
  | listener hListener hThread => exact hCoupled.scrape ho hSort hVal hAsks (served hThread)

/-- The listener and the first cycle of the collector, up to a connection. -/
def untilConnection : List (Move Double) :=
  [.listener .begin, .listener .test] ++ (Loop.swapTrace.map .collector ++
    [.listener (.poll 1 true), .listener (.accept (some 5))])

abbrev swapDaemon : State Double → Move Double → Option (State Double) :=
  step (filledMemory 0) integralPrintf stableQsort Loop.swapSetup

set_option maxRecDepth 20000 in
theorem untilConnection_runs :
    ∃ s, Lib.run swapDaemon (boot (fun _ => ⟨none, []⟩) 5 (some 4) []) untilConnection = some s ∧
      s.listener = some (4, .serving 5) := by
  have hListener : (Lib.run swapDaemon (boot (fun _ => ⟨none, []⟩) 5 (some 4) [])
      untilConnection).map State.listener = some (some (4, .serving 5)) := by
    decide +kernel
  exact Option.map_eq_some_iff.mp hListener

def metricsRequest : List Bytes := [ascii "GET /metrics HTTP/1.1\r\n\r\n"]

/-- A request for the metrics can be served to the end: the socket takes one byte after
the other. -/
theorem exists_serve
    (hRun : Lib.run (step o printf qsort setup) (boot files clock started log) trace = some s)
    {sfd fd : Nat} (hListener : s.listener = some (sfd, .serving fd)) {chunks : List Bytes}
    (hAsks : Loop.AsksForMetrics chunks) :
    ∃ outcomes written s', (∀ x ∈ outcomes, SendOutcome.Progress x) ∧
      Lib.run (step o printf qsort setup) (boot files clock started log)
        (trace ++ [.listener (.serve 0 chunks outcomes written)]) = some s' := by
  obtain ⟨a, hAnswer⟩ : ∃ a, connAnswer o printf qsort s.collector.snap 0 chunks = a := ⟨_, rfl⟩
  have hProgress : ∀ x ∈ List.replicate a.text.length (SendOutcome.sent 1), x.Progress := by
    intro x hx
    rw [List.eq_of_mem_replicate hx]
    exact Nat.one_pos
  have hSent : ((handleConn o printf qsort s.collector.snap chunks
      (List.replicate a.text.length (SendOutcome.sent 1))).run 0).1 = some a.text := by
    rw [handleConn_run _ hAsks.recv_ne_nil, hAnswer]
    refine sendBoth_returns hProgress ?_
    rw [List.countP_replicate]
    exact le_rfl
  have hServe := @step_listener D _ _ _ o printf qsort setup s _ sfd _ _ _ hListener
    (threadStep_serve hSent)
  have hWhole := run_append (step o printf qsort setup) (boot files clock started log) trace
    [.listener (.serve 0 chunks (List.replicate a.text.length (SendOutcome.sent 1)) a.text)]
  rw [hRun, Option.bind_some, run_cons, hServe, Option.bind_some, run_nil] at hWhole
  exact ⟨_, a.text, _, hProgress, hWhole⟩

/-- Prometheus asks after the first cycle. -/
theorem swap_response_is_scrape :
    ∃ outcomes written s blocks,
      Lib.run swapDaemon (boot (fun _ => ⟨none, []⟩) 5 (some 4) []) (untilConnection ++
        [.listener (.serve 0 metricsRequest outcomes written)]) = some s ∧
      Loop.scrape written = some blocks ∧ ∀ b ∈ blocks, HasRule b := by
  have hAsks : Loop.AsksForMetrics metricsRequest := by decide
  obtain ⟨s, hRun, hListener⟩ := untilConnection_runs
  obtain ⟨outcomes, written, s', hProgress, hWhole⟩ := exists_serve hRun hListener hAsks
  obtain ⟨-, -, -, -, blocks, -, -, -, -, hRules, -, -, hScrape⟩ :=
    responses_are_scrapes (filledMemory_succeeds 0) stableQsort_sorts
      (fun v => ⟨fmtVal_integralPrintf v (by decide) (by decide),
        fmtVal_integralPrintf v (by decide) (by decide),
        fmtVal_integralPrintf v (by decide) (by decide)⟩) hWhole hAsks
  exact ⟨outcomes, written, s', blocks, hWhole, hScrape hProgress, hRules⟩

/-! ## Nothing is left open -/

theorem audit_of_run (hLog : audit [] log = some (given started))
    (hRun : Lib.run (step o printf qsort setup) (boot files clock started log) trace = some s) :
    audit [] s.log = some s.held := by
  refine run_invariant (fun _ s => audit [] s.log = some s.held) ?_ ?_ hRun
  · rw [boot, hLog]
    cases started <;> rfl
  · intro trace s a s' hAudit hStep
    cases step_cases hStep with
    | collector | join => exact hAudit
    | @listener b sfd point point' log hListener hThread =>
        have hHeld : s.held = point.held sfd := by rw [State.held, hListener]
        rw [hHeld] at hAudit
        rw [audit_append hAudit]
        exact threadStep_audit hThread

theorem point_of_step (hPoint : s.collector.point = .returned)
    (h : step o printf qsort setup s a = some s') : s'.collector.point = .returned := by
  cases step_cases h with
  | collector hLoop => exact Loop.returned_of_step hPoint hLoop
  | listener | join => exact hPoint

/-- Threads that have returned do not come back. -/
theorem canJoin_of_step (hJoin : s.CanJoin) (h : step o printf qsort setup s a = some s') :
    s'.CanJoin := by
  refine ⟨point_of_step hJoin.1 h, ?_⟩
  cases step_cases h with
  | collector | join => exact hJoin.2
  | listener hListener hThread =>
      obtain rfl := hJoin.2 _ hListener
      cases hThread

theorem canJoin_of_run
    (hRun : Lib.run (step o printf qsort setup) (boot files clock started log) trace = some s) :
    s.returned = true → s.CanJoin := by
  refine run_invariant (fun _ s => s.returned = true → s.CanJoin) nofun ?_ hRun
  intro trace s a s' hInv hStep hReturned
  cases step_cases hStep with
  | collector | listener => exact canJoin_of_step (hInv hReturned) hStep
  | join hJoin => exact hJoin

/-- **Handles are given back.**  From the call of `http_metrics_start` on, whatever the
system calls report and however the threads take turns, no descriptor, block or list of
addresses is used or released while it is not held; and when `main` returns, each has been
released as often as it was acquired. -/
theorem handles_are_given_back {env : Replies} {addr : Option Bytes} {tid : Bool}
    {host port : Bytes} (hStart : httpMetricsStart env addr tid host port = some (started, log))
    (hRun : Lib.run (step o printf qsort setup) (boot files clock started log) trace = some s) :
    audit [] s.log = some s.held ∧
      (s.returned = true → ∀ h, s.log.count (.acquire h) = s.log.count (.release h)) := by
  have hAudit := audit_of_run (httpMetricsStart_audit hStart) hRun
  refine ⟨hAudit, fun hReturned h => ?_⟩
  rw [held_of_canJoin (canJoin_of_run hRun hReturned)] at hAudit
  simpa using audit_counts hAudit h

/-- What `http_metrics_start` does for `:9100` where the first address has no socket. -/
def startLog : List (HandleEvent Handle) :=
  [.acquire .addresses, .use .addresses, .use .addresses, .acquire (.descriptor 4),
    .use (.descriptor 4), .use (.descriptor 4), .use (.descriptor 4), .release .addresses,
    .use (.descriptor 4), .acquire .block, .use .block]

theorem start_on_fourth_descriptor :
    httpMetricsStart secondAddress (some (ascii ":9100")) true (List.replicate 256 0)
      (List.replicate 16 0) = some (some 4, startLog) := by
  decide +kernel

/-- The first cycle, a client that says nothing, and a signal. -/
def wholeDay : List (Move Double) :=
  untilConnection ++ [.listener (.serve 0 [] [] []), .listener .close, .collector .signal,
    .listener .test, .collector .wake, .collector .leave, .collector .shutdown, .join]

set_option maxRecDepth 20000 in
theorem wholeDay_runs :
    ∃ s, Lib.run swapDaemon (boot (fun _ => ⟨none, []⟩) 5 (some 4) startLog) wholeDay = some s ∧
      s.returned = true := by
  have hReturned : (Lib.run swapDaemon (boot (fun _ => ⟨none, []⟩) 5 (some 4) startLog)
      wholeDay).map State.returned = some true := by
    decide +kernel
  exact Option.map_eq_some_iff.mp hReturned

theorem wholeDay_gives_handles_back :
    ∃ s, Lib.run swapDaemon (boot (fun _ => ⟨none, []⟩) 5 (some 4) startLog) wholeDay = some s ∧
      ∀ h, s.log.count (.acquire h) = s.log.count (.release h) := by
  obtain ⟨s, hRun, hReturned⟩ := wholeDay_runs
  exact ⟨s, hRun, (handles_are_given_back start_on_fourth_descriptor hRun).2 hReturned⟩

/-! ## The end -/

/-- Each thread gets its turn again and again until it returns, and a join that remains
possible is made. -/
structure Fair (e : Execution (step o printf qsort setup)) : Prop where
  collector : ∀ i, (e.state i).collector.point ≠ .returned →
    ∃ j, i ≤ j ∧ ∃ b, e.action j = .collector b ∧ b.own = true
  listener : ∀ i, (¬ ∀ l ∈ (e.state i).listener, l.2 = .closed) →
    ∃ j, i ≤ j ∧ ∃ b, e.action j = .listener b
  join : ∀ i, (e.state i).returned = false → (∀ j, i ≤ j → (e.state j).CanJoin) →
    ∃ j, i ≤ j ∧ e.action j = .join

theorem running_of_step (hStopped : s.collector.running = false)
    (h : step o printf qsort setup s a = some s') : s'.collector.running = false := by
  cases step_cases h with
  | collector hLoop => exact Loop.running_of_step hStopped hLoop
  | listener | join => exact hStopped

/-- The collector returns. -/
theorem collector_returns (e : Execution (step o printf qsort setup)) (hFair : Fair e) {i : ℕ}
    (hStopped : (e.state i).collector.running = false) :
    ∃ j, i ≤ j ∧ (e.state j).collector.point = .returned := by
  refine e.eventually (fun a => ∃ b, a = .collector b ∧ b.own = true)
    (fun s => s.collector.running = false) (fun s => s.collector.point = .returned)
    (fun s => s.collector.rank setup) (fun _ _ _ h hStep => running_of_step h hStep) ?_ ?_
    hFair.collector hStopped
  · rintro s a s' hRunning hGoal ⟨b, rfl, hOwn⟩ h
    cases step_cases h with
    | collector hLoop =>
        refine (Loop.rank_own hOwn hLoop).resolve_left fun hTest => ?_
        rw [hRunning] at hTest
        cases hTest.2
  · intro s a s' hRunning hOther h
    cases step_cases h with
    | @collector b collector hLoop =>
        exact Loop.rank_other (fun hOwn => hOther ⟨b, rfl, hOwn⟩) hLoop
    | listener | join => rfl

/-- The listener returns. -/
theorem listener_returns (e : Execution (step o printf qsort setup)) (hFair : Fair e) {i : ℕ}
    (hStopped : (e.state i).collector.running = false) :
    ∃ j, i ≤ j ∧ ∀ l ∈ (e.state j).listener, l.2 = .closed := by
  refine e.eventually (fun a => ∃ b, a = .listener b) (fun s => s.collector.running = false)
    (fun s => ∀ l ∈ s.listener, l.2 = .closed) State.listenerRank
    (fun _ _ _ h hStep => running_of_step h hStep) ?_ ?_ hFair.listener hStopped
  · rintro s a s' hRunning _ ⟨b, rfl⟩ h
    cases step_cases h with
    | listener hListener hThread =>
        rw [listenerRank_eq s hListener]
        rw [hRunning] at hThread
        exact threadStep_rank hThread
  · intro s a s' _ hOther h
    cases step_cases h with
    | @listener b sfd point point' log hListener hThread => exact absurd ⟨b, rfl⟩ hOther
    | collector | join => rfl

/-- **The daemon returns after a signal.**  Neither thread is ever stuck before it returns.
If they get their turns again and again, then once `g_running` is cleared both return and
`main` joins and returns, with every handle given back. -/
theorem daemon_returns_after_signal {env : Replies} {addr : Option Bytes} {tid : Bool}
    {host port : Bytes} (hLog : httpMetricsStart env addr tid host port = some (started, log))
    (e : Execution (step o printf qsort setup)) (hBoot : e.state 0 = boot files clock started log)
    (hFair : Fair e) (i : ℕ) :
    ((e.state i).collector.point ≠ .returned →
      ∃ b s', b.own = true ∧ step o printf qsort setup (e.state i) (.collector b) = some s') ∧
    ((¬ ∀ l ∈ (e.state i).listener, l.2 = .closed) →
      ∃ b s', step o printf qsort setup (e.state i) (.listener b) = some s') ∧
    ((e.state i).collector.running = false →
      ∃ j, i ≤ j ∧ (e.state j).returned = true ∧
        ∀ h, (e.state j).log.count (.acquire h) = (e.state j).log.count (.release h)) := by
  have hRunTo : ∀ j, Lib.run (step o printf qsort setup) (boot files clock started log)
      ((List.range j).map e.action) = some (e.state j) := by
    intro j
    rw [← hBoot]
    exact e.run_take j
  refine ⟨fun hPoint => ?_, fun hOpen => ?_, fun hStopped => ?_⟩
  · obtain ⟨b, collector, hOwn, hLoop⟩ :=
      @Loop.can_step D _ _ _ printf _ _ _ (Loop.coupled_of_run (collector_of_run (hRunTo i))) hPoint
    exact ⟨b, _, hOwn, step_collector hLoop⟩
  · simp only [not_forall] at hOpen
    obtain ⟨⟨sfd, point⟩, hListener, hPoint⟩ := hOpen
    obtain ⟨b, point', log', hThread⟩ := @threadStep_exists D _ _ o printf qsort sfd
      (e.state i).collector.running (e.state i).collector.snap point hPoint
    exact ⟨b, _, step_listener hListener hThread⟩
  · obtain ⟨j, hj, hReturned⟩ := collector_returns e hFair hStopped
    obtain ⟨k, hk, hClosed⟩ := listener_returns e hFair
      (e.always_of_step (fun _ _ _ h hStep => running_of_step h hStep) hStopped hj)
    have hThere : (e.state k).CanJoin :=
      ⟨e.always_of_step (fun _ _ _ h hStep => point_of_step h hStep) hReturned hk, hClosed⟩
    have hJoin : ∀ m, k ≤ m → (e.state m).CanJoin := fun m hm =>
      e.always_of_step (fun _ _ _ h hStep => canJoin_of_step h hStep) hThere hm
    have hDone : ∃ m, k ≤ m ∧ (e.state m).returned = true := by
      cases hReturned : (e.state k).returned with
      | true => exact ⟨k, le_rfl, hReturned⟩
      | false =>
          obtain ⟨m, hm, hAction⟩ := hFair.join k hReturned hJoin
          have hStep := e.step_eq m
          rw [hAction, step_join (hJoin m hm)] at hStep
          exact ⟨m + 1, Nat.le_succ_of_le hm, by rw [← Option.some.inj hStep]⟩
    obtain ⟨m, hm, hDone⟩ := hDone
    have hAudit := audit_of_run (httpMetricsStart_audit hLog) (hRunTo m)
    rw [held_of_canJoin (hJoin m hm)] at hAudit
    exact ⟨m, by omega, hDone, fun h => by simpa using audit_counts hAudit h⟩

/-- A signal inside the first cycle.  The cycle is completed, the thread serves a client that
says nothing and closes its socket, and the main thread shuts the writer down, joins and
returns. -/
def stoppedDay : List (Move Double) :=
  [.listener .begin, .listener .test] ++ Loop.signalledCycle.map .collector ++
    [.listener (.poll 1 true), .listener (.accept (some 5)), .listener (.serve 0 [] [] []),
      .listener .close, .collector .wake, .collector .leave, .listener .test,
      .collector .shutdown, .join]

def State.ended (s : State Double) : Bool :=
  s.returned && s.collector.ended && decide (s.listener = some (4, .closed))

set_option maxRecDepth 20000 in
theorem stoppedDay_runs :
    ∃ s, Lib.run swapDaemon (boot (fun _ => ⟨none, []⟩) 5 (some 4) startLog) stoppedDay =
      some s ∧ s.ended = true :=
  (Option.any_eq_true _ _).mp (by decide +kernel)

theorem stoppedDay_at_rest :
    ∃ s, Lib.run swapDaemon (boot (fun _ => ⟨none, []⟩) 5 (some 4) startLog) stoppedDay =
      some s ∧ swapDaemon s (.collector .signal) = some s := by
  obtain ⟨s, hRun, hEnded⟩ := stoppedDay_runs
  simp only [State.ended, Bool.and_eq_true] at hEnded
  obtain ⟨hRunning, -⟩ := Loop.State.ended_iff.mp hEnded.1.2
  refine ⟨s, hRun, ?_⟩
  simp only [swapDaemon, step, Loop.step, ← hRunning, Option.map_some]

/-- The day, and signals ever after. -/
def stoppedDaemon : Execution swapDaemon :=
  .ofRun (boot (fun _ => ⟨none, []⟩) 5 (some 4) startLog) stoppedDay (.collector .signal)
    stoppedDay_at_rest

/-- At rest nobody has a turn to get. -/
theorem stoppedDaemon_at_rest {i : ℕ} (hi : 26 ≤ i) :
    (stoppedDaemon.state i).returned = true ∧
      (stoppedDaemon.state i).collector.point = .returned ∧
      (stoppedDaemon.state i).listener = some (4, .closed) := by
  have hLength : stoppedDay.length = 26 := by decide
  obtain ⟨s, hRun, hEnded⟩ := stoppedDay_runs
  have hRest : stoppedDaemon.state i = s := Execution.ofRun_at_rest hRun (hLength ▸ hi)
  simp only [State.ended, Bool.and_eq_true, decide_eq_true_eq] at hEnded
  rw [hRest]
  exact ⟨hEnded.1.1, (Loop.State.ended_iff.mp hEnded.1.2).2, hEnded.2⟩

theorem stoppedDaemon_fair : Fair stoppedDaemon where
  collector i hPoint := by
    rcases lt_or_ge i 25 with hi | hi
    · exact ⟨24, by omega, .shutdown, rfl, rfl⟩
    · -- in front of the join, or behind it
      rcases hi.lt_or_eq with hi | rfl
      · exact absurd (stoppedDaemon_at_rest hi).2.1 hPoint
      · have hEnded : (stoppedDaemon.state 25).collector.ended = true := by decide +kernel
        exact absurd (Loop.State.ended_iff.mp hEnded).2 hPoint
  listener i hOpen := by
    rcases lt_or_ge i 24 with hi | hi
    · exact ⟨23, by omega, .test, rfl⟩
    · have hListener : (stoppedDaemon.state i).listener = some (4, .closed) := by
        rcases lt_or_ge i 26 with hEnd | hEnd
        · interval_cases i <;> decide +kernel
        · exact (stoppedDaemon_at_rest hEnd).2.2
      refine absurd ?_ hOpen
      rw [hListener]
      rintro l ⟨⟩
      rfl
  join i hReturned _ := by
    rcases lt_or_ge i 26 with hi | hi
    · exact ⟨25, by omega, rfl⟩
    · rw [(stoppedDaemon_at_rest hi).1] at hReturned
      cases hReturned

theorem stoppedDaemon_returns :
    (stoppedDaemon.state 11).collector.running = false ∧
      ∃ j, 11 ≤ j ∧ (stoppedDaemon.state j).returned = true := by
  have hStopped : (stoppedDaemon.state 11).collector.running = false := by decide +kernel
  obtain ⟨-, -, hReturns⟩ := daemon_returns_after_signal start_on_fourth_descriptor stoppedDaemon
    rfl stoppedDaemon_fair 11
  obtain ⟨j, hj, hReturned, -⟩ := hReturns hStopped
  exact ⟨hStopped, j, hj, hReturned⟩

end Code

end Daemon
end SvgdCollect
