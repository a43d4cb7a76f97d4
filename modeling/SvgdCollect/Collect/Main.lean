import SvgdCollect.Collect.Daemon
import SvgdCollect.Collect.Times

/-!
# The configured program

`main` reads its configuration and starts the listener if there is an address for it; then
`collect_run` takes its interval, its directories, the daemon and its readers from the same
configuration.  Here the two ends are put together: whatever the file holds, its six members
as `config_load` reads them decide what a run of the program does.
-/

namespace SvgdCollect
namespace Daemon

open Lib Prom Config

variable {D : Type}

/-- `main` up to `collect_run`.  `host` and `port` are what the arrays of `make_listener` hold
before it writes them. -/
def mainStart (env : Replies) (file : Option Bytes) (files : Bytes → Store) (clock : Int)
    (host port : Bytes) : Option (State D) :=
  let cfg := (configLoad file).2
  if cfg.metricsAddr = [] then some (boot files clock none [])
  else (httpMetricsStart env (some cfg.metricsAddr) true host port).map fun r =>
    boot files clock r.1 r.2

/-! ## The configuration -/

theorem length_extractString_lt {json key out : Bytes} {n : Nat} (hOut : out.length < n) :
    (extractString json key out n).length < n := by
  unfold extractString
  split
  · exact hOut
  · split
    · exact hOut
    · split
      · exact hOut
      · simp only
        split
        · exact hOut
        · rw [List.length_take]
          split <;> omega

/-- The texts fit their arrays. -/
theorem length_text_configLoad (file : Option Bytes) (t : TextField) :
    ((configLoad file).2.text t).length < t.size := by
  have hDefault : (CollectConfig.defaults.text t).length < t.size := by
    cases t <;> decide
  cases file with
  | none => exact hDefault
  | some content =>
      rw [text_configLoad]
      exact length_extractString_lt hDefault

/-- `writer_init` copies the texts whole. -/
theorem writer_collectSetup (file : Option Bytes) :
    (Loop.collectSetup file).writer =
      { datadir := (configLoad file).2.datadir
        host := (configLoad file).2.host
        rrdcached := (configLoad file).2.rrdcached } := by
  have hDatadir : (configLoad file).2.datadir.length < 4096 :=
    length_text_configLoad file .datadir
  have hHost : (configLoad file).2.host.length < 128 := length_text_configLoad file .host
  have hDaemon : (configLoad file).2.rrdcached.length < 256 :=
    length_text_configLoad file .rrdcached
  show writerInit _ _ _ = _
  rw [writerInit, Option.getD_some, List.take_of_length_le (by omega),
    List.take_of_length_le (by omega), List.take_of_length_le (by omega)]

/-- A configuration asks for a reader by its name, or for all of them by none. -/
def Requests (cfg : CollectConfig) (r : Reader) : Prop :=
  cfg.readers = [] ∨ ∃ name ∈ cfg.readers, registryFind (some name) = some r

theorem mem_registry (r : Reader) : r ∈ registry.map Prod.snd := by
  cases r <;> decide

/-- Readers that are all different fit the array. -/
theorem length_readers_le {readers : List Reader} (h : readers.Nodup) : readers.length ≤ 32 := by
  have hSubset : readers ⊆ registry.map Prod.snd := fun r _ => mem_registry r
  have hLength := (List.subperm_of_subset h hSubset).length_le
  have hRegistry : (registry.map Prod.snd).length = 11 := by decide
  omega

theorem mem_enabled_iff (file : Option Bytes) (r : Reader) :
    r ∈ (Loop.collectSetup file).enabled ↔ Requests (configLoad file).2 r := by
  obtain ⟨pieces, hPieces, hCount, -, -⟩ := readers_configLoad_pieces file
  have hTake : (configLoad file).2.readers.take 16 = (configLoad file).2.readers := by
    rw [hPieces]
    exact List.take_of_length_le (by rwa [List.length_map])
  show r ∈ collectBuildEnabled (some (((configLoad file).2.readers.take 16).map some)) 32 ↔ _
  rw [hTake]
  unfold Requests
  cases hNames : (configLoad file).2.readers with
  | nil =>
      have hAll : (registry.map Prod.snd).take 32 = registry.map Prod.snd := by decide
      have hBuild : collectBuildEnabled (some (([] : List Bytes).map some)) 32 =
          (registry.map Prod.snd).take 32 := rfl
      rw [hBuild, hAll]
      exact iff_of_true (mem_registry r) (Or.inl rfl)
  | cons name names =>
      have hNodup : (firstSeen (((name :: names).map some).filterMap registryFind)).Nodup :=
        nodup_firstSeen _
      rw [collectBuildEnabled_names (by simp), List.take_of_length_le (length_readers_le hNodup),
        mem_firstSeen, List.filterMap_map, List.mem_filterMap]
      simp

/-! ## What a run keeps -/

section Runs

variable [CDouble D] [DecidableEq D] [Inhabited D] {o : Oracle} {printf : Printf D}
  {qsort : Qsort} {setup : Loop.Setup} {files : Bytes → Store} {clock : Int}
  {started : Option Nat} {log : List (HandleEvent Handle)} {trace : List (Move D)} {s : State D}

/-- The thread keeps its socket. -/
theorem listener_of_run
    (hRun : Lib.run (step o printf qsort setup) (boot files clock started log) trace = some s) :
    s.listener.map Prod.fst = started := by
  refine run_invariant (fun _ (s : State D) => s.listener.map Prod.fst = started) ?_ ?_ hRun
  · cases started <;> rfl
  · intro trace s a s' h hStep
    cases step_cases hStep with
    | collector | join => exact h
    | listener hListener hThread =>
        rw [hListener] at h
        exact h

omit [CDouble D] [DecidableEq D] in
/-- Without an address nothing is given to a daemon. -/
theorem queue_of_direct {w : Writer} (hDirect : w.rrdcached = []) {p : Progress}
    (hQueue : p.store.queue = []) (events : List (Event D)) :
    (runEvents printf w p events).store.queue = [] := by
  induction events generalizing p with
  | nil => exact hQueue
  | cons e events ih =>
      refine ih (p := stepEvent printf w p e) ?_
      cases e with
      | apply =>
          show (applyQueued p).store.queue = []
          rw [applyQueued, hQueue]
          exact hQueue
      | write m c =>
          obtain ⟨s, hs, hStep⟩ := stepEvent_write_cases printf w p m c
          have hSame : s.queue = [] := hs.queue.trans hQueue
          rcases hStep with ⟨-, hStep⟩ | ⟨-, hDaemon, -⟩ | ⟨-, -, hStep⟩ | ⟨-, -, hStep⟩
          · rw [hStep]
            exact hSame
          · exact absurd hDirect hDaemon.1
          · rw [hStep]
            exact hSame
          · rw [hStep]
            exact hSame

omit [CDouble D] [DecidableEq D] in
/-- A file that nobody has written stays as it is. -/
theorem runEvents_of_no_write {w : Writer} {p : Progress} (hQueue : p.store.queue = [])
    {events : List (Event D)} (h : ∀ m c, .write m c ∉ events) : runEvents printf w p events = p := by
  induction events with
  | nil => rfl
  | cons e events ih =>
      have hRest := ih fun m c hMem => h m c (List.mem_cons_of_mem e hMem)
      cases e with
      | write m c => exact absurd List.mem_cons_self (h m c)
      | apply =>
          have hApply : applyQueued p = p := by
            rw [applyQueued, hQueue]
          show runEvents printf w (applyQueued p) events = p
          rw [hApply, hRest]

omit [CDouble D] [DecidableEq D] [Inhabited D] in
theorem mem_collectorTrace {a : Loop.Move D} :
    a ∈ collectorTrace trace ↔ .collector a ∈ trace := by
  rw [collectorTrace, List.mem_filterMap]
  constructor
  · rintro ⟨b, hb, hSome⟩
    split at hSome
    · cases hSome
      exact hb
    · cases hSome
  · exact fun h => ⟨_, h, rfl⟩

/-- A file that has changed was written. -/
theorem written_of_changed (hEmpty : ∀ path, (files path).queue = [])
    (hRun : Lib.run (step o printf qsort setup) (boot files clock started log) trace = some s)
    {path : Bytes} (hChanged : s.collector.files path ≠ files path) :
    ∃ m c, .collector (.write m c) ∈ trace ∧ writerPath setup.writer m = some path := by
  by_contra hNone
  refine hChanged ?_
  rw [Loop.files_of_run (collector_of_run hRun) path]
  have hSame : runEvents printf setup.writer (Progress.start (files path))
      (Loop.fileTrace setup.writer path (collectorTrace trace)) = Progress.start (files path) := by
    refine runEvents_of_no_write (hEmpty path) fun m c hMem => hNone ?_
    obtain ⟨hWrite, hPath⟩ := Loop.mem_fileTrace_write.mp hMem
    exact ⟨m, c, mem_collectorTrace.mp hWrite, hPath⟩
  rw [hSame]
  rfl

/-- **The configuration rules the run.**  Whatever the configuration file holds, `main` gets
as far as the collector, and in every run from there on: there is a listener exactly if
`metrics_addr` is an address that a socket can be bound to and the thread could be started;
every metric comes from a reader that `readers` asks for; every path whose file changes is
that of a metric, put together from `datadir` and the host's name, and leads to a file in a
directory of that directory if the names that the readers find hold no slashes; without
`rrdcached_addr` nothing is left to a daemon; and if these names are distinct as well, the
clock is not set back and a whole sleep takes a second, then the samples of a file are at
least `interval` seconds apart.  The daemon's queues are empty at the start. -/
theorem configuration_rules_the_run (env : Replies) (file : Option Bytes) {host port : Bytes}
    (hHost : host.length = 256) (hPort : port.length = 16)
    (hEmpty : ∀ path, (files path).queue = []) :
    ∃ s₀ : State D, mainStart env file files clock host port = some s₀ ∧
      ∀ trace s, Lib.run (step o printf qsort (Loop.collectSetup file)) s₀ trace = some s →
        let cfg := (configLoad file).2
        let hostDir := cfg.datadir ++ slash :: cfg.host
        (∀ fd, (∃ point, s.listener = some (fd, point)) ↔
          Binds env cfg.metricsAddr fd ∧ env.malloc = true ∧ env.pthreadCreate = true) ∧
        (∀ m c, .collector (.write m c) ∈ trace → ∃ r, Requests cfg r ∧
          ∃ src, .collector (.read src) ∈ trace ∧
            ∃ st, m ∈ (r.read src st : CpuState × ReadResult D).2.metrics) ∧
        (∀ path, s.collector.files path ≠ files path → ∃ m c, .collector (.write m c) ∈ trace ∧
          path = fullPath cfg.datadir cfg.host m ++ [0]) ∧
        (Loop.NamesSlashFree (collectorTrace trace) → ∀ cwd path,
          s.collector.files path ≠ files path → ∃ dir name,
            fileOf cwd path =
              FileTree.target (startOf cwd hostDir) (pathSteps hostDir) ++ [dir, name]) ∧
        (cfg.rrdcached = [] → ∀ path, (s.collector.files path).queue = []) ∧
        (Loop.NamesDistinct (collectorTrace trace) → Loop.NamesSlashFree (collectorTrace trace) →
          Loop.OnTime clock (collectorTrace trace) → ∀ cwd file',
            (Loop.callsOn cwd (Loop.collectSetup file).writer file'
              (collectorTrace trace)).Pairwise (· + cfg.interval ≤ ·)) := by
  have hAddr : 0 ∉ (configLoad file).2.metricsAddr :=
    (plain_text_configLoad file .metricsAddr).2
  have hStart : ∃ started log,
      (mainStart env file files clock host port : Option (State D)) =
          some (boot files clock started log) ∧
        ∀ fd, started = some fd ↔ Binds env (configLoad file).2.metricsAddr fd ∧
          env.malloc = true ∧ env.pthreadCreate = true := by
    unfold mainStart
    by_cases hNone : (configLoad file).2.metricsAddr = []
    · simp only [if_pos hNone]
      exact ⟨none, [], rfl, fun fd => iff_of_false nofun fun h => h.1.addr_ne_nil hNone⟩
    · obtain ⟨started, log, hResult, hExact⟩ := httpMetricsStart_result env hAddr true hHost hPort
      simp only [if_neg hNone, hResult, Option.map_some]
      exact ⟨started, log, rfl, by simpa using hExact⟩
  obtain ⟨started, log, hMain, hStarted⟩ := hStart
  refine ⟨_, hMain, fun trace s hRun => ?_⟩
  have hCollector := collector_of_run hRun
  have hWriter := writer_collectSetup file
  have hEmitted : ∀ m c, .collector (.write m c) ∈ trace → ∃ r ∈ (Loop.collectSetup file).enabled,
      ∃ src, .collector (.read src) ∈ trace ∧
        ∃ st, m ∈ (r.read src st : CpuState × ReadResult D).2.metrics := by
    intro m c hWrite
    obtain ⟨r, hEnabled, src, hSeen, hRead⟩ :=
      (Loop.coupled_of_run hCollector).emitted (mem_collectorTrace.mpr hWrite)
    exact ⟨r, hEnabled, src, mem_collectorTrace.mp hSeen, hRead⟩
  refine ⟨fun fd => ?_, fun m c hWrite => ?_, fun path hChanged => ?_,
    fun hSlash cwd path hChanged => ?_, fun hDirect path => ?_,
    fun hNames hSlash hTime cwd file' => ?_⟩
  · rw [← hStarted, ← listener_of_run hRun, Option.map_eq_some_iff]
    simp
  · obtain ⟨r, hEnabled, hRead⟩ := hEmitted m c hWrite
    exact ⟨r, (mem_enabled_iff file r).mp hEnabled, hRead⟩
  · obtain ⟨m, c, hWrite, hPath⟩ := written_of_changed hEmpty hRun hChanged
    rw [hWriter] at hPath
    exact ⟨m, c, hWrite, writerPath_eq_some hPath⟩
  · obtain ⟨m, c, hWrite, hPath⟩ := written_of_changed hEmpty hRun hChanged
    obtain ⟨r, -, src, hSeen, st, hRead⟩ := hEmitted m c hWrite
    have hFree := slashFree_read_iff.mpr (hSlash src (mem_collectorTrace.mpr hSeen) r) st m hRead
    rw [hWriter] at hPath
    exact ⟨_, _, fileOf_writerPath (shape_of_mem_read hRead) hFree hPath⟩
  · rw [Loop.files_of_run hCollector path]
    exact queue_of_direct (by rw [hWriter]; exact hDirect) (hEmpty path) _
  · exact (Loop.callsOn_spaced hNames hSlash hTime hCollector cwd file').1

end Runs

/-- One reader, and a listener on every interface. -/
def swapConfig : Bytes := ascii "\x7b\"metrics_addr\": \":9100\", \"readers\": [\"swap\"]\x7d"

theorem configLoad_swapConfig :
    (configLoad (some swapConfig)).2.metricsAddr = ascii ":9100" ∧
      (configLoad (some swapConfig)).2.readers = [ascii "swap"] := by
  decide +kernel

theorem swapConfig_rules_the_run :
    ∃ s₀ : State Double, mainStart secondAddress (some swapConfig) (fun _ => ⟨none, []⟩) 5
        (List.replicate 256 0) (List.replicate 16 0) = some s₀ ∧
      ∀ trace s, Lib.run (step (filledMemory 0) integralPrintf stableQsort
          (Loop.collectSetup (some swapConfig))) s₀ trace = some s →
        (∃ point, s.listener = some (4, point)) ∧
        ∀ m c, .collector (.write m c) ∈ trace →
          ∃ src, .collector (.read src) ∈ trace ∧
            ∃ st, m ∈ (Reader.swap.read src st : CpuState × ReadResult Double).2.metrics := by
  obtain ⟨hAddr, hReaders⟩ := configLoad_swapConfig
  have hBinds : Binds secondAddress (ascii ":9100") 4 :=
    ⟨rfl, [], ascii "9100", _, by unfold IsListenAddr; decide, rfl, rfl⟩
  obtain ⟨s₀, hMain, hRuns⟩ := @configuration_rules_the_run Double _ _ _ (filledMemory 0)
    integralPrintf stableQsort (fun _ => ⟨none, []⟩) 5 secondAddress (some swapConfig) _ _
    List.length_replicate List.length_replicate fun _ => rfl
  refine ⟨s₀, hMain, fun trace s hRun => ?_⟩
  obtain ⟨hListener, hMetrics, -⟩ := hRuns trace s hRun
  rw [hAddr] at hListener
  refine ⟨(hListener 4).mpr ⟨hBinds, rfl, rfl⟩, fun m c hWrite => ?_⟩
  obtain ⟨r, hRequests, hRead⟩ := hMetrics m c hWrite
  have hSwap : registryFind (some (ascii "swap")) = some .swap := by decide
  rcases hRequests with hAll | ⟨name, hName, hFound⟩
  · rw [hReaders] at hAll
    cases hAll
  · rw [hReaders, List.mem_singleton] at hName
    rw [hName, hSwap] at hFound
    cases hFound
    exact hRead

end Daemon
end SvgdCollect
