import SvgdCollect.Lib.Grouping
import SvgdCollect.Readers.Processes
import Mathlib.Algebra.BigOperators.Ring.Finset

/-!
# The process table as a whole

`processes_read` groups the processes by name.  The table after any directory
listing is that of `Grouping.foldl_step`: the first 256 distinct names in the order
in which the listing brings them, each with the totals of all its processes.
-/

namespace SvgdCollect

open Lib

/-! ## The slots -/

def CommAgg.fresh (comm : Bytes) : CommAgg :=
  { comm := comm.take (commLen - 1), rssSum := 0, utimeSum := 0, stimeSum := 0, procCount := 0
    threadsSum := 0 }

/-- Processes grouped by their name. -/
def commGrouping : Grouping PidSample Bytes CommAgg where
  key := PidSample.comm
  slotKey := CommAgg.comm
  fresh := CommAgg.fresh
  add := CommAgg.add
  slotKey_add _ _ := rfl

theorem aggStep_eq (ag : List CommAgg) (s : PidSample) :
    aggStep ag s = commGrouping.step maxComms ag s := by
  have hFind : (ag.findIdx? fun a => strcmp a.comm s.comm = 0) =
      ag.findIdx? fun a => commGrouping.slotKey a = commGrouping.key s := by
    congr 1
    funext a
    exact decide_eq_decide.mpr strcmp_eq_zero_iff
  unfold aggStep aggLookup Grouping.step
  rw [hFind]
  cases ag.findIdx? fun a => commGrouping.slotKey a = commGrouping.key s with
  | some i => rfl
  | none =>
      -- the source appends an empty slot and then adds to it
      by_cases hFull : ag.length ≥ maxComms
      · simp [hFull]
      · simp only [hFull, if_false]
        rw [List.modify_eq_take_cons_drop (by simp)]
        simp [commGrouping, CommAgg.fresh]

theorem aggregate_eq_foldl (samples : List PidSample) :
    aggregate samples = samples.foldl (commGrouping.step maxComms) [] := by
  unfold aggregate
  congr 1
  funext ag s
  exact aggStep_eq ag s

instance : RightCommutative commGrouping.add where
  right_comm a s t := by
    have hSwap : ∀ x y z : Nat, ((x + y) % 2 ^ 64 + z) % 2 ^ 64 =
        ((x + z) % 2 ^ 64 + y) % 2 ^ 64 := by
      intro x y z
      omega
    simp only [commGrouping, CommAgg.add, CommAgg.mk.injEq, hSwap a.rssSum, hSwap a.utimeSum,
      hSwap a.stimeSum, true_and]
    omega

/-- What a slot holds after its group has been added. -/
theorem foldl_add_fresh (group : List PidSample) (comm : Bytes) :
    group.foldl CommAgg.add (CommAgg.fresh comm) =
      { comm := comm.take (commLen - 1)
        rssSum := (group.map PidSample.rss).sum % 2 ^ 64
        utimeSum := (group.map PidSample.utime).sum % 2 ^ 64
        stimeSum := (group.map PidSample.stime).sum % 2 ^ 64
        procCount := group.length
        threadsSum := (group.map PidSample.threads).sum } := by
  induction group using List.reverseRecOn with
  | nil => rfl
  | append_singleton group s ih =>
      rw [List.foldl_append, ih]
      simp [CommAgg.add]

/-- The processes of a name. -/
def commGroup (samples : List PidSample) (comm : Bytes) : List PidSample :=
  samples.filter fun s => s.comm = comm

/-- The totals of a name. -/
def commTotals (samples : List PidSample) (comm : Bytes) : CommAgg :=
  { comm := comm
    rssSum := ((commGroup samples comm).map PidSample.rss).sum % 2 ^ 64
    utimeSum := ((commGroup samples comm).map PidSample.utime).sum % 2 ^ 64
    stimeSum := ((commGroup samples comm).map PidSample.stime).sum % 2 ^ 64
    procCount := (commGroup samples comm).length
    threadsSum := ((commGroup samples comm).map PidSample.threads).sum }

theorem slot_eq_commTotals (samples : List PidSample) {comm : Bytes}
    (hLength : comm.length < commLen) :
    commGrouping.slot samples comm = commTotals samples comm := by
  have hTake : comm.take (commLen - 1) = comm := List.take_of_length_le (by omega)
  have hFold := foldl_add_fresh (commGroup samples comm) comm
  rw [hTake] at hFold
  exact hFold

/-! ## The table -/

/-- The names in order of first appearance. -/
def distinctComms (samples : List PidSample) : List Bytes := firstSeen (samples.map PidSample.comm)

/-- A name that fits a slot is the key of the slot made for it. -/
theorem slotKey_fresh_key {s : PidSample} (hLength : s.comm.length < commLen) :
    commGrouping.slotKey (commGrouping.fresh (commGrouping.key s)) = commGrouping.key s :=
  List.take_of_length_le (by simp only [commGrouping]; omega)

/-- The table after any sequence of processes with names that fit a slot. -/
theorem aggregate_eq {samples : List PidSample}
    (hLength : ∀ s ∈ samples, s.comm.length < commLen) :
    aggregate samples = ((distinctComms samples).take maxComms).map (commTotals samples) := by
  rw [aggregate_eq_foldl, distinctComms,
    commGrouping.foldl_step maxComms samples fun s hs => slotKey_fresh_key (hLength s hs)]
  apply List.map_congr_left
  intro comm hComm
  have hSeen := mem_firstSeen.mp (List.mem_of_mem_take hComm)
  obtain ⟨s, hs, rfl⟩ := List.mem_map.mp hSeen
  exact slot_eq_commTotals samples (hLength s hs)

/-- A process that is read: its name and its contribution. -/
theorem readPid_eq_some {src : Sources} {base pid : Bytes} {s : PidSample}
    (h : readPid src base pid = some s) :
    isNumeric pid = true ∧ pidComm src base pid = some s.comm := by
  unfold readPid at h
  split at h
  · cases h
  · rename_i hNumeric
    split at h
    · cases h
    · rename_i comm hComm
      split at h
      · cases h
      · split at h
        · cases h
        · simp only [Option.some.injEq] at h
          rw [← h]
          exact ⟨by simpa using hNumeric, hComm⟩

theorem pidComm_eq_some {src : Sources} {base pid comm : Bytes}
    (h : pidComm src base pid = some comm) : comm ≠ [] ∧ comm.length < commLen := by
  simp only [pidComm] at h
  split at h
  · cases h
  · rename_i hNonempty
    simp only [Option.some.injEq] at h
    rw [← h]
    exact ⟨hNonempty, firstText_length_lt (by decide) _⟩

/-- What a directory listing contributes to the table, in its order. -/
def pidSamples (src : Sources) (base : Bytes) (names : List Bytes) : List PidSample :=
  names.filterMap (readPid src base)

theorem comm_length_of_mem_pidSamples {src : Sources} {base : Bytes} {names : List Bytes}
    {s : PidSample} (hs : s ∈ pidSamples src base names) :
    s.comm ≠ [] ∧ s.comm.length < commLen := by
  obtain ⟨pid, -, hRead⟩ := List.mem_filterMap.mp hs
  exact pidComm_eq_some (readPid_eq_some hRead).2

/-- `processes_read` emits the totals of the first 256 names. -/
theorem processesRead_eq {D : Type} [CDouble D] {src : Sources} {base : Bytes}
    {names : List Bytes} (hDir : src.dir base = some names) :
    (processesRead src base : ReadResult D) =
      .ok (((distinctComms (pidSamples src base names)).take maxComms).flatMap fun comm =>
        (commTotals (pidSamples src base names) comm).metrics) := by
  have hLength : ∀ s ∈ pidSamples src base names, s.comm.length < commLen := fun s hs =>
    (comm_length_of_mem_pidSamples hs).2
  unfold processesRead
  rw [hDir]
  simp only
  rw [← pidSamples, aggregate_eq hLength, List.flatMap_map]

theorem mem_processesRead_of_aggregate {D : Type} [CDouble D] {src : Sources} {base : Bytes}
    {names : List Bytes} {table : List CommAgg} {a : CommAgg} {m : Metric D}
    (hDir : src.dir base = some names) (hTable : aggregate (pidSamples src base names) = table)
    (ha : a ∈ table) (hm : m ∈ a.metrics) : m ∈ (processesRead src base).metrics := by
  rw [processesRead, hDir]
  simp only [ReadResult.ok]
  rw [← pidSamples, hTable]
  exact List.mem_flatMap.mpr ⟨a, ha, hm⟩

/-! ## Counting the processes -/

/-- The process of a directory can be read: the first line of its `comm` is not empty once
trailing carriage returns and newlines are cut, and its `stat` and `statm` hold the fields
that are asked for. -/
structure PidReadable (src : Sources) (base pid : Bytes) : Prop where
  comm : (pidComm src base pid).isSome
  stat : ((fgetsFile 1024 (src.file (pidPath base pid "stat"))).bind statTimes).isSome
  statm : ((fgetsFile 256 (src.file (pidPath base pid "statm"))).bind statmResident).isSome

/-- The numbers of processes among emitted metrics: the first value of `ps_count`. -/
def psCounts {D : Type} (metrics : List (Metric D)) : List D :=
  metrics.filterMap fun m => if m.type = ascii "ps_count" then m.values.head? else none

theorem psCounts_commAgg {D : Type} [CDouble D] (table : List CommAgg) :
    psCounts (table.flatMap CommAgg.metrics : List (Metric D)) =
      table.map fun a => CDouble.ofInt a.procCount := by
  have hRss : ascii "ps_rss" ≠ ascii "ps_count" := by decide
  have hCputime : ascii "ps_cputime" ≠ ascii "ps_count" := by decide
  induction table with
  | nil => rfl
  | cons a table ih =>
      unfold psCounts at ih ⊢
      rw [List.flatMap_cons, List.filterMap_append, ih]
      simp [CommAgg.metrics, processMetric, hRss, hCputime]

/-- How many processes each emitted name has. -/
def commCounts (samples : List PidSample) : List Nat :=
  ((distinctComms samples).take maxComms).map fun comm => (commGroup samples comm).length

theorem psCounts_processesRead {src : Sources} {base : Bytes} {names : List Bytes}
    (hDir : src.dir base = some names) (D : Type) [CDouble D] :
    psCounts (processesRead src base : ReadResult D).metrics =
      (commCounts (pidSamples src base names)).map fun n : Nat => CDouble.ofInt (n : Int) := by
  have hLength : ∀ s ∈ pidSamples src base names, s.comm.length < commLen := fun s hs =>
    (comm_length_of_mem_pidSamples hs).2
  rw [processesRead, hDir]
  simp only [ReadResult.ok]
  rw [psCounts_commAgg, ← pidSamples, aggregate_eq hLength, commCounts, List.map_map, List.map_map]
  rfl

/-- The counts of the emitted names add up to the number of samples exactly if there are no
other names. -/
theorem sum_commCounts_iff (samples : List PidSample) :
    (commCounts samples).sum = samples.length ↔
      (samples.map PidSample.comm).toFinset.card ≤ maxComms := by
  have hGroup : ∀ comm, (commGroup samples comm).length =
      ((samples.map PidSample.comm).filter fun comm' => comm' = comm).length := by
    intro comm
    rw [List.filter_map, List.length_map]
    rfl
  simp only [commCounts, hGroup]
  rw [distinctComms, ← sum_group_lengths_take, List.length_map]

/-- The listing in another order. -/
theorem aggregate_perm {samples samples' : List PidSample}
    (hLength : ∀ s ∈ samples, s.comm.length < commLen) (hPerm : samples.Perm samples')
    (hCap : (samples.map PidSample.comm).toFinset.card ≤ maxComms) :
    (aggregate samples).Perm (aggregate samples') := by
  rw [aggregate_eq_foldl, aggregate_eq_foldl]
  exact commGrouping.foldl_step_perm (fun s hs => slotKey_fresh_key (hLength s hs)) hPerm hCap

theorem readPid_congr {src src' : Sources} (hFile : src'.file = src.file)
    (hPage : src'.pageSize = src.pageSize) (base pid : Bytes) :
    readPid src' base pid = readPid src base pid := by
  simp only [readPid, pidComm, Sources.pageBytes, hFile, hPage]

/-! ## Tables of processes -/

theorem isdigit_of_isNumeric {pid : Bytes} (h : isNumeric pid = true) :
    ∀ b ∈ pid, isdigit b = true := by
  simp only [isNumeric, Bool.and_eq_true, List.all_eq_true] at h
  exact h.2

/-- The files of a process. -/
structure PidFiles where
  comm : Bytes
  stat : Bytes
  statm : Bytes

/-- A `/proc` that holds processes only, in the order of the listing. -/
def procSources (pids : List Bytes) (files : Bytes → Option PidFiles)
    (hPids : ∀ pid ∈ pids, IsFileName pid) : Sources where
  file path :=
    let pid := (path.drop 6).takeWhile isdigit
    match files pid with
    | none => none
    | some f =>
        if path = pidPath (ascii "/proc") pid "comm" then some f.comm
        else if path = pidPath (ascii "/proc") pid "stat" then some f.stat
        else if path = pidPath (ascii "/proc") pid "statm" then some f.statm
        else none
  dir path := if path = ascii "/proc" then some pids else none
  statvfs _ := none
  pageSize := 4096
  isFileName := by
    intro path names hDir name hMem
    split at hDir
    · cases hDir
      exact hPids name hMem
    · cases hDir

theorem pidPath_proc {pid : Bytes} {name : String} (hPid : pid.length ≤ 255)
    (hName : (ascii name).length ≤ 255) :
    pidPath (ascii "/proc") pid name =
      ascii "/proc/" ++ (pid ++ byte '/' :: ascii name) := by
  have hProc : ascii "/proc/" = ascii "/proc" ++ [byte '/'] := by decide
  have hLength : (ascii "/proc").length = 5 := by decide
  rw [pidPath, snprintf, List.take_of_length_le, hProc]
  · simp
  · simp only [List.length_append, List.length_cons, hLength]
    omega

/-- What the reader finds for a process of the table. -/
theorem procSources_file {pids : List Bytes} {files : Bytes → Option PidFiles}
    {hPids : ∀ pid ∈ pids, IsFileName pid} {pid : Bytes} {f : PidFiles}
    (hNumeric : isNumeric pid = true) (hPid : pid.length ≤ 255) (hFiles : files pid = some f) :
    (procSources pids files hPids).file (pidPath (ascii "/proc") pid "comm") = some f.comm ∧
    (procSources pids files hPids).file (pidPath (ascii "/proc") pid "stat") = some f.stat ∧
    (procSources pids files hPids).file (pidPath (ascii "/proc") pid "statm") = some f.statm := by
  have hFind : ∀ name : Bytes,
      ((ascii "/proc/" ++ (pid ++ byte '/' :: name)).drop 6).takeWhile isdigit = pid := by
    intro name
    have hSlash : isdigit (byte '/') = false := by decide
    rw [show 6 = (ascii "/proc/").length by decide, List.drop_left,
      List.takeWhile_append_of_pos (isdigit_of_isNumeric hNumeric), List.takeWhile_cons, hSlash]
    simp
  have hApart : ∀ name name' : Bytes, name ≠ name' →
      ascii "/proc/" ++ (pid ++ byte '/' :: name) ≠
        ascii "/proc/" ++ (pid ++ byte '/' :: name') := by
    intro name name' hNe hEq
    simp only [List.append_cancel_left_eq, List.cons.injEq, true_and] at hEq
    exact hNe hEq
  have hComm := @pidPath_proc pid "comm" hPid (by decide)
  have hStat := @pidPath_proc pid "stat" hPid (by decide)
  have hStatm := @pidPath_proc pid "statm" hPid (by decide)
  simp only [procSources, hComm, hStat, hStatm, hFind, hFiles, if_true,
    if_neg (hApart _ _ (show ascii "stat" ≠ ascii "comm" by decide)),
    if_neg (hApart _ _ (show ascii "statm" ≠ ascii "comm" by decide)),
    if_neg (hApart _ _ (show ascii "statm" ≠ ascii "stat" by decide)), and_self]

/-- A process with a name and the time it has used. -/
def processFiles (comm : Bytes) (utime : Nat) : PidFiles :=
  { comm := comm ++ [newline]
    stat := ascii "7 (task) S 2 0 0 0 -1 69238880 0 0 0 0 " ++
      (decimal utime ++ ascii " 200 0 0 20 0 5 0 11 0 0\n")
    statm := ascii "300 50 20 1 0 40 0\n" }

def fixtureFiles (pid : Bytes) : Option PidFiles :=
  some (processFiles (if pid = ascii "102" then ascii "sshd" else ascii "postgres") 100)

/-- Two processes of one name and one of another. -/
def fixtureProc : Sources :=
  procSources [ascii "100", ascii "101", ascii "102"] fixtureFiles (by decide)

end SvgdCollect
