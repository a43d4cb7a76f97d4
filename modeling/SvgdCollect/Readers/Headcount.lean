import SvgdCollect.Readers.StatLine

/-!
# Every process is counted

The kernel writes three files for a process: its name on a line of `comm`, the line of
`StatLine`, and seven numbers of pages.  Here these files are parsed back, whatever the
name and the numbers are, so that the entries of a listing speak of the processes
themselves.  The `ps_count` values of a cycle then add up to the number of processes
that have a name, exactly if there are no more names than slots.
-/

namespace SvgdCollect

open Lib

/-! ## The statm line -/

/-- `/proc/<pid>/statm`: seven numbers of pages, the second of which is resident. -/
structure StatmLine where
  size : Nat
  resident : Nat
  others : List Nat
  length_others : others.length = 5
  range : ∀ x ∈ size :: resident :: others, x < 2 ^ 64

namespace StatmLine

def numbers (l : StatmLine) : List Int := (l.size :: l.resident :: l.others).map Int.ofNat

/-- The numbers without the space in front of the first. -/
def text (l : StatmLine) : Bytes := (fieldsText l.numbers).drop 1 ++ [newline]

theorem cons_text (l : StatmLine) : byte ' ' :: l.text = fieldsText l.numbers ++ [newline] := rfl

theorem length_text_lt (l : StatmLine) : l.text.length < 255 := by
  have hCount : l.numbers.length = 7 := by
    rw [numbers, List.length_map, List.length_cons, List.length_cons, l.length_others]
  have hFields := @length_fieldsText_le l.numbers fun x hx => by
    obtain ⟨n, hn, rfl⟩ := List.mem_map.mp hx
    have hRange := l.range n hn
    simp only [Int.ofNat_eq_natCast]
    omega
  have hText := congrArg List.length l.cons_text
  rw [List.length_cons, List.length_append, List.length_singleton] at hText
  omega

/-- The whole line is in the buffer. -/
theorem fgetsFile_text (l : StatmLine) : fgetsFile 256 (some l.text) = some l.text := by
  have hClean : ∀ {b : Byte}, b ≠ byte ' ' ∧ b ≠ byte '-' ∧ isdigit b = false →
      b ∉ (fieldsText l.numbers).drop 1 := fun hb hMem =>
    notMem_fieldsText hb (List.mem_of_mem_drop hMem)
  have hLine : firstLine l.text = l.text := firstLine_append_newline [] (hClean (by decide))
  have hTake : l.text.take (256 - 1) = l.text :=
    List.take_of_length_le (by have := l.length_text_lt; omega)
  have hCstr : cstr l.text = l.text := by
    apply cstr_eq_self
    rw [text, List.mem_append, not_or]
    exact ⟨hClean (by decide), by decide⟩
  have hNonempty : l.text ≠ [] := by simp [text]
  simp only [fgetsFile, Option.bind_some, fgets, if_neg hNonempty, hLine, hTake, Option.map_some,
    hCstr]

/-- White space in front of a format that skips white space makes no difference. -/
theorem sscanf_space_cons (ds : List Directive) (s : Bytes) :
    sscanf (.space :: ds) (byte ' ' :: s) = sscanf (.space :: ds) s := by
  have hSkip : (byte ' ' :: s).dropWhile isspace = s.dropWhile isspace := by
    rw [List.dropWhile_cons, if_pos (by decide)]
  rw [sscanf, sscanf, hSkip]

theorem statmResident_text (l : StatmLine) :
    (fgetsFile 256 (some l.text)).bind statmResident = some l.resident := by
  have hNumbers : fieldsText l.numbers ++ [newline] =
      fieldsText [(l.size : Int), (l.resident : Int)] ++
        (fieldsText (l.others.map Int.ofNat) ++ [newline]) := by
    rw [← List.append_assoc, ← fieldsText_append]
    rfl
  have hScan : sscanf (ulongs 2) l.text =
      [(l.size : Int), (l.resident : Int)].map fun x => .num (toUlong x) := by
    rw [ulongs, ← sscanf_space_cons, cons_text, hNumbers]
    apply sscanf_ulongs [(l.size : Int), (l.resident : Int)]
    apply head_fieldsText_append
    intro b hb
    rw [← Option.some.inj hb]
    decide
  have hResident : toUlong l.resident = l.resident := by
    have hRange := l.range l.resident (by simp)
    rw [toUlong, if_pos (by omega)]
    exact Int.emod_eq_of_lt (by omega) (by omega)
  rw [l.fgetsFile_text, Option.bind_some, statmResident, hScan]
  simp [nums, hResident]

end StatmLine

/-! ## The files of a process -/

/-- A process as the kernel shows it.  Its name is what it has chosen itself: any bytes but
NUL, or none at all. -/
structure KernelProcess where
  name : Bytes
  stat : StatLine
  statm : StatmLine
  name_zero : 0 ∉ name

/-- The name by which the reader counts a process: the first line of its name, at most 31
bytes of it, without carriage returns at the end. -/
def shownName (name : Bytes) : Bytes :=
  stripEol ((name.takeWhile fun b => b ≠ newline).take (commLen - 1))

namespace KernelProcess

def files (p : KernelProcess) : PidFiles :=
  { comm := p.name ++ [newline], stat := p.stat.text, statm := p.statm.text }

/-- The directory of a process holds what the kernel writes. -/
structure Written (p : KernelProcess) (src : Sources) (base pid : Bytes) : Prop where
  comm : src.file (pidPath base pid "comm") = some p.files.comm
  stat : src.file (pidPath base pid "stat") = some p.files.stat
  statm : src.file (pidPath base pid "statm") = some p.files.statm

/-- What a process contributes to the table. -/
def entry (p : KernelProcess) : PidEntry :=
  { comm := shownName p.name
    resident := p.statm.resident
    utime := (p.stat.field 14).toNat
    stime := (p.stat.field 15).toNat
    threads := (p.stat.field 20).toNat }

theorem firstText_comm (p : KernelProcess) :
    firstText commLen (some p.files.comm) = shownName p.name := by
  set front := p.name.takeWhile fun b => b ≠ newline with hFront
  have hNewline : newline ∉ front := by
    intro hMem
    simpa using List.mem_takeWhile_imp hMem
  have hZero : 0 ∉ front := fun hMem => p.name_zero ((List.takeWhile_sublist _).mem hMem)
  -- the file goes on behind the newline if the name holds one itself
  obtain ⟨rest, hRest⟩ : ∃ rest, p.name ++ [newline] = front ++ newline :: rest := by
    have hSplit := List.takeWhile_append_dropWhile (p := fun b => decide (b ≠ newline)) (l := p.name)
    cases hBack : p.name.dropWhile fun b => b ≠ newline with
    | nil =>
        rw [hBack, List.append_nil] at hSplit
        exact ⟨[], by rw [hFront, hSplit]⟩
    | cons b back =>
        have hb : b = newline := by
          have hHead := List.head?_dropWhile_not (fun b => decide (b ≠ newline)) p.name
          rw [hBack] at hHead
          simpa using hHead
        rw [hBack, hb] at hSplit
        refine ⟨back ++ [newline], ?_⟩
        conv_lhs => rw [← hSplit]
        simp [hFront]
  have hNonempty : front ++ newline :: rest ≠ [] := by simp
  have hCstr : cstr ((front ++ [newline]).take (commLen - 1)) =
      (front ++ [newline]).take (commLen - 1) := by
    apply cstr_eq_self
    intro hMem
    rcases List.mem_append.mp (List.mem_of_mem_take hMem) with hMem | hMem
    · exact hZero hMem
    · exact absurd hMem (by decide)
  simp only [firstText, files, hRest, Option.bind_some, fgets, if_neg hNonempty,
    firstLine_append_newline rest hNewline, hCstr]
  rw [shownName, ← hFront]
  by_cases hShort : front.length < commLen - 1
  · rw [List.take_of_length_le (by simp; omega), List.take_of_length_le (by omega),
      stripEol_newline]
  · rw [List.take_append_of_le_length (by omega)]

/-- The entry of a process is what the kernel says of it, unless it has no name. -/
theorem pidEntry_of_written {p : KernelProcess} {src : Sources} {base pid : Bytes}
    (hNumeric : isNumeric pid = true) (h : p.Written src base pid) :
    pidEntry src base pid = if shownName p.name = [] then none else some p.entry := by
  have hComm : pidComm src base pid =
      if shownName p.name = [] then none else some (shownName p.name) := by
    rw [pidComm, h.comm, p.firstText_comm]
  have hStat : (fgetsFile 1024 (src.file (pidPath base pid "stat"))).bind statTimes =
      some (p.entry.utime, p.entry.stime, p.entry.threads) := by
    rw [h.stat]
    exact p.stat.statTimes_text
  have hStatm : (fgetsFile 256 (src.file (pidPath base pid "statm"))).bind statmResident =
      some p.entry.resident := by
    rw [h.statm]
    exact p.statm.statmResident_text
  unfold pidEntry
  simp only [hNumeric, guard, if_true, hComm, hStat, hStatm, Option.bind_eq_bind, Option.bind_some]
  by_cases hName : shownName p.name = []
  · simp [hName]
  · simp [hName, entry]

end KernelProcess

/-! ## The whole listing -/

/-- The processes of a listing that have a name. -/
def namedPids (procs : Bytes → KernelProcess) (names : List Bytes) : List Bytes :=
  names.filter fun pid => isNumeric pid ∧ shownName (procs pid).name ≠ []

/-- Their names. -/
def shownNames (procs : Bytes → KernelProcess) (names : List Bytes) : List Bytes :=
  (namedPids procs names).map fun pid => shownName (procs pid).name

section Listing

variable {src : Sources} {base : Bytes} {names : List Bytes} {procs : Bytes → KernelProcess}

/-- The entries of a listing are the processes that have a name. -/
theorem pidEntries_of_written
    (h : ∀ pid ∈ names, isNumeric pid = true → (procs pid).Written src base pid) :
    pidEntries src base names = (namedPids procs names).map fun pid => (procs pid).entry := by
  induction names with
  | nil => rfl
  | cons pid names ih =>
      have hRest := ih fun pid' hMem => h pid' (List.mem_cons_of_mem pid hMem)
      unfold pidEntries namedPids at *
      by_cases hNumeric : isNumeric pid = true
      · have hEntry := KernelProcess.pidEntry_of_written hNumeric (h pid List.mem_cons_self hNumeric)
        by_cases hName : shownName (procs pid).name = []
        · simp [hEntry, hName, hRest]
        · simp [hEntry, hNumeric, hName, hRest]
      · have hSkip : pidEntry src base pid = none := by
          simp [pidEntry, hNumeric, guard]
        simp [hSkip, hNumeric, hRest]

theorem comms_of_written
    (h : ∀ pid ∈ names, isNumeric pid = true → (procs pid).Written src base pid) :
    (pidSamples src base names).map PidSample.comm = shownNames procs names := by
  rw [pidSamples_eq_map, pidEntries_of_written h, List.map_map, List.map_map]
  rfl

/-- The sums of a slot are sums of the numbers that the kernel writes. -/
theorem sums_of_written
    (h : ∀ pid ∈ names, isNumeric pid = true → (procs pid).Written src base pid) {a : CommAgg}
    (ha : a ∈ aggregate (pidSamples src base names)) :
    a.Sums src.pageBytes ((namedPids procs names).map fun pid => (procs pid).entry) := by
  rw [← pidEntries_of_written h]
  exact (sums_of_mem_aggregate ha).2

end Listing

/-- **The head count.**  If the directories hold what the kernel writes for their processes,
the counts that are emitted add up to the number of processes that have a name exactly if at
most 256 names are in use; and then the order in which the directory lists the processes
does not matter. -/
theorem processesRead_counts_every_process {src src' : Sources} {base : Bytes}
    {names names' : List Bytes} {procs : Bytes → KernelProcess}
    (hDir : src.dir base = some names)
    (hFiles : ∀ pid ∈ names, isNumeric pid = true → (procs pid).Written src base pid)
    (hDir' : src'.dir base = some names') (hOrder : names.Perm names')
    (hFile : src'.file = src.file) (hPage : src'.pageSize = src.pageSize) :
    (∃ counts : List Nat,
      (∀ (D : Type) [CDouble D], psCounts (processesRead src base : ReadResult D).metrics =
        counts.map fun n : Nat => CDouble.ofInt (n : Int)) ∧
      (counts.sum = (namedPids procs names).length ↔
        (shownNames procs names).toFinset.card ≤ maxComms)) ∧
    ((shownNames procs names).toFinset.card ≤ maxComms →
      ∀ (D : Type) [CDouble D], (processesRead src base : ReadResult D).metrics.Perm
        (processesRead src' base : ReadResult D).metrics) := by
  have hComms := comms_of_written hFiles
  have hNumber : (pidSamples src base names).length = (namedPids procs names).length := by
    have hLength := congrArg List.length hComms
    rwa [List.length_map, shownNames, List.length_map] at hLength
  refine ⟨⟨commCounts (pidSamples src base names), psCounts_processesRead hDir, ?_⟩, ?_⟩
  · rw [← hNumber, ← hComms]
    exact sum_commCounts_iff _
  · intro hCap D _
    have hLength : ∀ s ∈ pidSamples src base names, s.comm.length < commLen := fun s hs =>
      (comm_length_of_mem_pidSamples hs).2
    -- the two systems differ in the order of the listing only
    have hSame : pidSamples src' base names' = pidSamples src base names' := by
      unfold pidSamples
      congr 1
      funext pid
      exact readPid_congr hFile hPage base pid
    have hSamples : (pidSamples src base names).Perm (pidSamples src base names') :=
      hOrder.filterMap _
    have hTables := aggregate_perm hLength hSamples (by rwa [hComms])
    rw [← hSame] at hTables
    rw [processesRead, processesRead, hDir, hDir']
    exact hTables.flatMap_right _

/-! ## Hosts -/

/-- The line of a process with five threads that has used 300 ticks. -/
def statLine (comm : Bytes) (hLength : comm.length ≤ 126) (hZero : 0 ∉ comm)
    (hNewline : newline ∉ comm) : StatLine :=
  { pid := 7, comm := comm, state := byte 'R'
    fields := [2, 0, 0, 0, -1, 69238880, 0, 0, 0, 0, 100, 200, 0, 0, 20, 0, 5] ++
      List.replicate 32 0
    pid_lt := by decide, comm_length := hLength, comm_zero := hZero, comm_newline := hNewline
    state_letter := by decide, length_fields := by decide, range := by decide
    counts := by decide }

def namedProcess (comm : Bytes) (hLength : comm.length ≤ 126) (hZero : 0 ∉ comm)
    (hNewline : newline ∉ comm) : KernelProcess :=
  { name := comm, stat := statLine comm hLength hZero hNewline
    statm :=
      { size := 300, resident := 50, others := [20, 1, 0, 40, 0], length_others := rfl
        range := by decide }
    name_zero := hZero }

/-- A `/proc` of these processes. -/
def kernelProc (procs : Bytes → KernelProcess) (pids : List Bytes)
    (hPids : ∀ pid ∈ pids, IsFileName pid) : Sources :=
  procSources pids (fun pid => some (procs pid).files) hPids

theorem written_kernelProc {procs : Bytes → KernelProcess} {pids : List Bytes}
    {hPids : ∀ pid ∈ pids, IsFileName pid} {pid : Bytes} (hNumeric : isNumeric pid = true)
    (hLength : pid.length ≤ 255) : (procs pid).Written (kernelProc procs pids hPids)
      (ascii "/proc") pid := by
  obtain ⟨hComm, hStat, hStatm⟩ : _ ∧ _ ∧ _ :=
    @procSources_file pids (fun pid => some (procs pid).files) hPids pid _ hNumeric hLength rfl
  exact ⟨hComm, hStat, hStatm⟩

/-- Two servers of one name, and one that has taken its name away. -/
def serverProcess (pid : Bytes) : KernelProcess :=
  if pid = ascii "102" then namedProcess [] (by decide) (by decide) (by decide)
  else namedProcess (ascii "postgres") (by decide) (by decide) (by decide)

theorem serverProc_counts_every_process :
    let names := [ascii "100", ascii "101", ascii "102"]
    let src := kernelProc serverProcess names (by decide)
    let src' := kernelProc serverProcess [ascii "102", ascii "100", ascii "101"] (by decide)
    (shownNames serverProcess names).toFinset.card ≤ maxComms ∧
      (∃ counts : List Nat,
        (∀ (D : Type) [CDouble D], psCounts (processesRead src (ascii "/proc") :
          ReadResult D).metrics = counts.map fun n : Nat => CDouble.ofInt (n : Int)) ∧
        counts.sum = 2) ∧
      ∀ (D : Type) [CDouble D], (processesRead src (ascii "/proc") : ReadResult D).metrics.Perm
        (processesRead src' (ascii "/proc") : ReadResult D).metrics := by
  intro names src src'
  have hFew : (shownNames serverProcess names).toFinset.card ≤ maxComms := by decide
  have hNumeric : ∀ pid ∈ names, isNumeric pid = true ∧ pid.length ≤ 255 := by decide
  have hOrder : names.Perm [ascii "102", ascii "100", ascii "101"] := by decide
  obtain ⟨⟨counts, hCounts, hSum⟩, hPerm⟩ :=
    @processesRead_counts_every_process src src' (ascii "/proc") _ _ serverProcess rfl
      (fun pid hMem hNum => written_kernelProc hNum (hNumeric pid hMem).2) rfl hOrder rfl rfl
  exact ⟨hFew, ⟨counts, hCounts, hSum.mpr hFew⟩, hPerm hFew⟩

/-! ### 257 names -/

theorem decimal_injective : Function.Injective decimal := fun m n h => by
  rw [← natOfDigits_decimal m, h, natOfDigits_decimal]

def threadComm (n : Nat) : Bytes := ascii "kworker-" ++ decimal (n % 10000)

theorem length_threadComm (n : Nat) : (threadComm n).length ≤ 12 := by
  have hDigits : (decimal (n % 10000)).length ≤ 4 := length_decimal_le (by omega) (by omega)
  have hLetters : (ascii "kworker-").length = 8 := by decide
  rw [threadComm, List.length_append]
  omega

theorem notMem_threadComm {n : Nat} {b : Byte} (hDigit : isdigit b = false)
    (hName : b ∉ ascii "kworker-") : b ∉ threadComm n := by
  rw [threadComm, List.mem_append, not_or]
  exact ⟨hName, notMem_decimal hDigit⟩

/-- The name is shown as it is: it is short and ends in a digit. -/
theorem shownName_threadComm (n : Nat) : shownName (threadComm n) = threadComm n := by
  have hLine : (threadComm n).takeWhile (fun b => b ≠ newline) = threadComm n := by
    rw [List.takeWhile_eq_self_iff]
    intro b hb
    have hNewline : newline ∉ threadComm n := notMem_threadComm (by decide) (by decide)
    simpa using fun h : b = newline => hNewline (h ▸ hb)
  have hTake : (threadComm n).take (commLen - 1) = threadComm n :=
    List.take_of_length_le ((length_threadComm n).trans (by decide))
  obtain ⟨front, last, hLast⟩ :=
    (List.eq_nil_or_concat (decimal (n % 10000))).resolve_left (decimal_ne_nil _)
  have hDigit : isdigit last = true :=
    isdigit_of_mem_decimal (n := n % 10000) (by simp [hLast])
  have hEnd : (last == byte '\n' || last == byte '\r') = false := by
    rw [Bool.or_eq_false_iff, beq_eq_false_iff_ne, beq_eq_false_iff_ne]
    constructor
    · rintro rfl
      cases hDigit
    · rintro rfl
      cases hDigit
  rw [shownName, hLine, hTake, threadComm, hLast, List.concat_eq_append, ← List.append_assoc]
  exact stripEol_concat _ hEnd

/-- 257 kernel threads with a name of their own each. -/
def threadPids : List Bytes := (List.range 257).map fun i => decimal (1000 + i)

def threadProcess (pid : Bytes) : KernelProcess :=
  namedProcess (threadComm (natOfDigits pid)) ((length_threadComm _).trans (by decide))
    (notMem_threadComm (by decide) (by decide)) (notMem_threadComm (by decide) (by decide))

theorem threadPids_valid :
    ∀ pid ∈ threadPids, IsFileName pid ∧ isNumeric pid = true ∧ pid.length ≤ 255 := by
  decide +kernel

def threadProc : Sources :=
  kernelProc threadProcess threadPids fun pid hMem => (threadPids_valid pid hMem).1

/-- The same threads, listed from the last to the first. -/
def threadProcReversed : Sources :=
  kernelProc threadProcess threadPids.reverse fun pid hMem =>
    (threadPids_valid pid (List.mem_reverse.mp hMem)).1

theorem namedPids_threadPids : namedPids threadProcess threadPids = threadPids := by
  rw [namedPids, List.filter_eq_self]
  intro pid hMem
  have hName : shownName (threadProcess pid).name ≠ [] := by
    rw [threadProcess, namedProcess, shownName_threadComm]
    exact List.append_ne_nil_of_left_ne_nil (by decide) _
  exact decide_eq_true ⟨(threadPids_valid pid hMem).2.1, hName⟩

theorem shownNames_threadPids :
    shownNames threadProcess threadPids =
      (List.range 257).map fun i => threadComm (1000 + i) := by
  rw [shownNames, namedPids_threadPids, threadPids, List.map_map]
  apply List.map_congr_left
  intro i _
  have hName : (threadProcess (decimal (1000 + i))).name = threadComm (1000 + i) :=
    congrArg threadComm (natOfDigits_decimal _)
  rw [Function.comp_apply, hName, shownName_threadComm]

theorem nodup_shownNames : (shownNames threadProcess threadPids).Nodup := by
  rw [shownNames_threadPids]
  refine List.Nodup.map_on ?_ List.nodup_range
  intro i hi j hj hEq
  have hSame := decimal_injective (List.append_cancel_left hEq)
  rw [List.mem_range] at hi hj
  omega

/-- A process that has taken its name away. -/
def namelessProcess : KernelProcess := namedProcess [] (by decide) (by decide) (by decide)

/-- The emitted names. -/
theorem instances_processesRead {src : Sources} {base : Bytes} {names : List Bytes}
    (hDir : src.dir base = some names) (comm : Bytes) :
    some comm ∈ (processesRead src base : ReadResult ℚ).metrics.map Metric.pluginInstance ↔
      comm ∈ (firstSeen ((pidSamples src base names).map PidSample.comm)).take maxComms := by
  rw [processesRead_eq hDir, ReadResult.ok, List.map_flatMap, List.mem_flatMap, distinctComms]
  constructor
  · rintro ⟨comm', hComm, hMem⟩
    have hEq : comm = comm' := by simpa [CommAgg.metrics, processMetric, commTotals] using hMem
    exact hEq ▸ hComm
  · intro hComm
    exact ⟨comm, hComm, by simp [CommAgg.metrics, processMetric, commTotals]⟩

/-- One of the 257 threads is left out, another one if the directory lists them the other way
round; and so is a process without a name. -/
theorem threadProc_loses_a_process :
    ((∀ pid ∈ threadPids, isNumeric pid = true ∧
        (threadProcess pid).Written threadProc (ascii "/proc") pid) ∧
      (psCounts (processesRead threadProc (ascii "/proc") : ReadResult ℚ).metrics).sum ≠
        threadPids.length ∧
      ¬ ∀ m, m ∈ (processesRead threadProc (ascii "/proc") : ReadResult ℚ).metrics ↔
        m ∈ (processesRead threadProcReversed (ascii "/proc") : ReadResult ℚ).metrics) ∧
    let nameless := kernelProc (fun _ => namelessProcess) [ascii "100"] (by decide)
    namelessProcess.Written nameless (ascii "/proc") (ascii "100") ∧
      (psCounts (processesRead nameless (ascii "/proc") : ReadResult ℚ).metrics).sum ≠ 1 := by
  have hWritten : ∀ pid ∈ threadPids,
      (threadProcess pid).Written threadProc (ascii "/proc") pid := fun pid hMem =>
    written_kernelProc (threadPids_valid pid hMem).2.1 (threadPids_valid pid hMem).2.2
  have hWritten' : ∀ pid ∈ threadPids.reverse,
      (threadProcess pid).Written threadProcReversed (ascii "/proc") pid := fun pid hMem =>
    written_kernelProc (threadPids_valid pid (List.mem_reverse.mp hMem)).2.1
      (threadPids_valid pid (List.mem_reverse.mp hMem)).2.2
  have hDir : threadProc.dir (ascii "/proc") = some threadPids := rfl
  have hDir' : threadProcReversed.dir (ascii "/proc") = some threadPids.reverse := rfl
  have hComms := comms_of_written fun pid hMem _ => hWritten pid hMem
  have hComms' := comms_of_written fun pid hMem _ => hWritten' pid hMem
  have hNames := shownNames_threadPids
  have hNames' : shownNames threadProcess threadPids.reverse =
      (shownNames threadProcess threadPids).reverse := by
    rw [shownNames, shownNames, namedPids, namedPids, List.filter_reverse, List.map_reverse]
  have hNodup := nodup_shownNames
  refine ⟨⟨fun pid hMem => ⟨(threadPids_valid pid hMem).2.1, hWritten pid hMem⟩, ?_, ?_⟩, ?_, ?_⟩
  · have hCast : (fun n : Nat => (CDouble.ofInt (n : Int) : ℚ)) = fun n : Nat => (n : ℚ) := by
      funext n
      exact Int.cast_natCast n
    have hNumber : threadPids.length = (pidSamples threadProc (ascii "/proc") threadPids).length := by
      have hLength := congrArg List.length hComms
      rw [List.length_map, shownNames, namedPids_threadPids, List.length_map] at hLength
      exact hLength.symm
    rw [psCounts_processesRead hDir ℚ, hCast, ← Nat.cast_list_sum, hNumber]
    intro hSum
    have hFew := (sum_commCounts_iff _).mp (Nat.cast_injective hSum)
    rw [hComms, List.toFinset_card_of_nodup hNodup, hNames, List.length_map, List.length_range,
      maxComms] at hFew
    omega
  · -- the last thread is in the table only if it is listed first
    intro hSame
    have hLast : some (threadComm 1256) ∈
        (processesRead threadProcReversed (ascii "/proc") : ReadResult ℚ).metrics.map
          Metric.pluginInstance := by
      rw [instances_processesRead hDir', hComms', hNames',
        firstSeen_of_nodup (List.nodup_reverse.mpr hNodup), hNames, List.range_succ,
        List.map_append, List.reverse_append]
      exact List.mem_cons_self
    obtain ⟨m, hm, hName⟩ := List.mem_map.mp hLast
    have hMem := List.mem_map_of_mem (f := Metric.pluginInstance) ((hSame m).mpr hm)
    rw [hName] at hMem
    rw [instances_processesRead hDir, hComms, firstSeen_of_nodup hNodup] at hMem
    rw [hNames, List.range_succ, List.map_append] at hMem hNodup
    have hTake : ((List.range 256).map fun i => threadComm (1000 + i)).length = maxComms := by
      rw [List.length_map, List.length_range, maxComms]
    rw [← hTake, List.take_left] at hMem
    exact (List.nodup_append.mp hNodup).2.2 _ hMem _ List.mem_cons_self rfl
  · exact @written_kernelProc (fun _ => namelessProcess) _ _ _ (by decide) (by decide)
  · decide

end SvgdCollect
