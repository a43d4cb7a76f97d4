import SvgdCollect.Readers.Aggregation

/-!
# What the process table says about the directory

`aggregate_eq` describes the table in terms of samples.  Here the samples are traced
back to the three files of each directory entry: what an entry contributes is read
off `comm`, `stat` and `statm` with unbounded numbers, and the slots hold the sums of
these numbers as the counters of the source represent them.
-/

namespace SvgdCollect

open Lib

/-! ## Entries -/

/-- What the three files of a process say. -/
structure PidEntry where
  comm : Bytes
  resident : Nat
  utime : Nat
  stime : Nat
  threads : Nat
  deriving DecidableEq

/-- The entry of a directory: none if its name is not a number, or if one of the three
files is missing or malformed. -/
def pidEntry (src : Sources) (base pid : Bytes) : Option PidEntry := do
  guard (isNumeric pid = true)
  let comm ← pidComm src base pid
  let (utime, stime, threads) ← (fgetsFile 1024 (src.file (pidPath base pid "stat"))).bind statTimes
  let resident ← (fgetsFile 256 (src.file (pidPath base pid "statm"))).bind statmResident
  some { comm := comm, resident := resident, utime := utime, stime := stime, threads := threads }

/-- The numbers of an entry as the source holds them. -/
def PidEntry.sample (page : Nat) (e : PidEntry) : PidSample :=
  { comm := e.comm, rss := e.resident * page % 2 ^ 64, utime := e.utime, stime := e.stime
    threads := toInt32 e.threads }

theorem readPid_eq_map (src : Sources) (base pid : Bytes) :
    readPid src base pid = (pidEntry src base pid).map (PidEntry.sample src.pageBytes) := by
  unfold readPid pidEntry
  by_cases hNumeric : isNumeric pid = true
  · simp only [hNumeric, Bool.not_true, Bool.false_eq_true, if_false, guard, if_true]
    cases pidComm src base pid with
    | none => rfl
    | some comm =>
        cases (fgetsFile 1024 (src.file (pidPath base pid "stat"))).bind statTimes with
        | none => rfl
        | some times =>
            cases (fgetsFile 256 (src.file (pidPath base pid "statm"))).bind statmResident with
            | none => rfl
            | some resident => rfl
  · simp [hNumeric, guard]

/-- An entry is there exactly if all three files can be read. -/
theorem isSome_pidEntry_iff {src : Sources} {base pid : Bytes} :
    (pidEntry src base pid).isSome ↔ isNumeric pid = true ∧ PidReadable src base pid := by
  unfold pidEntry
  by_cases hNumeric : isNumeric pid = true
  · simp only [hNumeric, guard, if_true, true_and]
    constructor
    · intro hSome
      cases hComm : pidComm src base pid with
      | none => simp [hComm] at hSome
      | some comm =>
          cases hStat : (fgetsFile 1024 (src.file (pidPath base pid "stat"))).bind statTimes with
          | none => simp [hComm, hStat] at hSome
          | some times =>
              cases hStatm :
                  (fgetsFile 256 (src.file (pidPath base pid "statm"))).bind statmResident with
              | none => simp [hComm, hStat, hStatm] at hSome
              | some resident => exact ⟨by rw [hComm]; rfl, by rw [hStat]; rfl, by rw [hStatm]; rfl⟩
    · rintro ⟨hComm, hStat, hStatm⟩
      obtain ⟨comm, hComm⟩ := Option.isSome_iff_exists.mp hComm
      obtain ⟨times, hStat⟩ := Option.isSome_iff_exists.mp hStat
      obtain ⟨resident, hStatm⟩ := Option.isSome_iff_exists.mp hStatm
      simp [hComm, hStat, hStatm]
  · simp [hNumeric, guard]

/-- The entries of a listing, in its order. -/
def pidEntries (src : Sources) (base : Bytes) (names : List Bytes) : List PidEntry :=
  names.filterMap (pidEntry src base)

theorem pidSamples_eq_map (src : Sources) (base : Bytes) (names : List Bytes) :
    pidSamples src base names =
      (pidEntries src base names).map (PidEntry.sample src.pageBytes) := by
  unfold pidSamples pidEntries
  rw [List.map_filterMap]
  exact List.filterMap_congr fun pid _ => readPid_eq_map src base pid

theorem pidComm_of_mem_pidEntries {src : Sources} {base : Bytes} {names : List Bytes}
    {e : PidEntry} (he : e ∈ pidEntries src base names) :
    e.comm ≠ [] ∧ e.comm.length < commLen := by
  have hSample : e.sample src.pageBytes ∈ pidSamples src base names := by
    rw [pidSamples_eq_map]
    exact List.mem_map_of_mem he
  exact comm_length_of_mem_pidSamples hSample

/-! ## Slots -/

/-- The entries with a name. -/
def commEntries (entries : List PidEntry) (comm : Bytes) : List PidEntry :=
  entries.filter fun e => e.comm = comm

/-- The slot of a name for entries on a machine with pages of `page` bytes. -/
structure CommAgg.Sums (page : Nat) (entries : List PidEntry) (a : CommAgg) : Prop where
  rss : a.rssSum = ((commEntries entries a.comm).map fun e => e.resident * page).sum % 2 ^ 64
  utime : a.utimeSum = ((commEntries entries a.comm).map PidEntry.utime).sum % 2 ^ 64
  stime : a.stimeSum = ((commEntries entries a.comm).map PidEntry.stime).sum % 2 ^ 64
  procs : a.procCount = (commEntries entries a.comm).length ∧ 1 ≤ a.procCount
  threads : ((commEntries entries a.comm).map PidEntry.threads).sum < 2 ^ 31 →
    a.threadsSum = ((commEntries entries a.comm).map PidEntry.threads).sum

theorem commGroup_eq_map (page : Nat) (entries : List PidEntry) (comm : Bytes) :
    commGroup (entries.map (PidEntry.sample page)) comm =
      (commEntries entries comm).map (PidEntry.sample page) := by
  unfold commGroup commEntries
  rw [List.filter_map]
  rfl

/-- Below the limit of `int` the conversions of the thread counts change nothing. -/
theorem sum_threads {page : Nat} {entries : List PidEntry}
    (h : (entries.map PidEntry.threads).sum < 2 ^ 31) :
    (entries.map fun e => (e.sample page).threads).sum =
      ((entries.map PidEntry.threads).sum : Nat) := by
  induction entries with
  | nil => rfl
  | cons e entries ih =>
      rw [List.map_cons, List.sum_cons] at h
      have hFirst : (e.sample page).threads = e.threads := by
        rw [PidEntry.sample, toInt32_of_lt (by omega)]
      rw [List.map_cons, List.sum_cons, List.map_cons, List.sum_cons, ih (by omega), hFirst]
      exact (Nat.cast_add _ _).symm

theorem sum_mod_sum (l : List Nat) (m : Nat) : (l.map (· % m)).sum % m = l.sum % m := by
  induction l with
  | nil => rfl
  | cons n l ih =>
      rw [List.map_cons, List.sum_cons, List.sum_cons, Nat.add_mod, ih, Nat.mod_mod,
        ← Nat.add_mod]

theorem sums_commTotals {page : Nat} {entries : List PidEntry} {comm : Bytes}
    (hComm : comm ∈ entries.map PidEntry.comm) :
    (commTotals (entries.map (PidEntry.sample page)) comm).Sums page entries := by
  have hMany : 1 ≤ (commEntries entries comm).length := by
    obtain ⟨e, he, rfl⟩ := List.mem_map.mp hComm
    exact List.length_pos_of_mem (List.mem_filter.mpr ⟨he, by simp⟩)
  have hGroup := commGroup_eq_map page entries comm
  refine ⟨?_, ?_, ?_, ?_, ?_⟩
  · have hRss := sum_mod_sum ((commEntries entries comm).map fun e => e.resident * page) (2 ^ 64)
    rw [List.map_map] at hRss
    simp only [commTotals, hGroup, List.map_map]
    exact hRss
  · simp only [commTotals, hGroup, List.map_map]
    rfl
  · simp only [commTotals, hGroup, List.map_map]
    rfl
  · simp only [commTotals, hGroup, List.length_map]
    exact ⟨trivial, by omega⟩
  · intro hThreads
    simp only [commTotals, hGroup, List.map_map] at hThreads ⊢
    exact sum_threads hThreads

/-! ## The table -/

/-- An entry that cannot be read might as well not be there. -/
theorem pidSamples_skip {src : Sources} {base : Bytes} (before after : List Bytes) {pid : Bytes}
    (h : ¬ (isNumeric pid = true ∧ PidReadable src base pid)) :
    pidSamples src base (before ++ pid :: after) = pidSamples src base (before ++ after) := by
  have hNone : readPid src base pid = none := by
    rw [readPid_eq_map, Option.map_eq_none_iff]
    by_contra hSome
    exact h (isSome_pidEntry_iff.mp (Option.ne_none_iff_isSome.mp hSome))
  unfold pidSamples
  rw [List.filterMap_append, List.filterMap_append, List.filterMap_cons_none hNone]

theorem aggregate_pidSamples (src : Sources) (base : Bytes) (names : List Bytes) :
    aggregate (pidSamples src base names) =
      ((firstSeen ((pidEntries src base names).map PidEntry.comm)).take maxComms).map
        (commTotals (pidSamples src base names)) := by
  have hComms : (pidSamples src base names).map PidSample.comm =
      (pidEntries src base names).map PidEntry.comm := by
    rw [pidSamples_eq_map, List.map_map]
    rfl
  rw [aggregate_eq fun s hs => (comm_length_of_mem_pidSamples hs).2, distinctComms, hComms]

/-- Every slot holds the sums over the entries of its name. -/
theorem sums_of_mem_aggregate {src : Sources} {base : Bytes} {names : List Bytes} {a : CommAgg}
    (ha : a ∈ aggregate (pidSamples src base names)) :
    a.comm ≠ [] ∧ a.Sums src.pageBytes (pidEntries src base names) := by
  rw [aggregate_pidSamples] at ha
  obtain ⟨comm, hComm, rfl⟩ := List.mem_map.mp ha
  have hSeen := mem_firstSeen.mp (List.mem_of_mem_take hComm)
  obtain ⟨e, he, hEq⟩ := List.mem_map.mp hSeen
  refine ⟨fun hNil => (pidComm_of_mem_pidEntries he).1 (hEq.trans hNil), ?_⟩
  rw [pidSamples_eq_map]
  exact sums_commTotals hSeen

/-- **The process table.**  For any sequence of directory entries the table has at most
256 slots: one for each of the first 256 names of the entries that can be read, in the
order in which they appear, with the sums over all entries of that name.  An entry with
a file that is missing or malformed changes nothing, and the metrics of a slot carry
its sums. -/
theorem processTable_totals (src : Sources) (base : Bytes) (names : List Bytes) :
    (aggregate (pidSamples src base names)).length ≤ maxComms ∧
      ((aggregate (pidSamples src base names)).map CommAgg.comm).Nodup ∧
      (aggregate (pidSamples src base names)).map CommAgg.comm =
        (firstSeen ((pidEntries src base names).map PidEntry.comm)).take maxComms ∧
      (∀ a ∈ aggregate (pidSamples src base names),
        a.comm ≠ [] ∧ a.Sums src.pageBytes (pidEntries src base names)) ∧
      (∀ before pid after, names = before ++ pid :: after →
        ¬ (isNumeric pid = true ∧ PidReadable src base pid) →
        aggregate (pidSamples src base names) =
          aggregate (pidSamples src base (before ++ after))) ∧
      (src.dir base = some names → ∀ (D : Type) [CDouble D],
        (processesRead src base : ReadResult D) =
          .ok ((aggregate (pidSamples src base names)).flatMap fun a =>
            [processMetric a.comm "ps_rss" [CDouble.ofInt a.rssSum],
              processMetric a.comm "ps_cputime"
                [CDouble.ofInt a.utimeSum, CDouble.ofInt a.stimeSum],
              processMetric a.comm "ps_count"
                [CDouble.ofInt a.procCount, CDouble.ofInt a.threadsSum]])) := by
  have hTable := aggregate_pidSamples src base names
  have hComms : (aggregate (pidSamples src base names)).map CommAgg.comm =
      (firstSeen ((pidEntries src base names).map PidEntry.comm)).take maxComms := by
    rw [hTable, List.map_map]
    exact List.map_id _
  refine ⟨?_, ?_, hComms, fun a => sums_of_mem_aggregate, ?_, ?_⟩
  · rw [hTable, List.length_map, List.length_take]
    omega
  · rw [hComms]
    exact (nodup_firstSeen _).sublist (List.take_sublist _ _)
  · rintro before pid after rfl hUnreadable
    rw [pidSamples_skip before after hUnreadable]
  · intro hDir D _
    rw [processesRead, hDir]
    rfl

/-- The table of the three processes of the fixture, with its sums. -/
theorem fixtureProc_table :
    let names := [ascii "100", ascii "101", ascii "102"]
    let postgres : CommAgg :=
      { comm := ascii "postgres", rssSum := 2 * (50 * 4096), utimeSum := 100 + 100
        stimeSum := 200 + 200, procCount := 2, threadsSum := 5 + 5 }
    let sshd : CommAgg :=
      { comm := ascii "sshd", rssSum := 50 * 4096, utimeSum := 100, stimeSum := 200
        procCount := 1, threadsSum := 5 }
    fixtureProc.dir (ascii "/proc") = some names ∧
      aggregate (pidSamples fixtureProc (ascii "/proc") names) = [postgres, sshd] ∧
      (∀ a ∈ [postgres, sshd], a.Sums 4096 (pidEntries fixtureProc (ascii "/proc") names)) ∧
      (processesRead fixtureProc (ascii "/proc") : ReadResult ℚ).metrics.length = 6 := by
  intro names postgres sshd
  have hSlots : aggregate (pidSamples fixtureProc (ascii "/proc") names) = [postgres, sshd] := by
    decide
  obtain ⟨-, -, -, hSums, -, hRead⟩ := processTable_totals fixtureProc (ascii "/proc") names
  refine ⟨rfl, hSlots, ?_, ?_⟩
  · rw [← hSlots]
    exact fun a ha => (hSums a ha).2
  · rw [hRead rfl ℚ, hSlots]
    rfl

end SvgdCollect
