import SvgdCollect.Readers.Aggregation

/-!
# CPU time per name over two cycles

`ps_cputime` is typed as a counter, and the reader emits for each name the sum over
the processes that have the name at the moment.  This module compares two cycles:
what is emitted in the second is at least what was emitted in the first exactly if
the processes that left the name had used no more CPU time than the others of that
name have gained.
-/

namespace SvgdCollect

open Lib

/-! ## Sums over a population with turnover -/

theorem sum_le_sum_iff_turnover {α : Type} [DecidableEq α] {before after kept : Finset α}
    {t t' : α → Nat} (hBefore : kept ⊆ before) (hAfter : kept ⊆ after)
    (hMono : ∀ a ∈ kept, t a ≤ t' a) :
    ∑ a ∈ before, t a ≤ ∑ a ∈ after, t' a ↔
      ∑ a ∈ before \ kept, t a ≤ ∑ a ∈ kept, (t' a - t a) + ∑ a ∈ after \ kept, t' a := by
  have hGrowth : ∑ a ∈ kept, (t' a - t a) + ∑ a ∈ kept, t a = ∑ a ∈ kept, t' a := by
    rw [← Finset.sum_add_distrib]
    exact Finset.sum_congr rfl fun a ha => Nat.sub_add_cancel (hMono a ha)
  rw [← Finset.sum_sdiff hBefore, ← Finset.sum_sdiff hAfter]
  omega

/-! ## Process tables -/

/-- What a cycle sees of the processes: every process once. -/
structure ProcTable (base : Bytes) where
  src : Sources
  names : List Bytes
  dir : src.dir base = some names
  nodup : names.Nodup

namespace ProcTable

variable {base : Bytes} (table : ProcTable base)

/-- The processes that have a name. -/
def pids (comm : Bytes) : Finset Bytes :=
  (table.names.filter fun pid => (readPid table.src base pid).any fun s => s.comm = comm).toFinset

/-- The time a process has used; `field` is `utime` or `stime`. -/
def time (field : PidSample → Nat) (pid : Bytes) : Nat :=
  ((readPid table.src base pid).map field).getD 0

/-- The time the processes of a name have used. -/
def total (field : PidSample → Nat) (comm : Bytes) : Nat :=
  ∑ pid ∈ table.pids comm, table.time field pid

theorem sum_commGroup (field : PidSample → Nat) (comm : Bytes) :
    ((commGroup (pidSamples table.src base table.names) comm).map field).sum =
      table.total field comm := by
  -- over lists first: the set of the name is a filter of the listing without repetitions
  have hList : ∀ names : List Bytes,
      ((commGroup (pidSamples table.src base names) comm).map field).sum =
        ((names.filter fun pid => (readPid table.src base pid).any fun s => s.comm = comm).map
          (table.time field)).sum := by
    intro names
    induction names with
    | nil => rfl
    | cons pid names ih =>
        unfold commGroup pidSamples at ih ⊢
        cases hRead : readPid table.src base pid with
        | none => simp [hRead, ih]
        | some s =>
            by_cases hComm : s.comm = comm
            · simp [hRead, hComm, ih, time]
            · simp [hRead, hComm, ih]
  rw [hList, total, pids, List.sum_toFinset _ (table.nodup.filter _)]

/-- The values of the CPU time metric of a name. -/
theorem cputime_values {D : Type} [CDouble D] {m : Metric D} {comm : Bytes}
    (hm : m ∈ (processesRead table.src base).metrics) (hType : m.type = ascii "ps_cputime")
    (hComm : m.pluginInstance = some comm) :
    m.values = [CDouble.ofInt (table.total PidSample.utime comm % 2 ^ 64 : Nat),
      CDouble.ofInt (table.total PidSample.stime comm % 2 ^ 64 : Nat)] := by
  have hRss : ascii "ps_rss" ≠ ascii "ps_cputime" := by decide
  have hCount : ascii "ps_count" ≠ ascii "ps_cputime" := by decide
  rw [processesRead_eq table.dir] at hm
  obtain ⟨comm', -, hm⟩ := List.mem_flatMap.mp hm
  simp only [CommAgg.metrics, List.mem_cons, List.not_mem_nil, or_false] at hm
  rcases hm with rfl | rfl | rfl
  · exact absurd hType hRss
  · simp only [processMetric, commTotals, Option.some.injEq] at hComm
    simp only [processMetric, commTotals, hComm, sum_commGroup]
  · exact absurd hType hCount

end ProcTable

/-! ## Two cycles -/

section TwoCycles

variable {base : Bytes} (first second : ProcTable base) (alive : Finset Bytes)

/-- The processes that live in both cycles and have the name in both. -/
def keptPids (comm : Bytes) : Finset Bytes := first.pids comm ∩ second.pids comm ∩ alive

/-- The processes that left the name, by their exit or under a new name, had used no
more time than the ones that stayed have gained and new ones bring along. -/
def LossCovered (field : PidSample → Nat) (comm : Bytes) : Prop :=
  ∑ pid ∈ first.pids comm \ keptPids first second alive comm, first.time field pid ≤
    ∑ pid ∈ keptPids first second alive comm, (second.time field pid - first.time field pid) +
      ∑ pid ∈ second.pids comm \ keptPids first second alive comm, second.time field pid

/-- The times of processes that live in both cycles do not go down. -/
def TimesGrow : Prop :=
  ∀ pid ∈ alive, ∀ s₁ s₂, readPid first.src base pid = some s₁ →
    readPid second.src base pid = some s₂ → s₁.utime ≤ s₂.utime ∧ s₁.stime ≤ s₂.stime

end TwoCycles

theorem total_le_total_iff {base : Bytes} {first second : ProcTable base} {alive : Finset Bytes}
    {field : PidSample → Nat} {comm : Bytes}
    (hGrow : ∀ pid ∈ alive, ∀ s₁ s₂, readPid first.src base pid = some s₁ →
      readPid second.src base pid = some s₂ → field s₁ ≤ field s₂) :
    first.total field comm ≤ second.total field comm ↔
      LossCovered first second alive field comm := by
  apply sum_le_sum_iff_turnover
  · exact Finset.inter_subset_left.trans Finset.inter_subset_left
  · exact Finset.inter_subset_left.trans Finset.inter_subset_right
  · intro pid hPid
    simp only [keptPids, ProcTable.pids, Finset.mem_inter, List.mem_toFinset, List.mem_filter,
      Option.any_eq_true] at hPid
    obtain ⟨⟨⟨-, s₁, hFirst, -⟩, -, s₂, hSecond, -⟩, hAlive⟩ := hPid
    simp only [ProcTable.time, hFirst, hSecond, Option.map_some, Option.getD_some]
    exact hGrow pid hAlive s₁ s₂ hFirst hSecond

theorem ofInt_le_ofInt {a b : Nat} (h : a ≤ b) :
    CDouble.le (CDouble.ofInt (a : Int) : Double) (CDouble.ofInt (b : Int)) = true := by
  have hle : (((a : Int) : ℚ)) ≤ ((b : Int) : ℚ) := by exact_mod_cast h
  exact Double.le_ofRat (by positivity) hle

theorem le_of_ofInt_le_ofInt {a b : Nat} (ha : a < 2 ^ 53) (hb : b < 2 ^ 53)
    (h : CDouble.le (CDouble.ofInt (a : Int) : Double) (CDouble.ofInt (b : Int)) = true) :
    a ≤ b := by
  have hExact : ∀ n : Nat, n < 2 ^ 53 →
      (CDouble.ofInt (n : Int) : Double) = .finite (n : ℚ) := by
    intro n hn
    rw [← Double.ofRat_natCast hn, ← Int.cast_natCast]
    rfl
  rw [hExact a ha, hExact b hb] at h
  have hle : (a : ℚ) ≤ b := of_decide_eq_true h
  exact_mod_cast hle

/-- The CPU time emitted for a name in two successive cycles.  As long as the totals
do not wrap around, the second values are not less if the time of the processes that
left the name is covered by what the others have gained; and for totals that a
`double` represents exactly only then. -/
theorem cputime_not_less_iff_lossCovered {base : Bytes} {first second : ProcTable base}
    {alive : Finset Bytes} (hGrow : TimesGrow first second alive) {comm : Bytes}
    {m₁ m₂ : Metric Double} (hm₁ : m₁ ∈ (processesRead first.src base).metrics)
    (hm₂ : m₂ ∈ (processesRead second.src base).metrics)
    (hType₁ : m₁.type = ascii "ps_cputime") (hType₂ : m₂.type = ascii "ps_cputime")
    (hComm₁ : m₁.pluginInstance = some comm) (hComm₂ : m₂.pluginInstance = some comm) :
    (second.total PidSample.utime comm < 2 ^ 64 → second.total PidSample.stime comm < 2 ^ 64 →
      LossCovered first second alive PidSample.utime comm ∧
        LossCovered first second alive PidSample.stime comm →
      List.Forall₂ (fun v₁ v₂ => CDouble.le v₁ v₂ = true) m₁.values m₂.values) ∧
    ((∀ table ∈ [first, second], table.total PidSample.utime comm < 2 ^ 53 ∧
        table.total PidSample.stime comm < 2 ^ 53) →
      List.Forall₂ (fun v₁ v₂ => CDouble.le v₁ v₂ = true) m₁.values m₂.values →
      LossCovered first second alive PidSample.utime comm ∧
        LossCovered first second alive PidSample.stime comm) := by
  have hUtime := @total_le_total_iff base first second alive PidSample.utime comm
    fun pid hPid s₁ s₂ h₁ h₂ => (hGrow pid hPid s₁ s₂ h₁ h₂).1
  have hStime := @total_le_total_iff base first second alive PidSample.stime comm
    fun pid hPid s₁ s₂ h₁ h₂ => (hGrow pid hPid s₁ s₂ h₁ h₂).2
  rw [first.cputime_values hm₁ hType₁ hComm₁, second.cputime_values hm₂ hType₂ hComm₂,
    ← hUtime, ← hStime]
  simp only [List.forall₂_cons, List.forall₂_nil_right_iff, and_true]
  constructor
  · -- the first totals are below the second ones, so neither wraps
    rintro hUtime₂ hStime₂ ⟨hU, hS⟩
    rw [Nat.mod_eq_of_lt hUtime₂, Nat.mod_eq_of_lt hStime₂,
      Nat.mod_eq_of_lt (lt_of_le_of_lt hU hUtime₂), Nat.mod_eq_of_lt (lt_of_le_of_lt hS hStime₂)]
    exact ⟨ofInt_le_ofInt hU, ofInt_le_ofInt hS⟩
  · -- below `2 ^ 53` the conversion is exact and can be undone
    rintro hSmall ⟨hU, hS⟩
    obtain ⟨hU₁, hS₁⟩ := hSmall first (by simp)
    obtain ⟨hU₂, hS₂⟩ := hSmall second (by simp)
    rw [Nat.mod_eq_of_lt (by omega), Nat.mod_eq_of_lt (by omega)] at hU hS
    exact ⟨le_of_ofInt_le_ofInt hU₁ hU₂ hU, le_of_ofInt_le_ofInt hS₁ hS₂ hS⟩

/-! ## Workers of one name -/

def workersFirst : ProcTable (ascii "/proc") where
  src := procSources [ascii "1", ascii "2"]
    (fun pid => some (processFiles (ascii "worker") (if pid = ascii "1" then 100 else 5))) (by decide)
  names := [ascii "1", ascii "2"]
  dir := rfl
  nodup := by decide

/-- The first worker has exited, the second has used some more time. -/
def workersExited : ProcTable (ascii "/proc") where
  src := procSources [ascii "2"] (fun _ => some (processFiles (ascii "worker") 9)) (by decide)
  names := [ascii "2"]
  dir := rfl
  nodup := by decide

/-- A third worker has replaced the first one and has used more time already. -/
def workersReplaced : ProcTable (ascii "/proc") where
  src := procSources [ascii "2", ascii "3"]
    (fun pid => some (processFiles (ascii "worker") (if pid = ascii "2" then 9 else 120))) (by decide)
  names := [ascii "2", ascii "3"]
  dir := rfl
  nodup := by decide

/-- What is emitted for the CPU time of the workers. -/
def workerCputime (utime stime : Nat) : Metric Double :=
  processMetric (ascii "worker") "ps_cputime" [CDouble.ofInt (utime : Int), CDouble.ofInt (stime : Int)]

theorem workers_aggregate :
    aggregate (pidSamples workersFirst.src (ascii "/proc") workersFirst.names) =
      [{ comm := ascii "worker", rssSum := 409600, utimeSum := 105, stimeSum := 400
         procCount := 2, threadsSum := 10 }] ∧
    aggregate (pidSamples workersExited.src (ascii "/proc") workersExited.names) =
      [{ comm := ascii "worker", rssSum := 204800, utimeSum := 9, stimeSum := 200
         procCount := 1, threadsSum := 5 }] ∧
    aggregate (pidSamples workersReplaced.src (ascii "/proc") workersReplaced.names) =
      [{ comm := ascii "worker", rssSum := 409600, utimeSum := 129, stimeSum := 400
         procCount := 2, threadsSum := 10 }] := by
  decide

theorem timesGrow_of_time {base : Bytes} {first second : ProcTable base} {alive : Finset Bytes}
    (h : ∀ pid ∈ alive, first.time PidSample.utime pid ≤ second.time PidSample.utime pid ∧
      first.time PidSample.stime pid ≤ second.time PidSample.stime pid) :
    TimesGrow first second alive := by
  intro pid hPid s₁ s₂ h₁ h₂
  simpa [ProcTable.time, h₁, h₂] using h pid hPid

theorem mem_workersFirst :
    workerCputime 105 400 ∈ (processesRead workersFirst.src (ascii "/proc")).metrics :=
  mem_processesRead_of_aggregate workersFirst.dir workers_aggregate.1 List.mem_cons_self
    (by simp [CommAgg.metrics, workerCputime])

theorem mem_workersExited :
    workerCputime 9 200 ∈ (processesRead workersExited.src (ascii "/proc")).metrics :=
  mem_processesRead_of_aggregate workersExited.dir workers_aggregate.2.1 List.mem_cons_self
    (by simp [CommAgg.metrics, workerCputime])

theorem mem_workersReplaced :
    workerCputime 129 400 ∈ (processesRead workersReplaced.src (ascii "/proc")).metrics :=
  mem_processesRead_of_aggregate workersReplaced.dir workers_aggregate.2.2 List.mem_cons_self
    (by simp [CommAgg.metrics, workerCputime])

theorem workersReplaced_cputime_not_less :
    TimesGrow workersFirst workersReplaced {ascii "2"} ∧
      List.Forall₂ (fun v₁ v₂ => CDouble.le v₁ v₂ = true) (workerCputime 105 400).values
        (workerCputime 129 400).values := by
  have hGrow : TimesGrow workersFirst workersReplaced {ascii "2"} :=
    timesGrow_of_time (by decide)
  refine ⟨hGrow, (cputime_not_less_iff_lossCovered hGrow mem_workersFirst mem_workersReplaced
    rfl rfl rfl rfl).1 (by decide) (by decide) ?_⟩
  unfold LossCovered
  decide

/-- A worker exits and the time reported for its name falls from 105 to 9. -/
theorem cputime_falls_when_worker_exits :
    TimesGrow workersFirst workersExited {ascii "2"} ∧
      ∃ m₁ ∈ (processesRead workersFirst.src (ascii "/proc")).metrics,
        ∃ m₂ ∈ (processesRead workersExited.src (ascii "/proc")).metrics,
          m₁.type = ascii "ps_cputime" ∧ m₂.type = ascii "ps_cputime" ∧
            m₁.pluginInstance = some (ascii "worker") ∧
            m₂.pluginInstance = some (ascii "worker") ∧
            ¬ List.Forall₂ (fun v₁ v₂ : Double => CDouble.le v₁ v₂ = true) m₁.values m₂.values := by
  refine ⟨timesGrow_of_time (by decide), workerCputime 105 400, mem_workersFirst,
    workerCputime 9 200, mem_workersExited, rfl, rfl, rfl, rfl, ?_⟩
  intro hLe
  simp only [workerCputime, processMetric, List.forall₂_cons] at hLe
  have hFalls := le_of_ofInt_le_ofInt (by decide) (by decide) hLe.1
  omega

end SvgdCollect
