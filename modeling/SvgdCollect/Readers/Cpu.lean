import SvgdCollect.Readers.System
import Mathlib.Algebra.Order.BigOperators.Group.List
import Mathlib.Data.List.GetD

/-!
# Runs of the cpu reader

`cpu_read` keeps the busy and the total time of the last sample that it could read and
reports the busy share of the time that has passed since.  Here a run is a list of
sources, one for each call.  Values are exact rationals.
-/

namespace SvgdCollect

open Lib

/-! ## Samples -/

/-- The numbers of the aggregate line, if there are at least four. -/
def cpuFields (content : Bytes) : Option (List Int) :=
  ((fgetsLines 512 content).find? fun line => ascii "cpu " <+: line).bind fun line =>
    let fields := nums (sscanf cpuFormat line)
    if fields.length < 4 then none else some fields

def cpuTotal (fields : List Int) : Int := fields.sum

/-- `idle + iowait`; a field that the line does not have is zero. -/
def cpuIdle (fields : List Int) : Int := fields.getD 3 0 + fields.getD 4 0

def cpuBusy (fields : List Int) : Int := cpuTotal fields - cpuIdle fields

theorem cpuTimes_eq (content : Bytes) :
    cpuTimes content =
      (cpuFields content).map fun fields => (cpuTotal fields, cpuBusy fields) := by
  unfold cpuTimes cpuFields
  cases (fgetsLines 512 content).find? fun line => ascii "cpu " <+: line with
  | none => rfl
  | some line =>
      simp only [Option.bind_some]
      split
      · rfl
      · simp only [Option.map_some, cpuTotal, cpuBusy, cpuIdle]
        rw [sub_sub]

/-- What a call of `cpu_read` gets to see; without it the call fails. -/
def cpuSample (base : Bytes) (src : Sources) : Option (List Int) :=
  (src.file (procPath base "/stat")).bind cpuFields

def CpuState.of (fields : List Int) : CpuState :=
  { prevBusy := cpuBusy fields, prevTotal := cpuTotal fields }

theorem cpuRead_of_none {D : Type} [CDouble D] {base : Bytes} {src : Sources}
    (h : cpuSample base src = none) (st : CpuState) :
    cpuRead (D := D) src base st = (st, .fail) := by
  unfold cpuSample at h
  unfold cpuRead
  cases hFile : src.file (procPath base "/stat") with
  | none => rfl
  | some content =>
      rw [hFile, Option.bind_some] at h
      simp only [cpuTimes_eq, h, Option.map_none]

theorem cpuRead_of_some {D : Type} [CDouble D] {base : Bytes} {src : Sources} {fields : List Int}
    (h : cpuSample base src = some fields) (st : CpuState) :
    cpuRead (D := D) src base st =
      (.of fields, .ok (if st.prevBusy ≥ 0 ∧ cpuTotal fields - st.prevTotal > 0 then
        [cpuMetric (percentOf (cpuBusy fields - st.prevBusy) (cpuTotal fields - st.prevTotal))]
        else [])) := by
  unfold cpuSample at h
  obtain ⟨content, hFile, hFields⟩ := Option.bind_eq_some_iff.mp h
  unfold cpuRead
  simp only [hFile, cpuTimes_eq, hFields, Option.map_some]
  rfl

theorem length_of_cpuSample {base : Bytes} {src : Sources} {fields : List Int}
    (h : cpuSample base src = some fields) : 4 ≤ fields.length := by
  obtain ⟨content, -, hFields⟩ := Option.bind_eq_some_iff.mp h
  obtain ⟨line, -, hLine⟩ := Option.bind_eq_some_iff.mp hFields
  simp only at hLine
  split at hLine
  · cases hLine
  · rename_i hLength
    rw [← Option.some.inj hLine]
    omega

/-- Counters as the kernel keeps them, for as long as `long` holds their sum. -/
structure IsCpuCounters (fields : List Int) : Prop where
  nonneg : ∀ x ∈ fields, 0 ≤ x
  sum_lt : fields.sum < 2 ^ 63

theorem cpuBusy_eq {fields : List Int} (h : 4 ≤ fields.length) :
    cpuBusy fields =
      fields.getD 0 0 + fields.getD 1 0 + fields.getD 2 0 + (fields.drop 5).sum := by
  obtain ⟨user, nice, system, idle, rest, rfl⟩ :
      ∃ user nice system idle rest, fields = user :: nice :: system :: idle :: rest := by
    match fields, h with
    | user :: nice :: system :: idle :: rest, _ => exact ⟨user, nice, system, idle, rest, rfl⟩
  cases rest with
  | nil =>
      simp [cpuBusy, cpuTotal, cpuIdle]
      ring
  | cons iowait rest =>
      simp [cpuBusy, cpuTotal, cpuIdle]
      ring

theorem getD_nonneg {fields : List Int} (h : ∀ x ∈ fields, 0 ≤ x) (i : Nat) :
    0 ≤ fields.getD i 0 := by
  rw [List.getD_eq_getElem?_getD]
  cases hi : fields[i]? with
  | none => exact le_refl 0
  | some x => exact h x (List.mem_of_getElem? hi)

theorem cpuBusy_nonneg {fields : List Int} (hLength : 4 ≤ fields.length)
    (h : IsCpuCounters fields) : 0 ≤ cpuBusy fields := by
  have hRest : 0 ≤ (fields.drop 5).sum :=
    List.sum_nonneg fun x hx => h.nonneg x (List.mem_of_mem_drop hx)
  have hUser := getD_nonneg h.nonneg 0
  have hNice := getD_nonneg h.nonneg 1
  have hSystem := getD_nonneg h.nonneg 2
  rw [cpuBusy_eq hLength]
  omega

/-! ## Runs -/

/-- The state after a run. -/
def cpuState (base : Bytes) (srcs : List Sources) : CpuState :=
  srcs.foldl (fun st src => (cpuRead (D := ℚ) src base st).1) .initial

/-- A call of a run: the state before it, the state it leaves and what it emits. -/
structure CpuCall where
  before : CpuState
  after : CpuState
  metrics : List (Metric ℚ)

def cpuCall (base : Bytes) (before : CpuState) (src : Sources) : CpuCall :=
  let result := cpuRead src base before
  { before := before, after := result.1, metrics := result.2.metrics }

/-- The calls of a run, in order. -/
def cpuCalls (base : Bytes) : CpuState → List Sources → List CpuCall
  | _, [] => []
  | st, src :: rest =>
      let call := cpuCall base st src
      call :: cpuCalls base call.after rest

/-- What a call emits, times the time since the sample before. -/
def CpuCall.busyTime (call : CpuCall) : ℚ :=
  ((call.metrics.flatMap (·.values)).map
    (· * ((call.after.prevTotal - call.before.prevTotal : Int) : ℚ))).sum

def cpuSamples (base : Bytes) (srcs : List Sources) : List (List Int) :=
  srcs.filterMap (cpuSample base)

theorem cpuCalls_concat (base : Bytes) (st : CpuState) (srcs : List Sources) (src : Sources) :
    cpuCalls base st (srcs ++ [src]) =
      cpuCalls base st srcs ++
        [cpuCall base (srcs.foldl (fun st src => (cpuRead (D := ℚ) src base st).1) st) src] := by
  induction srcs generalizing st with
  | nil => rfl
  | cons first rest ih =>
      simp only [List.cons_append, cpuCalls, List.foldl_cons, ih]
      rfl

theorem cpuState_concat (base : Bytes) (srcs : List Sources) (src : Sources) :
    cpuState base (srcs ++ [src]) = (cpuRead (D := ℚ) src base (cpuState base srcs)).1 := by
  rw [cpuState, List.foldl_append]
  rfl

theorem cpuSamples_concat (base : Bytes) (srcs : List Sources) (src : Sources) :
    cpuSamples base (srcs ++ [src]) =
      cpuSamples base srcs ++ (cpuSample base src).toList := by
  rw [cpuSamples, List.filterMap_append]
  cases h : cpuSample base src <;> simp [cpuSamples, h]

/-- Whatever failed on the way, the state is that of the last sample. -/
theorem cpuState_eq (base : Bytes) (srcs : List Sources) :
    cpuState base srcs = ((cpuSamples base srcs).getLast?.map CpuState.of).getD .initial := by
  induction srcs using List.reverseRecOn with
  | nil => rfl
  | append_singleton srcs src ih =>
      rw [cpuState_concat, cpuSamples_concat]
      cases hSample : cpuSample base src with
      | none =>
          rw [cpuRead_of_none hSample, Option.toList_none, List.append_nil]
          exact ih
      | some fields =>
          rw [cpuRead_of_some hSample, Option.toList_some, List.getLast?_concat]
          rfl

theorem mem_cpuSamples {base : Bytes} {srcs : List Sources} {fields : List Int} :
    fields ∈ cpuSamples base srcs ↔ ∃ src ∈ srcs, cpuSample base src = some fields :=
  List.mem_filterMap

theorem cpuSamples_ne_nil_iff {base : Bytes} {srcs : List Sources} :
    cpuSamples base srcs ≠ [] ↔ ∃ src ∈ srcs, (cpuSample base src).isSome := by
  simp [cpuSamples, Option.isSome_iff_ne_none]

theorem cpuBusy_nonneg_of_mem {base : Bytes} {srcs : List Sources} {fields : List Int}
    (h : ∀ fields ∈ cpuSamples base srcs, IsCpuCounters fields)
    (hMem : fields ∈ cpuSamples base srcs) : 0 ≤ cpuBusy fields := by
  obtain ⟨src, -, hSample⟩ := mem_cpuSamples.mp hMem
  exact cpuBusy_nonneg (length_of_cpuSample hSample) (h fields hMem)

theorem cpuState_of_last {base : Bytes} {srcs : List Sources} {last : List Int}
    (hLast : (cpuSamples base srcs).getLast? = some last) : cpuState base srcs = .of last := by
  rw [cpuState_eq, hLast]
  rfl

/-- A call that finds an earlier sample reports the time since. -/
theorem cpuRead_after {src : Sources} {base : Bytes} {last fields : List Int}
    (hBusy : 0 ≤ cpuBusy last) (hSample : cpuSample base src = some fields) :
    cpuRead (D := ℚ) src base (.of last) =
      (.of fields, .ok (if cpuTotal last < cpuTotal fields then
        [cpuMetric (percentOf (cpuBusy fields - cpuBusy last)
          (cpuTotal fields - cpuTotal last))] else [])) := by
  rw [cpuRead_of_some hSample]
  simp only [CpuState.of, ge_iff_le, hBusy, true_and, gt_iff_lt, sub_pos]

/-- A call without an earlier sample only sets the state. -/
theorem cpuRead_initial {src : Sources} {base : Bytes} {fields : List Int}
    (hSample : cpuSample base src = some fields) :
    cpuRead (D := ℚ) src base .initial = (.of fields, .ok []) := by
  rw [cpuRead_of_some hSample]
  simp [CpuState.initial]

theorem percentOf_mul {part whole : Int} (h : 0 < whole) :
    percentOf (D := ℚ) part whole * (whole : ℚ) = 100 * (part : ℚ) := by
  have hWhole : (whole : ℚ) ≠ 0 := by exact_mod_cast h.ne'
  exact div_mul_cancel₀ _ hWhole

/-- The busy time behind the value that a call reports. -/
theorem busyTime_after {src : Sources} {base : Bytes} {last fields : List Int}
    (hBusy : 0 ≤ cpuBusy last) (hSample : cpuSample base src = some fields)
    (hTotal : cpuTotal last < cpuTotal fields) :
    (cpuCall base (.of last) src).busyTime =
      100 * ((cpuBusy fields - cpuBusy last : Int) : ℚ) := by
  rw [CpuCall.busyTime, cpuCall, cpuRead_after hBusy hSample, if_pos hTotal]
  simp only [ReadResult.ok, cpuMetric, List.flatMap_cons, List.flatMap_nil, List.append_nil,
    List.map_cons, List.map_nil, List.sum_cons, List.sum_nil, add_zero, CpuState.of]
  exact percentOf_mul (sub_pos.mpr hTotal)

/-- The busy time of the calls of a run adds up to the busy time of its samples. -/
theorem sum_busyTime {base : Bytes} {srcs : List Sources}
    (h : ∀ fields ∈ cpuSamples base srcs, IsCpuCounters fields)
    (hTotals : ((cpuSamples base srcs).map cpuTotal).Pairwise (· < ·)) :
    ((cpuCalls base .initial srcs).map CpuCall.busyTime).sum =
      100 * ((((cpuSamples base srcs).getLast?.map cpuBusy).getD 0 -
        ((cpuSamples base srcs).head?.map cpuBusy).getD 0 : Int) : ℚ) := by
  -- from the end: the last call adds nothing, or the step from the sample before it
  induction srcs using List.reverseRecOn with
  | nil => simp [cpuCalls, cpuSamples]
  | append_singleton srcs src ih =>
      have hState : srcs.foldl (fun st src => (cpuRead (D := ℚ) src base st).1) .initial =
          cpuState base srcs := rfl
      rw [cpuCalls_concat, hState, List.map_append, List.sum_append, List.map_singleton,
        List.sum_singleton]
      rw [cpuSamples_concat] at h hTotals ⊢
      have hFront : ∀ fields ∈ cpuSamples base srcs, IsCpuCounters fields :=
        fun fields hMem => h fields (List.mem_append_left _ hMem)
      rw [ih hFront (hTotals.sublist ((List.sublist_append_left _ _).map cpuTotal))]
      cases hSample : cpuSample base src with
      | none =>
          have hNothing : (cpuCall base (cpuState base srcs) src).busyTime = 0 := by
            simp [CpuCall.busyTime, cpuCall, cpuRead_of_none hSample, ReadResult.fail]
          rw [hNothing, Option.toList_none, List.append_nil, add_zero]
      | some fields =>
          rw [hSample, Option.toList_some] at hTotals
          rw [Option.toList_some, List.getLast?_concat]
          cases hLast : (cpuSamples base srcs).getLast? with
          | none =>
              rw [List.getLast?_eq_none_iff] at hLast
              have hNothing : (cpuCall base (cpuState base srcs) src).busyTime = 0 := by
                rw [cpuState_eq, hLast]
                simp [CpuCall.busyTime, cpuCall, cpuRead_initial hSample, ReadResult.ok]
              simp [hNothing, hLast]
          | some last =>
              have hMem : last ∈ cpuSamples base srcs := List.mem_of_getLast? hLast
              have hTotal : cpuTotal last < cpuTotal fields := by
                rw [List.map_append, List.pairwise_append] at hTotals
                exact hTotals.2.2 _ (List.mem_map_of_mem hMem) _ (by simp)
              obtain ⟨first, rest, hFirst⟩ := List.exists_cons_of_ne_nil (List.ne_nil_of_mem hMem)
              rw [cpuState_of_last hLast,
                busyTime_after (cpuBusy_nonneg_of_mem hFront hMem) hSample hTotal, hFirst]
              simp only [List.cons_append, List.head?_cons, Option.map_some, Option.getD_some]
              push_cast
              ring

/-- Which calls emit: those that get a sample and had one before. -/
theorem cpuRead_emits_iff {base : Bytes} {before : List Sources} {src : Sources}
    (h : ∀ fields ∈ cpuSamples base before, IsCpuCounters fields)
    (hTotals : ((cpuSamples base (before ++ [src])).map cpuTotal).Pairwise (· < ·)) :
    (cpuRead (D := ℚ) src base (cpuState base before)).2.metrics ≠ [] ↔
      (cpuSample base src).isSome ∧ ∃ src' ∈ before, (cpuSample base src').isSome := by
  rw [← cpuSamples_ne_nil_iff]
  cases hSample : cpuSample base src with
  | none => simp [cpuRead_of_none hSample, ReadResult.fail]
  | some fields =>
      cases hLast : (cpuSamples base before).getLast? with
      | none =>
          rw [List.getLast?_eq_none_iff] at hLast
          rw [cpuState_eq, hLast]
          simp [cpuRead_initial hSample, ReadResult.ok]
      | some last =>
          have hMem : last ∈ cpuSamples base before := List.mem_of_getLast? hLast
          have hTotal : cpuTotal last < cpuTotal fields := by
            rw [cpuSamples_concat, hSample, List.map_append, List.pairwise_append] at hTotals
            exact hTotals.2.2 _ (List.mem_map_of_mem hMem) _ (by simp)
          rw [cpuState_of_last hLast, cpuRead_after (cpuBusy_nonneg_of_mem h hMem) hSample,
            if_pos hTotal]
          simp [ReadResult.ok, List.ne_nil_of_mem hMem]

/-- **All busy time is accounted for.**  Over every run of `cpu_read` whose samples have
strictly growing totals, a call emits exactly if it gets a sample and an earlier call did,
a call that fails leaves the state alone and emits nothing, and the emitted values, each
times the time since the sample before, add up to a hundred times the busy time between
the first sample and the last. -/
theorem cpuRead_accounts_for_busy_time {base : Bytes} {srcs : List Sources}
    (hCounters : ∀ fields ∈ cpuSamples base srcs, IsCpuCounters fields)
    (hTotals : ((cpuSamples base srcs).map cpuTotal).Pairwise (· < ·)) :
    (∀ before src after, srcs = before ++ src :: after →
      ((cpuRead (D := ℚ) src base (cpuState base before)).2.metrics ≠ [] ↔
          (cpuSample base src).isSome ∧ ∃ src' ∈ before, (cpuSample base src').isSome) ∧
        (cpuSample base src = none →
          cpuRead (D := ℚ) src base (cpuState base before) = (cpuState base before, .fail))) ∧
      ∀ first last, (cpuSamples base srcs).head? = some first →
        (cpuSamples base srcs).getLast? = some last →
        ((cpuCalls base .initial srcs).map CpuCall.busyTime).sum =
          100 * ((cpuBusy last : ℚ) - cpuBusy first) := by
  refine ⟨?_, ?_⟩
  · rintro before src after rfl
    have hSplit : cpuSamples base (before ++ src :: after) =
        cpuSamples base (before ++ [src]) ++ cpuSamples base after := by
      rw [cpuSamples, cpuSamples, cpuSamples, ← List.filterMap_append, List.append_assoc]
      rfl
    rw [hSplit] at hCounters hTotals
    refine ⟨cpuRead_emits_iff ?_ ?_, fun hNone => cpuRead_of_none hNone _⟩
    · intro fields hMem
      apply hCounters
      rw [cpuSamples_concat]
      exact List.mem_append_left _ (List.mem_append_left _ hMem)
    · exact hTotals.sublist ((List.sublist_append_left _ _).map cpuTotal)
  · intro first last hFirst hLast
    rw [sum_busyTime hCounters hTotals, hFirst, hLast]
    simp only [Option.map_some, Option.getD_some]
    push_cast
    ring

/-- A system with nothing but `/proc/stat`. -/
def statSource (content : Option Bytes) : Sources :=
  { file := fun path => if path = ascii "/proc/stat" then content else none
    dir := fun _ => none, statvfs := fun _ => none, pageSize := 4096
    isFileName := isFileName_of_no_dir }

/-- The two samples of `tests/test_cpu.c` with a call that fails between them. -/
def fixtureStats : List Sources :=
  [statSource (some (ascii "cpu  100 0 100 800 0 0 0 0 0 0\ncpu0 50 0 50 400 0 0 0 0 0 0\n")),
    statSource none,
    statSource (some (ascii "cpu  200 0 200 1600 0 0 0 0 0 0\ncpu0 100 0 100 800 0 0 0 0 0 0\n"))]

theorem fixtureStats_samples :
    cpuSamples (ascii "/proc") fixtureStats =
      [[100, 0, 100, 800, 0, 0, 0, 0, 0, 0], [200, 0, 200, 1600, 0, 0, 0, 0, 0, 0]] := by
  decide

theorem fixtureStats_account_for_busy_time :
    ((cpuCalls (ascii "/proc") .initial fixtureStats).map CpuCall.busyTime).sum =
      100 * ((400 : ℚ) - 200) := by
  have hAccount := @cpuRead_accounts_for_busy_time (ascii "/proc") fixtureStats
    (by
      rw [fixtureStats_samples]
      simp only [List.mem_cons, List.not_mem_nil, or_false, forall_eq_or_imp, forall_eq]
      exact ⟨⟨by decide, by decide⟩, ⟨by decide, by decide⟩⟩)
    (by rw [fixtureStats_samples]; decide)
  have hBusy := hAccount.2 [100, 0, 100, 800, 0, 0, 0, 0, 0, 0]
    [200, 0, 200, 1600, 0, 0, 0, 0, 0, 0] (by rw [fixtureStats_samples]; rfl)
    (by rw [fixtureStats_samples]; rfl)
  rw [hBusy]
  norm_num [cpuBusy, cpuTotal, cpuIdle]

/-! ## The range of the gauge -/

theorem sum_le_sum_of_getD {s t : List Int} (h : ∀ i, s.getD i 0 ≤ t.getD i 0) :
    s.sum ≤ t.sum := by
  induction s generalizing t with
  | nil =>
      refine List.sum_nonneg fun x hx => ?_
      obtain ⟨i, hi, rfl⟩ := List.getElem_of_mem hx
      simpa [hi] using h i
  | cons x s ih =>
      cases t with
      | nil =>
          have hHead : x ≤ 0 := by simpa using h 0
          have hTail : s.sum ≤ ([] : List Int).sum :=
            ih fun i => by simpa using h (i + 1)
          rw [List.sum_cons]
          simp only [List.sum_nil] at hTail ⊢
          omega
      | cons y t =>
          have hHead : x ≤ y := by simpa using h 0
          have hTail : s.sum ≤ t.sum := ih fun i => by simpa using h (i + 1)
          rw [List.sum_cons, List.sum_cons]
          omega

/-- Two samples in the order in which the kernel gives them: only `iowait`, the fifth
field, may fall. -/
structure CpuAdvances (last fields : List Int) : Prop where
  earlier : IsCpuCounters last
  later : IsCpuCounters fields
  others : ∀ i, i ≠ 4 → last.getD i 0 ≤ fields.getD i 0

theorem cpuBusy_mono {last fields : List Int} (hLast : 4 ≤ last.length)
    (hFields : 4 ≤ fields.length) (h : ∀ i, i ≠ 4 → last.getD i 0 ≤ fields.getD i 0) :
    cpuBusy last ≤ cpuBusy fields := by
  have hRest : (last.drop 5).sum ≤ (fields.drop 5).sum := by
    refine sum_le_sum_of_getD fun i => ?_
    have hField := h (5 + i) (by omega)
    rw [List.getD_eq_getElem?_getD, List.getD_eq_getElem?_getD] at hField ⊢
    rwa [List.getElem?_drop, List.getElem?_drop]
  have hUser := h 0 (by omega)
  have hNice := h 1 (by omega)
  have hSystem := h 2 (by omega)
  rw [cpuBusy_eq hLast, cpuBusy_eq hFields]
  omega

theorem percentOf_mem_iff {part whole : Int} (hPart : 0 ≤ part) (hWhole : 0 < whole) :
    (0 ≤ percentOf (D := ℚ) part whole ∧ percentOf (D := ℚ) part whole ≤ 100) ↔
      part ≤ whole := by
  have hPart' : (0 : ℚ) ≤ part := by exact_mod_cast hPart
  have hWhole' : (0 : ℚ) < whole := by exact_mod_cast hWhole
  have hValue : percentOf (D := ℚ) part whole = 100 * (part : ℚ) / (whole : ℚ) := rfl
  rw [hValue, div_le_iff₀ hWhole']
  constructor
  · intro h
    have : (part : ℚ) ≤ whole := by linarith [h.2]
    exact_mod_cast this
  · intro h
    have : (part : ℚ) ≤ whole := by exact_mod_cast h
    exact ⟨by positivity, by linarith⟩

/-- **The cpu gauge.**  What `cpu_read` emits lies between 0 and 100 exactly if idle and
waiting time together have not fallen since the sample before, or all time together has
not grown and nothing is emitted. -/
theorem cpuRead_percentage_iff {base : Bytes} {before : List Sources} {src : Sources}
    {last fields : List Int} (hLast : (cpuSamples base before).getLast? = some last)
    (hSample : cpuSample base src = some fields) (hAdvances : CpuAdvances last fields) :
    (∀ m ∈ (cpuRead (D := ℚ) src base (cpuState base before)).2.metrics,
        ∀ v ∈ m.values, 0 ≤ v ∧ v ≤ 100) ↔
      cpuIdle last ≤ cpuIdle fields ∨ cpuTotal fields ≤ cpuTotal last := by
  obtain ⟨src', -, hSample'⟩ := mem_cpuSamples.mp (List.mem_of_getLast? hLast)
  have hLength := length_of_cpuSample hSample'
  have hBusy := cpuBusy_mono hLength (length_of_cpuSample hSample) hAdvances.others
  rw [cpuState_of_last hLast, cpuRead_after (cpuBusy_nonneg hLength hAdvances.earlier) hSample]
  by_cases hTotal : cpuTotal last < cpuTotal fields
  · have hRange := percentOf_mem_iff (sub_nonneg.mpr hBusy) (sub_pos.mpr hTotal)
    simp only [if_pos hTotal, ReadResult.ok, List.mem_singleton, forall_eq, cpuMetric, hRange]
    unfold cpuBusy
    omega
  · simp only [if_neg hTotal, ReadResult.ok, List.not_mem_nil, false_implies, implies_true,
      true_iff]
    omega

/-- A line has no more than ten fields to compare. -/
theorem cpuAdvances_of_ten {last fields : List Int} (hLast : last.length ≤ 10)
    (hFields : fields.length ≤ 10) (hEarlier : IsCpuCounters last)
    (hLater : IsCpuCounters fields)
    (h : ∀ i < 10, i ≠ 4 → last.getD i 0 ≤ fields.getD i 0) : CpuAdvances last fields := by
  refine ⟨hEarlier, hLater, fun i hi => ?_⟩
  by_cases hBound : i < 10
  · exact h i hBound hi
  · rw [List.getD_eq_default _ _ (by omega), List.getD_eq_default _ _ (by omega)]

/-- The fixtures of `tests/test_cpu.c`, where nothing falls. -/
theorem fixtureStats_percentage :
    CpuAdvances [100, 0, 100, 800, 0, 0, 0, 0, 0, 0] [200, 0, 200, 1600, 0, 0, 0, 0, 0, 0] ∧
      ∀ m ∈ (cpuRead (D := ℚ)
          (statSource (some (ascii "cpu  200 0 200 1600 0 0 0 0 0 0\n"))) (ascii "/proc")
          (cpuState (ascii "/proc")
            [statSource (some (ascii "cpu  100 0 100 800 0 0 0 0 0 0\n"))])).2.metrics,
        ∀ v ∈ m.values, 0 ≤ v ∧ v ≤ 100 := by
  have hAdvances : CpuAdvances [100, 0, 100, 800, 0, 0, 0, 0, 0, 0]
      [200, 0, 200, 1600, 0, 0, 0, 0, 0, 0] :=
    cpuAdvances_of_ten (by decide) (by decide) ⟨by decide, by decide⟩ ⟨by decide, by decide⟩
      (by decide)
  exact ⟨hAdvances, (cpuRead_percentage_iff (by decide) (by decide) hAdvances).mpr (by decide)⟩

/-- Between two samples a hundred ticks are busy and ten idle, and the kernel takes back
fifty ticks of `iowait`: the gauge is above 100. -/
theorem iowait_falls_percentage :
    CpuAdvances [100, 0, 0, 1000, 50, 0, 0, 0, 0, 0] [200, 0, 0, 1010, 0, 0, 0, 0, 0, 0] ∧
      cpuSample (ascii "/proc") (statSource (some (ascii "cpu  100 0 0 1000 50 0 0 0 0 0\n"))) =
        some [100, 0, 0, 1000, 50, 0, 0, 0, 0, 0] ∧
      cpuSample (ascii "/proc") (statSource (some (ascii "cpu  200 0 0 1010 0 0 0 0 0 0\n"))) =
        some [200, 0, 0, 1010, 0, 0, 0, 0, 0, 0] ∧
      ∃ m ∈ (cpuRead (D := ℚ)
          (statSource (some (ascii "cpu  200 0 0 1010 0 0 0 0 0 0\n"))) (ascii "/proc")
          (cpuState (ascii "/proc")
            [statSource (some (ascii "cpu  100 0 0 1000 50 0 0 0 0 0\n"))])).2.metrics,
        ∃ v ∈ m.values, 100 < v := by
  have hFirst : cpuSample (ascii "/proc")
      (statSource (some (ascii "cpu  100 0 0 1000 50 0 0 0 0 0\n"))) =
        some [100, 0, 0, 1000, 50, 0, 0, 0, 0, 0] := by decide
  have hSecond : cpuSample (ascii "/proc")
      (statSource (some (ascii "cpu  200 0 0 1010 0 0 0 0 0 0\n"))) =
        some [200, 0, 0, 1010, 0, 0, 0, 0, 0, 0] := by decide
  have hAdvances := @cpuAdvances_of_ten [100, 0, 0, 1000, 50, 0, 0, 0, 0, 0]
    [200, 0, 0, 1010, 0, 0, 0, 0, 0, 0] (by decide) (by decide) ⟨by decide, by decide⟩
    ⟨by decide, by decide⟩ (by decide)
  refine ⟨hAdvances, hFirst, hSecond, ?_⟩
  have hLast : (cpuSamples (ascii "/proc")
      [statSource (some (ascii "cpu  100 0 0 1000 50 0 0 0 0 0\n"))]).getLast? =
        some [100, 0, 0, 1000, 50, 0, 0, 0, 0, 0] := by
    rw [cpuSamples, List.filterMap_cons, hFirst]
    rfl
  rw [cpuState_of_last hLast, cpuRead_after (by decide) hSecond, if_pos (by decide)]
  -- 100 busy ticks out of 60
  refine ⟨_, List.mem_singleton_self _, _, List.mem_singleton_self _, ?_⟩
  have hValue : percentOf (D := ℚ)
      (cpuBusy [200, 0, 0, 1010, 0, 0, 0, 0, 0, 0] - cpuBusy [100, 0, 0, 1000, 50, 0, 0, 0, 0, 0])
      (cpuTotal [200, 0, 0, 1010, 0, 0, 0, 0, 0, 0] -
        cpuTotal [100, 0, 0, 1000, 50, 0, 0, 0, 0, 0]) = 100 * ((100 : Int) : ℚ) / ((60 : Int) : ℚ) :=
    rfl
  rw [hValue]
  norm_num

end SvgdCollect
