import SvgdCollect.Agreement
import SvgdCollect.Collect.Daemon
import SvgdCollect.Writer.Readback

/-!
# The numbers of a scrape

`fmt_val` prints integers up to 10^15 in full and everything else with 10 digits, and has
a zero in the place of infinities and NaN.  With the C library's `printf` this says what
number a client of `/metrics` reads for each value that a reader has emitted.
-/

namespace SvgdCollect

open Lib Prom

/-- A text of the exposition for a value: it is a number that is close to the value, and
equal to it if that is an integer of at most 10^15. -/
def Exposes : Double → Bytes → Prop
  | .finite q, text =>
      ∃ p, scanFloat text = some (.rat p, []) ∧ |p - q| ≤ |q| * (10 ^ (-9 : ℤ) / 2) ∧
        (q = ⌊q⌋ → |q| ≤ 10 ^ 15 → p = q)
  | _, text => scanFloat text = some (.rat 0, [])

/-- The test in front of `%.0f`. -/
def IsPlainInteger (q : ℚ) : Prop := q = ⌊q⌋ ∧ |q| ≤ 10 ^ 15

theorem plainInteger_iff (q : ℚ) :
    (CDouble.le (CDouble.ofInt (-10 ^ 15)) (Double.finite q) &&
      CDouble.le (Double.finite q) (CDouble.ofInt (10 ^ 15)) &&
      CDouble.eq (Double.finite q) (CDouble.floor (Double.finite q))) = true ↔
        IsPlainInteger q := by
  rw [Double.ofInt_of_abs_lt (by norm_num), Double.ofInt_of_abs_lt (by norm_num)]
  show (decide (((-10 ^ 15 : ℤ) : ℚ) ≤ q) && decide (q ≤ ((10 ^ 15 : ℤ) : ℚ)) &&
    (decide (q ≤ (⌊q⌋ : ℤ)) && decide (((⌊q⌋ : ℤ) : ℚ) ≤ q))) = true ↔ _
  simp only [Bool.and_eq_true, decide_eq_true_eq, IsPlainInteger, abs_le]
  push_cast
  constructor
  · rintro ⟨⟨hLow, hHigh⟩, hUp, hDown⟩
    exact ⟨le_antisymm hUp hDown, hLow, hHigh⟩
  · rintro ⟨hEq, hLow, hHigh⟩
    exact ⟨⟨hLow, hHigh⟩, hEq.le, hEq.ge⟩

theorem fmtVal_finite (q : ℚ) : fmtVal cPrintf 64 (.finite q) =
    snprintf 64 (if CDouble.le (CDouble.ofInt (-10 ^ 15)) (Double.finite q) &&
      CDouble.le (Double.finite q) (CDouble.ofInt (10 ^ 15)) &&
      CDouble.eq (Double.finite q) (CDouble.floor (Double.finite q))
        then cPrintf.f0 (.finite q) else cPrintf.g10 (.finite q)) := by
  have hFinite : (!CDouble.isfinite (Double.finite q)) = false := rfl
  rw [fmtVal, hFinite, if_neg Bool.false_ne_true, apply_ite (snprintf 64)]

/-- The buffer of 64 bytes holds every number: the digits of an integer, … -/
theorem scanFloat_fmtVal_plain {q : ℚ} (h : IsPlainInteger q) :
    scanFloat (fmtVal cPrintf 64 (.finite q)) = some (.rat q, []) := by
  rw [fmtVal_finite, if_pos ((plainInteger_iff q).mpr h)]
  obtain ⟨hInt, hBound⟩ := h
  generalize ⌊q⌋ = z at hInt
  subst hInt
  have hDigits : (decimalInt z).length ≤ 21 := by
    apply length_decimalInt_le
    have hAbs : |z| ≤ 10 ^ 15 := by exact_mod_cast hBound
    rw [abs_le] at hAbs
    omega
  have hScan := scanFloat_decimalInt z endsNumber_nil
  rw [List.append_nil] at hScan
  show scanFloat (snprintf 64 (fixedText (.finite z))) = _
  rw [fixedText_intCast, snprintf_of_lt (by omega), hScan]

/-- … and the ten digits of any other one. -/
theorem fmtVal_of_not_plain {q : ℚ} (hv : (Double.finite q).IsValue) (h : ¬ IsPlainInteger q) :
    fmtVal cPrintf 64 (.finite q) = generalText 10 (.finite q) := by
  have hLength := length_generalText_le (by norm_num : 0 < 10) hv
  rw [fmtVal_finite, if_neg (mt (plainInteger_iff q).mp h)]
  show snprintf 64 (generalText 10 (Double.finite q).stored) = _
  rw [Double.stored_of_isValue hv, snprintf_of_lt (by omega)]

theorem exposes_fmtVal {v : Double} (hv : v.IsValue) : Exposes v (fmtVal cPrintf 64 v) := by
  have hZeroText : scanFloat (snprintf 64 (ascii "0")) = some (.rat 0, []) := by
    have hScan := @scanFloat_decimalInt 0 [] endsNumber_nil
    rw [Int.cast_zero] at hScan
    exact hScan
  cases v with
  | inf negative => exact hZeroText
  | nan => exact hZeroText
  | finite q =>
      by_cases hPlain : IsPlainInteger q
      · exact ⟨q, scanFloat_fmtVal_plain hPlain, by rw [sub_self, abs_zero]; positivity,
          fun _ _ => rfl⟩
      · rw [fmtVal_of_not_plain hv hPlain]
        obtain ⟨x, hScan, hNear⟩ :=
          scanFloat_generalText (by norm_num : 0 < 10) (.finite q) endsNumber_nil
        rw [List.append_nil] at hScan
        cases x with
        | rat p => exact ⟨p, hScan, hNear, fun hInt hBound => absurd ⟨hInt, hBound⟩ hPlain⟩
        | inf negative => exact hNear.elim
        | nan => exact hNear.elim

/-- No byte but those of numbers. -/
theorem notMem_fmtVal (v : Double) {b : Byte} (hDigit : isdigit b = false)
    (hMark : b ∉ numberMarks) : b ∉ fmtVal cPrintf 64 v := by
  have hCut : ∀ text : Bytes, (∀ b ∈ text, isdigit b = true ∨ b ∈ numberMarks) →
      b ∉ snprintf 64 text := by
    intro text hText hMem
    rcases hText b (List.mem_of_mem_take hMem) with h | h
    · rw [h] at hDigit
      cases hDigit
    · exact hMark h
  unfold fmtVal
  split
  · exact hCut _ (by decide)
  · split
    · exact hCut _ fun _ => mem_fixedText
    · exact hCut _ fun _ => mem_generalText

/-- Each sample of an emitted metric shows the value of its data source. -/
theorem exposes_metricSamples {src : Sources} {st : CpuState} {r : Reader} {m : Metric Double}
    (h : m ∈ (r.read src st : CpuState × ReadResult Double).2.metrics) :
    List.Forall₂ (fun v s => Exposes v s.2.value) m.values (metricSamples cPrintf m) := by
  have hShape := shape_of_mem_read h
  have hValues := isValue_of_mem_read h
  have hCount := length_values_of_shape hShape
  have hLength := @length_metricSamples Double _ _ cPrintf r m hShape
  have hSame : m.values.length = (metricSamples cPrintf m).length := by omega
  obtain ⟨rule, hRule, -⟩ := rule_of_kind (kind_of_shape hShape)
  refine List.forall₂_iff_get.mpr ⟨hSame, fun i hi hi' => ?_⟩
  have hSample : ((metricSamples cPrintf m).get ⟨i, hi'⟩).2.value =
      fmtVal cPrintf 64 (m.values.get ⟨i, hi⟩) := by
    simp [metricSamples, hRule, List.getElem?_eq_getElem hi]
  show Exposes (m.values.get ⟨i, hi⟩) ((metricSamples cPrintf m).get ⟨i, hi'⟩).2.value
  rw [hSample]
  exact exposes_fmtVal (hValues _ (List.get_mem _ _))

/-! ## In the running daemon -/

namespace Daemon

open Loop

theorem emitted_of_mem_lastBatch {D : Type} [CDouble D] {setup : Setup}
    {history : List (Reader → Sources)} {m : Metric D} (hm : m ∈ lastBatch setup history) :
    ∃ (r : Reader) (src : Sources) (st : CpuState), m ∈ (r.read src st).2.metrics := by
  unfold lastBatch at hm
  rw [List.getLastD_eq_getLast?] at hm
  cases hBatches : (collectCycles (D := D) setup.enabled CpuState.initial history).2.getLast? with
  | none =>
      rw [hBatches] at hm
      cases hm
  | some batch =>
      rw [hBatches] at hm
      obtain ⟨srcs, -, r, -, st, hRead⟩ := mem_collectCycles (List.mem_of_mem_getLast? hBatches) hm
      exact ⟨r, srcs r, st, hRead⟩

section Served

variable {o : Oracle} {qsort : Qsort} {setup : Setup} {files : Bytes → Store} {clock : Int}
  {started : Option Nat} {log : List (HandleEvent Handle)} {s : Daemon.State Double}

/-- What a client reads whose request is served in a run, as text. -/
theorem scrape_of_run (ho : o.Succeeds) (hSort : SortsFamilies qsort)
    {before after : List (Daemon.Move Double)} {k : Nat} {chunks : List Bytes}
    {outcomes : List SendOutcome} {written : Bytes}
    (hRun : Lib.run (Daemon.step o cPrintf qsort setup) (boot files clock started log)
      (before ++ .listener (.serve k chunks outcomes written) :: after) = some s)
    (hAsks : AsksForMetrics chunks) (hProgress : ∀ x ∈ outcomes, x.Progress) :
    ∃ (history : List (Reader → Sources)) (done : List Reader) (srcs : Reader → Sources)
      (seen : List (Metric Double)) (blocks : List Exposition.Block),
      readTrace (collectorTrace before) =
        history.flatMap (fun srcs => setup.enabled.map srcs) ++ done.map srcs ∧
      seen.Sublist (lastBatch setup history) ∧
      ((latestCycle (snapTrace (collectorTrace before))).failed = false →
        seen = lastBatch setup history) ∧
      Loop.scrape written = some blocks ∧
      (blockSamples blocks).Perm (seen.flatMap (metricSamples cPrintf)) := by
  rw [run_append, Option.bind_eq_some_iff] at hRun
  obtain ⟨s₁, hBefore, hRest⟩ := hRun
  rw [run_cons, Option.bind_eq_some_iff] at hRest
  obtain ⟨s₂, hServe, -⟩ := hRest
  have hCoupled := coupled_of_run (collector_of_run hBefore)
  have hVal : ∀ v, Exposition.space ∉ fmtVal cPrintf 64 v ∧
      Exposition.newline ∉ fmtVal cPrintf 64 v ∧ cr ∉ fmtVal cPrintf 64 v := fun v =>
    ⟨notMem_fmtVal v (by decide) (by decide), notMem_fmtVal v (by decide) (by decide),
      notMem_fmtVal v (by decide) (by decide)⟩
  cases step_cases hServe with
  | listener hListener hThread =>
      obtain ⟨history, done, srcs, seen, blocks, hReads, hSeen, hAll, -, -, hSamples, -, hScrape⟩ :=
        hCoupled.scrape ho hSort hVal hAsks (served hThread)
      exact ⟨history, done, srcs, seen, blocks, hReads, hSeen, hAll, hScrape hProgress, hSamples⟩

end Served

/-- **Numbers end to end.**  If neither the socket nor an allocation of the thread fails, a
client of `/metrics` reads for every metric of the last complete cycle that the snapshot kept
one number for each value:
within a relative distance of 5·10⁻¹⁰, exact for integers up to 10^15, and zero for what is
no finite number. -/
theorem scraped_numbers {o : Oracle} {qsort : Qsort} {setup : Setup} {files : Bytes → Store}
    {clock : Int} {started : Option Nat} {log : List (HandleEvent Handle)} {s : Daemon.State Double}
    (ho : o.Succeeds) (hSort : SortsFamilies qsort) {before after : List (Daemon.Move Double)}
    {k : Nat} {chunks : List Bytes} {outcomes : List SendOutcome} {written : Bytes}
    (hRun : Lib.run (Daemon.step o cPrintf qsort setup) (boot files clock started log)
      (before ++ .listener (.serve k chunks outcomes written) :: after) = some s)
    (hAsks : AsksForMetrics chunks) (hProgress : ∀ x ∈ outcomes, x.Progress) :
    ∃ (history : List (Reader → Sources)) (done : List Reader) (srcs : Reader → Sources)
      (seen : List (Metric Double)) (blocks : List Exposition.Block),
      readTrace (collectorTrace before) =
        history.flatMap (fun srcs => setup.enabled.map srcs) ++ done.map srcs ∧
      seen.Sublist (lastBatch setup history) ∧
      ((latestCycle (snapTrace (collectorTrace before))).failed = false →
        seen = lastBatch setup history) ∧
      Loop.scrape written = some blocks ∧
      (blockSamples blocks).Perm (seen.flatMap (metricSamples cPrintf)) ∧
      ∀ m ∈ seen,
        List.Forall₂ (fun v x => Exposes v x.2.value) m.values (metricSamples cPrintf m) := by
  obtain ⟨history, done, srcs, seen, blocks, hReads, hSeen, hAll, hScrape, hSamples⟩ :=
    scrape_of_run ho hSort hRun hAsks hProgress
  refine ⟨history, done, srcs, seen, blocks, hReads, hSeen, hAll, hScrape, hSamples, fun m hm => ?_⟩
  obtain ⟨r, src, st, hRead⟩ := emitted_of_mem_lastBatch (hSeen.subset hm)
  exact exposes_metricSamples hRead

set_option maxRecDepth 20000 in
theorem printedConnection_runs :
    ∃ s, Lib.run (Daemon.step (filledMemory 0) cPrintf stableQsort swapSetup)
        (boot (fun _ => ⟨none, []⟩) 5 (some 4) []) untilConnection = some s ∧
      s.listener = some (4, .serving 5) := by
  have hListener : (Lib.run (Daemon.step (filledMemory 0) cPrintf stableQsort swapSetup)
      (boot (fun _ => ⟨none, []⟩) 5 (some 4) []) untilConnection).map State.listener =
        some (some (4, .serving 5)) := by
    decide +kernel
  exact Option.map_eq_some_iff.mp hListener

/-- The used and the free swap are read as they were emitted. -/
theorem swap_numbers_are_read :
    ∃ outcomes written s blocks,
      Lib.run (Daemon.step (filledMemory 0) cPrintf stableQsort swapSetup)
        (boot (fun _ => ⟨none, []⟩) 5 (some 4) []) (untilConnection ++
          [.listener (.serve 0 metricsRequest outcomes written)]) = some s ∧
      Loop.scrape written = some blocks ∧
      ∃ seen : List (Metric Double),
        (blockSamples blocks).Perm (seen.flatMap (metricSamples cPrintf)) ∧
        ∀ m ∈ seen,
          List.Forall₂ (fun v x => Exposes v x.2.value) m.values (metricSamples cPrintf m) := by
  have hAsks : AsksForMetrics metricsRequest := by decide
  obtain ⟨s, hRun, hListener⟩ := printedConnection_runs
  obtain ⟨outcomes, written, s', hProgress, hWhole⟩ := exists_serve hRun hListener hAsks
  obtain ⟨-, -, -, seen, blocks, -, -, -, hScrape, hSamples, hNumbers⟩ :=
    scraped_numbers (filledMemory_succeeds 0) stableQsort_sorts hWhole hAsks hProgress
  exact ⟨outcomes, written, s', blocks, hWhole, hScrape, seen, hSamples, hNumbers⟩

end Daemon

end SvgdCollect
