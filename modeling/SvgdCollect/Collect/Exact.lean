import SvgdCollect.Collect.Numbers
import SvgdCollect.Readers.Exact

/-!
# From the kernel's numbers to the client's

The exact counterpart of the daemon reads the same files and rounds nothing.  What a client of
`/metrics` reads is what the exact one has collected: decimals of ten digits are equal, other
numbers are equal up to a relative distance of 10⁻⁹, and what is no number or too large for a
double is a zero.
-/

namespace SvgdCollect

open Lib Prom

/-! ## The text of a value -/

/-- A number of ten decimal digits. -/
def IsShortDecimal (q : ℚ) : Prop := ∃ (z : ℤ) (k : ℕ), |z| < 10 ^ 10 ∧ k ≤ 300 ∧ q = z / 10 ^ k

/-- The text is a number: close to the exact value and equal to a short one, or the zero that
stands for what is too large for a double, infinite or no number. -/
def Shows (x : Scanned) (text : Bytes) : Prop :=
  ∃ p, scanFloat text = some (.rat p, []) ∧
    match x with
    | .rat q => (IsShortDecimal q → p = q) ∧
        (|p - q| ≤ |q| / 10 ^ 9 + 2 ^ (-1074 : ℤ) ∨ 2 ^ (1023 : ℤ) < |q| ∧ p = 0)
    | _ => p = 0

theorem pow_places_le {k : ℕ} (hk : k ≤ 300) : (10 : ℚ) ^ k ≤ 2 ^ (1000 : ℤ) := by
  calc (10 : ℚ) ^ k ≤ 10 ^ 300 := pow_le_pow_right₀ (by norm_num) hk
    _ = (10 ^ 3) ^ 100 := by rw [← pow_mul]
    _ ≤ (2 ^ 10) ^ 100 := pow_le_pow_left₀ (by norm_num) (by norm_num) _
    _ = 2 ^ (1000 : ℤ) := by
        rw [← pow_mul]
        exact (zpow_natCast 2 1000).symm

theorem IsShortDecimal.le_abs {q : ℚ} (h : IsShortDecimal q) (hne : q ≠ 0) :
    2 ^ (-1000 : ℤ) ≤ |q| := by
  obtain ⟨z, k, -, hk, rfl⟩ := h
  have hPlaces : (0 : ℚ) < 10 ^ k := by positivity
  have hz : (1 : ℚ) ≤ |(z : ℚ)| := by
    have hInt : z ≠ 0 := fun h => hne (by simp [h])
    exact_mod_cast Int.one_le_abs hInt
  rw [abs_div, abs_of_pos hPlaces, zpow_neg, ← one_div]
  exact div_le_div₀ (abs_nonneg _) hz hPlaces (pow_places_le hk)

/-- A short decimal near an integer is that integer. -/
theorem Double.Follows.eq_of_int {n : ℤ} {q : ℚ} (h : (Double.finite n).Follows (.rat q))
    (hShort : IsShortDecimal q) : (n : ℚ) = q := by
  rcases eq_or_ne q 0 with rfl | hne
  · have hSmall : |(n : ℚ) - 0| ≤ |(0 : ℚ)| / 2 ^ 49 + 2 ^ (-1075 : ℤ) := h
    have hTiny : (2 : ℚ) ^ (-1075 : ℤ) < 1 := zpow_lt_one_of_neg₀ (by norm_num) (by norm_num)
    rw [sub_zero, abs_zero, zero_div, zero_add] at hSmall
    have hLess : |(n : ℚ)| < 1 := hSmall.trans_lt hTiny
    have hInt : |n| < 1 := by exact_mod_cast hLess
    rw [Int.abs_lt_one_iff.mp hInt, Int.cast_zero]
  · have hClose := h.close (hShort.le_abs hne)
    obtain ⟨z, k, hz, -, rfl⟩ := hShort
    have hPlaces : (0 : ℚ) < 10 ^ k := by positivity
    -- both are numbers of units of the last place, less than one unit apart
    have hDigits : |(z : ℚ)| ≤ 10 ^ 10 := by exact_mod_cast hz.le
    have hTriangle := abs_sub_abs_le_abs_sub (n : ℚ) (z / 10 ^ k)
    rw [abs_div, abs_of_pos hPlaces] at hTriangle
    have hSize : |(n : ℚ)| ≤ 2 * (|(z : ℚ)| / 10 ^ k) := by linarith [abs_nonneg (n : ℚ)]
    have hApart : |(n : ℚ) * 10 ^ k - z| < 1 := by
      have hScale : (n : ℚ) * 10 ^ k - z = (n - z / 10 ^ k) * 10 ^ k := by field_simp
      rw [hScale, abs_mul, abs_of_pos hPlaces]
      calc |(n : ℚ) - z / 10 ^ k| * 10 ^ k ≤ |(n : ℚ)| / 2 ^ 47 * 10 ^ k := by gcongr
        _ ≤ 2 * (|(z : ℚ)| / 10 ^ k) / 2 ^ 47 * 10 ^ k := by gcongr
        _ = |(z : ℚ)| / 2 ^ 46 := by field_simp
        _ ≤ 10 ^ 10 / 2 ^ 46 := by gcongr
        _ < 1 := by norm_num
    have hUnits : n * 10 ^ k = z := by
      have hInt : |n * 10 ^ k - z| < 1 := by exact_mod_cast hApart
      exact sub_eq_zero.mp (Int.abs_lt_one_iff.mp hInt)
    rw [eq_div_iff hPlaces.ne', ← hUnits]
    push_cast
    rfl

theorem IsShortDecimal.abs_le {q : ℚ} (h : IsShortDecimal q) : |q| ≤ 2 ^ (1023 : ℤ) := by
  obtain ⟨z, k, hz, -, rfl⟩ := h
  have hDigits : |(z : ℚ)| ≤ 10 ^ 10 := by exact_mod_cast hz.le
  have hPlaces : (1 : ℚ) ≤ 10 ^ k := one_le_pow₀ (by norm_num)
  rw [abs_div, abs_of_pos (by positivity : (0 : ℚ) < 10 ^ k)]
  calc |(z : ℚ)| / 10 ^ k ≤ |(z : ℚ)| := div_le_self (abs_nonneg _) hPlaces
    _ ≤ 10 ^ 10 := hDigits
    _ ≤ (2 : ℚ) ^ (34 : ℤ) := by norm_num
    _ ≤ 2 ^ (1023 : ℤ) := zpow_le_zpow_right₀ (by norm_num) (by norm_num)

/-- Ten digits are enough for a short decimal. -/
theorem scanFloat_fmtVal_of_short {d q : ℚ} (hv : (Double.finite d).IsValue)
    (h : (Double.finite d).Follows (.rat q)) (hShort : IsShortDecimal q) :
    scanFloat (fmtVal cPrintf 64 (.finite d)) = some (.rat q, []) := by
  by_cases hPlain : IsPlainInteger d
  · have hInt : (Double.finite (⌊d⌋ : ℤ)).Follows (.rat q) := by rwa [← hPlain.1]
    rw [scanFloat_fmtVal_plain hPlain, hPlain.1, Double.Follows.eq_of_int hInt hShort]
  · have hd : d ≠ 0 := by
      rintro rfl
      exact hPlain ⟨by simp, by simp⟩
    have hq : q ≠ 0 := by
      rintro rfl
      have hSmall : |d - 0| ≤ |(0 : ℚ)| / 2 ^ 49 + 2 ^ (-1075 : ℤ) := h
      rw [sub_zero, abs_zero, zero_div, zero_add] at hSmall
      exact hd (hv.1.eq_zero (hSmall.trans_lt (zpow_lt_zpow_right₀ (by norm_num) (by norm_num))))
    have hClose := h.close (hShort.le_abs hq)
    obtain ⟨z, k, hz, -, rfl⟩ := hShort
    have hTenth : |d - z / 10 ^ k| ≤ |d| / 10 ^ 10 / 4 := by linarith [abs_nonneg d]
    have hText := scanFloat_generalText_of_close (by norm_num : 0 < 10) hd hz hTenth
      endsNumber_nil
    rwa [List.append_nil, ← fmtVal_of_not_plain hv hPlain] at hText

/-- Half a unit of the tenth digit and the error of the value. -/
theorem abs_sub_le_of_follows {d p q : ℚ} (h : (Double.finite d).Follows (.rat q))
    (hNear : |p - d| ≤ |d| * (10 ^ (-9 : ℤ) / 2)) :
    |p - q| ≤ |q| / 10 ^ 9 + 2 ^ (-1074 : ℤ) := by
  have hError : |d - q| ≤ |q| / 2 ^ 49 + 2 ^ (-1075 : ℤ) := h
  have hHalf : (2 : ℚ) ^ (-1074 : ℤ) = 2 * 2 ^ (-1075 : ℤ) := by
    rw [← zpow_one_add₀ (by norm_num)]
    norm_num
  have hSum := abs_sub_le p d q
  have hSize := abs_sub_abs_le_abs_sub d q
  have hPos : (0 : ℚ) < 2 ^ (-1075 : ℤ) := by positivity
  have hRelative : |p - d| ≤ |d| / (2 * 10 ^ 9) := by
    refine hNear.trans (le_of_eq ?_)
    rw [zpow_neg, ← one_div]
    norm_num
    ring
  rw [hHalf]
  linarith [abs_nonneg q]

/-- `fmt_val` shows what the value follows. -/
theorem shows_fmtVal {v : Double} {x : Scanned} (hv : v.IsValue) (h : v.Follows x) :
    Shows x (fmtVal cPrintf 64 v) := by
  have hExposes := exposes_fmtVal hv
  cases v with
  | finite d =>
      obtain ⟨p, hScan, hNear, -⟩ := hExposes
      cases x with
      | rat q =>
          refine ⟨p, hScan, fun hShort => ?_, Or.inl (abs_sub_le_of_follows h hNear)⟩
          have hExact := scanFloat_fmtVal_of_short hv h hShort
          rw [hScan] at hExact
          simpa using hExact
      | inf negative => exact h.elim
      | nan => exact h.elim
  | inf negative =>
      -- an infinity of the text, or an overflow
      cases x with
      | rat q =>
          refine ⟨0, hExposes, fun hShort => ?_, Or.inr ⟨h.1, rfl⟩⟩
          exact absurd hShort.abs_le (not_le.mpr h.1)
      | inf negative' => exact ⟨0, hExposes, rfl⟩
      | nan => exact h.elim
  | nan =>
      cases x with
      | nan => exact ⟨0, hExposes, rfl⟩
      | rat q => exact h.elim
      | inf negative => exact h.elim

/-! ## Samples -/

/-- What an exact metric says about its samples: family, labels and number. -/
def exactSamples (x : Metric Scanned) : List (Bytes × List (Bytes × Bytes) × Scanned) :=
  match findRule x.plugin x.type with
  | none => []
  | some r =>
      (List.range (min x.dsCount metricMaxDs).toNat).map fun di =>
        (r.family, ruleLabels r x di, x.values.getD di (.rat 0))

/-- A sample of the exposition tells what an exact one says. -/
def Tells (s : Bytes × Exposition.Sample) (e : Bytes × List (Bytes × Bytes) × Scanned) : Prop :=
  s.1 = e.1 ∧ s.2.labels = e.2.1 ∧ Shows e.2.2 s.2.value

theorem tells_metricSamples {src : Sources} {st : CpuState} {r : Reader} {m : Metric Double}
    {x : Metric Scanned} (hRead : m ∈ (r.read src st : CpuState × ReadResult Double).2.metrics)
    (h : m.Follows x) : List.Forall₂ Tells (metricSamples cPrintf m) (exactSamples x) := by
  have hShape := shape_of_mem_read hRead
  have hValues := isValue_of_mem_read hRead
  have hCount := length_values_of_shape hShape
  obtain ⟨rule, hRule, -⟩ := rule_of_kind (kind_of_shape hShape)
  unfold metricSamples exactSamples
  rw [← h.plugin, ← h.type, ← h.dsCount, hRule]
  simp only
  rw [List.forall₂_map_left_iff, List.forall₂_map_right_iff, List.forall₂_same]
  intro di hdi
  have hLeft : di < m.values.length := by
    have hRange := List.mem_range.mp hdi
    omega
  have hRight : di < x.values.length := h.values.length_eq ▸ hLeft
  refine ⟨rfl, ?_, ?_⟩
  · simp only [ruleLabels, h.pluginInstance, h.typeInstance]
  · simp only [List.getD_eq_getElem?_getD, List.getElem?_eq_getElem hLeft,
      List.getElem?_eq_getElem hRight, Option.getD_some]
    exact shows_fmtVal (hValues _ (List.getElem_mem hLeft)) (h.values.get hLeft hRight)

/-! ## Cycles -/

section Lists

variable {α β : Type} {R : α → β → Prop}

theorem forall₂_getLastD {batches : List (List α)} {exact : List (List β)}
    (h : List.Forall₂ (List.Forall₂ R) batches exact) :
    List.Forall₂ R (batches.getLastD []) (exact.getLastD []) := by
  induction h with
  | nil => exact .nil
  | cons hFirst hRest ih =>
      cases hRest with
      | nil => exact hFirst
      | cons => exact ih

/-- What is left out on one side is left out on the other. -/
theorem exists_sublist_forall₂ {part whole : List α}
    {exact : List β} (hPart : part.Sublist whole) (h : List.Forall₂ R whole exact) :
    ∃ exactPart : List β, exactPart.Sublist exact ∧ List.Forall₂ R part exactPart := by
  induction hPart generalizing exact with
  | slnil => exact ⟨[], List.nil_sublist _, .nil⟩
  | cons a _ ih =>
      cases h with
      | cons _ hRest =>
          obtain ⟨exactPart, hSub, hPart⟩ := ih hRest
          exact ⟨exactPart, hSub.cons _, hPart⟩
  | cons_cons a _ ih =>
      cases h with
      | cons hFirst hRest =>
          obtain ⟨exactPart, hSub, hPart⟩ := ih hRest
          exact ⟨_, hSub.cons_cons _, .cons hFirst hPart⟩

end Lists

namespace Loop

theorem follows_collectCycles (enabled : List Reader) (history : List (Reader → Sources))
    {st : CpuState} (hFit : ∀ srcs ∈ history, ∀ r ∈ enabled, r.NumbersFit (srcs r))
    (h : st.Fits) :
    List.Forall₂ (List.Forall₂ Metric.Follows) (collectCycles enabled st history).2
      (collectCycles enabled st history).2 := by
  induction history generalizing st with
  | nil => exact .nil
  | cons srcs history ih =>
      obtain ⟨hFirst, hLater⟩ := List.forall_mem_cons.mp hFit
      obtain ⟨hState, hAfter, hMetrics⟩ := follows_collectCycle srcs enabled hFirst h
      simp only [collectCycles, hState]
      exact .cons hMetrics (ih hLater hAfter)

/-- **Rounding stays small.**  Whichever readers are enabled and whatever the files hold from
cycle to cycle, as long as the readers' integers hold their sums, every cycle in double
arithmetic emits the metrics of the same cycle in exact arithmetic, in the same order, and
each value follows its exact counterpart. -/
theorem cycles_follow_exact_arithmetic (enabled : List Reader)
    (history : List (Reader → Sources))
    (hFit : ∀ srcs ∈ history, ∀ r ∈ enabled, r.NumbersFit (srcs r)) :
    List.Forall₂ (List.Forall₂ Metric.Follows)
      (collectCycles enabled CpuState.initial history : CpuState × List (List (Metric Double))).2
      (collectCycles enabled CpuState.initial history :
        CpuState × List (List (Metric Scanned))).2 :=
  follows_collectCycles enabled history hFit CpuState.initial_fits

/-- The samples of `tests/test_cpu.c`, cycle by cycle. -/
theorem fixtureStats_follow_exact_arithmetic :
    List.Forall₂ (List.Forall₂ Metric.Follows)
      (collectCycles [.cpu] CpuState.initial (fixtureStats.map fun src _ => src) :
        CpuState × List (List (Metric Double))).2
      (collectCycles [.cpu] CpuState.initial (fixtureStats.map fun src _ => src) :
        CpuState × List (List (Metric Scanned))).2 := by
  refine cycles_follow_exact_arithmetic [.cpu] (fixtureStats.map fun src _ => src) ?_
  intro srcs hSrcs r hr
  obtain ⟨src, hSrc, rfl⟩ := List.mem_map.mp hSrcs
  obtain rfl := List.mem_singleton.mp hr
  intro fields hFields
  have hMem : fields ∈ cpuSamples procBase fixtureStats := mem_cpuSamples.mpr ⟨src, hSrc, hFields⟩
  rw [procBase, fixtureStats_samples] at hMem
  simp only [List.mem_cons, List.not_mem_nil, or_false] at hMem
  rcases hMem with rfl | rfl <;> exact ⟨by decide, by decide⟩

theorem follows_lastBatch (setup : Setup) {history : List (Reader → Sources)}
    (hFit : ∀ srcs ∈ history, ∀ r ∈ setup.enabled, r.NumbersFit (srcs r)) :
    List.Forall₂ Metric.Follows (lastBatch setup history) (lastBatch setup history) :=
  forall₂_getLastD (follows_collectCycles setup.enabled history hFit CpuState.initial_fits)

end Loop

namespace Daemon

open Loop

/-- The numbers in the files that the readers have seen fit the readers' integers. -/
def NumbersFit (setup : Setup) (trace : List (Daemon.Move Double)) : Prop :=
  ∀ src, .read src ∈ collectorTrace trace → ∀ r ∈ setup.enabled, r.NumbersFit src

/-- The reads of the complete cycles are among those of the trace. -/
theorem numbersFit_history {setup : Setup} {trace : List (Daemon.Move Double)}
    {history : List (Reader → Sources)} {more : List Sources} (hFit : NumbersFit setup trace)
    (hReads : readTrace (collectorTrace trace) =
      history.flatMap (fun srcs => setup.enabled.map srcs) ++ more) :
    ∀ srcs ∈ history, ∀ r ∈ setup.enabled, r.NumbersFit (srcs r) := by
  intro srcs hSrcs r hr
  refine hFit (srcs r) (mem_readTrace.mp ?_) r hr
  rw [hReads]
  exact List.mem_append_left _ (List.mem_flatMap.mpr ⟨srcs, hSrcs, List.mem_map_of_mem hr⟩)

/-- **The kernel's numbers reach the client.**  If the readers' integers hold what they sum up,
no allocation of the HTTP thread fails and the socket does not fail, the samples that a client
of `/metrics` reads are those of the last complete cycle in exact arithmetic, as far as the
snapshot kept it: the same families and labels, and a number for each value that is equal to
it if it is a decimal of ten digits and within a relative distance of 10⁻⁹ if not, or zero
where the value is infinite, no number or beyond 2^1023. -/
theorem client_reads_exact_numbers {o : Oracle} {qsort : Qsort} {setup : Setup}
    {files : Bytes → Store} {clock : Int} {started : Option Nat} {log : List (HandleEvent Handle)}
    {s : Daemon.State Double} (ho : o.Succeeds) (hSort : SortsFamilies qsort)
    {before after : List (Daemon.Move Double)} {k : Nat} {chunks : List Bytes}
    {outcomes : List SendOutcome} {written : Bytes}
    (hRun : Lib.run (Daemon.step o cPrintf qsort setup) (boot files clock started log)
      (before ++ .listener (.serve k chunks outcomes written) :: after) = some s)
    (hFit : NumbersFit setup before) (hAsks : AsksForMetrics chunks)
    (hProgress : ∀ x ∈ outcomes, x.Progress) :
    ∃ (history : List (Reader → Sources)) (done : List Reader) (srcs : Reader → Sources)
      (exact : List (Metric Scanned)) (blocks : List Exposition.Block)
      (samples : List (Bytes × Exposition.Sample)),
      readTrace (collectorTrace before) =
        history.flatMap (fun srcs => setup.enabled.map srcs) ++ done.map srcs ∧
      exact.Sublist (lastBatch setup history) ∧
      ((latestCycle (snapTrace (collectorTrace before))).failed = false →
        exact = lastBatch setup history) ∧
      Loop.scrape written = some blocks ∧
      (blockSamples blocks).Perm samples ∧
      List.Forall₂ Tells samples (exact.flatMap exactSamples) := by
  obtain ⟨history, done, srcs, seen, blocks, hReads, hSeen, hAll, hScrape, hSamples⟩ :=
    scrape_of_run ho hSort hRun hAsks hProgress
  have hBatch := follows_lastBatch setup (numbersFit_history hFit hReads)
  obtain ⟨exact, hExact, hFollows⟩ := exists_sublist_forall₂ hSeen hBatch
  refine ⟨history, done, srcs, exact, blocks, _, hReads, hExact, fun hComplete => ?_, hScrape,
    hSamples, ?_⟩
  · have hLength := hFollows.length_eq
    rw [hAll hComplete, hBatch.length_eq] at hLength
    exact hExact.eq_of_length hLength.symm
  · have hEmitted := (List.forall₂_and_left seen exact).mpr
      ⟨fun m hm => emitted_of_mem_lastBatch (hSeen.subset hm), hFollows⟩
    refine List.rel_flatMap hEmitted ?_
    rintro m x ⟨⟨r, src, st, hRead⟩, hm⟩
    exact tells_metricSamples hRead hm

theorem numbersFit_untilConnection : NumbersFit swapSetup untilConnection := by
  intro src hSrc r hr
  have hSwap : src = swapSources := by
    simpa [collectorTrace, untilConnection, swapTrace, emitMoves] using hSrc
  obtain rfl := List.mem_singleton.mp hr
  subst hSwap
  intro content hFile
  have hContent : swapSources.file (procPath procBase "/meminfo") =
      some (ascii "SwapTotal: 4 kB\nSwapFree: 1 kB\n") := by decide
  obtain rfl := Option.some.inj (hContent.symm.trans hFile)
  exact fun _ => ⟨by decide, by decide⟩

theorem swap_bytes_are_read :
    ∃ outcomes written s blocks,
      Lib.run (Daemon.step (filledMemory 0) cPrintf stableQsort swapSetup)
        (boot (fun _ => ⟨none, []⟩) 5 (some 4) []) (untilConnection ++
          [.listener (.serve 0 metricsRequest outcomes written)]) = some s ∧
      Loop.scrape written = some blocks ∧
      ∃ (exact : List (Metric Scanned)) (samples : List (Bytes × Exposition.Sample)),
        (blockSamples blocks).Perm samples ∧
        List.Forall₂ Tells samples (exact.flatMap exactSamples) := by
  have hAsks : AsksForMetrics metricsRequest := by decide
  obtain ⟨s, hRun, hListener⟩ := printedConnection_runs
  obtain ⟨outcomes, written, s', hProgress, hWhole⟩ := exists_serve hRun hListener hAsks
  obtain ⟨-, -, -, exact, blocks, samples, -, -, -, hScrape, hSamples, hTells⟩ :=
    client_reads_exact_numbers (filledMemory_succeeds 0) stableQsort_sorts hWhole
      numbersFit_untilConnection hAsks hProgress
  exact ⟨outcomes, written, s', blocks, hWhole, hScrape, exact, samples, hSamples, hTells⟩

end Daemon

end SvgdCollect
