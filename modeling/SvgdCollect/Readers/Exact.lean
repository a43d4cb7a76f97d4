import Mathlib.Data.List.Forall2
import SvgdCollect.Lib.Accuracy
import SvgdCollect.Readers.Cpu
import SvgdCollect.Writer.Values

/-!
# The readers in exact arithmetic

The readers are written for any arithmetic with the operations of C's `double`.  In exact
arithmetic they say what the files say; over doubles they emit the same metrics in the same
order, and each value follows its exact counterpart.  The sums and differences in front of
the doubles are those of C's integers, which have to hold them.
-/

namespace SvgdCollect

open Lib

/-- The same series, with values that follow the exact ones. -/
structure Metric.Follows (m : Metric Double) (x : Metric Scanned) : Prop where
  plugin : m.plugin = x.plugin
  pluginInstance : m.pluginInstance = x.pluginInstance
  type : m.type = x.type
  typeInstance : m.typeInstance = x.typeInstance
  dsCount : m.dsCount = x.dsCount
  values : List.Forall₂ Double.Follows m.values x.values

structure ReadResult.Follows (result : ReadResult Double) (exact : ReadResult Scanned) : Prop where
  rc : result.rc = exact.rc
  metrics : List.Forall₂ Metric.Follows result.metrics exact.metrics

theorem ReadResult.follows_fail : (ReadResult.fail : ReadResult Double).Follows .fail :=
  ⟨rfl, .nil⟩

theorem ReadResult.follows_ok {ms : List (Metric Double)} {xs : List (Metric Scanned)}
    (h : List.Forall₂ Metric.Follows ms xs) : (ReadResult.ok ms).Follows (.ok xs) :=
  ⟨rfl, h⟩

/-! ## Sums in C's integer types -/

def FitsLong (n : Int) : Prop := -2 ^ 63 ≤ n ∧ n < 2 ^ 63

/-- The sums, differences and counts that the reader forms of what the files say fit the
`long` or `int` that it keeps them in.  What happens otherwise C leaves open. -/
def Reader.NumbersFit (src : Sources) : Reader → Prop
  | .cpu => ∀ fields, cpuSample procBase src = some fields → IsCpuCounters fields
  | .memory => ∀ content, src.file (procPath procBase "/meminfo") = some content →
      let total := meminfoLast "MemTotal:" (-1) content
      let free := meminfoLast "MemFree:" 0 content
      let buffers := meminfoLast "Buffers:" 0 content
      let cached := meminfoLast "Cached:" 0 content
      0 < total → FitsLong (total - free) ∧ FitsLong (total - free - buffers) ∧
        FitsLong (total - free - buffers - cached)
  | .swap => ∀ content, src.file (procPath procBase "/meminfo") = some content →
      let total := meminfoLast "SwapTotal:" (-1) content
      0 < total → FitsLong (total - meminfoLast "SwapFree:" 0 content)
  | .processes => ∀ names, src.dir procBase = some names → names.length < 2 ^ 31 ∧
      ((pidSamples src procBase names).map fun s => s.threads.natAbs).sum < 2 ^ 31
  -- both readers number the lines
  | .interface => ∀ content, src.file (procPath procBase "/net/dev") = some content →
      (fgetsLines 512 content).length < 2 ^ 31
  | .tcpconns => ∀ path ∈ ["/net/tcp", "/net/tcp6"], ∀ content,
      src.file (procPath procBase path) = some content →
        (fgetsLines 512 content).length < 2 ^ 31
  | _ => True

theorem FitsLong.abs_bound {n : Int} (h : FitsLong n) : |n| ≤ 2 ^ 63 := abs_le.mpr ⟨h.1, h.2.le⟩

section Lists

variable {α : Type} {l : List α}

/-- What is emitted for each element of one list. -/
theorem forall₂_flatMap {f : α → List (Metric Double)} {g : α → List (Metric Scanned)}
    (h : ∀ a ∈ l, List.Forall₂ Metric.Follows (f a) (g a)) :
    List.Forall₂ Metric.Follows (l.flatMap f) (l.flatMap g) := by
  have hSelf : List.Forall₂ (fun a b => a = b ∧ a ∈ l) l l :=
    List.forall₂_same.mpr fun a ha => ⟨rfl, ha⟩
  refine List.rel_flatMap hSelf ?_
  rintro a b ⟨rfl, ha⟩
  exact h a ha

theorem forall₂_filterMap {f : α → Option (Metric Double)} {g : α → Option (Metric Scanned)}
    (h : ∀ a ∈ l, Option.Rel Metric.Follows (f a) (g a)) :
    List.Forall₂ Metric.Follows (l.filterMap f) (l.filterMap g) := by
  have hSelf : List.Forall₂ (fun a b => a = b ∧ a ∈ l) l l :=
    List.forall₂_same.mpr fun a ha => ⟨rfl, ha⟩
  refine List.rel_filterMap ?_ hSelf
  rintro a b ⟨rfl, ha⟩
  exact h a ha

end Lists

/-! ## Arithmetic of the readers -/

theorem within_ofInt {z : ℤ} (h : |z| ≤ 2 ^ 200) : (CDouble.ofInt z : Double).Within 2 z :=
  Double.within_ofRat (isModerate_of_int h)

/-- `(double)z * 512.0` and `(double)z * 1024.0`. -/
theorem follows_mul {z n : ℤ} (hz : |z| ≤ 2 ^ 100) (hn : |n| ≤ 2 ^ 100) :
    (CDouble.mul (CDouble.ofInt z) (CDouble.ofInt n) : Double).Follows
      (CDouble.mul (CDouble.ofInt z) (CDouble.ofInt n)) := by
  have hProduct : |z * n| ≤ 2 ^ 200 := by
    rw [abs_mul]
    calc |z| * |n| ≤ 2 ^ 100 * 2 ^ 100 := mul_le_mul hz hn (abs_nonneg n) (by positivity)
      _ = 2 ^ 200 := by norm_num
  have hRange := isModerate_of_int hProduct
  rw [Int.cast_mul] at hRange
  exact ((within_ofInt (by omega)).mul (within_ofInt (by omega)) (by norm_num) (by norm_num)
    hRange).follows (by norm_num)

/-- `(double)z / 1000.0`. -/
theorem follows_div {z n : ℤ} (hz : |z| ≤ 2 ^ 100) (hn : |n| ≤ 2 ^ 100) (h0 : n ≠ 0) :
    (CDouble.div (CDouble.ofInt z) (CDouble.ofInt n) : Double).Follows
      (CDouble.div (CDouble.ofInt z) (CDouble.ofInt n)) := by
  have hRange := isModerate_div (by omega : |z| ≤ 2 ^ 200) (by omega : |n| ≤ 2 ^ 200) h0
  have hn0 : (n : ℚ) ≠ 0 := by exact_mod_cast h0
  have hExact : CDouble.div (CDouble.ofInt z) (CDouble.ofInt n) = Scanned.rat (z / n) :=
    Scanned.div_rat z hn0
  rw [hExact]
  exact ((within_ofInt (by omega)).div (within_ofInt (by omega)) (by norm_num) (by norm_num)
    hn0 hRange).follows (by norm_num)

theorem follows_percentOf {part whole : ℤ} (hPart : |part| ≤ 2 ^ 100) (hWhole : |whole| ≤ 2 ^ 100)
    (h0 : whole ≠ 0) : (percentOf part whole : Double).Follows (percentOf part whole) := by
  have hProduct : |100 * part| ≤ 2 ^ 200 := by
    rw [abs_mul, abs_of_pos (by norm_num : (0 : ℤ) < 100)]
    omega
  have hMoment := isModerate_of_int hProduct
  have hRange := isModerate_div hProduct (by omega : |whole| ≤ 2 ^ 200) h0
  rw [Int.cast_mul] at hMoment hRange
  have hWhole0 : (whole : ℚ) ≠ 0 := by exact_mod_cast h0
  have hNumerator := (within_ofInt (z := 100) (by norm_num)).mul (within_ofInt (by omega))
    (by norm_num) (by norm_num) hMoment
  have hExact : percentOf part whole = Scanned.rat ((100 : ℤ) * part / whole) :=
    Scanned.div_rat _ hWhole0
  rw [hExact]
  exact (hNumerator.div (within_ofInt (by omega)) (by norm_num) (by norm_num)
    hWhole0 hRange).follows (by norm_num)

/-! ## Readers of totals -/

section Readers

variable {src : Sources} {base : Bytes}

theorem follows_loadRead : (loadRead src base : ReadResult Double).Follows (loadRead src base) := by
  unfold loadRead
  cases src.file (procPath base "/loadavg") with
  | none => exact ReadResult.follows_fail
  | some content =>
      simp only
      rcases reals (sscanf [.float, .space, .float, .space, .float] content) with
        _ | ⟨one, _ | ⟨five, _ | ⟨fifteen, _ | ⟨more, rest⟩⟩⟩⟩
      case cons.cons.cons.nil =>
        have hFollows := Double.follows_toDouble
        exact ReadResult.follows_ok (.cons ⟨rfl, rfl, rfl, rfl, rfl,
          .cons (hFollows one) (.cons (hFollows five) (.cons (hFollows fifteen) .nil))⟩ .nil)
      all_goals exact ReadResult.follows_fail

theorem follows_uptimeRead :
    (uptimeRead src base : ReadResult Double).Follows (uptimeRead src base) := by
  unfold uptimeRead
  cases src.file (procPath base "/uptime") with
  | none => exact ReadResult.follows_fail
  | some content =>
      simp only
      rcases reals (sscanf [.float] content) with _ | ⟨up, _ | ⟨more, rest⟩⟩
      case cons.nil =>
        exact ReadResult.follows_ok (.cons ⟨rfl, rfl, rfl, rfl, rfl,
          .cons (Double.follows_toDouble up) .nil⟩ .nil)
      all_goals exact ReadResult.follows_fail

/-- `%ld` or what the variable was initialized with. -/
theorem abs_meminfoLast_le {key : String} {dflt : Int} {content : Bytes} (h : |dflt| ≤ 2 ^ 63) :
    |meminfoLast key dflt content| ≤ 2 ^ 63 := by
  unfold meminfoLast
  rw [List.getLastD_eq_getLast?]
  cases hLast : ((fgetsLines 256 content).filterMap (meminfoValue key)).getLast? with
  | none => exact h
  | some v =>
      obtain ⟨line, -, hValue⟩ := List.mem_filterMap.mp (List.mem_of_mem_getLast? hLast)
      unfold meminfoValue at hValue
      split at hValue
      · split at hValue
        · rename_i w hNums
          obtain rfl := Option.some.inj hValue
          exact abs_le_of_mem_nums_sscanf (by simp) (hNums ▸ List.mem_singleton_self w)
        · cases hValue
      · cases hValue

theorem follows_memoryRead (hFit : Reader.memory.NumbersFit src) :
    (memoryRead src procBase : ReadResult Double).Follows (memoryRead src procBase) := by
  unfold memoryRead
  cases hFile : src.file (procPath procBase "/meminfo") with
  | none => exact ReadResult.follows_fail
  | some content =>
      have hTotal : |meminfoLast "MemTotal:" (-1) content| ≤ 2 ^ 63 :=
        abs_meminfoLast_le (by norm_num)
      have hPart : ∀ key, |meminfoLast key 0 content| ≤ 2 ^ 63 := fun key =>
        abs_meminfoLast_le (by norm_num)
      have hUsed := hFit content hFile
      have hBuffers := hPart "Buffers:"
      have hCached := hPart "Cached:"
      simp only at hUsed ⊢
      generalize meminfoLast "MemTotal:" (-1) content = total at *
      generalize meminfoLast "MemFree:" 0 content = free at *
      generalize meminfoLast "Buffers:" 0 content = buffers at *
      generalize meminfoLast "Cached:" 0 content = cached at *
      split
      · exact ReadResult.follows_fail
      · rename_i hPositive
        have hShare : ∀ {part : ℤ}, |part| ≤ 2 ^ 63 →
            (percentOf part total : Double).Follows (percentOf part total) := by
          intro part h
          exact follows_percentOf (by omega) (by omega) (by omega)
        obtain ⟨-, -, hUsed⟩ := hUsed (by omega)
        exact ReadResult.follows_ok (.cons
          ⟨rfl, rfl, rfl, rfl, rfl, .cons (hShare hUsed.abs_bound) .nil⟩ (.cons
          ⟨rfl, rfl, rfl, rfl, rfl, .cons (hShare hCached) .nil⟩ (.cons
          ⟨rfl, rfl, rfl, rfl, rfl, .cons (hShare hBuffers) .nil⟩ .nil)))

theorem follows_swapRead (hFit : Reader.swap.NumbersFit src) :
    (swapRead src procBase : ReadResult Double).Follows (swapRead src procBase) := by
  unfold swapRead
  cases hFile : src.file (procPath procBase "/meminfo") with
  | none => exact ReadResult.follows_fail
  | some content =>
      have hFree : |meminfoLast "SwapFree:" 0 content| ≤ 2 ^ 63 :=
        abs_meminfoLast_le (by norm_num)
      have hUsed := hFit content hFile
      simp only at hUsed ⊢
      generalize meminfoLast "SwapTotal:" (-1) content = total at *
      generalize meminfoLast "SwapFree:" 0 content = free at *
      split
      · exact ReadResult.follows_fail
      · have hDifference := (hUsed (by omega)).abs_bound
        exact ReadResult.follows_ok (.cons
          ⟨rfl, rfl, rfl, rfl, rfl, .cons (follows_mul (by omega) (by norm_num)) .nil⟩ (.cons
          ⟨rfl, rfl, rfl, rfl, rfl, .cons (follows_mul (by omega) (by norm_num)) .nil⟩ .nil))

theorem follows_tcpconnsRead :
    (tcpconnsRead src base : ReadResult Double).Follows (tcpconnsRead src base) := by
  unfold tcpconnsRead
  simp only
  split
  · exact ReadResult.follows_fail
  · refine ReadResult.follows_ok (forall₂_filterMap fun p _ => ?_)
    split
    · exact .none
    · exact .some ⟨rfl, rfl, rfl, rfl, rfl, .cons (Double.follows_ofInt _) .nil⟩

/-! ## Readers of devices -/

theorem follows_interfaceRead :
    (interfaceRead src base : ReadResult Double).Follows (interfaceRead src base) := by
  unfold interfaceRead
  cases src.file (procPath base "/net/dev") with
  | none => exact ReadResult.follows_fail
  | some content =>
      refine ReadResult.follows_ok (forall₂_flatMap fun p _ => ?_)
      have hPair : ∀ {type : String} {rx tx : Int},
          (interfaceMetric p.1 type rx tx : Metric Double).Follows
            (interfaceMetric p.1 type rx tx) := fun {_ _ _} =>
        ⟨rfl, rfl, rfl, rfl, rfl,
          .cons (Double.follows_ofInt _) (.cons (Double.follows_ofInt _) .nil)⟩
      exact .cons hPair (.cons hPair (.cons hPair .nil))

theorem follows_diskRead : (diskRead src base : ReadResult Double).Follows (diskRead src base) := by
  unfold diskRead
  cases src.file (procPath base "/diskstats") with
  | none => exact ReadResult.follows_fail
  | some content =>
      refine ReadResult.follows_ok (forall₂_flatMap fun p hp => ?_)
      obtain ⟨line, -, hLine⟩ := List.mem_filterMap.mp hp
      have hField : ∀ i, |p.2.getD (i - 1) 0| ≤ 2 ^ 63 := fun i =>
        abs_getD_le (abs_le_of_diskLine hLine) (i - 1)
      have hOctets : ∀ i, (CDouble.mul (CDouble.ofInt (p.2.getD (i - 1) 0))
          (CDouble.ofInt 512) : Double).Follows
            (CDouble.mul (CDouble.ofInt (p.2.getD (i - 1) 0)) (CDouble.ofInt 512)) := fun i =>
        follows_mul ((hField i).trans (by norm_num)) (by norm_num)
      have hCount : ∀ i, (CDouble.ofInt (p.2.getD (i - 1) 0) : Double).Follows
          (CDouble.ofInt (p.2.getD (i - 1) 0)) := fun i => Double.follows_ofInt _
      exact .cons ⟨rfl, rfl, rfl, rfl, rfl, .cons (hCount 1) (.cons (hCount 5) .nil)⟩ (.cons
        ⟨rfl, rfl, rfl, rfl, rfl, .cons (hOctets 3) (.cons (hOctets 7) .nil)⟩ (.cons
        ⟨rfl, rfl, rfl, rfl, rfl, .cons (hCount 4) (.cons (hCount 8) .nil)⟩ .nil))

theorem follows_dfRead : (dfRead src base : ReadResult Double).Follows (dfRead src base) := by
  unfold dfRead
  cases src.file (procPath base "/mounts") with
  | none => exact ReadResult.follows_fail
  | some content =>
      refine ReadResult.follows_ok (forall₂_flatMap fun p _ => ?_)
      have hOne : ∀ {name : String} {v : Nat},
          (dfMetric (mountToInstance p.1 256) name v : Metric Double).Follows
            (dfMetric (mountToInstance p.1 256) name v) := fun {_ _} =>
        ⟨rfl, rfl, rfl, rfl, rfl, .cons (Double.follows_ofInt _) .nil⟩
      exact .cons hOne (.cons hOne .nil)

theorem follows_processesRead :
    (processesRead src base : ReadResult Double).Follows (processesRead src base) := by
  unfold processesRead
  cases src.dir base with
  | none => exact ReadResult.follows_fail
  | some names =>
      refine ReadResult.follows_ok (forall₂_flatMap fun a _ => ?_)
      have hFollows := Double.follows_ofInt
      exact .cons ⟨rfl, rfl, rfl, rfl, rfl, .cons (hFollows _) .nil⟩ (.cons
        ⟨rfl, rfl, rfl, rfl, rfl, .cons (hFollows _) (.cons (hFollows _) .nil)⟩ (.cons
        ⟨rfl, rfl, rfl, rfl, rfl, .cons (hFollows _) (.cons (hFollows _) .nil)⟩ .nil))

theorem follows_thermalRead :
    (thermalRead src base : ReadResult Double).Follows (thermalRead src base) := by
  unfold thermalRead
  simp only
  cases src.dir (procPath (thermalBase base) "/class/thermal") with
  | none => exact ReadResult.follows_fail
  | some names =>
      refine ReadResult.follows_ok (forall₂_filterMap fun zone _ => ?_)
      unfold thermalZone
      split
      · exact .none
      · cases src.file (thermalPath (thermalBase base) zone "temp") with
        | none => exact .none
        | some content =>
            have hLong : ∀ t ∈ nums (sscanf [.int true] content), |t| ≤ 2 ^ 63 :=
              fun t ht => abs_le_of_mem_nums_sscanf (by simp) ht
            simp only
            generalize nums (sscanf [.int true] content) = longs at *
            rcases longs with _ | ⟨millideg, _ | ⟨more, rest⟩⟩
            case cons.nil =>
              have hBound := hLong millideg (List.mem_singleton_self millideg)
              exact .some ⟨rfl, rfl, rfl, rfl, rfl, .cons
                (follows_div (hBound.trans (by norm_num)) (by norm_num) (by norm_num)) .nil⟩
            all_goals exact .none

/-! ## cpu, and all readers -/

/-- What a sample of counters that fit leaves, or no sample. -/
def CpuState.Fits (st : CpuState) : Prop :=
  -1 ≤ st.prevBusy ∧ st.prevBusy < 2 ^ 63 ∧ -1 ≤ st.prevTotal ∧ st.prevTotal < 2 ^ 63

theorem CpuState.initial_fits : CpuState.initial.Fits := by
  simp [Fits, initial]

theorem CpuState.of_fits {fields : List Int} (hLength : 4 ≤ fields.length)
    (h : IsCpuCounters fields) : (CpuState.of fields).Fits := by
  have hBusy := cpuBusy_nonneg hLength h
  have hIdle := getD_nonneg h.nonneg 3
  have hIowait := getD_nonneg h.nonneg 4
  have hTotal : cpuTotal fields < 2 ^ 63 := h.sum_lt
  have hSplit : cpuBusy fields + cpuIdle fields = cpuTotal fields := by
    rw [cpuBusy, sub_add_cancel]
  unfold cpuIdle at hSplit
  simp only [Fits, CpuState.of]
  omega

variable {st : CpuState}

theorem follows_cpuRead (hFit : Reader.cpu.NumbersFit src) (h : st.Fits) :
    (cpuRead src procBase st : CpuState × ReadResult Double).1 =
        (cpuRead src procBase st : CpuState × ReadResult Scanned).1 ∧
      (cpuRead src procBase st : CpuState × ReadResult Scanned).1.Fits ∧
      (cpuRead src procBase st : CpuState × ReadResult Double).2.Follows
        (cpuRead src procBase st).2 := by
  cases hSample : cpuSample procBase src with
  | none =>
      rw [cpuRead_of_none hSample, cpuRead_of_none hSample]
      exact ⟨rfl, h, ReadResult.follows_fail⟩
  | some fields =>
      have hAfter := CpuState.of_fits (length_of_cpuSample hSample) (hFit fields hSample)
      rw [cpuRead_of_some hSample, cpuRead_of_some hSample]
      refine ⟨rfl, hAfter, ReadResult.follows_ok ?_⟩
      obtain ⟨hBusy, hBusyLt, hTotal, hTotalLt⟩ := hAfter
      obtain ⟨hPrevBusy, hPrevBusyLt, hPrevTotal, hPrevTotalLt⟩ := h
      simp only [CpuState.of] at hBusy hBusyLt hTotal hTotalLt
      split
      · rename_i hDelta
        -- both differences are taken of counters of an earlier sample
        have hPart : |cpuBusy fields - st.prevBusy| ≤ 2 ^ 100 := by
          rw [abs_le]
          omega
        have hWhole : |cpuTotal fields - st.prevTotal| ≤ 2 ^ 100 := by
          rw [abs_le]
          omega
        exact .cons ⟨rfl, rfl, rfl, rfl, rfl,
          .cons (follows_percentOf hPart hWhole (by omega)) .nil⟩ .nil
      · exact .nil

/-- Every reader. -/
theorem follows_read (r : Reader) (hFit : r.NumbersFit src) (h : st.Fits) :
    (r.read src st : CpuState × ReadResult Double).1 =
        (r.read src st : CpuState × ReadResult Scanned).1 ∧
      (r.read src st : CpuState × ReadResult Scanned).1.Fits ∧
      (r.read src st : CpuState × ReadResult Double).2.Follows (r.read src st).2 := by
  cases r with
  | cpu => exact follows_cpuRead hFit h
  | load => exact ⟨rfl, h, follows_loadRead⟩
  | uptime => exact ⟨rfl, h, follows_uptimeRead⟩
  | memory => exact ⟨rfl, h, follows_memoryRead hFit⟩
  | swap => exact ⟨rfl, h, follows_swapRead hFit⟩
  | interface => exact ⟨rfl, h, follows_interfaceRead⟩
  | disk => exact ⟨rfl, h, follows_diskRead⟩
  | df => exact ⟨rfl, h, follows_dfRead⟩
  | processes => exact ⟨rfl, h, follows_processesRead⟩
  | thermal => exact ⟨rfl, h, follows_thermalRead⟩
  | tcpconns => exact ⟨rfl, h, follows_tcpconnsRead⟩

end Readers

/-! ## Cycles -/

theorem follows_collectCycle (srcs : Reader → Sources) (enabled : List Reader) {st : CpuState}
    (hFit : ∀ r ∈ enabled, r.NumbersFit (srcs r)) (h : st.Fits) :
    (collectCycle srcs st enabled : CpuState × List (Metric Double)).1 =
        (collectCycle srcs st enabled : CpuState × List (Metric Scanned)).1 ∧
      (collectCycle srcs st enabled : CpuState × List (Metric Scanned)).1.Fits ∧
      List.Forall₂ Metric.Follows (collectCycle srcs st enabled).2
        (collectCycle srcs st enabled).2 := by
  induction enabled generalizing st with
  | nil => exact ⟨rfl, h, .nil⟩
  | cons r enabled ih =>
      obtain ⟨hFirst, hEnabled⟩ := List.forall_mem_cons.mp hFit
      obtain ⟨hState, hAfter, hResult⟩ := follows_read r hFirst h
      obtain ⟨hRest, hRestFits, hMetrics⟩ := ih hEnabled hAfter
      simp only [collectCycle, hState]
      exact ⟨hRest, hRestFits, List.rel_append hResult.metrics hMetrics⟩

end SvgdCollect
