import SvgdCollect.Readers.Counters

/-!
# Counters beyond the range of `long`

The kernel's counters are unsigned, and `%ld` reads them as signed: from 2^63 on the
reader has `LONG_MAX`, which is 2^63 as a `double`.  The nearest double of the counter
itself is 2^63 up to halfway to the next one.
-/

namespace SvgdCollect

open Lib

/-! ## Rounding at the limit -/

/-- The largest `long` is rounded up. -/
theorem roundDouble_long_max : roundDouble ((2 ^ 63 - 1 : ℤ) : ℚ) = 2 ^ 63 := by
  have hPlace : lastPlace ((2 ^ 63 - 1 : ℤ) : ℚ) = 10 :=
    @lastPlace_eq _ 62 (by norm_num) (by norm_num) (by norm_num)
  have hRound : roundHalfEven (((2 ^ 63 - 1 : ℤ) : ℚ) / 2 ^ (10 : ℤ)) = 2 ^ 53 := by
    apply roundHalfEven_of_near
    norm_num [abs_lt]
  rw [roundDouble, hPlace, hRound]
  norm_num

/-- The last number that is rounded down to 2^63, halfway to the next double. -/
theorem roundDouble_two_pow_63_tie : roundDouble (2 ^ 63 + 1024) = 2 ^ 63 := by
  have hPlace : lastPlace (2 ^ 63 + 1024) = 11 :=
    @lastPlace_eq _ 63 (by norm_num) (by norm_num) (by norm_num)
  have hTie : ((2 ^ 63 + 1024) / 2 ^ (11 : ℤ) : ℚ) = ((2 ^ 52 : ℤ) : ℚ) + 1 / 2 := by norm_num
  rw [roundDouble, hPlace, hTie, roundHalfEven_of_tie (by norm_num)]
  norm_num

theorem roundDouble_above_tie : roundDouble (2 ^ 63 + 1025) = 2 ^ 63 + 2048 := by
  have hPlace : lastPlace (2 ^ 63 + 1025) = 11 :=
    @lastPlace_eq _ 63 (by norm_num) (by norm_num) (by norm_num)
  have hRound : roundHalfEven ((2 ^ 63 + 1025) / 2 ^ (11 : ℤ) : ℚ) = 2 ^ 52 + 1 := by
    apply roundHalfEven_of_near
    norm_num [abs_lt]
  rw [roundDouble, hPlace, hRound]
  norm_num

/-- The largest counter that is converted as if it had been read unsigned. -/
def lastFaithful : Nat := 2 ^ 63 + 1024

theorem clampLong_natCast {n : Nat} : clampLong n = if n < 2 ^ 63 then (n : Int) else 2 ^ 63 - 1 := by
  unfold clampLong
  split <;> omega

/-- A clamped counter is rounded to 2^63 like those that are halfway to the next double
at most. -/
theorem roundDouble_clampLong {n : Nat} (h : n ≤ lastFaithful) :
    roundDouble (clampLong n) = roundDouble n := by
  rw [clampLong_natCast]
  split
  · rw [Int.cast_natCast]
  · rename_i hBig
    have hLow : roundDouble ((2 ^ 63 - 1 : ℤ) : ℚ) ≤ roundDouble n := by
      apply roundDouble_mono (by norm_num)
      have hLe : (2 ^ 63 - 1 : ℤ) ≤ n := by omega
      exact_mod_cast hLe
    have hHigh : roundDouble n ≤ roundDouble (2 ^ 63 + 1024) := by
      apply roundDouble_mono (by positivity)
      exact_mod_cast h
    rw [roundDouble_long_max] at hLow
    rw [roundDouble_two_pow_63_tie] at hHigh
    rw [roundDouble_long_max]
    exact le_antisymm hLow hHigh

/-- A larger counter is rounded to more than 2^63. -/
theorem lt_roundDouble_of_lastFaithful_lt {n : Nat} (h : lastFaithful < n) :
    roundDouble (clampLong n) = 2 ^ 63 ∧ 2 ^ 63 + 2048 ≤ roundDouble n := by
  have hBig : ¬ n < 2 ^ 63 := by
    unfold lastFaithful at h
    omega
  constructor
  · rw [clampLong_natCast, if_neg hBig]
    exact roundDouble_long_max
  · rw [← roundDouble_above_tie]
    apply roundDouble_mono (by norm_num)
    exact_mod_cast h

/-- Every counter is finite as a double. -/
theorem roundDouble_counter_le {n : Nat} (h : n < 2 ^ 64) : roundDouble n ≤ 2 ^ 64 := by
  have hTop : roundDouble (2 ^ 64) = 2 ^ 64 :=
    roundDouble_of_isDouble ⟨1, 64, by norm_num, by norm_num, by norm_num⟩
  rw [← hTop]
  apply roundDouble_mono (by positivity)
  exact_mod_cast h.le

/-! ## Conversions -/

/-- The nearest double of an unsigned counter. -/
def nearest (n : Nat) : Double := CDouble.ofRat n

/-- A number of sectors in bytes. -/
def nearestOctets (n : Nat) : Double := CDouble.mul (nearest n) (CDouble.ofInt 512)

/-- There is no overflow near the counters. -/
theorem ofRat_eq_finite {q : ℚ} (hPos : 0 ≤ q) (h : roundDouble q ≤ 2 ^ 80) :
    (CDouble.ofRat q : Double) = .finite (roundDouble q) := by
  apply if_pos
  rw [abs_of_nonneg (roundDouble_nonneg hPos)]
  exact lt_of_le_of_lt h (pow_lt_pow_right₀ (by norm_num) (by norm_num))

theorem nearest_eq {n : Nat} (h : n < 2 ^ 64) : nearest n = .finite (roundDouble n) :=
  ofRat_eq_finite (by positivity) ((roundDouble_counter_le h).trans (by norm_num))

theorem clampLong_nonneg (n : Nat) : (0 : ℚ) ≤ clampLong n := by
  have hInt : 0 ≤ clampLong n := by
    rw [clampLong_natCast]
    split <;> omega
  exact_mod_cast hInt

theorem ofInt_clampLong_of_lt {n : Nat} (h : lastFaithful < n) :
    (CDouble.ofInt (clampLong n) : Double) = .finite (2 ^ 63) := by
  have hRound := (lt_roundDouble_of_lastFaithful_lt h).1
  rw [CDouble.ofInt, ofRat_eq_finite (clampLong_nonneg n) (by rw [hRound]; norm_num), hRound]

/-- A counter is converted to the nearest double of its unsigned value exactly up to the
limit. -/
theorem ofInt_clampLong_eq_nearest_iff {n : Nat} (h : n < 2 ^ 64) :
    (CDouble.ofInt (clampLong n) : Double) = nearest n ↔ n ≤ lastFaithful := by
  constructor
  · intro hEq
    by_contra hBig
    have hAbove := (lt_roundDouble_of_lastFaithful_lt (not_le.mp hBig)).2
    rw [ofInt_clampLong_of_lt (not_le.mp hBig), nearest_eq h, Double.finite.injEq] at hEq
    rw [← hEq] at hAbove
    norm_num at hAbove
  · intro hLe
    have hRound := roundDouble_clampLong hLe
    have hTop := (roundDouble_counter_le h).trans (by norm_num : (2 : ℚ) ^ 64 ≤ 2 ^ 80)
    rw [nearest_eq h, CDouble.ofInt, ofRat_eq_finite (clampLong_nonneg n) (hRound ▸ hTop), hRound]

theorem mul_512 (a : ℚ) :
    CDouble.mul (Double.finite a) (CDouble.ofInt 512) = CDouble.ofRat (a * 512) :=
  Double.mul_ofInt a (by norm_num : 512 < 2 ^ 53)

/-- The product with the size of a sector is exact, so it hides no difference. -/
theorem octets_clampLong_eq_nearestOctets_iff {n : Nat} (h : n < 2 ^ 64) :
    (CDouble.mul (CDouble.ofInt (clampLong n)) (CDouble.ofInt 512) : Double) = nearestOctets n ↔
      n ≤ lastFaithful := by
  constructor
  · intro hEq
    by_contra hBig
    have hAbove := (lt_roundDouble_of_lastFaithful_lt (not_le.mp hBig)).2
    have hLeft : roundDouble (2 ^ 63 * 512) = 2 ^ 72 := by
      rw [roundDouble_of_isDouble ⟨1, 72, by norm_num, by norm_num, by norm_num⟩]
      norm_num
    have hRight : (2 ^ 63 + 2048) * 512 ≤ roundDouble (roundDouble n * 512) := by
      have hExact : roundDouble ((2 ^ 63 + 2048) * 512) = (2 ^ 63 + 2048) * 512 :=
        roundDouble_of_isDouble ⟨2 ^ 52 + 1, 20, by norm_num, by norm_num, by norm_num⟩
      rw [← hExact]
      apply roundDouble_mono (by norm_num)
      exact mul_le_mul_of_nonneg_right hAbove (by norm_num)
    have hTop : roundDouble (roundDouble n * 512) ≤ 2 ^ 80 := by
      have hExact : roundDouble (2 ^ 80) = 2 ^ 80 :=
        roundDouble_of_isDouble ⟨1, 80, by norm_num, by norm_num, by norm_num⟩
      rw [← hExact]
      apply roundDouble_mono (mul_nonneg (roundDouble_nonneg (by positivity)) (by norm_num))
      have hLe := roundDouble_counter_le h
      linarith
    rw [ofInt_clampLong_of_lt (not_le.mp hBig), nearestOctets, nearest_eq h, mul_512, mul_512,
      ofRat_eq_finite (by norm_num) (by rw [hLeft]; norm_num),
      ofRat_eq_finite (mul_nonneg (roundDouble_nonneg (by positivity)) (by norm_num)) hTop,
      Double.finite.injEq, hLeft] at hEq
    rw [← hEq] at hRight
    norm_num at hRight
  · intro hLe
    rw [(ofInt_clampLong_eq_nearest_iff h).mpr hLe]
    rfl

/-! ## What the documented fields say -/

theorem getD_map_clampLong (l : List Nat) (i : Nat) :
    (l.map fun n : Nat => clampLong n).getD i 0 = clampLong (l.getD i 0) := by
  rw [List.getD_eq_getElem?_getD, List.getD_eq_getElem?_getD, List.getElem?_map]
  cases l[i]? with
  | none => decide
  | some n => rfl

theorem getD_lt {l : List Nat} (h : ∀ n ∈ l, n < 2 ^ 64) (i : Nat) : l.getD i 0 < 2 ^ 64 := by
  rw [List.getD_eq_getElem?_getD]
  cases hGet : l[i]? with
  | none => norm_num
  | some n => exact h n (List.mem_of_getElem? hGet)

/-- A counter by its number in the documentation of the reader, from 1. -/
def NetDev.field (i : NetDev) (k : Nat) : Nat := i.counters.getD (k - 1) 0

/-- The metrics of an interface, with the nearest doubles of its counters. -/
def NetDev.metrics (i : NetDev) : List (Metric Double) :=
  let metric type rx tx : Metric Double :=
    { plugin := ascii "interface", pluginInstance := some i.name, type := ascii type
      typeInstance := none, dsCount := 2, values := [nearest (i.field rx), nearest (i.field tx)] }
  [metric "if_octets" 1 9, metric "if_packets" 2 10, metric "if_errors" 3 11]

theorem NetDev.interfaceMetrics_eq_iff (i : NetDev) :
    interfaceMetrics (i.name, i.longCounters) = i.metrics ↔
      ∀ k ∈ [1, 2, 3, 9, 10, 11], i.field k ≤ lastFaithful := by
  have hField : ∀ k, (CDouble.ofInt (i.longCounters.getD k 0) : Double) = nearest (i.field (k + 1)) ↔
      i.field (k + 1) ≤ lastFaithful := by
    intro k
    rw [NetDev.longCounters, getD_map_clampLong]
    exact ofInt_clampLong_eq_nearest_iff (getD_lt i.counters_lt k)
  simp only [interfaceMetrics, interfaceMetric, NetDev.metrics, List.cons.injEq, Metric.mk.injEq,
    true_and, and_true, hField, List.forall_mem_cons, List.not_mem_nil, false_imp_iff, implies_true]
  tauto

/-- A counter by its number in the documentation of the reader, from 1. -/
def DiskStat.field (d : DiskStat) (k : Nat) : Nat := d.counters.getD (k - 1) 0

/-- The metrics of a disk, with the nearest doubles of its counters. -/
def DiskStat.metrics (d : DiskStat) : List (Metric Double) :=
  let metric type (read write : Double) : Metric Double :=
    { plugin := ascii "disk", pluginInstance := some d.name, type := ascii type
      typeInstance := none, dsCount := 2, values := [read, write] }
  [metric "disk_ops" (nearest (d.field 1)) (nearest (d.field 5)),
    metric "disk_octets" (nearestOctets (d.field 3)) (nearestOctets (d.field 7)),
    metric "disk_time" (nearest (d.field 4)) (nearest (d.field 8))]

theorem DiskStat.diskMetrics_eq_iff (d : DiskStat) :
    diskMetrics (d.name, d.longCounters) = d.metrics ↔
      ∀ k ∈ [1, 3, 4, 5, 7, 8], d.field k ≤ lastFaithful := by
  have hGet : ∀ k < 8, d.longCounters.getD k 0 = clampLong (d.field (k + 1)) := by
    intro k hk
    rw [DiskStat.longCounters, getD_map_clampLong, DiskStat.field, Nat.add_sub_cancel,
      List.getD_eq_getElem?_getD, List.getElem?_take_of_lt hk, List.getD_eq_getElem?_getD]
  have hRange : ∀ k, d.field k < 2 ^ 64 := fun k => getD_lt d.counters_lt (k - 1)
  have hField : ∀ k < 8, (CDouble.ofInt (d.longCounters.getD k 0) : Double) =
      nearest (d.field (k + 1)) ↔ d.field (k + 1) ≤ lastFaithful := by
    intro k hk
    rw [hGet k hk]
    exact ofInt_clampLong_eq_nearest_iff (hRange _)
  have hOctets : ∀ k < 8, (CDouble.mul (CDouble.ofInt (d.longCounters.getD k 0))
      (CDouble.ofInt 512) : Double) = nearestOctets (d.field (k + 1)) ↔
      d.field (k + 1) ≤ lastFaithful := by
    intro k hk
    rw [hGet k hk]
    exact octets_clampLong_eq_nearestOctets_iff (hRange _)
  simp only [diskMetrics, diskMetric, DiskStat.metrics, List.cons.injEq, Metric.mk.injEq, true_and,
    and_true, hField 0 (by decide), hField 3 (by decide), hField 4 (by decide),
    hField 7 (by decide), hOctets 2 (by decide), hOctets 6 (by decide), List.forall_mem_cons,
    List.not_mem_nil, false_imp_iff, implies_true]
  tauto

/-! ## The readers -/

/-- Lists of three metrics each are joined without loss. -/
theorem flatMap_eq_flatMap_iff {α D : Type} {f g : α → List (Metric D)}
    (hf : ∀ a, (f a).length = 3) (hg : ∀ a, (g a).length = 3) {l : List α} :
    l.flatMap f = l.flatMap g ↔ ∀ a ∈ l, f a = g a := by
  induction l with
  | nil => simp
  | cons a l ih =>
      rw [List.flatMap_cons, List.flatMap_cons, List.forall_mem_cons, ← ih]
      constructor
      · intro h
        exact List.append_inj h ((hf a).trans (hg a).symm)
      · rintro ⟨hHead, hTail⟩
        rw [hHead, hTail]

section Readers

variable {src : Sources} {base : Bytes}

/-- The interfaces' counters are reported as the kernel has them exactly if those that are
reported stay in range. -/
theorem interfaceRead_faithful_iff {is : List NetDev}
    (h : src.file (procPath base "/net/dev") = some (NetDev.fileText is)) :
    interfaceRead src base = .ok ((is.filter fun i => i.name ≠ ascii "lo").flatMap NetDev.metrics) ↔
      ∀ i ∈ is, i.name ≠ ascii "lo" → ∀ k ∈ [1, 2, 3, 9, 10, 11], i.field k ≤ lastFaithful := by
  rw [NetDev.interfaceRead_fileText h, ReadResult.ok, ReadResult.ok, ReadResult.mk.injEq,
    flatMap_eq_flatMap_iff (fun _ => rfl) fun _ => rfl]
  simp only [true_and, NetDev.interfaceMetrics_eq_iff, List.mem_filter, decide_eq_true_eq, and_imp]

theorem diskRead_faithful_iff {ds : List DiskStat}
    (h : src.file (procPath base "/diskstats") = some (DiskStat.fileText ds)) :
    diskRead src base = .ok ((ds.filter fun d => isDiskName d.name).flatMap DiskStat.metrics) ↔
      ∀ d ∈ ds, isDiskName d.name = true → ∀ k ∈ [1, 3, 4, 5, 7, 8], d.field k ≤ lastFaithful := by
  rw [DiskStat.diskRead_fileText h, ReadResult.ok, ReadResult.ok, ReadResult.mk.injEq,
    flatMap_eq_flatMap_iff (fun _ => rfl) fun _ => rfl]
  simp only [true_and, DiskStat.diskMetrics_eq_iff, List.mem_filter, and_imp]

theorem ofInt_clampLong_eq (n : Nat) :
    (CDouble.ofInt (clampLong n) : Double) = .finite (roundDouble (clampLong n)) := by
  apply ofRat_eq_finite (clampLong_nonneg n)
  by_cases h : n ≤ lastFaithful
  · rw [roundDouble_clampLong h]
    have hSmall : n < 2 ^ 64 := lt_of_le_of_lt h (by norm_num [lastFaithful])
    exact (roundDouble_counter_le hSmall).trans (by norm_num)
  · rw [(lt_roundDouble_of_lastFaithful_lt (not_le.mp h)).1]
    norm_num

/-- A larger counter never yields a smaller value, clamped or not. -/
theorem le_ofInt_clampLong {m n : Nat} (h : m ≤ n) :
    Double.le (CDouble.ofInt (clampLong m)) (CDouble.ofInt (clampLong n)) = true ∧
      Double.le (CDouble.mul (CDouble.ofInt (clampLong m)) (CDouble.ofInt 512))
        (CDouble.mul (CDouble.ofInt (clampLong n)) (CDouble.ofInt 512)) = true := by
  have hInt : clampLong m ≤ clampLong n := by
    unfold clampLong
    omega
  have hRat : (clampLong m : ℚ) ≤ clampLong n := by exact_mod_cast hInt
  refine ⟨Double.le_ofRat (clampLong_nonneg m) hRat, ?_⟩
  rw [ofInt_clampLong_eq, ofInt_clampLong_eq, mul_512, mul_512]
  have hRound := roundDouble_mono (clampLong_nonneg m) hRat
  exact Double.le_ofRat (mul_nonneg (roundDouble_nonneg (clampLong_nonneg m)) (by norm_num))
    (mul_le_mul_of_nonneg_right hRound (by norm_num))

/-- The two readers emit, for every interface but the loopback and every disk in the order
of the files, the nearest doubles of the unsigned counters, and larger values for larger
counters, exactly if no counter they report is beyond the limit. -/
theorem counters_faithful_iff {is : List NetDev} {ds : List DiskStat}
    (hNet : src.file (procPath base "/net/dev") = some (NetDev.fileText is))
    (hDisk : src.file (procPath base "/diskstats") = some (DiskStat.fileText ds)) :
    (interfaceRead src base =
        .ok ((is.filter fun i => i.name ≠ ascii "lo").flatMap NetDev.metrics) ∧
      diskRead src base = .ok ((ds.filter fun d => isDiskName d.name).flatMap DiskStat.metrics) ∧
      ∀ m n : Nat, m ≤ n →
        Double.le (CDouble.ofInt (clampLong m)) (CDouble.ofInt (clampLong n)) = true ∧
        Double.le (CDouble.mul (CDouble.ofInt (clampLong m)) (CDouble.ofInt 512))
          (CDouble.mul (CDouble.ofInt (clampLong n)) (CDouble.ofInt 512)) = true) ↔
      (∀ i ∈ is, i.name ≠ ascii "lo" → ∀ k ∈ [1, 2, 3, 9, 10, 11], i.field k ≤ 2 ^ 63 + 1024) ∧
      ∀ d ∈ ds, isDiskName d.name = true → ∀ k ∈ [1, 3, 4, 5, 7, 8], d.field k ≤ 2 ^ 63 + 1024 := by
  rw [interfaceRead_faithful_iff hNet, diskRead_faithful_iff hDisk]
  constructor
  · rintro ⟨hInterfaces, hDisks, -⟩
    exact ⟨hInterfaces, hDisks⟩
  · rintro ⟨hInterfaces, hDisks⟩
    exact ⟨hInterfaces, hDisks, fun m n => le_ofInt_clampLong⟩

end Readers

/-- A machine with these interfaces and disks. -/
def deviceSources (is : List NetDev) (ds : List DiskStat) : Sources where
  file path :=
    if path = procPath (ascii "/proc") "/net/dev" then some (NetDev.fileText is)
    else some (DiskStat.fileText ds)
  dir _ := none
  statvfs _ := none
  pageSize := 4096
  isFileName := isFileName_of_no_dir

theorem deviceSources_netDev (is : List NetDev) (ds : List DiskStat) :
    (deviceSources is ds).file (procPath (ascii "/proc") "/net/dev") = some (NetDev.fileText is) := by
  simp only [deviceSources, if_true]

theorem deviceSources_diskstats (is : List NetDev) (ds : List DiskStat) :
    (deviceSources is ds).file (procPath (ascii "/proc") "/diskstats") =
      some (DiskStat.fileText ds) := by
  have hPath : procPath (ascii "/proc") "/diskstats" ≠ procPath (ascii "/proc") "/net/dev" := by
    decide
  simp only [deviceSources, if_neg hPath]

/-- An interface that has received the given number of bytes. -/
def receivedBytes (n : Nat) (h : n < 2 ^ 64) : NetDev where
  name := ascii "eth0"
  counters := n :: [90000, 2, 0, 0, 0, 0, 0, 70000, 800, 0, 0, 0, 0, 0, 0]
  name_word := ⟨by decide, by decide⟩
  name_zero := by decide
  name_colon := by decide
  name_slash := by decide
  name_length := by decide
  length_counters := rfl
  counters_lt := by
    rw [List.forall_mem_cons]
    exact ⟨h, by decide⟩

def wholeDisk : DiskStat where
  major := 8
  minor := 16
  name := ascii "sdb"
  counters := [52000, 300, 2097152, 4100, 7000, 80, 524288, 900, 0, 5000, 5000]
  major_lt := by decide
  minor_lt := by decide
  name_word := ⟨by decide, by decide⟩
  name_zero := by decide
  name_length := by decide
  length_counters := by decide
  counters_lt := by decide

def firstPartition : DiskStat :=
  { wholeDisk with
    minor := 17
    name := ascii "sdb1"
    minor_lt := by decide
    name_word := ⟨by decide, by decide⟩
    name_zero := by decide
    name_length := by decide }

theorem counters_faithful_of_gigabyte :
    interfaceRead (deviceSources [receivedBytes 1000000000 (by decide)]
        [wholeDisk, firstPartition]) (ascii "/proc") =
      .ok (NetDev.metrics (receivedBytes 1000000000 (by decide))) ∧
    diskRead (deviceSources [receivedBytes 1000000000 (by decide)]
        [wholeDisk, firstPartition]) (ascii "/proc") = .ok wholeDisk.metrics := by
  have hDisks : [wholeDisk, firstPartition].filter (fun d => isDiskName d.name) = [wholeDisk] := by
    rw [List.filter_cons_of_pos (by decide), List.filter_cons_of_neg (by decide), List.filter_nil]
  have hFaithful := (counters_faithful_iff
    (deviceSources_netDev [receivedBytes 1000000000 (by decide)] [wholeDisk, firstPartition])
    (deviceSources_diskstats _ _)).mpr ⟨?_, by decide⟩
  · rw [hDisks, List.flatMap_singleton] at hFaithful
    exact ⟨hFaithful.1, hFaithful.2.1⟩
  · intro i hi _
    rw [List.mem_singleton.mp hi]
    decide

/-- After 1.8e19 received bytes the reader reports 2^63. -/
theorem counters_unfaithful :
    ¬ ∀ (src : Sources) (base : Bytes) (is : List NetDev) (ds : List DiskStat),
      src.file (procPath base "/net/dev") = some (NetDev.fileText is) →
      src.file (procPath base "/diskstats") = some (DiskStat.fileText ds) →
      interfaceRead src base =
          .ok ((is.filter fun i => i.name ≠ ascii "lo").flatMap NetDev.metrics) ∧
        diskRead src base = .ok ((ds.filter fun d => isDiskName d.name).flatMap DiskStat.metrics) := by
  intro hAll
  obtain ⟨hRead, -⟩ := hAll _ (ascii "/proc") [receivedBytes 18000000000000000000 (by decide)] []
    (deviceSources_netDev _ _) (deviceSources_diskstats _ _)
  have hLimit := (interfaceRead_faithful_iff (deviceSources_netDev _ _)).mp hRead
    (receivedBytes 18000000000000000000 (by decide)) (by simp) (by decide) 1 (by simp)
  exact absurd hLimit (by decide)

end SvgdCollect
