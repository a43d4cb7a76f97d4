import SvgdCollect.Rra
import SvgdCollect.Writer
import SvgdCollect.Readers.Emitted
import SvgdCollect.Readers.CounterRange

/-!
# The update string

`fmt_values` appends one value after the other to a buffer of `n` bytes and gives up at
the first one that does not fit.  The writer has created the file by then, so it matters
that its buffer of 256 bytes is large enough for every metric of a reader.
-/

namespace SvgdCollect

open Lib

/-! ## The loop -/

section Loop

variable {D : Type} (printf : Printf D)

/-- The texts of values, one behind the other. -/
def valuesText (pairs : List (DsDef × D)) : Bytes :=
  pairs.flatMap fun p => valueText printf p.1 p.2

@[simp] theorem valuesText_nil : valuesText printf ([] : List (DsDef × D)) = [] := rfl

@[simp] theorem valuesText_cons (p : DsDef × D) (pairs : List (DsDef × D)) :
    valuesText printf (p :: pairs) = valueText printf p.1 p.2 ++ valuesText printf pairs := rfl

/-- With `done` in front of the offset, the loop succeeds exactly if the rest of the text
and its NUL fit, and never writes past the buffer. -/
theorem fmtLoop_exact {n : Nat} {pairs : List (DsDef × D)} {done out : Bytes}
    (hNonempty : pairs ≠ []) (hDone : out.take done.length = done) (hn : done.length ≤ n) :
    ((done ++ valuesText printf pairs).length < n →
        fmtLoop printf n pairs out done.length = (0, done ++ valuesText printf pairs ++ [0])) ∧
      (n ≤ (done ++ valuesText printf pairs).length →
        (fmtLoop printf n pairs out done.length).1 = -1 ∧
          (fmtLoop printf n pairs out done.length).2.length ≤ n) := by
  induction pairs generalizing done out with
  | nil => exact absurd rfl hNonempty
  | cons p pairs ih =>
      rw [fmtLoop, hDone, valuesText_cons, ← List.append_assoc]
      by_cases hFull : (valueText printf p.1 p.2).length ≥ n - done.length
      · have hCells := length_snprintfCells_le (n - done.length) (valueText printf p.1 p.2)
        rw [if_pos hFull]
        refine ⟨fun hFits => ?_, fun _ => ⟨rfl, ?_⟩⟩
        · simp only [List.length_append] at hFits
          omega
        · rw [List.length_append]
          omega
      · -- the text and its NUL stand in the buffer, and the next value replaces the NUL
        rw [if_neg hFull, snprintfCells_of_lt (by omega), ← List.length_append, ← List.append_assoc]
        cases pairs with
        | nil =>
            rw [fmtLoop, valuesText_nil, List.append_nil]
            refine ⟨fun _ => rfl, fun hFull' => ?_⟩
            rw [List.length_append] at hFull'
            omega
        | cons q pairs =>
            exact ih (List.cons_ne_nil q pairs) List.take_left (by rw [List.length_append]; omega)

/-- The full text of an update: `N` and the values of the data sources in order. -/
def updateText [Inhabited D] (td : TypeDef) (m : Metric D) : Bytes :=
  byte 'N' :: valuesText printf (td.ds.zip ((List.range td.ds.length).map fun i =>
    m.values.getD i default))

/-- `fmt_values` returns 0 exactly if the text and its NUL fit, and has written them then;
otherwise it returns -1 and has not written past the buffer. -/
theorem fmtValues_cases [Inhabited D] {td : TypeDef} {m : Metric D} {n : Nat} (hDs : td.ds ≠ [])
    (hCount : td.dsCount = m.dsCount) (hn : 1 ≤ n) :
    ((updateText printf td m).length < n →
        fmtValues printf n td m = (0, updateText printf td m ++ [0])) ∧
      (n ≤ (updateText printf td m).length →
        (fmtValues printf n td m).1 = -1 ∧ (fmtValues printf n td m).2.length ≤ n) := by
  have hPairs : td.ds.zip ((List.range td.ds.length).map fun i => m.values.getD i default) ≠ [] := by
    rw [ne_eq, List.zip_eq_nil_iff, not_or]
    refine ⟨hDs, ?_⟩
    rw [List.map_eq_nil_iff, List.range_eq_nil]
    exact fun hZero => hDs (List.eq_nil_of_length_eq_zero hZero)
  have hLoop := @fmtLoop_exact D printf n _ [byte 'N'] [byte 'N'] hPairs rfl hn
  rw [fmtValues, if_neg (by omega), if_neg (not_not_intro hCount)]
  exact hLoop

end Loop

/-! ## The values of counters -/

/-- An integer of magnitude 2^72 at most. -/
def IsCount (v : Double) : Prop := ∃ z : ℤ, v = .finite z ∧ |z| ≤ 2 ^ 72

/-- The double of a bounded integer. -/
theorem ofInt_eq_finite {n : ℤ} {k : ℕ} (hk : k ≤ 72) (h : |n| ≤ 2 ^ k) :
    ∃ z : ℤ, (CDouble.ofInt n : Double) = .finite z ∧ |z| ≤ 2 ^ k := by
  have hBound : |roundDouble (n : ℚ)| ≤ 2 ^ k := by
    have hAbs : |(n : ℚ)| ≤ 2 ^ (k : ℤ) := by exact_mod_cast h
    exact_mod_cast abs_roundDouble_le (by omega) hAbs
  have hFinite : |roundDouble (n : ℚ)| < 2 ^ 1024 :=
    lt_of_le_of_lt hBound (pow_lt_pow_right₀ (by norm_num) (by omega))
  obtain ⟨z, hz⟩ := exists_int_roundDouble n
  refine ⟨z, ?_, ?_⟩
  · rw [← hz]
    exact if_pos hFinite
  · rw [hz] at hBound
    exact_mod_cast hBound

theorem isCount_ofInt {n : ℤ} (h : |n| ≤ 2 ^ 72) : IsCount (CDouble.ofInt n) :=
  ofInt_eq_finite le_rfl h

/-- Sectors in bytes. -/
theorem isCount_octets {n : ℤ} (h : |n| ≤ 2 ^ 63) :
    IsCount (CDouble.mul (CDouble.ofInt n) (CDouble.ofInt 512)) := by
  obtain ⟨z, hz, hBound⟩ := ofInt_eq_finite (by norm_num) h
  have hProduct : CDouble.mul (CDouble.ofInt n) (CDouble.ofInt 512) =
      (CDouble.ofInt (z * 512) : Double) := by
    rw [hz]
    exact_mod_cast Double.mul_ofInt z (by norm_num : 512 < 2 ^ 53)
  rw [hProduct]
  apply isCount_ofInt
  rw [abs_mul]
  have h512 : |(512 : ℤ)| = 512 := by decide
  rw [h512]
  omega

/-- A type with a data source that is no gauge. -/
def isDeriveType (type : Bytes) : Bool :=
  (typesLookup type).any fun td => td.ds.any fun ds => decide (ds.dst ≠ .gauge)

section Emitted

variable {src : Sources}

theorem abs_getD_le {l : List Int} (h : ∀ n ∈ l, |n| ≤ 2 ^ 63) (i : Nat) :
    |l.getD i 0| ≤ 2 ^ 63 := by
  rw [List.getD_eq_getElem?_getD]
  cases hGet : l[i]? with
  | none => norm_num
  | some n => exact h n (List.mem_of_getElem? hGet)

theorem abs_le_of_interfaceLine {line : Bytes} {p : Bytes × List Int}
    (h : interfaceLine line = some p) : ∀ n ∈ p.2, |n| ≤ 2 ^ 63 := by
  obtain ⟨-, rest, -, -, -, -, hNums⟩ := interfaceLine_cases h
  rw [hNums]
  exact fun n hn => abs_le_of_mem_nums_sscanf (by simp [longs]) hn

theorem abs_le_of_diskLine {line : Bytes} {p : Bytes × List Int}
    (h : diskLine line = some p) : ∀ n ∈ p.2, |n| ≤ 2 ^ 63 := by
  rw [(diskLine_cases h).2.2]
  exact fun n hn => abs_le_of_mem_nums_sscanf (by simp [diskFormat, longs]) hn

theorem isCount_interface {m : Metric Double}
    (h : m ∈ (interfaceRead src procBase : ReadResult Double).metrics) : ∀ v ∈ m.values, IsCount v := by
  obtain ⟨content, -, p, hp, hm⟩ := mem_interfaceRead.mp h
  obtain ⟨line, -, hLine⟩ := List.mem_filterMap.mp hp
  have hField : ∀ i, IsCount (CDouble.ofInt (p.2.getD i 0)) := fun i =>
    isCount_ofInt ((abs_getD_le (abs_le_of_interfaceLine hLine) i).trans (by norm_num))
  simp only [interfaceMetrics, List.mem_cons, List.not_mem_nil, or_false] at hm
  intro v hv
  rcases hm with rfl | rfl | rfl <;>
    · simp only [interfaceMetric, List.mem_cons, List.not_mem_nil, or_false] at hv
      rcases hv with rfl | rfl <;> exact hField _

theorem isCount_disk {m : Metric Double}
    (h : m ∈ (diskRead src procBase : ReadResult Double).metrics) : ∀ v ∈ m.values, IsCount v := by
  obtain ⟨content, line, -, p, hLine, hm⟩ := mem_diskRead h
  have hBound := abs_getD_le (abs_le_of_diskLine hLine)
  have hField : ∀ i, IsCount (CDouble.ofInt (p.2.getD i 0)) := fun i =>
    isCount_ofInt ((hBound i).trans (by norm_num))
  have hOctets : ∀ i, IsCount (CDouble.mul (CDouble.ofInt (p.2.getD i 0)) (CDouble.ofInt 512)) :=
    fun i => isCount_octets (hBound i)
  simp only [diskMetrics, List.mem_cons, List.not_mem_nil, or_false] at hm
  intro v hv
  rcases hm with rfl | rfl | rfl <;>
    · simp only [diskMetric, List.mem_cons, List.not_mem_nil, or_false] at hv
      rcases hv with rfl | rfl <;> first | exact hField _ | exact hOctets _

theorem isCount_processes {m : Metric Double}
    (h : m ∈ (processesRead src procBase : ReadResult Double).metrics)
    (hDerive : isDeriveType m.type = true) : ∀ v ∈ m.values, IsCount v := by
  obtain ⟨names, -, comm, -, hm⟩ := mem_processesRead.mp h
  have hSum : ∀ n : Nat, IsCount (CDouble.ofInt ((n % 2 ^ 64 : Nat) : Int)) := by
    intro n
    apply isCount_ofInt
    have hLt := Nat.mod_lt n (by norm_num : 0 < 2 ^ 64)
    rw [abs_of_nonneg (by positivity)]
    omega
  simp only [CommAgg.metrics, List.mem_cons, List.not_mem_nil, or_false] at hm
  rcases hm with rfl | rfl | rfl
  · exact absurd hDerive (by decide : ¬ isDeriveType (ascii "ps_rss") = true)
  · intro v hv
    simp only [processMetric, commTotals, List.mem_cons, List.not_mem_nil, or_false] at hv
    rcases hv with rfl | rfl <;> exact hSum _
  · exact absurd hDerive (by decide : ¬ isDeriveType (ascii "ps_count") = true)

/-- What a reader emits for a counter is an integer of magnitude 2^72 at most. -/
theorem isCount_of_mem_read {st : CpuState} {r : Reader} {m : Metric Double}
    (h : m ∈ (r.read src st : CpuState × ReadResult Double).2.metrics)
    (hDerive : isDeriveType m.type = true) : ∀ v ∈ m.values, IsCount v := by
  have hGauge : ∀ type ∈ ["percent", "load", "uptime", "swap", "df_complex", "temperature",
      "tcp_connections"], m.type ≠ ascii type := by
    intro type hType hEq
    have hNone : ∀ type ∈ ["percent", "load", "uptime", "swap", "df_complex", "temperature",
        "tcp_connections"], isDeriveType (ascii type) = false := by decide
    rw [hEq, hNone type hType] at hDerive
    cases hDerive
  have hShape := shape_of_mem_read h
  cases r with
  | interface => exact isCount_interface h
  | disk => exact isCount_disk h
  | processes => exact isCount_processes h hDerive
  | cpu => cases hShape; exact absurd rfl (hGauge "percent" (by simp))
  | load => cases hShape; exact absurd rfl (hGauge "load" (by simp))
  | uptime => cases hShape; exact absurd rfl (hGauge "uptime" (by simp))
  | memory => cases hShape; exact absurd rfl (hGauge "percent" (by simp))
  | swap => cases hShape; exact absurd rfl (hGauge "swap" (by simp))
  | df => cases hShape; exact absurd rfl (hGauge "df_complex" (by simp))
  | thermal => cases hShape; exact absurd rfl (hGauge "temperature" (by simp))
  | tcpconns => cases hShape; exact absurd rfl (hGauge "tcp_connections" (by simp))

end Emitted

/-! ## The buffer of the writer -/

/-- What the writer relies on in `printf`: integers are printed in decimal digits, and 17
significant digits take 24 characters at most. -/
structure PlainNumbers (printf : Printf Double) : Prop where
  f0 : ∀ z : ℤ, |z| ≤ 2 ^ 72 → printf.f0 (.finite z) = decimalInt z
  g17 : ∀ v, (printf.g17 v).length ≤ 24

section Buffer

variable {printf : Printf Double}

theorem length_decimalInt_count {z : ℤ} (h : |z| ≤ 2 ^ 72) : (decimalInt z).length ≤ 23 := by
  have hDigits : (decimal z.natAbs).length ≤ 22 := by
    apply length_decimal_le (by norm_num)
    have hAbs : (z.natAbs : ℤ) ≤ 2 ^ 72 := by rwa [Int.natCast_natAbs]
    have hLt : (z.natAbs : ℤ) < 10 ^ 22 := lt_of_le_of_lt hAbs (by norm_num)
    exact_mod_cast hLt
  unfold decimalInt
  split
  · rw [List.length_cons]
    omega
  · omega

theorem length_valueText_le (hPrintf : PlainNumbers printf) {ds : DsDef} {v : Double}
    (hv : ds.dst ≠ .gauge → IsCount v) : (valueText printf ds v).length ≤ 25 := by
  have hCount : ds.dst ≠ .gauge → (printf.f0 v).length ≤ 23 := by
    intro hDst
    obtain ⟨z, rfl, hz⟩ := hv hDst
    rw [hPrintf.f0 z hz]
    exact length_decimalInt_count hz
  have hGauge := hPrintf.g17 v
  unfold valueText
  rw [List.length_cons]
  cases hDst : ds.dst with
  | gauge => simp only; omega
  | derive =>
      have := hCount (by simp [hDst])
      simp only
      omega
  | counter =>
      have := hCount (by simp [hDst])
      simp only
      omega

theorem length_valuesText_le (hPrintf : PlainNumbers printf) {pairs : List (DsDef × Double)}
    (h : ∀ p ∈ pairs, p.1.dst ≠ .gauge → IsCount p.2) :
    (valuesText printf pairs).length ≤ 25 * pairs.length := by
  induction pairs with
  | nil => simp
  | cons p pairs ih =>
      rw [List.forall_mem_cons] at h
      have hHead := length_valueText_le hPrintf h.1
      have hTail := ih h.2
      rw [valuesText_cons, List.length_append, List.length_cons]
      omega

/-- The producer has set as many values as it says. -/
theorem values_of_shape {r : Reader} {m : Metric Double} (h : Shape r m) :
    (m.values.length : Int) = m.dsCount := by
  cases h <;> rfl

/-- The text of an emitted metric is at most 76 bytes long. -/
theorem length_updateText_lt (hPrintf : PlainNumbers printf) {src : Sources} {st : CpuState}
    {r : Reader} {m : Metric Double}
    (h : m ∈ (r.read src st : CpuState × ReadResult Double).2.metrics) {td : TypeDef}
    (hTd : typesLookup m.type = some td) (hCount : td.dsCount = m.dsCount) :
    td.ds ≠ [] ∧ (updateText printf td m).length < 256 := by
  have hTable : td ∈ typeTable := List.mem_of_find?_eq_some hTd
  have hSmall : ∀ td ∈ typeTable, td.ds ≠ [] ∧ td.ds.length ≤ 3 := by decide
  obtain ⟨hNonempty, hLength⟩ := hSmall td hTable
  have hValues := values_of_shape (shape_of_mem_read h)
  refine ⟨hNonempty, ?_⟩
  have hPairs : ∀ p ∈ td.ds.zip ((List.range td.ds.length).map fun i => m.values.getD i default),
      p.1.dst ≠ .gauge → IsCount p.2 := by
    intro p hp hDst
    obtain ⟨hDs, hValue⟩ := List.of_mem_zip hp
    have hDerive : isDeriveType m.type = true := by
      rw [isDeriveType, hTd]
      simp only [Option.any_some, List.any_eq_true, decide_eq_true_eq]
      exact ⟨p.1, hDs, hDst⟩
    obtain ⟨i, hi, hGet⟩ := List.mem_map.mp hValue
    have hIndex : i < m.values.length := by
      have hRange := List.mem_range.mp hi
      rw [TypeDef.dsCount, ← hValues] at hCount
      omega
    apply isCount_of_mem_read h hDerive
    rw [← hGet, List.getD_eq_getElem?_getD, List.getElem?_eq_getElem hIndex, Option.getD_some]
    exact List.getElem_mem hIndex
  have hText := length_valuesText_le hPrintf hPairs
  rw [List.length_zip, List.length_map, List.length_range, Nat.min_self] at hText
  rw [updateText, List.length_cons]
  omega

/-- If the text of the values fits, nothing is given up behind the creation of a file. -/
theorem writerPrepare_keeps {w : Writer} {s : Store} {m : Metric Double} {c : Call}
    (hFmt : ∀ td, typesLookup m.type = some td → td.dsCount = m.dsCount →
      (fmtValues printf 256 td m).1 = 0)
    (hFailed : (writerPrepare printf w s m c).1 = false) :
    (writerPrepare printf w s m c).2 = s := by
  unfold writerPrepare at hFailed ⊢
  cases hTd : typesLookup m.type with
  | none => rfl
  | some td =>
      simp only [hTd] at hFailed ⊢
      by_cases hCount : td.dsCount = m.dsCount
      case neg => rw [if_pos hCount]
      rw [if_neg (not_not_intro hCount)] at hFailed ⊢
      by_cases hPath : (metricToPath 4096 w.datadir w.host m).1 = 0
      case neg => rw [if_pos hPath]
      rw [if_neg (not_not_intro hPath)] at hFailed ⊢
      cases hCreate : writerCreate s td c with
      | none => rfl
      | some s' =>
          rw [hCreate] at hFailed
          simp only [hFmt td hTd hCount, decide_true, Bool.true_eq_false] at hFailed

/-- `fmt_values` returns 0 exactly if the text of the update fits the buffer with its NUL,
and then it has written exactly that; otherwise it returns -1 and has not written past the
buffer.  The 256 bytes of `writer_write` are enough for every metric of a reader, so a
file that is created is not given up in front of its first update. -/
theorem fmtValues_exact (hPrintf : PlainNumbers printf) :
    (∀ (td : TypeDef) (m : Metric Double) (n : Nat), td.ds ≠ [] → td.dsCount = m.dsCount → 1 ≤ n →
      ((fmtValues printf n td m).1 = 0 ↔ (updateText printf td m).length + 1 ≤ n) ∧
      ((fmtValues printf n td m).1 = 0 →
        (fmtValues printf n td m).2 = updateText printf td m ++ [0]) ∧
      ((fmtValues printf n td m).1 ≠ 0 → (fmtValues printf n td m).1 = -1) ∧
      (fmtValues printf n td m).2.length ≤ n) ∧
    ∀ (src : Sources) (st : CpuState) (r : Reader) (m : Metric Double),
      m ∈ (r.read src st : CpuState × ReadResult Double).2.metrics →
      (∀ td, typesLookup m.type = some td → td.dsCount = m.dsCount →
        (fmtValues printf 256 td m).1 = 0) ∧
      ∀ (w : Writer) (s : Store) (c : Call), (writerPrepare printf w s m c).1 = false →
        (writerPrepare printf w s m c).2 = s := by
  refine ⟨?_, ?_⟩
  · intro td m n hDs hCount hn
    obtain ⟨hFits, hFull⟩ := fmtValues_cases printf hDs hCount hn
    by_cases hLength : (updateText printf td m).length < n
    · rw [hFits hLength]
      refine ⟨iff_of_true rfl hLength, fun _ => rfl, fun hNot => absurd rfl hNot, ?_⟩
      rw [List.length_append, List.length_singleton]
      exact hLength
    · obtain ⟨hMinus, hInside⟩ := hFull (not_lt.mp hLength)
      rw [hMinus]
      exact ⟨iff_of_false (by decide) hLength, fun hZero => absurd hZero (by decide),
        fun _ => rfl, hInside⟩
  · intro src st r m hm
    have hFmt : ∀ td, typesLookup m.type = some td → td.dsCount = m.dsCount →
        (fmtValues printf 256 td m).1 = 0 := by
      intro td hTd hCount
      obtain ⟨hDs, hLength⟩ := length_updateText_lt hPrintf hm hTd hCount
      rw [(fmtValues_cases printf hDs hCount (by norm_num)).1 hLength]
    exact ⟨hFmt, fun w s c hFailed => writerPrepare_keeps hFmt hFailed⟩

end Buffer

/-- A `printf` with the digits of an integer and no more than 24 of them for a gauge. -/
def shortPrintf : Printf Double where
  f0 := integralText
  g10 := integralText
  g17 v := (integralText v).take 24
  f0_text := integralPrintf.f0_text
  g10_text := integralPrintf.g10_text
  g17_text v := by
    obtain ⟨hNonempty, hNul⟩ := integralPrintf.g17_text v
    refine ⟨?_, fun hMem => hNul (List.mem_of_mem_take hMem)⟩
    rw [ne_eq, List.take_eq_nil_iff, not_or]
    exact ⟨by decide, hNonempty⟩

theorem plainNumbers_shortPrintf : PlainNumbers shortPrintf where
  f0 z _ := by
    simp only [shortPrintf, integralText, roundHalfEven_intCast, decimalInt]
    split
    · rfl
    · rfl
  g17 v := by
    simp only [shortPrintf, List.length_take]
    omega

/-- The octets of an interface that has received a gigabyte. -/
def gigabyteMetric : Metric Double :=
  interfaceMetric (ascii "eth0") "if_octets" 1000000000 70000

theorem mem_read_gigabyteMetric (st : CpuState) :
    gigabyteMetric ∈ (Reader.read (deviceSources [receivedBytes 1000000000 (by decide)] []) st
      .interface : CpuState × ReadResult Double).2.metrics := by
  have hRead := NetDev.interfaceRead_fileText (D := Double)
    (deviceSources_netDev [receivedBytes 1000000000 (by decide)] [])
  have hRx : (receivedBytes 1000000000 (by decide)).longCounters.getD 0 0 = 1000000000 := by decide
  have hTx : (receivedBytes 1000000000 (by decide)).longCounters.getD 8 0 = 70000 := by decide
  have hBase : procBase = ascii "/proc" := rfl
  simp only [Reader.read, hBase, hRead, ReadResult.ok]
  refine List.mem_flatMap.mpr ⟨receivedBytes 1000000000 (by decide),
    List.mem_filter.mpr ⟨List.mem_cons_self, by decide⟩, ?_⟩
  simp only [interfaceMetrics, hRx, hTx]
  exact List.mem_cons_self

theorem fmtValues_gigabyteMetric :
    octetsType ∈ typeTable ∧
      fmtValues shortPrintf 256 octetsType gigabyteMetric =
        (0, updateText shortPrintf octetsType gigabyteMetric ++ [0]) := by
  obtain ⟨hExact, hEmitted⟩ := fmtValues_exact plainNumbers_shortPrintf
  obtain ⟨hEnough, -⟩ := hEmitted _ CpuState.initial .interface gigabyteMetric
    (mem_read_gigabyteMetric _)
  have hZero := hEnough octetsType (by decide) rfl
  obtain ⟨-, hText, -⟩ := hExact octetsType gigabyteMetric 256 (by decide) rfl (by decide)
  exact ⟨by decide, Prod.ext hZero (hText hZero)⟩

end SvgdCollect
