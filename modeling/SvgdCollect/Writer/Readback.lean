import SvgdCollect.Lib.NumberText
import SvgdCollect.Layout
import SvgdCollect.Readers.Readings
import SvgdCollect.Writer.Values

/-!
# Reading an update back

The update string is the only form in which a sample leaves the collector: rrdcached gets
it as text, and librrd parses it again.  Gauges are printed with 17 digits and counters as
integers, which is enough to get every value back as it was.
-/

namespace SvgdCollect

open Lib

/-! ## The reader of the string -/

/-- `n` numbers, each behind a colon. -/
def readValues : Nat → Bytes → Option (List Double)
  | 0, s => if s = [] then some [] else none
  | n + 1, s =>
      if s.head? = some (byte ':') then
        match scanFloat s.tail with
        | none => none
        | some (x, rest) => (readValues n rest).map (x.toDouble :: ·)
      else none

/-- The values of an update at the current second, for a file with `n` data sources. -/
def readUpdate (n : Nat) (s : Bytes) : Option (List Double) :=
  if s.head? = some (byte 'N') then readValues n s.tail else none

/-- The text of a value is read back as the value, whatever update follows. -/
def ReadsBack (printf : Printf Double) (p : DsDef × Double) : Prop :=
  ∀ rest, EndsNumber rest →
    ∃ x, scanFloat ((valueText printf p.1 p.2).tail ++ rest) = some (x, rest) ∧ x.toDouble = p.2

theorem endsNumber_valuesText (printf : Printf Double) (pairs : List (DsDef × Double)) :
    EndsNumber (valuesText printf pairs) := by
  intro b hb
  cases pairs with
  | nil => cases hb
  | cons p pairs =>
      obtain rfl := Option.some.inj hb
      decide

theorem readValues_valuesText {printf : Printf Double} {pairs : List (DsDef × Double)}
    (h : ∀ p ∈ pairs, ReadsBack printf p) :
    readValues pairs.length (valuesText printf pairs) = some (pairs.map Prod.snd) := by
  induction pairs with
  | nil => rfl
  | cons p pairs ih =>
      rw [List.forall_mem_cons] at h
      obtain ⟨x, hScan, hx⟩ := h.1 _ (endsNumber_valuesText printf pairs)
      rw [valuesText_cons, valueText, List.length_cons, readValues, List.cons_append,
        List.head?_cons, if_pos rfl, List.tail_cons]
      rw [valueText, List.tail_cons] at hScan
      simp only [hScan, ih h.2, Option.map_some, hx, List.map_cons]

/-! ## The C library's `printf` -/

/-- The writer's assumptions on `printf` are met. -/
theorem plainNumbers_cPrintf : PlainNumbers cPrintf where
  f0 z _ := fixedText_intCast z
  g17 v := length_generalText_le (by norm_num) (Double.isValue_stored v)

theorem readsBack_gauge {ds : DsDef} {v : Double} (hDst : ds.dst = .gauge) (hv : v.IsValue) :
    ReadsBack cPrintf (ds, v) := by
  intro rest hRest
  simp only [valueText, hDst, List.tail_cons]
  exact scanFloat_g17 hv hRest

theorem readsBack_count {ds : DsDef} {v : Double} (hDst : ds.dst ≠ .gauge) (hCount : IsCount v)
    (hv : v.IsValue) : ReadsBack cPrintf (ds, v) := by
  intro rest hRest
  obtain ⟨z, rfl, -⟩ := hCount
  have hText : (valueText cPrintf ds (.finite z)).tail = decimalInt z := by
    rw [← fixedText_intCast]
    unfold valueText
    cases hKind : ds.dst with
    | gauge => exact absurd hKind hDst
    | derive => rfl
    | counter => rfl
  refine ⟨.rat z, ?_, Double.stored_of_isValue hv⟩
  rw [hText]
  exact scanFloat_decimalInt z hRest

/-! ## The values of the readers -/

theorem isValue_toDouble (x : Scanned) : (x.toDouble : Double).IsValue := by
  cases x with
  | rat q => exact Double.isValue_ofRat q
  | inf negative => trivial
  | nan => trivial

theorem isValue_ofInt (n : ℤ) : (CDouble.ofInt n : Double).IsValue :=
  Double.isValue_ofRat n

theorem isValue_mul (a b : Double) : (CDouble.mul a b).IsValue := by
  show (Double.mul a b).IsValue
  unfold Double.mul
  split
  · exact Double.isValue_ofRat _
  · trivial
  · trivial
  · split <;> trivial

theorem isValue_div (a b : Double) : (CDouble.div a b).IsValue := by
  show (Double.div a b).IsValue
  unfold Double.div
  split
  · trivial
  · trivial
  · split
    · split <;> trivial
    · exact Double.isValue_ofRat _
  · exact ⟨⟨0, 0, by simp, by norm_num, by norm_num⟩, by norm_num⟩
  · trivial
  · trivial

section Emitted

variable {src : Sources} {m : Metric Double}

theorem isValue_load (h : m ∈ (loadRead src procBase : ReadResult Double).metrics) :
    ∀ v ∈ m.values, v.IsValue := by
  unfold loadRead at h
  split at h
  · cases h
  · split at h
    · rw [List.mem_singleton.mp h]
      simp [isValue_toDouble]
    · cases h

theorem isValue_uptime (h : m ∈ (uptimeRead src procBase : ReadResult Double).metrics) :
    ∀ v ∈ m.values, v.IsValue := by
  unfold uptimeRead at h
  split at h
  · cases h
  · split at h
    · rw [List.mem_singleton.mp h]
      simp [isValue_toDouble]
    · cases h

theorem isValue_cpu {st : CpuState}
    (h : m ∈ (cpuRead src procBase st : CpuState × ReadResult Double).2.metrics) :
    ∀ v ∈ m.values, v.IsValue := by
  unfold cpuRead at h
  split at h
  · cases h
  · split at h
    · cases h
    · simp only [ReadResult.ok] at h
      split at h
      · rw [List.mem_singleton.mp h]
        simp [cpuMetric, percentOf, isValue_div]
      · cases h

theorem isValue_memory (h : m ∈ (memoryRead src procBase : ReadResult Double).metrics) :
    ∀ v ∈ m.values, v.IsValue := by
  unfold memoryRead at h
  split at h
  · cases h
  · simp only at h
    split at h
    · cases h
    · simp only [ReadResult.ok, List.mem_cons, List.not_mem_nil, or_false] at h
      rcases h with rfl | rfl | rfl <;> simp [memoryMetric, percentOf, isValue_div]

theorem isValue_thermal (h : m ∈ (thermalRead src procBase : ReadResult Double).metrics) :
    ∀ v ∈ m.values, v.IsValue := by
  obtain ⟨names, -, zone, -, hZone⟩ := mem_thermalRead.mp h
  unfold thermalZone at hZone
  split at hZone
  · cases hZone
  · split at hZone
    · cases hZone
    · split at hZone
      · cases hZone
        simp [isValue_div]
      · cases hZone

theorem isValue_disk (h : m ∈ (diskRead src procBase : ReadResult Double).metrics) :
    ∀ v ∈ m.values, v.IsValue := by
  obtain ⟨content, line, -, p, -, hm⟩ := mem_diskRead h
  simp only [diskMetrics, List.mem_cons, List.not_mem_nil, or_false] at hm
  rcases hm with rfl | rfl | rfl <;> simp [diskMetric, isValue_ofInt, isValue_mul]

theorem isValue_processes (h : m ∈ (processesRead src procBase : ReadResult Double).metrics) :
    ∀ v ∈ m.values, v.IsValue := by
  obtain ⟨names, -, comm, -, hm⟩ := mem_processesRead.mp h
  simp only [CommAgg.metrics, List.mem_cons, List.not_mem_nil, or_false] at hm
  rcases hm with rfl | rfl | rfl <;> simp [processMetric, isValue_ofInt]

/-- Every value of a metric is a double. -/
theorem isValue_of_mem_read {st : CpuState} {r : Reader}
    (h : m ∈ (r.read src st : CpuState × ReadResult Double).2.metrics) :
    ∀ v ∈ m.values, v.IsValue := by
  have hShape := shape_of_mem_read h
  cases r with
  | cpu => exact isValue_cpu h
  | load => exact isValue_load h
  | uptime => exact isValue_uptime h
  | memory => exact isValue_memory h
  | swap => cases hShape with | swap hTi kb => simp [swapMetric, isValue_mul]
  | interface =>
      cases hShape with | interface hName hType rx tx => simp [interfaceMetric, isValue_ofInt]
  | disk => exact isValue_disk h
  | df => cases hShape with | df hName hSlash hTi v => simp [dfMetric, isValue_ofInt]
  | processes => exact isValue_processes h
  | thermal => exact isValue_thermal h
  | tcpconns => cases hShape with | tcpconns hName count => simp [tcpMetric, isValue_ofInt]

end Emitted

theorem map_getD_range {α : Type} (l : List α) (d : α) :
    ((List.range l.length).map fun i => l.getD i d) = l := by
  apply List.ext_getElem
  · simp
  · intro i hi hi'
    simp [List.getElem?_eq_getElem hi']

/-- **Nothing is lost in the text.**  The writer knows the type of every metric that a reader
emits and prints its update into the buffer of 256 bytes; whoever reads the string gets
exactly the values of the metric, for fractions, large counters, infinities and NaN. -/
theorem update_reads_back {src : Sources} {st : CpuState} {r : Reader} {m : Metric Double}
    (h : m ∈ (r.read src st : CpuState × ReadResult Double).2.metrics) :
    ∃ td, typesLookup m.type = some td ∧ td.dsCount = m.dsCount ∧
      ∃ text, fmtValues cPrintf 256 td m = (0, text ++ [0]) ∧
        readUpdate td.ds.length text = some m.values := by
  have hShape := shape_of_mem_read h
  obtain ⟨td, hType, hCount⟩ := typesLookup_of_kind (kind_of_shape hShape)
  obtain ⟨hDs, hLength⟩ := length_updateText_lt plainNumbers_cPrintf h hType hCount
  refine ⟨td, hType, hCount, updateText cPrintf td m,
    (fmtValues_cases cPrintf hDs hCount (by norm_num)).1 hLength, ?_⟩
  have hValues : td.ds.length = m.values.length := by
    have := values_of_shape hShape
    rw [TypeDef.dsCount] at hCount
    omega
  have hList : ((List.range td.ds.length).map fun i => m.values.getD i default) = m.values := by
    rw [hValues, map_getD_range]
  have hPairs : ∀ p ∈ td.ds.zip m.values, ReadsBack cPrintf p := by
    rintro ⟨ds, v⟩ hp
    obtain ⟨hMem, hv⟩ := List.of_mem_zip hp
    have hDouble := isValue_of_mem_read h v hv
    by_cases hGauge : ds.dst = .gauge
    · exact readsBack_gauge hGauge hDouble
    · have hDerive : isDeriveType m.type = true := by
        rw [isDeriveType, hType, Option.any_some, List.any_eq_true]
        exact ⟨ds, hMem, by simpa using hGauge⟩
      exact readsBack_count hGauge (isCount_of_mem_read h hDerive v hv) hDouble
  have hRead := readValues_valuesText hPairs
  rw [List.length_zip, ← hValues, Nat.min_self, List.map_snd_zip hValues.ge] at hRead
  rw [updateText, hList, readUpdate, List.head?_cons, if_pos rfl, List.tail_cons, hRead]

/-- Load averages of 1.52, 0.98 and 12.05. -/
theorem mem_read_laptopLoad :
    ∃ m ∈ (Reader.read laptopSources CpuState.initial .load :
        CpuState × ReadResult Double).2.metrics,
      m.values = [.ofRat (152 / 100), .ofRat (98 / 100), .ofRat (1205 / 100)] := by
  have hFile : laptopSources.file (procPath procBase "/loadavg") =
      some (loadavgText 152 98 1205 (ascii "1/213 4711")) := by
    simp only [laptopSources, if_true]
  have hValues := loadRead_text (D := Double) hFile
  exact List.mem_map.mp (hValues ▸ List.mem_singleton_self _)

theorem gigabyte_reads_back :
    (∃ text, fmtValues cPrintf 256 octetsType gigabyteMetric = (0, text ++ [0]) ∧
      readUpdate 2 text = some [.ofRat 1000000000, .ofRat 70000]) ∧
    ∃ m td text, typesLookup m.type = some td ∧
      fmtValues cPrintf 256 td m = (0, text ++ [0]) ∧
      readUpdate td.ds.length text =
        some [.ofRat (152 / 100), .ofRat (98 / 100), .ofRat (1205 / 100)] := by
  constructor
  · obtain ⟨td, hType, -, text, hText, hRead⟩ :=
      update_reads_back (mem_read_gigabyteMetric CpuState.initial)
    have hKnown : typesLookup gigabyteMetric.type = some octetsType := by decide
    obtain rfl := Option.some.inj (hKnown.symm.trans hType)
    refine ⟨text, hText, ?_⟩
    show readUpdate octetsType.ds.length text = some gigabyteMetric.values
    exact hRead
  · obtain ⟨m, hm, hValues⟩ := mem_read_laptopLoad
    obtain ⟨td, hType, -, text, hText, hRead⟩ := update_reads_back hm
    rw [hValues] at hRead
    exact ⟨m, td, text, hType, hText, hRead⟩

end SvgdCollect
