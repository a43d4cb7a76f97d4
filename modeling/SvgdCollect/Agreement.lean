import SvgdCollect.Series

/-!
# Readers, types and rules agree

What the readers emit, what `types.c` knows and what `prom.c` has rules for are three
tables that are kept apart.  Every metric of every reader has its type and its single
rule, and goes through the snapshot and the exposition without losing anything.
-/

namespace SvgdCollect

open Lib
open Prom

variable {D : Type}

/-! ## The tables -/

/-- A kind of metric has one rule. -/
theorem rules_filter_of_kind {plugin type : Bytes} {dsCount : Int}
    (h : (plugin, type, dsCount) ∈ metricKinds) {rule : PromRule}
    (hRule : findRule plugin type = some rule) :
    rules.filter (fun rule => rule.plugin = plugin ∧ rule.type = type) = [rule] := by
  have hAll : ∀ k ∈ metricKinds,
      rules.filter (fun rule => rule.plugin = k.1 ∧ rule.type = k.2.1) =
        (findRule k.1 k.2.1).toList := by
    decide
  rw [hAll _ h, hRule]
  rfl

/-- The data sources of a type are all counters or all gauges. -/
theorem promTypeFor_eq_counter_iff {type : Bytes} {td : TypeDef}
    (h : typesLookup type = some td) :
    promTypeFor type = ascii "counter" ↔ ∀ ds ∈ td.ds, ds.dst = .derive ∨ ds.dst = .counter := by
  have hAll : ∀ td ∈ typeTable, ∃ ds ∈ td.ds.head?,
      (ds.dst ≠ .gauge ↔ ∀ ds ∈ td.ds, ds.dst = .derive ∨ ds.dst = .counter) := by
    decide
  obtain ⟨ds, hHead, hSame⟩ := hAll td (List.mem_of_find?_eq_some h)
  obtain ⟨rest, hList⟩ : ∃ rest, td.ds = ds :: rest := by
    cases hList : td.ds with
    | nil => rw [hList] at hHead; cases hHead
    | cons first rest =>
        rw [hList] at hHead
        obtain rfl : first = ds := Option.some.inj hHead
        exact ⟨rest, rfl⟩
  have hTexts : ascii "gauge" ≠ ascii "counter" := by decide
  rw [← hSame, promTypeFor, h]
  simp only [hList]
  by_cases hGauge : ds.dst = .gauge
  · simp [hGauge, hTexts]
  · simp [hGauge]

theorem dsCount_of_kind {plugin type : Bytes} {dsCount : Int}
    (h : (plugin, type, dsCount) ∈ metricKinds) : 0 < dsCount ∧ dsCount ≤ metricMaxDs := by
  have hAll : ∀ k ∈ metricKinds, 0 < k.2.2 ∧ k.2.2 ≤ metricMaxDs := by decide
  exact hAll _ h

/-! ## Copies -/

variable [CDouble D]

theorem length_values_of_shape {r : Reader} {m : Metric D} (h : Shape r m) :
    (m.values.length : Int) = m.dsCount := by
  cases h with
  | processes hName hType => rfl
  | _ => rfl

/-- The copy in the snapshot is the metric itself. -/
theorem copyMetric_of_shape {r : Reader} {m : Metric D} (h : Shape r m) :
    copyMetric m =
      { plugin := m.plugin, pluginInstance := m.pluginInstance.getD [], type := m.type
        typeInstance := m.typeInstance.getD [], dsCount := m.dsCount, values := m.values } := by
  obtain ⟨rule, hRule, -⟩ := rule_of_kind (kind_of_shape h)
  obtain ⟨hMem, hPlugin, hType⟩ := findRule_eq_some hRule
  have hLength := length_plugin_lt hMem
  rw [hPlugin, hType] at hLength
  have hFit := instancesFit_of_shape h
  have hCount := dsCount_of_kind (kind_of_shape h)
  have hValues := length_values_of_shape h
  have hMax : ¬ m.dsCount > metricMaxDs := by omega
  simp only [copyMetric, if_neg hMax, copyStr_of_fits hFit.pluginInstance,
    copyStr_of_fits hFit.typeInstance, copyStr_some_of_lt (show m.plugin.length < 48 by omega),
    copyStr_some_of_lt (show m.type.length < 48 by omega),
    List.take_of_length_le (show m.values.length ≤ m.dsCount.toNat by omega)]

/-! ## Lines -/

variable [Inhabited D] {printf : Printf D}

theorem length_metricSamples {r : Reader} {m : Metric D} (h : Shape r m) :
    ((metricSamples printf m).length : Int) = m.dsCount := by
  obtain ⟨rule, hRule, -⟩ := rule_of_kind (kind_of_shape h)
  have hCount := dsCount_of_kind (kind_of_shape h)
  simp only [metricSamples, hRule, List.length_map, List.length_range]
  omega

theorem family_of_mem_metricSamples {m : Metric D} {rule : PromRule}
    (hRule : findRule m.plugin m.type = some rule) {x : Bytes × Exposition.Sample}
    (hx : x ∈ metricSamples printf m) : x.1 = rule.family := by
  obtain ⟨rule', di, hRule', -, hFamily, -⟩ := mem_metricSamples hx
  rw [hRule] at hRule'
  rw [hFamily, Option.some.inj hRule']

theorem blockSamples_append (blocks blocks' : List Exposition.Block) :
    blockSamples (blocks ++ blocks') = blockSamples blocks ++ blockSamples blocks' :=
  List.flatMap_append

theorem filter_blockSamples_eq_nil {blocks : List Exposition.Block} {family : Bytes}
    (h : ∀ b ∈ blocks, b.family ≠ family) :
    (blockSamples blocks).filter (fun x => x.1 = family) = [] := by
  rw [List.filter_eq_nil_iff]
  intro x hx
  obtain ⟨b, hb, hx⟩ := List.mem_flatMap.mp hx
  obtain ⟨sample, -, rfl⟩ := List.mem_map.mp hx
  simpa using h b hb

/-- The samples of a family are in one block. -/
theorem exists_block_of_family {blocks : List Exposition.Block} {family : Bytes}
    (hSorted : blocks.Pairwise fun b b' => strcmp b.family b'.family < 0)
    {x : Bytes × Exposition.Sample} (hx : x ∈ blockSamples blocks) (hFamily : x.1 = family) :
    ∃ b ∈ blocks, blocks.filter (fun b => b.family = family) = [b] ∧
      (blockSamples blocks).filter (fun x => x.1 = family) =
        b.samples.map fun sample => (family, sample) := by
  obtain ⟨b, hb, hx⟩ := List.mem_flatMap.mp hx
  obtain ⟨sample, -, rfl⟩ := List.mem_map.mp hx
  obtain rfl : b.family = family := hFamily
  -- the families in front of the block and behind it are others
  obtain ⟨front, back, rfl⟩ := List.append_of_mem hb
  rw [List.pairwise_append, List.pairwise_cons] at hSorted
  have hApart : ∀ {b b' : Exposition.Block}, strcmp b.family b'.family < 0 →
      b.family ≠ b'.family := by
    intro b b' hLt hEq
    rw [strcmp_eq_zero_iff.mpr hEq] at hLt
    omega
  have hFront : ∀ b' ∈ front, b'.family ≠ b.family := fun b' hb' =>
    hApart (hSorted.2.2 b' hb' b List.mem_cons_self)
  have hBack : ∀ b' ∈ back, b'.family ≠ b.family := fun b' hb' =>
    (hApart (hSorted.2.1.1 b' hb')).symm
  refine ⟨b, hb, ?_, ?_⟩
  · rw [List.filter_append, List.filter_cons_of_pos (by simp),
      List.filter_eq_nil_iff.mpr (by simpa using hFront),
      List.filter_eq_nil_iff.mpr (by simpa using hBack)]
    rfl
  · have hCons : blockSamples (b :: back) =
        (b.samples.map fun sample => (b.family, sample)) ++ blockSamples back := rfl
    have hOwn : (b.samples.map fun sample => (b.family, sample)).filter
        (fun x => x.1 = b.family) = b.samples.map fun sample => (b.family, sample) := by
      rw [List.filter_eq_self]
      intro x hx
      obtain ⟨sample, -, rfl⟩ := List.mem_map.mp hx
      simp
    rw [blockSamples_append, List.filter_append, hCons, List.filter_append,
      filter_blockSamples_eq_nil hFront, filter_blockSamples_eq_nil hBack, hOwn, List.nil_append,
      List.append_nil]

/-- A metric that some reader emits for some content of the sources. -/
def Emitted (m : Metric D) : Prop :=
  ∃ (r : Reader) (src : Sources) (st : CpuState),
    m ∈ (r.read src st : CpuState × ReadResult D).2.metrics

/-- The samples of a metric are among those of its family. -/
theorem metricSamples_subperm {m : Metric D} {rule : PromRule}
    (hRule : findRule m.plugin m.type = some rule) {ms : List (Metric D)} (hm : m ∈ ms) :
    (metricSamples printf m).Subperm
      ((ms.flatMap (metricSamples printf)).filter fun x => x.1 = rule.family) := by
  have hSelf : (metricSamples printf m).filter (fun x => x.1 = rule.family) =
      metricSamples printf m := by
    rw [List.filter_eq_self]
    intro y hy
    simpa using family_of_mem_metricSamples hRule hy
  have hSub : (metricSamples printf m).Subperm (ms.flatMap (metricSamples printf)) := by
    rw [List.flatMap_def]
    exact (List.sublist_flatten_of_mem (List.mem_map_of_mem hm)).subperm
  rw [← hSelf]
  exact hSub.filter _

/-- The lines of a metric are in the block of its family. -/
theorem rendered_of_shape {r : Reader} {m : Metric D} (h : Shape r m) {rule : PromRule}
    (hRule : findRule m.plugin m.type = some rule) {ms : List (Metric D)} (hm : m ∈ ms)
    (hEmitted : ∀ m' ∈ ms, Emitted m') {o : Oracle} {qsort : Qsort} (ho : o.Succeeds)
    (hSort : SortsFamilies qsort)
    (hVal : ∀ v, Exposition.space ∉ fmtVal printf 64 v ∧
      Exposition.newline ∉ fmtVal printf 64 v) :
    Yields (renderToDstring o printf qsort DString.zero (ms.map copyMetric)) fun d =>
      ∃ blocks b, Exposition.parse (cstr d.cells) = some blocks ∧
        (blockSamples blocks).Perm (ms.flatMap (metricSamples printf)) ∧
        blocks.filter (fun b => b.family = rule.family) = [b] ∧
        b.kind = promTypeFor m.type ∧
        (metricSamples printf m).Subperm (b.samples.map fun sample => (rule.family, sample)) := by
  have hFit : ∀ m' ∈ ms, InstancesFit m' := by
    intro m' hm'
    obtain ⟨r', src, st, hRead⟩ := hEmitted m' hm'
    exact instancesFit_of_shape (shape_of_mem_read hRead)
  intro k
  have hSamples := @blockSamples_renderedBlocks D _ _ printf qsort ms hFit hSort
  -- a metric has at least one line, so its family has a block
  obtain ⟨x, hx⟩ : ∃ x, x ∈ metricSamples printf m := by
    apply List.exists_mem_of_length_pos
    have hCount := dsCount_of_kind (kind_of_shape h)
    have hLength := @length_metricSamples D _ _ printf r m h
    omega
  obtain ⟨b, hb, hBlock, hLines⟩ := exists_block_of_family (renderedBlocks_pairwise hSort)
    (hSamples.mem_iff.mpr (List.mem_flatMap.mpr ⟨m, hm, hx⟩)) (family_of_mem_metricSamples hRule hx)
  refine ⟨renderedBlocks printf qsort ms, b,
    parse_renderedBlocks (List.ne_nil_of_mem hm) hFit ho hSort hVal k, hSamples, hBlock, ?_, ?_⟩
  · obtain ⟨rule', hRule', hb', -, hKind⟩ := renderedBlocks_hasRule hSort b hb
    obtain ⟨hRuleMem, -, hType⟩ := findRule_eq_some hRule
    have hOwn : b.family = rule.family := by
      have hFilter : b ∈ (renderedBlocks printf qsort ms).filter
          fun b => b.family = rule.family := by rw [hBlock]; simp
      exact of_decide_eq_true (List.mem_filter.mp hFilter).2
    rw [hKind, eq_of_family_eq hRule' hRuleMem (hb'.symm.trans hOwn), hType]
  · rw [← hLines]
    exact (metricSamples_subperm hRule hm).trans (hSamples.symm.filter _).subperm

/-- **Readers, types and rules agree.**  A metric that a reader emits, whatever the sources
hold, has a type with as many data sources as the metric has values and exactly one
rule, and its copy in the snapshot is the metric itself, an absent instance becoming the
empty one, which no reader emits.  It has one sample line for each data source, no two
with the same labels, and in the exposition of every list of emitted metrics these lines
stand in the only block of the rule's family, which is a counter exactly if all data
sources are. -/
theorem readers_agree_with_tables {r : Reader} {src : Sources} {st : CpuState} {m : Metric D}
    (hm : m ∈ (r.read src st : CpuState × ReadResult D).2.metrics) :
    ∃ td rule, (typesLookup m.type = some td ∧ td.dsCount = m.dsCount) ∧
      (findRule m.plugin m.type = some rule ∧
        rules.filter (fun rule => rule.plugin = m.plugin ∧ rule.type = m.type) = [rule]) ∧
      (copyMetric m =
          { plugin := m.plugin, pluginInstance := m.pluginInstance.getD [], type := m.type
            typeInstance := m.typeInstance.getD [], dsCount := m.dsCount, values := m.values } ∧
        (m.values.length : Int) = m.dsCount ∧
        m.pluginInstance ≠ some [] ∧ m.typeInstance ≠ some []) ∧
      ∀ (printf : Printf D) (o : Oracle) (qsort : Qsort) (ms : List (Metric D)),
        o.Succeeds → SortsFamilies qsort →
        (∀ v, Exposition.space ∉ fmtVal printf 64 v ∧ Exposition.newline ∉ fmtVal printf 64 v) →
        m ∈ ms → (∀ m' ∈ ms, Emitted m') →
        ((metricSamples printf m).length : Int) = m.dsCount ∧
          ((metricSamples printf m).Pairwise fun x x' => ¬ SameLine x x') ∧
          Yields (renderToDstring o printf qsort DString.zero (ms.map copyMetric)) fun d =>
            ∃ blocks b, Exposition.parse (cstr d.cells) = some blocks ∧
              (blockSamples blocks).Perm (ms.flatMap (metricSamples printf)) ∧
              blocks.filter (fun b => b.family = rule.family) = [b] ∧
              (metricSamples printf m).Subperm
                (b.samples.map fun sample => (rule.family, sample)) ∧
              (b.kind = ascii "counter" ↔
                ∀ ds ∈ td.ds, ds.dst = .derive ∨ ds.dst = .counter) := by
  have hShape := shape_of_mem_read hm
  have hKind := kind_of_shape hShape
  obtain ⟨td, hType, hCount⟩ := typesLookup_of_kind hKind
  obtain ⟨rule, hRule, -⟩ := rule_of_kind hKind
  obtain ⟨hPi, hTi⟩ := instances_of_shape hShape
  refine ⟨td, rule, ⟨hType, hCount⟩, ⟨hRule, rules_filter_of_kind hKind hRule⟩,
    ⟨copyMetric_of_shape hShape, length_values_of_shape hShape, ?_, ?_⟩, ?_⟩
  · exact fun hEmpty => (hPi [] hEmpty).ne_nil rfl
  · exact fun hEmpty => (hTi [] hEmpty).ne_nil rfl
  · intro printf o qsort ms ho hSort hVal hMem hEmitted
    refine ⟨length_metricSamples hShape, metricSamples_pairwise hShape, fun k => ?_⟩
    obtain ⟨blocks, b, hParse, hSamples, hBlock, hHeader, hLines⟩ :=
      rendered_of_shape hShape hRule hMem hEmitted ho hSort hVal k
    refine ⟨blocks, b, hParse, hSamples, hBlock, hLines, ?_⟩
    rw [hHeader]
    exact promTypeFor_eq_counter_iff hType

/-- The received and sent bytes of `eth0`. -/
theorem eth0_agrees_with_tables :
    ∃ td, typesLookup (ascii "if_octets") = some td ∧ td.dsCount = 2 ∧
      Yields (renderToDstring (fun _ => some fun _ => 0) integralPrintf stableQsort DString.zero
        [copyMetric (interfaceMetric (ascii "eth0") "if_octets" 1 9 : Metric Double)]) fun d =>
        ∃ blocks, Exposition.parse (cstr d.cells) = some blocks ∧
          (blockSamples blocks).length = 2 := by
  have hm : (interfaceMetric (ascii "eth0") "if_octets" 1 9 : Metric Double) ∈
      ((Reader.interface.read (mountedSources homeMounts) .initial :
        CpuState × ReadResult Double).2.metrics) := by
    decide +kernel
  obtain ⟨td, rule, ⟨hType, hCount⟩, -, -, hRender⟩ := readers_agree_with_tables hm
  obtain ⟨hLength, -, hYields⟩ := hRender integralPrintf (fun _ => some fun _ => 0) stableQsort
    [interfaceMetric (ascii "eth0") "if_octets" 1 9] (fun _ => rfl) stableQsort_sorts
    (fun v => ⟨fmtVal_integralPrintf v (by decide) (by decide),
      fmtVal_integralPrintf v (by decide) (by decide)⟩)
    (List.mem_singleton_self _)
    (fun m' hm' => List.mem_singleton.mp hm' ▸ ⟨_, _, _, hm⟩)
  refine ⟨td, hType, hCount, fun k => ?_⟩
  obtain ⟨blocks, b, hParse, hSamples, -⟩ := hYields k
  refine ⟨blocks, hParse, ?_⟩
  rw [hSamples.length_eq, List.flatMap_cons, List.flatMap_nil, List.append_nil]
  exact Int.ofNat_inj.mp hLength

end SvgdCollect
