import SvgdCollect.Prom.Render
import Mathlib.Data.List.Find
import Mathlib.Data.List.ReduceOption

/-!
# Reading the exposition back

What a Prometheus server reads from a rendered snapshot: the families in
strictly increasing order, and exactly one sample for each metric with a rule and
each of its data sources, with the labels that rule prescribes.  Instances may be
any C strings.
-/

namespace SvgdCollect
namespace Prom

open Lib

variable {D : Type}

/-! ## The specification -/

/-- The instances of a metric are C strings that fit the snapshot. -/
structure InstancesFit (m : Metric D) : Prop where
  pluginInstance : ∀ s ∈ m.pluginInstance, 0 ∉ s ∧ s.length < 256
  typeInstance : ∀ s ∈ m.typeInstance, 0 ∉ s ∧ s.length < 128

/-- The label for an instance that is neither absent nor empty. -/
def instanceLabel (key inst : Option Bytes) : List (Bytes × Bytes) :=
  match key, inst with
  | some key, some s => if s = [] then [] else [(key, s)]
  | _, _ => []

/-- The label that tells the data sources apart. -/
def dsLabel (r : PromRule) (di : Nat) : List (Bytes × Bytes) :=
  match r.dsLabel, r.dsValues[di]? with
  | some key, some val => [(key, val)]
  | _, _ => []

/-- The labels a rule prescribes for a data source of a metric. -/
def ruleLabels (r : PromRule) (m : Metric D) (di : Nat) : List (Bytes × Bytes) :=
  instanceLabel r.piLabel m.pluginInstance ++
    (instanceLabel r.tiLabel m.typeInstance ++ dsLabel r di)

/-- The samples a metric stands for, each with its family. -/
def metricSamples [CDouble D] [Inhabited D] (printf : Printf D) (m : Metric D) :
    List (Bytes × Exposition.Sample) :=
  match findRule m.plugin m.type with
  | none => []
  | some r =>
      (List.range (min m.dsCount metricMaxDs).toNat).map fun di =>
        (r.family, ⟨ruleLabels r m di, fmtVal printf 64 (m.values.getD di default)⟩)

/-- The samples of an exposition, each with its family. -/
def blockSamples (blocks : List Exposition.Block) : List (Bytes × Exposition.Sample) :=
  blocks.flatMap fun b => b.samples.map fun s => (b.family, s)

/-- The `HELP` and `TYPE` lines of a block are those of a rule. -/
def HasRule (b : Exposition.Block) : Prop :=
  ∃ r ∈ rules, b.family = r.family ∧ b.help = r.help ∧ b.kind = promTypeFor r.type

/-! ## Blocks of sorted entries -/

section Blocks

variable [CDouble D] [Inhabited D] {printf : Printf D} {ms : List (SnapMetric D)}

/-- A block has the header of one of its entries, and samples of its entries. -/
theorem mem_blocksOf {es : List (Entry ms)} {b : Exposition.Block} (h : b ∈ blocksOf printf es) :
    (∃ e ∈ es, b.family = e.r.family ∧ b.help = e.r.help ∧
        b.kind = promTypeFor e.metric.type) ∧
      ∀ s ∈ b.samples, ∃ e ∈ es, s ∈ entrySamples printf e := by
  induction es generalizing b with
  | nil => simp [blocksOf] at h
  | cons e es ih =>
      have hTail : ∀ b ∈ blocksOf printf es, (∃ e' ∈ e :: es, b.family = e'.r.family ∧
          b.help = e'.r.help ∧ b.kind = promTypeFor e'.metric.type) ∧
          ∀ s ∈ b.samples, ∃ e' ∈ e :: es, s ∈ entrySamples printf e' := by
        intro b hb
        obtain ⟨⟨e', he', hHeader⟩, hSamples⟩ := ih hb
        refine ⟨⟨e', by simp [he'], hHeader⟩, fun s hs => ?_⟩
        obtain ⟨e'', he'', hs''⟩ := hSamples s hs
        exact ⟨e'', by simp [he''], hs''⟩
      obtain ⟨samples, blocks, hBlocks, hRest⟩ := blocksOf_cons printf e es
      rw [hBlocks] at h
      rcases List.mem_cons.mp h with rfl | hMem
      · refine ⟨⟨e, by simp, rfl, rfl, rfl⟩, fun s hs => ?_⟩
        rcases List.mem_append.mp hs with hs | hs
        · exact ⟨e, by simp, hs⟩
        · rcases hRest with ⟨rfl, -, -⟩ | ⟨b', hEs, -, rfl⟩
          · simp at hs
          · exact (hTail b' (by simp [hEs])).2 s hs
      · rcases hRest with ⟨-, rfl, -⟩ | ⟨b', hEs, -, -⟩
        · exact hTail b hMem
        · exact hTail b (by simp [hEs, hMem])

/-- Nothing is lost or duplicated in the grouping. -/
theorem blockSamples_blocksOf (es : List (Entry ms)) :
    blockSamples (blocksOf printf es) =
      es.flatMap fun e => (entrySamples printf e).map fun s => (e.r.family, s) := by
  induction es with
  | nil => rfl
  | cons e es ih =>
      obtain ⟨samples, blocks, hBlocks, hRest⟩ := blocksOf_cons printf e es
      rw [hBlocks, List.flatMap_cons, ← ih, blockSamples, List.flatMap_cons]
      rcases hRest with ⟨rfl, rfl, -⟩ | ⟨b, hEs, hFamily, rfl⟩
      · simp [entryBlock, blockSamples]
      · simp [entryBlock, blockSamples, hEs, hFamily]

/-- The blocks of sorted entries are strictly increasing. -/
theorem blocksOf_pairwise {es : List (Entry ms)}
    (h : es.Pairwise fun x y => cmpFamily x y ≤ 0) :
    (blocksOf printf es).Pairwise fun b b' => strcmp b.family b'.family < 0 := by
  induction es with
  | nil => exact List.Pairwise.nil
  | cons e es ih =>
      rw [List.pairwise_cons] at h
      have hRec := ih h.2
      have hLe : ∀ b ∈ blocksOf printf es, strcmp e.r.family b.family ≤ 0 := by
        intro b hb
        obtain ⟨⟨e', he', hFamily, -⟩, -⟩ := mem_blocksOf hb
        rw [hFamily]
        exact h.1 e' he'
      obtain ⟨samples, blocks, hBlocks, hRest⟩ := blocksOf_cons printf e es
      rw [hBlocks]
      rcases hRest with ⟨-, rfl, hHead⟩ | ⟨b, hEs, hFamily, -⟩
      · refine List.pairwise_cons.mpr ⟨fun b' hb' => ?_, hRec⟩
        refine lt_of_le_of_ne (hLe b' hb') fun hZero => ?_
        -- an equal family behind the head would be smaller than the head
        have hEq : e.r.family = b'.family := strcmp_eq_zero_iff.mp hZero
        cases hEs : blocksOf printf es with
        | nil => simp [hEs] at hb'
        | cons b blocks =>
            rw [hEs] at hHead hRec hb'
            rcases List.mem_cons.mp hb' with rfl | hMem
            · exact hHead b' rfl hEq.symm
            · have hLt := (List.pairwise_cons.mp hRec).1 b' hMem
              have hGe := hLe b (by simp [hEs])
              rw [← hEq, strcmp_swap] at hLt
              omega
      · -- the entry joins the first block and does not change its family
        rw [hEs] at hRec
        refine List.pairwise_cons.mpr ⟨fun b' hb' => ?_, (List.pairwise_cons.mp hRec).2⟩
        have hLt := (List.pairwise_cons.mp hRec).1 b' hb'
        rwa [hFamily] at hLt

end Blocks

/-! ## Clean texts -/

/-- The strings of the rule table are names and texts of one line. -/
structure CleanRule (r : PromRule) : Prop where
  family : Exposition.IsRun Exposition.isNameChar r.family ∧ 0 ∉ r.family
  help : Exposition.newline ∉ r.help ∧ 0 ∉ r.help
  kind : Exposition.newline ∉ promTypeFor r.type ∧ 0 ∉ promTypeFor r.type
  labels : ∀ key ∈ r.piLabel.toList ++ (r.tiLabel.toList ++ r.dsLabel.toList),
    Exposition.IsRun Exposition.isLabelChar key ∧ 0 ∉ key
  dsValues : ∀ val ∈ r.dsValues, 0 ∉ val

theorem cleanRule_of_mem {r : PromRule} (hr : r ∈ rules) : CleanRule r := by
  have hFamily : ∀ r ∈ rules,
      Exposition.IsRun Exposition.isNameChar r.family ∧ 0 ∉ r.family := by decide
  have hHelp : ∀ r ∈ rules, Exposition.newline ∉ r.help ∧ 0 ∉ r.help := by decide
  have hKind : ∀ r ∈ rules,
      Exposition.newline ∉ promTypeFor r.type ∧ 0 ∉ promTypeFor r.type := by decide
  have hLabels : ∀ r ∈ rules,
      ∀ key ∈ r.piLabel.toList ++ (r.tiLabel.toList ++ r.dsLabel.toList),
        Exposition.IsRun Exposition.isLabelChar key ∧ 0 ∉ key := by decide
  have hValues : ∀ r ∈ rules, ∀ val ∈ r.dsValues, 0 ∉ val := by decide
  exact ⟨hFamily r hr, hHelp r hr, hKind r hr, hLabels r hr, hValues r hr⟩

theorem fmtVal_text [CDouble D] (printf : Printf D) (v : D) :
    fmtVal printf 64 v ≠ [] ∧ 0 ∉ fmtVal printf 64 v := by
  have hCut : ∀ text : Bytes, text ≠ [] ∧ 0 ∉ text →
      snprintf 64 text ≠ [] ∧ 0 ∉ snprintf 64 text := by
    rintro text ⟨hne, hZero⟩
    refine ⟨?_, fun hMem => hZero (List.mem_of_mem_take hMem)⟩
    simpa [snprintf] using hne
  unfold fmtVal
  split
  · exact hCut _ (by decide)
  · split
    · exact hCut _ (printf.f0_text v)
    · exact hCut _ (printf.g10_text v)

/-- The labels of a sample come from the rule, with the instances as values. -/
theorem mem_labelPairs {r : PromRule} {sm : SnapMetric D} {di : Nat} {l : Bytes × Bytes}
    (h : l ∈ labelPairs r sm di) :
    l.1 ∈ r.piLabel.toList ++ (r.tiLabel.toList ++ r.dsLabel.toList) ∧
      (l.2 = sm.pluginInstance ∨ l.2 = sm.typeInstance ∨ l.2 ∈ r.dsValues) := by
  rw [labelPairs, List.reduceOption_mem_iff] at h
  simp only [List.mem_cons, List.not_mem_nil, or_false] at h
  rcases h with h | h | h
  · split at h
    · obtain ⟨key, hKey, rfl⟩ := Option.map_eq_some_iff.mp h.symm
      exact ⟨by simp [hKey], Or.inl rfl⟩
    · simp at h
  · split at h
    · obtain ⟨key, hKey, rfl⟩ := Option.map_eq_some_iff.mp h.symm
      exact ⟨by simp [hKey], Or.inr (Or.inl rfl)⟩
    · simp at h
  · split at h
    · obtain ⟨key, hKey, h⟩ := Option.bind_eq_some_iff.mp h.symm
      obtain ⟨val, hVal, rfl⟩ := Option.map_eq_some_iff.mp h
      exact ⟨by simp [hKey], Or.inr (Or.inr (List.mem_of_getElem? hVal))⟩
    · simp at h

/-- An entry of the table of entries has the rule of its metric. -/
theorem mem_entries {ms : List (SnapMetric D)} {e : Entry ms} (h : e ∈ entries ms) :
    findRule e.metric.plugin e.metric.type = some e.r := by
  obtain ⟨i, -, hi⟩ := List.mem_filterMap.mp h
  obtain ⟨r, hr, rfl⟩ := Option.map_eq_some_iff.mp hi
  exact hr

/-! ## From metrics to samples -/

/-- The snapshot keeps enough of the names to find the rule. -/
theorem findRule_copyMetric (m : Metric D) :
    findRule (copyMetric m).plugin (copyMetric m).type = findRule m.plugin m.type := by
  have hCopy : ∀ name s : Bytes, name.length < 47 → (strcmp name (copyStr 48 (some s)) = 0 ↔
      strcmp name s = 0) := by
    intro name s hLen
    rw [strcmp_eq_zero_iff, strcmp_eq_zero_iff]
    by_cases hs : s.length < 48
    · rw [copyStr_some_of_lt hs]
    · have hTake : (copyStr 48 (some s)).length = 47 := by
        rw [copyStr, List.length_take]
        omega
      constructor
      · rintro rfl
        omega
      · rintro rfl
        omega
  unfold findRule
  apply List.find?_congr
  intro r hr
  obtain ⟨hPlugin, hType⟩ := length_plugin_lt hr
  simp only [copyMetric, hCopy _ _ hPlugin, hCopy _ _ hType]

theorem copyStr_of_fits {n : Nat} {inst : Option Bytes}
    (h : ∀ s ∈ inst, 0 ∉ s ∧ s.length < n) : copyStr n inst = inst.getD [] := by
  cases inst with
  | none => rfl
  | some s => exact copyStr_some_of_lt (h s rfl).2

theorem instanceLabel_eq (key inst : Option Bytes) :
    instanceLabel key inst =
      (if inst.getD [] ≠ [] then key.map fun key => (key, inst.getD []) else none).toList := by
  cases key <;> cases inst <;> simp [instanceLabel]
  split <;> simp_all

theorem reduceOption_cons {α : Type} (a : Option α) (l : List (Option α)) :
    (a :: l).reduceOption = a.toList ++ l.reduceOption := by
  cases a <;> simp

/-- The copy of a metric gets the labels that the rule prescribes for it. -/
theorem labelPairs_copyMetric (r : PromRule) {m : Metric D} (hm : InstancesFit m) {di : Nat}
    (hdi : di < metricMaxDs) : labelPairs r (copyMetric m) di = ruleLabels r m di := by
  have hDs : dsLabel r di =
      (r.dsLabel.bind fun key => r.dsValues[di]?.map fun val => (key, val)).toList := by
    unfold dsLabel
    cases r.dsLabel <;> cases r.dsValues[di]? <;> rfl
  have hPi : (copyMetric m).pluginInstance = m.pluginInstance.getD [] :=
    copyStr_of_fits hm.pluginInstance
  have hTi : (copyMetric m).typeInstance = m.typeInstance.getD [] :=
    copyStr_of_fits hm.typeInstance
  rw [labelPairs, ruleLabels, instanceLabel_eq, instanceLabel_eq, hDs, hPi, hTi, if_pos hdi]
  rw [reduceOption_cons, reduceOption_cons, reduceOption_cons, List.reduceOption_nil,
    List.append_nil]

section Samples

variable [CDouble D] [Inhabited D] (printf : Printf D)

/-- The samples of a metric of the snapshot. -/
def snapSamples (sm : SnapMetric D) : List (Bytes × Exposition.Sample) :=
  match findRule sm.plugin sm.type with
  | none => []
  | some r =>
      (List.range sm.dsCount.toNat).map fun di =>
        (r.family, ⟨labelPairs r sm di, fmtVal printf 64 (sm.values.getD di default)⟩)

theorem flatMap_entries (ms : List (SnapMetric D)) :
    ((entries ms).flatMap fun e => (entrySamples printf e).map fun s => (e.r.family, s)) =
      ms.flatMap (snapSamples printf) := by
  -- over any list of indices, since the entries refer to the whole list of metrics
  have hAll : ∀ is : List (Fin ms.length),
      ((is.filterMap (entryAt ms)).flatMap fun e =>
          (entrySamples printf e).map fun s => (e.r.family, s)) =
        (is.map ms.get).flatMap (snapSamples printf) := by
    intro is
    induction is with
    | nil => rfl
    | cons i is ih =>
        rw [List.map_cons, List.flatMap_cons, ← ih, snapSamples]
        cases hRule : findRule (ms.get i).plugin (ms.get i).type with
        | none =>
            have hEntry : entryAt ms i = none := by
              rw [entryAt, hRule]
              rfl
            rw [List.filterMap_cons_none hEntry]
            rfl
        | some r =>
            have hEntry : entryAt ms i = some ⟨r, i⟩ := by
              rw [entryAt, hRule]
              rfl
            rw [List.filterMap_cons_some hEntry, List.flatMap_cons, entrySamples, List.map_map]
            rfl
  rw [entries, hAll, List.map_get_finRange]

/-- The copy of a metric stands for the same samples. -/
theorem snapSamples_copyMetric {m : Metric D} (hm : InstancesFit m) :
    snapSamples printf (copyMetric m) = metricSamples printf m := by
  have hCount : (copyMetric m).dsCount.toNat = (min m.dsCount metricMaxDs).toNat := by
    simp only [copyMetric]
    split <;> congr 1 <;> omega
  unfold snapSamples metricSamples
  rw [findRule_copyMetric]
  cases findRule m.plugin m.type with
  | none => rfl
  | some r =>
      simp only [hCount]
      apply List.map_congr_left
      intro di hdi
      rw [List.mem_range] at hdi
      have hMax : di < metricMaxDs := by omega
      have hValue : (copyMetric m).values.getD di default = m.values.getD di default := by
        have hLt : di < (copyMetric m).dsCount.toNat := by omega
        have hTake : (copyMetric m).values = m.values.take (copyMetric m).dsCount.toNat := rfl
        rw [hTake, List.getD_eq_getElem?_getD, List.getD_eq_getElem?_getD, List.getElem?_take,
          if_pos hLt]
      rw [labelPairs_copyMetric r hm hMax, hValue]

end Samples

/-! ## The round trip -/

/-- What is required of `qsort` with `cmp_family`: a permutation in order. -/
def SortsFamilies (qsort : Qsort) : Prop :=
  ∀ {D : Type} (ms : List (SnapMetric D)) (l : List (Entry ms)),
    (qsort (Entry ms) cmpFamily l).Perm l ∧
      (qsort (Entry ms) cmpFamily l).Pairwise fun x y => cmpFamily x y ≤ 0

/-- A snapshot of metrics whose instances are C strings. -/
def NulFree (sm : SnapMetric D) : Prop := 0 ∉ sm.pluginInstance ∧ 0 ∉ sm.typeInstance

theorem zero_notMem_label {ms : List (SnapMetric D)} {e : Entry ms} (hr : e.r ∈ rules)
    (he : NulFree e.metric) {di : Nat} {l : Bytes × Bytes} (hl : l ∈ labelPairs e.r e.metric di) :
    0 ∉ l.1 ∧ 0 ∉ l.2 := by
  have hClean := cleanRule_of_mem hr
  obtain ⟨hKey, hVal⟩ := mem_labelPairs hl
  refine ⟨(hClean.labels _ hKey).2, ?_⟩
  rcases hVal with h | h | h
  · exact h ▸ he.1
  · exact h ▸ he.2
  · exact hClean.dsValues _ h

theorem zero_notMem_labels {ms : List (SnapMetric D)} {e : Entry ms} (hr : e.r ∈ rules)
    (he : NulFree e.metric) (di : Nat) :
    0 ∉ Exposition.labelsText (labelPairs e.r e.metric di) :=
  Exposition.zero_notMem_labelsText fun _ hl => zero_notMem_label hr he hl

section RoundTrip

variable [CDouble D] [Inhabited D] {printf : Printf D} {ms : List (SnapMetric D)}

theorem blocksOf_hasRule {es : List (Entry ms)}
    (hRules : ∀ e ∈ es, findRule e.metric.plugin e.metric.type = some e.r) :
    ∀ b ∈ blocksOf printf es, HasRule b := by
  intro b hb
  obtain ⟨⟨e, he, hFamily, hHelp, hKind⟩, -⟩ := mem_blocksOf hb
  obtain ⟨hr, -, hType⟩ := findRule_eq_some (hRules e he)
  rw [← hType] at hKind
  exact ⟨e.r, hr, hFamily, hHelp, hKind⟩

/-- The blocks of entries with rules are well formed and free of NUL. -/
theorem blocksOf_wellFormed {es : List (Entry ms)}
    (hVal : ∀ v, Exposition.space ∉ fmtVal printf 64 v ∧ Exposition.newline ∉ fmtVal printf 64 v)
    (hRules : ∀ e ∈ es, findRule e.metric.plugin e.metric.type = some e.r) :
    ∀ b ∈ blocksOf printf es, b.WellFormed := by
  intro b hb
  obtain ⟨r, hr, hFamily, hHelp, hKind⟩ := blocksOf_hasRule hRules b hb
  have hClean := cleanRule_of_mem hr
  refine ⟨hFamily ▸ hClean.family.1, hHelp ▸ hClean.help.1, hKind ▸ hClean.kind.1, ?_⟩
  intro s hs
  obtain ⟨e', he', hs⟩ := (mem_blocksOf hb).2 s hs
  obtain ⟨di, -, rfl⟩ := List.mem_map.mp hs
  have hClean' := cleanRule_of_mem (findRule_eq_some (hRules e' he')).1
  exact ⟨fun l hl => (hClean'.labels _ (mem_labelPairs hl).1).1, (fmtVal_text printf _).1,
    (hVal _).1, (hVal _).2⟩

theorem zero_notMem_render_blocksOf {es : List (Entry ms)}
    (hRules : ∀ e ∈ es, findRule e.metric.plugin e.metric.type = some e.r)
    (hNul : ∀ e ∈ es, NulFree e.metric) : 0 ∉ Exposition.render (blocksOf printf es) := by
  apply Exposition.zero_notMem_render
  · intro b hb
    obtain ⟨⟨e, he, hFamily, hHelp, hKind⟩, -⟩ := mem_blocksOf hb
    obtain ⟨hr, -, hType⟩ := findRule_eq_some (hRules e he)
    have hClean := cleanRule_of_mem hr
    rw [← hType] at hKind
    exact ⟨hFamily ▸ hClean.family.2, hHelp ▸ hClean.help.2, hKind ▸ hClean.kind.2⟩
  · intro b hb s hs
    obtain ⟨e, he, hs⟩ := (mem_blocksOf hb).2 s hs
    obtain ⟨di, -, rfl⟩ := List.mem_map.mp hs
    exact ⟨zero_notMem_labels (findRule_eq_some (hRules e he)).1 (hNul e he) di,
      (fmtVal_text printf _).2⟩

/-- With memory available, a nonempty snapshot is rendered as the blocks of its
sorted entries. -/
theorem renderToDstring_holds {o : Oracle} {qsort : Qsort} (ho : o.Succeeds) (hne : ms ≠ [])
    (hSort : SortsFamilies qsort) (hNul : ∀ sm ∈ ms, NulFree sm) :
    Yields (renderToDstring o printf qsort DString.zero ms) fun d =>
      Holds d (Exposition.render (blocksOf printf (qsort (Entry ms) cmpFamily (entries ms)))) := by
  obtain ⟨hPerm, -⟩ := hSort ms (entries ms)
  have hRules : ∀ e ∈ qsort (Entry ms) cmpFamily (entries ms),
      findRule e.metric.plugin e.metric.type = some e.r :=
    fun e he => mem_entries (hPerm.mem_iff.mp he)
  have hNulEntry : ∀ e : Entry ms, NulFree e.metric := fun e => hNul _ (List.get_mem ms e.i)
  unfold renderToDstring
  rw [if_neg hne]
  refine Yields.bind (yields_allocate ho) ?_
  rintro r ⟨fresh, rfl⟩
  refine Yields.bind (yields_entries ho (fun e he di => zero_notMem_labels
    (findRule_eq_some (hRules e he)).1 (hNulEntry e) di) holds_zero) fun st hst => ?_
  rw [List.nil_append, entriesText_none] at hst
  exact Yields.pure hst

theorem zero_notMem_rendered {qsort : Qsort} (hSort : SortsFamilies qsort)
    (hNul : ∀ sm ∈ ms, NulFree sm) :
    0 ∉ Exposition.render (blocksOf printf (qsort (Entry ms) cmpFamily (entries ms))) := by
  obtain ⟨hPerm, -⟩ := hSort ms (entries ms)
  exact zero_notMem_render_blocksOf (fun e he => mem_entries (hPerm.mem_iff.mp he))
    fun e _ => hNul _ (List.get_mem ms e.i)

end RoundTrip

/-- The instances of a metric are C strings. -/
structure CInstances (m : Metric D) : Prop where
  pluginInstance : ∀ s ∈ m.pluginInstance, 0 ∉ s
  typeInstance : ∀ s ∈ m.typeInstance, 0 ∉ s

theorem zero_notMem_copyStr {n : Nat} {inst : Option Bytes} (h : ∀ s ∈ inst, 0 ∉ s) :
    0 ∉ copyStr n inst := by
  cases inst with
  | none => simp [copyStr]
  | some s => exact fun hMem => h s rfl (List.mem_of_mem_take hMem)

theorem nulFree_copies {ms : List (Metric D)} (h : ∀ m ∈ ms, CInstances m) :
    ∀ sm ∈ ms.map copyMetric, NulFree sm := by
  intro sm hsm
  obtain ⟨m, hm, rfl⟩ := List.mem_map.mp hsm
  exact ⟨zero_notMem_copyStr (h m hm).pluginInstance, zero_notMem_copyStr (h m hm).typeInstance⟩

section Copies

variable [CDouble D] [Inhabited D] {printf : Printf D} {qsort : Qsort} {ms : List (Metric D)}

/-- The blocks that are rendered for copies of metrics. -/
def renderedBlocks (printf : Printf D) (qsort : Qsort) (ms : List (Metric D)) :
    List Exposition.Block :=
  blocksOf printf (qsort (Entry (ms.map copyMetric)) cmpFamily (entries (ms.map copyMetric)))

theorem renderedBlocks_hasRule (hSort : SortsFamilies qsort) :
    ∀ b ∈ renderedBlocks printf qsort ms, HasRule b := by
  obtain ⟨hPerm, -⟩ := hSort (ms.map copyMetric) (entries (ms.map copyMetric))
  exact blocksOf_hasRule fun e he => mem_entries (hPerm.mem_iff.mp he)

theorem renderedBlocks_pairwise (hSort : SortsFamilies qsort) :
    (renderedBlocks printf qsort ms).Pairwise fun b b' => strcmp b.family b'.family < 0 :=
  blocksOf_pairwise (hSort _ _).2

theorem renderedBlocks_wellFormed (hSort : SortsFamilies qsort)
    (hVal : ∀ v, Exposition.space ∉ fmtVal printf 64 v ∧ Exposition.newline ∉ fmtVal printf 64 v) :
    ∀ b ∈ renderedBlocks printf qsort ms, b.WellFormed := by
  obtain ⟨hPerm, -⟩ := hSort (ms.map copyMetric) (entries (ms.map copyMetric))
  exact blocksOf_wellFormed hVal fun e he => mem_entries (hPerm.mem_iff.mp he)

/-- The text of the blocks is read back as the blocks. -/
theorem parse_renderedBlocks {o : Oracle} (hne : ms ≠ []) (hFit : ∀ m ∈ ms, InstancesFit m)
    (ho : o.Succeeds) (hSort : SortsFamilies qsort)
    (hVal : ∀ v, Exposition.space ∉ fmtVal printf 64 v ∧ Exposition.newline ∉ fmtVal printf 64 v) :
    Yields (renderToDstring o printf qsort DString.zero (ms.map copyMetric)) fun d =>
      Exposition.parse (cstr d.cells) = some (renderedBlocks printf qsort ms) := by
  have hNul : ∀ sm ∈ ms.map copyMetric, NulFree sm := nulFree_copies fun m hm =>
    ⟨fun s hs => ((hFit m hm).pluginInstance s hs).1, fun s hs => ((hFit m hm).typeInstance s hs).1⟩
  intro k
  have hHolds := @renderToDstring_holds D _ _ printf _ o qsort ho (by simpa using hne) hSort hNul k
  rw [hHolds.cstr_cells (zero_notMem_rendered hSort hNul)]
  exact Exposition.parse_render (renderedBlocks_wellFormed hSort hVal)

/-- The blocks hold exactly the samples of the metrics. -/
theorem blockSamples_renderedBlocks (hFit : ∀ m ∈ ms, InstancesFit m)
    (hSort : SortsFamilies qsort) :
    (blockSamples (renderedBlocks printf qsort ms)).Perm (ms.flatMap (metricSamples printf)) := by
  obtain ⟨hPerm, -⟩ := hSort (ms.map copyMetric) (entries (ms.map copyMetric))
  rw [renderedBlocks, blockSamples_blocksOf]
  refine (hPerm.flatMap_right _).trans ?_
  rw [flatMap_entries, List.flatMap_map]
  have hSame : ms.flatMap (fun m => snapSamples printf (copyMetric m)) =
      ms.flatMap (metricSamples printf) :=
    List.flatMap_congr fun m hm => snapSamples_copyMetric printf (hFit m hm)
  rw [hSame]

end Copies

/-- **Exposition round trip.**  If memory is available, reading back what
`render_to_dstring` wrote for a nonempty list of metrics gives families in
strictly increasing order, each with the header of its rule, and exactly the
samples of the metrics. -/
theorem parse_renderToDstring {D : Type} [CDouble D] [Inhabited D] {printf : Printf D}
    {o : Oracle} {qsort : Qsort} {ms : List (Metric D)} (hne : ms ≠ [])
    (hFit : ∀ m ∈ ms, InstancesFit m) (ho : o.Succeeds) (hSort : SortsFamilies qsort)
    (hVal : ∀ v, Exposition.space ∉ fmtVal printf 64 v ∧
      Exposition.newline ∉ fmtVal printf 64 v) :
    Yields (renderToDstring o printf qsort DString.zero (ms.map copyMetric)) fun d =>
      ∃ blocks, Exposition.parse (cstr d.cells) = some blocks ∧
        blocks.Pairwise (fun b b' => strcmp b.family b'.family < 0) ∧
        (∀ b ∈ blocks, HasRule b) ∧
        (blockSamples blocks).Perm (ms.flatMap (metricSamples printf)) := by
  intro k
  refine ⟨renderedBlocks printf qsort ms, parse_renderedBlocks hne hFit ho hSort hVal k,
    renderedBlocks_pairwise hSort, renderedBlocks_hasRule hSort,
    blockSamples_renderedBlocks hFit hSort⟩

/-! ## A rendered list with hostile instances -/

/-- A stable sort in the place of `qsort`. -/
def stableQsort : Qsort := fun _ cmp l => l.mergeSort fun a b => decide (cmp a b ≤ 0)

theorem stableQsort_sorts : SortsFamilies stableQsort := by
  intro D ms l
  refine ⟨List.mergeSort_perm _ _, ?_⟩
  have hTrans : ∀ x y z : Entry ms, decide (cmpFamily x y ≤ 0) = true →
      decide (cmpFamily y z ≤ 0) = true → decide (cmpFamily x z ≤ 0) = true := by
    intro x y z hxy hyz
    rw [decide_eq_true_eq] at hxy hyz ⊢
    exact strcmp_le_trans hxy hyz
  have hTotal : ∀ x y : Entry ms,
      (decide (cmpFamily x y ≤ 0) || decide (cmpFamily y x ≤ 0)) = true := by
    intro x y
    have hSwap := strcmp_swap x.r.family y.r.family
    rw [Bool.or_eq_true, decide_eq_true_eq, decide_eq_true_eq, cmpFamily, cmpFamily, hSwap]
    omega
  have hSorted := List.pairwise_mergeSort hTrans hTotal l
  exact hSorted.imp fun h => of_decide_eq_true h

theorem fmtVal_integralPrintf (v : Double) {b : Byte} (hb : isdigit b = false)
    (hOther : b ∉ byte '-' :: (ascii "inf" ++ ascii "nan")) :
    b ∉ fmtVal integralPrintf 64 v := by
  have hClean := integralText_clean v hb hOther
  unfold fmtVal
  split
  · intro hMem
    have hZero : snprintf 64 (ascii "0") = [byte '0'] := by decide
    rw [hZero, List.mem_singleton] at hMem
    rw [hMem] at hb
    exact absurd hb (by decide)
  · split
    · exact fun hMem => hClean (List.mem_of_mem_take hMem)
    · exact fun hMem => hClean (List.mem_of_mem_take hMem)

/-- A process name with a quote, a brace and a new line, an unknown metric, and an
interface that claims seven values. -/
def hostileMetrics : List (Metric Double) :=
  [{ plugin := ascii "processes", pluginInstance := some (ascii "\"\x7d 1\n# TYPE \\")
     type := ascii "ps_count", typeInstance := none, dsCount := 2
     values := [.finite 1, .finite 4] },
   { plugin := ascii "nonsense", pluginInstance := none, type := ascii "bogus"
     typeInstance := none, dsCount := 1, values := [.finite 1] },
   { plugin := ascii "interface", pluginInstance := some (ascii "eth0")
     type := ascii "if_octets", typeInstance := none, dsCount := 7
     values := [.finite 10, .finite 20] }]

/-- The hypotheses of the round trip hold for them. -/
theorem parse_hostileMetrics :
    Yields (renderToDstring (fun _ => some fun _ => 0) integralPrintf stableQsort DString.zero
      (hostileMetrics.map copyMetric)) fun d =>
      ∃ blocks, Exposition.parse (cstr d.cells) = some blocks ∧
        blocks.Pairwise (fun b b' => strcmp b.family b'.family < 0) ∧
        (∀ b ∈ blocks, HasRule b) ∧
        (blockSamples blocks).Perm (hostileMetrics.flatMap (metricSamples integralPrintf)) := by
  apply parse_renderToDstring
  · simp [hostileMetrics]
  · simp only [hostileMetrics, List.forall_mem_cons]
    refine ⟨⟨?_, by simp⟩, ⟨by simp, by simp⟩, ⟨?_, by simp⟩, by simp⟩
    · rintro s ⟨⟩
      decide
    · rintro s ⟨⟩
      decide
  · exact fun _ => rfl
  · exact stableQsort_sorts
  · intro v
    exact ⟨fmtVal_integralPrintf v (by decide) (by decide),
      fmtVal_integralPrintf v (by decide) (by decide)⟩

end Prom
end SvgdCollect
