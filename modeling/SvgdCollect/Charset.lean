import SvgdCollect.Agreement
import SvgdCollect.Prom.EntryPoints

/-!
# The charset of the exposition

The answer to `/metrics` is announced as UTF-8.  The tables of `prom.c` and the numbers
are plain text, so what is served is UTF-8 exactly if the names are that the readers take
from the system into the instances: they travel through the snapshot and into the labels
byte by byte.
-/

namespace SvgdCollect

open Lib
open Prom

variable {D : Type}

/-! ## Names -/

/-- Slashes are replaced by dashes, which takes nothing away from a text. -/
theorem isUtf8_mountToInstance_iff {mount : Bytes} (h : mount.length < 256) :
    IsUtf8 (mountToInstance mount 256) ↔ IsUtf8 mount := by
  have hSlash : slash < 128 := by decide
  have hRoot : IsUtf8 (ascii "root") := IsAscii.isUtf8 (by decide)
  have hMap : ∀ s : Bytes, IsUtf8 (s.map fun b => if b = slash then dash else b) ↔ IsUtf8 s := by
    intro s
    rw [← List.flatMap_singleton' (s.map fun b => if b = slash then dash else b), List.flatMap_map]
    apply isUtf8_flatMap_iff
    · intro b hb
      split_ifs
      · exact ⟨by decide, List.cons_ne_nil _ _⟩
      · exact ⟨by simpa [IsAscii] using hb, List.cons_ne_nil _ _⟩
    · intro b hb
      rw [if_neg]
      rintro rfl
      exact hb hSlash
  have hStripped : IsUtf8 (if mount.head? = some slash then mount.tail else mount) ↔
      IsUtf8 mount := by
    cases mount with
    | nil => exact Iff.rfl
    | cons b rest =>
        by_cases hb : b = slash
        · rw [if_pos (by rw [hb]; rfl), List.tail_cons, hb, isUtf8_cons_iff hSlash]
        · rw [if_neg (by simpa using hb)]
  rw [mountToInstance_eq_mountName h, mountName, ← hStripped]
  generalize (if mount.head? = some slash then mount.tail else mount) = src
  split
  · -- nothing is left of the root
    rename_i hNil
    rw [List.map_eq_nil_iff.mp hNil]
    exact ⟨fun _ => isUtf8_nil, fun _ => hRoot⟩
  · exact hMap src

theorem isAscii_of_isDiskName {name : Bytes} (h : isDiskName name = true) : IsAscii name := by
  have hOnly : usesOnly (fun b => decide (b < 128)) diskNameExpr = true := by decide
  intro b hb
  exact of_decide_eq_true
    (of_mem_matches hOnly ((RegularExpression.rmatch_iff_matches' _ _).mp h) b hb)

/-- The names that a reader takes into an instance are UTF-8: interfaces, the mount
points of the file systems that are reported, the process names that get a slot, and the
names and types of the reported zones. -/
def Reader.NamesUtf8 (src : Sources) : Reader → Prop
  | .interface => ∀ content, src.file (procPath procBase "/net/dev") = some content →
      ∀ p ∈ ((fgetsLines 512 content).drop 2).filterMap interfaceLine, IsUtf8 p.1
  | .df => ∀ content, src.file (procPath procBase "/mounts") = some content →
      ∀ p ∈ (fgetsLines 512 content).filterMap (dfLine src), IsUtf8 p.1
  | .processes => ∀ names, src.dir procBase = some names →
      ∀ comm ∈ (distinctComms (pidSamples src procBase names)).take maxComms, IsUtf8 comm
  | .thermal => ∀ names, src.dir thermalDir = some names →
      ∀ zone ∈ names, zoneReported src zone → IsUtf8 zone ∧ IsUtf8 (zoneType src zone)
  | _ => True

variable [CDouble D]

theorem instancesAll_df_iff {src : Sources} :
    (∀ m ∈ (dfRead src procBase : ReadResult D).metrics, m.InstancesAll IsUtf8) ↔
      Reader.df.NamesUtf8 src := by
  have hStates : IsUtf8 (ascii "used") ∧ IsUtf8 (ascii "free") :=
    ⟨IsAscii.isUtf8 (by decide), IsAscii.isUtf8 (by decide)⟩
  have hMount : ∀ {content : Bytes}, ∀ p ∈ (fgetsLines 512 content).filterMap (dfLine src),
      (IsUtf8 (mountToInstance p.1 256) ↔ IsUtf8 p.1) := by
    intro content p hp
    obtain ⟨line, hLine, hp⟩ := List.mem_filterMap.mp hp
    exact isUtf8_mountToInstance_iff
      (dfLine_eq_some (zero_notMem_of_mem_fgetsLines hLine) hp).length
  constructor
  · intro hAll content hFile p hp
    have hMem : dfMetric (mountToInstance p.1 256) "used" p.2.used ∈
        (dfRead src procBase : ReadResult D).metrics := by
      simp only [dfRead, hFile, ReadResult.ok]
      exact List.mem_flatMap.mpr ⟨p, hp, List.mem_cons_self⟩
    exact (hMount p hp).mp ((hAll _ hMem).1 _ rfl)
  · intro hNames m hm
    unfold dfRead at hm
    split at hm
    · cases hm
    · rename_i content hFile
      obtain ⟨p, hp, hm⟩ := List.mem_flatMap.mp hm
      have hName := (hMount p hp).mpr (hNames content hFile p hp)
      simp only [dfMetrics, List.mem_cons, List.not_mem_nil, or_false] at hm
      rcases hm with rfl | rfl
      · simpa [Metric.InstancesAll, dfMetric] using ⟨hName, hStates.1⟩
      · simpa [Metric.InstancesAll, dfMetric] using ⟨hName, hStates.2⟩

theorem instancesAll_disk {src : Sources} {m : Metric D}
    (hm : m ∈ (diskRead src procBase : ReadResult D).metrics) : m.InstancesAll IsUtf8 := by
  obtain ⟨content, line, -, p, hp, hm⟩ := mem_diskRead hm
  have hName : IsUtf8 p.1 := (isAscii_of_isDiskName (diskLine_cases hp).1).isUtf8
  simp only [diskMetrics, List.mem_cons, List.not_mem_nil, or_false] at hm
  rcases hm with rfl | rfl | rfl <;> simpa [Metric.InstancesAll, diskMetric] using hName

/-- The other readers have fixed instances. -/
theorem instancesAll_of_shape {r : Reader} {m : Metric D} (h : Shape r m)
    (hr : r ∉ [Reader.interface, .disk, .df, .processes, .thermal]) :
    m.InstancesAll IsUtf8 := by
  have hConst : ∀ {name : Bytes}, IsAscii name → ∀ s ∈ some name, IsUtf8 s := by
    rintro name hName s ⟨⟩
    exact hName.isUtf8
  have hNone : ∀ s ∈ (none : Option Bytes), IsUtf8 s := fun s hs => nomatch hs
  cases h with
  | cpu => exact ⟨hConst (by decide), hConst (by decide)⟩
  | load => exact ⟨hNone, hNone⟩
  | uptime => exact ⟨hNone, hNone⟩
  | memory hTi =>
      simp only [List.mem_cons, List.not_mem_nil, or_false] at hTi
      rcases hTi with rfl | rfl | rfl <;> exact ⟨hNone, hConst (by decide)⟩
  | swap hTi =>
      simp only [List.mem_cons, List.not_mem_nil, or_false] at hTi
      rcases hTi with rfl | rfl <;> exact ⟨hNone, hConst (by decide)⟩
  | tcpconns hName =>
      have hAll : ∀ name ∈ tcpStateNames, IsAscii name := by decide
      exact ⟨hNone, hConst (hAll _ hName)⟩
  | _ => simp at hr

theorem instancesAll_read_iff {src : Sources} {r : Reader} :
    (∀ st, ∀ m ∈ (r.read src st : CpuState × ReadResult D).2.metrics, m.InstancesAll IsUtf8) ↔
      r.NamesUtf8 src := by
  by_cases hr : r ∈ [Reader.interface, .disk, .df, .processes, .thermal]
  · simp only [List.mem_cons, List.not_mem_nil, or_false] at hr
    rcases hr with rfl | rfl | rfl | rfl | rfl
    · exact ⟨fun h => instancesAll_interface_iff.mp (h CpuState.initial),
        fun h _ => instancesAll_interface_iff.mpr h⟩
    · exact ⟨fun _ => trivial, fun _ _ m hm => instancesAll_disk hm⟩
    · exact ⟨fun h => instancesAll_df_iff.mp (h CpuState.initial),
        fun h _ => instancesAll_df_iff.mpr h⟩
    · exact ⟨fun h => instancesAll_processes_iff.mp (h CpuState.initial),
        fun h _ => instancesAll_processes_iff.mpr h⟩
    · exact ⟨fun h => (instancesAll_thermal_iff isUtf8_nil).mp (h CpuState.initial),
        fun h _ => (instancesAll_thermal_iff isUtf8_nil).mpr h⟩
  · have hTrue : r.NamesUtf8 src := by
      cases r with
      | interface => simp at hr
      | df => simp at hr
      | processes => simp at hr
      | thermal => simp at hr
      | _ => trivial
    exact ⟨fun _ => hTrue, fun _ st m hm => instancesAll_of_shape (shape_of_mem_read hm) hr⟩

/-- A cycle, reader by reader. -/
theorem instancesAll_collectCycle_iff {srcs : Reader → Sources} {st : CpuState}
    {enabled : List Reader} :
    (∀ m ∈ (collectCycle srcs st enabled : CpuState × List (Metric D)).2,
        m.InstancesAll IsUtf8) ↔
      ∀ r ∈ enabled, r.NamesUtf8 (srcs r) := by
  rw [forall_collectCycle_iff]
  · exact forall₂_congr fun r _ => instancesAll_read_iff
  · exact fun src st' m hm => instancesAll_of_shape (shape_of_mem_read hm) (by decide)

theorem shape_of_mem_collectCycle {srcs : Reader → Sources} {st : CpuState}
    {enabled : List Reader} {m : Metric D} (hm : m ∈ (collectCycle srcs st enabled).2) :
    ∃ r, Shape r m := by
  obtain ⟨r, -, st', hm⟩ := mem_collectCycle hm
  exact ⟨r, shape_of_mem_read hm⟩

/-! ## The text -/

variable [Inhabited D] {printf : Printf D} {qsort : Qsort}

/-- The tables hold plain text only. -/
theorem rule_isAscii {rule : PromRule} (h : rule ∈ rules) :
    IsAscii rule.family ∧ IsAscii rule.help ∧ IsAscii (promTypeFor rule.type) ∧
      (∀ key ∈ labelKeys rule, IsAscii key) ∧ ∀ val ∈ rule.dsValues, IsAscii val := by
  have hAll : ∀ rule ∈ rules, IsAscii rule.family ∧ IsAscii rule.help ∧
      IsAscii (promTypeFor rule.type) ∧ (∀ key ∈ labelKeys rule, IsAscii key) ∧
        ∀ val ∈ rule.dsValues, IsAscii val := by
    decide
  exact hAll rule h

theorem metricSamples_plain (hVal : ∀ v, IsAscii (fmtVal printf 64 v)) {m : Metric D}
    {x : Bytes × Exposition.Sample} (hx : x ∈ metricSamples printf m) : x.2.Plain := by
  unfold metricSamples at hx
  split at hx
  · cases hx
  · rename_i rule hRule
    obtain ⟨di, -, rfl⟩ := List.mem_map.mp hx
    obtain ⟨-, -, -, hKeys, -⟩ := rule_isAscii (findRule_eq_some hRule).1
    refine ⟨fun l hl => hKeys l.1 ?_, hVal _⟩
    simp only [labelKeys, List.mem_append, Option.mem_toList]
    rcases mem_ruleLabels.mp hl with h | h | h
    · exact Or.inl h.1
    · exact Or.inr (Or.inl h.1)
    · exact Or.inr (Or.inr h.1)

/-- The labels of a metric are UTF-8 exactly if its instances are. -/
theorem labels_isUtf8_iff {r : Reader} {m : Metric D} (h : Shape r m) :
    (∀ x ∈ metricSamples printf m, ∀ l ∈ x.2.labels, IsUtf8 l.2) ↔ m.InstancesAll IsUtf8 := by
  obtain ⟨rule, hRule, -⟩ := rule_of_kind (kind_of_shape h)
  obtain ⟨-, -, -, -, hValues⟩ := rule_isAscii (findRule_eq_some hRule).1
  obtain ⟨hPi, hTi⟩ := instances_of_shape h
  constructor
  · intro hLabels
    -- every instance is in the labels of the first line
    have hCount := dsCount_of_kind (kind_of_shape h)
    have hMax : metricMaxDs = 4 := rfl
    have hFirst : (rule.family, (⟨ruleLabels rule m 0,
        fmtVal printf 64 (m.values.getD 0 default)⟩ : Exposition.Sample)) ∈
          metricSamples printf m := by
      simp only [metricSamples, hRule]
      exact List.mem_map.mpr ⟨0, List.mem_range.mpr (by omega), rfl⟩
    refine ⟨fun s hs => ?_, fun s hs => ?_⟩
    · by_cases hCpu : r = .cpu
      · subst hCpu
        exact (instancesAll_of_shape h (by decide)).1 s hs
      · obtain ⟨key, hKey⟩ := piLabel_of_shape h hCpu (by rw [hs]; exact Option.some_ne_none s) hRule
        exact hLabels _ hFirst (key, s)
          (mem_ruleLabels.mpr (Or.inl ⟨hKey, hs, (hPi s hs).ne_nil⟩))
    · obtain ⟨key, hKey⟩ := tiLabel_of_shape h (by rw [hs]; exact Option.some_ne_none s) hRule
      exact hLabels _ hFirst (key, s)
        (mem_ruleLabels.mpr (Or.inr (Or.inl ⟨hKey, hs, (hTi s hs).ne_nil⟩)))
  · intro hInstances x hx l hl
    obtain ⟨rule', di, hRule', -, -, hxLabels⟩ := mem_metricSamples hx
    rw [hRule, Option.some.injEq] at hRule'
    subst hRule'
    rw [hxLabels] at hl
    rcases mem_ruleLabels.mp hl with hLabel | hLabel | hLabel
    · exact hInstances.1 l.2 hLabel.2.1
    · exact hInstances.2 l.2 hLabel.2.1
    · exact (hValues l.2 (List.mem_of_getElem? hLabel.2)).isUtf8

theorem forall_blockSamples_iff {blocks : List Exposition.Block}
    {P : Exposition.Sample → Prop} :
    (∀ b ∈ blocks, ∀ s ∈ b.samples, P s) ↔ ∀ x ∈ blockSamples blocks, P x.2 := by
  constructor
  · intro hAll x hx
    obtain ⟨b, hb, hx⟩ := List.mem_flatMap.mp hx
    obtain ⟨s, hs, rfl⟩ := List.mem_map.mp hx
    exact hAll b hb s hs
  · intro hAll b hb s hs
    exact hAll (b.family, s) (List.mem_flatMap.mpr ⟨b, hb, List.mem_map_of_mem hs⟩)

/-- A snapshot of emitted metrics is rendered in UTF-8 exactly if their instances are
UTF-8. -/
theorem isUtf8_snapshotText_iff {ms : List (Metric D)} (hShape : ∀ m ∈ ms, ∃ r, Shape r m)
    (hSort : SortsFamilies qsort) (hVal : ∀ v, IsAscii (fmtVal printf 64 v)) :
    IsUtf8 (snapshotText printf qsort (ms.map copyMetric)) ↔
      ∀ m ∈ ms, m.InstancesAll IsUtf8 := by
  have hFit : ∀ m ∈ ms, InstancesFit m := fun m hm =>
    instancesFit_of_shape (hShape m hm).choose_spec
  have hSamples := @blockSamples_renderedBlocks D _ _ printf qsort ms hFit hSort
  have hPlain : ∀ b ∈ renderedBlocks printf qsort ms, b.Plain := by
    intro b hb
    obtain ⟨rule, hRule, hFamily, hHelp, hKind⟩ := renderedBlocks_hasRule hSort b hb
    obtain ⟨hFamily', hHelp', hKind', -⟩ := rule_isAscii hRule
    refine ⟨hFamily ▸ hFamily', hHelp ▸ hHelp', hKind ▸ hKind', fun s hs => ?_⟩
    have hMem : (b.family, s) ∈ blockSamples (renderedBlocks printf qsort ms) :=
      List.mem_flatMap.mpr ⟨b, hb, List.mem_map_of_mem hs⟩
    obtain ⟨m, -, hx⟩ := List.mem_flatMap.mp (hSamples.mem_iff.mp hMem)
    exact metricSamples_plain hVal hx
  have hRender : IsUtf8 (snapshotText printf qsort (ms.map copyMetric)) ↔ _ :=
    Exposition.isUtf8_render_iff hPlain
  rw [hRender, @forall_blockSamples_iff _ fun s => ∀ l ∈ s.labels, IsUtf8 l.2]
  constructor
  · intro hLabels m hm
    obtain ⟨r, hr⟩ := hShape m hm
    rw [← @labels_isUtf8_iff D _ _ printf r m hr]
    exact fun x hx => hLabels x (hSamples.mem_iff.mpr (List.mem_flatMap.mpr ⟨m, hm, hx⟩))
  · intro hInstances x hx
    obtain ⟨m, hm, hx⟩ := List.mem_flatMap.mp (hSamples.mem_iff.mp hx)
    obtain ⟨r, hr⟩ := hShape m hm
    exact (labels_isUtf8_iff hr).mpr (hInstances m hm) x hx

/-- What a render returns after a cycle of emitted metrics. -/
theorem promRender_after_cycle {o : Oracle} (ho : o.Succeeds) (hSort : SortsFamilies qsort)
    {trace : List (Action D)} {s : State D} (hRun : run step State.initial trace = some s)
    (hIdle : s.position = .idle) {adds : List (Metric D × (Nat → SnapMetric D))}
    (hShape : ∀ m ∈ adds.map Prod.fst, ∃ r, Shape r m) :
    ∃ s', run step s (cycleTrace adds) = some s' ∧
      Yields (promRender o printf qsort s')
        (Terminated (snapshotText printf qsort ((adds.map Prod.fst).map copyMetric))) := by
  have hStrings : ∀ m ∈ adds.map Prod.fst, CInstances m := by
    intro m hm
    obtain ⟨r, hr⟩ := hShape m hm
    obtain ⟨hPi, hTi⟩ := instances_of_shape hr
    exact ⟨fun s hs => (hPi s hs).zero, fun s hs => (hTi s hs).zero⟩
  obtain ⟨s', hCycle⟩ := run_cycleTrace hIdle adds
  exact ⟨s', hCycle, promRender_yields ho hSort hStrings (published_cycleTrace hRun hCycle)⟩

/-- A block holds one text only. -/
theorem yields_isUtf8_iff {x : Alloc (Option Bytes)} {text : Bytes}
    (h : Yields x (Terminated text)) :
    (Yields x fun block => ∃ text, Terminated text block ∧ IsUtf8 text) ↔ IsUtf8 text := by
  constructor
  · intro hYields
    obtain ⟨text', ⟨hZero', rest', hBlock'⟩, hValid⟩ := hYields 0
    obtain ⟨hZero, rest, hBlock⟩ := h 0
    rw [hBlock, Option.some.injEq] at hBlock'
    rw [(append_cons_inj hZero hZero' hBlock').1]
    exact hValid
  · intro hValid k
    exact ⟨text, h k, hValid⟩

/-- **The charset.**  After a cycle of any enabled readers, from any state between two
cycles, `prom_render` returns UTF-8, if no allocation of the render fails, if and only if the
names are that the readers take from the sources into their instances. -/
theorem promRender_isUtf8_iff {srcs : Reader → Sources} {st : CpuState} {enabled : List Reader}
    {o : Oracle} (ho : o.Succeeds) (hSort : SortsFamilies qsort)
    (hVal : ∀ v, IsAscii (fmtVal printf 64 v)) {trace : List (Action D)} {s : State D}
    (hRun : run step State.initial trace = some s) (hIdle : s.position = .idle)
    {adds : List (Metric D × (Nat → SnapMetric D))}
    (hAdds : adds.map Prod.fst =
      (collectCycle srcs st enabled : CpuState × List (Metric D)).2) :
    ∃ s', run step s (cycleTrace adds) = some s' ∧
      ((Yields (promRender o printf qsort s') fun block =>
          ∃ text, Terminated text block ∧ IsUtf8 text) ↔
        ∀ r ∈ enabled, r.NamesUtf8 (srcs r)) := by
  have hShape : ∀ m ∈ adds.map Prod.fst, ∃ r, Shape r m := by
    rw [hAdds]
    exact fun m => shape_of_mem_collectCycle
  obtain ⟨s', hCycle, hText⟩ := promRender_after_cycle ho hSort hRun hIdle hShape
  refine ⟨s', hCycle, ?_⟩
  rw [yields_isUtf8_iff hText, isUtf8_snapshotText_iff hShape hSort hVal, hAdds]
  exact instancesAll_collectCycle_iff

theorem isAscii_integralPrintf (v : Double) : IsAscii (fmtVal integralPrintf 64 v) := by
  intro b hb
  by_cases hDigit : isdigit b = true
  · simp only [isdigit, Bool.and_eq_true, decide_eq_true_eq] at hDigit
    rw [UInt8.lt_iff_toNat_lt]
    exact lt_of_le_of_lt (UInt8.le_iff_toNat_le.mp hDigit.2) (by decide)
  · by_contra hLarge
    refine fmtVal_integralPrintf v (by simpa using hDigit) ?_ hb
    intro hMem
    have hAll : ∀ c ∈ byte '-' :: (ascii "inf" ++ ascii "nan"), c < 128 := by decide
    exact hLarge (hAll b hMem)

theorem isFileName_pid : ∀ pid ∈ [ascii "17"], IsFileName pid := by decide

/-- One process with a name, and the metrics of a cycle that reads it. -/
def namedProc (comm : Bytes) : Sources :=
  procSources [ascii "17"] (fun _ => some (processFiles comm 100)) isFileName_pid

def namedAdds (comm : Bytes) : List (Metric Double × (Nat → SnapMetric Double)) :=
  (collectCycle (fun _ => namedProc comm) CpuState.initial [.processes]).2.map fun m =>
    (m, fun _ => copyMetric m)

theorem namedAdds_fst (comm : Bytes) :
    (namedAdds comm).map Prod.fst =
      (collectCycle (fun _ => namedProc comm) CpuState.initial [.processes] :
        CpuState × List (Metric Double)).2 := by
  rw [namedAdds, List.map_map]
  exact List.map_id _

theorem sshd_isUtf8 :
    ∃ s, run step State.initial (cycleTrace (namedAdds (ascii "sshd"))) = some s ∧
      Yields (promRender (filledMemory 0) integralPrintf stableQsort s) fun block =>
        ∃ text, Terminated text block ∧ IsUtf8 text := by
  obtain ⟨s, hCycle, hIff⟩ := @promRender_isUtf8_iff Double _ _ integralPrintf stableQsort
    (fun _ => namedProc (ascii "sshd")) .initial [.processes] _ (filledMemory_succeeds 0)
    stableQsort_sorts isAscii_integralPrintf [] _ rfl rfl _ (namedAdds_fst _)
  refine ⟨s, hCycle, hIff.mpr ?_⟩
  intro r hr
  obtain rfl := List.mem_singleton.mp hr
  rintro names ⟨⟩ comm hComm
  have hComms : (distinctComms (pidSamples (namedProc (ascii "sshd")) procBase
      [ascii "17"])).take maxComms = [ascii "sshd"] := by
    decide
  rw [hComms, List.mem_singleton] at hComm
  rw [hComm]
  exact IsAscii.isUtf8 (by decide)

/-- A name of sixteen bytes that ends in a two-byte character, as the kernel keeps it: the
last byte is cut off. -/
def cutComm : Bytes := ascii "aaaaaaaaaaaaaa" ++ [0xC3]

theorem cutComm_not_isUtf8 : ¬ IsUtf8 cutComm := by
  rw [cutComm, isUtf8_ascii_append_iff (by decide)]
  exact not_isUtf8_singleton (by decide)

/-- One such process makes the whole exposition unreadable. -/
theorem cutComm_breaks_charset :
    ∃ s, run step State.initial (cycleTrace (namedAdds cutComm)) = some s ∧
      ¬ Yields (promRender (filledMemory 0) integralPrintf stableQsort s) fun block =>
        ∃ text, Terminated text block ∧ IsUtf8 text := by
  have hShape : ∀ m ∈ (namedAdds cutComm).map Prod.fst, ∃ r, Shape r m := by
    rw [namedAdds_fst]
    exact fun m => shape_of_mem_collectCycle
  obtain ⟨s, hCycle, hText⟩ := @promRender_after_cycle Double _ _ integralPrintf stableQsort _
    (filledMemory_succeeds 0) stableQsort_sorts [] _ rfl rfl _ hShape
  refine ⟨s, hCycle, ?_⟩
  rw [yields_isUtf8_iff hText, isUtf8_snapshotText_iff hShape stableQsort_sorts
    isAscii_integralPrintf, namedAdds_fst, instancesAll_collectCycle_iff]
  intro hNames
  have hComm : cutComm ∈ (distinctComms (pidSamples (namedProc cutComm) procBase
      [ascii "17"])).take maxComms := by
    decide
  exact cutComm_not_isUtf8 (hNames .processes (List.mem_singleton_self _) _ rfl cutComm hComm)

end SvgdCollect
