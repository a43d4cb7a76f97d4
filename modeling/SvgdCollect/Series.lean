import SvgdCollect.Layout
import SvgdCollect.Prom.Labels

/-!
# One writer per series

A series is named by plugin, type and the two instances.  If the names that the
sources hold are distinct, the metrics of a cycle belong to distinct series; and a
series has a path of its own, and sample lines of its own in the exposition.
-/

namespace SvgdCollect

open Lib

variable {D : Type}

/-- What names the series of a metric. -/
def Metric.series (m : Metric D) : Bytes × Option Bytes × Bytes × Option Bytes :=
  (m.plugin, m.pluginInstance, m.type, m.typeInstance)

/-- No two metrics belong to one series. -/
def SeriesDistinct (ms : List (Metric D)) : Prop :=
  ms.Pairwise fun m m' => m.series ≠ m'.series

/-! ## Distinct names -/

/-- The name that collectd's convention gives a mount point: the leading slash is
dropped, a slash is read as a dash, and the root is called so. -/
def mountName (mount : Bytes) : Bytes :=
  let name := (if mount.head? = some slash then mount.tail else mount).map fun b =>
    if b = slash then dash else b
  if name = [] then ascii "root" else name

/-- The names that the readers of a cycle find are distinct: interfaces, disks, mount
points in collectd's convention, and the entries of the thermal directory. -/
structure DistinctNames (srcs : Reader → Sources) : Prop where
  interfaces : ∀ content, (srcs .interface).file (procPath procBase "/net/dev") = some content →
    ((((fgetsLines 512 content).drop 2).filterMap interfaceLine).map Prod.fst).Nodup
  disks : ∀ content, (srcs .disk).file (procPath procBase "/diskstats") = some content →
    (((fgetsLines 512 content).filterMap diskLine).map Prod.fst).Nodup
  mounts : ∀ content, (srcs .df).file (procPath procBase "/mounts") = some content →
    (((fgetsLines 512 content).filterMap (dfLine (srcs .df))).map fun p => mountName p.1).Nodup
  zones : ∀ names, (srcs .thermal).dir thermalDir = some names → names.Nodup

/-- The buffers of `df_read` are long enough for every mount point it reads. -/
theorem mountToInstance_eq_mountName {mount : Bytes} (h : mount.length < 256) :
    mountToInstance mount 256 = mountName mount := by
  have hStripped : (if mount.head? = some slash then mount.tail else mount).length ≤ 255 := by
    split
    · rw [List.length_tail]
      omega
    · omega
  have hRoot : (ascii "root").take (256 - 1) = ascii "root" := by decide
  simp only [mountToInstance, mountName, hRoot]
  rw [List.take_of_length_le hStripped]

/-! ## Readers -/

theorem seriesDistinct_flatMap {β : Type} {l : List β} {name : β → Bytes}
    {f : β → List (Metric D)} (hNames : (l.map name).Nodup)
    (hInst : ∀ p ∈ l, ∀ m ∈ f p, m.pluginInstance = some (name p))
    (hGroup : ∀ p ∈ l, SeriesDistinct (f p)) : SeriesDistinct (l.flatMap f) := by
  unfold SeriesDistinct
  rw [List.pairwise_flatMap]
  refine ⟨hGroup, ?_⟩
  rw [List.Nodup, List.pairwise_map] at hNames
  refine hNames.imp_of_mem ?_
  intro p p' hp hp' hNe m hm m' hm' hSeries
  have hEq : m.pluginInstance = m'.pluginInstance := congrArg (fun s => s.2.1) hSeries
  rw [hInst p hp m hm, hInst p' hp' m' hm'] at hEq
  exact hNe (Option.some.inj hEq)

/-- Metrics that one part of the series tells apart. -/
theorem seriesDistinct_of_part {κ : Type} {ms : List (Metric D)}
    (part : Bytes × Option Bytes × Bytes × Option Bytes → κ)
    (h : (ms.map fun m => part m.series).Nodup) : SeriesDistinct ms := by
  rw [List.Nodup, List.pairwise_map] at h
  exact h.imp fun hNe hSeries => hNe (congrArg part hSeries)

theorem seriesDistinct_of_length {ms : List (Metric D)} (h : ms.length ≤ 1) :
    SeriesDistinct ms := by
  match ms, h with
  | [], _ => exact List.Pairwise.nil
  | [m], _ => exact List.pairwise_singleton _ m

variable [CDouble D]

theorem seriesDistinct_interface {src : Sources}
    (h : ∀ content, src.file (procPath procBase "/net/dev") = some content →
      ((((fgetsLines 512 content).drop 2).filterMap interfaceLine).map Prod.fst).Nodup) :
    SeriesDistinct (interfaceRead src procBase : ReadResult D).metrics := by
  unfold interfaceRead
  split
  · exact List.Pairwise.nil
  · rename_i content hFile
    apply seriesDistinct_flatMap (h content hFile)
    · intro p hp m hm
      simp only [interfaceMetrics, List.mem_cons, List.not_mem_nil, or_false] at hm
      rcases hm with rfl | rfl | rfl <;> rfl
    · intro p hp
      apply seriesDistinct_of_part fun series => series.2.2.1
      show [ascii "if_octets", ascii "if_packets", ascii "if_errors"].Nodup
      decide

theorem seriesDistinct_disk {src : Sources}
    (h : ∀ content, src.file (procPath procBase "/diskstats") = some content →
      (((fgetsLines 512 content).filterMap diskLine).map Prod.fst).Nodup) :
    SeriesDistinct (diskRead src procBase : ReadResult D).metrics := by
  unfold diskRead
  split
  · exact List.Pairwise.nil
  · rename_i content hFile
    apply seriesDistinct_flatMap (h content hFile)
    · intro p hp m hm
      simp only [diskMetrics, List.mem_cons, List.not_mem_nil, or_false] at hm
      rcases hm with rfl | rfl | rfl <;> rfl
    · intro p hp
      apply seriesDistinct_of_part fun series => series.2.2.1
      show [ascii "disk_ops", ascii "disk_octets", ascii "disk_time"].Nodup
      decide

theorem seriesDistinct_df {src : Sources}
    (h : ∀ content, src.file (procPath procBase "/mounts") = some content →
      (((fgetsLines 512 content).filterMap (dfLine src)).map fun p => mountName p.1).Nodup) :
    SeriesDistinct (dfRead src procBase : ReadResult D).metrics := by
  unfold dfRead
  split
  · exact List.Pairwise.nil
  · rename_i content hFile
    apply seriesDistinct_flatMap (h content hFile)
    · intro p hp m hm
      obtain ⟨line, hLine, hp⟩ := List.mem_filterMap.mp hp
      have hMount := dfLine_eq_some (zero_notMem_of_mem_fgetsLines hLine) hp
      rw [← mountToInstance_eq_mountName hMount.length]
      simp only [dfMetrics, List.mem_cons, List.not_mem_nil, or_false] at hm
      rcases hm with rfl | rfl <;> rfl
    · intro p hp
      apply seriesDistinct_of_part fun series => series.2.2.2
      show [some (ascii "used"), some (ascii "free")].Nodup
      decide

theorem seriesDistinct_processes {src : Sources} :
    SeriesDistinct (processesRead src procBase : ReadResult D).metrics := by
  cases hDir : src.dir procBase with
  | none =>
      rw [processesRead, hDir]
      exact List.Pairwise.nil
  | some names =>
      rw [processesRead_eq hDir]
      have hComms :
          (((distinctComms (pidSamples src procBase names)).take maxComms).map id).Nodup := by
        rw [List.map_id]
        exact (nodup_firstSeen _).sublist (List.take_sublist _ _)
      apply seriesDistinct_flatMap hComms
      · intro comm hComm m hm
        simp only [CommAgg.metrics, List.mem_cons, List.not_mem_nil, or_false] at hm
        rcases hm with rfl | rfl | rfl <;> rfl
      · intro comm hComm
        apply seriesDistinct_of_part fun series => series.2.2.1
        show [ascii "ps_rss", ascii "ps_cputime", ascii "ps_count"].Nodup
        decide

theorem seriesDistinct_thermal {src : Sources}
    (h : ∀ names, src.dir thermalDir = some names → names.Nodup) :
    SeriesDistinct (thermalRead src procBase : ReadResult D).metrics := by
  unfold thermalRead
  simp only
  split
  · exact List.Pairwise.nil
  · rename_i names hDir
    simp only [SeriesDistinct, ReadResult.ok]
    rw [List.pairwise_filterMap]
    refine (h names hDir).imp ?_
    intro zone zone' hNe m hm m' hm' hSeries
    obtain ⟨v, rfl⟩ := thermalZone_eq_some hm
    obtain ⟨v', rfl⟩ := thermalZone_eq_some hm'
    have hEq := congrArg (fun s => s.2.1) hSeries
    exact hNe (Option.some.inj hEq)

theorem seriesDistinct_tcpconns {src : Sources} :
    SeriesDistinct (tcpconnsRead src procBase : ReadResult D).metrics := by
  have hNames : ((tcpStateNames.zipIdx 1).map Prod.fst).Nodup := by decide
  unfold tcpconnsRead
  simp only
  split
  · exact List.Pairwise.nil
  · simp only [SeriesDistinct, ReadResult.ok]
    rw [List.pairwise_filterMap]
    rw [List.Nodup, List.pairwise_map] at hNames
    refine hNames.imp ?_
    intro p p' hNe m hm m' hm' hSeries
    split at hm
    · cases hm
    · split at hm'
      · cases hm'
      · cases hm
        cases hm'
        have hEq := congrArg (fun s => s.2.2.2) hSeries
        exact hNe (Option.some.inj hEq)

theorem seriesDistinct_memory {src : Sources} :
    SeriesDistinct (memoryRead src procBase : ReadResult D).metrics := by
  unfold memoryRead
  split
  · exact List.Pairwise.nil
  · simp only
    split
    · exact List.Pairwise.nil
    · apply seriesDistinct_of_part fun series => series.2.2.2
      show [some (ascii "used"), some (ascii "cached"), some (ascii "buffered")].Nodup
      decide

theorem seriesDistinct_swap {src : Sources} :
    SeriesDistinct (swapRead src procBase : ReadResult D).metrics := by
  unfold swapRead
  split
  · exact List.Pairwise.nil
  · simp only
    split
    · exact List.Pairwise.nil
    · apply seriesDistinct_of_part fun series => series.2.2.2
      show [some (ascii "used"), some (ascii "free")].Nodup
      decide

theorem seriesDistinct_cpu {src : Sources} {st : CpuState} :
    SeriesDistinct (cpuRead src procBase st : CpuState × ReadResult D).2.metrics := by
  apply seriesDistinct_of_length
  unfold cpuRead
  split
  · simp [ReadResult.fail]
  · split
    · simp [ReadResult.fail]
    · simp only [ReadResult.ok]
      split <;> simp

theorem seriesDistinct_load {src : Sources} :
    SeriesDistinct (loadRead src procBase : ReadResult D).metrics := by
  apply seriesDistinct_of_length
  unfold loadRead
  split
  · simp [ReadResult.fail]
  · split <;> simp [ReadResult.fail, ReadResult.ok]

theorem seriesDistinct_uptime {src : Sources} :
    SeriesDistinct (uptimeRead src procBase : ReadResult D).metrics := by
  apply seriesDistinct_of_length
  unfold uptimeRead
  split
  · simp [ReadResult.fail]
  · split <;> simp [ReadResult.fail, ReadResult.ok]

/-- Each reader emits a series once. -/
theorem seriesDistinct_read {srcs : Reader → Sources} (h : DistinctNames srcs) (st : CpuState)
    (r : Reader) : SeriesDistinct (r.read (srcs r) st : CpuState × ReadResult D).2.metrics := by
  cases r with
  | cpu => exact seriesDistinct_cpu
  | load => exact seriesDistinct_load
  | uptime => exact seriesDistinct_uptime
  | memory => exact seriesDistinct_memory
  | swap => exact seriesDistinct_swap
  | interface => exact seriesDistinct_interface h.interfaces
  | disk => exact seriesDistinct_disk h.disks
  | df => exact seriesDistinct_df h.mounts
  | processes => exact seriesDistinct_processes
  | thermal => exact seriesDistinct_thermal h.zones
  | tcpconns => exact seriesDistinct_tcpconns

/-- The plugin of a reader's metrics. -/
def Reader.plugin : Reader → Bytes
  | .cpu => ascii "cpu"
  | .load => ascii "load"
  | .uptime => ascii "uptime"
  | .memory => ascii "memory"
  | .swap => ascii "swap"
  | .interface => ascii "interface"
  | .disk => ascii "disk"
  | .df => ascii "df"
  | .processes => ascii "processes"
  | .thermal => ascii "thermal"
  | .tcpconns => ascii "tcpconns"

theorem plugin_of_shape {r : Reader} {m : Metric D} (h : Shape r m) : m.plugin = r.plugin := by
  cases h <;> rfl

theorem reader_eq_of_plugin_eq {r r' : Reader} (h : r.plugin = r'.plugin) : r = r' := by
  revert h
  cases r <;> cases r' <;> decide

/-- The plugin says which reader emitted a metric. -/
theorem reader_eq_of_shapes {r r' : Reader} {m m' : Metric D} (h : Shape r m) (h' : Shape r' m')
    (hPlugin : m.plugin = m'.plugin) : r = r' := by
  rw [plugin_of_shape h, plugin_of_shape h'] at hPlugin
  exact reader_eq_of_plugin_eq hPlugin

/-- No series is emitted twice in a cycle. -/
theorem seriesDistinct_collectCycle {srcs : Reader → Sources} (h : DistinctNames srcs)
    {enabled : List Reader} (hEnabled : enabled.Nodup) (st : CpuState) :
    SeriesDistinct (collectCycle srcs st enabled : CpuState × List (Metric D)).2 := by
  induction enabled generalizing st with
  | nil => exact List.Pairwise.nil
  | cons r enabled ih =>
      rw [List.nodup_cons] at hEnabled
      refine List.pairwise_append.mpr ⟨seriesDistinct_read h st r, ih hEnabled.2 _, ?_⟩
      intro m hm m' hm' hSeries
      obtain ⟨r', hr', st', hm'⟩ := mem_collectCycle hm'
      have hPlugin : m.plugin = m'.plugin := congrArg Prod.fst hSeries
      have hReader := reader_eq_of_shapes (shape_of_mem_read hm) (shape_of_mem_read hm') hPlugin
      exact hEnabled.1 (hReader ▸ hr')

/-! ## Paths -/

/-- Plugins and types hold no dash. -/
theorem kind_dashes {plugin type : Bytes} {dsCount : Int}
    (h : (plugin, type, dsCount) ∈ metricKinds) : dash ∉ plugin ∧ dash ∉ type := by
  have hAll : ∀ k ∈ metricKinds, dash ∉ k.1 ∧ dash ∉ k.2.1 := by decide
  exact hAll _ h

/-- The thermal reader takes its directory from a file name, the others have fixed
type instances. -/
theorem slashFree_side {r : Reader} {m : Metric D} (h : Shape r m) :
    if r = .thermal then ∀ s ∈ m.pluginInstance, slash ∉ s
    else ∀ s ∈ m.typeInstance, slash ∉ s := by
  by_cases hOther : r ∈ [Reader.interface, .processes, .thermal]
  · cases h with
    | interface => exact fun s hs => nomatch hs
    | processes => exact fun s hs => nomatch hs
    | thermal hZone => exact fun s hs => by cases hs; exact hZone.slash
    | _ => simp at hOther
  · have hFree := slashFree_of_shape h hOther
    split
    · exact hFree.1
    · exact hFree.2

theorem plugin_eq_of_dir_eq {name name' file file' : Bytes} {inst inst' : Option Bytes}
    (hName : dash ∉ name ∧ slash ∉ name) (hName' : dash ∉ name' ∧ slash ∉ name')
    (h : dashed name inst ++ slash :: file = dashed name' inst' ++ slash :: file') :
    name = name' := by
  have hFront : ∀ {u v : Bytes} {i : Option Bytes}, dash ∉ u ∧ slash ∉ u →
      (dashed u i ++ slash :: v).takeWhile (fun b => b != dash && b != slash) = u := by
    intro u v i hu
    have hRun : ∀ b ∈ u, (b != dash && b != slash) = true := by
      intro b hb
      simp only [Bool.and_eq_true, bne_iff_ne]
      exact ⟨fun hEq => hu.1 (hEq ▸ hb), fun hEq => hu.2 (hEq ▸ hb)⟩
    cases i with
    | none => simp [dashed, List.takeWhile_append_of_pos hRun]
    | some t => simp [dashed, List.takeWhile_append_of_pos hRun]
  rw [← hFront hName, h, hFront hName']

/-- A series has a path of its own. -/
theorem series_eq_of_fullPath_eq {r r' : Reader} {m m' : Metric D} (h : Shape r m)
    (h' : Shape r' m') {base host : Bytes}
    (hPath : fullPath base host m = fullPath base host m') : m.series = m'.series := by
  obtain ⟨⟨-, hPluginSlash, -⟩, -, hTypeSlash, -⟩ := kind_names (kind_of_shape h)
  obtain ⟨⟨-, hPluginSlash', -⟩, -, hTypeSlash', -⟩ := kind_names (kind_of_shape h')
  obtain ⟨hPluginDash, hTypeDash⟩ := kind_dashes (kind_of_shape h)
  obtain ⟨hPluginDash', hTypeDash'⟩ := kind_dashes (kind_of_shape h')
  have hRrd : slash ∉ ascii ".rrd" := by decide
  simp only [fullPath, List.append_cancel_left_eq, List.cons.injEq, true_and] at hPath
  -- the plugin ends at the first dash or slash, and tells which reader it was
  have hPlugin :=
    plugin_eq_of_dir_eq ⟨hPluginDash, hPluginSlash⟩ ⟨hPluginDash', hPluginSlash'⟩ hPath
  obtain rfl := reader_eq_of_shapes h h' hPlugin
  -- instances may hold slashes, but of no reader on both sides of the separator: cut the
  -- path at the first slash for the thermal reader and at the last one for the others
  have hSide := slashFree_side h
  have hSide' := slashFree_side h'
  have hParts : dashed m.plugin m.pluginInstance = dashed m'.plugin m'.pluginInstance ∧
      dashed m.type m.typeInstance ++ ascii ".rrd" =
        dashed m'.type m'.typeInstance ++ ascii ".rrd" := by
    split at hSide
    · rename_i hThermal
      rw [if_pos hThermal] at hSide'
      exact append_cons_inj ((slash_notMem_dashed_iff hPluginSlash).mpr hSide)
        ((slash_notMem_dashed_iff hPluginSlash').mpr hSide') hPath
    · rename_i hOther
      rw [if_neg hOther] at hSide'
      have hFile := (slash_notMem_dashed_iff hTypeSlash).mpr hSide
      have hFile' := (slash_notMem_dashed_iff hTypeSlash').mpr hSide'
      exact append_cons_inj_right (by simp [hFile, hRrd]) (by simp [hFile', hRrd]) hPath
  obtain ⟨-, hPi⟩ := dashed_inj hPluginDash hPluginDash' hParts.1
  obtain ⟨hType, hTi⟩ := dashed_inj hTypeDash hTypeDash' (List.append_cancel_right hParts.2)
  simp only [Metric.series, hPlugin, hPi, hType, hTi]

/-! ## Sample lines -/

section Labels

open Prom

theorem rule_of_kind {plugin type : Bytes} {dsCount : Int}
    (h : (plugin, type, dsCount) ∈ metricKinds) :
    ∃ rule, findRule plugin type = some rule ∧ RuleFits rule dsCount := by
  have hAll : ∀ k ∈ metricKinds, ((findRule k.1 k.2.1).any fun rule =>
      decide ((labelKeys rule).Nodup ∧ rule.dsValues.Nodup ∧
        (rule.dsLabel = none → k.2.2 = 1) ∧
        (rule.dsLabel ≠ none → k.2.2 ≤ rule.dsValues.length))) = true := by
    decide
  obtain ⟨rule, hRule, hFits⟩ := Option.any_eq_true _ _ |>.mp (hAll _ h)
  obtain ⟨hKeys, hValues, hSingle, hSeveral⟩ := of_decide_eq_true hFits
  exact ⟨rule, hRule, hKeys, hValues, hSingle, hSeveral⟩

/-- The rule of a metric with a plugin instance has a label for it, except for the
constant one of the cpu reader. -/
theorem piLabel_of_shape {r : Reader} {m : Metric D} (h : Shape r m) (hCpu : r ≠ .cpu)
    (hSome : m.pluginInstance ≠ none) {rule : PromRule}
    (hRule : findRule m.plugin m.type = some rule) : ∃ key, rule.piLabel = some key := by
  have hAll : ∀ k ∈ metricKinds, k.1 ∈ [Reader.interface, .disk, .df, .processes, .thermal].map
      Reader.plugin → ((findRule k.1 k.2.1).bind PromRule.piLabel).isSome := by
    decide
  have hPlugin : m.plugin ∈ [Reader.interface, .disk, .df, .processes, .thermal].map
      Reader.plugin := by
    rw [plugin_of_shape h]
    apply List.mem_map_of_mem
    cases h with
    | cpu => exact absurd rfl hCpu
    | interface => decide
    | disk => decide
    | df => decide
    | processes => decide
    | thermal => decide
    | _ => exact absurd rfl hSome
  have hLabel := hAll _ (kind_of_shape h) hPlugin
  rw [hRule] at hLabel
  exact Option.isSome_iff_exists.mp hLabel

theorem tiLabel_of_shape {r : Reader} {m : Metric D} (h : Shape r m)
    (hSome : m.typeInstance ≠ none) {rule : PromRule}
    (hRule : findRule m.plugin m.type = some rule) : ∃ key, rule.tiLabel = some key := by
  have hAll : ∀ k ∈ metricKinds, k.1 ∈ [Reader.cpu, .memory, .swap, .df, .thermal, .tcpconns].map
      Reader.plugin → ((findRule k.1 k.2.1).bind PromRule.tiLabel).isSome := by
    decide
  have hPlugin : m.plugin ∈ [Reader.cpu, .memory, .swap, .df, .thermal, .tcpconns].map
      Reader.plugin := by
    rw [plugin_of_shape h]
    apply List.mem_map_of_mem
    cases h with
    | cpu => decide
    | memory => decide
    | swap => decide
    | df => decide
    | thermal => decide
    | tcpconns => decide
    | _ => exact absurd rfl hSome
  have hLabel := hAll _ (kind_of_shape h) hPlugin
  rw [hRule] at hLabel
  exact Option.isSome_iff_exists.mp hLabel

theorem instance_eq_of_forall {inst inst' : Option Bytes}
    (h : ∀ s, inst = some s → inst' = some s) (h' : ∀ s, inst' = some s → inst = some s) :
    inst = inst' := by
  cases inst with
  | none =>
      cases inst' with
      | none => rfl
      | some s => exact h' s rfl
  | some s => exact (h s rfl).symm

/-- A sample line names its series and its data source. -/
theorem series_eq_of_labels_eq {r r' : Reader} {m m' : Metric D} (h : Shape r m)
    (h' : Shape r' m') (hPlugin : m.plugin = m'.plugin) (hType : m.type = m'.type)
    {rule : PromRule} (hRule : findRule m.plugin m.type = some rule) {di di' : Nat}
    (hdi : (di : Int) < m.dsCount) (hdi' : (di' : Int) < m'.dsCount)
    (hLabels : ∀ l, l ∈ ruleLabels rule m di ↔ l ∈ ruleLabels rule m' di') :
    m.series = m'.series ∧ di = di' := by
  obtain rfl := reader_eq_of_shapes h h' hPlugin
  have hRule' : findRule m'.plugin m'.type = some rule := by rwa [← hPlugin, ← hType]
  obtain ⟨rule', hFound, hFits⟩ := rule_of_kind (kind_of_shape h)
  obtain ⟨rule'', hFound', hFits'⟩ := rule_of_kind (kind_of_shape h')
  obtain rfl : rule' = rule := Option.some.inj (hFound.symm.trans hRule)
  obtain rfl : rule'' = rule' := Option.some.inj (hFound'.symm.trans hRule')
  have hThere : ∀ l ∈ ruleLabels rule'' m di, l ∈ ruleLabels rule'' m' di' :=
    fun l => (hLabels l).mp
  have hBack : ∀ l ∈ ruleLabels rule'' m' di', l ∈ ruleLabels rule'' m di :=
    fun l => (hLabels l).mpr
  obtain ⟨hPi, hTi⟩ := instances_of_shape h
  obtain ⟨hPi', hTi'⟩ := instances_of_shape h'
  have hPluginInstance : m.pluginInstance = m'.pluginInstance := by
    -- the rule of the cpu reader has no label for its constant instance
    by_cases hCpu : r = .cpu
    · subst hCpu
      cases h
      cases h'
      rfl
    · apply instance_eq_of_forall
      · intro s hs
        obtain ⟨key, hKey⟩ := piLabel_of_shape h hCpu (by simp [hs]) hRule
        exact pluginInstance_of_labels hFits.keys hThere hKey hs (hPi s hs).ne_nil
      · intro s hs
        obtain ⟨key, hKey⟩ := piLabel_of_shape h' hCpu (by simp [hs]) hRule'
        exact pluginInstance_of_labels hFits.keys hBack hKey hs (hPi' s hs).ne_nil
  have hTypeInstance : m.typeInstance = m'.typeInstance := by
    apply instance_eq_of_forall
    · intro s hs
      obtain ⟨key, hKey⟩ := tiLabel_of_shape h (by simp [hs]) hRule
      exact typeInstance_of_labels hFits.keys hThere hKey hs (hTi s hs).ne_nil
    · intro s hs
      obtain ⟨key, hKey⟩ := tiLabel_of_shape h' (by simp [hs]) hRule'
      exact typeInstance_of_labels hFits.keys hBack hKey hs (hTi' s hs).ne_nil
  refine ⟨by simp only [Metric.series, hPlugin, hType, hPluginInstance, hTypeInstance], ?_⟩
  exact dsIndex_of_labels hFits hFits' hdi hdi' hThere

variable [Inhabited D] {printf : Printf D}

/-- A metric has one sample line per data source. -/
theorem metricSamples_pairwise {r : Reader} {m : Metric D} (h : Shape r m) :
    (metricSamples printf m).Pairwise fun x x' => ¬ SameLine x x' := by
  unfold metricSamples
  split
  · exact List.Pairwise.nil
  · rename_i rule hRule
    rw [List.pairwise_map]
    refine List.nodup_range.imp_of_mem ?_
    intro di di' hdi hdi' hNe hSame
    rw [List.mem_range] at hdi hdi'
    exact hNe (series_eq_of_labels_eq h h rfl rfl hRule (by omega) (by omega) hSame.2).2

/-- Metrics of distinct series share no sample line. -/
theorem metricSamples_apart {r r' : Reader} {m m' : Metric D} (h : Shape r m) (h' : Shape r' m')
    (hSeries : m.series ≠ m'.series) {x x' : Bytes × Exposition.Sample}
    (hx : x ∈ metricSamples printf m) (hx' : x' ∈ metricSamples printf m') : ¬ SameLine x x' := by
  rintro ⟨hFamily, hLabels⟩
  obtain ⟨rule, di, hRule, hdi, hx, hxLabels⟩ := mem_metricSamples hx
  obtain ⟨rule', di', hRule', hdi', hx', hxLabels'⟩ := mem_metricSamples hx'
  obtain ⟨hMem, hPlugin, hType⟩ := findRule_eq_some hRule
  obtain ⟨hMem', hPlugin', hType'⟩ := findRule_eq_some hRule'
  obtain rfl : rule = rule' := eq_of_family_eq hMem hMem' (by rw [← hx, hFamily, hx'])
  rw [hxLabels, hxLabels'] at hLabels
  exact hSeries (series_eq_of_labels_eq h h' (hPlugin.symm.trans hPlugin')
    (hType.symm.trans hType') hRule hdi hdi' hLabels).1

end Labels

/-! ## A whole cycle -/

/-- The instances of emitted metrics fit the snapshot. -/
theorem instancesFit_of_shape {r : Reader} {m : Metric D} (h : Shape r m) :
    Prom.InstancesFit m := by
  obtain ⟨hPi, hTi⟩ := instances_of_shape h
  refine ⟨fun s hs => ⟨(hPi s hs).zero, (hPi s hs).length⟩, fun s hs => ⟨(hTi s hs).zero, ?_⟩⟩
  have := (hTi s hs).length
  omega

/-- Slashes and dashes are not told apart. -/
def slashToDash (b : Byte) : Byte := if b = slash then dash else b

theorem map_slashToDash_eq_root {s : Bytes} :
    s.map slashToDash = ascii "root" ↔ s = ascii "root" := by
  have hRoot : (ascii "root").map slashToDash = ascii "root" := by decide
  constructor
  · -- the image has no dash, so no slash was replaced
    intro h
    have hDash : dash ∉ s.map slashToDash := by
      rw [h]
      decide
    have hSame : s.map slashToDash = s.map id := by
      apply List.map_congr_left
      intro b hb
      by_cases hSlash : b = slash
      · exact absurd (List.mem_map.mpr ⟨b, hb, by simp [slashToDash, hSlash]⟩) hDash
      · simp [slashToDash, hSlash]
    rw [List.map_id] at hSame
    rw [← hSame, h]
  · rintro rfl
    exact hRoot

/-- Two absolute mount points get one instance exactly if they differ in slashes and
dashes only, or if they are the root and `/root`. -/
theorem mountToInstance_eq_iff {mount mount' : Bytes} (hAbs : mount.head? = some slash)
    (hAbs' : mount'.head? = some slash) (hShort : mount.length < 256)
    (hShort' : mount'.length < 256) :
    mountToInstance mount 256 = mountToInstance mount' 256 ↔
      mount.tail.map slashToDash = mount'.tail.map slashToDash ∨
        (mount = ascii "/" ∧ mount' = ascii "/root") ∨
        (mount = ascii "/root" ∧ mount' = ascii "/") := by
  have hRootPath : ascii "/root" = slash :: ascii "root" := by decide
  have hRoot : ascii "/" = [slash] := by decide
  have hNonempty : ascii "root" ≠ [] := by decide
  obtain ⟨name, rfl⟩ : ∃ name, mount = slash :: name := List.head?_eq_some_iff.mp hAbs
  obtain ⟨name', rfl⟩ : ∃ name', mount' = slash :: name' := List.head?_eq_some_iff.mp hAbs'
  rw [mountToInstance_eq_mountName hShort, mountToInstance_eq_mountName hShort', hRootPath, hRoot]
  have hName : ∀ t : Bytes, mountName (slash :: t) =
      if t = [] then ascii "root" else t.map slashToDash := by
    intro t
    have hMap : (t.map fun b => if b = slash then dash else b) = t.map slashToDash := rfl
    simp [mountName, hMap]
  rw [hName, hName, List.tail_cons, List.tail_cons]
  by_cases h : name = []
  · by_cases h' : name' = []
    · simp [h, h']
    · rw [if_pos h, if_neg h', eq_comm, map_slashToDash_eq_root]
      simp [h, hNonempty.symm, eq_comm, h']
  · by_cases h' : name' = []
    · rw [if_neg h, if_pos h', map_slashToDash_eq_root]
      simp [h', h]
    · simp [h, h']

/-- **One writer per series.**  If the names in the sources are distinct, mount points
in collectd's convention, then for every request of readers no two metrics of a cycle
have the same path, and no two lines of what is rendered from it, with the memory it needs,
have the same family and the same labels.  Two mount points get one instance only if they differ in slashes
and dashes, or if they are the root and `/root`. -/
theorem collectCycle_one_writer_per_series [Inhabited D] {printf : Printf D}
    {srcs : Reader → Sources} (hNames : DistinctNames srcs)
    (readers : Option (List (Option Bytes))) (max : Nat) (st : CpuState) {o : Oracle}
    {qsort : Prom.Qsort} (ho : o.Succeeds) (hSort : Prom.SortsFamilies qsort)
    (hVal : ∀ v, Exposition.space ∉ Prom.fmtVal printf 64 v ∧
      Exposition.newline ∉ Prom.fmtVal printf 64 v) :
    (collectCycle srcs st (collectBuildEnabled readers max) : CpuState × List (Metric D)).2.Pairwise
        (fun m m' => ∀ n base host out, metricToPath n base host m = (0, out) →
          metricToPath n base host m' ≠ (0, out)) ∧
      ((collectCycle srcs st (collectBuildEnabled readers max) : CpuState × List (Metric D)).2 ≠ [] →
        Yields (Prom.renderToDstring o printf qsort Prom.DString.zero
            ((collectCycle srcs st (collectBuildEnabled readers max)).2.map Prom.copyMetric)) fun d =>
          ∃ blocks, Exposition.parse (cstr d.cells) = some blocks ∧
            (Prom.blockSamples blocks).Pairwise fun x x' => ¬ Prom.SameLine x x') ∧
      ∀ mount mount' : Bytes, mount.head? = some slash → mount'.head? = some slash →
        mount.length < 256 → mount'.length < 256 →
        (mountToInstance mount 256 = mountToInstance mount' 256 ↔
          mount.tail.map slashToDash = mount'.tail.map slashToDash ∨
            (mount = ascii "/" ∧ mount' = ascii "/root") ∨
            (mount = ascii "/root" ∧ mount' = ascii "/")) := by
  have hDistinct := @seriesDistinct_collectCycle D _ srcs hNames _
    (collectBuildEnabled_nodup readers max) st
  generalize hCycle : (collectCycle srcs st (collectBuildEnabled readers max) :
    CpuState × List (Metric D)).2 = ms at hDistinct
  have hShape : ∀ m ∈ ms, ∃ r, Shape r m := by
    intro m hm
    rw [← hCycle] at hm
    obtain ⟨r, -, st', hm⟩ := mem_collectCycle hm
    exact ⟨r, shape_of_mem_read hm⟩
  refine ⟨?_, ?_, fun mount mount' => mountToInstance_eq_iff⟩
  · -- files: a path that was written in full names its series
    refine hDistinct.imp_of_mem ?_
    intro m m' hm hm' hSeries n base host out hPath hPath'
    obtain ⟨r, hr⟩ := hShape m hm
    obtain ⟨r', hr'⟩ := hShape m' hm'
    have hSame := (metricToPath_eq_zero hPath).symm.trans (metricToPath_eq_zero hPath')
    exact hSeries (series_eq_of_fullPath_eq hr hr' (List.append_cancel_right hSame))
  · -- lines: what is parsed back is the samples of the metrics, sorted by family
    intro hne
    have hFit : ∀ m ∈ ms, Prom.InstancesFit m := fun m hm =>
      instancesFit_of_shape (hShape m hm).choose_spec
    have hLines : (ms.flatMap (Prom.metricSamples printf)).Pairwise fun x x' =>
        ¬ Prom.SameLine x x' := by
      rw [List.pairwise_flatMap]
      refine ⟨fun m hm => metricSamples_pairwise (hShape m hm).choose_spec, ?_⟩
      refine hDistinct.imp_of_mem ?_
      intro m m' hm hm' hSeries x hx x' hx'
      exact metricSamples_apart (hShape m hm).choose_spec (hShape m' hm').choose_spec hSeries hx hx'
    have hSymm : ∀ {x x'}, ¬ Prom.SameLine x x' → ¬ Prom.SameLine x' x := fun hNot hSame =>
      hNot ⟨hSame.1.symm, fun l => (hSame.2 l).symm⟩
    intro k
    exact ⟨_, Prom.parse_renderedBlocks hne hFit ho hSort hVal k,
      ((Prom.blockSamples_renderedBlocks hFit hSort).pairwise_iff hSymm).mpr hLines⟩

/-- A system with two interfaces and the given mounts, each of them 40 blocks large. -/
def mountedSources (mounts : Bytes) : Sources where
  file path :=
    if path = ascii "/proc/mounts" then some mounts
    else if path = ascii "/proc/net/dev" then
      some (ascii "Inter-|\n face |\n" ++ ascii "  eth0: 1 2 3 4 5 6 7 8 9 10 11 12\n" ++
        ascii "  eth1: 1 2 3 4 5 6 7 8 9 10 11 12\n")
    else none
  dir _ := none
  statvfs _ := some { blocks := 40, bfree := 30, bavail := 20, frsize := 4096 }
  pageSize := 4096
  isFileName := isFileName_of_no_dir

def homeMounts : Bytes := ascii "/dev/sda1 / ext4 rw 0 0\n/dev/sda2 /home ext4 rw 0 0\n"

theorem homeMounts_distinctNames : DistinctNames fun _ => mountedSources homeMounts where
  interfaces := by
    rintro content ⟨⟩
    decide
  disks := fun _ hFile => nomatch hFile
  mounts := by
    rintro content ⟨⟩
    decide
  zones := fun _ hDir => nomatch hDir

theorem homeMounts_one_writer_per_series :
    (collectCycle (fun _ => mountedSources homeMounts) CpuState.initial
        (collectBuildEnabled none 32) : CpuState × List (Metric Double)).2.Pairwise
      (fun m m' => ∀ n base host out, metricToPath n base host m = (0, out) →
        metricToPath n base host m' ≠ (0, out)) ∧
    Yields (Prom.renderToDstring (fun _ => some fun _ => 0) integralPrintf Prom.stableQsort
        Prom.DString.zero ((collectCycle (fun _ => mountedSources homeMounts) CpuState.initial
          (collectBuildEnabled none 32) : CpuState × List (Metric Double)).2.map
            Prom.copyMetric)) fun d =>
      ∃ blocks, Exposition.parse (cstr d.cells) = some blocks ∧
        (Prom.blockSamples blocks).Pairwise fun x x' => ¬ Prom.SameLine x x' := by
  obtain ⟨hPaths, hLines, -⟩ := collectCycle_one_writer_per_series homeMounts_distinctNames none 32
    CpuState.initial (o := fun _ => some fun _ => 0) (fun _ => rfl) Prom.stableQsort_sorts
    fun v => ⟨Prom.fmtVal_integralPrintf v (by decide) (by decide),
      Prom.fmtVal_integralPrintf v (by decide) (by decide)⟩
  refine ⟨hPaths, hLines ?_⟩
  apply List.ne_nil_of_length_pos
  decide

def dashedMounts : Bytes := ascii "/dev/sda1 /a/b ext4 rw 0 0\n/dev/sda2 /a-b ext4 rw 0 0\n"

theorem dashedMounts_share_a_series :
    (((fgetsLines 512 dashedMounts).filterMap (dfLine (mountedSources dashedMounts))).map
        Prod.fst).Nodup ∧
      ¬ (collectCycle (fun _ => mountedSources dashedMounts) CpuState.initial [.df] :
        CpuState × List (Metric ℚ)).2.Pairwise
          (fun m m' => ∀ n base host out, metricToPath n base host m = (0, out) →
            metricToPath n base host m' ≠ (0, out)) := by
  have hCycle : (collectCycle (fun _ => mountedSources dashedMounts) CpuState.initial [.df] :
      CpuState × List (Metric ℚ)).2 =
      [dfMetric (ascii "a-b") "used" 40960, dfMetric (ascii "a-b") "free" 81920,
        dfMetric (ascii "a-b") "used" 40960, dfMetric (ascii "a-b") "free" 81920] := by
    decide
  refine ⟨by decide, ?_⟩
  rw [hCycle]
  intro hPairwise
  have hPath : metricToPath 4096 [] [] (dfMetric (ascii "a-b") "used" 40960 : Metric ℚ) =
      (0, fullPath [] [] (dfMetric (ascii "a-b") "used" 40960 : Metric ℚ) ++ [0]) := by
    decide
  exact (List.pairwise_cons.mp hPairwise).1 _ (by simp) _ _ _ _ hPath hPath

end SvgdCollect
