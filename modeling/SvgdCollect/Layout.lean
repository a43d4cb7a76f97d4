import SvgdCollect.Readers.Emitted
import SvgdCollect.Writer

/-!
# Where RRD files are created

The collectd layout has one directory and one file below `<datadir>/<host>`.  The
writer puts the instances into the path as they are, so the layout is kept exactly
if no instance holds a slash.  `df` rewrites slashes and `disk` only accepts names
without any; interface names, process names and the types of thermal zones are taken
from the system unchanged.
-/

namespace SvgdCollect

open Lib

variable {D : Type}

/-! ## Paths -/

/-- The path that `writer_write` builds, unless it gives up before. -/
def writerPath (w : Writer) (m : Metric D) : Option Bytes :=
  match typesLookup m.type with
  | none => none
  | some td =>
      if td.dsCount ≠ m.dsCount then none
      else
        let (rc, out) := metricToPath 4096 w.datadir w.host m
        if rc ≠ 0 then none else some out

/-- A buffer with a path of the layout: below `<datadir>/<host>` the directory and the
file of the metric, neither of them empty or with a slash in it. -/
def InLayout (w : Writer) (m : Metric D) (out : Bytes) : Prop :=
  ∃ dir file, out = w.datadir ++ slash :: (w.host ++ slash :: (dir ++ slash :: file)) ++ [0] ∧
    dir = dashed m.plugin m.pluginInstance ∧
    file = dashed m.type m.typeInstance ++ ascii ".rrd" ∧
    dir ≠ [] ∧ slash ∉ dir ∧ file ≠ [] ∧ slash ∉ file

/-- The instances of a metric hold no slash. -/
def SlashFree (m : Metric D) : Prop :=
  (∀ s ∈ m.pluginInstance, slash ∉ s) ∧ ∀ s ∈ m.typeInstance, slash ∉ s

/-- The writer knows the types of all metrics. -/
theorem typesLookup_of_kind {plugin type : Bytes} {dsCount : Int}
    (h : (plugin, type, dsCount) ∈ metricKinds) :
    ∃ td, typesLookup type = some td ∧ td.dsCount = dsCount := by
  have hAll : ∀ k ∈ metricKinds, (typesLookup k.2.1).map TypeDef.dsCount = some k.2.2 := by
    decide
  exact Option.map_eq_some_iff.mp (hAll _ h)

/-- Plugins and types are short and hold no slash. -/
theorem kind_names {plugin type : Bytes} {dsCount : Int}
    (h : (plugin, type, dsCount) ∈ metricKinds) :
    (plugin ≠ [] ∧ slash ∉ plugin ∧ plugin.length < 64) ∧
      type ≠ [] ∧ slash ∉ type ∧ type.length < 64 := by
  have hAll : ∀ k ∈ metricKinds, (k.1 ≠ [] ∧ slash ∉ k.1 ∧ k.1.length < 64) ∧
      k.2.1 ≠ [] ∧ slash ∉ k.2.1 ∧ k.2.1.length < 64 := by
    decide
  exact hAll _ h

theorem length_dashed_lt {name : Bytes} {inst : Option Bytes} {n k : Nat} (hName : name.length < n)
    (hInst : ∀ s ∈ inst, s.length < k) : (dashed name inst).length < n + k + 1 := by
  cases inst with
  | none =>
      rw [dashed]
      omega
  | some s =>
      have := hInst s rfl
      rw [dashed, List.length_append, List.length_cons]
      omega

theorem writerPath_eq_some {w : Writer} {m : Metric D} {out : Bytes}
    (h : writerPath w m = some out) : out = fullPath w.datadir w.host m ++ [0] := by
  unfold writerPath at h
  split at h
  · cases h
  · split at h
    · cases h
    · simp only at h
      split at h
      · cases h
      · rename_i hRc
        refine @metricToPath_eq_zero D 4096 w.datadir w.host out m ?_
        rw [← Option.some.inj h, ← not_not.mp hRc]

variable [CDouble D]

/-- Below a short directory the writer builds a path for every emitted metric. -/
theorem writerPath_of_shape {r : Reader} {m : Metric D} (h : Shape r m) {w : Writer}
    (hShort : w.datadir.length + w.host.length < 3000) :
    writerPath w m = some (fullPath w.datadir w.host m ++ [0]) := by
  obtain ⟨td, hType, hCount⟩ := typesLookup_of_kind (kind_of_shape h)
  obtain ⟨⟨-, -, hPlugin⟩, -, -, hName⟩ := kind_names (kind_of_shape h)
  obtain ⟨hPi, hTi⟩ := instances_of_shape h
  have hRrd : (ascii ".rrd").length = 4 := by decide
  have hDir := length_dashed_lt hPlugin fun s hs => (hPi s hs).length
  have hFile := length_dashed_lt hName fun s hs => (hTi s hs).length
  have hFits : (fullPath w.datadir w.host m).length < 4096 := by
    simp only [fullPath, List.length_append, List.length_cons, hRrd]
    omega
  have hPath := @metricToPath_of_fits D 4096 w.datadir w.host m
    (by rw [List.length_append, hRrd]; omega) hFits (intTexts_of_lt (by omega))
  simp only [writerPath, hType, hCount, hPath, ne_eq, not_true_eq_false, if_false]

/-- The paths of an emitted metric are in the layout exactly if its instances hold no
slash. -/
theorem inLayout_iff_slashFree {r : Reader} {m : Metric D} (h : Shape r m) :
    (∀ w out, writerPath w m = some out → InLayout w m out) ↔ SlashFree m := by
  obtain ⟨⟨hPlugin, hPluginSlash, -⟩, hType, hTypeSlash, -⟩ := kind_names (kind_of_shape h)
  have hRrd : slash ∉ ascii ".rrd" := by decide
  constructor
  · -- a writer without data directory and host builds a path for every metric
    intro hAll
    obtain ⟨dir, file, -, rfl, rfl, -, hDir, -, hFile⟩ :=
      hAll ⟨[], [], []⟩ _ (writerPath_of_shape h (by simp))
    rw [List.mem_append, not_or] at hFile
    exact ⟨(slash_notMem_dashed_iff hPluginSlash).mp hDir,
      (slash_notMem_dashed_iff hTypeSlash).mp hFile.1⟩
  · rintro ⟨hPi, hTi⟩ w out hOut
    refine ⟨_, _, writerPath_eq_some hOut, rfl, rfl, ?_,
      (slash_notMem_dashed_iff hPluginSlash).mpr hPi, ?_, ?_⟩
    · cases m.pluginInstance <;> simp [dashed, hPlugin]
    · cases m.typeInstance <;> simp [dashed, hType]
    · rw [List.mem_append, not_or]
      exact ⟨(slash_notMem_dashed_iff hTypeSlash).mpr hTi, hRrd⟩

/-! ## The names that matter -/

/-- A zone with a temperature. -/
def zoneReported (src : Sources) (zone : Bytes) : Prop :=
  ascii "thermal_zone" <+: zone ∧
    ∃ content, src.file (thermalPath (thermalBase procBase) zone "temp") = some content ∧
      (nums (sscanf [.int true] content)).length = 1

/-- The names that a reader takes into an instance unchanged hold no slash: the
interfaces, the process names that get a slot, and the types of the reported zones. -/
def Reader.NamesSlashFree (src : Sources) : Reader → Prop
  | .interface => ∀ content, src.file (procPath procBase "/net/dev") = some content →
      ∀ p ∈ ((fgetsLines 512 content).drop 2).filterMap interfaceLine, slash ∉ p.1
  | .processes => ∀ names, src.dir procBase = some names →
      ∀ comm ∈ (distinctComms (pidSamples src procBase names)).take maxComms, slash ∉ comm
  | .thermal => ∀ names, src.dir thermalDir = some names →
      ∀ zone ∈ names, zoneReported src zone → slash ∉ zoneType src zone
  | _ => True

theorem thermalZone_of_reported {src : Sources} {zone : Bytes} (h : zoneReported src zone) :
    ∃ m : Metric D, thermalZone src (thermalBase procBase) zone = some m := by
  obtain ⟨hZone, content, hFile, hLength⟩ := h
  obtain ⟨v, hNums⟩ := List.length_eq_one_iff.mp hLength
  unfold thermalZone
  rw [if_neg (not_not.mpr hZone), hFile]
  simp only [hNums]
  exact ⟨_, rfl⟩

theorem reported_of_thermalZone {src : Sources} {zone : Bytes} {m : Metric D}
    (h : thermalZone src (thermalBase procBase) zone = some m) : zoneReported src zone := by
  unfold thermalZone at h
  split at h
  · cases h
  · rename_i hZone
    split at h
    · cases h
    · rename_i content hFile
      split at h
      · rename_i v hNums
        exact ⟨not_not.mp hZone, content, hFile, by rw [hNums]; rfl⟩
      · cases h

/-- What holds of the instances of a metric. -/
def Metric.InstancesAll (P : Bytes → Prop) (m : Metric D) : Prop :=
  (∀ s ∈ m.pluginInstance, P s) ∧ ∀ s ∈ m.typeInstance, P s

theorem instancesAll_interface_iff {P : Bytes → Prop} {src : Sources} :
    (∀ m ∈ (interfaceRead src procBase : ReadResult D).metrics, m.InstancesAll P) ↔
      ∀ content, src.file (procPath procBase "/net/dev") = some content →
        ∀ p ∈ ((fgetsLines 512 content).drop 2).filterMap interfaceLine, P p.1 := by
  constructor
  · intro hAll content hFile p hp
    have hMem : interfaceMetric p.1 "if_octets" (p.2.getD 0 0) (p.2.getD 8 0) ∈
        (interfaceRead src procBase : ReadResult D).metrics :=
      mem_interfaceRead.mpr ⟨content, hFile, p, hp, List.mem_cons_self⟩
    exact (hAll _ hMem).1 p.1 rfl
  · intro hNames m hm
    obtain ⟨content, hFile, p, hp, hm⟩ := mem_interfaceRead.mp hm
    have hName := hNames content hFile p hp
    simp only [interfaceMetrics, List.mem_cons, List.not_mem_nil, or_false] at hm
    rcases hm with rfl | rfl | rfl <;> simpa [Metric.InstancesAll, interfaceMetric] using hName

theorem instancesAll_processes_iff {P : Bytes → Prop} {src : Sources} :
    (∀ m ∈ (processesRead src procBase : ReadResult D).metrics, m.InstancesAll P) ↔
      ∀ names, src.dir procBase = some names →
        ∀ comm ∈ (distinctComms (pidSamples src procBase names)).take maxComms, P comm := by
  constructor
  · intro hAll names hDir comm hComm
    have hMem : processMetric comm "ps_rss" [CDouble.ofInt
        (commTotals (pidSamples src procBase names) comm).rssSum] ∈
          (processesRead src procBase : ReadResult D).metrics :=
      mem_processesRead.mpr ⟨names, hDir, comm, hComm, List.mem_cons_self⟩
    exact (hAll _ hMem).1 comm rfl
  · intro hNames m hm
    obtain ⟨names, hDir, comm, hComm, hm⟩ := mem_processesRead.mp hm
    have hName := hNames names hDir comm hComm
    simp only [CommAgg.metrics, List.mem_cons, List.not_mem_nil, or_false] at hm
    rcases hm with rfl | rfl | rfl <;>
      simpa [Metric.InstancesAll, processMetric, commTotals] using hName

theorem instancesAll_thermal_iff {P : Bytes → Prop} (hEmpty : P []) {src : Sources} :
    (∀ m ∈ (thermalRead src procBase : ReadResult D).metrics, m.InstancesAll P) ↔
      ∀ names, src.dir thermalDir = some names →
        ∀ zone ∈ names, zoneReported src zone → P zone ∧ P (zoneType src zone) := by
  constructor
  · intro hAll names hDir zone hZone hReported
    obtain ⟨m, hm⟩ := thermalZone_of_reported (D := D) hReported
    have hInstances := hAll m (mem_thermalRead.mpr ⟨names, hDir, zone, hZone, hm⟩)
    obtain ⟨v, rfl⟩ := thermalZone_eq_some hm
    refine ⟨hInstances.1 zone rfl, ?_⟩
    -- an empty type is left out of the metric
    by_cases hType : zoneType src zone = []
    · rw [hType]
      exact hEmpty
    · exact hInstances.2 (zoneType src zone) (by rw [if_pos hType]; rfl)
  · intro hNames m hm
    obtain ⟨names, hDir, zone, hZone, hm⟩ := mem_thermalRead.mp hm
    obtain ⟨hName, hType⟩ := hNames names hDir zone hZone (reported_of_thermalZone hm)
    obtain ⟨v, rfl⟩ := thermalZone_eq_some hm
    refine ⟨by rintro s ⟨⟩; exact hName, fun s hs => ?_⟩
    split at hs
    · cases hs
      exact hType
    · cases hs

theorem slashFree_interface_iff {src : Sources} :
    (∀ m ∈ (interfaceRead src procBase : ReadResult D).metrics, SlashFree m) ↔
      Reader.interface.NamesSlashFree src :=
  @instancesAll_interface_iff D _ (slash ∉ ·) src

theorem slashFree_processes_iff {src : Sources} :
    (∀ m ∈ (processesRead src procBase : ReadResult D).metrics, SlashFree m) ↔
      Reader.processes.NamesSlashFree src :=
  @instancesAll_processes_iff D _ (slash ∉ ·) src

theorem slashFree_thermal_iff {src : Sources} :
    (∀ m ∈ (thermalRead src procBase : ReadResult D).metrics, SlashFree m) ↔
      Reader.thermal.NamesSlashFree src := by
  refine (@instancesAll_thermal_iff D _ (slash ∉ ·) (by simp) src).trans ?_
  constructor
  · exact fun h names hDir zone hZone hReported => (h names hDir zone hZone hReported).2
  · -- the name of a zone is a file name
    exact fun h names hDir zone hZone hReported =>
      ⟨(src.isFileName _ names hDir zone hZone).slash, h names hDir zone hZone hReported⟩

/-- The other readers never put a slash into an instance. -/
theorem slashFree_of_shape {r : Reader} {m : Metric D} (h : Shape r m)
    (hr : r ∉ [Reader.interface, .processes, .thermal]) : SlashFree m := by
  have hConst : ∀ {name : Bytes}, slash ∉ name → ∀ s ∈ some name, slash ∉ s := by
    rintro name hName s ⟨⟩
    exact hName
  have hNone : ∀ s ∈ (none : Option Bytes), slash ∉ s := fun s hs => nomatch hs
  cases h with
  | cpu => exact ⟨hConst (by decide), hConst (by decide)⟩
  | load => exact ⟨hNone, hNone⟩
  | uptime => exact ⟨hNone, hNone⟩
  | memory hTi =>
      simp only [List.mem_cons, List.not_mem_nil, or_false] at hTi
      rcases hTi with rfl | rfl | rfl <;> exact ⟨hNone, hConst (by decide)⟩
  | swap hTi =>
      simp only [List.mem_cons, List.not_mem_nil, or_false] at hTi
      rcases hTi with rfl | rfl <;> exact ⟨hNone, hConst (by decide)⟩
  | interface => simp at hr
  | disk hName hSlash => exact ⟨hConst hSlash, hNone⟩
  | df hName hSlash hTi =>
      simp only [List.mem_cons, List.not_mem_nil, or_false] at hTi
      rcases hTi with rfl | rfl <;> exact ⟨hConst hSlash, hConst (by decide)⟩
  | processes => simp at hr
  | thermal => simp at hr
  | tcpconns hName =>
      have hAll : ∀ name ∈ tcpStateNames, slash ∉ name := by decide
      exact ⟨hNone, hConst (hAll _ hName)⟩

theorem slashFree_read_iff {src : Sources} {r : Reader} :
    (∀ st, ∀ m ∈ (r.read src st : CpuState × ReadResult D).2.metrics, SlashFree m) ↔
      r.NamesSlashFree src := by
  by_cases hr : r ∈ [Reader.interface, .processes, .thermal]
  · simp only [List.mem_cons, List.not_mem_nil, or_false] at hr
    rcases hr with rfl | rfl | rfl
    · exact ⟨fun h => slashFree_interface_iff.mp (h CpuState.initial),
        fun h _ => slashFree_interface_iff.mpr h⟩
    · exact ⟨fun h => slashFree_processes_iff.mp (h CpuState.initial),
        fun h _ => slashFree_processes_iff.mpr h⟩
    · exact ⟨fun h => slashFree_thermal_iff.mp (h CpuState.initial),
        fun h _ => slashFree_thermal_iff.mpr h⟩
  · have hTrue : r.NamesSlashFree src := by
      cases r <;> trivial
    exact ⟨fun _ => hTrue, fun _ st m hm => slashFree_of_shape (shape_of_mem_read hm) hr⟩

/-- **RRD paths and the collectd layout.**  In a cycle of any enabled readers, every
path that the writer builds is in the layout, whatever the data directory and the
host, exactly if the names that end up in instances hold no slash. -/
theorem writerPath_inLayout_iff {srcs : Reader → Sources} {st : CpuState}
    {enabled : List Reader} :
    (∀ m ∈ (collectCycle srcs st enabled : CpuState × List (Metric D)).2,
        ∀ w out, writerPath w m = some out → InLayout w m out) ↔
      ∀ r ∈ enabled, r.NamesSlashFree (srcs r) := by
  have hLayout : ∀ {r : Reader} {src : Sources} {st : CpuState},
      ∀ m ∈ (r.read src st : CpuState × ReadResult D).2.metrics,
        ((∀ w out, writerPath w m = some out → InLayout w m out) ↔ SlashFree m) :=
    fun m hm => inLayout_iff_slashFree (shape_of_mem_read hm)
  rw [forall_collectCycle_iff]
  · constructor
    · intro hAll r hr
      rw [← slashFree_read_iff (D := D)]
      exact fun st' m hm => (hLayout m hm).mp (hAll r hr st' m hm)
    · intro hNames r hr st' m hm
      exact (hLayout m hm).mpr (slashFree_read_iff.mpr (hNames r hr) st' m hm)
  · -- the instances of the cpu reader are fixed
    intro src st' m hm
    exact (hLayout m hm).mpr (slashFree_of_shape (shape_of_mem_read hm) (by decide))

/-- A kernel thread of CPU 0 is running. -/
def kworkerProc : Sources :=
  procSources [ascii "17"] (fun _ => some (processFiles (ascii "kworker/0:1") 100)) (by decide)

def sampleWriter : Writer :=
  { datadir := ascii "/var/lib/rrd", host := ascii "web1", rrdcached := [] }

theorem kworker_path_leaves_layout :
    ∃ m ∈ (collectCycle (fun _ => kworkerProc) CpuState.initial [.processes] :
        CpuState × List (Metric ℚ)).2,
      writerPath sampleWriter m =
          some (ascii "/var/lib/rrd/web1/processes-kworker/0:1/ps_rss.rrd" ++ [0]) ∧
        ¬ InLayout sampleWriter m
          (ascii "/var/lib/rrd/web1/processes-kworker/0:1/ps_rss.rrd" ++ [0]) := by
  have hTable : aggregate (pidSamples kworkerProc procBase [ascii "17"]) =
      [{ comm := ascii "kworker/0:1", rssSum := 204800, utimeSum := 100, stimeSum := 200
         procCount := 1, threadsSum := 5 }] := by
    decide
  have hMem : processMetric (ascii "kworker/0:1") "ps_rss" [CDouble.ofInt 204800] ∈
      (processesRead kworkerProc procBase : ReadResult ℚ).metrics :=
    mem_processesRead_of_aggregate rfl hTable List.mem_cons_self (by simp [CommAgg.metrics])
  refine ⟨_, mem_collectCycle_of_read (List.mem_singleton_self _) fun _ => hMem, ?_, ?_⟩
  · rw [writerPath_of_shape (shape_processes hMem) (by decide)]
    decide
  · rintro ⟨dir, file, -, rfl, -, -, hDir, -⟩
    revert hDir
    decide

end SvgdCollect
