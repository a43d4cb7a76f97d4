import SvgdCollect.Collect

/-!
# What the readers emit

`Shape r m` lists what a metric `m` of the reader `r` can look like, whatever the
files hold: plugin, types and most instances are constants of the source, and the
names that readers lift from files are C strings of bounded length.  Properties of
all emitted metrics are proved by cases on it.
-/

namespace SvgdCollect

open Lib

variable {D : Type} [CDouble D]

/-! ## Names -/

/-- A nonempty C string in an array of `n` bytes. -/
structure IsName (n : Nat) (name : Bytes) : Prop where
  ne_nil : name ≠ []
  zero : 0 ∉ name
  length : name.length < n

theorem IsFileName.isName {name : Bytes} (h : IsFileName name) : IsName 256 name :=
  ⟨h.ne_nil, h.zero, by have := h.length; omega⟩

section Regex

variable {α : Type}

/-- All symbols of an expression satisfy `p`. -/
def usesOnly (p : α → Bool) : RegularExpression α → Bool
  | .zero => true
  | .epsilon => true
  | .char a => p a
  | .plus r s => usesOnly p r && usesOnly p s
  | .comp r s => usesOnly p r && usesOnly p s
  | .star r => usesOnly p r

theorem of_mem_matches {p : α → Bool} {r : RegularExpression α} (h : usesOnly p r = true)
    {w : List α} (hw : w ∈ r.matches') : ∀ a ∈ w, p a = true := by
  induction r generalizing w with
  | zero => cases hw
  | epsilon =>
      rw [Language.mem_one w |>.mp hw]
      simp
  | char a =>
      rw [Set.mem_singleton_iff.mp hw]
      simpa [usesOnly] using h
  | plus r s ihr ihs =>
      simp only [usesOnly, Bool.and_eq_true] at h
      rcases hw with hw | hw
      · exact ihr h.1 hw
      · exact ihs h.2 hw
  | comp r s ihr ihs =>
      simp only [usesOnly, Bool.and_eq_true] at h
      obtain ⟨u, hu, v, hv, rfl⟩ := Language.mem_mul.mp hw
      intro a ha
      rcases List.mem_append.mp ha with ha | ha
      · exact ihr h.1 hu a ha
      · exact ihs h.2 hv a ha
  | star r ih =>
      obtain ⟨parts, rfl, hParts⟩ := Language.mem_kstar.mp hw
      intro a ha
      obtain ⟨part, hPart, ha⟩ := List.mem_flatten.mp ha
      exact ih h (hParts part hPart) a ha

end Regex

theorem slash_notMem_of_isDiskName {name : Bytes} (h : isDiskName name = true) : slash ∉ name := by
  have hOnly : usesOnly (fun b => b != slash) diskNameExpr = true := by decide
  have hMatch := (RegularExpression.rmatch_iff_matches' _ _).mp h
  intro hMem
  have := of_mem_matches hOnly hMatch slash hMem
  simp at this

theorem mem_texts_width {ds : List Directive} {s text : Bytes} {n : Nat}
    (hPlain : ∀ d ∈ ds, d ≠ .hex ∧ d ≠ .float)
    (hWidth : ∀ width, Directive.str width true ∈ ds → ∃ w < n, width = some w) (hZero : 0 ∉ s)
    (h : text ∈ texts (sscanf ds s)) : IsName n text := by
  obtain ⟨hSub, hNonempty, width, s', hDir, rfl⟩ := mem_texts_sscanf hPlain h
  obtain ⟨w, hw, rfl⟩ := hWidth width hDir
  refine ⟨hNonempty, fun hMem => hZero (hSub.subset hMem), ?_⟩
  rw [scanToken, List.length_take]
  omega

/-- A line that is accepted: the name of a disk and the numbers behind it. -/
theorem diskLine_cases {line : Bytes} {p : Bytes × List Int} (h : diskLine line = some p) :
    isDiskName p.1 = true ∧ p.1 ∈ texts (sscanf diskFormat line) ∧
      p.2 = nums (sscanf diskFormat line) := by
  unfold diskLine at h
  simp only at h
  split at h
  · rename_i name fld hTexts
    split at h
    · cases h
    · split at h
      · rename_i hName
        cases h
        exact ⟨hName, by rw [hTexts]; simp, rfl⟩
      · cases h
  · cases h

theorem diskLine_eq_some {line : Bytes} {p : Bytes × List Int} (hLine : 0 ∉ line)
    (h : diskLine line = some p) : IsName 64 p.1 ∧ slash ∉ p.1 := by
  obtain ⟨hName, hText, -⟩ := diskLine_cases h
  refine ⟨@mem_texts_width diskFormat line _ _ ?_ ?_ hLine hText, slash_notMem_of_isDiskName hName⟩
  · simp [diskFormat, longs]
  · simp [diskFormat, longs]

/-- A line that is accepted: the name is what stands between the blanks and the colon, and
the numbers stand behind it. -/
theorem interfaceLine_cases {line : Bytes} {p : Bytes × List Int}
    (h : interfaceLine line = some p) :
    ∃ len rest, 0 < len ∧ len < 64 ∧
      len ≤ (line.dropWhile fun b => b == byte ' ' || b == byte '\t').length ∧
      p.1 = (line.dropWhile fun b => b == byte ' ' || b == byte '\t').take len ∧
      p.2 = nums (sscanf (longs 16) rest) := by
  unfold interfaceLine at h
  simp only at h
  split at h
  · cases h
  · rename_i colon hColon
    split at h
    · cases h
    · rename_i hLength
      split at h
      · cases h
      · split at h
        · cases h
        · cases h
          exact ⟨_, colon.drop 1, by omega, by omega, Nat.sub_le _ _, rfl, rfl⟩

theorem interfaceLine_eq_some {line : Bytes} {p : Bytes × List Int} (hLine : 0 ∉ line)
    (h : interfaceLine line = some p) : IsName 64 p.1 := by
  obtain ⟨len, -, hPos, hShort, hLe, hName, -⟩ := interfaceLine_cases h
  have hZero : 0 ∉ line.dropWhile fun b => b == byte ' ' || b == byte '\t' :=
    fun hMem => hLine ((List.dropWhile_sublist _).subset hMem)
  rw [hName]
  refine ⟨?_, fun hMem => hZero (List.mem_of_mem_take hMem), ?_⟩
  · apply List.ne_nil_of_length_pos
    rwa [List.length_take_of_le hLe]
  · rwa [List.length_take_of_le hLe]

theorem dfLine_eq_some {src : Sources} {line : Bytes} {p : Bytes × StatVfs} (hLine : 0 ∉ line)
    (h : dfLine src line = some p) : IsName 256 p.1 := by
  unfold dfLine at h
  split at h
  · rename_i dev mount fstype opts hTexts
    split at h
    · cases h
    · split at h
      · cases h
      · cases h
        apply @mem_texts_width mountsFormat line _ _ _ _ hLine (by rw [hTexts]; simp)
        · simp [mountsFormat]
        · simp [mountsFormat]
  · cases h

/-- An instance made from a mount point. -/
theorem mountToInstance_isName {mount : Bytes} (h : IsName 256 mount) :
    IsName 256 (mountToInstance mount 256) ∧ slash ∉ mountToInstance mount 256 := by
  have hDash : dash ≠ slash := by decide
  have hDashZero : dash ≠ 0 := by decide
  have hRoot : (ascii "root").take (256 - 1) = ascii "root" := by decide
  simp only [mountToInstance, hRoot]
  set stripped := if mount.head? = some slash then mount.tail else mount with hStripped
  have hSub : stripped.Sublist mount := by
    rw [hStripped]
    split
    · exact List.tail_sublist mount
    · exact List.Sublist.refl mount
  split
  · -- the root of the file system
    exact ⟨⟨by decide, by decide, by decide⟩, by decide⟩
  · rename_i hNonempty
    refine ⟨⟨hNonempty, ?_, ?_⟩, ?_⟩
    · intro hMem
      obtain ⟨b, hb, hZero⟩ := List.mem_map.mp hMem
      split at hZero
      · exact hDashZero hZero
      · exact h.zero (hSub.subset (List.mem_of_mem_take (hZero ▸ hb)))
    · rw [List.length_map, List.length_take]
      omega
    · intro hMem
      obtain ⟨b, -, hSlash⟩ := List.mem_map.mp hMem
      split at hSlash
      · exact hDash hSlash
      · rename_i hNe
        exact hNe hSlash

theorem zero_notMem_firstText (n : Nat) (content : Option Bytes) : 0 ∉ firstText n content := by
  unfold firstText
  split
  · simp
  · rename_i chunk rest _
    intro hMem
    have hSub : (stripEol (cstr chunk)).Sublist (cstr chunk) := by
      rw [stripEol, ← List.reverse_sublist, List.reverse_reverse]
      exact List.dropWhile_sublist _
    exact zero_notMem_cstr chunk (hSub.subset hMem)

theorem isName_of_mem_pidSamples {src : Sources} {base : Bytes} {names : List Bytes}
    {s : PidSample} (hs : s ∈ pidSamples src base names) : IsName commLen s.comm := by
  obtain ⟨pid, -, hRead⟩ := List.mem_filterMap.mp hs
  have hComm := (readPid_eq_some hRead).2
  obtain ⟨hNonempty, hLength⟩ := pidComm_eq_some hComm
  simp only [pidComm] at hComm
  split at hComm
  · cases hComm
  · simp only [Option.some.injEq] at hComm
    exact ⟨hNonempty, hComm ▸ zero_notMem_firstText _ _, hLength⟩

/-! ## Shapes -/

/-- The metrics a reader can emit. -/
inductive Shape : Reader → Metric D → Prop
  | cpu (pct : D) : Shape .cpu (cpuMetric pct)
  | load (one five fifteen : D) :
      Shape .load
        { plugin := ascii "load", pluginInstance := none, type := ascii "load"
          typeInstance := none, dsCount := 3, values := [one, five, fifteen] }
  | uptime (up : D) :
      Shape .uptime
        { plugin := ascii "uptime", pluginInstance := none, type := ascii "uptime"
          typeInstance := none, dsCount := 1, values := [up] }
  | memory {ti : String} (hTi : ti ∈ ["used", "cached", "buffered"]) (v : D) :
      Shape .memory (memoryMetric ti v)
  | swap {ti : String} (hTi : ti ∈ ["used", "free"]) (kb : Int) : Shape .swap (swapMetric ti kb)
  | interface {iface : Bytes} (hName : IsName 64 iface) {type : String}
      (hType : type ∈ ["if_octets", "if_packets", "if_errors"]) (rx tx : Int) :
      Shape .interface (interfaceMetric iface type rx tx)
  | disk {name : Bytes} (hName : IsName 64 name) (hSlash : slash ∉ name) {type : String}
      (hType : type ∈ ["disk_ops", "disk_octets", "disk_time"]) (read write : D) :
      Shape .disk (diskMetric name type read write)
  | df {inst : Bytes} (hName : IsName 256 inst) (hSlash : slash ∉ inst) {ti : String}
      (hTi : ti ∈ ["used", "free"]) (v : Nat) : Shape .df (dfMetric inst ti v)
  | processes {comm : Bytes} (hName : IsName commLen comm) {type : String} {values : List D}
      (hType : (type, values.length) ∈ [("ps_rss", 1), ("ps_cputime", 2), ("ps_count", 2)]) :
      Shape .processes (processMetric comm type values)
  | thermal {zone : Bytes} (hZone : IsFileName zone) {ztype : Option Bytes}
      (hType : ∀ s ∈ ztype, IsName 64 s) (v : D) :
      Shape .thermal
        { plugin := ascii "thermal", pluginInstance := some zone, type := ascii "temperature"
          typeInstance := ztype, dsCount := 1, values := [v] }
  | tcpconns {name : Bytes} (hName : name ∈ tcpStateNames) (count : Nat) :
      Shape .tcpconns (tcpMetric name count)

theorem shape_cpu {src : Sources} {st : CpuState} {m : Metric D}
    (h : m ∈ (cpuRead src procBase st).2.metrics) : Shape .cpu m := by
  unfold cpuRead at h
  split at h
  · cases h
  · split at h
    · cases h
    · simp only [ReadResult.ok] at h
      split at h
      · rw [List.mem_singleton.mp h]
        exact .cpu _
      · cases h

theorem shape_load {src : Sources} {m : Metric D} (h : m ∈ (loadRead src procBase).metrics) :
    Shape .load m := by
  unfold loadRead at h
  split at h
  · cases h
  · split at h
    · rw [List.mem_singleton.mp h]
      exact .load _ _ _
    · cases h

theorem shape_uptime {src : Sources} {m : Metric D} (h : m ∈ (uptimeRead src procBase).metrics) :
    Shape .uptime m := by
  unfold uptimeRead at h
  split at h
  · cases h
  · split at h
    · rw [List.mem_singleton.mp h]
      exact .uptime _
    · cases h

theorem shape_memory {src : Sources} {m : Metric D} (h : m ∈ (memoryRead src procBase).metrics) :
    Shape .memory m := by
  unfold memoryRead at h
  split at h
  · cases h
  · simp only at h
    split at h
    · cases h
    · simp only [ReadResult.ok, List.mem_cons, List.not_mem_nil, or_false] at h
      rcases h with rfl | rfl | rfl
      · exact .memory (by simp) _
      · exact .memory (by simp) _
      · exact .memory (by simp) _

theorem shape_swap {src : Sources} {m : Metric D} (h : m ∈ (swapRead src procBase).metrics) :
    Shape .swap m := by
  unfold swapRead at h
  split at h
  · cases h
  · simp only at h
    split at h
    · cases h
    · simp only [ReadResult.ok, List.mem_cons, List.not_mem_nil, or_false] at h
      rcases h with rfl | rfl
      · exact .swap (by simp) _
      · exact .swap (by simp) _

/-- A metric of the interface reader comes from a line. -/
theorem mem_interfaceRead {src : Sources} {m : Metric D} :
    m ∈ (interfaceRead src procBase).metrics ↔
      ∃ content, src.file (procPath procBase "/net/dev") = some content ∧
        ∃ p ∈ ((fgetsLines 512 content).drop 2).filterMap interfaceLine,
          m ∈ interfaceMetrics p := by
  unfold interfaceRead
  split
  · rename_i hFile
    simp [ReadResult.fail, hFile]
  · rename_i content hFile
    simp [ReadResult.ok, hFile]

theorem isName_of_mem_interfaceLines {content : Bytes} {p : Bytes × List Int}
    (hp : p ∈ ((fgetsLines 512 content).drop 2).filterMap interfaceLine) : IsName 64 p.1 := by
  obtain ⟨line, hLine, hp⟩ := List.mem_filterMap.mp hp
  exact interfaceLine_eq_some (zero_notMem_of_mem_fgetsLines (List.mem_of_mem_drop hLine)) hp

theorem shape_interface {src : Sources} {m : Metric D}
    (h : m ∈ (interfaceRead src procBase).metrics) : Shape .interface m := by
  obtain ⟨content, -, p, hp, hm⟩ := mem_interfaceRead.mp h
  have hName := isName_of_mem_interfaceLines hp
  simp only [interfaceMetrics, List.mem_cons, List.not_mem_nil, or_false] at hm
  rcases hm with rfl | rfl | rfl
  · exact .interface hName (by simp) _ _
  · exact .interface hName (by simp) _ _
  · exact .interface hName (by simp) _ _

/-- A metric of the disk reader comes from a line. -/
theorem mem_diskRead {src : Sources} {base : Bytes} {m : Metric D}
    (h : m ∈ (diskRead src base).metrics) :
    ∃ content, ∃ line ∈ fgetsLines 512 content,
      ∃ p, diskLine line = some p ∧ m ∈ diskMetrics p := by
  unfold diskRead at h
  split at h
  · cases h
  · rename_i content hFile
    obtain ⟨p, hp, hm⟩ := List.mem_flatMap.mp h
    obtain ⟨line, hLine, hp⟩ := List.mem_filterMap.mp hp
    exact ⟨content, line, hLine, p, hp, hm⟩

theorem shape_disk {src : Sources} {m : Metric D} (h : m ∈ (diskRead src procBase).metrics) :
    Shape .disk m := by
  obtain ⟨content, line, hLine, p, hp, hm⟩ := mem_diskRead h
  obtain ⟨hName, hSlash⟩ := diskLine_eq_some (zero_notMem_of_mem_fgetsLines hLine) hp
  simp only [diskMetrics, List.mem_cons, List.not_mem_nil, or_false] at hm
  rcases hm with rfl | rfl | rfl
  · exact .disk hName hSlash (by simp) _ _
  · exact .disk hName hSlash (by simp) _ _
  · exact .disk hName hSlash (by simp) _ _

theorem shape_df {src : Sources} {m : Metric D} (h : m ∈ (dfRead src procBase).metrics) :
    Shape .df m := by
  unfold dfRead at h
  split at h
  · cases h
  · obtain ⟨p, hp, hm⟩ := List.mem_flatMap.mp h
    obtain ⟨line, hLine, hp⟩ := List.mem_filterMap.mp hp
    have hMount := dfLine_eq_some (zero_notMem_of_mem_fgetsLines hLine) hp
    obtain ⟨hName, hSlash⟩ := mountToInstance_isName hMount
    simp only [dfMetrics, List.mem_cons, List.not_mem_nil, or_false] at hm
    rcases hm with rfl | rfl
    · exact .df hName hSlash (by simp) _
    · exact .df hName hSlash (by simp) _

/-- A metric of the process reader belongs to one of the first 256 names. -/
theorem mem_processesRead {src : Sources} {m : Metric D} :
    m ∈ (processesRead src procBase).metrics ↔
      ∃ names, src.dir procBase = some names ∧
        ∃ comm ∈ (distinctComms (pidSamples src procBase names)).take maxComms,
          m ∈ (commTotals (pidSamples src procBase names) comm).metrics := by
  cases hDir : src.dir procBase with
  | none => simp [processesRead, hDir, ReadResult.fail]
  | some names => simp [processesRead_eq hDir, ReadResult.ok]

theorem isName_of_mem_distinctComms {src : Sources} {names : List Bytes} {comm : Bytes}
    (h : comm ∈ (distinctComms (pidSamples src procBase names)).take maxComms) :
    IsName commLen comm := by
  obtain ⟨s, hs, rfl⟩ := List.mem_map.mp (mem_firstSeen.mp (List.mem_of_mem_take h))
  exact isName_of_mem_pidSamples hs

theorem shape_processes {src : Sources} {m : Metric D}
    (h : m ∈ (processesRead src procBase).metrics) : Shape .processes m := by
  obtain ⟨names, -, comm, hComm, hm⟩ := mem_processesRead.mp h
  have hName := isName_of_mem_distinctComms hComm
  simp only [CommAgg.metrics, List.mem_cons, List.not_mem_nil, or_false] at hm
  rcases hm with rfl | rfl | rfl
  · exact .processes hName (by simp)
  · exact .processes hName (by simp)
  · exact .processes hName (by simp)

/-- The directory that `thermal_read` lists. -/
def thermalDir : Bytes := procPath (thermalBase procBase) "/class/thermal"

theorem mem_thermalRead {src : Sources} {m : Metric D} :
    m ∈ (thermalRead src procBase).metrics ↔
      ∃ names, src.dir thermalDir = some names ∧
        ∃ zone ∈ names, thermalZone src (thermalBase procBase) zone = some m := by
  unfold thermalRead thermalDir
  simp only
  split
  · rename_i hDir
    simp [ReadResult.fail, hDir]
  · rename_i names hDir
    simp [ReadResult.ok, hDir]

/-- The text of `type` in a zone. -/
def zoneType (src : Sources) (zone : Bytes) : Bytes :=
  firstText 64 (src.file (thermalPath (thermalBase procBase) zone "type"))

theorem thermalZone_eq_some {src : Sources} {zone : Bytes} {m : Metric D}
    (h : thermalZone src (thermalBase procBase) zone = some m) :
    ∃ v, m =
      { plugin := ascii "thermal", pluginInstance := some zone, type := ascii "temperature"
        typeInstance := if zoneType src zone ≠ [] then some (zoneType src zone) else none
        dsCount := 1, values := [v] } := by
  unfold thermalZone at h
  split at h
  · cases h
  · split at h
    · cases h
    · split at h
      · cases h
        exact ⟨_, rfl⟩
      · cases h

theorem shape_thermal {src : Sources} {m : Metric D} (h : m ∈ (thermalRead src procBase).metrics) :
    Shape .thermal m := by
  obtain ⟨names, hDir, zone, hZone, hm⟩ := mem_thermalRead.mp h
  obtain ⟨v, rfl⟩ := thermalZone_eq_some hm
  refine .thermal (src.isFileName _ names hDir zone hZone) ?_ v
  intro s hs
  split at hs
  · rename_i hNonempty
    cases hs
    exact ⟨hNonempty, zero_notMem_firstText _ _, firstText_length_lt (by decide) _⟩
  · cases hs

theorem shape_tcpconns {src : Sources} {m : Metric D}
    (h : m ∈ (tcpconnsRead src procBase).metrics) : Shape .tcpconns m := by
  unfold tcpconnsRead at h
  simp only at h
  split at h
  · cases h
  · obtain ⟨p, hp, hm⟩ := List.mem_filterMap.mp h
    split at hm
    · cases hm
    · cases hm
      exact .tcpconns (List.fst_mem_of_mem_zipIdx hp) _

/-- Every emitted metric has a shape of its reader. -/
theorem shape_of_mem_read {src : Sources} {st : CpuState} {r : Reader} {m : Metric D}
    (h : m ∈ (r.read src st : CpuState × ReadResult D).2.metrics) : Shape r m := by
  cases r with
  | cpu => exact shape_cpu h
  | load => exact shape_load h
  | uptime => exact shape_uptime h
  | memory => exact shape_memory h
  | swap => exact shape_swap h
  | interface => exact shape_interface h
  | disk => exact shape_disk h
  | df => exact shape_df h
  | processes => exact shape_processes h
  | thermal => exact shape_thermal h
  | tcpconns => exact shape_tcpconns h

/-! ## Common properties -/

/-- Plugin, type and number of values of all metrics. -/
def metricKinds : List (Bytes × Bytes × Int) :=
  [("cpu", "percent", 1), ("load", "load", 3), ("uptime", "uptime", 1), ("memory", "percent", 1),
    ("swap", "swap", 1), ("interface", "if_octets", 2), ("interface", "if_packets", 2),
    ("interface", "if_errors", 2), ("disk", "disk_ops", 2), ("disk", "disk_octets", 2),
    ("disk", "disk_time", 2), ("df", "df_complex", 1), ("processes", "ps_rss", 1),
    ("processes", "ps_cputime", 2), ("processes", "ps_count", 2), ("thermal", "temperature", 1),
    ("tcpconns", "tcp_connections", 1)].map fun k => (ascii k.1, ascii k.2.1, k.2.2)

theorem kind_of_shape {r : Reader} {m : Metric D} (h : Shape r m) :
    (m.plugin, m.type, m.dsCount) ∈ metricKinds := by
  cases h with
  | cpu => simp [metricKinds, cpuMetric]
  | load => simp [metricKinds]
  | uptime => simp [metricKinds]
  | memory => simp [metricKinds, memoryMetric]
  | swap => simp [metricKinds, swapMetric]
  | interface hName hType =>
      simp only [List.mem_cons, List.not_mem_nil, or_false] at hType
      rcases hType with rfl | rfl | rfl <;> simp [metricKinds, interfaceMetric]
  | disk hName hSlash hType =>
      simp only [List.mem_cons, List.not_mem_nil, or_false] at hType
      rcases hType with rfl | rfl | rfl <;> simp [metricKinds, diskMetric]
  | df => simp [metricKinds, dfMetric]
  | processes hName hType =>
      simp only [List.mem_cons, List.not_mem_nil, or_false, Prod.mk.injEq] at hType
      rcases hType with ⟨rfl, hLength⟩ | ⟨rfl, hLength⟩ | ⟨rfl, hLength⟩ <;>
        simp [metricKinds, processMetric, hLength]
  | thermal => simp [metricKinds]
  | tcpconns => simp [metricKinds, tcpMetric]

/-- The instances of an emitted metric are names. -/
theorem instances_of_shape {r : Reader} {m : Metric D} (h : Shape r m) :
    (∀ s ∈ m.pluginInstance, IsName 256 s) ∧ ∀ s ∈ m.typeInstance, IsName 64 s := by
  have hLonger : ∀ {n : Nat} {name : Bytes}, n ≤ 256 → IsName n name →
      ∀ s ∈ some name, IsName 256 s := by
    rintro n name hn hName s ⟨⟩
    exact ⟨hName.ne_nil, hName.zero, lt_of_lt_of_le hName.length hn⟩
  have hNone : ∀ {n : Nat}, ∀ s ∈ (none : Option Bytes), IsName n s := fun s hs => nomatch hs
  have hConst : ∀ {n : Nat} {name : Bytes}, name ≠ [] ∧ 0 ∉ name ∧ name.length < n →
      ∀ s ∈ some name, IsName n s := by
    rintro n name ⟨h₁, h₂, h₃⟩ s ⟨⟩
    exact ⟨h₁, h₂, h₃⟩
  cases h with
  | cpu => exact ⟨hConst (by decide), hConst (by decide)⟩
  | load => exact ⟨hNone, hNone⟩
  | uptime => exact ⟨hNone, hNone⟩
  | memory hTi =>
      simp only [List.mem_cons, List.not_mem_nil, or_false] at hTi
      rcases hTi with rfl | rfl | rfl <;> exact ⟨hNone, hConst (by decide)⟩
  | swap hTi =>
      simp only [List.mem_cons, List.not_mem_nil, or_false] at hTi
      rcases hTi with rfl | rfl <;> exact ⟨hNone, hConst (by decide)⟩
  | interface hName => exact ⟨hLonger (by omega) hName, hNone⟩
  | disk hName => exact ⟨hLonger (by omega) hName, hNone⟩
  | df hName hSlash hTi =>
      simp only [List.mem_cons, List.not_mem_nil, or_false] at hTi
      rcases hTi with rfl | rfl <;> exact ⟨hLonger le_rfl hName, hConst (by decide)⟩
  | processes hName => exact ⟨hLonger (by decide) hName, hNone⟩
  | thermal hZone hType => exact ⟨hLonger le_rfl hZone.isName, hType⟩
  | tcpconns hName =>
      have hAll : ∀ name ∈ tcpStateNames, name ≠ [] ∧ 0 ∉ name ∧ name.length < 64 := by decide
      exact ⟨hNone, hConst (hAll _ hName)⟩

end SvgdCollect
