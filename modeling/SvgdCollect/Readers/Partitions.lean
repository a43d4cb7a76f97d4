import SvgdCollect.Readers.Emitted
import SvgdCollect.Readers.Counters

/-!
# Disks and partitions

The filter of `disk_read` has nine alternatives.  They begin differently, so a name can
only match the alternative of its own lead, and what the kernel appends for a partition
does not fit what that alternative lets follow: digits behind letters, or a `p` behind
digits.
-/

namespace SvgdCollect

open Lib

/-! ## The alternatives of the filter -/

/-- The alternatives of the filter. -/
inductive DiskFamily
  | sd
  | nvme
  | vd
  | mmcblk
  | xvd
  | dm
  | md
  | loop
  | sr
  deriving DecidableEq

section Regex

open RegularExpression

/-- What a name of the family starts with. -/
def DiskFamily.lead : DiskFamily → String
  | .sd => "sd"
  | .nvme => "nvme"
  | .vd => "vd"
  | .mmcblk => "mmcblk"
  | .xvd => "xvd"
  | .dm => "dm-"
  | .md => "md"
  | .loop => "loop"
  | .sr => "sr"

/-- The disks of the family are told apart by letters, and by digits otherwise. -/
def DiskFamily.lettered : DiskFamily → Bool
  | .sd | .vd | .xvd => true
  | _ => false

/-- What follows the lead. -/
def DiskFamily.tail : DiskFamily → RegularExpression Byte
  | .sd | .vd | .xvd => oneOrMore (byteRange 'a' 'z')
  | .nvme => oneOrMore (byteRange '0' '9') * word "n" * oneOrMore (byteRange '0' '9')
  | _ => oneOrMore (byteRange '0' '9')

theorem mem_matches_word {s : String} {w : Bytes} : w ∈ (word s).matches' ↔ w = ascii s := by
  unfold word
  generalize ascii s = text
  induction text generalizing w with
  | nil => exact Language.mem_one w
  | cons b text ih =>
      rw [List.map_cons, List.prod_cons, matches'_mul, Language.mem_mul]
      constructor
      · rintro ⟨u, hu, v, hv, rfl⟩
        rw [ih.mp hv, show u = [b] from hu]
        rfl
      · rintro rfl
        exact ⟨[b], rfl, text, ih.mpr rfl, rfl⟩

theorem mem_matches_word_mul {s : String} {r : RegularExpression Byte} {w : Bytes} :
    w ∈ (word s * r).matches' ↔ ∃ t ∈ r.matches', w = ascii s ++ t := by
  rw [matches'_mul, Language.mem_mul]
  constructor
  · rintro ⟨u, hu, t, ht, rfl⟩
    exact ⟨t, ht, by rw [mem_matches_word.mp hu]⟩
  · rintro ⟨t, ht, rfl⟩
    exact ⟨_, mem_matches_word.mpr rfl, t, ht, rfl⟩

theorem isDiskName_iff {name : Bytes} :
    isDiskName name = true ↔
      ∃ f : DiskFamily, ∃ t ∈ f.tail.matches', name = ascii f.lead ++ t := by
  have hNvme : ∀ r s t u : RegularExpression Byte,
      (r * s * t * u).matches' = (r * (s * t * u)).matches' := by
    intro r s t u
    simp only [matches'_mul, mul_assoc]
  have hFamilies : ∀ p : DiskFamily → Prop, (∃ f, p f) ↔
      (((((((p .sd ∨ p .nvme) ∨ p .vd) ∨ p .mmcblk) ∨ p .xvd) ∨ p .dm) ∨ p .md) ∨ p .loop) ∨
        p .sr := by
    intro p
    constructor
    · rintro ⟨f, hf⟩
      cases f <;> simp [hf]
    · intro h
      rcases h with (((((((h | h) | h) | h) | h) | h) | h) | h) | h <;> exact ⟨_, h⟩
  rw [isDiskName, rmatch_iff_matches', hFamilies]
  simp only [diskNameExpr, matches'_add, Language.mem_add, hNvme, mem_matches_word_mul]
  rfl

theorem mem_matches_oneOrMore {p : Byte → Bool} {r : RegularExpression Byte} {w : Bytes}
    (hBytes : usesOnly p r = true) (hNonempty : [] ∉ r.matches')
    (hw : w ∈ (oneOrMore r).matches') : w ≠ [] ∧ ∀ b ∈ w, p b = true := by
  have hOnly : usesOnly p (oneOrMore r) = true := by
    change (usesOnly p r && usesOnly p r) = true
    rw [hBytes]
    rfl
  refine ⟨?_, of_mem_matches hOnly hw⟩
  rintro rfl
  rw [oneOrMore, matches'_mul, Language.mem_mul] at hw
  obtain ⟨u, hu, v, -, hEmpty⟩ := hw
  exact hNonempty ((List.append_eq_nil_iff.mp hEmpty).1 ▸ hu)

theorem nil_notMem_matches_byteRange (lo hi : Char) : [] ∉ (byteRange lo hi).matches' := by
  unfold byteRange
  generalize List.range (hi.toNat + 1 - lo.toNat) = offsets
  induction offsets with
  | nil => exact id
  | cons i offsets ih =>
      rw [List.map_cons, List.sum_cons, matches'_add, Language.mem_add]
      rintro (hChar | hRest)
      · exact List.cons_ne_nil _ _ (Set.mem_singleton_iff.mp hChar).symm
      · exact ih hRest

/-- Letters, and nothing else. -/
theorem tail_of_lettered {f : DiskFamily} {t : Bytes} (hf : f.lettered = true)
    (ht : t ∈ f.tail.matches') : t ≠ [] ∧ ∀ b ∈ t, isdigit b = false := by
  have hLetters : f.tail = oneOrMore (byteRange 'a' 'z') := by
    cases f <;> first | rfl | exact absurd hf (by decide)
  rw [hLetters] at ht
  have hBytes : usesOnly (fun b => !isdigit b) (byteRange 'a' 'z') = true := by decide
  simpa using mem_matches_oneOrMore hBytes (nil_notMem_matches_byteRange 'a' 'z') ht

/-- A digit at the end, and no `p`. -/
theorem tail_of_not_lettered {f : DiskFamily} {t : Bytes} (hf : f.lettered = false)
    (ht : t ∈ f.tail.matches') :
    (∃ b, t.getLast? = some b ∧ isdigit b = true) ∧ byte 'p' ∉ t := by
  have hDigits : usesOnly isdigit (byteRange '0' '9') = true := by decide
  have hOnly : usesOnly (fun b => b != byte 'p') f.tail = true := by
    cases f <;> first | decide | exact absurd hf (by decide)
  refine ⟨?_, ?_⟩
  · obtain ⟨front, digits, rfl, hNumber⟩ :
        ∃ front digits, t = front ++ digits ∧ digits ∈ (oneOrMore (byteRange '0' '9')).matches' := by
      cases f with
      | nvme =>
          rw [DiskFamily.tail, matches'_mul, Language.mem_mul] at ht
          obtain ⟨front, -, digits, hNumber, rfl⟩ := ht
          exact ⟨front, digits, rfl, hNumber⟩
      | sd | vd | xvd => exact absurd hf (by decide)
      | mmcblk | dm | md | loop | sr => exact ⟨[], t, rfl, ht⟩
    obtain ⟨hNe, hAll⟩ := mem_matches_oneOrMore hDigits (nil_notMem_matches_byteRange '0' '9') hNumber
    refine ⟨digits.getLast hNe, ?_, hAll _ (List.getLast_mem hNe)⟩
    rw [List.getLast?_append_of_ne_nil _ hNe, List.getLast?_eq_getLast_of_ne_nil hNe]
  · intro hMem
    simpa using of_mem_matches hOnly ht _ hMem

end Regex

/-! ## Names of partitions -/

/-- The kernel's name of a partition. -/
def partitionName (w : Bytes) (n : Nat) : Bytes :=
  if w.getLast?.any isdigit then w ++ byte 'p' :: decimal n else w ++ decimal n

/-- No lead begins with another one. -/
theorem lead_unique {f g : DiskFamily} {s t : Bytes}
    (h : ascii f.lead ++ s = ascii g.lead ++ t) : f = g := by
  have hPrefix : ascii f.lead <+: ascii g.lead ∨ ascii g.lead <+: ascii f.lead :=
    List.prefix_or_prefix_of_prefix (List.prefix_append _ s) (h ▸ List.prefix_append _ t)
  clear h
  revert hPrefix
  cases f <;> cases g <;> decide

/-- What follows the lead is told by the name. -/
theorem tail_of_isDiskName {f : DiskFamily} {t : Bytes}
    (h : isDiskName (ascii f.lead ++ t) = true) : t ∈ f.tail.matches' := by
  obtain ⟨g, u, hu, hEq⟩ := isDiskName_iff.mp h
  obtain rfl := lead_unique hEq
  rwa [List.append_cancel_left hEq]

/-- The number of a partition does not fit the end of its disk's name. -/
theorem isDiskName_partitionName {w : Bytes} (hw : isDiskName w = true) (n : Nat) :
    isDiskName (partitionName w n) = false := by
  obtain ⟨f, t, ht, rfl⟩ := isDiskName_iff.mp hw
  rw [Bool.eq_false_iff]
  intro hAccepted
  cases hf : f.lettered with
  | true =>
      obtain ⟨hNe, hLetters⟩ := tail_of_lettered hf ht
      have hLast : (ascii f.lead ++ t).getLast?.any isdigit = false := by
        rw [List.getLast?_append_of_ne_nil _ hNe, List.getLast?_eq_getLast_of_ne_nil hNe]
        exact hLetters _ (List.getLast_mem hNe)
      rw [partitionName, hLast, if_neg Bool.false_ne_true, List.append_assoc] at hAccepted
      obtain ⟨-, hAll⟩ := tail_of_lettered hf (tail_of_isDiskName hAccepted)
      obtain ⟨b, digits, hDigits⟩ := List.exists_cons_of_ne_nil (decimal_ne_nil n)
      have hb : b ∈ decimal n := by
        rw [hDigits]
        exact List.mem_cons_self
      have hNot := hAll b (List.mem_append_right t hb)
      rw [isdigit_of_mem_decimal hb] at hNot
      cases hNot
  | false =>
      obtain ⟨⟨b, hLast, hb⟩, -⟩ := tail_of_not_lettered hf ht
      have hAny : (ascii f.lead ++ t).getLast?.any isdigit = true := by
        rw [List.getLast?_append, hLast]
        exact hb
      rw [partitionName, hAny, if_pos rfl, List.append_assoc] at hAccepted
      obtain ⟨-, hNot⟩ := tail_of_not_lettered hf (tail_of_isDiskName hAccepted)
      exact hNot (by simp)

/-- The name of a partition of a disk that the filter accepts. -/
def IsPartition (name : Bytes) : Prop :=
  ∃ w n, isDiskName w = true ∧ 1 ≤ n ∧ name = partitionName w n

theorem isDiskName_of_isPartition {name : Bytes} (h : IsPartition name) :
    isDiskName name = false := by
  obtain ⟨w, n, hw, -, rfl⟩ := h
  exact isDiskName_partitionName hw n

/-! ## The reader -/

section Reader

variable {D : Type} [CDouble D] {src : Sources} {base : Bytes}

theorem pluginInstance_of_mem_diskMetrics {p : Bytes × List Int} {m : Metric D}
    (h : m ∈ diskMetrics p) : m.pluginInstance = some p.1 := by
  simp only [diskMetrics, List.mem_cons, List.not_mem_nil, or_false] at h
  rcases h with rfl | rfl | rfl <;> rfl

/-- Whatever the file holds, the filter has accepted the name in every metric. -/
theorem isDiskName_of_mem_diskRead {m : Metric D}
    (h : m ∈ (diskRead src base : ReadResult D).metrics) :
    ∃ name, m.pluginInstance = some name ∧ isDiskName name = true := by
  obtain ⟨content, line, -, p, hLine, hm⟩ := mem_diskRead h
  exact ⟨p.1, pluginInstance_of_mem_diskMetrics hm, (diskLine_cases hLine).1⟩

theorem length_flatMap_diskMetrics (ds : List DiskStat) :
    (ds.flatMap fun d => (diskMetrics (d.name, d.longCounters) : List (Metric D))).length =
      3 * ds.length := by
  induction ds with
  | nil => rfl
  | cons d ds ih =>
      rw [List.flatMap_cons, List.length_append, ih, List.length_cons]
      change 3 + 3 * ds.length = _
      omega

/-- The filter rejects every partition of a disk it accepts, whatever the number, so no
metric of any file bears the name of such a partition; and of a file that lists disks and
their partitions in any order, three metrics are emitted for every disk, in the order of
the file, and nothing else. -/
theorem diskRead_whole_disks :
    (∀ w n, isDiskName w = true → 1 ≤ n → isDiskName (partitionName w n) = false) ∧
    (∀ (src : Sources) (base : Bytes), ∀ m ∈ (diskRead src base : ReadResult D).metrics,
      ∃ name, m.pluginInstance = some name ∧ isDiskName name = true ∧ ¬ IsPartition name) ∧
    ∀ (src : Sources) (base : Bytes) (ds : List DiskStat) (whole : DiskStat → Bool),
      src.file (procPath base "/diskstats") = some (DiskStat.fileText ds) →
      (∀ d ∈ ds, whole d = true → isDiskName d.name = true) →
      (∀ d ∈ ds, whole d = false → IsPartition d.name) →
      (diskRead src base : ReadResult D) =
        .ok ((ds.filter whole).flatMap fun d => diskMetrics (d.name, d.longCounters)) ∧
      (∀ d ∈ ds.filter whole, ∀ m ∈ (diskMetrics (d.name, d.longCounters) : List (Metric D)),
        m.pluginInstance = some d.name) ∧
      (diskRead src base : ReadResult D).metrics.length = 3 * (ds.filter whole).length := by
  refine ⟨fun w n hw _ => isDiskName_partitionName hw n, ?_, ?_⟩
  · intro src base m hm
    obtain ⟨name, hInstance, hName⟩ := isDiskName_of_mem_diskRead hm
    refine ⟨name, hInstance, hName, ?_⟩
    intro hPartition
    rw [isDiskName_of_isPartition hPartition] at hName
    cases hName
  · intro src base ds whole hFile hDisks hPartitions
    have hFilter : (ds.filter fun d => isDiskName d.name) = ds.filter whole := by
      apply List.filter_congr
      intro d hd
      cases hWhole : whole d with
      | true => exact hDisks d hd hWhole
      | false => exact isDiskName_of_isPartition (hPartitions d hd hWhole)
    have hRead := @DiskStat.diskRead_fileText D _ _ _ _ hFile
    rw [hFilter] at hRead
    refine ⟨hRead, fun d _ m hm => pluginInstance_of_mem_diskMetrics hm, ?_⟩
    rw [hRead]
    exact length_flatMap_diskMetrics _

end Reader

/-- A partition and its disk, in this order. -/
def partitionFirst : List DiskStat :=
  [{ major := 259, minor := 1, name := ascii "nvme0n1p1"
     counters := [40, 0, 320, 9, 6, 2, 64, 4, 0, 12, 13]
     major_lt := by decide, minor_lt := by decide, name_word := ⟨by decide, by decide⟩
     name_zero := by decide, name_length := by decide, length_counters := by decide
     counters_lt := by decide },
   { major := 259, minor := 0, name := ascii "nvme0n1"
     counters := [90, 0, 720, 18, 6, 2, 64, 4, 0, 21, 22]
     major_lt := by decide, minor_lt := by decide, name_word := ⟨by decide, by decide⟩
     name_zero := by decide, name_length := by decide, length_counters := by decide
     counters_lt := by decide }]

def partitionSources : Sources where
  file _ := some (DiskStat.fileText partitionFirst)
  dir _ := none
  statvfs _ := none
  pageSize := 4096
  isFileName := isFileName_of_no_dir

theorem diskRead_partitionFirst :
    (diskRead partitionSources (ascii "/proc") : ReadResult ℚ).metrics.length = 3 := by
  obtain ⟨-, -, hFiles⟩ := @diskRead_whole_disks ℚ _
  have hRead := hFiles partitionSources (ascii "/proc") partitionFirst
    (fun d => d.minor == 0) rfl ?_ ?_
  · rw [hRead.2.2]
    rfl
  · intro d hd hWhole
    simp only [partitionFirst, List.mem_cons, List.not_mem_nil, or_false] at hd
    rcases hd with rfl | rfl
    · cases hWhole
    · decide
  · intro d hd hWhole
    simp only [partitionFirst, List.mem_cons, List.not_mem_nil, or_false] at hd
    rcases hd with rfl | rfl
    · exact ⟨ascii "nvme0n1", 1, by decide, by decide, by decide⟩
    · cases hWhole

end SvgdCollect
