import SvgdCollect.Registry
import SvgdCollect.Readers.Aggregation
import SvgdCollect.Readers.Df

/-!
# A collection cycle

The body of the loop of `collect_run`: every enabled reader runs once, with `/proc`
as its base, and each metric it emits goes to the writer and to the snapshot in that
order.  Readers run one after the other, so each of them sees the system at a moment
of its own.
-/

namespace SvgdCollect

open Lib

variable {D : Type} [CDouble D]

/-- `proc_base` in `collect_run`. -/
def procBase : Bytes := ascii "/proc"

/-- The member `read` of a reader.  Only `cpu` keeps something from call to call. -/
def Reader.read (src : Sources) (st : CpuState) : Reader → CpuState × ReadResult D
  | .cpu => cpuRead src procBase st
  | .load => (st, loadRead src procBase)
  | .uptime => (st, uptimeRead src procBase)
  | .memory => (st, memoryRead src procBase)
  | .swap => (st, swapRead src procBase)
  | .interface => (st, interfaceRead src procBase)
  | .disk => (st, diskRead src procBase)
  | .df => (st, dfRead src procBase)
  | .processes => (st, processesRead src procBase)
  | .thermal => (st, thermalRead src procBase)
  | .tcpconns => (st, tcpconnsRead src procBase)

/-- The metrics of one cycle in the order in which `emit_cb` gets them, and the state
of the cpu reader behind it. -/
def collectCycle (srcs : Reader → Sources) (st : CpuState) :
    List Reader → CpuState × List (Metric D)
  | [] => (st, [])
  | r :: enabled =>
      let (st, result) := r.read (srcs r) st
      let (st, metrics) := collectCycle srcs st enabled
      (st, result.metrics ++ metrics)

/-- What a reader emits when it runs. -/
theorem mem_collectCycle {srcs : Reader → Sources} {enabled : List Reader} {st : CpuState}
    {m : Metric D} (h : m ∈ (collectCycle srcs st enabled).2) :
    ∃ r ∈ enabled, ∃ st', m ∈ (r.read (srcs r) st' : CpuState × ReadResult D).2.metrics := by
  induction enabled generalizing st with
  | nil => cases h
  | cons r enabled ih =>
      rcases List.mem_append.mp h with h | h
      · exact ⟨r, List.mem_cons_self, st, h⟩
      · obtain ⟨r', hr', st', h'⟩ := ih h
        exact ⟨r', List.mem_cons_of_mem r hr', st', h'⟩

/-- A reader that keeps no state emits the same wherever it runs in the cycle. -/
theorem mem_collectCycle_of_read {srcs : Reader → Sources} {enabled : List Reader}
    {st : CpuState} {r : Reader} {m : Metric D} (hr : r ∈ enabled)
    (h : ∀ st', m ∈ (r.read (srcs r) st' : CpuState × ReadResult D).2.metrics) :
    m ∈ (collectCycle srcs st enabled).2 := by
  induction enabled generalizing st with
  | nil => cases hr
  | cons r' enabled ih =>
      rcases List.mem_cons.mp hr with rfl | hr
      · exact List.mem_append_left _ (h st)
      · exact List.mem_append_right _ (ih hr)

/-- What holds of the metrics of a cycle can be said reader by reader, if it holds of
those of the cpu reader in any case. -/
theorem forall_collectCycle_iff {srcs : Reader → Sources} {enabled : List Reader} {st : CpuState}
    {Q : Metric D → Prop}
    (hCpu : ∀ src st, ∀ m ∈ (Reader.cpu.read src st : CpuState × ReadResult D).2.metrics, Q m) :
    (∀ m ∈ (collectCycle srcs st enabled).2, Q m) ↔
      ∀ r ∈ enabled, ∀ st', ∀ m ∈ (r.read (srcs r) st' : CpuState × ReadResult D).2.metrics,
        Q m := by
  constructor
  · -- only the cpu reader looks at the state of earlier cycles
    intro hAll r hr st' m hm
    by_cases hr' : r = .cpu
    · subst hr'
      exact hCpu _ st' m hm
    · have hEvery : ∀ st'', m ∈ (r.read (srcs r) st'' : CpuState × ReadResult D).2.metrics := by
        cases r with
        | cpu => exact absurd rfl hr'
        | _ => exact fun _ => hm
      exact hAll m (mem_collectCycle_of_read hr hEvery)
  · intro hRead m hm
    obtain ⟨r, hr, st', hm⟩ := mem_collectCycle hm
    exact hRead r hr st' m hm

end SvgdCollect
