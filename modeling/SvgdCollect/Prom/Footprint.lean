import SvgdCollect.Prom.Snapshot

/-!
# The memory of the snapshot store

The two buffers are created when they are needed for the first time; they grow by doubling
and are never given back.  So the largest cycle decides what the store needs: there are at
most two buffers, none is lost, and once both have room for a cycle no other one of its size
allocates anything that could fail.
-/

namespace SvgdCollect
namespace Prom

open Lib

variable {D : Type}

/-! ## What a step does to the buffers -/

/-- A step leaves the buffers their size, creates the staged one, lets it grow, or swaps
the pointers. -/
inductive Effect (s : State D) : Action D → State D → Prop
  | keep {a : Action D} {heap : Nat → SnapBuf D} {position : Position D} (hOther : a ≠ .publish)
      (hCap : ∀ p, (heap p).cap = (s.heap p).cap) :
      Effect s a { s with heap := heap, position := position }
  | create {a : Action D} {position : Position D} (hOther : a ≠ .publish)
      (hNone : s.staged = none) :
      Effect s a
        { s with
          heap := Function.update s.heap s.next sbNew
          next := s.next + 1
          staged := some s.next
          position := position }
  | grow {m : Metric D} {p : Nat} {cells : Nat → SnapMetric D}
      (hPosition : s.position = .addReserve m) (hStaged : s.staged = some p) :
      Effect s (.addReserve (some cells))
        { s with
          heap := Function.update s.heap p
            (sbReserve (s.heap p) ((s.heap p).count + 1) (some cells))
          position := .addCopy m }
  | publish :
      Effect s .publish { s with staged := s.published, published := s.staged, position := .idle }

theorem cap_update (heap : Nat → SnapBuf D) {p : Nat} {sb : SnapBuf D}
    (h : sb.cap = (heap p).cap) (q : Nat) : (Function.update heap p sb q).cap = (heap q).cap := by
  by_cases hEq : q = p
  · subst hEq
    rw [Function.update_self, h]
  · rw [Function.update_of_ne hEq]

theorem stageBuffer_cases {s s' : State D} {ok : Bool} (h : stageBuffer s ok = some s') :
    s' = s ∨ s.staged = none ∧
      s' = { s with
        heap := Function.update s.heap s.next sbNew
        next := s.next + 1
        staged := some s.next } := by
  unfold stageBuffer at h
  split at h
  · exact Or.inl (Option.some.inj h).symm
  · cases h
  · rename_i hNone
    exact Or.inr ⟨hNone, (Option.some.inj h).symm⟩
  · exact Or.inl (Option.some.inj h).symm

/-- Every step has one of these effects. -/
theorem effect_of_step {s s' : State D} {a : Action D} (h : step s a = some s') :
    Effect s a s' := by
  cases a with
  | beginAlloc ok =>
      simp only [step] at h
      split at h
      · obtain ⟨s₁, hStage, rfl⟩ := Option.map_eq_some_iff.mp h
        rcases stageBuffer_cases hStage with rfl | ⟨hNone, rfl⟩
        · exact .keep (by simp) fun _ => rfl
        · exact .create (by simp) hNone
      · cases h
  | beginReset =>
      simp only [step] at h
      split at h
      · cases h
        exact .keep (by simp) (cap_update s.heap rfl)
      · cases h
        exact .keep (by simp) fun _ => rfl
      · cases h
  | addAlloc m ok =>
      simp only [step] at h
      split at h
      · obtain ⟨s₁, hStage, rfl⟩ := Option.map_eq_some_iff.mp h
        rcases stageBuffer_cases hStage with rfl | ⟨hNone, rfl⟩
        · split
          · exact .keep (by simp) fun _ => rfl
          · exact .keep (by simp) fun _ => rfl
        · exact .create (by simp) hNone
      · cases h
  | addReserve fresh =>
      simp only [step] at h
      split at h
      · rename_i m p hPosition hStaged
        split at h
        · obtain rfl := Option.some.inj h
          cases fresh with
          | none =>
              refine .keep (by simp) (cap_update s.heap ?_)
              unfold sbReserve
              split <;> rfl
          | some cells => exact .grow hPosition hStaged
        · split at h
          · obtain rfl := Option.some.inj h
            exact .keep (by simp) fun _ => rfl
          · cases h
      · cases h
  | addCopy =>
      simp only [step] at h
      split at h
      · split at h
        · obtain rfl := Option.some.inj h
          exact .keep (by simp) (cap_update s.heap rfl)
        · obtain rfl := Option.some.inj h
          exact .keep (by simp) fun _ => rfl
      · cases h
  | addCount =>
      simp only [step] at h
      split at h
      · split at h
        · obtain rfl := Option.some.inj h
          exact .keep (by simp) (cap_update s.heap rfl)
        · cases h
      · cases h
  | publish =>
      simp only [step] at h
      split at h
      · obtain rfl := Option.some.inj h
        exact .publish
      · cases h
  | render ok =>
      obtain rfl := Option.some.inj h
      exact .keep (by simp) fun _ => rfl

/-! ## Two buffers -/

/-- From the trace `start` on, no cycle hands over more than `n` metrics. -/
def CyclesUpTo (n : Nat) (start later : List (Action D)) : Prop :=
  ∀ front m ok, front ++ [.addAlloc m ok] <+: later →
    (track (start ++ front ++ [.addAlloc m ok])).current.metrics.length ≤ n

theorem CyclesUpTo.init {n : Nat} {start later : List (Action D)} {a : Action D}
    (h : CyclesUpTo n start (later ++ [a])) : CyclesUpTo n start later :=
  fun front m ok hFront => h front m ok (hFront.trans (List.prefix_append _ _))

/-- A metric that waits for `sb_reserve` is one of the first `n` of its cycle. -/
def Waits (n : Nat) (trace : List (Action D)) (s : State D) : Prop :=
  ∀ m, s.position = .addReserve m → (track trace).current.metrics.length ≤ n

theorem waits_step {n : Nat} {start later : List (Action D)} {s s' : State D} {a : Action D}
    (hSmall : CyclesUpTo n start (later ++ [a])) (h : Waits n (start ++ later) s)
    (hStep : step s a = some s') : Waits n (start ++ later ++ [a]) s' := by
  cases a with
  | addAlloc m ok => exact fun _ _ => hSmall later m ok List.prefix_rfl
  | render ok =>
      obtain rfl := Option.some.inj hStep
      rw [Waits, track_append_singleton]
      exact h
  | beginAlloc ok =>
      simp only [step] at hStep
      split at hStep
      · obtain ⟨_, -, rfl⟩ := Option.map_eq_some_iff.mp hStep
        intro m hReserve
        cases hReserve
      · cases hStep
  | beginReset | publish | addReserve | addCopy | addCount =>
      simp only [step] at hStep
      grind [Waits]

/-- Every buffer is in use, and none is larger than the cycles need. -/
structure Footprint (n : Nat) (s : State D) : Prop where
  owned : ∀ p, p < s.next ↔ s.staged = some p ∨ s.published = some p
  blocks : s.next = s.staged.toList.length + s.published.toList.length
  capacity : ∀ p, (s.heap p).cap ≤ max 32 (2 * n)

theorem length_contents (sb : SnapBuf D) : sb.contents.length = sb.count := by
  have hCount := sb.count_le_cap
  rw [SnapBuf.contents, List.length_take, sb.length_items]
  omega

/-- In front of `sb_reserve` the metric of the call has not been counted. -/
theorem Inv.count_lt {trace : List (Action D)} {s : State D} (h : Inv trace s) {m : Metric D}
    {p : Nat} (hPosition : s.position = .addReserve m) (hStaged : s.staged = some p) :
    (s.heap p).count < (track trace).current.metrics.length := by
  have hAgrees := h.staged
  rw [StagedAgrees, hPosition] at hAgrees
  obtain ⟨earlier, p', hMetrics, hStaged', hSublist, -⟩ := hAgrees
  obtain rfl : p = p' := Option.some.inj (hStaged.symm.trans hStaged')
  have hLength := hSublist.length_le
  rw [length_contents, List.length_map] at hLength
  rw [hMetrics, List.length_append, List.length_singleton]
  exact Nat.lt_succ_of_le hLength

theorem footprint_initial (n : Nat) : Footprint n (State.initial : State D) where
  owned p := by simp [State.initial]
  blocks := rfl
  capacity _ := Nat.zero_le _

theorem footprint_step {n : Nat} {trace : List (Action D)} {s s' : State D} {a : Action D}
    (hInv : Inv trace s) (hWaits : Waits n trace s) (h : Footprint n s)
    (hStep : step s a = some s') : Footprint n s' := by
  cases effect_of_step hStep with
  | keep _ hCap => exact ⟨h.owned, h.blocks, fun p => (hCap p).trans_le (h.capacity p)⟩
  | create _ hNone =>
      have hOwned := h.owned
      have hBlocks := h.blocks
      rw [hNone] at hOwned hBlocks
      refine ⟨fun p => ?_, ?_, fun p => ?_⟩
      · show p < s.next + 1 ↔ some s.next = some p ∨ s.published = some p
        rw [Nat.lt_succ_iff_lt_or_eq, hOwned p, Option.some.injEq]
        simp only [reduceCtorEq, false_or]
        tauto
      · show s.next + 1 = (some s.next).toList.length + s.published.toList.length
        rw [hBlocks]
        exact Nat.add_right_comm 0 _ 1
      · show (Function.update s.heap s.next sbNew p).cap ≤ _
        by_cases hNew : p = s.next
        · subst hNew
          rw [Function.update_self]
          exact Nat.zero_le _
        · rw [Function.update_of_ne hNew]
          exact h.capacity p
  | @grow m p cells hPosition hStaged =>
      refine ⟨h.owned, h.blocks, fun q => ?_⟩
      show (Function.update s.heap p _ q).cap ≤ _
      by_cases hBuffer : q = p
      · subst hBuffer
        have hCount := hInv.count_lt hPosition hStaged
        have hCycle := hWaits m hPosition
        have hGrown := grownCapacity_le 32 (s.heap q).cap ((s.heap q).count + 1)
        have hOld := h.capacity q
        rw [Function.update_self, sbReserve]
        split
        · exact hOld
        · show grownCapacity 32 (s.heap q).cap ((s.heap q).count + 1) ≤ max 32 (2 * n)
          omega
      · rw [Function.update_of_ne hBuffer]
        exact h.capacity q
  | publish =>
      refine ⟨fun p => (h.owned p).trans or_comm, ?_, h.capacity⟩
      exact h.blocks.trans (Nat.add_comm _ _)

/-- **The store does not grow.**  In every interleaving, with allocations failing anywhere,
there are at most two buffers, and each of them is the staged or the published one; if no
cycle hands over more than `n` metrics, none has room for more than `max 32 (2 * n)`. -/
theorem snapshot_footprint {n : Nat} {trace : List (Action D)} {s : State D}
    (hSmall : CyclesUpTo n [] trace) (hRun : run step State.initial trace = some s) :
    s.next ≤ 2 ∧ (∀ p, p < s.next ↔ s.staged = some p ∨ s.published = some p) ∧
      ∀ p, (s.heap p).cap ≤ max 32 (2 * n) := by
  have hFootprint : Footprint n s := by
    refine run_invariant (fun trace s => Inv trace s ∧
      (CyclesUpTo n [] trace → Waits n trace s ∧ Footprint n s))
      ⟨inv_initial, fun _ => ⟨nofun, footprint_initial n⟩⟩ ?_ hRun |>.2 hSmall |>.2
    intro trace s a s' h hStep
    refine ⟨inv_step h.1 hStep, fun hSmall => ?_⟩
    obtain ⟨hWaits, hFootprint⟩ := h.2 hSmall.init
    exact ⟨waits_step hSmall hWaits hStep, footprint_step h.1 hWaits hFootprint hStep⟩
  refine ⟨?_, hFootprint.owned, hFootprint.capacity⟩
  have hOne : ∀ b : Option Nat, b.toList.length ≤ 1 := by
    intro b
    cases b <;> simp
  have hStaged := hOne s.staged
  have hPublished := hOne s.published
  rw [hFootprint.blocks]
  omega

/-- The cycles of a trace are bounded if those of all its prefixes are. -/
theorem cyclesUpTo_of_inits {n : Nat} {start later : List (Action D)}
    (h : ∀ front ∈ later.inits, (track (start ++ front)).current.metrics.length ≤ n) :
    CyclesUpTo n start later := by
  intro front m ok hFront
  rw [List.append_assoc]
  exact h _ ((List.mem_inits _ later).mpr hFront)

theorem twoCycles_footprint :
    ∃ s : State Nat, run step State.initial twoCycles = some s ∧ s.next ≤ 2 ∧
      ∀ p, (s.heap p).cap ≤ 32 := by
  obtain ⟨s, hRun⟩ : ∃ s : State Nat, run step State.initial twoCycles = some s :=
    Option.isSome_iff_exists.mp (by decide)
  obtain ⟨hNext, -, hCap⟩ := snapshot_footprint (cyclesUpTo_of_inits (n := 1) (by decide)) hRun
  exact ⟨s, hRun, hNext, hCap⟩

/-! ## Buffers that are large enough -/

/-- No allocation of the collection thread fails in the step. -/
def Action.Succeeds : Action D → Prop
  | .beginAlloc ok => ok = true
  | .addAlloc _ ok => ok = true
  | .addReserve fresh => fresh.isSome = true
  | _ => True

/-- A pointer to a buffer with room for `n` metrics. -/
def SnapRoom (n : Nat) (heap : Nat → SnapBuf D) (b : Option Nat) : Prop :=
  ∃ p, b = some p ∧ n ≤ (heap p).cap

/-- A cycle of `n` metrics without a failed allocation. -/
def Cycle.IsFull (n : Nat) (c : Cycle D) : Prop := n ≤ c.metrics.length ∧ c.failed = false

/-- No allocation has failed in the cycle in progress and the one published last. -/
def Track.Clear (t : Track D) : Prop := t.current.failed = false ∧ t.latest.failed = false

theorem Track.Clear.step {t : Track D} (h : t.Clear) {a : Action D} (ha : a.Succeeds) :
    (t.step a).Clear := by
  obtain ⟨hCurrent, hLatest⟩ := h
  cases a with
  | beginAlloc ok =>
      obtain rfl : ok = true := ha
      exact ⟨rfl, hLatest⟩
  | addAlloc m ok =>
      obtain rfl : ok = true := ha
      exact ⟨by simp [Track.step, hCurrent], hLatest⟩
  | addReserve fresh =>
      obtain ⟨cells, rfl⟩ := Option.isSome_iff_exists.mp ha
      exact ⟨by simp [Track.step, hCurrent], hLatest⟩
  | publish => exact ⟨hCurrent, hCurrent⟩
  | beginReset | addCopy | addCount | render => exact ⟨hCurrent, hLatest⟩

section Room

variable {n : Nat} {trace : List (Action D)} {s s' : State D} {a : Action D}

/-- No buffer in use gets smaller. -/
theorem cap_mono (hStep : step s a = some s') {p : Nat} (hp : p < s.next) :
    (s.heap p).cap ≤ (s'.heap p).cap := by
  cases effect_of_step hStep with
  | keep _ hCap => exact (hCap p).ge
  | create _ hNone =>
      show _ ≤ (Function.update s.heap s.next sbNew p).cap
      rw [Function.update_of_ne hp.ne]
  | @grow m q cells hPosition hStaged =>
      show _ ≤ (Function.update s.heap q _ p).cap
      by_cases hBuffer : p = q
      · subst hBuffer
        rw [Function.update_self, sbReserve]
        split
        · exact le_rfl
        · exact self_le_grownCapacity 32 _ _
      · rw [Function.update_of_ne hBuffer]
  | publish => exact le_rfl

theorem SnapRoom.step {b : Option Nat} (h : SnapRoom n s.heap b)
    (hUsed : ∀ p, b = some p → p < s.next) (hStep : step s a = some s') : SnapRoom n s'.heap b := by
  obtain ⟨p, hp, hRoom⟩ := h
  exact ⟨p, hp, le_trans hRoom (cap_mono hStep (hUsed p hp))⟩

/-- The published buffer keeps its room until the next `publish`. -/
theorem room_published (hInv : Inv trace s) (h : SnapRoom n s.heap s.published)
    (hStep : step s a = some s') (hPublish : a ≠ .publish) : SnapRoom n s'.heap s'.published := by
  have hRoom := h.step hInv.separate.published_lt hStep
  cases effect_of_step hStep with
  | keep | create | grow => exact hRoom
  | publish => exact absurd rfl hPublish

/-- Both buffers are there and have room for `n` metrics. -/
def BothRoom (n : Nat) (s : State D) : Prop :=
  SnapRoom n s.heap s.staged ∧ SnapRoom n s.heap s.published

theorem BothRoom.step (hInv : Inv trace s) (h : BothRoom n s) (hStep : step s a = some s') :
    BothRoom n s' := by
  have hStaged := h.1.step hInv.separate.staged_lt hStep
  have hPublished := h.2.step hInv.separate.published_lt hStep
  cases effect_of_step hStep with
  | keep | grow => exact ⟨hStaged, hPublished⟩
  | create _ hNone =>
      obtain ⟨p, hp, -⟩ := h.1
      rw [hNone] at hp
      cases hp
  | publish => exact ⟨hPublished, hStaged⟩

theorem stageBuffer_staged {p : Nat} {ok : Bool} (hStaged : s.staged = some p)
    (h : stageBuffer s ok = some s') : ok = true := by
  cases ok with
  | true => rfl
  | false => simp [stageBuffer, hStaged] at h

/-- With room for the cycle in progress nothing is allocated. -/
theorem succeeds_of_room (hInv : Inv trace s) (hRoom : BothRoom n s)
    (hWaits : Waits n trace s) (hStep : step s a = some s') : a.Succeeds := by
  obtain ⟨p, hStaged, hCap⟩ := hRoom.1
  cases a with
  | beginAlloc ok =>
      simp only [step] at hStep
      split at hStep
      · obtain ⟨s₁, hStage, -⟩ := Option.map_eq_some_iff.mp hStep
        exact stageBuffer_staged hStaged hStage
      · cases hStep
  | addAlloc m ok =>
      simp only [step] at hStep
      split at hStep
      · obtain ⟨s₁, hStage, -⟩ := Option.map_eq_some_iff.mp hStep
        exact stageBuffer_staged hStaged hStage
      · cases hStep
  | addReserve fresh =>
      simp only [step] at hStep
      split at hStep
      · rename_i m q hPosition hStaged'
        obtain rfl : p = q := Option.some.inj (hStaged.symm.trans hStaged')
        have hCount := hInv.count_lt hPosition hStaged
        have hCycle := hWaits m hPosition
        rw [if_neg (by omega)] at hStep
        split at hStep
        · assumption
        · cases hStep
      · cases hStep
  | _ => trivial

/-- A full cycle leaves room in its buffer. -/
theorem room_of_full (hn : 0 < n) (hInv : Inv trace s) (hFull : (track trace).current.IsFull n)
    (hStep : step s .publish = some s') : SnapRoom n s'.heap s'.published := by
  cases hPosition : s.position with
  | filling =>
      simp only [Prom.step, hPosition, Option.some.injEq] at hStep
      subst hStep
      have hAgrees := hInv.staged
      rw [StagedAgrees, hPosition] at hAgrees
      have hContents := congrArg List.length (hAgrees.2 hFull.2)
      rw [List.length_map] at hContents
      have hLength := hFull.1
      cases hStaged : s.staged with
      | none =>
          rw [hStaged] at hContents
          have hNone : (contentsAt s.heap none).length = 0 := rfl
          omega
      | some p =>
          rw [hStaged] at hContents
          have hCount : (contentsAt s.heap (some p)).length = (s.heap p).count :=
            length_contents (s.heap p)
          have hCap := (s.heap p).count_le_cap
          have hRoom : n ≤ (s.heap p).cap := by omega
          exact ⟨p, rfl, hRoom⟩
  | _ => simp [Prom.step, hPosition] at hStep

end Room

theorem idle_of_publish {s s' : State D} (hStep : step s .publish = some s') :
    s'.position = .idle := by
  simp only [step] at hStep
  split at hStep
  · cases hStep
    rfl
  · cases hStep

/-- What a run has reached that continues a trace. -/
theorem inv_of_continued {front trace : List (Action D)} {s s' : State D} (h : Inv front s)
    (hRun : run step s trace = some s') : Inv (front ++ trace) s' := by
  refine run_invariant (fun trace s => Inv (front ++ trace) s) (by rwa [List.append_nil]) ?_ hRun
  intro trace s a s' h hStep
  rw [← List.append_assoc]
  exact inv_step h hStep

/-- The published buffer waits through a cycle with the room it had. -/
theorem room_waits {n : Nat} {start cycle : List (Action D)} {s s' : State D} (hInv : Inv start s)
    (hRoom : SnapRoom n s.heap s.published) (hOpen : .publish ∉ cycle)
    (hRun : run step s cycle = some s') : SnapRoom n s'.heap s'.published := by
  refine run_invariant (fun trace s => Inv (start ++ trace) s ∧
    (.publish ∉ trace → SnapRoom n s.heap s.published)) ?_ ?_ hRun |>.2 hOpen
  · rw [List.append_nil]
    exact ⟨hInv, fun _ => hRoom⟩
  · intro trace s a s' h hStep
    refine ⟨?_, fun hNone => ?_⟩
    · rw [← List.append_assoc]
      exact inv_step h.1 hStep
    · rw [List.mem_append, List.mem_singleton, not_or] at hNone
      exact room_published h.1 (h.2 hNone.1) hStep (Ne.symm hNone.2)

/-- With room in both buffers no allocation fails from an idle state on. -/
theorem all_succeed {n : Nat} {start later : List (Action D)} {s s' : State D} (hInv : Inv start s)
    (hIdle : s.position = .idle) (hRoom : BothRoom n s) (hClear : (track start).Clear)
    (hSmall : CyclesUpTo n start later) (hRun : run step s later = some s') :
    (∀ a ∈ later, a.Succeeds) ∧ (track (start ++ later)).Clear := by
  refine run_invariant (fun trace s => Inv (start ++ trace) s ∧ (CyclesUpTo n start trace →
    Waits n (start ++ trace) s ∧ BothRoom n s ∧
      (∀ a ∈ trace, a.Succeeds) ∧ (track (start ++ trace)).Clear)) ?_ ?_ hRun |>.2 hSmall
      |>.2 |>.2
  · rw [List.append_nil]
    refine ⟨hInv, fun _ => ⟨fun m hm => ?_, hRoom, nofun, hClear⟩⟩
    rw [hIdle] at hm
    cases hm
  · intro trace s a s' h hStep
    rw [← List.append_assoc]
    refine ⟨inv_step h.1 hStep, fun hSmall => ?_⟩
    obtain ⟨hWaits, hRoom, hSucceeds, hClear⟩ := h.2 hSmall.init
    have ha := succeeds_of_room h.1 hRoom hWaits hStep
    refine ⟨waits_step hSmall hWaits hStep, hRoom.step h.1 hStep, ?_, ?_⟩
    · rw [List.forall_mem_append]
      exact ⟨hSucceeds, by simpa using ha⟩
    · rw [track_append_singleton]
      exact hClear.step ha

/-- **After two full cycles nothing can fail.**  Two cycles in succession that had at least
`n` metrics and no failed allocation leave buffers in which every cycle of up to `n` metrics
fits.  As long as only such cycles follow, the collection thread allocates nothing any more,
and whatever the state of the memory, the store holds all metrics of the latest published
cycle. -/
theorem later_cycles_are_complete {n : Nat} (hn : 0 < n) {first second later : List (Action D)}
    {s : State D}
    (hRun : run step State.initial (first ++ .publish :: (second ++ .publish :: later)) = some s)
    (hFirst : (track first).current.IsFull n) (hSuccession : .publish ∉ second)
    (hSecond : (track (first ++ .publish :: second)).current.IsFull n)
    (hSmall : CyclesUpTo n (first ++ .publish :: (second ++ [.publish])) later) :
    (∀ a ∈ later, a.Succeeds) ∧
      promRenderCopy s true =
        (latestCycle (first ++ .publish :: (second ++ .publish :: later))).metrics.map
          copyMetric := by
  have hInv := inv_of_run hRun
  rw [run_append, Option.bind_eq_some_iff] at hRun
  obtain ⟨s₁, hRun₁, hRun⟩ := hRun
  rw [run_cons, Option.bind_eq_some_iff] at hRun
  obtain ⟨s₂, hPublish₁, hRun⟩ := hRun
  rw [run_append, Option.bind_eq_some_iff] at hRun
  obtain ⟨s₃, hRun₃, hRun⟩ := hRun
  rw [run_cons, Option.bind_eq_some_iff] at hRun
  obtain ⟨s₄, hPublish₂, hRun₄⟩ := hRun
  have hInv₁ := inv_of_run hRun₁
  have hInv₂ := inv_step hInv₁ hPublish₁
  have hInv₃ := inv_of_continued hInv₂ hRun₃
  have hInv₄ := inv_step hInv₃ hPublish₂
  have hUpToSecond : first ++ [.publish] ++ second = first ++ .publish :: second := by simp
  have hStart : first ++ [.publish] ++ second ++ [.publish] =
      first ++ .publish :: (second ++ [.publish]) := by simp
  rw [← hUpToSecond] at hSecond
  have hRoom₃ := room_waits hInv₂ (room_of_full hn hInv₁ hFirst hPublish₁) hSuccession hRun₃
  have hRoom₄ : BothRoom n s₄ := by
    refine ⟨?_, room_of_full hn hInv₃ hSecond hPublish₂⟩
    have hKept := hRoom₃.step hInv₃.separate.published_lt hPublish₂
    cases effect_of_step hPublish₂ with
    | keep hOther | create hOther => exact absurd rfl hOther
    | publish => exact hKept
  have hClear : (track (first ++ [.publish] ++ second ++ [.publish])).Clear := by
    rw [track_append_singleton]
    exact ⟨hSecond.2, hSecond.2⟩
  rw [← hStart] at hSmall
  obtain ⟨hSucceeds, -, hLatest⟩ :=
    all_succeed hInv₄ (idle_of_publish hPublish₂) hRoom₄ hClear hSmall hRun₄
  refine ⟨hSucceeds, (promRenderCopy_true s).trans (hInv.published.2 ?_)⟩
  rw [show first ++ .publish :: (second ++ .publish :: later) =
    first ++ [.publish] ++ second ++ [.publish] ++ later by simp]
  exact hLatest

/-- A cycle with one metric, up to its `publish`. -/
def oneCycle (m : Metric Nat) : List (Action Nat) :=
  [.beginAlloc true, .beginReset, .addAlloc m true, .addReserve (some fun _ => copyMetric m),
    .addCopy, .addCount]

/-- Three cycles, the last of them published too. -/
def threeCycles : List (Action Nat) :=
  oneCycle (loadSample 1 2 3) ++ .publish :: (oneCycle (loadSample 4 5 6) ++
    .publish :: (oneCycle (loadSample 7 8 9) ++ [.publish]))

theorem third_cycle_is_complete :
    ∃ s : State Nat, run step State.initial threeCycles = some s ∧
      promRenderCopy s true = [copyMetric (loadSample 7 8 9)] := by
  obtain ⟨s, hRun⟩ : ∃ s : State Nat, run step State.initial threeCycles = some s :=
    Option.isSome_iff_exists.mp (by decide)
  obtain ⟨-, hRender⟩ := later_cycles_are_complete (by decide : 0 < 1) hRun
    ⟨by decide, by decide⟩ (by simp [oneCycle]) ⟨by decide, by decide⟩
    (cyclesUpTo_of_inits (by decide))
  exact ⟨s, hRun, hRender⟩

end Prom
end SvgdCollect
