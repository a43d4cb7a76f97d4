import SvgdCollect.Prom.RoundTrip
import SvgdCollect.Prom.Snapshot

/-!
# The two ways to render

`prom_render` renders the published snapshot and `prom_render_metrics` a list of
metrics.  Both return the buffer of a dynamic string, or an empty string of their own.
The bytes of a fresh block are whatever the allocator left there, so a text is only a
C string if its NUL has been written.
-/

namespace SvgdCollect
namespace Prom

open Lib

variable {D : Type}

/-! ## The code -/

/-- `malloc(1)` for an empty string; `none` is the null pointer. -/
def emptyString (o : Oracle) : Alloc (Option Bytes) := do
  match ← allocate o with
  | none => pure none
  | some _ => pure (some [0])

/-- The block that is returned behind `render_to_dstring`. -/
def returnedBlock (o : Oracle) (d : DString) : Alloc (Option Bytes) :=
  match d.buf with
  | none => emptyString o
  | some block => pure (some block)

section Code

variable [CDouble D] [Inhabited D] (o : Oracle) (printf : Printf D) (qsort : Qsort)

/-- `prom_render`. -/
def promRender (s : State D) : Alloc (Option Bytes) :=
  match s.published with
  | none => emptyString o
  | some p =>
      if (s.heap p).count = 0 then emptyString o
      else do
        match ← allocate o with
        | none => emptyString o
        | some _ =>
            let copy := (s.heap p).items.take (s.heap p).count
            let d ← renderToDstring o printf qsort DString.zero copy
            returnedBlock o d

/-- `prom_render_metrics`. -/
def promRenderMetrics (metrics : List (Metric D)) : Alloc (Option Bytes) := do
  if metrics = [] then
    let d ← renderToDstring o printf qsort DString.zero []
    returnedBlock o d
  else
    match ← allocate o with
    | none => emptyString o
    | some _ =>
        let snaps := metrics.map copyMetric
        let d ← renderToDstring o printf qsort DString.zero snaps
        returnedBlock o d

end Code

/-! ## Blocks that hold a string -/

/-- A block with a text and the NUL that ends it. -/
def Terminated (text : Bytes) (block : Option Bytes) : Prop :=
  0 ∉ text ∧ ∃ rest, block = some (text ++ 0 :: rest)

/-- Whoever reads the block gets the text. -/
theorem Terminated.cstr_eq {text block : Bytes} (h : Terminated text (some block)) :
    cstr block = text := by
  obtain ⟨hText, rest, hBlock⟩ := h
  rw [Option.some.inj hBlock]
  exact cstr_append_zero rest hText

theorem emptyString_yields {o : Oracle} (ho : o.Succeeds) :
    Yields (emptyString o) (Terminated []) := by
  unfold emptyString
  refine Yields.bind (yields_allocate ho) ?_
  rintro r ⟨fresh, rfl⟩
  exact Yields.pure ⟨by simp, [], rfl⟩

theorem returnedBlock_yields {o : Oracle} (ho : o.Succeeds) {d : DString} {text : Bytes}
    (h : Holds d text) (hText : 0 ∉ text) : Yields (returnedBlock o d) (Terminated text) := by
  unfold returnedBlock
  rcases h.cells with ⟨rfl, rfl⟩ | ⟨rest, hBuf, -⟩
  · exact emptyString_yields ho
  · rw [hBuf]
    exact Yields.pure ⟨hText, rest, rfl⟩

/-- A buffer that counts something holds something. -/
theorem SnapBuf.take_count_ne_nil {sb : SnapBuf D} (h : sb.count ≠ 0) :
    sb.items.take sb.count ≠ [] := by
  rw [ne_eq, List.take_eq_nil_iff, not_or]
  refine ⟨h, List.ne_nil_of_length_pos ?_⟩
  have hCap := sb.count_le_cap
  rw [sb.length_items]
  omega

section Yield

variable [CDouble D] [Inhabited D] {o : Oracle} {printf : Printf D} {qsort : Qsort}

/-- The text of a snapshot. -/
def snapshotText (printf : Printf D) (qsort : Qsort) (ms : List (SnapMetric D)) : Bytes :=
  Exposition.render (blocksOf printf (qsort (Entry ms) cmpFamily (entries ms)))

theorem render_nonempty_yields (ho : o.Succeeds) (hSort : SortsFamilies qsort)
    {ms : List (SnapMetric D)} (hne : ms ≠ []) (hNul : ∀ sm ∈ ms, NulFree sm) :
    Yields (do let d ← renderToDstring o printf qsort DString.zero ms; returnedBlock o d)
      (Terminated (snapshotText printf qsort ms)) :=
  Yields.bind (renderToDstring_holds ho hne hSort hNul) fun _ hd =>
    returnedBlock_yields ho hd (zero_notMem_rendered hSort hNul)

theorem promRenderMetrics_yields (ho : o.Succeeds) (hSort : SortsFamilies qsort)
    {metrics : List (Metric D)} (hne : metrics ≠ []) (hStrings : ∀ m ∈ metrics, CInstances m) :
    Yields (promRenderMetrics o printf qsort metrics)
      (Terminated (snapshotText printf qsort (metrics.map copyMetric))) := by
  unfold promRenderMetrics
  rw [if_neg hne]
  refine Yields.bind (yields_allocate ho) ?_
  rintro r ⟨fresh, rfl⟩
  exact render_nonempty_yields ho hSort (by simpa using hne) (nulFree_copies hStrings)

theorem snapshotText_nil (hSort : SortsFamilies qsort) :
    snapshotText printf qsort ([] : List (SnapMetric D)) = [] := by
  have hPerm := (hSort ([] : List (SnapMetric D)) (entries [])).1
  have hNil : qsort (Entry ([] : List (SnapMetric D))) cmpFamily (entries []) = [] :=
    List.perm_nil.mp hPerm
  rw [snapshotText, hNil]
  rfl

/-- A render gives the text of the published snapshot. -/
theorem promRender_yields (ho : o.Succeeds) (hSort : SortsFamilies qsort) {s : State D}
    {metrics : List (Metric D)} (hStrings : ∀ m ∈ metrics, CInstances m)
    (hPublished : contentsAt s.heap s.published = metrics.map copyMetric) :
    Yields (promRender o printf qsort s)
      (Terminated (snapshotText printf qsort (metrics.map copyMetric))) := by
  unfold promRender
  cases hPointer : s.published with
  | none =>
      rw [hPointer, contentsAt] at hPublished
      rw [← hPublished, snapshotText_nil hSort]
      exact emptyString_yields ho
  | some p =>
      rw [hPointer, contentsAt, SnapBuf.contents] at hPublished
      by_cases hCount : (s.heap p).count = 0
      · rw [hCount, List.take_zero] at hPublished
        simp only [if_pos hCount, ← hPublished, snapshotText_nil hSort]
        exact emptyString_yields ho
      · have hCopies : metrics.map copyMetric ≠ [] := by
          rw [← hPublished]
          exact SnapBuf.take_count_ne_nil hCount
        simp only [if_neg hCount, hPublished]
        refine Yields.bind (yields_allocate ho) ?_
        rintro r ⟨fresh, rfl⟩
        exact render_nonempty_yields ho hSort hCopies (nulFree_copies hStrings)

end Yield

/-! ## One cycle of the snapshot -/

/-- The statements of one `prom_snapshot_add`, with what the new cells of the buffer
hold if it has to grow. -/
def addTrace (add : Metric D × (Nat → SnapMetric D)) : List (Action D) :=
  [.addAlloc add.1 true, .addReserve (some add.2), .addCopy, .addCount]

/-- `prom_snapshot_begin`, one `prom_snapshot_add` per metric and
`prom_snapshot_publish`, with memory available. -/
def cycleTrace (adds : List (Metric D × (Nat → SnapMetric D))) : List (Action D) :=
  [.beginAlloc true, .beginReset] ++ (adds.flatMap addTrace ++ [.publish])

/-- Between two calls of a cycle, with a buffer to fill. -/
def Filling (s : State D) : Prop := s.position = .filling ∧ s.staged.isSome = true

theorem run_begin {s : State D} (h : s.position = .idle) :
    ∃ s', run step s [.beginAlloc true, .beginReset] = some s' ∧ Filling s' := by
  cases hStaged : s.staged with
  | none =>
      simp only [run, step, h, stageBuffer, hStaged, Option.map_some]
      exact ⟨_, rfl, rfl, rfl⟩
  | some p =>
      simp only [run, step, h, stageBuffer, hStaged, Option.map_some]
      exact ⟨_, rfl, rfl, rfl⟩

/-- With memory available every metric is stored and counted. -/
theorem run_addTrace {s : State D} (h : Filling s) (add : Metric D × (Nat → SnapMetric D)) :
    ∃ s', run step s (addTrace add) = some s' ∧ Filling s' := by
  obtain ⟨hPosition, hSome⟩ := h
  obtain ⟨p, hStaged⟩ := Option.isSome_iff_exists.mp hSome
  simp only [addTrace, run, step, hPosition, stageBuffer, hStaged, Option.map_some]
  by_cases hFull : (s.heap p).count ≥ (s.heap p).cap
  · have hRoom : (s.heap p).count < (sbReserve (s.heap p) ((s.heap p).count + 1) (some add.2)).cap :=
      le_cap_sbReserve (s.heap p) _ add.2
    simp only [if_pos hFull, Function.update_self, count_sbReserve, if_pos hRoom]
    have hCount : ((sbReserve (s.heap p) ((s.heap p).count + 1) (some add.2)).store
        (copyMetric add.1)).count <
        ((sbReserve (s.heap p) ((s.heap p).count + 1) (some add.2)).store (copyMetric add.1)).cap := by
      simpa [SnapBuf.store] using hRoom
    simp only [dif_pos hCount]
    exact ⟨_, rfl, rfl, rfl⟩
  · have hRoom : (s.heap p).count < (s.heap p).cap := not_le.mp hFull
    simp only [if_neg hFull, Option.isSome_some, if_true, if_pos hRoom, Function.update_self]
    have hCount : ((s.heap p).store (copyMetric add.1)).count <
        ((s.heap p).store (copyMetric add.1)).cap := hRoom
    simp only [dif_pos hCount]
    exact ⟨_, rfl, rfl, rfl⟩

theorem run_adds {s : State D} (h : Filling s) (adds : List (Metric D × (Nat → SnapMetric D))) :
    ∃ s', run step s (adds.flatMap addTrace) = some s' ∧ Filling s' := by
  induction adds generalizing s with
  | nil => exact ⟨s, rfl, h⟩
  | cons add adds ih =>
      obtain ⟨s₁, hAdd, hFilling⟩ := run_addTrace h add
      obtain ⟨s₂, hRest, hDone⟩ := ih hFilling
      refine ⟨s₂, ?_, hDone⟩
      rw [List.flatMap_cons, run_append, hAdd]
      exact hRest

/-- A cycle can run whenever the collection thread is between two of them. -/
theorem run_cycleTrace {s : State D} (h : s.position = .idle)
    (adds : List (Metric D × (Nat → SnapMetric D))) :
    ∃ s', run step s (cycleTrace adds) = some s' := by
  obtain ⟨s₁, hBegin, hFilling⟩ := run_begin h
  obtain ⟨s₂, hAdds, hDone⟩ := run_adds hFilling adds
  rw [cycleTrace, run_append, hBegin, Option.bind_some, run_append, hAdds, Option.bind_some]
  simp only [run, step, hDone.1]
  exact ⟨_, rfl⟩

theorem track_adds (t : Track D) (adds : List (Metric D × (Nat → SnapMetric D))) :
    (adds.flatMap addTrace).foldl Track.step t =
      { t with current := ⟨t.current.metrics ++ adds.map Prod.fst, t.current.failed⟩ } := by
  induction adds generalizing t with
  | nil => simp
  | cons add adds ih =>
      rw [List.flatMap_cons, List.foldl_append, ih]
      simp [addTrace, Track.step]

/-- The cycle that was published last is the one that has just run. -/
theorem latestCycle_cycleTrace (trace : List (Action D))
    (adds : List (Metric D × (Nat → SnapMetric D))) :
    latestCycle (trace ++ cycleTrace adds) = ⟨adds.map Prod.fst, false⟩ := by
  simp only [latestCycle, track, cycleTrace, List.foldl_append, track_adds, List.foldl_cons,
    List.foldl_nil, Track.step]
  rfl

/-- After a cycle the published buffer holds the copies of its metrics. -/
theorem published_cycleTrace {trace : List (Action D)} {s s' : State D}
    (hRun : run step State.initial trace = some s) {adds : List (Metric D × (Nat → SnapMetric D))}
    (hCycle : run step s (cycleTrace adds) = some s') :
    contentsAt s'.heap s'.published = (adds.map Prod.fst).map copyMetric := by
  have hAll : run step State.initial (trace ++ cycleTrace adds) = some s' := by
    rw [run_append, hRun]
    exact hCycle
  have hPublished := (inv_of_run hAll).published
  have hLatest := latestCycle_cycleTrace trace adds
  rw [latestCycle] at hLatest
  rw [hLatest] at hPublished
  exact hPublished.2 rfl

/-! ## Agreement -/

/-- Memory in which every byte has the same value. -/
def filledMemory (b : Byte) : Oracle := fun _ => some fun _ => b

theorem filledMemory_succeeds (b : Byte) : (filledMemory b).Succeeds := fun _ => rfl

section Agreement

variable [CDouble D] [Inhabited D] {printf : Printf D} {qsort : Qsort}

/-- An empty list is answered with a fresh block, none of whose bytes is written. -/
theorem promRenderMetrics_nil_run {o : Oracle} {k : Nat} {fresh : Nat → Byte}
    (h : o k = some fresh) :
    ((promRenderMetrics (D := D) o printf qsort []).run k).1 =
      some ((List.range (grownCapacity 512 0 1)).map fresh) := by
  have hReserve : ((dsReserve o DString.zero 0).run k).1 =
      ⟨some ((List.range (grownCapacity 512 0 1)).map fresh), 0, grownCapacity 512 0 1⟩ := by
    have hCells : DString.zero.cells = [] := rfl
    unfold dsReserve
    rw [if_neg (by decide)]
    simp only [Alloc.run_bind, Alloc.run_allocate, h, hCells, List.nil_append, List.length_nil,
      Nat.sub_zero]
    rfl
  unfold promRenderMetrics renderToDstring
  rw [if_pos rfl, if_pos rfl]
  -- the buffer is there, so the branch that writes a NUL is not taken
  simp only [Alloc.run_bind, hReserve]
  rfl

theorem promRenderMetrics_nil_not_terminated {b : Byte} (hb : b ≠ 0) (text : Bytes) :
    ¬ Yields (promRenderMetrics (D := D) (filledMemory b) printf qsort []) (Terminated text) := by
  intro h
  have hBlock : ((promRenderMetrics (D := D) (filledMemory b) printf qsort []).run 0).1 = _ :=
    promRenderMetrics_nil_run rfl
  obtain ⟨-, rest, hText⟩ := h 0
  rw [hBlock, Option.some.injEq] at hText
  have hZero : (0 : Byte) ∈ (List.range (grownCapacity 512 0 1)).map fun _ => b := by
    rw [hText]
    simp
  obtain ⟨i, -, hi⟩ := List.mem_map.mp hZero
  exact hb hi

/-- **The entry points agree on lists that are not empty.**  There is one text, whatever
fresh memory holds, that `prom_render_metrics` returns for a list and `prom_render`
returns after a cycle with the metrics of the list, from any state between two cycles,
with its NUL in both cases, if and only if the list has an element. -/
theorem promRender_agrees_iff (hSort : SortsFamilies qsort) {metrics : List (Metric D)}
    (hStrings : ∀ m ∈ metrics, CInstances m) :
    (∃ text, ∀ o : Oracle, o.Succeeds →
        Yields (promRenderMetrics o printf qsort metrics) (Terminated text) ∧
          ∀ trace s adds, run step State.initial trace = some s → s.position = .idle →
            adds.map Prod.fst = metrics →
            ∃ s', run step s (cycleTrace adds) = some s' ∧
              Yields (promRender o printf qsort s') (Terminated text)) ↔
      metrics ≠ [] := by
  constructor
  · rintro ⟨text, hText⟩ rfl
    exact promRenderMetrics_nil_not_terminated (by decide : (65 : Byte) ≠ 0) text
      (hText _ (filledMemory_succeeds 65)).1
  · intro hne
    refine ⟨snapshotText printf qsort (metrics.map copyMetric), fun o ho => ?_⟩
    refine ⟨promRenderMetrics_yields ho hSort hne hStrings, ?_⟩
    rintro trace s adds hRun hIdle rfl
    obtain ⟨s', hCycle⟩ := run_cycleTrace hIdle adds
    exact ⟨s', hCycle, promRender_yields ho hSort hStrings (published_cycleTrace hRun hCycle)⟩

end Agreement

/-- One process with a name; the hypotheses hold for it. -/
theorem promRender_agrees_on_process :
    ∃ text, ∀ o : Oracle, o.Succeeds →
      Yields (promRenderMetrics o integralPrintf stableQsort
        [{ plugin := ascii "processes", pluginInstance := some (ascii "sshd")
           type := ascii "ps_rss", typeInstance := none, dsCount := 1
           values := [.finite 4096] }]) (Terminated text) ∧
        ∀ trace s adds, run step State.initial trace = some s → s.position = .idle →
          adds.map Prod.fst =
            [{ plugin := ascii "processes", pluginInstance := some (ascii "sshd")
               type := ascii "ps_rss", typeInstance := none, dsCount := 1
               values := [.finite 4096] }] →
          ∃ s', run step s (cycleTrace adds) = some s' ∧
            Yields (promRender o integralPrintf stableQsort s') (Terminated text) := by
  refine (promRender_agrees_iff stableQsort_sorts ?_).mpr (List.cons_ne_nil _ _)
  intro m hm
  rw [List.mem_singleton.mp hm]
  refine ⟨?_, by simp⟩
  rintro s ⟨⟩
  decide

/-- In memory full of `A`s the empty list has no end, while a render of an empty cycle
gives the empty string. -/
theorem promRenderMetrics_empty_list :
    (filledMemory 65).Succeeds ∧
      (∀ text, ¬ Yields (promRenderMetrics (filledMemory 65) integralPrintf stableQsort [])
        (Terminated text)) ∧
      ∃ s : State Double, run step State.initial (cycleTrace []) = some s ∧
        Yields (promRender (filledMemory 65) integralPrintf stableQsort s) (Terminated []) := by
  refine ⟨filledMemory_succeeds 65, promRenderMetrics_nil_not_terminated (by decide), _, rfl, ?_⟩
  exact emptyString_yields (filledMemory_succeeds 65)

end Prom
end SvgdCollect
