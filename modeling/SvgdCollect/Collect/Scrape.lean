import SvgdCollect.Collect.Tee
import SvgdCollect.Http.Client
import SvgdCollect.Series

/-!
# A scrape of the running daemon

From the files under `/proc` to the samples that a client of `/metrics` reads: the
readers, the snapshot, the exposition, the response and the client, in any state that
the daemon can reach.
-/

namespace SvgdCollect
namespace Loop

open Lib Prom

/-- The client of `/metrics`: it reads the response and parses the text of a good one. -/
def scrape (bytes : Bytes) : Option (List Exposition.Block) :=
  match HttpResponse.read bytes with
  | none => none
  | some r => if r.status = ascii "200 OK" then Exposition.parse r.body else none

/-- A request for the metrics whose first line arrives with the first call of `recv`. -/
def AsksForMetrics (chunks : List Bytes) : Prop :=
  requestFields (recv chunks 1023) = [ascii "GET", ascii "/metrics"]

instance (chunks : List Bytes) : Decidable (AsksForMetrics chunks) :=
  inferInstanceAs (Decidable (_ = _))

theorem AsksForMetrics.recv_ne_nil {chunks : List Bytes} (h : AsksForMetrics chunks) :
    recv chunks 1023 ≠ [] := by
  intro hNil
  rw [AsksForMetrics, hNil] at h
  revert h
  decide

variable {D : Type} [CDouble D]

/-- The metrics of the last complete cycle. -/
def lastBatch (setup : Setup) (history : List (Reader → Sources)) : List (Metric D) :=
  (collectCycles setup.enabled CpuState.initial history).2.getLastD []

theorem shape_of_mem_lastBatch {setup : Setup} {history : List (Reader → Sources)}
    {m : Metric D} (hm : m ∈ lastBatch setup history) : ∃ r ∈ setup.enabled, Shape r m := by
  unfold lastBatch at hm
  cases hBatches : (collectCycles (D := D) setup.enabled CpuState.initial history).2.getLast? with
  | none =>
      rw [List.getLastD_eq_getLast?, hBatches] at hm
      cases hm
  | some batch =>
      rw [List.getLastD_eq_getLast?, hBatches] at hm
      obtain ⟨srcs, -, r, hr, st, hRead⟩ :=
        mem_collectCycles (List.mem_of_mem_getLast? hBatches) hm
      exact ⟨r, hr, shape_of_mem_read hRead⟩

/-- The published buffer holds copies of some of them. -/
theorem Coupled.published {setup : Setup} {trace : List (Move D)} {s : State D}
    (h : Coupled setup trace s) :
    ∃ (history : List (Reader → Sources)) (done : List Reader) (srcs : Reader → Sources)
      (seen : List (Metric D)),
      readTrace trace = history.flatMap (fun srcs => setup.enabled.map srcs) ++ done.map srcs ∧
      seen.Sublist (lastBatch setup history) ∧
      ((latestCycle (snapTrace trace)).failed = false → seen = lastBatch setup history) ∧
      contentsAt s.snap.heap s.snap.published = seen.map copyMetric := by
  obtain ⟨history, srcs, done, written, pending, hAccounts, -⟩ := h.agrees
  obtain ⟨hSome, hAll⟩ := (Prom.inv_of_run h.run).published
  have hLatest : (latestCycle (snapTrace trace)).metrics = lastBatch setup history :=
    hAccounts.latest
  refine ⟨history, done, srcs, ?_⟩
  by_cases hFailed : (latestCycle (snapTrace trace)).failed = false
  · exact ⟨lastBatch setup history, hAccounts.reads, List.Sublist.refl _, fun _ => rfl,
      hLatest ▸ hAll hFailed⟩
  · obtain ⟨seen, hSeen, hContents⟩ := List.sublist_map_iff.mp hSome
    exact ⟨seen, hAccounts.reads, hLatest ▸ hSeen, fun hNot => absurd hNot hFailed, hContents⟩

/-! ## What the client gets -/

variable [Inhabited D] {printf : Printf D} {qsort : Qsort}

/-- A sent response is read as its body. -/
theorem scrape_eq_parse {body written : Bytes} {outcomes : List SendOutcome}
    (hEnd : NoLineEnd body) (hHead : body.head? ≠ some lf)
    (hSent : Answer.send (.metrics body) outcomes = some written) :
    scrape written =
      if written = Answer.text (.metrics body) then Exposition.parse body else none := by
  unfold scrape
  rw [Answer.read_sent (a := .metrics body) hEnd hHead hSent]
  by_cases hWhole : written = Answer.text (.metrics body)
  · simp only [if_pos hWhole]
    exact if_pos rfl
  · simp only [if_neg hWhole]

variable {o : Oracle} {setup : Setup}

/-- What a client gets from a response that is rendered in a reachable state, and that it
gets it if the socket does not fail. -/
theorem Coupled.scrape (ho : o.Succeeds) (hSort : SortsFamilies qsort)
    (hVal : ∀ v, Exposition.space ∉ fmtVal printf 64 v ∧
      Exposition.newline ∉ fmtVal printf 64 v ∧ cr ∉ fmtVal printf 64 v)
    {trace : List (Move D)} {s : State D} (h : Coupled setup trace s) {chunks : List Bytes}
    (hAsks : AsksForMetrics chunks) {k : Nat} {outcomes : List SendOutcome} {written : Bytes}
    (hSent : ((handleConn o printf qsort s.snap chunks outcomes).run k).1 = some written) :
    ∃ (history : List (Reader → Sources)) (done : List Reader) (srcs : Reader → Sources)
      (seen : List (Metric D)) (blocks : List Exposition.Block),
      readTrace trace = history.flatMap (fun srcs => setup.enabled.map srcs) ++ done.map srcs ∧
      seen.Sublist (lastBatch setup history) ∧
      ((latestCycle (snapTrace trace)).failed = false → seen = lastBatch setup history) ∧
      blocks.Pairwise (fun b b' => strcmp b.family b'.family < 0) ∧
      (∀ b ∈ blocks, HasRule b) ∧
      (blockSamples blocks).Perm (seen.flatMap (metricSamples printf)) ∧
      (Loop.scrape written = none ∨ Loop.scrape written = some blocks) ∧
      ((∀ x ∈ outcomes, x.Progress) → Loop.scrape written = some blocks) := by
  obtain ⟨history, done, srcs, seen, hReads, hSeen, hAll, hContents⟩ := h.published
  have hFit : ∀ m ∈ seen, InstancesFit m := by
    intro m hm
    obtain ⟨r, -, hShape⟩ := shape_of_mem_lastBatch (hSeen.subset hm)
    exact instancesFit_of_shape hShape
  have hStrings : ∀ m ∈ seen, CInstances m := fun m hm =>
    ⟨fun t ht => ((hFit m hm).pluginInstance t ht).1,
      fun t ht => ((hFit m hm).typeInstance t ht).1⟩
  have hParse : Exposition.parse (snapshotText printf qsort (seen.map copyMetric)) =
      some (renderedBlocks printf qsort seen) :=
    Exposition.parse_render
      (renderedBlocks_wellFormed hSort fun v => ⟨(hVal v).1, (hVal v).2.1⟩)
  have hAnswer : connAnswer o printf qsort s.snap k chunks =
      .metrics (snapshotText printf qsort (seen.map copyMetric)) := by
    rw [connAnswer, hAsks, renderedBody_eq ho hSort hStrings hContents k]
    rfl
  have hBody := connAnswer_body (o := o) (fun v => (hVal v).2.2) hSort s.snap k chunks
  rw [hAnswer] at hBody
  rw [handleConn_run s.snap hAsks.recv_ne_nil, hAnswer] at hSent
  have hScrape : Loop.scrape written =
      if written = Answer.text (.metrics (snapshotText printf qsort (seen.map copyMetric))) then
        some (renderedBlocks printf qsort seen) else none := by
    rw [← hParse]
    exact scrape_eq_parse hBody.1 hBody.2 hSent
  refine ⟨history, done, srcs, seen, renderedBlocks printf qsort seen, hReads, hSeen, hAll,
    renderedBlocks_pairwise hSort, renderedBlocks_hasRule hSort,
    blockSamples_renderedBlocks hFit hSort, ?_, fun hProgress => ?_⟩
  · rw [hScrape]
    exact (ite_eq_or_eq _ _ _).symm
  · rw [hScrape]
    exact if_pos (sendBoth_eq_append hSent hProgress)

end Loop
end SvgdCollect
