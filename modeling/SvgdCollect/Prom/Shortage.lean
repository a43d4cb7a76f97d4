import SvgdCollect.Prom.EntryPoints

/-!
# Rendering without memory

A failed `realloc` in `ds_reserve` keeps the old capacity, "further appends become
no-ops".  Each append decides on its own, though: a shorter line can still fit, a later
`realloc` can succeed, and a label string can lose a piece in the middle.

The document is rendered line by line.  Each line has a label string of its own, and one
append to the document.  The text that is returned is a prefix of the full one iff from
the first loss on no line finds room, or only lines that read like the ones that are due.
-/

namespace SvgdCollect
namespace Prom

open Lib

variable {D : Type}

/-! ## Room -/

/-- There is room for `n` bytes and a NUL, or the next `realloc` gives it. -/
def Fits (o : Oracle) (d : DString) (n k : Nat) : Prop :=
  d.len + n + 1 ≤ d.cap ∨ (o k).isSome = true

instance (o : Oracle) (d : DString) (n k : Nat) : Decidable (Fits o d n k) :=
  inferInstanceAs (Decidable (_ ∨ _))

/-- `ds_reserve` makes room if it can. -/
theorem dsReserve_of_fits {o : Oracle} {d : DString} {text : Bytes} {extra k : Nat}
    (h : Holds d text) (hFits : Fits o d extra k) :
    HasRoom ((dsReserve o d extra).run k).1 text extra := by
  unfold dsReserve
  by_cases hRoom : d.len + extra + 1 ≤ d.cap
  · rw [if_pos hRoom]
    exact h.hasRoom hRoom
  · obtain ⟨fresh, hFresh⟩ := Option.isSome_iff_exists.mp (hFits.resolve_left hRoom)
    rw [if_neg hRoom]
    simp only [Alloc.run_bind, Alloc.run_allocate, hFresh]
    exact h.grown extra fresh

theorem dsAppend_of_fits {o : Oracle} {d : DString} {text s : Bytes} {k : Nat} (h : Holds d text)
    (hFits : Fits o d s.length k) : Holds ((dsAppend o d s).run k).1 (text ++ s) := by
  have hRoom := dsReserve_of_fits h hFits
  unfold dsAppend
  rw [Alloc.run_bind, if_neg (by rw [hRoom.len]; exact not_lt.mpr hRoom.room)]
  exact hRoom.store

/-- Without room and memory an append only makes the call that fails. -/
theorem dsAppend_of_not_fits {o : Oracle} {d : DString} {s : Bytes} {k : Nat}
    (hFull : ¬ Fits o d s.length k) : (dsAppend o d s).run k = (d, k + 1) := by
  obtain ⟨hRoom, hMemory⟩ := not_or.mp hFull
  have hNone : o k = none := by simpa using hMemory
  have hReserve : (dsReserve o d s.length).run k = (d, k + 1) := by
    unfold dsReserve
    rw [if_neg hRoom]
    simp only [Alloc.run_bind, Alloc.run_allocate, hNone]
    rfl
  unfold dsAppend
  rw [Alloc.run_bind, hReserve, if_pos (not_le.mp hRoom)]
  rfl

/-! ## Lines -/

/-- What one append to the document writes: a comment, or a sample with its labels. -/
inductive Line where
  | comment (text : Bytes)
  | sample (family : Bytes) (s : Exposition.Sample)

/-- The line that stands in the full text. -/
def Line.full : Line → Bytes
  | .comment text => text
  | .sample family s => Exposition.sampleLine family s

/-- The label string of a line. -/
def Line.labelString (o : Oracle) : Line → Alloc DString
  | .comment _ => pure DString.zero
  | .sample _ s => s.labels.foldlM (fun d l => dsAppendLabel o d l.1 l.2) DString.zero

/-- The line that is formatted with the label string. -/
def Line.format (labels : DString) : Line → Bytes
  | .comment text => text
  | .sample family s =>
      if labels.len > 0 then family ++ 123 :: (cstr labels.cells ++ 125 :: 32 :: s.value)
      else family ++ 32 :: s.value

/-- One line of the document. -/
def renderLine (o : Oracle) (d : DString) (l : Line) : Alloc DString := do
  let labels ← l.labelString o
  dsAppendf o d (l.format labels ++ [10])

section Lines

variable [CDouble D] [Inhabited D] {ms : List (SnapMetric D)} (printf : Printf D)

/-- The lines of an entry, with a header where the family changes. -/
def entryLines (cur : Option Bytes) (e : Entry ms) : List Line :=
  (if cur = some e.r.family then []
    else [.comment (Exposition.helpLine (entryBlock printf e)),
      .comment (Exposition.typeLine (entryBlock printf e))]) ++
    (entrySamples printf e).map (Line.sample e.r.family)

/-- The lines of sorted entries. -/
def documentLines : Option Bytes → List (Entry ms) → List Line
  | _, [] => []
  | cur, e :: es => entryLines printf cur e ++ documentLines (some e.r.family) es

variable (o : Oracle)

theorem renderSample_eq (r : PromRule) (sm : SnapMetric D) (d : DString) (di : Nat) :
    renderSample o printf r sm d di = renderLine o d (.sample r.family
      ⟨labelPairs r sm di, fmtVal printf 64 (sm.values.getD di default)⟩) := by
  unfold renderSample renderLine
  refine bind_congr fun labels => ?_
  simp only [Line.format]
  split
  · simp only [List.append_assoc, List.cons_append]
  · simp only [List.append_assoc, List.cons_append]

theorem renderHeader_eq (e : Entry ms) (d : DString) :
    renderHeader o e.r e.metric d =
      [Line.comment (Exposition.helpLine (entryBlock printf e)),
        .comment (Exposition.typeLine (entryBlock printf e))].foldlM (renderLine o) d := by
  have hHelp : Exposition.helpLine (entryBlock printf e) ++ [10] =
      ascii "# HELP " ++ (e.r.family ++ 32 :: (e.r.help ++ [10])) := by
    simp [Exposition.helpLine, entryBlock, Exposition.space]
  have hType : Exposition.typeLine (entryBlock printf e) ++ [10] =
      ascii "# TYPE " ++ (e.r.family ++ 32 :: (promTypeFor e.metric.type ++ [10])) := by
    simp [Exposition.typeLine, entryBlock, Exposition.space]
  simp only [renderHeader, List.foldlM_cons, List.foldlM_nil, bind_pure, renderLine,
    Line.labelString, pure_bind, Line.format, hHelp, hType]

/-- The body of the loop over the entries writes their lines. -/
theorem renderEntry_eq (cur : Option Bytes) (d : DString) (e : Entry ms) :
    renderEntry o printf (cur, d) e =
      (entryLines printf cur e).foldlM (renderLine o) d >>= fun d => pure (some e.r.family, d) := by
  have hSamples : ∀ d, (List.range e.metric.dsCount.toNat).foldlM
      (renderSample o printf e.r e.metric) d =
      ((entrySamples printf e).map (Line.sample e.r.family)).foldlM (renderLine o) d := by
    intro d
    rw [entrySamples, List.map_map, List.foldlM_map,
      funext₂ (renderSample_eq printf o e.r e.metric)]
    rfl
  unfold renderEntry entryLines
  rw [List.foldlM_append]
  simp only [hSamples, bind_assoc]
  split
  · rw [List.foldlM_nil]
  · rw [← renderHeader_eq]

/-- The loop over the entries writes the lines of the document. -/
theorem foldlM_renderEntry (es : List (Entry ms)) (cur : Option Bytes) (d : DString) :
    (es.foldlM (renderEntry o printf) (cur, d) >>= fun st => pure st.2) =
      (documentLines printf cur es).foldlM (renderLine o) d := by
  induction es generalizing cur d with
  | nil => rfl
  | cons e es ih =>
      rw [List.foldlM_cons, documentLines, List.foldlM_append, renderEntry_eq]
      simp only [bind_assoc, pure_bind]
      exact bind_congr fun d => ih _ d

theorem entriesText_eq (cur : Option Bytes) (es : List (Entry ms)) :
    entriesText printf cur es =
      Exposition.joinLines ((documentLines printf cur es).map Line.full) := by
  induction es generalizing cur with
  | nil => rfl
  | cons e es ih =>
      rw [entriesText, documentLines, ih, List.map_append, joinLines_append, entryLines,
        List.map_append, joinLines_append, List.map_map, List.append_assoc]
      congr 1
      split
      · rfl
      · rfl

end Lines

/-! ## Clean lines -/

/-- Neither a NUL nor a newline. -/
def Clean (text : Bytes) : Prop := 0 ∉ text ∧ Exposition.newline ∉ text

instance (text : Bytes) : Decidable (Clean text) := inferInstanceAs (Decidable (_ ∧ _))

theorem Clean.append {s t : Bytes} (hs : Clean s) (ht : Clean t) : Clean (s ++ t) :=
  ⟨by simpa using ⟨hs.1, ht.1⟩, by simpa using ⟨hs.2, ht.2⟩⟩

theorem Clean.cons {b : Byte} {s : Bytes} (hb : Clean [b]) (hs : Clean s) : Clean (b :: s) :=
  hb.append hs

/-- The strings a line is made of. -/
def Line.Clean : Line → Prop
  | .comment text => Prom.Clean text
  | .sample family s => Prom.Clean family ∧ Prom.Clean s.value ∧
      ∀ l ∈ s.labels, Prom.Clean l.1 ∧ 0 ∉ l.2

/-- The buffer holds a clean text. -/
def HoldsClean (d : DString) : Prop := ∃ text, Holds d text ∧ Clean text

/-- Whether it is stored or dropped, a clean piece leaves a clean text. -/
theorem dsAppend_clean (o : Oracle) {d : DString} {s : Bytes} (h : HoldsClean d) (hs : Clean s) :
    Yields (dsAppend o d s) HoldsClean := by
  obtain ⟨text, hText, hClean⟩ := h
  intro k
  rcases dsAppend_cases o hText s k with hStored | hDropped
  · exact ⟨text ++ s, hStored, hClean.append hs⟩
  · rw [hDropped]
    exact ⟨text, hText, hClean⟩

theorem appendEscaped_clean (o : Oracle) {d : DString} (h : HoldsClean d) {s : Bytes}
    (hs : 0 ∉ s) : Yields (appendEscaped o d s) HoldsClean := by
  induction s generalizing d with
  | nil => exact Yields.pure h
  | cons p s ih =>
      rw [List.mem_cons, not_or] at hs
      unfold appendEscaped
      refine Yields.bind ?_ fun d' hd' => ih hd' hs.2
      by_cases hSpecial : p = byte '\\' ∨ p = byte '"' ∨ p = byte '\n'
      · rw [if_pos hSpecial]
        refine dsAppend_clean o h ?_
        rcases hSpecial with rfl | rfl | rfl <;> decide
      · rw [if_neg hSpecial]
        rw [not_or, not_or] at hSpecial
        refine dsAppend_clean o h ⟨by simpa using hs.1, ?_⟩
        rw [List.mem_singleton]
        exact Ne.symm hSpecial.2.2

theorem dsAppendLabel_clean (o : Oracle) {d : DString} (h : HoldsClean d) {key val : Bytes}
    (hKey : Clean key) (hVal : 0 ∉ val) : Yields (dsAppendLabel o d key val) HoldsClean := by
  unfold dsAppendLabel
  refine Yields.bind (P := HoldsClean) ?_ fun d1 h1 => ?_
  · split
    · exact dsAppend_clean o h (by decide)
    · exact Yields.pure h
  refine Yields.bind (dsAppend_clean o h1 hKey) fun d2 h2 => ?_
  refine Yields.bind (dsAppend_clean o h2 (by decide)) fun d3 h3 => ?_
  refine Yields.bind (appendEscaped_clean o h3 hVal) fun d4 h4 => ?_
  exact dsAppend_clean o h4 (by decide)

theorem labels_clean (o : Oracle) {d : DString} (h : HoldsClean d) {labels : List (Bytes × Bytes)}
    (hLabels : ∀ l ∈ labels, Clean l.1 ∧ 0 ∉ l.2) :
    Yields (labels.foldlM (fun d l => dsAppendLabel o d l.1 l.2) d) HoldsClean := by
  induction labels generalizing d with
  | nil => exact Yields.pure h
  | cons l labels ih =>
      rw [List.forall_mem_cons] at hLabels
      rw [List.foldlM_cons]
      refine Yields.bind (dsAppendLabel_clean o h hLabels.1.1 hLabels.1.2) fun d' hd' => ?_
      exact ih hd' hLabels.2

theorem labelString_clean (o : Oracle) {l : Line} (hl : l.Clean) :
    Yields (l.labelString o) HoldsClean := by
  have hZero : HoldsClean DString.zero := ⟨[], holds_zero, by simp [Clean]⟩
  cases l with
  | comment text => exact Yields.pure hZero
  | sample family s => exact labels_clean o hZero hl.2.2

/-- A line that has lost pieces of its labels is still one line of text. -/
theorem format_clean {l : Line} (hl : l.Clean) {labels : DString} (h : HoldsClean labels) :
    Clean (l.format labels) := by
  cases l with
  | comment text => exact hl
  | sample family s =>
      obtain ⟨hFamily, hValue, -⟩ := hl
      obtain ⟨text, hText, hClean⟩ := h
      have hSpace : Clean (32 :: s.value) := Clean.cons (by decide) hValue
      simp only [Line.format, hText.cstr_cells hClean.1]
      split
      · refine hFamily.append (Clean.cons (by decide) (hClean.append ?_))
        exact Clean.cons (by decide) hSpace
      · exact hFamily.append hSpace

/-- With all its labels a line is formatted as in the full text. -/
theorem format_full {o : Oracle} (ho : o.Succeeds) {l : Line} (hl : l.Clean) :
    Yields (l.labelString o) fun labels => l.format labels = l.full := by
  cases l with
  | comment text => exact Yields.pure rfl
  | sample family s =>
      obtain ⟨-, -, hLabels⟩ := hl
      have hNul : 0 ∉ Exposition.labelsText s.labels :=
        Exposition.zero_notMem_labelsText fun l hl => ⟨(hLabels l hl).1.1, (hLabels l hl).2⟩
      intro k
      have hHolds := yields_labels ho s.labels k
      simp only [Line.format, Line.labelString, Line.full, Exposition.sampleLine,
        hHolds.cstr_cells hNul]
      by_cases hNil : s.labels = []
      · rw [if_neg fun hc => hHolds.len_pos_iff.mp hc hNil, if_pos hNil]
        rfl
      · rw [if_pos (hHolds.len_pos_iff.mpr hNil), if_neg hNil]
        rfl

theorem full_clean {l : Line} (hl : l.Clean) : Clean l.full := by
  rw [← format_full (filledMemory_succeeds 0) hl 0]
  exact format_clean hl (labelString_clean _ hl 0)

/-! ## The lines that find room -/

/-- A line as it is formatted when `k` calls have been made, and the calls behind its label
string. -/
def Line.formatted (o : Oracle) (l : Line) (k : Nat) : Bytes × Nat :=
  (l.format ((l.labelString o).run k).1, ((l.labelString o).run k).2)

/-- The lines that are stored. -/
def storedLines (o : Oracle) : List Line → DString → Nat → List Bytes
  | [], _, _ => []
  | l :: ls, d, k =>
      let line := l.formatted o k
      let next := (dsAppendf o d (line.1 ++ [10])).run line.2
      if Fits o d (line.1.length + 1) line.2 then line.1 :: storedLines o ls next.1 next.2
      else storedLines o ls next.1 next.2

theorem storedLines_cons_of_fits {o : Oracle} {l : Line} {d : DString} {k : Nat} (ls : List Line)
    (h : Fits o d ((l.formatted o k).1.length + 1) (l.formatted o k).2) :
    storedLines o (l :: ls) d k =
      (l.formatted o k).1 :: storedLines o ls
        ((dsAppendf o d ((l.formatted o k).1 ++ [10])).run (l.formatted o k).2).1
        ((dsAppendf o d ((l.formatted o k).1 ++ [10])).run (l.formatted o k).2).2 := by
  rw [storedLines]
  exact if_pos h

theorem dsAppendf_of_fits {o : Oracle} {d : DString} {text line : Bytes} {k : Nat}
    (h : Holds d text) (hFits : Fits o d (line.length + 1) k) :
    Holds ((dsAppendf o d (line ++ [10])).run k).1 (text ++ (line ++ [10])) :=
  dsAppend_of_fits h (by rwa [List.length_append])

/-- A line without room leaves the document as it is. -/
theorem dsAppendf_of_not_fits {o : Oracle} {d : DString} {line : Bytes} {k : Nat}
    (h : ¬ Fits o d (line.length + 1) k) : (dsAppendf o d (line ++ [10])).run k = (d, k + 1) :=
  dsAppend_of_not_fits (by rwa [List.length_append])

theorem storedLines_cons_of_not_fits {o : Oracle} {l : Line} {d : DString} {k : Nat}
    (ls : List Line) (h : ¬ Fits o d ((l.formatted o k).1.length + 1) (l.formatted o k).2) :
    storedLines o (l :: ls) d k = storedLines o ls d ((l.formatted o k).2 + 1) := by
  rw [storedLines]
  simp only [if_neg h, dsAppendf_of_not_fits h]

/-- The loop over the lines stores those that find room. -/
theorem foldlM_renderLine_holds {o : Oracle} {d : DString} {text : Bytes} (h : Holds d text)
    (ls : List Line) (k : Nat) :
    Holds ((ls.foldlM (renderLine o) d).run k).1
      (text ++ Exposition.joinLines (storedLines o ls d k)) := by
  induction ls generalizing d text k with
  | nil =>
      rw [storedLines, Exposition.joinLines, List.flatMap_nil, List.append_nil]
      exact h
  | cons l ls ih =>
      rw [List.foldlM_cons, Alloc.run_bind]
      have hLine : (renderLine o d l).run k =
          (dsAppendf o d ((l.formatted o k).1 ++ [10])).run (l.formatted o k).2 := rfl
      rw [hLine]
      by_cases hFits : Fits o d ((l.formatted o k).1.length + 1) (l.formatted o k).2
      · have hRest := ih (dsAppendf_of_fits h hFits)
          ((dsAppendf o d ((l.formatted o k).1 ++ [10])).run (l.formatted o k).2).2
        rw [storedLines_cons_of_fits ls hFits, Exposition.joinLines_cons]
        simpa [Exposition.newline] using hRest
      · rw [storedLines_cons_of_not_fits ls hFits, dsAppendf_of_not_fits hFits]
        exact ih h _

theorem storedLines_clean {o : Oracle} {ls : List Line} (hClean : ∀ l ∈ ls, l.Clean) (d : DString)
    (k : Nat) : ∀ line ∈ storedLines o ls d k, Clean line := by
  induction ls generalizing d k with
  | nil => exact fun line hMem => absurd hMem List.not_mem_nil
  | cons l ls ih =>
      rw [List.forall_mem_cons] at hClean
      by_cases hFits : Fits o d ((l.formatted o k).1.length + 1) (l.formatted o k).2
      · rw [storedLines_cons_of_fits ls hFits, List.forall_mem_cons]
        exact ⟨format_clean hClean.1 (labelString_clean o hClean.1 k), ih hClean.2 _ _⟩
      · rw [storedLines_cons_of_not_fits ls hFits]
        exact ih hClean.2 _ _

/-! ## When a shortage is harmless -/

/-- From here on a line finds neither room nor memory, unless it reads like the first of
those that are due. -/
def Behind (o : Oracle) : List Bytes → List Line → DString → Nat → Prop
  | _, [], _, _ => True
  | due, l :: ls, d, k =>
      let line := l.formatted o k
      if Fits o d (line.1.length + 1) line.2 then
        let next := (dsAppendf o d (line.1 ++ [10])).run line.2
        due.head? = some line.1 ∧ Behind o due.tail ls next.1 next.2
      else Behind o due ls d (line.2 + 1)

/-- Up to the first loss lines are stored as they should be; from there on no line finds
room, or only those that are due. -/
def Degrades (o : Oracle) : List Line → DString → Nat → Prop
  | [], _, _ => True
  | l :: ls, d, k =>
      let line := l.formatted o k
      if line.1 = l.full ∧ Fits o d (line.1.length + 1) line.2 then
        let next := (dsAppendf o d (line.1 ++ [10])).run line.2
        Degrades o ls next.1 next.2
      else Behind o ((l :: ls).map Line.full) (l :: ls) d k

theorem behind_iff {o : Oracle} {due : List Bytes} {ls : List Line} {d : DString} {k : Nat} :
    Behind o due ls d k ↔ storedLines o ls d k <+: due := by
  induction ls generalizing due d k with
  | nil => exact iff_of_true trivial List.nil_prefix
  | cons l ls ih =>
      rw [Behind]
      by_cases hFits : Fits o d ((l.formatted o k).1.length + 1) (l.formatted o k).2
      · simp only [if_pos hFits, storedLines_cons_of_fits ls hFits, ih]
        cases due with
        | nil => simp
        | cons line due =>
            rw [List.head?_cons, Option.some.injEq, List.tail_cons, List.cons_prefix_cons, eq_comm]
      · simp only [if_neg hFits, storedLines_cons_of_not_fits ls hFits, ih]

theorem degrades_iff {o : Oracle} {ls : List Line} {d : DString} {k : Nat} :
    Degrades o ls d k ↔ storedLines o ls d k <+: ls.map Line.full := by
  induction ls generalizing d k with
  | nil => exact iff_of_true trivial List.nil_prefix
  | cons l ls ih =>
      rw [Degrades]
      by_cases hKept : (l.formatted o k).1 = l.full ∧
          Fits o d ((l.formatted o k).1.length + 1) (l.formatted o k).2
      · simp only [if_pos hKept, storedLines_cons_of_fits ls hKept.2, ih]
        rw [List.map_cons, List.cons_prefix_cons, and_iff_right hKept.1]
      · simp only [if_neg hKept, behind_iff]

/-! ## The document -/

section Document

variable [CDouble D] [Inhabited D] {printf : Printf D} {qsort : Qsort}

theorem entryLines_clean {ms : List (SnapMetric D)} {e : Entry ms}
    (hRule : findRule e.metric.plugin e.metric.type = some e.r) (hNul : NulFree e.metric)
    (hVal : ∀ v, Exposition.newline ∉ fmtVal printf 64 v) (cur : Option Bytes) :
    ∀ l ∈ entryLines printf cur e, l.Clean := by
  obtain ⟨hr, -, hType⟩ := findRule_eq_some hRule
  have hClean := cleanRule_of_mem hr
  have hName : ∀ {p : Byte → Bool} {s : Bytes}, p Exposition.newline = false →
      Exposition.IsRun p s → Exposition.newline ∉ s := by
    intro p s hp hs hMem
    rw [hs.2.1 _ hMem] at hp
    cases hp
  have hFamily : Clean e.r.family := ⟨hClean.family.2, hName (by decide) hClean.family.1⟩
  have hSpace : ∀ {s : Bytes}, Clean s → Clean (e.r.family ++ 32 :: s) := fun hs =>
    hFamily.append (Clean.cons (by decide) hs)
  intro l hl
  rw [entryLines, List.mem_append] at hl
  rcases hl with hl | hl
  · split at hl
    · cases hl
    · rw [List.mem_cons, List.mem_singleton] at hl
      rcases hl with rfl | rfl
      · exact Clean.append (by decide) (hSpace ⟨hClean.help.2, hClean.help.1⟩)
      · have hKind := hClean.kind
        rw [hType] at hKind
        exact Clean.append (by decide) (hSpace ⟨hKind.2, hKind.1⟩)
  · obtain ⟨s, hs, rfl⟩ := List.mem_map.mp hl
    obtain ⟨di, -, rfl⟩ := List.mem_map.mp hs
    refine ⟨hFamily, ⟨(fmtVal_text printf _).2, hVal _⟩, fun l hl => ?_⟩
    have hLabel := hClean.labels _ (mem_labelPairs hl).1
    exact ⟨⟨hLabel.2, hName (by decide) hLabel.1⟩, (zero_notMem_label hr hNul hl).2⟩

theorem documentLines_clean {ms : List (SnapMetric D)} {es : List (Entry ms)}
    (hRules : ∀ e ∈ es, findRule e.metric.plugin e.metric.type = some e.r)
    (hNul : ∀ e ∈ es, NulFree e.metric) (hVal : ∀ v, Exposition.newline ∉ fmtVal printf 64 v)
    (cur : Option Bytes) : ∀ l ∈ documentLines printf cur es, l.Clean := by
  induction es generalizing cur with
  | nil => exact fun l hMem => absurd hMem List.not_mem_nil
  | cons e es ih =>
      rw [List.forall_mem_cons] at hRules hNul
      rw [documentLines, List.forall_mem_append]
      exact ⟨entryLines_clean hRules.1 hNul.1 hVal cur, ih hRules.2 hNul.2 _⟩

/-- The lines of the full text for a list of metrics. -/
def metricLines (printf : Printf D) (qsort : Qsort) (metrics : List (Metric D)) : List Line :=
  documentLines printf none
    (qsort (Entry (metrics.map copyMetric)) cmpFamily (entries (metrics.map copyMetric)))

theorem metricLines_clean (hSort : SortsFamilies qsort)
    (hVal : ∀ v, Exposition.newline ∉ fmtVal printf 64 v) {metrics : List (Metric D)}
    (hStrings : ∀ m ∈ metrics, CInstances m) : ∀ l ∈ metricLines printf qsort metrics, l.Clean := by
  obtain ⟨hPerm, -⟩ := hSort (metrics.map copyMetric) (entries (metrics.map copyMetric))
  exact documentLines_clean (fun e he => mem_entries (hPerm.mem_iff.mp he))
    (fun e _ => nulFree_copies hStrings _ (List.get_mem _ e.i)) hVal none

theorem snapshotText_eq (metrics : List (Metric D)) :
    snapshotText printf qsort (metrics.map copyMetric) =
      Exposition.joinLines ((metricLines printf qsort metrics).map Line.full) := by
  rw [snapshotText, ← entriesText_none, entriesText_eq]
  rfl

/-! ## What is returned -/

theorem emptyString_text (o : Oracle) :
    Yields (emptyString o) fun r => ∀ block ∈ r, cstr block = [] := by
  unfold emptyString
  refine Yields.bind_any ?_
  rintro (_ | fresh)
  · exact Yields.pure (by simp)
  · refine Yields.pure ?_
    rintro block ⟨⟩
    rfl

/-- Whoever gets a block reads the text of the buffer, and there is one for a text that is
not empty. -/
theorem returnedBlock_text (o : Oracle) {d : DString} {text : Bytes} (h : Holds d text)
    (hText : 0 ∉ text) :
    Yields (returnedBlock o d) fun r =>
      (∀ block ∈ r, cstr block = text) ∧ (text ≠ [] → ∃ block, r = some block) := by
  unfold returnedBlock
  rcases h.cells with ⟨rfl, rfl⟩ | ⟨rest, hBuf, -⟩
  · exact fun k => ⟨emptyString_text o k, fun hNil => absurd rfl hNil⟩
  · rw [hBuf]
    refine Yields.pure ⟨?_, fun _ => ⟨_, rfl⟩⟩
    rintro block ⟨⟩
    exact cstr_append_zero rest hText

/-- With both arrays allocated, the lines are rendered from the third call on. -/
theorem promRenderMetrics_run {o : Oracle} {metrics : List (Metric D)} (hne : metrics ≠ [])
    (hCopy : (o 0).isSome = true) (hEntries : (o 1).isSome = true) :
    (promRenderMetrics o printf qsort metrics).run 0 =
      ((metricLines printf qsort metrics).foldlM (renderLine o) DString.zero >>=
        returnedBlock o).run 2 := by
  obtain ⟨fresh, hFresh⟩ := Option.isSome_iff_exists.mp hCopy
  obtain ⟨fresh', hFresh'⟩ := Option.isSome_iff_exists.mp hEntries
  have hMap : metrics.map copyMetric ≠ [] := by simpa using hne
  unfold promRenderMetrics renderToDstring
  rw [if_neg hne, metricLines, ← foldlM_renderEntry]
  simp only [Alloc.run_bind, Alloc.run_allocate, hFresh, if_neg hMap, hFresh']

/-- Without one of the arrays the text is empty. -/
theorem promRenderMetrics_without_arrays {o : Oracle} {metrics : List (Metric D)}
    (hne : metrics ≠ []) (h : ¬ ((o 0).isSome = true ∧ (o 1).isSome = true)) :
    ∀ block ∈ ((promRenderMetrics o printf qsort metrics).run 0).1, cstr block = [] := by
  have hMap : metrics.map copyMetric ≠ [] := by simpa using hne
  unfold promRenderMetrics
  rw [if_neg hne, Alloc.run_bind, Alloc.run_allocate]
  cases hCopy : o 0 with
  | none => exact emptyString_text o 1
  | some fresh =>
      have hEntries : o 1 = none := by simpa [hCopy] using h
      unfold renderToDstring
      simp only [Alloc.run_bind, Alloc.run_allocate, if_neg hMap, hEntries]
      exact emptyString_text o 2

/-- If the arrays are there, losses leave a prefix. -/
def HarmlessShortage (o : Oracle) (printf : Printf D) (qsort : Qsort)
    (metrics : List (Metric D)) : Prop :=
  (o 0).isSome = true → (o 1).isSome = true →
    Degrades o (metricLines printf qsort metrics) DString.zero 2

/-- A text of clean lines ends nowhere but at its end. -/
theorem zero_notMem_joinLines {lines : List Bytes} (h : ∀ line ∈ lines, Clean line) :
    0 ∉ Exposition.joinLines lines := by
  intro hMem
  obtain ⟨line, hLine, hZero⟩ := List.mem_flatMap.mp hMem
  rcases List.mem_append.mp hZero with hZero | hZero
  · exact (h line hLine).1 hZero
  · exact absurd hZero (by decide)

/-- Without a failure all lines come out as they should be. -/
theorem promRenderMetrics_full (hSort : SortsFamilies qsort) {metrics : List (Metric D)}
    (hne : metrics ≠ []) (hStrings : ∀ m ∈ metrics, CInstances m) {o : Oracle} (ho : o.Succeeds) :
    ∃ full, ((promRenderMetrics o printf qsort metrics).run 0).1 = some full ∧
      cstr full = Exposition.joinLines ((metricLines printf qsort metrics).map Line.full) := by
  have hYields : Terminated (snapshotText printf qsort (metrics.map copyMetric))
      ((promRenderMetrics o printf qsort metrics).run 0).1 :=
    promRenderMetrics_yields ho hSort hne hStrings 0
  obtain ⟨rest, hRest⟩ := hYields.2
  rw [hRest] at hYields ⊢
  exact ⟨_, rfl, by rw [hYields.cstr_eq, snapshotText_eq]⟩

/-- With both arrays allocated, the text is a prefix iff the lines that are stored are. -/
theorem text_prefix_iff (hSort : SortsFamilies qsort)
    (hVal : ∀ v, Exposition.newline ∉ fmtVal printf 64 v) {metrics : List (Metric D)}
    (hne : metrics ≠ []) (hStrings : ∀ m ∈ metrics, CInstances m) {o : Oracle}
    (hCopy : (o 0).isSome = true) (hEntries : (o 1).isSome = true) :
    (∀ o', o.CompletedBy o' → ∀ block ∈ ((promRenderMetrics o printf qsort metrics).run 0).1,
        ∀ full ∈ ((promRenderMetrics o' printf qsort metrics).run 0).1, cstr block <+: cstr full) ↔
      storedLines o (metricLines printf qsort metrics) DString.zero 2 <+:
        (metricLines printf qsort metrics).map Line.full := by
  have hClean := metricLines_clean hSort hVal hStrings
  have hStored := storedLines_clean (o := o) hClean DString.zero 2
  have hHolds := foldlM_renderLine_holds (o := o) holds_zero (metricLines printf qsort metrics) 2
  rw [List.nil_append] at hHolds
  obtain ⟨hText, hBlock⟩ := returnedBlock_text o hHolds (zero_notMem_joinLines hStored)
    (((metricLines printf qsort metrics).foldlM (renderLine o) DString.zero).run 2).2
  rw [promRenderMetrics_run hne hCopy hEntries, Alloc.run_bind]
  have hNewlines : ∀ l ∈ (metricLines printf qsort metrics).map Line.full,
      Exposition.newline ∉ l := by
    intro l hl
    obtain ⟨line, hLine, rfl⟩ := List.mem_map.mp hl
    exact (full_clean (hClean line hLine)).2
  rw [← Exposition.joinLines_prefix_iff (fun l hl => (hStored l hl).2) hNewlines]
  constructor
  · intro hPrefix
    obtain ⟨o', ho'⟩ := o.exists_completedBy
    obtain ⟨full, hSome, hEq⟩ := promRenderMetrics_full hSort hne hStrings ho'.1
    by_cases hNil : Exposition.joinLines
        (storedLines o (metricLines printf qsort metrics) DString.zero 2) = []
    · rw [hNil]
      exact List.nil_prefix
    · obtain ⟨block, hReturned⟩ := hBlock hNil
      have hBlockPrefix := hPrefix o' ho' block hReturned full hSome
      rwa [hText block hReturned, hEq] at hBlockPrefix
  · intro hPrefix o' ho' block hReturned full hSome
    obtain ⟨full', hSome', hEq⟩ := promRenderMetrics_full hSort hne hStrings ho'.1
    rw [hSome'] at hSome
    obtain rfl : full' = full := Option.some.inj hSome
    rwa [hText block hReturned, hEq]

/-- Without its first block an empty list is answered with an empty text. -/
theorem promRenderMetrics_nil_without {o : Oracle} (h : o 0 = none) :
    ∀ block ∈ ((promRenderMetrics (D := D) o printf qsort []).run 0).1, cstr block = [] := by
  have hReserve : (dsReserve o DString.zero 0).run 0 = (DString.zero, 1) := by
    unfold dsReserve
    rw [if_neg (by decide)]
    simp only [Alloc.run_bind, Alloc.run_allocate, h]
    rfl
  have hZero : DString.zero.buf = none := rfl
  unfold promRenderMetrics renderToDstring
  rw [if_pos rfl, if_pos rfl]
  simp only [Alloc.run_bind, hReserve, hZero, Alloc.run_allocate]
  cases o 1 with
  | none => exact emptyString_text o 2
  | some fresh =>
      rintro block ⟨⟩
      rfl

/-- For an empty list a failure costs the whole text or nothing. -/
theorem promRenderMetrics_nil_prefix {o o' : Oracle} (h : o.CompletedBy o') :
    ∀ block ∈ ((promRenderMetrics (D := D) o printf qsort []).run 0).1,
      ∀ full ∈ ((promRenderMetrics (D := D) o' printf qsort []).run 0).1,
        cstr block <+: cstr full := by
  intro block hBlock full hFull
  cases hFirst : o 0 with
  | none =>
      rw [promRenderMetrics_nil_without hFirst block hBlock]
      exact List.nil_prefix
  | some fresh =>
      rw [promRenderMetrics_nil_run hFirst] at hBlock
      rw [promRenderMetrics_nil_run (h.2 0 fresh hFirst)] at hFull
      obtain rfl : block = full := Option.some.inj (hBlock.symm.trans hFull)
      exact List.prefix_rfl

/-- **A shortage leaves a prefix iff nothing out of place finds room.**  What
`prom_render_metrics` returns is a prefix of what it returns without a failure, iff from the
first line on that is not stored, or has lost a piece of its labels, no line finds room or
memory; the one accident are lines that read like those that are due. -/
theorem promRenderMetrics_prefix_iff (hSort : SortsFamilies qsort)
    (hVal : ∀ v, Exposition.newline ∉ fmtVal printf 64 v) {metrics : List (Metric D)}
    (hStrings : ∀ m ∈ metrics, CInstances m) (o : Oracle) :
    (∀ o', o.CompletedBy o' → ∀ block ∈ ((promRenderMetrics o printf qsort metrics).run 0).1,
        ∀ full ∈ ((promRenderMetrics o' printf qsort metrics).run 0).1, cstr block <+: cstr full) ↔
      HarmlessShortage o printf qsort metrics := by
  by_cases hne : metrics = []
  · subst hne
    refine iff_of_true (fun o' ho' => promRenderMetrics_nil_prefix ho') fun _ _ => ?_
    have hNil : metricLines printf qsort [] = [] := by
      have hPerm := (hSort ([] : List (SnapMetric D)) (entries [])).1
      have hSorted : qsort (Entry ([] : List (SnapMetric D))) cmpFamily (entries []) = [] :=
        List.perm_nil.mp hPerm
      rw [metricLines, List.map_nil, hSorted]
      rfl
    rw [hNil]
    trivial
  by_cases hArrays : (o 0).isSome = true ∧ (o 1).isSome = true
  · rw [text_prefix_iff hSort hVal hne hStrings hArrays.1 hArrays.2, ← degrades_iff]
    exact ⟨fun hDegrades _ _ => hDegrades, fun hHarmless => hHarmless hArrays.1 hArrays.2⟩
  · refine iff_of_true (fun o' ho' block hBlock full hFull => ?_)
      fun hCopy hEntries => absurd ⟨hCopy, hEntries⟩ hArrays
    rw [promRenderMetrics_without_arrays hne hArrays block hBlock]
    exact List.nil_prefix

end Document

/-! ## Three lines -/

/-- A metric without labels. -/
def uptimeMetric : Metric Double :=
  { plugin := ascii "uptime", pluginInstance := none, type := ascii "uptime"
    typeInstance := none, dsCount := 1, values := [.finite 4096] }

theorem uptimeMetric_strings : ∀ m ∈ [uptimeMetric], CInstances m := by
  intro m hm
  rw [List.mem_singleton.mp hm]
  exact ⟨by simp [uptimeMetric], by simp [uptimeMetric]⟩

theorem metricLines_uptimeMetric :
    ∃ b value, metricLines integralPrintf stableQsort [uptimeMetric] =
      [.comment (Exposition.helpLine b), .comment (Exposition.typeLine b),
        .sample b.family ⟨[], value⟩] := by
  have hEntry : ∃ e, entries ([uptimeMetric].map copyMetric) = [e] ∧
      labelPairs e.r e.metric 0 = [] ∧ e.metric.dsCount = 1 := ⟨_, rfl, by decide, by decide⟩
  obtain ⟨e, hEntries, hLabels, hCount⟩ := hEntry
  have hPerm := (stableQsort_sorts _ (entries ([uptimeMetric].map copyMetric))).1
  rw [hEntries, List.perm_singleton] at hPerm
  refine ⟨entryBlock integralPrintf e, fmtVal integralPrintf 64 (e.metric.values.getD 0 default), ?_⟩
  rw [metricLines, hEntries, hPerm, documentLines, entryLines, if_neg (by simp), ← hLabels,
    entrySamples, hCount]
  rfl

theorem newline_notMem_fmtVal (v : Double) : Exposition.newline ∉ fmtVal integralPrintf 64 v :=
  fmtVal_integralPrintf v (by decide) (by decide)

/-- The calls of a list fail, and all others succeed. -/
def failing (calls : List Nat) : Oracle := fun k => if k ∈ calls then none else some fun _ => 0

theorem not_fits_zero {o : Oracle} {k : Nat} (h : o k = none) (n : Nat) :
    ¬ Fits o DString.zero n k := by
  rintro (hRoom | hMemory)
  · exact absurd hRoom (Nat.not_succ_le_zero _)
  · rw [h] at hMemory
    cases hMemory

/-- Without any memory for the document the text is empty. -/
theorem prefix_of_uptimeMetric :
    failing [2, 3, 4] 2 = none ∧ ∀ o', (failing [2, 3, 4]).CompletedBy o' →
      ∀ block ∈ ((promRenderMetrics (failing [2, 3, 4]) integralPrintf stableQsort
        [uptimeMetric]).run 0).1,
      ∀ full ∈ ((promRenderMetrics o' integralPrintf stableQsort [uptimeMetric]).run 0).1,
        cstr block <+: cstr full := by
  refine ⟨rfl, (promRenderMetrics_prefix_iff stableQsort_sorts newline_notMem_fmtVal
    uptimeMetric_strings _).mpr fun _ _ => ?_⟩
  obtain ⟨b, value, hLines⟩ := metricLines_uptimeMetric
  rw [hLines, degrades_iff]
  rw [storedLines_cons_of_not_fits _ (not_fits_zero rfl _),
    storedLines_cons_of_not_fits _ (not_fits_zero rfl _),
    storedLines_cons_of_not_fits _ (not_fits_zero rfl _), storedLines]
  exact List.nil_prefix

/-- If only the first `realloc` of the document fails, its second line becomes the first. -/
theorem prefix_fails_of_uptimeMetric :
    ¬ ∀ (metrics : List (Metric Double)) (o : Oracle), (∀ m ∈ metrics, CInstances m) →
      (o 0).isSome = true → (o 1).isSome = true → ∀ o', o.CompletedBy o' →
      ∀ block ∈ ((promRenderMetrics o integralPrintf stableQsort metrics).run 0).1,
      ∀ full ∈ ((promRenderMetrics o' integralPrintf stableQsort metrics).run 0).1,
        cstr block <+: cstr full := by
  intro hAll
  have hPrefix := hAll [uptimeMetric] (failing [2]) uptimeMetric_strings (by decide) (by decide)
  rw [text_prefix_iff stableQsort_sorts newline_notMem_fmtVal (by simp) uptimeMetric_strings
    (by decide) (by decide)] at hPrefix
  obtain ⟨b, value, hLines⟩ := metricLines_uptimeMetric
  rw [hLines, storedLines_cons_of_not_fits _ (not_fits_zero rfl _),
    storedLines_cons_of_fits _ (Or.inr rfl), List.map_cons, List.cons_prefix_cons] at hPrefix
  have hHead : Exposition.typeLine b = Exposition.helpLine b := hPrefix.1
  exact absurd (List.append_inj_left hHead (by decide)) (by decide)

end Prom
end SvgdCollect
