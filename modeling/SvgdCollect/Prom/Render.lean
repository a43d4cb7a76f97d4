import SvgdCollect.Lib.Double
import SvgdCollect.Prom.DString
import SvgdCollect.Prom.Rules
import SvgdCollect.Prom.SnapMetric

/-!
# Rendering a snapshot

`render_to_dstring` filters the metrics by the rule table, sorts them by family
with `qsort` and writes one header per family and one line per data source.
`qsort` is a parameter, since it may order the entries of one family in any way.

The second half says what text comes out when memory is available: the written
form of the blocks that the sorted entries fall into.
-/

namespace SvgdCollect
namespace Prom

open Lib

variable {D : Type}

/-- `fmt_val` into a buffer of `n` bytes. -/
def fmtVal [CDouble D] (printf : Printf D) (n : Nat) (v : D) : Bytes :=
  if !CDouble.isfinite v then snprintf n (ascii "0")
  else if CDouble.le (CDouble.ofInt (-10 ^ 15)) v && CDouble.le v (CDouble.ofInt (10 ^ 15)) &&
      CDouble.eq v (CDouble.floor v) then
    snprintf n (printf.f0 v)
  else snprintf n (printf.g10 v)

/-- `entry_t`: a rule and the index of a metric it applies to. -/
structure Entry (ms : List (SnapMetric D)) where
  r : PromRule
  i : Fin ms.length

def Entry.metric {ms : List (SnapMetric D)} (e : Entry ms) : SnapMetric D := ms.get e.i

/-- `cmp_family`. -/
def cmpFamily {ms : List (SnapMetric D)} (x y : Entry ms) : Int :=
  strcmp x.r.family y.r.family

def entryAt (ms : List (SnapMetric D)) (i : Fin ms.length) : Option (Entry ms) :=
  (findRule (ms.get i).plugin (ms.get i).type).map fun r => ⟨r, i⟩

/-- The metrics that have a rule, in order. -/
def entries (ms : List (SnapMetric D)) : List (Entry ms) :=
  (List.finRange ms.length).filterMap (entryAt ms)

/-- The labels of one sample: each instance if it is not empty and the rule names
a label for it, and the data source if the rule tells them apart. -/
def labelPairs (r : PromRule) (sm : SnapMetric D) (di : Nat) : List (Bytes × Bytes) :=
  [if sm.pluginInstance ≠ [] then r.piLabel.map fun key => (key, sm.pluginInstance) else none,
    if sm.typeInstance ≠ [] then r.tiLabel.map fun key => (key, sm.typeInstance) else none,
    if di < metricMaxDs then
      r.dsLabel.bind fun key => r.dsValues[di]?.map fun val => (key, val)
    else none].reduceOption

section Code

variable [CDouble D] [Inhabited D] (o : Oracle) (printf : Printf D)

/-- The body of the loop over the data sources.  A value the producer did not set
is arbitrary. -/
def renderSample (r : PromRule) (sm : SnapMetric D) (d : DString) (di : Nat) :
    Alloc DString := do
  let labels ← (labelPairs r sm di).foldlM (fun d l => dsAppendLabel o d l.1 l.2) DString.zero
  let valbuf := fmtVal printf 64 (sm.values.getD di default)
  if labels.len > 0 then
    dsAppendf o d (r.family ++ 123 :: (cstr labels.cells ++ 125 :: 32 :: (valbuf ++ [10])))
  else dsAppendf o d (r.family ++ 32 :: (valbuf ++ [10]))

/-- The header lines of a family. -/
def renderHeader (r : PromRule) (sm : SnapMetric D) (d : DString) : Alloc DString := do
  let d ← dsAppendf o d (ascii "# HELP " ++ (r.family ++ 32 :: (r.help ++ [10])))
  dsAppendf o d (ascii "# TYPE " ++ (r.family ++ 32 :: (promTypeFor sm.type ++ [10])))

/-- The body of the loop over the sorted entries, with `cur_family` and the text
written so far. -/
def renderEntry {ms : List (SnapMetric D)} (st : Option Bytes × DString) (e : Entry ms) :
    Alloc (Option Bytes × DString) := do
  let d ← (if st.1 = some e.r.family then pure st.2 else renderHeader o e.r e.metric st.2)
  let d ← (List.range e.metric.dsCount.toNat).foldlM (renderSample o printf e.r e.metric) d
  pure (some e.r.family, d)

/-- `qsort`. -/
abbrev Qsort := (α : Type) → (α → α → Int) → List α → List α

/-- `render_to_dstring`. -/
def renderToDstring (qsort : Qsort) (d : DString) (ms : List (SnapMetric D)) :
    Alloc DString := do
  if ms = [] then
    -- an empty text still needs its NUL
    let d ← dsReserve o d 0
    match d.buf with
    | some _ => pure d
    | none =>
        match ← allocate o with
        | none => pure d
        | some _ => pure { d with buf := some [0] }
  else
    match ← allocate o with
    | none => pure d
    | some _ =>
        -- the array of entries; a header is written wherever the family changes
        let e := qsort (Entry ms) cmpFamily (entries ms)
        let st ← e.foldlM (renderEntry o printf) (none, d)
        pure st.2

end Code

/-! ## The text that is written -/

section Text

variable [CDouble D] [Inhabited D] (printf : Printf D)

/-- The samples of one entry. -/
def entrySamples {ms : List (SnapMetric D)} (e : Entry ms) : List Exposition.Sample :=
  (List.range e.metric.dsCount.toNat).map fun di =>
    ⟨labelPairs e.r e.metric di, fmtVal printf 64 (e.metric.values.getD di default)⟩

/-- The block an entry opens. -/
def entryBlock {ms : List (SnapMetric D)} (e : Entry ms) : Exposition.Block :=
  { family := e.r.family
    help := e.r.help
    kind := promTypeFor e.metric.type
    samples := entrySamples printf e }

/-- Entries of one family next to each other share a block. -/
def blocksOf {ms : List (SnapMetric D)} : List (Entry ms) → List Exposition.Block
  | [] => []
  | e :: rest =>
      match blocksOf rest with
      | [] => [entryBlock printf e]
      | b :: blocks =>
          if b.family = e.r.family then
            { entryBlock printf e with samples := entrySamples printf e ++ b.samples } :: blocks
          else entryBlock printf e :: b :: blocks

/-- What the loop writes when `cur` is the current family. -/
def entriesText {ms : List (SnapMetric D)} : Option Bytes → List (Entry ms) → Bytes
  | _, [] => []
  | cur, e :: rest =>
      (if cur = some e.r.family then []
        else Exposition.joinLines
          [Exposition.helpLine (entryBlock printf e), Exposition.typeLine (entryBlock printf e)]) ++
        (Exposition.joinLines ((entrySamples printf e).map (Exposition.sampleLine e.r.family)) ++
          entriesText (some e.r.family) rest)

/-! ### The loops write it -/

variable {printf} {o : Oracle}

theorem yields_labels (ho : o.Succeeds) (labels : List (Bytes × Bytes)) :
    Yields (labels.foldlM (fun d l => dsAppendLabel o d l.1 l.2) DString.zero) fun d =>
      Holds d (Exposition.labelsText labels) := by
  have hStart : Holds DString.zero (Exposition.labelsText []) := holds_zero
  have hStep : ∀ done (l : Bytes × Bytes) d, Holds d (Exposition.labelsText done) →
      Yields (dsAppendLabel o d l.1 l.2) fun d' =>
        Holds d' (Exposition.labelsText (done ++ [l])) :=
    fun done l d hd => dsAppendLabel_yields ho hd l.1 l.2
  exact Yields.foldlM hStep labels hStart

/-- One pass of the inner loop writes the line of one sample. -/
theorem renderSample_yields (ho : o.Succeeds) {r : PromRule} {sm : SnapMetric D} {d : DString}
    {text : Bytes} (h : Holds d text) (di : Nat)
    (hLabels : 0 ∉ Exposition.labelsText (labelPairs r sm di)) :
    Yields (renderSample o printf r sm d di) fun d' =>
      Holds d' (text ++ Exposition.joinLines [Exposition.sampleLine r.family
        ⟨labelPairs r sm di, fmtVal printf 64 (sm.values.getD di default)⟩]) := by
  unfold renderSample
  refine Yields.bind (yields_labels ho (labelPairs r sm di)) fun labels hd => ?_
  rw [hd.cstr_cells hLabels]
  by_cases hNil : labelPairs r sm di = []
  · -- a sample without labels has no braces
    rw [if_neg fun hc => hd.len_pos_iff.mp hc hNil]
    have hLine : Exposition.joinLines [Exposition.sampleLine r.family
        ⟨labelPairs r sm di, fmtVal printf 64 (sm.values.getD di default)⟩] =
        r.family ++ 32 :: (fmtVal printf 64 (sm.values.getD di default) ++ [10]) := by
      simp [Exposition.joinLines, Exposition.sampleLine, hNil, Exposition.space,
        Exposition.newline]
    rw [hLine]
    exact dsAppend_yields ho h _
  · rw [if_pos (hd.len_pos_iff.mpr hNil)]
    have hLine : Exposition.joinLines [Exposition.sampleLine r.family
        ⟨labelPairs r sm di, fmtVal printf 64 (sm.values.getD di default)⟩] =
        r.family ++ 123 :: (Exposition.labelsText (labelPairs r sm di) ++
          125 :: 32 :: (fmtVal printf 64 (sm.values.getD di default) ++ [10])) := by
      simp [Exposition.joinLines, Exposition.sampleLine, hNil, Exposition.space,
        Exposition.newline]
    rw [hLine]
    exact dsAppend_yields ho h _

theorem joinLines_append (l l' : List Bytes) :
    Exposition.joinLines (l ++ l') = Exposition.joinLines l ++ Exposition.joinLines l' := by
  simp [Exposition.joinLines]

theorem yields_samples (ho : o.Succeeds) {r : PromRule} {sm : SnapMetric D}
    (hLabels : ∀ di, 0 ∉ Exposition.labelsText (labelPairs r sm di)) {d : DString}
    {text : Bytes} (h : Holds d text) (dis : List Nat) :
    Yields (dis.foldlM (renderSample o printf r sm) d) fun d' =>
      Holds d' (text ++ Exposition.joinLines (dis.map fun di => Exposition.sampleLine r.family
        ⟨labelPairs r sm di, fmtVal printf 64 (sm.values.getD di default)⟩)) := by
  refine Yields.foldlM (R := fun (done : List Nat) d' => Holds d' (text ++
    Exposition.joinLines (done.map fun di => Exposition.sampleLine r.family
      ⟨labelPairs r sm di, fmtVal printf 64 (sm.values.getD di default)⟩)))
    (fun done di d hd => ?_) dis ?_
  · rw [List.map_append, joinLines_append, ← List.append_assoc]
    exact renderSample_yields ho hd di (hLabels di)
  · simpa [Exposition.joinLines] using h

theorem renderHeader_yields (ho : o.Succeeds) {ms : List (SnapMetric D)} (e : Entry ms)
    {d : DString} {text : Bytes} (h : Holds d text) :
    Yields (renderHeader o e.r e.metric d) fun d' =>
      Holds d' (text ++ Exposition.joinLines
        [Exposition.helpLine (entryBlock printf e),
          Exposition.typeLine (entryBlock printf e)]) := by
  have hText : text ++ Exposition.joinLines
      [Exposition.helpLine (entryBlock printf e), Exposition.typeLine (entryBlock printf e)] =
      (text ++ (ascii "# HELP " ++ (e.r.family ++ 32 :: (e.r.help ++ [10])))) ++
        (ascii "# TYPE " ++ (e.r.family ++ 32 :: (promTypeFor e.metric.type ++ [10]))) := by
    simp [Exposition.joinLines, Exposition.helpLine, Exposition.typeLine, entryBlock,
      Exposition.space, Exposition.newline]
  rw [hText]
  unfold renderHeader
  refine Yields.bind (dsAppend_yields ho h _) fun d' hd' => ?_
  exact dsAppend_yields ho hd' _

/-- The outer loop writes the text of the entries. -/
theorem yields_entries (ho : o.Succeeds) {ms : List (SnapMetric D)} {es : List (Entry ms)}
    (hLabels : ∀ e ∈ es, ∀ di, 0 ∉ Exposition.labelsText (labelPairs e.r e.metric di))
    {cur : Option Bytes} {d : DString} {text : Bytes} (h : Holds d text) :
    Yields (es.foldlM (renderEntry o printf) (cur, d)) fun st =>
      Holds st.2 (text ++ entriesText printf cur es) := by
  induction es generalizing cur d text with
  | nil =>
      rw [entriesText, List.append_nil]
      exact Yields.pure h
  | cons e es ih =>
      rw [List.foldlM_cons]
      -- one pass: a header where the family changes, and the samples
      have hEntry : Yields (renderEntry o printf (cur, d) e) fun st =>
          st.1 = some e.r.family ∧
            Holds st.2 (text ++ ((if cur = some e.r.family then []
              else Exposition.joinLines [Exposition.helpLine (entryBlock printf e),
                Exposition.typeLine (entryBlock printf e)]) ++
              Exposition.joinLines
                ((entrySamples printf e).map (Exposition.sampleLine e.r.family)))) := by
        unfold renderEntry
        refine Yields.bind (P := fun d' => Holds d' (text ++ if cur = some e.r.family then []
          else Exposition.joinLines [Exposition.helpLine (entryBlock printf e),
            Exposition.typeLine (entryBlock printf e)])) ?_ fun d' hd' => ?_
        · split
          · rw [List.append_nil]
            exact Yields.pure h
          · exact renderHeader_yields ho e h
        · refine Yields.bind
            (yields_samples ho (hLabels e (by simp)) hd' _) fun d'' hd'' => ?_
          refine Yields.pure ⟨rfl, ?_⟩
          rw [← List.append_assoc, entrySamples, List.map_map]
          exact hd''
      refine Yields.bind hEntry ?_
      rintro ⟨cur', d'⟩ ⟨hCur, hd'⟩
      obtain rfl : cur' = some e.r.family := hCur
      have hRec : Yields (es.foldlM (renderEntry o printf) (some e.r.family, d')) _ :=
        ih (fun e' he' => hLabels e' (by simp [he'])) hd'
      rw [entriesText]
      simpa [List.append_assoc] using hRec

/-! ### It is the written form of the blocks -/

theorem render_cons (b : Exposition.Block) (blocks : List Exposition.Block) :
    Exposition.render (b :: blocks) =
      Exposition.joinLines [Exposition.helpLine b, Exposition.typeLine b] ++
        (Exposition.joinLines (b.samples.map (Exposition.sampleLine b.family)) ++
          Exposition.render blocks) := by
  simp [Exposition.render, Exposition.blockLines, Exposition.joinLines]

variable (printf) in
/-- The first entry opens the first block. -/
theorem blocksOf_cons {ms : List (SnapMetric D)} (e : Entry ms) (es : List (Entry ms)) :
    ∃ samples blocks, blocksOf printf (e :: es) =
        { entryBlock printf e with samples := entrySamples printf e ++ samples } :: blocks ∧
      ((samples = [] ∧ blocks = blocksOf printf es ∧
          ∀ b ∈ blocks.head?, b.family ≠ e.r.family) ∨
        ∃ b, blocksOf printf es = b :: blocks ∧ b.family = e.r.family ∧ b.samples = samples) := by
  rw [blocksOf]
  cases blocksOf printf es with
  | nil => exact ⟨[], [], by simp [entryBlock], Or.inl ⟨rfl, rfl, by simp⟩⟩
  | cons b blocks =>
      by_cases hSame : b.family = e.r.family
      · simp only [if_pos hSame]
        exact ⟨b.samples, blocks, rfl, Or.inr ⟨b, rfl, hSame, rfl⟩⟩
      · simp only [if_neg hSame]
        exact ⟨[], b :: blocks, by simp [entryBlock], Or.inl ⟨rfl, rfl, by simpa using hSame⟩⟩

/-- Inside a family the first block continues without a header. -/
theorem entriesText_some {ms : List (SnapMetric D)} (f : Bytes) (es : List (Entry ms)) :
    entriesText printf (some f) es =
      match blocksOf printf es with
      | [] => []
      | b :: blocks =>
          if b.family = f then
            Exposition.joinLines (b.samples.map (Exposition.sampleLine f)) ++
              Exposition.render blocks
          else Exposition.render (b :: blocks) := by
  induction es generalizing f with
  | nil => rfl
  | cons e es ih =>
      obtain ⟨samples, blocks, hBlocks, hRest⟩ := blocksOf_cons printf e es
      -- what is left of the family, and the blocks behind it
      have hText : entriesText printf (some e.r.family) es =
          Exposition.joinLines (samples.map (Exposition.sampleLine e.r.family)) ++
            Exposition.render blocks := by
        rw [ih e.r.family]
        rcases hRest with ⟨rfl, rfl, hHead⟩ | ⟨b, hEs, hSame, rfl⟩
        · cases hEs : blocksOf printf es with
          | nil => rfl
          | cons b bs =>
              rw [hEs] at hHead
              simp only [if_neg (hHead b rfl)]
              rfl
        · rw [hEs]
          simp only [if_pos hSame]
      have hSamples : Exposition.joinLines
          ((entrySamples printf e ++ samples).map (Exposition.sampleLine e.r.family)) =
          Exposition.joinLines ((entrySamples printf e).map (Exposition.sampleLine e.r.family)) ++
            Exposition.joinLines (samples.map (Exposition.sampleLine e.r.family)) := by
        rw [List.map_append, joinLines_append]
      rw [hBlocks, entriesText, hText]
      by_cases hSame : e.r.family = f
      · subst hSame
        simp only [if_true, entryBlock, hSamples, List.nil_append, List.append_assoc]
      · have hSome : ¬ some f = some e.r.family := fun h => hSame (Option.some.inj h).symm
        rw [if_neg hSome]
        simp only [entryBlock, if_neg hSame, render_cons, hSamples, List.append_assoc]
        rfl

/-- The whole loop writes the blocks. -/
theorem entriesText_none {ms : List (SnapMetric D)} (es : List (Entry ms)) :
    entriesText printf none es = Exposition.render (blocksOf printf es) := by
  cases es with
  | nil => rfl
  | cons e es =>
      -- any other current family gives the same text
      have hOther : 0 :: e.r.family ≠ e.r.family := by simp
      have hNone : entriesText printf none (e :: es) =
          entriesText printf (some (0 :: e.r.family)) (e :: es) := by
        simp [entriesText, hOther]
      obtain ⟨samples, blocks, hBlocks, -⟩ := blocksOf_cons printf e es
      rw [hNone, entriesText_some, hBlocks]
      exact if_neg (Ne.symm hOther)

end Text

end Prom
end SvgdCollect
