import SvgdCollect.Http.Sends
import SvgdCollect.Lib.HttpResponse

/-!
# What a client makes of a response

A socket that fails inside the header and then works again leaves a broken header with a
body behind it.  The client cannot be deceived by it: no line ends in a rendered text, so
a header that broke off never finds its empty line there.  It reads the whole response or
nothing, whatever the socket does and however little memory there is.
-/

namespace SvgdCollect

open Lib Prom

/-! ## The written form of an answer -/

def Answer.response (a : Answer) : HttpResponse :=
  { status := a.status
    fields := [(ascii "Content-Type", a.contentType),
      (ascii "Content-Length", decimal a.body.length), (ascii "Connection", ascii "close")]
    body := a.body }

theorem Answer.head_response (a : Answer) : a.response.head = a.header := by
  have hType : ascii "\r\nContent-Type: " =
      [cr, lf] ++ (ascii "Content-Type" ++ [byte ':', byte ' ']) := by decide
  have hLength : ascii "\r\nContent-Length: " =
      [cr, lf] ++ (ascii "Content-Length" ++ [byte ':', byte ' ']) := by decide
  have hClose : ascii "\r\nConnection: close\r\n\r\n" =
      [cr, lf] ++ (ascii "Connection" ++ [byte ':', byte ' '] ++ ascii "close" ++
        [cr, lf, cr, lf]) := by decide
  simp [HttpResponse.head, HttpResponse.headLines, Answer.response, joinHead, fieldLine,
    Answer.header, headerText, hType, hLength, hClose]

theorem Answer.text_response (a : Answer) : a.response.text = a.text := by
  rw [HttpResponse.text, a.head_response]
  rfl

theorem decimal_head (n : Nat) {b : Byte} (hb : isdigit b = false) :
    (decimal n).head? ≠ some b := by
  intro hHead
  have hMem := List.mem_of_mem_head? hHead
  rw [isdigit_of_mem_decimal hMem] at hb
  cases hb

theorem Answer.wellFormed_response (a : Answer) : a.response.WellFormed := by
  have hDigits : (decimal a.body.length).all isdigit = true :=
    List.all_eq_true.mpr fun b hb => isdigit_of_mem_decimal hb
  have hTypeName : lowercase (ascii "Content-Type") ≠ ascii "content-length" := by decide
  have hLengthName : lowercase (ascii "Content-Length") = ascii "content-length" := by decide
  have hCloseName : lowercase (ascii "Connection") ≠ ascii "content-length" := by decide
  refine ⟨?_, ?_, ?_, ?_⟩
  · cases a <;> simp only [Answer.response, Answer.status] <;> decide
  · simp only [Answer.response, List.forall_mem_cons, List.not_mem_nil, false_imp_iff,
      implies_true, and_true]
    decide
  · have hType : cr ∉ a.contentType ∧ a.contentType.head? ≠ some (byte ' ') ∧
        a.contentType.head? ≠ some (byte '\t') := by
      cases a <;> simp only [Answer.contentType] <;> decide
    simp only [Answer.response, List.forall_mem_cons, List.not_mem_nil, false_imp_iff,
      implies_true, and_true]
    exact ⟨hType, ⟨notMem_decimal (by decide), decimal_head _ (by decide),
      decimal_head _ (by decide)⟩, by decide⟩
  · have hFilter : a.response.fields.filter (fun f => lowercase f.1 = ascii "content-length") =
        [(ascii "Content-Length", decimal a.body.length)] := by
      simp [Answer.response, hTypeName, hLengthName, hCloseName]
    rw [contentLength, hFilter]
    show (if decimal a.body.length ≠ [] ∧ (decimal a.body.length).all isdigit = true then
      some (natOfDigits (decimal a.body.length)) else none) = some a.body.length
    rw [if_pos ⟨decimal_ne_nil _, hDigits⟩, natOfDigits_decimal]

/-! ## No line ends in a rendered text -/

/-- A buffer with a text of some kind. -/
def HoldsThat (P : Bytes → Prop) (d : DString) : Prop := ∃ text, Holds d text ∧ P text

theorem dsAppend_holdsThat (o : Oracle) {P : Bytes → Prop} {d : DString} {s : Bytes}
    (h : HoldsThat P d) (hs : ∀ text, P text → P (text ++ s)) :
    Yields (dsAppend o d s) (HoldsThat P) := by
  obtain ⟨text, hHolds, hText⟩ := h
  intro k
  rcases dsAppend_cases o hHolds s k with hAppended | hSame
  · exact ⟨text ++ s, hAppended, hs text hText⟩
  · rw [hSame]
    exact ⟨text, hHolds, hText⟩

/-- A text in one line. -/
def OneLine (text : Bytes) : Prop := lf ∉ text

theorem OneLine.append {s t : Bytes} (hs : OneLine s) (ht : OneLine t) : OneLine (s ++ t) := by
  unfold OneLine at hs ht ⊢
  rw [List.mem_append, not_or]
  exact ⟨hs, ht⟩

theorem appendEscaped_oneLine (o : Oracle) {d : DString} (h : HoldsThat OneLine d) (s : Bytes) :
    Yields (appendEscaped o d s) (HoldsThat OneLine) := by
  induction s generalizing d with
  | nil => exact Yields.pure h
  | cons p s ih =>
      rw [appendEscaped]
      refine Yields.bind (P := HoldsThat OneLine) ?_ fun d' hd' => ih hd'
      split
      · refine dsAppend_holdsThat o h fun text hText => hText.append ?_
        by_cases hp : p = byte '\n'
        · rw [if_pos hp]
          unfold OneLine
          decide
        · rw [if_neg hp]
          simpa [OneLine] using ⟨by decide, fun hEq => hp hEq.symm⟩
      · rename_i hPlain
        refine dsAppend_holdsThat o h fun text hText => hText.append ?_
        simpa [OneLine] using fun hEq : lf = p => hPlain (Or.inr (Or.inr hEq.symm))

theorem dsAppendLabel_oneLine (o : Oracle) {d : DString} (h : HoldsThat OneLine d)
    {key : Bytes} (hKey : OneLine key) (val : Bytes) :
    Yields (dsAppendLabel o d key val) (HoldsThat OneLine) := by
  have hComma : OneLine [byte ','] := by unfold OneLine; decide
  have hOpen : OneLine [byte '=', byte '"'] := by unfold OneLine; decide
  have hClose : OneLine [byte '"'] := by unfold OneLine; decide
  unfold dsAppendLabel
  refine Yields.bind (P := HoldsThat OneLine) ?_ fun d1 h1 => ?_
  · split
    · exact dsAppend_holdsThat o h fun _ ht => ht.append hComma
    · exact Yields.pure h
  · refine Yields.bind (dsAppend_holdsThat o h1 fun _ ht => ht.append hKey) fun d2 h2 => ?_
    refine Yields.bind (dsAppend_holdsThat o h2 fun _ ht => ht.append hOpen) fun d3 h3 => ?_
    refine Yields.bind (appendEscaped_oneLine o h3 val) fun d4 h4 => ?_
    exact dsAppend_holdsThat o h4 fun _ ht => ht.append hClose

/-- The C string in a buffer ends in front of the text or with it. -/
theorem cstr_isPrefix (text rest : Bytes) : cstr (text ++ 0 :: rest) <+: text := by
  induction text with
  | nil => exact List.nil_prefix
  | cons b text ih =>
      by_cases hb : b = 0
      · subst hb
        exact List.nil_prefix
      · have hCons : cstr (b :: text ++ 0 :: rest) = b :: cstr (text ++ 0 :: rest) := by
          simp [cstr, hb]
        rw [hCons]
        exact (List.prefix_cons_inj b).mpr ih

theorem Prom.Holds.cstr_isPrefix {d : DString} {text : Bytes} (h : Holds d text) :
    cstr d.cells <+: text := by
  rcases h.cells with ⟨rfl, -⟩ | ⟨rest, hBuf, -⟩
  · exact List.nil_prefix
  · rw [DString.cells, hBuf]
    exact SvgdCollect.cstr_isPrefix text rest

/-- No line ends in the text, nor at its end. -/
def NoLines (text : Bytes) : Prop := avoids cr lf text = true

theorem NoLines.append {s t : Bytes} (hs : NoLines s) (ht : NoLines t) : NoLines (s ++ t) :=
  avoids_append hs ht

theorem noLines_of_notMem {s : Bytes} (h : cr ∉ s) : NoLines s := avoids_of_notMem h

/-- A carriage return in a line is followed by another byte of it. -/
theorem OneLine.noLines {s : Bytes} (h : OneLine s) {b : Byte} (hb : b ≠ cr ∧ b ≠ lf) :
    NoLines (s ++ [b]) := by
  unfold NoLines
  induction s with
  | nil => simpa [avoids] using hb.1
  | cons c s ih =>
      have hRest : OneLine s := fun hMem => h (List.mem_cons_of_mem c hMem)
      have hNext := ih hRest
      cases s with
      | nil =>
          rw [List.nil_append] at hNext
          simp [avoids, hb.1, hb.2]
      | cons c' s =>
          have hc' : c' ≠ lf := fun hEq => h (by simp [hEq])
          rw [List.cons_append, List.cons_append, avoids, Bool.and_eq_true]
          exact ⟨by simp [hc'], hNext⟩

theorem NoLines.noLineEnd {s text : Bytes} (h : NoLines text) (hs : s <+: text) :
    NoLineEnd s := by
  intro hInfix
  obtain ⟨front, rest, hText⟩ := hInfix.trans hs.isInfix
  have hLt : front.length < text.length := by
    rw [← hText]
    simp
  refine not_prefix_of_avoids h hLt [] ?_
  rw [List.append_nil, ← hText, List.append_assoc, List.drop_left]
  exact List.prefix_append _ _

section Render

variable {D : Type} {o : Oracle} {printf : Printf D} {qsort : Qsort}

theorem notMem_promTypeFor (type : Bytes) : cr ∉ promTypeFor type := by
  unfold promTypeFor
  split
  · decide
  · split
    · decide
    · split <;> decide

theorem renderHeader_noLines {r : PromRule} (hr : r ∈ rules) {sm : SnapMetric D}
    {d : DString} (h : HoldsThat NoLines d) :
    Yields (renderHeader o r sm d) (HoldsThat NoLines) := by
  have hHelp : ∀ r ∈ rules, cr ∉ ascii "# HELP " ++ (r.family ++ 32 :: (r.help ++ [10])) := by
    decide
  have hFamily : ∀ r ∈ rules, cr ∉ ascii "# TYPE " ++ r.family := by decide
  have hType : cr ∉ ascii "# TYPE " ++ (r.family ++ 32 :: (promTypeFor sm.type ++ [10])) := by
    have hEnd : cr ∉ [10] ∧ cr ≠ 32 := by decide
    rw [← List.append_assoc]
    simp only [List.mem_append, List.mem_cons, not_or]
    exact ⟨by simpa using hFamily r hr, hEnd.2, notMem_promTypeFor sm.type, by simpa using hEnd.1⟩
  unfold renderHeader dsAppendf
  refine Yields.bind (dsAppend_holdsThat o h fun text hText =>
    hText.append (noLines_of_notMem (hHelp r hr))) fun d' hd' => ?_
  exact dsAppend_holdsThat o hd' fun text hText => hText.append (noLines_of_notMem hType)

theorem oneLine_label {r : PromRule} (hr : r ∈ rules) {sm : SnapMetric D} {di : Nat}
    {l : Bytes × Bytes} (hl : l ∈ labelPairs r sm di) : OneLine l.1 := by
  have hKeys : ∀ r ∈ rules, ∀ key ∈ r.piLabel.toList ++ (r.tiLabel.toList ++ r.dsLabel.toList),
      lf ∉ key := by decide
  exact hKeys r hr l.1 (mem_labelPairs hl).1

/-- The labels of a sample, in a string of their own. -/
theorem labels_oneLine {r : PromRule} (hr : r ∈ rules) (sm : SnapMetric D) (di : Nat) :
    Yields ((labelPairs r sm di).foldlM (fun d l => dsAppendLabel o d l.1 l.2) DString.zero)
      (HoldsThat OneLine) := by
  have hAll : ∀ labels : List (Bytes × Bytes), (∀ l ∈ labels, OneLine l.1) →
      ∀ d, HoldsThat OneLine d →
        Yields (labels.foldlM (fun d l => dsAppendLabel o d l.1 l.2) d) (HoldsThat OneLine) := by
    intro labels
    induction labels with
    | nil => exact fun _ d hd => Yields.pure hd
    | cons l labels ih =>
        intro hLabels d hd
        rw [List.forall_mem_cons] at hLabels
        rw [List.foldlM_cons]
        exact Yields.bind (dsAppendLabel_oneLine o hd hLabels.1 l.2) fun d' hd' =>
          ih hLabels.2 d' hd'
  refine hAll _ (fun l hl => oneLine_label hr hl) _ ⟨[], holds_zero, ?_⟩
  exact List.not_mem_nil

variable [CDouble D] [Inhabited D]

theorem renderSample_noLines (hVal : ∀ v, cr ∉ fmtVal printf 64 v) {r : PromRule} (hr : r ∈ rules)
    {sm : SnapMetric D} {d : DString} (h : HoldsThat NoLines d) (di : Nat) :
    Yields (renderSample o printf r sm d di) (HoldsThat NoLines) := by
  have hFamilies : ∀ r ∈ rules, cr ∉ r.family := by decide
  have hFamily : NoLines r.family := noLines_of_notMem (hFamilies r hr)
  have hValue : NoLines (32 :: (fmtVal printf 64 (sm.values.getD di default) ++ [10])) := by
    have hBytes : cr ≠ 32 ∧ cr ≠ 10 := by decide
    refine noLines_of_notMem ?_
    simpa [hBytes] using hVal (sm.values.getD di default)
  unfold renderSample
  refine Yields.bind (labels_oneLine hr sm di) fun labels hLabels => ?_
  simp only [dsAppendf]
  split
  · -- a label may hold a carriage return, but a brace follows it
    have hLabel : NoLines (cstr labels.cells ++ [125]) := by
      obtain ⟨text, hHolds, hText⟩ := hLabels
      exact OneLine.noLines (fun hMem => hText (hHolds.cstr_isPrefix.subset hMem)) (by decide)
    have hLine : r.family ++ 123 :: (cstr labels.cells ++ 125 :: 32 ::
        (fmtVal printf 64 (sm.values.getD di default) ++ [10])) =
        r.family ++ ([123] ++ ((cstr labels.cells ++ [125]) ++
          32 :: (fmtVal printf 64 (sm.values.getD di default) ++ [10]))) := by
      simp
    rw [hLine]
    have hOpen : NoLines [123] := by
      unfold NoLines
      decide
    exact dsAppend_holdsThat o h fun _ ht =>
      ht.append (hFamily.append (hOpen.append (hLabel.append hValue)))
  · exact dsAppend_holdsThat o h fun _ ht => ht.append (hFamily.append hValue)

theorem renderEntry_noLines (hVal : ∀ v, cr ∉ fmtVal printf 64 v) {ms : List (SnapMetric D)}
    {e : Entry ms} (hr : e.r ∈ rules) {st : Option Bytes × DString} (h : HoldsThat NoLines st.2) :
    Yields (renderEntry o printf st e) fun st' => HoldsThat NoLines st'.2 := by
  unfold renderEntry
  refine Yields.bind (P := HoldsThat NoLines) ?_ fun d hd => ?_
  · split
    · exact Yields.pure h
    · exact renderHeader_noLines hr h
  · have hSamples : Yields ((List.range e.metric.dsCount.toNat).foldlM
        (renderSample o printf e.r e.metric) d) (HoldsThat NoLines) :=
      Yields.foldlM (R := fun _ => HoldsThat NoLines)
        (fun _ di _ hd => renderSample_noLines hVal hr hd di) _ hd
    exact Yields.bind hSamples fun d' hd' => Yields.pure hd'

theorem entries_noLines (hVal : ∀ v, cr ∉ fmtVal printf 64 v) {ms : List (SnapMetric D)}
    {es : List (Entry ms)} (hRules : ∀ e ∈ es, e.r ∈ rules) {st : Option Bytes × DString}
    (h : HoldsThat NoLines st.2) :
    Yields (es.foldlM (renderEntry o printf) st) fun st' => HoldsThat NoLines st'.2 := by
  induction es generalizing st with
  | nil => exact Yields.pure h
  | cons e es ih =>
      rw [List.foldlM_cons]
      rw [List.forall_mem_cons] at hRules
      exact Yields.bind (renderEntry_noLines hVal hRules.1 h) fun st' hst' => ih hRules.2 hst'

theorem renderToDstring_noLines (hVal : ∀ v, cr ∉ fmtVal printf 64 v) (hSort : SortsFamilies qsort)
    {ms : List (SnapMetric D)} (hne : ms ≠ []) :
    Yields (renderToDstring o printf qsort DString.zero ms) (HoldsThat NoLines) := by
  have hZero : HoldsThat NoLines DString.zero := ⟨[], holds_zero, rfl⟩
  obtain ⟨hPerm, -⟩ := hSort ms (entries ms)
  have hRules : ∀ e ∈ qsort (Entry ms) cmpFamily (entries ms), e.r ∈ rules :=
    fun e he => (findRule_eq_some (mem_entries (hPerm.mem_iff.mp he))).1
  unfold renderToDstring
  rw [if_neg hne]
  refine Yields.bind_any ?_
  rintro (_ | fresh)
  · exact Yields.pure hZero
  · exact Yields.bind (entries_noLines hVal hRules hZero) fun st hst => Yields.pure hst

theorem emptyString_noLineEnd : Yields (emptyString o) fun block =>
    NoLineEnd ((block.map cstr).getD []) := by
  have hNil : NoLineEnd [] := by simp [NoLineEnd]
  unfold emptyString
  refine Yields.bind_any ?_
  rintro (_ | fresh)
  · exact Yields.pure hNil
  · exact Yields.pure hNil

theorem returnedBlock_noLineEnd {d : DString} (h : HoldsThat NoLines d) :
    Yields (returnedBlock o d) fun block => NoLineEnd ((block.map cstr).getD []) := by
  obtain ⟨text, hHolds, hText⟩ := h
  unfold returnedBlock
  rcases hHolds.cells with ⟨rfl, -⟩ | ⟨rest, hBuf, -⟩
  · exact emptyString_noLineEnd
  · rw [hBuf]
    exact Yields.pure (hText.noLineEnd (cstr_isPrefix text rest))

/-- Whatever memory there is and whatever the metrics are named, no line of a header ends
in what `prom_render` returns. -/
theorem promRender_noLineEnd (hVal : ∀ v, cr ∉ fmtVal printf 64 v) (hSort : SortsFamilies qsort)
    (s : State D) : Yields (promRender o printf qsort s) fun block =>
      NoLineEnd ((block.map cstr).getD []) := by
  unfold promRender
  split
  · exact emptyString_noLineEnd
  · rename_i p hPublished
    split
    · exact emptyString_noLineEnd
    · rename_i hCount
      refine Yields.bind_any ?_
      rintro (_ | fresh)
      · exact emptyString_noLineEnd
      · exact Yields.bind (renderToDstring_noLines hVal hSort
          (SnapBuf.take_count_ne_nil hCount)) fun d hd => returnedBlock_noLineEnd hd

end Render

/-! ## What the client reads -/

theorem BeginsRendered.head?_ne {text : Bytes} (h : BeginsRendered text) : text.head? ≠ some lf := by
  rcases h with rfl | ⟨t, rfl⟩ | ⟨t, rfl⟩
  · simp
  · show some 35 ≠ some lf
    decide
  · show some 115 ≠ some lf
    decide

theorem head?_take_ne {text : Bytes} {b : Byte} (h : text.head? ≠ some b) (k : Nat) :
    (text.take k).head? ≠ some b := by
  cases k with
  | zero => simp
  | succ k => rwa [List.head?_take, if_neg (Nat.succ_ne_zero k)]

/-- The response or nothing, if no line ends in the body. -/
theorem Answer.read_sent {a : Answer} (hEnd : NoLineEnd a.body) (hHead : a.body.head? ≠ some lf)
    {outcomes : List SendOutcome} {written : Bytes} (hSent : a.send outcomes = some written) :
    HttpResponse.read written = if written = a.text then some a.response else none := by
  have hWell := a.wellFormed_response
  rw [← a.text_response]
  rcases sendBoth_eq_some hSent with ⟨-, hPrefix⟩ | ⟨hLt, rfl⟩
  · refine hWell.read_isPrefix ?_
    rwa [a.text_response]
  · rw [← a.head_response] at hLt ⊢
    have hNone : HttpResponse.read (a.response.head.take (accepted outcomes) ++
        a.body.take (accepted (behindFailure outcomes))) = none :=
      hWell.read_broken (hEnd.of_isPrefix (List.take_prefix _ _)) (head?_take_ne hHead _) hLt
    rw [hNone, if_neg]
    intro hWhole
    rw [hWhole, hWell.read_text] at hNone
    cases hNone

section Code

variable {D : Type} [CDouble D] [Inhabited D] {o : Oracle} {printf : Printf D} {qsort : Qsort}

/-- No body goes on where a header broke off. -/
theorem connAnswer_body (hVal : ∀ v, cr ∉ fmtVal printf 64 v) (hSort : SortsFamilies qsort)
    (s : State D) (k : Nat) (chunks : List Bytes) :
    NoLineEnd (connAnswer o printf qsort s k chunks).body ∧
      (connAnswer o printf qsort s k chunks).body.head? ≠ some lf := by
  cases hAnswer : connAnswer o printf qsort s k chunks with
  | metrics body =>
      rw [Answer.body, answerToFields_eq_metrics hAnswer]
      exact ⟨promRender_noLineEnd hVal hSort s k, (promRender_begins hSort s k).head?_ne⟩
  | _ => exact ⟨(noLines_of_notMem (by decide)).noLineEnd (List.prefix_refl _), by decide⟩

/-- **What the client reads.**  In any state, with any memory, and whatever the outcomes
of `send` are: when `handle_conn` returns, the client reads the whole response from what
has been sent, or, if anything of it is missing, nothing. -/
theorem client_reads_all_or_nothing (hVal : ∀ v, cr ∉ fmtVal printf 64 v)
    (hSort : SortsFamilies qsort) (s : State D) (k : Nat) {chunks : List Bytes}
    (hRecv : recv chunks 1023 ≠ []) {outcomes : List SendOutcome} {written : Bytes}
    (hSent : ((handleConn o printf qsort s chunks outcomes).run k).1 = some written) :
    HttpResponse.read written =
      if written = (connAnswer o printf qsort s k chunks).text then
        some (connAnswer o printf qsort s k chunks).response else none := by
  obtain ⟨hEnd, hHead⟩ := connAnswer_body (o := o) hVal hSort s k chunks
  rw [handleConn_run s hRecv] at hSent
  exact Answer.read_sent hEnd hHead hSent

end Code

/-- The body behind the first twenty bytes of the header. -/
def garbledHealth : Bytes := ascii "HTTP/1.1 200 OK\r\nConsvgd-collect\n"

/-- The client does not take it for a response. -/
theorem client_rejects_garbledHealth :
    ((handleConn (filledMemory 0) integralPrintf stableQsort State.initial healthChunks
        [.sent 20, .error, .sent 4096]).run 0).1 = some garbledHealth ∧
      HttpResponse.read garbledHealth = none := by
  have hRecv : recv healthChunks 1023 ≠ [] := by decide
  have hSent : ((handleConn (filledMemory 0) integralPrintf stableQsort State.initial healthChunks
      [.sent 20, .error, .sent 4096]).run 0).1 = some garbledHealth := by
    rw [handleConn_run _ hRecv, healthChunks_answer]
    rfl
  have hRead := client_reads_all_or_nothing
    (fun v => fmtVal_integralPrintf v (by decide) (by decide)) stableQsort_sorts State.initial 0 hRecv hSent
  rw [healthChunks_answer, if_neg (by decide)] at hRead
  exact ⟨hSent, hRead⟩

end SvgdCollect
