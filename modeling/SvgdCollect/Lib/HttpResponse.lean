import SvgdCollect.Lib.Exposition
import SvgdCollect.Lib.Numerals

/-!
# HTTP responses

A response with a status line, header fields and a body, its written form, and a client
that reads it back.  The client waits for the end of the connection and accepts exactly
what is complete: the head ends with an empty line, every line of it is well formed, and
the body is as long as the one `Content-Length` says.
-/

namespace SvgdCollect
namespace Lib

def cr : Byte := 13

def lf : Byte := 10

structure HttpResponse where
  status : Bytes
  fields : List (Bytes × Bytes)
  body : Bytes
  deriving DecidableEq

/-! ## Writing -/

/-- Lines and the empty line behind them. -/
def joinHead (lines : List Bytes) : Bytes := lines.flatMap (fun l => l ++ [cr, lf]) ++ [cr, lf]

def fieldLine (f : Bytes × Bytes) : Bytes := f.1 ++ byte ':' :: byte ' ' :: f.2

def HttpResponse.headLines (r : HttpResponse) : List Bytes :=
  (ascii "HTTP/1.1 " ++ r.status) :: r.fields.map fieldLine

def HttpResponse.head (r : HttpResponse) : Bytes := joinHead r.headLines

def HttpResponse.text (r : HttpResponse) : Bytes := r.head ++ r.body

/-! ## Reading -/

/-- The lines in front of the first empty line, and what follows it; `cur` is the line
read so far.  A carriage return that ends no line is an error. -/
def takeHead : Bytes → Bytes → Option (List Bytes × Bytes)
  | _, [] => none
  | cur, b :: s =>
      if b = cr then
        match s with
        | [] => none
        | c :: rest =>
            if c ≠ lf then none
            else if cur = [] then some ([], rest)
            else (takeHead [] rest).map fun r => (cur :: r.1, r.2)
      else takeHead (cur ++ [b]) s

/-- A name, a colon, and a value behind any blanks. -/
def readField (line : Bytes) : Option (Bytes × Bytes) :=
  match strchr line (byte ':') with
  | none => none
  | some rest =>
      let name := line.takeWhile (· != byte ':')
      if name = [] then none
      else some (name, rest.tail.dropWhile fun b => b == byte ' ' || b == byte '\t')

/-- Field names are compared without case. -/
def lowercase (name : Bytes) : Bytes := name.map fun b => if 65 ≤ b ∧ b ≤ 90 then b + 32 else b

/-- The number in the only field of that name. -/
def contentLength (fields : List (Bytes × Bytes)) : Option Nat :=
  match fields.filter fun f => lowercase f.1 = ascii "content-length" with
  | [f] => if f.2 ≠ [] ∧ f.2.all isdigit then some (natOfDigits f.2) else none
  | _ => none

/-- The response that a client reads from all bytes of a connection. -/
def HttpResponse.read (bytes : Bytes) : Option HttpResponse :=
  match takeHead [] bytes with
  | some (first :: lines, body) =>
      match Exposition.afterToken (ascii "HTTP/1.1 ") first, lines.mapM readField with
      | some status, some fields =>
          if contentLength fields = some body.length then some ⟨status, fields, body⟩ else none
      | _, _ => none
  | _ => none

/-! ## Lines of a head -/

section Steps

variable {line rest : Bytes} {b c : Byte}

theorem takeHead_cons_of_ne (hb : b ≠ cr) : takeHead line (b :: rest) = takeHead (line ++ [b]) rest := by
  rw [takeHead.eq_def]
  simp [hb]

theorem takeHead_end :
    takeHead line (cr :: lf :: rest) =
      if line = [] then some ([], rest)
      else (takeHead [] rest).map fun r => (line :: r.1, r.2) := by
  rw [takeHead.eq_def]
  simp

theorem takeHead_stray (hc : c ≠ lf) : takeHead line (cr :: c :: rest) = none := by
  rw [takeHead.eq_def]
  simp [hc]

theorem takeHead_cr : takeHead line [cr] = none := by
  rw [takeHead.eq_def]
  simp

end Steps

/-- A line that is not taken for the end of the head. -/
structure IsHeadLine (line : Bytes) : Prop where
  ne_nil : line ≠ []
  cr : cr ∉ line

theorem takeHead_line {cur line : Bytes} (rest : Bytes) (hLine : cr ∉ line)
    (hne : cur ++ line ≠ []) :
    takeHead cur (line ++ cr :: lf :: rest) =
      (takeHead [] rest).map fun r => ((cur ++ line) :: r.1, r.2) := by
  induction line generalizing cur with
  | nil =>
      rw [List.append_nil] at hne ⊢
      rw [List.nil_append, takeHead_end, if_neg hne]
  | cons b line ih =>
      have hb : b ≠ cr := fun hEq => hLine (by simp [hEq])
      have hRest : cr ∉ line := fun hMem => hLine (List.mem_cons_of_mem b hMem)
      have hAppend : cur ++ b :: line = (cur ++ [b]) ++ line := by simp
      rw [List.cons_append, takeHead_cons_of_ne hb, hAppend]
      exact ih hRest (by simp)

theorem takeHead_joinHead {lines : List Bytes} (h : ∀ l ∈ lines, IsHeadLine l) (body : Bytes) :
    takeHead [] (joinHead lines ++ body) = some (lines, body) := by
  induction lines with
  | nil => rfl
  | cons l lines ih =>
      rw [List.forall_mem_cons] at h
      have hText : joinHead (l :: lines) ++ body = l ++ cr :: lf :: (joinHead lines ++ body) := by
        simp [joinHead]
      rw [hText, takeHead_line _ h.1.cr (by simpa using h.1.ne_nil), ih h.2]
      rfl

/-- Nowhere does a line end. -/
def NoLineEnd (s : Bytes) : Prop := ¬ [cr, lf] <:+: s

theorem NoLineEnd.of_isPrefix {s text : Bytes} (h : NoLineEnd text) (hs : s <+: text) : NoLineEnd s :=
  fun hInfix => h (hInfix.trans hs.isInfix)

theorem NoLineEnd.tail {b : Byte} {s : Bytes} (h : NoLineEnd (b :: s)) : NoLineEnd s :=
  fun hInfix => h (hInfix.trans (List.suffix_cons b s).isInfix)

theorem takeHead_of_noLineEnd {cur s : Bytes} (h : NoLineEnd s) : takeHead cur s = none := by
  induction s generalizing cur with
  | nil => rfl
  | cons b s ih =>
      by_cases hb : b = cr
      · subst hb
        cases s with
        | nil => exact takeHead_cr
        | cons c rest =>
            refine takeHead_stray ?_
            rintro rfl
            exact h ⟨[], rest, rfl⟩
      · rw [takeHead_cons_of_ne hb]
        exact ih h.tail

/-- A line that breaks off inside it or at its end. -/
theorem takeHead_broken_line {line t : Bytes} (hLine : cr ∉ line) (hEnd : NoLineEnd t)
    (hHead : t.head? ≠ some lf) (rest : Bytes) {cur : Bytes} {j : Nat} (hj : j < line.length + 2) :
    takeHead cur ((line ++ cr :: lf :: rest).take j ++ t) = none := by
  induction line generalizing cur j with
  | nil =>
      match j, hj with
      | 0, _ => exact takeHead_of_noLineEnd hEnd
      | 1, _ =>
          show takeHead cur (cr :: t) = none
          cases t with
          | nil => exact takeHead_cr
          | cons c t => exact takeHead_stray fun hc => hHead (by rw [hc]; rfl)
  | cons b line ih =>
      have hb : b ≠ cr := fun hEq => hLine (by simp [hEq])
      cases j with
      | zero => exact takeHead_of_noLineEnd hEnd
      | succ j =>
          rw [List.length_cons] at hj
          rw [List.cons_append, List.take_succ_cons, List.cons_append, takeHead_cons_of_ne hb]
          exact ih (fun hMem => hLine (List.mem_cons_of_mem b hMem)) (by omega)

/-- A head that breaks off is not found, if what follows ends no line of it. -/
theorem takeHead_broken {lines : List Bytes} (h : ∀ l ∈ lines, IsHeadLine l) {t : Bytes}
    (hEnd : NoLineEnd t) (hHead : t.head? ≠ some lf) {j : Nat} (hj : j < (joinHead lines).length) :
    takeHead [] ((joinHead lines).take j ++ t) = none := by
  induction lines generalizing j with
  | nil =>
      exact takeHead_broken_line (List.not_mem_nil) hEnd hHead [] (by simpa [joinHead] using hj)
  | cons l lines ih =>
      rw [List.forall_mem_cons] at h
      have hText : joinHead (l :: lines) = l ++ cr :: lf :: joinHead lines := by
        simp [joinHead]
      rw [hText] at hj ⊢
      rcases Nat.lt_or_ge j (l.length + 2) with hLt | hGe
      · exact takeHead_broken_line h.1.cr hEnd hHead _ hLt
      · obtain ⟨i, rfl⟩ := Nat.exists_eq_add_of_le hGe
        have hTake : (l ++ cr :: lf :: joinHead lines).take (l.length + 2 + i) =
            l ++ cr :: lf :: (joinHead lines).take i := by
          rw [Nat.add_assoc, List.take_length_add_append, Nat.add_comm 2 i]
          rfl
        have hi : i < (joinHead lines).length := by
          simp only [List.length_append, List.length_cons] at hj
          omega
        rw [hTake, List.append_assoc, List.cons_append, List.cons_append,
          takeHead_line _ h.1.cr (by simpa using h.1.ne_nil), ih h.2 hi]
        rfl

/-! ## Well-formed responses -/

/-- A response that can be read back. -/
structure HttpResponse.WellFormed (r : HttpResponse) : Prop where
  status : cr ∉ r.status
  names : ∀ f ∈ r.fields, f.1 ≠ [] ∧ cr ∉ f.1 ∧ byte ':' ∉ f.1
  values : ∀ f ∈ r.fields, cr ∉ f.2 ∧ f.2.head? ≠ some (byte ' ') ∧ f.2.head? ≠ some (byte '\t')
  length : contentLength r.fields = some r.body.length

theorem readField_fieldLine {f : Bytes × Bytes} (hName : f.1 ≠ [] ∧ byte ':' ∉ f.1)
    (hValue : f.2.head? ≠ some (byte ' ') ∧ f.2.head? ≠ some (byte '\t')) :
    readField (fieldLine f) = some f := by
  have hRest : strchr (fieldLine f) (byte ':') = some (byte ':' :: byte ' ' :: f.2) := by
    rw [fieldLine, strchr_append_of_notMem _ hName.2]
    simp [strchr]
  have hFront : (fieldLine f).takeWhile (· != byte ':') = f.1 := by
    have hRun : ∀ b ∈ f.1, (b != byte ':') = true := by
      intro b hb
      rw [bne_iff_ne]
      exact fun hEq => hName.2 (hEq ▸ hb)
    simp [fieldLine, List.takeWhile_append_of_pos hRun]
  have hBlanks : (byte ' ' :: f.2).dropWhile (fun b => b == byte ' ' || b == byte '\t') = f.2 := by
    rw [List.dropWhile_cons_of_pos (by decide)]
    cases hText : f.2 with
    | nil => rfl
    | cons b s =>
        rw [hText] at hValue
        apply List.dropWhile_cons_of_neg
        simp only [List.head?_cons, ne_eq, Option.some.injEq] at hValue
        simpa using hValue
  simp only [readField, hRest, hFront, if_neg hName.1, List.tail_cons, hBlanks]

theorem mapM_readField {fields : List (Bytes × Bytes)}
    (h : ∀ f ∈ fields, readField (fieldLine f) = some f) :
    (fields.map fieldLine).mapM readField = some fields := by
  induction fields with
  | nil => rfl
  | cons f fields ih =>
      rw [List.forall_mem_cons] at h
      rw [List.map_cons, List.mapM_cons, h.1, ih h.2]
      rfl

namespace HttpResponse

variable {r : HttpResponse}

theorem WellFormed.headLines (h : r.WellFormed) : ∀ l ∈ r.headLines, IsHeadLine l := by
  have hProtocol : cr ∉ ascii "HTTP/1.1 " := by decide
  intro l hl
  rcases List.mem_cons.mp hl with rfl | hl
  · refine ⟨List.append_ne_nil_of_left_ne_nil (by decide) _, ?_⟩
    rw [List.mem_append, not_or]
    exact ⟨hProtocol, h.status⟩
  · obtain ⟨f, hf, rfl⟩ := List.mem_map.mp hl
    have hBytes : cr ≠ byte ':' ∧ cr ≠ byte ' ' := by decide
    refine ⟨List.append_ne_nil_of_left_ne_nil (h.names f hf).1 _, ?_⟩
    simp only [fieldLine, List.mem_append, List.mem_cons, not_or]
    exact ⟨(h.names f hf).2.1, hBytes.1, hBytes.2, (h.values f hf).1⟩

/-- The client reads the head, whatever the body is. -/
theorem WellFormed.read_append (h : r.WellFormed) (bytes : Bytes) :
    read (r.head ++ bytes) = if r.body.length = bytes.length then some { r with body := bytes }
      else none := by
  have hFields := mapM_readField fun f hf =>
    readField_fieldLine ⟨(h.names f hf).1, (h.names f hf).2.2⟩ (h.values f hf).2
  rw [read, head, takeHead_joinHead h.headLines]
  simp only [HttpResponse.headLines, Exposition.afterToken_append, hFields, h.length,
    Option.some.injEq]

/-- **Round trip.** -/
theorem WellFormed.read_text (h : r.WellFormed) : read r.text = some r := by
  rw [text, h.read_append, if_pos rfl]

/-- Nothing is read from a broken head, if what follows ends no line of it. -/
theorem WellFormed.read_broken (h : r.WellFormed) {t : Bytes} (hEnd : NoLineEnd t)
    (hHead : t.head? ≠ some lf) {j : Nat} (hj : j < r.head.length) :
    read (r.head.take j ++ t) = none := by
  rw [read, head, takeHead_broken h.headLines hEnd hHead hj]

/-- A response that breaks off is never taken for a complete one. -/
theorem WellFormed.read_isPrefix (h : r.WellFormed) {bytes : Bytes} (hPrefix : bytes <+: r.text) :
    read bytes = if bytes = r.text then some r else none := by
  split
  · rename_i hWhole
    rw [hWhole]
    exact h.read_text
  · rename_i hPart
    rcases Nat.lt_or_ge bytes.length r.head.length with hLt | hGe
    · have hBytes : bytes = r.head.take bytes.length ++ [] := by
        have hTake := List.prefix_iff_eq_take.mp hPrefix
        rwa [text, List.take_append_of_le_length hLt.le, ← List.append_nil (r.head.take _)] at hTake
      have hEnd : NoLineEnd [] := by
        simp [NoLineEnd]
      rw [hBytes]
      exact h.read_broken hEnd (by simp) hLt
    · obtain ⟨part, rfl⟩ := List.prefix_of_prefix_length_le (List.prefix_append r.head r.body)
        hPrefix hGe
      rw [text, List.prefix_append_right_inj] at hPrefix
      have hShort : ¬ r.body.length = part.length := fun hEq =>
        hPart (by rw [text, hPrefix.eq_of_length hEq.symm])
      rw [h.read_append, if_neg hShort]

end HttpResponse

end Lib
end SvgdCollect
