import SvgdCollect.Http

/-!
# Responses on a socket that fails

A response is sent by two calls of `send_all`.  Each of them stops at the first error,
but the second one runs whatever became of the first.  If the socket fails inside the
header and then works again, the body follows a header that was not finished.

The number of bytes the socket takes in front of its first failure decides where the
header breaks.  A response is intact iff the header does not break, or nothing of the
body follows it; the one accident is a single byte that both the body and the rest of
the header begin with.
-/

namespace SvgdCollect

open Lib Prom

/-! ## Outcomes -/

/-- A positive count or `EINTR`. -/
def SendOutcome.Progress : SendOutcome → Prop
  | .sent n => 0 < n
  | .eintr => True
  | .error => False

/-- A positive count. -/
def SendOutcome.takes : SendOutcome → Bool
  | .sent n => 0 < n
  | _ => false

/-- The bytes that are taken in front of the first failure. -/
def accepted : List SendOutcome → Nat
  | [] => 0
  | .sent 0 :: _ => 0
  | .sent (n + 1) :: outcomes => n + 1 + accepted outcomes
  | .eintr :: outcomes => accepted outcomes
  | .error :: _ => 0

/-- The outcomes behind the first failure. -/
def behindFailure : List SendOutcome → List SendOutcome
  | [] => []
  | .sent 0 :: outcomes => outcomes
  | .sent (_ + 1) :: outcomes => behindFailure outcomes
  | .eintr :: outcomes => behindFailure outcomes
  | .error :: outcomes => outcomes

/-! ## One call of `send_all` -/

/-- What a call of `send_all` has done when it returns: the socket has taken as much of
the buffer as it accepts in front of a failure, and if that is not all, there was a
failure and the next call goes on behind it. -/
structure Stopped (outcomes : List SendOutcome) (buf : Bytes) (r : SendResult) : Prop where
  taken : r.taken = buf.take (accepted outcomes)
  broken : accepted outcomes < buf.length →
    r.unused = behindFailure outcomes ∧ ∃ x ∈ outcomes, ¬ x.Progress
  unused : ∀ x ∈ r.unused, x ∈ outcomes

theorem sendAll_stopped {outcomes : List SendOutcome} {buf : Bytes} {r : SendResult}
    (h : sendAll outcomes buf = some r) : Stopped outcomes buf r := by
  fun_induction sendAll outcomes buf generalizing r with
  | case1 outcomes =>
      obtain rfl := Option.some.inj h
      exact ⟨List.take_nil.symm, fun hLt => absurd hLt (Nat.not_lt_zero _), fun x hx => hx⟩
  | case2 => cases h
  | case3 outcomes b buf ih =>
      obtain ⟨hTaken, hBroken, hUnused⟩ := ih h
      refine ⟨hTaken, fun hLt => ?_, fun x hx => List.mem_cons_of_mem _ (hUnused x hx)⟩
      obtain ⟨hBehind, x, hx, hFails⟩ := hBroken hLt
      exact ⟨hBehind, x, List.mem_cons_of_mem _ hx, hFails⟩
  | case4 outcomes b buf =>
      obtain rfl := Option.some.inj h
      exact ⟨rfl, fun _ => ⟨rfl, .error, List.mem_cons_self, id⟩,
        fun x hx => List.mem_cons_of_mem _ hx⟩
  | case5 outcomes b buf =>
      obtain rfl := Option.some.inj h
      exact ⟨rfl, fun _ => ⟨rfl, .sent 0, List.mem_cons_self, Nat.not_lt_zero 0⟩,
        fun x hx => List.mem_cons_of_mem _ hx⟩
  | case6 n outcomes b buf ih =>
      obtain ⟨r', hRest, rfl⟩ := Option.map_eq_some_iff.mp h
      obtain ⟨hTaken, hBroken, hUnused⟩ := ih hRest
      refine ⟨?_, fun hLt => ?_, fun x hx => List.mem_cons_of_mem _ (hUnused x hx)⟩
      · -- the bytes of this call and those of the later ones
        show b :: buf.take n ++ r'.taken = (b :: buf).take (n + 1 + accepted outcomes)
        rw [hTaken, Nat.add_right_comm, List.take_succ_cons, List.take_add, List.cons_append]
      · have hShort : accepted outcomes < (buf.drop n).length := by
          rw [accepted, List.length_cons] at hLt
          rw [List.length_drop]
          omega
        obtain ⟨hBehind, x, hx, hFails⟩ := hBroken hShort
        exact ⟨hBehind, x, List.mem_cons_of_mem _ hx, hFails⟩

/-- Enough positive counts, and `EINTR` between them, are enough for a call to return. -/
theorem sendAll_returns {outcomes : List SendOutcome} {buf : Bytes}
    (hProgress : ∀ x ∈ outcomes, x.Progress)
    (hEnough : buf.length ≤ outcomes.countP SendOutcome.takes) :
    ∃ r, sendAll outcomes buf = some r ∧
      outcomes.countP SendOutcome.takes ≤ r.unused.countP SendOutcome.takes + buf.length := by
  fun_induction sendAll outcomes buf with
  | case1 outcomes => exact ⟨_, rfl, Nat.le_add_right _ _⟩
  | case2 b buf => simp at hEnough
  | case3 outcomes b buf ih =>
      rw [List.countP_cons_of_neg (by decide)] at hEnough ⊢
      exact ih (fun x hx => hProgress x (List.mem_cons_of_mem _ hx)) hEnough
  | case4 outcomes b buf => exact absurd (hProgress _ List.mem_cons_self) id
  | case5 outcomes b buf => exact absurd (hProgress _ List.mem_cons_self) (Nat.not_lt_zero 0)
  | case6 n outcomes b buf ih =>
      have hTakes : (SendOutcome.sent (n + 1)).takes = true := decide_eq_true (Nat.succ_pos n)
      rw [List.countP_cons_of_pos hTakes] at hEnough ⊢
      rw [List.length_cons] at hEnough
      have hDrop : (buf.drop n).length ≤ buf.length := by
        rw [List.length_drop]
        omega
      obtain ⟨r, hr, hLeft⟩ :=
        ih (fun x hx => hProgress x (List.mem_cons_of_mem _ hx)) (by omega)
      refine ⟨_, by rw [hr]; rfl, ?_⟩
      show outcomes.countP SendOutcome.takes + 1 ≤
        r.unused.countP SendOutcome.takes + (b :: buf).length
      rw [List.length_cons]
      omega

/-! ## A header and a body -/

/-- What has been sent is the header and a part of the body, or a part of the header and
a part of the body. -/
theorem sendBoth_eq_some {hdr body written : Bytes} {outcomes : List SendOutcome}
    (h : sendBoth hdr body outcomes = some written) :
    (hdr.length ≤ accepted outcomes ∧ written <+: hdr ++ body) ∨
      (accepted outcomes < hdr.length ∧
        written = hdr.take (accepted outcomes) ++ body.take (accepted (behindFailure outcomes))) := by
  unfold sendBoth at h
  split at h
  · cases h
  · rename_i first hFirst
    obtain ⟨second, hSecond, rfl⟩ := Option.map_eq_some_iff.mp h
    have hHeader := sendAll_stopped hFirst
    have hBody := sendAll_stopped hSecond
    rw [hHeader.taken, hBody.taken]
    rcases Nat.lt_or_ge (accepted outcomes) hdr.length with hLt | hGe
    · rw [(hHeader.broken hLt).1]
      exact Or.inr ⟨hLt, rfl⟩
    · rw [List.take_of_length_le hGe, List.prefix_append_right_inj]
      exact Or.inl ⟨hGe, List.take_prefix _ _⟩

theorem Stopped.taken_eq {outcomes : List SendOutcome} {buf : Bytes} {r : SendResult}
    (h : Stopped outcomes buf r) (hProgress : ∀ x ∈ outcomes, x.Progress) : r.taken = buf := by
  rcases Nat.lt_or_ge (accepted outcomes) buf.length with hLt | hGe
  · obtain ⟨-, x, hx, hFails⟩ := h.broken hLt
    exact absurd (hProgress x hx) hFails
  · rw [h.taken, List.take_of_length_le hGe]

/-- Without a failure everything is sent. -/
theorem sendBoth_eq_append {hdr body written : Bytes} {outcomes : List SendOutcome}
    (h : sendBoth hdr body outcomes = some written) (hProgress : ∀ x ∈ outcomes, x.Progress) :
    written = hdr ++ body := by
  unfold sendBoth at h
  split at h
  · cases h
  · rename_i first hFirst
    obtain ⟨second, hSecond, rfl⟩ := Option.map_eq_some_iff.mp h
    have hHeader := sendAll_stopped hFirst
    rw [hHeader.taken_eq hProgress,
      (sendAll_stopped hSecond).taken_eq fun x hx => hProgress x (hHeader.unused x hx)]

theorem sendBoth_returns {hdr body : Bytes} {outcomes : List SendOutcome}
    (hProgress : ∀ x ∈ outcomes, x.Progress)
    (hEnough : (hdr ++ body).length ≤ outcomes.countP SendOutcome.takes) :
    sendBoth hdr body outcomes = some (hdr ++ body) := by
  rw [List.length_append] at hEnough
  obtain ⟨first, hFirst, hLeft⟩ :=
    sendAll_returns hProgress (show hdr.length ≤ _ by omega)
  have hRest : ∀ x ∈ first.unused, x.Progress := fun x hx =>
    hProgress x ((sendAll_stopped hFirst).unused x hx)
  obtain ⟨second, hSecond, -⟩ :=
    sendAll_returns hRest (show body.length ≤ _ by omega)
  have hBoth : sendBoth hdr body outcomes = some (first.taken ++ second.taken) := by
    simp only [sendBoth, hFirst, hSecond, Option.map_some]
  rw [hBoth, sendBoth_eq_append hBoth hProgress]

/-! ## Where a broken header can go on like a body -/

/-- The byte `x` neither stands in front of `y` nor at the end. -/
def avoids (x y : Byte) : Bytes → Bool
  | [] => true
  | [b] => b != x
  | b :: c :: s => (b != x || c != y) && avoids x y (c :: s)

theorem avoids_of_notMem {x y : Byte} {s : Bytes} (h : x ∉ s) : avoids x y s = true := by
  fun_induction avoids x y s with
  | case1 => rfl
  | case2 b => simpa using fun hb : b = x => h (by simp [hb])
  | case3 b c s ih =>
      have hb : (b != x) = true := by simpa using fun hb : b = x => h (by simp [hb])
      rw [hb, ih fun hMem => h (List.mem_cons_of_mem _ hMem)]
      rfl

theorem avoids_append {x y : Byte} {s t : Bytes} (hs : avoids x y s = true)
    (ht : avoids x y t = true) : avoids x y (s ++ t) = true := by
  fun_induction avoids x y s with
  | case1 => exact ht
  | case2 b =>
      cases t with
      | nil => exact hs
      | cons c t =>
          rw [List.cons_append, List.nil_append, avoids, hs, ht]
          rfl
  | case3 b c s ih =>
      rw [Bool.and_eq_true] at hs
      rw [List.cons_append, List.cons_append, avoids, hs.1, Bool.true_and]
      exact ih hs.2

/-- Behind any beginning of the header other bytes follow. -/
theorem not_prefix_of_avoids {x y : Byte} {hdr : Bytes} (h : avoids x y hdr = true) {j : Nat}
    (hj : j < hdr.length) (body : Bytes) : ¬ [x, y] <+: hdr.drop j ++ body := by
  fun_induction avoids x y hdr generalizing j with
  | case1 => exact absurd hj (Nat.not_lt_zero j)
  | case2 b =>
      obtain rfl : j = 0 := by simpa using hj
      rw [List.drop_zero, List.cons_append, List.cons_prefix_cons]
      rintro ⟨rfl, -⟩
      simp at h
  | case3 b c s ih =>
      rw [Bool.and_eq_true] at h
      cases j with
      | zero =>
          rw [List.drop_zero, List.cons_append, List.cons_append, List.cons_prefix_cons,
            List.cons_prefix_cons]
          rintro ⟨rfl, rfl, -⟩
          simp at h
      | succ j => exact ih h.2 (Nat.lt_of_succ_lt_succ hj)

/-- A body that follows a broken header continues it iff nothing of it is there, or one
byte that is also the next one of the header. -/
theorem broken_prefix_iff {x y : Byte} {hdr rest : Bytes} (h : avoids x y hdr = true) {j : Nat}
    (hj : j < hdr.length) (t : Nat) :
    hdr.take j ++ (x :: y :: rest).take t <+: hdr ++ x :: y :: rest ↔
      t = 0 ∨ (t = 1 ∧ hdr[j]? = some x) := by
  have hSplit : hdr ++ x :: y :: rest = hdr.take j ++ (hdr.drop j ++ x :: y :: rest) := by
    rw [← List.append_assoc, List.take_append_drop]
  rw [hSplit, List.prefix_append_right_inj]
  match t with
  | 0 => exact iff_of_true List.nil_prefix (Or.inl rfl)
  | 1 =>
      rw [List.drop_eq_getElem_cons hj, List.getElem?_eq_getElem hj, List.take_succ_cons,
        List.take_zero, List.cons_append, List.cons_prefix_cons]
      constructor
      · rintro ⟨hx, -⟩
        exact Or.inr ⟨rfl, congrArg some hx.symm⟩
      · rintro (hZero | ⟨-, hx⟩)
        · cases hZero
        · exact ⟨(Option.some.inj hx).symm, List.nil_prefix⟩
  | t + 2 =>
      refine iff_of_false (fun hPrefix => ?_) (by simp)
      have hTwo : [x, y] <+: (x :: y :: rest).take (t + 2) := ⟨rest.take t, rfl⟩
      exact not_prefix_of_avoids h hj _ (hTwo.trans hPrefix)

/-! ## How a rendered text begins -/

/-- A text that is empty or begins like a comment or a sample of a family. -/
def BeginsRendered (text : Bytes) : Prop :=
  text = [] ∨ ascii "# " <+: text ∨ ascii "sv" <+: text

theorem BeginsRendered.append {s t : Bytes} (hs : BeginsRendered s) (ht : BeginsRendered t) :
    BeginsRendered (s ++ t) := by
  rcases hs with rfl | hs | hs
  · exact ht
  · exact Or.inr (Or.inl (hs.trans (List.prefix_append _ _)))
  · exact Or.inr (Or.inr (hs.trans (List.prefix_append _ _)))

theorem BeginsRendered.cstr {s : Bytes} (hs : BeginsRendered s) (rest : Bytes) :
    BeginsRendered (cstr (s ++ 0 :: rest)) := by
  rcases hs with rfl | ⟨t, rfl⟩ | ⟨t, rfl⟩
  · exact Or.inl rfl
  · rw [List.append_assoc, cstr_append_of_notMem _ (by decide)]
    exact Or.inr (Or.inl (List.prefix_append _ _))
  · rw [List.append_assoc, cstr_append_of_notMem _ (by decide)]
    exact Or.inr (Or.inr (List.prefix_append _ _))

/-- A buffer with such a text. -/
def HoldsRendered (d : DString) : Prop := ∃ text, Holds d text ∧ BeginsRendered text

/-- An append keeps the beginning, with and without memory. -/
theorem dsAppend_holdsRendered (o : Oracle) {d : DString} {s : Bytes} (h : HoldsRendered d)
    (hs : BeginsRendered s) : Yields (dsAppend o d s) HoldsRendered := by
  obtain ⟨text, hHolds, hText⟩ := h
  intro k
  rcases dsAppend_cases o hHolds s k with hAppended | hSame
  · exact ⟨text ++ s, hAppended, hText.append hs⟩
  · rw [hSame]
    exact ⟨text, hHolds, hText⟩

theorem family_begins {r : PromRule} (h : r ∈ rules) : ascii "sv" <+: r.family := by
  have hAll : ∀ r ∈ rules, ascii "sv" <+: r.family := by decide
  exact hAll r h

section Render

variable {D : Type} {o : Oracle} {printf : Printf D} {qsort : Qsort}

theorem renderHeader_holdsRendered {r : PromRule} {sm : SnapMetric D} {d : DString}
    (h : HoldsRendered d) : Yields (renderHeader o r sm d) HoldsRendered := by
  have hComment : ∀ s t, ascii "# " <+: s → BeginsRendered (s ++ t) := fun s t hs =>
    Or.inr (Or.inl (hs.trans (List.prefix_append _ _)))
  unfold renderHeader dsAppendf
  refine Yields.bind (dsAppend_holdsRendered o h (hComment _ _ (by decide))) fun d' hd' => ?_
  exact dsAppend_holdsRendered o hd' (hComment _ _ (by decide))

variable [CDouble D] [Inhabited D]

theorem renderSample_holdsRendered {r : PromRule} (hr : r ∈ rules) {sm : SnapMetric D}
    {d : DString} (h : HoldsRendered d) (di : Nat) :
    Yields (renderSample o printf r sm d di) HoldsRendered := by
  have hLine : ∀ s, BeginsRendered (r.family ++ s) := fun s =>
    Or.inr (Or.inr ((family_begins hr).trans (List.prefix_append _ _)))
  unfold renderSample
  -- the labels are in a string of their own
  refine Yields.bind_any fun labels => ?_
  simp only [dsAppendf]
  split
  · exact dsAppend_holdsRendered o h (hLine _)
  · exact dsAppend_holdsRendered o h (hLine _)

theorem renderEntry_holdsRendered {ms : List (SnapMetric D)} {e : Entry ms} (hr : e.r ∈ rules)
    {st : Option Bytes × DString} (h : HoldsRendered st.2) :
    Yields (renderEntry o printf st e) fun st' => HoldsRendered st'.2 := by
  unfold renderEntry
  refine Yields.bind (P := HoldsRendered) ?_ fun d hd => ?_
  · split
    · exact Yields.pure h
    · exact renderHeader_holdsRendered h
  · have hSamples : Yields ((List.range e.metric.dsCount.toNat).foldlM
        (renderSample o printf e.r e.metric) d) HoldsRendered :=
      Yields.foldlM (R := fun _ => HoldsRendered)
        (fun _ di _ hd => renderSample_holdsRendered hr hd di) _ hd
    exact Yields.bind hSamples fun d' hd' => Yields.pure hd'

theorem entries_holdsRendered {ms : List (SnapMetric D)} {es : List (Entry ms)}
    (hRules : ∀ e ∈ es, e.r ∈ rules) {st : Option Bytes × DString} (h : HoldsRendered st.2) :
    Yields (es.foldlM (renderEntry o printf) st) fun st' => HoldsRendered st'.2 := by
  induction es generalizing st with
  | nil => exact Yields.pure h
  | cons e es ih =>
      rw [List.foldlM_cons]
      refine Yields.bind (renderEntry_holdsRendered (hRules e List.mem_cons_self) h) fun st' hst' => ?_
      exact ih (fun e' he' => hRules e' (List.mem_cons_of_mem _ he')) hst'

theorem renderToDstring_holdsRendered (hSort : SortsFamilies qsort) {ms : List (SnapMetric D)}
    (hne : ms ≠ []) : Yields (renderToDstring o printf qsort DString.zero ms) HoldsRendered := by
  have hZero : HoldsRendered DString.zero := ⟨[], holds_zero, Or.inl rfl⟩
  obtain ⟨hPerm, -⟩ := hSort ms (entries ms)
  have hRules : ∀ e ∈ qsort (Entry ms) cmpFamily (entries ms), e.r ∈ rules :=
    fun e he => (findRule_eq_some (mem_entries (hPerm.mem_iff.mp he))).1
  unfold renderToDstring
  rw [if_neg hne]
  refine Yields.bind_any ?_
  rintro (_ | fresh)
  · exact Yields.pure hZero
  · refine Yields.bind (entries_holdsRendered hRules hZero) fun st hst => ?_
    exact Yields.pure hst

theorem emptyString_begins : Yields (emptyString o) fun block =>
    BeginsRendered ((block.map cstr).getD []) := by
  unfold emptyString
  refine Yields.bind_any ?_
  rintro (_ | fresh)
  · exact Yields.pure (Or.inl rfl)
  · exact Yields.pure (Or.inl rfl)

theorem returnedBlock_begins {d : DString} (h : HoldsRendered d) :
    Yields (returnedBlock o d) fun block => BeginsRendered ((block.map cstr).getD []) := by
  obtain ⟨text, hHolds, hText⟩ := h
  unfold returnedBlock
  rcases hHolds.cells with ⟨rfl, -⟩ | ⟨rest, hBuf, -⟩
  · exact emptyString_begins
  · rw [hBuf]
    exact Yields.pure (hText.cstr rest)

/-- Whatever memory there is, `prom_render` returns nothing, or a text that begins with
a comment or a sample. -/
theorem promRender_begins (hSort : SortsFamilies qsort) (s : State D) :
    Yields (promRender o printf qsort s) fun block =>
      BeginsRendered ((block.map cstr).getD []) := by
  unfold promRender
  split
  · exact emptyString_begins
  · rename_i p hPublished
    split
    · exact emptyString_begins
    · rename_i hCount
      refine Yields.bind_any ?_
      rintro (_ | fresh)
      · exact emptyString_begins
      · exact Yields.bind (renderToDstring_holdsRendered hSort
          (SnapBuf.take_count_ne_nil hCount)) fun d hd => returnedBlock_begins hd

end Render

/-! ## Intact responses -/

theorem avoids_headerText {x y : Byte} {status contentType : Bytes} (n : Nat)
    (hDigit : isdigit x = false)
    (hParts : ∀ part ∈ [ascii "HTTP/1.1 ", status, ascii "\r\nContent-Type: ", contentType,
      ascii "\r\nContent-Length: ", ascii "\r\nConnection: close\r\n\r\n"],
        avoids x y part = true) : avoids x y (headerText status contentType n) = true := by
  have hNumber : avoids x y (decimal n) = true := avoids_of_notMem (notMem_decimal hDigit)
  simp only [List.forall_mem_cons, List.not_mem_nil, false_imp_iff, implies_true, and_true] at hParts
  obtain ⟨hProtocol, hStatus, hTypeName, hType, hLengthName, hClose⟩ := hParts
  exact avoids_append hProtocol (avoids_append hStatus (avoids_append hTypeName
    (avoids_append hType (avoids_append hLengthName (avoids_append hNumber hClose)))))

/-- The two bytes a body begins with are nowhere in its header. -/
theorem Answer.header_avoids {a : Answer} (h : ∀ body, a = .metrics body → BeginsRendered body) :
    a.body = [] ∨ ∃ x y rest, a.body = x :: y :: rest ∧ avoids x y a.header = true := by
  cases a with
  | badRequest => exact Or.inr ⟨_, _, _, rfl, avoids_headerText _ (by decide) (by decide)⟩
  | methodNotAllowed => exact Or.inr ⟨_, _, _, rfl, avoids_headerText _ (by decide) (by decide)⟩
  | metrics body =>
      rcases h body rfl with rfl | ⟨t, rfl⟩ | ⟨t, rfl⟩
      · exact Or.inl rfl
      · refine Or.inr ⟨35, 32, t, rfl, avoids_headerText _ (by decide) ?_⟩
        simp only [Answer.status, Answer.contentType]
        decide
      · refine Or.inr ⟨115, 118, t, rfl, avoids_headerText _ (by decide) ?_⟩
        simp only [Answer.status, Answer.contentType]
        decide
  | alive => exact Or.inr ⟨_, _, _, rfl, avoids_headerText _ (by decide) (by decide)⟩
  | notFound => exact Or.inr ⟨_, _, _, rfl, avoids_headerText _ (by decide) (by decide)⟩

/-- A response that is not garbled: what was handed to the socket is a prefix of the
header, which announces the length of the body, and the body; and it is the whole of
them if every outcome was a positive count or `EINTR`. -/
structure Intact (a : Answer) (outcomes : List SendOutcome) (written : Bytes) : Prop where
  contentLength :
    ascii "\r\nContent-Length: " ++ (decimal a.body.length ++ ascii "\r\n") <:+: a.header
  isPrefix : written <+: a.header ++ a.body
  whole : (∀ x ∈ outcomes, x.Progress) → written = a.header ++ a.body

/-- The header is taken in front of the first failure, or nothing of a body follows; or
one byte follows, which the header has in this place too. -/
def HeaderKept (a : Answer) (outcomes : List SendOutcome) : Prop :=
  a.header.length ≤ accepted outcomes ∨ a.body = [] ∨ accepted (behindFailure outcomes) = 0 ∨
    (accepted (behindFailure outcomes) = 1 ∧ a.header[accepted outcomes]? = a.body.head?)

theorem Answer.intact_iff {a : Answer} (hBegins : ∀ body, a = .metrics body → BeginsRendered body)
    {outcomes : List SendOutcome} {written : Bytes} (h : a.send outcomes = some written) :
    Intact a outcomes written ↔ HeaderKept a outcomes := by
  have hPrefix : Intact a outcomes written ↔ written <+: a.header ++ a.body :=
    ⟨fun hIntact => hIntact.isPrefix, fun hp => ⟨contentLength_header a, hp, sendBoth_eq_append h⟩⟩
  rw [hPrefix, HeaderKept]
  rcases sendBoth_eq_some h with ⟨hGe, hp⟩ | ⟨hLt, rfl⟩
  · exact iff_of_true hp (Or.inl hGe)
  · rw [or_iff_right (not_le.mpr hLt)]
    rcases a.header_avoids hBegins with hNil | ⟨x, y, rest, hBody, hAvoids⟩
    · rw [hNil, List.take_nil, List.append_nil, List.append_nil]
      exact iff_of_true (List.take_prefix _ _) (Or.inl rfl)
    · rw [hBody, broken_prefix_iff hAvoids hLt, List.head?_cons]
      simp

/-- The metrics are the only answer with a text of its own. -/
theorem answerToFields_eq_metrics {rendered body : Bytes} {fields : List Bytes}
    (h : answerToFields rendered fields = .metrics body) : body = rendered := by
  match fields with
  | [] => cases h
  | [_] => cases h
  | _ :: _ :: _ :: _ => cases h
  | [method, path] =>
      rw [answerToFields, answerTo] at h
      split at h
      · cases h
      · split at h
        · exact (Answer.metrics.inj h).symm
        · split at h <;> cases h

section Code

variable {D : Type} [CDouble D] [Inhabited D] {o : Oracle} {printf : Printf D} {qsort : Qsort}

/-- **Responses on a failing socket.**  For every connection that brings a request and
every sequence of outcomes of `send`, the response is intact when `handle_conn` returns
if and only if the header is kept.  With positive counts and `EINTR` alone it does return,
since each count takes at least one byte. -/
theorem handleConn_intact_iff (hSort : SortsFamilies qsort) (s : State D) (k : Nat)
    {chunks : List Bytes} (hRecv : recv chunks 1023 ≠ []) (outcomes : List SendOutcome) :
    ((∀ x ∈ outcomes, x.Progress) →
      (connAnswer o printf qsort s k chunks).text.length ≤ outcomes.countP SendOutcome.takes →
      ((handleConn o printf qsort s chunks outcomes).run k).1 =
        some (connAnswer o printf qsort s k chunks).text) ∧
    ∀ written, ((handleConn o printf qsort s chunks outcomes).run k).1 = some written →
      (Intact (connAnswer o printf qsort s k chunks) outcomes written ↔
        HeaderKept (connAnswer o printf qsort s k chunks) outcomes) := by
  have hBegins : ∀ body, connAnswer o printf qsort s k chunks = .metrics body →
      BeginsRendered body := by
    intro body hBody
    rw [answerToFields_eq_metrics hBody]
    exact promRender_begins hSort s k
  rw [handleConn_run s hRecv]
  exact ⟨sendBoth_returns, fun written hSent => Answer.intact_iff hBegins hSent⟩

end Code

/-- A probe of the listener. -/
def healthChunks : List Bytes := [ascii "GET /health HTTP/1.1\r\n\r\n"]

theorem healthChunks_answer (o : Oracle) (s : State Double) (k : Nat) :
    connAnswer o integralPrintf stableQsort s k healthChunks = .alive := by
  have hFields : requestFields (recv healthChunks 1023) = [ascii "GET", ascii "/health"] := by
    decide
  rw [connAnswer, hFields]
  rfl

/-- A short write and an interruption inside the header do no harm. -/
theorem health_intact :
    ∃ written, ((handleConn (filledMemory 0) integralPrintf stableQsort State.initial
        healthChunks [.sent 20, .eintr, .sent 4096, .sent 13]).run 0).1 = some written ∧
      Intact .alive [.sent 20, .eintr, .sent 4096, .sent 13] written := by
  have hRecv : recv healthChunks 1023 ≠ [] := by decide
  have hSent : ((handleConn (filledMemory 0) integralPrintf stableQsort State.initial
      healthChunks [.sent 20, .eintr, .sent 4096, .sent 13]).run 0).1 =
      some (Answer.text .alive) := by
    rw [handleConn_run _ hRecv, healthChunks_answer]
    rfl
  have hIff := (handleConn_intact_iff stableQsort_sorts State.initial 0 hRecv
    [.sent 20, .eintr, .sent 4096, .sent 13]).2 _ hSent
  rw [healthChunks_answer] at hIff
  exact ⟨_, hSent, hIff.mpr (Or.inl (by decide))⟩

/-- An error behind twenty bytes of the header, after which the socket takes everything:
the client gets a broken header and the body. -/
theorem health_garbled :
    ((handleConn (filledMemory 0) integralPrintf stableQsort State.initial healthChunks
        [.sent 20, .error, .sent 4096]).run 0).1 =
      some (ascii "HTTP/1.1 200 OK\r\nConsvgd-collect\n") ∧
    ¬ ascii "HTTP/1.1 200 OK\r\nConsvgd-collect\n" <+: Answer.text .alive := by
  refine ⟨?_, by decide⟩
  rw [handleConn_run _ (by decide), healthChunks_answer]
  rfl

end SvgdCollect
