import SvgdCollect.Http

/-!
# Requests that arrive in pieces

TCP may deliver a request in any pieces.  `handle_conn` reads one of them, so it
answers what the first piece looks like: a request line that is cut in the method or
in front of the path has no path, and one that is cut in the path has another path.

`Request.Covered` says exactly which lengths of the first piece are answered like the
whole request.
-/

namespace SvgdCollect

open Lib Prom

/-! ## Requests -/

/-- A request with a complete request line: a method, a path and a version, and
whatever follows. -/
structure Request where
  method : Bytes
  path : Bytes
  version : Bytes
  rest : Bytes
  isWord_method : IsWord method
  isWord_path : IsWord path
  isWord_version : IsWord version
  zero_notMem_method : 0 ∉ method
  zero_notMem_path : 0 ∉ path
  length_le : (method ++ 32 :: (path ++ 32 :: (version ++ 13 :: 10 :: rest))).length ≤ 1023

/-- The bytes of a request. -/
def Request.bytes (r : Request) : Bytes :=
  r.method ++ 32 :: (r.path ++ 32 :: (r.version ++ 13 :: 10 :: r.rest))

/-- A way of cutting a request into pieces that are not empty. -/
structure Request.Cut (r : Request) where
  chunks : List Bytes
  ne_nil : ∀ chunk ∈ chunks, chunk ≠ []
  flatten_eq : chunks.flatten = r.bytes

/-- The length of the first piece. -/
def Request.Cut.firstLength {r : Request} (c : r.Cut) : Nat := (c.chunks.headD []).length

def routes : List Bytes := [ascii "/", ascii "/health", ascii "/metrics"]

/-- A first piece of `k` bytes is answered like the whole request.  A method that does
not fit its buffer needs one byte more than the buffer takes.  Otherwise the method, the
space and a byte of the path must be there, and for `GET` the path, unless what is there
of it has the same answer. -/
def Request.Covered (r : Request) (k : Nat) : Prop :=
  if 15 < r.method.length then 15 < k
  else
    r.method.length + 2 ≤ k ∧
      (r.method ≠ ascii "GET" ∨ r.method.length + 1 + r.path.length ≤ k ∨
        (r.path = ascii "/health" ∧ k = 5) ∨
        (r.path ∉ routes ∧ r.path.take (k - 4) ∉ routes))

/-! ## What is read of a piece -/

/-- A word in front of a space, cut anywhere: as much of the word as there is. -/
theorem cstr_take_word {word : Bytes} (h : 0 ∉ word) (tail : Bytes) (n : Nat) :
    cstr ((word ++ 32 :: tail).take n) =
      word.take n ++ cstr ((32 :: tail).take (n - word.length)) := by
  rw [List.take_append]
  exact cstr_append_of_notMem _ fun hMem => h (List.mem_of_mem_take hMem)

theorem isspace_head_cut {tail : Bytes} {n : Nat} :
    ∀ b, (cstr ((32 :: tail).take n)).head? = some b → isspace b = true := by
  intro b hb
  cases n with
  | zero => simp [cstr] at hb
  | succ n =>
      have hHead : (cstr ((32 :: tail).take (n + 1))).head? = some 32 := by simp [cstr]
      rw [hHead] at hb
      rw [← Option.some.inj hb]
      decide

namespace Request

variable (r : Request)

/-- Nothing of the path has arrived. -/
theorem requestFields_method {k : Nat} (hPos : 0 < k) (hFits : r.method.length ≤ 15 ∨ k ≤ 15)
    (hk : k ≤ r.method.length + 1) : requestFields (r.bytes.take k) = [r.method.take k] := by
  have hWord := r.isWord_method.take hPos
  have hLength : (r.method.take k).length ≤ 15 := by
    rw [List.length_take]
    omega
  rw [requestFields, bytes, cstr_take_word r.zero_notMem_method, requestFormat,
    sscanf_str_word hWord hLength _ isspace_head_cut]
  -- at most the space is left
  obtain hNone | hSpace : k - r.method.length = 0 ∨ k - r.method.length = 1 := by omega
  · rw [hNone]
    rfl
  · rw [hSpace]
    rfl

/-- A method that does not fit is cut, and its end is taken for the path. -/
theorem requestFields_long {k : Nat} (hLong : 15 < r.method.length) (hk : 15 < k) :
    ∃ path, requestFields (r.bytes.take k) = [r.method.take 15, path] := by
  have hWord := r.isWord_method.take (show 0 < k by omega)
  have hLength : 15 < (r.method.take k).length := by
    rw [List.length_take]
    omega
  have hEnd : IsWord ((r.method.take k).drop 15) := by
    refine ⟨?_, fun b hb => hWord.2 b (List.mem_of_mem_drop hb)⟩
    rw [ne_eq, List.drop_eq_nil_iff]
    omega
  refine ⟨((r.method.take k).drop 15).take 511, ?_⟩
  rw [requestFields, bytes, cstr_take_word r.zero_notMem_method, requestFormat,
    sscanf_str_cut (by decide) hWord hLength.le, sscanf, dropWhile_isspace_word hEnd,
    sscanf_last_word (by decide) hEnd isspace_head_cut, List.take_take, Nat.min_eq_left hk.le]
  rfl

/-- The method, the space and `j` bytes of the path have arrived. -/
theorem requestFields_path {j : Nat} (hFits : r.method.length ≤ 15) (hj : 0 < j) :
    requestFields (r.bytes.take (r.method.length + 1 + j)) =
      [r.method, (r.path.take j).take 511] := by
  have hMethod : r.method.take (r.method.length + 1 + j) = r.method :=
    List.take_of_length_le (by omega)
  have hRest : r.method.length + 1 + j - r.method.length = j + 1 := by omega
  rw [requestFields, bytes, cstr_take_word r.zero_notMem_method, requestFormat,
    sscanf_str_word (by rw [hMethod]; exact r.isWord_method) (by rw [hMethod]; exact hFits) _
      isspace_head_cut, hMethod, hRest, List.take_succ_cons]
  -- the space in front of the path
  have hSpace : cstr (32 :: (r.path ++ 32 :: (r.version ++ 13 :: 10 :: r.rest)).take j) =
      32 :: (r.path.take j ++
        cstr ((32 :: (r.version ++ 13 :: 10 :: r.rest)).take (j - r.path.length))) := by
    rw [← cstr_take_word r.zero_notMem_path]
    exact cstr_append_of_notMem (s := [32]) _ (by decide)
  have hPath : sscanf [.space, .str (some 511) true] (32 :: (r.path.take j ++
      cstr ((32 :: (r.version ++ 13 :: 10 :: r.rest)).take (j - r.path.length)))) =
      [.text ((r.path.take j).take 511)] := by
    rw [sscanf_space_word _ (r.isWord_path.take hj)]
    exact sscanf_last_word (by decide) (r.isWord_path.take hj) isspace_head_cut
  rw [hSpace, hPath]
  rfl

end Request

/-! ## Which pieces are answered alike -/

theorem take_eq_iff_of_length_lt {q word : Bytes} {n : Nat} (h : word.length < n) :
    q.take n = word ↔ q = word := by
  constructor
  · intro hTake
    rcases Nat.le_total q.length n with hShort | hLong
    · rw [← hTake, List.take_of_length_le hShort]
    · have hLength := congrArg List.length hTake
      rw [List.length_take] at hLength
      omega
  · rintro rfl
    exact List.take_of_length_le h.le

/-- Cutting a path at its buffer does not make it another route. -/
theorem answerTo_take (rendered method path : Bytes) :
    answerTo rendered method (path.take 511) = answerTo rendered method path := by
  have hMetrics := take_eq_iff_of_length_lt (q := path) (show (ascii "/metrics").length < 511 by decide)
  have hRoot := take_eq_iff_of_length_lt (q := path) (show (ascii "/").length < 511 by decide)
  have hHealth := take_eq_iff_of_length_lt (q := path) (show (ascii "/health").length < 511 by decide)
  simp only [answerTo, hMetrics, hRoot, hHealth]

theorem answerTo_get_cases (rendered path : Bytes) :
    (path = ascii "/metrics" ∧ answerTo rendered (ascii "GET") path = .metrics rendered) ∨
      ((path = ascii "/" ∨ path = ascii "/health") ∧
        answerTo rendered (ascii "GET") path = .alive) ∨
      (path ∉ routes ∧ answerTo rendered (ascii "GET") path = .notFound) := by
  rw [answerTo, if_neg (not_not_intro rfl)]
  by_cases hMetrics : path = ascii "/metrics"
  · exact Or.inl ⟨hMetrics, if_pos hMetrics⟩
  · rw [if_neg hMetrics]
    by_cases hAlive : path = ascii "/" ∨ path = ascii "/health"
    · exact Or.inr (Or.inl ⟨hAlive, if_pos hAlive⟩)
    · refine Or.inr (Or.inr ⟨?_, if_neg hAlive⟩)
      simp only [routes, List.mem_cons, List.not_mem_nil, or_false, not_or]
      exact ⟨fun h => hAlive (Or.inl h), fun h => hAlive (Or.inr h), hMetrics⟩

theorem answerTo_get_eq_metrics_iff {rendered path : Bytes} :
    answerTo rendered (ascii "GET") path = .metrics rendered ↔ path = ascii "/metrics" := by
  rcases answerTo_get_cases rendered path with ⟨rfl, h⟩ | ⟨rfl | rfl, h⟩ | ⟨hRoute, h⟩
  · exact iff_of_true h rfl
  · exact iff_of_false (by rw [h]; exact nofun) (by decide)
  · exact iff_of_false (by rw [h]; exact nofun) (by decide)
  · refine iff_of_false (by rw [h]; exact nofun) ?_
    rintro rfl
    exact hRoute (by decide)

theorem answerTo_get_eq_alive_iff {rendered path : Bytes} :
    answerTo rendered (ascii "GET") path = .alive ↔
      path = ascii "/" ∨ path = ascii "/health" := by
  rcases answerTo_get_cases rendered path with ⟨rfl, h⟩ | ⟨hAlive, h⟩ | ⟨hRoute, h⟩
  · exact iff_of_false (by rw [h]; exact nofun) (by decide)
  · exact iff_of_true h hAlive
  · refine iff_of_false (by rw [h]; exact nofun) ?_
    rintro (rfl | rfl)
    · exact hRoute (by decide)
    · exact hRoute (by decide)

theorem answerTo_get_eq_notFound_iff {rendered path : Bytes} :
    answerTo rendered (ascii "GET") path = .notFound ↔ path ∉ routes := by
  rcases answerTo_get_cases rendered path with ⟨rfl, h⟩ | ⟨rfl | rfl, h⟩ | ⟨hRoute, h⟩
  · exact iff_of_false (by rw [h]; exact nofun) (by decide)
  · exact iff_of_false (by rw [h]; exact nofun) (by decide)
  · exact iff_of_false (by rw [h]; exact nofun) (by decide)
  · exact iff_of_true h hRoute

/-- A path that is cut behind `j` bytes. -/
theorem answerTo_get_take_iff (rendered : Bytes) {path : Bytes} {j : Nat} (hj : 0 < j) :
    answerTo rendered (ascii "GET") (path.take j) = answerTo rendered (ascii "GET") path ↔
      path.length ≤ j ∨ (path = ascii "/health" ∧ j = 1) ∨
        (path ∉ routes ∧ path.take j ∉ routes) := by
  rcases Nat.lt_or_ge j path.length with hCut | hWhole
  · have hLength : (path.take j).length = j := by
      rw [List.length_take]
      omega
    have hShorter : path.take j ≠ path := fun h => by
      rw [h] at hLength
      omega
    -- a proper beginning of a route is another route only for `/` in `/health`
    rcases answerTo_get_cases rendered path with
      ⟨rfl, hAnswer⟩ | ⟨rfl | rfl, hAnswer⟩ | ⟨hRoute, hAnswer⟩
    · rw [hAnswer, answerTo_get_eq_metrics_iff]
      refine iff_of_false hShorter ?_
      rintro (hLe | ⟨hHealth, -⟩ | ⟨hRoute, -⟩)
      · omega
      · exact absurd hHealth (by decide)
      · exact hRoute (by decide)
    · have hOne : (ascii "/").length = 1 := by decide
      omega
    · rw [hAnswer, answerTo_get_eq_alive_iff]
      constructor
      · rintro (hRoot | hHealth)
        · rw [hRoot] at hLength
          exact Or.inr (Or.inl ⟨rfl, hLength.symm⟩)
        · exact absurd hHealth hShorter
      · rintro (hLe | ⟨-, rfl⟩ | ⟨hRoute, -⟩)
        · omega
        · exact Or.inl (by decide)
        · exact absurd (by decide) hRoute
    · rw [hAnswer, answerTo_get_eq_notFound_iff]
      constructor
      · exact fun hTake => Or.inr (Or.inr ⟨hRoute, hTake⟩)
      · rintro (hLe | ⟨rfl, -⟩ | ⟨-, hTake⟩)
        · omega
        · exact absurd (by decide) hRoute
        · exact hTake
  · rw [List.take_of_length_le hWhole]
    exact iff_of_true rfl (Or.inl hWhole)

/-- A request line without a path is always answered in another way. -/
theorem badRequest_ne_answerTo (rendered method path : Bytes) :
    Answer.badRequest ≠ answerTo rendered method path := by
  unfold answerTo
  split
  · exact nofun
  · split
    · exact nofun
    · split <;> exact nofun

namespace Request

variable (r : Request) (rendered : Bytes)

/-- A method that does not fit its buffer is not `GET`, cut or not. -/
theorem answer_take_long_iff (hLong : 15 < r.method.length) {k : Nat} (hk : 0 < k) :
    answerToFields rendered (requestFields (r.bytes.take k)) =
      answerTo rendered r.method r.path ↔ 15 < k := by
  have hOther : ∀ method : Bytes, 15 ≤ method.length → method ≠ ascii "GET" := by
    rintro method hLe rfl
    exact absurd hLe (by decide)
  have hWhole : answerTo rendered r.method r.path = .methodNotAllowed :=
    if_pos (hOther _ hLong.le)
  by_cases hEnough : 15 < k
  · obtain ⟨path, hFields⟩ := r.requestFields_long hLong hEnough
    have hCut : 15 ≤ (r.method.take 15).length := by
      rw [List.length_take]
      omega
    rw [hFields, hWhole]
    exact iff_of_true (if_pos (hOther _ hCut)) hEnough
  · rw [r.requestFields_method hk (Or.inr (by omega)) (by omega)]
    exact iff_of_false (badRequest_ne_answerTo _ _ _) hEnough

/-- Behind the method and a space, only `GET` depends on how much of the path there is. -/
theorem answer_take_path_iff (hFits : r.method.length ≤ 15) {j : Nat} (hj : 0 < j) :
    answerToFields rendered (requestFields (r.bytes.take (r.method.length + 1 + j))) =
        answerTo rendered r.method r.path ↔
      r.method ≠ ascii "GET" ∨ r.path.length ≤ j ∨ (r.path = ascii "/health" ∧ j = 1) ∨
        (r.path ∉ routes ∧ r.path.take j ∉ routes) := by
  rw [r.requestFields_path hFits hj, answerToFields, answerTo_take]
  by_cases hGet : r.method = ascii "GET"
  · rw [hGet, answerTo_get_take_iff rendered hj, or_iff_right (not_not_intro rfl)]
  · have hAnswer : ∀ path, answerTo rendered r.method path = .methodNotAllowed :=
      fun path => if_pos hGet
    rw [hAnswer, hAnswer]
    exact iff_of_true rfl (Or.inl hGet)

/-- A first piece is answered like the whole request line iff it covers it. -/
theorem answer_take_iff {k : Nat} (hk : 0 < k) :
    answerToFields rendered (requestFields (r.bytes.take k)) =
      answerTo rendered r.method r.path ↔ r.Covered k := by
  unfold Covered
  by_cases hLong : 15 < r.method.length
  · rw [if_pos hLong]
    exact r.answer_take_long_iff rendered hLong hk
  · rw [if_neg hLong]
    by_cases hPath : r.method.length + 2 ≤ k
    · obtain ⟨j, rfl⟩ : ∃ j, k = r.method.length + 1 + j := ⟨k - r.method.length - 1, by omega⟩
      rw [r.answer_take_path_iff rendered (by omega) (by omega), and_iff_right hPath,
        Nat.add_le_add_iff_left]
      by_cases hGet : r.method = ascii "GET"
      · -- the method and the space are four bytes
        have hFour : r.method.length + 1 = 4 := by
          rw [hGet]
          decide
        have hOne : 4 + j = 5 ↔ j = 1 := by omega
        rw [hFour, Nat.add_sub_cancel_left, hOne]
      · exact iff_of_true (Or.inl hGet) (Or.inl hGet)
    · rw [r.requestFields_method hk (Or.inl (by omega)) (by omega)]
      exact iff_of_false (badRequest_ne_answerTo _ _ _) fun h => hPath h.1

end Request

/-! ## Responses that can be told apart -/

/-- The parts of a header and the body behind it can be read off. -/
theorem headerText_append_inj {s s' c c' b b' : Bytes} {n n' : Nat} (hs : 13 ∉ s) (hs' : 13 ∉ s')
    (hc : 13 ∉ c) (hc' : 13 ∉ c') (h : headerText s c n ++ b = headerText s' c' n' ++ b') :
    s = s' ∧ c = c' ∧ b = b' := by
  have hDigits : ∀ n, (13 : Byte) ∉ decimal n := fun _ => notMem_decimal (by decide)
  have hType : ascii "\r\nContent-Type: " = 13 :: ascii "\nContent-Type: " := by decide
  have hLength : ascii "\r\nContent-Length: " = 13 :: ascii "\nContent-Length: " := by decide
  have hClose : ascii "\r\nConnection: close\r\n\r\n" =
      13 :: ascii "\nConnection: close\r\n\r\n" := by decide
  simp only [headerText, hType, hLength, hClose, List.append_assoc, List.cons_append] at h
  obtain ⟨hStatus, h⟩ := append_cons_inj hs hs' (List.append_cancel_left h)
  obtain ⟨hContent, h⟩ := append_cons_inj hc hc' (List.append_cancel_left h)
  obtain ⟨-, h⟩ := append_cons_inj (hDigits n) (hDigits n') (List.append_cancel_left h)
  exact ⟨hStatus, hContent, List.append_cancel_left h⟩

/-- What a client takes a response for. -/
def Answer.ofParts (status contentType body : Bytes) : Answer :=
  if contentType = ascii "text/plain; version=0.0.4; charset=utf-8" then .metrics body
  else if status = ascii "200 OK" then .alive
  else if status = ascii "400 Bad Request" then .badRequest
  else if status = ascii "405 Method Not Allowed" then .methodNotAllowed
  else .notFound

theorem Answer.ofParts_self (a : Answer) : Answer.ofParts a.status a.contentType a.body = a := by
  cases a <;> rfl

/-- Different answers are different on the wire. -/
theorem Answer.text_injective : Function.Injective Answer.text := by
  have hStatus : ∀ a : Answer, 13 ∉ a.status := by
    intro a
    cases a <;> simp only [Answer.status] <;> decide
  have hType : ∀ a : Answer, 13 ∉ a.contentType := by
    intro a
    cases a <;> simp only [Answer.contentType] <;> decide
  intro a b h
  obtain ⟨hEq, hEqType, hEqBody⟩ :=
    headerText_append_inj (hStatus a) (hStatus b) (hType a) (hType b) h
  rw [← a.ofParts_self, ← b.ofParts_self, hEq, hEqType, hEqBody]

/-- A call that takes everything. -/
theorem sendAll_sent {n : Nat} {buf : Bytes} (hne : buf ≠ []) (hn : buf.length ≤ n)
    (outcomes : List SendOutcome) : sendAll (.sent n :: outcomes) buf = some ⟨0, buf, outcomes⟩ := by
  obtain ⟨b, buf, rfl⟩ := List.exists_cons_of_ne_nil hne
  obtain ⟨m, rfl⟩ : ∃ m, n = m + 1 := ⟨n - 1, by rw [List.length_cons] at hn; omega⟩
  have hm : buf.length ≤ m := by
    rw [List.length_cons] at hn
    omega
  rw [sendAll, List.drop_of_length_le hm, sendAll_nil, List.take_of_length_le hm]
  simp

/-- Two calls that take everything send the whole response. -/
theorem Answer.send_sent (a : Answer) {n : Nat} (hn : a.text.length ≤ n) :
    a.send [.sent n, .sent n] = some a.text := by
  have hHeader : a.header ≠ [] := List.cons_ne_nil _ _
  rw [Answer.text, List.length_append] at hn
  rw [Answer.send, sendBoth, sendAll_sent hHeader (by omega)]
  by_cases hBody : a.body = []
  · simp only [hBody, sendAll_nil, Option.map_some, Answer.text]
  · simp only [sendAll_sent hBody (show a.body.length ≤ n by omega), Option.map_some, Answer.text]

/-! ## Segmentation -/

namespace Request

variable {r : Request}

theorem Cut.exists_first (c : r.Cut) :
    ∃ first rest, c.chunks = first :: rest ∧ first ≠ [] ∧ r.bytes = first ++ rest.flatten := by
  cases hChunks : c.chunks with
  | nil =>
      have hNil := c.flatten_eq
      rw [hChunks, bytes] at hNil
      simp at hNil
  | cons first rest =>
      refine ⟨first, rest, rfl, c.ne_nil first (by rw [hChunks]; exact List.mem_cons_self), ?_⟩
      rw [← c.flatten_eq, hChunks, List.flatten_cons]

theorem Cut.firstLength_pos (c : r.Cut) : 0 < c.firstLength := by
  obtain ⟨first, rest, hChunks, hFirst, -⟩ := c.exists_first
  rw [firstLength, hChunks]
  exact List.length_pos_iff.mpr hFirst

/-- One call of `recv` brings the first piece. -/
theorem Cut.recv_eq (c : r.Cut) : recv c.chunks 1023 = r.bytes.take c.firstLength := by
  obtain ⟨first, rest, hChunks, -, hBytes⟩ := c.exists_first
  have hLength : r.bytes.length ≤ 1023 := r.length_le
  rw [hBytes, List.length_append] at hLength
  have hFirst : first.length ≤ 1023 := by omega
  rw [recv, firstLength, hChunks, hBytes, List.headD_cons, List.take_of_length_le hFirst,
    List.take_left]

end Request

section Code

variable {D : Type} [CDouble D] [Inhabited D] {o : Oracle} {printf : Printf D} {qsort : Qsort}

/-- **Segmentation.**  Two ways of cutting a request give the same response, and the one
for the whole request line, whatever the socket then takes of it, if and only if both
first pieces cover the request line. -/
theorem handleConn_segments_iff (s : State D) (k : Nat) (r : Request) (c c' : r.Cut) :
    (∀ outcomes,
        ((handleConn o printf qsort s c.chunks outcomes).run k).1 =
          ((handleConn o printf qsort s c'.chunks outcomes).run k).1 ∧
        ((handleConn o printf qsort s c.chunks outcomes).run k).1 =
          (answerTo (renderedBody o printf qsort s k) r.method r.path).send outcomes) ↔
      r.Covered c.firstLength ∧ r.Covered c'.firstLength := by
  set rendered := renderedBody o printf qsort s k
  have hRun : ∀ (c : r.Cut) outcomes, ((handleConn o printf qsort s c.chunks outcomes).run k).1 =
      (answerToFields rendered (requestFields (r.bytes.take c.firstLength))).send outcomes := by
    intro c outcomes
    have hRecv : recv c.chunks 1023 ≠ [] := by
      rw [c.recv_eq, ne_eq, List.take_eq_nil_iff, not_or]
      exact ⟨c.firstLength_pos.ne', by simp [Request.bytes]⟩
    rw [handleConn_run s hRecv, connAnswer, c.recv_eq]
  -- a socket that takes everything tells two answers apart
  have hSent : ∀ a b : Answer, (∀ outcomes, a.send outcomes = b.send outcomes) ↔ a = b := by
    intro a b
    constructor
    · intro h
      have hBoth := h [.sent (a.text.length + b.text.length), .sent (a.text.length + b.text.length)]
      rw [a.send_sent (by omega), b.send_sent (by omega)] at hBoth
      exact Answer.text_injective (Option.some.inj hBoth)
    · rintro rfl outcomes
      rfl
  simp only [hRun, forall_and, hSent]
  rw [← r.answer_take_iff rendered c.firstLength_pos, ← r.answer_take_iff rendered c'.firstLength_pos]
  constructor
  · rintro ⟨hSame, hFirst⟩
    exact ⟨hFirst, hSame ▸ hFirst⟩
  · rintro ⟨hFirst, hSecond⟩
    exact ⟨hFirst.trans hSecond.symm, hFirst⟩

end Code

/-- A scrape. -/
def scrapeRequest : Request where
  method := ascii "GET"
  path := ascii "/metrics"
  version := ascii "HTTP/1.1"
  rest := ascii "Host: localhost:9103\r\n\r\n"
  isWord_method := ⟨by decide, by decide⟩
  isWord_path := ⟨by decide, by decide⟩
  isWord_version := ⟨by decide, by decide⟩
  zero_notMem_method := by decide
  zero_notMem_path := by decide
  length_le := by decide

/-- The scrape in one piece. -/
def scrapeWhole : scrapeRequest.Cut where
  chunks := [scrapeRequest.bytes]
  ne_nil := by decide
  flatten_eq := by decide

/-- The scrape in two pieces that are cut inside the path. -/
def scrapeSplit : scrapeRequest.Cut where
  chunks := [ascii "GET /met", ascii "rics HTTP/1.1\r\nHost: localhost:9103\r\n\r\n"]
  ne_nil := by decide
  flatten_eq := by decide

/-- In one piece the scrape gets the metrics, in two pieces it gets a 404. -/
theorem scrapeSplit_notFound :
    ((handleConn (D := Double) (filledMemory 0) integralPrintf stableQsort State.initial
        scrapeWhole.chunks [.sent 4096, .sent 4096]).run 0).1 =
      some (Answer.text (.metrics [])) ∧
    ((handleConn (D := Double) (filledMemory 0) integralPrintf stableQsort State.initial
        scrapeSplit.chunks [.sent 4096, .sent 4096]).run 0).1 = some (Answer.text .notFound) ∧
    Answer.text (.metrics []) ≠ Answer.text .notFound := by
  have hWhole : requestFields (recv scrapeWhole.chunks 1023) = [ascii "GET", ascii "/metrics"] := by
    decide
  have hSplit : requestFields (recv scrapeSplit.chunks 1023) = [ascii "GET", ascii "/met"] := by
    decide
  refine ⟨?_, ?_, ?_⟩
  · rw [handleConn_run _ (by decide), connAnswer, hWhole]
    exact Answer.send_sent (.metrics []) (by decide)
  · rw [handleConn_run _ (by decide), connAnswer, hSplit]
    exact Answer.send_sent .notFound (by decide)
  · intro h
    exact absurd (Answer.text_injective h) nofun

end SvgdCollect
