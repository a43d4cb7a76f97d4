import SvgdCollect.Lib.Scan
import SvgdCollect.Prom.EntryPoints

/-!
# The metrics listener

`handle_conn` answers one connection: it receives once, reads a method and a path
from what has arrived, and sends a header and a body.

The socket is modelled by what its calls report.  The request arrives in chunks, one
per call of `recv`.  A call of `send` takes some bytes, is interrupted, or fails; the
outcomes of the successive calls are a list, and a run that needs more of them than
there are has not returned.
-/

namespace SvgdCollect

open Lib Prom

/-! ## The code -/

/-- What a call of `send` reports: the most bytes it takes, `EINTR`, or another error,
a timeout included. -/
inductive SendOutcome
  | sent (n : Nat)
  | eintr
  | error
  deriving DecidableEq

/-- The return value of `send_all`, the bytes the socket took, and the outcomes that are
left for later calls. -/
structure SendResult where
  rc : Int
  taken : Bytes
  unused : List SendOutcome
  deriving DecidableEq

/-- `send_all`; `none` if it has not returned yet. -/
def sendAll : List SendOutcome → Bytes → Option SendResult
  | outcomes, [] => some ⟨0, [], outcomes⟩
  | [], _ :: _ => none
  | .eintr :: outcomes, b :: buf => sendAll outcomes (b :: buf)
  | .error :: outcomes, _ :: _ => some ⟨-1, [], outcomes⟩
  | .sent 0 :: outcomes, _ :: _ => some ⟨-1, [], outcomes⟩
  | .sent (n + 1) :: outcomes, b :: buf =>
      (sendAll outcomes (buf.drop n)).map fun r => { r with taken := b :: buf.take n ++ r.taken }

/-- The two calls of `send_all` for a header and a body.  Nobody looks at the result of
the first one. -/
def sendBoth (hdr body : Bytes) (outcomes : List SendOutcome) : Option Bytes :=
  match sendAll outcomes hdr with
  | none => none
  | some first => (sendAll first.unused body).map fun second => first.taken ++ second.taken

/-- The lines of a header.  `snprintf` cuts none of them, see `snprintf_header`. -/
def headerText (status contentType : Bytes) (blen : Nat) : Bytes :=
  ascii "HTTP/1.1 " ++ (status ++ (ascii "\r\nContent-Type: " ++ (contentType ++
    (ascii "\r\nContent-Length: " ++ (decimal blen ++ ascii "\r\nConnection: close\r\n\r\n")))))

/-- The header of `send_simple`. -/
def simpleHeader (code : Nat) (reason : Bytes) (blen : Nat) : Bytes :=
  headerText (decimal code ++ 32 :: reason) (ascii "text/plain; charset=utf-8") blen

/-- `send_simple`. -/
def sendSimple (code : Nat) (reason body : Bytes) : List SendOutcome → Option Bytes :=
  sendBoth (simpleHeader code reason body.length) body

/-- The header in front of the metrics. -/
def metricsHeader (blen : Nat) : Bytes :=
  headerText (ascii "200 OK") (ascii "text/plain; version=0.0.4; charset=utf-8") blen

/-- One call of `recv` for at most `n` bytes; nothing if it fails or the peer has closed. -/
def recv (chunks : List Bytes) (n : Nat) : Bytes := (chunks.headD []).take n

/-- The format `"%15s %511s"`. -/
def requestFormat : List Directive := [.str (some 15) true, .space, .str (some 511) true]

/-- The method and the path, if there are both. -/
def requestFields (req : Bytes) : List Bytes := texts (sscanf requestFormat (cstr req))

section Code

variable {D : Type} [CDouble D] [Inhabited D] (o : Oracle) (printf : Printf D) (qsort : Qsort)

/-- `handle_conn`: the bytes it has handed to the socket when it returns. -/
def handleConn (s : State D) (chunks : List Bytes) (outcomes : List SendOutcome) :
    Alloc (Option Bytes) :=
  let req := recv chunks 1023
  if req = [] then pure (some [])
  else
    match requestFields req with
    | [method, path] =>
        if strcmp method (ascii "GET") ≠ 0 then
          pure (sendSimple 405 (ascii "Method Not Allowed") (ascii "method not allowed\n") outcomes)
        else if strcmp path (ascii "/metrics") = 0 then do
          let block ← promRender o printf qsort s
          let body := (block.map cstr).getD []
          let hdr := metricsHeader body.length
          if body.length > 0 then pure (sendBoth hdr body outcomes)
          else pure ((sendAll outcomes hdr).map SendResult.taken)
        else if strcmp path (ascii "/") = 0 ∨ strcmp path (ascii "/health") = 0 then
          pure (sendSimple 200 (ascii "OK") (ascii "svgd-collect\n") outcomes)
        else pure (sendSimple 404 (ascii "Not Found") (ascii "not found\n") outcomes)
    | _ => pure (sendSimple 400 (ascii "Bad Request") (ascii "bad request\n") outcomes)

end Code

/-! ## Answers -/

/-- What a request is answered with. -/
inductive Answer
  | badRequest
  | methodNotAllowed
  | metrics (body : Bytes)
  | alive
  | notFound

def Answer.body : Answer → Bytes
  | .badRequest => ascii "bad request\n"
  | .methodNotAllowed => ascii "method not allowed\n"
  | .metrics body => body
  | .alive => ascii "svgd-collect\n"
  | .notFound => ascii "not found\n"

def Answer.status : Answer → Bytes
  | .badRequest => ascii "400 Bad Request"
  | .methodNotAllowed => ascii "405 Method Not Allowed"
  | .metrics _ => ascii "200 OK"
  | .alive => ascii "200 OK"
  | .notFound => ascii "404 Not Found"

def Answer.contentType : Answer → Bytes
  | .metrics _ => ascii "text/plain; version=0.0.4; charset=utf-8"
  | _ => ascii "text/plain; charset=utf-8"

def Answer.header (a : Answer) : Bytes := headerText a.status a.contentType a.body.length

/-- The whole response. -/
def Answer.text (a : Answer) : Bytes := a.header ++ a.body

def Answer.send (a : Answer) (outcomes : List SendOutcome) : Option Bytes :=
  sendBoth a.header a.body outcomes

/-- The answer to a method and a path, where `rendered` is the text of the metrics. -/
def answerTo (rendered method path : Bytes) : Answer :=
  if method ≠ ascii "GET" then .methodNotAllowed
  else if path = ascii "/metrics" then .metrics rendered
  else if path = ascii "/" ∨ path = ascii "/health" then .alive
  else .notFound

/-- The answer to the fields that were read. -/
def answerToFields (rendered : Bytes) : List Bytes → Answer
  | [method, path] => answerTo rendered method path
  | _ => .badRequest

/-- The header announces the length of the body. -/
theorem contentLength_header (a : Answer) :
    ascii "\r\nContent-Length: " ++ (decimal a.body.length ++ ascii "\r\n") <:+: a.header := by
  refine ⟨ascii "HTTP/1.1 " ++ (a.status ++ (ascii "\r\nContent-Type: " ++ a.contentType)),
    ascii "Connection: close\r\n\r\n", ?_⟩
  rw [Answer.header, headerText]
  simp only [List.append_assoc]
  rfl

/-- Every header fits the buffer of 256 bytes it is printed to. -/
theorem length_header_lt {a : Answer} (h : a.body.length < 2 ^ 64) : a.header.length < 256 := by
  have hStatus : a.status.length ≤ 22 := by
    cases a <;> simp only [Answer.status] <;> decide
  have hType : a.contentType.length ≤ 40 := by
    cases a <;> simp only [Answer.contentType] <;> decide
  have hDigits : (decimal a.body.length).length ≤ 20 :=
    length_decimal_le (by decide) (lt_trans h (by norm_num))
  have hProtocol : (ascii "HTTP/1.1 ").length = 9 := by decide
  have hContentType : (ascii "\r\nContent-Type: ").length = 16 := by decide
  have hContentLength : (ascii "\r\nContent-Length: ").length = 18 := by decide
  have hConnection : (ascii "\r\nConnection: close\r\n\r\n").length = 23 := by decide
  rw [Answer.header, headerText]
  simp only [List.length_append, hProtocol, hContentType, hContentLength, hConnection]
  omega

/-- What is sent of the buffer, up to the return value of `snprintf`, is the whole header. -/
theorem snprintf_header {a : Answer} (h : a.body.length < 2 ^ 64) :
    (snprintf 256 a.header).take (snprintfReturn a.header).toNat = a.header := by
  have hLength := length_header_lt h
  rw [snprintf_of_lt hLength, snprintfReturn, if_pos (by omega), Int.toNat_natCast,
    List.take_length]

theorem sendAll_nil (outcomes : List SendOutcome) :
    sendAll outcomes [] = some ⟨0, [], outcomes⟩ := by
  cases outcomes <;> rfl

/-- An empty body is not sent, which is what sending it does. -/
theorem sendBoth_nil (hdr : Bytes) (outcomes : List SendOutcome) :
    sendBoth hdr [] outcomes = (sendAll outcomes hdr).map SendResult.taken := by
  unfold sendBoth
  cases sendAll outcomes hdr with
  | none => rfl
  | some first =>
      simp only [sendAll_nil, Option.map_some, List.append_nil]

/-- So the check in front of the body of the metrics makes no difference. -/
theorem pure_sendBoth (hdr body : Bytes) (outcomes : List SendOutcome) :
    (if body.length > 0 then pure (sendBoth hdr body outcomes)
      else pure ((sendAll outcomes hdr).map SendResult.taken) : Alloc (Option Bytes)) =
      pure (sendBoth hdr body outcomes) := by
  split
  · rfl
  · rename_i hEmpty
    rw [List.eq_nil_of_length_eq_zero (Nat.eq_zero_of_not_pos hEmpty), sendBoth_nil]

section Code

variable {D : Type} [CDouble D] [Inhabited D] (o : Oracle) (printf : Printf D) (qsort : Qsort)

/-- The text of `prom_render` after `k` allocations. -/
def renderedBody (s : State D) (k : Nat) : Bytes :=
  (((promRender o printf qsort s).run k).1.map cstr).getD []

/-- The answer to what the first call of `recv` has brought. -/
def connAnswer (s : State D) (k : Nat) (chunks : List Bytes) : Answer :=
  answerToFields (renderedBody o printf qsort s k) (requestFields (recv chunks 1023))

variable {o printf qsort}

/-- With memory available it is the text of the published metrics. -/
theorem renderedBody_eq (ho : o.Succeeds) (hSort : SortsFamilies qsort) {s : State D}
    {metrics : List (Metric D)} (hStrings : ∀ m ∈ metrics, CInstances m)
    (hPublished : contentsAt s.heap s.published = metrics.map copyMetric) (k : Nat) :
    renderedBody o printf qsort s k = snapshotText printf qsort (metrics.map copyMetric) := by
  have hText := @promRender_yields D _ _ o printf qsort ho hSort s metrics hStrings hPublished k
  unfold renderedBody
  cases hBlock : ((promRender o printf qsort s).run k).1 with
  | none =>
      rw [hBlock] at hText
      obtain ⟨-, rest, hNone⟩ := hText
      cases hNone
  | some block =>
      rw [hBlock] at hText
      exact hText.cstr_eq

/-- A connection with a request is answered, and the answer is sent in two parts. -/
theorem handleConn_run (s : State D) {chunks : List Bytes} (hRecv : recv chunks 1023 ≠ [])
    (outcomes : List SendOutcome) (k : Nat) :
    ((handleConn o printf qsort s chunks outcomes).run k).1 =
      (connAnswer o printf qsort s k chunks).send outcomes := by
  unfold handleConn connAnswer
  simp only [if_neg hRecv]
  generalize requestFields (recv chunks 1023) = fields
  match fields with
  | [] => rfl
  | [_] => rfl
  | _ :: _ :: _ :: _ => rfl
  | [method, path] =>
      simp only [answerToFields, answerTo, strcmp_eq_zero_iff, ne_eq]
      by_cases hGet : method = ascii "GET"
      · simp only [hGet, not_true_eq_false, if_false]
        by_cases hMetrics : path = ascii "/metrics"
        · simp only [if_pos hMetrics]
          simp only [pure_sendBoth]
          rfl
        · simp only [if_neg hMetrics]
          by_cases hAlive : path = ascii "/" ∨ path = ascii "/health"
          · simp only [if_pos hAlive]
            rfl
          · simp only [if_neg hAlive]
            rfl
      · simp only [if_pos hGet]
        rfl

end Code

end SvgdCollect
