import SvgdCollect.Http.Address
import SvgdCollect.Http.Sends
import SvgdCollect.Lib.Handles

/-!
# The listener and its thread

`make_listener` binds a socket, `http_metrics_start` starts a thread with it, and
`metrics_thread` serves one connection after another until `g_running` is cleared.  The
model keeps a log of the descriptors, the list of addresses and the block that are
acquired, used and released on the way; the outcomes of the system calls are arbitrary.
-/

namespace SvgdCollect

open Lib Prom

/-- What the listener has to give back: descriptors, the list that `getaddrinfo` returns,
and the block that takes the descriptor to the thread. -/
inductive Handle
  | descriptor (fd : Nat)
  | addresses
  | block
  deriving DecidableEq

/-! ## The start -/

/-- An address in the list, and what `socket` and `bind` report for it. -/
structure Candidate where
  socket : Option Nat
  bind : Bool

/-- What the other calls report; `getaddrinfo` gives nothing if it fails. -/
structure Replies where
  getaddrinfo : Option Bytes → Bytes → Option (List Candidate)
  listen : Bool
  malloc : Bool
  pthreadCreate : Bool

/-- The loop over the addresses: the descriptor that has been bound, and the log. -/
def bindFirst : List Candidate → Option Nat × List (HandleEvent Handle)
  | [] => (none, [])
  | rp :: rest =>
      match rp.socket with
      | none => ((bindFirst rest).1, .use .addresses :: (bindFirst rest).2)
      | some fd =>
          -- two calls of `setsockopt`, and `bind`
          let tried := [.use .addresses, .acquire (.descriptor fd), .use (.descriptor fd),
            .use (.descriptor fd), .use (.descriptor fd)]
          if rp.bind then (some fd, tried)
          else ((bindFirst rest).1, tried ++ .release (.descriptor fd) :: (bindFirst rest).2)

/-- `make_listener`; there is no descriptor where it returns -1. -/
def makeListener (env : Replies) (addr host port : Bytes) :
    Option (Option Nat × List (HandleEvent Handle)) := do
  let (rc, host, port) ← parseAddr addr host 256 port 16
  if rc ≠ 0 then pure (none, [])
  else
    match env.getaddrinfo (if cstr host = [] then none else some (cstr host)) (cstr port) with
    | none => pure (none, [])
    | some res =>
        let (sfd, tried) := bindFirst res
        let log := .acquire .addresses :: (tried ++ [.release .addresses])
        match sfd with
        | none => pure (none, log)
        | some fd =>
            let log := log ++ [.use (.descriptor fd)]
            if env.listen then pure (some fd, log)
            else pure (none, log ++ [.release (.descriptor fd)])

/-- `http_metrics_start`; the second argument is whether `tid` points anywhere.  There is
a descriptor where it returns 0. -/
def httpMetricsStart (env : Replies) (addr : Option Bytes) (tid : Bool) (host port : Bytes) :
    Option (Option Nat × List (HandleEvent Handle)) :=
  match addr with
  | none => some (none, [])
  | some addr =>
      if addr = [] ∨ tid = false then some (none, [])
      else do
        let (sfd, log) ← makeListener env addr host port
        match sfd with
        | none => pure (none, log)
        | some fd =>
            if env.malloc then
              let log := log ++ [.acquire .block, .use .block]
              if env.pthreadCreate then pure (some fd, log)
              else pure (none, log ++ [.release .block, .release (.descriptor fd)])
            else pure (none, log ++ [.release (.descriptor fd)])

/-! ## The thread -/

/-- Where `metrics_thread` stands: at its first statement, at the head of the loop, in
front of a system call, or behind the last one. -/
inductive ThreadPoint
  | entered
  | test
  | polling
  | accepting
  | serving (cfd : Nat)
  | closing (cfd : Nat)
  | closed
  deriving DecidableEq

/-- A statement of the thread, with what the environment contributes to it.  `serve` is
`handle_conn`: the allocations that have been made, what arrives, the outcomes of `send`,
and the bytes that have been handed to the socket when it returns. -/
inductive ThreadMove
  | begin
  | test
  | poll (rc : Int) (pollin : Bool)
  | accept (cfd : Option Nat)
  | serve (k : Nat) (chunks : List Bytes) (outcomes : List SendOutcome) (written : Bytes)
  | close

section Code

variable {D : Type} [CDouble D] [Inhabited D] (o : Oracle) (printf : Printf D) (qsort : Qsort)

/-- One step of the thread that listens on `sfd`, and its part of the log.  The system
gives no descriptor twice. -/
def threadStep (sfd : Nat) (running : Bool) (snap : Prom.State D) (point : ThreadPoint)
    (move : ThreadMove) : Option (ThreadPoint × List (HandleEvent Handle)) :=
  match point, move with
  | .entered, .begin => some (.test, [.use .block, .release .block])
  | .test, .test =>
      if running then some (.polling, []) else some (.closed, [.release (.descriptor sfd)])
  | .polling, .poll rc pollin =>
      some (if rc ≤ 0 then .test else if pollin then .accepting else .test,
        [.use (.descriptor sfd)])
  | .accepting, .accept none => some (.test, [.use (.descriptor sfd)])
  | .accepting, .accept (some cfd) =>
      if cfd = sfd then none
      else some (.serving cfd, [.use (.descriptor sfd), .acquire (.descriptor cfd)])
  | .serving cfd, .serve k chunks outcomes written =>
      if ((handleConn o printf qsort snap chunks outcomes).run k).1 = some written then
        some (.closing cfd, [.use (.descriptor cfd)])
      else none
  | .closing cfd, .close => some (.test, [.release (.descriptor cfd)])
  | _, _ => none

end Code

/-! ## What the start leaves behind -/

/-- An address that a socket can be bound to. -/
def Candidate.usable (c : Candidate) : Bool := c.socket.isSome && c.bind

/-- The handle of a descriptor that may not be there. -/
def held (sfd : Option Nat) : List Handle := sfd.toList.map Handle.descriptor

/-- The first of them is taken, and only its socket is left open. -/
theorem bindFirst_spec (res : List Candidate) :
    (bindFirst res).1 = (res.find? Candidate.usable).bind Candidate.socket ∧
      audit [Handle.addresses] (bindFirst res).2 =
        some (held (bindFirst res).1 ++ [.addresses]) := by
  induction res with
  | nil => exact ⟨rfl, rfl⟩
  | cons rp rest ih =>
      obtain ⟨hFound, hAudit⟩ := ih
      cases hSocket : rp.socket with
      | none =>
          have hSkip : ¬ rp.usable = true := by simp [Candidate.usable, hSocket]
          simp only [bindFirst, hSocket, List.find?_cons_of_neg hSkip]
          exact ⟨hFound, hAudit⟩
      | some fd =>
          -- the socket is open while `bind` is called
          have hTried : audit [Handle.addresses] [.use .addresses, .acquire (.descriptor fd),
              .use (.descriptor fd), .use (.descriptor fd), .use (.descriptor fd)] =
              some [.descriptor fd, .addresses] := by
            simp [audit, run, HandleEvent.step]
          cases hBind : rp.bind with
          | true =>
              have hTake : rp.usable = true := by simp [Candidate.usable, hSocket, hBind]
              simp only [bindFirst, hSocket, hBind, if_true, List.find?_cons_of_pos hTake,
                Option.bind_some]
              exact ⟨trivial, hTried⟩
          | false =>
              have hSkip : ¬ rp.usable = true := by simp [Candidate.usable, hBind]
              simp only [bindFirst, hSocket, hBind, Bool.false_eq_true, if_false,
                List.find?_cons_of_neg hSkip]
              refine ⟨hFound, ?_⟩
              have hClosed : audit [Handle.descriptor fd, .addresses]
                  (.release (.descriptor fd) :: (bindFirst rest).2) =
                  audit [Handle.addresses] (bindFirst rest).2 := by
                simp [audit, run, HandleEvent.step]
              rw [audit_append hTried, hClosed]
              exact hAudit

/-- Around the loop the list of addresses is acquired and released. -/
theorem audit_bindFirst (res : List Candidate) :
    audit [] (.acquire .addresses :: ((bindFirst res).2 ++ [.release .addresses])) =
      some (held (bindFirst res).1) := by
  have hFree : audit (held (bindFirst res).1 ++ [.addresses]) [.release .addresses] =
      some (held (bindFirst res).1) := by
    cases (bindFirst res).1 <;> simp [audit, run, HandleEvent.step, held]
  rw [← hFree, ← audit_append (bindFirst_spec res).2]
  rfl

/-- The descriptor that a listener on an address gets: that of the first address of its
host and port that a socket can be bound to. -/
def Binds (env : Replies) (addr : Bytes) (fd : Nat) : Prop :=
  env.listen = true ∧ ∃ h p res, IsListenAddr addr h p ∧
    env.getaddrinfo (if bareHost h = [] then none else some (bareHost h)) p = some res ∧
    (res.find? Candidate.usable).bind Candidate.socket = some fd

theorem Binds.addr_ne_nil {env : Replies} {addr : Bytes} {fd : Nat} (h : Binds env addr fd) :
    addr ≠ [] := by
  obtain ⟨-, h, p, -, ⟨rfl, -⟩, -⟩ := h
  simp

/-- There is one way to read an address. -/
theorem binds_iff {env : Replies} {addr h p : Bytes} (hAddr : IsListenAddr addr h p) {fd : Nat} :
    Binds env addr fd ↔ env.listen = true ∧ ∃ res,
      env.getaddrinfo (if bareHost h = [] then none else some (bareHost h)) p = some res ∧
      (res.find? Candidate.usable).bind Candidate.socket = some fd := by
  refine and_congr_right fun _ => ⟨?_, ?_⟩
  · rintro ⟨h', p', res, hAddr', hRes⟩
    obtain ⟨rfl, rfl⟩ := hAddr.unique hAddr'.1 hAddr'.2.1.2.2
    exact ⟨res, hRes⟩
  · rintro ⟨res, hRes⟩
    exact ⟨h, p, res, hAddr, hRes⟩

theorem bareHost_subset {h : Bytes} : bareHost h ⊆ h := by
  unfold bareHost
  split
  · exact List.Subset.trans (List.dropLast_subset _) (List.tail_subset _)
  · exact List.Subset.refl _

theorem Lib.HoldsText.cstr_eq {buf text : Bytes} (h : HoldsText buf text) (hText : 0 ∉ text) :
    cstr buf = text := by
  obtain ⟨rest, rfl⟩ := h
  exact cstr_append_zero rest hText

variable {env : Replies} {addr host port : Bytes}

/-- `make_listener` leaves nothing open but the descriptor that it returns. -/
theorem makeListener_audit {sfd : Option Nat} {log : List (HandleEvent Handle)}
    (h : makeListener env addr host port = some (sfd, log)) : audit [] log = some (held sfd) := by
  obtain ⟨⟨rc, host', port'⟩, -, h⟩ := Option.bind_eq_some_iff.mp h
  dsimp only at h
  split at h
  · cases h
    rfl
  · split at h
    · cases h
      rfl
    · rename_i res hResolved
      have hAudit := audit_bindFirst res
      cases hBound : (bindFirst res).1 with
      | none =>
          rw [hBound] at hAudit
          simp only [hBound] at h
          cases h
          exact hAudit
      | some fd =>
          rw [hBound] at hAudit
          simp only [hBound] at h
          split at h
          · cases h
            rw [audit_append hAudit]
            simp [audit, run, HandleEvent.step, held]
          · cases h
            rw [List.append_assoc, audit_append hAudit]
            simp [audit, run, HandleEvent.step, held]

/-- What `make_listener` returns. -/
theorem makeListener_exact (env : Replies) (hAddr : 0 ∉ addr) (hHost : host.length = 256)
    (hPort : port.length = 16) :
    ∃ sfd log, makeListener env addr host port = some (sfd, log) ∧
      ∀ fd, sfd = some fd ↔ Binds env addr fd := by
  by_cases hValid : ∃ h p, IsListenAddr addr h p
  · obtain ⟨h, p, hSplit⟩ := hValid
    have hParts := hSplit
    obtain ⟨rfl, ⟨hNonempty, hp, hDigits⟩, hh⟩ := hParts
    obtain ⟨host', port', hRun, -, -, hHost', hPort'⟩ :=
      parseAddr_of_valid hHost hPort (List.ne_nil_of_length_pos hNonempty) hDigits
        (by omega : p.length < 16) (by omega : h.length < 256)
    rw [List.mem_append, List.mem_cons, not_or, not_or] at hAddr
    have hName : cstr host' = bareHost h :=
      hHost'.cstr_eq fun hMem => hAddr.1 (bareHost_subset hMem)
    have hService : cstr port' = p := hPort'.cstr_eq hAddr.2.2
    simp only [makeListener, hRun, Option.bind_eq_bind, Option.bind_some, hName, hService,
      ne_eq, not_true_eq_false, if_false, binds_iff hSplit]
    cases hResolved : env.getaddrinfo (if bareHost h = [] then none else some (bareHost h)) p with
    | none => exact ⟨none, [], rfl, by simp⟩
    | some res =>
        obtain ⟨hFound, -⟩ := bindFirst_spec res
        cases hBound : (bindFirst res).1 with
        | none =>
            rw [hBound] at hFound
            simp only [hBound]
            exact ⟨none, _, rfl, fun fd => by simp [← hFound]⟩
        | some fd =>
            rw [hBound] at hFound
            simp only [hBound]
            cases hListen : env.listen with
            | true => exact ⟨some fd, _, rfl, fun fd' => by simp [← hFound]⟩
            | false => exact ⟨none, _, rfl, fun fd' => by simp⟩
  · obtain ⟨port', hRun, -⟩ := @parseAddr_refused addr host port hPort hValid
    simp only [makeListener, hRun, Option.bind_eq_bind, Option.bind_some]
    refine ⟨none, [], rfl, fun fd => iff_of_false nofun ?_⟩
    rintro ⟨-, h, p, -, hSplit, -⟩
    exact hValid ⟨h, p, hSplit⟩

/-- What the thread has been given when it starts. -/
def given (sfd : Option Nat) : List Handle :=
  match sfd with
  | none => []
  | some fd => [.block, .descriptor fd]

/-- Whatever fails on the way, only what the thread is given is left. -/
theorem httpMetricsStart_audit {addr : Option Bytes} {tid : Bool} {started : Option Nat}
    {log : List (HandleEvent Handle)}
    (h : httpMetricsStart env addr tid host port = some (started, log)) :
    audit [] log = some (given started) := by
  cases addr with
  | none =>
      cases h
      rfl
  | some addr =>
      simp only [httpMetricsStart] at h
      split at h
      · cases h
        rfl
      · obtain ⟨⟨sfd, opened⟩, hListener, h⟩ := Option.bind_eq_some_iff.mp h
        have hAudit := makeListener_audit hListener
        cases sfd with
        | none =>
            cases h
            exact hAudit
        | some fd =>
            dsimp only at h
            split at h
            · split at h
              · cases h
                rw [audit_append hAudit]
                simp [audit, run, HandleEvent.step, held, given]
              · cases h
                rw [List.append_assoc, audit_append hAudit]
                simp [audit, run, HandleEvent.step, held, given]
            · cases h
              rw [audit_append hAudit]
              simp [audit, run, HandleEvent.step, held, given]

/-- When `http_metrics_start` returns 0. -/
theorem httpMetricsStart_result (env : Replies) {addr host port : Bytes} (hAddr : 0 ∉ addr)
    (tid : Bool) (hHost : host.length = 256) (hPort : port.length = 16) :
    ∃ started log, httpMetricsStart env (some addr) tid host port = some (started, log) ∧
      ∀ fd, started = some fd ↔
        tid = true ∧ Binds env addr fd ∧ env.malloc = true ∧ env.pthreadCreate = true := by
  by_cases hRefused : addr = [] ∨ tid = false
  · refine ⟨none, [], by simp [httpMetricsStart, hRefused], fun fd => iff_of_false nofun ?_⟩
    rintro ⟨hTid, hBinds, -⟩
    rcases hRefused with hEmpty | hNull
    · exact hBinds.addr_ne_nil hEmpty
    · rw [hTid] at hNull
      cases hNull
  · obtain ⟨sfd, log, hListener, hExact⟩ := makeListener_exact env hAddr hHost hPort
    have hTid : tid = true := by
      rw [not_or] at hRefused
      simpa using hRefused.2
    simp only [httpMetricsStart, if_neg hRefused, hListener, Option.bind_eq_bind,
      Option.bind_some, ← hExact]
    cases sfd with
    | none => exact ⟨none, log, rfl, by simp⟩
    | some fd =>
        dsimp only
        cases hMalloc : env.malloc with
        | false => exact ⟨none, _, rfl, by simp⟩
        | true =>
            cases hThread : env.pthreadCreate with
            | false => exact ⟨none, _, rfl, by simp⟩
            | true => exact ⟨some fd, _, rfl, by simp [hTid]⟩

/-- **The start of the listener.**  Whatever the system calls report, `http_metrics_start`
has a result and its log no misuse.  It returns 0 exactly if the address is well formed and
resolved, one of its sockets could be bound and made to listen, and the block and the thread
were to be had; the thread then gets the socket of the first usable address, and the block.
In every other case nothing is left open. -/
theorem httpMetricsStart_exact (env : Replies) {addr host port : Bytes} (hAddr : 0 ∉ addr)
    (tid : Bool) (hHost : host.length = 256) (hPort : port.length = 16) :
    ∃ started log, httpMetricsStart env (some addr) tid host port = some (started, log) ∧
      audit [] log = some (given started) ∧
      ∀ fd, started = some fd ↔
        tid = true ∧ Binds env addr fd ∧ env.malloc = true ∧ env.pthreadCreate = true := by
  obtain ⟨started, log, hStart, hExact⟩ := httpMetricsStart_result env hAddr tid hHost hPort
  exact ⟨started, log, hStart, httpMetricsStart_audit hStart, hExact⟩

/-- Every interface, where the first address has no socket. -/
def secondAddress : Replies :=
  { getaddrinfo := fun _ _ => some [⟨none, false⟩, ⟨some 4, true⟩]
    listen := true, malloc := true, pthreadCreate := true }

theorem start_on_secondAddress :
    ∃ log, httpMetricsStart secondAddress (some (ascii ":9100")) true (List.replicate 256 0)
        (List.replicate 16 0) = some (some 4, log) ∧
      audit [] log = some [.block, .descriptor 4] := by
  have hBinds : Binds secondAddress (ascii ":9100") 4 :=
    ⟨rfl, [], ascii "9100", _, by unfold IsListenAddr; decide, rfl, rfl⟩
  obtain ⟨started, log, hStart, hAudit, hExact⟩ := httpMetricsStart_exact secondAddress
    (show 0 ∉ ascii ":9100" by decide) true (@List.length_replicate Byte 256 0)
    (@List.length_replicate Byte 16 0)
  have hStarted : started = some 4 := (hExact 4).mpr ⟨rfl, hBinds, rfl, rfl⟩
  rw [hStarted] at hStart hAudit
  exact ⟨log, hStart, hAudit⟩

/-! ## What the thread holds -/

/-- What has to be given back from here on. -/
def ThreadPoint.held (sfd : Nat) : ThreadPoint → List Handle
  | .entered => [.block, .descriptor sfd]
  | .serving cfd => [.descriptor cfd, .descriptor sfd]
  | .closing cfd => [.descriptor cfd, .descriptor sfd]
  | .closed => []
  | _ => [.descriptor sfd]

section Code

variable {D : Type} [CDouble D] [Inhabited D] {o : Oracle} {printf : Printf D} {qsort : Qsort}
  {sfd : Nat} {running : Bool} {snap : Prom.State D} {point point' : ThreadPoint}
  {move : ThreadMove} {log : List (HandleEvent Handle)}

/-- A step handles what is held at its point correctly. -/
theorem threadStep_audit
    (h : threadStep o printf qsort sfd running snap point move = some (point', log)) :
    audit (point.held sfd) log = some (point'.held sfd) := by
  unfold threadStep at h
  split at h
  case h_1 =>
    cases h
    simp [audit, run, HandleEvent.step, ThreadPoint.held]
  case h_2 =>
    split at h <;> cases h <;> simp [audit, run, HandleEvent.step, ThreadPoint.held]
  case h_3 rc pollin =>
    cases h
    have hHeld : (if rc ≤ 0 then ThreadPoint.test else if pollin then .accepting else .test).held
        sfd = [.descriptor sfd] := by
      split
      · rfl
      · split <;> rfl
    rw [hHeld]
    simp [audit, run, HandleEvent.step, ThreadPoint.held]
  case h_4 =>
    cases h
    simp [audit, run, HandleEvent.step, ThreadPoint.held]
  case h_5 cfd =>
    split at h
    · cases h
    · rename_i hFresh
      cases h
      simp [audit, run, HandleEvent.step, ThreadPoint.held, hFresh]
  case h_6 =>
    split at h
    · cases h
      simp [audit, run, HandleEvent.step, ThreadPoint.held]
    · cases h
  case h_7 =>
    cases h
    simp [audit, run, HandleEvent.step, ThreadPoint.held]
  case h_8 => cases h

theorem threadStep_serve {cfd k : Nat} {chunks : List Bytes} {outcomes : List SendOutcome}
    {written : Bytes}
    (h : ((handleConn o printf qsort snap chunks outcomes).run k).1 = some written) :
    threadStep o printf qsort sfd running snap (.serving cfd)
      (.serve k chunks outcomes written) = some (.closing cfd, [.use (.descriptor cfd)]) := by
  simp only [threadStep, h, if_true]

/-- The bytes of a response are those of `handle_conn`. -/
theorem served {k : Nat} {chunks : List Bytes} {outcomes : List SendOutcome} {written : Bytes}
    (h : threadStep o printf qsort sfd running snap point (.serve k chunks outcomes written) =
      some (point', log)) :
    ((handleConn o printf qsort snap chunks outcomes).run k).1 = some written := by
  cases point with
  | serving cfd =>
      simp only [threadStep] at h
      split at h
      · assumption
      · cases h
  | _ => cases h

/-- The thread can go on as long as it has not returned. -/
theorem threadStep_exists (hPoint : point ≠ .closed) :
    ∃ move point' log, threadStep o printf qsort sfd running snap point move =
      some (point', log) := by
  cases point with
  | entered => exact ⟨.begin, _, _, rfl⟩
  | test =>
      cases running with
      | true => exact ⟨.test, _, _, rfl⟩
      | false => exact ⟨.test, _, _, rfl⟩
  | polling => exact ⟨.poll 0 false, _, _, rfl⟩
  | accepting => exact ⟨.accept none, _, _, rfl⟩
  | serving cfd => exact ⟨.serve 0 [] [] [], _, _, threadStep_serve rfl⟩
  | closing cfd => exact ⟨.close, _, _, rfl⟩
  | closed => exact absurd rfl hPoint

/-- The statements up to the end of the thread, if `g_running` is cleared at once. -/
def ThreadPoint.rank : ThreadPoint → ℕ
  | .entered => 6
  | .polling => 5
  | .accepting => 4
  | .serving _ => 3
  | .closing _ => 2
  | .test => 1
  | .closed => 0

/-- Once `g_running` is cleared, every step leads towards the end. -/
theorem threadStep_rank
    (h : threadStep o printf qsort sfd false snap point move = some (point', log)) :
    point'.rank < point.rank := by
  unfold threadStep at h
  split at h
  case h_2 =>
    rw [if_neg Bool.false_ne_true] at h
    cases h
    decide
  case h_3 =>
    cases h
    split
    · decide
    · split <;> decide
  case h_5 =>
    split at h
    · cases h
    · cases h
      exact Nat.lt_succ_self _
  case h_6 =>
    split at h
    · cases h
      exact Nat.lt_succ_self _
    · cases h
  all_goals cases h
  all_goals simp [ThreadPoint.rank]

end Code

end SvgdCollect
