import SvgdCollect.Readers.System

/-!
# The socket tables

The kernel writes one line for each TCP socket to `/proc/net/tcp` and `/proc/net/tcp6`,
behind a header: a slot, two addresses, the state in hexadecimal and further fields.
`tcpconns` skips three words and reads the state, so every socket is counted once, in its
own state.
-/

namespace SvgdCollect

open Lib

/-! ## Hexadecimal bytes -/

def hexDigit (d : Nat) : Byte := if d < 10 then (48 + d).toUInt8 else (55 + d).toUInt8

/-- `%02X` of a byte. -/
def hexByte (n : Nat) : Bytes := [hexDigit (n / 16), hexDigit (n % 16)]

theorem isHexDigit_hexDigit {d : Nat} (h : d < 16) :
    isHexDigit (hexDigit d) = true ∧ hexDigitValue (hexDigit d) = d ∧
      hexDigit d ∉ [byte '-', byte '+', byte 'x', byte 'X', newline, 0] ∧
      isspace (hexDigit d) = false := by
  interval_cases d <;> decide

theorem natOfHex_hexByte {n : Nat} (h : n < 256) : natOfHex (hexByte n) = n := by
  obtain ⟨-, hHigh, -⟩ := isHexDigit_hexDigit (show n / 16 < 16 by omega)
  obtain ⟨-, hLow, -⟩ := isHexDigit_hexDigit (show n % 16 < 16 by omega)
  show 16 * (16 * 0 + hexDigitValue (hexDigit (n / 16))) + hexDigitValue (hexDigit (n % 16)) = n
  rw [hHigh, hLow]
  omega

/-- Two digits behind a space are read as the byte they denote. -/
theorem sscanf_hexByte {n : Nat} (h : n < 256) {rest : Bytes}
    (hRest : ∀ b, rest.head? = some b → isHexDigit b = false) :
    sscanf [.space, .hex] (32 :: (hexByte n ++ rest)) = [.num n] := by
  obtain ⟨hHigh, -, hHighOther, hHighSpace⟩ := isHexDigit_hexDigit (show n / 16 < 16 by omega)
  obtain ⟨hLow, -, hLowOther, -⟩ := isHexDigit_hexDigit (show n % 16 < 16 by omega)
  simp only [List.mem_cons, List.not_mem_nil, or_false, not_or] at hHighOther hLowOther
  have hBlank : (32 :: (hexByte n ++ rest)).dropWhile isspace = hexByte n ++ rest := by
    rw [List.dropWhile_cons, if_pos (by decide), hexByte, List.cons_append, List.dropWhile_cons,
      hHighSpace]
    rfl
  have hAgain : (hexByte n ++ rest).dropWhile isspace = hexByte n ++ rest := by
    rw [hexByte, List.cons_append, List.dropWhile_cons, hHighSpace]
    rfl
  have hSign : scanSign (hexByte n ++ rest) = (false, hexByte n ++ rest) := by
    simp [scanSign, hexByte, hHighOther.1, hHighOther.2.1]
  have hDigits : ∀ b ∈ hexByte n, isHexDigit b = true := by
    simp [hexByte, hHigh, hLow]
  have hTake : (hexByte n ++ rest).takeWhile isHexDigit = hexByte n := by
    rw [takeWhile_append_of_head _ _ hRest]
    exact List.takeWhile_eq_self_iff.mpr hDigits
  have hScan : scanHex (hexByte n ++ rest) =
      some ((n : Int), (hexByte n ++ rest).dropWhile isHexDigit) := by
    -- no `0x` in front, since the second byte is a digit
    have hPlain : ¬ (hexDigit (n / 16) = byte '0' ∧
        (hexDigit (n % 16) = byte 'x' ∨ hexDigit (n % 16) = byte 'X')) := by
      simp [hLowOther.2.2.1, hLowOther.2.2.2.1]
    have hText : hexByte n ++ rest = hexDigit (n / 16) :: hexDigit (n % 16) :: rest := rfl
    have hNonempty : hexByte n ≠ [] := List.cons_ne_nil _ _
    rw [scanHex, hSign]
    simp only
    rw [hText]
    simp only [if_neg hPlain]
    rw [← hText, hTake, if_neg (by simp [hNonempty]), natOfHex_hexByte h]
    rfl
  have hValue : toUlong (n : Int) % 2 ^ 32 = n := by
    unfold toUlong
    rw [if_pos (by omega)]
    omega
  rw [sscanf, hBlank, sscanf, hAgain, hScan]
  show [Field.num (toUlong (n : Int) % 2 ^ 32)] = _
  rw [hValue]

/-- `" %*s"`. -/
theorem sscanf_skip_word (ds : List Directive) {blanks word rest : Bytes}
    (hBlanks : ∀ b ∈ blanks, isspace b = true) (h : IsWord word)
    (hRest : ∀ b, rest.head? = some b → isspace b = true) :
    sscanf (.space :: .str none false :: ds) (blanks ++ (word ++ rest)) = sscanf ds rest := by
  have hRun : (word ++ rest).takeWhile (fun b => !isspace b) = word := by
    rw [takeWhile_append_of_head _ _ fun b hb => by rw [hRest b hb]; rfl,
      List.takeWhile_eq_self_iff]
    intro b hb
    rw [h.2 b hb]
    rfl
  rw [sscanf, dropWhile_append_of_all _ hBlanks, dropWhile_isspace_word h, sscanf]
  simp only [dropWhile_isspace_word h, scanToken, hRun, if_neg h.1, List.drop_left]
  rfl

/-! ## Lines -/

/-- A socket as the kernel reports it.  The addresses are words, whatever the family. -/
structure TcpSocket where
  slot : Nat
  localAddress : Bytes
  remoteAddress : Bytes
  state : Nat
  fields : Bytes
  slot_lt : slot < 2 ^ 31
  local_word : IsWord localAddress
  remote_word : IsWord remoteAddress
  state_lt : state < 256
  fields_space : ∀ b, fields.head? = some b → b = 32
  clean : ∀ b ∈ localAddress ++ (remoteAddress ++ fields), b ≠ newline ∧ b ≠ 0
  length : (localAddress ++ (remoteAddress ++ fields)).length ≤ 450

/-- A state that has a name. -/
def TcpSocket.Known (s : TcpSocket) : Prop := 1 ≤ s.state ∧ s.state < 12

instance (s : TcpSocket) : Decidable s.Known := inferInstanceAs (Decidable (_ ∧ _))

namespace TcpSocket

/-- `"%4d: %s %s %02X"` and further fields. -/
def text (s : TcpSocket) : Bytes :=
  padLeft 4 (decimal s.slot) ++ byte ':' :: (32 :: (s.localAddress ++ 32 :: (s.remoteAddress ++
    32 :: (hexByte s.state ++ s.fields))))

theorem isLine_text (s : TcpSocket) : IsLine 512 s.text := by
  have hSlot : (padLeft 4 (decimal s.slot)).length ≤ 10 :=
    length_padLeft_le (by decide) (length_decimal_le (by decide)
      (lt_trans s.slot_lt (by norm_num)))
  have hOther : ∀ b ∈ s.text, b ≠ newline ∧ b ≠ 0 := by
    have hPlain : ∀ b, b = 32 ∨ isdigit b = true ∨ b = byte ':' → b ≠ newline ∧ b ≠ 0 := by
      rintro b (rfl | hDigit | rfl)
      · decide
      · exact ⟨fun h => absurd (h ▸ hDigit) (by decide), fun h => absurd (h ▸ hDigit) (by decide)⟩
      · decide
    have hHex : ∀ b ∈ hexByte s.state, b ≠ newline ∧ b ≠ 0 := by
      have hState := s.state_lt
      have hDigit : ∀ d < 16, hexDigit d ≠ newline ∧ hexDigit d ≠ 0 := by decide
      intro b hb
      simp only [hexByte, List.mem_cons, List.not_mem_nil, or_false] at hb
      rcases hb with rfl | rfl
      · exact hDigit _ (by omega)
      · exact hDigit _ (by omega)
    intro b hb
    simp only [text, List.mem_append, List.mem_cons] at hb
    rcases hb with hb | rfl | rfl | hb | rfl | hb | rfl | hb | hb
    · exact hPlain b ((mem_padLeft hb).imp_right fun h => Or.inl (isdigit_of_mem_decimal h))
    · exact hPlain _ (Or.inr (Or.inr rfl))
    · exact hPlain _ (Or.inl rfl)
    · exact s.clean b (List.mem_append_left _ hb)
    · exact hPlain _ (Or.inl rfl)
    · exact s.clean b (List.mem_append_right _ (List.mem_append_left _ hb))
    · exact hPlain _ (Or.inl rfl)
    · exact hHex b hb
    · exact s.clean b (List.mem_append_right _ (List.mem_append_right _ hb))
  refine ⟨fun h => (hOther _ h).1 rfl, fun h => (hOther _ h).2 rfl, ?_⟩
  have hLength := s.length
  simp only [List.length_append] at hLength
  simp only [text, hexByte, List.length_append, List.length_cons, List.length_nil]
  omega

/-- The reader gets the state, if it knows it. -/
theorem tcpState_text (s : TcpSocket) :
    tcpState (s.text ++ [newline]) =
      if s.Known then some (s.state : Int) else none := by
  have hSlot : IsWord (decimal s.slot ++ [byte ':']) := by
    refine ⟨by simp, fun b hb => ?_⟩
    rcases List.mem_append.mp hb with hb | hb
    · exact not_isspace_of_isdigit (isdigit_of_mem_decimal hb)
    · rw [List.mem_singleton.mp hb]
      decide
  have hBlanks : ∀ b ∈ List.replicate (4 - (decimal s.slot).length) (32 : Byte),
      isspace b = true := by
    intro b hb
    rw [List.eq_of_mem_replicate hb]
    decide
  have hOne : ∀ b ∈ [(32 : Byte)], isspace b = true := by decide
  have hSpace : ∀ (t : Bytes) b, (32 :: t).head? = some b → isspace b = true := by
    intro t b hb
    obtain rfl := Option.some.inj hb
    decide
  have hFields : ∀ b, (s.fields ++ [newline]).head? = some b → isHexDigit b = false := by
    intro b hb
    cases hCases : s.fields with
    | nil =>
        rw [hCases] at hb
        obtain rfl := Option.some.inj hb
        decide
    | cons c fields =>
        rw [hCases] at hb
        obtain rfl := Option.some.inj hb
        rw [s.fields_space c (by rw [hCases]; rfl)]
        decide
  have hText : s.text ++ [newline] =
      List.replicate (4 - (decimal s.slot).length) 32 ++ ((decimal s.slot ++ [byte ':']) ++
        ([32] ++ (s.localAddress ++ ([32] ++ (s.remoteAddress ++
          (32 :: (hexByte s.state ++ (s.fields ++ [newline])))))))) := by
    simp [text, padLeft]
  have hScan : nums (sscanf [.space, .str none false, .space, .str none false, .space,
      .str none false, .space, .hex] (s.text ++ [newline])) = [(s.state : Int)] := by
    have hSpace' : ∀ (t : Bytes) b, ([32] ++ t).head? = some b → isspace b = true := hSpace
    rw [hText, sscanf_skip_word _ hBlanks hSlot (hSpace' _),
      sscanf_skip_word _ hOne s.local_word (hSpace' _),
      sscanf_skip_word _ hOne s.remote_word (hSpace _), sscanf_hexByte s.state_lt hFields]
    rfl
  unfold tcpState
  rw [hScan]
  by_cases hKnown : s.Known
  · obtain ⟨hLow, hHigh⟩ := hKnown
    rw [if_pos ⟨hLow, hHigh⟩]
    exact if_neg (by omega)
  · rw [if_neg hKnown]
    refine if_pos ?_
    unfold Known at hKnown
    omega

end TcpSocket

/-! ## Tables -/

/-- A file of the kernel. -/
structure TcpTable where
  header : Bytes
  sockets : List TcpSocket
  isLine_header : IsLine 512 header

def TcpTable.fileText (t : TcpTable) : Bytes :=
  (t.header :: t.sockets.map TcpSocket.text).flatMap (· ++ [newline])

theorem TcpTable.tcpStates_fileText (t : TcpTable) :
    tcpStates t.fileText = (t.sockets.filter (·.Known)).map fun s => (s.state : Int) := by
  have hLines : ∀ text ∈ t.header :: t.sockets.map TcpSocket.text, IsLine 512 text := by
    intro text hText
    rcases List.mem_cons.mp hText with rfl | hText
    · exact t.isLine_header
    · obtain ⟨s, -, rfl⟩ := List.mem_map.mp hText
      exact s.isLine_text
  rw [tcpStates, fileText, fgetsLines_flatMap hLines, List.map_cons, List.drop_one, List.tail_cons,
    List.map_map, List.filterMap_map]
  induction t.sockets with
  | nil => rfl
  | cons s sockets ih =>
      have hState : (tcpState ∘ ((fun x => x ++ [newline]) ∘ TcpSocket.text)) s = _ :=
        s.tcpState_text
      rw [List.filterMap_cons, hState, List.filter_cons, ih]
      by_cases hKnown : s.Known
      · rw [if_pos hKnown, if_pos (decide_eq_true hKnown)]
        rfl
      · rw [if_neg hKnown, if_neg (by simpa using hKnown)]

/-- How many sockets are in a state. -/
def inState (sockets : List TcpSocket) (i : Nat) : Nat := sockets.countP fun s => s.state = i

theorem count_known_states (sockets : List TcpSocket) {i : Nat} (hi : 1 ≤ i ∧ i < 12) :
    ((sockets.filter (·.Known)).map fun s => (s.state : Int)).count (i : Int) =
      inState sockets i := by
  rw [List.count, List.countP_map, List.countP_filter, inState]
  refine List.countP_congr fun s _ => ?_
  simp only [Function.comp_apply, beq_iff_eq, Int.natCast_inj, Bool.and_eq_true, decide_eq_true_eq]
  constructor
  · exact fun h => h.1
  · intro h
    refine ⟨h, ?_⟩
    rw [TcpSocket.Known, h]
    exact hi

/-- One state more. -/
theorem countP_succ_state (sockets : List TcpSocket) (n : Nat) :
    (sockets.countP fun s => 1 ≤ s.state ∧ s.state < n + 1 + 1) =
      (sockets.countP fun s => 1 ≤ s.state ∧ s.state < n + 1) + inState sockets (1 + n) := by
  unfold inState
  induction sockets with
  | nil => rfl
  | cons s sockets ih =>
      simp only [List.countP_cons, decide_eq_true_eq] at ih ⊢
      split_ifs <;> omega

/-- The sockets in all states up to `n`. -/
theorem sum_inState (sockets : List TcpSocket) (n : Nat) :
    ((List.range' 1 n).map (inState sockets)).sum =
      sockets.countP fun s => 1 ≤ s.state ∧ s.state < n + 1 := by
  induction n with
  | zero =>
      symm
      rw [List.range'_zero, List.map_nil, List.sum_nil, List.countP_eq_zero]
      intro s _
      rw [decide_eq_true_eq]
      omega
  | succ n ih =>
      rw [List.range'_1_concat, List.map_append, List.sum_append, ih, List.map_singleton,
        List.sum_singleton, countP_succ_state]

/-! ## What the reader emits -/

section Read

variable {D : Type} [CDouble D]

/-- One metric for each state that a socket is in. -/
def stateMetrics (sockets : List TcpSocket) : List (Metric D) :=
  (tcpStateNames.zipIdx 1).filterMap fun p =>
    if inState sockets p.2 = 0 then none else some (tcpMetric p.1 (inState sockets p.2))

/-- The sockets of both families. -/
def allSockets (tcp tcp6 : Option TcpTable) : List TcpSocket :=
  (tcp.toList ++ tcp6.toList).flatMap TcpTable.sockets

theorem mem_zipIdx_states {p : Bytes × Nat} (h : p ∈ tcpStateNames.zipIdx 1) :
    1 ≤ p.2 ∧ p.2 < 12 := by
  obtain ⟨hLow, hHigh, -⟩ := List.mem_zipIdx h
  have hLength : tcpStateNames.length = 11 := by decide
  omega

theorem tcpconnsRead_fileText {src : Sources} {base : Bytes} {tcp tcp6 : Option TcpTable}
    (hTcp : src.file (procPath base "/net/tcp") = tcp.map TcpTable.fileText)
    (hTcp6 : src.file (procPath base "/net/tcp6") = tcp6.map TcpTable.fileText)
    (hOne : tcp ≠ none ∨ tcp6 ≠ none) :
    (tcpconnsRead src base : ReadResult D) = .ok (stateMetrics (allSockets tcp tcp6)) := by
  have hOpened : [src.file (procPath base "/net/tcp"),
      src.file (procPath base "/net/tcp6")].filterMap id =
        (tcp.toList ++ tcp6.toList).map TcpTable.fileText := by
    rw [hTcp, hTcp6]
    cases tcp <;> cases tcp6 <;> rfl
  have hSome : (tcp.toList ++ tcp6.toList).map TcpTable.fileText ≠ [] := by
    cases tcp with
    | some t => exact List.cons_ne_nil _ _
    | none =>
        cases tcp6 with
        | some t => exact List.cons_ne_nil _ _
        | none => exact hOne.elim (absurd rfl) (absurd rfl)
  have hStates : ((tcp.toList ++ tcp6.toList).map TcpTable.fileText).flatMap tcpStates =
      ((allSockets tcp tcp6).filter (·.Known)).map fun s => (s.state : Int) := by
    rw [List.flatMap_map, allSockets, List.filter_flatMap, List.map_flatMap]
    exact List.flatMap_congr fun t _ => t.tcpStates_fileText
  rw [tcpconnsRead]
  simp only [hOpened, if_neg hSome, hStates]
  congr 1
  refine List.filterMap_congr fun p hp => ?_
  rw [count_known_states _ (mem_zipIdx_states hp)]

/-- Leaving out the empty states leaves out no socket. -/
theorem sum_stateMetrics (c : Nat → Nat) (states : List (Bytes × Nat)) :
    ((states.filterMap fun p => if c p.2 = 0 then none else some (tcpMetric p.1 (c p.2))).map
      fun m : Metric ℚ => m.values.sum).sum = (((states.map Prod.snd).map c).sum : ℚ) := by
  induction states with
  | nil => rfl
  | cons p states ih =>
      rw [List.filterMap_cons, List.map_cons, List.map_cons, List.sum_cons]
      by_cases hZero : c p.2 = 0
      · rw [if_pos hZero]
        simp only
        rw [ih, hZero, zero_add]
      · have hValue : (tcpMetric p.1 (c p.2) : Metric ℚ).values.sum = c p.2 := by
          show (((c p.2 : ℕ) : ℤ) : ℚ) + 0 = c p.2
          rw [add_zero, Int.cast_natCast]
        rw [if_neg hZero]
        simp only
        rw [List.map_cons, List.sum_cons, ih, hValue, Nat.cast_add]

/-- **Every socket is counted once.**  From the tables of one or both address families the
reader emits one metric for each state that a socket is in, in the order of the states, with
the number of sockets in it over both families; and the numbers add up to the number of
sockets in the states 1 to 11. -/
theorem sockets_are_counted {src : Sources} {base : Bytes} {tcp tcp6 : Option TcpTable}
    (hTcp : src.file (procPath base "/net/tcp") = tcp.map TcpTable.fileText)
    (hTcp6 : src.file (procPath base "/net/tcp6") = tcp6.map TcpTable.fileText)
    (hOne : tcp ≠ none ∨ tcp6 ≠ none) :
    (tcpconnsRead src base : ReadResult D) = .ok (stateMetrics (allSockets tcp tcp6)) ∧
      ((tcpconnsRead src base : ReadResult ℚ).metrics.map fun m => m.values.sum).sum =
        ((allSockets tcp tcp6).countP (·.Known) : ℚ) := by
  refine ⟨tcpconnsRead_fileText hTcp hTcp6 hOne, ?_⟩
  have hNumbers : (tcpStateNames.zipIdx 1).map Prod.snd = List.range' 1 11 := by decide
  rw [tcpconnsRead_fileText hTcp hTcp6 hOne]
  show ((stateMetrics (allSockets tcp tcp6)).map fun m : Metric ℚ => m.values.sum).sum = _
  rw [stateMetrics, sum_stateMetrics, hNumbers, sum_inState]
  rfl

end Read

/-- A server that listens on port 8080 of the loopback address. -/
def listeningSocket : TcpSocket where
  slot := 0
  localAddress := ascii "0100007F:1F90"
  remoteAddress := ascii "00000000:0000"
  state := 10
  fields := ascii " 00000000:00000000 00:00000000 00000000  1000        0 4711"
  slot_lt := by decide
  local_word := ⟨by decide, by decide⟩
  remote_word := ⟨by decide, by decide⟩
  state_lt := by decide
  fields_space := by
    rintro b ⟨⟩
    rfl
  clean := by decide
  length := by decide

/-- A connection of the same server. -/
def establishedSocket : TcpSocket where
  slot := 1
  localAddress := ascii "0100007F:1F90"
  remoteAddress := ascii "0100007F:D431"
  state := 1
  fields := ascii " 00000000:00000000 00:00000000 00000000  1000        0 4712"
  slot_lt := by decide
  local_word := ⟨by decide, by decide⟩
  remote_word := ⟨by decide, by decide⟩
  state_lt := by decide
  fields_space := by
    rintro b ⟨⟩
    rfl
  clean := by decide
  length := by decide

/-- A connection that is not accepted yet, in the state 12 that has no name. -/
def requestSocket : TcpSocket :=
  { establishedSocket with
    slot := 2
    state := 12
    slot_lt := by decide
    state_lt := by decide }

def listeningTable : TcpTable where
  header := ascii "  sl  local_address rem_address   st tx_queue rx_queue tr tm->when"
  sockets := [listeningSocket, establishedSocket, requestSocket]
  isLine_header := ⟨by decide, by decide, by decide⟩

def connectionTable : TcpTable :=
  { listeningTable with sockets := [{ establishedSocket with slot := 0, slot_lt := by decide }] }

/-- A system with both families. -/
def listeningSources : Sources where
  file path :=
    if path = procPath (ascii "/proc") "/net/tcp" then some listeningTable.fileText
    else if path = procPath (ascii "/proc") "/net/tcp6" then some connectionTable.fileText
    else none
  dir _ := none
  statvfs _ := none
  pageSize := 4096
  isFileName := isFileName_of_no_dir

theorem listeningSocket_is_counted :
    (tcpconnsRead listeningSources (ascii "/proc") : ReadResult ℚ) =
        .ok [tcpMetric (ascii "ESTABLISHED") 2, tcpMetric (ascii "LISTEN") 1] ∧
      ((tcpconnsRead listeningSources (ascii "/proc") : ReadResult ℚ).metrics.map fun m =>
        m.values.sum).sum = 3 := by
  have hTcp : listeningSources.file (procPath (ascii "/proc") "/net/tcp") =
      (some listeningTable).map TcpTable.fileText := by
    simp only [listeningSources, if_true, Option.map_some]
  have hTcp6 : listeningSources.file (procPath (ascii "/proc") "/net/tcp6") =
      (some connectionTable).map TcpTable.fileText := by
    have hOther : procPath (ascii "/proc") "/net/tcp6" ≠ procPath (ascii "/proc") "/net/tcp" := by
      decide
    simp only [listeningSources, if_neg hOther, if_true, Option.map_some]
  obtain ⟨hRead, hSum⟩ := @sockets_are_counted ℚ _ _ _ (some listeningTable)
    (some connectionTable) hTcp hTcp6 (Or.inl (Option.some_ne_none _))
  have hKnown : (allSockets (some listeningTable) (some connectionTable)).countP (·.Known) = 3 := by
    decide
  have hMetrics : (stateMetrics (allSockets (some listeningTable) (some connectionTable)) :
      List (Metric ℚ)) = [tcpMetric (ascii "ESTABLISHED") 2, tcpMetric (ascii "LISTEN") 1] := rfl
  rw [hMetrics] at hRead
  rw [hKnown] at hSum
  exact ⟨hRead, by exact_mod_cast hSum⟩

end SvgdCollect
