import SvgdCollect.Lib.Cells

/-!
# The listen address

`parse_addr` splits `host:port` at the last colon and strips the brackets of an IPv6
host.  The model stores into the caller's two buffers cell by cell, and it has no result
where the code would leave a buffer or compute a negative length: that there always is a
result is part of what is proved.
-/

namespace SvgdCollect

open Lib

/-! ## The code -/

/-- The host part of `parse_addr`, of `hlen` bytes: copied, terminated, and its brackets
taken off in place. -/
def storeHost (addr host : Bytes) (hlen : Nat) : Option Bytes := do
  let host ← poke host 0 (addr.take hlen)
  let host ← poke host hlen [0]
  let first ← peek host 0 1
  let last ← peek host (hlen - 1) 1
  if first = [byte '['] ∧ last = [byte ']'] then
    let len ← lengthSub hlen 2
    let moved ← peek host 1 len
    let host ← poke host 0 moved
    poke host len [0]
  else some host

/-- `parse_addr`: the return value and the two buffers behind it. -/
def parseAddr (addr host : Bytes) (hsz : Nat) (port : Bytes) (psz : Nat) :
    Option (Int × Bytes × Bytes) :=
  match strrchr addr (byte ':') with
  | none => some (-1, host, port)
  | some colon =>
      let pp := colon.drop 1
      if pp = [] then some (-1, host, port)
      else if pp.any (fun q => q < byte '0' || q > byte '9') then some (-1, host, port)
      else if pp.length ≥ psz then some (-1, host, port)
      else do
        let port ← poke port 0 (snprintfCells psz pp)
        let hlen ← lengthSub addr.length colon.length
        if hlen = 0 then
          -- an empty host stands for every interface
          let host ← poke host 0 [0]
          some (0, host, port)
        else if hlen ≥ hsz then some (-1, host, port)
        else
          let host ← storeHost addr host hlen
          some (0, host, port)

/-! ## The grammar -/

/-- The text is `h`, a colon, and a port of 1 to 15 digits; the host is at most 255 bytes
long. -/
def IsListenAddr (addr h p : Bytes) : Prop :=
  addr = h ++ byte ':' :: p ∧ (1 ≤ p.length ∧ p.length ≤ 15 ∧ ∀ b ∈ p, isdigit b = true) ∧
    h.length ≤ 255

/-- The host without the brackets of an IPv6 literal. -/
def bareHost (h : Bytes) : Bytes :=
  if h.head? = some (byte '[') ∧ h.getLast? = some (byte ']') then h.tail.dropLast else h

/-! ## Storing the host -/

/-- A text with a bracket at each end has two different ends, so its length is at
least 2. -/
theorem brackets_iff {h : Bytes} :
    h.head? = some (byte '[') ∧ h.getLast? = some (byte ']') ↔
      ∃ v, h = byte '[' :: (v ++ [byte ']']) := by
  constructor
  · rintro ⟨hFirst, hLast⟩
    obtain ⟨front, rfl⟩ := List.getLast?_eq_some_iff.mp hLast
    cases front with
    | nil => exact absurd hFirst (by decide)
    | cons a v =>
        have ha : a = byte '[' := by simpa using hFirst
        exact ⟨v, by rw [ha, List.cons_append]⟩
  · rintro ⟨v, rfl⟩
    refine ⟨rfl, ?_⟩
    rw [← List.cons_append, List.getLast?_concat]

theorem bareHost_brackets (v : Bytes) : bareHost (byte '[' :: (v ++ [byte ']'])) = v := by
  rw [bareHost, if_pos (brackets_iff.mpr ⟨v, rfl⟩), List.tail_cons, List.dropLast_concat]

theorem bareHost_of_ne {h : Bytes} (hBrackets : ∀ v, h ≠ byte '[' :: (v ++ [byte ']'])) :
    bareHost h = h := by
  rw [bareHost]
  apply if_neg
  intro hEnds
  obtain ⟨v, hv⟩ := brackets_iff.mp hEnds
  exact hBrackets v hv

/-- The move by one cell and the second NUL. -/
theorem moveHost_eq_some (v rest : Bytes) :
    ∃ moved host, peek (byte '[' :: (v ++ [byte ']']) ++ 0 :: rest) 1 v.length = some v ∧
      poke (byte '[' :: (v ++ [byte ']']) ++ 0 :: rest) 0 v = some moved ∧
      poke moved v.length [0] = some host ∧ HoldsText host v ∧
      host.length = (byte '[' :: (v ++ [byte ']']) ++ 0 :: rest).length := by
  -- the moved text ends one cell before the place where it stood
  obtain ⟨old, x, hOld⟩ : ∃ old x, byte '[' :: v = old ++ [x] :=
    ⟨_, _, (List.dropLast_append_getLast (List.cons_ne_nil (byte '[') v)).symm⟩
  have hLength : v.length = old.length := by
    simpa using congrArg List.length hOld
  have hCells : byte '[' :: (v ++ [byte ']']) ++ 0 :: rest =
      old ++ (x :: byte ']' :: 0 :: rest) := by
    rw [← List.cons_append, hOld]
    simp
  refine ⟨v ++ (x :: byte ']' :: 0 :: rest), v ++ 0 :: byte ']' :: 0 :: rest, ?_, ?_, ?_,
    ⟨_, rfl⟩, ?_⟩
  · simpa using peek_eq_some [byte '['] v (byte ']' :: 0 :: rest)
  · rw [hCells]
    exact poke_eq_some [] _ hLength
  · exact @poke_eq_some v _ [x] [0] rfl
  · simp only [List.cons_append, List.length_cons, List.length_append, List.length_nil]
    omega

theorem peek_head {h : Bytes} {a : Byte} (hFirst : h.head? = some a) (rest : Bytes) :
    peek (h ++ rest) 0 1 = some [a] := by
  obtain ⟨t, rfl⟩ := List.head?_eq_some_iff.mp hFirst
  exact peek_eq_some [] [a] (t ++ rest)

theorem peek_getLast {h : Bytes} {z : Byte} (hLast : h.getLast? = some z) (rest : Bytes) :
    peek (h ++ rest) (h.length - 1) 1 = some [z] := by
  obtain ⟨front, rfl⟩ := List.getLast?_eq_some_iff.mp hLast
  rw [List.length_append, List.length_singleton, Nat.add_sub_cancel, List.append_assoc]
  exact peek_eq_some front [z] rest

/-- The host is stored without its brackets and with its NUL, and nothing outside the
buffer is touched. -/
theorem storeHost_eq_some {h host : Bytes} (t : Bytes) (hNonempty : h ≠ [])
    (hLength : h.length < host.length) :
    ∃ host', storeHost (h ++ t) host h.length = some host' ∧ host'.length = host.length ∧
      HoldsText host' (bareHost h) := by
  obtain ⟨copied, rest, hRest, hCopy, hZero⟩ := copy_eq_some hLength
  have hFirst : h.head? = some (h.head hNonempty) := List.head?_eq_some_head hNonempty
  have hLast : h.getLast? = some (h.getLast hNonempty) := List.getLast?_eq_getLast_of_ne_nil hNonempty
  have hEnds : ([h.head hNonempty] = [byte '['] ∧ [h.getLast hNonempty] = [byte ']']) ↔
      ∃ v, h = byte '[' :: (v ++ [byte ']']) := by
    rw [← brackets_iff, hFirst, hLast]
    simp only [List.cons.injEq, and_true, Option.some.injEq]
  unfold storeHost
  simp only [List.take_left, hCopy, hZero, peek_head hFirst, peek_getLast hLast,
    Option.bind_eq_bind, Option.bind_some]
  by_cases hBrackets : ∃ v, h = byte '[' :: (v ++ [byte ']'])
  · rw [if_pos (hEnds.mpr hBrackets)]
    obtain ⟨v, rfl⟩ := hBrackets
    obtain ⟨moved, host', hPeek, hMove, hEnd, hHolds, hSame⟩ := moveHost_eq_some v rest
    have hSub : lengthSub (byte '[' :: (v ++ [byte ']'])).length 2 = some v.length := by
      rw [lengthSub, if_pos (by simp)]
      simp
    refine ⟨host', ?_, hSame.trans hRest, ?_⟩
    · simp only [hSub, hPeek, hMove, hEnd, Option.bind_some]
    · rw [bareHost_brackets]
      exact hHolds
  · rw [if_neg fun hBoth => hBrackets (hEnds.mp hBoth)]
    refine ⟨_, rfl, hRest, rest, ?_⟩
    rw [bareHost_of_ne fun v hv => hBrackets ⟨v, hv⟩]

/-! ## Parsing -/

/-- The port is scanned for a byte that is no digit. -/
theorem any_nondigit_iff {p : Bytes} :
    p.any (fun q => q < byte '0' || q > byte '9') = true ↔ ¬ ∀ b ∈ p, isdigit b = true := by
  have hByte : ∀ q : Byte, (q < byte '0' || q > byte '9') = !isdigit q := by
    intro q
    simp only [isdigit, Bool.not_and, ← decide_not, UInt8.not_le]
    rfl
  simp only [hByte, List.any_eq_true, Bool.not_eq_true', not_forall, Bool.not_eq_true, exists_prop]

theorem colon_notMem_digits {p : Bytes} (hDigits : ∀ b ∈ p, isdigit b = true) : byte ':' ∉ p :=
  fun hMem => absurd (hDigits _ hMem) (by decide)

section Parsing

variable {h p host port : Bytes} {hsz psz : Nat}

/-- An address of the grammar is split into its host and its port. -/
theorem parseAddr_of_valid (hHost : host.length = hsz) (hPort : port.length = psz)
    (hNonempty : p ≠ []) (hDigits : ∀ b ∈ p, isdigit b = true) (hp : p.length < psz)
    (hh : h.length < hsz) :
    ∃ host' port', parseAddr (h ++ byte ':' :: p) host hsz port psz = some (0, host', port') ∧
      host'.length = hsz ∧ port'.length = psz ∧ HoldsText host' (bareHost h) ∧
        HoldsText port' p := by
  obtain ⟨port', hPoke, hPort', hHolds⟩ := poke_text (hPort ▸ hp : p.length < port.length)
  have hSub : lengthSub (h ++ byte ':' :: p).length (byte ':' :: p).length = some h.length := by
    rw [lengthSub, if_pos (by simp)]
    simp
  unfold parseAddr
  simp only [strrchr_append_cons h (colon_notMem_digits hDigits), List.drop_succ_cons,
    List.drop_zero, if_neg hNonempty, any_nondigit_iff, if_neg (not_not_intro hDigits), if_neg (not_le.mpr hp),
    snprintfCells_of_lt hp, hPoke, hSub, Option.bind_eq_bind, Option.bind_some]
  by_cases hEmpty : h = []
  · subst hEmpty
    obtain ⟨host', hHostPoke, hSame, hHost'⟩ :=
      poke_text (hHost ▸ hh : ([] : Bytes).length < host.length)
    rw [List.nil_append] at hHostPoke
    rw [List.length_nil, if_pos rfl, hHostPoke]
    exact ⟨host', port', rfl, hSame.trans hHost, hPort'.trans hPort, hHost', hHolds⟩
  · have hLength : h.length ≠ 0 := fun hZero => hEmpty (List.eq_nil_of_length_eq_zero hZero)
    obtain ⟨host', hStore, hSame, hHost'⟩ :=
      storeHost_eq_some (byte ':' :: p) hEmpty (hHost ▸ hh : h.length < host.length)
    rw [if_neg hLength, if_neg (not_le.mpr hh), hStore]
    exact ⟨host', port', rfl, hSame.trans hHost, hPort'.trans hPort, hHost', hHolds⟩

/-- Any other text with a colon is refused; the port may have been stored by then. -/
theorem parseAddr_of_invalid (hPort : port.length = psz) (hColon : byte ':' ∉ p)
    (hInvalid : p = [] ∨ (¬ ∀ b ∈ p, isdigit b = true) ∨ psz ≤ p.length ∨ hsz ≤ h.length)
    (hsz_pos : 0 < hsz) :
    ∃ port', parseAddr (h ++ byte ':' :: p) host hsz port psz = some (-1, host, port') ∧
      port'.length = psz := by
  unfold parseAddr
  simp only [strrchr_append_cons h hColon, List.drop_succ_cons, List.drop_zero, any_nondigit_iff]
  by_cases hEmpty : p = []
  · rw [if_pos hEmpty]
    exact ⟨port, rfl, hPort⟩
  by_cases hDigits : ∀ b ∈ p, isdigit b = true
  case neg =>
    rw [if_neg hEmpty, if_pos hDigits]
    exact ⟨port, rfl, hPort⟩
  by_cases hp : psz ≤ p.length
  · rw [if_neg hEmpty, if_neg (not_not_intro hDigits), if_pos hp]
    exact ⟨port, rfl, hPort⟩
  have hh : hsz ≤ h.length := by
    rcases hInvalid with hNil | hNot | hLong | hHost
    · exact absurd hNil hEmpty
    · exact absurd hDigits hNot
    · exact absurd hLong hp
    · exact hHost
  obtain ⟨port', hPoke, hPort', -⟩ :=
    poke_text (hPort ▸ not_le.mp hp : p.length < port.length)
  have hSub : lengthSub (h ++ byte ':' :: p).length (byte ':' :: p).length = some h.length := by
    rw [lengthSub, if_pos (by simp)]
    simp
  rw [if_neg hEmpty, if_neg (not_not_intro hDigits), if_neg hp,
    snprintfCells_of_lt (not_le.mp hp), hPoke, hSub]
  simp only [Option.bind_eq_bind, Option.bind_some]
  rw [if_neg (by omega), if_pos hh]
  exact ⟨port', rfl, hPort'.trans hPort⟩

end Parsing

/-- The split at the last colon is the only one with digits behind it. -/
theorem IsListenAddr.unique {addr h p h' p' : Bytes} (hAddr : IsListenAddr addr h p)
    (hEq : addr = h' ++ byte ':' :: p') (hDigits' : ∀ b ∈ p', isdigit b = true) :
    h' = h ∧ p' = p := by
  obtain ⟨rfl, ⟨-, -, hDigits⟩, -⟩ := hAddr
  have hSplit := append_cons_inj_right (colon_notMem_digits hDigits)
    (colon_notMem_digits hDigits') hEq
  exact ⟨hSplit.1.symm, hSplit.2.symm⟩

/-- Any other text is refused and the host is not touched. -/
theorem parseAddr_refused {addr host port : Bytes} (hPort : port.length = 16)
    (hInvalid : ¬ ∃ h p, IsListenAddr addr h p) :
    ∃ port', parseAddr addr host 256 port 16 = some (-1, host, port') ∧ port'.length = 16 := by
  rcases strrchr_cases addr (byte ':') with ⟨-, hNone⟩ | ⟨h, p, rfl, hColon, -⟩
  · refine ⟨port, ?_, hPort⟩
    rw [parseAddr, hNone]
  · apply parseAddr_of_invalid hPort hColon _ (by decide)
    by_contra hNot
    simp only [not_or, not_not, not_le] at hNot
    obtain ⟨hNe, hDigits, hp, hh⟩ := hNot
    exact hInvalid ⟨h, p, rfl,
      ⟨List.length_pos_of_ne_nil hNe, Nat.le_of_lt_succ hp, hDigits⟩, Nat.le_of_lt_succ hh⟩

/-- The listener's buffers have 256 and 16 bytes.  For every text there is a result: no
cell outside them is touched and no length on the way is negative.  It is 0 exactly for
the addresses of the grammar, with the port and the host, without the brackets of an
IPv6 literal, as the strings in the two buffers, and -1 for every other text. -/
theorem parseAddr_exact (addr : Bytes) {host port : Bytes} (hHost : host.length = 256)
    (hPort : port.length = 16) :
    ∃ rc host' port', parseAddr addr host 256 port 16 = some (rc, host', port') ∧
      host'.length = 256 ∧ port'.length = 16 ∧
      (rc = 0 ↔ ∃ h p, IsListenAddr addr h p) ∧ (rc ≠ 0 → rc = -1) ∧
      (∀ h p, IsListenAddr addr h p → HoldsText port' p ∧
        (∀ v, h = byte '[' :: (v ++ [byte ']']) → HoldsText host' v) ∧
        ((∀ v, h ≠ byte '[' :: (v ++ [byte ']'])) → HoldsText host' h)) ∧
      (∀ v p, addr = byte '[' :: (v ++ byte ']' :: byte ':' :: p) → v.length ≤ 253 →
        1 ≤ p.length → p.length ≤ 15 → (∀ b ∈ p, isdigit b = true) →
        rc = 0 ∧ HoldsText host' v ∧ HoldsText port' p) := by
  by_cases hValid : ∃ h p, IsListenAddr addr h p
  · obtain ⟨h, p, hAddr⟩ := hValid
    have hParts := hAddr
    obtain ⟨rfl, ⟨hNonempty, hp, hDigits⟩, hh⟩ := hParts
    have hNe : p ≠ [] := fun hNil => by simp [hNil] at hNonempty
    obtain ⟨host', port', hRun, hHost', hPort', hHoldsHost, hHoldsPort⟩ :=
      parseAddr_of_valid hHost hPort hNe hDigits (by omega : p.length < 16)
        (by omega : h.length < 256)
    refine ⟨0, host', port', hRun, hHost', hPort', iff_of_true rfl ⟨h, p, hAddr⟩,
      fun hNot => absurd rfl hNot, ?_, ?_⟩
    · rintro h' p' ⟨hEq, ⟨-, -, hDigits'⟩, -⟩
      obtain ⟨rfl, rfl⟩ := hAddr.unique hEq hDigits'
      refine ⟨hHoldsPort, ?_, ?_⟩
      · rintro v rfl
        rwa [bareHost_brackets] at hHoldsHost
      · intro hPlain
        rwa [bareHost_of_ne hPlain] at hHoldsHost
    · intro v p' hEq _ _ _ hDigits'
      obtain ⟨rfl, rfl⟩ := @IsListenAddr.unique _ _ _ (byte '[' :: (v ++ [byte ']'])) p' hAddr
        (by simpa using hEq) hDigits'
      rw [bareHost_brackets] at hHoldsHost
      exact ⟨rfl, hHoldsHost, hHoldsPort⟩
  · obtain ⟨port', hRun, hPort'⟩ := @parseAddr_refused addr host port hPort hValid
    refine ⟨-1, host, port', hRun, hHost, hPort', iff_of_false (by decide) hValid, fun _ => rfl,
      fun h p hAddr => absurd ⟨h, p, hAddr⟩ hValid, ?_⟩
    intro v p hEq hv hNonempty hp hDigits
    refine absurd ⟨byte '[' :: (v ++ [byte ']']), p, ?_, ⟨hNonempty, hp, hDigits⟩, ?_⟩ hValid
    · simpa using hEq
    · simp only [List.length_cons, List.length_append, List.length_nil]
      omega

/-- An IPv6 address with a port, read into two buffers of zeros. -/
theorem parseAddr_of_loopback :
    ∃ host' port',
      parseAddr (ascii "[::1]:9100") (List.replicate 256 0) 256 (List.replicate 16 0) 16 =
        some (0, host', port') ∧ HoldsText host' (ascii "::1") ∧ HoldsText port' (ascii "9100") := by
  obtain ⟨rc, host', port', hRun, -, -, -, -, -, hLiteral⟩ :=
    parseAddr_exact (ascii "[::1]:9100") (@List.length_replicate Byte 256 0)
      (@List.length_replicate Byte 16 0)
  obtain ⟨rfl, hHost, hPort⟩ := hLiteral (ascii "::1") (ascii "9100") (by decide) (by decide)
    (by decide) (by decide) (by decide)
  exact ⟨host', port', hRun, hHost, hPort⟩

end SvgdCollect
