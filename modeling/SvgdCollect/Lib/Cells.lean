import SvgdCollect.Lib.Numerals

/-!
# Memory cells

A buffer as the list of its cells, read and written with a check of its bounds, and the
string functions as they walk over it.  A pointer is the list of the cells from there to
the end of the buffer, so that reading at the empty list is an access past the end; such
an access has no result.

On a buffer that holds a string with its NUL the functions have a result, which is that
of the functions on strings, and they do not depend on the cells behind the NUL.
-/

namespace SvgdCollect
namespace Lib

/-! ## Loads and stores -/

/-- The `n` cells at `i`; `none` if they are not all inside the buffer. -/
def peek (buf : Bytes) (i n : Nat) : Option Bytes :=
  if i + n ≤ buf.length then some ((buf.drop i).take n) else none

/-- The buffer with `cells` stored at `i`; `none` if they do not fit inside. -/
def poke (buf : Bytes) (i : Nat) (cells : Bytes) : Option Bytes :=
  if i + cells.length ≤ buf.length then
    some (buf.take i ++ (cells ++ buf.drop (i + cells.length)))
  else none

/-- The length `m - n`; `none` if it is negative. -/
def lengthSub (m n : Nat) : Option Nat := if n ≤ m then some (m - n) else none

/-- The buffer begins with `text` and its NUL. -/
def HoldsText (buf text : Bytes) : Prop := ∃ rest, buf = text ++ 0 :: rest

theorem peek_eq_some (front cells rest : Bytes) :
    peek (front ++ (cells ++ rest)) front.length cells.length = some cells := by
  rw [peek, if_pos (by simp only [List.length_append]; omega), List.drop_left, List.take_left]

/-- A store that fits replaces as many cells as it stores. -/
theorem poke_eq_some (front rest : Bytes) {old cells : Bytes} (h : cells.length = old.length) :
    poke (front ++ (old ++ rest)) front.length cells = some (front ++ (cells ++ rest)) := by
  have hRest : (front ++ (old ++ rest)).drop (front.length + old.length) = rest := by
    rw [← List.append_assoc, ← List.length_append, List.drop_left]
  rw [poke, h, if_pos (by simp only [List.length_append]; omega), List.take_left, hRest]

/-- The first store into a buffer, at its front. -/
theorem poke_front {buf cells : Bytes} (h : cells.length ≤ buf.length) :
    ∃ rest, rest.length + cells.length = buf.length ∧ poke buf 0 cells = some (cells ++ rest) := by
  refine ⟨buf.drop cells.length, by rw [List.length_drop]; omega, ?_⟩
  rw [poke, if_pos (by omega), List.take_zero, List.nil_append, Nat.zero_add]

/-- Stores at several places, one after the other. -/
def pokeAll (buf : Bytes) : List (Nat × Bytes) → Option Bytes
  | [] => some buf
  | (i, cells) :: rest => (poke buf i cells).bind fun buf => pokeAll buf rest

theorem length_of_poke_eq_some {buf buf' cells : Bytes} {i : Nat} (h : poke buf i cells = some buf') :
    buf'.length = buf.length := by
  unfold poke at h
  split at h
  · rw [← Option.some.inj h]
    simp only [List.length_append, List.length_take, List.length_drop]
    omega
  · cases h

theorem length_of_pokeAll_eq_some {buf buf' : Bytes} {stores : List (Nat × Bytes)}
    (h : pokeAll buf stores = some buf') : buf'.length = buf.length := by
  induction stores generalizing buf with
  | nil => rw [Option.some.inj h]
  | cons w stores ih =>
      obtain ⟨mid, hPoke, hRest⟩ := Option.bind_eq_some_iff.mp h
      rw [ih hRest, length_of_poke_eq_some hPoke]

theorem pokeAll_append (buf : Bytes) (first second : List (Nat × Bytes)) :
    pokeAll buf (first ++ second) = (pokeAll buf first).bind (pokeAll · second) := by
  induction first generalizing buf with
  | nil => rfl
  | cons w first ih =>
      rw [List.cons_append, pokeAll, pokeAll, Option.bind_assoc]
      simp only [ih]

theorem pokeAll_isSome {buf : Bytes} {stores : List (Nat × Bytes)}
    (h : ∀ w ∈ stores, w.1 + w.2.length ≤ buf.length) : ∃ buf', pokeAll buf stores = some buf' := by
  induction stores generalizing buf with
  | nil => exact ⟨buf, rfl⟩
  | cons w stores ih =>
      rw [List.forall_mem_cons] at h
      have hPoke : poke buf w.1 w.2 =
          some (buf.take w.1 ++ (w.2 ++ buf.drop (w.1 + w.2.length))) := if_pos h.1
      obtain ⟨buf', hRest⟩ := @ih (buf.take w.1 ++ (w.2 ++ buf.drop (w.1 + w.2.length))) (by
        rw [length_of_poke_eq_some hPoke]
        exact h.2)
      refine ⟨buf', ?_⟩
      rw [pokeAll, hPoke]
      exact hRest

/-- A text stored at the front of a buffer together with its NUL. -/
theorem poke_text {buf text : Bytes} (h : text.length < buf.length) :
    ∃ buf', poke buf 0 (text ++ [0]) = some buf' ∧ buf'.length = buf.length ∧
      HoldsText buf' text := by
  obtain ⟨rest, hRest, hPoke⟩ := @poke_front buf (text ++ [0]) (by simp; omega)
  refine ⟨_, hPoke, ?_, rest, by simp⟩
  rw [List.length_append]
  omega

/-- A `memcpy` and the NUL behind it, where there is a cell left for the NUL. -/
theorem copy_eq_some {text buf : Bytes} (hLength : text.length < buf.length) :
    ∃ copied rest, (text ++ 0 :: rest).length = buf.length ∧ poke buf 0 text = some copied ∧
      poke copied text.length [0] = some (text ++ 0 :: rest) := by
  obtain ⟨rest, hRest, hCopy⟩ := poke_front hLength.le
  match rest with
  | [] => simp at hRest; omega
  | c :: rest =>
      refine ⟨_, rest, by simpa [Nat.add_comm] using hRest, hCopy, ?_⟩
      exact @poke_eq_some text rest [c] [0] rfl

/-- `memcpy(out, p, len)` and the NUL at `out[len]`. -/
def copyText (p : Bytes) (len : Nat) (out : Bytes) : Option Bytes := do
  let text ← peek p 0 len
  let out ← poke out 0 text
  poke out len [0]

/-- It does not depend on what follows the text. -/
theorem copyText_eq_some {s out : Bytes} {len : Nat} (hs : len ≤ s.length)
    (hOut : len < out.length) :
    ∃ out', (∀ t, copyText (s ++ t) len out = some out') ∧ out'.length = out.length ∧
      HoldsText out' (s.take len) := by
  have hLen : (s.take len).length = len := List.length_take_of_le hs
  obtain ⟨copied, rest, hLength, hCopy, hZero⟩ :=
    copy_eq_some (hLen.symm ▸ hOut : (s.take len).length < out.length)
  rw [hLen] at hZero
  refine ⟨_, ?_, hLength, ⟨rest, rfl⟩⟩
  intro t
  have hPeek : peek (s ++ t) 0 len = some (s.take len) := by
    rw [peek, if_pos (by rw [List.length_append]; omega), List.drop_zero,
      List.take_append_of_le_length hs]
  simp only [copyText, hPeek, hCopy, Option.bind_eq_bind, Option.bind_some, hZero]

/-! ## The string functions -/

/-- `strchr` over cells. -/
def strchrCells : Bytes → Byte → Option (Option Bytes)
  | [], _ => none
  | b :: s, c => if b = c then some (some (b :: s)) else if b = 0 then some none else strchrCells s c

/-- Whether the key stands at a pointer; the comparison ends at the first difference. -/
def startsCells : Bytes → Bytes → Option Bool
  | _, [] => some true
  | [], _ :: _ => none
  | b :: s, k :: key => if b = k then startsCells s key else some false

/-- `strstr` over cells. -/
def strstrCells : Bytes → Bytes → Option (Option Bytes)
  | [], _ => none
  | b :: s, key => do
      if ← startsCells (b :: s) key then some (some (b :: s))
      else if b = 0 then some none
      else strstrCells s key

/-- The longest run of cells with a property, and the pointer behind it. -/
def spanCells (p : Byte → Bool) : Bytes → Option (Bytes × Bytes)
  | [] => none
  | b :: s => if p b then (spanCells p s).map fun r => (b :: r.1, r.2) else some ([], b :: s)

/-- `atoi` over cells: white space, a sign, digits. -/
def atoiCells (s : Bytes) : Option Int := do
  let (_, s) ← spanCells isspace s
  let sign ← s.head?
  let t := if sign = byte '-' ∨ sign = byte '+' then s.tail else s
  let (digits, _) ← spanCells isdigit t
  let n : Int := natOfDigits digits
  some (toInt32 (clampLong (if sign = byte '-' then -n else n)))

/-- `p + n`, which may point behind the last cell but not further. -/
def advance (p : Bytes) (n : Nat) : Option Bytes := if n ≤ p.length then some (p.drop n) else none

section Terminated

variable {s : Bytes} (rest : Bytes)

theorem strchrCells_eq {c : Byte} (hc : c ≠ 0) (hs : 0 ∉ s) :
    strchrCells (s ++ 0 :: rest) c = some ((strchr s c).map (· ++ 0 :: rest)) := by
  induction s with
  | nil => simp [strchrCells, strchr, Ne.symm hc]
  | cons b s ih =>
      obtain ⟨hb, hs⟩ := List.ne_and_not_mem_of_not_mem_cons hs
      rw [List.cons_append, strchrCells, strchr]
      by_cases hbc : b = c
      · simp [hbc]
      · rw [if_neg hbc, if_neg (Ne.symm hb), if_neg hbc, ih hs]

theorem startsCells_eq {key : Bytes} (hKey : 0 ∉ key) :
    startsCells (s ++ 0 :: rest) key = some (decide (key <+: s)) := by
  induction key generalizing s with
  | nil =>
      cases s <;> simp [startsCells]
  | cons k key ih =>
      obtain ⟨hk, hKey⟩ := List.ne_and_not_mem_of_not_mem_cons hKey
      cases s with
      | nil => simp [startsCells, hk]
      | cons b s =>
          rw [List.cons_append, startsCells]
          by_cases hbk : b = k
          · simp [hbk, ih hKey]
          · simp [hbk, Ne.symm hbk]

theorem strstrCells_eq {key : Bytes} (hNonempty : key ≠ []) (hKey : 0 ∉ key) (hs : 0 ∉ s) :
    strstrCells (s ++ 0 :: rest) key = some ((strstr s key).map (· ++ 0 :: rest)) := by
  induction s with
  | nil =>
      have hStarts : startsCells (0 :: rest) key = some (decide (key <+: [])) :=
        startsCells_eq (s := []) rest hKey
      simp [strstrCells, strstr, hStarts, hNonempty]
  | cons b s ih =>
      obtain ⟨hb, hs⟩ := List.ne_and_not_mem_of_not_mem_cons hs
      have hStarts : startsCells (b :: (s ++ 0 :: rest)) key = some (decide (key <+: b :: s)) :=
        startsCells_eq (s := b :: s) rest hKey
      rw [List.cons_append, strstrCells, strstr, hStarts]
      by_cases hAt : key <+: b :: s
      · simp [hAt]
      · simp [hAt, Ne.symm hb, ih hs]

theorem spanCells_eq {p : Byte → Bool} (hp : p 0 = false) :
    spanCells p (s ++ 0 :: rest) = some (s.takeWhile p, s.dropWhile p ++ 0 :: rest) := by
  induction s with
  | nil => simp [spanCells, hp]
  | cons b s ih =>
      rw [List.cons_append, spanCells]
      by_cases hb : p b
      · simp [hb, ih]
      · simp [hb]

/-- The value `atoi` converts, which is 0 where there are no digits. -/
theorem atoi_eq (s : Bytes) :
    atoi s =
      let t := s.dropWhile isspace
      let negative := t.head? = some (byte '-')
      let digits := (if negative ∨ t.head? = some (byte '+') then t.tail else t).takeWhile isdigit
      toInt32 (clampLong (if negative then -natOfDigits digits else natOfDigits digits)) := by
  rw [atoi, strtol, scanSigned]
  by_cases hDigits : (if (s.dropWhile isspace).head? = some (byte '-') ∨
      (s.dropWhile isspace).head? = some (byte '+') then (s.dropWhile isspace).tail
      else s.dropWhile isspace).takeWhile isdigit = []
  · have hZero : clampLong 0 = 0 := by decide
    simp [hDigits, natOfDigits, hZero]
  · simp only [if_neg hDigits]

theorem atoiCells_eq : atoiCells (s ++ 0 :: rest) = some (atoi s) := by
  rw [atoi_eq, atoiCells, spanCells_eq rest (by decide)]
  simp only [Option.bind_eq_bind, Option.bind_some]
  cases s.dropWhile isspace with
  | nil =>
      have hNul : (0 : Byte) ≠ byte '-' ∧ (0 : Byte) ≠ byte '+' := by decide
      have hSpan : spanCells isdigit (0 :: rest) = some ([], 0 :: rest) :=
        spanCells_eq (s := []) rest (by decide)
      simp [hNul, hSpan]
  | cons b t =>
      have hSpan : spanCells isdigit (if b = byte '-' ∨ b = byte '+' then t ++ 0 :: rest
          else b :: t ++ 0 :: rest) = some ((if b = byte '-' ∨ b = byte '+' then t
          else b :: t).takeWhile isdigit, (if b = byte '-' ∨ b = byte '+' then t
          else b :: t).dropWhile isdigit ++ 0 :: rest) := by
        split <;> exact spanCells_eq rest (by decide)
      simp only [List.cons_append, List.head?_cons, List.tail_cons, Option.bind_some,
        Option.some.injEq] at hSpan ⊢
      rw [hSpan, Option.bind_some]

end Terminated

end Lib
end SvgdCollect
