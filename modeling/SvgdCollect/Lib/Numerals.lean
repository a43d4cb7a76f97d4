import SvgdCollect.Lib.Bytes
import Mathlib.Tactic.IntervalCases
import Mathlib.Tactic.NormNum

/-!
# Decimal numerals

`strtol` and `atoi` as glibc computes them, and the decimal text of a natural
number.  `scanSigned` is the part that `strtol` and the `%ld`, `%lu` and `%d`
conversions of `scanf` have in common.
-/

namespace SvgdCollect
namespace Lib

def digitValue (b : Byte) : Nat := b.toNat - 48

/-- The value of a run of digits, most significant first. -/
def natOfDigits (digits : Bytes) : Nat :=
  digits.foldl (fun n d => 10 * n + digitValue d) 0

/-- An optional sign and at least one digit, read off the front of a string. -/
def scanSigned (s : Bytes) : Option (Int × Bytes) :=
  let negative := s.head? = some (byte '-')
  let t := if negative ∨ s.head? = some (byte '+') then s.tail else s
  let digits := t.takeWhile isdigit
  if digits = [] then none
  else
    let n : Int := natOfDigits digits
    some (if negative then -n else n, t.dropWhile isdigit)

/-- Saturation at `LONG_MIN` and `LONG_MAX`. -/
def clampLong (n : Int) : Int := max (-2 ^ 63) (min (2 ^ 63 - 1) n)

/-- The value of a 64-bit integer converted to `int`. -/
def toInt32 (n : Int) : Int := n.bmod (2 ^ 32)

/-- The return value of `snprintf`, which is an `int`: longer texts are an error. -/
def snprintfReturn (text : Bytes) : Int := if text.length < 2 ^ 31 then text.length else -1

def strtol (s : Bytes) : Int :=
  match scanSigned (s.dropWhile isspace) with
  | none => 0
  | some (n, _) => clampLong n

def atoi (s : Bytes) : Int := toInt32 (strtol s)

def digitByte (d : Nat) : Byte := (48 + d).toUInt8

/-- Decimal digits, most significant first; `fuel` bounds their number. -/
def decimalAux : Nat → Nat → Bytes
  | 0, _ => []
  | fuel + 1, n =>
      if n < 10 then [digitByte n] else decimalAux fuel (n / 10) ++ [digitByte (n % 10)]

/-- `%d` of a natural number. -/
def decimal (n : Nat) : Bytes := decimalAux (n + 1) n

theorem isdigit_digitByte {d : Nat} (h : d < 10) : isdigit (digitByte d) = true := by
  interval_cases d <;> decide

theorem digitValue_digitByte {d : Nat} (h : d < 10) : digitValue (digitByte d) = d := by
  interval_cases d <;> decide

theorem natOfDigits_append_singleton (digits : Bytes) (d : Byte) :
    natOfDigits (digits ++ [d]) = 10 * natOfDigits digits + digitValue d := by
  simp [natOfDigits]

theorem natOfDigits_decimalAux (fuel n : Nat) (h : n < fuel) :
    natOfDigits (decimalAux fuel n) = n := by
  induction fuel generalizing n with
  | zero => omega
  | succ fuel ih =>
      by_cases hSmall : n < 10
      · simp [decimalAux, hSmall, natOfDigits, digitValue_digitByte hSmall]
      · simp only [decimalAux, if_neg hSmall, natOfDigits_append_singleton]
        rw [ih (n / 10) (by omega), digitValue_digitByte (by omega)]
        omega

@[simp] theorem natOfDigits_decimal (n : Nat) : natOfDigits (decimal n) = n :=
  natOfDigits_decimalAux (n + 1) n (by omega)

theorem isdigit_of_mem_decimal {n : Nat} {b : Byte} (h : b ∈ decimal n) : isdigit b = true := by
  have hAux : ∀ fuel m, b ∈ decimalAux fuel m → isdigit b = true := by
    intro fuel
    induction fuel with
    | zero => simp [decimalAux]
    | succ fuel ih =>
        intro m hb
        by_cases hSmall : m < 10
        · simp only [decimalAux, if_pos hSmall, List.mem_singleton] at hb
          rw [hb]
          exact isdigit_digitByte hSmall
        · simp only [decimalAux, if_neg hSmall, List.mem_append, List.mem_singleton] at hb
          rcases hb with hb | hb
          · exact ih _ hb
          · rw [hb]
            exact isdigit_digitByte (by omega)
  exact hAux _ _ h

theorem notMem_decimal {n : Nat} {b : Byte} (h : isdigit b = false) : b ∉ decimal n := by
  intro hMem
  rw [isdigit_of_mem_decimal hMem] at h
  cases h

theorem decimal_ne_nil (n : Nat) : decimal n ≠ [] := by
  by_cases hSmall : n < 10 <;> simp [decimal, decimalAux, hSmall]

/-! ## Reading a numeral in context -/

/-- A predicate run ends where the next segment starts, if that segment does not
continue it. -/
theorem takeWhile_append_of_head {p : Byte → Bool} (s rest : Bytes)
    (hRest : ∀ b, rest.head? = some b → p b = false) :
    (s ++ rest).takeWhile p = s.takeWhile p := by
  induction s with
  | nil =>
      cases rest with
      | nil => rfl
      | cons b rest => simp [hRest b rfl]
  | cons b s ih =>
      cases hb : p b <;> simp [hb, ih]

/-- The number at the front of a nonempty text does not depend on what follows
the text, as long as no digit does. -/
theorem scanSigned_append_fst {s rest : Bytes} (hs : s ≠ [])
    (hRest : ∀ b, rest.head? = some b → isdigit b = false) :
    (scanSigned (s ++ rest)).map Prod.fst = (scanSigned s).map Prod.fst := by
  obtain ⟨b, s, rfl⟩ := List.exists_cons_of_ne_nil hs
  by_cases hSign : b = byte '-' ∨ b = byte '+'
  · simp only [scanSigned, List.cons_append, List.head?_cons, Option.some.injEq, hSign, if_true,
      List.tail_cons, takeWhile_append_of_head s rest hRest]
    split <;> rfl
  · have hRun := takeWhile_append_of_head (b :: s) rest hRest
    rw [List.cons_append] at hRun
    simp only [scanSigned, List.cons_append, List.head?_cons, Option.some.injEq, hSign, if_false,
      hRun]
    split <;> rfl

theorem strtol_eq (s : Bytes) :
    strtol s = (((scanSigned (s.dropWhile isspace)).map Prod.fst).map clampLong).getD 0 := by
  unfold strtol
  cases scanSigned (s.dropWhile isspace) <;> rfl

theorem dropWhile_append_of_all {p : Byte → Bool} {skipped : Bytes} (s : Bytes)
    (h : ∀ b ∈ skipped, p b = true) : (skipped ++ s).dropWhile p = s.dropWhile p := by
  induction skipped with
  | nil => rfl
  | cons b skipped ih =>
      have hb : p b = true := h b (by simp)
      simp only [List.cons_append, List.dropWhile_cons, hb, if_true]
      exact ih fun c hc => h c (by simp [hc])

/-- `atoi` of a text in context: leading white space is skipped and what follows
does not matter unless it continues the digits. -/
theorem atoi_in_context {ws s rest : Bytes} (hWs : ∀ b ∈ ws, isspace b = true) (hs : s ≠ [])
    (hHead : ∀ b, s.head? = some b → isspace b = false)
    (hRest : ∀ b, rest.head? = some b → isdigit b = false) :
    atoi (ws ++ (s ++ rest)) = atoi s := by
  have hDrop : (s ++ rest).dropWhile isspace = s ++ rest := by
    obtain ⟨b, s, rfl⟩ := List.exists_cons_of_ne_nil hs
    simp [hHead b rfl]
  have hDrop' : s.dropWhile isspace = s := by
    obtain ⟨b, s, rfl⟩ := List.exists_cons_of_ne_nil hs
    simp [hHead b rfl]
  unfold atoi
  rw [strtol_eq, strtol_eq, dropWhile_append_of_all _ hWs, hDrop, hDrop',
    scanSigned_append_fst hs hRest]

theorem not_isspace_of_isdigit {b : Byte} (h : isdigit b = true) : isspace b = false := by
  simp only [isdigit, isspace, Bool.and_eq_true, decide_eq_true_eq] at h ⊢
  have h1 : (48 : UInt8).toNat ≤ b.toNat := UInt8.le_iff_toNat_le.mp h.1
  have h48 : (48 : UInt8).toNat = 48 := rfl
  rw [h48] at h1
  have h32 : b ≠ 32 := by
    intro hb
    rw [hb] at h1
    exact absurd h1 (by decide)
  have h13 : ¬ b ≤ 13 := by
    intro hb
    have := UInt8.le_iff_toNat_le.mp hb
    have h13' : (13 : UInt8).toNat = 13 := rfl
    omega
  simp [h32, h13]

/-- A run of digits is read back as the number it denotes. -/
theorem scanSigned_digits {digits : Bytes} (hNonempty : digits ≠ [])
    (hDigits : ∀ b ∈ digits, isdigit b = true) :
    scanSigned digits = some ((natOfDigits digits : Int), []) := by
  obtain ⟨b, rest, rfl⟩ := List.exists_cons_of_ne_nil hNonempty
  have hb : isdigit b = true := hDigits b (by simp)
  have hMinus : b ≠ byte '-' := fun h => by rw [h] at hb; exact absurd hb (by decide)
  have hPlus : b ≠ byte '+' := fun h => by rw [h] at hb; exact absurd hb (by decide)
  have hTake : (b :: rest).takeWhile isdigit = b :: rest :=
    List.takeWhile_eq_self_iff.mpr hDigits
  have hDrop : (b :: rest).dropWhile isdigit = [] :=
    List.dropWhile_eq_nil_iff.mpr hDigits
  simp [scanSigned, hMinus, hPlus, hTake, hDrop]

/-! ## Signed numerals -/

/-- `%ld` of an integer. -/
def decimalInt (n : Int) : Bytes :=
  if n < 0 then byte '-' :: decimal n.natAbs else decimal n.natAbs

theorem mem_decimalInt {n : Int} {b : Byte} (h : b ∈ decimalInt n) :
    b = byte '-' ∨ isdigit b = true := by
  unfold decimalInt at h
  split at h
  · rcases List.mem_cons.mp h with rfl | h
    · exact Or.inl rfl
    · exact Or.inr (isdigit_of_mem_decimal h)
  · exact Or.inr (isdigit_of_mem_decimal h)

theorem scanSigned_decimalInt (n : Int) {rest : Bytes}
    (hRest : ∀ b, rest.head? = some b → isdigit b = false) :
    scanSigned (decimalInt n ++ rest) = some (n, rest) := by
  have hDigits : ∀ b ∈ decimal n.natAbs, isdigit b = true := fun b => isdigit_of_mem_decimal
  have hTake : (decimal n.natAbs ++ rest).takeWhile isdigit = decimal n.natAbs := by
    rw [takeWhile_append_of_head _ _ hRest]
    exact List.takeWhile_eq_self_iff.mpr hDigits
  have hDrop : (decimal n.natAbs ++ rest).dropWhile isdigit = rest := by
    rw [dropWhile_append_of_all _ hDigits]
    cases rest with
    | nil => rfl
    | cons b rest => simp [hRest b rfl]
  have hNonempty := decimal_ne_nil n.natAbs
  unfold decimalInt scanSigned
  by_cases hNeg : n < 0
  · simp only [if_pos hNeg, List.cons_append, List.head?_cons, true_or, if_true, List.tail_cons,
      hTake, hDrop, if_neg hNonempty, natOfDigits_decimal, Option.some.injEq, Prod.mk.injEq,
      and_true]
    omega
  · obtain ⟨b, digits, hCons⟩ := List.exists_cons_of_ne_nil hNonempty
    have hb : isdigit b = true := hDigits b (by rw [hCons]; exact List.mem_cons_self)
    have hMinus : b ≠ byte '-' := fun h => by rw [h] at hb; exact absurd hb (by decide)
    have hPlus : b ≠ byte '+' := fun h => by rw [h] at hb; exact absurd hb (by decide)
    have hHead : (decimal n.natAbs ++ rest).head? = some b := by rw [hCons]; rfl
    simp only [if_neg hNeg, hHead, Option.some.injEq, hMinus, hPlus, or_self, if_false, hTake, hDrop,
      if_neg hNonempty, natOfDigits_decimal, Prod.mk.injEq, and_true]
    omega

theorem length_decimalAux_le {fuel n k : Nat} (hk : 0 < k) (h : n < 10 ^ k) :
    (decimalAux fuel n).length ≤ k := by
  induction fuel generalizing n k with
  | zero => simp [decimalAux]
  | succ fuel ih =>
      rw [decimalAux]
      split
      · rw [List.length_singleton]
        exact hk
      · rename_i hLarge
        -- at least two digits, so the front has a place less
        obtain ⟨k, rfl⟩ : ∃ k', k = k' + 1 := ⟨k - 1, by omega⟩
        have hk' : 0 < k := by
          rcases Nat.eq_zero_or_pos k with rfl | hPos
          · rw [zero_add, pow_one] at h
            omega
          · exact hPos
        have hFront : n / 10 < 10 ^ k := by
          rw [pow_succ] at h
          omega
        rw [List.length_append, List.length_singleton]
        have := ih hk' hFront
        omega

theorem length_decimal_le {n k : Nat} (hk : 0 < k) (h : n < 10 ^ k) : (decimal n).length ≤ k :=
  length_decimalAux_le hk h

/-- A sign and twenty digits hold every 64-bit number. -/
theorem length_decimalInt_le {n : Int} (h : n.natAbs < 2 ^ 64) : (decimalInt n).length ≤ 21 := by
  have hDigits : (decimal n.natAbs).length ≤ 20 :=
    length_decimal_le (by omega) (h.trans (by norm_num))
  unfold decimalInt
  split
  · rw [List.length_cons]
    omega
  · omega

theorem toInt32_of_lt {n : Nat} (h : n < 2 ^ 31) : toInt32 n = n := by
  unfold toInt32
  rw [Int.bmod_eq_of_le (by omega) (by omega)]

/-- `atoi` reads back the decimal text of any `int`. -/
theorem atoi_decimal {n : Nat} (h : n < 2 ^ 31) : atoi (decimal n) = n := by
  have hDigits : ∀ b ∈ decimal n, isdigit b = true := fun b hb => isdigit_of_mem_decimal hb
  obtain ⟨b, rest, hCons⟩ := List.exists_cons_of_ne_nil (decimal_ne_nil n)
  have hb : isspace b = false := not_isspace_of_isdigit (hDigits b (by simp [hCons]))
  have hDrop : (decimal n).dropWhile isspace = decimal n := by
    rw [hCons]
    simp [hb]
  unfold atoi strtol
  rw [hDrop, scanSigned_digits (decimal_ne_nil n) hDigits]
  simp only [natOfDigits_decimal, clampLong, toInt32]
  rw [min_eq_right (by omega), max_eq_right (by omega)]
  exact Int.bmod_eq_of_le (by omega) (by omega)

end Lib
end SvgdCollect
