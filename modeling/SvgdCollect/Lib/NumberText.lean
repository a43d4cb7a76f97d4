import Mathlib.Data.List.DropRight
import SvgdCollect.Lib.Decimals

/-!
# Decimal text of a double

`%.0f` and `%.{n}g` of C's `printf`, and what comes back when `scanf` reads the text.
`%g` rounds to `n` significant digits, writes them with or without an exponent, and
drops the zeros at the end of a fraction.
-/

namespace SvgdCollect
namespace Lib

/-! ## Printing -/

/-- Digits around the point.  Zeros at the end of the fraction are left out, and the point
with them if nothing is behind it. -/
def pointText (whole frac : Bytes) : Bytes :=
  let frac := frac.rdropWhile fun b => b = byte '0'
  if frac = [] then whole else whole ++ byte '.' :: frac

/-- An exponent has a sign and two digits at least. -/
def exponentText (x : Int) : Bytes :=
  byte 'e' :: (if x < 0 then byte '-' else byte '+') ::
    ((if x.natAbs < 10 then [byte '0'] else []) ++ decimal x.natAbs)

/-- `n` significant digits: with an exponent if it is below -4 or at least `n`. -/
def significandText (n : Nat) (s : Significand) : Bytes :=
  let digits := decimal s.digits
  if s.exponent < -4 ∨ n ≤ s.exponent then
    pointText (digits.take 1) (digits.drop 1) ++ exponentText s.exponent
  else if s.exponent < 0 then
    pointText [byte '0'] (List.replicate (-s.exponent - 1).toNat (byte '0') ++ digits)
  else
    pointText (digits.take (s.exponent.toNat + 1)) (digits.drop (s.exponent.toNat + 1))

def signText (negative : Bool) : Bytes := if negative then [byte '-'] else []

/-- `%.{n}g`. -/
def generalText (n : Nat) : Double → Bytes
  | .finite q =>
      signText (decide (q < 0)) ++
        if q = 0 then [byte '0'] else significandText n (significand n q)
  | .inf negative => signText negative ++ ascii "inf"
  | .nan => ascii "nan"

/-- `%.0f`. -/
def fixedText : Double → Bytes
  | .finite q => signText (decide (q < 0)) ++ decimal (roundHalfEven |q|).natAbs
  | .inf negative => signText negative ++ ascii "inf"
  | .nan => ascii "nan"

/-! ## The value of digits -/

theorem natOfDigits_append (s t : Bytes) :
    natOfDigits (s ++ t) = natOfDigits s * 10 ^ t.length + natOfDigits t := by
  induction t using List.reverseRecOn with
  | nil => simp [natOfDigits]
  | append_singleton t d ih =>
      rw [← List.append_assoc, natOfDigits_append_singleton, ih, natOfDigits_append_singleton,
        List.length_append, List.length_singleton, pow_succ]
      ring

theorem natOfDigits_zeros (k : Nat) : natOfDigits (List.replicate k (byte '0')) = 0 := by
  induction k with
  | zero => rfl
  | succ k ih =>
      rw [List.replicate_succ', natOfDigits_append_singleton, ih]
      rfl

/-- A number of `k` digits is below `10^k`. -/
theorem natOfDigits_lt {digits : Bytes} (h : ∀ b ∈ digits, isdigit b = true) :
    natOfDigits digits < 10 ^ digits.length := by
  induction digits using List.reverseRecOn with
  | nil => exact Nat.one_pos
  | append_singleton digits d ih =>
      rw [List.forall_mem_append] at h
      have hFront := ih h.1
      have hDigit : digitValue d < 10 := by
        have hd := h.2 d List.mem_cons_self
        simp only [isdigit, Bool.and_eq_true, decide_eq_true_eq] at hd
        have hHigh : d.toNat ≤ 57 := UInt8.le_iff_toNat_le.mp hd.2
        unfold digitValue
        omega
      rw [natOfDigits_append_singleton, List.length_append, List.length_singleton, pow_succ]
      omega

theorem length_decimal {n m : Nat} (hn : 0 < n) (hLow : 10 ^ (n - 1) ≤ m) (hHigh : m < 10 ^ n) :
    (decimal m).length = n := by
  have hUpper := length_decimal_le hn hHigh
  by_contra hLength
  have hShort : 10 ^ (decimal m).length ≤ 10 ^ (n - 1) :=
    Nat.pow_le_pow_right (by norm_num) (by omega)
  have hValue := natOfDigits_lt fun b (hb : b ∈ decimal m) => isdigit_of_mem_decimal hb
  rw [natOfDigits_decimal] at hValue
  omega

/-- The zeros that are left out change neither the digits nor their places. -/
theorem value_rdropWhile (whole frac : Bytes) (e : Int) :
    (natOfDigits (whole ++ frac.rdropWhile fun b => b = byte '0') : ℚ) *
        10 ^ (e - (frac.rdropWhile fun b => b = byte '0').length) =
      natOfDigits (whole ++ frac) * 10 ^ (e - frac.length) := by
  induction frac using List.reverseRecOn with
  | nil => rfl
  | append_singleton frac d ih =>
      by_cases hZero : d = byte '0'
      · rw [List.rdropWhile_concat_pos _ _ _ (by simpa using hZero), ih, ← List.append_assoc,
          natOfDigits_append_singleton, hZero, List.length_append, List.length_singleton]
        have hValue : digitValue (byte '0') = 0 := rfl
        have hPlace : e - frac.length = e - ((frac.length + 1 : ℕ) : ℤ) + 1 := by
          push_cast
          ring
        rw [hValue, add_zero, hPlace, zpow_add_one₀ (by norm_num)]
        push_cast
        ring
      · rw [List.rdropWhile_concat_neg _ _ _ (by simpa using hZero)]

/-! ## Reading -/

/-- A text that does not continue a number in front of it. -/
def EndsNumber (rest : Bytes) : Prop :=
  ∀ b, rest.head? = some b →
    isdigit b = false ∧ b ≠ byte '.' ∧ toLower b ∉ [byte 'e', byte 'i', byte 'x']

theorem endsNumber_nil : EndsNumber [] := fun _ hb => nomatch hb

theorem dropWhile_digits {digits : Bytes} (h : ∀ b ∈ digits, isdigit b = true) {rest : Bytes}
    (hRest : ∀ b, rest.head? = some b → isdigit b = false) :
    (digits ++ rest).dropWhile isdigit = rest := by
  rw [dropWhile_append_of_all _ h]
  cases rest with
  | nil => rfl
  | cons b rest => simp [hRest b rfl]

theorem takeWhile_digits {digits : Bytes} (h : ∀ b ∈ digits, isdigit b = true) {rest : Bytes}
    (hRest : ∀ b, rest.head? = some b → isdigit b = false) :
    (digits ++ rest).takeWhile isdigit = digits := by
  rw [takeWhile_append_of_head _ _ hRest]
  exact List.takeWhile_eq_self_iff.mpr h

theorem mem_rdropWhile {p : Byte → Bool} {s : Bytes} {b : Byte} (h : b ∈ s.rdropWhile p) : b ∈ s :=
  (List.rdropWhile_prefix p s).subset h

/-- Digits in front of a point and behind it. -/
theorem scanMantissa_point {whole frac rest : Bytes}
    (hWhole : ∀ b ∈ whole, isdigit b = true) (hFrac : ∀ b ∈ frac, isdigit b = true)
    (hRest : ∀ b, rest.head? = some b → isdigit b = false) :
    scanMantissa isdigit (whole ++ byte '.' :: (frac ++ rest)) = (whole, frac, rest) := by
  have hPoint : ∀ b, (byte '.' :: (frac ++ rest)).head? = some b → isdigit b = false := by
    intro b hb
    obtain rfl := Option.some.inj hb
    decide
  unfold scanMantissa
  simp only [dropWhile_digits hWhole hPoint, takeWhile_digits hWhole hPoint, if_true,
    dropWhile_digits hFrac hRest, takeWhile_digits hFrac hRest]

theorem scanMantissa_pointText {whole frac rest : Bytes}
    (hWhole : ∀ b ∈ whole, isdigit b = true) (hFrac : ∀ b ∈ frac, isdigit b = true)
    (hRest : ∀ b, rest.head? = some b → isdigit b = false ∧ b ≠ byte '.') :
    scanMantissa isdigit (pointText whole frac ++ rest) =
      (whole, frac.rdropWhile fun b => b = byte '0', rest) := by
  have hDigit := fun b hb => (hRest b hb).1
  have hFront : ∀ b ∈ frac.rdropWhile fun b => b = byte '0', isdigit b = true :=
    fun b hb => hFrac b (mem_rdropWhile hb)
  unfold pointText
  generalize frac.rdropWhile (fun b => b = byte '0') = f at hFront
  cases f with
  | nil =>
      unfold scanMantissa
      simp only [if_true, dropWhile_digits hWhole hDigit, takeWhile_digits hWhole hDigit]
      cases rest with
      | nil => rfl
      | cons b rest => simp [(hRest b rfl).2]
  | cons d f =>
      rw [if_neg (List.cons_ne_nil d f), List.append_assoc, List.cons_append]
      exact scanMantissa_point hWhole hFront hDigit

theorem scanExponent_exponentText (x : Int) {rest : Bytes}
    (hRest : ∀ b, rest.head? = some b → isdigit b = false) :
    scanExponent (byte 'e') (exponentText x ++ rest) = (x, rest) := by
  have hDigits : ∀ b ∈ (if x.natAbs < 10 then [byte '0'] else []) ++ decimal x.natAbs,
      isdigit b = true := by
    intro b hb
    rcases List.mem_append.mp hb with hb | hb
    · split at hb
      · obtain rfl := List.mem_singleton.mp hb
        decide
      · cases hb
    · exact isdigit_of_mem_decimal hb
  have hValue : natOfDigits ((if x.natAbs < 10 then [byte '0'] else []) ++ decimal x.natAbs) =
      x.natAbs := by
    rw [natOfDigits_append, natOfDigits_decimal]
    split
    · have hZero : natOfDigits [byte '0'] = 0 := rfl
      rw [hZero, zero_mul, zero_add]
    · simp [natOfDigits]
  have hMark : toLower (byte 'e') = byte 'e' := by decide
  have hSign : ∀ t, scanSign ((if x < 0 then byte '-' else byte '+') :: t) =
      (decide (x < 0), t) := by
    intro t
    unfold scanSign
    by_cases hNeg : x < 0
    · simp [hNeg]
    · have hPlus : byte '+' ≠ byte '-' := by decide
      simp [hNeg, hPlus]
  unfold scanExponent exponentText
  simp only [List.cons_append, hMark, if_true, hSign, takeWhile_digits hDigits hRest,
    dropWhile_digits hDigits hRest, hValue, decide_eq_true_eq, Prod.mk.injEq, and_true]
  split <;> omega

theorem scanExponent_of_ne {mark : Byte} {rest : Bytes}
    (hRest : ∀ b, rest.head? = some b → toLower b ≠ mark) :
    scanExponent mark rest = (0, rest) := by
  cases rest with
  | nil => rfl
  | cons b rest => simp [scanExponent, hRest b rfl]

theorem scanSign_signText (negative : Bool) {t : Bytes}
    (ht : ∀ b, t.head? = some b → b ≠ byte '-' ∧ b ≠ byte '+') :
    scanSign (signText negative ++ t) = (negative, t) := by
  cases negative with
  | true => rfl
  | false =>
      cases t with
      | nil => rfl
      | cons b t => simp [signText, scanSign, (ht b rfl).1, (ht b rfl).2]

/-- Only the first byte has to differ. -/
theorem not_startsWith_of_head {s word : Bytes} {c : Byte}
    (hs : ∀ b, s.head? = some b → toLower b ≠ c) : startsWith s (c :: word) = false := by
  cases s with
  | nil => rfl
  | cons b s => simp [startsWith, hs b rfl]

theorem toLower_of_isdigit {b : Byte} (h : isdigit b = true) : toLower b = b := by
  simp only [isdigit, Bool.and_eq_true, decide_eq_true_eq] at h
  have hHigh : b.toNat ≤ 57 := UInt8.le_iff_toNat_le.mp h.2
  have hUpper : ¬ byte 'A' ≤ b := by
    intro hLe
    have hNat : (65 : ℕ) ≤ b.toNat := UInt8.le_iff_toNat_le.mp hLe
    omega
  simp [toLower, hUpper]

theorem mem_pointText {whole frac : Bytes} {b : Byte} (hWhole : ∀ b ∈ whole, isdigit b = true)
    (hFrac : ∀ b ∈ frac, isdigit b = true) (h : b ∈ pointText whole frac) :
    isdigit b = true ∨ b = byte '.' := by
  unfold pointText at h
  simp only at h
  split at h
  · exact Or.inl (hWhole b h)
  · rcases List.mem_append.mp h with h | h
    · exact Or.inl (hWhole b h)
    · rcases List.mem_cons.mp h with h | h
      · exact Or.inr h
      · exact Or.inl (hFrac b (mem_rdropWhile h))

theorem exists_pointText_cons {whole frac : Bytes} (hNonempty : whole ≠ [])
    (hWhole : ∀ b ∈ whole, isdigit b = true) :
    ∃ d s, pointText whole frac = d :: s ∧ isdigit d = true := by
  obtain ⟨d, whole, rfl⟩ := List.exists_cons_of_ne_nil hNonempty
  unfold pointText
  simp only
  split
  · exact ⟨d, whole, rfl, hWhole d List.mem_cons_self⟩
  · exact ⟨d, _, List.cons_append, hWhole d List.mem_cons_self⟩

/-- Digits and points with a digit in front are read as what their mantissa and the exponent
behind it denote. -/
theorem scanFloat_of_mantissa {negative : Bool} {d : Byte} {s whole frac tail rest : Bytes}
    {e : Int} (hd : isdigit d = true) (hs : ∀ b ∈ s, isdigit b = true ∨ b = byte '.')
    (hTail : ∀ b, tail.head? = some b → toLower b ≠ byte 'x') (hNonempty : whole ≠ [])
    (hMantissa : scanMantissa isdigit (d :: (s ++ tail)) = (whole, frac, tail))
    (hExponent : scanExponent (byte 'e') tail = (e, rest)) :
    scanFloat (signText negative ++ (d :: (s ++ tail))) =
      some (.rat (if negative then -(natOfDigits (whole ++ frac) * 10 ^ (e - frac.length))
        else natOfDigits (whole ++ frac) * 10 ^ (e - frac.length)), rest) := by
  have hDigit : ∀ c, isdigit c = false → d ≠ c := by
    rintro c hc rfl
    rw [hd] at hc
    cases hc
  have hHead : ∀ c, isdigit c = false →
      ∀ b, (d :: (s ++ tail)).head? = some b → toLower b ≠ c := by
    intro c hc b hb
    obtain rfl := Option.some.inj hb
    rw [toLower_of_isdigit hd]
    exact hDigit c hc
  have hSign := @scanSign_signText negative (d :: (s ++ tail)) (by
    intro b hb
    obtain rfl := Option.some.inj hb
    exact ⟨hDigit _ (by decide), hDigit _ (by decide)⟩)
  have hNan : startsWith (d :: (s ++ tail)) (ascii "nan") = false :=
    not_startsWith_of_head (hHead (byte 'n') (by decide))
  have hInf : startsWith (d :: (s ++ tail)) (ascii "inf") = false :=
    not_startsWith_of_head (hHead (byte 'i') (by decide))
  have hHex : startsWith (d :: (s ++ tail)) (ascii "0x") = false := by
    -- the second byte is a digit, the point or the first one of `tail`
    have hSecond : startsWith (s ++ tail) [byte 'x'] = false := by
      apply not_startsWith_of_head
      intro b hb
      cases s with
      | nil => exact hTail b hb
      | cons c s =>
          obtain rfl := Option.some.inj hb
          rcases hs c List.mem_cons_self with hc | rfl
          · rw [toLower_of_isdigit hc]
            rintro rfl
            exact absurd hc (by decide)
          · decide
    have hCons : ascii "0x" = byte '0' :: [byte 'x'] := by decide
    rw [hCons]
    rw [startsWith] at hSecond ⊢
    simp only [List.length_cons, List.take_succ_cons, List.map_cons] at hSecond ⊢
    rw [List.cons_beq_cons, hSecond, Bool.and_false]
  unfold scanFloat
  simp only [hSign, hNan, hInf, hHex, hMantissa, hNonempty, false_and, hExponent,
    Bool.false_eq_true, if_false]

/-- A signed numeral with a point and an exponent is read as the number it denotes. -/
theorem scanFloat_pointText {negative : Bool} {whole frac tail rest : Bytes} {e : Int}
    (hNonempty : whole ≠ []) (hWhole : ∀ b ∈ whole, isdigit b = true)
    (hFrac : ∀ b ∈ frac, isdigit b = true)
    (hTail : ∀ b, tail.head? = some b →
      isdigit b = false ∧ b ≠ byte '.' ∧ toLower b ≠ byte 'x')
    (hExponent : scanExponent (byte 'e') tail = (e, rest)) :
    scanFloat (signText negative ++ (pointText whole frac ++ tail)) =
      some (.rat (if negative then -(natOfDigits (whole ++ frac) * 10 ^ (e - frac.length))
        else natOfDigits (whole ++ frac) * 10 ^ (e - frac.length)), rest) := by
  obtain ⟨d, s, hText, hd⟩ := @exists_pointText_cons whole frac hNonempty hWhole
  have hMantissa := @scanMantissa_pointText whole frac tail hWhole hFrac
    fun b hb => ⟨(hTail b hb).1, (hTail b hb).2.1⟩
  have hs : ∀ b ∈ s, isdigit b = true ∨ b = byte '.' := fun b hb =>
    mem_pointText hWhole hFrac (by rw [hText]; exact List.mem_cons_of_mem d hb)
  rw [hText, List.cons_append] at hMantissa
  rw [hText, List.cons_append, scanFloat_of_mantissa hd hs (fun b hb => (hTail b hb).2.2) hNonempty
    hMantissa hExponent]
  simp only [value_rdropWhile]

theorem EndsNumber.tail {rest : Bytes} (h : EndsNumber rest) :
    ∀ b, rest.head? = some b → isdigit b = false ∧ b ≠ byte '.' ∧ toLower b ≠ byte 'x' := by
  intro b hb
  obtain ⟨hDigit, hPoint, hLetter⟩ := h b hb
  exact ⟨hDigit, hPoint, fun hx => hLetter (by simp [hx])⟩

theorem EndsNumber.scanExponent_eq {rest : Bytes} (h : EndsNumber rest) :
    scanExponent (byte 'e') rest = (0, rest) := by
  apply scanExponent_of_ne
  intro b hb hLetter
  exact (h b hb).2.2 (by simp [hLetter])

/-- Both forms denote the significand. -/
theorem scanFloat_significandText {n : Nat} {s : Significand} {negative : Bool} {rest : Bytes}
    (hn : 0 < n) (hLow : 10 ^ (n - 1) ≤ s.digits) (hHigh : s.digits < 10 ^ n)
    (hRest : EndsNumber rest) :
    scanFloat (signText negative ++ (significandText n s ++ rest)) =
      some (.rat (if negative then -s.value n else s.value n), rest) := by
  have hLength := length_decimal hn hLow hHigh
  have hDigits : ∀ b ∈ decimal s.digits, isdigit b = true := fun b => isdigit_of_mem_decimal
  have hTake : ∀ k, ∀ b ∈ (decimal s.digits).take k, isdigit b = true :=
    fun k b hb => hDigits b (List.mem_of_mem_take hb)
  have hDrop : ∀ k, ∀ b ∈ (decimal s.digits).drop k, isdigit b = true :=
    fun k b hb => hDigits b (List.mem_of_mem_drop hb)
  have hFirst : ∀ k, (decimal s.digits).take (k + 1) ≠ [] := by
    intro k hNil
    rw [List.take_eq_nil_iff] at hNil
    exact hNil.elim (by omega) (decimal_ne_nil _)
  -- the point stands `k` digits in front of the end
  have hValue : ∀ (e : Int) (k : Nat), e - k = s.exponent + 1 - n →
      (natOfDigits (decimal s.digits) : ℚ) * 10 ^ (e - k) = s.value n := by
    intro e k hPlaces
    rw [natOfDigits_decimal, hPlaces]
    rfl
  unfold significandText
  simp only
  split
  · -- one digit, a fraction and an exponent
    have hMark : ∀ b, (exponentText s.exponent ++ rest).head? = some b →
        isdigit b = false ∧ b ≠ byte '.' ∧ toLower b ≠ byte 'x' := by
      intro b hb
      obtain rfl := Option.some.inj hb
      decide
    rw [List.append_assoc, scanFloat_pointText (hFirst 0) (hTake 1) (hDrop 1) hMark
      (scanExponent_exponentText _ fun b hb => (hRest b hb).1), List.take_append_drop,
      hValue _ _ (by rw [List.length_drop, hLength]; omega)]
  · rename_i hPlain
    split
    · -- zeros behind the point
      rename_i hNegative
      have hZeros : ∀ b ∈ List.replicate (-s.exponent - 1).toNat (byte '0') ++ decimal s.digits,
          isdigit b = true := by
        intro b hb
        rcases List.mem_append.mp hb with hb | hb
        · rw [List.eq_of_mem_replicate hb]
          decide
        · exact hDigits b hb
      have hWhole : natOfDigits ([byte '0'] ++
          (List.replicate (-s.exponent - 1).toNat (byte '0') ++ decimal s.digits)) =
            natOfDigits (decimal s.digits) := by
        rw [← List.append_assoc, natOfDigits_append, List.singleton_append,
          ← List.replicate_succ, natOfDigits_zeros, zero_mul, zero_add]
      rw [scanFloat_pointText (List.cons_ne_nil _ _) (by decide) hZeros hRest.tail
        hRest.scanExponent_eq, hWhole, hValue]
      rw [List.length_append, List.length_replicate, hLength]
      omega
    · -- the point among the digits
      rename_i hNonneg
      rw [scanFloat_pointText (hFirst _) (hTake _) (hDrop _) hRest.tail hRest.scanExponent_eq,
        List.take_append_drop, hValue]
      rw [List.length_drop, hLength]
      omega

theorem scanFloat_inf (negative : Bool) {rest : Bytes} (hRest : EndsNumber rest) :
    scanFloat (signText negative ++ (ascii "inf" ++ rest)) = some (.inf negative, rest) := by
  have hInf : ascii "inf" = [byte 'i', byte 'n', byte 'f'] := by decide
  have hSign := @scanSign_signText negative (ascii "inf" ++ rest) (by
    intro b hb
    rw [hInf] at hb
    obtain rfl := Option.some.inj hb
    decide)
  have hNan : startsWith (ascii "inf" ++ rest) (ascii "nan") = false := by
    apply not_startsWith_of_head
    intro b hb
    rw [hInf] at hb
    obtain rfl := Option.some.inj hb
    decide
  have hSelf : startsWith (ascii "inf" ++ rest) (ascii "inf") = true := by
    rw [startsWith, List.take_left]
    decide
  have hMore : startsWith rest (ascii "i") = false := by
    apply not_startsWith_of_head
    intro b hb hLetter
    exact (hRest b hb).2.2 (by rw [hLetter]; decide)
  have hDrop : (ascii "inf" ++ rest).drop 3 = rest := by
    rw [hInf]
    rfl
  unfold scanFloat
  simp only [hSign, hNan, hSelf, hDrop, hMore, Bool.false_eq_true, if_false, if_true]

theorem scanFloat_nan (rest : Bytes) :
    scanFloat (ascii "nan" ++ rest) = some (.nan, rest) := by
  have hNan : ascii "nan" = [byte 'n', byte 'a', byte 'n'] := by decide
  have hSign := @scanSign_signText false (ascii "nan" ++ rest) (by
    intro b hb
    rw [hNan] at hb
    obtain rfl := Option.some.inj hb
    decide)
  have hSelf : startsWith (ascii "nan" ++ rest) (ascii "nan") = true := by
    rw [startsWith, List.take_left]
    decide
  have hDrop : (ascii "nan" ++ rest).drop 3 = rest := by
    rw [hNan]
    rfl
  have hNone : signText false ++ (ascii "nan" ++ rest) = ascii "nan" ++ rest := rfl
  rw [hNone] at hSign
  unfold scanFloat
  simp only [hSign, hSelf, hDrop, if_true]

theorem abs_signed_sub (a q : ℚ) :
    |(if decide (q < 0) = true then -a else a) - q| = |a - (|q|)| := by
  by_cases hNegative : q < 0
  · rw [if_pos (by simpa using hNegative), abs_of_neg hNegative, ← abs_neg]
    ring_nf
  · rw [if_neg (by simpa using hNegative), abs_of_nonneg (not_lt.mp hNegative)]

/-- All significant digits are read back. -/
theorem scanFloat_generalText_finite {n : Nat} (hn : 0 < n) {q : ℚ} (hq : q ≠ 0) {rest : Bytes}
    (hRest : EndsNumber rest) :
    scanFloat (generalText n (.finite q) ++ rest) =
      some (.rat (if decide (q < 0) then -(significand n q).value n
        else (significand n q).value n), rest) := by
  obtain ⟨hLow, hHigh⟩ := significand_digits hn hq
  rw [generalText, List.append_assoc, if_neg hq, scanFloat_significandText hn hLow hHigh hRest]

/-- `%.{n}g` is read back within half a unit of the last digit. -/
theorem scanFloat_generalText {n : Nat} (hn : 0 < n) (v : Double) {rest : Bytes}
    (hRest : EndsNumber rest) :
    ∃ x, scanFloat (generalText n v ++ rest) = some (x, rest) ∧
      x.Near (10 ^ (1 - (n : ℤ)) / 2) v := by
  cases v with
  | finite q =>
      by_cases hZero : q = 0
      · have hText : [byte '0'] = pointText [byte '0'] [] := rfl
        have hDigits : natOfDigits [byte '0'] = 0 := rfl
        rw [generalText, List.append_assoc, if_pos hZero, hText, scanFloat_pointText (List.cons_ne_nil _ _) (by decide)
          (by simp) hRest.tail hRest.scanExponent_eq]
        refine ⟨_, rfl, ?_⟩
        subst hZero
        simp [Scanned.Near, hDigits]
      · refine ⟨_, scanFloat_generalText_finite hn hZero hRest, ?_⟩
        show |_ - q| ≤ |q| * _
        rw [abs_signed_sub]
        exact abs_significand_sub_le hn hZero
  | inf negative =>
      rw [generalText, List.append_assoc]
      exact ⟨.inf negative, scanFloat_inf negative hRest, rfl⟩
  | nan => exact ⟨.nan, scanFloat_nan rest, trivial⟩

/-- If the value is close to a decimal of `n` digits, then that is what is read back. -/
theorem scanFloat_generalText_of_close {n k : Nat} (hn : 0 < n) {d : ℚ} {z : ℤ} (hd : d ≠ 0)
    (hz : |z| < 10 ^ n) (hClose : |d - z / 10 ^ k| ≤ |d| / 10 ^ n / 4) {rest : Bytes}
    (hRest : EndsNumber rest) :
    scanFloat (generalText n (.finite d) ++ rest) = some (.rat (z / 10 ^ k), rest) := by
  rw [scanFloat_generalText_finite hn hd hRest, significand_value_of_close hn hd hz hClose]
  -- both have the same sign
  have hQuarter : |d - z / 10 ^ k| ≤ |d| / 4 := by
    have hOne : (1 : ℚ) ≤ 10 ^ n := one_le_pow₀ (by norm_num)
    refine hClose.trans ?_
    gcongr
    exact div_le_self (abs_nonneg d) hOne
  rw [abs_le] at hQuarter
  obtain ⟨hLow, hHigh⟩ := hQuarter
  rcases lt_or_gt_of_ne hd with hNegative | hPositive
  · rw [abs_of_neg hNegative] at hLow hHigh
    have hDecimal : (z : ℚ) / 10 ^ k < 0 := by linarith
    rw [decide_eq_true hNegative, if_pos rfl, abs_of_neg hDecimal, neg_neg]
  · rw [abs_of_pos hPositive] at hLow hHigh
    have hDecimal : 0 < (z : ℚ) / 10 ^ k := by linarith
    rw [decide_eq_false hPositive.not_gt, if_neg Bool.false_ne_true, abs_of_pos hDecimal]

theorem fixedText_intCast (z : ℤ) : fixedText (.finite z) = decimalInt z := by
  have hAbs : |(z : ℚ)| = ((|z| : ℤ) : ℚ) := by push_cast; rfl
  rw [fixedText, hAbs, roundHalfEven_intCast, Int.natAbs_abs, decimalInt, signText]
  by_cases hNegative : z < 0
  · rw [if_pos hNegative, if_pos (by simpa using hNegative)]
    rfl
  · rw [if_neg hNegative, if_neg (by simpa using hNegative)]
    rfl

/-- The digits of an integer are read back exactly. -/
theorem scanFloat_decimalInt (z : ℤ) {rest : Bytes} (hRest : EndsNumber rest) :
    scanFloat (decimalInt z ++ rest) = some (.rat z, rest) := by
  have hSigned : decimalInt z = signText (decide (z < 0)) ++ pointText (decimal z.natAbs) [] := by
    unfold decimalInt signText
    by_cases hNegative : z < 0
    · rw [if_pos hNegative, decide_eq_true hNegative]
      rfl
    · rw [if_neg hNegative, decide_eq_false hNegative]
      rfl
  rw [hSigned, List.append_assoc, scanFloat_pointText (decimal_ne_nil _)
    (fun b => isdigit_of_mem_decimal) (by simp) hRest.tail hRest.scanExponent_eq]
  have hAbs : ((z.natAbs : ℕ) : ℚ) = |(z : ℚ)| := by
    rw [Nat.cast_natAbs, Int.cast_abs]
  simp only [List.append_nil, natOfDigits_decimal, List.length_nil, Nat.cast_zero, sub_zero,
    zpow_zero, mul_one, hAbs, decide_eq_true_eq]
  by_cases hNegative : z < 0
  · have hCast : (z : ℚ) < 0 := by exact_mod_cast hNegative
    rw [if_pos hNegative, abs_of_neg hCast, neg_neg]
  · have hCast : (0 : ℚ) ≤ z := by exact_mod_cast not_lt.mp hNegative
    rw [if_neg hNegative, abs_of_nonneg hCast]

/-! ## A fixed number of places -/

/-- `%0{k}lu`. -/
def zeroPadded (k m : Nat) : Bytes :=
  List.replicate (k - (decimal m).length) (byte '0') ++ decimal m

/-- `%lu.%0{k}lu`: a number of units of the last of `k` places. -/
def placesText (k n : Nat) : Bytes :=
  decimal (n / 10 ^ k) ++ byte '.' :: zeroPadded k (n % 10 ^ k)

theorem isdigit_of_mem_zeroPadded {k m : Nat} {b : Byte} (h : b ∈ zeroPadded k m) :
    isdigit b = true := by
  rcases List.mem_append.mp h with h | h
  · rw [List.eq_of_mem_replicate h]
    rfl
  · exact isdigit_of_mem_decimal h

theorem length_zeroPadded {k m : Nat} (hk : 0 < k) (hm : m < 10 ^ k) :
    (zeroPadded k m).length = k := by
  have hLength := length_decimal_le hk hm
  rw [zeroPadded, List.length_append, List.length_replicate]
  omega

theorem natOfDigits_zeroPadded (k m : Nat) : natOfDigits (zeroPadded k m) = m := by
  rw [zeroPadded, natOfDigits_append, natOfDigits_zeros, natOfDigits_decimal, zero_mul, zero_add]

/-- All places are read. -/
theorem scanFloat_placesText {k : Nat} (hk : 0 < k) (n : Nat) {rest : Bytes}
    (hRest : EndsNumber rest) :
    scanFloat (placesText k n ++ rest) = some (.rat (n / 10 ^ k), rest) := by
  obtain ⟨d, s, hWhole⟩ := List.exists_cons_of_ne_nil (decimal_ne_nil (n / 10 ^ k))
  have hDigits : ∀ b ∈ d :: s, isdigit b = true := by
    rw [← hWhole]
    exact fun b hb => isdigit_of_mem_decimal hb
  have hText : placesText k n ++ rest =
      signText false ++ (d :: ((s ++ byte '.' :: zeroPadded k (n % 10 ^ k)) ++ rest)) := by
    rw [placesText, hWhole]
    rfl
  have hMantissa : scanMantissa isdigit
      (d :: ((s ++ byte '.' :: zeroPadded k (n % 10 ^ k)) ++ rest)) =
        (d :: s, zeroPadded k (n % 10 ^ k), rest) := by
    rw [List.append_assoc, List.cons_append, ← List.cons_append]
    exact scanMantissa_point hDigits (fun b hb => isdigit_of_mem_zeroPadded hb)
      fun b hb => (hRest.tail b hb).1
  have hInner : ∀ b ∈ s ++ byte '.' :: zeroPadded k (n % 10 ^ k),
      isdigit b = true ∨ b = byte '.' := by
    intro b hb
    rcases List.mem_append.mp hb with hb | hb
    · exact Or.inl (hDigits b (List.mem_cons_of_mem d hb))
    · rcases List.mem_cons.mp hb with rfl | hb
      · exact Or.inr rfl
      · exact Or.inl (isdigit_of_mem_zeroPadded hb)
  have hPlaces : (zeroPadded k (n % 10 ^ k)).length = k :=
    length_zeroPadded hk (Nat.mod_lt n (by positivity))
  have hValue : natOfDigits ((d :: s) ++ zeroPadded k (n % 10 ^ k)) = n := by
    rw [natOfDigits_append, ← hWhole, natOfDigits_decimal, natOfDigits_zeroPadded, hPlaces]
    exact Nat.div_add_mod' n (10 ^ k)
  rw [hText, scanFloat_of_mantissa (hDigits d List.mem_cons_self) hInner
    (fun b hb => (hRest.tail b hb).2.2) (List.cons_ne_nil d s) hMantissa hRest.scanExponent_eq,
    hValue, hPlaces]
  simp only [Bool.false_eq_true, if_false, zero_sub, zpow_neg, zpow_natCast, div_eq_mul_inv]

/-! ## Length and alphabet -/

/-- The exponents of doubles have three digits at most. -/
theorem abs_exponent_lt {q : ℚ} (hne : q ≠ 0) (hDouble : IsDouble q) (hFinite : |q| < 2 ^ 1024)
    (n : Nat) : (significand n q).exponent.natAbs < 1000 := by
  have hPos := abs_pos.mpr hne
  have hHigh : Int.log 10 |q| < 342 := by
    have hPow : (2 : ℚ) ^ 1024 ≤ (10 : ℚ) ^ 342 := by
      calc (2 : ℚ) ^ 1024 ≤ 2 ^ (3 * 342) := pow_le_pow_right₀ (by norm_num) (by norm_num)
        _ = (2 ^ 3) ^ 342 := pow_mul _ _ _
        _ ≤ 10 ^ 342 := pow_le_pow_left₀ (by norm_num) (by norm_num) _
    rw [← Int.lt_zpow_iff_log_lt (by norm_num) hPos]
    exact_mod_cast hFinite.trans_le hPow
  have hLow : -358 ≤ Int.log 10 |q| := by
    obtain ⟨N, e, rfl, -, he⟩ := hDouble
    have hN : (1 : ℚ) ≤ |(N : ℚ)| := by
      have hInt : N ≠ 0 := fun h => hne (by simp [h])
      exact_mod_cast Int.one_le_abs hInt
    have hPow : (10 : ℚ) ^ (-358 : ℤ) ≤ |(N : ℚ) * 2 ^ e| := by
      calc (10 : ℚ) ^ (-358 : ℤ) = (10 ^ 358)⁻¹ := by rw [zpow_neg]; norm_cast
        _ ≤ ((2 ^ 3) ^ 358)⁻¹ := by
            apply inv_anti₀ (by positivity)
            exact pow_le_pow_left₀ (by norm_num) (by norm_num) _
        _ = 2 ^ (-1074 : ℤ) := by
            rw [← pow_mul, zpow_neg]
            exact congrArg _ (zpow_natCast 2 1074).symm
        _ ≤ 2 ^ e := zpow_le_zpow_right₀ (by norm_num) he
        _ ≤ |(N : ℚ)| * 2 ^ e := le_mul_of_one_le_left (by positivity) hN
        _ = |(N : ℚ) * 2 ^ e| := by
            rw [abs_mul, abs_of_pos (zpow_pos (by norm_num : (0 : ℚ) < 2) e)]
    rw [← Int.zpow_le_iff_le_log (by norm_num) hPos]
    exact_mod_cast hPow
  obtain ⟨hFirst, hCarry⟩ := significand_exponent n q
  omega

theorem length_pointText_le (whole frac : Bytes) :
    (pointText whole frac).length ≤ whole.length + frac.length + 1 := by
  unfold pointText
  simp only
  split
  · omega
  · have hFrac := (List.rdropWhile_prefix (fun b => decide (b = byte '0')) frac).length_le
    rw [List.length_append, List.length_cons]
    omega

theorem length_exponentText_le {x : Int} (h : x.natAbs < 1000) : (exponentText x).length ≤ 5 := by
  unfold exponentText
  rw [List.length_cons, List.length_cons, List.length_append]
  split
  · rename_i hSmall
    have hDigits := length_decimal_le (k := 1) (by norm_num) (by simpa using hSmall)
    rw [List.length_singleton]
    omega
  · have hDigits := length_decimal_le (k := 3) (by norm_num) (by simpa using h)
    rw [List.length_nil]
    omega

/-- A sign, a point, and an exponent of five bytes. -/
theorem length_generalText_le {n : Nat} (hn : 0 < n) {v : Double} (hv : v.IsValue) :
    (generalText n v).length ≤ n + 7 := by
  have hSign : ∀ negative, (signText negative).length ≤ 1 := by decide
  cases v with
  | finite q =>
      have hq := hSign (decide (q < 0))
      unfold generalText
      rw [List.length_append]
      split
      · rw [List.length_singleton]
        omega
      · rename_i hne
        obtain ⟨hLow, hHigh⟩ := significand_digits hn hne
        have hLength := length_decimal hn hLow hHigh
        have hExponent := length_exponentText_le (abs_exponent_lt hne hv.1 hv.2 n)
        unfold significandText
        simp only
        split
        · have hPoint := length_pointText_le ((decimal (significand n q).digits).take 1)
            ((decimal (significand n q).digits).drop 1)
          rw [List.length_take, List.length_drop, hLength] at hPoint
          rw [List.length_append]
          omega
        · rename_i hPlain
          split
          · have hPoint := length_pointText_le [byte '0']
              (List.replicate (-(significand n q).exponent - 1).toNat (byte '0') ++
                decimal (significand n q).digits)
            rw [List.length_append, List.length_replicate, List.length_singleton, hLength] at hPoint
            omega
          · have hPoint := length_pointText_le
              ((decimal (significand n q).digits).take ((significand n q).exponent.toNat + 1))
              ((decimal (significand n q).digits).drop ((significand n q).exponent.toNat + 1))
            rw [List.length_take, List.length_drop, hLength] at hPoint
            omega
  | inf negative =>
      have hInf : (ascii "inf").length = 3 := by decide
      have := hSign negative
      rw [generalText, List.length_append, hInf]
      omega
  | nan =>
      have hNan : (ascii "nan").length = 3 := by decide
      rw [generalText, hNan]
      omega

/-- The bytes of a number that are no digits. -/
def numberMarks : Bytes := ascii "-+.einfa"

theorem mem_signText {negative : Bool} {b : Byte} (h : b ∈ signText negative) :
    b ∈ numberMarks := by
  cases negative with
  | true =>
      obtain rfl := List.mem_singleton.mp h
      decide
  | false => cases h

theorem mem_exponentText {x : Int} {b : Byte} (h : b ∈ exponentText x) :
    isdigit b = true ∨ b ∈ numberMarks := by
  unfold exponentText at h
  rcases List.mem_cons.mp h with rfl | h
  · exact Or.inr (by decide)
  · rcases List.mem_cons.mp h with rfl | h
    · refine Or.inr ?_
      split <;> decide
    · rcases List.mem_append.mp h with h | h
      · split at h
        · obtain rfl := List.mem_singleton.mp h
          exact Or.inl (by decide)
        · cases h
      · exact Or.inl (isdigit_of_mem_decimal h)

theorem mem_significandText {n : Nat} {s : Significand} {b : Byte}
    (h : b ∈ significandText n s) : isdigit b = true ∨ b ∈ numberMarks := by
  have hDigits : ∀ b ∈ decimal s.digits, isdigit b = true := fun b => isdigit_of_mem_decimal
  have hPoint : ∀ whole frac : Bytes, (∀ b ∈ whole, isdigit b = true) →
      (∀ b ∈ frac, isdigit b = true) → b ∈ pointText whole frac →
        isdigit b = true ∨ b ∈ numberMarks := by
    intro whole frac hWhole hFrac hb
    rcases mem_pointText hWhole hFrac hb with hDigit | rfl
    · exact Or.inl hDigit
    · exact Or.inr (by decide)
  unfold significandText at h
  simp only at h
  split at h
  · rcases List.mem_append.mp h with h | h
    · exact hPoint _ _ (fun b hb => hDigits b (List.mem_of_mem_take hb))
        (fun b hb => hDigits b (List.mem_of_mem_drop hb)) h
    · exact mem_exponentText h
  · split at h
    · refine hPoint _ _ (by decide) ?_ h
      intro b hb
      rcases List.mem_append.mp hb with hb | hb
      · rw [List.eq_of_mem_replicate hb]
        decide
      · exact hDigits b hb
    · exact hPoint _ _ (fun b hb => hDigits b (List.mem_of_mem_take hb))
        (fun b hb => hDigits b (List.mem_of_mem_drop hb)) h

theorem mem_generalText {n : Nat} {v : Double} {b : Byte} (h : b ∈ generalText n v) :
    isdigit b = true ∨ b ∈ numberMarks := by
  have hLetters : ∀ b ∈ ascii "inf" ++ ascii "nan", b ∈ numberMarks := by decide
  cases v with
  | finite q =>
      unfold generalText at h
      rcases List.mem_append.mp h with h | h
      · exact Or.inr (mem_signText h)
      · split at h
        · obtain rfl := List.mem_singleton.mp h
          exact Or.inl (by decide)
        · exact mem_significandText h
  | inf negative =>
      rcases List.mem_append.mp h with h | h
      · exact Or.inr (mem_signText h)
      · exact Or.inr (hLetters b (List.mem_append_left _ h))
  | nan => exact Or.inr (hLetters b (List.mem_append_right _ h))

theorem mem_fixedText {v : Double} {b : Byte} (h : b ∈ fixedText v) :
    isdigit b = true ∨ b ∈ numberMarks := by
  have hLetters : ∀ b ∈ ascii "inf" ++ ascii "nan", b ∈ numberMarks := by decide
  cases v with
  | finite q =>
      rcases List.mem_append.mp h with h | h
      · exact Or.inr (mem_signText h)
      · exact Or.inl (isdigit_of_mem_decimal h)
  | inf negative =>
      rcases List.mem_append.mp h with h | h
      · exact Or.inr (mem_signText h)
      · exact Or.inr (hLetters b (List.mem_append_left _ h))
  | nan => exact Or.inr (hLetters b (List.mem_append_right _ h))

theorem generalText_ne_nil {n : Nat} (hn : 0 < n) (v : Double) : generalText n v ≠ [] := by
  intro hNil
  obtain ⟨x, hScan, -⟩ := @scanFloat_generalText n hn v [] (by intro b hb; cases hb)
  rw [hNil] at hScan
  cases hScan

theorem fixedText_ne_nil (v : Double) : fixedText v ≠ [] := by
  have hInf : ascii "inf" ≠ [] := by decide
  cases v with
  | finite q => exact List.append_ne_nil_of_right_ne_nil _ (decimal_ne_nil _)
  | inf negative => exact List.append_ne_nil_of_right_ne_nil _ hInf
  | nan => decide

/-- No mark and no digit is a NUL. -/
theorem zero_notMem_of_number {s : Bytes} (h : ∀ b ∈ s, isdigit b = true ∨ b ∈ numberMarks) :
    0 ∉ s := by
  intro hZero
  exact absurd (h 0 hZero) (by decide)

/-- `printf` of the C library.  The digits of `%g` are those of the value that a variable
holds; `%.0f` prints all digits of an integer. -/
def cPrintf : Printf Double where
  f0 := fixedText
  g10 v := generalText 10 v.stored
  g17 v := generalText 17 v.stored
  f0_text v := ⟨fixedText_ne_nil _, zero_notMem_of_number fun _ => mem_fixedText⟩
  g10_text v := ⟨generalText_ne_nil (by norm_num) _, zero_notMem_of_number fun _ => mem_generalText⟩
  g17_text v := ⟨generalText_ne_nil (by norm_num) _, zero_notMem_of_number fun _ => mem_generalText⟩

/-- 17 digits are read back as the value that was printed. -/
theorem scanFloat_g17 {v : Double} (hv : v.IsValue) {rest : Bytes} (hRest : EndsNumber rest) :
    ∃ x, scanFloat (cPrintf.g17 v ++ rest) = some (x, rest) ∧ x.toDouble = v := by
  obtain ⟨x, hScan, hNear⟩ := scanFloat_generalText (by norm_num : 0 < 17) v.stored hRest
  rw [Double.stored_of_isValue hv] at hNear
  exact ⟨x, hScan, hNear.toDouble_eq hv⟩

end Lib
end SvgdCollect
