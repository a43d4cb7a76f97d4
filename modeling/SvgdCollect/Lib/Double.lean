import SvgdCollect.Lib.Numerals
import Mathlib.Algebra.Order.Field.Power
import Mathlib.Data.Int.Log
import Mathlib.Data.Rat.Floor
import Mathlib.Tactic.Linarith
import Mathlib.Tactic.Positivity
import Mathlib.Tactic.FieldSimp

/-!
# Double precision numbers

`CDouble` names the operations on C's `double` that a program may use, so that
code can be modelled once and run over IEEE arithmetic or over exact rationals.

`Double` is the IEEE instance.  Its values are rationals, and every operation is
the exact one followed by rounding to the nearest representable number, ties to
even.  There is one zero and one NaN: their signs, which `printf` shows, are left out.
-/

namespace SvgdCollect
namespace Lib

/-- The operations of C's `double`.  `ofRat` is conversion from an integer or a
decimal text, rounded to nearest. -/
class CDouble (D : Type) where
  ofRat : ℚ → D
  inf : Bool → D
  nan : D
  mul : D → D → D
  div : D → D → D
  isfinite : D → Bool
  le : D → D → Bool
  eq : D → D → Bool
  floor : D → D

/-- `(double)n` for an integer `n`. -/
def CDouble.ofInt {D : Type} [CDouble D] (n : ℤ) : D := CDouble.ofRat (n : ℚ)

/-- Exact arithmetic: nothing is rounded. -/
instance : CDouble ℚ where
  ofRat q := q
  inf _ := 0
  nan := 0
  mul a b := a * b
  div a b := a / b
  isfinite _ := true
  le a b := decide (a ≤ b)
  eq a b := decide (a = b)
  floor q := (⌊q⌋ : ℤ)

/-- The `printf` conversions of a `double` that are left to the C library: a
nonempty C string each. -/
structure Printf (D : Type) where
  /-- `%.0f` -/
  f0 : D → Bytes
  /-- `%.10g` -/
  g10 : D → Bytes
  /-- `%.17g` -/
  g17 : D → Bytes
  f0_text : ∀ v, f0 v ≠ [] ∧ 0 ∉ f0 v
  g10_text : ∀ v, g10 v ≠ [] ∧ 0 ∉ g10 v
  g17_text : ∀ v, g17 v ≠ [] ∧ 0 ∉ g17 v

/-! ## Rounding -/

/-- The nearest integer, the even one of two. -/
def roundHalfEven (q : ℚ) : ℤ :=
  let f := ⌊q⌋
  if q - f < 1 / 2 then f
  else if 1 / 2 < q - f then f + 1
  else if f % 2 = 0 then f else f + 1

/-- The exponent of the last place of the doubles around `q`. -/
def lastPlace (q : ℚ) : ℤ := max (Int.log 2 |q|) (-1022) - 52

/-- The nearest number with 53 significant bits, ties to even. -/
def roundDouble (q : ℚ) : ℚ := roundHalfEven (q / 2 ^ lastPlace q) * 2 ^ lastPlace q

/-- The rationals that a double can hold, up to overflow. -/
def IsDouble (q : ℚ) : Prop := ∃ n e : ℤ, q = n * 2 ^ e ∧ |n| < 2 ^ 53 ∧ -1074 ≤ e

theorem roundHalfEven_intCast (n : ℤ) : roundHalfEven (n : ℚ) = n := by
  simp [roundHalfEven]

theorem roundHalfEven_floor_or (q : ℚ) :
    roundHalfEven q = ⌊q⌋ ∨ roundHalfEven q = ⌊q⌋ + 1 := by
  simp only [roundHalfEven]
  split
  · exact Or.inl rfl
  · split
    · exact Or.inr rfl
    · split
      · exact Or.inl rfl
      · exact Or.inr rfl

theorem roundHalfEven_mono {a b : ℚ} (h : a ≤ b) : roundHalfEven a ≤ roundHalfEven b := by
  have hFloor : ⌊a⌋ ≤ ⌊b⌋ := Int.floor_mono h
  rcases hFloor.lt_or_eq with hlt | heq
  · rcases roundHalfEven_floor_or a with ha | ha <;>
      rcases roundHalfEven_floor_or b with hb | hb <;> omega
  · -- on one unit interval the answer only depends on the fraction
    simp only [roundHalfEven, heq]
    have hFrac : a - (⌊b⌋ : ℚ) ≤ b - (⌊b⌋ : ℚ) := by linarith
    split_ifs <;> first | omega | (exfalso; linarith)

theorem le_roundHalfEven {n : ℤ} {q : ℚ} (h : (n : ℚ) ≤ q) : n ≤ roundHalfEven q := by
  have hMono := roundHalfEven_mono h
  rwa [roundHalfEven_intCast] at hMono

theorem roundHalfEven_le {n : ℤ} {q : ℚ} (h : q ≤ (n : ℚ)) : roundHalfEven q ≤ n := by
  have hMono := roundHalfEven_mono h
  rwa [roundHalfEven_intCast] at hMono

theorem lastPlace_mono {a b : ℚ} (ha : 0 < a) (h : a ≤ b) : lastPlace a ≤ lastPlace b := by
  have hb : 0 < b := lt_of_lt_of_le ha h
  unfold lastPlace
  rw [abs_of_pos ha, abs_of_pos hb]
  have hLog : Int.log 2 a ≤ Int.log 2 b := Int.log_mono_right ha h
  omega

/-- A positive number is below 2^53 units of its last place. -/
theorem lt_of_lastPlace {q : ℚ} (hq : 0 < q) : q < 2 ^ 53 * 2 ^ lastPlace q := by
  have hLog : q < (2 : ℚ) ^ (Int.log 2 q + 1) := by
    exact_mod_cast Int.lt_zpow_succ_log_self (by norm_num) q
  have hLe : (2 : ℚ) ^ (Int.log 2 q + 1) ≤ 2 ^ (lastPlace q + 53) := by
    apply zpow_le_zpow_right₀ (by norm_num)
    unfold lastPlace
    rw [abs_of_pos hq]
    omega
  calc q < (2 : ℚ) ^ (Int.log 2 q + 1) := hLog
    _ ≤ 2 ^ (lastPlace q + 53) := hLe
    _ = 2 ^ 53 * 2 ^ lastPlace q := by
        rw [zpow_add₀ (by norm_num)]
        norm_num
        ring

/-- A number with a coarser last place than another has 53 significant bits. -/
theorem le_of_lastPlace_lt {q : ℚ} {e : ℤ} (hq : 0 < q) (he : -1074 ≤ e)
    (h : e < lastPlace q) : 2 ^ 52 * (2 : ℚ) ^ lastPlace q ≤ q := by
  have hLog : (2 : ℚ) ^ Int.log 2 q ≤ q := by
    exact_mod_cast Int.zpow_log_le_self (by norm_num) hq
  have hPlace : lastPlace q = Int.log 2 q - 52 := by
    unfold lastPlace at h ⊢
    rw [abs_of_pos hq] at h ⊢
    omega
  calc 2 ^ 52 * (2 : ℚ) ^ lastPlace q = 2 ^ Int.log 2 q := by
        rw [hPlace, zpow_sub₀ (by norm_num)]
        norm_num
        field_simp
    _ ≤ q := hLog

theorem neg_1074_le_lastPlace (q : ℚ) : -1074 ≤ lastPlace q := by
  unfold lastPlace
  omega

theorem roundDouble_zero : roundDouble 0 = 0 := by
  have hZero := roundHalfEven_intCast 0
  rw [Int.cast_zero] at hZero
  simp [roundDouble, hZero]

theorem roundDouble_nonneg {q : ℚ} (hq : 0 ≤ q) : 0 ≤ roundDouble q := by
  have hRound : 0 ≤ roundHalfEven (q / 2 ^ lastPlace q) :=
    le_roundHalfEven (by rw [Int.cast_zero]; positivity)
  unfold roundDouble
  positivity

/-- Rounding is monotone on the nonnegative numbers. -/
theorem roundDouble_mono {a b : ℚ} (ha : 0 ≤ a) (h : a ≤ b) :
    roundDouble a ≤ roundDouble b := by
  rcases ha.lt_or_eq with ha | rfl
  · have hb : 0 < b := lt_of_lt_of_le ha h
    rcases (lastPlace_mono ha h).lt_or_eq with hlt | heq
    · -- the smaller one stays below the power of two that the larger one reaches
      have hUpper : roundHalfEven (a / 2 ^ lastPlace a) ≤ 2 ^ 53 := by
        apply roundHalfEven_le
        rw [div_le_iff₀ (by positivity)]
        exact_mod_cast (lt_of_lastPlace ha).le
      have hLower : 2 ^ 52 ≤ roundHalfEven (b / 2 ^ lastPlace b) := by
        apply le_roundHalfEven
        rw [le_div_iff₀ (by positivity)]
        exact_mod_cast le_of_lastPlace_lt hb (neg_1074_le_lastPlace a) hlt
      have hStep : (2 : ℚ) * 2 ^ lastPlace a ≤ 2 ^ lastPlace b := by
        rw [← zpow_one_add₀ (by norm_num)]
        exact zpow_le_zpow_right₀ (by norm_num) (by omega)
      have hUpper' : (roundHalfEven (a / 2 ^ lastPlace a) : ℚ) ≤ 2 ^ 53 := by exact_mod_cast hUpper
      have hLower' : (2 : ℚ) ^ 52 ≤ roundHalfEven (b / 2 ^ lastPlace b) := by exact_mod_cast hLower
      calc roundDouble a ≤ 2 ^ 53 * 2 ^ lastPlace a :=
            mul_le_mul_of_nonneg_right hUpper' (by positivity)
        _ = 2 ^ 52 * (2 * 2 ^ lastPlace a) := by ring
        _ ≤ 2 ^ 52 * 2 ^ lastPlace b := mul_le_mul_of_nonneg_left hStep (by positivity)
        _ ≤ roundDouble b := mul_le_mul_of_nonneg_right hLower' (by positivity)
    · -- in one binade both are rounded to multiples of one unit
      unfold roundDouble
      rw [heq]
      apply mul_le_mul_of_nonneg_right _ (by positivity)
      have hDiv : a / 2 ^ lastPlace b ≤ b / 2 ^ lastPlace b :=
        div_le_div_of_nonneg_right h (by positivity)
      exact_mod_cast roundHalfEven_mono hDiv
  · rw [roundDouble_zero]
    exact roundDouble_nonneg h

/-- A number that a double can hold is not changed. -/
theorem roundDouble_of_isDouble {q : ℚ} (h : IsDouble q) : roundDouble q = q := by
  obtain ⟨n, e, rfl, hn, he⟩ := h
  by_cases hZero : n = 0
  · simp [hZero, roundDouble_zero]
  -- 53 bits above `2 ^ e`, so its last place is at `e` or below
  have hPlace : lastPlace (n * 2 ^ e : ℚ) ≤ e := by
    have hPos : (0 : ℚ) < |(n : ℚ) * 2 ^ e| := by
      have hn' : (n : ℚ) ≠ 0 := by exact_mod_cast hZero
      positivity
    have hAbs : |(n : ℚ) * 2 ^ e| < 2 ^ (53 + e) := by
      rw [abs_mul, abs_of_pos (zpow_pos (by norm_num : (0 : ℚ) < 2) e),
        zpow_add₀ (by norm_num)]
      apply mul_lt_mul_of_pos_right _ (by positivity)
      exact_mod_cast hn
    have hLog : Int.log 2 |(n : ℚ) * 2 ^ e| < 53 + e := by
      rw [← Int.lt_zpow_iff_log_lt (by norm_num) hPos]
      exact_mod_cast hAbs
    unfold lastPlace
    omega
  have hInt : (n * 2 ^ e : ℚ) / 2 ^ lastPlace (n * 2 ^ e : ℚ) =
      ((n * 2 ^ (e - lastPlace (n * 2 ^ e : ℚ)).toNat : ℤ) : ℚ) := by
    have hPow : (2 : ℚ) ^ (e - lastPlace (n * 2 ^ e : ℚ)).toNat =
        2 ^ (e - lastPlace (n * 2 ^ e : ℚ)) := by
      rw [← zpow_natCast, Int.toNat_of_nonneg (by omega)]
    push_cast
    rw [hPow, zpow_sub₀ (by norm_num), mul_div_assoc]
  unfold roundDouble
  rw [hInt, roundHalfEven_intCast, ← hInt]
  field_simp

theorem isDouble_natCast {n : ℕ} (h : n < 2 ^ 53) : IsDouble n :=
  ⟨n, 0, by simp, by rw [abs_of_nonneg (by positivity)]; exact_mod_cast h, by norm_num⟩

/-- Rounding does not leave a range that ends at powers of two. -/
theorem abs_roundDouble_le {q : ℚ} {k : ℤ} (hk : -1022 ≤ k) (h : |q| ≤ 2 ^ k) :
    |roundDouble q| ≤ 2 ^ k := by
  rcases eq_or_ne q 0 with rfl | hq
  · rw [roundDouble_zero, abs_zero]
    positivity
  have hPlace : lastPlace q ≤ k - 52 := by
    have hLog : Int.log 2 |q| ≤ k := by
      have hMono := Int.log_mono_right (b := 2) (abs_pos.mpr hq) h
      have hCast : (2 : ℚ) ^ k = ((2 : ℕ) : ℚ) ^ k := by norm_num
      rwa [hCast, Int.log_zpow (by norm_num)] at hMono
    unfold lastPlace
    omega
  have hUnits : (2 : ℚ) ^ k / 2 ^ lastPlace q = ((2 ^ (k - lastPlace q).toNat : ℤ) : ℚ) := by
    push_cast
    rw [← zpow_natCast, Int.toNat_of_nonneg (by omega), zpow_sub₀ (by norm_num)]
  rw [abs_le] at h
  have hHigh : roundHalfEven (q / 2 ^ lastPlace q) ≤ 2 ^ (k - lastPlace q).toNat := by
    apply roundHalfEven_le
    rw [← hUnits]
    exact div_le_div_of_nonneg_right h.2 (by positivity)
  have hLow : -2 ^ (k - lastPlace q).toNat ≤ roundHalfEven (q / 2 ^ lastPlace q) := by
    apply le_roundHalfEven
    rw [Int.cast_neg, ← hUnits, ← neg_div]
    exact div_le_div_of_nonneg_right h.1 (by positivity)
  have hAbs : |(roundHalfEven (q / 2 ^ lastPlace q) : ℚ)| ≤ (2 : ℚ) ^ k / 2 ^ lastPlace q := by
    rw [hUnits, abs_le]
    constructor
    · exact_mod_cast hLow
    · exact_mod_cast hHigh
  rw [roundDouble, abs_mul, abs_of_pos (zpow_pos (by norm_num : (0 : ℚ) < 2) _)]
  calc |(roundHalfEven (q / 2 ^ lastPlace q) : ℚ)| * 2 ^ lastPlace q
      ≤ (2 : ℚ) ^ k / 2 ^ lastPlace q * 2 ^ lastPlace q :=
        mul_le_mul_of_nonneg_right hAbs (by positivity)
    _ = 2 ^ k := by field_simp

/-- The double of an integer is an integer. -/
theorem exists_int_roundDouble (n : ℤ) : ∃ z : ℤ, roundDouble n = z := by
  by_cases h : |n| < 2 ^ 53
  · refine ⟨n, roundDouble_of_isDouble ⟨n, 0, by simp, h, by norm_num⟩⟩
  · have hPlace : 0 ≤ lastPlace n := by
      have hBig : (2 : ℚ) ^ (53 : ℤ) ≤ |(n : ℚ)| := by
        exact_mod_cast not_lt.mp h
      have hLog : (53 : ℤ) ≤ Int.log 2 |(n : ℚ)| := by
        rw [← Int.zpow_le_iff_le_log (by norm_num) (lt_of_lt_of_le (by positivity) hBig)]
        exact_mod_cast hBig
      unfold lastPlace
      omega
    refine ⟨roundHalfEven (n / 2 ^ lastPlace n) * 2 ^ (lastPlace n).toNat, ?_⟩
    rw [roundDouble]
    push_cast
    rw [← zpow_natCast, Int.toNat_of_nonneg hPlace]

/-- Less than half a unit away, there is nothing to decide. -/
theorem roundHalfEven_of_near {q : ℚ} {n : ℤ} (h : |q - n| < 1 / 2) : roundHalfEven q = n := by
  rw [abs_lt] at h
  simp only [roundHalfEven]
  by_cases hLe : (n : ℚ) ≤ q
  · have hFloor : ⌊q⌋ = n := Int.floor_eq_iff.mpr ⟨hLe, by linarith⟩
    rw [hFloor, if_pos h.2]
  · have hFloor : ⌊q⌋ = n - 1 := by
      rw [Int.floor_eq_iff]
      push_cast
      constructor <;> linarith
    rw [hFloor]
    push_cast
    rw [if_neg (by linarith), if_pos (by linarith)]
    omega

/-- Half a unit above an even number. -/
theorem roundHalfEven_of_tie {n : ℤ} (hn : n % 2 = 0) : roundHalfEven (n + 1 / 2 : ℚ) = n := by
  have hFloor : ⌊(n + 1 / 2 : ℚ)⌋ = n := by
    rw [Int.floor_eq_iff]
    constructor <;> linarith
  simp only [roundHalfEven, hFloor]
  rw [if_neg (by linarith), if_neg (by linarith), if_pos hn]

theorem lastPlace_eq {q : ℚ} {k : ℤ} (hk : -1022 ≤ k) (hLow : (2 : ℚ) ^ k ≤ q)
    (hHigh : q < 2 ^ (k + 1)) : lastPlace q = k - 52 := by
  have hPos : 0 < q := lt_of_lt_of_le (by positivity) hLow
  have hLog : Int.log 2 q = k := by
    apply le_antisymm
    · have hLt : Int.log 2 q < k + 1 := by
        rw [← Int.lt_zpow_iff_log_lt (by norm_num) hPos]
        exact_mod_cast hHigh
      omega
    · rw [← Int.zpow_le_iff_le_log (by norm_num) hPos]
      exact_mod_cast hLow
  rw [lastPlace, abs_of_pos hPos, hLog]
  omega

/-! ## IEEE values -/

inductive Double
  | finite (q : ℚ)
  | inf (negative : Bool)
  | nan
  deriving DecidableEq, Inhabited

/-- Rounding, with overflow to infinity. -/
def Double.ofRat (q : ℚ) : Double :=
  if |roundDouble q| < 2 ^ 1024 then .finite (roundDouble q) else .inf (decide (q < 0))

def Double.sign : Double → Bool
  | .finite q => decide (q < 0)
  | .inf negative => negative
  | .nan => false

def Double.isZero : Double → Bool
  | .finite q => decide (q = 0)
  | _ => false

def Double.mul : Double → Double → Double
  | .finite a, .finite b => .ofRat (a * b)
  | .nan, _ => .nan
  | _, .nan => .nan
  | a, b => if a.isZero || b.isZero then .nan else .inf (a.sign != b.sign)

def Double.div : Double → Double → Double
  | .nan, _ => .nan
  | _, .nan => .nan
  | .finite a, .finite b =>
      if b = 0 then (if a = 0 then .nan else .inf (decide (a < 0))) else .ofRat (a / b)
  | .finite _, .inf _ => .finite 0
  | .inf negative, .finite b => .inf (negative != decide (b < 0))
  | .inf _, .inf _ => .nan

def Double.le : Double → Double → Bool
  | .nan, _ => false
  | _, .nan => false
  | .inf true, _ => true
  | _, .inf false => true
  | .inf false, _ => false
  | _, .inf true => false
  | .finite a, .finite b => decide (a ≤ b)

instance : CDouble Double where
  ofRat := Double.ofRat
  inf := Double.inf
  nan := Double.nan
  mul := Double.mul
  div := Double.div
  isfinite
    | .finite _ => true
    | _ => false
  le := Double.le
  eq a b := Double.le a b && Double.le b a
  floor
    | .finite q => .finite (⌊q⌋ : ℤ)
    | d => d

theorem Double.le_ofRat {a b : ℚ} (ha : 0 ≤ a) (h : a ≤ b) :
    Double.le (Double.ofRat a) (Double.ofRat b) = true := by
  have hMono := roundDouble_mono ha h
  have ha' := roundDouble_nonneg ha
  have hb' := roundDouble_nonneg (ha.trans h)
  unfold Double.ofRat
  rw [abs_of_nonneg ha', abs_of_nonneg hb']
  by_cases hFinite : roundDouble b < 2 ^ 1024
  · rw [if_pos hFinite, if_pos (lt_of_le_of_lt hMono hFinite)]
    simpa [Double.le] using hMono
  · rw [if_neg hFinite, decide_eq_false (not_lt.mpr (ha.trans h))]
    split
    · rfl
    · rw [decide_eq_false (not_lt.mpr ha)]
      rfl

theorem Double.ofRat_natCast {n : ℕ} (h : n < 2 ^ 53) :
    Double.ofRat (n : ℚ) = .finite (n : ℚ) := by
  have hLt : (n : ℚ) < 2 ^ 1024 := by
    have hn : (n : ℚ) < 2 ^ 53 := by exact_mod_cast h
    exact hn.trans (pow_lt_pow_right₀ (by norm_num) (by norm_num))
  have hPos : (0 : ℚ) ≤ n := Nat.cast_nonneg n
  unfold Double.ofRat
  rw [roundDouble_of_isDouble (isDouble_natCast h), abs_of_nonneg hPos, if_pos hLt]

/-- A product with a small integer is rounded once. -/
theorem Double.mul_ofInt (a : ℚ) {n : ℕ} (h : n < 2 ^ 53) :
    CDouble.mul (Double.finite a) (CDouble.ofInt n) = (CDouble.ofRat (a * n) : Double) := by
  have hFactor : (CDouble.ofInt n : Double) = .finite n := by
    have hNat := Double.ofRat_natCast h
    exact_mod_cast hNat
  rw [hFactor]
  rfl

/-! ## Text of integral values -/

/-- `%.0f`, which agrees with the other conversions on small integers. -/
def integralText : Double → Bytes
  | .finite q =>
      (if roundHalfEven q < 0 then [byte '-'] else []) ++ decimal (roundHalfEven q).natAbs
  | .inf negative => (if negative then [byte '-'] else []) ++ ascii "inf"
  | .nan => ascii "nan"

theorem integralText_clean (v : Double) {b : Byte} (hb : isdigit b = false)
    (hOther : b ∉ byte '-' :: (ascii "inf" ++ ascii "nan")) : b ∉ integralText v := by
  simp only [List.mem_cons, List.mem_append, not_or] at hOther
  cases v with
  | finite q =>
      have hDigits : b ∉ decimal (roundHalfEven q).natAbs := by
        intro hMem
        rw [isdigit_of_mem_decimal hMem] at hb
        contradiction
      by_cases hNegative : roundHalfEven q < 0 <;>
        simp [integralText, hNegative, hOther.1, hDigits]
  | inf negative => cases negative <;> simp [integralText, hOther.1, hOther.2.1]
  | nan => exact hOther.2.2

theorem integralText_ne_nil (v : Double) : integralText v ≠ [] := by
  cases v with
  | finite q => simp [integralText, decimal_ne_nil]
  | inf negative =>
      have hInf : ascii "inf" ≠ [] := by decide
      simp [integralText, hInf]
  | nan => decide

def integralPrintf : Printf Double where
  f0 := integralText
  g10 := integralText
  g17 := integralText
  f0_text v := ⟨integralText_ne_nil v, integralText_clean v (by decide) (by decide)⟩
  g10_text v := ⟨integralText_ne_nil v, integralText_clean v (by decide) (by decide)⟩
  g17_text v := ⟨integralText_ne_nil v, integralText_clean v (by decide) (by decide)⟩

end Lib
end SvgdCollect
