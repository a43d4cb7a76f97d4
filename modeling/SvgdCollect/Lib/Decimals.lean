import SvgdCollect.Lib.Scan

/-!
# Significant digits

A number rounded to `n` significant decimal digits, and the doubles nearest to such
numbers.  Half a unit of the last of 17 digits is less than half a unit of the last
place of a double, so 17 digits tell all doubles apart.
-/

namespace SvgdCollect
namespace Lib

/-! ## Significant digits -/

/-- The digits of a positive number, and the exponent of the first one. -/
structure Significand where
  digits : Nat
  exponent : Int

/-- The number that `n` significant digits denote. -/
def Significand.value (n : Nat) (s : Significand) : ℚ :=
  s.digits * 10 ^ (s.exponent + 1 - n)

/-- The decimal place of the last of `n` significant digits of `q`. -/
def unitPlace (n : Nat) (q : ℚ) : Int := Int.log 10 |q| + 1 - n

/-- `|q|` rounded to `n` significant digits. -/
def significand (n : Nat) (q : ℚ) : Significand :=
  let m := (roundHalfEven (|q| / 10 ^ unitPlace n q)).toNat
  -- nines that are rounded up give one digit more
  if m = 10 ^ n then ⟨10 ^ (n - 1), Int.log 10 |q| + 1⟩ else ⟨m, Int.log 10 |q|⟩

theorem abs_roundHalfEven_sub_le (q : ℚ) : |(roundHalfEven q : ℚ) - q| ≤ 1 / 2 := by
  have hLow := Int.floor_le q
  have hHigh := Int.lt_floor_add_one q
  rw [abs_le]
  simp only [roundHalfEven]
  split_ifs <;> push_cast <;> constructor <;> linarith

section Rounding

variable {n : Nat} {q : ℚ}

/-- In units of the last digit the number lies between `10^(n-1)` and `10^n`. -/
theorem units_bounds (hq : q ≠ 0) :
    (10 : ℚ) ^ ((n : ℤ) - 1) ≤ |q| / 10 ^ unitPlace n q ∧
      |q| / 10 ^ unitPlace n q < (10 : ℚ) ^ (n : ℤ) := by
  have hPos := abs_pos.mpr hq
  have hLow : (10 : ℚ) ^ Int.log 10 |q| ≤ |q| := by
    exact_mod_cast Int.zpow_log_le_self (by norm_num) hPos
  have hHigh : |q| < (10 : ℚ) ^ (Int.log 10 |q| + 1) := by
    exact_mod_cast Int.lt_zpow_succ_log_self (by norm_num) |q|
  have hFirst : (n : ℤ) - 1 + unitPlace n q = Int.log 10 |q| := by
    unfold unitPlace
    omega
  have hAbove : (n : ℤ) + unitPlace n q = Int.log 10 |q| + 1 := by
    unfold unitPlace
    omega
  constructor
  · rwa [le_div_iff₀ (by positivity), ← zpow_add₀ (by norm_num), hFirst]
  · rwa [div_lt_iff₀ (by positivity), ← zpow_add₀ (by norm_num), hAbove]

theorem rounded_bounds (hn : 0 < n) (hq : q ≠ 0) :
    (10 : ℤ) ^ (n - 1) ≤ roundHalfEven (|q| / 10 ^ unitPlace n q) ∧
      roundHalfEven (|q| / 10 ^ unitPlace n q) ≤ (10 : ℤ) ^ n := by
  obtain ⟨hLow, hHigh⟩ := @units_bounds n q hq
  constructor
  · apply le_roundHalfEven
    push_cast
    rw [← zpow_natCast, Nat.cast_sub hn]
    exact hLow
  · apply roundHalfEven_le
    push_cast
    rw [← zpow_natCast]
    exact hHigh.le

theorem significand_digits (hn : 0 < n) (hq : q ≠ 0) :
    10 ^ (n - 1) ≤ (significand n q).digits ∧ (significand n q).digits < 10 ^ n := by
  obtain ⟨hLow, hHigh⟩ := rounded_bounds hn hq
  have hStep : 10 ^ (n - 1) < 10 ^ n := Nat.pow_lt_pow_right (by norm_num) (by omega)
  unfold significand
  obtain ⟨m, hm⟩ := Int.eq_ofNat_of_zero_le (le_trans (by positivity) hLow)
  rw [hm] at hLow hHigh
  simp only [hm, Int.toNat_natCast]
  split
  · exact ⟨le_rfl, hStep⟩
  · rename_i hNines
    have hLess : m ≤ 10 ^ n := by exact_mod_cast hHigh
    exact ⟨by exact_mod_cast hLow, lt_of_le_of_ne hLess hNines⟩

theorem significand_exponent (n : Nat) (q : ℚ) :
    Int.log 10 |q| ≤ (significand n q).exponent ∧
      (significand n q).exponent ≤ Int.log 10 |q| + 1 := by
  unfold significand
  simp only
  split <;> exact ⟨by simp, by simp⟩

theorem significand_value (hn : 0 < n) (hq : q ≠ 0) :
    (significand n q).value n =
      roundHalfEven (|q| / 10 ^ unitPlace n q) * 10 ^ unitPlace n q := by
  obtain ⟨hLow, -⟩ := rounded_bounds hn hq
  have hNonneg : 0 ≤ roundHalfEven (|q| / 10 ^ unitPlace n q) := le_trans (by positivity) hLow
  have hCast : ((roundHalfEven (|q| / 10 ^ unitPlace n q)).toNat : ℚ) =
      roundHalfEven (|q| / 10 ^ unitPlace n q) := by
    exact_mod_cast Int.toNat_of_nonneg hNonneg
  unfold significand Significand.value
  simp only
  split
  · rename_i hNines
    rw [← hCast, hNines]
    push_cast
    rw [← zpow_natCast, ← zpow_natCast, ← zpow_add₀ (by norm_num), ← zpow_add₀ (by norm_num),
      Nat.cast_sub hn]
    congr 1
    unfold unitPlace
    push_cast
    ring
  · rw [hCast]
    rfl

/-- Rounding is off by half a unit of the last digit at most. -/
theorem abs_significand_sub_le (hn : 0 < n) (hq : q ≠ 0) :
    |(significand n q).value n - (|q|)| ≤ |q| * (10 ^ (1 - (n : ℤ)) / 2) := by
  have hUnit : (10 : ℚ) ^ unitPlace n q ≤ |q| * 10 ^ (1 - (n : ℤ)) := by
    have hLow : (10 : ℚ) ^ Int.log 10 |q| ≤ |q| := by
      exact_mod_cast Int.zpow_log_le_self (by norm_num) (abs_pos.mpr hq)
    calc (10 : ℚ) ^ unitPlace n q = 10 ^ Int.log 10 |q| * 10 ^ (1 - (n : ℤ)) := by
          rw [← zpow_add₀ (by norm_num)]
          congr 1
          unfold unitPlace
          ring
      _ ≤ |q| * 10 ^ (1 - (n : ℤ)) := mul_le_mul_of_nonneg_right hLow (by positivity)
  have hRound := abs_roundHalfEven_sub_le (|q| / 10 ^ unitPlace n q)
  have hScale : (significand n q).value n - |q| =
      (roundHalfEven (|q| / 10 ^ unitPlace n q) - |q| / 10 ^ unitPlace n q) *
        10 ^ unitPlace n q := by
    rw [significand_value hn hq]
    field_simp
  rw [hScale, abs_mul, abs_of_pos (zpow_pos (by norm_num : (0 : ℚ) < 10) _)]
  calc |(roundHalfEven (|q| / 10 ^ unitPlace n q) : ℚ) - |q| / 10 ^ unitPlace n q| *
        10 ^ unitPlace n q
      ≤ 1 / 2 * 10 ^ unitPlace n q := mul_le_mul_of_nonneg_right hRound (by positivity)
    _ ≤ 1 / 2 * (|q| * 10 ^ (1 - (n : ℤ))) := mul_le_mul_of_nonneg_left hUnit (by norm_num)
    _ = |q| * (10 ^ (1 - (n : ℤ)) / 2) := by ring

/-- A number that is close to one with `n` digits is below the next power of ten. -/
theorem lt_pow_of_close {d : ℚ} {z : ℤ} {k : ℕ} (hz : |z| < 10 ^ n)
    (hClose : |d - z / 10 ^ k| ≤ |d| / 10 ^ n / 4) : |d| < 10 ^ n / 10 ^ k := by
  have hPlaces : (0 : ℚ) < 10 ^ k := by positivity
  have hOne : (1 : ℚ) ≤ 10 ^ n := one_le_pow₀ (by norm_num)
  have hDigits : |(z : ℚ)| ≤ 10 ^ n - 1 := by
    have hInt : |z| ≤ 10 ^ n - 1 := by omega
    exact_mod_cast hInt
  have hTriangle : |d| ≤ |d| / 10 ^ n / 4 + (10 ^ n - 1) / 10 ^ k := by
    have hSum := abs_add_le (d - z / 10 ^ k) (z / 10 ^ k)
    rw [sub_add_cancel, abs_div, abs_of_pos hPlaces] at hSum
    have hDecimal : |(z : ℚ)| / 10 ^ k ≤ (10 ^ n - 1) / 10 ^ k := by gcongr
    linarith
  by_contra hAbove
  have hUnits : 10 ^ n ≤ |d| * 10 ^ k := by rwa [not_lt, div_le_iff₀ hPlaces] at hAbove
  have hScaled : |d| * 10 ^ k ≤ |d| * 10 ^ k / 10 ^ n / 4 + (10 ^ n - 1) := by
    calc |d| * 10 ^ k ≤ (|d| / 10 ^ n / 4 + (10 ^ n - 1) / 10 ^ k) * 10 ^ k := by gcongr
      _ = |d| * 10 ^ k / 10 ^ n / 4 + (10 ^ n - 1) := by field_simp
  have hShare : |d| * 10 ^ k / 10 ^ n / 4 ≤ |d| * 10 ^ k - 10 ^ n + 1 / 4 := by
    rw [div_div, div_le_iff₀ (by positivity)]
    nlinarith
  linarith

/-- It has the same significant digits. -/
theorem significand_value_of_close {d : ℚ} {z : ℤ} {k : ℕ} (hn : 0 < n) (hd : d ≠ 0)
    (hz : |z| < 10 ^ n) (hClose : |d - z / 10 ^ k| ≤ |d| / 10 ^ n / 4) :
    (significand n d).value n = |(z : ℚ) / 10 ^ k| := by
  have hTen : (0 : ℚ) < 10 ^ n := by positivity
  -- the unit of `d` divides the last place of the decimal
  have hUnit : unitPlace n d ≤ -k := by
    have hLog : Int.log 10 |d| < n - k := by
      rw [← Int.lt_zpow_iff_log_lt (by norm_num) (abs_pos.mpr hd)]
      have hBelow := lt_pow_of_close hz hClose
      rw [← zpow_natCast, ← zpow_natCast, ← zpow_sub₀ (by norm_num)] at hBelow
      exact_mod_cast hBelow
    unfold unitPlace
    omega
  obtain ⟨j, hj⟩ := Int.eq_ofNat_of_zero_le (by omega : 0 ≤ -(k : ℤ) - unitPlace n d)
  have hGrid : |(z : ℚ) / 10 ^ k| = ((|z| * 10 ^ j : ℤ) : ℚ) * 10 ^ unitPlace n d := by
    have hSplit : (10 : ℚ) ^ j * 10 ^ unitPlace n d = (10 ^ k)⁻¹ := by
      rw [← zpow_natCast, ← zpow_natCast, ← zpow_add₀ (by norm_num), ← zpow_neg]
      congr 1
      omega
    rw [abs_div, abs_of_pos (by positivity : (0 : ℚ) < 10 ^ k), div_eq_mul_inv, ← hSplit]
    push_cast
    ring
  have hNear : |(|d| / 10 ^ unitPlace n d) - ((|z| * 10 ^ j : ℤ) : ℚ)| < 1 / 2 := by
    have hScale : |d| / 10 ^ unitPlace n d - ((|z| * 10 ^ j : ℤ) : ℚ) =
        (|d| - |(z : ℚ) / 10 ^ k|) / 10 ^ unitPlace n d := by
      rw [hGrid]
      field_simp
    have hUnits := (@units_bounds n d hd).2
    rw [zpow_natCast] at hUnits
    rw [hScale, abs_div, abs_of_pos (by positivity : (0 : ℚ) < 10 ^ unitPlace n d)]
    calc |(|d| - |(z : ℚ) / 10 ^ k|)| / 10 ^ unitPlace n d
        ≤ |d| / 10 ^ n / 4 / 10 ^ unitPlace n d := by
          gcongr
          exact (abs_abs_sub_abs_le _ _).trans hClose
      _ = |d| / 10 ^ unitPlace n d / 10 ^ n / 4 := by ring
      _ ≤ 10 ^ n / 10 ^ n / 4 := by gcongr
      _ < 1 / 2 := by
          rw [div_self hTen.ne']
          norm_num
  rw [significand_value hn hd, roundHalfEven_of_near hNear, ← hGrid]

end Rounding

/-! ## Nearest doubles -/

/-- Half a unit of the 17th digit is less than half a unit of the last place. -/
theorem roundDouble_of_close {x q : ℚ} (hx : IsDouble x)
    (h : |q - x| ≤ |x| * (10 ^ (-16 : ℤ) / 2)) : roundDouble q = x := by
  rcases eq_or_ne x 0 with rfl | hne
  · obtain rfl : q = 0 := by simpa using h
    exact roundDouble_zero
  have hPos := abs_pos.mpr hne
  norm_num at h
  have hTriangle : |x| ≤ |q| + |q - x| := by
    have := abs_sub_abs_le_abs_sub x q
    rw [abs_sub_comm x q] at this
    linarith
  have hq : 0 < |q| := by linarith
  have hPlace : lastPlace |q| = lastPlace q := by
    unfold lastPlace
    rw [abs_abs]
  have hUpper := lt_of_lastPlace hq
  rw [hPlace] at hUpper
  -- `x` is a multiple of the unit that `q` is rounded to
  obtain ⟨z, hz⟩ : ∃ z : ℤ, x = z * 2 ^ lastPlace q := by
    obtain ⟨N, e, rfl, hN, he⟩ := hx
    rcases le_or_gt (lastPlace q) e with hFine | hCoarse
    · refine ⟨N * 2 ^ (e - lastPlace q).toNat, ?_⟩
      push_cast
      rw [← zpow_natCast, Int.toNat_of_nonneg (by omega), mul_assoc, ← zpow_add₀ (by norm_num),
        sub_add_cancel]
    · -- otherwise `q` would be a whole unit of `x` above it
      have hLower := le_of_lastPlace_lt hq he (hPlace.symm ▸ hCoarse)
      have hStep : (2 : ℚ) * 2 ^ e ≤ 2 ^ lastPlace |q| := by
        rw [hPlace, ← zpow_one_add₀ (by norm_num)]
        exact zpow_le_zpow_right₀ (by norm_num) (by omega)
      have hUnit : (0 : ℚ) < 2 ^ e := by positivity
      have hSmall : |(N : ℚ) * 2 ^ e| ≤ (2 ^ 53 - 1) * 2 ^ e := by
        rw [abs_mul, abs_of_pos hUnit]
        apply mul_le_mul_of_nonneg_right _ hUnit.le
        have hNat : |N| ≤ 2 ^ 53 - 1 := by omega
        exact_mod_cast hNat
      have hApart := abs_sub_abs_le_abs_sub q (N * 2 ^ e)
      exfalso
      linarith
  have hUnit : (0 : ℚ) < 2 ^ lastPlace q := by positivity
  have hNear : |q / 2 ^ lastPlace q - z| < 1 / 2 := by
    have hScale : q / 2 ^ lastPlace q - z = (q - x) / 2 ^ lastPlace q := by
      rw [hz]
      field_simp
    rw [hScale, abs_div, abs_of_pos hUnit, div_lt_iff₀ hUnit]
    linarith
  rw [roundDouble, roundHalfEven_of_near hNear, ← hz]

/-- The result of rounding has 53 bits. -/
theorem isDouble_roundDouble (q : ℚ) : IsDouble (roundDouble q) := by
  rcases eq_or_ne q 0 with rfl | hne
  · exact ⟨0, 0, by simp [roundDouble_zero], by norm_num, by norm_num⟩
  have hPlace : lastPlace |q| = lastPlace q := by
    unfold lastPlace
    rw [abs_abs]
  have hUnit : (0 : ℚ) < 2 ^ lastPlace q := by positivity
  have hUnits : |q / 2 ^ lastPlace q| ≤ 2 ^ 53 := by
    have hUpper := lt_of_lastPlace (abs_pos.mpr hne)
    rw [hPlace] at hUpper
    rw [abs_div, abs_of_pos hUnit, div_le_iff₀ hUnit]
    exact hUpper.le
  have hBound : |roundHalfEven (q / 2 ^ lastPlace q)| ≤ 2 ^ 53 := by
    rw [abs_le] at hUnits ⊢
    exact ⟨le_roundHalfEven (by exact_mod_cast hUnits.1),
      roundHalfEven_le (by exact_mod_cast hUnits.2)⟩
  have hLow := neg_1074_le_lastPlace q
  rcases hBound.lt_or_eq with hLess | hCarry
  · exact ⟨_, _, rfl, hLess, hLow⟩
  · -- 2^53 units are 2^52 units of the next binade
    have hNext : (2 : ℚ) ^ 53 * 2 ^ lastPlace q = 2 ^ 52 * 2 ^ (lastPlace q + 1) := by
      rw [zpow_add_one₀ (by norm_num)]
      ring
    rcases (abs_eq (by norm_num)).mp hCarry with hPlus | hMinus
    · refine ⟨2 ^ 52, lastPlace q + 1, ?_, by norm_num, by omega⟩
      rw [roundDouble, hPlus]
      exact_mod_cast hNext
    · refine ⟨-2 ^ 52, lastPlace q + 1, ?_, by norm_num, by omega⟩
      rw [roundDouble, hMinus]
      push_cast
      linarith

/-- What a variable of type `double` can hold. -/
def Double.IsValue : Double → Prop
  | .finite q => IsDouble q ∧ |q| < 2 ^ 1024
  | _ => True

/-- The value that a variable holds after the assignment. -/
def Double.stored : Double → Double
  | .finite q => .ofRat q
  | v => v

theorem Double.isValue_ofRat (q : ℚ) : (Double.ofRat q).IsValue := by
  unfold Double.ofRat
  split
  · rename_i hFinite
    exact ⟨isDouble_roundDouble q, hFinite⟩
  · trivial

theorem Double.isValue_stored (v : Double) : v.stored.IsValue := by
  cases v with
  | finite q => exact isValue_ofRat q
  | inf negative => trivial
  | nan => trivial

theorem Double.stored_of_isValue {v : Double} (h : v.IsValue) : v.stored = v := by
  cases v with
  | finite q =>
      obtain ⟨hDouble, hFinite⟩ := h
      rw [stored, ofRat, roundDouble_of_isDouble hDouble, if_pos hFinite]
  | inf negative => rfl
  | nan => rfl

/-- A small integer is a double. -/
theorem Double.ofInt_of_abs_lt {n : ℤ} (h : |n| < 2 ^ 53) :
    (CDouble.ofInt n : Double) = .finite n := by
  have hLarge : |(n : ℚ)| < 2 ^ 1024 := by
    have hCast : |(n : ℚ)| < 2 ^ 53 := by exact_mod_cast h
    exact hCast.trans (pow_lt_pow_right₀ (by norm_num) (by norm_num))
  exact @stored_of_isValue (.finite n) ⟨⟨n, 0, by simp, h, by norm_num⟩, hLarge⟩

/-- A number that was read is within a relative distance of a value. -/
def Scanned.Near (ε : ℚ) : Scanned → Double → Prop
  | .rat p, .finite q => |p - q| ≤ |q| * ε
  | .inf a, .inf b => a = b
  | .nan, .nan => True
  | _, _ => False

/-- A value is determined by 17 significant digits. -/
theorem Scanned.Near.toDouble_eq {x : Scanned} {v : Double} (hv : v.IsValue)
    (h : x.Near (10 ^ (-16 : ℤ) / 2) v) : x.toDouble = v := by
  cases v with
  | finite q =>
      cases x with
      | rat p =>
          obtain ⟨hDouble, hFinite⟩ := hv
          show Double.ofRat p = .finite q
          rw [Double.ofRat, roundDouble_of_close hDouble h, if_pos hFinite]
      | inf a => exact h.elim
      | nan => exact h.elim
  | inf b =>
      cases x with
      | rat p => exact h.elim
      | inf a =>
          obtain rfl : a = b := h
          rfl
      | nan => exact h.elim
  | nan =>
      cases x with
      | rat p => exact h.elim
      | inf a => exact h.elim
      | nan => rfl

end Lib
end SvgdCollect
