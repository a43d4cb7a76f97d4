import SvgdCollect.Lib.Decimals

/-!
# Accuracy of double arithmetic

A program that is run over doubles and over exact rationals computes the same up to a factor
that is close to one: each rounding contributes at most `2^-53` to it.  `Double.Within` counts
the roundings, and `Double.Follows` forgets their number and covers subnormal numbers,
overflow, infinities and NaN.
-/

namespace SvgdCollect
namespace Lib

/-! ## Factors -/

/-- A factor that `k` roundings leave. -/
def NearOne (k : ℕ) (t : ℚ) : Prop := |t - 1| ≤ k / 2 ^ 53

theorem NearOne.mul {k l : ℕ} {s t : ℚ} (hs : NearOne k s) (ht : NearOne l t)
    (hSmall : k * l ≤ 2 ^ 53) : NearOne (k + l + 1) (s * t) := by
  unfold NearOne at hs ht ⊢
  have hProduct : |s - 1| * |t - 1| ≤ 1 / 2 ^ 53 := by
    have hCast : (k : ℚ) * l ≤ 2 ^ 53 := by exact_mod_cast hSmall
    calc |s - 1| * |t - 1| ≤ k / 2 ^ 53 * (l / 2 ^ 53) := by
          apply mul_le_mul hs ht (abs_nonneg _) (by positivity)
      _ = k * l / 2 ^ 53 / 2 ^ 53 := by ring
      _ ≤ 2 ^ 53 / 2 ^ 53 / 2 ^ 53 := by gcongr
      _ = 1 / 2 ^ 53 := by norm_num
  calc |s * t - 1| = |(s - 1) * (t - 1) + (s - 1) + (t - 1)| := by ring_nf
    _ ≤ |(s - 1) * (t - 1)| + |s - 1| + |t - 1| := by
        exact (abs_add_le _ _).trans (by gcongr; exact abs_add_le _ _)
    _ ≤ 1 / 2 ^ 53 + k / 2 ^ 53 + l / 2 ^ 53 := by
        rw [abs_mul]
        gcongr
    _ = (k + l + 1 : ℕ) / 2 ^ 53 := by
        push_cast
        ring

theorem NearOne.bounds {k : ℕ} {t : ℚ} (h : NearOne k t) (hSmall : k ≤ 2 ^ 52) :
    1 / 2 ≤ t ∧ t ≤ 2 := by
  have hCast : (k : ℚ) / 2 ^ 53 ≤ 1 / 2 := by
    have hk : (k : ℚ) ≤ 2 ^ 52 := by exact_mod_cast hSmall
    linarith
  unfold NearOne at h
  rw [abs_le] at h
  constructor <;> linarith

theorem NearOne.inv {k : ℕ} {t : ℚ} (h : NearOne k t) (hSmall : k * (k + 1) ≤ 2 ^ 52) :
    NearOne (k + 1) t⁻¹ := by
  obtain ⟨hLow, -⟩ := h.bounds (by nlinarith)
  have hPos : 0 < t := by linarith
  have hScale : t⁻¹ - 1 = (1 - t) / t := by field_simp
  unfold NearOne at h ⊢
  rw [hScale, abs_div, abs_of_pos hPos, abs_sub_comm, div_le_iff₀ hPos]
  refine h.trans ?_
  -- `k ≤ (k + 1) * (1 - k / 2^53)`
  have hFloor : 1 - k / 2 ^ 53 ≤ t := by
    rw [abs_le] at h
    linarith
  have hProduct : (k : ℚ) * (k + 1) ≤ 2 ^ 53 := by
    have hCast : ((k * (k + 1) : ℕ) : ℚ) ≤ 2 ^ 52 := by exact_mod_cast hSmall
    push_cast at hCast
    linarith
  have hGap : (k : ℚ) ≤ (k + 1) * (1 - k / 2 ^ 53) := by linarith
  calc (k : ℚ) / 2 ^ 53 ≤ (k + 1) * (1 - k / 2 ^ 53) / 2 ^ 53 := by gcongr
    _ ≤ (k + 1) * t / 2 ^ 53 := by gcongr
    _ = (k + 1 : ℕ) / 2 ^ 53 * t := by
        push_cast
        ring

theorem NearOne.mono {k l : ℕ} {t : ℚ} (h : NearOne k t) (hLe : k ≤ l) : NearOne l t :=
  le_trans h (by gcongr)

/-! ## One rounding -/

theorem abs_roundDouble_sub_le_unit (q : ℚ) :
    |roundDouble q - q| ≤ 2 ^ lastPlace q / 2 := by
  have hUnit : (0 : ℚ) < 2 ^ lastPlace q := by positivity
  have hScale : roundDouble q - q =
      (roundHalfEven (q / 2 ^ lastPlace q) - q / 2 ^ lastPlace q) * 2 ^ lastPlace q := by
    rw [roundDouble, sub_mul, div_mul_cancel₀ _ hUnit.ne']
  rw [hScale, abs_mul, abs_of_pos hUnit]
  calc |(roundHalfEven (q / 2 ^ lastPlace q) : ℚ) - q / 2 ^ lastPlace q| * 2 ^ lastPlace q
      ≤ 1 / 2 * 2 ^ lastPlace q :=
        mul_le_mul_of_nonneg_right (abs_roundHalfEven_sub_le _) hUnit.le
    _ = 2 ^ lastPlace q / 2 := by ring

/-- A relative error, or half a unit of the smallest numbers. -/
theorem abs_roundDouble_sub_le (q : ℚ) :
    |roundDouble q - q| ≤ max (|q| / 2 ^ 53) (2 ^ (-1075 : ℤ)) := by
  rcases eq_or_ne q 0 with rfl | hne
  · rw [roundDouble_zero, sub_zero, abs_zero]
    positivity
  refine (abs_roundDouble_sub_le_unit q).trans ?_
  rcases le_or_gt (lastPlace q) (-1074) with hSubnormal | hNormal
  · refine le_max_of_le_right ?_
    have hUnit : (2 : ℚ) ^ lastPlace q ≤ 2 ^ (-1074 : ℤ) :=
      zpow_le_zpow_right₀ (by norm_num) hSubnormal
    have hHalf : (2 : ℚ) ^ (-1074 : ℤ) = 2 * 2 ^ (-1075 : ℤ) := by
      rw [← zpow_one_add₀ (by norm_num)]
      norm_num
    linarith
  · refine le_max_of_le_left ?_
    have hPlace : lastPlace |q| = lastPlace q := by
      unfold lastPlace
      rw [abs_abs]
    have hLow := le_of_lastPlace_lt (abs_pos.mpr hne) le_rfl (hPlace.symm ▸ hNormal)
    rw [hPlace] at hLow
    linarith

/-- Zero, or far enough from the ends of the range. -/
def InRange (q : ℚ) : Prop := q = 0 ∨ 2 ^ (-1022 : ℤ) ≤ |q| ∧ |q| ≤ 2 ^ (1023 : ℤ)

theorem roundDouble_inRange {q : ℚ} (h : InRange q) :
    ∃ t, NearOne 1 t ∧ roundDouble q = q * t := by
  rcases h with rfl | ⟨hLow, -⟩
  · exact ⟨1, by simp [NearOne], by rw [roundDouble_zero, zero_mul]⟩
  · have hPos : 0 < |q| := lt_of_lt_of_le (by positivity) hLow
    have hne : q ≠ 0 := abs_pos.mp hPos
    refine ⟨roundDouble q / q, ?_, by rw [mul_div_cancel₀ _ hne]⟩
    have hTiny : (2 : ℚ) ^ (-1075 : ℤ) ≤ |q| / 2 ^ 53 := by
      rw [le_div_iff₀ (by positivity)]
      calc (2 : ℚ) ^ (-1075 : ℤ) * 2 ^ 53 = 2 ^ (-1022 : ℤ) := by
            rw [← zpow_natCast, ← zpow_add₀ (by norm_num)]
            norm_num
        _ ≤ |q| := hLow
    have hError := abs_roundDouble_sub_le q
    rw [max_eq_left hTiny] at hError
    have hScale : roundDouble q / q - 1 = (roundDouble q - q) / q := by field_simp
    rw [NearOne, hScale, abs_div, div_le_iff₀ hPos]
    calc |roundDouble q - q| ≤ |q| / 2 ^ 53 := hError
      _ = (1 : ℕ) / 2 ^ 53 * |q| := by
          push_cast
          ring

/-! ## Several operations -/

/-- Zero, or so far from the ends of the range that a few roundings do not leave it. -/
def IsModerate (q : ℚ) : Prop := q = 0 ∨ 2 ^ (-1000 : ℤ) ≤ |q| ∧ |q| ≤ 2 ^ (1000 : ℤ)

theorem IsModerate.inRange_mul {q t : ℚ} (h : IsModerate q) {k : ℕ} (ht : NearOne k t)
    (hk : k ≤ 2 ^ 52) : InRange (q * t) := by
  rcases h with rfl | ⟨hLow, hHigh⟩
  · exact Or.inl (zero_mul t)
  · obtain ⟨hHalf, hTwo⟩ := ht.bounds hk
    refine Or.inr ?_
    rw [abs_mul, abs_of_pos (by linarith : 0 < t)]
    constructor
    · calc (2 : ℚ) ^ (-1022 : ℤ) ≤ 2 ^ (-1000 - 1 : ℤ) :=
            zpow_le_zpow_right₀ (by norm_num) (by norm_num)
        _ = 2 ^ (-1000 : ℤ) * (1 / 2) := by
            rw [zpow_sub_one₀ (by norm_num), one_div]
        _ ≤ |q| * t := mul_le_mul hLow hHalf (by norm_num) (abs_nonneg q)
    · calc |q| * t ≤ 2 ^ (1000 : ℤ) * 2 :=
            mul_le_mul hHigh hTwo (by linarith) (by positivity)
        _ = 2 ^ (1000 + 1 : ℤ) := by rw [zpow_add_one₀ (by norm_num)]
        _ ≤ 2 ^ (1023 : ℤ) := zpow_le_zpow_right₀ (by norm_num) (by norm_num)

/-- The quotient of two integers of moderate size. -/
theorem isModerate_div {a b : ℤ} (ha : |a| ≤ 2 ^ 200) (hb : |b| ≤ 2 ^ 200) (hb0 : b ≠ 0) :
    IsModerate (a / b) := by
  rcases eq_or_ne a 0 with rfl | ha0
  · exact Or.inl (by simp)
  · have hALow : (1 : ℚ) ≤ |(a : ℚ)| := by exact_mod_cast Int.one_le_abs ha0
    have hBLow : (1 : ℚ) ≤ |(b : ℚ)| := by exact_mod_cast Int.one_le_abs hb0
    have hAHigh : |(a : ℚ)| ≤ 2 ^ 200 := by exact_mod_cast ha
    have hBHigh : |(b : ℚ)| ≤ 2 ^ 200 := by exact_mod_cast hb
    refine Or.inr ?_
    rw [abs_div]
    constructor
    · calc (2 : ℚ) ^ (-1000 : ℤ) ≤ 2 ^ (-200 : ℤ) :=
            zpow_le_zpow_right₀ (by norm_num) (by norm_num)
        _ = 1 / 2 ^ 200 := by rw [zpow_neg, one_div]; norm_cast
        _ ≤ |(a : ℚ)| / |(b : ℚ)| := by gcongr
    · calc |(a : ℚ)| / |(b : ℚ)| ≤ 2 ^ 200 / 1 := by gcongr
        _ = 2 ^ (200 : ℤ) := by rw [div_one]; norm_cast
        _ ≤ 2 ^ (1000 : ℤ) := zpow_le_zpow_right₀ (by norm_num) (by norm_num)

theorem isModerate_of_int {z : ℤ} (h : |z| ≤ 2 ^ 200) : IsModerate z := by
  have hDiv := isModerate_div h (b := 1) (by norm_num) one_ne_zero
  rwa [Int.cast_one, div_one] at hDiv

/-- A finite value that `k` roundings have made of `q`. -/
def Double.Within (k : ℕ) (v : Double) (q : ℚ) : Prop := ∃ t, NearOne k t ∧ v = .finite (q * t)

theorem Double.ofRat_inRange {q : ℚ} (h : InRange q) : Double.ofRat q = .finite (roundDouble q) := by
  have hBound : |q| ≤ 2 ^ (1023 : ℤ) := by
    rcases h with rfl | ⟨-, hHigh⟩
    · rw [abs_zero]
      positivity
    · exact hHigh
  rw [ofRat, if_pos]
  refine (abs_roundDouble_le (by norm_num) hBound).trans_lt ?_
  rw [← zpow_natCast]
  exact zpow_lt_zpow_right₀ (by norm_num) (by norm_num)

/-- One rounding more. -/
theorem Double.within_ofRat_mul {q t : ℚ} {k : ℕ} (hq : IsModerate q) (ht : NearOne k t)
    (hk : k ≤ 256) : (Double.ofRat (q * t)).Within (k + 2) q := by
  have hRange := hq.inRange_mul ht (by omega)
  obtain ⟨s, hs, hRound⟩ := roundDouble_inRange hRange
  refine ⟨t * s, ht.mul hs (by omega), ?_⟩
  rw [ofRat_inRange hRange, hRound, mul_assoc]

theorem Double.within_ofRat {q : ℚ} (h : IsModerate q) : (Double.ofRat q).Within 2 q := by
  have hOne : NearOne 0 1 := by simp [NearOne]
  have hRound := within_ofRat_mul h hOne (by norm_num)
  rwa [mul_one] at hRound

theorem Double.Within.mul {k l : ℕ} {v w : Double} {a b : ℚ} (hv : v.Within k a)
    (hw : w.Within l b) (hk : k ≤ 64) (hl : l ≤ 64) (hRange : IsModerate (a * b)) :
    (CDouble.mul v w).Within (k + l + 3) (a * b) := by
  obtain ⟨s, hs, rfl⟩ := hv
  obtain ⟨t, ht, rfl⟩ := hw
  have hFactor := hs.mul ht (by nlinarith)
  have hProduct : CDouble.mul (Double.finite (a * s)) (.finite (b * t)) =
      Double.ofRat (a * b * (s * t)) := by
    show Double.ofRat (a * s * (b * t)) = _
    rw [mul_mul_mul_comm]
  rw [hProduct]
  exact within_ofRat_mul hRange hFactor (by omega)

theorem Double.Within.div {k l : ℕ} {v w : Double} {a b : ℚ} (hv : v.Within k a)
    (hw : w.Within l b) (hk : k ≤ 64) (hl : l ≤ 64) (hb : b ≠ 0) (hRange : IsModerate (a / b)) :
    (CDouble.div v w).Within (k + l + 4) (a / b) := by
  obtain ⟨s, hs, rfl⟩ := hv
  obtain ⟨t, ht, rfl⟩ := hw
  have hFactor := hs.mul (ht.inv (by nlinarith)) (by nlinarith)
  obtain ⟨hLow, -⟩ := ht.bounds (by omega)
  have ht0 : t ≠ 0 := by linarith
  have hQuotient : CDouble.div (Double.finite (a * s)) (.finite (b * t)) =
      Double.ofRat (a / b * (s * t⁻¹)) := by
    show Double.div (.finite (a * s)) (.finite (b * t)) = _
    rw [Double.div, if_neg (mul_ne_zero hb ht0)]
    congr 1
    field_simp
  rw [hQuotient]
  exact within_ofRat_mul hRange hFactor (by omega)

/-! ## Exact arithmetic with infinities -/

namespace Scanned

def sign : Scanned → Bool
  | .rat q => decide (q < 0)
  | .inf negative => negative
  | .nan => false

def isZero : Scanned → Bool
  | .rat q => decide (q = 0)
  | _ => false

def mul : Scanned → Scanned → Scanned
  | .rat a, .rat b => .rat (a * b)
  | .nan, _ => .nan
  | _, .nan => .nan
  | a, b => if a.isZero || b.isZero then .nan else .inf (a.sign != b.sign)

def div : Scanned → Scanned → Scanned
  | .nan, _ => .nan
  | _, .nan => .nan
  | .rat a, .rat b =>
      if b = 0 then (if a = 0 then .nan else .inf (decide (a < 0))) else .rat (a / b)
  | .rat _, .inf _ => .rat 0
  | .inf negative, .rat b => .inf (negative != decide (b < 0))
  | .inf _, .inf _ => .nan

def le : Scanned → Scanned → Bool
  | .nan, _ => false
  | _, .nan => false
  | .inf true, _ => true
  | _, .inf false => true
  | .inf false, _ => false
  | _, .inf true => false
  | .rat a, .rat b => decide (a ≤ b)

end Scanned

/-- The operations of `Double` without their rounding: a number is never infinite because it
is large, and what denotes no number does not become one. -/
instance : CDouble Scanned where
  ofRat := .rat
  inf := .inf
  nan := .nan
  mul := Scanned.mul
  div := Scanned.div
  isfinite
    | .rat _ => true
    | _ => false
  le := Scanned.le
  eq a b := Scanned.le a b && Scanned.le b a
  floor
    | .rat q => .rat (⌊q⌋ : ℤ)
    | x => x

theorem Scanned.div_rat (a : ℚ) {b : ℚ} (hb : b ≠ 0) :
    CDouble.div (rat a) (rat b) = rat (a / b) := by
  show div (rat a) (rat b) = rat (a / b)
  rw [div, if_neg hb]

/-! ## Values and their exact counterparts -/

/-- The value follows the exact one: a number up to sixteen roundings and half a unit of the
smallest numbers, or up to an overflow to the infinity of its sign, and an infinity or a NaN
exactly. -/
def Double.Follows : Double → Scanned → Prop
  | .finite d, .rat q => |d - q| ≤ |q| / 2 ^ 49 + 2 ^ (-1075 : ℤ)
  | .inf negative, .rat q => 2 ^ (1023 : ℤ) < |q| ∧ negative = decide (q < 0)
  | .inf negative, .inf negative' => negative = negative'
  | .nan, .nan => True
  | _, _ => False

theorem Double.Within.follows {k : ℕ} {v : Double} {q : ℚ} (h : v.Within k q) (hk : k ≤ 16) :
    v.Follows (.rat q) := by
  obtain ⟨t, ht, rfl⟩ := h
  have hFactor : |t - 1| ≤ 1 / 2 ^ 49 := by
    refine (ht.mono hk).trans ?_
    norm_num
  show |q * t - q| ≤ |q| / 2 ^ 49 + 2 ^ (-1075 : ℤ)
  calc |q * t - q| = |q| * |t - 1| := by rw [← abs_mul, mul_sub_one]
    _ ≤ |q| * (1 / 2 ^ 49) := by gcongr
    _ = |q| / 2 ^ 49 := by ring
    _ ≤ |q| / 2 ^ 49 + 2 ^ (-1075 : ℤ) := le_add_of_nonneg_right (by positivity)

theorem Double.follows_ofRat (q : ℚ) : (Double.ofRat q).Follows (.rat q) := by
  unfold ofRat
  split
  · show |roundDouble q - q| ≤ |q| / 2 ^ 49 + 2 ^ (-1075 : ℤ)
    have hCoarse : |q| / 2 ^ 53 ≤ |q| / 2 ^ 49 := by
      have := abs_nonneg q
      linarith
    refine (abs_roundDouble_sub_le q).trans (max_le ?_ ?_)
    · exact hCoarse.trans (le_add_of_nonneg_right (by positivity))
    · exact le_add_of_nonneg_left (by positivity)
  · rename_i hLarge
    refine ⟨?_, rfl⟩
    by_contra hSmall
    have hRound := abs_roundDouble_le (by norm_num : (-1022 : ℤ) ≤ 1023) (not_lt.mp hSmall)
    refine hLarge (hRound.trans_lt ?_)
    rw [← zpow_natCast]
    exact zpow_lt_zpow_right₀ (by norm_num) (by norm_num)

theorem Double.follows_toDouble (x : Scanned) :
    (x.toDouble : Double).Follows (x.toDouble : Scanned) := by
  cases x with
  | rat q => exact follows_ofRat q
  | inf negative => exact rfl
  | nan => exact trivial

theorem Double.follows_ofInt (z : ℤ) :
    (CDouble.ofInt z : Double).Follows (CDouble.ofInt z : Scanned) :=
  follows_ofRat z

/-- Away from the smallest numbers the error is relative to the value itself. -/
theorem Double.Follows.close {d q : ℚ} (h : (Double.finite d).Follows (.rat q))
    (hq : 2 ^ (-1000 : ℤ) ≤ |q|) : |d - q| ≤ |d| / 2 ^ 47 := by
  have hTiny : (2 : ℚ) ^ (-1075 : ℤ) ≤ |q| / 2 ^ 49 := by
    rw [le_div_iff₀ (by positivity)]
    calc (2 : ℚ) ^ (-1075 : ℤ) * 2 ^ 49 = 2 ^ (-1026 : ℤ) := by
          rw [← zpow_natCast, ← zpow_add₀ (by norm_num)]
          norm_num
      _ ≤ 2 ^ (-1000 : ℤ) := zpow_le_zpow_right₀ (by norm_num) (by norm_num)
      _ ≤ |q| := hq
  have hError : |d - q| ≤ |q| / 2 ^ 49 + 2 ^ (-1075 : ℤ) := h
  have hTriangle := abs_sub_abs_le_abs_sub q d
  rw [abs_sub_comm q d] at hTriangle
  linarith [abs_nonneg q]

/-- Between zero and the smallest positive double there is none. -/
theorem IsDouble.eq_zero {d : ℚ} (h : IsDouble d) (hSmall : |d| < 2 ^ (-1074 : ℤ)) : d = 0 := by
  obtain ⟨N, e, rfl, -, he⟩ := h
  by_contra hne
  have hN : (1 : ℚ) ≤ |(N : ℚ)| := by
    have hInt : N ≠ 0 := fun h => hne (by simp [h])
    exact_mod_cast Int.one_le_abs hInt
  have hUnit : (2 : ℚ) ^ (-1074 : ℤ) ≤ 2 ^ e := zpow_le_zpow_right₀ (by norm_num) he
  rw [abs_mul, abs_of_pos (zpow_pos (by norm_num : (0 : ℚ) < 2) e)] at hSmall
  have hLarge : (2 : ℚ) ^ e ≤ |(N : ℚ)| * 2 ^ e := le_mul_of_one_le_left (by positivity) hN
  linarith

end Lib
end SvgdCollect
