import SvgdCollect.Lib.Decimals
import SvgdCollect.Readers.System

/-!
# Memory and swap

`/proc/meminfo` has one line for each entry: a label, a colon, spaces, a number of
kilobytes and mostly a unit.  Kernels differ in the entries they have and in their order.
`memory` and `swap` look for six labels and ignore the rest.
-/

namespace SvgdCollect

open Lib

/-! ## The file -/

/-- An entry as the kernel writes it. -/
structure MemEntry where
  label : Bytes
  blanks : Nat
  kb : Nat
  unit : Bytes
  label_word : IsWord label
  colon : byte ':' ∉ label
  blanks_pos : 0 < blanks
  kb_lt : kb < 2 ^ 63
  unit_space : ∀ b, unit.head? = some b → b = 32
  clean : ∀ b ∈ label ++ unit, b ≠ newline ∧ b ≠ 0
  length : label.length + blanks + unit.length ≤ 200

namespace MemEntry

/-- `"%s:%*lu kB"`. -/
def text (e : MemEntry) : Bytes :=
  (e.label ++ [byte ':']) ++ (List.replicate e.blanks 32 ++ (decimal e.kb ++ e.unit))

theorem isLine_text (e : MemEntry) : IsLine 256 e.text := by
  have hDigits : (decimal e.kb).length ≤ 20 :=
    length_decimal_le (by norm_num) (lt_trans e.kb_lt (by norm_num))
  have hOther : ∀ b ∈ e.text, b ≠ newline ∧ b ≠ 0 := by
    intro b hb
    simp only [text, List.mem_append, List.mem_singleton, List.mem_replicate] at hb
    rcases hb with (hb | rfl) | ⟨-, rfl⟩ | hb | hb
    · exact e.clean b (List.mem_append_left _ hb)
    · decide
    · decide
    · have hDigit := isdigit_of_mem_decimal hb
      exact ⟨fun h => absurd (h ▸ hDigit) (by decide), fun h => absurd (h ▸ hDigit) (by decide)⟩
    · exact e.clean b (List.mem_append_right _ hb)
  refine ⟨fun h => (hOther _ h).1 rfl, fun h => (hOther _ h).2 rfl, ?_⟩
  have hLength := e.length
  simp only [text, List.length_append, List.length_singleton, List.length_replicate]
  omega

theorem clampLong_kb (e : MemEntry) : clampLong e.kb = e.kb := by
  have hRange := e.kb_lt
  unfold clampLong
  omega

/-- The format `"%*s %ld"` on the line. -/
theorem nums_text (e : MemEntry) :
    nums (sscanf [.str none false, .space, .int true] (e.text ++ [newline])) = [(e.kb : Int)] := by
  have hWord : IsWord (e.label ++ [byte ':']) := by
    refine ⟨by simp, fun b hb => ?_⟩
    rcases List.mem_append.mp hb with hb | hb
    · exact e.label_word.2 b hb
    · rw [List.mem_singleton.mp hb]
      decide
  obtain ⟨k, hk⟩ := Nat.exists_eq_succ_of_ne_zero e.blanks_pos.ne'
  have hRest : ∀ b, (e.unit ++ [newline]).head? = some b → isdigit b = false := by
    intro b hb
    cases hUnit : e.unit with
    | nil =>
        rw [hUnit] at hb
        obtain rfl := Option.some.inj hb
        decide
    | cons c unit =>
        rw [hUnit] at hb
        obtain rfl := Option.some.inj hb
        rw [e.unit_space c (by rw [hUnit]; rfl)]
        decide
  have hText : e.text ++ [newline] = (e.label ++ [byte ':']) ++ (32 ::
      (List.replicate k 32 ++ (decimal e.kb ++ (e.unit ++ [newline])))) := by
    simp [text, hk, List.replicate_succ]
  have hRun : ((e.label ++ [byte ':']) ++ (32 :: (List.replicate k 32 ++ (decimal e.kb ++
      (e.unit ++ [newline]))))).takeWhile (fun b => !isspace b) = e.label ++ [byte ':'] := by
    rw [takeWhile_append_of_head _ _ ?_, List.takeWhile_eq_self_iff]
    · intro b hb
      rw [hWord.2 b hb]
      rfl
    · intro b hb
      obtain rfl := Option.some.inj hb
      decide
  have hSpaces : ∀ b ∈ (32 : Byte) :: List.replicate k 32, isspace b = true := by
    intro b hb
    rw [List.eq_of_mem_replicate (n := k + 1) hb]
    decide
  have hBlanks := dropWhile_append_of_all (decimal e.kb ++ (e.unit ++ [newline])) hSpaces
  have hSigned : decimal e.kb = decimalInt e.kb := by
    rw [decimalInt, if_neg (by omega), Int.natAbs_natCast]
  have hScan : scanSigned (decimal e.kb ++ (e.unit ++ [newline])) =
      some ((e.kb : Int), e.unit ++ [newline]) := by
    rw [hSigned]
    exact scanSigned_decimalInt _ hRest
  rw [List.cons_append, dropWhile_isspace_word (isWord_decimal _)] at hBlanks
  rw [hText, sscanf]
  simp only [dropWhile_isspace_word hWord, scanToken, hRun, if_neg hWord.1, List.drop_left]
  rw [if_neg Bool.false_ne_true, sscanf, hBlanks, sscanf,
    dropWhile_isspace_word (isWord_decimal _), hScan]
  show [clampLong e.kb] = _
  rw [clampLong_kb]

/-- A key with its colon is found at the front of its own line only. -/
theorem key_isPrefix_iff (e : MemEntry) {key : Bytes} (hKey : byte ':' ∉ key) (rest : Bytes) :
    key ++ [byte ':'] <+: (e.label ++ [byte ':']) ++ rest ↔ e.label = key := by
  constructor
  · rintro ⟨t, ht⟩
    rw [List.append_assoc, List.append_assoc, List.singleton_append, List.singleton_append] at ht
    exact (append_cons_inj hKey e.colon ht).1.symm
  · rintro rfl
    exact List.prefix_append _ _

theorem meminfoValue_text (e : MemEntry) {key : String} {name : Bytes}
    (hName : ascii key = name ++ [byte ':']) (hColon : byte ':' ∉ name) :
    meminfoValue key (e.text ++ [newline]) =
      if e.label = name then some (e.kb : Int) else none := by
  have hIff : ascii key <+: e.text ++ [newline] ↔ e.label = name := by
    rw [hName, text, List.append_assoc]
    exact e.key_isPrefix_iff hColon _
  unfold meminfoValue
  rw [nums_text]
  by_cases hLabel : e.label = name
  · rw [if_pos (hIff.mpr hLabel), if_pos hLabel]
  · rw [if_neg (mt hIff.mp hLabel), if_neg hLabel]

end MemEntry

/-- The file: no label has two lines. -/
structure MemInfo where
  entries : List MemEntry
  nodup : (entries.map MemEntry.label).Nodup

namespace MemInfo

def fileText (info : MemInfo) : Bytes :=
  (info.entries.map MemEntry.text).flatMap (· ++ [newline])

/-- The number behind a label, if there is such a line. -/
def find (info : MemInfo) (label : Bytes) : Option Nat :=
  (info.entries.find? fun e => e.label = label).map MemEntry.kb

/-- The number behind a label, zero without such a line. -/
def kb (info : MemInfo) (label : String) : Nat := (info.find (ascii label)).getD 0

/-- With one line for each label the last value is the only one. -/
theorem filterMap_eq_find {entries : List MemEntry} (h : (entries.map MemEntry.label).Nodup)
    (label : Bytes) :
    entries.filterMap (fun e => if e.label = label then some (e.kb : Int) else none) =
      ((entries.find? fun e => e.label = label).map fun e => (e.kb : Int)).toList := by
  induction entries with
  | nil => rfl
  | cons e entries ih =>
      rw [List.map_cons, List.nodup_cons] at h
      rw [List.filterMap_cons, List.find?_cons]
      by_cases hLabel : e.label = label
      · have hNone : entries.find? (fun e => e.label = label) = none := by
          rw [List.find?_eq_none]
          intro e' he' hSame
          exact h.1 (List.mem_map.mpr ⟨e', he', by rw [hLabel]; simpa using hSame⟩)
        have hRest := ih h.2
        rw [hNone] at hRest
        rw [if_pos hLabel, decide_eq_true hLabel]
        exact congrArg ((e.kb : Int) :: ·) hRest
      · rw [if_neg hLabel, decide_eq_false hLabel]
        exact ih h.2

theorem meminfoLast_fileText (info : MemInfo) {key : String} {name : Bytes} (dflt : Int)
    (hName : ascii key = name ++ [byte ':']) (hColon : byte ':' ∉ name) :
    meminfoLast key dflt info.fileText =
      ((info.find name).map fun n : Nat => (n : Int)).getD dflt := by
  have hLines : ∀ text ∈ info.entries.map MemEntry.text, IsLine 256 text := by
    intro text hText
    obtain ⟨e, -, rfl⟩ := List.mem_map.mp hText
    exact e.isLine_text
  have hValues : ((info.entries.map MemEntry.text).map (· ++ [newline])).filterMap
      (meminfoValue key) =
        info.entries.filterMap fun e => if e.label = name then some (e.kb : Int) else none := by
    rw [List.map_map, List.filterMap_map]
    exact List.filterMap_congr fun e _ => e.meminfoValue_text hName hColon
  rw [meminfoLast, fileText, fgetsLines_flatMap hLines, hValues, filterMap_eq_find info.nodup, find]
  cases info.entries.find? fun e => e.label = name <;> rfl

/-- A key whose value is optional. -/
theorem meminfoLast_zero (info : MemInfo) {key label : String}
    (hKey : ascii key = ascii label ++ [byte ':']) (hColon : byte ':' ∉ ascii label) :
    meminfoLast key 0 info.fileText = info.kb label := by
  rw [meminfoLast_fileText info 0 hKey hColon, kb]
  cases info.find (ascii label) <;> rfl

/-- A key that has to be there. -/
theorem meminfoLast_minus_one (info : MemInfo) {key label : String}
    (hKey : ascii key = ascii label ++ [byte ':']) (hColon : byte ':' ∉ ascii label)
    (hPos : 0 < info.kb label) : meminfoLast key (-1) info.fileText = info.kb label := by
  rw [meminfoLast_fileText info (-1) hKey hColon]
  unfold kb at hPos ⊢
  cases hFind : info.find (ascii label) with
  | none =>
      rw [hFind] at hPos
      exact absurd hPos (by decide)
  | some n => rfl

/-- A total of zero, or none. -/
theorem meminfoLast_nonpos (info : MemInfo) {key label : String}
    (hKey : ascii key = ascii label ++ [byte ':']) (hColon : byte ':' ∉ ascii label)
    (hZero : info.kb label = 0) : meminfoLast key (-1) info.fileText ≤ 0 := by
  rw [meminfoLast_fileText info (-1) hKey hColon]
  unfold kb at hZero
  cases hFind : info.find (ascii label) with
  | none => decide
  | some n =>
      rw [hFind, Option.getD_some] at hZero
      rw [hZero]
      exact le_rfl

end MemInfo

/-! ## Percentages -/

/-- Below 2^46 the percentage is rounded once: it is the double nearest to the exact one. -/
theorem percentOf_nearest {part whole : Nat} (hPos : 0 < whole) (hPart : part ≤ whole)
    (hSmall : whole < 2 ^ 46) :
    (percentOf (part : ℤ) whole : Double) = Double.ofRat (100 * part / whole) := by
  have hHundred : (CDouble.ofInt 100 : Double) = .finite 100 := by
    have hInt := @Double.ofInt_of_abs_lt 100 (by norm_num)
    exact_mod_cast hInt
  have hScaled : Double.ofRat (100 * (part : ℤ) : ℚ) = .finite (100 * (part : ℤ)) := by
    have hInt := @Double.ofInt_of_abs_lt (100 * part) (by rw [abs_of_nonneg (by positivity)]; omega)
    have hRat : (CDouble.ofInt (100 * part : ℤ) : Double) =
      Double.ofRat ((100 * part : ℤ) : ℚ) := rfl
    rw [hRat] at hInt
    exact_mod_cast hInt
  have hWhole : (whole : ℚ) ≠ 0 := by exact_mod_cast hPos.ne'
  rw [percentOf, hHundred, Double.ofInt_of_abs_lt (by rw [abs_of_nonneg (by positivity)]; omega),
    Double.ofInt_of_abs_lt (by rw [abs_of_nonneg (by positivity)]; omega)]
  show Double.div (Double.ofRat (100 * (part : ℤ))) (.finite ((whole : ℤ) : ℚ)) = _
  rw [hScaled]
  show (if ((whole : ℤ) : ℚ) = 0 then _ else
    Double.ofRat (100 * ((part : ℤ) : ℚ) / ((whole : ℤ) : ℚ))) = _
  rw [Int.cast_natCast, Int.cast_natCast, if_neg hWhole]

/-- It stays between 0 and 100. -/
theorem percent_bounds {part whole : Nat} (hPos : 0 < whole) (hPart : part ≤ whole) :
    ∃ q : ℚ, Double.ofRat (100 * part / whole) = .finite q ∧ 0 ≤ q ∧ q ≤ 100 := by
  have hWhole : (0 : ℚ) < whole := by exact_mod_cast hPos
  have hLe : (100 * part / whole : ℚ) ≤ 100 := by
    rw [div_le_iff₀ hWhole]
    exact_mod_cast Nat.mul_le_mul_left 100 hPart
  have hNonneg : (0 : ℚ) ≤ 100 * part / whole := by positivity
  have hLow := roundDouble_nonneg hNonneg
  have hHigh : roundDouble (100 * part / whole) ≤ 100 := by
    have hMono := roundDouble_mono hNonneg hLe
    have hExact : roundDouble 100 = 100 := roundDouble_of_isDouble ⟨100, 0, by simp, by norm_num,
      by norm_num⟩
    rwa [hExact] at hMono
  refine ⟨roundDouble (100 * part / whole), if_pos ?_, hLow, hHigh⟩
  rw [abs_of_nonneg hLow]
  exact lt_of_le_of_lt hHigh (lt_of_lt_of_le (by norm_num : (100 : ℚ) < 2 ^ 7)
    (pow_le_pow_right₀ (by norm_num) (by norm_num)))

/-- Kilobytes in bytes. -/
theorem kilobytes_exact {n : Nat} (h : n < 2 ^ 53) :
    (CDouble.mul (CDouble.ofInt n) (CDouble.ofInt 1024) : Double) = .finite (n * 1024) := by
  have hFactor : (CDouble.ofInt 1024 : Double) = .finite 1024 := by
    have hInt := @Double.ofInt_of_abs_lt 1024 (by norm_num)
    exact_mod_cast hInt
  rw [Double.ofInt_of_abs_lt (by rw [abs_of_nonneg (by positivity)]; omega), hFactor]
  show Double.ofRat (((n : ℤ) : ℚ) * 1024) = _
  rw [Int.cast_natCast]
  have hDouble : IsDouble (n * 1024 : ℚ) := by
    refine ⟨n, 10, ?_, ?_, by norm_num⟩
    · norm_num
    · rw [abs_of_nonneg (by positivity)]
      omega
  have hFinite : |(n * 1024 : ℚ)| < 2 ^ 1024 := by
    have hBound : (n * 1024 : ℚ) < 2 ^ 63 := by
      have hNat : n * 1024 < 2 ^ 63 := by omega
      exact_mod_cast hNat
    rw [abs_of_nonneg (by positivity)]
    exact hBound.trans (pow_lt_pow_right₀ (by norm_num) (by norm_num))
  exact @Double.stored_of_isValue (.finite (n * 1024)) ⟨hDouble, hFinite⟩

/-! ## What the readers emit -/

section Read

variable {src : Sources} {base : Bytes} {info : MemInfo}

theorem memoryRead_fileText {D : Type} [CDouble D]
    (hFile : src.file (procPath base "/meminfo") = some info.fileText)
    (hTotal : 0 < info.kb "MemTotal") :
    (memoryRead src base : ReadResult D) =
      .ok [memoryMetric "used" (percentOf ((info.kb "MemTotal" : ℤ) - info.kb "MemFree" -
          info.kb "Buffers" - info.kb "Cached") (info.kb "MemTotal")),
        memoryMetric "cached" (percentOf (info.kb "Cached") (info.kb "MemTotal")),
        memoryMetric "buffered" (percentOf (info.kb "Buffers") (info.kb "MemTotal"))] := by
  have hMemTotal := @MemInfo.meminfoLast_minus_one info "MemTotal:" "MemTotal" (by decide)
    (by decide) hTotal
  have hMemFree := @MemInfo.meminfoLast_zero info "MemFree:" "MemFree" (by decide) (by decide)
  have hBuffers := @MemInfo.meminfoLast_zero info "Buffers:" "Buffers" (by decide) (by decide)
  have hCached := @MemInfo.meminfoLast_zero info "Cached:" "Cached" (by decide) (by decide)
  rw [memoryRead, hFile]
  simp only [hMemTotal, hMemFree, hBuffers, hCached]
  rw [if_neg (by omega)]

theorem swapRead_fileText {D : Type} [CDouble D]
    (hFile : src.file (procPath base "/meminfo") = some info.fileText)
    (hTotal : 0 < info.kb "SwapTotal") :
    (swapRead src base : ReadResult D) =
      .ok [swapMetric "used" ((info.kb "SwapTotal" : ℤ) - info.kb "SwapFree"),
        swapMetric "free" (info.kb "SwapFree")] := by
  have hSwapTotal := @MemInfo.meminfoLast_minus_one info "SwapTotal:" "SwapTotal" (by decide)
    (by decide) hTotal
  have hSwapFree := @MemInfo.meminfoLast_zero info "SwapFree:" "SwapFree" (by decide) (by decide)
  rw [swapRead, hFile]
  simp only [hSwapTotal, hSwapFree]
  rw [if_neg (by omega)]

theorem memoryRead_of_no_total {D : Type} [CDouble D]
    (hFile : src.file (procPath base "/meminfo") = some info.fileText)
    (hTotal : info.kb "MemTotal" = 0) : (memoryRead src base : ReadResult D) = .fail := by
  rw [memoryRead, hFile]
  exact if_pos (info.meminfoLast_nonpos (by decide) (by decide) hTotal)

theorem swapRead_of_no_total {D : Type} [CDouble D]
    (hFile : src.file (procPath base "/meminfo") = some info.fileText)
    (hTotal : info.kb "SwapTotal" = 0) : (swapRead src base : ReadResult D) = .fail := by
  rw [swapRead, hFile]
  exact if_pos (info.meminfoLast_nonpos (by decide) (by decide) hTotal)

/-- What is neither free nor a buffer nor in the cache. -/
def MemInfo.usedKb (info : MemInfo) : Nat :=
  info.kb "MemTotal" - info.kb "MemFree" - info.kb "Buffers" - info.kb "Cached"

/-- The shares of the memory. -/
def MemInfo.share (info : MemInfo) (kb : Nat) : ℚ := 100 * kb / info.kb "MemTotal"

/-- **Memory and swap are accounted for.**  Whatever other entries the file has and in
whatever order, `memory` emits the doubles nearest to the shares of the used, the cached and
the buffered memory, each between 0 and 100; with the free share they add up to 100.  `swap`
emits the used and the free bytes exactly.  Without a positive total, as on a machine without
swap space, they fail and emit nothing. -/
theorem meminfo_is_accounted_for
    (hFile : src.file (procPath base "/meminfo") = some info.fileText) :
    (0 < info.kb "MemTotal" → info.kb "MemTotal" < 2 ^ 46 →
        info.kb "MemFree" + info.kb "Buffers" + info.kb "Cached" ≤ info.kb "MemTotal" →
      (memoryRead src base : ReadResult Double) =
          .ok [memoryMetric "used" (.ofRat (info.share info.usedKb)),
            memoryMetric "cached" (.ofRat (info.share (info.kb "Cached"))),
            memoryMetric "buffered" (.ofRat (info.share (info.kb "Buffers")))] ∧
        (∀ m ∈ (memoryRead src base : ReadResult Double).metrics, ∀ v ∈ m.values,
          ∃ q, v = .finite q ∧ 0 ≤ q ∧ q ≤ 100) ∧
        info.share info.usedKb + info.share (info.kb "Cached") + info.share (info.kb "Buffers") +
          info.share (info.kb "MemFree") = 100) ∧
    (0 < info.kb "SwapTotal" → info.kb "SwapTotal" < 2 ^ 53 →
        info.kb "SwapFree" ≤ info.kb "SwapTotal" →
      (swapRead src base : ReadResult Double).metrics.map Metric.values =
        [[.finite ((info.kb "SwapTotal" - info.kb "SwapFree" : ℕ) * 1024)],
          [.finite (info.kb "SwapFree" * 1024)]]) ∧
    (info.kb "MemTotal" = 0 → (memoryRead src base : ReadResult Double) = .fail) ∧
    (info.kb "SwapTotal" = 0 → (swapRead src base : ReadResult Double) = .fail) := by
  refine ⟨?_, ?_, memoryRead_of_no_total hFile, swapRead_of_no_total hFile⟩
  · intro hTotal hSmall hParts
    have hUsed : ((info.kb "MemTotal" : ℤ) - info.kb "MemFree" - info.kb "Buffers" -
        info.kb "Cached") = info.usedKb := by
      unfold MemInfo.usedKb
      omega
    have hUsedLe : info.usedKb ≤ info.kb "MemTotal" := by
      unfold MemInfo.usedKb
      omega
    have hRead : (memoryRead src base : ReadResult Double) =
        .ok [memoryMetric "used" (.ofRat (info.share info.usedKb)),
          memoryMetric "cached" (.ofRat (info.share (info.kb "Cached"))),
          memoryMetric "buffered" (.ofRat (info.share (info.kb "Buffers")))] := by
      rw [memoryRead_fileText hFile hTotal, hUsed, percentOf_nearest hTotal hUsedLe hSmall,
        percentOf_nearest hTotal (by omega) hSmall, percentOf_nearest hTotal (by omega) hSmall]
      rfl
    refine ⟨hRead, ?_, ?_⟩
    · rw [hRead]
      intro m hm v hv
      simp only [ReadResult.ok, List.mem_cons, List.not_mem_nil, or_false] at hm
      rcases hm with rfl | rfl | rfl
      · obtain rfl := List.mem_singleton.mp hv
        exact percent_bounds hTotal hUsedLe
      · obtain rfl := List.mem_singleton.mp hv
        exact percent_bounds hTotal (by omega)
      · obtain rfl := List.mem_singleton.mp hv
        exact percent_bounds hTotal (by omega)
    · have hSum : (info.usedKb + info.kb "Cached" + info.kb "Buffers" + info.kb "MemFree" : ℚ) =
          info.kb "MemTotal" := by
        have hNat : info.usedKb + info.kb "Cached" + info.kb "Buffers" + info.kb "MemFree" =
            info.kb "MemTotal" := by
          unfold MemInfo.usedKb
          omega
        exact_mod_cast hNat
      have hWhole : (info.kb "MemTotal" : ℚ) ≠ 0 := by exact_mod_cast hTotal.ne'
      unfold MemInfo.share
      rw [← add_div, ← add_div, ← add_div, ← mul_add, ← mul_add, ← mul_add, hSum,
        mul_div_assoc, div_self hWhole, mul_one]
  · intro hTotal hSmall hFree
    have hUsed : ((info.kb "SwapTotal" : ℤ) - info.kb "SwapFree") =
        ((info.kb "SwapTotal" - info.kb "SwapFree" : ℕ) : ℤ) := by
      omega
    rw [swapRead_fileText hFile hTotal, hUsed]
    show [[CDouble.mul (CDouble.ofInt ((info.kb "SwapTotal" - info.kb "SwapFree" : ℕ) : ℤ))
        (CDouble.ofInt 1024)], [CDouble.mul (CDouble.ofInt (info.kb "SwapFree" : ℤ))
        (CDouble.ofInt 1024)]] = _
    rw [kilobytes_exact (by omega), kilobytes_exact (by omega)]

end Read

/-- An entry with its number in columns 17 to 24 or so. -/
def kbEntry (label : Bytes) (kb : Nat) (hWord : IsWord label) (hColon : byte ':' ∉ label)
    (hKb : kb < 2 ^ 63) (hClean : ∀ b ∈ label ++ ascii " kB", b ≠ newline ∧ b ≠ 0)
    (hLength : label.length ≤ 100) : MemEntry where
  label := label
  blanks := 8
  kb := kb
  unit := ascii " kB"
  label_word := hWord
  colon := hColon
  blanks_pos := by decide
  kb_lt := hKb
  unit_space := by
    rintro b ⟨⟩
    rfl
  clean := hClean
  length := by
    have hUnit : (ascii " kB").length = 3 := by decide
    omega

/-- A machine that has swapped a little. -/
def smallMemInfo : MemInfo where
  entries :=
    [kbEntry (ascii "MemTotal") 16000 ⟨by decide, by decide⟩ (by decide) (by decide) (by decide)
        (by decide),
      kbEntry (ascii "MemFree") 4000 ⟨by decide, by decide⟩ (by decide) (by decide) (by decide)
        (by decide),
      kbEntry (ascii "Cached") 3000 ⟨by decide, by decide⟩ (by decide) (by decide) (by decide)
        (by decide),
      kbEntry (ascii "SwapCached") 7 ⟨by decide, by decide⟩ (by decide) (by decide) (by decide)
        (by decide),
      kbEntry (ascii "SwapTotal") 100 ⟨by decide, by decide⟩ (by decide) (by decide) (by decide)
        (by decide),
      kbEntry (ascii "SwapFree") 60 ⟨by decide, by decide⟩ (by decide) (by decide) (by decide)
        (by decide)]
  nodup := by decide

def smallMemSources : Sources where
  file _ := some smallMemInfo.fileText
  dir _ := none
  statvfs _ := none
  pageSize := 4096
  isFileName := isFileName_of_no_dir

theorem smallMemInfo_is_accounted_for :
    (memoryRead smallMemSources (ascii "/proc") : ReadResult Double) =
        .ok [memoryMetric "used" (.ofRat (smallMemInfo.share 9000)),
          memoryMetric "cached" (.ofRat (smallMemInfo.share 3000)),
          memoryMetric "buffered" (.ofRat (smallMemInfo.share 0))] ∧
      (swapRead smallMemSources (ascii "/proc") : ReadResult Double).metrics.map Metric.values =
        [[.finite ((100 - 60 : ℕ) * 1024)], [.finite ((60 : ℕ) * 1024)]] := by
  have hKb : smallMemInfo.kb "MemTotal" = 16000 ∧ smallMemInfo.kb "MemFree" = 4000 ∧
      smallMemInfo.kb "Buffers" = 0 ∧ smallMemInfo.kb "Cached" = 3000 ∧
      smallMemInfo.kb "SwapTotal" = 100 ∧ smallMemInfo.kb "SwapFree" = 60 := by decide
  obtain ⟨hTotal, hFree, hBuffers, hCached, hSwapTotal, hSwapFree⟩ := hKb
  have hUsed : smallMemInfo.usedKb = 9000 := by
    rw [MemInfo.usedKb, hTotal, hFree, hBuffers, hCached]
  obtain ⟨hMemory, hSwap, -⟩ :=
    @meminfo_is_accounted_for smallMemSources (ascii "/proc") smallMemInfo rfl
  rw [hTotal, hFree, hBuffers, hCached, hUsed] at hMemory
  rw [hSwapTotal, hSwapFree] at hSwap
  exact ⟨(hMemory (by decide) (by decide) (by decide)).1, hSwap (by decide) (by decide) (by decide)⟩

end SvgdCollect
