import SvgdCollect.Readers.Devices

/-!
# The counters of devices

The kernel writes one line for each device to `/proc/net/dev` and `/proc/diskstats`: the
name of the device and its counters, unsigned 64-bit numbers padded with spaces.  The two
readers get the name and the counters back, each counter as `%ld` converts it.
-/

namespace SvgdCollect

open Lib

/-! ## Rows of counters -/

/-- Counters with the widths they are printed to, a space in front of each. -/
def counterRow (row : List (Nat × Nat)) : Bytes :=
  row.flatMap fun c => 32 :: padLeft c.1 (decimal c.2)

theorem mem_counterRow {row : List (Nat × Nat)} {b : Byte} (h : b ∈ counterRow row) :
    b = 32 ∨ isdigit b = true := by
  obtain ⟨c, -, hb⟩ := List.mem_flatMap.mp h
  rcases List.mem_cons.mp hb with rfl | hb
  · exact Or.inl rfl
  · exact (mem_padLeft hb).imp_right isdigit_of_mem_decimal

theorem length_counterRow_le {row : List (Nat × Nat)} (hWidth : ∀ c ∈ row, c.1 ≤ 20)
    (hRange : ∀ c ∈ row, c.2 < 2 ^ 64) : (counterRow row).length ≤ 21 * row.length := by
  induction row with
  | nil => simp [counterRow]
  | cons c row ih =>
      have hDigits : (decimal c.2).length ≤ 20 := by
        apply length_decimal_le (by decide)
        exact lt_trans (hRange c List.mem_cons_self) (by norm_num)
      have hHead : (padLeft c.1 (decimal c.2)).length ≤ 20 :=
        length_padLeft_le (hWidth c List.mem_cons_self) hDigits
      have hRow := ih (fun c' hc => hWidth c' (List.mem_cons_of_mem c hc))
        fun c' hc => hRange c' (List.mem_cons_of_mem c hc)
      rw [counterRow] at hRow ⊢
      rw [List.flatMap_cons, List.length_append, List.length_cons, List.length_cons]
      omega

theorem isdigit_head {c : Byte} (hc : isdigit c = false) (s : Bytes) (b : Byte)
    (hb : (c :: s).head? = some b) : isdigit b = false := by
  obtain rfl : c = b := Option.some.inj hb
  exact hc

/-- The first numbers of a row are read, each clamped to a `long`. -/
theorem sscanf_longs {k : Nat} {row : List (Nat × Nat)} (hk : k ≤ row.length) {rest : Bytes}
    (hRest : ∀ b, rest.head? = some b → isdigit b = false) :
    sscanf (longs k) (counterRow row ++ rest) =
      ((row.take k).map fun c => clampLong c.2).map Field.num := by
  induction k generalizing row with
  | zero => rfl
  | succ k ih =>
      match row with
      | [] => simp at hk
      | c :: row =>
          have hNext : ∀ b, (counterRow row ++ rest).head? = some b → isdigit b = false := by
            intro b hb
            cases row with
            | nil => exact hRest b hb
            | cons c' row => exact isdigit_head (by decide) _ b hb
          have hScan := scanSigned_padLeft c.1 c.2 hNext
          have hSpace : (counterRow (c :: row) ++ rest).dropWhile isspace =
              decimal c.2 ++ (counterRow row ++ rest) := by
            rw [counterRow, List.flatMap_cons, List.cons_append, List.cons_append,
              List.dropWhile_cons, if_pos (by decide), List.append_assoc,
              dropWhile_padLeft (isWord_decimal c.2)]
            rfl
          rw [dropWhile_padLeft (isWord_decimal c.2)] at hScan
          rw [longs, sscanf, sscanf, hSpace, dropWhile_isspace_word (isWord_decimal c.2), hScan]
          simp only [if_true, List.take_succ_cons, List.map_cons]
          rw [ih (Nat.le_of_succ_le_succ hk)]

/-- `%*d`. -/
theorem sscanf_skip_int (ds : List Directive) (width n : Nat) {rest : Bytes}
    (hRest : ∀ b, rest.head? = some b → isdigit b = false) :
    sscanf (.int false :: ds) (padLeft width (decimal n) ++ rest) = sscanf ds rest := by
  rw [sscanf, scanSigned_padLeft width n hRest]
  rfl

/-- `" %*d"`. -/
theorem sscanf_space_skip_int (ds : List Directive) (width n : Nat) {rest : Bytes}
    (hRest : ∀ b, rest.head? = some b → isdigit b = false) :
    sscanf (.space :: .int false :: ds) (32 :: (padLeft width (decimal n) ++ rest)) =
      sscanf ds rest := by
  have hScan := sscanf_skip_int ds 0 n hRest
  rw [padLeft, Nat.zero_sub, List.replicate_zero, List.nil_append] at hScan
  rw [sscanf, List.dropWhile_cons, if_pos (by decide), dropWhile_padLeft (isWord_decimal n), hScan]

/-! ## Disks -/

/-- A line of `/proc/diskstats`.  The kernel prints 11, 15 or 17 counters, and its names
fit the reader's buffer. -/
structure DiskStat where
  major : Nat
  minor : Nat
  name : Bytes
  counters : List Nat
  major_lt : major < 2 ^ 32
  minor_lt : minor < 2 ^ 32
  name_word : IsWord name
  name_zero : 0 ∉ name
  name_length : name.length ≤ 63
  length_counters : 11 ≤ counters.length ∧ counters.length ≤ 17
  counters_lt : ∀ n ∈ counters, n < 2 ^ 64

namespace DiskStat

/-- `"%4d %7d %s"` and the counters. -/
def text (d : DiskStat) : Bytes :=
  padLeft 4 (decimal d.major) ++ 32 :: (padLeft 7 (decimal d.minor) ++ 32 ::
    (d.name ++ counterRow (d.counters.map fun n => (0, n))))

theorem length_decimal_le_ten {n : Nat} (h : n < 2 ^ 32) : (decimal n).length ≤ 10 :=
  length_decimal_le (by decide) (lt_trans h (by norm_num))

theorem isLine_text (d : DiskStat) : IsLine 512 d.text := by
  have hRow : (counterRow (d.counters.map fun n => (0, n))).length ≤ 21 * 17 := by
    have hLength := @length_counterRow_le (d.counters.map fun n => (0, n)) (by simp)
      (by simpa using d.counters_lt)
    have hCount := d.length_counters.2
    rw [List.length_map] at hLength
    omega
  have hMajor := length_padLeft_le (by decide : 4 ≤ 10) (length_decimal_le_ten d.major_lt)
  have hMinor := length_padLeft_le (by decide : 7 ≤ 10) (length_decimal_le_ten d.minor_lt)
  have hName := d.name_length
  have hPlain : ∀ b ∈ d.text, b = 32 ∨ isdigit b = true ∨ b ∈ d.name := by
    intro b hb
    simp only [text, List.mem_append, List.mem_cons] at hb
    rcases hb with hb | rfl | hb | rfl | hb | hb
    · exact (mem_padLeft hb).imp_right fun h => Or.inl (isdigit_of_mem_decimal h)
    · exact Or.inl rfl
    · exact (mem_padLeft hb).imp_right fun h => Or.inl (isdigit_of_mem_decimal h)
    · exact Or.inl rfl
    · exact Or.inr (Or.inr hb)
    · exact (mem_counterRow hb).imp_right Or.inl
  refine ⟨fun hMem => ?_, fun hMem => ?_, ?_⟩
  · rcases hPlain _ hMem with h | h | h
    · exact absurd h (by decide)
    · exact absurd h (by decide)
    · exact absurd (d.name_word.2 _ h) (by decide)
  · rcases hPlain _ hMem with h | h | h
    · exact absurd h (by decide)
    · exact absurd h (by decide)
    · exact d.name_zero h
  · simp only [text, List.length_append, List.length_cons]
    omega

/-- What `"%ld"` makes of the first eight counters. -/
def longCounters (d : DiskStat) : List Int := (d.counters.take 8).map fun n : Nat => clampLong n

theorem sscanf_text (d : DiskStat) :
    sscanf diskFormat (d.text ++ [newline]) =
      .text d.name :: d.longCounters.map Field.num := by
  have hCount : 8 ≤ (d.counters.map fun n => (0, n)).length := by
    have := d.length_counters.1
    rw [List.length_map]
    omega
  have hRow : ∀ b, (counterRow (d.counters.map fun n => (0, n)) ++ [newline]).head? = some b →
      isspace b = true := by
    intro b hb
    match hCounters : d.counters with
    | [] => simp [hCounters] at hCount
    | n :: counters =>
        rw [hCounters] at hb
        obtain rfl : 32 = b := Option.some.inj hb
        decide
  have hText : d.text ++ [newline] = padLeft 4 (decimal d.major) ++ 32 ::
      (padLeft 7 (decimal d.minor) ++ 32 ::
        (d.name ++ (counterRow (d.counters.map fun n => (0, n)) ++ [newline]))) := by
    simp [text]
  rw [hText, diskFormat]
  simp only [List.cons_append, List.nil_append]
  rw [sscanf_skip_int _ _ _ (isdigit_head (by decide) _),
    sscanf_space_skip_int _ _ _ (isdigit_head (by decide) _),
    sscanf_space_word _ d.name_word, sscanf_str_word d.name_word d.name_length _ hRow,
    sscanf_longs hCount (isdigit_head (by decide) _), ← List.map_take, longCounters]
  simp only [List.map_map]
  rfl

theorem length_longCounters (d : DiskStat) : d.longCounters.length = 8 := by
  have hCount := d.length_counters.1
  rw [longCounters, List.length_map, List.length_take]
  omega

/-- The reader gets the name and eight counters. -/
theorem diskLine_text (d : DiskStat) :
    diskLine (d.text ++ [newline]) =
      if isDiskName d.name then some (d.name, d.longCounters) else none := by
  have hTexts : texts (sscanf diskFormat (d.text ++ [newline])) = [d.name] := by
    rw [sscanf_text]
    exact congrArg (d.name :: ·) (texts_map_num _)
  have hNums : nums (sscanf diskFormat (d.text ++ [newline])) = d.longCounters := by
    rw [sscanf_text]
    exact nums_map_num _
  simp only [diskLine, hTexts, hNums, length_longCounters]
  rfl

/-- The lines of a file. -/
def fileText (ds : List DiskStat) : Bytes := ds.flatMap fun d => d.text ++ [newline]

/-- Three metrics for every disk the filter accepts, in the order of the file. -/
theorem diskRead_fileText {D : Type} [CDouble D] {src : Sources} {base : Bytes}
    {ds : List DiskStat} (h : src.file (procPath base "/diskstats") = some (fileText ds)) :
    (diskRead src base : ReadResult D) =
      .ok ((ds.filter fun d => isDiskName d.name).flatMap fun d =>
        diskMetrics (d.name, d.longCounters)) := by
  have hLines : fgetsLines 512 (fileText ds) = ds.map fun d => d.text ++ [newline] := by
    have hEach := @fgetsLines_flatMap 512 (ds.map text) (by
      intro t ht
      obtain ⟨d, -, rfl⟩ := List.mem_map.mp ht
      exact d.isLine_text)
    rwa [List.flatMap_map, List.map_map] at hEach
  have hAccepted : (ds.map fun d => d.text ++ [newline]).filterMap diskLine =
      (ds.filter fun d => isDiskName d.name).map fun d => (d.name, d.longCounters) := by
    rw [List.filterMap_map, ← List.filterMap_eq_map, List.filterMap_filter]
    apply List.filterMap_congr
    intro d _
    simp only [Function.comp_apply, diskLine_text]
  rw [diskRead, h]
  simp only [hLines, hAccepted, List.flatMap_map]

end DiskStat

/-! ## Interfaces -/

/-- An interface of `/proc/net/dev` with its sixteen counters. -/
structure NetDev where
  name : Bytes
  counters : List Nat
  name_word : IsWord name
  name_zero : 0 ∉ name
  name_colon : byte ':' ∉ name
  name_slash : byte '/' ∉ name
  name_length : name.length ≤ 15
  length_counters : counters.length = 16
  counters_lt : ∀ n ∈ counters, n < 2 ^ 64

namespace NetDev

/-- The widths of the columns. -/
def widths : List Nat := [7, 7, 4, 4, 4, 5, 10, 9, 8, 7, 4, 4, 4, 5, 7, 10]

def row (i : NetDev) : List (Nat × Nat) := widths.zip i.counters

/-- `"%6s:"` and the counters. -/
def text (i : NetDev) : Bytes := padLeft 6 i.name ++ byte ':' :: counterRow i.row

theorem length_row (i : NetDev) : i.row.length = 16 := by
  rw [row, List.length_zip, i.length_counters]
  rfl

theorem isLine_text (i : NetDev) : IsLine 512 i.text := by
  have hWidths : ∀ w ∈ widths, w ≤ 20 := by decide
  have hRow : (counterRow i.row).length ≤ 21 * 16 := by
    rw [← i.length_row]
    apply length_counterRow_le
    · intro c hc
      exact hWidths _ (List.of_mem_zip hc).1
    · intro c hc
      exact i.counters_lt _ (List.of_mem_zip hc).2
  have hName := length_padLeft_le (by decide : 6 ≤ 15) i.name_length
  have hPlain : ∀ b ∈ i.text, b = 32 ∨ b = byte ':' ∨ isdigit b = true ∨ b ∈ i.name := by
    intro b hb
    simp only [text, List.mem_append, List.mem_cons] at hb
    rcases hb with hb | rfl | hb
    · exact (mem_padLeft hb).imp_right fun h => Or.inr (Or.inr h)
    · exact Or.inr (Or.inl rfl)
    · exact (mem_counterRow hb).imp_right fun h => Or.inr (Or.inl h)
  refine ⟨fun hMem => ?_, fun hMem => ?_, ?_⟩
  · rcases hPlain _ hMem with h | h | h | h
    · exact absurd h (by decide)
    · exact absurd h (by decide)
    · exact absurd h (by decide)
    · exact absurd (i.name_word.2 _ h) (by decide)
  · rcases hPlain _ hMem with h | h | h | h
    · exact absurd h (by decide)
    · exact absurd h (by decide)
    · exact absurd h (by decide)
    · exact i.name_zero h
  · simp only [text, List.length_append, List.length_cons]
    omega

/-- What `"%ld"` makes of the counters. -/
def longCounters (i : NetDev) : List Int := i.counters.map fun n : Nat => clampLong n

theorem dropWhile_blank_text (i : NetDev) (rest : Bytes) :
    (padLeft 6 i.name ++ rest).dropWhile (fun b => b == byte ' ' || b == byte '\t') =
      i.name ++ rest := by
  obtain ⟨b, name, hName⟩ := List.exists_cons_of_ne_nil i.name_word.1
  have hb : (b == byte ' ' || b == byte '\t') = false := by
    have hSpace : isspace b = false := i.name_word.2 b (by simp [hName])
    simp only [Bool.or_eq_false_iff, beq_eq_false_iff_ne]
    constructor
    · rintro rfl
      exact absurd hSpace (by decide)
    · rintro rfl
      exact absurd hSpace (by decide)
  have hPad : ∀ c ∈ List.replicate (6 - i.name.length) (32 : Byte),
      (c == byte ' ' || c == byte '\t') = true := by
    intro c hc
    rw [List.eq_of_mem_replicate hc]
    decide
  rw [padLeft, List.append_assoc, dropWhile_append_of_all _ hPad, hName, List.cons_append,
    List.dropWhile_cons, hb]
  rfl

/-- The reader gets the name and sixteen counters. -/
theorem interfaceLine_text (i : NetDev) :
    interfaceLine (i.text ++ [newline]) =
      if i.name = ascii "lo" then none else some (i.name, i.longCounters) := by
  have hText : i.text ++ [newline] =
      padLeft 6 i.name ++ byte ':' :: (counterRow i.row ++ [newline]) := by
    simp [text]
  have hColon : strchr (i.name ++ byte ':' :: (counterRow i.row ++ [newline])) (byte ':') =
      some (byte ':' :: (counterRow i.row ++ [newline])) := by
    rw [strchr_append_of_notMem _ i.name_colon, strchr_cons_self]
  have hNums : nums (sscanf (longs 16) (counterRow i.row ++ [newline])) = i.longCounters := by
    rw [sscanf_longs i.length_row.ge (isdigit_head (by decide) _), nums_map_num, ← i.length_row,
      List.take_length, longCounters, row]
    have hSnd : (widths.zip i.counters).map Prod.snd = i.counters :=
      List.map_snd_zip (i.length_counters.trans rfl).le
    calc (widths.zip i.counters).map (fun c => clampLong c.2)
        = ((widths.zip i.counters).map Prod.snd).map (fun n : Nat => clampLong n) := by
          rw [List.map_map]
          rfl
      _ = i.counters.map fun n : Nat => clampLong n := by rw [hSnd]
  have hLength : (i.name ++ byte ':' :: (counterRow i.row ++ [newline])).length -
      (byte ':' :: (counterRow i.row ++ [newline])).length = i.name.length := by
    rw [List.length_append, Nat.add_sub_cancel]
  have hName : ¬ (i.name.length = 0 ∨ i.name.length ≥ 64) := by
    have hPos := List.length_pos_iff.mpr i.name_word.1
    have hLe := i.name_length
    omega
  have hCount : ¬ i.longCounters.length < 11 := by
    rw [longCounters, List.length_map, i.length_counters]
    decide
  simp only [interfaceLine, hText, i.dropWhile_blank_text, hColon, hLength, if_neg hName,
    List.take_left, List.drop_one, List.tail_cons, hNums, if_neg hCount, strcmp_eq_zero_iff]

/-- The two lines in front of the interfaces. -/
def header : List Bytes :=
  [ascii "Inter-|   Receive                                                |  Transmit",
   ascii " face |bytes    packets errs drop fifo frame compressed multicast|" ++
     ascii "bytes    packets errs drop fifo colls carrier compressed"]

def fileText (is : List NetDev) : Bytes :=
  (header ++ is.map text).flatMap (· ++ [newline])

theorem isLine_header {text : Bytes} (h : text ∈ header) : IsLine 512 text := by
  simp only [header, List.mem_cons, List.not_mem_nil, or_false] at h
  rcases h with rfl | rfl
  · exact ⟨by decide, by decide, by decide⟩
  · refine ⟨?_, ?_, ?_⟩
    · rw [List.mem_append, not_or]
      exact ⟨by decide, by decide⟩
    · rw [List.mem_append, not_or]
      exact ⟨by decide, by decide⟩
    · rw [List.length_append]
      decide

/-- Three metrics for every interface but the loopback, in the order of the file. -/
theorem interfaceRead_fileText {D : Type} [CDouble D] {src : Sources} {base : Bytes}
    {is : List NetDev} (h : src.file (procPath base "/net/dev") = some (fileText is)) :
    (interfaceRead src base : ReadResult D) =
      .ok ((is.filter fun i => i.name ≠ ascii "lo").flatMap fun i =>
        interfaceMetrics (i.name, i.longCounters)) := by
  have hLines : (fgetsLines 512 (fileText is)).drop 2 = is.map fun i => i.text ++ [newline] := by
    rw [fileText, fgetsLines_flatMap]
    · rw [List.map_append, List.map_map]
      rfl
    · intro text hText
      rcases List.mem_append.mp hText with hText | hText
      · exact isLine_header hText
      · obtain ⟨i, -, rfl⟩ := List.mem_map.mp hText
        exact i.isLine_text
  have hKept : (is.map fun i => i.text ++ [newline]).filterMap interfaceLine =
      (is.filter fun i => i.name ≠ ascii "lo").map fun i => (i.name, i.longCounters) := by
    rw [List.filterMap_map, ← List.filterMap_eq_map, List.filterMap_filter]
    apply List.filterMap_congr
    intro i _
    simp only [Function.comp_apply, interfaceLine_text, ne_eq, decide_not, Bool.not_eq_true']
    by_cases hLo : i.name = ascii "lo" <;> simp [hLo]
  rw [interfaceRead, h]
  simp only [hLines, hKept, List.flatMap_map]

end NetDev

end SvgdCollect
