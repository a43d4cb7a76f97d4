import SvgdCollect.Readers.Totals

/-!
# The stat line of a process

The kernel writes `/proc/<pid>/stat` as one line, with the name of the process, which
the process chooses itself, in parentheses in front of the numbers.  `processes_read`
splits the line behind the last parenthesis.
-/

namespace SvgdCollect

open Lib

def isLetter (b : Byte) : Bool :=
  (byte 'A' ≤ b && b ≤ byte 'Z') || (byte 'a' ≤ b && b ≤ byte 'z')

/-- The numbers of a line from the fourth field on, each behind a space. -/
def fieldsText (fields : List Int) : Bytes := fields.flatMap fun x => byte ' ' :: decimalInt x

/-- What the kernel puts on the line: fields 4 to 52 are 64-bit numbers, and the times
and the number of threads are not negative.  A process has a name of at most 15 bytes, a
kernel thread one of at most 63, and newlines and backslashes are written as two bytes. -/
structure StatLine where
  pid : Nat
  comm : Bytes
  state : Byte
  fields : List Int
  pid_lt : pid < 2 ^ 31
  comm_length : comm.length ≤ 126
  comm_zero : 0 ∉ comm
  comm_newline : newline ∉ comm
  state_letter : isLetter state = true
  length_fields : fields.length = 49
  range : ∀ x ∈ fields, -2 ^ 63 ≤ x ∧ x < 2 ^ 64
  counts : ∀ i ∈ [10, 11, 16], 0 ≤ fields.getD i 0

namespace StatLine

/-- A field by its number in `proc(5)`. -/
def field (l : StatLine) (k : Nat) : Int := l.fields.getD (k - 4) 0

/-- The line up to the end of the name. -/
def front (l : StatLine) : Bytes := decimal l.pid ++ (ascii " (" ++ l.comm)

/-- The line behind the closing parenthesis. -/
def back (l : StatLine) : Bytes := byte ' ' :: l.state :: (fieldsText l.fields ++ [newline])

def text (l : StatLine) : Bytes := l.front ++ byte ')' :: l.back

end StatLine

/-! ## The numbers -/

theorem mem_fieldsText {fields : List Int} {b : Byte} (h : b ∈ fieldsText fields) :
    b = byte ' ' ∨ b = byte '-' ∨ isdigit b = true := by
  obtain ⟨x, -, hb⟩ := List.mem_flatMap.mp h
  rcases List.mem_cons.mp hb with rfl | hb
  · exact Or.inl rfl
  · exact Or.inr (mem_decimalInt hb)

theorem notMem_fieldsText {fields : List Int} {b : Byte}
    (h : b ≠ byte ' ' ∧ b ≠ byte '-' ∧ isdigit b = false) : b ∉ fieldsText fields := by
  intro hMem
  rcases mem_fieldsText hMem with hb | hb | hb
  · exact h.1 hb
  · exact h.2.1 hb
  · rw [h.2.2] at hb
    cases hb

theorem fieldsText_append (fields fields' : List Int) :
    fieldsText (fields ++ fields') = fieldsText fields ++ fieldsText fields' :=
  List.flatMap_append

theorem length_fieldsText_le {fields : List Int}
    (h : ∀ x ∈ fields, -2 ^ 63 ≤ x ∧ x < 2 ^ 64) :
    (fieldsText fields).length ≤ 22 * fields.length := by
  induction fields with
  | nil => exact le_refl 0
  | cons x fields ih =>
      have hFirst : (decimalInt x).length ≤ 21 := by
        have hx := h x List.mem_cons_self
        exact length_decimalInt_le (by omega)
      have hRest := ih fun y hy => h y (List.mem_cons_of_mem x hy)
      have hText : fieldsText (x :: fields) = byte ' ' :: decimalInt x ++ fieldsText fields := rfl
      rw [hText, List.length_append, List.length_cons, List.length_cons]
      omega

/-- What follows the numbers does not continue one, and neither do the numbers. -/
theorem head_fieldsText_append (fields : List Int) {rest : Bytes}
    (hRest : ∀ b, rest.head? = some b → isdigit b = false) :
    ∀ b, (fieldsText fields ++ rest).head? = some b → isdigit b = false := by
  cases fields with
  | nil => exact hRest
  | cons x fields =>
      intro b hb
      obtain rfl : byte ' ' = b := Option.some.inj hb
      decide

theorem sscanf_ulongs (fields : List Int) {rest : Bytes}
    (hRest : ∀ b, rest.head? = some b → isdigit b = false) :
    sscanf (ulongs fields.length) (fieldsText fields ++ rest) =
      fields.map fun x => .num (toUlong x) := by
  induction fields with
  | nil => rfl
  | cons x fields ih =>
      have hText : fieldsText (x :: fields) ++ rest =
          byte ' ' :: (decimalInt x ++ (fieldsText fields ++ rest)) := by
        simp [fieldsText]
      rw [hText, List.length_cons, ulongs,
        sscanf_ulong_decimalInt _ x (head_fieldsText_append fields hRest), ih, List.map_cons]

/-! ## The line -/

theorem ne_of_isLetter {b c : Byte} (h : isLetter b = true) (hc : isLetter c = false) : b ≠ c := by
  rintro rfl
  rw [hc] at h
  cases h

theorem isspace_of_isLetter {b : Byte} (h : isLetter b = true) : isspace b = false := by
  -- letters start at 65, white space ends at 32
  have hLetter : 65 ≤ b.toNat := by
    simp only [isLetter, Bool.or_eq_true, Bool.and_eq_true, decide_eq_true_eq] at h
    rcases h with h | h
    · exact UInt8.le_iff_toNat_le.mp h.1
    · exact le_trans (by decide) (UInt8.le_iff_toNat_le.mp h.1)
  have hSpace : b ≠ 32 := by
    rintro rfl
    exact absurd hLetter (by decide)
  have hControl : ¬ b ≤ 13 := by
    intro hb
    exact absurd (hLetter.trans (UInt8.le_iff_toNat_le.mp hb)) (by decide)
  simp [isspace, hSpace, hControl]

namespace StatLine

theorem length_front (l : StatLine) : l.front.length ≤ 138 := by
  have hPid : (decimal l.pid).length ≤ 10 :=
    length_decimal_le (by omega) (l.pid_lt.trans (by norm_num))
  have hOpen : (ascii " (").length = 2 := rfl
  have hComm := l.comm_length
  rw [front, List.length_append, List.length_append, hOpen]
  omega

theorem zero_notMem_text (l : StatLine) : 0 ∉ l.text := by
  have hState : (0 : Byte) ≠ l.state := (ne_of_isLetter l.state_letter (by decide)).symm
  have hPid : (0 : Byte) ∉ decimal l.pid := notMem_decimal (by decide)
  have hFields : (0 : Byte) ∉ fieldsText l.fields := notMem_fieldsText (by decide)
  have hBytes : (0 : Byte) ∉ ascii " (" ∧ (0 : Byte) ≠ byte ')' ∧ (0 : Byte) ≠ byte ' ' ∧
      (0 : Byte) ≠ newline := by decide
  simp [text, front, back, hState, hPid, hFields, hBytes, l.comm_zero]

/-- The line ends at its only newline. -/
theorem firstLine_text (l : StatLine) : firstLine l.text = l.text := by
  have hState : newline ≠ l.state := (ne_of_isLetter l.state_letter (by decide)).symm
  have hPid : newline ∉ decimal l.pid := notMem_decimal (by decide)
  have hFields : newline ∉ fieldsText l.fields := notMem_fieldsText (by decide)
  have hBytes : newline ∉ ascii " (" ∧ newline ≠ byte ')' ∧ newline ≠ byte ' ' := by decide
  have hText : l.text =
      (l.front ++ byte ')' :: byte ' ' :: l.state :: fieldsText l.fields) ++ newline :: [] := by
    simp [text, back]
  rw [hText]
  apply firstLine_append_newline
  simp [front, hState, hPid, hFields, hBytes, l.comm_newline]

/-- The line up to the last number that is scanned. -/
def scanned (l : StatLine) : Bytes :=
  l.front ++ byte ')' :: (byte ' ' :: l.state :: fieldsText (l.fields.take 17))

theorem text_eq_scanned_append (l : StatLine) :
    l.text = l.scanned ++ (fieldsText (l.fields.drop 17) ++ [newline]) := by
  have hFields : fieldsText l.fields =
      fieldsText (l.fields.take 17) ++ fieldsText (l.fields.drop 17) := by
    rw [← fieldsText_append, List.take_append_drop]
  simp [text, back, scanned, hFields]

theorem length_scanned_le (l : StatLine) : l.scanned.length ≤ 1023 := by
  have hNumbers : (fieldsText (l.fields.take 17)).length ≤ 22 * 17 := by
    have hLength := @length_fieldsText_le (l.fields.take 17) fun x hx =>
      l.range x (List.mem_of_mem_take hx)
    rw [List.length_take, l.length_fields] at hLength
    exact hLength
  have hName := l.length_front
  simp only [scanned, List.length_append, List.length_cons]
  omega

/-- What is in the buffer: the first seventeen numbers are, whatever is cut off. -/
theorem fgetsFile_text (l : StatLine) :
    ∃ rest, fgetsFile 1024 (some l.text) = some (l.scanned ++ rest) ∧
      byte ')' ∉ rest ∧ ∀ b, rest.head? = some b → isdigit b = false := by
  have hNonempty : l.text ≠ [] := by simp [text]
  have hCstr : cstr (l.text.take 1023) = l.text.take 1023 :=
    cstr_eq_self fun hMem => l.zero_notMem_text (List.mem_of_mem_take hMem)
  refine ⟨(fieldsText (l.fields.drop 17) ++ [newline]).take (1023 - l.scanned.length), ?_, ?_, ?_⟩
  · simp only [fgetsFile, Option.bind_some, fgets, if_neg hNonempty, l.firstLine_text,
      Option.map_some, show 1024 - 1 = 1023 from rfl, hCstr]
    rw [l.text_eq_scanned_append, List.take_append, List.take_of_length_le l.length_scanned_le]
  · intro hMem
    rcases List.mem_append.mp (List.mem_of_mem_take hMem) with hField | hLast
    · exact notMem_fieldsText (by decide) hField
    · exact absurd hLast (by decide)
  · -- the buffer ends in front of a number or behind one
    intro b hb
    apply @head_fieldsText_append (l.fields.drop 17) [newline]
    · intro c hc
      rw [← Option.some.inj hc]
      decide
    · rw [List.head?_take] at hb
      split at hb
      · cases hb
      · exact hb

/-- All seventeen conversions succeed, negative numbers included. -/
theorem sscanf_text (l : StatLine) :
    ∃ rp, (fgetsFile 1024 (some l.text)).bind (strrchr · (byte ')')) = some rp ∧
      nums (sscanf (.str none false :: ulongs 17) (rp.drop 1)) = (l.fields.take 17).map toUlong := by
  obtain ⟨rest, hLine, hParen, hRest⟩ := l.fgetsFile_text
  have hNotMem : byte ')' ∉
      byte ' ' :: l.state :: (fieldsText (l.fields.take 17) ++ rest) := by
    have hState : byte ')' ≠ l.state := (ne_of_isLetter l.state_letter (by decide)).symm
    have hFields : byte ')' ∉ fieldsText (l.fields.take 17) := notMem_fieldsText (by decide)
    have hSpace : byte ')' ≠ byte ' ' := by decide
    simp [hState, hFields, hSpace, hParen]
  have hText : l.scanned ++ rest = l.front ++ byte ')' ::
      (byte ' ' :: l.state :: (fieldsText (l.fields.take 17) ++ rest)) := by
    simp [scanned]
  refine ⟨_, by rw [hLine, hText, Option.bind_some, strrchr_append_cons _ hNotMem], ?_⟩
  rw [List.drop_one, List.tail_cons]
  -- the state is a word of its own: the numbers start with a space
  obtain ⟨x, fields, hFields⟩ : ∃ x fields, l.fields.take 17 = x :: fields := by
    apply List.exists_cons_of_ne_nil
    rw [ne_eq, List.take_eq_nil_iff, not_or]
    exact ⟨by omega, fun hNil => by simpa [hNil] using l.length_fields⟩
  have hState : isspace l.state = false := isspace_of_isLetter l.state_letter
  have hBlank : isspace (byte ' ') = true := by decide
  have hSkip : sscanf (.str none false :: ulongs 17)
      (byte ' ' :: l.state :: (fieldsText (l.fields.take 17) ++ rest)) =
        sscanf (ulongs 17) (fieldsText (l.fields.take 17) ++ rest) := by
    rw [sscanf, hFields]
    simp [scanToken, fieldsText, hState, hBlank]
  have hLength : (l.fields.take 17).length = 17 := by
    rw [List.length_take, l.length_fields]
    rfl
  have hScan := sscanf_ulongs (l.fields.take 17) hRest
  rw [hLength] at hScan
  rw [hSkip, hScan, ← nums_map_num ((l.fields.take 17).map toUlong), List.map_map]
  rfl

/-- A number that is not negative is read as itself. -/
theorem toUlong_getD (l : StatLine) {i : Nat} (h : i ∈ [10, 11, 16]) :
    ((l.fields.take 17).map toUlong).getD i 0 = l.fields.getD i 0 := by
  have hBound : i < 17 := by
    simp only [List.mem_cons, List.not_mem_nil, or_false] at h
    omega
  have hLength : i < l.fields.length := by
    rw [l.length_fields]
    omega
  have hCount := l.counts i h
  have hRange := l.range l.fields[i] (List.getElem_mem hLength)
  simp only [List.getD_eq_getElem?_getD, List.getElem?_map, List.getElem?_take, if_pos hBound,
    List.getElem?_eq_getElem hLength, Option.map_some, Option.getD_some] at hCount ⊢
  rw [toUlong, if_pos (by omega)]
  exact Int.emod_eq_of_lt hCount hRange.2

theorem statTimes_text (l : StatLine) :
    (fgetsFile 1024 (some l.text)).bind statTimes =
      some ((l.field 14).toNat, (l.field 15).toNat, (l.field 20).toNat) := by
  obtain ⟨rp, hSplit, hFields⟩ := l.sscanf_text
  obtain ⟨line, hLine, hParen⟩ := Option.bind_eq_some_iff.mp hSplit
  have hLength : ¬ ((l.fields.take 17).map toUlong).length < 17 := by
    rw [List.length_map, List.length_take, l.length_fields]
    omega
  rw [hLine, Option.bind_some, statTimes, hParen]
  simp only [hFields, if_neg hLength, toUlong_getD l (show 10 ∈ [10, 11, 16] by decide),
    toUlong_getD l (show 11 ∈ [10, 11, 16] by decide),
    toUlong_getD l (show 16 ∈ [10, 11, 16] by decide)]
  rfl

end StatLine

/-- **Stat lines are read back.**  Whatever the name of the process looks like, all
seventeen conversions of `processes_read` succeed on the line that the kernel writes,
and give the times and the number of threads of the line.  A process with such a line is
counted, with these numbers, if its other files can be read. -/
theorem processes_read_statLine (l : StatLine) :
    (∃ rp, (fgetsFile 1024 (some l.text)).bind (strrchr · (byte ')')) = some rp ∧
        nums (sscanf (.str none false :: ulongs 17) (rp.drop 1)) =
          (l.fields.take 17).map toUlong) ∧
      (∃ utime stime threads : Nat,
        (fgetsFile 1024 (some l.text)).bind statTimes = some (utime, stime, threads) ∧
          (utime : Int) = l.field 14 ∧ (stime : Int) = l.field 15 ∧
            (threads : Int) = l.field 20) ∧
      ∀ (src : Sources) (base pid : Bytes), src.file (pidPath base pid "stat") = some l.text →
        ((readPid src base pid).isSome ↔
            isNumeric pid = true ∧ (pidComm src base pid).isSome ∧
              ((fgetsFile 256 (src.file (pidPath base pid "statm"))).bind statmResident).isSome) ∧
          ∀ s ∈ readPid src base pid, (s.utime : Int) = l.field 14 ∧
            (s.stime : Int) = l.field 15 ∧ s.threads = toInt32 (l.field 20) := by
  have hUtime : ((l.field 14).toNat : Int) = l.field 14 :=
    Int.toNat_of_nonneg (l.counts 10 (by decide))
  have hStime : ((l.field 15).toNat : Int) = l.field 15 :=
    Int.toNat_of_nonneg (l.counts 11 (by decide))
  have hThreads : ((l.field 20).toNat : Int) = l.field 20 :=
    Int.toNat_of_nonneg (l.counts 16 (by decide))
  refine ⟨l.sscanf_text, ⟨_, _, _, l.statTimes_text, hUtime, hStime, hThreads⟩, ?_⟩
  intro src base pid hFile
  have hTimes : (fgetsFile 1024 (src.file (pidPath base pid "stat"))).bind statTimes =
      some ((l.field 14).toNat, (l.field 15).toNat, (l.field 20).toNat) := by
    rw [hFile, l.statTimes_text]
  rw [readPid_eq_map]
  refine ⟨?_, ?_⟩
  · rw [Option.isSome_map, isSome_pidEntry_iff]
    constructor
    · rintro ⟨hNumeric, hRead⟩
      exact ⟨hNumeric, hRead.comm, hRead.statm⟩
    · rintro ⟨hNumeric, hComm, hStatm⟩
      exact ⟨hNumeric, hComm, by rw [hTimes]; rfl, hStatm⟩
  · intro s hs
    obtain ⟨e, he, rfl⟩ := Option.map_eq_some_iff.mp hs
    unfold pidEntry at he
    simp only [hTimes, Option.bind_eq_bind, Option.bind_some, Option.bind_eq_some_iff] at he
    obtain ⟨-, -, comm, -, resident, -, he⟩ := he
    rw [← Option.some.inj he]
    refine ⟨hUtime, hStime, ?_⟩
    rw [PidEntry.sample, hThreads]

/-- A process that calls itself `a) R 1 (2` has been given a negative nice value. -/
def hostileStat : StatLine :=
  { pid := 100, comm := ascii "a) R 1 (2", state := byte 'S'
    fields := [1, 100, 100, 0, -1, 4194560, 10, 0, 0, 0, 120, 30, 0, 0, 15, -5, 3] ++
      List.replicate 32 0
    pid_lt := by decide, comm_length := by decide, comm_zero := by decide
    comm_newline := by decide, state_letter := by decide, length_fields := by decide
    range := by decide, counts := by decide }

def hostileProc : Sources :=
  procSources [ascii "100"]
    (fun _ => some
      { comm := ascii "a) R 1 (2\n", stat := hostileStat.text
        statm := ascii "300 50 20 1 0 40 0\n" })
    (by decide)

theorem hostileProc_readPid :
    (readPid hostileProc (ascii "/proc") (ascii "100")).isSome ∧
      ∀ s ∈ readPid hostileProc (ascii "/proc") (ascii "100"),
        (s.utime : Int) = 120 ∧ (s.stime : Int) = 30 ∧ s.threads = toInt32 3 := by
  obtain ⟨hComm, hStat, hStatm⟩ : _ ∧ _ ∧ _ :=
    @procSources_file [ascii "100"]
      (fun _ => some
        { comm := ascii "a) R 1 (2\n", stat := hostileStat.text
          statm := ascii "300 50 20 1 0 40 0\n" }) (by decide) (ascii "100") _ (by decide)
      (by decide) rfl
  obtain ⟨hRead, hTimes⟩ :=
    (processes_read_statLine hostileStat).2.2 hostileProc (ascii "/proc") (ascii "100") hStat
  refine ⟨hRead.mpr ⟨by decide, ?_, ?_⟩, hTimes⟩
  · rw [pidComm, hostileProc, hComm]
    decide
  · rw [hostileProc, hStatm]
    decide

end SvgdCollect
