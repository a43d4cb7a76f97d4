import SvgdCollect.Lib.Cells
import SvgdCollect.Types

/-!
# The arguments of `rrd_create_r`

`rra_args` writes the data source and archive definitions one after the other
into a static buffer.  The model keeps the offset of the next write, the counter
of remaining bytes as the `size_t` it is, and what was written where.
-/

namespace SvgdCollect

open Lib

def rraStep : Nat := 5

def rraHeartbeat : Nat := rraStep * 2

/-- `RRAROWS`. -/
def rraRows : Nat := 2400

def timespans : List Nat := [3600, 86400, 604800]

/-- `CFRDS`. -/
def cfrds : List Bytes := [ascii "AVERAGE", ascii "MIN", ascii "MAX"]

/-- The size of the static `buf`. -/
def rraBufSize : Nat := 64 * 40

def dstStr : Dst → Bytes
  | .gauge => ascii "GAUGE"
  | .derive => ascii "DERIVE"
  | .counter => ascii "COUNTER"

/-- The loop state: the next offset, `remaining` modulo 2^64, the offsets stored in
`argv`, each write with its offset, and whether `remaining` has gone below zero. -/
structure RraState where
  p : Nat
  remaining : Nat
  argv : List Nat
  writes : List (Nat × Bytes)
  wrapped : Bool
  deriving DecidableEq

def RraState.start : RraState :=
  { p := 0, remaining := rraBufSize, argv := [], writes := [], wrapped := false }

/-- One `snprintf` at the pointer. -/
def RraState.write (s : RraState) (text : Bytes) : RraState :=
  { s with writes := s.writes ++ [(s.p, snprintfCells s.remaining text)] }

/-- What the pointer is moved by behind a text: `len + 1`. -/
def textSpace (text : Bytes) : Nat := (snprintfReturn text + 1).toNat

/-- The text is written, its address stored, and the pointer moved behind it without a
check. -/
def RraState.put (s : RraState) (text : Bytes) : RraState :=
  { p := s.p + textSpace text
    remaining := (s.remaining + 2 ^ 64 - textSpace text % 2 ^ 64) % 2 ^ 64
    argv := s.argv ++ [s.p]
    writes := (s.write text).writes
    wrapped := s.wrapped || decide (s.remaining < textSpace text) }

def dsText (ds : DsDef) : Bytes :=
  ascii "DS:" ++ (ds.name ++ byte ':' :: (dstStr ds.dst ++ byte ':' ::
    (decimal rraHeartbeat ++ ascii ":U:U")))

def rraText (cf : Bytes) (cdpLen cdpNum : Nat) : Bytes :=
  ascii "RRA:" ++ (cf ++ byte ':' :: (ascii "0.1" ++ byte ':' ::
    (decimal cdpLen ++ byte ':' :: decimal cdpNum)))

/-- The archive definitions of one timespan; an error, with the state then, when the
buffer is exhausted. -/
def putArchives (cdpLen cdpNum : Nat) : List Bytes → RraState → Except RraState RraState
  | [], s => .ok s
  | cf :: rest, s =>
      let text := rraText cf cdpLen cdpNum
      if snprintfReturn text < 0 ∨ text.length ≥ s.remaining then .error (s.write text)
      else putArchives cdpLen cdpNum rest (s.put text)

/-- The loop over the timespans.  The quotients are taken in `double` by the
source; on these constants that is integer division. -/
def putTimespans : Nat → List Nat → RraState → Except RraState RraState
  | _, [], s => .ok s
  | cdpLen, span :: rest, s =>
      let span := if span / rraStep < rraRows then rraStep * rraRows else span
      let cdpLen := if cdpLen = 0 then 1 else span / (rraRows * rraStep)
      let cdpNum := (span + cdpLen * rraStep - 1) / (cdpLen * rraStep)
      match putArchives cdpLen cdpNum cfrds s with
      | .error s => .error s
      | .ok s => putTimespans cdpLen rest s

/-- `rra_args`: the return value, and the state of the buffer and of `argv`. -/
def rraArgs (td : TypeDef) (argvMax : Int) : Int × RraState :=
  -- `ds_count` is an `int`, and so is the sum
  let count := toInt32 (td.dsCount + timespans.length * cfrds.length)
  if count > argvMax then (-1, RraState.start)
  else
    let s := td.ds.foldl (fun s ds => s.put (dsText ds)) RraState.start
    match putTimespans 0 timespans s with
    | .error s => (-1, s)
    | .ok s => (count, s)

/-! ## The texts in order -/

/-- The nine archive definitions. -/
def archiveTexts : List Bytes :=
  [ascii "RRA:AVERAGE:0.1:1:2400", ascii "RRA:MIN:0.1:1:2400", ascii "RRA:MAX:0.1:1:2400",
   ascii "RRA:AVERAGE:0.1:7:2469", ascii "RRA:MIN:0.1:7:2469", ascii "RRA:MAX:0.1:7:2469",
   ascii "RRA:AVERAGE:0.1:50:2420", ascii "RRA:MIN:0.1:50:2420", ascii "RRA:MAX:0.1:50:2420"]

/-- Texts put one after the other with the check of the second loop. -/
def putChecked : List Bytes → RraState → Except RraState RraState
  | [], s => .ok s
  | text :: rest, s =>
      if snprintfReturn text < 0 ∨ text.length ≥ s.remaining then .error (s.write text)
      else putChecked rest (s.put text)

theorem putArchives_eq (cdpLen cdpNum : Nat) (cfs : List Bytes) (s : RraState) :
    putArchives cdpLen cdpNum cfs s = putChecked (cfs.map fun cf => rraText cf cdpLen cdpNum) s := by
  induction cfs generalizing s with
  | nil => rfl
  | cons cf cfs ih =>
      rw [putArchives, List.map_cons, putChecked]
      simp only [ih]

theorem putChecked_append (first second : List Bytes) (s : RraState) :
    putChecked (first ++ second) s =
      match putChecked first s with
      | .error s => .error s
      | .ok s => putChecked second s := by
  induction first generalizing s with
  | nil => rfl
  | cons text first ih =>
      rw [List.cons_append, putChecked, putChecked]
      split
      · rfl
      · exact ih _

/-- The loops over the timespans and the consolidation functions put the nine texts. -/
theorem putTimespans_eq (s : RraState) :
    putTimespans 0 timespans s = putChecked archiveTexts s := by
  have hTexts : archiveTexts = cfrds.map (fun cf => rraText cf 1 2400) ++
      (cfrds.map (fun cf => rraText cf 7 2469) ++ cfrds.map fun cf => rraText cf 50 2420) := by
    decide
  have hShort : ∀ s, putTimespans 0 timespans s =
      match putArchives 1 2400 cfrds s with
      | .error s => .error s
      | .ok s =>
          match putArchives 7 2469 cfrds s with
          | .error s => .error s
          | .ok s =>
              match putArchives 50 2420 cfrds s with
              | .error s => .error s
              | .ok s => .ok s := fun _ => rfl
  rw [hShort, hTexts, putChecked_append]
  simp only [putArchives_eq, putChecked_append]
  split
  · rfl
  · split
    · rfl
    · split
      · rename_i h
        exact h.symm
      · rename_i h
        exact h.symm

/-! ## The cursor and the counter -/

/-- The bytes of the buffer that texts take. -/
def totalSpace (texts : List Bytes) : Nat := (texts.map textSpace).sum

@[simp] theorem totalSpace_nil : totalSpace [] = 0 := rfl

@[simp] theorem totalSpace_cons (text : Bytes) (texts : List Bytes) :
    totalSpace (text :: texts) = textSpace text + totalSpace texts := rfl

theorem totalSpace_append (first second : List Bytes) :
    totalSpace (first ++ second) = totalSpace first + totalSpace second := by
  rw [totalSpace, List.map_append, List.sum_append]
  rfl

theorem textSpace_of_lt {text : Bytes} (h : text.length < 2 ^ 31) :
    textSpace text = text.length + 1 := by
  rw [textSpace, snprintfReturn, if_pos h]
  omega

/-- `remaining` counts the bytes behind the pointer, and every write has been inside the
buffer. -/
structure RraState.Fits (s : RraState) : Prop where
  sum : s.p + s.remaining = rraBufSize
  wrapped : s.wrapped = false
  inside : ∀ w ∈ s.writes, w.1 + w.2.length ≤ rraBufSize

theorem RraState.fits_start : RraState.start.Fits :=
  ⟨Nat.zero_add _, rfl, fun _ hw => nomatch hw⟩

namespace RraState.Fits

variable {s : RraState}

theorem remaining_le (h : s.Fits) : s.remaining ≤ rraBufSize := by
  have := h.sum
  omega

theorem write (h : s.Fits) (text : Bytes) : (s.write text).Fits := by
  refine ⟨h.sum, h.wrapped, ?_⟩
  intro w hw
  rcases List.mem_append.mp hw with hOld | hNew
  · exact h.inside w hOld
  · rw [List.mem_singleton.mp hNew]
    have hCells := length_snprintfCells_le s.remaining text
    have hSum := h.sum
    change s.p + (snprintfCells s.remaining text).length ≤ rraBufSize
    omega

theorem remaining_put (h : s.Fits) {text : Bytes} (hSpace : textSpace text ≤ s.remaining) :
    (s.put text).remaining = s.remaining - textSpace text := by
  have hLe : s.remaining ≤ 2560 := h.remaining_le
  change (s.remaining + 2 ^ 64 - textSpace text % 2 ^ 64) % 2 ^ 64 = _
  rw [Nat.mod_eq_of_lt (by omega : textSpace text < 2 ^ 64)]
  omega

theorem put (h : s.Fits) {text : Bytes} (hSpace : textSpace text ≤ s.remaining) :
    (s.put text).Fits := by
  have hRemaining := h.remaining_put hSpace
  refine ⟨?_, ?_, (h.write text).inside⟩
  · rw [hRemaining]
    have hSum := h.sum
    change s.p + textSpace text + _ = _
    omega
  · change (s.wrapped || decide (s.remaining < textSpace text)) = false
    rw [h.wrapped, decide_eq_false (by omega)]
    rfl

end RraState.Fits

theorem wrapped_put {s : RraState} (text : Bytes) (h : s.wrapped = true) :
    (s.put text).wrapped = true := by
  change (s.wrapped || decide (s.remaining < textSpace text)) = true
  rw [h]
  rfl

theorem wrapped_foldl_put {texts : List Bytes} {s : RraState} (h : s.wrapped = true) :
    (texts.foldl RraState.put s).wrapped = true := by
  induction texts generalizing s with
  | nil => exact h
  | cons text texts ih => exact ih (wrapped_put text h)

/-- The unchecked loop keeps the invariant as long as the texts fit, and wraps if they do
not. -/
theorem foldl_put_cases {texts : List Bytes} {s : RraState} (h : s.Fits) :
    (totalSpace texts ≤ s.remaining ∧ (texts.foldl RraState.put s).Fits ∧
        (texts.foldl RraState.put s).remaining = s.remaining - totalSpace texts) ∨
      (s.remaining < totalSpace texts ∧ (texts.foldl RraState.put s).wrapped = true) := by
  induction texts generalizing s with
  | nil => exact Or.inl ⟨Nat.zero_le _, h, rfl⟩
  | cons text texts ih =>
      rw [totalSpace_cons, List.foldl_cons]
      by_cases hSpace : textSpace text ≤ s.remaining
      · have hRemaining := h.remaining_put hSpace
        rcases ih (h.put hSpace) with ⟨hTotal, hFits, hLeft⟩ | ⟨hTotal, hWrapped⟩
        · exact Or.inl ⟨by omega, hFits, by omega⟩
        · exact Or.inr ⟨by omega, hWrapped⟩
      · refine Or.inr ⟨by omega, wrapped_foldl_put ?_⟩
        change (s.wrapped || decide (s.remaining < textSpace text)) = true
        rw [decide_eq_true (by omega), Bool.or_true]

/-- The checked loop keeps the invariant in any case, and returns normally exactly if the
texts fit. -/
theorem putChecked_cases {texts : List Bytes} {s : RraState} (h : s.Fits)
    (hShort : ∀ text ∈ texts, text.length < 2 ^ 31) :
    (totalSpace texts ≤ s.remaining ∧ putChecked texts s = .ok (texts.foldl RraState.put s)) ∨
      (s.remaining < totalSpace texts ∧ ∃ s', putChecked texts s = .error s' ∧ s'.Fits) := by
  induction texts generalizing s with
  | nil => exact Or.inl ⟨Nat.zero_le _, rfl⟩
  | cons text texts ih =>
      rw [List.forall_mem_cons] at hShort
      have hText := textSpace_of_lt hShort.1
      have hReturn : ¬ snprintfReturn text < 0 := by
        rw [snprintfReturn, if_pos hShort.1]
        omega
      rw [totalSpace_cons, putChecked]
      by_cases hFull : text.length ≥ s.remaining
      · rw [if_pos (Or.inr hFull)]
        exact Or.inr ⟨by omega, _, rfl, h.write text⟩
      · rw [if_neg (not_or.mpr ⟨hReturn, hFull⟩), List.foldl_cons]
        have hSpace : textSpace text ≤ s.remaining := by omega
        have hRemaining := h.remaining_put hSpace
        rcases ih (h.put hSpace) hShort.2 with ⟨hTotal, hOk⟩ | ⟨hTotal, hError⟩
        · exact Or.inl ⟨by omega, hOk⟩
        · exact Or.inr ⟨by omega, hError⟩

/-- Once wrapped, the counter stays so through the checked loop. -/
theorem wrapped_putChecked {texts : List Bytes} {s : RraState} (h : s.wrapped = true) :
    ∃ s', s'.wrapped = true ∧ (putChecked texts s = .ok s' ∨ putChecked texts s = .error s') := by
  induction texts generalizing s with
  | nil => exact ⟨s, h, Or.inl rfl⟩
  | cons text texts ih =>
      rw [putChecked]
      split
      · exact ⟨s.write text, h, Or.inr rfl⟩
      · exact ih (wrapped_put text h)

/-! ## The strings in the buffer -/

/-- Texts with their NULs, one behind the other. -/
def laid (texts : List Bytes) : Bytes := texts.flatMap (· ++ [0])

theorem laid_append (first second : List Bytes) : laid (first ++ second) = laid first ++ laid second :=
  List.flatMap_append

/-- Where the texts begin. -/
def offsets (texts : List Bytes) : List Nat :=
  (List.range texts.length).map fun i => (laid (texts.take i)).length

theorem offsets_concat (texts : List Bytes) (text : Bytes) :
    offsets (texts ++ [text]) = offsets texts ++ [(laid texts).length] := by
  unfold offsets
  rw [List.length_append, List.length_singleton, List.range_succ, List.map_append]
  congr 1
  · apply List.map_congr_left
    intro i hi
    rw [List.take_append_of_le_length (List.mem_range.mp hi).le]
  · rw [List.map_singleton, List.take_left]

/-- The texts stand at the front of the buffer, and `argv` has their addresses. -/
structure RraState.Holds (buf : Bytes) (texts : List Bytes) (s : RraState) : Prop where
  fits : s.Fits
  p : s.p = (laid texts).length
  argv : s.argv = offsets texts
  memory : pokeAll buf s.writes = some (laid texts ++ buf.drop (laid texts).length)

theorem RraState.holds_start (buf : Bytes) : RraState.start.Holds buf [] :=
  ⟨RraState.fits_start, rfl, rfl, rfl⟩

section Layout

variable {buf : Bytes}

/-- One more text. -/
theorem RraState.Holds.put (hBuf : buf.length = rraBufSize) {texts : List Bytes} {s : RraState}
    (h : s.Holds buf texts) {text : Bytes} (hShort : text.length < 2 ^ 31)
    (hSpace : textSpace text ≤ s.remaining) : (s.put text).Holds buf (texts ++ [text]) := by
  have hText := textSpace_of_lt hShort
  have hLaid : laid (texts ++ [text]) = laid texts ++ (text ++ [0]) := by
    rw [laid_append]
    simp [laid]
  have hCells : snprintfCells s.remaining text = text ++ [0] := snprintfCells_of_lt (by omega)
  have hSum := h.fits.sum
  have hp := h.p
  refine ⟨h.fits.put hSpace, ?_, ?_, ?_⟩
  · change s.p + textSpace text = _
    rw [hLaid, List.length_append, List.length_append, List.length_singleton, h.p, hText]
  · change s.argv ++ [s.p] = _
    rw [offsets_concat, h.argv, h.p]
  · change pokeAll buf (s.writes ++ [(s.p, snprintfCells s.remaining text)]) = _
    rw [pokeAll_append, h.memory, hCells, Option.bind_some, pokeAll]
    -- the text replaces as many cells behind the ones in use
    obtain ⟨old, rest, hSplit, hOld⟩ : ∃ old rest, buf.drop (laid texts).length = old ++ rest ∧
        (text ++ [0]).length = old.length := by
      refine ⟨_, _, (List.take_append_drop (text ++ [0]).length _).symm, ?_⟩
      rw [List.length_take, List.length_drop, List.length_append, List.length_singleton]
      omega
    have hRest : buf.drop (laid (texts ++ [text])).length = rest := by
      rw [hLaid, List.length_append, ← List.drop_drop, hSplit, hOld, List.drop_left]
    rw [hSplit, h.p, poke_eq_some (laid texts) rest hOld, hRest, hLaid]
    simp only [Option.bind_some, pokeAll, List.append_assoc]

theorem RraState.Holds.foldl_put (hBuf : buf.length = rraBufSize) {texts more : List Bytes}
    {s : RraState} (h : s.Holds buf texts) (hShort : ∀ text ∈ more, text.length < 2 ^ 31)
    (hSpace : totalSpace more ≤ s.remaining) :
    (more.foldl RraState.put s).Holds buf (texts ++ more) := by
  induction more generalizing texts s with
  | nil => rwa [List.append_nil]
  | cons text more ih =>
      rw [List.forall_mem_cons] at hShort
      rw [totalSpace_cons] at hSpace
      have hText : textSpace text ≤ s.remaining := by omega
      have hRemaining := h.fits.remaining_put hText
      have hNext := ih (h.put hBuf hShort.1 hText) hShort.2 (by omega)
      rwa [List.append_assoc] at hNext

end Layout

/-- The addresses in `argv` are those of complete strings in the buffer that do not
overlap. -/
structure PointsTo (mem : Bytes) (argv : List Nat) (texts : List Bytes) : Prop where
  length : argv.length = texts.length
  holds : ∀ (i a : Nat) (text : Bytes), argv[i]? = some a → texts[i]? = some text →
    a + (text.length + 1) ≤ mem.length ∧ HoldsText (mem.drop a) text
  apart : ∀ (i j a b : Nat) (text : Bytes), i < j → argv[i]? = some a → texts[i]? = some text →
    argv[j]? = some b → a + (text.length + 1) ≤ b

theorem laid_take_succ {texts : List Bytes} {i : Nat} {text : Bytes} (h : texts[i]? = some text) :
    laid (texts.take (i + 1)) = laid (texts.take i) ++ (text ++ [0]) := by
  rw [List.take_add_one, h, laid_append]
  simp [laid]

theorem length_laid_take_mono (texts : List Bytes) {i j : Nat} (h : i ≤ j) :
    (laid (texts.take i)).length ≤ (laid (texts.take j)).length := by
  have hPrefix : texts.take i <+: texts.take j := List.take_prefix_take_left h
  obtain ⟨more, hMore⟩ := hPrefix
  rw [← hMore, laid_append, List.length_append]
  omega

theorem pointsTo_laid (texts : List Bytes) (rest : Bytes) :
    PointsTo (laid texts ++ rest) (offsets texts) texts := by
  have hOffset : ∀ i a, (offsets texts)[i]? = some a → a = (laid (texts.take i)).length := by
    intro i a ha
    obtain ⟨hi, rfl⟩ := List.getElem?_eq_some_iff.mp ha
    simp [offsets]
  refine ⟨by simp [offsets], ?_, ?_⟩
  · intro i a text ha hText
    obtain rfl := hOffset i a ha
    have hLaid : laid texts ++ rest =
        laid (texts.take i) ++ (text ++ 0 :: (laid (texts.drop (i + 1)) ++ rest)) := by
      conv_lhs => rw [← List.take_append_drop (i + 1) texts, laid_append, laid_take_succ hText]
      simp
    refine ⟨?_, laid (texts.drop (i + 1)) ++ rest, ?_⟩
    · rw [hLaid, List.length_append, List.length_append, List.length_cons]
      omega
    · rw [hLaid, List.drop_left]
  · intro i j a b text hij ha hText hb
    obtain rfl := hOffset i a ha
    obtain rfl := hOffset j b hb
    have hMono := length_laid_take_mono texts hij
    rwa [Nat.succ_eq_add_one, laid_take_succ hText, List.length_append, List.length_append,
      List.length_singleton] at hMono

/-! ## Soundness -/

/-- What `rra_args` is to leave behind: the counter has not wrapped, nothing outside the
buffer has been written, and `argv` is given up or points to all definitions in order. -/
def RraSound (td : TypeDef) (argvMax : Int) (buf : Bytes) : Prop :=
  (rraArgs td argvMax).2.wrapped = false ∧
    ∃ mem, pokeAll buf (rraArgs td argvMax).2.writes = some mem ∧
      ((rraArgs td argvMax).1 = -1 ∨
        ((rraArgs td argvMax).1 = td.dsCount + 9 ∧
          PointsTo mem (rraArgs td argvMax).2.argv (td.ds.map dsText ++ archiveTexts)))

/-- The space of the data source definitions. -/
def dsSpace (td : TypeDef) : Nat := totalSpace (td.ds.map dsText)

theorem archives_count : (timespans.length : Int) * (cfrds.length : Int) = 9 := by decide

theorem rraArgs_of_gt {td : TypeDef} {argvMax : Int} (h : toInt32 (td.dsCount + 9) > argvMax) :
    rraArgs td argvMax = (-1, RraState.start) := by
  simp only [rraArgs, archives_count, if_pos h]

theorem rraArgs_of_le {td : TypeDef} {argvMax : Int} (h : ¬ toInt32 (td.dsCount + 9) > argvMax) :
    rraArgs td argvMax =
      match putChecked archiveTexts ((td.ds.map dsText).foldl RraState.put RraState.start) with
      | .error s => (-1, s)
      | .ok s => (toInt32 (td.dsCount + 9), s) := by
  simp only [rraArgs, archives_count, if_neg h, putTimespans_eq, List.foldl_map]

theorem archiveTexts_short : ∀ text ∈ archiveTexts, text.length < 2 ^ 31 := by decide

theorem totalSpace_archiveTexts : totalSpace archiveTexts = 186 := by decide

/-- Beyond the size of the buffer the counter wraps. -/
theorem rraArgs_wrapped {td : TypeDef} {argvMax : Int} (h : ¬ toInt32 (td.dsCount + 9) > argvMax)
    (hSpace : rraBufSize < dsSpace td) : (rraArgs td argvMax).2.wrapped = true := by
  rcases @foldl_put_cases (td.ds.map dsText) _ RraState.fits_start with ⟨hFits, -⟩ | ⟨-, hWrapped⟩
  · exact absurd hFits (not_le.mpr hSpace)
  · obtain ⟨s, hs, hRun⟩ := @wrapped_putChecked archiveTexts _ hWrapped
    rw [rraArgs_of_le h]
    rcases hRun with hOk | hError
    · rw [hOk]
      exact hs
    · rw [hError]
      exact hs

/-- In front of the archives, the data sources fit the buffer. -/
theorem rraArgs_cases {td : TypeDef} {argvMax : Int} (h : ¬ toInt32 (td.dsCount + 9) > argvMax)
    (hSpace : dsSpace td ≤ rraBufSize) :
    (dsSpace td + 186 ≤ rraBufSize ∧ rraArgs td argvMax = (toInt32 (td.dsCount + 9),
        (td.ds.map dsText ++ archiveTexts).foldl RraState.put RraState.start)) ∨
      (rraBufSize < dsSpace td + 186 ∧ ∃ s, rraArgs td argvMax = (-1, s) ∧ s.Fits) := by
  rcases @foldl_put_cases (td.ds.map dsText) _ RraState.fits_start with
    ⟨-, hFits, hRemaining⟩ | ⟨hWrap, -⟩
  · have hLeft : ((td.ds.map dsText).foldl RraState.put RraState.start).remaining =
        rraBufSize - dsSpace td := hRemaining
    rw [rraArgs_of_le h, List.foldl_append]
    rcases putChecked_cases hFits archiveTexts_short with ⟨hTotal, hOk⟩ | ⟨hTotal, s, hError, hs⟩
    · rw [totalSpace_archiveTexts, hLeft] at hTotal
      rw [hOk]
      exact Or.inl ⟨by omega, rfl⟩
    · rw [totalSpace_archiveTexts, hLeft] at hTotal
      rw [hError]
      exact Or.inr ⟨by omega, s, rfl, hs⟩
  · exact absurd hSpace (not_le.mpr hWrap)

theorem length_le_totalSpace {texts : List Bytes} (h : ∀ text ∈ texts, text.length < 2 ^ 31) :
    texts.length ≤ totalSpace texts := by
  induction texts with
  | nil => rfl
  | cons text texts ih =>
      rw [List.forall_mem_cons] at h
      have hText := textSpace_of_lt h.1
      have hRest := ih h.2
      rw [List.length_cons, totalSpace_cons]
      omega

/-- The number of definitions is never taken for the error code. -/
theorem toInt32_count_ne {td : TypeDef} (h : td.ds.length < 2 ^ 31) :
    toInt32 (td.dsCount + 9) ≠ -1 := by
  unfold toInt32 TypeDef.dsCount Int.bmod
  dsimp only
  split <;> omega

/-- A definition that no `int` can count is longer than the buffer. -/
theorem PointsTo.short {mem : Bytes} {argv : List Nat} {texts : List Bytes}
    (h : PointsTo mem argv texts) {text : Bytes} (hText : text ∈ texts) :
    text.length < mem.length := by
  obtain ⟨i, hi⟩ := List.mem_iff_getElem?.mp hText
  have hLt : i < argv.length := by
    rw [h.length]
    exact (List.getElem?_eq_some_iff.mp hi).1
  have hHolds := (h.holds i _ text (List.getElem?_eq_getElem hLt) hi).1
  omega

/-- A run that returns -1 and has kept inside the buffer is sound. -/
theorem rraSound_of_given_up {td : TypeDef} {argvMax : Int} {buf : Bytes}
    (hBuf : buf.length = 2560) {s : RraState} (hRun : rraArgs td argvMax = (-1, s))
    (hs : s.Fits) : RraSound td argvMax buf := by
  obtain ⟨mem, hMem⟩ := pokeAll_isSome (hBuf.symm ▸ hs.inside :
    ∀ w ∈ s.writes, w.1 + w.2.length ≤ buf.length)
  rw [RraSound, hRun]
  exact ⟨hs.wrapped, mem, hMem, Or.inl rfl⟩

/-- A run that returns all definitions is sound if `snprintf` can count each. -/
theorem rraSound_of_complete {td : TypeDef} {argvMax : Int} {buf : Bytes}
    (hBuf : buf.length = 2560) (hShort : ∀ ds ∈ td.ds, (dsText ds).length < 2 ^ 31)
    (hAll : dsSpace td + 186 ≤ rraBufSize)
    (hRun : rraArgs td argvMax = (toInt32 (td.dsCount + 9),
      (td.ds.map dsText ++ archiveTexts).foldl RraState.put RraState.start)) :
    RraSound td argvMax buf := by
  have hDefinitions : ∀ text ∈ td.ds.map dsText, text.length < 2 ^ 31 := by simpa using hShort
  have hTexts : ∀ text ∈ td.ds.map dsText ++ archiveTexts, text.length < 2 ^ 31 :=
    List.forall_mem_append.mpr ⟨hDefinitions, archiveTexts_short⟩
  have hTotal : totalSpace (td.ds.map dsText ++ archiveTexts) ≤ RraState.start.remaining := by
    rw [totalSpace_append, totalSpace_archiveTexts]
    exact hAll
  have hHolds := (RraState.holds_start buf).foldl_put hBuf hTexts hTotal
  rw [List.nil_append] at hHolds
  have hLength : td.ds.length ≤ 2560 := by
    have hLe := length_le_totalSpace hDefinitions
    rw [List.length_map] at hLe
    exact hLe.trans ((Nat.le_add_right _ _).trans hAll)
  have hReturn : toInt32 (td.dsCount + 9) = td.dsCount + 9 :=
    @toInt32_of_lt (td.ds.length + 9) (by omega)
  rw [RraSound, hRun]
  dsimp only
  refine ⟨hHolds.fits.wrapped, _, hHolds.memory, Or.inr ⟨hReturn, ?_⟩⟩
  rw [hHolds.argv]
  exact pointsTo_laid _ _

/-- What a sound run with enough room in `argv` says about the definitions. -/
theorem RraSound.fits {td : TypeDef} {argvMax : Int} {buf : Bytes} (h : RraSound td argvMax buf)
    (hBuf : buf.length = 2560) (hCount : td.ds.length < 2 ^ 31)
    (hMax : ¬ toInt32 (td.dsCount + 9) > argvMax) :
    dsSpace td ≤ 2560 ∧
      ((∀ ds ∈ td.ds, (dsText ds).length < 2 ^ 31) ∨ 2560 < dsSpace td + 186) := by
  obtain ⟨hWrapped, mem, hMem, hResult⟩ := h
  have hSpace : dsSpace td ≤ 2560 := by
    by_contra hOver
    rw [rraArgs_wrapped hMax (not_le.mp hOver)] at hWrapped
    cases hWrapped
  refine ⟨hSpace, ?_⟩
  rcases rraArgs_cases hMax hSpace with ⟨-, hRun⟩ | ⟨hFull, -⟩
  · rw [hRun] at hResult
    dsimp only at hResult
    rcases hResult with hMinus | ⟨-, hPoints⟩
    · exact absurd hMinus (toInt32_count_ne hCount)
    · refine Or.inl fun ds hds => ?_
      have hShort := hPoints.short
        (List.mem_append_left archiveTexts (List.mem_map_of_mem hds))
      rw [length_of_pokeAll_eq_some hMem, hBuf] at hShort
      omega
  · exact Or.inr hFull

/-- `rra_args` stays inside its buffer, counts its rest rightly and returns all
definitions or -1 exactly if `argv` is too small, or the data source definitions fit the
buffer and, unless the archives do not fit behind them, `snprintf` can count each. -/
theorem rraSound_iff {td : TypeDef} {argvMax : Int} {buf : Bytes} (hBuf : buf.length = 2560)
    (hCount : td.ds.length < 2 ^ 31) :
    RraSound td argvMax buf ↔
      toInt32 (td.dsCount + 9) > argvMax ∨
        dsSpace td ≤ 2560 ∧
          ((∀ ds ∈ td.ds, (dsText ds).length < 2 ^ 31) ∨ 2560 < dsSpace td + 186) := by
  by_cases hMax : toInt32 (td.dsCount + 9) > argvMax
  · exact iff_of_true (rraSound_of_given_up hBuf (rraArgs_of_gt hMax) RraState.fits_start)
      (Or.inl hMax)
  rw [or_iff_right hMax]
  constructor
  · exact fun hSound => hSound.fits hBuf hCount hMax
  · rintro ⟨hSpace, hFit⟩
    rcases rraArgs_cases hMax hSpace with ⟨hAll, hRun⟩ | ⟨-, s, hRun, hs⟩
    · have hShort := hFit.resolve_right (not_lt.mpr hAll)
      exact rraSound_of_complete hBuf hShort hAll hRun
    · exact rraSound_of_given_up hBuf hRun hs

/-- A type of the table. -/
def octetsType : TypeDef := ⟨ascii "if_octets", [⟨ascii "rx", .derive⟩, ⟨ascii "tx", .derive⟩]⟩

theorem rraSound_octetsType : RraSound octetsType 64 (List.replicate 2560 0) := by
  have hSpace : dsSpace octetsType = 40 := by decide
  have hShort : ∀ ds ∈ octetsType.ds, (dsText ds).length < 2 ^ 31 := by decide
  have hCount : octetsType.ds.length < 2 ^ 31 := by decide
  rw [rraSound_iff List.length_replicate hCount]
  exact Or.inr ⟨by rw [hSpace]; decide, Or.inl hShort⟩

/-- A data source with a name of 2600 bytes. -/
def longNamed : TypeDef := ⟨ascii "long", [⟨List.replicate 2600 (byte 'a'), .gauge⟩]⟩

theorem rraBufSize_lt_longNamed : rraBufSize < dsSpace longNamed := by
  have hText : (dsText ⟨List.replicate 2600 (byte 'a'), .gauge⟩).length = 2616 := by
    have hDs : (ascii "DS:").length = 3 := by decide
    have hGauge : (ascii "GAUGE").length = 5 := by decide
    have hHeartbeat : (decimal rraHeartbeat).length = 2 := by decide
    have hUnknown : (ascii ":U:U").length = 4 := by decide
    simp only [dsText, dstStr, List.length_append, List.length_cons, List.length_replicate, hDs,
      hGauge, hHeartbeat, hUnknown]
  have hSpace : dsSpace longNamed =
      textSpace (dsText ⟨List.replicate 2600 (byte 'a'), .gauge⟩) + 0 := by
    rw [dsSpace, longNamed, List.map_cons, List.map_nil, totalSpace_cons, totalSpace_nil]
  rw [hSpace, textSpace_of_lt (by rw [hText]; norm_num), hText]
  decide

/-- The counter wraps behind it. -/
theorem not_rraSound_longNamed : ¬ RraSound longNamed 64 (List.replicate 2560 0) := by
  have hCount : toInt32 (longNamed.dsCount + 9) = 10 := @toInt32_of_lt 10 (by decide)
  intro hSound
  have hWrapped := @rraArgs_wrapped longNamed 64 (by rw [hCount]; decide) rraBufSize_lt_longNamed
  rw [hSound.1] at hWrapped
  cases hWrapped

end SvgdCollect
