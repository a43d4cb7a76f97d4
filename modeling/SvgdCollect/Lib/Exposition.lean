import SvgdCollect.Lib.Numerals
import SvgdCollect.Lib.Utf8

/-!
# The Prometheus text format

Families with their `HELP` and `TYPE` lines and their samples, how they are
written, and a parser for what is written.  The parser is strict: it accepts
neither comments nor blank lines, every sample must stand under the header of
its own family, and label values are unescaped.

The main result is that reading inverts writing for any label values.
-/

namespace SvgdCollect
namespace Lib
namespace Exposition

def newline : Byte := 10

def space : Byte := 32

def quote : Byte := 34

def backslash : Byte := 92

def isLabelChar (b : Byte) : Bool :=
  isdigit b || (byte 'a' ≤ b && b ≤ byte 'z') || (byte 'A' ≤ b && b ≤ byte 'Z') || b == byte '_'

def isNameChar (b : Byte) : Bool := isLabelChar b || b == byte ':'

/-- A nonempty run of `p` that does not start with a digit. -/
def IsRun (p : Byte → Bool) (s : Bytes) : Prop :=
  s ≠ [] ∧ (∀ b ∈ s, p b = true) ∧ s.head?.all fun b => !isdigit b

instance (p : Byte → Bool) (s : Bytes) : Decidable (IsRun p s) :=
  inferInstanceAs (Decidable (_ ∧ _ ∧ _))

/-- A sample without its family name: labels in order, and the text of the value. -/
structure Sample where
  labels : List (Bytes × Bytes)
  value : Bytes
  deriving DecidableEq

/-- A family: what its `HELP` and `TYPE` lines say, and its samples. -/
structure Block where
  family : Bytes
  help : Bytes
  kind : Bytes
  samples : List Sample
  deriving DecidableEq

/-! ## Writing -/

/-- A label value with backslash, quote and newline escaped. -/
def escape : Bytes → Bytes
  | [] => []
  | b :: s =>
      if b = newline then backslash :: byte 'n' :: escape s
      else if b = backslash ∨ b = quote then backslash :: b :: escape s
      else b :: escape s

def labelText (l : Bytes × Bytes) : Bytes :=
  l.1 ++ byte '=' :: quote :: (escape l.2 ++ [quote])

/-- Labels separated by commas. -/
def labelsText : List (Bytes × Bytes) → Bytes
  | [] => []
  | [l] => labelText l
  | l :: rest => labelText l ++ byte ',' :: labelsText rest

def sampleLine (family : Bytes) (s : Sample) : Bytes :=
  if s.labels = [] then family ++ space :: s.value
  else family ++ 123 :: (labelsText s.labels ++ 125 :: space :: s.value)

def helpLine (b : Block) : Bytes := ascii "# HELP " ++ (b.family ++ space :: b.help)

def typeLine (b : Block) : Bytes := ascii "# TYPE " ++ (b.family ++ space :: b.kind)

/-- The lines of a block, without their line ends. -/
def blockLines (b : Block) : List Bytes :=
  helpLine b :: typeLine b :: b.samples.map (sampleLine b.family)

/-- Every line ended by a newline. -/
def joinLines (lines : List Bytes) : Bytes := lines.flatMap fun l => l ++ [newline]

def render (blocks : List Block) : Bytes := joinLines (blocks.flatMap blockLines)

/-! ## Reading -/

/-- The lines of a text whose last line is ended. -/
def splitLines : Bytes → Option (List Bytes)
  | [] => some []
  | b :: s =>
      if b = newline then (splitLines s).map ([] :: ·)
      else
        match splitLines s with
        | some (l :: rest) => some ((b :: l) :: rest)
        | _ => none

/-- The rest of a text that starts with a token. -/
def afterToken (token s : Bytes) : Option Bytes :=
  if token <+: s then some (s.drop token.length) else none

/-- An unescaped label value up to its closing quote, and the rest. -/
def parseLabelValue : Bytes → Option (Bytes × Bytes)
  | [] => none
  | b :: s =>
      if b = quote then some ([], s)
      else if b = backslash then
        match s with
        | [] => none
        | e :: s =>
            if e = byte 'n' then (parseLabelValue s).map fun p => (newline :: p.1, p.2)
            else if e = backslash ∨ e = quote then
              (parseLabelValue s).map fun p => (e :: p.1, p.2)
            else none
      else (parseLabelValue s).map fun p => (b :: p.1, p.2)

/-- The labels up to the closing brace, and the rest; `fuel` bounds their number. -/
def parseLabels : Nat → Bytes → Option (List (Bytes × Bytes) × Bytes)
  | 0, _ => none
  | fuel + 1, s =>
      let name := s.takeWhile isLabelChar
      if IsRun isLabelChar name then
        match afterToken [byte '=', quote] (s.dropWhile isLabelChar) with
        | none => none
        | some s =>
            match parseLabelValue s with
            | none => none
            | some (v, s) =>
                match s with
                | [] => none
                | b :: s =>
                    if b = 125 then some ([(name, v)], s)
                    else if b = byte ',' then
                      (parseLabels fuel s).map fun p => ((name, v) :: p.1, p.2)
                    else none
      else none

inductive Line
  | help (family text : Bytes)
  | type (family kind : Bytes)
  | sample (family : Bytes) (s : Sample)
  deriving DecidableEq

/-- The value of a sample: a space and a text without spaces. -/
def parseValue : Bytes → Option Bytes
  | [] => none
  | b :: v => if b = space ∧ v ≠ [] ∧ space ∉ v then some v else none

/-- A name and, behind a space, the rest of the line. -/
def parseHeader (s : Bytes) : Option (Bytes × Bytes) :=
  let name := s.takeWhile isNameChar
  if IsRun isNameChar name then
    match s.dropWhile isNameChar with
    | [] => none
    | b :: text => if b = space then some (name, text) else none
  else none

def parseSample (s : Bytes) : Option Line :=
  let name := s.takeWhile isNameChar
  if IsRun isNameChar name then
    match afterToken [123] (s.dropWhile isNameChar) with
    | none => (parseValue (s.dropWhile isNameChar)).map fun v => .sample name ⟨[], v⟩
    | some rest =>
        match parseLabels rest.length rest with
        | none => none
        | some (labels, rest) => (parseValue rest).map fun v => .sample name ⟨labels, v⟩
  else none

def parseLine (s : Bytes) : Option Line :=
  match afterToken (ascii "# HELP ") s with
  | some rest => (parseHeader rest).map fun p => .help p.1 p.2
  | none =>
      match afterToken (ascii "# TYPE ") s with
      | some rest => (parseHeader rest).map fun p => .type p.1 p.2
      | none => parseSample s

/-- Blocks from lines: a `HELP` line, the `TYPE` line of the same family, samples
of that family. -/
def parseBlocks : Option Block → List Line → Option (List Block)
  | cur, [] => some cur.toList
  | cur, .help f text :: .type f' kind :: rest =>
      if f' = f then (parseBlocks (some ⟨f, text, kind, []⟩) rest).map (cur.toList ++ ·) else none
  | some b, .sample f s :: rest =>
      if f = b.family then parseBlocks (some { b with samples := b.samples ++ [s] }) rest else none
  | _, _ => none

/-- The blocks of an exposition. -/
def parse (text : Bytes) : Option (List Block) :=
  match splitLines text with
  | none => none
  | some lines =>
      match lines.mapM parseLine with
      | none => none
      | some ls => parseBlocks none ls

/-! ## Well-formed blocks -/

structure Sample.WellFormed (s : Sample) : Prop where
  names : ∀ l ∈ s.labels, IsRun isLabelChar l.1
  value_ne : s.value ≠ []
  value_space : space ∉ s.value
  value_newline : newline ∉ s.value

structure Block.WellFormed (b : Block) : Prop where
  family : IsRun isNameChar b.family
  help : newline ∉ b.help
  kind : newline ∉ b.kind
  samples : ∀ s ∈ b.samples, s.WellFormed

/-! ## Lines -/

theorem splitLines_line {line : Bytes} (rest : Bytes) (h : newline ∉ line) :
    splitLines (line ++ newline :: rest) = (splitLines rest).map (line :: ·) := by
  induction line with
  | nil => simp [splitLines]
  | cons b line ih =>
      have hb : b ≠ newline := fun hEq => h (by simp [hEq])
      have hLine : newline ∉ line := fun hMem => h (by simp [hMem])
      rw [List.cons_append, splitLines, if_neg hb, ih hLine]
      cases splitLines rest <;> rfl

theorem joinLines_cons (l : Bytes) (lines : List Bytes) :
    joinLines (l :: lines) = l ++ newline :: joinLines lines := by
  simp [joinLines]

theorem splitLines_joinLines {lines : List Bytes} (h : ∀ l ∈ lines, newline ∉ l) :
    splitLines (joinLines lines) = some lines := by
  induction lines with
  | nil => rfl
  | cons l lines ih =>
      rw [joinLines_cons, splitLines_line _ (h l (by simp)), ih fun l hl => h l (by simp [hl])]
      rfl

/-- Texts of whole lines begin alike iff their lines do. -/
theorem joinLines_prefix_iff {lines lines' : List Bytes} (h : ∀ l ∈ lines, newline ∉ l)
    (h' : ∀ l ∈ lines', newline ∉ l) : joinLines lines <+: joinLines lines' ↔ lines <+: lines' := by
  induction lines generalizing lines' with
  | nil => exact iff_of_true List.nil_prefix List.nil_prefix
  | cons l lines ih =>
      rw [List.forall_mem_cons] at h
      cases lines' with
      | nil =>
          rw [joinLines_cons, show joinLines [] = [] from rfl, List.prefix_nil, List.prefix_nil]
          simp
      | cons l' lines' =>
          rw [List.forall_mem_cons] at h'
          rw [List.cons_prefix_cons, ← ih h.2 h'.2, joinLines_cons, joinLines_cons]
          constructor
          · rintro ⟨rest, hRest⟩
            rw [List.append_assoc, List.cons_append] at hRest
            obtain ⟨hLine, hTail⟩ := append_cons_inj h.1 h'.1 hRest
            exact ⟨hLine, rest, hTail⟩
          · rintro ⟨rfl, rest, hTail⟩
            refine ⟨rest, ?_⟩
            rw [List.append_assoc, List.cons_append, hTail]

theorem afterToken_append (token rest : Bytes) :
    afterToken token (token ++ rest) = some rest := by
  simp [afterToken]

theorem afterToken_cons_of_ne {t b : Byte} (token s : Bytes) (h : b ≠ t) :
    afterToken (t :: token) (b :: s) = none := by
  simp [afterToken, Ne.symm h]

section Run

variable {p : Byte → Bool} {s : Bytes}

/-- A run ends at the first byte outside of the predicate. -/
theorem takeWhile_run (h : IsRun p s) {b : Byte} (rest : Bytes) (hb : p b = false) :
    (s ++ b :: rest).takeWhile p = s := by
  rw [takeWhile_append_of_head]
  · exact List.takeWhile_eq_self_iff.mpr h.2.1
  · intro c hc
    rw [← Option.some.inj hc]
    exact hb

theorem dropWhile_run (h : IsRun p s) {b : Byte} (rest : Bytes) (hb : p b = false) :
    (s ++ b :: rest).dropWhile p = b :: rest := by
  rw [dropWhile_append_of_all _ h.2.1]
  simp [hb]

end Run

/-! ## Label values -/

theorem newline_notMem_escape (s : Bytes) : newline ∉ escape s := by
  induction s with
  | nil => simp [escape]
  | cons b s ih =>
      have hBackslash : newline ≠ backslash := by decide
      have hN : newline ≠ byte 'n' := by decide
      by_cases hb : b = newline
      · simp [escape, hb, ih, hBackslash, hN]
      · by_cases hEsc : b = backslash ∨ b = quote
        · simp [escape, hb, hEsc, ih, hBackslash, Ne.symm hb]
        · simp [escape, hb, hEsc, ih, Ne.symm hb]

/-- Unescaping an escaped value in front of its closing quote. -/
theorem parseLabelValue_escape (s rest : Bytes) :
    parseLabelValue (escape s ++ quote :: rest) = some (s, rest) := by
  induction s with
  | nil =>
      unfold parseLabelValue
      simp [escape]
  | cons b s ih =>
      have hQuote : backslash ≠ quote := by decide
      by_cases hb : b = newline
      · simp [escape, hb, parseLabelValue, hQuote, ih]
      · by_cases hEsc : b = backslash ∨ b = quote
        · have hN : b ≠ byte 'n' := by
            rcases hEsc with rfl | rfl <;> decide
          simp [escape, hb, hEsc, parseLabelValue, hQuote, hN, ih]
        · have hEsc' : b ≠ backslash ∧ b ≠ quote := not_or.mp hEsc
          unfold parseLabelValue
          simp [escape, hb, hEsc'.1, hEsc'.2, ih]

theorem labelText_append (l : Bytes × Bytes) (rest : Bytes) :
    labelText l ++ rest = l.1 ++ byte '=' :: quote :: (escape l.2 ++ quote :: rest) := by
  simp [labelText]

/-- The parser at a label. -/
theorem parseLabels_label {l : Bytes × Bytes} {b : Byte} {rest : Bytes} (fuel : Nat)
    (hl : IsRun isLabelChar l.1) :
    parseLabels (fuel + 1) (labelText l ++ b :: rest) =
      if b = 125 then some ([l], rest)
      else if b = byte ',' then (parseLabels fuel rest).map fun p => (l :: p.1, p.2)
      else none := by
  have hEq : isLabelChar (byte '=') = false := by decide
  rw [labelText_append, parseLabels]
  simp only [takeWhile_run hl _ hEq, dropWhile_run hl _ hEq, if_pos hl]
  have hToken := afterToken_append [byte '=', quote] (escape l.2 ++ quote :: b :: rest)
  simp only [List.cons_append, List.nil_append] at hToken
  simp only [hToken, parseLabelValue_escape]

theorem parseLabels_labelsText {labels : List (Bytes × Bytes)} {fuel : Nat} (rest : Bytes)
    (hne : labels ≠ []) (hNames : ∀ l ∈ labels, IsRun isLabelChar l.1)
    (hFuel : labels.length ≤ fuel) :
    parseLabels fuel (labelsText labels ++ 125 :: rest) = some (labels, rest) := by
  induction labels generalizing fuel with
  | nil => exact absurd rfl hne
  | cons l labels ih =>
      rw [List.length_cons] at hFuel
      obtain ⟨fuel, rfl⟩ : ∃ f, fuel = f + 1 := ⟨fuel - 1, by omega⟩
      have hl : IsRun isLabelChar l.1 := hNames l (by simp)
      cases labels with
      | nil =>
          rw [labelsText, parseLabels_label fuel hl]
          rfl
      | cons l' labels =>
          have hRec := ih (by simp) (fun l hl => hNames l (by simp [hl])) (by omega : _ ≤ fuel)
          rw [labelsText, List.append_assoc, List.cons_append, parseLabels_label fuel hl,
            if_neg (by decide), if_pos rfl, hRec]
          · rfl
          · simp

theorem length_le_labelsText (labels : List (Bytes × Bytes)) :
    labels.length ≤ (labelsText labels).length + 1 := by
  induction labels with
  | nil => simp
  | cons l labels ih =>
      cases labels with
      | nil => simp
      | cons l' labels =>
          rw [labelsText]
          · simp only [List.length_append, List.length_cons] at ih ⊢
            omega
          · simp

theorem labelText_ne_nil (l : Bytes × Bytes) : labelText l ≠ [] := by
  simp [labelText]

theorem labelsText_eq_nil_iff {labels : List (Bytes × Bytes)} :
    labelsText labels = [] ↔ labels = [] := by
  cases labels with
  | nil => simp [labelsText]
  | cons l labels =>
      cases labels with
      | nil => simp [labelsText, labelText_ne_nil]
      | cons l' labels =>
          rw [labelsText]
          · simp
          · simp

/-- A label is added at the end with a comma in front of it. -/
theorem labelsText_append_singleton (labels : List (Bytes × Bytes)) (l : Bytes × Bytes) :
    labelsText (labels ++ [l]) =
      if labels = [] then labelText l else labelsText labels ++ byte ',' :: labelText l := by
  induction labels with
  | nil => rfl
  | cons l' labels ih =>
      rw [if_neg (by simp)]
      cases labels with
      | nil => rfl
      | cons l'' labels =>
          rw [if_neg (by simp)] at ih
          simp only [List.cons_append, labelsText] at ih ⊢
          rw [ih]
          simp

/-! ## Parsing what was written -/

theorem parseValue_value {s : Sample} (hs : s.WellFormed) :
    parseValue (space :: s.value) = some s.value := by
  simp [parseValue, hs.value_ne, hs.value_space]

theorem parseSample_sampleLine {family : Bytes} {s : Sample}
    (hFamily : IsRun isNameChar family) (hs : s.WellFormed) :
    parseSample (sampleLine family s) = some (.sample family s) := by
  unfold sampleLine
  by_cases hLabels : s.labels = []
  · have hSpace : isNameChar space = false := by decide
    rw [if_pos hLabels, parseSample]
    simp only [takeWhile_run hFamily _ hSpace, dropWhile_run hFamily _ hSpace, if_pos hFamily,
      afterToken_cons_of_ne [] s.value (show space ≠ 123 by decide), parseValue_value hs,
      Option.map_some]
    rw [← hLabels]
  · have hBrace : isNameChar 123 = false := by decide
    rw [if_neg hLabels, parseSample]
    have hToken := afterToken_append [123] (labelsText s.labels ++ 125 :: space :: s.value)
    rw [List.cons_append, List.nil_append] at hToken
    have hFuel : s.labels.length ≤ (labelsText s.labels ++ 125 :: space :: s.value).length := by
      have hLength := length_le_labelsText s.labels
      simp only [List.length_append, List.length_cons]
      omega
    simp only [takeWhile_run hFamily _ hBrace, dropWhile_run hFamily _ hBrace, if_pos hFamily,
      hToken, parseLabels_labelsText _ hLabels hs.names hFuel, parseValue_value hs,
      Option.map_some]

theorem parseHeader_family {family : Bytes} (text : Bytes) (hFamily : IsRun isNameChar family) :
    parseHeader (family ++ space :: text) = some (family, text) := by
  have hSpace : isNameChar space = false := by decide
  simp only [parseHeader, takeWhile_run hFamily _ hSpace, dropWhile_run hFamily _ hSpace,
    if_pos hFamily, if_true]

/-- A sample line is not taken for a header. -/
theorem afterToken_sampleLine {family token : Bytes} (s : Sample)
    (hFamily : IsRun isNameChar family) :
    afterToken (byte '#' :: token) (sampleLine family s) = none := by
  obtain ⟨b, family, rfl⟩ := List.exists_cons_of_ne_nil hFamily.1
  have hb : b ≠ byte '#' := by
    rintro rfl
    exact absurd (hFamily.2.1 (byte '#') (by simp)) (by decide)
  unfold sampleLine
  split <;> exact afterToken_cons_of_ne _ _ hb

theorem mapM_parseLine_samples {family : Bytes} {samples : List Sample}
    (hFamily : IsRun isNameChar family) (hs : ∀ s ∈ samples, s.WellFormed) :
    (samples.map (sampleLine family)).mapM parseLine =
      some (samples.map (Line.sample family)) := by
  have hHash : ∀ token, token = ascii "# HELP " ∨ token = ascii "# TYPE " →
      ∃ t, token = byte '#' :: t := by
    rintro token (rfl | rfl)
    · exact ⟨ascii " HELP ", by decide⟩
    · exact ⟨ascii " TYPE ", by decide⟩
  obtain ⟨t, ht⟩ := hHash _ (Or.inl rfl)
  obtain ⟨t', ht'⟩ := hHash _ (Or.inr rfl)
  induction samples with
  | nil => rfl
  | cons s samples ih =>
      have hLine : parseLine (sampleLine family s) = some (.sample family s) := by
        simp only [parseLine, ht, ht', afterToken_sampleLine s hFamily,
          parseSample_sampleLine hFamily (hs s (by simp))]
      rw [List.map_cons, List.mapM_cons, hLine, ih fun s h => hs s (by simp [h])]
      rfl

theorem mapM_parseLine_blockLines {b : Block} (hb : b.WellFormed) :
    (blockLines b).mapM parseLine =
      some (.help b.family b.help :: .type b.family b.kind ::
        b.samples.map (.sample b.family)) := by
  have hHelp : parseLine (helpLine b) = some (.help b.family b.help) := by
    simp only [parseLine, helpLine, afterToken_append, parseHeader_family _ hb.family,
      Option.map_some]
  have hType : parseLine (typeLine b) = some (.type b.family b.kind) := by
    have hHelpToken : ascii "# HELP " = byte '#' :: space :: byte 'H' :: ascii "ELP " := by decide
    have hTypeToken : ascii "# TYPE " = byte '#' :: space :: byte 'T' :: ascii "YPE " := by decide
    have hNe : byte 'H' ≠ byte 'T' := by decide
    have hOther : ∀ rest, afterToken (ascii "# HELP ") (ascii "# TYPE " ++ rest) = none := by
      intro rest
      simp [afterToken, hHelpToken, hTypeToken, hNe]
    simp only [parseLine, typeLine, hOther, afterToken_append, parseHeader_family _ hb.family,
      Option.map_some]
  rw [blockLines, List.mapM_cons, List.mapM_cons, hHelp, hType,
    mapM_parseLine_samples hb.family hb.samples]
  rfl

/-- The lines of a list of blocks, as the parser sees them. -/
def linesOf (b : Block) : List Line :=
  .help b.family b.help :: .type b.family b.kind :: b.samples.map (.sample b.family)

theorem mapM_parseLine_blocks {blocks : List Block} (h : ∀ b ∈ blocks, b.WellFormed) :
    (blocks.flatMap blockLines).mapM parseLine = some (blocks.flatMap linesOf) := by
  induction blocks with
  | nil => rfl
  | cons b blocks ih =>
      rw [List.flatMap_cons, List.mapM_append, mapM_parseLine_blockLines (h b (by simp)),
        ih fun b hb => h b (by simp [hb])]
      rfl

/-- Samples are collected under the open block. -/
theorem parseBlocks_samples (b : Block) (samples : List Sample) (rest : List Line) :
    parseBlocks (some b) (samples.map (Line.sample b.family) ++ rest) =
      parseBlocks (some { b with samples := b.samples ++ samples }) rest := by
  induction samples generalizing b with
  | nil => simp
  | cons s samples ih =>
      have hRec := ih { b with samples := b.samples ++ [s] }
      simp only [List.append_assoc, List.singleton_append] at hRec
      rw [List.map_cons, List.cons_append, parseBlocks, if_pos rfl]
      exact hRec

theorem parseBlocks_linesOf (cur : Option Block) (blocks : List Block) :
    parseBlocks cur (blocks.flatMap linesOf) = some (cur.toList ++ blocks) := by
  induction blocks generalizing cur with
  | nil => cases cur <;> simp [parseBlocks]
  | cons b blocks ih =>
      have hSamples := parseBlocks_samples ⟨b.family, b.help, b.kind, []⟩ b.samples
        (blocks.flatMap linesOf)
      rw [List.nil_append] at hSamples
      rw [List.flatMap_cons, linesOf, List.cons_append, List.cons_append, parseBlocks, if_pos rfl,
        hSamples, ih]
      rfl

theorem newline_notMem_labelsText {labels : List (Bytes × Bytes)}
    (h : ∀ l ∈ labels, IsRun isLabelChar l.1) : newline ∉ labelsText labels := by
  have hLabel : ∀ l ∈ labels, newline ∉ labelText l := by
    intro l hl
    have hName : newline ∉ l.1 := fun hMem => absurd ((h l hl).2.1 _ hMem) (by decide)
    simpa [labelText] using ⟨hName, by decide, by decide, newline_notMem_escape l.2, by decide⟩
  induction labels with
  | nil => simp [labelsText]
  | cons l labels ih =>
      cases labels with
      | nil => exact hLabel l (by simp)
      | cons l' labels =>
          have hRec := ih (fun l hl => h l (by simp [hl])) fun l hl => hLabel l (by simp [hl])
          rw [labelsText]
          · simpa using ⟨hLabel l (by simp), by decide, hRec⟩
          · simp

theorem newline_notMem_blockLines {b : Block} (hb : b.WellFormed) {l : Bytes}
    (hl : l ∈ blockLines b) : newline ∉ l := by
  have hFamily : newline ∉ b.family := fun hMem => absurd (hb.family.2.1 _ hMem) (by decide)
  have hSpace : newline ≠ space := by decide
  simp only [blockLines, List.mem_cons, List.mem_map] at hl
  rcases hl with rfl | rfl | ⟨s, hs, rfl⟩
  · simpa [helpLine] using ⟨by decide, hFamily, hSpace, hb.help⟩
  · simpa [typeLine] using ⟨by decide, hFamily, hSpace, hb.kind⟩
  · have hSample := hb.samples s hs
    unfold sampleLine
    split
    · simpa using ⟨hFamily, hSpace, hSample.value_newline⟩
    · have hBrace : newline ≠ 123 ∧ newline ≠ 125 := by decide
      simpa using ⟨hFamily, hBrace.1, newline_notMem_labelsText hSample.names, hBrace.2, hSpace,
        hSample.value_newline⟩

/-- **Reading inverts writing**, for any label values. -/
theorem parse_render {blocks : List Block} (h : ∀ b ∈ blocks, b.WellFormed) :
    parse (render blocks) = some blocks := by
  have hLines : ∀ l ∈ blocks.flatMap blockLines, newline ∉ l := by
    intro l hl
    obtain ⟨b, hb, hl⟩ := List.mem_flatMap.mp hl
    exact newline_notMem_blockLines (h b hb) hl
  simp only [parse, render, splitLines_joinLines hLines, mapM_parseLine_blocks h]
  exact parseBlocks_linesOf none blocks

/-! ## Texts without NUL -/

theorem zero_notMem_escape {s : Bytes} (h : 0 ∉ s) : 0 ∉ escape s := by
  induction s with
  | nil => simp [escape]
  | cons b s ih =>
      have hb : (0 : Byte) ≠ b := fun hEq => h (by simp [hEq])
      have hRec := ih fun hMem => h (by simp [hMem])
      have hBackslash : (0 : Byte) ≠ backslash := by decide
      have hN : (0 : Byte) ≠ byte 'n' := by decide
      by_cases hNewline : b = newline
      · simp [escape, hNewline, hRec, hBackslash, hN]
      · by_cases hEsc : b = backslash ∨ b = quote
        · simp [escape, hNewline, hEsc, hRec, hBackslash, hb]
        · simp [escape, hNewline, hEsc, hRec, hb]

theorem zero_notMem_labelsText {labels : List (Bytes × Bytes)}
    (h : ∀ l ∈ labels, 0 ∉ l.1 ∧ 0 ∉ l.2) : 0 ∉ labelsText labels := by
  have hLabel : ∀ l ∈ labels, 0 ∉ labelText l := by
    intro l hl
    simpa [labelText] using ⟨(h l hl).1, by decide, by decide, zero_notMem_escape (h l hl).2,
      by decide⟩
  induction labels with
  | nil => simp [labelsText]
  | cons l labels ih =>
      cases labels with
      | nil => exact hLabel l (by simp)
      | cons l' labels =>
          have hRec := ih (fun l hl => h l (by simp [hl])) fun l hl => hLabel l (by simp [hl])
          rw [labelsText]
          · simpa using ⟨hLabel l (by simp), by decide, hRec⟩
          · simp

theorem zero_notMem_render {blocks : List Block}
    (hHeader : ∀ b ∈ blocks, 0 ∉ b.family ∧ 0 ∉ b.help ∧ 0 ∉ b.kind)
    (hSamples : ∀ b ∈ blocks, ∀ s ∈ b.samples, 0 ∉ labelsText s.labels ∧ 0 ∉ s.value) :
    0 ∉ render blocks := by
  have hSpace : (0 : Byte) ≠ space := by decide
  intro hMem
  obtain ⟨l, hl, hMem⟩ := List.mem_flatMap.mp hMem
  obtain ⟨b, hb, hl⟩ := List.mem_flatMap.mp hl
  obtain ⟨hFamily, hHelp, hKind⟩ := hHeader b hb
  rcases List.mem_append.mp hMem with hMem | hMem
  · simp only [blockLines, List.mem_cons, List.mem_map] at hl
    rcases hl with rfl | rfl | ⟨s, hs, rfl⟩
    · exact absurd hMem (by simpa [helpLine] using ⟨by decide, hFamily, hSpace, hHelp⟩)
    · exact absurd hMem (by simpa [typeLine] using ⟨by decide, hFamily, hSpace, hKind⟩)
    · obtain ⟨hLabels, hValue⟩ := hSamples b hb s hs
      revert hMem
      unfold sampleLine
      split
      · simpa using ⟨hFamily, hSpace, hValue⟩
      · simpa using ⟨hFamily, hLabels, hSpace, hValue⟩
  · exact absurd hMem (by decide)

/-! ## UTF-8 -/

/-- A text is UTF-8 as it is or escaped. -/
theorem isUtf8_escape_iff (s : Bytes) : IsUtf8 (escape s) ↔ IsUtf8 s := by
  have hEscape : escape s = s.flatMap fun b =>
      if b = newline then [backslash, byte 'n']
      else if b = backslash ∨ b = quote then [backslash, b] else [b] := by
    induction s with
    | nil => rfl
    | cons b s ih =>
        rw [escape, ih, List.flatMap_cons]
        split_ifs <;> rfl
  rw [hEscape]
  have hBackslash : backslash < 128 := by decide
  have hNewline : newline < 128 := by decide
  apply isUtf8_flatMap_iff
  · intro b hb
    split_ifs
    · exact ⟨by decide, List.cons_ne_nil _ _⟩
    · exact ⟨by simpa [IsAscii] using ⟨hBackslash, hb⟩, List.cons_ne_nil _ _⟩
    · exact ⟨by simpa [IsAscii] using hb, List.cons_ne_nil _ _⟩
  · -- the three bytes that are escaped are below 128
    intro b hb
    rw [if_neg, if_neg]
    · rintro (rfl | rfl) <;> exact hb (by decide)
    · rintro rfl
      exact hb (by decide)

theorem isUtf8_labelText_iff {l : Bytes × Bytes} (hKey : IsAscii l.1) :
    IsUtf8 (labelText l) ↔ IsUtf8 l.2 := by
  have hEquals : byte '=' < 128 := by decide
  have hQuote : quote < 128 := by decide
  rw [labelText, isUtf8_ascii_append_iff hKey, isUtf8_cons_iff hEquals, isUtf8_cons_iff hQuote,
    isUtf8_append_cons_iff hQuote, isUtf8_escape_iff]
  exact ⟨fun h => h.1, fun h => ⟨h, isUtf8_nil⟩⟩

theorem isUtf8_labelsText_iff {labels : List (Bytes × Bytes)}
    (hKeys : ∀ l ∈ labels, IsAscii l.1) :
    IsUtf8 (labelsText labels) ↔ ∀ l ∈ labels, IsUtf8 l.2 := by
  have hComma : byte ',' < 128 := by decide
  induction labels with
  | nil => simp [labelsText, isUtf8_nil]
  | cons l labels ih =>
      have hFirst := isUtf8_labelText_iff (hKeys l List.mem_cons_self)
      cases labels with
      | nil => rw [labelsText, hFirst, List.forall_mem_singleton]
      | cons l' labels =>
          have hRest := ih fun l hl => hKeys l (List.mem_cons_of_mem _ hl)
          rw [labelsText, isUtf8_append_cons_iff hComma, List.forall_mem_cons]
          · exact and_congr hFirst hRest
          · exact fun hNil => List.cons_ne_nil _ _ hNil

/-- Everything but the values of the labels is plain. -/
structure Sample.Plain (s : Sample) : Prop where
  keys : ∀ l ∈ s.labels, IsAscii l.1
  value : IsAscii s.value

structure Block.Plain (b : Block) : Prop where
  family : IsAscii b.family
  help : IsAscii b.help
  kind : IsAscii b.kind
  samples : ∀ s ∈ b.samples, s.Plain

theorem isUtf8_sampleLine_iff {family : Bytes} (hFamily : IsAscii family) {s : Sample}
    (hs : s.Plain) : IsUtf8 (sampleLine family s) ↔ ∀ l ∈ s.labels, IsUtf8 l.2 := by
  have hSpace : space < 128 := by decide
  have hOpen : (123 : Byte) < 128 := by decide
  have hClose : (125 : Byte) < 128 := by decide
  have hValue : IsUtf8 s.value := hs.value.isUtf8
  unfold sampleLine
  split
  · rename_i hNone
    rw [isUtf8_ascii_append_iff hFamily, isUtf8_cons_iff hSpace, hNone]
    simp [hValue]
  · rw [isUtf8_ascii_append_iff hFamily, isUtf8_cons_iff hOpen, isUtf8_append_cons_iff hClose,
      isUtf8_cons_iff hSpace, isUtf8_labelsText_iff hs.keys]
    exact ⟨fun h => h.1, fun h => ⟨h, hValue⟩⟩

theorem isUtf8_joinLines_iff {lines : List Bytes} :
    IsUtf8 (joinLines lines) ↔ ∀ l ∈ lines, IsUtf8 l := by
  have hNewline : newline < 128 := by decide
  induction lines with
  | nil => simp [joinLines, isUtf8_nil]
  | cons l lines ih =>
      rw [joinLines_cons, isUtf8_append_cons_iff hNewline, List.forall_mem_cons]
      exact and_congr Iff.rfl ih

/-- An exposition is UTF-8 if the values of its labels are. -/
theorem isUtf8_render_iff {blocks : List Block} (h : ∀ b ∈ blocks, b.Plain) :
    IsUtf8 (render blocks) ↔ ∀ b ∈ blocks, ∀ s ∈ b.samples, ∀ l ∈ s.labels, IsUtf8 l.2 := by
  have hSpace : space < 128 := by decide
  have hHash : IsAscii (ascii "# HELP ") ∧ IsAscii (ascii "# TYPE ") := by decide
  rw [render, isUtf8_joinLines_iff]
  constructor
  · intro hLines b hb s hs
    rw [← isUtf8_sampleLine_iff (h b hb).family ((h b hb).samples s hs)]
    have hMem : sampleLine b.family s ∈ blockLines b :=
      List.mem_cons_of_mem _ (List.mem_cons_of_mem _ (List.mem_map_of_mem hs))
    exact hLines _ (List.mem_flatMap.mpr ⟨b, hb, hMem⟩)
  · intro hLabels line hLine
    obtain ⟨b, hb, hLine⟩ := List.mem_flatMap.mp hLine
    simp only [blockLines, List.mem_cons, List.mem_map] at hLine
    rcases hLine with rfl | rfl | ⟨s, hs, rfl⟩
    · rw [helpLine, isUtf8_ascii_append_iff hHash.1, isUtf8_ascii_append_iff (h b hb).family,
        isUtf8_cons_iff hSpace]
      exact (h b hb).help.isUtf8
    · rw [typeLine, isUtf8_ascii_append_iff hHash.2, isUtf8_ascii_append_iff (h b hb).family,
        isUtf8_cons_iff hSpace]
      exact (h b hb).kind.isUtf8
    · exact (isUtf8_sampleLine_iff (h b hb).family ((h b hb).samples s hs)).mpr (hLabels b hb s hs)

end Exposition
end Lib
end SvgdCollect
