import SvgdCollect.Lib.Double

/-!
# Reading text: `fgets` and `scanf`

A file is the list of its bytes.  `fgetsLines` is what a loop over `fgets` with a
buffer of `n` bytes sees: lines, and pieces of lines that do not fit the buffer,
each as the C string the buffer then holds.

`sscanf` interprets a list of directives as glibc does and returns the fields that
were assigned; their number is its return value, except that an input failure in
front of the first conversion also yields none.
-/

namespace SvgdCollect
namespace Lib

/-! ## `fgets` -/

def newline : Byte := 10

/-- The bytes up to and including the first newline. -/
def firstLine : Bytes → Bytes
  | [] => []
  | b :: s => if b = newline then [b] else b :: firstLine s

/-- One call of `fgets` with a buffer of `n` bytes: what it reads, and the rest of
the file; `none` at the end of the file. -/
def fgets (n : Nat) (s : Bytes) : Option (Bytes × Bytes) :=
  if s = [] then none
  else
    let chunk := (firstLine s).take (n - 1)
    some (chunk, s.drop chunk.length)

def fgetsLoop (n : Nat) : Nat → Bytes → List Bytes
  | 0, _ => []
  | fuel + 1, s =>
      match fgets n s with
      | none => []
      | some (chunk, rest) => cstr chunk :: fgetsLoop n fuel rest

/-- `while (fgets(line, n, f))`: the successive contents of `line`.  Each call reads
at least one byte, so the length of the file is enough fuel. -/
def fgetsLines (n : Nat) (s : Bytes) : List Bytes := fgetsLoop n s.length s

theorem firstLine_append_newline {text : Bytes} (rest : Bytes) (hText : newline ∉ text) :
    firstLine (text ++ newline :: rest) = text ++ [newline] := by
  induction text with
  | nil => simp [firstLine]
  | cons b text ih =>
      rw [List.mem_cons, not_or] at hText
      rw [List.cons_append, firstLine, if_neg (Ne.symm hText.1), ih hText.2, List.cons_append]

theorem firstLine_ne_nil {s : Bytes} (h : s ≠ []) : firstLine s ≠ [] := by
  obtain ⟨b, s, rfl⟩ := List.exists_cons_of_ne_nil h
  rw [firstLine]
  split <;> simp

/-- One more byte of fuel than the file has bytes changes nothing. -/
theorem fgetsLoop_of_length_le {n : Nat} (hn : 1 < n) {fuel : Nat} {s : Bytes}
    (h : s.length ≤ fuel) : fgetsLoop n fuel s = fgetsLines n s := by
  -- two amounts of fuel are compared, since the loop spends one unit for several bytes
  have hEnough : ∀ fuel fuel' s, s.length ≤ fuel → s.length ≤ fuel' →
      fgetsLoop n fuel s = fgetsLoop n fuel' s := by
    intro fuel
    induction fuel with
    | zero =>
        intro fuel' s hs _
        obtain rfl : s = [] := List.length_eq_zero_iff.mp (by omega)
        cases fuel' with
        | zero => rfl
        | succ fuel' => simp [fgetsLoop, fgets]
    | succ fuel ih =>
        intro fuel' s hs hs'
        by_cases hNil : s = []
        · subst hNil
          cases fuel' with
          | zero => simp [fgetsLoop, fgets]
          | succ fuel' => simp [fgetsLoop, fgets]
        · have hPos := List.length_pos_iff.mpr hNil
          have hLine := List.length_pos_iff.mpr (firstLine_ne_nil hNil)
          cases fuel' with
          | zero => omega
          | succ fuel' =>
              have hRest : (s.drop ((firstLine s).take (n - 1)).length).length < s.length := by
                rw [List.length_drop, List.length_take]
                omega
              simp only [fgetsLoop, fgets, if_neg hNil]
              rw [ih fuel' _ (by omega) (by omega)]
  exact hEnough _ _ _ h le_rfl

@[simp] theorem fgetsLines_nil (n : Nat) : fgetsLines n [] = [] := rfl

/-- What one call of `fgets` takes off the front. -/
theorem fgetsLines_of_ne_nil {n : Nat} (hn : 1 < n) {s : Bytes} (h : s ≠ []) :
    fgetsLines n s = cstr ((firstLine s).take (n - 1)) ::
      fgetsLines n (s.drop ((firstLine s).take (n - 1)).length) := by
  obtain ⟨k, hk⟩ := Nat.exists_eq_succ_of_ne_zero (List.length_pos_iff.mpr h).ne'
  have hLine := List.length_pos_iff.mpr (firstLine_ne_nil h)
  have hRest : (s.drop ((firstLine s).take (n - 1)).length).length ≤ k := by
    rw [List.length_drop, List.length_take]
    omega
  rw [fgetsLines, hk, fgetsLoop, fgets, if_neg h]
  simp only
  rw [fgetsLoop_of_length_le hn hRest]

/-- A line in front of other text is read in pieces of its own. -/
theorem fgetsLines_append_newline {n : Nat} (hn : 1 < n) {text : Bytes} (rest : Bytes)
    (hText : newline ∉ text) :
    fgetsLines n (text ++ newline :: rest) =
      fgetsLines n (text ++ [newline]) ++ fgetsLines n rest := by
  induction hLength : text.length using Nat.strong_induction_on generalizing text with
  | _ len ih =>
      have hLong := fgetsLines_of_ne_nil hn (show text ++ newline :: rest ≠ [] by simp)
      have hAlone := fgetsLines_of_ne_nil hn (show text ++ [newline] ≠ [] by simp)
      rw [firstLine_append_newline rest hText] at hLong
      rw [firstLine_append_newline [] hText] at hAlone
      rw [hLong, hAlone, List.cons_append]
      congr 1
      by_cases hFits : (text ++ [newline]).length ≤ n - 1
      · rw [List.take_of_length_le hFits]
        simp [List.drop_append, List.drop_eq_nil_of_le]
      · -- the buffer ends inside the text
        have hInside : n - 1 ≤ text.length := by
          rw [List.length_append, List.length_singleton] at hFits
          omega
        have hTake : ((text ++ [newline]).take (n - 1)).length = n - 1 := by
          rw [List.length_take, List.length_append, List.length_singleton]
          omega
        have hTail : newline ∉ text.drop (n - 1) := fun hMem => hText (List.mem_of_mem_drop hMem)
        rw [hTake, List.drop_append_of_le_length hInside, List.drop_append_of_le_length hInside]
        exact ih _ (by rw [← hLength, List.length_drop]; omega) hTail rfl

/-- A text that a buffer of `n` bytes holds together with its newline. -/
structure IsLine (n : Nat) (text : Bytes) : Prop where
  newline : newline ∉ text
  zero : 0 ∉ text
  length : text.length + 1 < n

/-- Lines that fit the buffer are read one by one. -/
theorem fgetsLines_flatMap {n : Nat} {lines : List Bytes} (h : ∀ text ∈ lines, IsLine n text) :
    fgetsLines n (lines.flatMap (· ++ [newline])) = lines.map (· ++ [newline]) := by
  induction lines with
  | nil => rfl
  | cons text lines ih =>
      have hText := h text List.mem_cons_self
      have hn : 1 < n := by
        have := hText.length
        omega
      have hOne : fgetsLines n (text ++ [newline]) = [text ++ [newline]] := by
        have hZero : 0 ∉ text ++ [newline] := by simp [hText.zero, newline]
        have hFits : (text ++ [newline]).length ≤ n - 1 := by
          have := hText.length
          rw [List.length_append, List.length_singleton]
          omega
        rw [fgetsLines_of_ne_nil hn (by simp), firstLine_append_newline [] hText.newline,
          List.take_of_length_le hFits, cstr_eq_self hZero, List.drop_length, fgetsLines_nil]
      rw [List.flatMap_cons, List.append_assoc, List.singleton_append,
        fgetsLines_append_newline hn _ hText.newline, hOne,
        ih fun t ht => h t (List.mem_cons_of_mem text ht)]
      rfl

theorem zero_notMem_of_mem_fgetsLines {n : Nat} {s line : Bytes} (h : line ∈ fgetsLines n s) :
    0 ∉ line := by
  have hLoop : ∀ fuel s, line ∈ fgetsLoop n fuel s → 0 ∉ line := by
    intro fuel
    induction fuel with
    | zero => intro s h; cases h
    | succ fuel ih =>
        intro s h
        rw [fgetsLoop] at h
        split at h
        · cases h
        · rcases List.mem_cons.mp h with rfl | h
          · exact zero_notMem_cstr _
          · exact ih _ h
  exact hLoop _ _ h

/-! ## Numbers -/

def isHexDigit (b : Byte) : Bool :=
  isdigit b || (byte 'a' ≤ b && b ≤ byte 'f') || (byte 'A' ≤ b && b ≤ byte 'F')

def hexDigitValue (b : Byte) : Nat :=
  if isdigit b then digitValue b
  else if byte 'a' ≤ b then b.toNat - 87 else b.toNat - 55

def natOfHex (digits : Bytes) : Nat :=
  digits.foldl (fun n d => 16 * n + hexDigitValue d) 0

/-- The value `strtoul` gives for a signed numeral: saturated by magnitude, negative
ones modulo 2^64. -/
def toUlong (n : Int) : Int := if n.natAbs < 2 ^ 64 then n % 2 ^ 64 else 2 ^ 64 - 1

/-- An optional sign: whether it is a minus, and what follows. -/
def scanSign (s : Bytes) : Bool × Bytes :=
  match s with
  | [] => (false, [])
  | b :: t => if b = byte '-' then (true, t) else if b = byte '+' then (false, t) else (false, s)

/-- The conversion `%x`: a sign, `0x` and digits; the digits are optional behind a
zero. -/
def scanHex (s : Bytes) : Option (Int × Bytes) :=
  let (negative, t) := scanSign s
  let t' :=
    match t with
    | b :: c :: rest => if b = byte '0' ∧ (c = byte 'x' ∨ c = byte 'X') then rest else t
    | _ => t
  let digits := t'.takeWhile isHexDigit
  if digits = [] ∧ t.head? ≠ some (byte '0') then none
  else
    let n : Int := natOfHex digits
    some (if negative then -n else n, t'.dropWhile isHexDigit)

/-- A number read by `%lf`. -/
inductive Scanned
  | rat (q : ℚ)
  | inf (negative : Bool)
  | nan

def Scanned.toDouble {D : Type} [CDouble D] : Scanned → D
  | .rat q => CDouble.ofRat q
  | .inf negative => CDouble.inf negative
  | .nan => CDouble.nan

def toLower (b : Byte) : Byte := if byte 'A' ≤ b && b ≤ byte 'Z' then b + 32 else b

def startsWith (s word : Bytes) : Bool := (s.take word.length).map toLower == word

/-- The exponent behind a mantissa, introduced by `mark`: its value, and the rest. -/
def scanExponent (mark : Byte) (s : Bytes) : Int × Bytes :=
  match s with
  | [] => (0, [])
  | b :: t =>
      if toLower b = mark then
        let (negative, t) := scanSign t
        let n : Int := natOfDigits (t.takeWhile isdigit)
        (if negative then -n else n, t.dropWhile isdigit)
      else (0, s)

/-- Digits, and digits behind a point. -/
def scanMantissa (p : Byte → Bool) (s : Bytes) : Bytes × Bytes × Bytes :=
  let r := s.dropWhile p
  match r with
  | [] => (s.takeWhile p, [], [])
  | b :: t =>
      if b = byte '.' then (s.takeWhile p, t.takeWhile p, t.dropWhile p)
      else (s.takeWhile p, [], r)

/-- The conversion `%lf`.  A prefix `0x` without a digit behind it, as in `0x.`, is rejected;
C libraries differ there. -/
def scanFloat (s : Bytes) : Option (Scanned × Bytes) :=
  let (negative, t) := scanSign s
  let signed (q : ℚ) : Scanned := .rat (if negative then -q else q)
  if startsWith t (ascii "nan") then some (.nan, t.drop 3)
  else if startsWith t (ascii "inf") then
    if startsWith (t.drop 3) (ascii "i") then
      if startsWith (t.drop 3) (ascii "inity") then some (.inf negative, t.drop 8) else none
    else some (.inf negative, t.drop 3)
  else if startsWith t (ascii "0x") then
    let (whole, frac, r) := scanMantissa isHexDigit (t.drop 2)
    if whole = [] ∧ frac = [] then none
    else
      let (e, r) := scanExponent (byte 'p') r
      some (signed (natOfHex (whole ++ frac) * 2 ^ (e - 4 * frac.length)), r)
  else
    let (whole, frac, r) := scanMantissa isdigit t
    if whole = [] ∧ frac = [] then none
    else
      let (e, r) := scanExponent (byte 'e') r
      some (signed (natOfDigits (whole ++ frac) * 10 ^ (e - frac.length)), r)

/-! ## `sscanf` -/

/-- The directives of a format.  `str` and `int` may be suppressed (`%*s`, `%*d`),
and `str` may have a width. -/
inductive Directive
  | space
  | lit (b : Byte)
  | str (width : Option Nat) (store : Bool)
  | int (store : Bool)
  | ulong
  | hex
  | float

inductive Field
  | text (s : Bytes)
  | num (n : Int)
  | real (x : Scanned)

/-- The token `%s` reads behind white space. -/
def scanToken (width : Option Nat) (s : Bytes) : Bytes :=
  let run := s.takeWhile fun b => !isspace b
  match width with
  | none => run
  | some w => run.take w

def sscanf : List Directive → Bytes → List Field
  | [], _ => []
  | .space :: ds, s => sscanf ds (s.dropWhile isspace)
  | .lit b :: ds, s => if s.head? = some b then sscanf ds s.tail else []
  -- conversions skip white space, and a failed one ends the scan
  | .str width store :: ds, s =>
      let s := s.dropWhile isspace
      let token := scanToken width s
      if token = [] then []
      else if store then .text token :: sscanf ds (s.drop token.length)
      else sscanf ds (s.drop token.length)
  | .int store :: ds, s =>
      match scanSigned (s.dropWhile isspace) with
      | none => []
      | some (n, rest) =>
          if store then .num (clampLong n) :: sscanf ds rest else sscanf ds rest
  | .ulong :: ds, s =>
      match scanSigned (s.dropWhile isspace) with
      | none => []
      | some (n, rest) => .num (toUlong n) :: sscanf ds rest
  | .hex :: ds, s =>
      match scanHex (s.dropWhile isspace) with
      | none => []
      | some (n, rest) => .num (toUlong n % 2 ^ 32) :: sscanf ds rest
  | .float :: ds, s =>
      match scanFloat (s.dropWhile isspace) with
      | none => []
      | some (x, rest) => .real x :: sscanf ds rest

/-- The numbers among the assigned fields. -/
def nums (fields : List Field) : List Int :=
  fields.filterMap fun
    | .num n => some n
    | _ => none

def texts (fields : List Field) : List Bytes :=
  fields.filterMap fun
    | .text s => some s
    | _ => none

def reals (fields : List Field) : List Scanned :=
  fields.filterMap fun
    | .real x => some x
    | _ => none

/-! ### The texts that are assigned -/

theorem scanToken_sublist (width : Option Nat) (s : Bytes) : (scanToken width s).Sublist s := by
  cases width with
  | none => exact List.takeWhile_sublist _
  | some w => exact (List.take_sublist _ _).trans (List.takeWhile_sublist _)

theorem scanSigned_rest_sublist {s rest : Bytes} {n : Int} (h : scanSigned s = some (n, rest)) :
    rest.Sublist s := by
  have hTail : (if s.head? = some (byte '-') ∨ s.head? = some (byte '+') then s.tail
      else s).Sublist s := by
    split
    · exact List.tail_sublist s
    · exact List.Sublist.refl s
  simp only [scanSigned] at h
  generalize (if s.head? = some (byte '-') ∨ s.head? = some (byte '+') then s.tail else s) = t
    at h hTail
  by_cases hDigits : t.takeWhile isdigit = []
  · rw [if_pos hDigits] at h
    cases h
  · rw [if_neg hDigits, Option.some.injEq, Prod.mk.injEq] at h
    rw [← h.2]
    exact (List.dropWhile_sublist _).trans hTail

/-- What one directive can assign. -/
inductive Assigns (s : Bytes) : Directive → Field → Prop
  | str {width : Option Nat} (h : scanToken width (s.dropWhile isspace) ≠ []) :
      Assigns s (.str width true) (.text (scanToken width (s.dropWhile isspace)))
  | int (n : Int) : Assigns s (.int true) (.num (clampLong n))
  | ulong (n : Int) : Assigns s .ulong (.num (toUlong n))
  | hex (n : Int) : Assigns s .hex (.num (toUlong n % 2 ^ 32))
  | float (x : Scanned) : Assigns s .float (.real x)

/-- A field is assigned by the first directive, or by a later one that reads on from a rest
of the input. -/
theorem mem_sscanf_cons {d : Directive} {ds : List Directive} {s : Bytes} {f : Field}
    (h : f ∈ sscanf (d :: ds) s) :
    Assigns s d f ∨
      ∃ rest, f ∈ sscanf ds rest ∧ (d ≠ .hex ∧ d ≠ .float → rest.Sublist s) := by
  have hSpaces : (s.dropWhile isspace).Sublist s := List.dropWhile_sublist _
  cases d with
  | space => exact Or.inr ⟨_, h, fun _ => hSpaces⟩
  | lit b =>
      rw [sscanf] at h
      split at h
      · exact Or.inr ⟨_, h, fun _ => List.tail_sublist s⟩
      · cases h
  | str width store =>
      have hDrop := (List.drop_sublist (scanToken width (s.dropWhile isspace)).length _).trans hSpaces
      rw [sscanf] at h
      split at h
      · cases h
      · rename_i hToken
        cases store with
        | true =>
            rcases List.mem_cons.mp h with rfl | h
            · exact Or.inl (.str hToken)
            · exact Or.inr ⟨_, h, fun _ => hDrop⟩
        | false => exact Or.inr ⟨_, h, fun _ => hDrop⟩
  | int store =>
      rw [sscanf] at h
      split at h
      · cases h
      · rename_i n rest hScan
        have hSub := (scanSigned_rest_sublist hScan).trans hSpaces
        cases store with
        | true =>
            rcases List.mem_cons.mp h with rfl | h
            · exact Or.inl (.int n)
            · exact Or.inr ⟨rest, h, fun _ => hSub⟩
        | false => exact Or.inr ⟨rest, h, fun _ => hSub⟩
  | ulong =>
      rw [sscanf] at h
      split at h
      · cases h
      · rename_i n rest hScan
        rcases List.mem_cons.mp h with rfl | h
        · exact Or.inl (.ulong n)
        · exact Or.inr ⟨rest, h, fun _ => (scanSigned_rest_sublist hScan).trans hSpaces⟩
  | hex =>
      rw [sscanf] at h
      split at h
      · cases h
      · rename_i n rest hScan
        rcases List.mem_cons.mp h with rfl | h
        · exact Or.inl (.hex n)
        · exact Or.inr ⟨rest, h, fun hPlain => absurd rfl hPlain.1⟩
  | float =>
      rw [sscanf] at h
      split at h
      · cases h
      · rename_i x rest hScan
        rcases List.mem_cons.mp h with rfl | h
        · exact Or.inl (.float x)
        · exact Or.inr ⟨rest, h, fun hPlain => absurd rfl hPlain.2⟩

theorem mem_texts {fields : List Field} {text : Bytes} :
    text ∈ texts fields ↔ .text text ∈ fields := by
  rw [texts, List.mem_filterMap]
  constructor
  · rintro ⟨f, hf, hText⟩
    cases f with
    | text t =>
        obtain rfl := Option.some.inj hText
        exact hf
    | num n => cases hText
    | real x => cases hText
  · exact fun h => ⟨_, h, rfl⟩

theorem mem_nums {fields : List Field} {n : Int} : n ∈ nums fields ↔ .num n ∈ fields := by
  rw [nums, List.mem_filterMap]
  constructor
  · rintro ⟨f, hf, hNum⟩
    cases f with
    | num m =>
        obtain rfl := Option.some.inj hNum
        exact hf
    | text t => cases hNum
    | real x => cases hNum
  · exact fun h => ⟨_, h, rfl⟩

/-- A text assigned by a format of `%s`, `%d` and `%lu` is a token in the input. -/
theorem mem_texts_sscanf {ds : List Directive} {s text : Bytes}
    (hPlain : ∀ d ∈ ds, d ≠ .hex ∧ d ≠ .float) (h : text ∈ texts (sscanf ds s)) :
    text.Sublist s ∧ text ≠ [] ∧
      ∃ width s', Directive.str width true ∈ ds ∧ text = scanToken width s' := by
  rw [mem_texts] at h
  induction ds generalizing s with
  | nil => cases h
  | cons d ds ih =>
      rw [List.forall_mem_cons] at hPlain
      rcases mem_sscanf_cons h with hAssigns | ⟨rest, hRest, hSub⟩
      · cases hAssigns with
        | str hToken =>
            exact ⟨(scanToken_sublist _ _).trans (List.dropWhile_sublist _), hToken, _, _,
              List.mem_cons_self, rfl⟩
      · obtain ⟨hText, hNonempty, width, s', hDir, hToken⟩ := ih hPlain.2 hRest
        exact ⟨hText.trans (hSub hPlain.1), hNonempty, width, s', List.mem_cons_of_mem d hDir,
          hToken⟩

theorem abs_clampLong_le (n : Int) : |clampLong n| ≤ 2 ^ 63 := by
  rw [abs_le]
  unfold clampLong
  omega

/-- A number assigned by a format without `%lu` and `%x` is a `long`. -/
theorem abs_le_of_mem_nums_sscanf {ds : List Directive} {s : Bytes} {n : Int}
    (hSigned : ∀ d ∈ ds, d ≠ .ulong ∧ d ≠ .hex) (h : n ∈ nums (sscanf ds s)) : |n| ≤ 2 ^ 63 := by
  rw [mem_nums] at h
  induction ds generalizing s with
  | nil => cases h
  | cons d ds ih =>
      rw [List.forall_mem_cons] at hSigned
      rcases mem_sscanf_cons h with hAssigns | ⟨rest, hRest, -⟩
      · cases hAssigns with
        | int n => exact abs_clampLong_le n
        | ulong n => exact absurd rfl hSigned.1.1
        | hex n => exact absurd rfl hSigned.1.2
      · exact ih hSigned.2 hRest

/-! ### Fields of a line -/

theorem nums_map_num (values : List Int) : nums (values.map Field.num) = values := by
  induction values with
  | nil => rfl
  | cons v values ih =>
      rw [List.map_cons, nums, List.filterMap_cons]
      exact congrArg (v :: ·) ih

theorem texts_map_num (values : List Int) : texts (values.map Field.num) = [] := by
  induction values with
  | nil => rfl
  | cons v values ih => exact ih

/-- A run of bytes without white space. -/
def IsWord (s : Bytes) : Prop := s ≠ [] ∧ ∀ b ∈ s, isspace b = false

theorem IsWord.take {word : Bytes} (h : IsWord word) {n : Nat} (hn : 0 < n) :
    IsWord (word.take n) := by
  refine ⟨?_, fun b hb => h.2 b (List.mem_of_mem_take hb)⟩
  rw [ne_eq, List.take_eq_nil_iff, not_or]
  exact ⟨by omega, h.1⟩

theorem dropWhile_isspace_word {word : Bytes} (h : IsWord word) (rest : Bytes) :
    (word ++ rest).dropWhile isspace = word ++ rest := by
  obtain ⟨b, word, rfl⟩ := List.exists_cons_of_ne_nil h.1
  rw [List.cons_append, List.dropWhile_cons, h.2 b List.mem_cons_self]
  simp

theorem sscanf_space_word (ds : List Directive) {word rest : Bytes} (h : IsWord word) :
    sscanf (.space :: ds) (32 :: (word ++ rest)) = sscanf ds (word ++ rest) := by
  have hSpace : isspace 32 = true := by decide
  rw [sscanf, List.dropWhile_cons, hSpace, if_pos rfl, dropWhile_isspace_word h]

/-- A word that fits the width is a field. -/
theorem sscanf_str_word {w : Nat} {word : Bytes} (h : IsWord word) (hWidth : word.length ≤ w)
    (ds : List Directive) {rest : Bytes} (hRest : ∀ b, rest.head? = some b → isspace b = true) :
    sscanf (.str (some w) true :: ds) (word ++ rest) = .text word :: sscanf ds rest := by
  have hRun : (word ++ rest).takeWhile (fun b => !isspace b) = word := by
    rw [takeWhile_append_of_head _ _ fun b hb => by rw [hRest b hb]; rfl,
      List.takeWhile_eq_self_iff]
    intro b hb
    rw [h.2 b hb]
    rfl
  rw [sscanf]
  simp only [dropWhile_isspace_word h, scanToken, hRun, List.take_of_length_le hWidth, if_neg h.1,
    if_true, List.drop_left]

/-- A longer run of bytes without white space is cut at the width. -/
theorem sscanf_str_cut {w : Nat} (hw : 0 < w) {word : Bytes} (h : IsWord word)
    (hWidth : w ≤ word.length) (ds : List Directive) (rest : Bytes) :
    sscanf (.str (some w) true :: ds) (word ++ rest) =
      .text (word.take w) :: sscanf ds (word.drop w ++ rest) := by
  have hRun : ((word ++ rest).takeWhile fun b => !isspace b).take w = word.take w := by
    rw [List.takeWhile_append_of_pos fun b hb => by rw [h.2 b hb]; rfl,
      List.take_append_of_le_length hWidth]
  have hNonempty : word.take w ≠ [] := by
    simp only [ne_eq, List.take_eq_nil_iff, not_or]
    exact ⟨by omega, h.1⟩
  have hLength : (word.take w).length = w := by
    rw [List.length_take]
    omega
  rw [sscanf]
  simp only [dropWhile_isspace_word h, scanToken, hRun, if_neg hNonempty, if_true, hLength,
    List.drop_append_of_le_length hWidth]

/-- The last field is a word, as far as it fits. -/
theorem sscanf_last_word {w : Nat} (hw : 0 < w) {word rest : Bytes} (h : IsWord word)
    (hRest : ∀ b, rest.head? = some b → isspace b = true) :
    sscanf [.str (some w) true] (word ++ rest) = [.text (word.take w)] := by
  rcases Nat.le_total word.length w with hFits | hLong
  · rw [sscanf_str_word h hFits [] hRest, List.take_of_length_le hFits]
    rfl
  · rw [sscanf_str_cut hw h hLong [] rest]
    rfl

/-- `%*d` and `%*llu` print behind spaces up to a width. -/
def padLeft (width : Nat) (s : Bytes) : Bytes := List.replicate (width - s.length) 32 ++ s

theorem length_padLeft_le {width n : Nat} {s : Bytes} (hWidth : width ≤ n) (hs : s.length ≤ n) :
    (padLeft width s).length ≤ n := by
  rw [padLeft, List.length_append, List.length_replicate]
  omega

theorem mem_padLeft {width : Nat} {s : Bytes} {b : Byte} (h : b ∈ padLeft width s) :
    b = 32 ∨ b ∈ s :=
  (List.mem_append.mp h).imp_left List.eq_of_mem_replicate

theorem isWord_decimal (n : Nat) : IsWord (decimal n) :=
  ⟨decimal_ne_nil n, fun _ hb => not_isspace_of_isdigit (isdigit_of_mem_decimal hb)⟩

theorem dropWhile_padLeft {word : Bytes} (h : IsWord word) (width : Nat) (rest : Bytes) :
    (padLeft width word ++ rest).dropWhile isspace = word ++ rest := by
  rw [padLeft, List.append_assoc, dropWhile_append_of_all, dropWhile_isspace_word h]
  intro b hb
  rw [List.eq_of_mem_replicate hb]
  decide

/-- A number behind spaces. -/
theorem scanSigned_padLeft (width n : Nat) {rest : Bytes}
    (hRest : ∀ b, rest.head? = some b → isdigit b = false) :
    scanSigned ((padLeft width (decimal n) ++ rest).dropWhile isspace) = some ((n : Int), rest) := by
  rw [dropWhile_padLeft (isWord_decimal n)]
  have hSigned : decimal n = decimalInt n := by
    rw [decimalInt, if_neg (by omega), Int.natAbs_natCast]
  rw [hSigned]
  exact scanSigned_decimalInt n hRest

theorem isWord_decimalInt (n : Int) : IsWord (decimalInt n) := by
  refine ⟨?_, fun b hb => ?_⟩
  · unfold decimalInt
    split
    · exact List.cons_ne_nil _ _
    · exact decimal_ne_nil _
  · rcases mem_decimalInt hb with rfl | hDigit
    · decide
    · exact not_isspace_of_isdigit hDigit

/-- A number behind a space. -/
theorem sscanf_ulong_decimalInt (ds : List Directive) (n : Int) {rest : Bytes}
    (hRest : ∀ b, rest.head? = some b → isdigit b = false) :
    sscanf (.space :: .ulong :: ds) (byte ' ' :: (decimalInt n ++ rest)) =
      .num (toUlong n) :: sscanf ds rest := by
  have hWord := isWord_decimalInt n
  have hSpace : (byte ' ' :: (decimalInt n ++ rest)).dropWhile isspace = decimalInt n ++ rest := by
    rw [List.dropWhile_cons, if_pos (by decide), dropWhile_isspace_word hWord]
  simp only [sscanf, hSpace, dropWhile_isspace_word hWord, scanSigned_decimalInt n hRest]

end Lib
end SvgdCollect
