import SvgdCollect.Collect

/-!
# The mount table the kernel writes

The kernel writes one line per mount, with space, tab, newline and backslash in a
field written as octal escapes.  `df_read` splits what it gets from a buffer of 512
bytes at white space and does not undo the escapes.  This module says for which
entries it reports what they say.
-/

namespace SvgdCollect

open Lib

variable {D : Type} [CDouble D]

/-! ## The kernel's side -/

/-- A mount; its fields are C strings. -/
structure MountEntry where
  dev : Bytes
  mount : Bytes
  fstype : Bytes
  opts : Bytes
  zero : 0 ∉ dev ++ (mount ++ (fstype ++ opts))

/-- The bytes that the kernel escapes: space, tab, newline and backslash. -/
def isEscaped (b : Byte) : Bool := b == 32 || b == 9 || b == 10 || b == 92

/-- A byte of a field as the kernel writes it. -/
def escapeByte (b : Byte) : Bytes :=
  if isEscaped b then
    [92, digitByte (b.toNat / 64), digitByte (b.toNat / 8 % 8), digitByte (b.toNat % 8)]
  else [b]

def escape (s : Bytes) : Bytes := s.flatMap escapeByte

namespace MountEntry

/-- The line of an entry. -/
def line (e : MountEntry) : Bytes :=
  escape e.dev ++ 32 :: (escape e.mount ++ 32 :: (escape e.fstype ++ 32 ::
    (escape e.opts ++ ascii " 0 0\n")))

end MountEntry

/-- `/proc/mounts`. -/
def mountTable (entries : List MountEntry) : Bytes := entries.flatMap MountEntry.line

/-! ### Escapes -/

theorem mem_escapeByte {b c : Byte} (h : c ∈ escapeByte b) :
    (c = b ∧ isEscaped b = false) ∨ c = 92 ∨ isdigit c = true := by
  have hByte := b.toNat_lt
  unfold escapeByte at h
  split at h
  · simp only [List.mem_cons, List.not_mem_nil, or_false] at h
    rcases h with rfl | rfl | rfl | rfl
    · exact Or.inr (Or.inl rfl)
    · exact Or.inr (Or.inr (isdigit_digitByte (by omega)))
    · exact Or.inr (Or.inr (isdigit_digitByte (by omega)))
    · exact Or.inr (Or.inr (isdigit_digitByte (by omega)))
  · rename_i hPlain
    exact Or.inl ⟨List.mem_singleton.mp h, by simpa using hPlain⟩

theorem mem_escape {s : Bytes} {c : Byte} (h : c ∈ escape s) :
    (c ∈ s ∧ isEscaped c = false) ∨ c = 92 ∨ isdigit c = true := by
  obtain ⟨b, hb, hc⟩ := List.mem_flatMap.mp h
  rcases mem_escapeByte hc with ⟨rfl, hPlain⟩ | hc
  · exact Or.inl ⟨hb, hPlain⟩
  · exact Or.inr hc

theorem zero_notMem_escape {s : Bytes} (h : 0 ∉ s) : 0 ∉ escape s := by
  intro hMem
  rcases mem_escape hMem with ⟨hMem, -⟩ | hEq | hDigit
  · exact h hMem
  · exact absurd hEq (by decide)
  · exact absurd hDigit (by decide)

theorem newline_notMem_escape (s : Bytes) : newline ∉ escape s := by
  intro hMem
  rcases mem_escape hMem with ⟨-, hPlain⟩ | hEq | hDigit
  · exact absurd hPlain (by decide)
  · exact absurd hEq (by decide)
  · exact absurd hDigit (by decide)

theorem length_escapeByte (b : Byte) : (escapeByte b).length = if isEscaped b then 4 else 1 := by
  unfold escapeByte
  split <;> rfl

theorem length_le_length_escape (s : Bytes) : s.length ≤ (escape s).length := by
  induction s with
  | nil => exact Nat.zero_le _
  | cons b s ih =>
      have hByte := length_escapeByte b
      unfold escape at ih ⊢
      rw [List.flatMap_cons, List.length_append, List.length_cons, hByte]
      split <;> omega

/-- A field without special bytes is written as it is. -/
theorem escape_eq_self {s : Bytes} (h : ∀ b ∈ s, isEscaped b = false) : escape s = s := by
  induction s with
  | nil => rfl
  | cons b s ih =>
      have hb : escapeByte b = [b] := by
        rw [escapeByte, h b List.mem_cons_self]
        rfl
      unfold escape at ih ⊢
      rw [List.flatMap_cons, hb, ih fun c hc => h c (List.mem_cons_of_mem b hc)]
      rfl

theorem length_lt_length_escape {s : Bytes} (h : ∃ b ∈ s, isEscaped b = true) :
    s.length < (escape s).length := by
  obtain ⟨b, hb, hEscaped⟩ := h
  obtain ⟨front, back, rfl⟩ := List.append_of_mem hb
  have hFront := length_le_length_escape front
  have hBack := length_le_length_escape back
  have hByte := length_escapeByte b
  rw [hEscaped, if_pos rfl] at hByte
  unfold escape at hFront hBack ⊢
  simp only [List.flatMap_append, List.flatMap_cons, List.length_append, List.length_cons, hByte]
  omega

/-! ## One line -/

namespace MountEntry

/-- Where the fourth field of a line starts, as `%63s` divides it. -/
def fourth (e : MountEntry) : Nat :=
  (escape e.dev).length + 1 + ((escape e.mount).length + 1) +
    if (escape e.fstype).length ≤ 63 then
      (escape e.fstype).length + 1 + ((escape e.opts ++ ascii " 0 0\n").takeWhile isspace).length
    else 63

/-- The entry fits the buffers of `df_read`: device and mount point fit their arrays,
no field has white space of another kind than the kernel escapes, four fields start in
the first 511 bytes, and nothing in the further pieces of a longer line reads as a
mount that `statvfs` accepts. -/
structure Fits (src : Sources) (e : MountEntry) : Prop where
  dev : e.dev ≠ [] ∧ (escape e.dev).length ≤ 255
  mount : e.mount ≠ [] ∧ (escape e.mount).length ≤ 255
  fstype : e.fstype ≠ []
  blanks : ∀ b ∈ e.dev ++ (e.mount ++ e.fstype), isspace b = true → isEscaped b = true
  fourth : e.fourth < 511
  tail : ∀ piece ∈ fgetsLines 512 (e.line.drop 511), dfLine src piece = none

end MountEntry

theorem isWord_escape {s : Bytes} (hs : s ≠ [])
    (h : ∀ b ∈ s, isspace b = true → isEscaped b = true) : IsWord (escape s) := by
  have hLength := length_le_length_escape s
  have hPos := List.length_pos_iff.mpr hs
  refine ⟨List.ne_nil_of_length_pos (by omega), fun c hc => ?_⟩
  rcases mem_escape hc with ⟨hMem, hPlain⟩ | rfl | hDigit
  · by_contra hSpace
    rw [h c hMem (by simpa using hSpace)] at hPlain
    cases hPlain
  · decide
  · exact not_isspace_of_isdigit hDigit

theorem dropWhile_isspace_cons {s : Bytes} (h : ∃ b ∈ s, isspace b = false) :
    ∃ b rest, s.dropWhile isspace = b :: rest ∧ isspace b = false := by
  have hRest : s.dropWhile isspace ≠ [] := by
    rw [ne_eq, List.dropWhile_eq_nil_iff]
    intro hAll
    obtain ⟨b, hb, hSpace⟩ := h
    rw [hAll b hb] at hSpace
    cases hSpace
  obtain ⟨b, rest, hCons⟩ := List.exists_cons_of_ne_nil hRest
  have hHead := List.head_dropWhile_not isspace hRest
  simp only [hCons, List.head_cons] at hHead
  exact ⟨b, rest, hCons, hHead⟩

/-- A field starts where there is something other than white space. -/
theorem sscanf_last_field {s : Bytes} (h : ∃ b ∈ s, isspace b = false) :
    ∃ t, sscanf [.space, .str (some 255) true] s = [.text t] := by
  obtain ⟨b, rest, hCons, hb⟩ := dropWhile_isspace_cons h
  have hDrop : (b :: rest).dropWhile isspace = b :: rest := by
    rw [List.dropWhile_cons, hb]
    rfl
  have hToken : scanToken (some 255) (b :: rest) ≠ [] := by
    simp [scanToken, hb]
  refine ⟨scanToken (some 255) (b :: rest), ?_⟩
  rw [sscanf, hCons, sscanf]
  simp only [hDrop, if_neg hToken, if_true, sscanf]

/-- A cut behind the white space at the front leaves something else. -/
theorem exists_mem_take {s : Bytes} (h : ∃ b ∈ s, isspace b = false) {k : Nat}
    (hk : (s.takeWhile isspace).length < k) : ∃ b ∈ s.take k, isspace b = false := by
  obtain ⟨b, rest, hCons, hb⟩ := dropWhile_isspace_cons h
  obtain ⟨j, hj⟩ := Nat.exists_eq_succ_of_ne_zero
    (show k - (s.takeWhile isspace).length ≠ 0 by omega)
  have hSplit : s.take k = s.takeWhile isspace ++ b :: rest.take j := by
    conv_lhs => rw [← List.takeWhile_append_dropWhile (p := isspace) (l := s)]
    rw [List.take_append, hCons, hj, List.take_succ_cons, List.take_of_length_le (by omega)]
  exact ⟨b, by simp [hSplit], hb⟩

theorem isspace_head_blank (rest : Bytes) :
    ∀ b, (32 :: rest).head? = some b → isspace b = true := by
  rintro b ⟨⟩
  decide

/-- The third and the fourth field, as far as the buffer holds them. -/
theorem sscanf_fstype_opts {fstype opts : Bytes} (hType : IsWord fstype)
    (hOpts : ∃ b ∈ opts, isspace b = false) {k : Nat}
    (hk : (if fstype.length ≤ 63 then fstype.length + 1 + (opts.takeWhile isspace).length
      else 63) < k) :
    ∃ t, sscanf [.str (some 63) true, .space, .str (some 255) true]
      ((fstype ++ 32 :: opts).take k) = [.text (fstype.take 63), .text t] := by
  rw [List.take_append]
  split at hk
  · rename_i hShort
    obtain ⟨j, hj⟩ := Nat.exists_eq_succ_of_ne_zero (show k - fstype.length ≠ 0 by omega)
    obtain ⟨b, hb, hSpace⟩ := exists_mem_take hOpts (k := j) (by omega)
    obtain ⟨t, ht⟩ := sscanf_last_field (s := 32 :: opts.take j) ⟨b, by simp [hb], hSpace⟩
    refine ⟨t, ?_⟩
    have hWhole : fstype.take k = fstype := List.take_of_length_le (by omega)
    have hField : fstype.take 63 = fstype := List.take_of_length_le hShort
    rw [hWhole, hField, hj, List.take_succ_cons,
      sscanf_str_word hType hShort _ (isspace_head_blank _), ht]
  · -- a longer type is cut at 63 bytes, and its rest is taken for the fourth field
    rename_i hLong
    have hWord := hType.take (show 0 < k by omega)
    have hRest : (fstype.take k).drop 63 ≠ [] := by
      apply List.ne_nil_of_length_pos
      rw [List.length_drop, List.length_take]
      omega
    obtain ⟨b, rest, hCons⟩ := List.exists_cons_of_ne_nil hRest
    have hb : b ∈ (fstype.take k).drop 63 := by simp [hCons]
    obtain ⟨t, ht⟩ := sscanf_last_field
      (s := (fstype.take k).drop 63 ++ (32 :: opts).take (k - fstype.length))
      ⟨b, List.mem_append_left _ hb, hWord.2 b (List.mem_of_mem_drop hb)⟩
    refine ⟨t, ?_⟩
    rw [sscanf_str_cut (by omega) hWord (by rw [List.length_take]; omega), ht, List.take_take,
      Nat.min_eq_left (by omega)]

/-- The first piece of a line that fits holds its fields as the kernel wrote them. -/
theorem texts_firstPiece {src : Sources} {e : MountEntry} (h : e.Fits src) :
    ∃ t, texts (sscanf mountsFormat (e.line.take 511)) =
      [escape e.dev, escape e.mount, (escape e.fstype).take 63, t] := by
  have hDev := isWord_escape h.dev.1 fun b hb => h.blanks b (by simp [hb])
  have hMount := isWord_escape h.mount.1 fun b hb => h.blanks b (by simp [hb])
  have hType := isWord_escape h.fstype fun b hb => h.blanks b (by simp [hb])
  have hFourth := h.fourth
  unfold MountEntry.fourth at hFourth
  obtain ⟨k, hk⟩ : ∃ k, 511 = (escape e.dev).length + 1 + ((escape e.mount).length + 1) + k :=
    ⟨511 - ((escape e.dev).length + 1 + ((escape e.mount).length + 1)), by omega⟩
  have hSome : ∃ b ∈ escape e.opts ++ ascii " 0 0\n", isspace b = false :=
    ⟨byte '0', List.mem_append_right _ (by decide), by decide⟩
  -- the cut at 511 bytes falls behind the mount point, where `k` bytes are left
  have hLine : e.line.take 511 = escape e.dev ++ 32 :: (escape e.mount ++ 32 ::
      (escape e.fstype ++ 32 :: (escape e.opts ++ ascii " 0 0\n")).take k) := by
    have hFront : (escape e.dev ++ 32 :: (escape e.mount ++ [32])).length =
        (escape e.dev).length + 1 + ((escape e.mount).length + 1) := by
      simp only [List.length_append, List.length_cons, List.length_nil]
      omega
    have hSplit : e.line = (escape e.dev ++ 32 :: (escape e.mount ++ [32])) ++
        (escape e.fstype ++ 32 :: (escape e.opts ++ ascii " 0 0\n")) := by
      simp [MountEntry.line]
    rw [hSplit, hk, ← hFront, List.take_length_add_append]
    simp
  obtain ⟨t, ht⟩ := sscanf_fstype_opts hType hSome (k := k) (by omega)
  have hSpace : ∀ ds, sscanf (.space :: ds)
      (32 :: (escape e.fstype ++ 32 :: (escape e.opts ++ ascii " 0 0\n")).take k) =
      sscanf ds ((escape e.fstype ++ 32 :: (escape e.opts ++ ascii " 0 0\n")).take k) := by
    intro ds
    rw [List.take_append, sscanf_space_word ds (hType.take (by omega))]
  refine ⟨t, ?_⟩
  rw [hLine, mountsFormat, sscanf_str_word hDev h.dev.2 _ (isspace_head_blank _),
    sscanf_space_word _ hMount, sscanf_str_word hMount h.mount.2 _ (isspace_head_blank _),
    hSpace, ht]
  rfl

theorem fstypeDenied_iff {fstype : Bytes} :
    fstypeDenied fstype = true ↔ fstype ∈ fstypeDenylist := by
  simp only [fstypeDenied, List.any_eq_true, decide_eq_true_eq, strcmp_eq_zero_iff]
  exact ⟨fun ⟨denied, hMem, hEq⟩ => hEq ▸ hMem, fun hMem => ⟨fstype, hMem, rfl⟩⟩

theorem backslash_mem_escape {s : Bytes} (h : ∃ b ∈ s, isEscaped b = true) : 92 ∈ escape s := by
  obtain ⟨b, hb, hEscaped⟩ := h
  refine List.mem_flatMap.mpr ⟨b, hb, ?_⟩
  rw [escapeByte, hEscaped]
  exact List.mem_cons_self

/-- Escapes and the width of the field do not matter for the list of pseudo
filesystems. -/
theorem fstypeDenied_field (fstype : Bytes) :
    fstypeDenied ((escape fstype).take 63) = fstypeDenied fstype := by
  have hShort : ∀ denied ∈ fstypeDenylist, denied.length < 63 ∧ 92 ∉ denied ∧
      ∀ b ∈ denied, isEscaped b = false := by decide
  rw [Bool.eq_iff_iff, fstypeDenied_iff, fstypeDenied_iff]
  constructor
  · -- a listed name is shorter than the width, so nothing was cut off, and has no backslash
    intro hMem
    obtain ⟨hLength, hBackslash, -⟩ := hShort _ hMem
    rw [List.length_take] at hLength
    rw [List.take_of_length_le (by omega)] at hMem hBackslash
    have hPlain : ∀ b ∈ fstype, isEscaped b = false := by
      intro b hb
      by_contra hEscaped
      exact hBackslash (backslash_mem_escape ⟨b, hb, by simpa using hEscaped⟩)
    rwa [escape_eq_self hPlain] at hMem
  · intro hMem
    obtain ⟨hLength, -, hPlain⟩ := hShort _ hMem
    rwa [escape_eq_self hPlain, List.take_of_length_le (by omega)]

namespace MountEntry

/-- What is to be reported for an entry. -/
def report (src : Sources) (e : MountEntry) : Option (Bytes × StatVfs) :=
  if fstypeDenied e.fstype then none else (src.statvfs e.mount).map fun s => (e.mount, s)

/-- What the reader reports for it: it asks for the mount point as it is written. -/
def reportWritten (src : Sources) (e : MountEntry) : Option (Bytes × StatVfs) :=
  if fstypeDenied e.fstype then none
  else (src.statvfs (escape e.mount)).map fun s => (escape e.mount, s)

theorem line_eq (e : MountEntry) :
    e.line = (escape e.dev ++ 32 :: (escape e.mount ++ 32 :: (escape e.fstype ++ 32 ::
      (escape e.opts ++ ascii " 0 0")))) ++ [newline] := by
  have hEnd : ascii " 0 0\n" = ascii " 0 0" ++ [newline] := by decide
  simp [line, hEnd]

theorem newline_notMem_text (e : MountEntry) :
    newline ∉ escape e.dev ++ 32 :: (escape e.mount ++ 32 :: (escape e.fstype ++ 32 ::
      (escape e.opts ++ ascii " 0 0"))) := by
  have hSpace : newline ≠ 32 := by decide
  have hEnd : newline ∉ ascii " 0 0" := by decide
  simp [newline_notMem_escape, hSpace, hEnd]

theorem zero_notMem_line (e : MountEntry) : 0 ∉ e.line := by
  have hZero := e.zero
  simp only [List.mem_append, not_or] at hZero
  obtain ⟨hDev, hMount, hType, hOpts⟩ := hZero
  have hEnd : 0 ∉ ascii " 0 0\n" := by decide
  have hSpace : (0 : Byte) ≠ 32 := by decide
  simp [line, zero_notMem_escape, hDev, hMount, hType, hOpts, hEnd, hSpace]

/-- The pieces in which a line is read. -/
theorem fgetsLines_line (e : MountEntry) :
    fgetsLines 512 e.line = e.line.take 511 :: fgetsLines 512 (e.line.drop 511) := by
  have hNonempty : e.line ≠ [] := by simp [line]
  have hFirst : firstLine e.line = e.line := by
    rw [line_eq, firstLine_append_newline [] e.newline_notMem_text]
  rw [fgetsLines_of_ne_nil (by omega) hNonempty, hFirst,
    cstr_eq_self fun hMem => e.zero_notMem_line (List.mem_of_mem_take hMem)]
  by_cases hLong : 511 ≤ e.line.length
  · rw [List.length_take, Nat.min_eq_left hLong]
  · rw [List.take_of_length_le (by omega), List.drop_length, List.drop_eq_nil_of_le (by omega)]

/-- A line that fits is read as one entry. -/
theorem filterMap_dfLine {src : Sources} {e : MountEntry} (h : e.Fits src) :
    (fgetsLines 512 e.line).filterMap (dfLine src) = (e.reportWritten src).toList := by
  obtain ⟨t, ht⟩ := texts_firstPiece h
  have hTail : (fgetsLines 512 (e.line.drop 511)).filterMap (dfLine src) = [] :=
    List.filterMap_eq_nil_iff.mpr h.tail
  have hFirst : dfLine src (e.line.take 511) = e.reportWritten src := by
    rw [dfLine, ht]
    simp only [fstypeDenied_field, reportWritten]
    split
    · rfl
    · cases src.statvfs (escape e.mount) <;> rfl
  rw [fgetsLines_line, List.filterMap_cons, hFirst, hTail]
  cases e.reportWritten src <;> rfl

/-- What the entry says and what is written for it agree: the entry is not to be
reported, its mount point has no byte that is escaped, or `statvfs` accepts neither
spelling. -/
def Faithful (src : Sources) (e : MountEntry) : Prop :=
  fstypeDenied e.fstype = true ∨ (∀ b ∈ e.mount, isEscaped b = false) ∨
    (src.statvfs e.mount = none ∧ src.statvfs (escape e.mount) = none)

theorem reportWritten_of_faithful {src : Sources} {e : MountEntry} (h : e.Faithful src) :
    e.reportWritten src = e.report src := by
  unfold reportWritten report
  rcases h with hDenied | hPlain | ⟨hReal, hWritten⟩
  · rw [hDenied]
    rfl
  · rw [escape_eq_self hPlain]
  · rw [hReal, hWritten]
    rfl

end MountEntry

/-! ## The table -/

theorem filterMap_mountTable {src : Sources} {entries : List MountEntry}
    (h : ∀ e ∈ entries, e.Fits src) :
    (fgetsLines 512 (mountTable entries)).filterMap (dfLine src) =
      entries.filterMap (MountEntry.reportWritten src) := by
  induction entries with
  | nil => rfl
  | cons e entries ih =>
      have hRest : mountTable (e :: entries) = e.line ++ mountTable entries := rfl
      have hLine := e.line_eq
      rw [hRest, hLine, List.append_assoc, List.singleton_append,
        fgetsLines_append_newline (by omega) _ e.newline_notMem_text, ← hLine,
        List.filterMap_append, ih fun e' he' => h e' (List.mem_cons_of_mem e he'),
        MountEntry.filterMap_dfLine (h e List.mem_cons_self), List.filterMap_cons]
      cases e.reportWritten src <;> rfl

/-- A mount point without its leading slash. -/
def stripSlash (mount : Bytes) : Bytes := if mount.head? = some slash then mount.tail else mount

theorem length_mountToInstance {mount : Bytes} (h : mount.length ≤ 255)
    (hne : stripSlash mount ≠ []) :
    (mountToInstance mount 256).length = (stripSlash mount).length := by
  have hShort : (stripSlash mount).length ≤ 255 := by
    unfold stripSlash
    split
    · rw [List.length_tail]
      omega
    · exact h
  simp only [mountToInstance]
  rw [← stripSlash, List.take_of_length_le hShort, if_neg (by simpa using hne), List.length_map]

theorem stripSlash_escape (mount : Bytes) :
    stripSlash (escape mount) = escape (stripSlash mount) := by
  cases mount with
  | nil => rfl
  | cons b mount =>
      have hCons : escape (b :: mount) = escapeByte b ++ escape mount := List.flatMap_cons
      by_cases hSlash : b = slash
      · have hPlain : escapeByte b = [slash] := by
          rw [hSlash]
          decide
        rw [hCons, hPlain]
        simp [stripSlash, hSlash]
      · have hHead : (escape (b :: mount)).head? ≠ some slash := by
          rw [hCons, escapeByte]
          split
          · simp [show (92 : Byte) ≠ slash by decide]
          · simpa using hSlash
        rw [stripSlash, if_neg hHead, stripSlash, if_neg (by simpa using hSlash)]

/-- A mount point with an escaped byte gets another instance than its written form. -/
theorem mountToInstance_escape_ne {mount : Bytes} (h : ∃ b ∈ mount, isEscaped b = true)
    (hLength : (escape mount).length ≤ 255) :
    mountToInstance (escape mount) 256 ≠ mountToInstance mount 256 := by
  have hStripped : ∃ b ∈ stripSlash mount, isEscaped b = true := by
    obtain ⟨b, hb, hEscaped⟩ := h
    refine ⟨b, ?_, hEscaped⟩
    unfold stripSlash
    split
    · rename_i hHead
      obtain ⟨rest, rfl⟩ := List.head?_eq_some_iff.mp hHead
      rcases List.mem_cons.mp hb with rfl | hb
      · exact absurd hEscaped (by decide)
      · exact hb
    · exact hb
  have hLonger := length_lt_length_escape hStripped
  have hShort := length_le_length_escape mount
  have hne : stripSlash mount ≠ [] := by
    obtain ⟨b, hb, -⟩ := hStripped
    exact List.ne_nil_of_mem hb
  have hne' : stripSlash (escape mount) ≠ [] := by
    rw [stripSlash_escape]
    exact List.ne_nil_of_length_pos (by omega)
  -- the instance is as long as the mount point, and an escape makes that longer
  intro hEq
  have hLengths := congrArg List.length hEq
  rw [length_mountToInstance hLength hne', length_mountToInstance (by omega) hne,
    stripSlash_escape] at hLengths
  omega

/-- What `df_read` should emit for a table. -/
def mountMetrics (src : Sources) (entries : List MountEntry) : List (Metric D) :=
  (entries.filterMap (MountEntry.report src)).flatMap dfMetrics

theorem dfRead_of_fits {src : Sources} {entries : List MountEntry}
    (hFile : src.file (procPath procBase "/mounts") = some (mountTable entries))
    (hFits : ∀ e ∈ entries, e.Fits src) :
    (dfRead src procBase : ReadResult D) =
      .ok ((entries.filterMap (MountEntry.reportWritten src)).flatMap dfMetrics) := by
  rw [dfRead, hFile]
  simp only [filterMap_mountTable hFits]

/-- **Reading the mount table.**  If every entry fits the buffers, `df_read` emits what
the table says as soon as every entry agrees with what is written for it; and for a
table of one entry only then. -/
theorem dfRead_mountTable {src : Sources} {entries : List MountEntry}
    (hFile : src.file (procPath procBase "/mounts") = some (mountTable entries))
    (hFits : ∀ e ∈ entries, e.Fits src) :
    ((∀ e ∈ entries, e.Faithful src) →
      (dfRead src procBase : ReadResult D) = .ok (mountMetrics src entries)) ∧
    ∀ e, entries = [e] →
      ((dfRead src procBase : ReadResult D) = .ok (mountMetrics src entries) ↔ e.Faithful src) := by
  have hEnough : (∀ e ∈ entries, e.Faithful src) →
      (dfRead src procBase : ReadResult D) = .ok (mountMetrics src entries) := by
    intro hFaithful
    rw [dfRead_of_fits hFile hFits, mountMetrics,
      List.filterMap_congr fun e he => MountEntry.reportWritten_of_faithful (hFaithful e he)]
  refine ⟨hEnough, ?_⟩
  rintro e rfl
  refine ⟨?_, fun hFaithful => hEnough (by simpa using hFaithful)⟩
  intro hRead
  rw [dfRead_of_fits hFile hFits] at hRead
  have hMetrics : (([e].filterMap (MountEntry.reportWritten src)).flatMap dfMetrics :
      List (Metric D)) = mountMetrics src [e] := congrArg ReadResult.metrics hRead
  -- otherwise the reader asks `statvfs` for another path than it should
  by_contra hNot
  simp only [MountEntry.Faithful, not_or, not_forall, Bool.not_eq_false, Bool.not_eq_true] at hNot
  obtain ⟨hAllowed, ⟨b, hb, hEscaped⟩, hStat⟩ := hNot
  have hApart := mountToInstance_escape_ne ⟨b, hb, hEscaped⟩ (hFits e (by simp)).mount.2
  have hReport : e.report src = (src.statvfs e.mount).map fun s => (e.mount, s) := by
    rw [MountEntry.report, hAllowed]
    rfl
  have hReportWritten : e.reportWritten src =
      (src.statvfs (escape e.mount)).map fun s => (escape e.mount, s) := by
    rw [MountEntry.reportWritten, hAllowed]
    rfl
  cases hReal : src.statvfs e.mount with
  | none =>
      cases hWritten : src.statvfs (escape e.mount) with
      | none => exact hStat ⟨hReal, hWritten⟩
      | some s =>
          simp [mountMetrics, hReport, hReportWritten, hReal, hWritten, dfMetrics] at hMetrics
  | some s =>
      cases hWritten : src.statvfs (escape e.mount) with
      | none => simp [mountMetrics, hReport, hReportWritten, hReal, hWritten, dfMetrics] at hMetrics
      | some s' =>
          -- both spellings are mounted: the metrics have different instances
          simp [mountMetrics, hReport, hReportWritten, hReal, hWritten, dfMetrics, dfMetric,
            hApart] at hMetrics

/-- A system with the given mounts, where `statvfs` accepts the listed paths. -/
def mountSources (entries : List MountEntry) (accepted : List Bytes) : Sources where
  file path := if path = ascii "/proc/mounts" then some (mountTable entries) else none
  dir _ := none
  statvfs path :=
    if path ∈ accepted then some { blocks := 40, bfree := 30, bavail := 20, frsize := 4096 }
    else none
  pageSize := 4096
  isFileName := isFileName_of_no_dir

def rootEntry : MountEntry where
  dev := ascii "/dev/sda1"
  mount := ascii "/"
  fstype := ascii "ext4"
  opts := ascii "rw,relatime"
  zero := by decide

/-- An overlay with more options than the buffer holds. -/
def overlayEntry : MountEntry where
  dev := ascii "overlay"
  mount := ascii "/merged"
  fstype := ascii "overlay"
  opts := ascii "rw,lowerdir=" ++ List.replicate 600 (byte 'l')
  zero := by decide +kernel

def overlaySources : Sources :=
  mountSources [rootEntry, overlayEntry] [ascii "/", ascii "/merged"]

theorem dfRead_overlaySources :
    (dfRead overlaySources procBase : ReadResult ℚ) =
      .ok (mountMetrics overlaySources [rootEntry, overlayEntry]) := by
  have hRoot : rootEntry.Fits overlaySources :=
    ⟨by decide, by decide, by decide, by decide, by decide, by decide⟩
  have hOverlay : overlayEntry.Fits overlaySources :=
    ⟨by decide, by decide, by decide, by decide, by decide, by decide +kernel⟩
  have hFits : ∀ e ∈ [rootEntry, overlayEntry], e.Fits overlaySources := by
    simpa using ⟨hRoot, hOverlay⟩
  refine (dfRead_mountTable rfl hFits).1 ?_
  rw [List.forall_mem_cons, List.forall_mem_singleton]
  exact ⟨Or.inr (Or.inl (by decide)), Or.inr (Or.inl (by decide))⟩

/-- A mount point with a blank in its name. -/
def blankEntry : MountEntry where
  dev := ascii "/dev/sdb1"
  mount := ascii "/mnt/my disk"
  fstype := ascii "ext4"
  opts := ascii "rw,relatime"
  zero := by decide

theorem dfRead_misses_blank_mount :
    (dfRead (mountSources [blankEntry] [ascii "/mnt/my disk"]) procBase : ReadResult ℚ).metrics = [] ∧
      (mountMetrics (mountSources [blankEntry] [ascii "/mnt/my disk"]) [blankEntry] :
        List (Metric ℚ)) =
        [dfMetric (ascii "mnt-my disk") "used" 40960, dfMetric (ascii "mnt-my disk") "free" 81920] := by
  decide

end SvgdCollect
