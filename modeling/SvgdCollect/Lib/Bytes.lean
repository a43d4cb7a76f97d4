import Mathlib.Data.List.Basic
import Mathlib.Data.List.TakeWhile
import Mathlib.Data.List.Infix

/-!
# Byte strings and the C string functions

A C string is the list of its bytes before the terminating NUL, and a pointer
into it is the suffix it points to.  The search functions therefore return a
suffix, pointer differences are differences of lengths, and "the text between
two pointers" is an initial segment.

Nothing here depends on a particular program: the lemmas say where a search
lands in a concatenation, which is what a parser built from `strchr` and
`strstr` needs.
-/

namespace SvgdCollect
namespace Lib

abbrev Byte := UInt8

abbrev Bytes := List UInt8

/-- A property of all bytes of a string is decided along the string, not over the
256 values a byte can have. -/
instance (priority := 1100) decidableForallMemBytes (p : Byte → Prop) [DecidablePred p]
    (s : Bytes) : Decidable (∀ b ∈ s, p b) :=
  List.decidableBAll p s

/-- The bytes of a string literal. -/
def ascii (s : String) : Bytes := s.toByteArray.data.toList

/-- The byte of an ASCII character literal. -/
def byte (c : Char) : Byte := c.toUInt8

/-- The C string held by a buffer: everything before the first NUL. -/
def cstr (buffer : Bytes) : Bytes := buffer.takeWhile (· ≠ 0)

/-- `isspace` in the C locale: space, `\t`, `\n`, `\v`, `\f` and `\r`. -/
def isspace (b : Byte) : Bool := b == 32 || (9 ≤ b && b ≤ 13)

def isdigit (b : Byte) : Bool := 48 ≤ b && b ≤ 57

/-- The first occurrence of `c`, as the suffix that starts there. -/
def strchr : Bytes → Byte → Option Bytes
  | [], _ => none
  | b :: s, c => if b = c then some (b :: s) else strchr s c

/-- The last occurrence of `c`, as the suffix that starts there. -/
def strrchr : Bytes → Byte → Option Bytes
  | [], _ => none
  | b :: s, c =>
      match strrchr s c with
      | some r => some r
      | none => if b = c then some (b :: s) else none

/-- The first occurrence of `key`, as the suffix that starts there. -/
def strstr : Bytes → Bytes → Option Bytes
  | [], key => if key = [] then some [] else none
  | b :: s, key => if key <+: b :: s then some (b :: s) else strstr s key

/-- Three-way comparison by unsigned bytes; only the sign is meaningful. -/
def strcmp : Bytes → Bytes → Int
  | [], [] => 0
  | [], _ :: _ => -1
  | _ :: _, [] => 1
  | a :: s, b :: t => if a = b then strcmp s t else if a < b then -1 else 1

/-- What `snprintf(buf, n, ...)` leaves in `buf` when `text` is the full output. -/
def snprintf (n : Nat) (text : Bytes) : Bytes := text.take (n - 1)

theorem snprintf_of_lt {n : Nat} {text : Bytes} (h : text.length < n) : snprintf n text = text :=
  List.take_of_length_le (by omega)

/-- The bytes that `snprintf(p, size, ...)` writes at `p`, the NUL included. -/
def snprintfCells (size : Nat) (text : Bytes) : Bytes :=
  if size = 0 then [] else text.take (size - 1) ++ [0]

theorem snprintfCells_of_lt {size : Nat} {text : Bytes} (h : text.length < size) :
    snprintfCells size text = text ++ [0] := by
  rw [snprintfCells, if_neg (by omega), List.take_of_length_le (by omega)]

theorem length_snprintfCells_le (size : Nat) (text : Bytes) :
    (snprintfCells size text).length ≤ size := by
  unfold snprintfCells
  split
  · simp
  · rw [List.length_append, List.length_take, List.length_singleton]
    omega

/-! ## C strings inside buffers -/

theorem cstr_append_zero {text : Bytes} (rest : Bytes) (hText : 0 ∉ text) :
    cstr (text ++ 0 :: rest) = text := by
  induction text with
  | nil => simp [cstr]
  | cons b text ih =>
      have hb : b ≠ 0 := fun h => hText (by simp [h])
      have hRest : 0 ∉ text := fun h => hText (by simp [h])
      simpa [cstr, hb] using ih hRest

theorem cstr_eq_self {text : Bytes} (hText : 0 ∉ text) : cstr text = text := by
  unfold cstr
  rw [List.takeWhile_eq_self_iff]
  intro b hb
  simpa using fun h : b = 0 => hText (h ▸ hb)

theorem cstr_append_of_notMem {s : Bytes} (t : Bytes) (h : 0 ∉ s) : cstr (s ++ t) = s ++ cstr t := by
  unfold cstr
  apply List.takeWhile_append_of_pos
  intro b hb
  simpa using fun hZero : b = 0 => h (hZero ▸ hb)

theorem zero_notMem_cstr (buffer : Bytes) : 0 ∉ cstr buffer := by
  intro h
  simpa using List.mem_takeWhile_imp h

theorem cstr_sublist (buffer : Bytes) : (cstr buffer).Sublist buffer :=
  List.takeWhile_sublist _

/-- A buffer with a NUL behind its content begins with a string and its NUL. -/
theorem exists_cstr_append (content : Bytes) :
    ∃ rest, content ++ [0] = cstr content ++ 0 :: rest := by
  induction content with
  | nil => exact ⟨[], rfl⟩
  | cons b content ih =>
      by_cases hb : b = 0
      · exact ⟨content ++ [0], by simp [cstr, hb]⟩
      · obtain ⟨rest, hRest⟩ := ih
        exact ⟨rest, by simpa [cstr, hb] using hRest⟩

/-! ## `strchr` -/

theorem strchr_eq_none_iff {s : Bytes} {c : Byte} : strchr s c = none ↔ c ∉ s := by
  induction s with
  | nil => simp [strchr]
  | cons b s ih =>
      by_cases hb : b = c
      · simp [strchr, hb]
      · simp [strchr, hb, ih, Ne.symm hb]

/-- The search skips a segment that does not hold the byte. -/
theorem strchr_append_of_notMem {skipped : Bytes} (s : Bytes) {c : Byte}
    (hSkipped : c ∉ skipped) : strchr (skipped ++ s) c = strchr s c := by
  induction skipped with
  | nil => rfl
  | cons b skipped ih =>
      have hb : b ≠ c := fun h => hSkipped (by simp [h])
      have hRest : c ∉ skipped := fun h => hSkipped (by simp [h])
      simpa [strchr, hb] using ih hRest

@[simp] theorem strchr_cons_self (s : Bytes) (c : Byte) :
    strchr (c :: s) c = some (c :: s) := by
  simp [strchr]

/-- Every answer of `strchr` splits the string at the first occurrence. -/
theorem strchr_eq_some {s r : Bytes} {c : Byte} (h : strchr s c = some r) :
    ∃ skipped rest, c ∉ skipped ∧ r = c :: rest ∧ s = skipped ++ r := by
  induction s with
  | nil => simp [strchr] at h
  | cons b s ih =>
      by_cases hb : b = c
      · subst hb
        simp only [strchr, if_pos] at h
        exact ⟨[], s, by simp, (Option.some.inj h).symm, by simp [Option.some.inj h]⟩
      · simp only [strchr, if_neg hb] at h
        obtain ⟨skipped, rest, hSkipped, hr, hs⟩ := ih h
        refine ⟨b :: skipped, rest, ?_, hr, by simp [hs]⟩
        simp [hSkipped, Ne.symm hb]

/-! ## `strrchr` -/

theorem strrchr_eq_none {s : Bytes} {c : Byte} (h : c ∉ s) : strrchr s c = none := by
  induction s with
  | nil => rfl
  | cons b s ih =>
      rw [strrchr, ih fun hMem => h (List.mem_cons_of_mem b hMem)]
      exact if_neg fun hb => h (by simp [hb])

/-- The last occurrence is the one with none behind it. -/
theorem strrchr_append_cons (s : Bytes) {c : Byte} {rest : Bytes} (h : c ∉ rest) :
    strrchr (s ++ c :: rest) c = some (c :: rest) := by
  induction s with
  | nil =>
      rw [List.nil_append, strrchr, strrchr_eq_none h]
      exact if_pos rfl
  | cons b s ih => rw [List.cons_append, strrchr, ih]

/-- Either there is no occurrence, or the answer splits the string at the last one. -/
theorem strrchr_cases (s : Bytes) (c : Byte) :
    (c ∉ s ∧ strrchr s c = none) ∨
      ∃ front rest, s = front ++ c :: rest ∧ c ∉ rest ∧ strrchr s c = some (c :: rest) := by
  by_cases h : c ∈ s
  · obtain ⟨rest, front, hSplit, hRest⟩ := List.eq_append_cons_of_mem (List.mem_reverse.mpr h)
    have hs : s = front.reverse ++ c :: rest.reverse := by
      rw [← List.reverse_reverse s, hSplit]
      simp
    have hc : c ∉ rest.reverse := fun hMem => hRest (List.mem_reverse.mp hMem)
    exact Or.inr ⟨_, _, hs, hc, hs ▸ strrchr_append_cons front.reverse hc⟩
  · exact Or.inl ⟨h, strrchr_eq_none h⟩

/-! ## `strstr` -/

theorem strstr_self_append (key rest : Bytes) :
    strstr (key ++ rest) key = some (key ++ rest) := by
  cases h : key ++ rest with
  | nil =>
      have hkey : key = [] := (List.append_eq_nil_iff.mp h).1
      simp [strstr, hkey]
  | cons b s =>
      have hkey : key <+: b :: s := h ▸ List.prefix_append key rest
      simp [strstr, hkey]

/-- Every answer of `strstr` is a suffix that starts with the key. -/
theorem strstr_eq_some {s key r : Bytes} (h : strstr s key = some r) :
    ∃ skipped rest, s = skipped ++ r ∧ r = key ++ rest := by
  induction s with
  | nil =>
      by_cases hKey : key = []
      · simp only [strstr, if_pos hKey, Option.some.injEq] at h
        exact ⟨[], [], by simp [← h], by simp [← h, hKey]⟩
      · simp [strstr, hKey] at h
  | cons b s ih =>
      by_cases hAt : key <+: b :: s
      · simp only [strstr, if_pos hAt, Option.some.injEq] at h
        obtain ⟨rest, hRest⟩ := hAt
        exact ⟨[], rest, by simp [h], by rw [← h, hRest]⟩
      · simp only [strstr, if_neg hAt] at h
        obtain ⟨skipped, rest, hs, hr⟩ := ih h
        exact ⟨b :: skipped, rest, by simp [hs], hr⟩

/-- One position at which the key does not start is skipped. -/
theorem strstr_cons_of_not_isPrefix {key s : Bytes} {b : Byte}
    (h : ¬ key <+: b :: s) : strstr (b :: s) key = strstr s key := by
  simp [strstr, h]

/-- A byte different from the key's first byte is skipped. -/
theorem strstr_cons_of_ne {k b : Byte} (key s : Bytes) (h : b ≠ k) :
    strstr (b :: s) (k :: key) = strstr s (k :: key) := by
  apply strstr_cons_of_not_isPrefix
  rintro ⟨t, ht⟩
  exact h (List.cons.inj ht).1.symm

/-- A segment without the key's first byte is skipped. -/
theorem strstr_append_of_notMem {k : Byte} {skipped : Bytes} (key s : Bytes)
    (hSkipped : k ∉ skipped) :
    strstr (skipped ++ s) (k :: key) = strstr s (k :: key) := by
  induction skipped with
  | nil => rfl
  | cons b skipped ih =>
      have hb : b ≠ k := fun h => hSkipped (by simp [h])
      have hRest : k ∉ skipped := fun h => hSkipped (by simp [h])
      rw [List.cons_append, strstr_cons_of_ne key _ hb]
      exact ih hRest

/-! ## `strcmp` -/

theorem strcmp_eq_zero_iff {s t : Bytes} : strcmp s t = 0 ↔ s = t := by
  induction s generalizing t with
  | nil => cases t <;> simp [strcmp]
  | cons a s ih =>
      cases t with
      | nil => simp [strcmp]
      | cons b t =>
          by_cases hab : a = b
          · simp [strcmp, hab, ih]
          · by_cases hlt : a < b
            · simp [strcmp, hab, hlt]
            · simp [strcmp, hab, hlt]

/-- Comparing the other way around negates the answer. -/
theorem strcmp_swap (s t : Bytes) : strcmp t s = -strcmp s t := by
  induction s generalizing t with
  | nil => cases t <;> simp [strcmp]
  | cons a s ih =>
      cases t with
      | nil => simp [strcmp]
      | cons b t =>
          by_cases hab : a = b
          · simp [strcmp, hab, ih]
          · have hSwap : b < a ↔ ¬ a < b := by
              have hNat : a.toNat ≠ b.toNat := fun h => hab (UInt8.toNat_inj.mp h)
              rw [UInt8.lt_iff_toNat_lt, UInt8.lt_iff_toNat_lt]
              omega
            by_cases hlt : a < b
            · simp [strcmp, hab, Ne.symm hab, hSwap, hlt]
            · simp [strcmp, hab, Ne.symm hab, hSwap, hlt]

theorem strcmp_le_trans {s t u : Bytes} (hst : strcmp s t ≤ 0) (htu : strcmp t u ≤ 0) :
    strcmp s u ≤ 0 := by
  induction s generalizing t u with
  | nil => cases u <;> simp [strcmp]
  | cons a s ih =>
      cases t with
      | nil => simp [strcmp] at hst
      | cons b t =>
          cases u with
          | nil => simp [strcmp] at htu
          | cons c u =>
              have hFirst : ∀ (x y : Byte) (v w : Bytes), strcmp (x :: v) (y :: w) ≤ 0 →
                  x < y ∨ (x = y ∧ strcmp v w ≤ 0) := by
                intro x y v w h
                by_cases hEq : x = y
                · exact Or.inr ⟨hEq, by simpa [strcmp, hEq] using h⟩
                · by_cases hlt : x < y
                  · exact Or.inl hlt
                  · simp [strcmp, hEq, hlt] at h
              have hLess : a < c → strcmp (a :: s) (c :: u) ≤ 0 := by
                intro hlt
                have hne : a ≠ c := by
                  rintro rfl
                  exact UInt8.lt_irrefl a hlt
                simp [strcmp, hne, hlt]
              rcases hFirst a b s t hst with hab | ⟨rfl, hst'⟩
              · rcases hFirst b c t u htu with hbc | ⟨rfl, -⟩
                · exact hLess (UInt8.lt_trans hab hbc)
                · exact hLess hab
              · rcases hFirst a c t u htu with hac | ⟨rfl, htu'⟩
                · exact hLess hac
                · simpa [strcmp] using ih hst' htu'

/-! ## Splitting at a byte -/

/-- A text is split at the first occurrence of a byte in one way only. -/
theorem append_cons_inj {c : Byte} {s s' t t' : Bytes} (hs : c ∉ s) (hs' : c ∉ s')
    (h : s ++ c :: t = s' ++ c :: t') : s = s' ∧ t = t' := by
  have hFront : ∀ {u v : Bytes}, c ∉ u → (u ++ c :: v).takeWhile (· != c) = u := by
    intro u v hu
    have hRun : ∀ b ∈ u, (b != c) = true := by
      intro b hb
      rw [bne_iff_ne]
      exact fun hEq => hu (hEq ▸ hb)
    simp [List.takeWhile_append_of_pos hRun]
  have hEq := congrArg (List.takeWhile (· != c)) h
  rw [hFront hs, hFront hs'] at hEq
  subst hEq
  exact ⟨rfl, by simpa using h⟩

/-- A text is split at the last occurrence of a byte in one way only. -/
theorem append_cons_inj_right {c : Byte} {s s' t t' : Bytes} (ht : c ∉ t) (ht' : c ∉ t')
    (h : s ++ c :: t = s' ++ c :: t') : s = s' ∧ t = t' := by
  have hRev := congrArg List.reverse h
  simp only [List.reverse_append, List.reverse_cons, List.append_assoc, List.singleton_append]
    at hRev
  obtain ⟨hTail, hHead⟩ := append_cons_inj (by simpa using ht) (by simpa using ht') hRev
  exact ⟨List.reverse_inj.mp hHead, List.reverse_inj.mp hTail⟩

end Lib
end SvgdCollect
