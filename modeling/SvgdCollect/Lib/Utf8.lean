import SvgdCollect.Lib.Bytes

/-!
# UTF-8 texts

A byte string is UTF-8 if it is the encoding of a list of characters.  Bytes below 128
only occur as characters of their own, so a text can be cut at them, and replacing them
by others of the kind changes nothing.
-/

namespace SvgdCollect
namespace Lib

/-- The encodings of lists of characters. -/
def IsUtf8 (s : Bytes) : Prop := ∃ text : List Char, s = text.flatMap String.utf8EncodeChar

def IsAscii (s : Bytes) : Prop := ∀ b ∈ s, b < 128

instance (s : Bytes) : Decidable (IsAscii s) := inferInstanceAs (Decidable (∀ b ∈ s, b < 128))

theorem isUtf8_nil : IsUtf8 [] := ⟨[], rfl⟩

theorem IsUtf8.append {s t : Bytes} (hs : IsUtf8 s) (ht : IsUtf8 t) : IsUtf8 (s ++ t) := by
  obtain ⟨text, rfl⟩ := hs
  obtain ⟨text', rfl⟩ := ht
  exact ⟨text ++ text', List.flatMap_append.symm⟩

/-- A character is one byte below 128 or several that are not. -/
theorem utf8EncodeChar_cases (c : Char) :
    (∃ b, String.utf8EncodeChar c = [b] ∧ b < 128) ∨
      (1 < (String.utf8EncodeChar c).length ∧ ∀ b ∈ String.utf8EncodeChar c, ¬ b < 128) := by
  have hHigh : ∀ n, 128 ≤ n → n < 256 → ¬ UInt8.ofNat n < 128 := by
    intro n hLow hHigh hLt
    have := UInt8.lt_iff_toNat_lt.mp hLt
    rw [UInt8.toNat_ofNat'] at this
    have h128 : (128 : UInt8).toNat = 128 := rfl
    omega
  fun_cases String.utf8EncodeChar c with
  | case1 v h =>
      refine Or.inl ⟨_, rfl, ?_⟩
      rw [UInt8.lt_iff_toNat_lt, UInt8.toNat_ofNat']
      have h128 : (128 : UInt8).toNat = 128 := rfl
      omega
  | case2 v h h' =>
      refine Or.inr ⟨by simp, ?_⟩
      simp only [List.mem_cons, List.not_mem_nil, or_false, forall_eq_or_imp, forall_eq]
      exact ⟨hHigh _ (by omega) (by omega), hHigh _ (by omega) (by omega)⟩
  | case3 v h h' h'' =>
      refine Or.inr ⟨by simp, ?_⟩
      simp only [List.mem_cons, List.not_mem_nil, or_false, forall_eq_or_imp, forall_eq]
      exact ⟨hHigh _ (by omega) (by omega), hHigh _ (by omega) (by omega),
        hHigh _ (by omega) (by omega)⟩
  | case4 v h h' h'' =>
      refine Or.inr ⟨by simp, ?_⟩
      simp only [List.mem_cons, List.not_mem_nil, or_false, forall_eq_or_imp, forall_eq]
      exact ⟨hHigh _ (by omega) (by omega), hHigh _ (by omega) (by omega),
        hHigh _ (by omega) (by omega), hHigh _ (by omega) (by omega)⟩

theorem isUtf8_singleton {b : Byte} (h : b < 128) : IsUtf8 [b] := by
  have hLt : b.toNat < 128 := UInt8.lt_iff_toNat_lt.mp h
  refine ⟨[Char.ofNat b.toNat], ?_⟩
  have hVal : (Char.ofNat b.toNat).val.toNat = b.toNat := by
    have hValid : b.toNat.isValidChar := Or.inl (by omega)
    rw [Char.ofNat, dif_pos hValid]
    rfl
  simp only [List.flatMap_cons, List.flatMap_nil, List.append_nil, String.utf8EncodeChar, hVal,
    if_pos (show b.toNat ≤ 127 by omega), UInt8.ofNat_toNat]

/-- A byte of 128 or more is no text. -/
theorem not_isUtf8_singleton {b : Byte} (h : ¬ b < 128) : ¬ IsUtf8 [b] := by
  rintro ⟨text, hText⟩
  cases text with
  | nil => cases hText
  | cons c text =>
      rw [List.flatMap_cons] at hText
      rcases utf8EncodeChar_cases c with ⟨b', hChar, hb'⟩ | ⟨hLength, -⟩
      · rw [hChar, List.singleton_append] at hText
        obtain rfl := (List.cons.inj hText).1
        exact h hb'
      · have := congrArg List.length hText
        rw [List.length_append, List.length_singleton] at this
        omega

/-- A text can be cut at a byte below 128. -/
theorem isUtf8_append_cons_iff {b : Byte} (h : b < 128) {s t : Bytes} :
    IsUtf8 (s ++ b :: t) ↔ IsUtf8 s ∧ IsUtf8 t := by
  constructor
  · rintro ⟨text, hText⟩
    -- the first character ends in front of the byte, or it is the byte
    induction text generalizing s with
    | nil => simp at hText
    | cons c text ih =>
        rw [List.flatMap_cons] at hText
        rcases List.append_eq_append_iff.mp hText with ⟨rest, hChar, hRest⟩ | ⟨rest, hs, hRest⟩
        · -- the byte is inside the character
          cases rest with
          | nil =>
              rw [List.append_nil] at hChar
              rw [List.nil_append] at hRest
              obtain ⟨-, ht⟩ := @ih [] hRest
              exact ⟨⟨[c], by simp [hChar]⟩, ht⟩
          | cons b' rest =>
              obtain ⟨rfl, hRest⟩ := List.cons.inj hRest
              rcases utf8EncodeChar_cases c with ⟨b', hSingle, -⟩ | ⟨-, hHigh⟩
              · rw [hSingle] at hChar
                obtain ⟨rfl, rfl⟩ : s = [] ∧ rest = [] := by
                  cases s with
                  | nil => exact ⟨rfl, (List.cons.inj hChar).2.symm⟩
                  | cons x s => simp at hChar
                exact ⟨isUtf8_nil, ⟨text, by simpa using hRest⟩⟩
              · exact absurd h (hHigh b (by rw [hChar]; simp))
        · obtain ⟨hRestText, ht⟩ := ih hRest.symm
          refine ⟨?_, ht⟩
          rw [hs]
          exact IsUtf8.append ⟨[c], by simp⟩ hRestText
  · rintro ⟨hs, ht⟩
    exact hs.append ((isUtf8_singleton h).append ht)

/-- What stands around a run of bytes below 128. -/
theorem isUtf8_append_ascii_append_iff {a : Bytes} (h : IsAscii a) (hne : a ≠ []) {s t : Bytes} :
    IsUtf8 (s ++ (a ++ t)) ↔ IsUtf8 s ∧ IsUtf8 t := by
  induction a generalizing s with
  | nil => exact absurd rfl hne
  | cons b a ih =>
      have hb : b < 128 := h b List.mem_cons_self
      have ha : IsAscii a := fun c hc => h c (List.mem_cons_of_mem b hc)
      rw [List.cons_append, isUtf8_append_cons_iff hb]
      by_cases hNil : a = []
      · rw [hNil, List.nil_append]
      · have hRest := @ih ha hNil []
        rw [List.nil_append] at hRest
        rw [hRest]
        exact ⟨fun hText => ⟨hText.1, hText.2.2⟩, fun hText => ⟨hText.1, isUtf8_nil, hText.2⟩⟩

theorem isUtf8_ascii_append_iff {a : Bytes} (h : IsAscii a) {t : Bytes} :
    IsUtf8 (a ++ t) ↔ IsUtf8 t := by
  by_cases hne : a = []
  · rw [hne, List.nil_append]
  · have hSplit := @isUtf8_append_ascii_append_iff a h hne [] t
    rw [List.nil_append] at hSplit
    rw [hSplit]
    exact ⟨fun hText => hText.2, fun hText => ⟨isUtf8_nil, hText⟩⟩

theorem IsAscii.isUtf8 {a : Bytes} (h : IsAscii a) : IsUtf8 a := by
  have hSelf := @isUtf8_ascii_append_iff a h []
  rw [List.append_nil] at hSelf
  exact hSelf.mpr isUtf8_nil

theorem isUtf8_cons_iff {b : Byte} (h : b < 128) {t : Bytes} : IsUtf8 (b :: t) ↔ IsUtf8 t :=
  @isUtf8_ascii_append_iff [b] (by simpa [IsAscii] using h) t

/-- Bytes below 128 may be replaced by others of the kind, as long as something stays in
their place. -/
theorem isUtf8_flatMap_iff {f : Byte → Bytes} (hAscii : ∀ b, b < 128 → IsAscii (f b) ∧ f b ≠ [])
    (hOther : ∀ b, ¬ b < 128 → f b = [b]) (s : Bytes) : IsUtf8 (s.flatMap f) ↔ IsUtf8 s := by
  -- with a front part that has been passed without a cut
  have hFrom : ∀ s front : Bytes, IsUtf8 (front ++ s.flatMap f) ↔ IsUtf8 (front ++ s) := by
    intro s
    induction s with
    | nil => exact fun front => Iff.rfl
    | cons b s ih =>
        intro front
        rw [List.flatMap_cons]
        by_cases hb : b < 128
        · have hRest := ih []
          rw [List.nil_append, List.nil_append] at hRest
          rw [isUtf8_append_ascii_append_iff (hAscii b hb).1 (hAscii b hb).2,
            isUtf8_append_cons_iff hb, hRest]
        · rw [hOther b hb]
          have hRest := ih (front ++ [b])
          rwa [List.append_assoc, List.append_assoc] at hRest
  exact hFrom s []

end Lib
end SvgdCollect
