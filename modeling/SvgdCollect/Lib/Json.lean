import SvgdCollect.Lib.Numerals

/-!
# JSON texts

The grammar of JSON values as predicates on byte strings, and objects whose
top-level members are kept apart together with the white space around their
tokens.  The second half is about searching such a text for a quoted key
without parsing it: a string token is only hit if it is the key itself, because
what follows a closing quote is never a letter.
-/

namespace SvgdCollect
namespace Lib
namespace Json

def quote : Byte := byte '"'

def colon : Byte := byte ':'

def comma : Byte := byte ','

def backslash : Byte := byte '\\'

/-- A text between quotes. -/
def quoted (s : Bytes) : Bytes := quote :: (s ++ [quote])

def isWs (b : Byte) : Bool := b == 32 || b == 9 || b == 10 || b == 13

def IsWs (s : Bytes) : Prop := ∀ b ∈ s, isWs b = true

instance (s : Bytes) : Decidable (IsWs s) :=
  inferInstanceAs (Decidable (∀ b ∈ s, isWs b = true))

/-! ## Grammar -/

def isHex (b : Byte) : Bool :=
  isdigit b || (byte 'a' ≤ b && b ≤ byte 'f') || (byte 'A' ≤ b && b ≤ byte 'F')

/-- What may stand between the quotes of a string. -/
inductive StringBody : Bytes → Prop
  | nil : StringBody []
  | plain {b : Byte} {s : Bytes} : 32 ≤ b → b ≠ quote → b ≠ backslash → StringBody s →
      StringBody (b :: s)
  | escape {e : Byte} {s : Bytes} : e ∈ quote :: backslash :: ascii "/bfnrt" → StringBody s →
      StringBody (backslash :: e :: s)
  | unicode {a b c d : Byte} {s : Bytes} : isHex a → isHex b → isHex c → isHex d →
      StringBody s → StringBody (backslash :: byte 'u' :: a :: b :: c :: d :: s)

def IsDigits (s : Bytes) : Prop := s ≠ [] ∧ ∀ b ∈ s, isdigit b = true

/-- `-`? int frac? exp?. -/
def IsNumber (s : Bytes) : Prop :=
  ∃ sign int frac exp : Bytes, s = sign ++ (int ++ (frac ++ exp)) ∧
    (sign = [] ∨ sign = [byte '-']) ∧
    IsDigits int ∧ (int.head? = some (byte '0') → int = [byte '0']) ∧
    (frac = [] ∨ ∃ ds, IsDigits ds ∧ frac = byte '.' :: ds) ∧
    (exp = [] ∨ ∃ e sign ds, (e = byte 'e' ∨ e = byte 'E') ∧
      (sign = [] ∨ sign = [byte '+'] ∨ sign = [byte '-']) ∧ IsDigits ds ∧
      exp = e :: (sign ++ ds))

mutual

inductive IsValue : Bytes → Prop
  | null : IsValue (ascii "null")
  | true : IsValue (ascii "true")
  | false : IsValue (ascii "false")
  | number {s : Bytes} : IsNumber s → IsValue s
  | string {s : Bytes} : StringBody s → IsValue (quoted s)
  | emptyArray {ws : Bytes} : IsWs ws → IsValue (byte '[' :: (ws ++ [byte ']']))
  | array {s : Bytes} : IsElements s → IsValue (byte '[' :: (s ++ [byte ']']))
  | emptyObject {ws : Bytes} : IsWs ws → IsValue (123 :: (ws ++ [125]))
  | object {s : Bytes} : IsMembers s → IsValue (123 :: (s ++ [125]))

/-- The elements of a nonempty array. -/
inductive IsElements : Bytes → Prop
  | single {before v after : Bytes} : IsWs before → IsValue v → IsWs after →
      IsElements (before ++ (v ++ after))
  | cons {before v after rest : Bytes} : IsWs before → IsValue v → IsWs after →
      IsElements rest → IsElements (before ++ (v ++ (after ++ comma :: rest)))

/-- The members of a nonempty object. -/
inductive IsMembers : Bytes → Prop
  | single {before key beforeColon afterColon v after : Bytes} : IsWs before →
      StringBody key → IsWs beforeColon → IsWs afterColon → IsValue v → IsWs after →
      IsMembers
        (before ++ (quoted key ++ (beforeColon ++ colon :: (afterColon ++ (v ++ after)))))
  | cons {before key beforeColon afterColon v after rest : Bytes} : IsWs before →
      StringBody key → IsWs beforeColon → IsWs afterColon → IsValue v → IsWs after →
      IsMembers rest →
      IsMembers
        (before ++
          (quoted key ++
            (beforeColon ++ colon :: (afterColon ++ (v ++ (after ++ comma :: rest))))))

end

/-! ## Objects with their top-level members -/

/-- A member and the white space around its tokens. -/
structure Member where
  before : Bytes
  key : Bytes
  beforeColon : Bytes
  afterColon : Bytes
  value : Bytes
  after : Bytes
  deriving DecidableEq

/-- The text of a member after its key. -/
def Member.afterKey (m : Member) : Bytes :=
  m.beforeColon ++ colon :: (m.afterColon ++ (m.value ++ m.after))

def Member.text (m : Member) : Bytes := m.before ++ (quoted m.key ++ m.afterKey)

/-- An object at top level; `inner` is the white space of an object without
members. -/
structure Document where
  lead : Bytes
  inner : Bytes
  members : List Member
  trail : Bytes
  deriving DecidableEq

/-- The text after a member: the members that follow it, and the closing brace. -/
def closing (trail : Bytes) : List Member → Bytes
  | [] => 125 :: trail
  | m :: rest => comma :: (m.text ++ closing trail rest)

def Document.text (d : Document) : Bytes :=
  d.lead ++ 123 ::
    match d.members with
    | [] => d.inner ++ 125 :: d.trail
    | m :: rest => m.text ++ closing d.trail rest

/-- The value of the member with the given key. -/
def Document.own (d : Document) (key : Bytes) : Option Bytes :=
  (d.members.find? fun m => m.key = key).map Member.value

/-- The text from the key of the member with that key on. -/
def atKey (trail key : Bytes) : List Member → Option Bytes
  | [] => none
  | m :: rest =>
      if m.key = key then some (quoted m.key ++ (m.afterKey ++ closing trail rest))
      else atKey trail key rest

def Document.atKey (d : Document) (key : Bytes) : Option Bytes :=
  Json.atKey d.trail key d.members

/-- The white space around the tokens of a member is white space. -/
structure Member.Spaced (m : Member) : Prop where
  before : IsWs m.before
  beforeColon : IsWs m.beforeColon
  afterColon : IsWs m.afterColon
  after : IsWs m.after

structure Document.Spaced (d : Document) : Prop where
  lead : IsWs d.lead
  inner : IsWs d.inner
  members : ∀ m ∈ d.members, m.Spaced
  trail : IsWs d.trail

/-- A JSON object with distinct keys. -/
structure Document.Valid (d : Document) : Prop where
  spaced : d.Spaced
  keys : ∀ m ∈ d.members, StringBody m.key
  values : ∀ m ∈ d.members, IsValue m.value
  nodup : (d.members.map Member.key).Nodup

/-! ## Bytes that cannot occur -/

theorem isWs_isspace {b : Byte} (h : isWs b = true) : isspace b = true := by
  simp only [isWs, Bool.or_eq_true, beq_iff_eq] at h
  rcases h with ((h | h) | h) | h <;> subst h <;> decide

theorem isdigit_of_isWs {b : Byte} (h : isWs b = true) : isdigit b = false := by
  simp only [isWs, Bool.or_eq_true, beq_iff_eq] at h
  rcases h with ((h | h) | h) | h <;> subst h <;> decide

/-- A byte that is not white space does not occur in white space. -/
theorem IsWs.notMem {s : Bytes} (h : IsWs s) {b : Byte} (hb : isWs b = false) : b ∉ s := by
  intro hMem
  rw [h b hMem] at hb
  contradiction

theorem IsDigits.notMem {s : Bytes} (h : IsDigits s) {b : Byte} (hb : isdigit b = false) :
    b ∉ s := by
  intro hMem
  rw [h.2 b hMem] at hb
  contradiction

theorem StringBody.zero_notMem {s : Bytes} (h : StringBody s) : 0 ∉ s := by
  induction h with
  | nil => simp
  | @plain b s hLe _ _ _ ih =>
      have hb : (0 : Byte) ≠ b := fun hZero => absurd (hZero ▸ hLe) (by decide)
      simp [hb, ih]
  | @escape e s he _ ih =>
      have hb : (0 : Byte) ≠ e := fun hZero => absurd (hZero ▸ he) (by decide)
      have hBackslash : (0 : Byte) ≠ backslash := by decide
      simp [hb, ih, hBackslash]
  | unicode ha hb hc hd _ ih =>
      have hNe : ∀ x : Byte, isHex x = true → (0 : Byte) ≠ x := by
        intro x hx hZero
        rw [← hZero] at hx
        exact absurd hx (by decide)
      have hBackslash : (0 : Byte) ≠ backslash := by decide
      have hU : (0 : Byte) ≠ byte 'u' := by decide
      simp [hNe _ ha, hNe _ hb, hNe _ hc, hNe _ hd, ih, hBackslash, hU]

theorem zero_notMem_quoted {s : Bytes} (h : 0 ∉ s) : 0 ∉ quoted s := by
  have hQuote : (0 : Byte) ≠ quote := by decide
  simp [quoted, hQuote, h]

theorem IsNumber.zero_notMem {s : Bytes} (h : IsNumber s) : 0 ∉ s := by
  obtain ⟨sign, int, frac, exp, rfl, hSign, hInt, -, hFrac, hExp⟩ := h
  have hZero : isdigit 0 = false := by decide
  have hSign0 : 0 ∉ sign := by
    rcases hSign with rfl | rfl
    · simp
    · decide
  have hFrac0 : 0 ∉ frac := by
    rcases hFrac with rfl | ⟨ds, hds, rfl⟩
    · simp
    · simpa using ⟨by decide, hds.notMem hZero⟩
  have hExp0 : 0 ∉ exp := by
    rcases hExp with rfl | ⟨e, sgn, ds, he, hsgn, hds, rfl⟩
    · simp
    · have he0 : (0 : Byte) ≠ e := by
        rcases he with rfl | rfl <;> decide
      have hsgn0 : 0 ∉ sgn := by
        rcases hsgn with rfl | rfl | rfl <;> decide
      simp [he0, hsgn0, hds.notMem hZero]
  simp [hSign0, hInt.notMem hZero, hFrac0, hExp0]

mutual

theorem IsValue.zero_notMem {v : Bytes} : IsValue v → 0 ∉ v
  | .null => by decide
  | .true => by decide
  | .false => by decide
  | .number h => h.zero_notMem
  | .string h => zero_notMem_quoted h.zero_notMem
  | .emptyArray h => by
      simpa using ⟨by decide, h.notMem (by decide), by decide⟩
  | .array h => by
      simpa using ⟨by decide, h.zero_notMem, by decide⟩
  | .emptyObject h => by
      simpa using h.notMem (by decide)
  | .object h => by
      simpa using h.zero_notMem

theorem IsElements.zero_notMem {s : Bytes} : IsElements s → 0 ∉ s
  | .single hBefore hv hAfter => by
      simpa using ⟨hBefore.notMem (by decide), hv.zero_notMem, hAfter.notMem (by decide)⟩
  | .cons hBefore hv hAfter hRest => by
      simpa using ⟨hBefore.notMem (by decide), hv.zero_notMem, hAfter.notMem (by decide),
        by decide, hRest.zero_notMem⟩

theorem IsMembers.zero_notMem {s : Bytes} : IsMembers s → 0 ∉ s
  | .single hBefore hk hbc hac hv hAfter => by
      simpa using ⟨hBefore.notMem (by decide), zero_notMem_quoted hk.zero_notMem,
        hbc.notMem (by decide), by decide, hac.notMem (by decide), hv.zero_notMem,
        hAfter.notMem (by decide)⟩
  | .cons hBefore hk hbc hac hv hAfter hRest => by
      simpa using ⟨hBefore.notMem (by decide), zero_notMem_quoted hk.zero_notMem,
        hbc.notMem (by decide), by decide, hac.notMem (by decide), hv.zero_notMem,
        hAfter.notMem (by decide), by decide, hRest.zero_notMem⟩

end

theorem Member.zero_notMem_text {m : Member} (h : m.Spaced) (hKey : 0 ∉ m.key)
    (hValue : 0 ∉ m.value) : 0 ∉ m.text := by
  simpa [Member.text, Member.afterKey] using
    ⟨h.before.notMem (by decide), zero_notMem_quoted hKey, h.beforeColon.notMem (by decide),
      by decide, h.afterColon.notMem (by decide), hValue, h.after.notMem (by decide)⟩

theorem zero_notMem_closing {trail : Bytes} {members : List Member} (hTrail : IsWs trail)
    (h : ∀ m ∈ members, 0 ∉ m.text) : 0 ∉ closing trail members := by
  induction members with
  | nil => simpa [closing] using hTrail.notMem (by decide)
  | cons m rest ih =>
      simpa [closing] using
        ⟨by decide, h m (by simp), ih fun m hm => h m (by simp [hm])⟩

theorem Document.zero_notMem_text {d : Document} (h : d.Spaced)
    (hKeys : ∀ m ∈ d.members, 0 ∉ m.key) (hValues : ∀ m ∈ d.members, 0 ∉ m.value) :
    0 ∉ d.text := by
  have hMembers : ∀ m ∈ d.members, 0 ∉ m.text := fun m hm =>
    Member.zero_notMem_text (h.members m hm) (hKeys m hm) (hValues m hm)
  unfold Document.text
  cases hd : d.members with
  | nil =>
      simpa using ⟨h.lead.notMem (by decide), h.inner.notMem (by decide),
        h.trail.notMem (by decide)⟩
  | cons m rest =>
      rw [hd] at hMembers
      simpa using ⟨h.lead.notMem (by decide), hMembers m (by simp),
        zero_notMem_closing h.trail fun m hm => hMembers m (by simp [hm])⟩

theorem Document.Valid.zero_notMem_text {d : Document} (h : d.Valid) : 0 ∉ d.text :=
  Document.zero_notMem_text h.spaced (fun m hm => (h.keys m hm).zero_notMem)
    fun m hm => (h.values m hm).zero_notMem

/-- A text without control bytes, quotes and backslashes is a string body. -/
theorem StringBody.of_plain {s : Bytes}
    (h : ∀ b ∈ s, 32 ≤ b ∧ b ≠ quote ∧ b ≠ backslash) : StringBody s := by
  induction s with
  | nil => exact .nil
  | cons b s ih =>
      obtain ⟨hLe, hQuote, hBackslash⟩ := h b (by simp)
      exact .plain hLe hQuote hBackslash (ih fun c hc => h c (by simp [hc]))

/-- A decimal number without leading zeros is a number. -/
theorem IsNumber.of_digits {s : Bytes} (hDigits : IsDigits s)
    (hZero : s.head? = some (byte '0') → s = [byte '0']) : IsNumber s :=
  ⟨[], s, [], [], by simp, Or.inl rfl, hDigits, hZero, Or.inl rfl, Or.inl rfl⟩

/-! ## Searching for a quoted key -/

/-- Two quote-free texts that are closed by a quote at the same place agree. -/
theorem eq_of_closed_isPrefix {k s rest : Bytes} (hk : quote ∉ k) (hs : quote ∉ s)
    (h : k ++ [quote] <+: s ++ quote :: rest) : k = s := by
  induction k generalizing s with
  | nil =>
      cases s with
      | nil => rfl
      | cons b s =>
          obtain ⟨t, ht⟩ := h
          have hb : quote = b := (List.cons.inj ht).1
          exact absurd (by simp [hb]) hs
  | cons a k ih =>
      cases s with
      | nil =>
          obtain ⟨t, ht⟩ := h
          have ha : a = quote := (List.cons.inj ht).1
          exact absurd (by simp [ha]) hk
      | cons b s =>
          simp only [List.cons_append, List.cons_prefix_cons] at h
          have hk' : quote ∉ k := fun hMem => hk (by simp [hMem])
          have hs' : quote ∉ s := fun hMem => hs (by simp [hMem])
          rw [h.1, ih hk' hs' h.2]

/-- The search for a quoted key skips every other string token that is not
followed by the key's first byte. -/
theorem strstr_skip_token {k s rest : Bytes} (hk : quote ∉ k) (hs : quote ∉ s) (hne : s ≠ k)
    (hHead : ∀ b, rest.head? = some b → k.head? ≠ some b) (hk0 : k ≠ []) :
    strstr (quoted s ++ rest) (quoted k) = strstr rest (quoted k) := by
  have hText : quoted s ++ rest = quote :: (s ++ quote :: rest) := by simp [quoted]
  have hOpen : ¬ quoted k <+: quote :: (s ++ quote :: rest) := by
    intro h
    simp only [quoted, List.cons_prefix_cons, true_and] at h
    exact hne (eq_of_closed_isPrefix hk hs h).symm
  have hClose : ¬ quoted k <+: quote :: rest := by
    intro h
    simp only [quoted, List.cons_prefix_cons, true_and] at h
    obtain ⟨b, k, rfl⟩ := List.exists_cons_of_ne_nil hk0
    obtain ⟨t, ht⟩ := h
    have hRest : rest.head? = some b := by
      rw [← ht]
      rfl
    exact hHead b hRest rfl
  rw [hText, strstr_cons_of_not_isPrefix hOpen]
  unfold quoted
  rw [strstr_append_of_notMem _ _ hs]
  exact strstr_cons_of_not_isPrefix hClose

theorem strstr_skip_segment {k skipped : Bytes} (rest : Bytes) (h : quote ∉ skipped) :
    strstr (skipped ++ rest) (quoted k) = strstr rest (quoted k) :=
  strstr_append_of_notMem _ _ h

theorem strstr_at_token (k rest : Bytes) :
    strstr (quoted k ++ rest) (quoted k) = some (quoted k ++ rest) :=
  strstr_self_append _ _

/-! ## The member with a given key -/

/-- The value of the member with the given key and the text behind it. -/
def valueAt (trail key : Bytes) : List Member → Option (Bytes × Bytes)
  | [] => none
  | m :: rest =>
      if m.key = key then some (m.value, m.after ++ closing trail rest)
      else valueAt trail key rest

def Document.valueAt (d : Document) (key : Bytes) : Option (Bytes × Bytes) :=
  Json.valueAt d.trail key d.members

theorem Document.own_eq (d : Document) (key : Bytes) :
    d.own key = (d.valueAt key).map Prod.fst := by
  unfold Document.own Document.valueAt
  induction d.members with
  | nil => rfl
  | cons m rest ih =>
      by_cases hKey : m.key = key
      · simp [Json.valueAt, hKey]
      · simpa [Json.valueAt, hKey] using ih

/-- What stands between the key of a member and the text behind its value. -/
theorem atKey_eq_some {trail key : Bytes} {members : List Member} {v rest : Bytes}
    (hSpaced : ∀ m ∈ members, m.Spaced) (h : Json.valueAt trail key members = some (v, rest)) :
    ∃ bc ac, IsWs bc ∧ IsWs ac ∧
      Json.atKey trail key members =
        some (quoted key ++ (bc ++ colon :: (ac ++ (v ++ rest)))) := by
  induction members with
  | nil => simp [Json.valueAt] at h
  | cons m members ih =>
      by_cases hKey : m.key = key
      · simp only [Json.valueAt, if_pos hKey, Option.some.injEq, Prod.mk.injEq] at h
        obtain ⟨rfl, rfl⟩ := h
        have hm := hSpaced m (by simp)
        refine ⟨m.beforeColon, m.afterColon, hm.beforeColon, hm.afterColon, ?_⟩
        simp [Json.atKey, hKey, Member.afterKey]
      · simp only [Json.valueAt, if_neg hKey] at h
        simp only [Json.atKey, if_neg hKey]
        exact ih (fun m hm => hSpaced m (by simp [hm])) h

theorem atKey_eq_none {trail key : Bytes} {members : List Member}
    (h : Json.valueAt trail key members = none) : Json.atKey trail key members = none := by
  induction members with
  | nil => rfl
  | cons m members ih =>
      by_cases hKey : m.key = key
      · simp [Json.valueAt, hKey] at h
      · simp only [Json.valueAt, if_neg hKey] at h
        simp only [Json.atKey, if_neg hKey]
        exact ih h

/-- The text behind a value starts with white space, a comma or a brace. -/
theorem head_valueAt {trail key : Bytes} {members : List Member} {v rest : Bytes}
    (hSpaced : ∀ m ∈ members, m.Spaced) (h : Json.valueAt trail key members = some (v, rest))
    {b : Byte} (hb : rest.head? = some b) : isWs b = true ∨ b = comma ∨ b = 125 := by
  induction members with
  | nil => simp [Json.valueAt] at h
  | cons m members ih =>
      by_cases hKey : m.key = key
      · simp only [Json.valueAt, if_pos hKey, Option.some.injEq, Prod.mk.injEq] at h
        obtain ⟨-, rfl⟩ := h
        have hAfter := (hSpaced m (by simp)).after
        cases hWs : m.after with
        | cons c ws =>
            rw [hWs] at hb hAfter
            have hc : c = b := Option.some.inj hb
            exact Or.inl (hc ▸ hAfter c (by simp))
        | nil =>
            rw [hWs, List.nil_append] at hb
            cases members with
            | nil => exact Or.inr (Or.inr (Option.some.inj hb).symm)
            | cons m' members => exact Or.inr (Or.inl (Option.some.inj hb).symm)
      · simp only [Json.valueAt, if_neg hKey] at h
        exact ih (fun m hm => hSpaced m (by simp [hm])) h

theorem mem_of_valueAt {trail key : Bytes} {members : List Member} {v rest : Bytes}
    (h : Json.valueAt trail key members = some (v, rest)) :
    ∃ m ∈ members, m.key = key ∧ m.value = v := by
  induction members with
  | nil => simp [Json.valueAt] at h
  | cons m members ih =>
      by_cases hKey : m.key = key
      · simp only [Json.valueAt, if_pos hKey, Option.some.injEq, Prod.mk.injEq] at h
        exact ⟨m, by simp, hKey, h.1⟩
      · simp only [Json.valueAt, if_neg hKey] at h
        obtain ⟨m', hm', hKey', hv⟩ := ih h
        exact ⟨m', by simp [hm'], hKey', hv⟩

/-- A value is not empty and does not start with white space. -/
theorem IsValue.head {v : Bytes} (h : IsValue v) :
    ∃ b rest, v = b :: rest ∧ isspace b = Bool.false := by
  cases h with
  | null => exact ⟨byte 'n', ascii "ull", by decide, by decide⟩
  | true => exact ⟨byte 't', ascii "rue", by decide, by decide⟩
  | false => exact ⟨byte 'f', ascii "alse", by decide, by decide⟩
  | number h =>
      obtain ⟨sign, int, frac, exp, rfl, hSign, hInt, -, -, -⟩ := h
      rcases hSign with rfl | rfl
      · obtain ⟨b, ds, rfl⟩ := List.exists_cons_of_ne_nil hInt.1
        exact ⟨b, ds ++ (frac ++ exp), by simp, not_isspace_of_isdigit (hInt.2 b (by simp))⟩
      · exact ⟨byte '-', int ++ (frac ++ exp), by simp, by decide⟩
  | string _ => exact ⟨quote, _, rfl, by decide⟩
  | emptyArray _ => exact ⟨byte '[', _, rfl, by decide⟩
  | array _ => exact ⟨byte '[', _, rfl, by decide⟩
  | emptyObject _ => exact ⟨123, _, rfl, by decide⟩
  | object _ => exact ⟨123, _, rfl, by decide⟩

/-! ## Quotes in a value -/

/-- No quote at all, or at least two. -/
def NotOneQuote (s : Bytes) : Prop := quote ∉ s ∨ 2 ≤ s.count quote

theorem NotOneQuote.append {s t : Bytes} (hs : NotOneQuote s) (ht : NotOneQuote t) :
    NotOneQuote (s ++ t) := by
  rcases hs with hs | hs
  · rcases ht with ht | ht
    · exact Or.inl (by simp [hs, ht])
    · exact Or.inr (by rw [List.count_append]; omega)
  · exact Or.inr (by rw [List.count_append]; omega)

theorem NotOneQuote.cons {b : Byte} {s : Bytes} (hb : b ≠ quote) (hs : NotOneQuote s) :
    NotOneQuote (b :: s) :=
  NotOneQuote.append (show NotOneQuote [b] from Or.inl (by simpa using Ne.symm hb)) hs

theorem IsWs.notOneQuote {s : Bytes} (h : IsWs s) : NotOneQuote s :=
  Or.inl (h.notMem (by decide))

theorem notOneQuote_quoted (s : Bytes) : NotOneQuote (quoted s) := by
  refine Or.inr ?_
  simp only [quoted, List.count_cons_self, List.count_append, List.count_nil]
  omega

theorem IsNumber.quote_notMem {s : Bytes} (h : IsNumber s) : quote ∉ s := by
  obtain ⟨sign, int, frac, exp, rfl, hSign, hInt, -, hFrac, hExp⟩ := h
  have hQuote : isdigit quote = false := by decide
  have hSign0 : quote ∉ sign := by
    rcases hSign with rfl | rfl <;> decide
  have hFrac0 : quote ∉ frac := by
    rcases hFrac with rfl | ⟨ds, hds, rfl⟩
    · simp
    · simpa using ⟨by decide, hds.notMem hQuote⟩
  have hExp0 : quote ∉ exp := by
    rcases hExp with rfl | ⟨e, sgn, ds, he, hsgn, hds, rfl⟩
    · simp
    · have he0 : quote ≠ e := by
        rcases he with rfl | rfl <;> decide
      have hsgn0 : quote ∉ sgn := by
        rcases hsgn with rfl | rfl | rfl <;> decide
      simp [he0, hsgn0, hds.notMem hQuote]
  simp [hSign0, hInt.notMem hQuote, hFrac0, hExp0]

mutual

theorem IsValue.notOneQuote {v : Bytes} : IsValue v → NotOneQuote v
  | .null => Or.inl (by decide)
  | .true => Or.inl (by decide)
  | .false => Or.inl (by decide)
  | .number h => Or.inl h.quote_notMem
  | .string _ => notOneQuote_quoted _
  | .emptyArray h => .cons (by decide) (h.notOneQuote.append (Or.inl (by decide)))
  | .array h => .cons (by decide) (h.notOneQuote.append (Or.inl (by decide)))
  | .emptyObject h => .cons (by decide) (h.notOneQuote.append (Or.inl (by decide)))
  | .object h => .cons (by decide) (h.notOneQuote.append (Or.inl (by decide)))

theorem IsElements.notOneQuote {s : Bytes} : IsElements s → NotOneQuote s
  | .single hBefore hv hAfter => hBefore.notOneQuote.append (hv.notOneQuote.append hAfter.notOneQuote)
  | .cons hBefore hv hAfter hRest =>
      hBefore.notOneQuote.append (hv.notOneQuote.append
        (hAfter.notOneQuote.append (.cons (by decide) hRest.notOneQuote)))

theorem IsMembers.notOneQuote {s : Bytes} : IsMembers s → NotOneQuote s
  | .single hBefore _ hbc hac hv hAfter =>
      hBefore.notOneQuote.append ((notOneQuote_quoted _).append (hbc.notOneQuote.append
        (.cons (by decide) (hac.notOneQuote.append (hv.notOneQuote.append hAfter.notOneQuote)))))
  | .cons hBefore _ hbc hac hv hAfter hRest =>
      hBefore.notOneQuote.append ((notOneQuote_quoted _).append (hbc.notOneQuote.append
        (.cons (by decide) (hac.notOneQuote.append (hv.notOneQuote.append
          (hAfter.notOneQuote.append (.cons (by decide) hRest.notOneQuote)))))))

end

/-- A value with a quote has another one behind it. -/
theorem IsValue.split_quote {v : Bytes} (h : IsValue v) (hMem : quote ∈ v) :
    ∃ skipped t, v = skipped ++ quote :: t ∧ quote ∉ skipped ∧ quote ∈ t := by
  cases hFirst : strchr v quote with
  | none => exact absurd hMem (strchr_eq_none_iff.mp hFirst)
  | some p =>
      obtain ⟨skipped, t, hSkipped, rfl, rfl⟩ := strchr_eq_some hFirst
      refine ⟨skipped, t, rfl, hSkipped, ?_⟩
      rcases h.notOneQuote with hNone | hTwo
      · exact absurd hMem hNone
      · rw [List.count_append, List.count_eq_zero_of_not_mem hSkipped,
          List.count_cons_self] at hTwo
        exact List.count_pos_iff.mp (by omega)

end Json
end Lib
end SvgdCollect
