import SvgdCollect.Config.Fields

/-!
# Independence of the configuration members

Whether a field depends on its own member only.  In general it does not: a
string value that reads like a key, or a member without a string value, sends
the scan to another member.

A document is clean for a field if the first occurrence of the quoted key is the
field's own top-level member (there is none if the member is absent), and the
value of that member stops the scan.  In clean documents a field is a function
of its own member.
-/

namespace SvgdCollect
namespace Config

open Lib Json

/-- The fields of the configuration that the file can set. -/
inductive Field
  | interval
  | text (t : TextField)
  | readers
  deriving DecidableEq

/-- The member a field is read from. -/
def Field.key : Field → Bytes
  | .interval => ascii "interval"
  | .text t => t.key
  | .readers => ascii "readers"

inductive FieldValue
  | number (n : Int)
  | text (s : Bytes)
  | names (l : List Bytes)
  deriving DecidableEq

def CollectConfig.get (c : CollectConfig) : Field → FieldValue
  | .interval => .number c.interval
  | .text t => .text (c.text t)
  | .readers => .names c.readers

/-- The field as a function of the value of its own member. -/
def Field.ofOwn (f : Field) (own : Option Bytes) : FieldValue :=
  match f with
  | .interval => .number (intervalOf own)
  | .text t => .text (stringOf t.size (CollectConfig.defaults.text t) own)
  | .readers => .names (readersOf own)

/-- The value stops the scan for this field, or there is nothing behind it that
the scan could read.  A string scan ends at the second quote; the `readers` loop
ends at the first `]` behind the first `[` if the quotes up to there pair up, or
if the quote left open there is closed inside the value. -/
def Field.Stops (f : Field) (v rest : Bytes) : Prop :=
  match f with
  | .interval => True
  | .readers =>
      (∃ a b c, v = a ++ byte '[' :: (b ++ byte ']' :: c) ∧ byte '[' ∉ a ∧ byte ']' ∉ b ∧
        (b.count quote % 2 = 0 ∨ quote ∈ c)) ∨
      byte '[' ∉ v ++ rest
  | .text _ => quote ∈ v ∨ quote ∉ v ++ rest

/-- The first occurrence of the quoted key is the key of the field's own member,
and that member's value stops the scan. -/
structure Field.Clean (f : Field) (d : Document) : Prop where
  first : strstr d.text (quoted f.key) = d.atKey f.key
  stops : ∀ v rest, d.valueAt f.key = some (v, rest) → f.Stops v rest

/-! ## Clean documents -/

theorem stringOf_split {skipped t : Bytes} (n : Nat) (dflt : Bytes) (h : quote ∉ skipped) :
    stringOf n dflt (some (skipped ++ quote :: t)) = (t.takeWhile (· ≠ quote)).take (n - 1) := by
  simp [stringOf, strchr_append_of_notMem _ h]

theorem stringOf_of_no_quote {v : Bytes} (n : Nat) (dflt : Bytes) (h : quote ∉ v) :
    stringOf n dflt (some v) = dflt := by
  simp [stringOf, strchr_eq_none_iff.mpr h]

section Clean

variable {d : Document} {key : Bytes}

theorem extractInt_of_clean (hd : d.Valid)
    (hFirst : strstr d.text (quoted key) = d.atKey key) :
    (let n := extractInt d.text (quoted key) 5; if n < 1 then 5 else n) =
      intervalOf (d.own key) := by
  rw [d.own_eq]
  cases hv : d.valueAt key with
  | none =>
      rw [Document.atKey, atKey_eq_none hv] at hFirst
      simp [extractInt, hFirst, intervalOf]
  | some p =>
      obtain ⟨v, rest⟩ := p
      obtain ⟨bc, ac, hbc, hac, hAt⟩ := atKey_eq_some hd.spaced.members hv
      obtain ⟨m, hm, -, rfl⟩ := mem_of_valueAt hv
      rw [Document.atKey, hAt] at hFirst
      have hRest : ∀ b, rest.head? = some b → isdigit b = false := by
        intro b hb
        rcases head_valueAt hd.spaced.members hv hb with hWs | rfl | rfl
        · exact isdigit_of_isWs hWs
        · decide
        · decide
      simp only [extractInt_at_key hFirst hbc hac (hd.values m hm).head hRest, Option.map_some,
        intervalOf]

theorem extractString_of_clean {n : Nat} {dflt : Bytes} (hd : d.Valid)
    (hFirst : strstr d.text (quoted key) = d.atKey key)
    (hStops : ∀ v rest, d.valueAt key = some (v, rest) → quote ∈ v ∨ quote ∉ v ++ rest) :
    extractString d.text (quoted key) dflt n = stringOf n dflt (d.own key) := by
  rw [d.own_eq]
  cases hv : d.valueAt key with
  | none =>
      rw [Document.atKey, atKey_eq_none hv] at hFirst
      simp [extractString, hFirst, stringOf]
  | some p =>
      obtain ⟨v, rest⟩ := p
      obtain ⟨bc, ac, hbc, hac, hAt⟩ := atKey_eq_some hd.spaced.members hv
      obtain ⟨m, hm, -, hmv⟩ := mem_of_valueAt hv
      rw [Document.atKey, hAt] at hFirst
      rcases hStops v rest hv with hMem | hNone
      · have hValue : IsValue v := hmv ▸ hd.values m hm
        obtain ⟨skipped, t, rfl, hSkipped, hClosed⟩ := hValue.split_quote hMem
        rw [extractString_at_key hFirst hbc hac hSkipped hClosed, Option.map_some,
          stringOf_split n dflt hSkipped]
      · rw [extractString_of_no_quote hFirst hbc hac hNone, Option.map_some,
          stringOf_of_no_quote]
        exact fun hMem => hNone (by simp [hMem])

theorem loadReaders_of_clean (hd : d.Spaced)
    (hFirst : strstr d.text (quoted (ascii "readers")) = d.atKey (ascii "readers"))
    (hStops : ∀ v rest, d.valueAt (ascii "readers") = some (v, rest) →
      Field.readers.Stops v rest) :
    loadReaders d.text = readersOf (d.own (ascii "readers")) := by
  rw [d.own_eq]
  cases hv : d.valueAt (ascii "readers") with
  | none =>
      rw [Document.atKey, atKey_eq_none hv] at hFirst
      simp [loadReaders, hFirst, readersOf]
  | some p =>
      obtain ⟨v, rest⟩ := p
      obtain ⟨bc, ac, hbc, hac, hAt⟩ := atKey_eq_some hd.members hv
      rw [Document.atKey, hAt] at hFirst
      rcases hStops v rest hv with ⟨a, b, c, rfl, ha, hb, hQuotes⟩ | hNone
      · rw [loadReaders_at_key hFirst hbc hac ha hb hQuotes, Option.map_some]
      · rw [loadReaders_of_no_bracket hFirst hbc hac hNone]
        have hv' : byte '[' ∉ v := fun hMem => hNone (by simp [hMem])
        simp [readersOf, strchr_eq_none_iff.mpr hv']

end Clean

/-- In a clean document every field is the function of its own member. -/
theorem get_configLoad_of_clean {d : Document} (hd : d.Valid) {f : Field} (hf : f.Clean d) :
    (configLoad (some d.text)).2.get f = f.ofOwn (d.own f.key) := by
  have hBuf : cstr d.text = d.text := cstr_eq_self hd.zero_notMem_text
  cases f with
  | interval =>
      simp only [configLoad, hBuf]
      exact congrArg FieldValue.number (extractInt_of_clean hd hf.first)
  | text t =>
      have hText := text_configLoad d.text t
      rw [hBuf] at hText
      rw [CollectConfig.get, hText]
      exact congrArg FieldValue.text (extractString_of_clean hd hf.first hf.stops)
  | readers =>
      simp only [configLoad, hBuf]
      exact congrArg FieldValue.names
        (loadReaders_of_clean hd.spaced hf.first hf.stops)

/-- An absent member and a `null` give the default. -/
theorem Field.ofOwn_default (f : Field) {own : Option Bytes}
    (h : own = none ∨ own = some (ascii "null")) :
    f.ofOwn own = CollectConfig.defaults.get f := by
  rcases h with rfl | rfl
  · cases f with
    | interval => decide
    | text t => cases t <;> decide
    | readers => decide
  · cases f with
    | interval => decide
    | text t => cases t <;> decide
    | readers => decide

/-- **Members do not interfere in clean documents.**  Two JSON objects that are
clean for a field and agree on its own member give it the same value, whatever
else they hold; and an absent or `null` member leaves the default. -/
theorem configLoad_depends_on_own_member {d d' : Document} (hd : d.Valid) (hd' : d'.Valid)
    {f : Field} (hf : f.Clean d) (hf' : f.Clean d') :
    (d.own f.key = d'.own f.key →
        (configLoad (some d.text)).2.get f = (configLoad (some d'.text)).2.get f) ∧
      (d.own f.key = none ∨ d.own f.key = some (ascii "null") →
        (configLoad (some d.text)).2.get f = CollectConfig.defaults.get f) := by
  rw [get_configLoad_of_clean hd hf, get_configLoad_of_clean hd' hf']
  constructor
  · intro hOwn
    rw [hOwn]
  · exact f.ofOwn_default

/-! ## Documents in which members interfere -/

/-- A member written without optional white space. -/
def plainMember (key : String) (value : Bytes) : Member :=
  { before := [], key := ascii key, beforeColon := [], afterColon := [], value := value,
    after := [] }

def plainDocument (members : List Member) : Document :=
  { lead := [], inner := [], members := members, trail := [] }

/-- `"hostname":<host>,"offset":7,"interval":10` in braces. -/
def hostDocument (host : String) : Document :=
  plainDocument
    [plainMember "hostname" (quoted (ascii host)), plainMember "offset" (ascii "7"),
      plainMember "interval" (ascii "10")]

/-- `"datadir":null,"hostname":"web1"` in braces. -/
def nullDocument : Document :=
  plainDocument
    [plainMember "datadir" (ascii "null"), plainMember "hostname" (quoted (ascii "web1"))]

theorem plainMember_spaced (key : String) (value : Bytes) : (plainMember key value).Spaced :=
  ⟨by simp [IsWs, plainMember], by simp [IsWs, plainMember], by simp [IsWs, plainMember],
    by simp [IsWs, plainMember]⟩

theorem plainDocument_valid {members : List Member}
    (hSpaced : ∀ m ∈ members, m.Spaced) (hKeys : ∀ m ∈ members, StringBody m.key)
    (hValues : ∀ m ∈ members, IsValue m.value) (hNodup : (members.map Member.key).Nodup) :
    (plainDocument members).Valid :=
  ⟨⟨by simp [IsWs, plainDocument], by simp [IsWs, plainDocument], hSpaced,
    by simp [IsWs, plainDocument]⟩, hKeys, hValues, hNodup⟩

theorem hostDocument_valid {host : String} (h : StringBody (ascii host)) :
    (hostDocument host).Valid := by
  apply plainDocument_valid
  · simp only [List.mem_cons, List.not_mem_nil, or_false]
    rintro m (rfl | rfl | rfl) <;> exact plainMember_spaced _ _
  · simp only [List.mem_cons, List.not_mem_nil, or_false]
    rintro m (rfl | rfl | rfl)
    · show StringBody (ascii "hostname")
      exact .of_plain (by decide)
    · exact .of_plain (by decide)
    · exact .of_plain (by decide)
  · simp only [List.mem_cons, List.not_mem_nil, or_false]
    rintro m (rfl | rfl | rfl)
    · exact .string h
    · exact .number (.of_digits ⟨by decide, by decide⟩ (by decide))
    · exact .number (.of_digits ⟨by decide, by decide⟩ (by decide))
  · show [ascii "hostname", ascii "offset", ascii "interval"].Nodup
    decide

theorem nullDocument_valid : nullDocument.Valid := by
  apply plainDocument_valid
  · simp only [List.mem_cons, List.not_mem_nil, or_false]
    rintro m (rfl | rfl) <;> exact plainMember_spaced _ _
  · simp only [List.mem_cons, List.not_mem_nil, or_false]
    rintro m (rfl | rfl) <;> exact StringBody.of_plain (by decide)
  · simp only [List.mem_cons, List.not_mem_nil, or_false]
    rintro m (rfl | rfl)
    · exact .null
    · exact .string (StringBody.of_plain (by decide))
  · show [ascii "datadir", ascii "hostname"].Nodup
    decide

/-- Changing the host name to `interval` changes the interval from 10 to 7, and a
`null` data directory is set to the text of the next key. -/
theorem configLoad_members_interfere :
    ((hostDocument "web1").Valid ∧ (hostDocument "interval").Valid ∧
      (hostDocument "web1").own (ascii "interval") =
        (hostDocument "interval").own (ascii "interval") ∧
      (configLoad (some (hostDocument "web1").text)).2.interval = 10 ∧
      (configLoad (some (hostDocument "interval").text)).2.interval = 7) ∧
    nullDocument.Valid ∧ nullDocument.own (ascii "datadir") = some (ascii "null") ∧
      (configLoad (some nullDocument.text)).2.datadir = ascii "hostname" ∧
      CollectConfig.defaults.datadir ≠ ascii "hostname" := by
  refine ⟨⟨?_, ?_, ?_, ?_, ?_⟩, nullDocument_valid, ?_, ?_, ?_⟩
  · exact hostDocument_valid (StringBody.of_plain (by decide))
  · exact hostDocument_valid (StringBody.of_plain (by decide))
  all_goals decide

/-- The host document with an ordinary host name is clean for `interval`, so the
interval it sets is the one of its own member. -/
theorem configLoad_hostDocument_interval :
    (configLoad (some (hostDocument "web1").text)).2.get .interval =
      (configLoad (some (hostDocument "db").text)).2.get .interval := by
  have hClean : ∀ host : String, host = "web1" ∨ host = "db" →
      Field.interval.Clean (hostDocument host) := by
    rintro host (rfl | rfl)
    · exact ⟨by decide, fun _ _ _ => trivial⟩
    · exact ⟨by decide, fun _ _ _ => trivial⟩
  exact (configLoad_depends_on_own_member
    (hostDocument_valid (StringBody.of_plain (by decide)))
    (hostDocument_valid (StringBody.of_plain (by decide)))
    (hClean "web1" (Or.inl rfl)) (hClean "db" (Or.inr rfl))).1 (by decide)

end Config
end SvgdCollect
