import SvgdCollect.Config.Fields

/-!
# Reading back a generated configuration

For objects built from the six known members, with any white space, any order
and any strings that cannot be mistaken for a key, the scan of `config.c` reads
back exactly what was written.

A search for a quoted key walks over such a text token by token: numbers and
punctuation hold no quote, a string token is only hit if it is the key, and a
closing quote is never followed by the first letter of a key.
-/

namespace SvgdCollect
namespace Config

open Lib Json

/-! ## Generated documents -/

/-- An array element with the white space around it. -/
structure Item where
  before : Bytes
  name : Bytes
  after : Bytes

def Item.text (i : Item) : Bytes := i.before ++ (quoted i.name ++ i.after)

/-- The elements from the second one on, and the closing bracket. -/
def itemsClosing : List Item → Bytes
  | [] => [byte ']']
  | i :: rest => comma :: (i.text ++ itemsClosing rest)

/-- One known member.  `inner` is the white space of an empty array. -/
inductive Setting
  | interval (n : Nat)
  | text (t : TextField) (s : Bytes)
  | readers (inner : Bytes) (items : List Item)

def Setting.key : Setting → Bytes
  | .interval _ => ascii "interval"
  | .text t _ => t.key
  | .readers _ _ => ascii "readers"

def Setting.value : Setting → Bytes
  | .interval n => decimal n
  | .text _ s => quoted s
  | .readers inner [] => byte '[' :: (inner ++ [byte ']'])
  | .readers _ (i :: rest) => byte '[' :: (i.text ++ itemsClosing rest)

/-- The names of the six members. -/
def keyNames : List Bytes :=
  [ascii "interval", ascii "datadir", ascii "hostname", ascii "rrdcached_addr",
    ascii "metrics_addr", ascii "readers"]

/-- A string that fits an array of `n` bytes and cannot be taken for a key. -/
structure TextOk (n : Nat) (s : Bytes) : Prop where
  length : s.length < n
  zero : 0 ∉ s
  quote : quote ∉ s
  backslash : backslash ∉ s
  notKey : s ∉ keyNames

structure ItemOk (i : Item) : Prop where
  before : IsWs i.before
  after : IsWs i.after
  name : TextOk 32 i.name
  bracket : byte ']' ∉ i.name

def Setting.Ok : Setting → Prop
  | .interval n => 1 ≤ n ∧ n ≤ 2 ^ 31 - 1
  | .text t s => TextOk t.size s
  | .readers inner items => IsWs inner ∧ items.length ≤ 16 ∧ ∀ i ∈ items, ItemOk i

/-- A setting and the white space around its tokens. -/
structure PlacedSetting where
  before : Bytes
  beforeColon : Bytes
  afterColon : Bytes
  after : Bytes
  setting : Setting

def PlacedSetting.member (p : PlacedSetting) : Member :=
  { before := p.before, key := p.setting.key, beforeColon := p.beforeColon,
    afterColon := p.afterColon, value := p.setting.value, after := p.after }

@[simp] theorem member_key (p : PlacedSetting) : p.member.key = p.setting.key := rfl

@[simp] theorem member_value (p : PlacedSetting) : p.member.value = p.setting.value := rfl

/-- The object with the given members, and white space outside of them. -/
def settingsDocument (lead inner trail : Bytes) (placed : List PlacedSetting) : Document :=
  { lead := lead, inner := inner, members := placed.map PlacedSetting.member, trail := trail }

def Setting.interval? : Setting → Option Nat
  | .interval n => some n
  | _ => none

def Setting.text? (t : TextField) : Setting → Option Bytes
  | .text t' s => if t' = t then some s else none
  | _ => none

def Setting.readers? : Setting → Option (List Bytes)
  | .readers _ items => some (items.map Item.name)
  | _ => none

/-- The configuration that a list of settings describes. -/
def configOf (settings : List Setting) : CollectConfig :=
  let dflt := CollectConfig.defaults
  { interval := ((settings.findSome? Setting.interval?).map Int.ofNat).getD dflt.interval
    datadir := (settings.findSome? (Setting.text? .datadir)).getD dflt.datadir
    host := (settings.findSome? (Setting.text? .host)).getD dflt.host
    rrdcached := (settings.findSome? (Setting.text? .rrdcached)).getD dflt.rrdcached
    metricsAddr := (settings.findSome? (Setting.text? .metricsAddr)).getD dflt.metricsAddr
    readers := (settings.findSome? Setting.readers?).getD dflt.readers }

/-! ## Searching a generated document -/

/-- The bytes that can follow a string token. -/
def isPunct (b : Byte) : Bool :=
  isWs b || b == colon || b == comma || b == byte ']' || b == 125

def StartsPunct (s : Bytes) : Prop := ∃ b t, s = b :: t ∧ isPunct b = true

/-- A key that the search can only hit as a whole token. -/
structure SearchKey (k : Bytes) : Prop where
  quote : quote ∉ k
  head : ∃ c t, k = c :: t ∧ isPunct c = false

theorem searchKey_of_mem {k : Bytes} (h : k ∈ keyNames) : SearchKey k := by
  simp only [keyNames, List.mem_cons, List.not_mem_nil, or_false] at h
  rcases h with rfl | rfl | rfl | rfl | rfl | rfl
  · exact ⟨by decide, byte 'i', ascii "nterval", by decide, by decide⟩
  · exact ⟨by decide, byte 'd', ascii "atadir", by decide, by decide⟩
  · exact ⟨by decide, byte 'h', ascii "ostname", by decide, by decide⟩
  · exact ⟨by decide, byte 'r', ascii "rdcached_addr", by decide, by decide⟩
  · exact ⟨by decide, byte 'm', ascii "etrics_addr", by decide, by decide⟩
  · exact ⟨by decide, byte 'r', ascii "eaders", by decide, by decide⟩

theorem StartsPunct.append {ws s : Bytes} (hWs : IsWs ws) (hs : StartsPunct s) :
    StartsPunct (ws ++ s) := by
  cases ws with
  | nil => exact hs
  | cons b ws => exact ⟨b, ws ++ s, rfl, by simp [isPunct, hWs b (by simp)]⟩

theorem strstr_skip_string {k s rest : Bytes} (hk : SearchKey k) (hs : quote ∉ s) (hne : s ≠ k)
    (hRest : StartsPunct rest) :
    strstr (quoted s ++ rest) (quoted k) = strstr rest (quoted k) := by
  obtain ⟨c, t, rfl, hc⟩ := hk.head
  apply strstr_skip_token hk.quote hs hne _ (by simp)
  rintro b hb hcb
  obtain ⟨b', t', rfl, hb'⟩ := hRest
  have hEq : c = b' := (Option.some.inj hcb).trans (Option.some.inj hb).symm
  rw [hEq, hb'] at hc
  contradiction

theorem strstr_skip_cons {k : Bytes} {b : Byte} (rest : Bytes) (hb : b ≠ quote) :
    strstr (b :: rest) (quoted k) = strstr rest (quoted k) :=
  strstr_cons_of_ne _ _ hb

/-- An array element is skipped. -/
theorem strstr_skip_item {k rest : Bytes} {i : Item} (hk : SearchKey k) (hKey : k ∈ keyNames)
    (hi : ItemOk i) (hRest : StartsPunct rest) :
    strstr (i.text ++ rest) (quoted k) = strstr rest (quoted k) := by
  have hne : i.name ≠ k := fun h => hi.name.notKey (h ▸ hKey)
  unfold Item.text
  rw [List.append_assoc, List.append_assoc, strstr_skip_segment _ (hi.before.notMem (by decide)),
    strstr_skip_string hk hi.name.quote hne (hRest.append hi.after),
    strstr_skip_segment _ (hi.after.notMem (by decide))]

theorem startsPunct_itemsClosing (items : List Item) (rest : Bytes) :
    StartsPunct (itemsClosing items ++ rest) := by
  cases items with
  | nil => exact ⟨byte ']', rest, rfl, by decide⟩
  | cons i items => exact ⟨comma, _, rfl, by decide⟩

theorem strstr_skip_itemsClosing {k rest : Bytes} {items : List Item} (hKey : k ∈ keyNames)
    (hItems : ∀ i ∈ items, ItemOk i) :
    strstr (itemsClosing items ++ rest) (quoted k) = strstr rest (quoted k) := by
  have hk := searchKey_of_mem hKey
  induction items with
  | nil => exact strstr_skip_cons rest (by decide)
  | cons i items ih =>
      have hi : ItemOk i := hItems i (by simp)
      rw [itemsClosing, List.cons_append, strstr_skip_cons _ (by decide), List.append_assoc,
        strstr_skip_item hk hKey hi (startsPunct_itemsClosing items rest)]
      exact ih fun j hj => hItems j (by simp [hj])

/-- The value of a setting is skipped: none of its strings is a key. -/
theorem strstr_skip_value {k rest : Bytes} {s : Setting} (hKey : k ∈ keyNames) (hs : s.Ok)
    (hRest : StartsPunct rest) :
    strstr (s.value ++ rest) (quoted k) = strstr rest (quoted k) := by
  have hk := searchKey_of_mem hKey
  cases s with
  | interval n =>
      -- digits hold no quote
      apply strstr_skip_segment
      intro hMem
      have hDigit := isdigit_of_mem_decimal hMem
      exact absurd hDigit (by decide)
  | text t s =>
      exact strstr_skip_string hk hs.quote (fun h => hs.notKey (h ▸ hKey)) hRest
  | readers inner items =>
      obtain ⟨hInner, -, hItems⟩ := hs
      cases items with
      | nil =>
          rw [Setting.value, List.cons_append, strstr_skip_cons _ (by decide),
            List.append_assoc, strstr_skip_segment _ (hInner.notMem (by decide))]
          exact strstr_skip_cons rest (by decide)
      | cons i items =>
          have hi : ItemOk i := hItems i (by simp)
          rw [Setting.value, List.cons_append, strstr_skip_cons _ (by decide),
            List.append_assoc, strstr_skip_item hk hKey hi (startsPunct_itemsClosing items rest)]
          exact strstr_skip_itemsClosing hKey fun j hj => hItems j (by simp [hj])

theorem startsPunct_closing (trail : Bytes) (members : List Member) :
    StartsPunct (closing trail members) := by
  cases members with
  | nil => exact ⟨125, trail, rfl, by decide⟩
  | cons m members => exact ⟨comma, _, rfl, by decide⟩

theorem Setting.key_mem (s : Setting) : s.key ∈ keyNames := by
  cases s with
  | interval n => simp [Setting.key, keyNames]
  | text t s => cases t <;> simp [Setting.key, TextField.key, keyNames]
  | readers inner items => simp [Setting.key, keyNames]

/-- At a member the search stops at its key, or skips the member. -/
theorem strstr_member {k rest : Bytes} {p : PlacedSetting} (hKey : k ∈ keyNames)
    (hp : p.setting.Ok) (hSpaced : p.member.Spaced) (hRest : StartsPunct rest) :
    strstr (p.member.text ++ rest) (quoted k) =
      if p.setting.key = k then some (quoted k ++ (p.member.afterKey ++ rest))
      else strstr rest (quoted k) := by
  have hk := searchKey_of_mem hKey
  rw [Member.text, List.append_assoc, List.append_assoc,
    strstr_skip_segment _ (hSpaced.before.notMem (by decide)), member_key]
  by_cases hEq : p.setting.key = k
  · rw [if_pos hEq]
    subst hEq
    exact strstr_at_token _ _
  · rw [if_neg hEq]
    have hOther := (searchKey_of_mem p.setting.key_mem).quote
    have hAfter : StartsPunct (p.member.afterKey ++ rest) := by
      rw [Member.afterKey, List.append_assoc]
      exact StartsPunct.append hSpaced.beforeColon ⟨colon, _, rfl, by decide⟩
    rw [strstr_skip_string hk hOther hEq hAfter, Member.afterKey, List.append_assoc,
      strstr_skip_segment _ (hSpaced.beforeColon.notMem (by decide)), List.cons_append,
      strstr_skip_cons _ (by decide), List.append_assoc,
      strstr_skip_segment _ (hSpaced.afterColon.notMem (by decide)), List.append_assoc,
      member_value, strstr_skip_value hKey hp (hRest.append hSpaced.after)]
    exact strstr_skip_segment _ (hSpaced.after.notMem (by decide))

theorem strstr_closing {k trail : Bytes} {placed : List PlacedSetting} (hKey : k ∈ keyNames)
    (hTrail : IsWs trail) (hOk : ∀ p ∈ placed, p.setting.Ok)
    (hSpaced : ∀ p ∈ placed, p.member.Spaced) :
    strstr (closing trail (placed.map PlacedSetting.member)) (quoted k) =
      Json.atKey trail k (placed.map PlacedSetting.member) := by
  induction placed with
  | nil =>
      have hNone : strstr trail (quoted k) = none := by
        have hSkip := strstr_skip_segment (k := k) [] (hTrail.notMem (by decide))
        rw [List.append_nil] at hSkip
        rw [hSkip]
        simp [strstr, quoted]
      rw [List.map_nil, closing, strstr_skip_cons _ (by decide), hNone]
      rfl
  | cons p placed ih =>
      have hRec := ih (fun q hq => hOk q (by simp [hq])) fun q hq => hSpaced q (by simp [hq])
      rw [List.map_cons, closing, strstr_skip_cons _ (by decide),
        strstr_member hKey (hOk p (by simp)) (hSpaced p (by simp)) (startsPunct_closing _ _),
        hRec, Json.atKey, member_key]
      split
      · rename_i hEq
        rw [hEq]
      · rfl

/-- In a generated document the first occurrence of a known key is the member
with that key. -/
theorem strstr_settingsDocument {k lead inner trail : Bytes} {placed : List PlacedSetting}
    (hKey : k ∈ keyNames) (hOk : ∀ p ∈ placed, p.setting.Ok)
    (hd : (settingsDocument lead inner trail placed).Spaced) :
    strstr (settingsDocument lead inner trail placed).text (quoted k) =
      (settingsDocument lead inner trail placed).atKey k := by
  have hSpaced : ∀ p ∈ placed, p.member.Spaced := fun p hp =>
    hd.members _ (List.mem_map_of_mem hp)
  have hClosing := strstr_closing hKey hd.trail hOk hSpaced
  simp only [settingsDocument] at hClosing
  rw [Document.text, strstr_skip_segment _ (hd.lead.notMem (by decide)),
    strstr_skip_cons _ (by decide), Document.atKey]
  cases placed with
  | nil =>
      have hInner : IsWs inner := hd.inner
      simp only [settingsDocument, List.map_nil] at hClosing ⊢
      rw [strstr_skip_segment _ (hInner.notMem (by decide))]
      exact hClosing
  | cons p placed =>
      simp only [settingsDocument, List.map_cons] at hClosing ⊢
      rw [closing, strstr_skip_cons _ (by decide)] at hClosing
      exact hClosing

/-! ## The member of a setting -/

section Members

variable {key : Bytes} {placed : List PlacedSetting}

theorem valueAt_of_mem (trail : Bytes) {p : PlacedSetting}
    (hNodup : (placed.map fun p => p.setting.key).Nodup) (hp : p ∈ placed) :
    ∃ rest, Json.valueAt trail p.setting.key (placed.map PlacedSetting.member) =
      some (p.setting.value, rest) := by
  induction placed with
  | nil => simp at hp
  | cons q placed ih =>
      rw [List.map_cons, List.nodup_cons] at hNodup
      rcases List.mem_cons.mp hp with rfl | hp
      · exact ⟨_, if_pos rfl⟩
      · have hne : q.setting.key ≠ p.setting.key := by
          intro hEq
          exact hNodup.1 (List.mem_map.mpr ⟨p, hp, hEq.symm⟩)
        obtain ⟨rest, hRest⟩ := ih hNodup.2 hp
        exact ⟨rest, by simpa [Json.valueAt, hne] using hRest⟩

theorem valueAt_of_absent (trail : Bytes) (h : ∀ p ∈ placed, p.setting.key ≠ key) :
    Json.valueAt trail key (placed.map PlacedSetting.member) = none := by
  induction placed with
  | nil => rfl
  | cons q placed ih =>
      have hq : q.setting.key ≠ key := h q (by simp)
      have hRec := ih fun p hp => h p (by simp [hp])
      simpa [Json.valueAt, hq] using hRec

end Members

/-- What a search finds for the key of a setting that was written. -/
theorem strstr_of_mem {lead inner trail : Bytes} {placed : List PlacedSetting}
    {p : PlacedSetting} (hOk : ∀ p ∈ placed, p.setting.Ok)
    (hd : (settingsDocument lead inner trail placed).Spaced)
    (hNodup : (placed.map fun p => p.setting.key).Nodup) (hp : p ∈ placed) :
    ∃ bc ac rest, IsWs bc ∧ IsWs ac ∧
      (∀ b, rest.head? = some b → isWs b = true ∨ b = comma ∨ b = 125) ∧
      strstr (settingsDocument lead inner trail placed).text (quoted p.setting.key) =
        some (quoted p.setting.key ++ (bc ++ colon :: (ac ++ (p.setting.value ++ rest)))) := by
  obtain ⟨rest, hValue⟩ := valueAt_of_mem trail hNodup hp
  obtain ⟨bc, ac, hbc, hac, hAt⟩ := atKey_eq_some hd.members hValue
  refine ⟨bc, ac, rest, hbc, hac, fun b hb => head_valueAt hd.members hValue hb, ?_⟩
  rw [strstr_settingsDocument p.setting.key_mem hOk hd]
  exact hAt

/-- A search for the key of a setting that was not written finds nothing. -/
theorem strstr_of_absent {lead inner trail key : Bytes} {placed : List PlacedSetting}
    (hKey : key ∈ keyNames) (hOk : ∀ p ∈ placed, p.setting.Ok)
    (hd : (settingsDocument lead inner trail placed).Spaced)
    (hAbsent : ∀ p ∈ placed, p.setting.key ≠ key) :
    strstr (settingsDocument lead inner trail placed).text (quoted key) = none := by
  rw [strstr_settingsDocument hKey hOk hd]
  exact atKey_eq_none (valueAt_of_absent trail hAbsent)

/-! ## The array of readers -/

theorem ItemOk.bracket_notMem_text {i : Item} (hi : ItemOk i) : byte ']' ∉ i.text := by
  have hName : byte ']' ∉ quoted i.name := by
    simpa [quoted] using ⟨by decide, hi.bracket, by decide⟩
  simp only [Item.text, List.mem_append, not_or]
  exact ⟨hi.before.notMem (by decide), hName, hi.after.notMem (by decide)⟩

theorem strchr_itemsClosing {items : List Item} (rest : Bytes)
    (hItems : ∀ i ∈ items, ItemOk i) :
    strchr (itemsClosing items ++ rest) (byte ']') = some (byte ']' :: rest) := by
  induction items with
  | nil => exact strchr_cons_self _ _
  | cons i items ih =>
      have hi : ItemOk i := hItems i (by simp)
      rw [itemsClosing, List.cons_append, ← List.singleton_append,
        strchr_append_of_notMem _ (by decide), List.append_assoc,
        strchr_append_of_notMem _ hi.bracket_notMem_text]
      exact ih fun j hj => hItems j (by simp [hj])

theorem length_itemsClosing (items : List Item) (rest : Bytes) :
    (byte ']' :: rest).length ≤ (itemsClosing items ++ rest).length := by
  induction items with
  | nil => exact le_rfl
  | cons i items ih =>
      simp only [itemsClosing, List.cons_append, List.length_cons, List.append_assoc,
        List.length_append] at ih ⊢
      omega

/-- One element of the array is one pass of the loop. -/
theorem scanReaders_item {skipped : Bytes} {i : Item} (items : List Item) (rest : Bytes)
    (rows : Nat) (hSkipped : quote ∉ skipped) (hi : ItemOk i) :
    scanReaders (some (byte ']' :: rest)) (rows + 1)
        (skipped ++ (i.text ++ (itemsClosing items ++ rest))) =
      i.name :: scanReaders (some (byte ']' :: rest)) rows
        (i.after ++ (itemsClosing items ++ rest)) := by
  have hBefore : quote ∉ skipped ++ i.before := by
    simpa using ⟨hSkipped, hi.before.notMem (by decide)⟩
  have hLen : (byte ']' :: rest).length ≤
      (i.name ++ quote :: (i.after ++ (itemsClosing items ++ rest))).length := by
    have hClosing := length_itemsClosing items rest
    simp only [List.length_append, List.length_cons] at hClosing ⊢
    omega
  have hPass := scanReaders_name (byte ']' :: rest) (i.after ++ (itemsClosing items ++ rest)) rows
    hBefore hi.name.quote hLen
  have hTake : i.name.take 31 = i.name := List.take_of_length_le (by have := hi.name.length; omega)
  rw [hTake] at hPass
  rw [← hPass]
  congr 1
  simp [Item.text, quoted]

/-- The loop reads the names in order and stops at the bracket. -/
theorem scanReaders_itemsClosing {items : List Item} {skipped : Bytes} {rows : Nat}
    (rest : Bytes) (hSkipped : quote ∉ skipped) (hRows : items.length ≤ rows)
    (hItems : ∀ i ∈ items, ItemOk i) :
    scanReaders (some (byte ']' :: rest)) rows (skipped ++ (itemsClosing items ++ rest)) =
      items.map Item.name := by
  -- on the items; `skipped` is what lies between the last closing quote and the next item
  induction items generalizing skipped rows with
  | nil =>
      cases rows with
      | zero => rfl
      | succ rows =>
          have hPast : scanReaders (some (byte ']' :: rest)) (rows + 1) (byte ']' :: rest) = [] :=
            scanReaders_past _ le_rfl
          rw [scanReaders] at hPast ⊢
          rw [strchr_append_of_notMem _ hSkipped]
          exact hPast
  | cons i items ih =>
      have hi : ItemOk i := hItems i (by simp)
      rw [List.length_cons] at hRows
      obtain ⟨rows, rfl⟩ : ∃ r, rows = r + 1 := ⟨rows - 1, by omega⟩
      have hComma : quote ∉ skipped ++ [comma] := by
        simpa using ⟨hSkipped, by decide⟩
      have hPass := scanReaders_item items rest rows hComma hi
      rw [ih (hi.after.notMem (by decide)) (by omega) fun j hj => hItems j (by simp [hj])] at hPass
      rw [List.map_cons, ← hPass]
      congr 1
      simp [itemsClosing]

theorem loadReaders_of_array {json bc ac rest inner : Bytes} {items : List Item}
    (hAt : strstr json (quoted (ascii "readers")) =
      some (quoted (ascii "readers") ++
        (bc ++ colon :: (ac ++ ((Setting.readers inner items).value ++ rest)))))
    (hbc : IsWs bc) (hac : IsWs ac) (hOk : (Setting.readers inner items).Ok) :
    loadReaders json = items.map Item.name := by
  obtain ⟨hInner, hRows, hItems⟩ := hOk
  cases items with
  | nil =>
      have hClose : strchr (byte '[' :: (inner ++ byte ']' :: rest)) (byte ']') =
          some (byte ']' :: rest) := by
        rw [← List.singleton_append, strchr_append_of_notMem _ (by decide),
          strchr_append_of_notMem _ (hInner.notMem (by decide)), strchr_cons_self]
      have hLoop : scanReaders (some (byte ']' :: rest)) 16 (inner ++ (itemsClosing [] ++ rest)) =
          [].map Item.name :=
        scanReaders_itemsClosing rest (hInner.notMem (by decide)) hRows hItems
      simp only [Setting.value, List.cons_append, List.append_assoc, List.nil_append] at hAt
      rw [loadReaders_bracket (a := []) hAt hbc hac (by simp), hClose]
      simpa [itemsClosing] using hLoop
  | cons i items =>
      have hi : ItemOk i := hItems i (by simp)
      have hRest : ∀ j ∈ items, ItemOk j := fun j hj => hItems j (by simp [hj])
      have hClose : strchr (byte '[' :: (i.text ++ (itemsClosing items ++ rest))) (byte ']') =
          some (byte ']' :: rest) := by
        rw [← List.singleton_append, strchr_append_of_notMem _ (by decide),
          strchr_append_of_notMem _ hi.bracket_notMem_text, strchr_itemsClosing rest hRest]
      have hPass := scanReaders_item items rest 15 (show quote ∉ ([] : Bytes) by simp) hi
      have hRest15 : items.length ≤ 15 := by
        rw [List.length_cons] at hRows
        omega
      rw [scanReaders_itemsClosing rest (hi.after.notMem (by decide)) hRest15 hRest] at hPass
      simp only [Setting.value, List.cons_append, List.append_assoc] at hAt
      rw [loadReaders_bracket (a := []) hAt hbc hac (by simp), hClose]
      exact hPass

/-! ## The round trip -/

section RoundTrip

variable {lead inner trail : Bytes} {placed : List PlacedSetting}

theorem zero_notMem_value {s : Setting} (hs : s.Ok) : 0 ∉ s.value := by
  have hItem : ∀ i : Item, ItemOk i → 0 ∉ i.text := by
    intro i hi
    simp only [Item.text, List.mem_append, not_or]
    exact ⟨hi.before.notMem (by decide), zero_notMem_quoted hi.name.zero,
      hi.after.notMem (by decide)⟩
  have hClosing : ∀ items : List Item, (∀ i ∈ items, ItemOk i) → 0 ∉ itemsClosing items := by
    intro items hItems
    induction items with
    | nil => decide
    | cons i items ih =>
        have hRec := ih fun j hj => hItems j (by simp [hj])
        simpa [itemsClosing] using ⟨by decide, hItem i (hItems i (by simp)), hRec⟩
  cases s with
  | interval n =>
      intro hMem
      exact absurd (isdigit_of_mem_decimal hMem) (by decide)
  | text t s => exact zero_notMem_quoted hs.zero
  | readers inner items =>
      obtain ⟨hInner, -, hItems⟩ := hs
      cases items with
      | nil => simpa [Setting.value] using ⟨by decide, hInner.notMem (by decide), by decide⟩
      | cons i items =>
          simpa [Setting.value] using ⟨by decide, hItem i (hItems i (by simp)),
            hClosing items fun j hj => hItems j (by simp [hj])⟩

theorem cstr_settingsDocument (hOk : ∀ p ∈ placed, p.setting.Ok)
    (hd : (settingsDocument lead inner trail placed).Spaced) :
    cstr (settingsDocument lead inner trail placed).text =
      (settingsDocument lead inner trail placed).text := by
  apply cstr_eq_self
  apply Document.zero_notMem_text hd
  · intro m hm
    obtain ⟨p, -, rfl⟩ := List.mem_map.mp hm
    have hAll : ∀ k ∈ keyNames, 0 ∉ k := by decide
    exact hAll _ p.setting.key_mem
  · intro m hm
    obtain ⟨p, hp, rfl⟩ := List.mem_map.mp hm
    exact zero_notMem_value (hOk p hp)

/-- A lookup in the settings either names a setting that was written, or shows
that none with that key was. -/
theorem find_setting {β : Type} {pick : Setting → Option β} {key : Bytes}
    (hKey : ∀ s, pick s = none → s.key ≠ key) (placed : List PlacedSetting) :
    (∃ b, (placed.map PlacedSetting.setting).findSome? pick = some b ∧
        ∃ p ∈ placed, pick p.setting = some b) ∨
      ((placed.map PlacedSetting.setting).findSome? pick = none ∧
        ∀ p ∈ placed, p.setting.key ≠ key) := by
  cases hFind : (placed.map PlacedSetting.setting).findSome? pick with
  | some b =>
      obtain ⟨s, hMem, hs⟩ := List.exists_of_findSome?_eq_some hFind
      obtain ⟨p, hp, rfl⟩ := List.mem_map.mp hMem
      exact Or.inl ⟨b, rfl, p, hp, hs⟩
  | none =>
      refine Or.inr ⟨rfl, fun p hp => hKey _ ?_⟩
      exact List.findSome?_eq_none_iff.mp hFind _ (List.mem_map_of_mem hp)

theorem Setting.interval?_eq_some {s : Setting} {n : Nat} (h : s.interval? = some n) :
    s = .interval n := by
  cases s with
  | interval m => rw [Option.some.inj h]
  | text t s => simp [Setting.interval?] at h
  | readers inner items => simp [Setting.interval?] at h

theorem Setting.key_of_interval?_eq_none (s : Setting) (h : s.interval? = none) :
    s.key ≠ ascii "interval" := by
  cases s with
  | interval m => simp [Setting.interval?] at h
  | text t s =>
      show t.key ≠ ascii "interval"
      cases t <;> decide
  | readers inner items =>
      show ascii "readers" ≠ ascii "interval"
      decide

theorem Setting.text?_eq_some {t : TextField} {s : Setting} {v : Bytes}
    (h : s.text? t = some v) : s = .text t v := by
  cases s with
  | interval m => simp [Setting.text?] at h
  | text t' v' =>
      by_cases hEq : t' = t
      · simp only [Setting.text?, if_pos hEq, Option.some.injEq] at h
        rw [hEq, h]
      · simp [Setting.text?, hEq] at h
  | readers inner items => simp [Setting.text?] at h

theorem Setting.key_of_text?_eq_none (t : TextField) (s : Setting) (h : s.text? t = none) :
    s.key ≠ t.key := by
  cases s with
  | interval m =>
      show ascii "interval" ≠ t.key
      cases t <;> decide
  | text t' v =>
      have hne : t' ≠ t := fun hEq => by simp [Setting.text?, hEq] at h
      show t'.key ≠ t.key
      revert hne
      cases t' <;> cases t <;> decide
  | readers inner items =>
      show ascii "readers" ≠ t.key
      cases t <;> decide

theorem Setting.readers?_eq_some {s : Setting} {names : List Bytes}
    (h : s.readers? = some names) :
    ∃ inner items, s = .readers inner items ∧ names = items.map Item.name := by
  cases s with
  | interval m => simp [Setting.readers?] at h
  | text t s => simp [Setting.readers?] at h
  | readers inner items => exact ⟨inner, items, rfl, (Option.some.inj h).symm⟩

theorem Setting.key_of_readers?_eq_none (s : Setting) (h : s.readers? = none) :
    s.key ≠ ascii "readers" := by
  cases s with
  | interval m =>
      show ascii "interval" ≠ ascii "readers"
      decide
  | text t s =>
      show t.key ≠ ascii "readers"
      cases t <;> decide
  | readers inner items => simp [Setting.readers?] at h

theorem interval_roundTrip (hOk : ∀ p ∈ placed, p.setting.Ok)
    (hd : (settingsDocument lead inner trail placed).Spaced)
    (hNodup : (placed.map fun p => p.setting.key).Nodup) :
    (let n := extractInt (settingsDocument lead inner trail placed).text
        (quoted (ascii "interval")) 5
      if n < 1 then 5 else n) =
      (configOf (placed.map PlacedSetting.setting)).interval := by
  simp only [configOf]
  rcases find_setting Setting.key_of_interval?_eq_none placed with
    ⟨n, hFind, p, hp, hs⟩ | ⟨hFind, hAbsent⟩
  · have hSetting := Setting.interval?_eq_some hs
    obtain ⟨bc, ac, rest, hbc, hac, hHead, hAt⟩ := strstr_of_mem hOk hd hNodup hp
    have hp' := hOk p hp
    rw [hSetting] at hAt hp'
    obtain ⟨hLow, hHigh⟩ : 1 ≤ n ∧ n ≤ 2 ^ 31 - 1 := hp'
    have hDigits : ∃ b t, decimal n = b :: t ∧ isspace b = false := by
      obtain ⟨b, t, hCons⟩ := List.exists_cons_of_ne_nil (decimal_ne_nil n)
      have hb : b ∈ decimal n := hCons ▸ List.mem_cons_self
      exact ⟨b, t, hCons, not_isspace_of_isdigit (isdigit_of_mem_decimal hb)⟩
    -- the number ends with the value: white space, a comma or the brace follows
    have hRest : ∀ b, rest.head? = some b → isdigit b = false := by
      intro b hb
      rcases hHead b hb with hWs | rfl | rfl
      · exact isdigit_of_isWs hWs
      · decide
      · decide
    have hInt : extractInt (settingsDocument lead inner trail placed).text
        (quoted (ascii "interval")) 5 = atoi (decimal n) :=
      extractInt_at_key hAt hbc hac hDigits hRest
    rw [atoi_decimal (by omega)] at hInt
    simp only [hInt, hFind, Option.map_some, Option.getD_some, Int.ofNat_eq_natCast]
    exact if_neg (by omega)
  · have hNone := strstr_of_absent (by decide) hOk hd hAbsent
    simp only [extractInt, hNone, hFind]
    rfl

theorem text_roundTrip (t : TextField) (hOk : ∀ p ∈ placed, p.setting.Ok)
    (hd : (settingsDocument lead inner trail placed).Spaced)
    (hNodup : (placed.map fun p => p.setting.key).Nodup) :
    extractString (settingsDocument lead inner trail placed).text (quoted t.key)
        (CollectConfig.defaults.text t) t.size =
      (configOf (placed.map PlacedSetting.setting)).text t := by
  have hText : (configOf (placed.map PlacedSetting.setting)).text t =
      ((placed.map PlacedSetting.setting).findSome? (Setting.text? t)).getD
        (CollectConfig.defaults.text t) := by
    cases t <;> rfl
  rw [hText]
  rcases find_setting (Setting.key_of_text?_eq_none t) placed with
    ⟨v, hFind, p, hp, hs⟩ | ⟨hFind, hAbsent⟩
  · have hSetting := Setting.text?_eq_some hs
    obtain ⟨bc, ac, rest, hbc, hac, -, hAt⟩ := strstr_of_mem hOk hd hNodup hp
    have hp' := hOk p hp
    rw [hSetting] at hAt hp'
    have hv : TextOk t.size v := hp'
    have hOpen : strstr (settingsDocument lead inner trail placed).text (quoted t.key) =
        some (quoted t.key ++
          (bc ++ colon :: (ac ++ ([] ++ quote :: (v ++ [quote]) ++ rest)))) := hAt
    have hScan : extractString (settingsDocument lead inner trail placed).text (quoted t.key)
        (CollectConfig.defaults.text t) t.size =
          ((v ++ [quote]).takeWhile (· ≠ quote)).take (t.size - 1) :=
      extractString_at_key hOpen hbc hac List.not_mem_nil (by simp)
    have hRun : (v ++ [quote]).takeWhile (· ≠ quote) = v := by
      rw [takeWhile_append_of_head _ _ (by simp), List.takeWhile_eq_self_iff]
      intro b hb
      simpa using fun hEq : b = quote => hv.quote (hEq ▸ hb)
    rw [hRun, List.take_of_length_le (by have := hv.length; omega)] at hScan
    rw [hFind, Option.getD_some]
    exact hScan
  · have hKey : t.key ∈ keyNames := by cases t <;> decide
    have hNone := strstr_of_absent hKey hOk hd hAbsent
    simp only [extractString, hNone, hFind, Option.getD_none]

theorem readers_roundTrip (hOk : ∀ p ∈ placed, p.setting.Ok)
    (hd : (settingsDocument lead inner trail placed).Spaced)
    (hNodup : (placed.map fun p => p.setting.key).Nodup) :
    loadReaders (settingsDocument lead inner trail placed).text =
      (configOf (placed.map PlacedSetting.setting)).readers := by
  simp only [configOf]
  rcases find_setting Setting.key_of_readers?_eq_none placed with
    ⟨names, hFind, p, hp, hs⟩ | ⟨hFind, hAbsent⟩
  · obtain ⟨ws, items, hSetting, rfl⟩ := Setting.readers?_eq_some hs
    obtain ⟨bc, ac, rest, hbc, hac, -, hAt⟩ := strstr_of_mem hOk hd hNodup hp
    have hp' := hOk p hp
    rw [hSetting] at hAt hp'
    rw [hFind, Option.getD_some]
    exact loadReaders_of_array hAt hbc hac hp'
  · have hNone := strstr_of_absent (by decide) hOk hd hAbsent
    simp only [loadReaders, hNone, hFind]
    rfl

end RoundTrip

/-- **Configuration round trip.**  Any of the six members, in any order and with
any white space between the tokens, are read back exactly, and an absent member
leaves its default. -/
theorem configLoad_settingsDocument {lead inner trail : Bytes} {placed : List PlacedSetting}
    (hOk : ∀ p ∈ placed, p.setting.Ok)
    (hSpaced : (settingsDocument lead inner trail placed).Spaced)
    (hNodup : (placed.map fun p => p.setting.key).Nodup) :
    configLoad (some (settingsDocument lead inner trail placed).text) =
      (0, configOf (placed.map PlacedSetting.setting)) := by
  have hInterval := interval_roundTrip hOk hSpaced hNodup
  have hText := fun t => text_roundTrip t hOk hSpaced hNodup
  have hReaders := readers_roundTrip hOk hSpaced hNodup
  unfold configLoad
  simp only [cstr_settingsDocument hOk hSpaced]
  refine Prod.ext rfl ?_
  rw [CollectConfig.ext_iff]
  exact ⟨hInterval, hText .datadir, hText .host, hText .rrdcached, hText .metricsAddr, hReaders⟩

/-- `"readers" : [ "cpu","df"],"interval":10,"hostname":"a:[b,c]"` in braces. -/
def sampleSettings : List PlacedSetting :=
  [{ before := [], beforeColon := [32], afterColon := [32], after := []
     setting := .readers [] [⟨[32], ascii "cpu", []⟩, ⟨[], ascii "df", []⟩] },
   { before := [], beforeColon := [], afterColon := [], after := [], setting := .interval 10 },
   { before := [10], beforeColon := [], afterColon := [], after := [10]
     setting := .text .host (ascii "a:[b,c]") }]

theorem sampleSettings_ok : ∀ p ∈ sampleSettings, p.setting.Ok := by
  have hItem : ∀ name ∈ [ascii "cpu", ascii "df"], TextOk 32 name ∧ byte ']' ∉ name := by
    intro name hName
    simp only [List.mem_cons, List.not_mem_nil, or_false] at hName
    rcases hName with rfl | rfl <;>
      exact ⟨⟨by decide, by decide, by decide, by decide, by decide⟩, by decide⟩
  simp only [sampleSettings, List.forall_mem_cons, Setting.Ok]
  refine ⟨⟨by decide, by decide, ?_, ?_, by simp⟩, by decide, ?_, by simp⟩
  · exact ⟨by decide, by decide, (hItem _ (by simp)).1, (hItem _ (by simp)).2⟩
  · exact ⟨by decide, by decide, (hItem _ (by simp)).1, (hItem _ (by simp)).2⟩
  · exact ⟨by decide, by decide, by decide, by decide, by decide⟩

theorem configLoad_sampleSettings :
    configLoad (some (settingsDocument [] [] [10] sampleSettings).text) =
      (0, { CollectConfig.defaults with
        interval := 10, host := ascii "a:[b,c]", readers := [ascii "cpu", ascii "df"] }) := by
  apply configLoad_settingsDocument sampleSettings_ok
  · refine ⟨by decide, by decide, ?_, by decide⟩
    simp only [settingsDocument, sampleSettings, List.map_cons, List.forall_mem_cons]
    refine ⟨?_, ?_, ?_, by simp⟩ <;> exact ⟨by decide, by decide, by decide, by decide⟩
  · decide

end Config
end SvgdCollect
