import SvgdCollect.Config

/-!
# What the scan reads for one field

The scan behaves as a parser would when it finds the right key first and the
right value behind it.  This module says so for each kind of field, on a text
split at the key: `intervalOf`, `stringOf` and `readersOf` are what a field is
set to as a function of the text of its own member's value.

The string scan stays inside a value that holds a string, and the `readers` loop
stays inside a value that holds an array whose quotes pair up; otherwise both
run on into whatever follows.
-/

namespace SvgdCollect
namespace Config

open Lib Json

/-! ## The string fields -/

/-- The four string fields. -/
inductive TextField
  | datadir
  | host
  | rrdcached
  | metricsAddr
  deriving DecidableEq

/-- The member a string field is read from. -/
def TextField.key : TextField → Bytes
  | .datadir => ascii "datadir"
  | .host => ascii "hostname"
  | .rrdcached => ascii "rrdcached_addr"
  | .metricsAddr => ascii "metrics_addr"

/-- The size of the array that holds a string field. -/
def TextField.size : TextField → Nat
  | .datadir => 4096
  | .host => 128
  | .rrdcached => 256
  | .metricsAddr => 128

def CollectConfig.text (c : CollectConfig) : TextField → Bytes
  | .datadir => c.datadir
  | .host => c.host
  | .rrdcached => c.rrdcached
  | .metricsAddr => c.metricsAddr

/-- All four are read by the same scan. -/
theorem text_configLoad (content : Bytes) (t : TextField) :
    (configLoad (some content)).2.text t =
      extractString (cstr content) (quoted t.key) (CollectConfig.defaults.text t) t.size := by
  cases t <;> rfl

/-! ## The fields as functions of their own member -/

/-- `interval` from the text of its value. -/
def intervalOf : Option Bytes → Int
  | none => 5
  | some v => if atoi v < 1 then 5 else atoi v

/-- A string field of `n` bytes from the text of its value: what stands between
the first two quotes, cut to the field. -/
def stringOf (n : Nat) (dflt : Bytes) : Option Bytes → Bytes
  | none => dflt
  | some v =>
      match strchr v quote with
      | none => dflt
      | some p => ((p.drop 1).takeWhile (· ≠ quote)).take (n - 1)

/-- `readers` from the text of its value. -/
def readersOf : Option Bytes → List Bytes
  | none => []
  | some v =>
      match strchr v (byte '[') with
      | none => []
      | some lb => scanReaders (strchr lb (byte ']')) 16 (lb.drop 1)

/-! ## The scan at a key -/

theorem strchr_append_some {s r : Bytes} {c : Byte} (h : strchr s c = some r) (rest : Bytes) :
    strchr (s ++ rest) c = some (r ++ rest) := by
  obtain ⟨skipped, t, hSkipped, rfl, rfl⟩ := strchr_eq_some h
  rw [List.append_assoc, strchr_append_of_notMem _ hSkipped, List.cons_append, strchr_cons_self]

section AtKey

variable {json key bc ac v rest : Bytes}

/-- Behind the key the scan finds the colon of the member. -/
theorem strchr_colon_afterKey (hbc : IsWs bc) (t : Bytes) :
    strchr ((quoted key ++ (bc ++ colon :: t)).drop (quoted key).length) colon =
      some (colon :: t) := by
  rw [List.drop_left, strchr_append_of_notMem _ (hbc.notMem (by decide)), strchr_cons_self]

theorem extractInt_at_key {dflt : Int}
    (hAt : strstr json (quoted key) =
      some (quoted key ++ (bc ++ colon :: (ac ++ (v ++ rest)))))
    (hbc : IsWs bc) (hac : IsWs ac) (hv : ∃ b t, v = b :: t ∧ isspace b = false)
    (hRest : ∀ b, rest.head? = some b → isdigit b = false) :
    extractInt json (quoted key) dflt = atoi v := by
  obtain ⟨b, t, rfl, hb⟩ := hv
  simp only [extractInt, hAt, strchr_colon_afterKey hbc, List.drop_one, List.tail_cons]
  apply atoi_in_context
  · intro c hc
    exact isWs_isspace (hac c hc)
  · simp
  · intro c hc
    rw [← Option.some.inj hc]
    exact hb
  · exact hRest

/-- The text before the first `c`, given by the length of the suffix there. -/
theorem take_of_strchr {s e : Bytes} {c : Byte} (h : strchr s c = some e) :
    s.take (s.length - e.length) = s.takeWhile (· ≠ c) := by
  obtain ⟨skipped, t, hSkipped, rfl, rfl⟩ := strchr_eq_some h
  have hRun : (skipped ++ c :: t).takeWhile (· ≠ c) = skipped := by
    rw [takeWhile_append_of_head]
    · rw [List.takeWhile_eq_self_iff]
      intro b hb
      simpa using fun hbc : b = c => hSkipped (hbc ▸ hb)
    · intro b hb
      simp [← Option.some.inj hb]
  rw [hRun]
  simp

theorem take_cut (s : Bytes) (len n : Nat) :
    s.take (if len ≥ n then n - 1 else len) = (s.take len).take (n - 1) := by
  rw [List.take_take]
  congr 1
  split <;> omega

/-- A value with a quote and another one behind it holds the whole string. -/
theorem extractString_at_key {out skipped t : Bytes} {n : Nat}
    (hAt : strstr json (quoted key) =
      some (quoted key ++ (bc ++ colon :: (ac ++ (skipped ++ quote :: t ++ rest)))))
    (hbc : IsWs bc) (hac : IsWs ac) (hSkipped : quote ∉ skipped) (hClosed : quote ∈ t) :
    extractString json (quoted key) out n = (t.takeWhile (· ≠ quote)).take (n - 1) := by
  have hOpen : strchr (ac ++ (skipped ++ quote :: t ++ rest)) quote =
      some (quote :: (t ++ rest)) := by
    rw [strchr_append_of_notMem _ (hac.notMem (by decide)), List.append_assoc,
      strchr_append_of_notMem _ hSkipped, List.cons_append, strchr_cons_self]
  simp only [extractString, hAt, strchr_colon_afterKey hbc, List.drop_one, List.tail_cons, hOpen]
  cases hClose : strchr t quote with
  | none => exact absurd hClosed (strchr_eq_none_iff.mp hClose)
  | some e =>
      simp only [strchr_append_some hClose]
      rw [take_cut, ← take_of_strchr hClose]
      obtain ⟨skipped', t', -, -, rfl⟩ := strchr_eq_some hClose
      congr 1
      simp

/-- Without a quote behind the colon the buffer keeps its content. -/
theorem extractString_of_no_quote {out : Bytes} {n : Nat}
    (hAt : strstr json (quoted key) =
      some (quoted key ++ (bc ++ colon :: (ac ++ (v ++ rest)))))
    (hbc : IsWs bc) (hac : IsWs ac) (hNone : quote ∉ v ++ rest) :
    extractString json (quoted key) out n = out := by
  have hOpen : strchr (ac ++ (v ++ rest)) quote = none := by
    rw [strchr_append_of_notMem _ (hac.notMem (by decide)), strchr_eq_none_iff]
    exact hNone
  simp only [extractString, hAt, strchr_colon_afterKey hbc, List.drop_one, List.tail_cons, hOpen]

end AtKey

/-! ## The readers loop -/

/-- Past the array bound the loop stops. -/
theorem scanReaders_past {rb cur : Bytes} (rows : Nat) (h : cur.length ≤ rb.length) :
    scanReaders (some rb) rows cur = [] := by
  cases rows with
  | zero => rfl
  | succ rows =>
      rw [scanReaders]
      cases hq : strchr cur quote with
      | none => rfl
      | some q1 =>
          obtain ⟨skipped, t, -, -, hSplit⟩ := strchr_eq_some hq
          have hLen : q1.length ≤ rb.length := by
            rw [hSplit, List.length_append] at h
            omega
          simp [hLen]

/-- One pass of the loop in front of the bound. -/
theorem scanReaders_name {skipped name : Bytes} (rb rest : Bytes) (rows : Nat)
    (hSkipped : quote ∉ skipped) (hName : quote ∉ name)
    (hLen : rb.length ≤ (name ++ quote :: rest).length) :
    scanReaders (some rb) (rows + 1) (skipped ++ quote :: (name ++ quote :: rest)) =
      name.take 31 :: scanReaders (some rb) rows rest := by
  have hBound : ¬ (quote :: (name ++ quote :: rest)).length ≤ rb.length := by
    rw [List.length_cons]
    omega
  rw [scanReaders, strchr_append_of_notMem _ hSkipped, strchr_cons_self]
  simp only [Option.any_some, decide_eq_false hBound, Bool.false_eq_true, if_false,
    List.drop_one, List.tail_cons, strchr_append_of_notMem _ hName, strchr_cons_self]
  have hTake : (quote :: (name ++ quote :: rest)).length - (quote :: rest).length - 1 =
      name.length := by
    simp only [List.length_cons, List.length_append]
    omega
  rw [hTake, take_cut, List.take_left]

/-- The loop reads the same names whatever follows the value, if the quotes in
front of the bound pair up or the last of them is closed inside the value. -/
theorem scanReaders_append (rows : Nat) (rest : Bytes) {b c : Bytes}
    (h : b.count quote % 2 = 0 ∨ quote ∈ c) :
    scanReaders (some (byte ']' :: c ++ rest)) rows (b ++ byte ']' :: c ++ rest) =
      scanReaders (some (byte ']' :: c)) rows (b ++ byte ']' :: c) := by
  induction rows generalizing b with
  | zero => rfl
  | succ rows ih =>
      cases hFirst : strchr b quote with
      | none =>
          -- no quote is left in front of the bound
          have hb := strchr_eq_none_iff.mp hFirst
          have hSkip : ∀ rb t : Bytes, scanReaders (some rb) (rows + 1) (b ++ t) =
              scanReaders (some rb) (rows + 1) t := by
            intro rb t
            rw [scanReaders, scanReaders, strchr_append_of_notMem _ hb]
          rw [List.append_assoc, hSkip, hSkip, scanReaders_past _ le_rfl,
            scanReaders_past _ le_rfl]
      | some q1 =>
          obtain ⟨skipped, b1, hSkipped, rfl, rfl⟩ := strchr_eq_some hFirst
          cases hSecond : strchr b1 quote with
          | some q2 =>
              obtain ⟨name, b2, hName, rfl, rfl⟩ := strchr_eq_some hSecond
              have hCount : b2.count quote % 2 = 0 ∨ quote ∈ c := by
                simp only [List.count_append, List.count_cons_self,
                  List.count_eq_zero_of_not_mem hSkipped,
                  List.count_eq_zero_of_not_mem hName] at h
                exact h.imp (fun h => by omega) id
              have hRec := ih hCount
              simp only [List.append_assoc, List.cons_append] at hRec ⊢
              rw [scanReaders_name _ _ rows hSkipped hName (by simp; omega),
                scanReaders_name _ _ rows hSkipped hName (by simp; omega), hRec]
          | none =>
              -- the quote before the bound is closed behind it, and the loop ends
              have hb1 := strchr_eq_none_iff.mp hSecond
              have hc : quote ∈ c := by
                rcases h with h | h
                · rw [List.count_append, List.count_eq_zero_of_not_mem hSkipped,
                    List.count_cons_self, List.count_eq_zero_of_not_mem hb1] at h
                  omega
                · exact h
              cases hClose : strchr c quote with
              | none => exact absurd hc (strchr_eq_none_iff.mp hClose)
              | some q2 =>
                  obtain ⟨name, c2, hName, rfl, rfl⟩ := strchr_eq_some hClose
                  have hb1' : quote ∉ b1 ++ byte ']' :: name := by
                    simpa using ⟨hb1, by decide, hName⟩
                  have hLeft := scanReaders_name (byte ']' :: (name ++ quote :: c2) ++ rest)
                    (c2 ++ rest) rows hSkipped hb1' (by simp)
                  have hRight := scanReaders_name (byte ']' :: (name ++ quote :: c2)) c2
                    rows hSkipped hb1' (by simp)
                  simp only [List.append_assoc, List.cons_append] at hLeft hRight ⊢
                  rw [hLeft, hRight, scanReaders_past _ (by simp; omega),
                    scanReaders_past _ (by simp; omega)]

/-- The loop starts at the first bracket behind the key. -/
theorem loadReaders_bracket {json bc ac a t : Bytes}
    (hAt : strstr json (quoted (ascii "readers")) =
      some (quoted (ascii "readers") ++ (bc ++ colon :: (ac ++ (a ++ byte '[' :: t)))))
    (hbc : IsWs bc) (hac : IsWs ac) (ha : byte '[' ∉ a) :
    loadReaders json = scanReaders (strchr (byte '[' :: t) (byte ']')) 16 t := by
  have hKey : byte '[' ∉ quoted (ascii "readers") := by decide
  have hOpen : strchr (quoted (ascii "readers") ++
      (bc ++ colon :: (ac ++ (a ++ byte '[' :: t)))) (byte '[') = some (byte '[' :: t) := by
    rw [strchr_append_of_notMem _ hKey, strchr_append_of_notMem _ (hbc.notMem (by decide)),
      ← List.singleton_append, strchr_append_of_notMem _ (by decide),
      strchr_append_of_notMem _ (hac.notMem (by decide)), strchr_append_of_notMem _ ha,
      strchr_cons_self]
  simp only [loadReaders, hAt, hOpen, List.drop_one, List.tail_cons]

/-- A value in which the scan finds an array stops the `readers` loop. -/
theorem loadReaders_at_key {json bc ac a b c rest : Bytes}
    (hAt : strstr json (quoted (ascii "readers")) =
      some (quoted (ascii "readers") ++
        (bc ++ colon :: (ac ++ (a ++ byte '[' :: (b ++ byte ']' :: c) ++ rest)))))
    (hbc : IsWs bc) (hac : IsWs ac) (ha : byte '[' ∉ a) (hb : byte ']' ∉ b)
    (hQuotes : b.count quote % 2 = 0 ∨ quote ∈ c) :
    loadReaders json = readersOf (some (a ++ byte '[' :: (b ++ byte ']' :: c))) := by
  have hClose : ∀ t, strchr (byte '[' :: (b ++ byte ']' :: t)) (byte ']') =
      some (byte ']' :: t) := by
    intro t
    rw [← List.singleton_append, strchr_append_of_notMem _ (by decide),
      strchr_append_of_notMem _ hb, strchr_cons_self]
  simp only [List.append_assoc, List.cons_append] at hAt
  rw [loadReaders_bracket hAt hbc hac ha]
  simp only [readersOf, hClose, strchr_append_of_notMem _ ha, strchr_cons_self, List.drop_one,
    List.tail_cons]
  have hLoop := scanReaders_append 16 rest hQuotes
  simpa only [List.append_assoc, List.cons_append] using hLoop

theorem loadReaders_of_no_bracket {json bc ac v rest : Bytes}
    (hAt : strstr json (quoted (ascii "readers")) =
      some (quoted (ascii "readers") ++ (bc ++ colon :: (ac ++ (v ++ rest)))))
    (hbc : IsWs bc) (hac : IsWs ac) (hNone : byte '[' ∉ v ++ rest) :
    loadReaders json = [] := by
  have hKey : byte '[' ∉ quoted (ascii "readers") := by decide
  have hOpen : strchr (quoted (ascii "readers") ++
      (bc ++ colon :: (ac ++ (v ++ rest)))) (byte '[') = none := by
    rw [strchr_append_of_notMem _ hKey, strchr_append_of_notMem _ (hbc.notMem (by decide)),
      ← List.singleton_append, strchr_append_of_notMem _ (by decide),
      strchr_append_of_notMem _ (hac.notMem (by decide)), strchr_eq_none_iff]
    exact hNone
  simp only [loadReaders, hAt, hOpen]

end Config
end SvgdCollect
