import SvgdCollect.Lib.Cells
import SvgdCollect.Config.Fields
import Mathlib.Data.List.Forall2

/-!
# Loading the configuration in memory

The model of `config_load` on strings takes for granted that the scan stays inside its
buffer and that every copy stays inside its array.  Here the function is read once more,
over the cells of the buffer and of `collect_config_t`, with a check at every access.
For every content of the file it has a result, which is the configuration of the model on
strings, and it does not look behind the first NUL of the buffer.
-/

namespace SvgdCollect
namespace Config

open Lib Json

/-! ## The code -/

/-- `collect_config_t` as its arrays; `readers` has one entry for each row. -/
structure ConfigCells where
  interval : Int
  datadir : Bytes
  host : Bytes
  rrdcached : Bytes
  metricsAddr : Bytes
  readers : List Bytes
  readersCount : Nat

def ConfigCells.text (c : ConfigCells) : TextField → Bytes
  | .datadir => c.datadir
  | .host => c.host
  | .rrdcached => c.rrdcached
  | .metricsAddr => c.metricsAddr

/-- The arrays have their declared sizes. -/
structure ConfigCells.Sized (c : ConfigCells) : Prop where
  text : ∀ t, (c.text t).length = t.size
  rows : c.readers.length = 16
  row : ∀ r ∈ c.readers, r.length = 32

/-- `extract_string`. -/
def extractStringCells (json key out : Bytes) (n : Nat) : Option Bytes := do
  match ← strstrCells json key with
  | none => some out
  | some p =>
      let p ← advance p key.length
      match ← strchrCells p colon with
      | none => some out
      | some p =>
          let p ← advance p 1
          match ← strchrCells p quote with
          | none => some out
          | some p =>
              let p ← advance p 1
              match ← strchrCells p quote with
              | none => some out
              | some e =>
                  let len ← lengthSub p.length e.length
                  let len := if len ≥ n then n - 1 else len
                  copyText p len out

/-- `extract_int`. -/
def extractIntCells (json key : Bytes) (dflt : Int) : Option Int := do
  match ← strstrCells json key with
  | none => some dflt
  | some p =>
      let p ← advance p key.length
      match ← strchrCells p colon with
      | none => some dflt
      | some p =>
          let p ← advance p 1
          atoiCells p

/-- The loop over the `readers` array: the rows and `readers_count`, with the number of
rows that are left. -/
def scanReadersCells (rb : Option Bytes) : Nat → Bytes → List Bytes → Nat →
    Option (List Bytes × Nat)
  | 0, _, rows, count => some (rows, count)
  | left + 1, cur, rows, count => do
      match ← strchrCells cur quote with
      | none => some (rows, count)
      | some q1 =>
          if (rb.any fun rb => q1.length ≤ rb.length) then some (rows, count)
          else
            let p ← advance q1 1
            match ← strchrCells p quote with
            | none => some (rows, count)
            | some q2 =>
                let len ← lengthSub q1.length q2.length
                let len ← lengthSub len 1
                let len := if len ≥ 32 then 31 else len
                let row ← rows[count]?
                let row ← copyText p len row
                let cur ← advance q2 1
                scanReadersCells rb left cur (rows.set count row) (count + 1)

/-- The `readers` part of `config_load`. -/
def loadReadersCells (json : Bytes) (rows : List Bytes) : Option (List Bytes × Nat) := do
  match ← strstrCells json (quoted (ascii "readers")) with
  | none => some (rows, 0)
  | some rp =>
      match ← strchrCells rp (byte '[') with
      | none => some (rows, 0)
      | some lb =>
          let rb ← strchrCells lb (byte ']')
          let cur ← advance lb 1
          scanReadersCells rb 16 cur rows 0

/-- The defaults, which `config_load` stores before it opens the file. -/
def storeDefaults (c : ConfigCells) : Option ConfigCells := do
  let datadir ← poke c.datadir 0 (snprintfCells 4096 (ascii "/var/lib/svgd-collect/rrd"))
  let host ← poke c.host 0 (snprintfCells 128 (ascii "localhost"))
  let rrdcached ← poke c.rrdcached 0 [0]
  let metricsAddr ← poke c.metricsAddr 0 [0]
  some { c with
    interval := 5, datadir := datadir, host := host, rrdcached := rrdcached,
    metricsAddr := metricsAddr, readersCount := 0 }

/-- What `config_load` does with the buffer. -/
def scanConfig (c : ConfigCells) (buf : Bytes) : Option ConfigCells := do
  let interval ← extractIntCells buf (quoted (ascii "interval")) c.interval
  let datadir ← extractStringCells buf (quoted (ascii "datadir")) c.datadir 4096
  let host ← extractStringCells buf (quoted (ascii "hostname")) c.host 128
  let rrdcached ← extractStringCells buf (quoted (ascii "rrdcached_addr")) c.rrdcached 256
  let metricsAddr ← extractStringCells buf (quoted (ascii "metrics_addr")) c.metricsAddr 128
  let (readers, readersCount) ← loadReadersCells buf c.readers
  some
    { interval := if interval < 1 then 5 else interval
      datadir := datadir
      host := host
      rrdcached := rrdcached
      metricsAddr := metricsAddr
      readers := readers
      readersCount := readersCount }

/-- `config_load` over the arrays of the caller's structure.  The buffer holds the content
of the file and a NUL. -/
def configLoadCells (c : ConfigCells) (file : Option Bytes) : Option (Int × ConfigCells) := do
  let c ← storeDefaults c
  match file with
  | none => some (-1, c)
  | some content =>
      let c ← scanConfig c (content ++ [0])
      some (0, c)

/-! ## The arrays hold the strings -/

/-- The arrays hold the strings of the configuration with their NULs. -/
structure Represents (cells : ConfigCells) (c : CollectConfig) : Prop where
  interval : cells.interval = c.interval
  text : ∀ t, HoldsText (cells.text t) (c.text t)
  count : cells.readersCount = c.readers.length
  readers : List.Forall₂ HoldsText (cells.readers.take cells.readersCount) c.readers

theorem storeDefaults_represents {c : ConfigCells} (hc : c.Sized) :
    ∃ c', storeDefaults c = some c' ∧ c'.Sized ∧ Represents c' CollectConfig.defaults := by
  have hStore : ∀ t : TextField, ∃ buf,
      poke (c.text t) 0 (CollectConfig.defaults.text t ++ [0]) = some buf ∧
        buf.length = (c.text t).length ∧ HoldsText buf (CollectConfig.defaults.text t) := by
    intro t
    apply poke_text
    rw [hc.text t]
    cases t <;> decide
  obtain ⟨datadir, hDatadir, hDatadirSize, hDatadirHolds⟩ := hStore .datadir
  obtain ⟨host, hHost, hHostSize, hHostHolds⟩ := hStore .host
  obtain ⟨rrdcached, hRrdcached, hRrdcachedSize, hRrdcachedHolds⟩ := hStore .rrdcached
  obtain ⟨metricsAddr, hMetricsAddr, hMetricsAddrSize, hMetricsAddrHolds⟩ := hStore .metricsAddr
  refine ⟨⟨5, datadir, host, rrdcached, metricsAddr, c.readers, 0⟩, ?_, ⟨?_, hc.rows, hc.row⟩,
    rfl, ?_, rfl, List.Forall₂.nil⟩
  · rw [storeDefaults, snprintfCells_of_lt (by decide), snprintfCells_of_lt (by decide)]
    simp only [ConfigCells.text, CollectConfig.text, CollectConfig.defaults, List.nil_append]
      at hDatadir hHost hRrdcached hMetricsAddr
    rw [hDatadir, hHost, hRrdcached, hMetricsAddr]
    rfl
  · intro t
    cases t with
    | datadir => exact hDatadirSize.trans (hc.text .datadir)
    | host => exact hHostSize.trans (hc.text .host)
    | rrdcached => exact hRrdcachedSize.trans (hc.text .rrdcached)
    | metricsAddr => exact hMetricsAddrSize.trans (hc.text .metricsAddr)
  · intro t
    cases t with
    | datadir => exact hDatadirHolds
    | host => exact hHostHolds
    | rrdcached => exact hRrdcachedHolds
    | metricsAddr => exact hMetricsAddrHolds

/-! ## The scan inside the buffer -/

section Scan

variable {s : Bytes}

theorem zero_notMem_of_append {front rest : Bytes} (h : 0 ∉ front ++ rest) : 0 ∉ rest :=
  fun hMem => h (List.mem_append_right front hMem)

/-- A search for a byte behind a pointer, and the pointer behind it. -/
theorem strchrCells_cases (hs : 0 ∉ s) {c : Byte} (hc : c ≠ 0) :
    (strchr s c = none ∧ ∀ rest, strchrCells (s ++ 0 :: rest) c = some none) ∨
      ∃ skipped t, s = skipped ++ c :: t ∧ c ∉ skipped ∧ 0 ∉ t ∧ strchr s c = some (c :: t) ∧
        ∀ rest, strchrCells (s ++ 0 :: rest) c = some (some (c :: t ++ 0 :: rest)) := by
  cases hFound : strchr s c with
  | none =>
      refine Or.inl ⟨rfl, ?_⟩
      intro rest
      rw [strchrCells_eq rest hc hs, hFound, Option.map_none]
  | some r =>
      obtain ⟨skipped, t, hSkipped, rfl, rfl⟩ := strchr_eq_some hFound
      have ht : 0 ∉ t := fun hMem => zero_notMem_of_append hs (List.mem_cons_of_mem c hMem)
      refine Or.inr ⟨skipped, t, rfl, hSkipped, ht, rfl, ?_⟩
      intro rest
      rw [strchrCells_eq rest hc hs, hFound, Option.map_some]

/-- A search for a key, and the pointer behind it. -/
theorem strstrCells_cases (hs : 0 ∉ s) {key : Bytes} (hNonempty : key ≠ []) (hKey : 0 ∉ key) :
    (strstr s key = none ∧ ∀ rest, strstrCells (s ++ 0 :: rest) key = some none) ∨
      ∃ t, 0 ∉ t ∧ strstr s key = some (key ++ t) ∧
        ∀ rest, strstrCells (s ++ 0 :: rest) key = some (some (key ++ t ++ 0 :: rest)) := by
  cases hFound : strstr s key with
  | none =>
      refine Or.inl ⟨rfl, ?_⟩
      intro rest
      rw [strstrCells_eq rest hNonempty hKey hs, hFound, Option.map_none]
  | some r =>
      obtain ⟨skipped, t, rfl, rfl⟩ := strstr_eq_some hFound
      have ht : 0 ∉ t := zero_notMem_of_append (zero_notMem_of_append hs)
      refine Or.inr ⟨t, ht, rfl, ?_⟩
      intro rest
      rw [strstrCells_eq rest hNonempty hKey hs, hFound, Option.map_some]

theorem advance_key (key t rest : Bytes) :
    advance (key ++ t ++ rest) key.length = some (t ++ rest) := by
  rw [List.append_assoc, advance, if_pos (by simp), List.drop_left]

theorem advance_cons (c : Byte) (t rest : Bytes) :
    advance (c :: t ++ rest) 1 = some (t ++ rest) := rfl

theorem extractIntCells_eq (hs : 0 ∉ s) {key : Bytes} (hNonempty : key ≠ []) (hKey : 0 ∉ key)
    (dflt : Int) (rest : Bytes) :
    extractIntCells (s ++ 0 :: rest) key dflt = some (extractInt s key dflt) := by
  rw [extractIntCells, extractInt]
  rcases strstrCells_cases hs hNonempty hKey with ⟨hNone, hCells⟩ | ⟨t, ht, hSome, hCells⟩
  · rw [hNone, hCells]
    rfl
  · rw [hSome, hCells]
    simp only [Option.bind_eq_bind, Option.bind_some, advance_key, List.drop_left]
    rcases strchrCells_cases ht (by decide : colon ≠ 0) with
      ⟨hNone, hCells⟩ | ⟨skipped, v, -, -, -, hSome, hCells⟩
    · rw [hNone, hCells]
      rfl
    · rw [hSome, hCells]
      exact atoiCells_eq rest

/-- A string field is copied into its array with its NUL. -/
theorem extractStringCells_eq (hs : 0 ∉ s) {key : Bytes} (hNonempty : key ≠ []) (hKey : 0 ∉ key)
    {out text : Bytes} {n : Nat} (hOut : out.length = n) (hn : 0 < n) (hText : HoldsText out text) :
    ∃ out', (∀ rest, extractStringCells (s ++ 0 :: rest) key out n = some out') ∧
      out'.length = n ∧ HoldsText out' (extractString s key text n) := by
  simp only [extractStringCells, extractString]
  rcases strstrCells_cases hs hNonempty hKey with ⟨hNone, hCells⟩ | ⟨t, ht, hSome, hCells⟩
  · simp only [hNone, hCells]
    exact ⟨out, fun _ => rfl, hOut, hText⟩
  simp only [hSome, hCells, Option.bind_eq_bind, Option.bind_some, advance_key, List.drop_left]
  rcases strchrCells_cases ht (by decide : colon ≠ 0) with
    ⟨hNone, hCells⟩ | ⟨_, v, -, -, hv, hSome, hCells⟩
  · simp only [hNone, hCells]
    exact ⟨out, fun _ => rfl, hOut, hText⟩
  simp only [hSome, hCells, Option.bind_some, advance_cons, List.drop_one,
    List.tail_cons]
  rcases strchrCells_cases hv (by decide : quote ≠ 0) with
    ⟨hNone, hCells⟩ | ⟨_, p, -, -, hp, hSome, hCells⟩
  · simp only [hNone, hCells]
    exact ⟨out, fun _ => rfl, hOut, hText⟩
  simp only [hSome, hCells, Option.bind_some, advance_cons, List.tail_cons]
  rcases strchrCells_cases hp (by decide : quote ≠ 0) with
    ⟨hNone, hCells⟩ | ⟨name, e, hSplit, -, -, hSome, hCells⟩
  · simp only [hNone, hCells]
    exact ⟨out, fun _ => rfl, hOut, hText⟩
  simp only [hSome, hCells, Option.bind_some]
  have hLe : (quote :: e).length ≤ p.length := by
    rw [hSplit, List.length_append]
    omega
  have hSub : ∀ rest : Bytes, lengthSub (p ++ 0 :: rest).length (quote :: e ++ 0 :: rest).length =
      some (p.length - (quote :: e).length) := by
    intro rest
    simp only [lengthSub, List.length_append]
    rw [if_pos (by omega), Nat.add_sub_add_right]
  simp only [hSub, Option.bind_some]
  obtain ⟨out', hCopy, hLength, hHolds⟩ := @copyText_eq_some p out
    (if p.length - (quote :: e).length ≥ n then n - 1 else p.length - (quote :: e).length)
    (by split <;> omega) (by split <;> omega)
  exact ⟨out', fun rest => hCopy (0 :: rest), hLength.trans hOut, hHolds⟩

/-- The comparison of two pointers does not depend on what follows the NUL. -/
theorem any_length_append (rb : Option Bytes) (q1 t : Bytes) :
    ((rb.map (· ++ t)).any fun rb => (q1 ++ t).length ≤ rb.length) =
      rb.any fun rb => q1.length ≤ rb.length := by
  cases rb with
  | none => rfl
  | some rb => simp

/-- One row more is in use. -/
theorem forall₂_take_set {rows names : List Bytes} {count : Nat} {row name : Bytes}
    (hCount : count < rows.length) (hNames : List.Forall₂ HoldsText (rows.take count) names)
    (hRow : HoldsText row name) :
    List.Forall₂ HoldsText ((rows.set count row).take (count + 1)) (names ++ [name]) := by
  have hTake : (rows.set count row).take (count + 1) = rows.take count ++ [row] := by
    rw [List.take_add_one, List.take_set_of_le le_rfl, List.getElem?_set_self hCount]
    rfl
  rw [hTake]
  exact List.rel_append hNames (List.Forall₂.cons hRow List.Forall₂.nil)

/-- One pass of the loop that finds a name. -/
theorem scanReadersCells_name {p t : Bytes} {cur : Bytes} (rb : Option Bytes) (left : Nat)
    {rows : List Bytes} {count : Nat} (hCount : count < rows.length)
    (hRow : ∀ r ∈ rows, r.length = 32)
    (hOpen : ∀ rest, strchrCells (cur ++ 0 :: rest) quote = some (some (quote :: p ++ 0 :: rest)))
    (hBound : ¬ (rb.any fun rb => (quote :: p).length ≤ rb.length) = true)
    (hClose : ∀ rest, strchrCells (p ++ 0 :: rest) quote = some (some (quote :: t ++ 0 :: rest)))
    (hLe : (quote :: t).length ≤ p.length) :
    ∃ row, row.length = 32 ∧
      HoldsText row (p.take (if (quote :: p).length - (quote :: t).length - 1 ≥ 32 then 31
        else (quote :: p).length - (quote :: t).length - 1)) ∧
      ∀ rest, scanReadersCells (rb.map (· ++ 0 :: rest)) (left + 1) (cur ++ 0 :: rest) rows count =
        scanReadersCells (rb.map (· ++ 0 :: rest)) left (t ++ 0 :: rest) (rows.set count row)
          (count + 1) := by
  generalize hLen : (quote :: p).length - (quote :: t).length = len
  have hSub : ∀ rest : Bytes, lengthSub (quote :: p ++ 0 :: rest).length
      (quote :: t ++ 0 :: rest).length = some len := by
    intro rest
    have hMore : (quote :: t).length ≤ (quote :: p).length := Nat.le_succ_of_le hLe
    rw [lengthSub, List.length_append, List.length_append, if_pos (by omega),
      Nat.add_sub_add_right, hLen]
  have hPos : 1 ≤ len := by
    rw [← hLen, List.length_cons]
    omega
  have hLenLe : len - 1 ≤ p.length := by
    rw [← hLen, List.length_cons]
    omega
  obtain ⟨row, hRowAt, hRowLength⟩ : ∃ row, rows[count]? = some row ∧ row.length = 32 :=
    ⟨_, List.getElem?_eq_getElem hCount, hRow _ (List.getElem_mem hCount)⟩
  obtain ⟨row', hCopy, hRowLength', hHolds⟩ := @copyText_eq_some p row
    (if len - 1 ≥ 32 then 31 else len - 1) (by split <;> omega) (by split <;> omega)
  refine ⟨row', hRowLength'.trans hRowLength, hHolds, ?_⟩
  intro rest
  have hSubOne : lengthSub len 1 = some (len - 1) := by
    rw [lengthSub, if_pos hPos]
  simp only [scanReadersCells, hOpen, hClose, hSub, hSubOne, hRowAt, hCopy, any_length_append,
    if_neg hBound, Option.bind_eq_bind, Option.bind_some, advance_cons]

/-- The loop fills the rows one after the other.  `left` rows are free, so the row it
writes to exists. -/
theorem scanReadersCells_eq {left : Nat} {cur : Bytes} (hcur : 0 ∉ cur) (rb : Option Bytes)
    {rows names : List Bytes} {count : Nat} (hRows : count + left = rows.length)
    (hRow : ∀ r ∈ rows, r.length = 32)
    (hNames : List.Forall₂ HoldsText (rows.take count) names) :
    ∃ rows' count', (∀ rest, scanReadersCells (rb.map (· ++ 0 :: rest)) left (cur ++ 0 :: rest)
        rows count = some (rows', count')) ∧
      rows'.length = rows.length ∧ (∀ r ∈ rows', r.length = 32) ∧ count' ≤ rows.length ∧
      List.Forall₂ HoldsText (rows'.take count') (names ++ scanReaders rb left cur) := by
  have hCountLe : count ≤ rows.length := by omega
  induction left generalizing cur rows names count with
  | zero =>
      refine ⟨rows, count, fun _ => rfl, rfl, hRow, hCountLe, ?_⟩
      rwa [scanReaders, List.append_nil]
  | succ left ih =>
      have hStop : List.Forall₂ HoldsText (rows.take count) (names ++ []) := by
        rwa [List.append_nil]
      rw [scanReaders]
      rcases strchrCells_cases hcur (by decide : quote ≠ 0) with
        ⟨hNone, hCells⟩ | ⟨_, p, -, -, hp, hSome, hOpen⟩
      · simp only [scanReadersCells, hNone, hCells]
        exact ⟨rows, count, fun _ => rfl, rfl, hRow, hCountLe, hStop⟩
      by_cases hBound : (rb.any fun rb => (quote :: p).length ≤ rb.length) = true
      · simp only [scanReadersCells, hSome, hOpen, Option.bind_eq_bind, Option.bind_some,
          any_length_append, if_pos hBound]
        exact ⟨rows, count, fun _ => rfl, rfl, hRow, hCountLe, hStop⟩
      rcases strchrCells_cases hp (by decide : quote ≠ 0) with
        ⟨hNone, hCells⟩ | ⟨name, t, hSplit, -, ht, hSecond, hClose⟩
      · simp only [scanReadersCells, hSome, hOpen, Option.bind_eq_bind, Option.bind_some,
          any_length_append, if_neg hBound, advance_cons, List.drop_one,
          List.tail_cons, hNone, hCells]
        exact ⟨rows, count, fun _ => rfl, rfl, hRow, hCountLe, hStop⟩
      have hLe : (quote :: t).length ≤ p.length := by
        rw [hSplit, List.length_append]
        omega
      have hCount : count < rows.length := by omega
      obtain ⟨row, hRowLength, hHolds, hStep⟩ :=
        scanReadersCells_name rb left hCount hRow hOpen hBound hClose hLe
      have hRow' : ∀ r ∈ rows.set count row, r.length = 32 := by
        intro r hr
        rcases List.mem_or_eq_of_mem_set hr with hOld | rfl
        · exact hRow r hOld
        · exact hRowLength
      obtain ⟨rows', count', hRun, hLength, hRows', hUsed, hFinal⟩ :=
        @ih t ht (rows.set count row) _ (count + 1) (by rw [List.length_set]; omega) hRow'
          (forall₂_take_set hCount hNames hHolds) (by rwa [List.length_set])
      rw [List.length_set] at hLength hUsed
      refine ⟨rows', count', fun rest => (hStep rest).trans (hRun rest), hLength, hRows', hUsed, ?_⟩
      simp only [hSome, if_neg hBound, List.drop_one, List.tail_cons, hSecond]
      rwa [List.append_assoc] at hFinal

theorem loadReadersCells_eq (hs : 0 ∉ s) {rows : List Bytes} (hRows : rows.length = 16)
    (hRow : ∀ r ∈ rows, r.length = 32) :
    ∃ rows' count, (∀ rest, loadReadersCells (s ++ 0 :: rest) rows = some (rows', count)) ∧
      rows'.length = 16 ∧ (∀ r ∈ rows', r.length = 32) ∧ count = (loadReaders s).length ∧
      List.Forall₂ HoldsText (rows'.take count) (loadReaders s) := by
  simp only [loadReadersCells, loadReaders]
  rcases strstrCells_cases hs (by decide) (by decide : 0 ∉ quoted (ascii "readers")) with
    ⟨hNone, hCells⟩ | ⟨t, ht, hSome, hCells⟩
  · simp only [hNone, hCells]
    exact ⟨rows, 0, fun _ => rfl, hRows, hRow, rfl, List.Forall₂.nil⟩
  have hKey : 0 ∉ quoted (ascii "readers") ++ t := by
    simpa using ⟨(by decide : 0 ∉ quoted (ascii "readers")), ht⟩
  simp only [hSome, hCells, Option.bind_eq_bind, Option.bind_some]
  rcases strchrCells_cases hKey (by decide : byte '[' ≠ 0) with
    ⟨hNone, hCells⟩ | ⟨_, after, hSplit, -, hAfter, hSome, hCells⟩
  · simp only [hNone, hCells]
    exact ⟨rows, 0, fun _ => rfl, hRows, hRow, rfl, List.Forall₂.nil⟩
  have hBracket : 0 ∉ byte '[' :: after := zero_notMem_of_append (hSplit ▸ hKey)
  simp only [hSome, hCells, Option.bind_some, strchrCells_eq _ (by decide : byte ']' ≠ 0) hBracket,
    advance_cons, List.drop_one, List.tail_cons]
  obtain ⟨rows', count, hRun, hLength, hRow', hUsed, hHolds⟩ :=
    scanReadersCells_eq hAfter (strchr (byte '[' :: after) (byte ']'))
      (by rw [hRows] : 0 + 16 = rows.length) hRow List.Forall₂.nil
  refine ⟨rows', count, hRun, hLength.trans hRows, hRow', ?_, hHolds⟩
  have hNames := hHolds.length_eq
  rwa [List.length_take_of_le (hLength.symm ▸ hUsed), List.nil_append] at hNames

/-- Whatever follows its first NUL, the buffer yields the configuration of the string. -/
theorem scanConfig_represents {c : ConfigCells} (hc : c.Sized)
    (hDefaults : Represents c CollectConfig.defaults) (content : Bytes) :
    ∃ c', (∀ rest, scanConfig c (cstr content ++ 0 :: rest) = some c') ∧ c'.Sized ∧
      Represents c' (configLoad (some content)).2 := by
  have hs : 0 ∉ cstr content := zero_notMem_cstr content
  have hField : ∀ t : TextField, ∃ out,
      (∀ rest, extractStringCells (cstr content ++ 0 :: rest) (quoted t.key) (c.text t) t.size =
        some out) ∧ out.length = t.size ∧
        HoldsText out ((configLoad (some content)).2.text t) := by
    intro t
    rw [text_configLoad]
    apply extractStringCells_eq hs _ _ (hc.text t) _ (hDefaults.text t)
    all_goals cases t <;> decide
  obtain ⟨datadir, hDatadir, hDatadirSize, hDatadirHolds⟩ := hField .datadir
  obtain ⟨host, hHost, hHostSize, hHostHolds⟩ := hField .host
  obtain ⟨rrdcached, hRrdcached, hRrdcachedSize, hRrdcachedHolds⟩ := hField .rrdcached
  obtain ⟨metricsAddr, hMetricsAddr, hMetricsAddrSize, hMetricsAddrHolds⟩ := hField .metricsAddr
  obtain ⟨rows, count, hReaders, hRows, hRow, hCount, hNames⟩ := loadReadersCells_eq hs hc.rows hc.row
  refine ⟨⟨(configLoad (some content)).2.interval, datadir, host, rrdcached, metricsAddr, rows,
    count⟩, ?_, ⟨?_, hRows, hRow⟩, rfl, ?_, hCount, hNames⟩
  · intro rest
    have hInterval := @extractIntCells_eq _ hs (quoted (ascii "interval")) (by decide) (by decide)
      CollectConfig.defaults.interval rest
    simp only [ConfigCells.text, TextField.key, TextField.size]
      at hDatadir hHost hRrdcached hMetricsAddr
    simp only [scanConfig, hDatadir, hHost, hRrdcached, hMetricsAddr, hReaders,
      hDefaults.interval, hInterval, Option.bind_eq_bind, Option.bind_some]
    rfl
  · intro t
    cases t with
    | datadir => exact hDatadirSize
    | host => exact hHostSize
    | rrdcached => exact hRrdcachedSize
    | metricsAddr => exact hMetricsAddrSize
  · intro t
    cases t with
    | datadir => exact hDatadirHolds
    | host => exact hHostHolds
    | rrdcached => exact hRrdcachedHolds
    | metricsAddr => exact hMetricsAddrHolds

end Scan

/-! ## What the strings hold -/

/-- Neither a quote nor a NUL. -/
def Plain (s : Bytes) : Prop := quote ∉ s ∧ 0 ∉ s

instance (s : Bytes) : Decidable (Plain s) := inferInstanceAs (Decidable (_ ∧ _))

theorem Plain.take {s : Bytes} (h : Plain s) (n : Nat) : Plain (s.take n) :=
  ⟨fun hMem => h.1 (List.mem_of_mem_take hMem), fun hMem => h.2 (List.mem_of_mem_take hMem)⟩

/-- What is read for a string field stands between two quotes. -/
theorem plain_extractString {s key out : Bytes} {n : Nat} (hs : 0 ∉ s) (hOut : Plain out) :
    Plain (extractString s key out n) := by
  rw [extractString]
  cases hKey : strstr s key with
  | none => exact hOut
  | some p =>
      obtain ⟨front, t, rfl, rfl⟩ := strstr_eq_some hKey
      simp only [List.drop_left]
      cases hColon : strchr t colon with
      | none => exact hOut
      | some r =>
          obtain ⟨_, v, -, rfl, rfl⟩ := strchr_eq_some hColon
          simp only [List.drop_one, List.tail_cons]
          cases hOpen : strchr v quote with
          | none => exact hOut
          | some r =>
              obtain ⟨_, p, -, rfl, rfl⟩ := strchr_eq_some hOpen
              simp only [List.tail_cons]
              cases hClose : strchr p quote with
              | none => exact hOut
              | some r =>
                  obtain ⟨name, e, hName, rfl, rfl⟩ := strchr_eq_some hClose
                  change Plain ((name ++ quote :: e).take
                    (if (name ++ quote :: e).length - (quote :: e).length ≥ n then n - 1
                      else (name ++ quote :: e).length - (quote :: e).length))
                  rw [take_cut, List.length_append, Nat.add_sub_cancel, List.take_left]
                  have hZero : 0 ∉ name := fun hMem => hs (by simp [hMem])
                  exact (Plain.take ⟨hName, hZero⟩ _)

/-- Successive pieces of a text between two quotes each. -/
inductive QuotedPieces : Bytes → List Bytes → Prop
  | nil (t : Bytes) : QuotedPieces t []
  | cons {skipped name rest : Bytes} {names : List Bytes} (hSkipped : quote ∉ skipped)
      (hName : quote ∉ name) (hRest : QuotedPieces rest names) :
      QuotedPieces (skipped ++ quote :: (name ++ quote :: rest)) (name :: names)

theorem scanReaders_pieces (rb : Option Bytes) (rows : Nat) (cur : Bytes) :
    ∃ pieces, scanReaders rb rows cur = pieces.map (·.take 31) ∧ pieces.length ≤ rows ∧
      QuotedPieces cur pieces := by
  induction rows generalizing cur with
  | zero => exact ⟨[], rfl, le_rfl, QuotedPieces.nil cur⟩
  | succ rows ih =>
      have hStop : ∃ pieces, [] = pieces.map (fun piece : Bytes => piece.take 31) ∧
          pieces.length ≤ rows + 1 ∧ QuotedPieces cur pieces :=
        ⟨[], rfl, Nat.zero_le _, QuotedPieces.nil cur⟩
      rw [scanReaders]
      cases hOpen : strchr cur quote with
      | none => exact hStop
      | some q1 =>
          obtain ⟨skipped, p, hSkipped, rfl, rfl⟩ := strchr_eq_some hOpen
          simp only [List.drop_one, List.tail_cons]
          split
          · exact hStop
          · cases hClose : strchr p quote with
            | none => exact hStop
            | some q2 =>
                obtain ⟨name, t, hName, rfl, rfl⟩ := strchr_eq_some hClose
                obtain ⟨pieces, hScan, hLength, hPieces⟩ := ih t
                refine ⟨name :: pieces, ?_, Nat.succ_le_succ hLength,
                  QuotedPieces.cons hSkipped hName hPieces⟩
                have hLen : (quote :: (name ++ quote :: t)).length - (quote :: t).length - 1 =
                    name.length := by
                  simp only [List.length_cons, List.length_append]
                  omega
                simp only [hLen, List.tail_cons]
                rw [take_cut, List.take_left, List.map_cons, hScan]

theorem QuotedPieces.plain {t : Bytes} {pieces : List Bytes} (h : QuotedPieces t pieces)
    (ht : 0 ∉ t) : ∀ piece ∈ pieces, Plain piece := by
  induction h with
  | nil => simp
  | @cons skipped name rest names _ hName _ ih =>
      intro piece hPiece
      rcases List.mem_cons.mp hPiece with rfl | hPiece
      · exact ⟨hName, fun hMem => ht (by simp [hMem])⟩
      · exact ih (fun hMem => ht (by simp [hMem])) piece hPiece

/-- The names are pieces of what follows the first bracket behind the key. -/
theorem loadReaders_pieces (s : Bytes) :
    ∃ pieces, loadReaders s = pieces.map (·.take 31) ∧ pieces.length ≤ 16 ∧
      (pieces ≠ [] → ∃ between after,
        strstr s (quoted (ascii "readers")) =
          some (quoted (ascii "readers") ++ (between ++ byte '[' :: after)) ∧
        byte '[' ∉ between ∧ QuotedPieces after pieces) := by
  rw [loadReaders]
  cases hKey : strstr s (quoted (ascii "readers")) with
  | none => exact ⟨[], rfl, Nat.zero_le _, fun h => absurd rfl h⟩
  | some rp =>
      obtain ⟨_, t, -, rfl⟩ := strstr_eq_some hKey
      simp only [strchr_append_of_notMem t (by decide : byte '[' ∉ quoted (ascii "readers"))]
      cases hBracket : strchr t (byte '[') with
      | none => exact ⟨[], rfl, Nat.zero_le _, fun h => absurd rfl h⟩
      | some lb =>
          obtain ⟨between, after, hBetween, rfl, rfl⟩ := strchr_eq_some hBracket
          obtain ⟨pieces, hScan, hLength, hPieces⟩ :=
            scanReaders_pieces (strchr (byte '[' :: after) (byte ']')) 16 after
          exact ⟨pieces, hScan, hLength, fun _ => ⟨between, after, rfl, hBetween, hPieces⟩⟩

theorem plain_text_configLoad (file : Option Bytes) (t : TextField) :
    Plain ((configLoad file).2.text t) := by
  have hDefault : Plain (CollectConfig.defaults.text t) := by
    cases t <;> decide
  cases file with
  | none => exact hDefault
  | some content =>
      rw [text_configLoad]
      exact plain_extractString (zero_notMem_cstr content) hDefault

theorem one_le_interval_configLoad (file : Option Bytes) : 1 ≤ (configLoad file).2.interval := by
  cases file with
  | none => decide
  | some content =>
      simp only [configLoad]
      split <;> omega

theorem readers_configLoad_pieces (file : Option Bytes) :
    ∃ pieces, (configLoad file).2.readers = pieces.map (·.take 31) ∧ pieces.length ≤ 16 ∧
      (∀ piece ∈ pieces, Plain piece) ∧
      (pieces ≠ [] → ∃ content between after, file = some content ∧
        strstr (cstr content) (quoted (ascii "readers")) =
          some (quoted (ascii "readers") ++ (between ++ byte '[' :: after)) ∧
        byte '[' ∉ between ∧ QuotedPieces after pieces) := by
  cases file with
  | none => exact ⟨[], rfl, Nat.zero_le _, by simp, fun h => absurd rfl h⟩
  | some content =>
      obtain ⟨pieces, hNames, hLength, hPieces⟩ := loadReaders_pieces (cstr content)
      refine ⟨pieces, hNames, hLength, ?_, ?_⟩
      · intro piece hPiece
        obtain ⟨between, after, hKey, -, hQuoted⟩ := hPieces (List.ne_nil_of_mem hPiece)
        obtain ⟨front, _, hText, -⟩ := strstr_eq_some hKey
        apply hQuoted.plain _ piece hPiece
        intro hMem
        apply zero_notMem_cstr content
        rw [hText]
        simp [hMem]
      · intro hNe
        obtain ⟨between, after, hKey, hBetween, hQuoted⟩ := hPieces hNe
        exact ⟨content, between, after, rfl, hKey, hBetween, hQuoted⟩

/-! ## Safety -/

theorem configLoadCells_represents {c d : ConfigCells} (hStore : storeDefaults c = some d)
    (hd : d.Sized) (hDefaults : Represents d CollectConfig.defaults) (file : Option Bytes) :
    ∃ c', configLoadCells c file = some ((configLoad file).1, c') ∧
      (∀ content, file = some content →
        ∀ rest, scanConfig d (cstr content ++ 0 :: rest) = some c') ∧
      c'.Sized ∧ Represents c' (configLoad file).2 := by
  cases file with
  | none =>
      refine ⟨d, ?_, by simp, hd, hDefaults⟩
      rw [configLoadCells, hStore]
      rfl
  | some content =>
      obtain ⟨c', hScan, hSized, hRep⟩ := scanConfig_represents hd hDefaults content
      obtain ⟨rest, hBuf⟩ := exists_cstr_append content
      refine ⟨c', ?_, ?_, hSized, hRep⟩
      · simp only [configLoadCells, hStore, hBuf, hScan, Option.bind_eq_bind, Option.bind_some]
        rfl
      · intro content' hContent
        rw [← Option.some.inj hContent]
        exact hScan

/-- For every structure of the caller and every content of the file there is a result: no
access leaves the buffer or an array, and the buffer is not read behind its first NUL.
The arrays hold the configuration of the model on strings: an interval of at least 1, at
most 16 readers, strings without quotes that end inside their arrays, and as names of the
readers successive pieces between quotes, cut to 31 bytes, of the text behind the first
bracket after the key. -/
theorem configLoadCells_safe {c : ConfigCells} (hc : c.Sized) (file : Option Bytes) :
    ∃ d c', storeDefaults c = some d ∧ configLoadCells c file = some ((configLoad file).1, c') ∧
      (∀ content, file = some content →
        ∀ rest, scanConfig d (cstr content ++ 0 :: rest) = some c') ∧
      c'.Sized ∧ Represents c' (configLoad file).2 ∧
      1 ≤ c'.interval ∧ c'.readersCount ≤ 16 ∧
      (∀ t, ∃ text, HoldsText (c'.text t) text ∧ quote ∉ text ∧ 0 ∉ text) ∧
      ∃ pieces, List.Forall₂
          (fun row piece => HoldsText row (piece.take 31) ∧ quote ∉ piece ∧ 0 ∉ piece)
          (c'.readers.take c'.readersCount) pieces ∧
        (pieces ≠ [] → ∃ content between after, file = some content ∧
          strstr (cstr content) (quoted (ascii "readers")) =
            some (quoted (ascii "readers") ++ (between ++ byte '[' :: after)) ∧
          byte '[' ∉ between ∧ QuotedPieces after pieces) := by
  obtain ⟨d, hStore, hd, hDefaults⟩ := storeDefaults_represents hc
  obtain ⟨c', hRun, hScan, hSized, hRep⟩ := configLoadCells_represents hStore hd hDefaults file
  obtain ⟨pieces, hNames, hLength, hPlain, hPieces⟩ := readers_configLoad_pieces file
  refine ⟨d, c', hStore, hRun, hScan, hSized, hRep, ?_, ?_, ?_, pieces, ?_, hPieces⟩
  · rw [hRep.interval]
    exact one_le_interval_configLoad file
  · rwa [hRep.count, hNames, List.length_map]
  · intro t
    exact ⟨_, hRep.text t, plain_text_configLoad file t⟩
  · have hRows := hRep.readers
    rw [hNames, List.forall₂_map_right_iff] at hRows
    have hBoth := (List.forall₂_and_left _ _).mpr ⟨hPlain, List.Forall₂.flip hRows⟩
    exact (List.Forall₂.flip hBoth).imp fun row piece h => ⟨h.2, h.1⟩

/-- A structure of zeros, and a file whose `readers` array is not closed. -/
theorem configLoadCells_of_open_array :
    ∃ c', configLoadCells
        ⟨0, List.replicate 4096 0, List.replicate 128 0, List.replicate 256 0,
          List.replicate 128 0, List.replicate 16 (List.replicate 32 0), 0⟩
        (some (ascii "\"readers\": [\"cpu\", \"load")) = some (0, c') ∧
      c'.readersCount = 1 := by
  obtain ⟨d, c', -, hRun, -, -, hRep, -⟩ := @configLoadCells_safe
    ⟨0, List.replicate 4096 0, List.replicate 128 0, List.replicate 256 0, List.replicate 128 0,
      List.replicate 16 (List.replicate 32 0), 0⟩
    ⟨by intro t; cases t <;> exact List.length_replicate, List.length_replicate, by
      intro r hr
      rw [List.eq_of_mem_replicate hr, List.length_replicate]⟩
    (some (ascii "\"readers\": [\"cpu\", \"load"))
  refine ⟨c', hRun, ?_⟩
  rw [hRep.count]
  decide

end Config
end SvgdCollect
