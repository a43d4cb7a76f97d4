import SvgdCollect.Lib.Numerals
import SvgdCollect.Metric

/-!
# RRD paths

`path.c` builds the collectd layout of a metric's RRD file with `snprintf` into a
buffer of `n` bytes.  The model keeps the bytes that are written, the terminating
NULs included, and the offset at which the next piece goes.
-/

namespace SvgdCollect

open Lib

def slash : Byte := byte '/'

def dash : Byte := byte '-'

/-- A name with an optional instance behind a dash. -/
def dashed (name : Bytes) : Option Bytes → Bytes
  | none => name
  | some inst => name ++ dash :: inst

/-- The test behind every `snprintf` of `path.c`: the result is negative, or the text was
cut to the size.  The first call has no test of its own for -1, but as a `size_t` that
result is at least as large as every `n`. -/
def snprintfFailed (size : Nat) (text : Bytes) : Bool :=
  decide (snprintfReturn text < 0) || decide (text.length ≥ size)

/-- `append_seg`: the new content of `out`, and the new offset unless the segment
was cut. -/
def appendSeg (out : Bytes) (n off : Nat) (a : Bytes) (b : Option Bytes) :
    Bytes × Option Nat :=
  let text := slash :: dashed a b
  let out := out.take off ++ snprintfCells (n - off) text
  if snprintfFailed (n - off) text then (out, none) else (out, some (off + text.length))

/-- `metric_to_path`: the return code and the bytes written to `out`.  A call of `snprintf`
whose result is no `int` leaves what the C library has written by then: the text cut to
the size, as any other text that is too long. -/
def metricToPath {D : Type} (n : Nat) (base host : Bytes) (m : Metric D) : Int × Bytes :=
  if n = 0 then (-1, [])
  else
    let text := base ++ slash :: host
    let out := snprintfCells n text
    let off := text.length
    if snprintfFailed n text then (-1, out)
    else
      match appendSeg out n off m.plugin m.pluginInstance with
      | (out, none) => (-1, out)
      | (out, some off) =>
          -- `fname[256]`
          let file := dashed m.type m.typeInstance ++ ascii ".rrd"
          if snprintfFailed 256 file then (-1, out)
          else
            let text := slash :: file
            let out := out.take off ++ snprintfCells (n - off) text
            if snprintfFailed (n - off) text then (-1, out) else (0, out)

theorem snprintfFailed_iff {size : Nat} {text : Bytes} :
    snprintfFailed size text = true ↔ 2 ^ 31 ≤ text.length ∨ size ≤ text.length := by
  rw [snprintfFailed, snprintfReturn, Bool.or_eq_true, decide_eq_true_iff, decide_eq_true_iff]
  split <;> omega

theorem not_snprintfFailed_iff {size : Nat} {text : Bytes} :
    ¬ snprintfFailed size text = true ↔ text.length < 2 ^ 31 ∧ text.length < size := by
  rw [snprintfFailed_iff]
  omega

/-- The path of a metric in full. -/
def fullPath {D : Type} (base host : Bytes) (m : Metric D) : Bytes :=
  base ++ slash :: (host ++ slash :: (dashed m.plugin m.pluginInstance ++
    slash :: (dashed m.type m.typeInstance ++ ascii ".rrd")))

/-- A name without a dash and its instance are told apart. -/
theorem dashed_inj {name name' : Bytes} {inst inst' : Option Bytes} (hName : dash ∉ name)
    (hName' : dash ∉ name') (h : dashed name inst = dashed name' inst') :
    name = name' ∧ inst = inst' := by
  cases inst with
  | none =>
      cases inst' with
      | none => exact ⟨h, rfl⟩
      | some s' =>
          rw [dashed] at h
          exact absurd (by rw [h, dashed]; simp) hName
  | some s =>
      cases inst' with
      | none =>
          rw [dashed, dashed] at h
          exact absurd (by rw [← h]; simp) hName'
      | some s' =>
          obtain ⟨rfl, rfl⟩ := append_cons_inj hName hName' h
          exact ⟨rfl, rfl⟩

theorem slash_notMem_dashed_iff {name : Bytes} {inst : Option Bytes} (h : slash ∉ name) :
    slash ∉ dashed name inst ↔ ∀ s ∈ inst, slash ∉ s := by
  have hDash : slash ≠ dash := by decide
  cases inst with
  | none => simp [dashed, h]
  | some s => simp [dashed, h, hDash]

theorem take_length_concat (s t : Bytes) (b : Byte) :
    (s ++ (t ++ [b])).take (s.length + t.length) = s ++ t := by
  rw [← List.append_assoc, ← List.length_append, List.take_left]

/-- A path that was built without truncation is the full path. -/
theorem metricToPath_eq_zero {D : Type} {n : Nat} {base host out : Bytes} {m : Metric D}
    (h : metricToPath n base host m = (0, out)) : out = fullPath base host m ++ [0] := by
  -- each of the three writes fits, or the code is -1; the next one starts at the NUL
  unfold metricToPath at h
  by_cases hn : n = 0
  · simp [hn] at h
  rw [if_neg hn] at h
  by_cases hBase : snprintfFailed n (base ++ slash :: host) = true
  · simp only [if_pos hBase, Prod.mk.injEq] at h
    omega
  simp only [if_neg hBase] at h
  have hFirst := snprintfCells_of_lt (not_snprintfFailed_iff.mp hBase).2
  unfold appendSeg at h
  by_cases hSeg : snprintfFailed (n - (base ++ slash :: host).length)
      (slash :: dashed m.plugin m.pluginInstance) = true
  · simp only [if_pos hSeg, Prod.mk.injEq] at h
    omega
  simp only [if_neg hSeg] at h
  have hSecond := snprintfCells_of_lt (not_snprintfFailed_iff.mp hSeg).2
  by_cases hFile : snprintfFailed 256 (dashed m.type m.typeInstance ++ ascii ".rrd") = true
  · simp only [if_pos hFile, Prod.mk.injEq] at h
    omega
  simp only [if_neg hFile] at h
  split at h
  · simp at h
  · rename_i hLast
    have hThird := snprintfCells_of_lt (not_snprintfFailed_iff.mp hLast).2
    simp only [Prod.mk.injEq, true_and] at h
    rw [hThird, hSecond, hFirst, List.take_left, take_length_concat] at h
    rw [← h]
    simp [fullPath]

theorem length_fullPath {D : Type} (base host : Bytes) (m : Metric D) :
    (fullPath base host m).length = (base ++ slash :: host).length +
      ((slash :: dashed m.plugin m.pluginInstance).length +
        (slash :: (dashed m.type m.typeInstance ++ ascii ".rrd")).length) := by
  simp only [fullPath, List.length_append, List.length_cons]
  omega

/-! ## When a path is built -/

/-- The first two texts are short enough for the `int` that `snprintf` returns.  The file
name is shorter than 256 bytes, and so is the last text. -/
structure IntTexts {D : Type} (base host : Bytes) (m : Metric D) : Prop where
  base : (base ++ slash :: host).length < 2 ^ 31
  plugin : (slash :: dashed m.plugin m.pluginInstance).length < 2 ^ 31

instance {D : Type} (base host : Bytes) (m : Metric D) : Decidable (IntTexts base host m) :=
  decidable_of_iff ((base ++ slash :: host).length < 2 ^ 31 ∧
      (slash :: dashed m.plugin m.pluginInstance).length < 2 ^ 31)
    ⟨fun h => ⟨h.1, h.2⟩, fun h => ⟨h.1, h.2⟩⟩

/-- A path that is shorter than 2^31 bytes has no text that is too long for an `int`. -/
theorem intTexts_of_lt {D : Type} {base host : Bytes} {m : Metric D}
    (h : (fullPath base host m).length < 2 ^ 31) : IntTexts base host m := by
  rw [length_fullPath] at h
  exact ⟨by omega, by omega⟩

theorem metricToPath_rc {D : Type} {n : Nat} (hn : 1 ≤ n) (base host : Bytes) (m : Metric D) :
    (metricToPath n base host m).1 =
      if (dashed m.type m.typeInstance ++ ascii ".rrd").length < 256 ∧
        (fullPath base host m).length < n ∧ IntTexts base host m then 0 else -1 := by
  have hLength := length_fullPath base host m
  unfold metricToPath appendSeg
  rw [if_neg (by omega)]
  -- each of the four tests fails for lengths with which the whole path does not fit
  by_cases hBase : snprintfFailed n (base ++ slash :: host) = true
  · have hLong := snprintfFailed_iff.mp hBase
    rw [if_neg (show ¬ (_ ∧ _) from fun h => by have := h.2.2.base; omega)]
    simp only [if_pos hBase]
  by_cases hSeg : snprintfFailed (n - (base ++ slash :: host).length)
      (slash :: dashed m.plugin m.pluginInstance) = true
  · have hLong := snprintfFailed_iff.mp hSeg
    rw [if_neg (show ¬ (_ ∧ _) from fun h => by have := h.2.2.plugin; omega)]
    simp only [if_neg hBase, if_pos hSeg]
  by_cases hFile : snprintfFailed 256 (dashed m.type m.typeInstance ++ ascii ".rrd") = true
  · have hLong := snprintfFailed_iff.mp hFile
    rw [if_neg (show ¬ (_ ∧ _) from fun h => by omega)]
    simp only [if_neg hBase, if_neg hSeg, if_pos hFile]
  have hBaseFits := not_snprintfFailed_iff.mp hBase
  have hSegFits := not_snprintfFailed_iff.mp hSeg
  have hFileFits := not_snprintfFailed_iff.mp hFile
  simp only [if_neg hBase, if_neg hSeg, if_neg hFile]
  split
  · rename_i hLast
    have hLong := snprintfFailed_iff.mp hLast
    have hName : (slash :: (dashed m.type m.typeInstance ++ ascii ".rrd")).length =
        (dashed m.type m.typeInstance ++ ascii ".rrd").length + 1 := List.length_cons
    rw [if_neg (show ¬ (_ ∧ _) from fun h => by omega)]
  · rename_i hLast
    have hLastFits := not_snprintfFailed_iff.mp hLast
    rw [if_pos ⟨by omega, by omega, hBaseFits.1, hSegFits.1⟩]

/-- A path that fits is built. -/
theorem metricToPath_of_fits {D : Type} {n : Nat} {base host : Bytes} {m : Metric D}
    (hFile : (dashed m.type m.typeInstance ++ ascii ".rrd").length < 256)
    (hPath : (fullPath base host m).length < n) (hInt : IntTexts base host m) :
    metricToPath n base host m = (0, fullPath base host m ++ [0]) := by
  have hRc := metricToPath_rc (by omega : 1 ≤ n) base host m
  rw [if_pos ⟨hFile, hPath, hInt⟩] at hRc
  have hOk : metricToPath n base host m = (0, (metricToPath n base host m).2) := Prod.ext hRc rfl
  rw [hOk, ← metricToPath_eq_zero hOk]

/-! ## The writes -/

/-- One `snprintf(out + off, n - off, ...)`.  The size is an integer here, so that an
offset behind the end of the buffer would show. -/
structure PathWrite where
  off : Nat
  size : Int
  cells : Bytes

def PathWrite.of (n off : Nat) (text : Bytes) : PathWrite :=
  { off := off, size := (n : Int) - off, cells := snprintfCells (n - off) text }

/-- The calls of `snprintf` that write to `out`, in order. -/
def pathWrites {D : Type} (n : Nat) (base host : Bytes) (m : Metric D) : List PathWrite :=
  if n = 0 then []
  else
    let text := base ++ slash :: host
    let off := text.length
    .of n 0 text ::
      if snprintfFailed n text then []
      else
        let text := slash :: dashed m.plugin m.pluginInstance
        .of n off text ::
          if snprintfFailed (n - off) text then []
          else
            let off := off + text.length
            let file := dashed m.type m.typeInstance ++ ascii ".rrd"
            if snprintfFailed 256 file then [] else [.of n off (slash :: file)]

/-- A write inside a buffer of `n` bytes that leaves a terminated string. -/
structure PathWrite.Safe (n : Nat) (w : PathWrite) : Prop where
  size : 0 < w.size
  within : w.off + w.cells.length ≤ n
  zero : w.cells.getLast? = some 0

theorem PathWrite.safe_of {n off : Nat} (h : off < n) (text : Bytes) : (of n off text).Safe n := by
  have hSize : ¬ n - off = 0 := by omega
  refine ⟨?_, ?_, ?_⟩
  · simp only [of]
    omega
  · simp only [of, snprintfCells, if_neg hSize, List.length_append, List.length_take,
      List.length_singleton]
    omega
  · simp only [of, snprintfCells, if_neg hSize, List.getLast?_concat]

theorem safe_of_mem_pathWrites {D : Type} {n : Nat} {base host : Bytes} {m : Metric D}
    {w : PathWrite} (h : w ∈ pathWrites n base host m) : w.Safe n := by
  unfold pathWrites at h
  by_cases hn : n = 0
  · simp [hn] at h
  simp only [if_neg hn] at h
  rcases List.mem_cons.mp h with rfl | h
  · exact PathWrite.safe_of (by omega) _
  split at h
  · cases h
  rename_i hBase
  have hBaseFits := not_snprintfFailed_iff.mp hBase
  rcases List.mem_cons.mp h with rfl | h
  · exact PathWrite.safe_of hBaseFits.2 _
  split at h
  · cases h
  rename_i hSeg
  have hSegFits := not_snprintfFailed_iff.mp hSeg
  split at h
  · cases h
  rw [List.mem_singleton.mp h]
  exact PathWrite.safe_of (by omega) _

/-- What `out` holds is what the writes leave. -/
theorem metricToPath_out {D : Type} (n : Nat) (base host : Bytes) (m : Metric D) :
    (metricToPath n base host m).2 =
      (pathWrites n base host m).foldl (fun out w => out.take w.off ++ w.cells) [] := by
  unfold metricToPath pathWrites appendSeg
  by_cases hn : n = 0
  · simp [hn]
  by_cases hBase : snprintfFailed n (base ++ slash :: host) = true
  · simp only [if_neg hn, if_pos hBase, List.foldl_cons, List.foldl_nil, PathWrite.of,
      List.take_nil, List.nil_append, Nat.sub_zero]
  by_cases hSeg : snprintfFailed (n - (base ++ slash :: host).length)
      (slash :: dashed m.plugin m.pluginInstance) = true
  · simp only [if_neg hn, if_neg hBase, if_pos hSeg, List.foldl_cons, List.foldl_nil, PathWrite.of,
      List.take_nil, List.nil_append, Nat.sub_zero]
  simp only [if_neg hn, if_neg hBase, if_neg hSeg, List.foldl_cons, PathWrite.of, List.take_nil,
    List.nil_append, Nat.sub_zero]
  by_cases hFile : snprintfFailed 256 (dashed m.type m.typeInstance ++ ascii ".rrd") = true
  · simp only [if_pos hFile, List.foldl_nil]
  · simp only [if_neg hFile, List.foldl_cons, List.foldl_nil]
    split <;> rfl

theorem foldl_safe {n : Nat} {writes : List PathWrite} (h : ∀ w ∈ writes, w.Safe n)
    (hSome : writes ≠ []) :
    (writes.foldl (fun out w => out.take w.off ++ w.cells) []).length ≤ n ∧
      (writes.foldl (fun out w => out.take w.off ++ w.cells) []).getLast? = some 0 := by
  -- only the last write matters: it cuts the text at its own offset
  obtain ⟨front, w, rfl⟩ := (List.eq_nil_or_concat writes).resolve_left hSome
  have hw := h w (by simp)
  rw [List.concat_eq_append, List.foldl_append, List.foldl_cons, List.foldl_nil]
  refine ⟨?_, ?_⟩
  · have hWithin := hw.within
    rw [List.length_append, List.length_take]
    omega
  · rw [List.getLast?_append, hw.zero]
    rfl

/-! ## Paths and series -/

/-- A path without a slash in its instances has one reading. -/
theorem fullPath_inj {D : Type} {base host : Bytes} {m m' : Metric D}
    (hPlugin : dash ∉ m.plugin ∧ slash ∉ m.plugin) (hType : dash ∉ m.type)
    (hPlugin' : dash ∉ m'.plugin ∧ slash ∉ m'.plugin) (hType' : dash ∉ m'.type)
    (hPi : ∀ s ∈ m.pluginInstance, slash ∉ s) (hPi' : ∀ s ∈ m'.pluginInstance, slash ∉ s)
    (hPath : fullPath base host m = fullPath base host m') :
    m.plugin = m'.plugin ∧ m.pluginInstance = m'.pluginInstance ∧ m.type = m'.type ∧
      m.typeInstance = m'.typeInstance := by
  simp only [fullPath, List.append_cancel_left_eq, List.cons.injEq, true_and] at hPath
  -- the directory ends at the first slash
  obtain ⟨hDir, hFile⟩ := append_cons_inj ((slash_notMem_dashed_iff hPlugin.2).mpr hPi)
    ((slash_notMem_dashed_iff hPlugin'.2).mpr hPi') hPath
  obtain ⟨hPluginEq, hPiEq⟩ := dashed_inj hPlugin.1 hPlugin'.1 hDir
  obtain ⟨hTypeEq, hTiEq⟩ := dashed_inj hType hType' (List.append_cancel_right hFile)
  exact ⟨hPluginEq, hPiEq, hTypeEq, hTiEq⟩

/-- **The path builder.**  A path is built exactly if the file name is shorter than 256
bytes, the whole path shorter than the buffer, and no text too long for the `int` that
`snprintf` returns, which says nothing for a buffer of at most 2^31 bytes; it is then that
path, and otherwise the result is -1.  Every call of `snprintf` gets a positive size and
stays inside the buffer, which holds a terminated string afterwards.  Metrics with plain
plugins and types, and without slashes in their instances, that are given one path are
metrics of one series. -/
theorem metricToPath_exact {D : Type} {n : Nat} (hn : 1 ≤ n) (base host : Bytes)
    (m : Metric D) :
    ((metricToPath n base host m).1 = 0 ↔
        (dashed m.type m.typeInstance ++ ascii ".rrd").length < 256 ∧
          (fullPath base host m).length < n ∧ IntTexts base host m) ∧
      (n ≤ 2 ^ 31 → ((metricToPath n base host m).1 = 0 ↔
        (dashed m.type m.typeInstance ++ ascii ".rrd").length < 256 ∧
          (fullPath base host m).length < n)) ∧
      ((metricToPath n base host m).1 = 0 →
        (metricToPath n base host m).2 = fullPath base host m ++ [0]) ∧
      ((metricToPath n base host m).1 ≠ 0 → (metricToPath n base host m).1 = -1) ∧
      ((metricToPath n base host m).2 =
          (pathWrites n base host m).foldl (fun out w => out.take w.off ++ w.cells) [] ∧
        (∀ w ∈ pathWrites n base host m, w.Safe n) ∧
        (metricToPath n base host m).2.length ≤ n ∧
        (metricToPath n base host m).2.getLast? = some 0) ∧
      ∀ (n' : Nat) (m' : Metric D) (out : Bytes),
        (∀ s ∈ [m.plugin, m.type, m'.plugin, m'.type], dash ∉ s ∧ slash ∉ s) →
        (∀ i ∈ [m.pluginInstance, m.typeInstance, m'.pluginInstance, m'.typeInstance],
          ∀ s ∈ i, slash ∉ s) →
        metricToPath n base host m = (0, out) → metricToPath n' base host m' = (0, out) →
        m.plugin = m'.plugin ∧ m.pluginInstance = m'.pluginInstance ∧ m.type = m'.type ∧
          m.typeInstance = m'.typeInstance := by
  have hRc := metricToPath_rc hn base host m
  have hSafe : ∀ w ∈ pathWrites n base host m, w.Safe n := fun w => safe_of_mem_pathWrites
  have hSome : pathWrites n base host m ≠ [] := by
    simp [pathWrites, show n ≠ 0 by omega]
  obtain ⟨hWithin, hZero⟩ := foldl_safe hSafe hSome
  rw [← metricToPath_out] at hWithin hZero
  have hExact : (metricToPath n base host m).1 = 0 ↔
      (dashed m.type m.typeInstance ++ ascii ".rrd").length < 256 ∧
        (fullPath base host m).length < n ∧ IntTexts base host m := by
    rw [hRc]
    split <;> simp_all
  refine ⟨hExact, ?_, ?_, ?_, ⟨metricToPath_out n base host m, hSafe, hWithin, hZero⟩, ?_⟩
  · intro hSize
    rw [hExact]
    exact ⟨fun h => ⟨h.1, h.2.1⟩, fun h => ⟨h.1, h.2, intTexts_of_lt (by omega)⟩⟩
  · intro hOk
    exact metricToPath_eq_zero (Prod.ext hOk rfl)
  · intro hFail
    rw [hRc] at hFail ⊢
    split at hFail
    · exact absurd rfl hFail
    · rename_i hNot
      exact if_neg hNot
  · intro n' m' out hNames hInst hOut hOut'
    have hSame := (metricToPath_eq_zero hOut).symm.trans (metricToPath_eq_zero hOut')
    exact fullPath_inj (hNames _ (by simp)) (hNames m.type (by simp)).1 (hNames _ (by simp))
      (hNames m'.type (by simp)).1 (hInst m.pluginInstance (by simp))
      (hInst m'.pluginInstance (by simp)) (List.append_cancel_right hSame)

/-- The metric of `tests/test_path.c` with both instances. -/
def octetsMetric : Metric Unit :=
  { plugin := ascii "interface", pluginInstance := some (ascii "eth0"),
    type := ascii "if_octets", typeInstance := some (ascii "rx"), dsCount := 2,
    values := [(), ()] }

/-- The buffer of 20 bytes of `truncation_returns_error`, and one that is large enough. -/
theorem octetsMetric_path :
    (metricToPath 20 (ascii "/var/rrd") (ascii "localhost") octetsMetric).1 = -1 ∧
      metricToPath 512 (ascii "/var/rrd") (ascii "localhost") octetsMetric =
        (0, ascii "/var/rrd/localhost/interface-eth0/if_octets-rx.rrd" ++ [0]) ∧
      ∀ (n' : Nat) (m' : Metric Unit) (out : Bytes),
        (∀ s ∈ [octetsMetric.plugin, octetsMetric.type, m'.plugin, m'.type],
          dash ∉ s ∧ slash ∉ s) →
        (∀ i ∈ [octetsMetric.pluginInstance, octetsMetric.typeInstance, m'.pluginInstance,
          m'.typeInstance], ∀ s ∈ i, slash ∉ s) →
        metricToPath 512 (ascii "/var/rrd") (ascii "localhost") octetsMetric = (0, out) →
        metricToPath n' (ascii "/var/rrd") (ascii "localhost") m' = (0, out) →
        octetsMetric.plugin = m'.plugin ∧ octetsMetric.pluginInstance = m'.pluginInstance ∧
          octetsMetric.type = m'.type ∧ octetsMetric.typeInstance = m'.typeInstance := by
  have hSmall := metricToPath_exact (n := 20) (by decide) (ascii "/var/rrd") (ascii "localhost")
    octetsMetric
  have hLarge := metricToPath_exact (n := 512) (by decide) (ascii "/var/rrd") (ascii "localhost")
    octetsMetric
  have hOk := (hLarge.2.1 (by decide)).mpr (by decide)
  refine ⟨hSmall.2.2.2.1 (fun h => absurd (hSmall.1.mp h).2.1 (by decide)), ?_,
    hLarge.2.2.2.2.2⟩
  refine Prod.ext hOk ((hLarge.2.2.1 hOk).trans ?_)
  decide

/-- A data directory of 2^31 bytes and a buffer that has room for the whole path. -/
theorem longBase_path_fails :
    let base := List.replicate (2 ^ 31) (byte 'a')
    let n := 2 ^ 31 + 4096
    (dashed octetsMetric.type octetsMetric.typeInstance ++ ascii ".rrd").length < 256 ∧
      (fullPath base (ascii "localhost") octetsMetric).length < n ∧
      (metricToPath n base (ascii "localhost") octetsMetric).1 = -1 := by
  intro base n
  have hBase : base.length = 2 ^ 31 := List.length_replicate
  have hTail : (fullPath [] (ascii "localhost") octetsMetric).length < 4096 := by decide
  have hLength : (fullPath base (ascii "localhost") octetsMetric).length =
      base.length + (fullPath [] (ascii "localhost") octetsMetric).length := by
    simp only [fullPath, List.length_append, List.length_nil, Nat.zero_add]
  refine ⟨by decide, by omega, ?_⟩
  rw [metricToPath_rc (by omega), if_neg]
  intro h
  have hShort := h.2.2.base
  rw [List.length_append] at hShort
  omega

end SvgdCollect
