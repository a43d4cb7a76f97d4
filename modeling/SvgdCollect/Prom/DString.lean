import SvgdCollect.Lib.Alloc
import SvgdCollect.Lib.Exposition
import SvgdCollect.Lib.Growth

/-!
# The dynamic string of the renderer

`dstring_t` is a growable buffer.  A failed `realloc` leaves the buffer as it is
and the append that needed it is dropped.  `Holds` says that the buffer holds a
text and its terminating NUL.
-/

namespace SvgdCollect
namespace Prom

open Lib

/-- `dstring_t`; `buf` is the null pointer or the bytes of the block. -/
structure DString where
  buf : Option Bytes
  len : Nat
  cap : Nat
  deriving DecidableEq

/-- `dstring_t d = {0}`. -/
def DString.zero : DString := { buf := none, len := 0, cap := 0 }

/-- The bytes of the block; there are none before the first allocation. -/
def DString.cells (d : DString) : Bytes := d.buf.getD []

/-- `ds_reserve`. -/
def dsReserve (o : Oracle) (d : DString) (extra : Nat) : Alloc DString :=
  if d.len + extra + 1 ≤ d.cap then pure d
  else do
    let nc := grownCapacity 512 d.cap (d.len + extra + 1)
    match ← allocate o with
    | none => pure d
    | some fresh =>
        pure { d with
          buf := some (d.cells ++ (List.range (nc - d.cells.length)).map fresh)
          cap := nc }

/-- `memcpy(buf + len, s, n)` and the terminating NUL behind it. -/
def DString.store (d : DString) (s : Bytes) : DString :=
  { d with
    buf := some (d.cells.take d.len ++ (s ++ 0 :: d.cells.drop (d.len + s.length + 1)))
    len := d.len + s.length }

/-- `ds_append`. -/
def dsAppend (o : Oracle) (d : DString) (s : Bytes) : Alloc DString := do
  let d ← dsReserve o d s.length
  if d.len + s.length + 1 > d.cap then pure d else pure (d.store s)

/-- `ds_appendf`, where `text` is the formatted text: `vsnprintf` writes it and a
NUL, after the same check. -/
def dsAppendf (o : Oracle) (d : DString) (text : Bytes) : Alloc DString :=
  dsAppend o d text

/-- `append_escaped`. -/
def appendEscaped (o : Oracle) : DString → Bytes → Alloc DString
  | d, [] => pure d
  | d, p :: s => do
      let d ←
        (if p = byte '\\' ∨ p = byte '"' ∨ p = byte '\n' then
          dsAppend o d [byte '\\', if p = byte '\n' then byte 'n' else p]
        else dsAppend o d [p])
      appendEscaped o d s

/-- `ds_append_label`. -/
def dsAppendLabel (o : Oracle) (d : DString) (key val : Bytes) : Alloc DString := do
  let d ← (if d.len > 0 then dsAppend o d [byte ','] else pure d)
  let d ← dsAppend o d key
  let d ← dsAppend o d [byte '=', byte '"']
  let d ← appendEscaped o d val
  dsAppend o d [byte '"']

/-! ## What a buffer holds -/

/-- The buffer is empty and unallocated, or it holds the text and a NUL. -/
structure Holds (d : DString) (text : Bytes) : Prop where
  len : d.len = text.length
  cells : (d = DString.zero ∧ text = []) ∨
    ∃ rest, d.buf = some (text ++ 0 :: rest) ∧ d.cap = (text ++ 0 :: rest).length

theorem holds_zero : Holds DString.zero [] := ⟨rfl, Or.inl ⟨rfl, rfl⟩⟩

/-- The C string in a buffer that holds a text. -/
theorem Holds.cstr_cells {d : DString} {text : Bytes} (h : Holds d text) (hText : 0 ∉ text) :
    cstr d.cells = text := by
  rcases h.cells with ⟨rfl, rfl⟩ | ⟨rest, hBuf, -⟩
  · rfl
  · rw [DString.cells, hBuf]
    exact cstr_append_zero rest hText

/-- The buffer begins with a text and has room for `extra` bytes and a NUL behind it. -/
structure HasRoom (d : DString) (text : Bytes) (extra : Nat) : Prop where
  len : d.len = text.length
  room : text.length + extra + 1 ≤ d.cap
  cells : ∃ rest, d.buf = some (text ++ rest) ∧ d.cap = (text ++ rest).length

theorem Holds.hasRoom {d : DString} {text : Bytes} (h : Holds d text) {extra : Nat}
    (hRoom : d.len + extra + 1 ≤ d.cap) : HasRoom d text extra := by
  refine ⟨h.len, h.len ▸ hRoom, ?_⟩
  rcases h.cells with ⟨rfl, rfl⟩ | ⟨rest, hBuf, hCap⟩
  · exact absurd hRoom (by simp [DString.zero])
  · exact ⟨0 :: rest, hBuf, hCap⟩

/-- `realloc` moves the cells and leaves the new ones as they are. -/
theorem Holds.grown {d : DString} {text : Bytes} (h : Holds d text) (extra : Nat)
    (fresh : Nat → Byte) :
    HasRoom { d with
        buf := some (d.cells ++ (List.range (grownCapacity 512 d.cap (d.len + extra + 1) -
          d.cells.length)).map fresh)
        cap := grownCapacity 512 d.cap (d.len + extra + 1) } text extra := by
  have hCells : ∃ rest, d.cells = text ++ rest := by
    rcases h.cells with ⟨rfl, rfl⟩ | ⟨rest, hBuf, -⟩
    · exact ⟨[], rfl⟩
    · exact ⟨0 :: rest, by rw [DString.cells, hBuf]; rfl⟩
  have hLength : d.cells.length = d.cap := by
    rcases h.cells with ⟨rfl, rfl⟩ | ⟨rest, hBuf, hCap⟩
    · rfl
    · rw [hCap, DString.cells, hBuf]
      rfl
  obtain ⟨rest, hRest⟩ := hCells
  refine ⟨h.len, ?_, rest ++ (List.range (grownCapacity 512 d.cap
    (d.len + extra + 1) - d.cells.length)).map fresh, ?_, ?_⟩
  · rw [← h.len]
    exact le_grownCapacity (by decide : 0 < 512) d.cap (d.len + extra + 1)
  · rw [hRest, List.append_assoc]
  · have hSelf := self_le_grownCapacity 512 d.cap (d.len + extra + 1)
    rw [← List.append_assoc, ← hRest, List.length_append, List.length_map, List.length_range,
      hLength]
    show grownCapacity 512 d.cap (d.len + extra + 1) = _
    omega

/-- What fits is stored with its NUL. -/
theorem HasRoom.store {d : DString} {text s : Bytes} (h : HasRoom d text s.length) :
    Holds (d.store s) (text ++ s) := by
  obtain ⟨hLen, hRoom, rest, hBuf, hCap⟩ := h
  have hCells : d.cells = text ++ rest := by
    rw [DString.cells, hBuf]
    rfl
  refine ⟨?_, Or.inr ⟨d.cells.drop (d.len + s.length + 1), ?_, ?_⟩⟩
  · simp [DString.store, hLen]
  · simp [DString.store, hCells, hLen]
  · rw [hCap] at hRoom
    simp only [DString.store, hCells, hLen, hCap, List.length_append, List.length_cons,
      List.length_drop] at hRoom ⊢
    omega

/-- `ds_reserve` makes room, or leaves the buffer as it is if it cannot. -/
theorem dsReserve_cases (o : Oracle) {d : DString} {text : Bytes} (h : Holds d text)
    (extra : Nat) :
    Yields (dsReserve o d extra) fun d' =>
      HasRoom d' text extra ∨ (d' = d ∧ d.cap < d.len + extra + 1) := by
  unfold dsReserve
  split
  · rename_i hRoom
    exact Yields.pure (Or.inl (h.hasRoom hRoom))
  · rename_i hFull
    refine Yields.bind_any ?_
    rintro (_ | fresh)
    · exact Yields.pure (Or.inr ⟨rfl, not_le.mp hFull⟩)
    · exact Yields.pure (Or.inl (h.grown extra fresh))

/-- An append appends or, if there is no memory, does nothing. -/
theorem dsAppend_cases (o : Oracle) {d : DString} {text : Bytes} (h : Holds d text) (s : Bytes) :
    Yields (dsAppend o d s) fun d' => Holds d' (text ++ s) ∨ d' = d := by
  unfold dsAppend
  refine Yields.bind (dsReserve_cases o h s.length) ?_
  rintro d' (hRoom | ⟨rfl, hFull⟩)
  · rw [if_neg (by rw [hRoom.len]; exact not_lt.mpr hRoom.room)]
    exact Yields.pure (Or.inl hRoom.store)
  · rw [if_pos hFull]
    exact Yields.pure (Or.inr rfl)

/-- With memory available there is room after `ds_reserve`. -/
theorem dsReserve_yields {o : Oracle} (ho : o.Succeeds) {d : DString} {text : Bytes}
    (h : Holds d text) (extra : Nat) :
    Yields (dsReserve o d extra) fun d' => HasRoom d' text extra := by
  unfold dsReserve
  split
  · rename_i hRoom
    exact Yields.pure (h.hasRoom hRoom)
  · refine Yields.bind (yields_allocate ho) ?_
    rintro r ⟨fresh, rfl⟩
    exact Yields.pure (h.grown extra fresh)

/-- With memory available an append appends. -/
theorem dsAppend_yields {o : Oracle} (ho : o.Succeeds) {d : DString} {text : Bytes}
    (h : Holds d text) (s : Bytes) : Yields (dsAppend o d s) fun d' => Holds d' (text ++ s) := by
  unfold dsAppend
  refine Yields.bind (dsReserve_yields ho h s.length) fun d' hRoom => ?_
  rw [if_neg (by rw [hRoom.len]; exact not_lt.mpr hRoom.room)]
  exact Yields.pure hRoom.store

theorem appendEscaped_yields {o : Oracle} (ho : o.Succeeds) {d : DString} {text : Bytes}
    (h : Holds d text) (s : Bytes) :
    Yields (appendEscaped o d s) fun d' => Holds d' (text ++ Exposition.escape s) := by
  induction s generalizing d text with
  | nil =>
      rw [Exposition.escape, List.append_nil]
      exact Yields.pure h
  | cons p s ih =>
      -- one byte is appended as itself or as a two byte escape
      have hByte : Exposition.escape (p :: s) =
          (if p = byte '\\' ∨ p = byte '"' ∨ p = byte '\n' then
            [byte '\\', if p = byte '\n' then byte 'n' else p] else [p]) ++
            Exposition.escape s := by
        by_cases hNewline : p = byte '\n'
        · subst hNewline
          rfl
        · have hOrder : (p = byte '\\' ∨ p = byte '"' ∨ p = byte '\n') ↔
              (p = Exposition.backslash ∨ p = Exposition.quote) := by
            simp [hNewline, show byte '\\' = Exposition.backslash from rfl,
              show byte '"' = Exposition.quote from rfl]
          have hNewline' : p ≠ Exposition.newline := hNewline
          by_cases hEsc : p = Exposition.backslash ∨ p = Exposition.quote
          · rw [if_pos (hOrder.mpr hEsc), Exposition.escape, if_neg hNewline', if_pos hEsc,
              if_neg hNewline]
            rfl
          · rw [if_neg (fun hc => hEsc (hOrder.mp hc)), Exposition.escape, if_neg hNewline',
              if_neg hEsc]
            rfl
      rw [hByte, ← List.append_assoc, appendEscaped]
      refine Yields.bind ?_ fun d' hd' => ih hd'
      split
      · exact dsAppend_yields ho h _
      · exact dsAppend_yields ho h _

theorem Holds.len_pos_iff {d : DString} {labels : List (Bytes × Bytes)}
    (h : Holds d (Exposition.labelsText labels)) : d.len > 0 ↔ labels ≠ [] := by
  rw [h.len, gt_iff_lt, List.length_pos_iff, ne_eq, Exposition.labelsText_eq_nil_iff]

theorem dsAppendLabel_yields {o : Oracle} (ho : o.Succeeds) {d : DString}
    {labels : List (Bytes × Bytes)} (h : Holds d (Exposition.labelsText labels))
    (key val : Bytes) :
    Yields (dsAppendLabel o d key val) fun d' =>
      Holds d' (Exposition.labelsText (labels ++ [(key, val)])) := by
  have hText : Exposition.labelsText (labels ++ [(key, val)]) =
      (((Exposition.labelsText labels ++ if labels = [] then [] else [byte ',']) ++ key) ++
        [byte '=', byte '"']) ++ Exposition.escape val ++ [byte '"'] := by
    rw [Exposition.labelsText_append_singleton]
    split <;> simp [Exposition.labelText, *] <;> rfl
  rw [hText]
  unfold dsAppendLabel
  refine Yields.bind (P := fun d' => Holds d' (Exposition.labelsText labels ++
    if labels = [] then [] else [byte ','])) ?_ ?_
  · -- a comma in front of every label but the first
    by_cases hNil : labels = []
    · rw [if_neg (fun hc => h.len_pos_iff.mp hc hNil), if_pos hNil, List.append_nil]
      exact Yields.pure h
    · rw [if_pos (h.len_pos_iff.mpr hNil), if_neg hNil]
      exact dsAppend_yields ho h _
  · intro d1 h1
    refine Yields.bind (dsAppend_yields ho h1 key) fun d2 h2 => ?_
    refine Yields.bind (dsAppend_yields ho h2 [byte '=', byte '"']) fun d3 h3 => ?_
    refine Yields.bind (appendEscaped_yields ho h3 val) fun d4 h4 => ?_
    exact dsAppend_yields ho h4 [byte '"']

end Prom
end SvgdCollect
