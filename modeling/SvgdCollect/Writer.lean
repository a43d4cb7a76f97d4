import SvgdCollect.Lib.Double
import SvgdCollect.Path
import SvgdCollect.Rra

/-!
# The RRD writer

`writer_rrd.c` resolves the type of a metric, builds its path, creates the RRD
file if it is missing, and hands the update to rrdcached or, if there is none or
it fails, directly to librrd.

librrd and rrdcached are outside of the source.  What the writer relies on is in
`Store`: one RRD file with the second of its last applied update, and the updates
that rrdcached has acknowledged and not yet applied.  A direct update is accepted
iff it is later than the last applied one; the daemon appends an update with the
second it receives it.
-/

namespace SvgdCollect

open Lib

/-- `writer_t`. -/
structure Writer where
  datadir : Bytes
  host : Bytes
  rrdcached : Bytes
  deriving DecidableEq

/-- `writer_init`; an absent daemon address is the empty string. -/
def writerInit (datadir host : Bytes) (rrdcached : Option Bytes) : Writer :=
  { datadir := datadir.take 4095
    host := host.take 127
    rrdcached := (rrdcached.getD []).take 255 }

/-- The text of one value: counters as integers, gauges with 17 digits. -/
def valueText {D : Type} (printf : Printf D) (ds : DsDef) (v : D) : Bytes :=
  byte ':' :: match ds.dst with
    | .derive => printf.f0 v
    | .counter => printf.f0 v
    | .gauge => printf.g17 v

/-- The loop of `fmt_values` over the data sources and their values: the bytes
written so far, the offset, and the outcome. -/
def fmtLoop {D : Type} (printf : Printf D) (n : Nat) :
    List (DsDef × D) → Bytes → Nat → Int × Bytes
  | [], out, _ => (0, out)
  | (ds, v) :: rest, out, off =>
      let text := valueText printf ds v
      -- `snprintf(out + off, n - off, ...)` overwrites the NUL at `off`
      let out := out.take off ++ snprintfCells (n - off) text
      if text.length ≥ n - off then (-1, out)
      else fmtLoop printf n rest out (off + text.length)

/-- `fmt_values`: the return code and the bytes written to `out`.  A value the
producer did not set is arbitrary. -/
def fmtValues {D : Type} [Inhabited D] (printf : Printf D) (n : Nat) (td : TypeDef)
    (m : Metric D) : Int × Bytes :=
  if n = 0 then (-1, [])
  else if td.dsCount ≠ m.dsCount then (-1, [])
  else
    let values := (List.range td.ds.length).map fun i => m.values.getD i default
    fmtLoop printf n (td.ds.zip values) [byte 'N'] 1

/-- What happens to an update that is sent to rrdcached: there is no connection,
the daemon answers with an error, or it acknowledges. -/
inductive DaemonReply
  | unreachable
  | error
  | ok
  deriving DecidableEq

/-- What the outside world contributes to one call of `writer_write`: the current
second, whether a needed `rrd_create_r` succeeds, and the daemon. -/
structure Call where
  now : Int
  createOk : Bool
  reply : DaemonReply
  deriving DecidableEq

/-- One RRD file and the daemon's queue for it.  `last` is the second of the last
applied update, `none` if the file does not exist. -/
structure Store where
  last : Option Int
  queue : List Int
  deriving DecidableEq

/-- An update of the file at second `t` is accepted iff it is later than the last
one.  A missing file accepts none. -/
def Store.accepts (s : Store) (t : Int) : Bool := s.last.any fun last => last < t

/-- `writer_daemon_connect`. -/
def writerDaemonConnect (w : Writer) (reply : DaemonReply) : Int :=
  if w.rrdcached = [] then 0
  else
    match reply with
    | .unreachable => -1
    | .error => 0
    | .ok => 0

/-- `writer_update`: the return code and the new state of file and queue. -/
def writerUpdate (w : Writer) (s : Store) (c : Call) : Int × Store :=
  let direct := if s.accepts c.now then (0, { s with last := some c.now }) else (-1, s)
  if w.rrdcached ≠ [] ∧ writerDaemonConnect w c.reply = 0 then
    match c.reply with
    | .ok => (0, { s with queue := s.queue ++ [c.now] })
    -- an error is logged, and the update falls back to the file
    | _ => direct
  else direct

/-- Step 4 of `writer_write`: a missing file is created with the previous second
as its last update; `none` if that fails. -/
def writerCreate (s : Store) (td : TypeDef) (c : Call) : Option Store :=
  match s.last with
  | some _ => some s
  | none =>
      if (rraArgs td 64).1 < 0 then none
      else if c.createOk then some { s with last := some (c.now - 1) } else none

/-- `writer_write` in front of the update: whether the checks, the path, the
creation of the file and the text of the values succeed, and the file then.
Directories are made on the way, which does not concern the file. -/
def writerPrepare {D : Type} [Inhabited D] (printf : Printf D) (w : Writer) (s : Store)
    (m : Metric D) (c : Call) : Bool × Store :=
  match typesLookup m.type with
  | none => (false, s)
  | some td =>
      if td.dsCount ≠ m.dsCount then (false, s)
      else if (metricToPath 4096 w.datadir w.host m).1 ≠ 0 then (false, s)
      else
        match writerCreate s td c with
        | none => (false, s)
        | some s => (decide ((fmtValues printf 256 td m).1 = 0), s)

/-- `writer_write`: the return code and the new state of file and queue. -/
def writerWrite {D : Type} [Inhabited D] (printf : Printf D) (w : Writer) (s : Store)
    (m : Metric D) (c : Call) : Int × Store :=
  let prepared := writerPrepare printf w s m c
  if prepared.1 then writerUpdate w prepared.2 c else (-1, prepared.2)

/-! ## What a call can do -/

/-- A file that is there is kept, and a missing one is created or not. -/
theorem writerCreate_cases (s : Store) (td : TypeDef) (c : Call) :
    writerCreate s td c = none ∨ s.last ≠ none ∧ writerCreate s td c = some s ∨
      s.last = none ∧ writerCreate s td c = some { s with last := some (c.now - 1) } := by
  unfold writerCreate
  cases hLast : s.last with
  | some l => exact Or.inr (Or.inl ⟨Option.some_ne_none l, rfl⟩)
  | none =>
      dsimp only
      split
      · exact Or.inl rfl
      · split
        · exact Or.inr (Or.inr ⟨rfl, rfl⟩)
        · exact Or.inl rfl

/-- Before the update the file is kept as it is or created. -/
theorem writerPrepare_cases {D : Type} [Inhabited D] (printf : Printf D) (w : Writer)
    (s : Store) (m : Metric D) (c : Call) :
    (writerPrepare printf w s m c).2 = s ∧
        ((writerPrepare printf w s m c).1 = true → s.last ≠ none) ∨
      s.last = none ∧
        (writerPrepare printf w s m c).2 = { s with last := some (c.now - 1) } := by
  unfold writerPrepare
  cases typesLookup m.type with
  | none => simp
  | some td =>
      simp only
      by_cases hCount : td.dsCount ≠ m.dsCount
      · simp [hCount]
      rw [if_neg hCount]
      by_cases hPath : (metricToPath 4096 w.datadir w.host m).1 ≠ 0
      · simp [hPath]
      rw [if_neg hPath]
      rcases writerCreate_cases s td c with hNone | ⟨hLast, hKept⟩ | ⟨hLast, hCreated⟩
      · simp [hNone]
      · simp [hKept, hLast]
      · simp [hCreated, hLast]

/-- An update is acknowledged by the daemon or done directly. -/
theorem writerUpdate_cases (w : Writer) (s : Store) (c : Call) :
    (w.rrdcached ≠ [] ∧ c.reply = .ok) ∧
        writerUpdate w s c = (0, { s with queue := s.queue ++ [c.now] }) ∨
      ¬ (w.rrdcached ≠ [] ∧ c.reply = .ok) ∧
        writerUpdate w s c =
          if s.accepts c.now then (0, { s with last := some c.now }) else (-1, s) := by
  unfold writerUpdate writerDaemonConnect
  by_cases hDaemon : w.rrdcached = []
  · exact Or.inr ⟨by simp [hDaemon], by simp [hDaemon]⟩
  · cases hReply : c.reply with
    | unreachable => exact Or.inr ⟨by simp, by simp [hDaemon]⟩
    | error => exact Or.inr ⟨by simp, by simp [hDaemon]⟩
    | ok => exact Or.inl ⟨⟨hDaemon, rfl⟩, by simp [hDaemon]⟩

end SvgdCollect
