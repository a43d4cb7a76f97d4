import SvgdCollect.Writer
import Mathlib.Data.List.Basic
import Mathlib.Tactic.Linarith

/-!
# Daemon outages

The writer reaches one RRD file through two channels: rrdcached, which applies
what it has acknowledged at some later moment, and the direct update it falls
back to.  A direct update that overtakes a queued one makes the file refuse the
queued one later.

`Event` interleaves the calls for the metrics of one path with the daemon's work.
The result is exact: no acknowledged sample is refused, however long the daemon
goes on, iff no call falls back while the daemon still holds updates.
-/

namespace SvgdCollect

open Lib

variable {D : Type} [Inhabited D]

/-- A call of `writer_write`, or the daemon applying the oldest update it holds. -/
inductive Event (D : Type)
  | write (m : Metric D) (c : Call)
  | apply

/-- The store, the seconds of the calls that returned 0, and the seconds of the
queued updates that the file refused. -/
structure Progress where
  store : Store
  acked : List Int
  refused : List Int
  deriving DecidableEq

/-- The daemon applies the oldest update it holds, under the rule of librrd. -/
def applyQueued (p : Progress) : Progress :=
  match p.store.queue with
  | [] => p
  | t :: rest =>
      if p.store.accepts t then { p with store := { last := some t, queue := rest } }
      else { p with store := { p.store with queue := rest }, refused := p.refused ++ [t] }

/-- One event. -/
def stepEvent (printf : Printf D) (w : Writer) (p : Progress) : Event D → Progress
  | .write m c =>
      let r := writerWrite printf w p.store m c
      { p with store := r.2, acked := if r.1 = 0 then p.acked ++ [c.now] else p.acked }
  | .apply => applyQueued p

def runEvents (printf : Printf D) (w : Writer) (p : Progress) (trace : List (Event D)) :
    Progress :=
  trace.foldl (stepEvent printf w) p

def Progress.start (s : Store) : Progress := { store := s, acked := [], refused := [] }

/-- The seconds of the calls. -/
def seconds (trace : List (Event D)) : List Int :=
  trace.filterMap fun
    | .write _ c => some c.now
    | .apply => none

/-- No acknowledged sample was refused. -/
def NoneLost (p : Progress) : Prop := ∀ t ∈ p.acked, t ∉ p.refused

instance (p : Progress) : Decidable (NoneLost p) :=
  inferInstanceAs (Decidable (∀ t ∈ p.acked, t ∉ p.refused))

/-- The call gets as far as the update and does it directly. -/
def FallsBack (printf : Printf D) (w : Writer) (s : Store) (m : Metric D) (c : Call) : Prop :=
  (writerPrepare printf w s m c).1 = true ∧ ¬ (w.rrdcached ≠ [] ∧ c.reply = .ok)

/-! ## One event -/

/-- The store a call updates: the old one, with a file if the call gets that far, or
the old one with the file just created. -/
def Prepared (printf : Printf D) (w : Writer) (p : Progress) (m : Metric D) (c : Call)
    (s : Store) : Prop :=
  (s = p.store ∧ ((writerPrepare printf w p.store m c).1 = true → s.last ≠ none)) ∨
    (p.store.last = none ∧ s = { p.store with last := some (c.now - 1) })

theorem Prepared.queue {printf : Printf D} {w : Writer} {p : Progress} {m : Metric D} {c : Call}
    {s : Store} (h : Prepared printf w p m c s) : s.queue = p.store.queue := by
  rcases h with ⟨rfl, -⟩ | ⟨-, rfl⟩ <;> rfl

/-- A call refuses nothing, and leaves one of four stores behind. -/
theorem stepEvent_write_cases (printf : Printf D) (w : Writer) (p : Progress) (m : Metric D)
    (c : Call) :
    ∃ s, Prepared printf w p m c s ∧
      (((writerPrepare printf w p.store m c).1 = false ∧
          stepEvent printf w p (.write m c) = { p with store := s }) ∨
        ((writerPrepare printf w p.store m c).1 = true ∧
          (w.rrdcached ≠ [] ∧ c.reply = .ok) ∧
          stepEvent printf w p (.write m c) =
            { p with store := { s with queue := s.queue ++ [c.now] },
                     acked := p.acked ++ [c.now] }) ∨
        (FallsBack printf w p.store m c ∧ s.accepts c.now = true ∧
          stepEvent printf w p (.write m c) =
            { p with store := { s with last := some c.now }, acked := p.acked ++ [c.now] }) ∨
        (FallsBack printf w p.store m c ∧ s.accepts c.now = false ∧
          stepEvent printf w p (.write m c) = { p with store := s })) := by
  refine ⟨(writerPrepare printf w p.store m c).2, ?_, ?_⟩
  · rcases writerPrepare_cases printf w p.store m c with ⟨hStore, hFile⟩ | hCreated
    · refine Or.inl ⟨hStore, ?_⟩
      rw [hStore]
      exact hFile
    · exact Or.inr hCreated
  · unfold FallsBack
    cases hReady : (writerPrepare printf w p.store m c).1 with
    | false => exact Or.inl ⟨rfl, by simp [stepEvent, writerWrite, hReady]⟩
    | true =>
        have hWrite : writerWrite printf w p.store m c =
            writerUpdate w (writerPrepare printf w p.store m c).2 c := by
          simp [writerWrite, hReady]
        rcases writerUpdate_cases w (writerPrepare printf w p.store m c).2 c with
          ⟨hOk, hUpdate⟩ | ⟨hDirect, hUpdate⟩
        · exact Or.inr (Or.inl ⟨rfl, hOk, by simp [stepEvent, hWrite, hUpdate]⟩)
        · cases hAccepts : (writerPrepare printf w p.store m c).2.accepts c.now with
          | true =>
              exact Or.inr (Or.inr (Or.inl ⟨⟨rfl, hDirect⟩, rfl,
                by simp [stepEvent, hWrite, hUpdate, hAccepts]⟩))
          | false =>
              exact Or.inr (Or.inr (Or.inr ⟨⟨rfl, hDirect⟩, rfl,
                by simp [stepEvent, hWrite, hUpdate, hAccepts]⟩))

/-! ## What holds in every run -/

/-- Everything in the store is from `bound` or earlier, and what is queued was
acknowledged. -/
structure Past (bound : Int) (p : Progress) : Prop where
  last : ∀ l ∈ p.store.last, l ≤ bound
  queue : ∀ t ∈ p.store.queue, t ≤ bound ∧ t ∈ p.acked

theorem Past.write (printf : Printf D) (w : Writer) {bound : Int} {p : Progress} (m : Metric D)
    {c : Call} (h : Past bound p) (hNow : bound < c.now) :
    Past c.now (stepEvent printf w p (.write m c)) := by
  obtain ⟨s, hs, hStep⟩ := stepEvent_write_cases printf w p m c
  have hQueue := hs.queue
  have hLast : ∀ l ∈ s.last, l ≤ c.now := by
    intro l hl
    rcases hs with ⟨rfl, -⟩ | ⟨-, rfl⟩
    · have := h.last l hl
      omega
    · have hEq : c.now - 1 = l := Option.some.inj hl
      omega
  have hOld : ∀ t ∈ p.store.queue, t ≤ c.now ∧ t ∈ p.acked := by
    intro t ht
    have := h.queue t ht
    exact ⟨by omega, this.2⟩
  have hNew : ∀ t ∈ p.store.queue, t ≤ c.now ∧ t ∈ p.acked ++ [c.now] := fun t ht =>
    ⟨(hOld t ht).1, by simp [(hOld t ht).2]⟩
  rcases hStep with ⟨-, hStep⟩ | ⟨-, -, hStep⟩ | ⟨-, -, hStep⟩ | ⟨-, -, hStep⟩ <;> rw [hStep]
  · exact ⟨hLast, by simpa only [hQueue] using hOld⟩
  · refine ⟨hLast, fun t ht => ?_⟩
    rcases List.mem_append.mp ht with ht | ht
    · exact hNew t (hQueue ▸ ht)
    · obtain rfl := List.mem_singleton.mp ht
      exact ⟨le_rfl, by simp⟩
  · refine ⟨fun l hl => (Option.some.inj hl).ge, fun t ht => hNew t (hQueue ▸ ht)⟩
  · exact ⟨hLast, by simpa only [hQueue] using hOld⟩

theorem Past.apply {bound : Int} {p : Progress} (h : Past bound p) :
    Past bound (applyQueued p) := by
  unfold applyQueued
  cases hQueue : p.store.queue with
  | nil => exact h
  | cons t rest =>
      have hRest : ∀ t' ∈ rest, t' ≤ bound ∧ t' ∈ p.acked := fun t' ht' =>
        h.queue t' (by simp [hQueue, ht'])
      simp only
      split
      · refine ⟨fun l hl => ?_, hRest⟩
        have hEq : t = l := Option.some.inj hl
        exact hEq ▸ (h.queue t (by simp [hQueue])).1
      · exact ⟨h.last, hRest⟩

/-! ## Runs without overtaking -/

/-- The queue is in order and behind the file, so the file will take all of it. -/
structure InOrder (p : Progress) : Prop where
  refused : p.refused = []
  sorted : p.store.queue.Pairwise (· < ·)
  behind : ∀ t ∈ p.store.queue, p.store.accepts t = true

theorem accepts_iff {s : Store} {t : Int} : s.accepts t = true ↔ ∃ l ∈ s.last, l < t := by
  unfold Store.accepts
  cases s.last <;> simp

/-- A file older than the call takes its sample. -/
theorem Prepared.accepts_now {printf : Printf D} {w : Writer} {bound : Int} {p : Progress}
    {m : Metric D} {c : Call} {s : Store} (h : Prepared printf w p m c s) (hPast : Past bound p)
    (hNow : bound < c.now) (hReady : (writerPrepare printf w p.store m c).1 = true) :
    s.accepts c.now = true := by
  rw [accepts_iff]
  rcases h with ⟨rfl, hFile⟩ | ⟨-, rfl⟩
  · obtain ⟨l, hl⟩ := Option.ne_none_iff_exists'.mp (hFile hReady)
    have := hPast.last l hl
    exact ⟨l, hl, by omega⟩
  · exact ⟨c.now - 1, rfl, by omega⟩

theorem InOrder.apply {p : Progress} (h : InOrder p) : InOrder (applyQueued p) := by
  unfold applyQueued
  cases hQueue : p.store.queue with
  | nil => exact h
  | cons t rest =>
      have hAccepts := h.behind t (by simp [hQueue])
      have hSorted := h.sorted
      rw [hQueue, List.pairwise_cons] at hSorted
      simp only [if_pos hAccepts]
      exact ⟨h.refused, hSorted.2, fun t' ht' => accepts_iff.mpr ⟨t, rfl, hSorted.1 t' ht'⟩⟩

/-- A call keeps the order if it does not fall back in front of a queue. -/
theorem InOrder.write {printf : Printf D} {w : Writer} {bound : Int} {p : Progress}
    {m : Metric D} {c : Call} (h : InOrder p) (hPast : Past bound p) (hNow : bound < c.now)
    (hDrained : FallsBack printf w p.store m c → p.store.queue = []) :
    InOrder (stepEvent printf w p (.write m c)) := by
  obtain ⟨s, hs, hStep⟩ := stepEvent_write_cases printf w p m c
  have hQueue := hs.queue
  -- a file that is created has no queue, since a missing file accepts nothing
  have hBehind : ∀ t ∈ s.queue, s.accepts t = true := by
    intro t ht
    rw [hQueue] at ht
    have hAccepts := h.behind t ht
    rcases hs with ⟨rfl, -⟩ | ⟨hNone, rfl⟩
    · exact hAccepts
    · simp [Store.accepts, hNone] at hAccepts
  have hSorted : s.queue.Pairwise (· < ·) := hQueue ▸ h.sorted
  rcases hStep with ⟨-, hStep⟩ | ⟨hReady, -, hStep⟩ | ⟨hBack, -, hStep⟩ | ⟨hBack, -, hStep⟩ <;>
    rw [hStep]
  · exact ⟨h.refused, hSorted, hBehind⟩
  · -- the daemon takes the sample: it goes behind everything queued
    refine ⟨h.refused, ?_, ?_⟩
    · refine List.pairwise_append.mpr ⟨hSorted, List.pairwise_singleton _ _, ?_⟩
      intro t ht t' ht'
      obtain rfl := List.mem_singleton.mp ht'
      have := (hPast.queue t (hQueue ▸ ht)).1
      omega
    · intro t ht
      rcases List.mem_append.mp ht with ht | ht
      · exact hBehind t ht
      · obtain rfl := List.mem_singleton.mp ht
        exact hs.accepts_now hPast hNow hReady
  · -- a direct update moves the file past its queue, which is empty here
    have hEmpty : s.queue = [] := hQueue.trans (hDrained hBack)
    exact ⟨h.refused, by simp [hEmpty], by simp [hEmpty]⟩
  · exact ⟨h.refused, hSorted, hBehind⟩

/-! ## Runs with overtaking -/

/-- Some acknowledged sample was refused, or is next in the queue and already
older than the file. -/
def Doomed (p : Progress) : Prop :=
  ∃ t ∈ p.acked, t ∈ p.refused ∨
    ∃ rest l, p.store.queue = t :: rest ∧ p.store.last = some l ∧ t < l

theorem Doomed.write {printf : Printf D} {w : Writer} {p : Progress} (m : Metric D) (c : Call)
    (h : Doomed p) : Doomed (stepEvent printf w p (.write m c)) := by
  obtain ⟨t, hAcked, hLost⟩ := h
  obtain ⟨s, hs, hStep⟩ := stepEvent_write_cases printf w p m c
  have hMore : t ∈ p.acked ++ [c.now] := by simp [hAcked]
  rcases hLost with hRefused | ⟨rest, l, hQueue, hLast, hlt⟩
  · rcases hStep with ⟨-, hStep⟩ | ⟨-, -, hStep⟩ | ⟨-, -, hStep⟩ | ⟨-, -, hStep⟩ <;> rw [hStep]
    · exact ⟨t, hAcked, Or.inl hRefused⟩
    · exact ⟨t, hMore, Or.inl hRefused⟩
    · exact ⟨t, hMore, Or.inl hRefused⟩
    · exact ⟨t, hAcked, Or.inl hRefused⟩
  · -- the overtaken sample has a file, so none is created
    obtain rfl : s = p.store := by
      rcases hs with ⟨rfl, -⟩ | ⟨hNone, -⟩
      · rfl
      · rw [hLast] at hNone
        contradiction
    rcases hStep with ⟨-, hStep⟩ | ⟨-, -, hStep⟩ | ⟨-, hAccepts, hStep⟩ | ⟨-, -, hStep⟩ <;>
      rw [hStep]
    · exact ⟨t, hAcked, Or.inr ⟨rest, l, hQueue, hLast, hlt⟩⟩
    · exact ⟨t, hMore, Or.inr ⟨rest ++ [c.now], l, by simp [hQueue], hLast, hlt⟩⟩
    · obtain ⟨l', hl', hlt'⟩ := accepts_iff.mp hAccepts
      have hEq : l = l' := Option.some.inj (hLast.symm.trans hl')
      exact ⟨t, hMore, Or.inr ⟨rest, c.now, hQueue, rfl, by omega⟩⟩
    · exact ⟨t, hAcked, Or.inr ⟨rest, l, hQueue, hLast, hlt⟩⟩

theorem Doomed.apply {p : Progress} (h : Doomed p) :
    ∃ t ∈ (applyQueued p).acked, t ∈ (applyQueued p).refused := by
  obtain ⟨t, hAcked, hLost⟩ := h
  unfold applyQueued
  rcases hLost with hRefused | ⟨rest, l, hQueue, hLast, hlt⟩
  · cases p.store.queue with
    | nil => exact ⟨t, hAcked, hRefused⟩
    | cons t' rest =>
        simp only
        split
        · exact ⟨t, hAcked, hRefused⟩
        · exact ⟨t, hAcked, by simp [hRefused]⟩
  · have hAccepts : ¬ p.store.accepts t = true := by
      rw [accepts_iff]
      rintro ⟨l', hl', hlt'⟩
      have hEq : l = l' := Option.some.inj (hLast.symm.trans hl')
      omega
    rw [hQueue]
    simp only [if_neg hAccepts]
    exact ⟨t, hAcked, by simp⟩

theorem Doomed.step {printf : Printf D} {w : Writer} {p : Progress} (e : Event D)
    (h : Doomed p) : Doomed (stepEvent printf w p e) := by
  cases e with
  | write m c => exact h.write m c
  | apply =>
      obtain ⟨t, hAcked, hRefused⟩ := h.apply
      exact ⟨t, hAcked, Or.inl hRefused⟩

theorem Doomed.run (printf : Printf D) (w : Writer) {p : Progress} (trace : List (Event D))
    (h : Doomed p) : Doomed (runEvents printf w p trace) := by
  induction trace generalizing p with
  | nil => exact h
  | cons e trace ih => exact ih (h.step e)

/-- Falling back in front of a queue overtakes its head. -/
theorem doomed_of_fallsBack {printf : Printf D} {w : Writer} {bound : Int} {p : Progress}
    {m : Metric D} {c : Call} (hPast : Past bound p) (hNow : bound < c.now)
    (hBack : FallsBack printf w p.store m c) (hQueue : p.store.queue ≠ []) :
    Doomed (stepEvent printf w p (.write m c)) := by
  obtain ⟨s, hs, hStep⟩ := stepEvent_write_cases printf w p m c
  obtain ⟨t, rest, hCons⟩ := List.exists_cons_of_ne_nil hQueue
  have ht := hPast.queue t (by simp [hCons])
  -- the file is older than the call, so the direct update goes through
  have hAccepts := hs.accepts_now hPast hNow hBack.1
  rcases hStep with ⟨hReady, -⟩ | ⟨-, hOk, -⟩ | ⟨-, -, hStep⟩ | ⟨-, hRefuses, -⟩
  · rw [hBack.1] at hReady
    contradiction
  · exact absurd hOk hBack.2
  · rw [hStep]
    exact ⟨t, by simp [ht.2], Or.inr ⟨rest, c.now, hs.queue.trans hCons, rfl, by omega⟩⟩
  · rw [hAccepts] at hRefuses
    contradiction

/-! ## Whole runs -/

/-- Calls that fall back find the queue empty. -/
def FallbacksDrained (printf : Printf D) (w : Writer) (p : Progress) (trace : List (Event D)) :
    Prop :=
  ∀ before m c after, trace = before ++ .write m c :: after →
    FallsBack printf w (runEvents printf w p before).store m c →
      (runEvents printf w p before).store.queue = []

section Runs

variable {printf : Printf D} {w : Writer} {bound : Int} {p : Progress} {trace : List (Event D)}

theorem past_run (printf : Printf D) (w : Writer) (h : Past bound p)
    (hTimes : (bound :: seconds trace).Pairwise (· < ·)) :
    ∃ b ∈ bound :: seconds trace, Past b (runEvents printf w p trace) := by
  induction trace generalizing bound p with
  | nil => exact ⟨bound, by simp, h⟩
  | cons e trace ih =>
      cases e with
      | write m c =>
          have hTimes' : (bound :: c.now :: seconds trace).Pairwise (· < ·) := hTimes
          rw [List.pairwise_cons] at hTimes'
          have hNow : bound < c.now := hTimes'.1 c.now (by simp)
          obtain ⟨b, hb, hPast⟩ := ih (h.write printf w m hNow) hTimes'.2
          exact ⟨b, List.mem_cons_of_mem _ hb, hPast⟩
      | apply => exact ih h.apply hTimes

/-- A call behind everything in the store succeeds exactly if it gets as far as the update. -/
theorem writerWrite_eq_zero_iff (hPast : Past bound p) (m : Metric D) {c : Call}
    (hNow : bound < c.now) :
    (writerWrite printf w p.store m c).1 = 0 ↔
      (writerPrepare printf w p.store m c).1 = true := by
  have hPrepared : Prepared printf w p m c (writerPrepare printf w p.store m c).2 := by
    rcases writerPrepare_cases printf w p.store m c with ⟨hStore, hFile⟩ | hCreated
    · exact Or.inl ⟨hStore, by rwa [hStore]⟩
    · exact Or.inr hCreated
  cases hReady : (writerPrepare printf w p.store m c).1 with
  | false => simp [writerWrite, hReady]
  | true =>
      have hAccepts := hPrepared.accepts_now hPast hNow hReady
      have hWrite : writerWrite printf w p.store m c =
          writerUpdate w (writerPrepare printf w p.store m c).2 c := by
        simp [writerWrite, hReady]
      rw [hWrite, iff_true_right rfl]
      rcases writerUpdate_cases w (writerPrepare printf w p.store m c).2 c with
        ⟨-, hUpdate⟩ | ⟨-, hUpdate⟩
      · rw [hUpdate]
      · rw [hUpdate, if_pos hAccepts]

/-- So does every call of a run, and no direct update is refused. -/
theorem calls_succeed (hPast : Past bound p)
    (hTimes : (bound :: seconds trace).Pairwise (· < ·)) {before after : List (Event D)}
    {m : Metric D} {c : Call} (hSplit : trace = before ++ .write m c :: after) :
    (writerWrite printf w (runEvents printf w p before).store m c).1 = 0 ↔
      (writerPrepare printf w (runEvents printf w p before).store m c).1 = true := by
  have hSeconds : bound :: seconds trace =
      (bound :: seconds before) ++ (c.now :: seconds after) := by
    rw [hSplit]
    simp [seconds]
  rw [hSeconds, List.pairwise_append] at hTimes
  obtain ⟨b, hb, hBefore⟩ := past_run printf w hPast hTimes.1
  exact writerWrite_eq_zero_iff hBefore m (hTimes.2.2 b hb c.now List.mem_cons_self)

/-- In a run without overtaking everything stays in order. -/
theorem inOrder_run (h : InOrder p) (hPast : Past bound p)
    (hTimes : (bound :: seconds trace).Pairwise (· < ·))
    (hDrained : FallbacksDrained printf w p trace) : InOrder (runEvents printf w p trace) := by
  induction trace generalizing bound p with
  | nil => exact h
  | cons e trace ih =>
      have hRest : FallbacksDrained printf w (stepEvent printf w p e) trace := by
        intro before m c after hSplit hBack
        exact hDrained (e :: before) m c after (by simp [hSplit]) hBack
      cases e with
      | write m c =>
          have hTimes' : (bound :: c.now :: seconds trace).Pairwise (· < ·) := hTimes
          rw [List.pairwise_cons] at hTimes'
          have hNow : bound < c.now := hTimes'.1 c.now (by simp)
          have hHead : FallsBack printf w p.store m c → p.store.queue = [] :=
            hDrained [] m c trace rfl
          exact ih (h.write hPast hNow hHead) (hPast.write printf w m hNow) hTimes'.2 hRest
      | apply => exact ih h.apply hPast.apply hTimes hRest

theorem inOrder_applies (printf : Printf D) (w : Writer) (h : InOrder p) (k : Nat) :
    InOrder (runEvents printf w p (List.replicate k .apply)) := by
  induction k generalizing p with
  | zero => exact h
  | succ k ih => exact ih h.apply

omit [Inhabited D] in
/-- A second before every call: the file's own, or any if there is no file yet. -/
theorem exists_past_start {start : Store} (hEmpty : start.queue = [])
    (hTimes : (seconds trace).Pairwise (· < ·))
    (hLater : ∀ l ∈ start.last, ∀ t ∈ seconds trace, l < t) :
    ∃ bound, (bound :: seconds trace).Pairwise (· < ·) ∧ Past bound (Progress.start start) := by
  cases hLast : start.last with
  | some l =>
      refine ⟨l, List.pairwise_cons.mpr ⟨hLater l hLast, hTimes⟩, ?_, ?_⟩
      · simp [Progress.start, hLast]
      · simp [Progress.start, hEmpty]
  | none =>
      refine ⟨(seconds trace).headD 0 - 1, List.pairwise_cons.mpr ⟨?_, hTimes⟩, ?_, ?_⟩
      · cases hSeconds : seconds trace with
        | nil => simp
        | cons first rest =>
            rw [hSeconds, List.pairwise_cons] at hTimes
            intro t ht
            rcases List.mem_cons.mp ht with rfl | ht
            · simp
            · have := hTimes.1 t ht
              simp only [List.headD_cons]
              omega
      · simp [Progress.start, hLast]
      · simp [Progress.start, hEmpty]

/-- A fallback in front of a queue overtakes its head, and one more `apply` refuses it. -/
theorem lost_of_overtaking (hPast : Past bound p) {before after : List (Event D)} {m : Metric D}
    {c : Call} (hTimes : (bound :: seconds (before ++ .write m c :: after)).Pairwise (· < ·))
    (hBack : FallsBack printf w (runEvents printf w p before).store m c)
    (hQueue : (runEvents printf w p before).store.queue ≠ []) :
    ¬ NoneLost (runEvents printf w p (before ++ .write m c :: after ++ List.replicate 1 .apply)) := by
  have hSeconds : seconds (before ++ .write m c :: after) =
      seconds before ++ c.now :: seconds after := by
    simp [seconds]
  rw [hSeconds, ← List.cons_append, List.pairwise_append] at hTimes
  obtain ⟨b, hb, hPastBefore⟩ := past_run printf w hPast hTimes.1
  have hNow : b < c.now := hTimes.2.2 b hb c.now (by simp)
  have hDoomed := (doomed_of_fallsBack hPastBefore hNow hBack hQueue).run printf w after
  obtain ⟨t, hAcked, hRefused⟩ := hDoomed.apply
  have hRun : runEvents printf w p (before ++ .write m c :: after ++ List.replicate 1 .apply) =
      applyQueued (runEvents printf w
        (stepEvent printf w (runEvents printf w p before) (.write m c)) after) := by
    rw [runEvents, List.foldl_append, List.foldl_append]
    rfl
  rw [hRun]
  exact fun hNoneLost => hNoneLost t hAcked hRefused

end Runs

/-- **Samples survive outages iff fallbacks wait for the queue.**  Take any calls
at increasing seconds, later than what the file holds, and any moments at which
the daemon applies its queue.  Every acknowledged sample is accepted, also by
whatever the daemon applies afterwards, iff each call that falls back to a direct
update finds the daemon's queue for the file empty. -/
theorem noneLost_iff_fallbacksDrained {printf : Printf D} {w : Writer} {start : Store}
    {trace : List (Event D)} (hEmpty : start.queue = [])
    (hTimes : (seconds trace).Pairwise (· < ·))
    (hLater : ∀ l ∈ start.last, ∀ t ∈ seconds trace, l < t) :
    (∀ k, NoneLost
        (runEvents printf w (Progress.start start) (trace ++ List.replicate k .apply))) ↔
      FallbacksDrained printf w (Progress.start start) trace := by
  obtain ⟨bound, hBound, hPast⟩ := exists_past_start hEmpty hTimes hLater
  constructor
  · intro hNone before m c after hSplit hBack
    by_contra hQueue
    rw [hSplit] at hBound hNone
    exact lost_of_overtaking hPast hBound hBack hQueue (hNone 1)
  · -- without overtaking the queue stays in order, and nothing is ever refused
    intro hDrained k t _ hRefused
    have hStart : InOrder (Progress.start start) :=
      ⟨rfl, by simp [Progress.start, hEmpty], by simp [Progress.start, hEmpty]⟩
    have hOrder := inOrder_applies printf w (inOrder_run hStart hPast hBound hDrained) k
    have hRun : runEvents printf w (Progress.start start) (trace ++ List.replicate k .apply) =
        runEvents printf w (runEvents printf w (Progress.start start) trace)
          (List.replicate k .apply) := List.foldl_append
    rw [hRun, hOrder.refused] at hRefused
    simp at hRefused

/-! ## Two outages -/

/-- A writer with a daemon. -/
def daemonWriter : Writer :=
  writerInit (ascii "/rrd") (ascii "web1") (some (ascii "unix:/run/rrdcached.sock"))

def uptimeMetric : Metric Double :=
  { plugin := ascii "uptime", pluginInstance := none, type := ascii "uptime"
    typeInstance := none, dsCount := 1, values := [.finite 3600] }

def uptimeWrite (now : Int) (reply : DaemonReply) : Event Double :=
  .write uptimeMetric { now := now, createOk := true, reply := reply }

/-- The daemon acknowledges at second 10, is away at second 15, and then applies
what it holds: the file already has second 15 and refuses second 10. -/
theorem outage_loses_sample :
    daemonWriter.rrdcached ≠ [] ∧
      (seconds [uptimeWrite 10 .ok, uptimeWrite 15 .unreachable, .apply]).Pairwise (· < ·) ∧
      runEvents integralPrintf daemonWriter (Progress.start ⟨none, []⟩)
          [uptimeWrite 10 .ok, uptimeWrite 15 .unreachable, .apply] =
        { store := ⟨some 15, []⟩, acked := [10, 15], refused := [10] } ∧
      ¬ NoneLost (runEvents integralPrintf daemonWriter (Progress.start ⟨none, []⟩)
          [uptimeWrite 10 .ok, uptimeWrite 15 .unreachable, .apply]) := by
  decide +kernel

/-- If the daemon has applied its queue before the outage nothing is lost. -/
theorem drained_outage_loses_nothing :
    daemonWriter.rrdcached ≠ [] ∧
      ∀ k, NoneLost (runEvents integralPrintf daemonWriter (Progress.start ⟨none, []⟩)
        ([uptimeWrite 10 .ok, .apply, uptimeWrite 15 .unreachable] ++
          List.replicate k .apply)) := by
  refine ⟨by decide,
    (noneLost_iff_fallbacksDrained rfl (by decide) (by simp)).mpr ?_⟩
  intro before m c after hSplit hBack
  match before with
  | [] =>
      simp only [List.nil_append, List.cons.injEq, uptimeWrite, Event.write.injEq] at hSplit
      obtain ⟨⟨-, rfl⟩, -⟩ := hSplit
      exact absurd ⟨by decide, rfl⟩ hBack.2
  | [_] => simp at hSplit
  | [_, _] =>
      simp only [List.cons_append, List.nil_append, List.cons.injEq] at hSplit
      obtain ⟨rfl, rfl, -⟩ := hSplit
      decide +kernel
  | _ :: _ :: _ :: _ => simp at hSplit

end SvgdCollect
