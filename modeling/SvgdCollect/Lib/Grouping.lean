import Mathlib.Data.List.Nodup
import Mathlib.Data.List.Perm.Basic
import Mathlib.Data.List.Dedup
import Mathlib.Data.Finset.Card
import Mathlib.Algebra.BigOperators.Group.List.Lemmas
import Mathlib.Algebra.GroupWithZero.Nat

/-!
# Grouping in order of first appearance

A stream of samples is grouped by key in a table of bounded size: a sample whose
key has a slot is added to it, a sample with a new key gets a fresh slot at the end
while there is room, and is dropped otherwise.  `foldl_step` says what the table
holds after any stream: the slots of the first `cap` distinct keys, each with the
whole group of its key.
-/

namespace SvgdCollect
namespace Lib

/-! ## Distinct keys -/

section Distinct

variable {κ : Type} [DecidableEq κ]

/-- The distinct keys in order of first appearance. -/
def firstSeen (keys : List κ) : List κ := keys.eraseDups

@[simp] theorem mem_firstSeen {keys : List κ} {k : κ} : k ∈ firstSeen keys ↔ k ∈ keys :=
  List.mem_eraseDups

theorem firstSeen_concat (keys : List κ) (k : κ) :
    firstSeen (keys ++ [k]) = if k ∈ keys then firstSeen keys else firstSeen keys ++ [k] := by
  rw [firstSeen, List.eraseDups_append]
  by_cases hMem : k ∈ keys <;> simp [hMem, firstSeen, List.removeAll, List.eraseDups_cons]

/-- A key that has been seen before changes nothing. -/
theorem firstSeen_append_cons {before : List κ} (after : List κ) {k : κ} (h : k ∈ before) :
    firstSeen (before ++ k :: after) = firstSeen (before ++ after) := by
  induction after using List.reverseRecOn with
  | nil => rw [firstSeen_concat, if_pos h, List.append_nil]
  | append_singleton after k' ih =>
      have hMem : k' ∈ before ++ k :: after ↔ k' ∈ before ++ after := by
        simp only [List.mem_append, List.mem_cons]
        constructor
        · rintro (hBefore | rfl | hAfter)
          · exact Or.inl hBefore
          · exact Or.inl h
          · exact Or.inr hAfter
        · exact fun hEither => hEither.imp_right Or.inr
      have hAssoc : before ++ k :: (after ++ [k']) = (before ++ k :: after) ++ [k'] := by simp
      rw [hAssoc, firstSeen_concat, ← List.append_assoc, firstSeen_concat, ih]
      simp only [hMem]

theorem nodup_firstSeen (keys : List κ) : (firstSeen keys).Nodup := by
  induction keys using List.reverseRecOn with
  | nil => exact List.nodup_nil
  | append_singleton keys k ih =>
      rw [firstSeen_concat]
      split
      · exact ih
      · rename_i hMem
        have hApart : ∀ k' ∈ keys, k' ≠ k := fun k' hk' hEq => hMem (hEq ▸ hk')
        exact List.nodup_append.mpr ⟨ih, by simp, by simpa using hApart⟩

theorem firstSeen_of_nodup {keys : List κ} (h : keys.Nodup) : firstSeen keys = keys := by
  induction keys using List.reverseRecOn with
  | nil => rfl
  | append_singleton keys k ih =>
      obtain ⟨hFront, -, hApart⟩ := List.nodup_append.mp h
      have hNew : k ∉ keys := fun hMem => hApart k hMem k List.mem_cons_self rfl
      rw [firstSeen_concat, if_neg hNew, ih hFront]

theorem firstSeen_perm_dedup (keys : List κ) : (firstSeen keys).Perm keys.dedup :=
  (List.perm_ext_iff_of_nodup (nodup_firstSeen keys) (List.nodup_dedup keys)).mpr (by simp)

theorem firstSeen_perm {keys keys' : List κ} (h : keys.Perm keys') :
    (firstSeen keys).Perm (firstSeen keys') :=
  (List.perm_ext_iff_of_nodup (nodup_firstSeen keys) (nodup_firstSeen keys')).mpr
    (by simp [h.mem_iff])

theorem length_firstSeen (keys : List κ) : (firstSeen keys).length = keys.toFinset.card := by
  rw [(firstSeen_perm_dedup keys).length_eq, List.card_toFinset]

/-- The groups of the first `cap` keys hold the whole stream exactly if there are no
other keys. -/
theorem sum_group_lengths_take (cap : Nat) (keys : List κ) :
    (((firstSeen keys).take cap).map fun k => (keys.filter fun k' => k' = k).length).sum =
        keys.length ↔ keys.toFinset.card ≤ cap := by
  have hGroup : ∀ k, (keys.filter fun k' => k' = k).length = keys.count k := fun k =>
    List.count_eq_length_filter.symm
  have hAll : ((firstSeen keys).map fun k => keys.count k).sum = keys.length := by
    rw [((firstSeen_perm_dedup keys).map _).sum_eq]
    exact List.sum_map_count_dedup_eq_length keys
  simp only [hGroup]
  rw [← length_firstSeen]
  constructor
  · -- a key behind the first `cap` has a group of its own, which the sum misses
    intro hSum
    by_contra hMore
    have hSplit := congrArg (fun l => (l.map fun k => keys.count k).sum)
      (List.take_append_drop cap (firstSeen keys))
    simp only [List.map_append, List.sum_append] at hSplit
    obtain ⟨k, rest, hDrop⟩ := List.exists_cons_of_length_pos
      (show 0 < ((firstSeen keys).drop cap).length by rw [List.length_drop]; omega)
    have hMem : k ∈ keys := by
      rw [← mem_firstSeen]
      exact List.mem_of_mem_drop (hDrop ▸ List.mem_cons_self)
    have hPos : 0 < keys.count k := List.count_pos_iff.mpr hMem
    rw [hDrop, List.map_cons, List.sum_cons] at hSplit
    omega
  · intro hCap
    rw [List.take_of_length_le hCap, hAll]

end Distinct

/-! ## The table -/

/-- How samples are grouped: their key, the slots, and how a sample is added. -/
structure Grouping (σ κ τ : Type) where
  key : σ → κ
  slotKey : τ → κ
  fresh : κ → τ
  add : τ → σ → τ
  slotKey_add : ∀ slot s, slotKey (add slot s) = slotKey slot

namespace Grouping

variable {σ κ τ : Type} (g : Grouping σ κ τ)

theorem slotKey_foldl (slot : τ) (stream : List σ) :
    g.slotKey (stream.foldl g.add slot) = g.slotKey slot := by
  induction stream generalizing slot with
  | nil => rfl
  | cons s stream ih => rw [List.foldl_cons, ih, g.slotKey_add]

variable [DecidableEq κ]

def step (cap : Nat) (table : List τ) (s : σ) : List τ :=
  match table.findIdx? fun slot => g.slotKey slot = g.key s with
  | some i => table.modify i (g.add · s)
  | none => if table.length ≥ cap then table else table ++ [g.add (g.fresh (g.key s)) s]

/-- The slot of a key after a stream without bound on the table. -/
def slot (stream : List σ) (k : κ) : τ :=
  (stream.filter fun s => g.key s = k).foldl g.add (g.fresh k)

theorem slotKey_slot (stream : List σ) {k : κ} (hFresh : g.slotKey (g.fresh k) = k) :
    g.slotKey (g.slot stream k) = k := by
  rw [slot, slotKey_foldl, hFresh]

theorem slot_concat_self (stream : List σ) (s : σ) :
    g.slot (stream ++ [s]) (g.key s) = g.add (g.slot stream (g.key s)) s := by
  simp [slot, List.filter_append]

theorem slot_concat_of_ne (stream : List σ) {s : σ} {k : κ} (h : k ≠ g.key s) :
    g.slot (stream ++ [s]) k = g.slot stream k := by
  simp [slot, List.filter_append, Ne.symm h]

theorem slot_of_notMem {stream : List σ} {k : κ} (h : k ∉ stream.map g.key) :
    g.slot stream k = g.fresh k := by
  have hEmpty : (stream.filter fun s => g.key s = k) = [] := by
    rw [List.filter_eq_nil_iff]
    intro s hs
    have hne : g.key s ≠ k := fun hk => h (hk ▸ List.mem_map_of_mem hs)
    simpa using hne
  rw [slot, hEmpty, List.foldl_nil]

theorem step_of_mem (cap : Nat) (stream : List σ) (s : σ) {keys : List κ}
    (hNodup : keys.Nodup) (hFresh : ∀ k ∈ keys, g.slotKey (g.fresh k) = k)
    (hMem : g.key s ∈ keys) :
    g.step cap (keys.map (g.slot stream)) s = keys.map (g.slot (stream ++ [s])) := by
  obtain ⟨front, back, rfl⟩ := List.append_of_mem hMem
  have hOther : ∀ k ∈ front ++ back, k ≠ g.key s := by
    intro k hk hEq
    rw [List.nodup_middle, List.nodup_cons, ← hEq] at hNodup
    exact hNodup.1 hk
  have hFront : ∀ k ∈ front, ¬ g.slotKey (g.slot stream k) = g.key s := by
    intro k hk
    rw [g.slotKey_slot stream (hFresh k (by simp [hk]))]
    exact hOther k (by simp [hk])
  have hFind : ((front ++ g.key s :: back).map (g.slot stream)).findIdx?
      (fun slot => g.slotKey slot = g.key s) = some front.length := by
    rw [List.map_append, List.findIdx?_append,
      List.findIdx?_eq_none_iff.mpr (by simpa using hFront)]
    simp [List.findIdx?_cons, g.slotKey_slot stream (hFresh (g.key s) (by simp))]
  have hKeep : ∀ part : List κ, (∀ k ∈ part, k ∈ front ++ back) →
      part.map (g.slot (stream ++ [s])) = part.map (g.slot stream) := fun part hPart =>
    List.map_congr_left fun k hk => g.slot_concat_of_ne stream (hOther k (hPart k hk))
  rw [step, hFind]
  simp only [List.map_append, List.map_cons]
  rw [hKeep front (by simp +contextual), hKeep back (by simp +contextual), slot_concat_self]
  have hLength : front.length = (front.map (g.slot stream)).length := by simp
  rw [hLength, List.modify_eq_take_cons_drop (by simp), List.take_left]
  simp [List.drop_append]

theorem step_of_notMem (cap : Nat) (stream : List σ) (s : σ) {keys : List κ}
    (hFresh : ∀ k ∈ keys, g.slotKey (g.fresh k) = k) (hMem : g.key s ∉ keys) :
    g.step cap (keys.map (g.slot stream)) s =
      if keys.length ≥ cap then keys.map (g.slot stream)
      else keys.map (g.slot stream) ++ [g.add (g.fresh (g.key s)) s] := by
  have hFind : (keys.map (g.slot stream)).findIdx? (fun slot => g.slotKey slot = g.key s) =
      none := by
    rw [List.findIdx?_eq_none_iff]
    intro slot hSlot
    obtain ⟨k, hk, rfl⟩ := List.mem_map.mp hSlot
    rw [g.slotKey_slot stream (hFresh k hk)]
    exact decide_eq_false fun hEq => hMem (hEq ▸ hk)
  rw [step, hFind]
  simp only [List.length_map]

/-- The table after a stream. -/
theorem foldl_step (cap : Nat) (stream : List σ)
    (hFresh : ∀ s ∈ stream, g.slotKey (g.fresh (g.key s)) = g.key s) :
    stream.foldl (g.step cap) [] =
      ((firstSeen (stream.map g.key)).take cap).map (g.slot stream) := by
  -- by induction on the stream from its end, as the table depends on what came before
  induction stream using List.reverseRecOn with
  | nil => simp [firstSeen]
  | append_singleton stream s ih =>
      have hKeys : ∀ k ∈ (firstSeen (stream.map g.key)).take cap, g.slotKey (g.fresh k) = k := by
        intro k hk
        have hSeen := mem_firstSeen.mp (List.mem_of_mem_take hk)
        obtain ⟨s', hs', rfl⟩ := List.mem_map.mp hSeen
        exact hFresh s' (by simp [hs'])
      have hNodup : ((firstSeen (stream.map g.key)).take cap).Nodup :=
        (nodup_firstSeen _).sublist (List.take_sublist _ _)
      rw [List.foldl_append, ih fun s' hs' => hFresh s' (by simp [hs']), List.foldl_cons,
        List.foldl_nil, List.map_append, List.map_singleton, firstSeen_concat]
      by_cases hSlot : g.key s ∈ (firstSeen (stream.map g.key)).take cap
      · rw [g.step_of_mem cap stream s hNodup hKeys hSlot,
          if_pos (mem_firstSeen.mp (List.mem_of_mem_take hSlot))]
      · have hKeep : ∀ k ∈ (firstSeen (stream.map g.key)).take cap,
            g.slot (stream ++ [s]) k = g.slot stream k := fun k hk =>
          g.slot_concat_of_ne stream fun hEq => hSlot (hEq ▸ hk)
        rw [g.step_of_notMem cap stream s hKeys hSlot]
        by_cases hFull : ((firstSeen (stream.map g.key)).take cap).length ≥ cap
        · -- a full table takes no further key
          have hTake : ∀ rest, (firstSeen (stream.map g.key) ++ rest).take cap =
              (firstSeen (stream.map g.key)).take cap := by
            intro rest
            rw [List.length_take] at hFull
            exact List.take_append_of_le_length (by omega)
          rw [if_pos hFull]
          split
          · exact (List.map_congr_left hKeep).symm
          · rw [hTake, List.map_congr_left hKeep]
        · -- with room left the table holds every key so far, and this one is new
          have hAll : (firstSeen (stream.map g.key)).take cap = firstSeen (stream.map g.key) := by
            rw [List.length_take] at hFull
            exact List.take_of_length_le (by omega)
          have hNew : g.key s ∉ stream.map g.key := by
            rwa [hAll, mem_firstSeen] at hSlot
          rw [if_neg hFull, if_neg hNew]
          rw [hAll] at hKeep hFull ⊢
          rw [List.take_of_length_le (by simp at hFull ⊢; omega), List.map_append,
            List.map_congr_left hKeep, List.map_singleton, slot_concat_self, slot_of_notMem g hNew]

/-- Where the order of additions does not matter, neither does the order of the
stream, as long as every key gets a slot. -/
theorem foldl_step_perm [RightCommutative g.add] {cap : Nat} {stream stream' : List σ}
    (hFresh : ∀ s ∈ stream, g.slotKey (g.fresh (g.key s)) = g.key s)
    (hPerm : stream.Perm stream') (hCap : (stream.map g.key).toFinset.card ≤ cap) :
    (stream.foldl (g.step cap) []).Perm (stream'.foldl (g.step cap) []) := by
  have hKeys := hPerm.map g.key
  have hSlot : g.slot stream = g.slot stream' := by
    funext k
    exact (hPerm.filter _).foldl_eq _
  rw [g.foldl_step cap stream hFresh,
    g.foldl_step cap stream' fun s hs => hFresh s (hPerm.mem_iff.mpr hs), hSlot,
    List.take_of_length_le (by rwa [length_firstSeen]),
    List.take_of_length_le (by rwa [← (firstSeen_perm hKeys).length_eq, length_firstSeen])]
  exact (firstSeen_perm hKeys).map _

end Grouping
end Lib
end SvgdCollect
