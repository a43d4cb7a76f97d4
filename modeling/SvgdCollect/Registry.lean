import SvgdCollect.Lib.Bytes
import SvgdCollect.Lib.Grouping
import Mathlib.Data.List.Nodup

/-!
# The registry of readers

`registry.c` maps names to readers and builds the list of the enabled ones from the
names in the configuration.
-/

namespace SvgdCollect

open Lib

/-- The readers; `reader_t` pointers are compared by identity. -/
inductive Reader
  | cpu
  | load
  | uptime
  | memory
  | swap
  | interface
  | disk
  | df
  | processes
  | thermal
  | tcpconns
  deriving DecidableEq, Repr

/-- `REGISTRY`. -/
def registry : List (Bytes × Reader) :=
  [(ascii "cpu", .cpu), (ascii "load", .load), (ascii "uptime", .uptime),
    (ascii "memory", .memory), (ascii "swap", .swap), (ascii "interface", .interface),
    (ascii "disk", .disk), (ascii "df", .df), (ascii "processes", .processes),
    (ascii "thermal", .thermal), (ascii "tcpconns", .tcpconns)]

/-- `registry_find`. -/
def registryFind (name : Option Bytes) : Option Reader :=
  match name with
  | none => none
  | some name => (registry.find? fun e => strcmp name e.1 = 0).map Prod.snd

/-- `registry_count`. -/
def registryCount : Nat := registry.length

/-- One requested name: the reader is appended unless it is unknown, there already, or
`out` is full. -/
def enableReader (max : Nat) (out : List Reader) (want : Option Bytes) : List Reader :=
  match registryFind want with
  | none => out
  | some r => if r ∈ out then out else if out.length < max then out ++ [r] else out

/-- `collect_build_enabled`: the readers written to `out`.  A null or empty list of
names enables every reader. -/
def collectBuildEnabled (readers : Option (List (Option Bytes))) (max : Nat) : List Reader :=
  match readers with
  | none => (registry.map Prod.snd).take max
  | some [] => (registry.map Prod.snd).take max
  | some names => names.foldl (enableReader max) []

theorem enableReader_nodup {max : Nat} {out : List Reader} (h : out.Nodup) (want : Option Bytes) :
    (enableReader max out want).Nodup := by
  unfold enableReader
  split
  · exact h
  · rename_i r _
    split
    · exact h
    · rename_i hNew
      split
      · have hApart : ∀ r' ∈ out, r' ≠ r := fun r' hr' hEq => hNew (hEq ▸ hr')
        exact List.nodup_append.mpr ⟨h, by simp, by simpa using hApart⟩
      · exact h

/-- No reader is enabled twice. -/
theorem collectBuildEnabled_nodup (readers : Option (List (Option Bytes))) (max : Nat) :
    (collectBuildEnabled readers max).Nodup := by
  have hRegistry : (registry.map Prod.snd).Nodup := by decide
  have hRun : ∀ (names : List (Option Bytes)) (out : List Reader), out.Nodup →
      (names.foldl (enableReader max) out).Nodup := by
    intro names
    induction names with
    | nil => exact fun out hOut => hOut
    | cons name names ih => exact fun out hOut => ih _ (enableReader_nodup hOut name)
  unfold collectBuildEnabled
  split
  · exact hRegistry.sublist (List.take_sublist _ _)
  · exact hRegistry.sublist (List.take_sublist _ _)
  · exact hRun _ [] List.nodup_nil

/-! ## What is enabled -/

/-- A name changes nothing or appends a reader at a place in front of `max`. -/
theorem enableReader_cases (max : Nat) (out : List Reader) (want : Option Bytes) :
    enableReader max out want = out ∨
      ∃ r, out.length < max ∧ enableReader max out want = out ++ [r] := by
  unfold enableReader
  split
  · exact Or.inl rfl
  · rename_i r _
    split
    · exact Or.inl rfl
    · split
      · rename_i hRoom
        exact Or.inr ⟨r, hRoom, rfl⟩
      · exact Or.inl rfl

/-- A reader is appended to the beginning of a list of readers as to the whole list. -/
theorem enableReader_take {max : Nat} {keys : List Reader} {want : Option Bytes} {r : Reader}
    (h : registryFind want = some r) :
    enableReader max ((firstSeen keys).take max) want = (firstSeen (keys ++ [r])).take max := by
  have hEnable : ∀ out, enableReader max out want =
      if r ∈ out then out else if out.length < max then out ++ [r] else out := by
    intro out
    rw [enableReader, h]
  rw [hEnable, firstSeen_concat]
  rcases Nat.lt_or_ge (firstSeen keys).length max with hRoom | hFull
  · rw [List.take_of_length_le hRoom.le, if_pos hRoom]
    by_cases hMem : r ∈ keys
    · rw [if_pos (mem_firstSeen.mpr hMem), if_pos hMem, List.take_of_length_le hRoom.le]
    · have hFits : (firstSeen keys ++ [r]).length ≤ max := by
        rw [List.length_append, List.length_singleton]
        omega
      rw [if_neg (fun hc => hMem (mem_firstSeen.mp hc)), if_neg hMem, List.take_of_length_le hFits]
  · -- a reader behind the cap is forgotten, but there is no place for it either
    have hLength : ((firstSeen keys).take max).length = max := by
      rw [List.length_take]
      omega
    have hSame : (if r ∈ (firstSeen keys).take max then (firstSeen keys).take max
        else if ((firstSeen keys).take max).length < max then (firstSeen keys).take max ++ [r]
        else (firstSeen keys).take max) = (firstSeen keys).take max := by
      rw [hLength, if_neg (Nat.lt_irrefl max)]
      exact ite_self _
    rw [hSame]
    split
    · rfl
    · rw [List.take_append_of_le_length hFull]

/-- The loop over the names. -/
theorem foldl_enableReader (max : Nat) (names : List (Option Bytes)) :
    names.foldl (enableReader max) [] = (firstSeen (names.filterMap registryFind)).take max := by
  induction names using List.reverseRecOn with
  | nil => simp [firstSeen]
  | append_singleton names want ih =>
      rw [List.foldl_append, List.foldl_cons, List.foldl_nil, ih, List.filterMap_append]
      cases hFind : registryFind want with
      | none =>
          rw [List.filterMap_cons_none hFind, List.filterMap_nil, List.append_nil, enableReader,
            hFind]
      | some r => rw [List.filterMap_cons_some hFind, List.filterMap_nil, enableReader_take hFind]

theorem collectBuildEnabled_names {names : List (Option Bytes)} (h : names ≠ []) (max : Nat) :
    collectBuildEnabled (some names) max =
      (firstSeen (names.filterMap registryFind)).take max := by
  rw [← foldl_enableReader]
  cases names with
  | nil => exact absurd rfl h
  | cons name names => rfl

theorem collectBuildEnabled_length_le (readers : Option (List (Option Bytes))) (max : Nat) :
    (collectBuildEnabled readers max).length ≤ max := by
  match readers with
  | none => exact List.length_take_le _ _
  | some [] => exact List.length_take_le _ _
  | some (name :: names) =>
      rw [collectBuildEnabled_names (List.cons_ne_nil name names)]
      exact List.length_take_le _ _

/-- **The enabled readers.**  A request enables the first `max` readers among those it
names, in the order in which it names them first; without a request these are the first
readers of the registry.  No reader is enabled twice, every one is written in front of
index `max`, and unknown and repeated names make no difference. -/
theorem collectBuildEnabled_exact (max : Nat) :
    (∀ names, names ≠ [] → collectBuildEnabled (some names) max =
        (firstSeen (names.filterMap registryFind)).take max) ∧
      (collectBuildEnabled none max = (registry.map Prod.snd).take max ∧
        collectBuildEnabled (some []) max = (registry.map Prod.snd).take max) ∧
      (∀ readers, (collectBuildEnabled readers max).Nodup ∧
        (collectBuildEnabled readers max).length ≤ max) ∧
      (∀ out want, enableReader max out want = out ∨
        ∃ r, out.length < max ∧ enableReader max out want = out ++ [r]) ∧
      ∀ before after name, before ++ after ≠ [] → (registryFind name = none ∨ name ∈ before) →
        collectBuildEnabled (some (before ++ name :: after)) max =
          collectBuildEnabled (some (before ++ after)) max := by
  refine ⟨fun names h => collectBuildEnabled_names h max, ⟨rfl, rfl⟩, fun readers =>
    ⟨collectBuildEnabled_nodup readers max, collectBuildEnabled_length_le readers max⟩,
    enableReader_cases max, ?_⟩
  intro before after name hNonempty hName
  rw [collectBuildEnabled_names (by simp), collectBuildEnabled_names hNonempty,
    List.filterMap_append, List.filterMap_append]
  cases hFind : registryFind name with
  | none => rw [List.filterMap_cons_none hFind]
  | some r =>
      have hMem : name ∈ before := hName.resolve_left (by rw [hFind]; exact nofun)
      rw [List.filterMap_cons_some hFind,
        firstSeen_append_cons _ (List.mem_filterMap.mpr ⟨name, hMem, hFind⟩)]

/-- A request with an unknown and a repeated name. -/
theorem enabled_of_request :
    collectBuildEnabled (some [some (ascii "swap"), some (ascii "gpu"), some (ascii "swap"),
        some (ascii "load")]) 2 = [.swap, .load] ∧
      collectBuildEnabled (some [some (ascii "swap"), some (ascii "gpu"), some (ascii "swap"),
          some (ascii "load")]) 2 =
        collectBuildEnabled (some [some (ascii "swap"), some (ascii "swap"),
          some (ascii "load")]) 2 :=
  ⟨((collectBuildEnabled_exact 2).1 _ (by simp)).trans (by decide),
    (collectBuildEnabled_exact 2).2.2.2.2 [some (ascii "swap")]
      [some (ascii "swap"), some (ascii "load")] (some (ascii "gpu")) (by simp)
      (Or.inl (by decide))⟩

end SvgdCollect
