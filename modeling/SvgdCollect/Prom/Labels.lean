import SvgdCollect.Prom.RoundTrip

/-!
# What the labels of a sample tell

The labels of a rule have distinct names, so the instances of a metric and the index
of the data source can be read off the set of labels of a sample line.
-/

namespace SvgdCollect
namespace Prom

open Lib

variable {D : Type}

/-- The label names of a rule. -/
def labelKeys (rule : PromRule) : List Bytes :=
  rule.piLabel.toList ++ (rule.tiLabel.toList ++ rule.dsLabel.toList)

/-- A rule tells the data sources of a metric apart, and its label names from each
other. -/
structure RuleFits (rule : PromRule) (dsCount : Int) : Prop where
  keys : (labelKeys rule).Nodup
  dsValues : rule.dsValues.Nodup
  single : rule.dsLabel = none → dsCount = 1
  several : rule.dsLabel ≠ none → dsCount ≤ rule.dsValues.length

theorem mem_instanceLabel {key inst : Option Bytes} {l : Bytes × Bytes} :
    l ∈ instanceLabel key inst ↔ key = some l.1 ∧ inst = some l.2 ∧ l.2 ≠ [] := by
  cases key with
  | none => simp [instanceLabel]
  | some key =>
      cases inst with
      | none => simp [instanceLabel]
      | some s =>
          by_cases hs : s = []
          · simp [instanceLabel, hs]
          · simp only [instanceLabel, if_neg hs, List.mem_singleton, Prod.ext_iff, Option.some.injEq]
            constructor
            · rintro ⟨hKey, hVal⟩
              exact ⟨hKey.symm, hVal.symm, hVal ▸ hs⟩
            · rintro ⟨hKey, hVal, -⟩
              exact ⟨hKey.symm, hVal.symm⟩

theorem mem_dsLabel {rule : PromRule} {di : Nat} {l : Bytes × Bytes} :
    l ∈ dsLabel rule di ↔ rule.dsLabel = some l.1 ∧ rule.dsValues[di]? = some l.2 := by
  unfold dsLabel
  cases rule.dsLabel with
  | none => simp
  | some key =>
      cases rule.dsValues[di]? with
      | none => simp
      | some val => simp [Prod.ext_iff, eq_comm]

/-- The labels of a sample, part by part. -/
theorem mem_ruleLabels {rule : PromRule} {m : Metric D} {di : Nat} {l : Bytes × Bytes} :
    l ∈ ruleLabels rule m di ↔
      (rule.piLabel = some l.1 ∧ m.pluginInstance = some l.2 ∧ l.2 ≠ []) ∨
      (rule.tiLabel = some l.1 ∧ m.typeInstance = some l.2 ∧ l.2 ≠ []) ∨
      (rule.dsLabel = some l.1 ∧ rule.dsValues[di]? = some l.2) := by
  rw [ruleLabels, List.mem_append, List.mem_append, mem_instanceLabel, mem_instanceLabel,
    mem_dsLabel]

/-- Each label name belongs to one part. -/
theorem labelKeys_apart {rule : PromRule} (h : (labelKeys rule).Nodup) (key : Bytes) :
    ¬ (rule.piLabel = some key ∧ rule.tiLabel = some key) ∧
      ¬ (rule.piLabel = some key ∧ rule.dsLabel = some key) ∧
      ¬ (rule.tiLabel = some key ∧ rule.dsLabel = some key) := by
  refine ⟨?_, ?_, ?_⟩
  · rintro ⟨h₁, h₂⟩
    simp [labelKeys, h₁, h₂] at h
  · rintro ⟨h₁, h₂⟩
    simp [labelKeys, h₁, h₂] at h
  · rintro ⟨h₁, h₂⟩
    have hTail := h.of_append_right
    simp [h₁, h₂] at hTail

section SameLabels

variable {rule : PromRule} {m m' : Metric D} {di di' : Nat}

theorem pluginInstance_of_labels (hKeys : (labelKeys rule).Nodup)
    (h : ∀ l ∈ ruleLabels rule m di, l ∈ ruleLabels rule m' di') {key s : Bytes}
    (hKey : rule.piLabel = some key) (hs : m.pluginInstance = some s) (hne : s ≠ []) :
    m'.pluginInstance = some s := by
  obtain ⟨hTi, hDs, -⟩ := labelKeys_apart hKeys key
  have hMem := h (key, s) (mem_ruleLabels.mpr (Or.inl ⟨hKey, hs, hne⟩))
  rcases mem_ruleLabels.mp hMem with ⟨-, hs', -⟩ | ⟨hKey', -, -⟩ | ⟨hKey', -⟩
  · exact hs'
  · exact absurd ⟨hKey, hKey'⟩ hTi
  · exact absurd ⟨hKey, hKey'⟩ hDs

theorem typeInstance_of_labels (hKeys : (labelKeys rule).Nodup)
    (h : ∀ l ∈ ruleLabels rule m di, l ∈ ruleLabels rule m' di') {key s : Bytes}
    (hKey : rule.tiLabel = some key) (hs : m.typeInstance = some s) (hne : s ≠ []) :
    m'.typeInstance = some s := by
  obtain ⟨hPi, -, hDs⟩ := labelKeys_apart hKeys key
  have hMem := h (key, s) (mem_ruleLabels.mpr (Or.inr (Or.inl ⟨hKey, hs, hne⟩)))
  rcases mem_ruleLabels.mp hMem with ⟨hKey', -, -⟩ | ⟨-, hs', -⟩ | ⟨hKey', -⟩
  · exact absurd ⟨hKey', hKey⟩ hPi
  · exact hs'
  · exact absurd ⟨hKey, hKey'⟩ hDs

theorem dsValue_of_labels (hKeys : (labelKeys rule).Nodup)
    (h : ∀ l ∈ ruleLabels rule m di, l ∈ ruleLabels rule m' di') {key val : Bytes}
    (hKey : rule.dsLabel = some key) (hVal : rule.dsValues[di]? = some val) :
    rule.dsValues[di']? = some val := by
  obtain ⟨-, hPi, hTi⟩ := labelKeys_apart hKeys key
  have hMem := h (key, val) (mem_ruleLabels.mpr (Or.inr (Or.inr ⟨hKey, hVal⟩)))
  rcases mem_ruleLabels.mp hMem with ⟨hKey', -, -⟩ | ⟨hKey', -, -⟩ | ⟨-, hVal'⟩
  · exact absurd ⟨hKey', hKey⟩ hPi
  · exact absurd ⟨hKey', hKey⟩ hTi
  · exact hVal'

/-- The index of a data source can be read off the labels. -/
theorem dsIndex_of_labels {dsCount dsCount' : Int} (hFits : RuleFits rule dsCount)
    (hFits' : RuleFits rule dsCount') (hdi : (di : Int) < dsCount) (hdi' : (di' : Int) < dsCount')
    (h : ∀ l ∈ ruleLabels rule m di, l ∈ ruleLabels rule m' di') : di = di' := by
  cases hKey : rule.dsLabel with
  | none =>
      have hOne := hFits.single hKey
      have hOne' := hFits'.single hKey
      omega
  | some key =>
      have hCount := hFits.several (by simp [hKey])
      have hCount' := hFits'.several (by simp [hKey])
      have hLt : di < rule.dsValues.length := by omega
      have hLt' : di' < rule.dsValues.length := by omega
      have hVal := dsValue_of_labels hFits.keys h hKey (List.getElem?_eq_getElem hLt)
      rw [List.getElem?_eq_getElem hLt', Option.some.injEq] at hVal
      exact ((hFits.dsValues.getElem_inj_iff).mp hVal).symm

end SameLabels

/-- Two sample lines that a server takes for one series. -/
def SameLine (x x' : Bytes × Exposition.Sample) : Prop :=
  x.1 = x'.1 ∧ ∀ l, l ∈ x.2.labels ↔ l ∈ x'.2.labels

theorem mem_metricSamples [CDouble D] [Inhabited D] {printf : Printf D} {m : Metric D}
    {x : Bytes × Exposition.Sample} (h : x ∈ metricSamples printf m) :
    ∃ rule di, findRule m.plugin m.type = some rule ∧ ((di : Nat) : Int) < m.dsCount ∧
      x.1 = rule.family ∧ x.2.labels = ruleLabels rule m di := by
  unfold metricSamples at h
  split at h
  · cases h
  · rename_i rule hRule
    obtain ⟨di, hdi, rfl⟩ := List.mem_map.mp h
    rw [List.mem_range] at hdi
    exact ⟨rule, di, hRule, by omega, rfl, rfl⟩

end Prom
end SvgdCollect
