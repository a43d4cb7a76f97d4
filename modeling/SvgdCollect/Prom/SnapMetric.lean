import SvgdCollect.Metric

/-!
# Deep copies of metrics

`prom.c` keeps fixed-size copies of the metrics it is handed, so that the
strings of the original need only live for the duration of the call.
-/

namespace SvgdCollect
namespace Prom

open Lib

/-- `snap_metric_t`: a metric whose strings live in fixed arrays.  Null strings
have collapsed to the empty string. -/
structure SnapMetric (D : Type) where
  plugin : Bytes
  pluginInstance : Bytes
  type : Bytes
  typeInstance : Bytes
  dsCount : Int
  values : List D
  deriving DecidableEq

/-- `copy_str` into an array of `n` bytes. -/
def copyStr (n : Nat) : Option Bytes → Bytes
  | none => []
  | some src => src.take (n - 1)

/-- `copy_metric`.  The copy keeps at most `metricMaxDs` values, and only the
first `dsCount` cells of the value array are ever written or read. -/
def copyMetric {D : Type} (src : Metric D) : SnapMetric D :=
  let dsCount := if src.dsCount > metricMaxDs then (metricMaxDs : Int) else src.dsCount
  { plugin := copyStr 48 (some src.plugin)
    pluginInstance := copyStr 256 src.pluginInstance
    type := copyStr 48 (some src.type)
    typeInstance := copyStr 128 src.typeInstance
    dsCount := dsCount
    values := src.values.take dsCount.toNat }

/-- A string that fits the array is copied whole. -/
theorem copyStr_some_of_lt {n : Nat} {src : Bytes} (h : src.length < n) :
    copyStr n (some src) = src := by
  simp only [copyStr]
  exact List.take_of_length_le (by omega)

end Prom
end SvgdCollect
