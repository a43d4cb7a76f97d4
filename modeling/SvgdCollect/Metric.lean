import SvgdCollect.Lib.Bytes

/-!
# Metrics

The value model that readers hand to the writer and to the Prometheus
snapshot (`metric.h`).  The type `D` stands for C's `double`; nothing in this
module computes with values.
-/

namespace SvgdCollect

open Lib

/-- `METRIC_MAX_DS`: the most data sources a metric can carry. -/
def metricMaxDs : Nat := 4

/-- `metric_t`.  A C string is the list of its bytes and a null pointer is
`none`; `values` lists the leading cells of the `values` array that the
producer has set. -/
structure Metric (D : Type) where
  plugin : Bytes
  pluginInstance : Option Bytes
  type : Bytes
  typeInstance : Option Bytes
  dsCount : Int
  values : List D
  deriving DecidableEq

end SvgdCollect
