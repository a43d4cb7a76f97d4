import SvgdCollect.Lib.Bytes

/-!
# Data source types

The table of `types.c`: for each collectd type the names and kinds of its data
sources.  The writer checks metrics against it, the RRD definitions are built
from it, and the exposition takes counter or gauge from it.
-/

namespace SvgdCollect

open Lib

/-- `dst_t`. -/
inductive Dst
  | gauge
  | derive
  | counter
  deriving DecidableEq

/-- `ds_def_t`. -/
structure DsDef where
  name : Bytes
  dst : Dst
  deriving DecidableEq

/-- `type_def_t`; `ds_count` is the length of `ds`. -/
structure TypeDef where
  type : Bytes
  ds : List DsDef
  deriving DecidableEq

def TypeDef.dsCount (td : TypeDef) : Int := td.ds.length

private def gauges (names : List String) : List DsDef :=
  names.map fun name => ⟨ascii name, .gauge⟩

private def derives (names : List String) : List DsDef :=
  names.map fun name => ⟨ascii name, .derive⟩

/-- `TABLE`. -/
def typeTable : List TypeDef :=
  [⟨ascii "percent", gauges ["value"]⟩,
   ⟨ascii "if_octets", derives ["rx", "tx"]⟩,
   ⟨ascii "if_packets", derives ["rx", "tx"]⟩,
   ⟨ascii "if_errors", derives ["rx", "tx"]⟩,
   ⟨ascii "disk_ops", derives ["read", "write"]⟩,
   ⟨ascii "disk_octets", derives ["read", "write"]⟩,
   ⟨ascii "disk_time", derives ["read", "write"]⟩,
   ⟨ascii "ps_rss", gauges ["value"]⟩,
   ⟨ascii "ps_cputime", derives ["user", "syst"]⟩,
   ⟨ascii "ps_count", gauges ["processes", "threads"]⟩,
   ⟨ascii "df_complex", gauges ["value"]⟩,
   ⟨ascii "load", gauges ["shortterm", "midterm", "longterm"]⟩,
   ⟨ascii "uptime", gauges ["value"]⟩,
   ⟨ascii "swap", gauges ["value"]⟩,
   ⟨ascii "temperature", gauges ["value"]⟩,
   ⟨ascii "tcp_connections", gauges ["value"]⟩]

/-- `types_lookup`. -/
def typesLookup (type : Bytes) : Option TypeDef :=
  typeTable.find? fun td => strcmp td.type type = 0

end SvgdCollect
