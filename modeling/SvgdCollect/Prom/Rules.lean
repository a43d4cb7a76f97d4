import SvgdCollect.Metric
import SvgdCollect.Types

/-!
# The rule table of the exposition

`RULES` maps a collectd (plugin, type) pair to a Prometheus family and to the
label names of the instances and of the data source index.
-/

namespace SvgdCollect
namespace Prom

open Lib

/-- `prom_rule_t`.  A null label is `none`; `dsValues` lists the label values in
front of the first null entry. -/
structure PromRule where
  plugin : Bytes
  type : Bytes
  family : Bytes
  piLabel : Option Bytes
  tiLabel : Option Bytes
  dsLabel : Option Bytes
  dsValues : List Bytes
  help : Bytes
  deriving DecidableEq

private def rule (plugin type family : String) (piLabel tiLabel dsLabel : Option String)
    (dsValues : List String) (help : String) : PromRule :=
  { plugin := ascii plugin
    type := ascii type
    family := ascii family
    piLabel := piLabel.map ascii
    tiLabel := tiLabel.map ascii
    dsLabel := dsLabel.map ascii
    dsValues := dsValues.map ascii
    help := ascii help }

/-- `RULES`. -/
def rules : List PromRule :=
  [rule "cpu" "percent" "svgd_cpu_percent" none (some "mode") none []
     "CPU busy percentage (delta between samples).",
   rule "memory" "percent" "svgd_memory_percent" none (some "type") none []
     "Memory utilization percentage by category.",
   rule "swap" "swap" "svgd_swap_bytes" none (some "state") none []
     "Swap usage in bytes.",
   rule "load" "load" "svgd_load" none none (some "interval") ["1m", "5m", "15m"]
     "System load average (1/5/15-minute).",
   rule "uptime" "uptime" "svgd_uptime_seconds" none none none []
     "System uptime in seconds.",
   rule "interface" "if_octets" "svgd_network_bytes_total" (some "device") none
     (some "direction") ["receive", "transmit"] "Network bytes transferred.",
   rule "interface" "if_packets" "svgd_network_packets_total" (some "device") none
     (some "direction") ["receive", "transmit"] "Network packets transferred.",
   rule "interface" "if_errors" "svgd_network_errors_total" (some "device") none
     (some "direction") ["receive", "transmit"] "Network receive/transmit errors.",
   rule "disk" "disk_ops" "svgd_disk_ops_total" (some "device") none
     (some "operation") ["read", "write"] "Disk I/O operations completed.",
   rule "disk" "disk_octets" "svgd_disk_bytes_total" (some "device") none
     (some "operation") ["read", "write"] "Disk bytes read/written.",
   rule "disk" "disk_time" "svgd_disk_io_time_ms_total" (some "device") none
     (some "operation") ["read", "write"] "Cumulative disk I/O time in milliseconds.",
   rule "df" "df_complex" "svgd_filesystem_bytes" (some "fs") (some "state") none []
     "Filesystem used/free bytes.",
   rule "processes" "ps_rss" "svgd_process_rss_bytes" (some "process") none none []
     "Per-process-group resident set size (bytes).",
   rule "processes" "ps_cputime" "svgd_process_cpu_jiffies_total" (some "process") none
     (some "mode") ["user", "system"] "Per-process-group cumulative CPU time (jiffies).",
   rule "processes" "ps_count" "svgd_process_count" (some "process") none
     (some "kind") ["processes", "threads"] "Per-process-group instance and thread counts.",
   rule "thermal" "temperature" "svgd_thermal_celsius" (some "thermal_zone") (some "type") none []
     "Thermal zone temperature (degrees Celsius).",
   rule "tcpconns" "tcp_connections" "svgd_tcp_connections" none (some "state") none []
     "TCP socket count by connection state."]

/-- `find_rule`. -/
def findRule (plugin type : Bytes) : Option PromRule :=
  rules.find? fun r => strcmp r.plugin plugin = 0 && strcmp r.type type = 0

/-- `prom_type_for`: all data sources of a type share their kind, so the first
one decides. -/
def promTypeFor (type : Bytes) : Bytes :=
  match typesLookup type with
  | none => ascii "untyped"
  | some td =>
      match td.ds with
      | [] => ascii "untyped"
      | ds :: _ => if ds.dst = .gauge then ascii "gauge" else ascii "counter"

theorem findRule_eq_some {plugin type : Bytes} {r : PromRule}
    (h : findRule plugin type = some r) :
    r ∈ rules ∧ r.plugin = plugin ∧ r.type = type := by
  have hEq := List.find?_some h
  rw [Bool.and_eq_true, decide_eq_true_eq, decide_eq_true_eq, strcmp_eq_zero_iff,
    strcmp_eq_zero_iff] at hEq
  exact ⟨List.mem_of_find?_eq_some h, hEq.1, hEq.2⟩

/-- A family belongs to one rule. -/
theorem eq_of_family_eq {r r' : PromRule} (hr : r ∈ rules) (hr' : r' ∈ rules)
    (h : r.family = r'.family) : r = r' := by
  have hAll : ∀ r ∈ rules, ∀ r' ∈ rules, r.family = r'.family → r = r' := by decide
  exact hAll r hr r' hr' h

/-- The strings of the table are short enough for the snapshot. -/
theorem length_plugin_lt {r : PromRule} (hr : r ∈ rules) :
    r.plugin.length < 47 ∧ r.type.length < 47 := by
  have hAll : ∀ r ∈ rules, r.plugin.length < 47 ∧ r.type.length < 47 := by decide
  exact hAll r hr

end Prom
end SvgdCollect
