import SvgdCollect.Sources

/-!
# Readers of system totals

`cpu`, `load`, `uptime`, `memory`, `swap` and `tcpconns`.  None of them takes a
name from the text it reads: plugin, type and instances are constants of the
source.  A reader that emits several metrics of one shape is written with that
shape as a function of the instance and the value.
-/

namespace SvgdCollect

open Lib

variable {D : Type} [CDouble D]

/-- `100.0 * (double)part / (double)whole`. -/
def percentOf (part whole : Int) : D :=
  CDouble.div (CDouble.mul (CDouble.ofInt 100) (CDouble.ofInt part)) (CDouble.ofInt whole)

/-! ## cpu -/

/-- `prev_busy` and `prev_total`, -1 in front of the first sample. -/
structure CpuState where
  prevBusy : Int
  prevTotal : Int
  deriving DecidableEq

def CpuState.initial : CpuState := { prevBusy := -1, prevTotal := -1 }

/-- `%ld` repeated, with spaces between. -/
def longs : Nat → List Directive
  | 0 => []
  | n + 1 => .space :: .int true :: longs n

/-- `"cpu %ld %ld ..."`, ten numbers. -/
def cpuFormat : List Directive := (ascii "cpu").map Directive.lit ++ longs 10

/-- The total and the busy time of the aggregate line, if there is one with at least
four numbers. -/
def cpuTimes (content : Bytes) : Option (Int × Int) :=
  match (fgetsLines 512 content).find? fun line => ascii "cpu " <+: line with
  | none => none
  | some line =>
      let fields := nums (sscanf cpuFormat line)
      if fields.length < 4 then none
      else
        -- variables that were not converted keep their initial zero
        let total := fields.sum
        some (total, total - fields.getD 3 0 - fields.getD 4 0)

def cpuMetric (pct : D) : Metric D :=
  { plugin := ascii "cpu", pluginInstance := some (ascii "total"), type := ascii "percent"
    typeInstance := some (ascii "active"), dsCount := 1, values := [pct] }

/-- `cpu_read`, with the state of the previous sample. -/
def cpuRead (src : Sources) (base : Bytes) (st : CpuState) : CpuState × ReadResult D :=
  match src.file (procPath base "/stat") with
  | none => (st, .fail)
  | some content =>
      match cpuTimes content with
      | none => (st, .fail)
      | some (total, busy) =>
          ({ prevBusy := busy, prevTotal := total },
            .ok (if st.prevBusy ≥ 0 ∧ total - st.prevTotal > 0 then
              [cpuMetric (percentOf (busy - st.prevBusy) (total - st.prevTotal))] else []))

/-! ## load and uptime -/

/-- `load_read`. -/
def loadRead (src : Sources) (base : Bytes) : ReadResult D :=
  match src.file (procPath base "/loadavg") with
  | none => .fail
  | some content =>
      match reals (sscanf [.float, .space, .float, .space, .float] content) with
      | [one, five, fifteen] =>
          .ok [{ plugin := ascii "load", pluginInstance := none, type := ascii "load"
                 typeInstance := none, dsCount := 3
                 values := [one.toDouble, five.toDouble, fifteen.toDouble] }]
      | _ => .fail

/-- `uptime_read`. -/
def uptimeRead (src : Sources) (base : Bytes) : ReadResult D :=
  match src.file (procPath base "/uptime") with
  | none => .fail
  | some content =>
      match reals (sscanf [.float] content) with
      | [up] =>
          .ok [{ plugin := ascii "uptime", pluginInstance := none, type := ascii "uptime"
                 typeInstance := none, dsCount := 1, values := [up.toDouble] }]
      | _ => .fail

/-! ## memory and swap -/

/-- The number on a line of `meminfo` that starts with the key. -/
def meminfoValue (key : String) (line : Bytes) : Option Int :=
  if ascii key <+: line then
    match nums (sscanf [.str none false, .space, .int true] line) with
    | [v] => some v
    | _ => none
  else none

/-- The last value of a key, as the loop over the lines leaves it. -/
def meminfoLast (key : String) (dflt : Int) (content : Bytes) : Int :=
  ((fgetsLines 256 content).filterMap (meminfoValue key)).getLastD dflt

def memoryMetric (typeInstance : String) (v : D) : Metric D :=
  { plugin := ascii "memory", pluginInstance := none, type := ascii "percent"
    typeInstance := some (ascii typeInstance), dsCount := 1, values := [v] }

/-- `memory_read`.  The keys exclude each other, so each variable ends up with the
last value of its own key. -/
def memoryRead (src : Sources) (base : Bytes) : ReadResult D :=
  match src.file (procPath base "/meminfo") with
  | none => .fail
  | some content =>
      let memTotal := meminfoLast "MemTotal:" (-1) content
      let memFree := meminfoLast "MemFree:" 0 content
      let buffers := meminfoLast "Buffers:" 0 content
      let cached := meminfoLast "Cached:" 0 content
      if memTotal ≤ 0 then .fail
      else
        let used := memTotal - memFree - buffers - cached
        .ok [memoryMetric "used" (percentOf used memTotal),
          memoryMetric "cached" (percentOf cached memTotal),
          memoryMetric "buffered" (percentOf buffers memTotal)]

def swapMetric (typeInstance : String) (kb : Int) : Metric D :=
  { plugin := ascii "swap", pluginInstance := none, type := ascii "swap"
    typeInstance := some (ascii typeInstance), dsCount := 1
    values := [CDouble.mul (CDouble.ofInt kb) (CDouble.ofInt 1024)] }

/-- `swap_read`. -/
def swapRead (src : Sources) (base : Bytes) : ReadResult D :=
  match src.file (procPath base "/meminfo") with
  | none => .fail
  | some content =>
      let swapTotal := meminfoLast "SwapTotal:" (-1) content
      let swapFree := meminfoLast "SwapFree:" 0 content
      if swapTotal ≤ 0 then .fail
      else .ok [swapMetric "used" (swapTotal - swapFree), swapMetric "free" swapFree]

/-! ## tcpconns -/

/-- `TCP_STATE_NAMES` from index 1 on. -/
def tcpStateNames : List Bytes :=
  ["ESTABLISHED", "SYN_SENT", "SYN_RECV", "FIN_WAIT1", "FIN_WAIT2", "TIME_WAIT", "CLOSE",
    "CLOSE_WAIT", "LAST_ACK", "LISTEN", "CLOSING"].map ascii

/-- The state on a line of `net/tcp`, if it is one of the known ones. -/
def tcpState (line : Bytes) : Option Int :=
  match nums (sscanf [.space, .str none false, .space, .str none false, .space,
      .str none false, .space, .hex] line) with
  | [st] => if st < 1 ∨ st ≥ 12 then none else some st
  | _ => none

/-- The states of one file, behind its header line. -/
def tcpStates (content : Bytes) : List Int :=
  ((fgetsLines 512 content).drop 1).filterMap tcpState

def tcpMetric (name : Bytes) (count : Nat) : Metric D :=
  { plugin := ascii "tcpconns", pluginInstance := none, type := ascii "tcp_connections"
    typeInstance := some name, dsCount := 1, values := [CDouble.ofInt count] }

/-- `tcpconns_read`: `count[i]` is the number of sockets in state `i` over both
files. -/
def tcpconnsRead (src : Sources) (base : Bytes) : ReadResult D :=
  let files := [src.file (procPath base "/net/tcp"), src.file (procPath base "/net/tcp6")]
  let opened := files.filterMap id
  if opened = [] then .fail
  else
    let states := opened.flatMap tcpStates
    .ok ((tcpStateNames.zipIdx 1).filterMap fun p =>
      let count := states.count (p.2 : Int)
      if count = 0 then none else some (tcpMetric p.1 count))

end SvgdCollect
