import SvgdCollect.Readers.Devices

/-!
# The process reader

`processes_read` visits the numeric directories of `/proc`, reads the name, the
times and the memory of each process, and sums them up per name in a table of 256
slots that it fills in directory order.
-/

namespace SvgdCollect

open Lib

variable {D : Type} [CDouble D]

/-- `MAX_COMMS`. -/
def maxComms : Nat := 256

/-- `COMM_LEN`. -/
def commLen : Nat := 32

/-! ## One process -/

/-- What one process contributes. -/
structure PidSample where
  comm : Bytes
  rss : Nat
  utime : Nat
  stime : Nat
  threads : Int
  deriving DecidableEq

/-- `is_numeric`. -/
def isNumeric (s : Bytes) : Bool := !s.isEmpty && s.all isdigit

def pidPath (base pid : Bytes) (name : String) : Bytes :=
  snprintf 1024 (base ++ byte '/' :: (pid ++ byte '/' :: ascii name))

/-- `<pid>/comm`: the name, unless it cannot be read or is empty. -/
def pidComm (src : Sources) (base pid : Bytes) : Option Bytes :=
  let comm := firstText commLen (src.file (pidPath base pid "comm"))
  if comm = [] then none else some comm

/-- `%lu` repeated. -/
def ulongs : Nat → List Directive
  | 0 => []
  | n + 1 => .space :: .ulong :: ulongs n

/-- `utime`, `stime` and `num_threads` from a line of `<pid>/stat`, split at the last
parenthesis. -/
def statTimes (line : Bytes) : Option (Nat × Nat × Nat) :=
  match strrchr line (byte ')') with
  | none => none
  | some rp =>
      -- the state is skipped, so the first number is field 4
      let fld := nums (sscanf (.str none false :: ulongs 17) (rp.drop 1))
      if fld.length < 17 then none
      else some ((fld.getD 10 0).toNat, (fld.getD 11 0).toNat, (fld.getD 16 0).toNat)

/-- The resident pages from a line of `<pid>/statm`. -/
def statmResident (line : Bytes) : Option Nat :=
  match nums (sscanf (ulongs 2) line) with
  | [_, resident] => some resident.toNat
  | _ => none

/-- The first line of a file in a buffer of `n` bytes. -/
def fgetsFile (n : Nat) (content : Option Bytes) : Option Bytes :=
  (content.bind (fgets n)).map fun p => cstr p.1

/-- `sysconf(_SC_PAGESIZE)`, or 4096. -/
def Sources.pageBytes (src : Sources) : Nat :=
  if src.pageSize ≤ 0 then 4096 else src.pageSize.toNat

/-- The body of the directory loop in front of the table. -/
def readPid (src : Sources) (base pid : Bytes) : Option PidSample :=
  if !isNumeric pid then none
  else
    match pidComm src base pid with
    | none => none
    | some comm =>
        match (fgetsFile 1024 (src.file (pidPath base pid "stat"))).bind statTimes with
        | none => none
        | some (utime, stime, numThreads) =>
            match (fgetsFile 256 (src.file (pidPath base pid "statm"))).bind statmResident with
            | none => none
            | some resident =>
                some
                  { comm := comm, rss := resident * src.pageBytes % 2 ^ 64, utime := utime
                    stime := stime, threads := toInt32 numThreads }

/-! ## The table -/

/-- `comm_agg_t`; every slot in front of the count is in use.  `proc_count` and
`threads_sum` are integers here and an `int` in the source, which holds them as long as a
name has fewer than 2^31 processes and threads. -/
structure CommAgg where
  comm : Bytes
  rssSum : Nat
  utimeSum : Nat
  stimeSum : Nat
  procCount : Int
  threadsSum : Int
  deriving DecidableEq

/-- `agg_lookup`: the table, with a fresh slot at its end if there is none for the
name, and the index of the slot; `none` if the table is full. -/
def aggLookup (ag : List CommAgg) (comm : Bytes) : Option (List CommAgg × Nat) :=
  match ag.findIdx? fun a => strcmp a.comm comm = 0 with
  | some i => some (ag, i)
  | none =>
      if ag.length ≥ maxComms then none
      else
        some (ag ++ [{ comm := comm.take (commLen - 1), rssSum := 0, utimeSum := 0, stimeSum := 0,
                       procCount := 0, threadsSum := 0 }], ag.length)

def CommAgg.add (a : CommAgg) (s : PidSample) : CommAgg :=
  { a with
    rssSum := (a.rssSum + s.rss) % 2 ^ 64
    utimeSum := (a.utimeSum + s.utime) % 2 ^ 64
    stimeSum := (a.stimeSum + s.stime) % 2 ^ 64
    procCount := a.procCount + 1
    threadsSum := a.threadsSum + s.threads }

/-- One process is added to its slot, or dropped. -/
def aggStep (ag : List CommAgg) (s : PidSample) : List CommAgg :=
  match aggLookup ag s.comm with
  | none => ag
  | some (ag, idx) => ag.modify idx (CommAgg.add · s)

/-- The table after the directory loop. -/
def aggregate (samples : List PidSample) : List CommAgg := samples.foldl aggStep []

/-! ## The reader -/

def processMetric (comm : Bytes) (type : String) (values : List D) : Metric D :=
  { plugin := ascii "processes", pluginInstance := some comm, type := ascii type
    typeInstance := none, dsCount := values.length, values := values }

def CommAgg.metrics (a : CommAgg) : List (Metric D) :=
  [processMetric a.comm "ps_rss" [CDouble.ofInt a.rssSum],
    processMetric a.comm "ps_cputime" [CDouble.ofInt a.utimeSum, CDouble.ofInt a.stimeSum],
    processMetric a.comm "ps_count" [CDouble.ofInt a.procCount, CDouble.ofInt a.threadsSum]]

/-- `processes_read`. -/
def processesRead (src : Sources) (base : Bytes) : ReadResult D :=
  match src.dir base with
  | none => .fail
  | some names => .ok ((aggregate (names.filterMap (readPid src base))).flatMap CommAgg.metrics)

end SvgdCollect
