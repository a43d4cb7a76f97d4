import SvgdCollect.Readers.System
import Mathlib.Computability.RegularExpressions

/-!
# Readers of devices

`interface`, `disk` and `thermal` emit metrics per device and take the name of the
device from the text or the directory they read.
-/

namespace SvgdCollect

open Lib

variable {D : Type} [CDouble D]

/-! ## interface -/

/-- The interface and the counters on a line of `net/dev`. -/
def interfaceLine (line : Bytes) : Option (Bytes × List Int) :=
  let p := line.dropWhile fun b => b == byte ' ' || b == byte '\t'
  match strchr p (byte ':') with
  | none => none
  | some colon =>
      let len := p.length - colon.length
      if len = 0 ∨ len ≥ 64 then none
      else
        let iface := p.take len
        if strcmp iface (ascii "lo") = 0 then none
        else
          let fld := nums (sscanf (longs 16) (colon.drop 1))
          if fld.length < 11 then none else some (iface, fld)

def interfaceMetric (iface : Bytes) (type : String) (rx tx : Int) : Metric D :=
  { plugin := ascii "interface", pluginInstance := some iface, type := ascii type
    typeInstance := none, dsCount := 2, values := [CDouble.ofInt rx, CDouble.ofInt tx] }

def interfaceMetrics (p : Bytes × List Int) : List (Metric D) :=
  let fld i := p.2.getD i 0
  [interfaceMetric p.1 "if_octets" (fld 0) (fld 8),
    interfaceMetric p.1 "if_packets" (fld 1) (fld 9),
    interfaceMetric p.1 "if_errors" (fld 2) (fld 10)]

/-- `interface_read`. -/
def interfaceRead (src : Sources) (base : Bytes) : ReadResult D :=
  match src.file (procPath base "/net/dev") with
  | none => .fail
  | some content =>
      -- two header lines
      .ok (((fgetsLines 512 content).drop 2).filterMap interfaceLine |>.flatMap interfaceMetrics)

/-! ## disk -/

section DiskName

open RegularExpression

/-- One of the bytes from `lo` to `hi`. -/
def byteRange (lo hi : Char) : RegularExpression Byte :=
  ((List.range (hi.toNat + 1 - lo.toNat)).map fun i => char (lo.toNat + i).toUInt8).sum

def word (s : String) : RegularExpression Byte := ((ascii s).map char).prod

/-- One or more. -/
def oneOrMore (r : RegularExpression Byte) : RegularExpression Byte := r * r.star

/-- `^(sd[a-z]+|nvme[0-9]+n[0-9]+|vd[a-z]+|mmcblk[0-9]+|xvd[a-z]+|dm-[0-9]+|md[0-9]+|
loop[0-9]+|sr[0-9]+)$` against the whole name. -/
def diskNameExpr : RegularExpression Byte :=
  let letters := oneOrMore (byteRange 'a' 'z')
  let digits := oneOrMore (byteRange '0' '9')
  word "sd" * letters + word "nvme" * digits * word "n" * digits + word "vd" * letters +
    word "mmcblk" * digits + word "xvd" * letters + word "dm-" * digits + word "md" * digits +
    word "loop" * digits + word "sr" * digits

end DiskName

/-- `regexec` with the device-name filter. -/
def isDiskName (name : Bytes) : Bool := diskNameExpr.rmatch name

/-- `"%*d %*d %63s %ld ..."`, eight numbers. -/
def diskFormat : List Directive :=
  [.int false, .space, .int false, .space, .str (some 63) true] ++ longs 8

/-- The disk and the counters on a line of `diskstats`. -/
def diskLine (line : Bytes) : Option (Bytes × List Int) :=
  let fields := sscanf diskFormat line
  match texts fields, nums fields with
  | [name], fld =>
      if fld.length < 8 then none else if isDiskName name then some (name, fld) else none
  | _, _ => none

def diskMetric (name : Bytes) (type : String) (read write : D) : Metric D :=
  { plugin := ascii "disk", pluginInstance := some name, type := ascii type
    typeInstance := none, dsCount := 2, values := [read, write] }

def diskMetrics (p : Bytes × List Int) : List (Metric D) :=
  -- the numbers of the fields as in the kernel's documentation, sectors of 512 bytes
  let f i : D := CDouble.ofInt (p.2.getD (i - 1) 0)
  let octets i : D := CDouble.mul (f i) (CDouble.ofInt 512)
  [diskMetric p.1 "disk_ops" (f 1) (f 5), diskMetric p.1 "disk_octets" (octets 3) (octets 7),
    diskMetric p.1 "disk_time" (f 4) (f 8)]

/-- `disk_read`, without the failure of `regcomp` on the constant pattern. -/
def diskRead (src : Sources) (base : Bytes) : ReadResult D :=
  match src.file (procPath base "/diskstats") with
  | none => .fail
  | some content => .ok ((fgetsLines 512 content).filterMap diskLine |>.flatMap diskMetrics)

/-! ## thermal -/

/-- Trailing newlines and carriage returns removed. -/
def stripEol (s : Bytes) : Bytes :=
  (s.reverse.dropWhile fun b => b == byte '\n' || b == byte '\r').reverse

/-- The first line of a file in a buffer of `n` bytes, without its line end; empty if
nothing can be read. -/
def firstText (n : Nat) (content : Option Bytes) : Bytes :=
  match content.bind (fgets n) with
  | none => []
  | some (chunk, _) => stripEol (cstr chunk)

theorem stripEol_length_le (s : Bytes) : (stripEol s).length ≤ s.length := by
  have hReverse : s.reverse.length = s.length := List.length_reverse
  rw [stripEol, List.length_reverse, ← hReverse]
  exact (List.dropWhile_sublist _).length_le

theorem firstText_length_lt {n : Nat} (hn : 0 < n) (content : Option Bytes) :
    (firstText n content).length < n := by
  unfold firstText
  split
  · simpa using hn
  · rename_i chunk rest hRead
    obtain ⟨s, -, hRead⟩ := Option.bind_eq_some_iff.mp hRead
    unfold fgets at hRead
    split at hRead
    · cases hRead
    · simp only [Option.some.injEq, Prod.mk.injEq] at hRead
      have hStrip := stripEol_length_le (cstr chunk)
      have hCut := (cstr_sublist chunk).length_le
      have hChunk : chunk.length ≤ n - 1 := by
        rw [← hRead.1, List.length_take]
        exact Nat.min_le_left _ _
      omega

theorem stripEol_concat (text : Bytes) {b : Byte} (hb : (b == byte '\n' || b == byte '\r') = false) :
    stripEol (text ++ [b]) = text ++ [b] := by
  simp [stripEol, hb]

theorem stripEol_newline (text : Bytes) : stripEol (text ++ [newline]) = stripEol text := by
  simp [stripEol, show newline = byte '\n' from rfl]

/-- A line that fits the buffer is read whole. -/
theorem firstText_line {n : Nat} {text : Bytes} (rest : Bytes) (hLine : newline ∉ text)
    (hZero : 0 ∉ text) (hStrip : stripEol text = text) (hLength : text.length + 1 < n) :
    firstText n (some (text ++ newline :: rest)) = text := by
  have hNonempty : text ++ newline :: rest ≠ [] := by simp
  have hTake : (text ++ [newline]).take (n - 1) = text ++ [newline] :=
    List.take_of_length_le (by simp; omega)
  have hCstr : cstr (text ++ [newline]) = text ++ [newline] :=
    cstr_eq_self (by simp [hZero, newline])
  simp only [firstText, Option.bind_some, fgets, if_neg hNonempty,
    firstLine_append_newline rest hLine, hTake, hCstr, stripEol_newline, hStrip]

/-- The thermal files live under `/sys`. -/
def thermalBase (base : Bytes) : Bytes :=
  if strcmp base (ascii "/proc") = 0 then ascii "/sys" else base

def thermalPath (base zone : Bytes) (name : String) : Bytes :=
  snprintf 1024 (base ++ (ascii "/class/thermal/" ++ (zone ++ byte '/' :: ascii name)))

/-- The metric of one directory entry. -/
def thermalZone (src : Sources) (base zone : Bytes) : Option (Metric D) :=
  if ¬ ascii "thermal_zone" <+: zone then none
  else
    match src.file (thermalPath base zone "temp") with
    | none => none
    | some content =>
        match nums (sscanf [.int true] content) with
        | [millideg] =>
            let ztype := firstText 64 (src.file (thermalPath base zone "type"))
            some
              { plugin := ascii "thermal", pluginInstance := some zone
                type := ascii "temperature"
                typeInstance := if ztype ≠ [] then some ztype else none
                dsCount := 1
                values := [CDouble.div (CDouble.ofInt millideg) (CDouble.ofInt 1000)] }
        | _ => none

/-- `thermal_read`. -/
def thermalRead (src : Sources) (base : Bytes) : ReadResult D :=
  let base := thermalBase base
  match src.dir (procPath base "/class/thermal") with
  | none => .fail
  | some names => .ok (names.filterMap (thermalZone src base))

end SvgdCollect
