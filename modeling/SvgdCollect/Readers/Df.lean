import SvgdCollect.Readers.System
import SvgdCollect.Path

/-!
# The disk usage reader

`df_read` goes through `/proc/mounts` line by line and asks `statvfs` for each mount
point that is not on the list of pseudo filesystems.
-/

namespace SvgdCollect

open Lib

variable {D : Type} [CDouble D]

/-- `FSTYPE_DENYLIST`. -/
def fstypeDenylist : List Bytes :=
  ["proc", "sysfs", "tmpfs", "devtmpfs", "devpts", "cgroup", "cgroup2", "mqueue", "hugetlbfs",
    "fusectl", "debugfs", "configfs", "pstore", "bpf", "tracefs"].map ascii

/-- `fstype_denied`. -/
def fstypeDenied (fstype : Bytes) : Bool :=
  fstypeDenylist.any fun denied => strcmp fstype denied = 0

/-- `mount_to_instance` into a buffer of `outsz` bytes. -/
def mountToInstance (mount : Bytes) (outsz : Nat) : Bytes :=
  let src := if mount.head? = some slash then mount.tail else mount
  let out := (src.take (outsz - 1)).map fun b => if b = slash then dash else b
  if out = [] then (ascii "root").take (outsz - 1) else out

/-- `"%255s %255s %63s %255s"`. -/
def mountsFormat : List Directive :=
  [.str (some 255) true, .space, .str (some 255) true, .space, .str (some 63) true, .space,
    .str (some 255) true]

/-- The mount point on a line of `mounts` that is reported, with its numbers. -/
def dfLine (src : Sources) (line : Bytes) : Option (Bytes × StatVfs) :=
  match texts (sscanf mountsFormat line) with
  | [_, mount, fstype, _] =>
      if fstypeDenied fstype then none
      else
        -- the mount point as it is written in the file, escapes included
        match src.statvfs mount with
        | none => none
        | some s => some (mount, s)
  | _ => none

/-- `(f_blocks - f_bfree) * f_frsize` in 64 bits. -/
def StatVfs.used (s : StatVfs) : Nat := (s.blocks + 2 ^ 64 - s.bfree) % 2 ^ 64 * s.frsize % 2 ^ 64

/-- `f_bavail * f_frsize` in 64 bits. -/
def StatVfs.free (s : StatVfs) : Nat := s.bavail * s.frsize % 2 ^ 64

def dfMetric (inst : Bytes) (typeInstance : String) (v : Nat) : Metric D :=
  { plugin := ascii "df", pluginInstance := some inst, type := ascii "df_complex"
    typeInstance := some (ascii typeInstance), dsCount := 1, values := [CDouble.ofInt v] }

def dfMetrics (p : Bytes × StatVfs) : List (Metric D) :=
  let inst := mountToInstance p.1 256
  [dfMetric inst "used" p.2.used, dfMetric inst "free" p.2.free]

/-- `df_read`. -/
def dfRead (src : Sources) (base : Bytes) : ReadResult D :=
  match src.file (procPath base "/mounts") with
  | none => .fail
  | some content => .ok ((fgetsLines 512 content).filterMap (dfLine src) |>.flatMap dfMetrics)

end SvgdCollect
