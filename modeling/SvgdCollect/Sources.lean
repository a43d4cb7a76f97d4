import SvgdCollect.Lib.Scan
import SvgdCollect.Metric

/-!
# What the readers read

The part of the system that the readers see: files and directories of `/proc` and
`/sys`, `statvfs`, and the page size.  A directory entry is a file name, so it is
not empty, holds neither a slash nor a NUL and fits `d_name`.
-/

namespace SvgdCollect

open Lib

/-- The members of `struct statvfs` that `df_read` uses. -/
structure StatVfs where
  blocks : Nat
  bfree : Nat
  bavail : Nat
  frsize : Nat
  deriving DecidableEq

/-- A name that a directory can hold. -/
structure IsFileName (name : Bytes) : Prop where
  ne_nil : name ≠ []
  slash : byte '/' ∉ name
  zero : 0 ∉ name
  length : name.length ≤ 255

instance (name : Bytes) : Decidable (IsFileName name) :=
  decidable_of_iff (name ≠ [] ∧ byte '/' ∉ name ∧ 0 ∉ name ∧ name.length ≤ 255)
    ⟨fun h => ⟨h.1, h.2.1, h.2.2.1, h.2.2.2⟩, fun h => ⟨h.ne_nil, h.slash, h.zero, h.length⟩⟩

structure Sources where
  file : Bytes → Option Bytes
  dir : Bytes → Option (List Bytes)
  statvfs : Bytes → Option StatVfs
  pageSize : Int
  isFileName : ∀ path names, dir path = some names → ∀ name ∈ names, IsFileName name

/-- No directory can be listed: the field `isFileName` of such a source. -/
theorem isFileName_of_no_dir :
    ∀ path names, (fun _ => none : Bytes → Option (List Bytes)) path = some names →
      ∀ name ∈ names, IsFileName name :=
  fun _ _ hDir => nomatch hDir

/-- What a call of a reader returns, and the metrics it hands to `emit` in order. -/
structure ReadResult (D : Type) where
  rc : Int
  metrics : List (Metric D)

def ReadResult.fail {D : Type} : ReadResult D := { rc := -1, metrics := [] }

def ReadResult.ok {D : Type} (metrics : List (Metric D)) : ReadResult D :=
  { rc := 0, metrics := metrics }

/-- `"%s<rest>"` into a path buffer of 1024 bytes. -/
def procPath (base : Bytes) (rest : String) : Bytes := snprintf 1024 (base ++ ascii rest)

end SvgdCollect
