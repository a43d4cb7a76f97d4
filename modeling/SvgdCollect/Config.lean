import SvgdCollect.Lib.Json

/-!
# The configuration file

`config.c` does not parse JSON: it looks for each quoted key with `strstr`, for
the next colon with `strchr`, and for the next pair of quotes.  The model keeps
that scan as it is.  A buffer is represented by the C string it holds, so what
`extract_string` returns is the new content of its `out` argument.
-/

namespace SvgdCollect
namespace Config

open Lib Json

/-- `collect_config_t`; `readers` lists the first `readers_count` names. -/
@[ext]
structure CollectConfig where
  interval : Int
  datadir : Bytes
  host : Bytes
  rrdcached : Bytes
  metricsAddr : Bytes
  readers : List Bytes
  deriving DecidableEq

/-- The values `config_load` sets before it opens the file. -/
def CollectConfig.defaults : CollectConfig :=
  { interval := 5
    datadir := ascii "/var/lib/svgd-collect/rrd"
    host := ascii "localhost"
    rrdcached := []
    metricsAddr := []
    readers := [] }

/-- `extract_string` into a buffer of `n` bytes that holds `out`. -/
def extractString (json key out : Bytes) (n : Nat) : Bytes :=
  match strstr json key with
  | none => out
  | some p =>
      match strchr (p.drop key.length) colon with
      | none => out
      | some p =>
          -- the next quote, whatever stands in front of it
          match strchr (p.drop 1) quote with
          | none => out
          | some p =>
              let p := p.drop 1
              match strchr p quote with
              | none => out
              | some e =>
                  let len := p.length - e.length
                  let len := if len ≥ n then n - 1 else len
                  p.take len

/-- `extract_int`. -/
def extractInt (json key : Bytes) (dflt : Int) : Int :=
  match strstr json key with
  | none => dflt
  | some p =>
      match strchr (p.drop key.length) colon with
      | none => dflt
      | some p => atoi (p.drop 1)

/-- The loop over the `readers` array.  The first argument counts the free rows
of `c->readers`; `rb` is the first `]` after the `[`, if there is one. -/
def scanReaders (rb : Option Bytes) : Nat → Bytes → List Bytes
  | 0, _ => []
  | rows + 1, cur =>
      match strchr cur quote with
      | none => []
      | some q1 =>
          -- `rb && q1 >= rb`: a later position is a shorter suffix
          if (rb.any fun rb => q1.length ≤ rb.length) then []
          else
            match strchr (q1.drop 1) quote with
            | none => []
            | some q2 =>
                let len := q1.length - q2.length - 1
                let len := if len ≥ 32 then 31 else len
                (q1.drop 1).take len :: scanReaders rb rows (q2.drop 1)

/-- The `readers` part of `config_load`. -/
def loadReaders (json : Bytes) : List Bytes :=
  match strstr json (quoted (ascii "readers")) with
  | none => []
  | some rp =>
      match strchr rp (byte '[') with
      | none => []
      | some lb => scanReaders (strchr lb (byte ']')) 16 (lb.drop 1)

/-- `config_load`: the return code and the configuration.  `file` is the content
of the file, `none` if it cannot be opened, sized or buffered. -/
def configLoad (file : Option Bytes) : Int × CollectConfig :=
  let c := CollectConfig.defaults
  match file with
  | none => (-1, c)
  | some content =>
      -- the string functions see the buffer up to its first NUL
      let buf := cstr content
      let interval := extractInt buf (quoted (ascii "interval")) c.interval
      (0,
        { interval := if interval < 1 then 5 else interval
          datadir := extractString buf (quoted (ascii "datadir")) c.datadir 4096
          host := extractString buf (quoted (ascii "hostname")) c.host 128
          rrdcached := extractString buf (quoted (ascii "rrdcached_addr")) c.rrdcached 256
          metricsAddr := extractString buf (quoted (ascii "metrics_addr")) c.metricsAddr 128
          readers := loadReaders buf })

end Config
end SvgdCollect
