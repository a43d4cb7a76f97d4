import SvgdCollect.Lib.Bytes
import SvgdCollect.Lib.Growth
import SvgdCollect.Lib.Runs
import SvgdCollect.Lib.Numerals
import SvgdCollect.Lib.Cells
import SvgdCollect.Lib.Json
import SvgdCollect.Lib.Double
import SvgdCollect.Lib.Scan
import SvgdCollect.Lib.Decimals
import SvgdCollect.Lib.Accuracy
import SvgdCollect.Lib.NumberText
import SvgdCollect.Lib.Utf8
import SvgdCollect.Lib.Exposition
import SvgdCollect.Lib.Alloc
import SvgdCollect.Lib.Grouping
import SvgdCollect.Lib.Executions
import SvgdCollect.Lib.FileTree
import SvgdCollect.Lib.Handles
import SvgdCollect.Lib.HttpResponse
import SvgdCollect.Metric
import SvgdCollect.Types
import SvgdCollect.Path
import SvgdCollect.Sources
import SvgdCollect.Readers.Devices
import SvgdCollect.Readers.Df
import SvgdCollect.Readers.Processes
import SvgdCollect.Readers.Aggregation
import SvgdCollect.Readers.Cputime
import SvgdCollect.Readers.Totals
import SvgdCollect.Readers.StatLine
import SvgdCollect.Readers.Headcount
import SvgdCollect.Readers.System
import SvgdCollect.Readers.Sockets
import SvgdCollect.Readers.Meminfo
import SvgdCollect.Readers.Cpu
import SvgdCollect.Registry
import SvgdCollect.Collect
import SvgdCollect.Readers.Emitted
import SvgdCollect.Readers.Mounts
import SvgdCollect.Readers.Counters
import SvgdCollect.Readers.Partitions
import SvgdCollect.Readers.CounterRange
import SvgdCollect.Rra
import SvgdCollect.Writer
import SvgdCollect.Layout
import SvgdCollect.Readers.Readings
import SvgdCollect.Writer.Outage
import SvgdCollect.Writer.Values
import SvgdCollect.Readers.Exact
import SvgdCollect.Writer.Readback
import SvgdCollect.Writer.Directories
import SvgdCollect.Prom.SnapMetric
import SvgdCollect.Prom.Snapshot
import SvgdCollect.Prom.Footprint
import SvgdCollect.Prom.Rules
import SvgdCollect.Prom.DString
import SvgdCollect.Prom.Render
import SvgdCollect.Prom.RoundTrip
import SvgdCollect.Prom.EntryPoints
import SvgdCollect.Prom.Labels
import SvgdCollect.Prom.Shortage
import SvgdCollect.Series
import SvgdCollect.Agreement
import SvgdCollect.Charset
import SvgdCollect.Http
import SvgdCollect.Http.Segments
import SvgdCollect.Http.Sends
import SvgdCollect.Http.Address
import SvgdCollect.Http.Client
import SvgdCollect.Http.Listener
import SvgdCollect.Config
import SvgdCollect.Config.Fields
import SvgdCollect.Config.Frame
import SvgdCollect.Config.RoundTrip
import SvgdCollect.Config.Cells
import SvgdCollect.Collect.Loop
import SvgdCollect.Collect.Tee
import SvgdCollect.Collect.Times
import SvgdCollect.Collect.Shutdown
import SvgdCollect.Collect.Scrape
import SvgdCollect.Collect.Daemon
import SvgdCollect.Collect.Main
import SvgdCollect.Collect.Numbers
import SvgdCollect.Collect.Exact
import SvgdCollect.Readers.Headcount
