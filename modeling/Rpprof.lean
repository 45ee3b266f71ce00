import Rpprof.Lib.Machine
import Rpprof.Lib.Table
import Rpprof.Collector.Collector
import Rpprof.Collector.AppendLog
import Rpprof.Collector.Owned
import Rpprof.Collector.Eviction
import Rpprof.Heap.Record
import Rpprof.Heap.Hooks
import Rpprof.Heap.Sequential
import Rpprof.Lib.Locks
import Rpprof.Heap.Deadlock
import Rpprof.Heap.Names
import Rpprof.Heap.LiveEntries
import Rpprof.Heap.Accounting
import Rpprof.Heap.Counters
import Rpprof.Profiler.Frames
import Rpprof.Profiler.Lossy
import Rpprof.Profiler.Profiler
import Rpprof.Profiler.Report
import Rpprof.Profiler.ThreadName
import Rpprof.Profiler.Session
import Rpprof.Profiler.Blocklist
import Rpprof.Profiler.Signals
import Rpprof.Profiler.Samples
import Rpprof.Profiler.Lifecycle
import Rpprof.Profiler.Isolation
import Rpprof.Profiler.Atomic
import Rpprof.Profiler.Refinement
import Rpprof.Export.Encoder
import Rpprof.Export.Pprof
import Rpprof.Export.Attribution
import Rpprof.Export.Times
import Rpprof.Export.Rates
import Rpprof.Lib.Json
import Rpprof.Export.Speedscope
import Rpprof.Export.Folded
import Rpprof.Heap.Conversion
import Rpprof.Heap.Sampling
import Rpprof.Heap.Snapshot
import Rpprof.Heap.Outcome
import Rpprof.Export.Displayed
import Rpprof.Api.Helpers
import Rpprof.Api.Criterion
import Rpprof.Unwind.Validate
import Rpprof.Unwind.Backlog
import Rpprof.Unwind.Ends
import Rpprof.Unwind.Hosted
import Rpprof.Unwind.Recovery
import Rpprof.Unwind.Considerate
import Rpprof.Unwind.FramePointer
import Rpprof.Unwind.Handler
import Rpprof.PerfMap.Parse
import Rpprof.PerfMap.Refresh
import Rpprof.PerfMap.Coverage
import Rpprof.PerfMap.Installed
