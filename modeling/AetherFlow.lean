import AetherFlow.Lib.Transition
import AetherFlow.Lib.Word
import AetherFlow.Lib.Decoder
import AetherFlow.Lib.Binary64
import AetherFlow.Lib.Refinement
import AetherFlow.Lib.BoundedChannel
import AetherFlow.Lib.CreditChannel
import AetherFlow.Lib.Transducer
import AetherFlow.Lib.RoundRobin
import AetherFlow.Lib.OrderStatistic
import AetherFlow.Lib.StopFlag
import AetherFlow.Lib.Tally
import AetherFlow.Mpsc.Queue
import AetherFlow.Mpsc.Mailbox
import AetherFlow.Mpsc.Handles
import AetherFlow.Mpsc.Invariant
import AetherFlow.Mpsc.Alone
import AetherFlow.Mpsc.Lap
import AetherFlow.Mpsc.Order
import AetherFlow.Mpsc.Removal
import AetherFlow.Mpsc.Conservation
import AetherFlow.Mpsc.Sequential
import AetherFlow.Mpsc.Wrap
import AetherFlow.Mpsc.Verdicts
import AetherFlow.Mpsc.Backlog
import AetherFlow.Mpsc.NonBlocking
import AetherFlow.Mpsc.Refinement
import AetherFlow.Spsc.Ring
import AetherFlow.Spsc.Invariant
import AetherFlow.Spsc.Close
import AetherFlow.Spsc.Wrap
import AetherFlow.Spsc.Refinement
import AetherFlow.System.Cell
import AetherFlow.System.CoreLoop
import AetherFlow.System.Cells
import AetherFlow.System.Lifecycle
import AetherFlow.System.Containment
import AetherFlow.System.Isolation
import AetherFlow.System.Limiter
import AetherFlow.System.Supervision
import AetherFlow.System.Node
import AetherFlow.System.Pass
import AetherFlow.System.Shutdown
import AetherFlow.System.Processing
import AetherFlow.Ask.Reply
import AetherFlow.Ask.Invariant
import AetherFlow.Ask.Ownership
import AetherFlow.Ask.Borrowed
import AetherFlow.Ask.Stranded
import AetherFlow.Ask.Deadline
import AetherFlow.Ask.Answered
import AetherFlow.System.Guard
import AetherFlow.System.Runtime
import AetherFlow.System.Placement
import AetherFlow.System.Teardown
import AetherFlow.Net.Framing
import AetherFlow.Net.Codec
import AetherFlow.Net.Overflow
import AetherFlow.Net.Reactor
import AetherFlow.Net.Moves
import AetherFlow.Net.Grammar
import AetherFlow.Net.Delivery
import AetherFlow.Net.Output
import AetherFlow.Net.Interest
import AetherFlow.Net.Hosted
import AetherFlow.Net.Server
import AetherFlow.Net.Stopping
import AetherFlow.Timer.Worker
import AetherFlow.Timer.Moves
import AetherFlow.Timer.Invariant
import AetherFlow.Timer.Wakeup
import AetherFlow.Timer.Survival
import AetherFlow.Timer.Pass
import AetherFlow.Timer.Order
import AetherFlow.Metrics.Histogram
import AetherFlow.Metrics.Buckets
import AetherFlow.Metrics.Median
import AetherFlow.Metrics.Percentile
import AetherFlow.Metrics.Snapshot
import AetherFlow.System.Idle
import AetherFlow.System.Metered
