import DclProcessor.Library.Transition
import DclProcessor.Library.Exchange
import DclProcessor.Library.Simulation
import DclProcessor.Library.Stage
import DclProcessor.Library.Bytes
import DclProcessor.Library.Successor
import DclProcessor.Library.Text
import DclProcessor.Library.Memory
import DclProcessor.Library.Json
import DclProcessor.Library.Layout
import DclProcessor.Library.CString
import DclProcessor.Library.Stretch
import DclProcessor.Library.SlotTable
import DclProcessor.Pipeline.Module
import DclProcessor.Pipeline.Client
import DclProcessor.Pipeline.Server
import DclProcessor.Pipeline.Chain
import DclProcessor.Pipeline.Link
import DclProcessor.Pipeline.Wiring
import DclProcessor.Pipeline.Ownership
import DclProcessor.Pipeline.Handshake
import DclProcessor.Pipeline.Order
import DclProcessor.Pipeline.Judge
import DclProcessor.Pipeline.Forward
import DclProcessor.Pipeline.Drain
import DclProcessor.Pipeline.Progress
import DclProcessor.Pipeline.Pair
import DclProcessor.Pipeline.Startup
import DclProcessor.Pipeline.Links
import DclProcessor.Pipeline.Opening
import DclProcessor.Pipeline.Verdict
import DclProcessor.Pipeline.StopRequest
import DclProcessor.Pipeline.Launch
import DclProcessor.Pipeline.Shutdown
import DclProcessor.Pipeline.Leave
import DclProcessor.Pipeline.Pause
import DclProcessor.Pipeline.Trap
import DclProcessor.Pipeline.Contents
import DclProcessor.Pipeline.Transport
import DclProcessor.Pipeline.Recycle
import DclProcessor.Shmem.MemoryMap
import DclProcessor.Shmem.Publish
import DclProcessor.Shmem.Segments
import DclProcessor.Description.Parse
import DclProcessor.Description.FullObject
import DclProcessor.Description.Accessors
import DclProcessor.Description.Fill
import DclProcessor.Description.SourceMemory
import DclProcessor.Description.CollectorMemory
import DclProcessor.Description.Faithful
import DclProcessor.Description.Rewrite
import DclProcessor.Collector.Tcp
import DclProcessor.Collector.Fragments
import DclProcessor.Collector.Barrier
import DclProcessor.Collector.Rounds
import DclProcessor.Collector.Objects
import DclProcessor.Collector.Ending
import DclProcessor.Collector.Bounds
import DclProcessor.Collector.Notice
import DclProcessor.Collector.Create
import DclProcessor.Collector.Segmentation
import DclProcessor.Collector.Holding
import DclProcessor.Collector.Intake
import DclProcessor.Collector.Gige
import DclProcessor.Processor.Line
import DclProcessor.Processor.Works
import DclProcessor.Processor.Freed
import DclProcessor.FakeTcp.ObjectBreak
import DclProcessor.FakeTcp.Generator
import DclProcessor.FakeTcp.Stream
import DclProcessor.Process.Table
import DclProcessor.Process.KillAll
import DclProcessor.Messenger.Request
import DclProcessor.Messenger.Framing
import DclProcessor.Messenger.Extract
import DclProcessor.Messenger.Server
import DclProcessor.Messenger.Connections
import DclProcessor.Messenger.Streams
import DclProcessor.Messenger.Client
import DclProcessor.Messenger.Commands
import DclProcessor.Camera.Gvsp
import DclProcessor.Camera.Reassembly
import DclProcessor.Camera.Gvcp
import DclProcessor.Camera.Arrivals
import DclProcessor.Camera.Untouched
import DclProcessor.Camera.Header
import DclProcessor.Camera.Timestamp
import DclProcessor.Camera.Discovery
import DclProcessor.Camera.Ops
import DclProcessor.Camera.Session
import DclProcessor.Camera.Copies
import DclProcessor.Collector.Cameras
import DclProcessor.Construct.Init
import DclProcessor.Construct.Attach
import DclProcessor.Construct.Undo
import DclProcessor.Construct.Slots
import DclProcessor.Construct.Chunks
