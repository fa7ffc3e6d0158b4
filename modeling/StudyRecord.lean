import StudyRecord.Library.Machine
import StudyRecord.Library.CString
import StudyRecord.Library.LineStream
import StudyRecord.Library.Path
import StudyRecord.Library.LinkedList
import StudyRecord.Library.Ring
import StudyRecord.Library.Countdown
import StudyRecord.Library.Runs
import StudyRecord.Library.Threads
import StudyRecord.Http.Core
import StudyRecord.Http.Scanner
import StudyRecord.Http.Unread
import StudyRecord.Http.Lines
import StudyRecord.Http.Loop
import StudyRecord.Http.Segmentation
import StudyRecord.Http.Body
import StudyRecord.Http.LineEnd
import StudyRecord.Http.Response
import StudyRecord.Http.Delivery
import StudyRecord.Http.Calls
import StudyRecord.Http.Bounds
import StudyRecord.Http.DocRoot
import StudyRecord.Http.Amount
import StudyRecord.Http.Reuse
import StudyRecord.Http.Slot
import StudyRecord.Http.Mapping
import StudyRecord.Parse.Parser
import StudyRecord.Parse.RequestLine
import StudyRecord.Parse.Grammar
import StudyRecord.Timer.TimeWheel
import StudyRecord.Timer.Slots
import StudyRecord.Timer.Firing
import StudyRecord.Timer.Renewal
import StudyRecord.Timer.SortedList
import StudyRecord.Timer.SortedSet
import StudyRecord.Pool.ThreadPool
import StudyRecord.Pool.ExactlyOnce
import StudyRecord.Log.BlockQueue
import StudyRecord.Log.Fifo
import StudyRecord.Log.Logger
import StudyRecord.Log.Order
import StudyRecord.Log.Stop
import StudyRecord.Server.WebServer
import StudyRecord.Server.Registry
import StudyRecord.Server.Consistency
import StudyRecord.Server.OneShot
import StudyRecord.Server.Idle
import StudyRecord.Server.Modes
import StudyRecord.Server.Slots
import StudyRecord.Http.RequestLine
import StudyRecord.Http.Framing
import StudyRecord.Http.Progress
import StudyRecord.Library.ArrayHeap
import StudyRecord.Timer.MinHeap
import StudyRecord.Timer.Expiry
import StudyRecord.Chat.ShmServer
import StudyRecord.Chat.ChildTable
import StudyRecord.Chat.Segments
import StudyRecord.Chat.Room
import StudyRecord.Chat.Faithful
import StudyRecord.Chat.Quiet
import StudyRecord.Chat.Patience
import StudyRecord.Pool.Forgotten
import StudyRecord.Timer.CloseInactive
import StudyRecord.Timer.DeletedOnce
import StudyRecord.Chat.PollServer
import StudyRecord.Chat.Relay
import StudyRecord.Pool.Capacity
import StudyRecord.Pool.Selection
import StudyRecord.Library.RoundRobin
import StudyRecord.Pool.RoundRobin
import StudyRecord.Http.FileName
import StudyRecord.Http.KeepAlive
import StudyRecord.Log.CounterWrap
import StudyRecord.Cgi.CgiConn
import StudyRecord.Cgi.CommandLine
import StudyRecord.Cgi.Release
import StudyRecord.Server.Descriptors
import StudyRecord.Library.Outcome
import StudyRecord.Timer.IntHeap
import StudyRecord.Timer.HeapIndex
import StudyRecord.Timer.HeapAgreement
import StudyRecord.Library.Dispatch
import StudyRecord.Server.Signals
import StudyRecord.Pressure.WriteNbytes
import StudyRecord.Pressure.WebBench
import StudyRecord.Pressure.Fetch
import StudyRecord.Server.OpenListenfd
import StudyRecord.Timer.WellFormed
import StudyRecord.Http.ScanInvariant
import StudyRecord.Http.Head
import StudyRecord.Http.Message
import StudyRecord.Http.Session
import StudyRecord.Library.Readiness
import StudyRecord.Practice.TcpAndUdp
import StudyRecord.Server.EventLoop
import StudyRecord.Practice.ServerSockets
import StudyRecord.Practice.TcpEcho
import StudyRecord.Practice.UdpReplies
import StudyRecord.Library.Trace
import StudyRecord.Pool.Linear
import StudyRecord.Library.Schedule
import StudyRecord.Timer.Agreement
import StudyRecord.Timer.WheelAgreement
import StudyRecord.Server.Silent
import StudyRecord.Http.Conversation
import StudyRecord.Server.Conversation
import StudyRecord.Practice.EpollOneshot
import StudyRecord.Practice.Overwritten
import StudyRecord.Pressure.Benchmark
import StudyRecord.Server.StrayStore
