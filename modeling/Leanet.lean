import Leanet.Foundation.Machine
import Leanet.Foundation.Fault
import Leanet.Foundation.Bytes
import Leanet.Foundation.Memory
import Leanet.Foundation.OrdSet
import Leanet.Foundation.Slots
import Leanet.Foundation.Monitor
import Leanet.Foundation.Gregorian
import Leanet.Foundation.LowerBound
import Leanet.Foundation.Numeral
import Leanet.Foundation.Endian
import Leanet.Time.Date
import Leanet.Time.DayNumber
import Leanet.Time.Libc
import Leanet.Time.Utc
import Leanet.Time.TimeZone
import Leanet.Time.LocalTime
import Leanet.Time.ProcessZone
import Leanet.Foundation.Reader
import Leanet.Time.ZoneFile
import Leanet.Time.ZoneLayout
import Leanet.Log.LogStream
import Leanet.Log.Convert
import Leanet.Log.Overrun
import Leanet.Log.Rendering
import Leanet.Log.LogTime
import Leanet.Log.Line
import Leanet.Socket.InetAddress
import Leanet.Time.Text
import Leanet.Buffer.Model
import Leanet.Buffer.Queue
import Leanet.Buffer.Integers
import Leanet.Buffer.ReadFd
import Leanet.Buffer.SizeT
import Leanet.Buffer.Reserve
import Leanet.Buffer.Circular
import Leanet.Buffer.CircularQueue
import Leanet.Buffer.Extraction
import Leanet.Loop.EventLoop
import Leanet.Loop.Tasks
import Leanet.Loop.Wakeup
import Leanet.Loop.Quit
import Leanet.Loop.EventLoopThread
import Leanet.Poll.Channel
import Leanet.Poll.Poller
import Leanet.Poll.Table
import Leanet.Poll.Active
import Leanet.Poll.Assertions
import Leanet.Poll.EPollPoller
import Leanet.Poll.Watch
import Leanet.Poll.Report
import Leanet.Loop.Dispatch
import Leanet.Loop.Teardown
import Leanet.Socket.Errno
import Leanet.Thread.ThreadPool
import Leanet.Thread.Stranded
import Leanet.Thread.BlockingQueue
import Leanet.Thread.Latch
import Leanet.Timer.TimerQueue
import Leanet.Timer.Ownership
import Leanet.Timer.Operations
import Leanet.Timer.Cancel
import Leanet.Timer.Alarm
import Leanet.Timer.Deletion
import Leanet.Timer.Fire
import Leanet.Timer.AddTimer
import Leanet.Timer.Contract
import Leanet.Connector.Connector
import Leanet.Connector.Attempts
import Leanet.Connector.Outcome
import Leanet.Connector.Client
import Leanet.Connector.Ledger
import Leanet.Connector.TcpClient
import Leanet.Connector.Abandoned
import Leanet.Connector.Lifetime
import Leanet.Connector.Departure
import Leanet.Tcp.Connection
import Leanet.Tcp.OutputStream
import Leanet.Tcp.Calls
import Leanet.Tcp.Pipe
import Leanet.Tcp.WriteError
import Leanet.Tcp.HighWater
import Leanet.Tcp.LifeCycle
import Leanet.Tcp.Shared
import Leanet.Tcp.Capture
import Leanet.Tcp.Inert
import Leanet.Tcp.Handover
import Leanet.Tcp.Flush
import Leanet.Tcp.Round
import Leanet.Tcp.Story
import Leanet.Server.TcpServer
import Leanet.Server.Affinity
import Leanet.Server.LoopPool
