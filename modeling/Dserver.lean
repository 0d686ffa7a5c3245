import Dserver.Base.Timestamp
import Dserver.Lib.Machine
import Dserver.Lib.BatchQueue
import Dserver.Lib.OrderedMap
import Dserver.Lib.OrderedSet
import Dserver.Lib.Lines
import Dserver.Lib.Cells
import Dserver.Lib.Numerals
import Dserver.Lib.IntegerTypes
import Dserver.Lib.LittleEndian
import Dserver.Lib.Fuel
import Dserver.Lib.Calendar
import Dserver.Lib.FixedWidth
import Dserver.Lib.RoundRobin
import Dserver.Base.AsyncLogging
import Dserver.Base.LogConservation
import Dserver.Base.LogStop
import Dserver.Base.LogStream
import Dserver.Base.StreamContents
import Dserver.Base.Convert
import Dserver.Base.Logging
import Dserver.Base.LogFile
import Dserver.Base.LogRolling
import Dserver.Base.LogPipeline
import Dserver.Base.LogFiles
import Dserver.Base.FormattedTime
import Dserver.Base.LogTimes
import Dserver.Base.ThreadPool
import Dserver.Base.PoolQueue
import Dserver.Base.PoolShutdown
import Dserver.Base.Thread
import Dserver.Base.LogStart
import Dserver.Net.Buffer
import Dserver.Net.BufferQueue
import Dserver.Net.BufferStore
import Dserver.Net.Channel
import Dserver.Net.Poller
import Dserver.Net.ChannelInterest
import Dserver.Net.Polling
import Dserver.Net.EventLoop
import Dserver.Net.EventLoopThread
import Dserver.Net.ServerStart
import Dserver.Net.StartOnce
import Dserver.Net.TcpConnection
import Dserver.Net.ConnectionEffect
import Dserver.Net.ChannelEffect
import Dserver.Net.InetAddress
import Dserver.Net.Acceptor
import Dserver.Net.AcceptTermination
import Dserver.Net.OutputInvariant
import Dserver.Net.TcpServer
import Dserver.Net.ServerEffect
import Dserver.Net.ServerInvariant
import Dserver.Net.Dispatch
import Dserver.Net.ServerFaults
import Dserver.Net.OutputStream
import Dserver.Net.Notices
import Dserver.Net.GracefulShutdown
import Dserver.Net.Lifecycle
import Dserver.Net.Removal
import Dserver.Net.Lifetime
import Dserver.Net.Http.HttpContext
import Dserver.Net.Http.ParseBytes
import Dserver.Net.Http.RequestLine
import Dserver.Net.Http.RequestFormat
import Dserver.Net.Http.HttpServer
import Dserver.Net.Http.ResponseFormat
import Dserver.Net.Http.MessageEffect
import Dserver.Net.Http.Replies
import Dserver.Net.Http.Termination
import Dserver.Net.Http.Pipelining
import Dserver.Net.Http.Wire
import Dserver.Net.Http.HttpLoop
import Dserver.Net.Http.HttpRuns
import Dserver.Net.TimerQueue
import Dserver.Net.TimerOwnership
import Dserver.Net.TimerReset
import Dserver.Net.TimerEffect
import Dserver.Net.TimerArming
import Dserver.Net.TimerCancel
import Dserver.Net.TimerBatch
import Dserver.Net.LoopTimers
import Dserver.Net.TimerIds
import Dserver.FileServer.OnMessage
import Dserver.FileServer.Reply
import Dserver.FileServer.Frames
import Dserver.FileServer.Turn
import Dserver.FileServer.ClientRequests
import Dserver.FileServer.Requests
import Dserver.FileServer.RoundTrip
import Dserver.FileServer.Threads
import Dserver.FileServer.AccessControl
