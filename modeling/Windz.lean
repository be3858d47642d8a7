import Windz.Lib.Copy
import Windz.Lib.Machine
import Windz.Lib.Trace
import Windz.Lib.Monitor
import Windz.Lib.BinaryHeap
import Windz.Lib.Scan
import Windz.Lib.Logged
import Windz.Lib.Retry
import Windz.Lib.Numeral
import Windz.Lib.Descriptors
import Windz.Base.Timestamp
import Windz.Base.Util
import Windz.Base.UtilProof
import Windz.Base.BlockingQueue
import Windz.Base.QueueMonitor
import Windz.Base.CountDownLatch
import Windz.Base.Thread
import Windz.Base.ThreadInvariant
import Windz.Base.ThreadOwner
import Windz.Base.ThreadProof
import Windz.Base.ThreadStart
import Windz.Base.ThreadPool
import Windz.Base.ThreadPoolSteps
import Windz.Base.ThreadPoolProof
import Windz.Base.ThreadPoolStop
import Windz.Base.ThreadPoolWorkers
import Windz.Base.ThreadPoolProgress
import Windz.Log.LogStream
import Windz.Log.Convert
import Windz.Log.ConvertProof
import Windz.Log.LogStreamMemory
import Windz.Log.LogStreamProof
import Windz.Log.Logger
import Windz.Log.LoggerProof
import Windz.Log.AsyncLogging
import Windz.Log.AsyncLoggingProof
import Windz.Log.AsyncLoggingFile
import Windz.Log.AsyncLoggingStop
import Windz.Log.AsyncLoggingRounds
import Windz.Log.AsyncLoggingProgress
import Windz.Log.AsyncLoggingDelivery
import Windz.Log.FileUtil
import Windz.Log.LogFile
import Windz.Log.LogFileProof
import Windz.Log.LogFileSize
import Windz.Log.LogPipeline
import Windz.Log.LogPipelineProof
import Windz.Net.Buffer
import Windz.Net.BufferProof
import Windz.Net.BufferRuns
import Windz.Net.BufferBound
import Windz.Net.Timer
import Windz.Net.TimerHeap
import Windz.Net.TimerProof
import Windz.Net.TimerSteps
import Windz.Net.TimerCancel
import Windz.Net.TimerExpired
import Windz.Net.TimerExpiredInvariant
import Windz.Net.TimerExpiredRuns
import Windz.Net.TimerDelay
import Windz.Net.EventLoop
import Windz.Net.EventLoopSteps
import Windz.Net.EventLoopProof
import Windz.Net.EventLoopProgress
import Windz.Net.TimedLoop
import Windz.Net.TimedLoopProof
import Windz.Net.TimerHeapRuns
import Windz.Net.EventLoopThread
import Windz.Net.EventLoopThreadProof
import Windz.Net.EventLoopThreadDestroy
import Windz.Net.Channel
import Windz.Net.ChannelLoop
import Windz.Net.ChannelLoopProof
import Windz.Net.ChannelLoopDestroy
import Windz.Net.ValidBuffer
import Windz.Net.TcpConnection
import Windz.Net.TcpConnectionSteps
import Windz.Net.Connector
import Windz.Net.ConnectorSteps
import Windz.Net.ConnectorCore
import Windz.Net.ConnectorProof
import Windz.Net.ConnectorSockets
import Windz.Net.ConnectorEvents
import Windz.Net.ConnWorld
import Windz.Net.ConnInvariant
import Windz.Net.Sender
import Windz.Net.SenderStream
import Windz.Net.ConnSender
import Windz.Net.ConnNestedSteps
import Windz.Net.ConnNested
import Windz.Net.ConnShutdown
import Windz.Net.ConnForceClose
import Windz.Net.ConnOnce
import Windz.Net.ConnPending
import Windz.Net.Lifecycle
import Windz.Net.ConnStages
import Windz.Net.ConnLifecycle
import Windz.Net.ConnRegistry
import Windz.Net.Echo
import Windz.Net.ConnServing
import Windz.Net.EchoProof
import Windz.Net.InetAddr
import Windz.Net.Acceptor
import Windz.Net.AcceptorProof
import Windz.Net.AcceptorSpare
import Windz.Net.TcpServer
import Windz.Net.TcpServerSteps
import Windz.Net.TcpServerViews
import Windz.Net.TcpServerProof
import Windz.Net.TcpClient
import Windz.Net.TcpClientSteps
import Windz.Net.TcpClientProof
import Windz.Net.TcpClientStop
import Windz.Net.TcpClientDestroy
import Windz.Net.ConnectorDestroy
import Windz.Net.ConnDestroyed
import Windz.Net.TcpServerAlive
import Windz.Net.TcpServerDestroy
import Windz.Net.ConnThreads
import Windz.Net.TcpServerDestroyProof
import Windz.Net.TcpServerProgress
import Windz.Net.TcpServerStart
import Windz.Net.TcpServerStartProof
import Windz.Util.Config
import Windz.Util.ConfigLines
import Windz.Util.ConfigFile
import Windz.Util.ConfigBounds
import Windz.Util.ConfigLoop
import Windz.Util.ConfigPhysical
import Windz.Util.ConfigLong
import Windz.Util.ConfigValues
import Windz.Util.Strtol
import Windz.Util.ConfigKeys
import Windz.Util.Daemon
import Windz.Util.DaemonProof
import Windz.Util.DaemonStart
import Windz.Util.DaemonStartProof
import Windz.Util.DaemonFiles
