import Liby.Buffer.Buffer
import Liby.Buffer.ByteQueue
import Liby.Buffer.Contents
import Liby.Buffer.Extraction
import Liby.Buffer.Prepend
import Liby.Buffer.Reserve
import Liby.Buffer.Shift
import Liby.Buffer.Shrink
import Liby.Buffer.StringRoundTrip
import Liby.Examples.Chat
import Liby.Examples.Daytime
import Liby.Examples.Echo
import Liby.Examples.EchoClient
import Liby.Examples.Relay
import Liby.Examples.SocksProxy
import Liby.Examples.UdpHello
import Liby.Http.BadReplies
import Liby.Http.ClientCalls
import Liby.Http.ClientLifecycle
import Liby.Http.ClientLink
import Liby.Http.ClientMatching
import Liby.Http.ClientRecord
import Liby.Http.ClientSends
import Liby.Http.DocumentRoot
import Liby.Http.EndToEnd
import Liby.Http.Framing
import Liby.Http.HttpClient
import Liby.Http.HttpDef
import Liby.Http.HttpServer
import Liby.Http.MalformedRequest
import Liby.Http.OneResponse
import Liby.Http.PlainHeaders
import Liby.Http.ReplyCount
import Liby.Http.ReplyCut
import Liby.Http.ReplyFaults
import Liby.Http.ReplyFeed
import Liby.Http.ReplyLine
import Liby.Http.ReplyParser
import Liby.Http.ReplyPieces
import Liby.Http.ReplyProgress
import Liby.Http.ReplyReturns
import Liby.Http.ReplyRoundTrip
import Liby.Http.ReplyText
import Liby.Http.RequestBounds
import Liby.Http.RequestFeed
import Liby.Http.RequestGrammar
import Liby.Http.RequestLine
import Liby.Http.RequestParser
import Liby.Http.RequestPieces
import Liby.Http.RequestRoundTrip
import Liby.Http.RequestText
import Liby.Http.Responses
import Liby.Http.UriDecoding
import Liby.Infra.Block
import Liby.Infra.Cursor
import Liby.Infra.Decimal
import Liby.Infra.Fault
import Liby.Infra.Heap
import Liby.Infra.KeyMap
import Liby.Infra.Loop
import Liby.Infra.Machine
import Liby.Infra.MachineInt
import Liby.Infra.Outbox
import Liby.Infra.Path
import Liby.Infra.Percent
import Liby.Infra.PrefixTree
import Liby.Infra.Printf
import Liby.Infra.Ranking
import Liby.Loop.EventLoopGroup
import Liby.Loop.EventQueue
import Liby.Loop.GroupShutdown
import Liby.Loop.GroupThreads
import Liby.Loop.LoopConfinement
import Liby.Loop.QueueMonitor
import Liby.Loop.ResolverThread
import Liby.Net.AcceptLoop
import Liby.Net.AfterDestroy
import Liby.Net.BackEnds
import Liby.Net.BackEndsAgree
import Liby.Net.ConnectAnswered
import Liby.Net.Connection
import Liby.Net.EmptySends
import Liby.Net.EventBatch
import Liby.Net.GracefulClose
import Liby.Net.HandlerDestroys
import Liby.Net.LoopHandlers
import Liby.Net.Noblock
import Liby.Net.PeerClose
import Liby.Net.PollTable
import Liby.Net.Poller
import Liby.Net.QueueLength
import Liby.Net.ReadAll
import Liby.Net.ReadPath
import Liby.Net.ReadStream
import Liby.Net.Registration
import Liby.Net.SelectLoop
import Liby.Net.SelectSets
import Liby.Net.SyncCalls
import Liby.Net.TcpClient
import Liby.Net.UdpCallbacks
import Liby.Net.UdpDatagrams
import Liby.Net.UdpDemux
import Liby.Net.UdpDestroyed
import Liby.Net.UdpOwners
import Liby.Net.UdpSocket
import Liby.Net.UdpWrite
import Liby.Net.WriteFailure
import Liby.Net.WriteFrame
import Liby.Net.WriteHandlers
import Liby.Net.WriteInterest
import Liby.Net.WritePath
import Liby.Net.WriteSteps
import Liby.Timer.BinaryHeap
import Liby.Timer.BinaryHeapRuns
import Liby.Timer.BinaryHeapSound
import Liby.Timer.HeapBounds
import Liby.Timer.HeapErase
import Liby.Timer.PeriodicTimers
import Liby.Timer.PollTimeout
import Liby.Timer.Settled
import Liby.Timer.TimerOrder
import Liby.Timer.TimerOwner
import Liby.Timer.TimerQueue
import Liby.Timer.TimerStep
import Liby.Timer.TimerfdArmed
import Liby.Timer.TimersDestroyed
import Liby.Timer.TimersDue
import Liby.Timer.TimersOnce
import Liby.Timer.Timestamp
import Liby.Timer.TimestampArithmetic
import Liby.Util.Logger
import Liby.Util.Signal
import Liby.Util.TimeString
import Liby.Util.Trie
