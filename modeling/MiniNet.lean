import MiniNet.Lib.Bytes
import MiniNet.Lib.Family
import MiniNet.Lib.Json
import MiniNet.Lib.JsonGrammar
import MiniNet.Lib.Utf8
import MiniNet.Lib.Machine
import MiniNet.Lib.Linearizability
import MiniNet.Lib.Memory
import MiniNet.Lib.Serial
import MiniNet.Lib.Threads
import MiniNet.Buffer
import MiniNet.Buffer.Queue
import MiniNet.Buffer.Capacity
import MiniNet.Channel
import MiniNet.EpollPoller
import MiniNet.EpollPoller.Agreement
import MiniNet.MemoryPool
import MiniNet.MemoryPool.Invariant
import MiniNet.MemoryPool.Layout
import MiniNet.ThreadPool
import MiniNet.ThreadPool.ExactlyOnce
import MiniNet.EventLoop
import MiniNet.EventLoop.Order
import MiniNet.EventLoop.Wakeup
import MiniNet.EventLoop.Timers
import MiniNet.EventLoop.Punctuality
import MiniNet.EventLoopThread
import MiniNet.TimerWheel
import MiniNet.TimerWheel.Schedule
import MiniNet.TimerWheel.Cancellation
import MiniNet.HttpTypes
import MiniNet.HttpTypes.Reading
import MiniNet.HttpParser
import MiniNet.HttpParser.Stream
import MiniNet.HttpParser.HeaderLimit
import MiniNet.HttpParser.Sections
import MiniNet.HttpParser.Bounds
import MiniNet.HttpParser.Framing
import MiniNet.HttpParser.Rendering
import MiniNet.HttpParser.Errors
import MiniNet.HttpServer
import MiniNet.HttpServer.Segmentation
import MiniNet.HttpServer.RoundTrip
import MiniNet.HttpServer.Retention
import MiniNet.HttpServer.Loop
import MiniNet.HttpServer.Lifetime
import MiniNet.HttpServer.Delivery
import MiniNet.HttpServer.Sessions
import MiniNet.ShortUrlService
import MiniNet.ShortUrlService.Tables
import MiniNet.ShortUrlService.Accounting
import MiniNet.ShortUrlService.Numbers
import MiniNet.ShortUrlApp
import MiniNet.ShortUrlApp.Visits
import MiniNet.ShortUrlApp.Frame
import MiniNet.ShortUrlApp.Links
import MiniNet.ShortUrlApp.Stats
import MiniNet.ShortUrlApp.Concurrent
import MiniNet.ShortUrlApp.Splitting
import MiniNet.ShortUrlApp.Json
import MiniNet.ShortUrlApp.Lookup
import MiniNet.ShortUrlApp.Tokens
import MiniNet.ShortUrlApp.Scanner
import MiniNet.ShortUrlApp.Acceptance
import MiniNet.ShortUrlApp.Utf8
import MiniNet.ShortUrlApp.Echo
import MiniNet.TcpServer.Conn
import MiniNet.TcpServer.WritePath
import MiniNet.TcpServer.ReadPath
import MiniNet.TcpServer
import MiniNet.TcpServer.Stages
import MiniNet.TcpServer.Steps
import MiniNet.TcpServer.Identity
import MiniNet.TcpServer.Placement
import MiniNet.TcpServer.Descriptors
import MiniNet.TcpServer.Dispatch
import MiniNet.TcpServer.Idle
import MiniNet.TcpServer.Sweeping
import MiniNet.HttpServer.Teardown
import MiniNet.Bench
import MiniNet.Bench.Decoding
import MiniNet.HttpServer.Exchange
import MiniNet.HttpServer.Replies
import MiniNet.HttpServer.Answers
import MiniNet.Bench.Client
import MiniNet.Bench.Handlers
import MiniNet.Bench.Counters
import MiniNet.Bench.Barrier
import MiniNet.Bench.Accounting
import MiniNet.Bench.Verification
import MiniNet.Bench.Echo
import MiniNet.Bench.Requests
import MiniNet.Bench.Reception
import MiniNet.Bench.Loopback
import MiniNet.ShortUrlApp.Received
import MiniNet.ShortUrlApp.Server
