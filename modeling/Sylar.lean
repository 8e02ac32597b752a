import Sylar.ByteArray.Refinement
import Sylar.ByteArray.Strings
import Sylar.ByteArray.FailedReads
import Sylar.ByteArray.Positioned
import Sylar.ByteArray.Files
import Sylar.Scheduler.Exclusive
import Sylar.IOManager.Dispatch
import Sylar.IOManager.Accounting
import Sylar.IOManager.Growth
import Sylar.Hook.Timeout
import Sylar.Timer.Store
import Sylar.Timer.Batch
import Sylar.Manager.Affinity
import Sylar.Manager.Stop
import Sylar.Http.Changes
import Sylar.Http.ChunkedBody
import Sylar.Http.ContentLength
import Sylar.Http.Consumption
import Sylar.Http.KeepAlive
import Sylar.FdManager.Model
import Sylar.Hook.Nonblock
import Sylar.Hook.Reuse
import Sylar.Log.Formatter
import Sylar.Log.Patterns
import Sylar.Config.Listeners
import Sylar.Config.FromString
import Sylar.Config.Loading
import Sylar.Http.ConnectionPool
import Sylar.Log.FileLog
import Sylar.Http.PoolPolicy
import Sylar.Log.Define
import Sylar.Log.Logger
import Sylar.Log.Convergence
import Sylar.Log.Inheritance
import Sylar.Http.Heads
import Sylar.Http.Dump
import Sylar.Http.RoundTrip
import Sylar.Http.UrlEncode
import Sylar.Http.Params
import Sylar.ByteArray.Buffers
import Sylar.ByteArray.ZeroCopy
import Sylar.Http.UrlEncode
import Sylar.Uri.Extraction
import Sylar.Uri.Decomposition
import Sylar.Uri.Printing
import Sylar.Uri.Agreement
import Sylar.Address.Subnet
import Sylar.Hook.Sleep
import Sylar.Address.Lookup
import Sylar.Http.ParamSegments
import Sylar.Http.Methods
import Sylar.Http.BodyLimit
import Sylar.Http.Framing
import Sylar.Library.AddressText
import Sylar.Address.Text
import Sylar.Util.Trim
import Sylar.Util.UrlCoding
import Sylar.Manager.IdleTimeouts
import Sylar.Stream.FixedSize
import Sylar.FdManager.Sharing
import Sylar.FdManager.LockDiscipline
import Sylar.Stream.Vectored
import Sylar.Stream.SocketStream
import Sylar.Stream.Compression
import Sylar.Stream.Decompression
import Sylar.Http.ContentDecoding
import Sylar.Timer.Punctuality
import Sylar.Library.Progress
import Sylar.Manager.Fairness
import Sylar.Manager.Conservation
import Sylar.Http.ResponseTokens
import Sylar.Http.ResponseHeads
import Sylar.Http.ResponseRoundTrip
import Sylar.Http.Exchange
import Sylar.Http.DoRequest
import Sylar.Http.Servlet
import Sylar.Fiber.Model
import Sylar.Library.Coroutine
import Sylar.Fiber.Coroutines
import Sylar.Fiber.Nesting
import Sylar.Mutex.ScopedLock
import Sylar.Library.Ownership
import Sylar.Socket.Model
import Sylar.Socket.Descriptors
import Sylar.Socket.Frames
import Sylar.TcpServer.Model
import Sylar.TcpServer.Lifecycle
import Sylar.TcpServer.Restart
