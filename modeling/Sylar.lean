import Sylar.Lib.Segment
import Sylar.Lib.Machine
import Sylar.Lib.Bytes
import Sylar.ByteArray.Basic
import Sylar.ByteArray.Invariant
import Sylar.ByteArray.Flat
import Sylar.ByteArray.Refine
import Sylar.ByteArray.Typed
import Sylar.ByteArray.Reach
import Sylar.ByteArray.RoundTrip
import Sylar.ByteArray.Strings
import Sylar.ByteArray.Reader
import Sylar.ByteArray.Safety
import Sylar.ByteArray.Positional
import Sylar.ByteArray.Export
import Sylar.ByteArray.Scatter
import Sylar.Stream.FixSize
import Sylar.IOManager.Basic
import Sylar.IOManager.Coupling
import Sylar.IOManager.Runs
import Sylar.IOManager.Dispatch
import Sylar.IOManager.IdleTimeout
import Sylar.Lib.Slots
import Sylar.Scheduler.Basic
import Sylar.Scheduler.Conservation
import Sylar.Scheduler.Selection
import Sylar.Scheduler.Batch
import Sylar.Scheduler.Resume
import Sylar.Lib.OrderedSet
import Sylar.Timer.Basic
import Sylar.Timer.Earliest
import Sylar.Http.Tables
import Sylar.Http.Url
import Sylar.Lib.Stream
import Sylar.Http.Execute
import Sylar.Http.Parsers
import Sylar.Http.Marks
import Sylar.Http.Resume
import Sylar.Http.Chunking
import Sylar.Http.Session
import Sylar.Http.Head
import Sylar.Timer.Handles
import Sylar.Timer.Expiry
import Sylar.Timer.Wakeup
import Sylar.Hook.Fd
import Sylar.Hook.Nonblock
import Sylar.Hook.DoIo
import Sylar.Hook.Eagain
import Sylar.Hook.Timeout
import Sylar.Hook.Sleep
import Sylar.Hook.SockTimeout
import Sylar.Log.Basic
import Sylar.Log.FileAppender
import Sylar.Config.SetValue
import Sylar.Log.Define
import Sylar.Config.Yaml
import Sylar.Http.Message
import Sylar.Http.StartLine
import Sylar.Http.UrlParts
import Sylar.Http.Dump
import Sylar.Http.Sent
import Sylar.Util.UrlCode
import Sylar.Lib.Trimming
import Sylar.Util.Trim
import Sylar.Util.TrimLaws
import Sylar.Lib.OrderedMap
import Sylar.Lib.Splitter
import Sylar.Http.Params
import Sylar.Http.ParamText
import Sylar.Lib.LazyFill
import Sylar.Lib.Narrow
import Sylar.Lib.Transfer
import Sylar.Http.LazyParams
import Sylar.Lib.History
import Sylar.Http.Servlet
import Sylar.Lib.Ownership
import Sylar.Http.Pool
import Sylar.Hook.FdTable
import Sylar.IOManager.Table
import Sylar.Hook.Descriptors
import Sylar.Log.Codec
import Sylar.Log.Inherit
import Sylar.Log.Pattern
import Sylar.Log.Grammar
import Sylar.Fiber.Current
import Sylar.Http.StatusLine
import Sylar.Http.HeadLimit
import Sylar.Http.Response
import Sylar.Uri.Basic
import Sylar.Lib.Automaton
import Sylar.Uri.Frame
import Sylar.Uri.Authority
import Sylar.Uri.Absolute
import Sylar.Uri.RoundTrip
import Sylar.Http.HostHeader
import Sylar.Http.PoolAge
import Sylar.TcpServer.Bind
import Sylar.Http.Framing
import Sylar.Lib.Lines
import Sylar.Lib.Bits
import Sylar.Address.IPv4
import Sylar.Address.IPv6
import Sylar.Lib.Elided
import Sylar.Lib.Numeral
import Sylar.Address.IPv6Text
import Sylar.Address.Lookup
import Sylar.Lib.PathTree
import Sylar.Util.Rm
import Sylar.ByteArray.Varint
import Sylar.Lib.Receiver
import Sylar.Http.Receive
import Sylar.Http.Server
import Sylar.Http.Client
import Sylar.IOManager.Drain
import Sylar.Net.Socket
import Sylar.Log.Output
import Sylar.Config.Cast
import Sylar.IOManager.Frame
import Sylar.Hook.Connect
import Sylar.ByteArray.File
import Sylar.TcpServer.Accept
import Sylar.Scheduler.Lifetime
import Sylar.Log.Dump
import Sylar.Thread.Lifecycle
import Sylar.Scheduler.Pool
