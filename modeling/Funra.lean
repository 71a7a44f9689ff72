import Funra.Lib.CInt
import Funra.Lib.Except
import Funra.Lib.Cursor
import Funra.Lib.Transcode
import Funra.Lib.LuaStack
import Funra.Lib.Locks
import Funra.Lib.Mem
import Funra.Lib.Heap
import Funra.Lib.Endian
import Funra.Lib.System
import Funra.Lib.BoundedQueue
import Funra.Lib.Linked
import Funra.Lib.Table
import Funra.Lib.KeyMap
import Funra.Lib.Ledger
import Funra.Lib.Loop
import Funra.Lib.Words
import Funra.Lib.Borders
import Funra.Lib.Paths
import Funra.Lib.Decimal
import Funra.Lib.Moves
import Funra.Lib.Digraph
import Funra.Lib.PrefixCode
import Funra.Lib.FreeList
import Funra.Rbuffer.Spec
import Funra.Rbuffer.Runs
import Funra.Rbuffer.Cursors
import Funra.Rbuffer.Rewind
import Funra.Codec.Frame
import Funra.Codec.Encode
import Funra.Codec.Append
import Funra.Codec.Decode
import Funra.Codec.Hostile
import Funra.Codec.Feed
import Funra.Codec.RoundTrip
import Funra.Codec.Resend
import Funra.Codec.Chunks
import Funra.Codec.Stream
import Funra.Rdict.Basic
import Funra.Rdict.Inv
import Funra.Rdict.Update
import Funra.Rdict.Rehash
import Funra.Rdict.Ops
import Funra.Rdict.Iter
import Funra.Rdict.Runs
import Funra.Rdict.Refine
import Funra.Rdict.Returns
import Funra.Rdict.Capacity
import Funra.Rdict.Adds
import Funra.Rdict.Failures
import Funra.Rdict.Iterators
import Funra.Rdict.Associations
import Funra.Rdict.Ownership
import Funra.Rlist.Basic
import Funra.Rlist.Refine
import Funra.Rlist.Runs
import Funra.Rlist.Merge
import Funra.Rarray.Basic
import Funra.Rarray.Refine
import Funra.Rarray.Runs
import Funra.Rarray.Builds
import Funra.Rarray.Strings
import Funra.Rarray.Ints
import Funra.Rstring.Basic
import Funra.Rstring.Concat
import Funra.Rstring.Kmp
import Funra.Rstring.Split
import Funra.Rstring.Buffer
import Funra.Rstring.Repl
import Funra.Rstring.Search
import Funra.Rstring.Hex
import Funra.Rstring.Trim
import Funra.Rstring.Cat
import Funra.Rstring.Pointers
import Funra.Rmemory.Trace
import Funra.Rtools.Iterator
import Funra.Epoll.Server
import Funra.Epoll.Repoll
import Funra.Epoll.Send
import Funra.Epoll.Buffers
import Funra.Epoll.Sockets
import Funra.Epoll.Opening
import Funra.Epoll.Client
import Funra.Epoll.Discipline
import Funra.Epoll.Order
import Funra.Epoll.Interest
import Funra.Epoll.Reactor
import Funra.Epoll.Connections
import Funra.Epoll.ServerInterest
import Funra.Epoll.Sessions
import Funra.Epoll.HangUp
import Funra.Epoll.Accept
import Funra.Epoll.Link
import Funra.Client.Send
import Funra.Client.Pending
import Funra.Client.Receive
import Funra.Client.Lifecycle
import Funra.Socket.Options
import Funra.Rlog.Basic
import Funra.Rlog.Locks
import Funra.Rlog.Files
import Funra.Rlog.Template
import Funra.Rlog.Filepath
import Funra.Rlog.Rolling
import Funra.Rfile.Items
import Funra.Rfile.Utf
import Funra.Rfile.Wide
import Funra.Rfile.Path
import Funra.Rfile.Names
import Funra.Rfile.Make
import Funra.Rfile.Listing
import Funra.Rfile.Copy
import Funra.Rtime.Date
import Funra.Rtime.Zone
import Funra.Rtime.Timeout
import Funra.Script.Call
import Funra.Script.Profiler
import Funra.Script.Travel
import Funra.Script.Output
import Funra.Script.Leftover
import Funra.Uv.Send
import Funra.Uv.Session
import Funra.Uv.Release
import Funra.Uv.Accept
import Funra.Uv.Client
import Funra.Pool.Runs
import Funra.Pool.Chain
import Funra.Ecs.Systems
import Funra.Ecs.Registry
import Funra.Ecs.Basic
import Funra.Ecs.Ids
import Funra.Ecs.Runs
import Funra.Ecs.Components
import Funra.Ecs.References
import Funra.Ecs.Lifecycle
import Funra.Ecs.Rollback
import Funra.Ecs.Search
import Funra.Ecs.Schedule
import Funra.Rpc.Closures
import Funra.Rpc.Wire
import Funra.Rpc.Client
import Funra.Rpc.Lifecycle
import Funra.Rpc.Net
