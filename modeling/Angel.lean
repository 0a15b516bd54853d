import Angel.Sha1.Compress
import Angel.Sockops
import Angel.Base64
import Angel.Connection.Runs
import Angel.Http.Pipeline
import Angel.Http.Isolation
import Angel.Http.RoundTrip
import Angel.Http.OneResponse
import Angel.Http.Closing
import Angel.Sha1.Digest
import Angel.Dns.Name
import Angel.Dns.Exact
import Angel.Dns.Resolver
import Angel.Dns.Answers
import Angel.Dns.Unpack
import Angel.Websocket.Model
import Angel.Websocket.Frames
import Angel.Websocket.Messages
import Angel.Websocket.RoundTrip
import Angel.Websocket.Accepted
import Angel.Websocket.Handshake
import Angel.Mime.Model
import Angel.Mime.Parser
import Angel.Mime.Tree
import Angel.Mime.Content
import Angel.Mime.RoundTrip
import Angel.Timer.Model
import Angel.Timer.Store
import Angel.Timer.Runs
import Angel.Evloop
import Angel.Http.Pool
import Angel.Http.Requests
import Angel.Http.RequestSteps
import Angel.Http.Waiters
import Angel.Http.Timeouts
import Angel.Http.Confinement
import Angel.Buffer.Memory
import Angel.Lib.Lines
import Angel.Smtp.Model
import Angel.Smtp.Data
import Angel.Client.Model
import Angel.Client.Reconnect
import Angel.Dns.Bounds
import Angel.Dns.Cache
import Angel.Dns.Queries
import Angel.ThreadPool
import Angel.Http.ChunkedSend
import Angel.Timer.Loop
import Angel.Timer.Timeout
import Angel.Http.ClientRequest
import Angel.Http.RequestLine
import Angel.Http.RequestDelivery
import Angel.Http.Framing
import Angel.Http.FramedPaths
import Angel.Http.SelfDelimiting
import Angel.Http.QueryRange
import Angel.Http.StatusLine
import Angel.Buffer.Lines
import Angel.Http.HeaderLines
import Angel.Mime.HeaderLines
import Angel.Connection.Completion
import Angel.Timer.Tick
import Angel.Logger
import Angel.Signal
import Angel.Smtp.Dialogue
import Angel.Smtp.Sequence
import Angel.Smtp.Order
import Angel.Client.Once
import Angel.Smtp.Lifetime
import Angel.Websocket.Fragments
import Angel.Websocket.Control
import Angel.Websocket.Sequences
import Angel.Http.Dates
import Angel.Http.EntityTags
import Angel.Http.ByteRanges
import Angel.Http.ChunkBuffer
import Angel.Http.Multipart
import Angel.Http.ChunkSize
import Angel.Http.Url
import Angel.Lib.Bits
import Angel.Base64.Lines
import Angel.Base64.Foreign
import Angel.Mime.QpLines
import Angel.Mime.QpIllegal
import Angel.Websocket.RequestLine
import Angel.Dns.Encoding
import Angel.Mime.Grammar
import Angel.Mime.Progress
import Angel.Mime.Envelope
import Angel.Mime.FormData
import Angel.Dns.AddrList
import Angel.Dns.Failures
import Angel.Dns.Question
import Angel.Client.KeepReconnect
import Angel.Dispatcher.Table
import Angel.Dispatcher.Epoll
import Angel.Dispatcher.Kqueue
import Angel.Dispatcher.Interest
import Angel.Dispatcher.Poll
import Angel.Dispatcher.Select
import Angel.Signal.Registry
import Angel.Mime.Types
import Angel.Http.Percent
import Angel.Mime.Boundaries
import Angel.Util.Keys
import Angel.Util.Split
import Angel.Lib.Words
import Angel.Util.Conf
import Angel.Util.CopyFile
import Angel.Dns.ResolvConf
import Angel.Lib.Partial
import Angel.Evloop.Channels
import Angel.Evloop.Lifetime
import Angel.Evloop.Pass
import Angel.Evloop.PollWait
import Angel.Reactor.Model
import Angel.Reactor.Registry
import Angel.Reactor.ForEach
import Angel.Reactor.Balance
import Angel.Reactor.Order
import Angel.Connection.Ttl
import Angel.Connection.Idle
import Angel.Ssl.Output
import Angel.Ssl.Repeats
import Angel.Ssl.Ownership
import Angel.Ssl.Filter
import Angel.Listener
import Angel.Http.FileStore
import Angel.Http.Caching
import Angel.Lib.Cursor
import Angel.Logger.Records
