import HeapHttpd.Hpack.ParseCorrect
import HeapHttpd.Huffman.Encoding
import HeapHttpd.Hpack.RoundTrip
import HeapHttpd.Http1.CHttp
import HeapHttpd.Http2.Loops
import HeapHttpd.Http2.DynamicTable
import HeapHttpd.Http2.Settings
import HeapHttpd.Http2.Payload
import HeapHttpd.Http2.Windows
import HeapHttpd.Http2.Credit
import HeapHttpd.Http2.Ownership
import HeapHttpd.Http2.Lifecycle
import HeapHttpd.Http2.Responses
import HeapHttpd.Tunneling.RelayStream
import HeapHttpd.Tunneling.CachedResponse
import HeapHttpd.Http1.HtdocPath
import HeapHttpd.Tunneling.HttpTunneling
import HeapHttpd.Tunneling.Connecting
import HeapHttpd.Cache.Handles
import HeapHttpd.Http1.PostData
import HeapHttpd.Http1.RequestStream
import HeapHttpd.Http1.HeaderNames
import HeapHttpd.Http1.Authorization
import HeapHttpd.Http1.Pipeline
import HeapHttpd.Cgi.FastcgiStreams
import HeapHttpd.Cgi.FastcgiConnection
import HeapHttpd.Http1.CgiData
import HeapHttpd.Websocket.Framing
import HeapHttpd.Http1.Cookies
import HeapHttpd.Cache.Variables
import HeapHttpd.Cache.VariableLines
import HeapHttpd.Cache.VariableRoundTrip
import HeapHttpd.Library.SharedRegister
import HeapHttpd.Cache.SharedVariables
import HeapHttpd.Cache.LatestPush
import HeapHttpd.Http1.WebDoc
import HeapHttpd.Http1.WebDocBranches
import HeapHttpd.Http1.ByteRanges
import HeapHttpd.Http2.Layout
import HeapHttpd.Http2.Eviction
import HeapHttpd.Cache.OldestEntry
import HeapHttpd.Http2.ContentLoop
import HeapHttpd.Tunneling.ChunkRelay
import HeapHttpd.Worker.Working
import HeapHttpd.Sessions.SessionGroup
import HeapHttpd.Sessions.KeepAlive
import HeapHttpd.Http1.RequestTarget
import HeapHttpd.Sessions.OrderlyEvents
import HeapHttpd.Tunneling.Separation
import HeapHttpd.Hpack.Integers
import HeapHttpd.Huffman.Buffers
import HeapHttpd.Http1.UrlFormat
import HeapHttpd.Library.Pieces
import HeapHttpd.Http1.PostVars
import HeapHttpd.Library.Trimming
import HeapHttpd.Http1.DigestMap
import HeapHttpd.Cgi.Scgi
import HeapHttpd.Http1.Formdata
import HeapHttpd.Http1.LineReads
import HeapHttpd.Service.RejectList
import HeapHttpd.Cgi.RequestIds
import HeapHttpd.Library.Outbox
import HeapHttpd.Sessions.SendBuffer
import HeapHttpd.Sessions.ReceiveBuffer
import HeapHttpd.Tunneling.ClientSend
import HeapHttpd.Library.Allocation
import HeapHttpd.Http1.Fbuffer
import HeapHttpd.Http1.Base64
import HeapHttpd.Http1.ResponseHdr
import HeapHttpd.Library.Glob
import HeapHttpd.Service.Strmatch
import HeapHttpd.Service.AccessList
import HeapHttpd.Library.Occurrence
import HeapHttpd.Http1.Strcut
import HeapHttpd.Http1.ApiStrtrim
import HeapHttpd.Http2.Destructor
import HeapHttpd.Library.Feistel
import HeapHttpd.Library.Selection
import HeapHttpd.Library.Blocks
import HeapHttpd.Security.Des
import HeapHttpd.Security.DesStandard
import HeapHttpd.Security.Encryption
import HeapHttpd.Security.Md5
import HeapHttpd.Security.Sha1
import HeapHttpd.Security.Digcalc
import HeapHttpd.Security.WwwAuth
import HeapHttpd.Websocket.Handshake
import HeapHttpd.Library.Calendar
import HeapHttpd.Library.Scan
import HeapHttpd.Http1.Dates
import HeapHttpd.Http1.FileService
import HeapHttpd.Service.Dispatch
import HeapHttpd.Library.Journal
import HeapHttpd.Tunneling.Lifetime
import HeapHttpd.Tunneling.SharedCache
