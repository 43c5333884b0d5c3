import Dodo.Lib.Comp
import Dodo.Lib.Multimap
import Dodo.Lib.Lru
import Dodo.Lib.Machine
import Dodo.Lib.Ownership
import Dodo.Lib.Uniform
import Dodo.Lib.While
import Dodo.Lib.Base64
import Dodo.Lib.NetworkOrder
import Dodo.Lib.Pieces
import Dodo.Lib.Service
import Dodo.Lib.Smallest
import Dodo.Lib.Calendar
import Dodo.Lib.Columns
import Dodo.Lib.Buffer
import Dodo.Lib.Agree
import Dodo.Lib.Fair
import Dodo.Common.SystemError
import Dodo.Common.Text
import Dodo.Common.EscapedSplit
import Dodo.Common.Json
import Dodo.Common.Cache
import Dodo.Common.CacheLru
import Dodo.Common.CacheCapacity
import Dodo.Common.CacheHistory
import Dodo.Common.Bytes
import Dodo.Common.BytesMemory
import Dodo.Common.BytesOperations
import Dodo.Common.OpenSSL.Encode
import Dodo.Common.OpenSSL.Decode
import Dodo.Common.Base64Buffers
import Dodo.Common.DataCrypt
import Dodo.Common.EnvelopeText
import Dodo.Common.PaddedKey
import Dodo.Common.Config
import Dodo.Common.Regex
import Dodo.Common.Logger
import Dodo.Common.DateTime
import Dodo.Common.LogArchive
import Dodo.Common.LogTrail
import Dodo.Common.Application
import Dodo.Network.ReadBuffer
import Dodo.Network.Stream
import Dodo.Network.SocketStream
import Dodo.Network.TLSSocket
import Dodo.Network.SocketSend
import Dodo.Network.BaseSocket
import Dodo.Network.Fragments
import Dodo.Network.StringMessages
import Dodo.Network.Lines
import Dodo.Network.Http.Message
import Dodo.Network.Http.Version
import Dodo.Network.Http.Request
import Dodo.Network.Http.Response
import Dodo.Network.Http.Frames
import Dodo.Network.Http.Grammar
import Dodo.Network.Http.Locality
import Dodo.Network.Http.Refine.Scanners
import Dodo.Network.Http.Refine.Messages
import Dodo.Network.Http.NumericHeaders
import Dodo.Network.Http.Buffers
import Dodo.Network.Http.Chunked
import Dodo.Network.Http.HeaderSection
import Dodo.Network.Http.Truncation
import Dodo.Network.Http.Reuse
import Dodo.Network.Http.Framing
import Dodo.Network.Http.Precedence
import Dodo.Network.Http.TrailingBlanks
import Dodo.Network.Http.RoundTrip
import Dodo.Network.Http.LineGrammar
import Dodo.Network.Http.Headerless
import Dodo.Network.Http.Transmit
import Dodo.Network.Http.Reprint
import Dodo.Network.Http.Exchange
import Dodo.Network.Http.StreamEnds
import Dodo.Network.TCPListener
import Dodo.Network.TCPConnectionData
import Dodo.Network.ListenerStep
import Dodo.Network.WorkDistribution
import Dodo.Network.WorkCounter
import Dodo.Network.CallbackCycle
import Dodo.Network.ServerPool
import Dodo.Network.ListenerRun
import Dodo.Network.ListenerShutdown
import Dodo.Network.ShutdownEnds
import Dodo.Network.Uri.Parse
import Dodo.Network.Uri.Read
import Dodo.Network.Uri.Refine
import Dodo.Network.Uri.Grammar
import Dodo.Network.Uri.RoundTrip
import Dodo.Network.Uri.Reprint
import Dodo.Network.Uri.Authority
import Dodo.Network.Uri.ErrorPosition
import Dodo.Network.Uri.Safety
import Dodo.Network.X509Certificate
import Dodo.Network.Identity
import Dodo.Network.Address
import Dodo.Network.InetPton
import Dodo.Network.Stomp
import Dodo.Persist.Sqlite
import Dodo.Persist.KVStore
import Dodo.Persist.KeyMap
import Dodo.Persist.EnsureWithDefault
import Dodo.Persist.Values
import Dodo.Persist.Connection
import Dodo.Persist.Simulation
import Dodo.Persist.Lifetime
