import Jingle.Lib.Window
import Jingle.Lib.Word
import Jingle.Lib.ByteReader
import Jingle.Stun.Attribute
import Jingle.Stun.Message
import Jingle.Stun.Codec
import Jingle.Stun.Consistency
import Jingle.Relay.Server
import Jingle.Relay.Effects
import Jingle.Relay.Directory
import Jingle.Relay.Isolation
import Jingle.Relay.Consent
import Jingle.Relay.Port
import Jingle.Relay.Wire
import Jingle.Relay.Lifetime
import Jingle.Relay.Transparency
import Jingle.Lib.Mem
import Jingle.Lib.Reach
import Jingle.Lib.Tiling
import Jingle.PseudoTcp.State
import Jingle.PseudoTcp.Header
import Jingle.PseudoTcp.Transmit
import Jingle.PseudoTcp.Process
import Jingle.PseudoTcp.Api
import Jingle.PseudoTcp.Format
import Jingle.PseudoTcp.Sending
import Jingle.PseudoTcp.Receiving
import Jingle.PseudoTcp.Moves
import Jingle.PseudoTcp.SendQueue
import Jingle.PseudoTcp.QueueInv
import Jingle.PseudoTcp.Keeping
import Jingle.PseudoTcp.Congestion
import Jingle.PseudoTcp.RecvBuffer
import Jingle.PseudoTcp.RecvInv
import Jingle.PseudoTcp.Reassembly
import Jingle.PseudoTcp.SendStream
import Jingle.PseudoTcp.EndToEnd
import Jingle.PseudoTcp.Signals
import Jingle.PseudoTcp.Clock
import Jingle.PseudoTcp.AckDuty
import Jingle.PseudoTcp.Rounds
import Jingle.PseudoTcp.Events
import Jingle.Tunnel.Session
import Jingle.Tunnel.Secure
import Jingle.Tunnel.Channel
import Jingle.Tunnel.Lifetime
import Jingle.Tunnel.Leftover
import Jingle.Lib.Clock
import Jingle.Lib.Numeral
import Jingle.Lib.OrderedBy
import Jingle.Lib.StrictWeak
import Jingle.Lib.Probe
import Jingle.Lib.Heap
import Jingle.Lib.IndexLoop
import Jingle.P2p.Candidate
import Jingle.P2p.AddressText
import Jingle.P2p.Connection
import Jingle.P2p.Deletion
import Jingle.P2p.Channel
import Jingle.P2p.Liveness
import Jingle.P2p.Readable
import Jingle.P2p.Sorting
import Jingle.P2p.Comparator
import Jingle.P2p.Flapping
import Jingle.Signaling.Proxy
import Jingle.Signaling.Connect
import Jingle.Signaling.Message
import Jingle.Signaling.Session
import Jingle.Signaling.Effects
import Jingle.Signaling.Timeout
import Jingle.Signaling.LifeCycle
import Jingle.Signaling.Candidates
import Jingle.Signaling.NoTrace
import Jingle.Signaling.Manager
import Jingle.Signaling.TerminateAll
import Jingle.Signaling.Peers
import Jingle.Signaling.Xml
import Jingle.Signaling.TransportInfos
import Jingle.Signaling.RoundTrip
import Jingle.Xmpp.Jid
import Jingle.Xmpp.Validation
import Jingle.Base.MessageQueue
import Jingle.Base.QueueRun
import Jingle.Base.TimerOrder
import Jingle.Base.Conservation
import Jingle.Stun.Request
import Jingle.Stun.Completion
import Jingle.P2p.StunPort
import Jingle.P2p.Handshake
import Jingle.Xmllite.Element
import Jingle.Xmllite.Printer
import Jingle.Xmllite.Parser
import Jingle.Xmllite.Tree
import Jingle.Lib.Xml
import Jingle.Xmllite.Prefixes
import Jingle.Xmllite.Soundness
import Jingle.Xmllite.QNameTable
import Jingle.Xmllite.Interning
import Jingle.Xmllite.Printed
import Jingle.Xmllite.RoundTrip
import Jingle.Xmpp.StanzaParser
import Jingle.Xmpp.Chunking
import Jingle.Xmpp.Engine
import Jingle.Xmpp.Dispatch
import Jingle.Xmpp.InOrder
import Jingle.Xmpp.IqMatching
import Jingle.Xmpp.Frames
import Jingle.Xmpp.Login
import Jingle.Xmpp.TlsBoundary
import Jingle.Cif.Notify
import Jingle.Cif.P2pSession
import Jingle.Cif.RosterMap
import Jingle.Cif.RosterView
import Jingle.Service.Status
import Jingle.Service.PresenceOut
import Jingle.Service.PingTask
import Jingle.Service.PingChain
import Jingle.Service.Roster
import Jingle.Service.JingleInfo
import Jingle.Service.Stanzas
import Jingle.Proxy.BufferedReadAdapter
import Jingle.Proxy.Socks
import Jingle.Proxy.Handshake
import Jingle.Lib.Strtoul
import Jingle.Proxy.HttpsProxy
import Jingle.Proxy.Tunnelling
import Jingle.Client.Allocator
import Jingle.Client.Coverage
import Jingle.Client.Announcement
import Jingle.Base.Task
import Jingle.Base.TaskLife
import Jingle.Base.TaskFrame
import Jingle.Base.EarliestTimeout
import Jingle.Base.TimeoutWrap
import Jingle.Lib.Ring
import Jingle.Lib.SortedMap
import Jingle.Lib.BufferLoop
import Jingle.Lib.Utf8
import Jingle.Base.FifoBuffer
import Jingle.Base.FifoQueue
import Jingle.Base.FifoEvents
import Jingle.Base.FifoZeroCopy
import Jingle.Base.Flow
import Jingle.Lib.Bits
import Jingle.Base.Base64
import Jingle.Base.Base64White
import Jingle.Lib.Endian
import Jingle.Base.ByteBuffer
import Jingle.Base.AsyncTcpSocket
import Jingle.Base.DiskCache
import Jingle.Base.CacheAccounting
import Jingle.Base.CacheEviction
import Jingle.Base.StringEncode
import Jingle.Base.StringBounds
import Jingle.Base.StringRoundTrip
import Jingle.Base.EscapeReading
import Jingle.Base.UrlEncode
import Jingle.Xmpp.RateLimit
import Jingle.Lib.Scanf
import Jingle.Base.HttpAttributes
import Jingle.Base.HttpDate
import Jingle.Base.HttpCache
import Jingle.Base.HttpFresh
import Jingle.Base.HttpDelimited
import Jingle.Base.HttpSchedule
import Jingle.Lib.Calendar
import Jingle.Base.HttpInstant
import Jingle.Base.HttpCompose
import Jingle.Base.Network
import Jingle.Base.Url
import Jingle.Base.UrlQuery
import Jingle.Base.Pathname
import Jingle.Base.CacheNames
import Jingle.Lib.Wildcard
import Jingle.Base.StringMatch
import Jingle.Lib.SelfSync
import Jingle.Service.StatusText
import Jingle.Phone.SrtpFilter
import Jingle.Phone.MediaSession
