import Sponge.Acknowledgement
import Sponge.Delivery
import Sponge.NetworkInterface
import Sponge.IPv4
import Sponge.Parser
import Sponge.FlowControl
import Sponge.System
import Sponge.Close
import Sponge.Progress
import Sponge.StaleAcks
import Sponge.Transmission
import Sponge.Forwarding
import Sponge.ArpRequests
import Sponge.Ending
import Sponge.GiveUp
import Sponge.WindowEdge
import Sponge.Promise
import Sponge.StreamRuns
import Sponge.Listen
import Sponge.Replies
import Sponge.Summaries
import Sponge.ArpFreshness
import Sponge.Lib.OnesComplement
import Sponge.TCPWire
import Sponge.TCPOverIP
import Sponge.Repeats
import Sponge.EndOfStream
import Sponge.StreamIndex
import Sponge.WireFormats
import Sponge.Buffers
import Sponge.Routing
import Sponge.FileDescriptor
import Sponge.EventLoop
import Sponge.StreamCopy
import Sponge.FdAdapter
import Sponge.EthernetAdapter
import Sponge.SpongeSocket
import Sponge.EndpointRuns
import Sponge.SocketRuns
import Sponge.SocketPair
import Sponge.InOrder
