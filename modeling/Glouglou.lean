import Glouglou.Lib.Run
import Glouglou.Lib.CInt
import Glouglou.Lib.Memory
import Glouglou.Lib.Fifo
import Glouglou.Lib.Words
import Glouglou.Lib.CString
import Glouglou.Lib.Lines
import Glouglou.Lib.Utf8
import Glouglou.Lib.PrefixCode
import Glouglou.Lib.Radix
import Glouglou.Lib.BlockHash
import Glouglou.Sendbuf.Basic
import Glouglou.Sendbuf.Callback
import Glouglou.Sendbuf.Steps
import Glouglou.Sendbuf.Overflow
import Glouglou.Sendbuf.Stream
import Glouglou.Sendbuf.Framing
import Glouglou.Sendbuf.Whole
import Glouglou.Sendbuf.Capacity
import Glouglou.Sendbuf.Reentrant
import Glouglou.Sendbuf.Progress
import Glouglou.Sendbuf.Regions
import Glouglou.Libglouglou.Server.Basic
import Glouglou.Libglouglou.Server.Registry
import Glouglou.Libglouglou.Server.Admission
import Glouglou.Libglouglou.Server.Failure
import Glouglou.Libglouglou.Server.Session
import Glouglou.Libglouglou.Server.Books
import Glouglou.Libglouglou.Packet.Basic
import Glouglou.Libglouglou.Packet.Safety
import Glouglou.Libglouglou.Packet.RoundTrip
import Glouglou.Libglouglou.Packet.Residue
import Glouglou.Libglouglou.Packet.Lengths
import Glouglou.Glougloud.Redis
import Glouglou.Glougloud.Redis.Channel
import Glouglou.Glougloud.Redis.Threshold
import Glouglou.Glougloud.Viz.Basic
import Glouglou.Glougloud.Viz.Clients
import Glouglou.Glougloud.Viz.Delivery
import Glouglou.Glougloud.Viz.Shutdown
import Glouglou.Glougloud.Viz.Modules
import Glouglou.Glougloud.ModNet.Basic
import Glouglou.Glougloud.ModNet.Stream
import Glouglou.Glougloud.Service
import Glouglou.Websock.Utf
import Glouglou.Websock.Basic
import Glouglou.Websock.Format
import Glouglou.Websock.Header
import Glouglou.Websock.Messages
import Glouglou.Websock.Receive
import Glouglou.Websock.Stream
import Glouglou.Websock.Overrun
import Glouglou.Websock.Send
import Glouglou.Websock.Conversation
import Glouglou.Websock.Base64
import Glouglou.Websock.Sha1
