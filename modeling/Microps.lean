import Microps.Lib.Slots
import Microps.Lib.Machine
import Microps.Word
import Microps.Util
import Microps.Ip.Basic
import Microps.Icmp
import Microps.Ip.Input
import Microps.Tcp.Basic
import Microps.Tcp.Pcb
import Microps.Tcp.Table
import Microps.Tcp.User
import Microps.Tcp.Release
import Microps.Tcp.Step
import Microps.Tcp.Ack
import Microps.Tcp.Inversion
import Microps.Tcp.Reach
import Microps.Tcp.Text
import Microps.Tcp.Arrive
import Microps.Tcp.Output
import Microps.Tcp.Receive
import Microps.Tcp.Input
import Microps.Lib.Serial
import Microps.Tcp.Send
import Microps.Tcp.Backlog
import Microps.Tcp.Wakeup
import Microps.Tcp.World
import Microps.Tcp.Stream
import Microps.Tcp.EndToEnd
import Microps.Sock.Basic
import Microps.Sock.Turn
import Microps.Sock.Alias
import Microps.Tcp.Orphan
import Microps.Sock.Leak
import Microps.Tcp.Conform
import Microps.Tcp.Window
import Microps.Tcp.Handshake
import Microps.Tcp.Acknowledge
import Microps.Tcp.Capacity
import Microps.Tcp.Endpoints
import Microps.Tcp.Confirm
import Microps.Tcp.Shift
import Microps.Tcp.Decision
import Microps.Tcp.Translate
import Microps.Tcp.Together
import Microps.Tcp.Drain
import Microps.Tcp.Isolate
import Microps.Tcp.Quiet
import Microps.Udp.Basic
import Microps.Udp.Step
import Microps.Udp.Bind
import Microps.Udp.Deliver
import Microps.Lib.Waiter
import Microps.Sock.Incarnation
import Microps.Arp.Basic
import Microps.Arp.Cache
import Microps.Arp.Race
import Microps.Cksum
import Microps.Udp.Encode
import Microps.Tcp.Encode
import Microps.Icmp.Input
import Microps.Ip.Output
import Microps.Net
import Microps.Stack
import Microps.Tcp.Demux
import Microps.Tcp.SendWindow
import Microps.Tcp.Connect
import Microps.Tcp.Teardown
import Microps.Tcp.Atomic
import Microps.Tcp.Backoff
import Microps.Tcp.Literal
import Microps.Tcp.NoPanic
import Microps.Net.Softirq
import Microps.Task
import Microps.Cksum.Compose
import Microps.Cksum.ByteOrder
import Microps.Tcp.Corrupt
import Microps.Lib.FirstFree
import Microps.Addr
import Microps.Port
import Microps.Ip.Route
import Microps.Arp.Static
import Microps.Arp.Unsent
import Microps.Icmp.Unreach
import Microps.Tcp.Partial
import Microps.Addr.Grammar
import Microps.Lib.Network
import Microps.Ip.Transmit
import Microps.Lan.Basic
import Microps.Lan.Truth
import Microps.Lan.Exchange
import Microps.Lib.Chunks
import Microps.Tcp.Trail
import Microps.Tcp.Progress
import Microps.Tcp.Complete
import Microps.Platform.Intr
import Microps.Platform.Receive
import Microps.Platform.Lifecycle
import Microps.Lib.Spaced
import Microps.Platform.Timer
import Microps.Tcp.Punctual
import Microps.Internet
import Microps.Internet.Wire
import Microps.Echo
import Microps.HexDump
