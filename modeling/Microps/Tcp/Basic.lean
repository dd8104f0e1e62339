import Microps.Lib.Slots
import Microps.Ip.Basic

/-!
# TCP control blocks

The data of `tcp.rs`: states, segments, the retransmission queue and the
protocol control block.

Two things are added to the source's data.  A `TaskId` stands for the
`Arc<Task>` of a control block; the source makes a new one for every block, so
it also tells apart two blocks that occupy the same slot one after the other.
And `History` holds history variables: they are written beside the assignments
they record and no branch reads them.
-/

namespace Microps

/-! ## Constants -/

/-- `TCP_HDR_SIZE`. -/
def tcpHdrSize : Nat := 20
/-- `TCP_FLG_FIN`. -/
def flgFin : U8 := 0x01
/-- `TCP_FLG_SYN`. -/
def flgSyn : U8 := 0x02
/-- `TCP_FLG_RST`. -/
def flgRst : U8 := 0x04
/-- `TCP_FLG_PSH`. -/
def flgPsh : U8 := 0x08
/-- `TCP_FLG_ACK`. -/
def flgAck : U8 := 0x10
/-- `PCB_SIZE_MAX`. -/
def pcbSizeMax : Nat := 16
/-- `RECV_BUF_SIZE`. -/
def recvBufSize : U16 := 65535
/-- `TCP_DEFAULT_RTO`, in nanoseconds as every duration here. -/
def defaultRto : Nat := 200000000
/-- `TCP_RETRANS_DEADLINE`. -/
def retransDeadline : Nat := 12000000000
/-- `TCP_TIMEWAIT_SEC`. -/
def timewaitSec : Nat := 30000000000
/-- `DYNAMIC_PORT_MIN`. -/
def dynamicPortMin : Nat := 49152
/-- `DYNAMIC_PORT_MAX`. -/
def dynamicPortMax : Nat := 65535

/-- `flag_isset`. -/
def flagIsset (flg mask : U8) : Bool := (flg &&& 0x3f) &&& mask ≠ 0

/-! ## Data -/

/-- An index into the table of control blocks. -/
abbrev TcpDesc := Nat

/-- The identity of a task. -/
abbrev TaskId := Nat

/-- `TcpState`. -/
inductive TcpState where
  | closed
  | listen
  | synSent
  | synReceived
  | established
  | finWait1
  | finWait2
  | closeWait
  | closing
  | lastAck
  | timeWait
deriving DecidableEq, Repr

/-- The states in which segment text is processed. -/
def TcpState.takesText (s : TcpState) : Bool :=
  s = .established ∨ s = .finWait1 ∨ s = .finWait2

/-- `TcpMode`. -/
inductive TcpMode where
  | rfc
  | socket
deriving DecidableEq, Repr

/-- `SndVars`. -/
structure SndVars where
  nxt : U32 := 0
  una : U32 := 0
  wnd : U16 := 0
  wl1 : U32 := 0
  wl2 : U32 := 0
deriving DecidableEq, Repr

/-- `RcvVars`. -/
structure RcvVars where
  nxt : U32 := 0
  wnd : U16 := 0
deriving DecidableEq, Repr

/-- A TCP segment between two endpoints. -/
structure TcpSegment where
  src : IpEndp
  dst : IpEndp
  seq : U32
  ack : U32
  flg : U8
  wnd : U16
  data : List U8
deriving DecidableEq, Repr

/-- `SegInfo`. -/
structure SegInfo where
  seq : U32
  ack : U32
  len : U32
  wnd : U16
deriving DecidableEq, Repr

/-- The `SegInfo` that `tcp::input` makes of a segment: its length counts the
SYN and the FIN. -/
def TcpSegment.info (s : TcpSegment) : SegInfo where
  seq := s.seq
  ack := s.ack
  len := BitVec.ofNat 32 s.data.length + (if flagIsset s.flg flgSyn then 1 else 0) +
    (if flagIsset s.flg flgFin then 1 else 0)
  wnd := s.wnd

/-- `TcpQueueEntry`. -/
structure TcpQueueEntry where
  first : Nat
  last : Nat
  rto : Nat
  seq : U32
  flg : U8
  data : List U8
deriving DecidableEq, Repr

/-- The sequence numbers an entry occupies: its octets, and one more for a SYN
or a FIN. -/
def TcpQueueEntry.consume (e : TcpQueueEntry) : U32 :=
  BitVec.ofNat 32 e.data.length + (if flagIsset e.flg (flgSyn ||| flgFin) then 1 else 0)

/-- What one sequence number was used for. -/
inductive Octet where
  | syn
  | byte (b : U8)
  | fin
deriving DecidableEq, Repr

/-- History variables of a control block. -/
structure History where
  /-- What the sequence numbers of the current connection were used for, in
  order, from the SYN on. -/
  sent : List Octet := []
  /-- The peer's SYN has been received. -/
  synced : Bool := false
  /-- The octets put into `buf` since the peer's SYN. -/
  rcvd : List U8 := []
  /-- The peer's FIN has been consumed. -/
  fin : Bool := false
  /-- The listener whose SYN created this block. -/
  creator : Option TaskId := none
  /-- The block has been returned by `accept`. -/
  accepted : Bool := false
deriving DecidableEq, Repr

/-- `TcpPcb`. -/
structure TcpPcb where
  state : TcpState := .closed
  mode : TcpMode := .rfc
  localEndp : IpEndp := .any
  remoteEndp : IpEndp := .any
  snd : SndVars := {}
  iss : U32 := 0
  rcv : RcvVars := {}
  irs : U32 := 0
  mss : U16 := 0
  buf : List U8 := []
  queue : List TcpQueueEntry := []
  twTimer : Nat := 0
  parentDesc : Option TcpDesc := none
  backlog : List TcpDesc := []
  backlogMax : Nat := 0
  task : TaskId
  hist : History := {}
deriving DecidableEq, Repr

/-- `TcpPcb::empty`, with the task that `new_task` made for it. -/
def TcpPcb.empty (task : TaskId) : TcpPcb := { task := task }

/-- What a critical section depends on besides the tables it locks. -/
structure Env where
  /-- `time::now()`. -/
  now : Nat
  /-- `platform::random32()`. -/
  random32 : U32
  /-- Whether `ip::output` takes a segment. -/
  ipOutput : TcpSegment → Bool
  /-- The routing table. -/
  routes : List IpRoute

/-- The entry is due for retransmission. -/
def TcpQueueEntry.due (env : Env) (e : TcpQueueEntry) : Bool := e.last + e.rto ≤ env.now

/-- What a critical section does besides changing the tables it locks. -/
inductive Effect where
  /-- `output_segment` is called. -/
  | emit (seg : TcpSegment)
  /-- `notify` is called on a task. -/
  | notify (task : TaskId)
deriving DecidableEq, Repr

end Microps
