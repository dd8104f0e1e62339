import Microps.Tcp.Basic

/-!
# Operations on one control block

The functions of `tcp.rs` that work on a single control block: sending, the
retransmission queue, and the steps of `segment_arrives` for a block that is
past SYN_SENT.  Each returns the new block and what it did besides.

`segment_arrives` leaves its ACK, text and FIN steps in three ways, which `Flow`
names: it returns, it releases the block and returns, or it falls through to the
next step.
-/

namespace Microps.Tcp

/-! ## Sending -/

/-- `output_segment`, up to its call of `ip::output`. -/
def outputSegment (seq ack : U32) (flg : U8) (wnd : U16) (data : List U8)
    (localEndp remoteEndp : IpEndp) : TcpSegment :=
  { src := localEndp, dst := remoteEndp, seq := seq, ack := ack, flg := flg, wnd := wnd,
    data := data }

theorem outputSegment_rst (seq ack : U32) (wnd : U16) (data : List U8) (l r : IpEndp) :
    flagIsset (outputSegment seq ack flgRst wnd data l r).flg flgRst = true := by
  have h : flagIsset flgRst flgRst = true := by decide
  exact h

theorem outputSegment_rstAck (seq ack : U32) (wnd : U16) (data : List U8) (l r : IpEndp) :
    flagIsset (outputSegment seq ack (flgRst ||| flgAck) wnd data l r).flg flgRst = true := by
  have h : flagIsset (flgRst ||| flgAck) flgRst = true := by decide
  exact h

/-- `retrans_queue_add`. -/
def retransQueueAdd (env : Env) (pcb : TcpPcb) (seq : U32) (flg : U8) (data : List U8) : TcpPcb :=
  { pcb with queue := pcb.queue ++ [{ first := env.now, last := env.now, rto := defaultRto,
                                      seq := seq, flg := flg, data := data }] }

/-- `output`: the block with the segment queued for retransmission, and the
segment. -/
def output (env : Env) (pcb : TcpPcb) (flg : U8) (data : List U8) : TcpPcb × TcpSegment :=
  let seq := if flagIsset flg flgSyn then pcb.iss else pcb.snd.nxt
  (if flagIsset flg (flgSyn ||| flgFin) || !data.isEmpty then
      retransQueueAdd env pcb seq flg data
    else pcb,
    outputSegment seq pcb.rcv.nxt flg pcb.rcv.wnd data pcb.localEndp pcb.remoteEndp)

/-- `retrans_queue_cleanup`: drop entries from the front until one ends after
`snd.una`, in the plain order of 32-bit words. -/
def retransQueueCleanup (pcb : TcpPcb) : TcpPcb :=
  { pcb with queue := pcb.queue.dropWhile fun e ↦ !decide (pcb.snd.una < e.seq + e.consume) }

/-- `retrans_emit` on an allocated block: give the connection up when an entry
has passed the deadline, otherwise send the entries that are due again. -/
def retransEmit (env : Env) (pcb : TcpPcb) : TcpPcb × List Effect :=
  if pcb.queue.any fun e ↦ e.first + retransDeadline ≤ env.now then
    ({ pcb with state := .closed }, [.notify pcb.task])
  else
    ({ pcb with queue := pcb.queue.map fun e ↦
        if e.due env then { e with last := env.now, rto := e.rto * 2 } else e },
      (pcb.queue.filter (·.due env)).map fun e ↦
        .emit (outputSegment e.seq pcb.rcv.nxt e.flg pcb.rcv.wnd e.data pcb.localEndp
          pcb.remoteEndp))

/-- `set_timewait_timer`. -/
def setTimewaitTimer (env : Env) (pcb : TcpPcb) : TcpPcb :=
  { pcb with twTimer := env.now + timewaitSec }

/-- The answer `output(pcb, TCP_FLG_ACK, &[])`, which leaves the block alone. -/
def ackOf (pcb : TcpPcb) : TcpSegment :=
  outputSegment pcb.snd.nxt pcb.rcv.nxt flgAck pcb.rcv.wnd [] pcb.localEndp pcb.remoteEndp

/-- An acknowledgement is not queued. -/
@[simp] theorem output_ack (env : Env) (pcb : TcpPcb) :
    output env pcb flgAck [] = (pcb, ackOf pcb) := by
  simp [output, ackOf, show flagIsset flgAck flgSyn = false by decide,
    show flagIsset flgAck (flgSyn ||| flgFin) = false by decide]

/-- A reset is not queued. -/
theorem output_rst (env : Env) (pcb : TcpPcb) :
    output env pcb flgRst [] = (pcb, outputSegment pcb.snd.nxt pcb.rcv.nxt flgRst pcb.rcv.wnd []
      pcb.localEndp pcb.remoteEndp) := by
  simp [output, show flagIsset flgRst flgSyn = false by decide,
    show flagIsset flgRst (flgSyn ||| flgFin) = false by decide]

/-! ## A segment arrives past SYN_SENT -/

/-- How a step of `segment_arrives` ends. -/
inductive Flow where
  /-- The function returns. -/
  | halt (pcb : TcpPcb) (effects : List Effect)
  /-- The block is released and the function returns. -/
  | release (pcb : TcpPcb) (effects : List Effect)
  /-- The next step follows. -/
  | go (pcb : TcpPcb) (effects : List Effect)
deriving DecidableEq, Repr

/-- The same ending, after some earlier effects. -/
def Flow.after (effects : List Effect) : Flow → Flow
  | .halt pcb es => .halt pcb (effects ++ es)
  | .release pcb es => .release pcb (effects ++ es)
  | .go pcb es => .go pcb (effects ++ es)

/-- First check: is the sequence number acceptable?  Both window tests compare
plain 32-bit words. -/
def acceptable (pcb : TcpPcb) (seg : SegInfo) : Bool :=
  let nxtPlusWnd := pcb.rcv.nxt + pcb.rcv.wnd.setWidth 32
  if seg.len = 0 then
    if pcb.rcv.wnd = 0 then seg.seq = pcb.rcv.nxt
    else pcb.rcv.nxt ≤ seg.seq ∧ seg.seq < nxtPlusWnd
  else if pcb.rcv.wnd = 0 then false
  else
    let endSeq := seg.seq + seg.len - 1
    (pcb.rcv.nxt ≤ seg.seq ∧ seg.seq < nxtPlusWnd) ∨
      (pcb.rcv.nxt ≤ endSeq ∧ endSeq < nxtPlusWnd)

/-- `snd.una = seg.ack`, the cleanup of the queue and the send-window update. -/
def ackNew (pcb : TcpPcb) (seg : SegInfo) : TcpPcb :=
  let pcb := retransQueueCleanup { pcb with snd := { pcb.snd with una := seg.ack } }
  if pcb.snd.wl1 < seg.seq ∨ (pcb.snd.wl1 = seg.seq ∧ pcb.snd.wl2 ≤ seg.ack) then
    { pcb with snd := { pcb.snd with wnd := seg.wnd, wl1 := seg.seq, wl2 := seg.ack } }
  else pcb

/-- The post-processing of an ACK in FIN_WAIT1. -/
def ackFinWait1 (pcb : TcpPcb) (seg : SegInfo) : TcpPcb :=
  if pcb.state = .finWait1 ∧ seg.ack = pcb.snd.nxt then { pcb with state := .finWait2 } else pcb

/-- The ACK step in ESTABLISHED, CLOSE_WAIT, FIN_WAIT1 and FIN_WAIT2. -/
def ackOpen (pcb : TcpPcb) (seg : SegInfo) : Flow :=
  if pcb.snd.una < seg.ack ∧ seg.ack ≤ pcb.snd.nxt then .go (ackFinWait1 (ackNew pcb seg) seg) []
  else if seg.ack < pcb.snd.una then .go (ackFinWait1 pcb seg) []
  else if pcb.snd.nxt < seg.ack then .halt pcb [.emit (ackOf pcb)]
  else .go (ackFinWait1 pcb seg) []

/-- The ACK step, once SYN_RECEIVED has been left. -/
def ackStates (env : Env) (pcb : TcpPcb) (seg : SegInfo) (flags : U8) : Flow :=
  match pcb.state with
  | .established | .closeWait | .finWait1 | .finWait2 => ackOpen pcb seg
  | .closing =>
      if seg.ack = pcb.snd.nxt then
        .go (setTimewaitTimer env { pcb with state := .timeWait }) [.notify pcb.task]
      else .go pcb []
  | .lastAck =>
      if seg.ack = pcb.snd.nxt then .release { pcb with state := .closed } [] else .halt pcb []
  | .timeWait => if flagIsset flags flgFin then .go (setTimewaitTimer env pcb) [] else .go pcb []
  | _ => .go pcb []

/-- Fifth check: the ACK field.  Besides the way it ends it returns the parent
whose backlog the block joins, when this ACK completes a handshake. -/
def checkAck (env : Env) (pcb : TcpPcb) (seg : SegInfo) (flags : U8)
    (localEndp remoteEndp : IpEndp) : Flow × Option TcpDesc :=
  if pcb.state = .synReceived then
    if pcb.snd.una ≤ seg.ack ∧ seg.ack ≤ pcb.snd.nxt then
      ((ackStates env { pcb with state := .established } seg flags).after [.notify pcb.task],
        pcb.parentDesc)
    else (.halt pcb [.emit (outputSegment seg.ack 0 flgRst 0 [] localEndp remoteEndp)], none)
  else (ackStates env pcb seg flags, none)

/-- Copy segment text to `buf`.  `rcv.wnd -= len as u16` is a checked
subtraction. -/
def copyText (pcb : TcpPcb) (seg : SegInfo) (data : List U8) : Checked TcpPcb := do
  let wnd ← wsub pcb.rcv.wnd (BitVec.ofNat 16 data.length)
  return { pcb with
    buf := pcb.buf ++ data
    rcv := { nxt := seg.seq + BitVec.ofNat 32 data.length, wnd := wnd }
    hist := { pcb.hist with rcvd := pcb.hist.rcvd ++ data } }

/-- Seventh: the segment text. -/
def processText (pcb : TcpPcb) (seg : SegInfo) (data : List U8) : Checked Flow :=
  if pcb.state.takesText ∧ data ≠ [] then
    if pcb.rcv.nxt ≠ seg.seq ∨ pcb.rcv.wnd.toNat < data.length then
      return .halt pcb [.emit (ackOf pcb)]
    else do
      let pcb ← copyText pcb seg data
      return .go pcb [.emit (ackOf pcb), .notify pcb.task]
  else return .go pcb []

/-- `rcv.nxt = seg.seq.wrapping_add(1)`: the FIN is consumed. -/
def consumeFin (pcb : TcpPcb) (seg : SegInfo) : TcpPcb :=
  { pcb with rcv := { pcb.rcv with nxt := seg.seq + 1 }, hist := { pcb.hist with fin := true } }

/-- Eighth: the FIN bit. -/
def checkFin (env : Env) (pcb : TcpPcb) (seg : SegInfo) (flags : U8) : TcpPcb × List Effect :=
  if flagIsset flags flgFin then
    if pcb.state = .closed ∨ pcb.state = .listen then (pcb, [])
    else
      let pcb := consumeFin pcb seg
      match pcb.state with
      | .synReceived | .established =>
          ({ pcb with state := .closeWait }, [.emit (ackOf pcb), .notify pcb.task])
      | .finWait1 =>
          if seg.ack = pcb.snd.nxt then
            (setTimewaitTimer env { pcb with state := .timeWait }, [.emit (ackOf pcb)])
          else ({ pcb with state := .closing }, [.emit (ackOf pcb)])
      | .finWait2 =>
          (setTimewaitTimer env { pcb with state := .timeWait }, [.emit (ackOf pcb)])
      | _ => (pcb, [.emit (ackOf pcb)])
  else (pcb, [])

/-- The steps that follow the ACK step. -/
def textAndFin (env : Env) (pcb : TcpPcb) (seg : SegInfo) (flags : U8) (data : List U8) :
    Checked (TcpPcb × List Effect) := do
  match ← processText pcb seg data with
  | .halt pcb effects | .release pcb effects => return (pcb, effects)
  | .go pcb effects =>
      let r := checkFin env pcb seg flags
      return (r.1, effects ++ r.2)

end Microps.Tcp
