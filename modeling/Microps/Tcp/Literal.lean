import Microps.Tcp.Backoff
import Microps.Tcp.Encode

/-!
# `segment_arrives` and `on_timer`, with every check

The functions of `tcp.rs` once more, as the source runs them: each `pcbs[desc]` may be
outside the table and each `unwrap` may meet an empty slot, lengths, words and durations
are added with overflow checks, and every segment that is sent is put together and
printed, up to the call of `ip::output`.  Allocation and selection check nothing and are
used as they are.
-/

namespace Microps.Tcp

/-- `a + b` on `usize`. -/
def uadd (a b : Nat) : Checked Nat :=
  if a + b < 2 ^ 64 then .ok (a + b) else .error .overflow

/-- `a + b` on `Duration`. -/
def durationAdd (a b : Nat) : Checked Nat :=
  if a + b ≤ durationMax then .ok (a + b) else .error .overflow

/-- `a * n` on `Duration`. -/
def durationMul (a n : Nat) : Checked Nat :=
  if a * n ≤ durationMax then .ok (a * n) else .error .overflow

namespace Literal

/-- `pcbs[desc].as_ref().unwrap()`, and `as_mut` before a write. -/
def slot (pcbs : Slots TcpPcb) (desc : TcpDesc) : Checked TcpPcb :=
  match pcbs[desc]? with
  | none => .error .index
  | some s => unwrap s

/-! ## Sending -/

/-- `output_segment`. -/
def outputSegment (e : Endian) (seq ack : U32) (flg : U8) (wnd : U16) (data : List U8)
    (localEndp remoteEndp : IpEndp) : Checked Effect := do
  let _total ← uadd tcpHdrSize data.length
  let seg := Tcp.outputSegment seq ack flg wnd data localEndp remoteEndp
  let _buf ← encode e seg
  return .emit seg

/-- `output`. -/
def output (e : Endian) (env : Env) (pcb : TcpPcb) (flg : U8) (data : List U8) :
    Checked (TcpPcb × Effect) := do
  let seq := if flagIsset flg flgSyn then pcb.iss else pcb.snd.nxt
  let queued :=
    if flagIsset flg (flgSyn ||| flgFin) || !data.isEmpty then
      retransQueueAdd env pcb seq flg data
    else pcb
  let sent ← outputSegment e seq pcb.rcv.nxt flg pcb.rcv.wnd data pcb.localEndp pcb.remoteEndp
  return (queued, sent)

/-- The sequence numbers an entry occupies, as `retrans_queue_cleanup` adds them up. -/
def consume (entry : TcpQueueEntry) : Checked U32 :=
  let len : U32 := BitVec.ofNat 32 entry.data.length
  if flagIsset entry.flg (flgSyn ||| flgFin) then wadd len 1 else return len

/-- The loop of `retrans_queue_cleanup`. -/
def cleanupLoop (una : U32) : List TcpQueueEntry → Checked (List TcpQueueEntry)
  | [] => return []
  | entry :: rest => do
      let consume ← consume entry
      if una < entry.seq + consume then return entry :: rest
      let _popped ← unwrap (entry :: rest).head?
      cleanupLoop una rest

/-- `retrans_queue_cleanup`. -/
def retransQueueCleanup (pcb : TcpPcb) : Checked TcpPcb := do
  let queue ← cleanupLoop pcb.snd.una pcb.queue
  return { pcb with queue := queue }

/-- `set_timewait_timer`. -/
def setTimewaitTimer (env : Env) (pcb : TcpPcb) : Checked TcpPcb := do
  let twTimer ← durationAdd env.now timewaitSec
  return { pcb with twTimer := twTimer }

/-! ## Release -/

/-- A block in a backlog is reset unless it is closed. -/
def resetEntry (e : Endian) (env : Env) (pcb : TcpPcb) : Checked (TcpPcb × List Effect) :=
  if pcb.state ≠ .closed then do
    let r ← output e env pcb flgRst []
    return ({ r.1 with state := .closed }, [r.2])
  else return (pcb, [])

/-- One round of the loop of `pcb_release`. -/
def releaseEntry (e : Endian) (env : Env) (release : Slots TcpPcb → TcpDesc → Checked Released)
    (acc : Slots TcpPcb × List Effect) (desc : TcpDesc) :
    Checked (Slots TcpPcb × List Effect) :=
  match acc.1.peek desc with
  | none => return acc
  | some pcb => do
      let q ← resetEntry e env pcb
      let r ← release (acc.1.put desc q.1) desc
      return (r.pcbs, acc.2 ++ q.2 ++ r.effects)

/-- The end of `pcb_release`. -/
def releaseSlot (acc : Slots TcpPcb × List Effect) (desc : TcpDesc) : Checked Released :=
  match acc.1.peek desc with
  | none => return { pcbs := acc.1, effects := acc.2, ok := false }
  | some pcb => do
      let _slot ← unwrap acc.1[desc]?
      return { pcbs := acc.1.free desc, effects := acc.2 ++ [.notify pcb.task] }

/-- `pcb_release`, where a recursion that goes too deep fails. -/
def pcbReleaseN (e : Endian) (env : Env) : Nat → Slots TcpPcb → TcpDesc → Checked Released
  | 0, _, _ => .error .unwrap
  | depth + 1, pcbs, desc => match pcbs.peek desc with
    | none => return { pcbs := pcbs, ok := false }
    | some pcb => do
        let acc ← pcb.backlog.foldlM (releaseEntry e env (pcbReleaseN e env depth))
          (pcbs.put desc { pcb with backlog := [] }, [])
        releaseSlot acc desc

/-- `pcb_release`, no deeper than there are slots. -/
def pcbRelease (e : Endian) (env : Env) (pcbs : Slots TcpPcb) (desc : TcpDesc) :
    Checked Released :=
  pcbReleaseN e env (pcbs.length + 1) pcbs desc

/-- `transition(pcb, desc, CLOSED)` followed by `pcb_release`. -/
def closeAndRelease (e : Endian) (env : Env) (tcp : Tcp) (desc : TcpDesc) (pcb : TcpPcb) :
    Checked (Tcp × List Effect) := do
  let r ← pcbRelease e env (tcp.pcbs.put desc { pcb with state := .closed }) desc
  return ({ tcp with pcbs := r.pcbs }, r.effects)

/-! ## A segment arrives -/

/-- `segment_arrives` without a block, or with a closed one. -/
def arrivesClosed (e : Endian) (tcp : Tcp) (seg : SegInfo) (flags : U8)
    (localEndp remoteEndp : IpEndp) : Checked (Tcp × List Effect) := do
  if flagIsset flags flgRst then return (tcp, [])
  else if !flagIsset flags flgAck then
    let sent ← outputSegment e 0 (seg.seq + seg.len) (flgRst ||| flgAck) 0 [] localEndp remoteEndp
    return (tcp, [sent])
  else
    let sent ← outputSegment e seg.ack 0 flgRst 0 [] localEndp remoteEndp
    return (tcp, [sent])

/-- The block that takes a SYN received in LISTEN. -/
def listenTarget (tcp : Tcp) (desc : TcpDesc) : Checked (Option (TcpDesc × Tcp)) := do
  let listener ← slot tcp.pcbs desc
  if listener.mode = .socket then
    let pcb ← slot tcp.pcbs desc
    if pcb.backlogMax ≤ pcb.backlog.length then return none
    else match tcp.pcbAlloc with
      | none => return none
      | some (newDesc, tcp) => do
          -- The state of the new block is printed before its parent is set.
          let _printed ← slot tcp.pcbs newDesc
          let new ← slot tcp.pcbs newDesc
          return some (newDesc, tcp.set newDesc { new with
            parentDesc := some desc
            hist := { new.hist with creator := some pcb.task } })
  else return some (desc, tcp)

/-- A block takes the SYN that a listener received. -/
def passiveOpen (e : Endian) (env : Env) (pcb : TcpPcb) (seg : SegInfo)
    (localEndp remoteEndp : IpEndp) : Checked (TcpPcb × Effect) := do
  let pcb := { pcb with
    localEndp := localEndp
    remoteEndp := remoteEndp
    rcv := { nxt := seg.seq + 1, wnd := recvBufSize }
    irs := seg.seq
    iss := env.random32 }
  let r ← output e env pcb (flgSyn ||| flgAck) []
  return ({ r.1 with
      snd := { r.1.snd with nxt := r.1.iss + 1, una := r.1.iss }
      state := .synReceived
      hist := { r.1.hist with sent := [.syn], synced := true, rcvd := [], fin := false } },
    r.2)

/-- `segment_arrives` in LISTEN. -/
def arrivesListen (e : Endian) (env : Env) (tcp : Tcp) (desc : TcpDesc) (seg : SegInfo)
    (flags : U8) (localEndp remoteEndp : IpEndp) : Checked (Tcp × List Effect) := do
  if flagIsset flags flgRst then return (tcp, [])
  else if flagIsset flags flgAck then
    let sent ← outputSegment e seg.ack 0 flgRst 0 [] localEndp remoteEndp
    return (tcp, [sent])
  else if flagIsset flags flgSyn then
    match ← listenTarget tcp desc with
    | none => return (tcp, [])
    | some (target, tcp) =>
        let pcb ← slot tcp.pcbs target
        let r ← passiveOpen e env pcb seg localEndp remoteEndp
        return (tcp.set target r.1, [r.2])
  else return (tcp, [])

/-- The receive side of a SYN in SYN_SENT. -/
def takeSyn (pcb : TcpPcb) (seg : SegInfo) (acceptable : Bool) : Checked TcpPcb :=
  let pcb := { pcb with
    rcv := { pcb.rcv with nxt := seg.seq + 1 }
    irs := seg.seq
    hist := { pcb.hist with synced := true, rcvd := [], fin := false } }
  if acceptable then retransQueueCleanup { pcb with snd := { pcb.snd with una := seg.ack } }
  else return pcb

/-- A SYN is received in SYN_SENT. -/
def synInSynSent (e : Endian) (env : Env) (pcb : TcpPcb) (seg : SegInfo) (acceptable : Bool) :
    Checked (TcpPcb × List Effect) := do
  let pcb ← takeSyn pcb seg acceptable
  if pcb.snd.una > pcb.iss then
    let r ← output e env { pcb with state := .established } flgAck []
    return ({ r.1 with snd := { r.1.snd with wnd := seg.wnd, wl1 := seg.seq, wl2 := seg.ack } },
      [r.2, .notify r.1.task])
  else
    let r ← output e env { pcb with state := .synReceived } (flgSyn ||| flgAck) []
    return (r.1, [r.2])

/-- `segment_arrives` in SYN_SENT, once the ACK bit is checked. -/
def synSentAcked (e : Endian) (env : Env) (tcp : Tcp) (desc : TcpDesc) (seg : SegInfo)
    (flags : U8) (acceptable : Bool) : Checked (Tcp × List Effect) := do
  if flagIsset flags flgRst then
    if acceptable then
      let pcb ← slot tcp.pcbs desc
      closeAndRelease e env tcp desc pcb
    else return (tcp, [])
  else if flagIsset flags flgSyn then
    let pcb ← slot tcp.pcbs desc
    let r ← synInSynSent e env pcb seg acceptable
    return (tcp.set desc r.1, r.2)
  else return (tcp, [])

/-- `segment_arrives` in SYN_SENT. -/
def arrivesSynSent (e : Endian) (env : Env) (tcp : Tcp) (desc : TcpDesc) (seg : SegInfo)
    (flags : U8) (localEndp remoteEndp : IpEndp) : Checked (Tcp × List Effect) := do
  if flagIsset flags flgAck then
    let pcb ← slot tcp.pcbs desc
    if seg.ack ≤ pcb.iss ∨ seg.ack > pcb.snd.nxt then
      let sent ← outputSegment e seg.ack 0 flgRst 0 [] localEndp remoteEndp
      return (tcp, [sent])
    else
      synSentAcked e env tcp desc seg flags (pcb.snd.una ≤ seg.ack ∧ seg.ack ≤ pcb.snd.nxt)
  else synSentAcked e env tcp desc seg flags false

/-! ## A segment arrives past SYN_SENT -/

/-- The ACK step in ESTABLISHED, CLOSE_WAIT, FIN_WAIT1 and FIN_WAIT2. -/
def ackOpen (e : Endian) (env : Env) (pcb : TcpPcb) (seg : SegInfo) : Checked Flow := do
  if pcb.snd.una < seg.ack ∧ seg.ack ≤ pcb.snd.nxt then
    let pcb ← retransQueueCleanup { pcb with snd := { pcb.snd with una := seg.ack } }
    let pcb :=
      if pcb.snd.wl1 < seg.seq ∨ (pcb.snd.wl1 = seg.seq ∧ pcb.snd.wl2 ≤ seg.ack) then
        { pcb with snd := { pcb.snd with wnd := seg.wnd, wl1 := seg.seq, wl2 := seg.ack } }
      else pcb
    return .go (ackFinWait1 pcb seg) []
  else if seg.ack < pcb.snd.una then return .go (ackFinWait1 pcb seg) []
  else if pcb.snd.nxt < seg.ack then
    let r ← output e env pcb flgAck []
    return .halt r.1 [r.2]
  else return .go (ackFinWait1 pcb seg) []

/-- The ACK step, once SYN_RECEIVED has been left. -/
def ackStates (e : Endian) (env : Env) (pcb : TcpPcb) (seg : SegInfo) (flags : U8) :
    Checked Flow :=
  match pcb.state with
  | .established | .closeWait | .finWait1 | .finWait2 => ackOpen e env pcb seg
  | .closing => do
      if seg.ack = pcb.snd.nxt then
        let pcb ← setTimewaitTimer env { pcb with state := .timeWait }
        return .go pcb [.notify pcb.task]
      else return .go pcb []
  | .lastAck =>
      if seg.ack = pcb.snd.nxt then return .release { pcb with state := .closed } []
      else return .halt pcb []
  | .timeWait => do
      if flagIsset flags flgFin then
        let pcb ← setTimewaitTimer env pcb
        return .go pcb []
      else return .go pcb []
  | _ => return .go pcb []

/-- Fifth check: the ACK field. -/
def checkAck (e : Endian) (env : Env) (pcb : TcpPcb) (seg : SegInfo) (flags : U8)
    (localEndp remoteEndp : IpEndp) : Checked (Flow × Option TcpDesc) := do
  if pcb.state = .synReceived then
    if pcb.snd.una ≤ seg.ack ∧ seg.ack ≤ pcb.snd.nxt then
      let flow ← ackStates e env { pcb with state := .established } seg flags
      return (flow.after [.notify pcb.task], pcb.parentDesc)
    else
      let sent ← outputSegment e seg.ack 0 flgRst 0 [] localEndp remoteEndp
      return (.halt pcb [sent], none)
  else
    let flow ← ackStates e env pcb seg flags
    return (flow, none)

/-- Seventh: the segment text. -/
def processText (e : Endian) (env : Env) (pcb : TcpPcb) (seg : SegInfo) (data : List U8) :
    Checked Flow := do
  if pcb.state.takesText ∧ data ≠ [] then
    if pcb.rcv.nxt ≠ seg.seq ∨ pcb.rcv.wnd.toNat < data.length then
      let r ← output e env pcb flgAck []
      return .halt r.1 [r.2]
    else
      let pcb ← copyText pcb seg data
      let r ← output e env pcb flgAck []
      return .go r.1 [r.2, .notify r.1.task]
  else return .go pcb []

/-- The state after a FIN. -/
def finState (env : Env) (pcb : TcpPcb) (seg : SegInfo) : Checked (TcpPcb × List Effect) :=
  match pcb.state with
  | .synReceived | .established => return ({ pcb with state := .closeWait }, [.notify pcb.task])
  | .finWait1 => do
      if seg.ack = pcb.snd.nxt then
        let pcb ← setTimewaitTimer env { pcb with state := .timeWait }
        return (pcb, [])
      else return ({ pcb with state := .closing }, [])
  | .finWait2 => do
      let pcb ← setTimewaitTimer env { pcb with state := .timeWait }
      return (pcb, [])
  | _ => return (pcb, [])

/-- Eighth: the FIN bit, which is set. -/
def consumeFin (e : Endian) (env : Env) (pcb : TcpPcb) (seg : SegInfo) :
    Checked (TcpPcb × List Effect) := do
  if pcb.state = .closed ∨ pcb.state = .listen then return (pcb, [])
  else
    let r ← output e env (Tcp.consumeFin pcb seg) flgAck []
    let r' ← finState env r.1 seg
    return (r'.1, r.2 :: r'.2)

/-- The steps that follow the ACK step, and the writes to the slot. -/
def textAndFin (e : Endian) (env : Env) (tcp : Tcp) (desc : TcpDesc) (seg : SegInfo) (flags : U8)
    (data : List U8) : Checked (Tcp × List Effect) := do
  let pcb ← slot tcp.pcbs desc
  match ← processText e env pcb seg data with
  | .halt pcb effects | .release pcb effects => return (tcp.set desc pcb, effects)
  | .go pcb effects =>
      let tcp := tcp.set desc pcb
      if flagIsset flags flgFin then
        let pcb ← slot tcp.pcbs desc
        let r ← consumeFin e env pcb seg
        return (tcp.set desc r.1, effects ++ r.2)
      else return (tcp, effects)

/-- `segment_arrives` in the states past SYN_SENT. -/
def arrivesOtherwise (e : Endian) (env : Env) (tcp : Tcp) (desc : TcpDesc) (seg : SegInfo)
    (flags : U8) (data : List U8) (localEndp remoteEndp : IpEndp) :
    Checked (Tcp × List Effect) := do
  -- 1st check sequence number
  let pcb ← slot tcp.pcbs desc
  if !acceptable pcb seg then
    if !flagIsset flags flgRst then
      let pcb ← slot tcp.pcbs desc
      let r ← output e env pcb flgAck []
      return (tcp.set desc r.1, [r.2])
    else return (tcp, [])
  -- 2nd check the RST bit
  else if flagIsset flags flgRst then
    let pcb ← slot tcp.pcbs desc
    match pcb.state with
    | .synReceived | .closing | .lastAck | .timeWait
    | .established | .finWait1 | .finWait2 | .closeWait => do
        let pcb ← slot tcp.pcbs desc
        closeAndRelease e env tcp desc pcb
    | _ => return (tcp, [])
  -- 4th check the SYN bit
  else if flagIsset flags flgSyn then
    let pcb ← slot tcp.pcbs desc
    let r ← output e env pcb flgRst []
    let r' ← closeAndRelease e env tcp desc r.1
    return (r'.1, r.2 :: r'.2)
  -- 5th check the ACK field
  else if !flagIsset flags flgAck then return (tcp, [])
  else
    let pcb ← slot tcp.pcbs desc
    match ← checkAck e env pcb seg flags localEndp remoteEndp with
    | (.halt pcb effects, _) => return (tcp.set desc pcb, effects)
    | (.release pcb effects, _) =>
        let r ← closeAndRelease e env tcp desc pcb
        return (r.1, effects ++ r.2)
    | (.go pcb effects, parent) =>
        let joined := (tcp.set desc pcb).joinBacklog desc parent
        -- 7th process segment text, 8th check the FIN bit
        let r ← textAndFin e env joined.1 desc seg flags data
        return (r.1, effects ++ joined.2 ++ r.2)

/-- `is_closed`: there is no block, or a closed one. -/
def isClosed (pcbs : Slots TcpPcb) : Option TcpDesc → Checked Bool
  | some desc => do
      let pcb ← slot pcbs desc
      return pcb.state = .closed
  | none => return true

/-- `segment_arrives`. -/
def segmentArrives (e : Endian) (env : Env) (tcp : Tcp) (s : TcpSegment) :
    Checked (Tcp × List Effect) := do
  let seg := s.info
  let pcbDesc := pcbSelect tcp.pcbs s.dst s.src
  if ← isClosed tcp.pcbs pcbDesc then arrivesClosed e tcp seg s.flg s.dst s.src
  else
    let desc ← unwrap pcbDesc
    let pcb ← slot tcp.pcbs desc
    match pcb.state with
    | .listen => arrivesListen e env tcp desc seg s.flg s.dst s.src
    | .synSent => arrivesSynSent e env tcp desc seg s.flg s.dst s.src
    | _ => arrivesOtherwise e env tcp desc seg s.flg s.data s.dst s.src

/-! ## The timer -/

/-- `any` over the queue: an entry is past the deadline. -/
def deadlineExceeded (now : Nat) : List TcpQueueEntry → Checked Bool
  | [] => return false
  | entry :: rest => do
      let deadline ← durationAdd entry.first retransDeadline
      if deadline ≤ now then return true
      deadlineExceeded now rest

/-- The loop of `retrans_emit` over the queue of `pcb`. -/
def emitLoop (e : Endian) (env : Env) (pcb : TcpPcb) :
    List TcpQueueEntry → Checked (List TcpQueueEntry × List Effect)
  | [] => return ([], [])
  | entry :: rest => do
      let due ← durationAdd entry.last entry.rto
      if due ≤ env.now then
        let sent ← outputSegment e entry.seq pcb.rcv.nxt entry.flg pcb.rcv.wnd entry.data
          pcb.localEndp pcb.remoteEndp
        let rto ← durationMul entry.rto 2
        let r ← emitLoop e env pcb rest
        return ({ entry with last := env.now, rto := rto } :: r.1, sent :: r.2)
      else
        let r ← emitLoop e env pcb rest
        return (entry :: r.1, r.2)

/-- `retrans_emit`. -/
def retransEmit (e : Endian) (env : Env) (pcbs : Slots TcpPcb) (desc : TcpDesc) :
    Checked (Slots TcpPcb × List Effect) :=
  match pcbs[desc]? with
  | none => .error .index
  | some none => return (pcbs, [])
  | some (some pcb) => do
      if ← deadlineExceeded env.now pcb.queue then
        let pcb ← slot pcbs desc
        return (pcbs.put desc { pcb with state := .closed }, [.notify pcb.task])
      else
        let pcb ← slot pcbs desc
        let r ← emitLoop e env pcb pcb.queue
        return (pcbs.put desc { pcb with queue := r.1 }, r.2)

/-- Whether the block in a slot is in TIME_WAIT and its time is up. -/
def timewaitElapsed (tick : Nat) (pcbs : Slots TcpPcb) (desc : TcpDesc) : Checked Bool := do
  let pcb ← slot pcbs desc
  if pcb.state = .timeWait then
    let pcb ← slot pcbs desc
    return pcb.twTimer < tick
  else return false

/-- The body of the loop of `on_timer`. -/
def timerSlot (e : Endian) (tick : Nat) (env : Env) (acc : Slots TcpPcb × List Effect)
    (desc : TcpDesc) : Checked (Slots TcpPcb × List Effect) :=
  match acc.1[desc]? with
  | none => .error .index
  | some none => return acc
  | some (some _) => do
      if ← timewaitElapsed tick acc.1 desc then
        let pcb ← slot acc.1 desc
        let r ← pcbRelease e env (acc.1.put desc { pcb with state := .closed }) desc
        return (r.pcbs, acc.2 ++ r.effects)
      else
        let r ← retransEmit e env acc.1 desc
        return (r.1, acc.2 ++ r.2)

/-- `on_timer`, which reads the clock as `tick` and meets the environment `envs desc` in the
round for `desc`. -/
def onTimer (e : Endian) (tick : Nat) (envs : TcpDesc → Env) (tcp : Tcp) :
    Checked (Tcp × List Effect) := do
  let r ← (List.range tcp.pcbs.length).foldlM (fun acc desc ↦ timerSlot e tick (envs desc) acc desc)
    (tcp.pcbs, [])
  return ({ tcp with pcbs := r.1 }, r.2)

end Literal

end Microps.Tcp
