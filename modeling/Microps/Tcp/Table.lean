import Microps.Tcp.Pcb

/-!
# The table of control blocks

The functions of `tcp.rs` that work on the whole table `PCBS`: allocation and
release, selection, `segment_arrives` and `on_timer`.  All of them run under the
lock of the table, so each is one step.
-/

namespace Microps

/-- The state of the TCP module: the table `PCBS`, and the next task that
`new_task` will make. -/
structure Tcp where
  pcbs : Slots TcpPcb := []
  nextTask : TaskId := 0
deriving DecidableEq, Repr

namespace Tcp

/-- `pcb_get_mut`, read-only. -/
def get (tcp : Tcp) (desc : TcpDesc) : Option TcpPcb := tcp.pcbs.peek desc

/-- Write a block back to its slot. -/
def set (tcp : Tcp) (desc : TcpDesc) (pcb : TcpPcb) : Tcp :=
  { tcp with pcbs := tcp.pcbs.put desc pcb }

/-! ## Allocation and release -/

/-- `pcb_alloc`. -/
def pcbAlloc (tcp : Tcp) : Option (TcpDesc × Tcp) :=
  (tcp.pcbs.alloc pcbSizeMax (.empty tcp.nextTask)).map fun r ↦
    (r.1, { pcbs := r.2, nextTask := tcp.nextTask + 1 })

/-- The result of `pcb_release`: the table, what was done, and whether the call
returned `Ok`. -/
structure Released where
  pcbs : Slots TcpPcb
  effects : List Effect := []
  ok : Bool := true
deriving DecidableEq, Repr

/-- One round of the loop of `pcb_release`: reset and release a queued block.
`release` is the recursive call. -/
def releaseEntry (env : Env) (release : Slots TcpPcb → TcpDesc → Released)
    (acc : Slots TcpPcb × List Effect) (desc : TcpDesc) : Slots TcpPcb × List Effect :=
  match acc.1.peek desc with
  | none => acc
  | some pcb =>
      let q : TcpPcb × List Effect :=
        if pcb.state ≠ .closed then
          let r := output env pcb flgRst []
          ({ r.1 with state := .closed }, [.emit r.2])
        else (pcb, [])
      let r := release (acc.1.put desc q.1) desc
      (r.pcbs, acc.2 ++ q.2 ++ r.effects)

/-- The end of `pcb_release`: free the slot, unless the loop already has. -/
def releaseSlot (acc : Slots TcpPcb × List Effect) (desc : TcpDesc) : Released :=
  match acc.1.peek desc with
  | none => { pcbs := acc.1, effects := acc.2, ok := false }
  | some pcb => { pcbs := acc.1.free desc, effects := acc.2 ++ [.notify pcb.task] }

/-- `pcb_release`, cut off at a depth of recursion, where the backlog is dropped
and not drained.  A nested call either drains a non-empty backlog or makes no
further call, and drained backlogs stay empty, so a depth of one more than the
number of slots is never used up. -/
def pcbReleaseN (env : Env) : Nat → Slots TcpPcb → TcpDesc → Released
  | 0, pcbs, desc => match pcbs.peek desc with
    | none => { pcbs := pcbs, ok := false }
    | some pcb => releaseSlot (pcbs.put desc { pcb with backlog := [] }, []) desc
  | depth + 1, pcbs, desc => match pcbs.peek desc with
    | none => { pcbs := pcbs, ok := false }
    | some pcb =>
        -- Drain the backlog so any queued accepted blocks are also torn down.
        releaseSlot (pcb.backlog.foldl (releaseEntry env (pcbReleaseN env depth))
          (pcbs.put desc { pcb with backlog := [] }, [])) desc

/-- `pcb_release`. -/
def pcbRelease (env : Env) (pcbs : Slots TcpPcb) (desc : TcpDesc) : Released :=
  pcbReleaseN env (pcbs.length + 1) pcbs desc

/-- `transition(pcb, desc, CLOSED)` followed by `pcb_release`. -/
def closeAndRelease (env : Env) (tcp : Tcp) (desc : TcpDesc) (pcb : TcpPcb) :
    Tcp × List Effect :=
  let r := pcbRelease env (tcp.pcbs.put desc { pcb with state := .closed }) desc
  ({ tcp with pcbs := r.pcbs }, r.effects)

/-! ## Selection -/

/-- The two address tests of `pcb_select`. -/
def selects (pcb : TcpPcb) (localEndp remoteEndp : IpEndp) : Bool :=
  pcb.localEndp.port = localEndp.port ∧
    (pcb.localEndp.addr = localEndp.addr ∨ pcb.localEndp.addr = .any ∨ localEndp.addr ≠ .any) ∧
    ((pcb.remoteEndp.addr = remoteEndp.addr ∧ pcb.remoteEndp.port = remoteEndp.port) ∨
      (pcb.remoteEndp.addr = .any ∧ pcb.remoteEndp.port = 0) ∨
      (remoteEndp.addr = .any ∧ remoteEndp.port = 0))

/-- The loop of `pcb_select`, at index `i` with the listening candidate found so
far. -/
def selectLoop (localEndp remoteEndp : IpEndp) :
    Slots TcpPcb → Nat → Option TcpDesc → Option TcpDesc
  | [], _, candidate => candidate
  | none :: rest, i, candidate => selectLoop localEndp remoteEndp rest (i + 1) candidate
  | some pcb :: rest, i, candidate =>
      if selects pcb localEndp remoteEndp then
        if pcb.state ≠ .listen then some i
        else selectLoop localEndp remoteEndp rest (i + 1) (some i)
      else selectLoop localEndp remoteEndp rest (i + 1) candidate

/-- `pcb_select`. -/
def pcbSelect (pcbs : Slots TcpPcb) (localEndp remoteEndp : IpEndp) : Option TcpDesc :=
  selectLoop localEndp remoteEndp pcbs 0 none

/-! ## A segment arrives -/

/-- `output_segment(seg.ack, 0, RST, 0, &[], ..)`. -/
def rstFor (seg : SegInfo) (localEndp remoteEndp : IpEndp) : Effect :=
  .emit (outputSegment seg.ack 0 flgRst 0 [] localEndp remoteEndp)

/-- The answer to a segment for which there is no block, or a closed one. -/
def arrivesClosed (seg : SegInfo) (flags : U8) (localEndp remoteEndp : IpEndp) : List Effect :=
  if flagIsset flags flgRst then []
  else if !flagIsset flags flgAck then
    [.emit (outputSegment 0 (seg.seq + seg.len) (flgRst ||| flgAck) 0 [] localEndp remoteEndp)]
  else [rstFor seg localEndp remoteEndp]

/-- A block takes the SYN that a listener received. -/
def passiveOpen (env : Env) (pcb : TcpPcb) (seg : SegInfo) (localEndp remoteEndp : IpEndp) :
    TcpPcb × TcpSegment :=
  let pcb := { pcb with
    localEndp := localEndp
    remoteEndp := remoteEndp
    rcv := { nxt := seg.seq + 1, wnd := recvBufSize }
    irs := seg.seq
    iss := env.random32 }
  let r := output env pcb (flgSyn ||| flgAck) []
  ({ r.1 with
      snd := { r.1.snd with nxt := r.1.iss + 1, una := r.1.iss }
      state := .synReceived
      hist := { r.1.hist with sent := [.syn], synced := true, rcvd := [], fin := false } },
    r.2)

/-- The block that takes the SYN received by the listener `pcb` in slot `desc`:
a new child of a socket, or the listener itself.  `none` when the backlog is full
or there is no free slot. -/
def listenTarget (tcp : Tcp) (desc : TcpDesc) (pcb : TcpPcb) :
    Checked (Option (TcpDesc × Tcp)) :=
  if pcb.mode = .socket then
    if pcb.backlogMax ≤ pcb.backlog.length then return none
    else match tcp.pcbAlloc with
      | none => return none
      | some (newDesc, tcp) => do
          let new ← unwrap (tcp.get newDesc)
          return some (newDesc, tcp.set newDesc { new with
            parentDesc := some desc
            hist := { new.hist with creator := some pcb.task } })
  else return some (desc, tcp)

/-- `segment_arrives` in LISTEN. -/
def arrivesListen (env : Env) (tcp : Tcp) (desc : TcpDesc) (pcb : TcpPcb) (seg : SegInfo)
    (flags : U8) (localEndp remoteEndp : IpEndp) : Checked (Tcp × List Effect) := do
  if flagIsset flags flgRst then return (tcp, [])
  if flagIsset flags flgAck then return (tcp, [rstFor seg localEndp remoteEndp])
  if flagIsset flags flgSyn then
    match ← listenTarget tcp desc pcb with
    | none => return (tcp, [])
    | some (target, tcp) =>
        let pcb ← unwrap (tcp.get target)
        let r := passiveOpen env pcb seg localEndp remoteEndp
        return (tcp.set target r.1, [.emit r.2])
  return (tcp, [])

/-- The receive side of a SYN in SYN_SENT, with the acknowledgement of our SYN
when it carries one. -/
def takeSyn (pcb : TcpPcb) (seg : SegInfo) (acceptable : Bool) : TcpPcb :=
  let pcb := { pcb with
    rcv := { pcb.rcv with nxt := seg.seq + 1 }
    irs := seg.seq
    hist := { pcb.hist with synced := true, rcvd := [], fin := false } }
  if acceptable then retransQueueCleanup { pcb with snd := { pcb.snd with una := seg.ack } }
  else pcb

/-- A SYN is received in SYN_SENT: the connection is established, or both sides
have opened at once. -/
def synInSynSent (env : Env) (pcb : TcpPcb) (seg : SegInfo) (acceptable : Bool) :
    TcpPcb × List Effect :=
  let pcb := takeSyn pcb seg acceptable
  if pcb.snd.una > pcb.iss then
    ({ pcb with
        state := .established
        snd := { pcb.snd with wnd := seg.wnd, wl1 := seg.seq, wl2 := seg.ack } },
      [.emit (ackOf pcb), .notify pcb.task])
  else
    let r := output env { pcb with state := .synReceived } (flgSyn ||| flgAck) []
    (r.1, [.emit r.2])

/-- `segment_arrives` in SYN_SENT. -/
def arrivesSynSent (env : Env) (tcp : Tcp) (desc : TcpDesc) (pcb : TcpPcb) (seg : SegInfo)
    (flags : U8) (localEndp remoteEndp : IpEndp) : Tcp × List Effect :=
  let ack := flagIsset flags flgAck
  if ack ∧ (seg.ack ≤ pcb.iss ∨ seg.ack > pcb.snd.nxt) then
    (tcp, [rstFor seg localEndp remoteEndp])
  else
    let acceptable : Bool := ack ∧ pcb.snd.una ≤ seg.ack ∧ seg.ack ≤ pcb.snd.nxt
    if flagIsset flags flgRst then
      if acceptable then closeAndRelease env tcp desc pcb else (tcp, [])
    else if flagIsset flags flgSyn then
      let r := synInSynSent env pcb seg acceptable
      (tcp.set desc r.1, r.2)
    else (tcp, [])

/-- The parent of a block whose handshake is complete takes it into its
backlog. -/
def joinBacklog (tcp : Tcp) (desc : TcpDesc) : Option TcpDesc → Tcp × List Effect
  | none => (tcp, [])
  | some parentDesc => match tcp.get parentDesc with
    | none => (tcp, [])
    | some parent =>
        (tcp.set parentDesc { parent with backlog := parent.backlog ++ [desc] },
          [.notify parent.task])

/-- `segment_arrives` in the states past SYN_SENT. -/
def arrivesOtherwise (env : Env) (tcp : Tcp) (desc : TcpDesc) (pcb : TcpPcb) (seg : SegInfo)
    (flags : U8) (data : List U8) (localEndp remoteEndp : IpEndp) :
    Checked (Tcp × List Effect) := do
  -- 1st check sequence number
  if !acceptable pcb seg then
    if flagIsset flags flgRst then return (tcp, []) else return (tcp, [.emit (ackOf pcb)])
  -- 2nd check the RST bit
  if flagIsset flags flgRst then return closeAndRelease env tcp desc pcb
  -- 4th check the SYN bit
  if flagIsset flags flgSyn then
    let r := output env pcb flgRst []
    let r' := closeAndRelease env tcp desc r.1
    return (r'.1, .emit r.2 :: r'.2)
  -- 5th check the ACK field
  if !flagIsset flags flgAck then return (tcp, [])
  match checkAck env pcb seg flags localEndp remoteEndp with
  | (.halt pcb effects, _) => return (tcp.set desc pcb, effects)
  | (.release pcb effects, _) =>
      let r := closeAndRelease env tcp desc pcb
      return (r.1, effects ++ r.2)
  | (.go pcb effects, parent) =>
      let joined := (tcp.set desc pcb).joinBacklog desc parent
      let pcb ← unwrap (joined.1.get desc)
      -- 7th process segment text, 8th check the FIN bit
      let r ← textAndFin env pcb seg flags data
      return (joined.1.set desc r.1, effects ++ joined.2 ++ r.2)

/-- `segment_arrives`, for a segment as `tcp::input` passes it on: the local
endpoint is its destination. -/
def segmentArrives (env : Env) (tcp : Tcp) (s : TcpSegment) : Checked (Tcp × List Effect) := do
  let seg := s.info
  match pcbSelect tcp.pcbs s.dst s.src with
  | none => return (tcp, arrivesClosed seg s.flg s.dst s.src)
  | some desc =>
      let pcb ← unwrap (tcp.get desc)
      match pcb.state with
      | .closed => return (tcp, arrivesClosed seg s.flg s.dst s.src)
      | .listen => arrivesListen env tcp desc pcb seg s.flg s.dst s.src
      | .synSent => return arrivesSynSent env tcp desc pcb seg s.flg s.dst s.src
      | _ => arrivesOtherwise env tcp desc pcb seg s.flg s.data s.dst s.src

/-! ## The timer -/

/-- The body of the loop of `on_timer`. -/
def timerSlot (env : Env) (acc : Slots TcpPcb × List Effect) (desc : TcpDesc) :
    Slots TcpPcb × List Effect :=
  match acc.1.peek desc with
  | none => acc
  | some pcb =>
      if pcb.state = .timeWait ∧ pcb.twTimer < env.now then
        let r := pcbRelease env (acc.1.put desc { pcb with state := .closed }) desc
        (r.pcbs, acc.2 ++ r.effects)
      else
        let r := retransEmit env pcb
        (acc.1.put desc r.1, acc.2 ++ r.2)

/-- `on_timer`. -/
def onTimer (env : Env) (tcp : Tcp) : Tcp × List Effect :=
  let r := (List.range tcp.pcbs.length).foldl (timerSlot env) (tcp.pcbs, [])
  ({ tcp with pcbs := r.1 }, r.2)

end Tcp

end Microps
