import Microps.Tcp.Table

/-!
# The user calls

The calls of `tcp.rs` that an application makes.  A call that blocks takes and
drops the lock of the table in every round of its loop, so its rounds are steps
of their own: `openCall` and `connectCall` are split into the set-up, one round
of the wait loop, the interrupted wait and the part after the loop, and
`sendCall`, `receiveCall` and `acceptCall` are one round of theirs.  What a round
decides is its `Reply`.
-/

namespace Microps.Tcp

/-- What a critical section of a call returns or decides. -/
inductive Reply where
  /-- Nothing: it was not a call. -/
  | none
  /-- `Ok(())`. -/
  | ok
  /-- `Err(())`. -/
  | err
  /-- `Ok(desc)`, or the slot with which `open` goes on. -/
  | desc (desc : TcpDesc)
  /-- `accept` returns `Ok((desc, remote))`. -/
  | conn (desc : TcpDesc) (remote : IpEndp)
  /-- The round takes a snapshot of the task and waits on it. -/
  | wait (task : TaskId)
  /-- The next round follows at once. -/
  | again
  /-- The wait loop of `open` or `connect` is left. -/
  | established
  /-- The round of `send` queued `n` octets. -/
  | queued (n : Nat)
  /-- `send` returns `Ok(n)`. -/
  | sent (n : Nat)
  /-- `receive` returns `Ok(n)` with `n` octets copied out. -/
  | bytes (data : List U8)
deriving DecidableEq, Repr

/-- What a critical section leaves behind. -/
structure Outcome where
  tcp : Tcp
  reply : Reply := .none
  effects : List Effect := []
deriving DecidableEq, Repr

/-! ## Opening -/

/-- The port loop of `open` and `connect`. -/
def dynamicPort (tcp : Tcp) (addr : IpAddr) (remoteEndp : IpEndp) : Option U16 :=
  ((List.range' dynamicPortMin (dynamicPortMax + 1 - dynamicPortMin)).map (BitVec.ofNat 16)).find?
    fun port ↦ (pcbSelect tcp.pcbs ⟨addr, port⟩ remoteEndp).isNone

/-- The choice of a local address and port by `open` and `connect`. -/
def chooseLocal (env : Env) (tcp : Tcp) (localEndp remoteEndp : IpEndp) : Option IpEndp := do
  let addr ← if localEndp.addr = .any then
      (routeLookup env.routes remoteEndp.addr).map (·.iface.unicast)
    else some localEndp.addr
  let port ← if localEndp.port = 0 then dynamicPort tcp addr remoteEndp else some localEndp.port
  return ⟨addr, port⟩

/-- Give a block its endpoints and initial sequence number, and send the SYN. -/
def sendSyn (env : Env) (pcb : TcpPcb) (localEndp remoteEndp : IpEndp) : TcpPcb × TcpSegment :=
  output env { pcb with
    localEndp := localEndp
    remoteEndp := remoteEndp
    rcv := { pcb.rcv with wnd := recvBufSize }
    iss := env.random32 } flgSyn []

/-- The SYN has been sent: a connection begins. -/
def synSent (pcb : TcpPcb) : TcpPcb :=
  { pcb with
    snd := { pcb.snd with una := pcb.iss, nxt := pcb.iss + 1 }
    state := .synSent
    hist := { pcb.hist with sent := [.syn], synced := false, rcvd := [], fin := false } }

/-- Release the block that a failed `open` allocated. -/
def openFail (env : Env) (tcp : Tcp) (desc : TcpDesc) (effects : List Effect) : Outcome :=
  let r := pcbRelease env tcp.pcbs desc
  { tcp := { tcp with pcbs := r.pcbs }, reply := .err, effects := effects ++ r.effects }

/-- `open`, up to its wait loop. -/
def openCall (env : Env) (tcp : Tcp) (localEndp remoteEndp : IpEndp) (active : Bool) :
    Checked Outcome :=
  match tcp.pcbAlloc with
  | none => return { tcp := tcp, reply := .err }
  | some (desc, tcp) =>
      if active then
        match chooseLocal env tcp localEndp remoteEndp with
        | none => return openFail env tcp desc []
        | some localEndp =>
            if (pcbSelect tcp.pcbs localEndp remoteEndp).isSome then
              return openFail env tcp desc []
            else do
              let pcb ← unwrap (tcp.get desc)
              let r := sendSyn env pcb localEndp remoteEndp
              if env.ipOutput r.2 then
                return { tcp := tcp.set desc (synSent r.1), reply := .desc desc,
                         effects := [.emit r.2] }
              else
                return openFail env (tcp.set desc { r.1 with state := .closed }) desc [.emit r.2]
      else if (pcbSelect tcp.pcbs localEndp remoteEndp).isSome then
        return openFail env tcp desc []
      else do
        let pcb ← unwrap (tcp.get desc)
        return { tcp := tcp.set desc { pcb with
                   localEndp := localEndp, remoteEndp := remoteEndp, state := .listen },
                 reply := .desc desc }

/-- One round of the wait loop of `open`. -/
def openPoll (env : Env) (tcp : Tcp) (desc : TcpDesc) : Outcome :=
  match tcp.get desc with
  | none => { tcp := tcp, reply := .err }
  | some pcb => match pcb.state with
    | .established => { tcp := tcp, reply := .established }
    | .listen | .synReceived | .synSent => { tcp := tcp, reply := .wait pcb.task }
    | _ =>
        let r := closeAndRelease env tcp desc pcb
        { tcp := r.1, reply := .err, effects := r.2 }

/-- The wait of `open` is interrupted. -/
def openInterrupted (env : Env) (tcp : Tcp) (desc : TcpDesc) : Outcome :=
  match tcp.get desc with
  | none => { tcp := tcp, reply := .err }
  | some pcb =>
      let r := closeAndRelease env tcp desc pcb
      { tcp := r.1, reply := .err, effects := r.2 }

/-- The maximum segment size for a peer: `mtu - IP_HDR_SIZE_MIN - TCP_HDR_SIZE`
of the outgoing interface, a checked subtraction; `none` without a route. -/
def mssFor (env : Env) (remoteEndp : IpEndp) : Checked (Option U16) :=
  match routeLookup env.routes remoteEndp.addr with
  | none => return none
  | some route => do
      let mss ← usub route.iface.mtu.toNat (20 + tcpHdrSize)
      return some (BitVec.ofNat 16 mss)

/-- The end of `open` and `connect`, once the connection is established. -/
def openFinish (env : Env) (tcp : Tcp) (desc : TcpDesc) : Checked Outcome :=
  match tcp.get desc with
  | none => return { tcp := tcp, reply := .err }
  | some pcb => do
      match ← mssFor env pcb.remoteEndp with
      | none => return { tcp := tcp, reply := .err }
      | some mss => return { tcp := tcp.set desc { pcb with mss := mss }, reply := .desc desc }

/-- `connect`, up to its wait loop. -/
def connectCall (env : Env) (tcp : Tcp) (desc : TcpDesc) (remoteEndp : IpEndp) : Outcome :=
  match tcp.get desc with
  | none => { tcp := tcp, reply := .err }
  | some pcb => match chooseLocal env tcp pcb.localEndp remoteEndp with
    | none => { tcp := tcp, reply := .err }
    | some localEndp =>
        if (pcbSelect tcp.pcbs localEndp remoteEndp).isSome then { tcp := tcp, reply := .err }
        else
          let r := sendSyn env pcb localEndp remoteEndp
          if env.ipOutput r.2 then
            { tcp := tcp.set desc (synSent r.1), reply := .desc desc, effects := [.emit r.2] }
          else
            { tcp := tcp.set desc { r.1 with state := .closed }, reply := .err,
              effects := [.emit r.2] }

/-- One round of the wait loop of `connect`. -/
def connectPoll (tcp : Tcp) (desc : TcpDesc) : Outcome :=
  match tcp.get desc with
  | none => { tcp := tcp, reply := .err }
  | some pcb => match pcb.state with
    | .established => { tcp := tcp, reply := .established }
    | .listen | .synReceived | .synSent => { tcp := tcp, reply := .wait pcb.task }
    | _ => { tcp := tcp.set desc { pcb with state := .closed }, reply := .err }

/-- The wait of `connect` is interrupted. -/
def connectInterrupted (tcp : Tcp) (desc : TcpDesc) : Outcome :=
  match tcp.get desc with
  | none => { tcp := tcp, reply := .err }
  | some pcb => { tcp := tcp.set desc { pcb with state := .closed }, reply := .err }

/-! ## Closing -/

/-- Send a FIN and move to `state`. -/
def sendFin (env : Env) (pcb : TcpPcb) (state : TcpState) : TcpPcb × TcpSegment :=
  let r := output env pcb (flgAck ||| flgFin) []
  ({ r.1 with
      snd := { r.1.snd with nxt := r.1.snd.nxt + 1 }
      state := state
      hist := { r.1.hist with sent := r.1.hist.sent ++ [.fin] } },
    r.2)

/-- `close`. -/
def closeCall (env : Env) (tcp : Tcp) (desc : TcpDesc) : Outcome :=
  let shut (pcb : TcpPcb) (state : TcpState) : Outcome :=
    let r := sendFin env pcb state
    { tcp := tcp.set desc r.1, reply := .ok, effects := [.emit r.2, .notify pcb.task] }
  match tcp.get desc with
  | none => { tcp := tcp, reply := .err }
  | some pcb => match pcb.state with
    | .closed => { tcp := tcp, reply := .err }
    | .listen | .synSent =>
        let r := pcbRelease env (tcp.pcbs.put desc { pcb with state := .closed }) desc
        { tcp := { tcp with pcbs := r.pcbs }, reply := if r.ok then .ok else .err,
          effects := r.effects }
    | .synReceived | .established => shut pcb .finWait1
    | .closeWait => shut pcb .lastAck
    | .finWait1 | .finWait2 | .closing | .lastAck | .timeWait => { tcp := tcp, reply := .err }

/-! ## Sending and receiving -/

/-- The room `send` has: `snd.wnd` less what is in flight. -/
def sendCap (pcb : TcpPcb) : Nat := pcb.snd.wnd.toNat - (pcb.snd.nxt - pcb.snd.una).toNat

/-- Queue the octets `data` and send them. -/
def sendData (env : Env) (pcb : TcpPcb) (data : List U8) : TcpPcb × TcpSegment :=
  let r := output env pcb (flgAck ||| flgPsh) data
  ({ r.1 with
      snd := { r.1.snd with nxt := r.1.snd.nxt + BitVec.ofNat 32 data.length }
      hist := { r.1.hist with sent := r.1.hist.sent ++ data.map .byte } },
    r.2)

/-- One round of the loop of `send`, of which `sent` octets are already
queued. -/
def sendCall (env : Env) (tcp : Tcp) (desc : TcpDesc) (data : List U8) (sent : Nat) : Outcome :=
  match tcp.get desc with
  | none => { tcp := tcp, reply := .err }
  | some pcb =>
      if pcb.state = .established ∨ pcb.state = .closeWait then
        if data.length ≤ sent then { tcp := tcp, reply := .sent sent }
        else if sendCap pcb = 0 then { tcp := tcp, reply := .wait pcb.task }
        else
          let slen := min (min pcb.mss.toNat (data.length - sent)) (sendCap pcb)
          let r := sendData env pcb ((data.drop sent).take slen)
          { tcp := tcp.set desc r.1, reply := .queued slen, effects := [.emit r.2] }
      else { tcp := tcp, reply := .err }

/-- Copy up to `len` octets out of `buf`.  `rcv.wnd += n as u16` is a checked
addition. -/
def takeBytes (tcp : Tcp) (desc : TcpDesc) (pcb : TcpPcb) (len : Nat) : Checked Outcome := do
  let n := min len pcb.buf.length
  let wnd ← wadd pcb.rcv.wnd (BitVec.ofNat 16 n)
  return { tcp := tcp.set desc { pcb with
             buf := pcb.buf.drop n, rcv := { pcb.rcv with wnd := wnd } },
           reply := .bytes (pcb.buf.take n) }

/-- One round of the loop of `receive`, into a buffer of `len` octets. -/
def receiveCall (tcp : Tcp) (desc : TcpDesc) (len : Nat) : Checked Outcome :=
  match tcp.get desc with
  | none => return { tcp := tcp, reply := .err }
  | some pcb => match pcb.state with
    | .established | .finWait1 | .finWait2 =>
        if pcb.buf = [] then return { tcp := tcp, reply := .wait pcb.task }
        else takeBytes tcp desc pcb len
    | .closeWait =>
        if pcb.buf = [] then return { tcp := tcp, reply := .bytes [] }
        else takeBytes tcp desc pcb len
    | .closing | .lastAck | .timeWait => return { tcp := tcp, reply := .bytes [] }
    | _ => return { tcp := tcp, reply := .err }

/-! ## Sockets -/

/-- `socket`. -/
def socketCall (tcp : Tcp) : Checked Outcome :=
  match tcp.pcbAlloc with
  | none => return { tcp := tcp, reply := .err }
  | some (desc, tcp) => do
      let pcb ← unwrap (tcp.get desc)
      return { tcp := tcp.set desc { pcb with mode := .socket }, reply := .desc desc }

/-- `bind`. -/
def bindCall (tcp : Tcp) (desc : TcpDesc) (localEndp : IpEndp) : Outcome :=
  match tcp.get desc with
  | none => { tcp := tcp, reply := .err }
  | some pcb =>
      if localEndp.port = 0 ∨ pcb.state ≠ .closed ∨
          (pcbSelect tcp.pcbs localEndp .any).isSome then
        { tcp := tcp, reply := .err }
      else { tcp := tcp.set desc { pcb with localEndp := localEndp }, reply := .ok }

/-- `listen`. -/
def listenCall (tcp : Tcp) (desc : TcpDesc) (backlog : Nat) : Outcome :=
  match tcp.get desc with
  | none => { tcp := tcp, reply := .err }
  | some pcb =>
      if pcb.localEndp.port = 0 ∨ pcb.state ≠ .closed then { tcp := tcp, reply := .err }
      else { tcp := tcp.set desc { pcb with backlogMax := backlog, state := .listen },
             reply := .ok }

/-- One round of the loop of `accept`. -/
def acceptCall (env : Env) (tcp : Tcp) (desc : TcpDesc) : Checked Outcome :=
  match tcp.get desc with
  | none => return { tcp := tcp, reply := .err }
  | some pcb =>
      if pcb.state ≠ .listen then return { tcp := tcp, reply := .err }
      else match pcb.backlog with
        | [] => return { tcp := tcp, reply := .wait pcb.task }
        | newDesc :: backlog =>
            let tcp := tcp.set desc { pcb with backlog := backlog }
            match tcp.get newDesc with
            | none => return { tcp := tcp, reply := .again }
            | some new => do
                match ← mssFor env new.remoteEndp with
                | none => return { tcp := tcp, reply := .err }
                | some mss =>
                    return { tcp := tcp.set newDesc { new with
                               mss := mss, hist := { new.hist with accepted := true } },
                             reply := .conn newDesc new.remoteEndp }

end Microps.Tcp
