import Microps.Lib.Machine
import Microps.Tcp.Ack
import Microps.Tcp.Release
import Microps.Tcp.User

/-!
# The TCP module as a machine

Every critical section of `tcp.rs` is an `Event`, and `step` runs one.  An
unbounded number of callers, the receive path and the timer may interleave their
events in any order, and each event may meet any `Env`.
-/

namespace Microps.Tcp

/-- The critical sections of `tcp.rs`. -/
inductive Event where
  /-- `input` passes a segment to `segment_arrives`. -/
  | arrive (s : TcpSegment)
  /-- `on_timer`. -/
  | timer
  /-- `open`, up to its wait loop. -/
  | openCall (localEndp remoteEndp : IpEndp) (active : Bool)
  /-- One round of the wait loop of `open`. -/
  | openPoll (desc : TcpDesc)
  /-- The wait of `open` is interrupted. -/
  | openInterrupted (desc : TcpDesc)
  /-- The end of `open` and of `connect`. -/
  | openFinish (desc : TcpDesc)
  /-- `connect`, up to its wait loop. -/
  | connectCall (desc : TcpDesc) (remoteEndp : IpEndp)
  /-- One round of the wait loop of `connect`. -/
  | connectPoll (desc : TcpDesc)
  /-- The wait of `connect` is interrupted. -/
  | connectInterrupted (desc : TcpDesc)
  /-- `close`. -/
  | close (desc : TcpDesc)
  /-- One round of the loop of `send`. -/
  | send (desc : TcpDesc) (data : List U8) (sent : Nat)
  /-- One round of the loop of `receive`. -/
  | receive (desc : TcpDesc) (len : Nat)
  /-- `socket`. -/
  | socket
  /-- `bind`. -/
  | bind (desc : TcpDesc) (localEndp : IpEndp)
  /-- `listen`. -/
  | listen (desc : TcpDesc) (backlog : Nat)
  /-- One round of the loop of `accept`. -/
  | accept (desc : TcpDesc)
deriving DecidableEq, Repr

/-- Run one critical section. -/
def step (env : Env) (tcp : Tcp) : Event → Checked Outcome
  | .arrive s => do
      let r ← segmentArrives env tcp s
      return { tcp := r.1, effects := r.2 }
  | .timer => return { tcp := (onTimer env tcp).1, effects := (onTimer env tcp).2 }
  | .openCall localEndp remoteEndp active => openCall env tcp localEndp remoteEndp active
  | .openPoll desc => return openPoll env tcp desc
  | .openInterrupted desc => return openInterrupted env tcp desc
  | .openFinish desc => openFinish env tcp desc
  | .connectCall desc remoteEndp => return connectCall env tcp desc remoteEndp
  | .connectPoll desc => return connectPoll tcp desc
  | .connectInterrupted desc => return connectInterrupted tcp desc
  | .close desc => return closeCall env tcp desc
  | .send desc data sent => return sendCall env tcp desc data sent
  | .receive desc len => receiveCall tcp desc len
  | .socket => socketCall tcp
  | .bind desc localEndp => return bindCall tcp desc localEndp
  | .listen desc backlog => return listenCall tcp desc backlog
  | .accept desc => acceptCall env tcp desc

/-! ## What one step can do

`BlockStep` lists what an event can do to a block that stays in its slot, and
`Birth` the blocks it can put into an empty slot.  `Move` lists what it can do to
the table.  Together they say once what the rest of the development needs of the
code: every invariant is derived from them.
-/

/-- A segment that `segment_arrives` hands to the ACK step of a block past
SYN_SENT. -/
structure ReachesAck (p : TcpPcb) (s : TcpSegment) : Prop where
  state : p.state ≠ .closed ∧ p.state ≠ .listen ∧ p.state ≠ .synSent
  acceptable : acceptable p s.info = true
  rst : flagIsset s.flg flgRst = false
  syn : flagIsset s.flg flgSyn = false
  ack : flagIsset s.flg flgAck = true

/-- `connect` finds a local endpoint that is free. -/
def Connects (env : Env) (tcp : Tcp) (p : TcpPcb) (localEndp remoteEndp : IpEndp) : Prop :=
  chooseLocal env tcp p.localEndp remoteEndp = some localEndp ∧
    (pcbSelect tcp.pcbs localEndp remoteEndp).isSome = false

/-- `connect` finds one. -/
def connects (env : Env) (tcp : Tcp) (p : TcpPcb) (remoteEndp : IpEndp) : Bool :=
  (chooseLocal env tcp p.localEndp remoteEndp).any fun localEndp ↦
    !(pcbSelect tcp.pcbs localEndp remoteEndp).isSome

/-- `open` gets a block and finds a local endpoint that is free. -/
def Opens (env : Env) (tcp : Tcp) (localEndp remoteEndp chosen : IpEndp) : Prop :=
  ∃ d tcp', tcp.pcbAlloc = some (d, tcp') ∧
    chooseLocal env tcp' localEndp remoteEndp = some chosen ∧
    (pcbSelect tcp'.pcbs chosen remoteEndp).isSome = false

/-- `open` gets a block to listen with, and finds no other at the two endpoints. -/
def OpensPassive (tcp : Tcp) (localEndp remoteEndp : IpEndp) : Prop :=
  ∃ d tcp', tcp.pcbAlloc = some (d, tcp') ∧
    (pcbSelect tcp'.pcbs localEndp remoteEndp).isSome = false

/-- `listen` or `connect` is called on the block `p` in slot `d`, and goes ahead. -/
def reopens (env : Env) (tcp : Tcp) (d : TcpDesc) (p : TcpPcb) : Event → Bool
  | .listen d' _ => d' = d ∧ p.state = .closed ∧ p.localEndp.port ≠ 0
  | .connectCall d' r => d' = d ∧ (chooseLocal env tcp p.localEndp r).any fun l ↦
      !(pcbSelect tcp.pcbs l r).isSome && env.ipOutput (sendSyn env p l r).2
  | _ => false

/-- What an event does to a block by itself, but for a segment past SYN_SENT. -/
inductive BlockStep (env : Env) (tcp : Tcp) (d : TcpDesc) :
    Event → TcpPcb → List Effect → Reply → TcpPcb → Prop
  | mss {p : TcpPcb} (m : U16) : BlockStep env tcp d (.openFinish d) p [] (.desc d) { p with mss := m }
  | bind {p : TcpPcb} (l : IpEndp) (hstate : p.state = .closed) :
      BlockStep env tcp d (.bind d l) p [] .ok { p with localEndp := l }
  | listen {p : TcpPcb} (n : Nat) (hstate : p.state = .closed) (hport : p.localEndp.port ≠ 0) :
      BlockStep env tcp d (.listen d n) p [] .ok { p with backlogMax := n, state := .listen }
  | connectFails {p : TcpPcb} (hstate : p.state ≠ .established ∧ p.state ≠ .listen ∧
        p.state ≠ .synReceived ∧ p.state ≠ .synSent) :
      BlockStep env tcp d (.connectPoll d) p [] .err { p with state := .closed }
  | interrupted {p : TcpPcb} :
      BlockStep env tcp d (.connectInterrupted d) p [] .err { p with state := .closed }
  | syn {p : TcpPcb} (l r : IpEndp) (hlocal : Connects env tcp p l r)
      (houtput : env.ipOutput (sendSyn env p l r).2 = true) :
      BlockStep env tcp d (.connectCall d r) p [.emit (sendSyn env p l r).2] (.desc d)
        (synSent (sendSyn env p l r).1)
  | synFails {p : TcpPcb} (l r : IpEndp) (hlocal : Connects env tcp p l r)
      (houtput : env.ipOutput (sendSyn env p l r).2 = false) :
      BlockStep env tcp d (.connectCall d r) p [.emit (sendSyn env p l r).2] .err
        { (sendSyn env p l r).1 with state := .closed }
  | passive {p : TcpPcb} (s : TcpSegment) (hselect : pcbSelect tcp.pcbs s.dst s.src = some d)
      (hstate : p.state = .listen) (hmode : p.mode = .rfc) (hrst : flagIsset s.flg flgRst = false)
      (hack : flagIsset s.flg flgAck = false) (hsyn : flagIsset s.flg flgSyn = true) :
      BlockStep env tcp d (.arrive s) p [.emit (passiveOpen env p s.info s.dst s.src).2] .none
        (passiveOpen env p s.info s.dst s.src).1
  | synSent {p : TcpPcb} (s : TcpSegment) (acceptable : Bool)
      (hselect : pcbSelect tcp.pcbs s.dst s.src = some d) (hstate : p.state = .synSent)
      (hrst : flagIsset s.flg flgRst = false) (hsyn : flagIsset s.flg flgSyn = true)
      (hack : acceptable = true → flagIsset s.flg flgAck = true ∧ p.iss < s.ack ∧
        p.snd.una ≤ s.ack ∧ s.ack ≤ p.snd.nxt) :
      BlockStep env tcp d (.arrive s) p (synInSynSent env p s.info acceptable).2 .none
        (synInSynSent env p s.info acceptable).1
  | fin {p : TcpPcb} (state : TcpState)
      (hstate : (p.state = .synReceived ∨ p.state = .established) ∧ state = .finWait1 ∨
        p.state = .closeWait ∧ state = .lastAck) :
      BlockStep env tcp d (.close d) p [.emit (sendFin env p state).2, .notify p.task] .ok
        (sendFin env p state).1
  | data {p : TcpPcb} (data : List U8) (sent n : Nat)
      (hstate : p.state = .established ∨ p.state = .closeWait) (hsent : sent < data.length)
      (hn : n = min (min p.mss.toNat (data.length - sent)) (sendCap p)) (hcap : sendCap p ≠ 0) :
      BlockStep env tcp d (.send d data sent) p
        [.emit (sendData env p ((data.drop sent).take n)).2] (.queued n)
        (sendData env p ((data.drop sent).take n)).1
  | take {p : TcpPcb} (len n : Nat) (wnd : U16)
      (hstate : p.state.takesText ∨ p.state = .closeWait) (hbuf : p.buf ≠ [])
      (hn : n = min len p.buf.length)
      (hwnd : wadd p.rcv.wnd (BitVec.ofNat 16 n) = .ok wnd) :
      BlockStep env tcp d (.receive d len) p [] (.bytes (p.buf.take n))
        { p with buf := p.buf.drop n, rcv := { p.rcv with wnd := wnd } }

/-- The blocks an event can put into an empty slot, where `task` is new. -/
inductive Birth (env : Env) (tcp : Tcp) (d : TcpDesc) (task : TaskId) :
    Event → List Effect → Reply → TcpPcb → Prop
  | socket : Birth env tcp d task .socket [] (.desc d) { TcpPcb.empty task with mode := .socket }
  | listen (l r : IpEndp) (hopens : OpensPassive tcp l r) :
      Birth env tcp d task (.openCall l r false) [] (.desc d)
        { TcpPcb.empty task with localEndp := l, remoteEndp := r, state := .listen }
  | syn (l l' r : IpEndp) (hopens : Opens env tcp l r l')
      (houtput : env.ipOutput (sendSyn env (.empty task) l' r).2 = true) :
      Birth env tcp d task (.openCall l r true) [.emit (sendSyn env (.empty task) l' r).2] (.desc d)
        (synSent (sendSyn env (.empty task) l' r).1)
  | child (s : TcpSegment) (l : TcpDesc) (p : TcpPcb) (child : TcpPcb)
      (hselect : pcbSelect tcp.pcbs s.dst s.src = some l) (hp : tcp.get l = some p)
      (hstate : p.state = .listen) (hmode : p.mode = .socket)
      (hroom : p.backlog.length < p.backlogMax) (hrst : flagIsset s.flg flgRst = false)
      (hack : flagIsset s.flg flgAck = false) (hsyn : flagIsset s.flg flgSyn = true)
      (hchild : child = { TcpPcb.empty task with
        parentDesc := some l, hist := { creator := some p.task } }) :
      Birth env tcp d task (.arrive s) [.emit (passiveOpen env child s.info s.dst s.src).2] .none
        (passiveOpen env child s.info s.dst s.src).1

/-- A reply with which nothing was queued, copied out or accepted. -/
def Reply.quiet : Reply → Bool
  | .queued _ | .conn _ _ => false
  | .bytes data => data = []
  | _ => true

/-- A segment that answers for no sequence number: a reset, or the plain
acknowledgement of a block past SYN_SENT. -/
def Answer (tcp : Tcp) (seg : TcpSegment) : Prop :=
  flagIsset seg.flg flgRst = true ∨ ∃ d p, tcp.get d = some p ∧ p.state ≠ .closed ∧
    p.state ≠ .listen ∧ p.state ≠ .synSent ∧ seg = ackOf p

/-- The events that release the block `p` in slot `d`. -/
def Drops (tcp : Tcp) (d : TcpDesc) (p : TcpPcb) : Event → Prop
  | .arrive s => pcbSelect tcp.pcbs s.dst s.src = some d ∧ p.state ≠ .closed ∧ p.state ≠ .listen
  | .close d' => d' = d ∧ (p.state = .listen ∨ p.state = .synSent)
  | .openPoll d' | .openInterrupted d' => d' = d
  | _ => False

/-- What an event does to the table. -/
inductive Move (env : Env) (tcp : Tcp) : Event → Outcome → Prop
  /-- The table is left alone. -/
  | idle {ev : Event} {reply : Reply} {es : List Effect} (hreply : reply.quiet)
      (hes : ∀ e ∈ es, ∃ seg, e = .emit seg ∧ Answer tcp seg) :
      Move env tcp ev { tcp := tcp, reply := reply, effects := es }
  /-- One block changes. -/
  | work {ev : Event} {reply : Reply} {es : List Effect} {d : TcpDesc} {p p' : TcpPcb}
      (hp : tcp.get d = some p) (hblock : BlockStep env tcp d ev p es reply p') :
      Move env tcp ev { tcp := tcp.set d p', reply := reply, effects := es }
  /-- A block is put into an empty slot. -/
  | birth {ev : Event} {reply : Reply} {es : List Effect} {d : TcpDesc} {tcp' : Tcp} {p' : TcpPcb}
      (halloc : tcp.pcbAlloc = some (d, tcp')) (hbirth : Birth env tcp d tcp.nextTask ev es reply p') :
      Move env tcp ev { tcp := tcp'.set d p', reply := reply, effects := es }
  /-- The block of a failed `open` is gone again. -/
  | stillborn {l r : IpEndp} {active : Bool} {tcp' : Tcp} {es : List Effect}
      (hget : ∀ j, tcp'.get j = tcp.get j) (htask : tcp'.nextTask = tcp.nextTask + 1)
      (hes : ∀ seg, .emit seg ∈ es → flagIsset seg.flg flgRst = true ∨ active = true ∧
        ∃ l', Opens env tcp l r l' ∧ seg = (sendSyn env (.empty tcp.nextTask) l' r).2) :
      Move env tcp (.openCall l r active) { tcp := tcp', reply := .err, effects := es }
  /-- A block is released. -/
  | drop {ev : Event} {reply : Reply} (es : List Effect) {d : TcpDesc} {p : TcpPcb} {r : Released}
      (hp : tcp.get d = some p) (hev : Drops tcp d p ev) (hreply : reply.quiet)
      (hes : ∀ e ∈ es, ∃ seg, e = .emit seg ∧ flagIsset seg.flg flgRst = true)
      (hdrained : Drained tcp.pcbs d r) (hbacklog : ∀ j ∈ p.backlog, r.pcbs.peek j = none) :
      Move env tcp ev
        { tcp := { tcp with pcbs := r.pcbs }, reply := reply, effects := es ++ r.effects }
  /-- A segment past SYN_SENT passes the ACK step. -/
  | pass {s : TcpSegment} {d : TcpDesc} {p p₁ p' : TcpPcb} {es₁ es₂ : List Effect}
      (hselect : pcbSelect tcp.pcbs s.dst s.src = some d) (hp : tcp.get d = some p)
      (hparent : p.state = .synReceived → ∀ l, p.parentDesc = some l → (tcp.set d p₁).get l = none)
      (hreach : ReachesAck p s) (hack : AckStep p s.info p₁ es₁)
      (htext : textAndFin env p₁ s.info s.flg s.data = .ok (p', es₂)) :
      Move env tcp (.arrive s) { tcp := tcp.set d p', effects := es₁ ++ es₂ }
  /-- A handshake is complete and the block joins the backlog of its parent. -/
  | join {s : TcpSegment} {d l : TcpDesc} {p p₁ p₂ p' parent : TcpPcb} {es₁ es₂ : List Effect}
      (hselect : pcbSelect tcp.pcbs s.dst s.src = some d) (hp : tcp.get d = some p)
      (hstate : p.state = .synReceived) (hparent : p.parentDesc = some l)
      (hreach : ReachesAck p s)
      (hack : AckStep p s.info p₁ es₁) (hl : (tcp.set d p₁).get l = some parent)
      (hp₂ : p₂ = if d = l then { p₁ with backlog := p₁.backlog ++ [d] } else p₁)
      (htext : textAndFin env p₂ s.info s.flg s.data = .ok (p', es₂)) :
      Move env tcp (.arrive s)
        { tcp := ((tcp.set d p₁).set l { parent with backlog := parent.backlog ++ [d] }).set d p',
          effects := es₁ ++ [.notify parent.task] ++ es₂ }
  /-- `accept` takes a descriptor out of the backlog for which there is no
  connection to return. -/
  | pop {d new : TcpDesc} {p : TcpPcb} {rest : List TcpDesc} {reply : Reply}
      (hp : tcp.get d = some p) (hstate : p.state = .listen) (hbacklog : p.backlog = new :: rest)
      (hreply : reply = .again ∧ (tcp.set d { p with backlog := rest }).get new = none ∨
        reply = .err ∧ ∃ q, (tcp.set d { p with backlog := rest }).get new = some q ∧
          routeLookup env.routes q.remoteEndp.addr = none) :
      Move env tcp (.accept d) { tcp := tcp.set d { p with backlog := rest }, reply := reply }
  /-- `accept` returns a connection. -/
  | accept {d new : TcpDesc} {p q : TcpPcb} {rest : List TcpDesc} (m : U16)
      (hp : tcp.get d = some p) (hstate : p.state = .listen) (hbacklog : p.backlog = new :: rest)
      (hq : (tcp.set d { p with backlog := rest }).get new = some q) :
      Move env tcp (.accept d)
        { tcp := (tcp.set d { p with backlog := rest }).set new
            { q with mss := m, hist := { q.hist with accepted := true } },
          reply := .conn new q.remoteEndp }
  /-- The timer ticks: each block is sent again as far as it is due, or goes. -/
  | tick {t' : Slots TcpPcb} {es : List Effect}
      (hnone : ∀ j, tcp.get j = none → t'.peek j = none)
      (hsome : ∀ j p, tcp.get j = some p →
        t'.peek j = some (retransEmit env p).1 ∧ (∀ e ∈ (retransEmit env p).2, e ∈ es) ∧
          ¬ (p.state = .timeWait ∧ p.twTimer < env.now) ∨
        t'.peek j = none ∧ .notify p.task ∈ es ∧ (p.state = .timeWait ∨
          ∃ i q, tcp.get i = some q ∧ j ∈ q.backlog ∧ t'.peek i = none))
      (hes : ∀ seg, .emit seg ∈ es → flagIsset seg.flg flgRst = true ∨
        ∃ j p, tcp.get j = some p ∧ .emit seg ∈ (retransEmit env p).2) :
      Move env tcp .timer { tcp := { tcp with pcbs := t' }, effects := es }

end Microps.Tcp
