import Microps.Tcp.Step
import Microps.Udp.Basic

/-!
# The socket layer

`sock.rs` keeps the table `SOCKS` over the tables of `tcp.rs` and `udp.rs`.  A call
takes the lock of `SOCKS` and the lock of the table below one after the other, and
never holds two: other calls, the receive path and the timer may come in between any
two of its critical sections.  So a call in progress is a `Call`, which says what it
does next, and one turn of the `Stack` runs one critical section.

`udp.rs` shares nothing with the TCP side but the table of sockets.  What it answers
is left open.
-/

namespace Microps

abbrev SockDesc := Nat

/-- `Sock`, an entry of `SOCKS`. -/
structure Sock where
  family : U16
  ty : U8
  desc : Nat
  /-- History: the task of the block of `tcp.rs` that the entry was made for. -/
  task : Option TaskId := none
deriving DecidableEq, Repr

namespace Sock

open Tcp (Event Outcome Reply)

def afInet : U16 := 2
def sockStream : U8 := 1
def sockDgram : U8 := 2

/-- `sock_alloc`. -/
def sockAlloc (socks : Slots Sock) (sock : Sock) : SockDesc × Slots Sock := socks.insert sock

/-- `sock_get`. -/
def sockGet (socks : Slots Sock) (desc : SockDesc) : Option Sock := socks.peek desc

/-- The calls of `sock.rs`.  A `SocketAddr` is an endpoint: `to_endp` and `from_endp`
only wrap it. -/
inductive Request where
  | open (family : U16) (ty : U8)
  | close (desc : SockDesc)
  | bind (desc : SockDesc) (addr : IpEndp)
  | listen (desc : SockDesc) (backlog : Nat)
  | accept (desc : SockDesc)
  | connect (desc : SockDesc) (addr : IpEndp)
  | send (desc : SockDesc) (data : List U8)
  | recv (desc : SockDesc) (len : Nat)
  | sendto (desc : SockDesc) (data : List U8) (addr : IpEndp)
  | recvfrom (desc : SockDesc) (len : Nat)
deriving DecidableEq, Repr

/-- What a call returns. -/
inductive Answer where
  | err
  | ok
  | desc (desc : SockDesc)
  | conn (desc : SockDesc) (addr : IpEndp)
  | count (n : Nat)
  | bytes (data : List U8)
  | datagram (data : List U8) (addr : IpEndp)
deriving DecidableEq, Repr

/-- The calls of `udp.rs` on a block. -/
inductive UdpCall where
  | close (desc : UdpDesc)
  | bind (desc : UdpDesc) (endp : IpEndp)
  | sendto (desc : UdpDesc) (data : List U8) (endp : IpEndp)
  | recvfrom (desc : UdpDesc) (len : Nat)
deriving DecidableEq, Repr

/-- What a turn finds around it: the environment of `tcp.rs`, and the answers of
`udp.rs`. -/
structure SockEnv extends Env where
  udpOpen : Option UdpDesc
  udp : UdpCall → Answer

/-- A call in progress, by what it does next. -/
inductive Call where
  /-- `open` gets a block from `tcp::socket` or `udp::open`. -/
  | open (family : U16) (ty : U8)
  /-- `open` or `accept` puts its entry into `SOCKS`; `accept` knows the peer. -/
  | store (sock : Sock) (remote : Option IpEndp)
  /-- `close` takes the entry it has read out of `SOCKS`. -/
  | clear (desc : SockDesc) (sock : Sock)
  /-- A call on `desc`, whose entry is `sock`, runs a critical section of `tcp.rs`, at
  once or when it wakes up. -/
  | tcp (desc : SockDesc) (sock : Sock) (next : Event) (waiting : Bool)
  /-- A call runs in `udp.rs`. -/
  | udp (next : UdpCall)
deriving DecidableEq, Repr

/-- How a call goes on. -/
inductive Next where
  | done (answer : Answer)
  | call (call : Call)
deriving DecidableEq, Repr

/-- The call that is left, if it does not return. -/
def Next.call? : Next → Option Call
  | .done _ => none
  | .call c => some c

/-! ## The calls -/

/-- `sock_get(desc).ok_or(..)?`. -/
def withSock (socks : Slots Sock) (desc : SockDesc) (f : Sock → Next) : Next :=
  match sockGet socks desc with
  | none => .done .err
  | some sock => f sock

/-- A call that requires `SOCK_STREAM` and goes on in `tcp.rs`. -/
def streamCall (socks : Slots Sock) (desc : SockDesc) (f : Sock → Event) : Next :=
  withSock socks desc fun sock ↦
    if sock.ty ≠ sockStream then .done .err else .call (.tcp desc sock (f sock) false)

/-- A call that requires `SOCK_DGRAM` and goes on in `udp.rs`. -/
def dgramCall (socks : Slots Sock) (desc : SockDesc) (f : Sock → UdpCall) : Next :=
  withSock socks desc fun sock ↦ if sock.ty ≠ sockDgram then .done .err else .call (.udp (f sock))

/-- `open`, up to the block. -/
def «open» (family : U16) (ty : U8) : Next :=
  if family ≠ afInet then .done .err
  else if ty = sockStream ∨ ty = sockDgram then .call (.open family ty)
  else .done .err

/-- `close`, up to `SOCKS.lock()[desc] = None`. -/
def close (socks : Slots Sock) (desc : SockDesc) : Next :=
  withSock socks desc fun sock ↦ .call (.clear desc sock)

/-- `bind`. -/
def bind (socks : Slots Sock) (desc : SockDesc) (addr : IpEndp) : Next :=
  withSock socks desc fun sock ↦
    if sock.family ≠ afInet then .done .err
    else if sock.ty = sockStream then .call (.tcp desc sock (.bind sock.desc addr) false)
    else if sock.ty = sockDgram then .call (.udp (.bind sock.desc addr))
    else .done .err

/-- `listen`. -/
def listen (socks : Slots Sock) (desc : SockDesc) (backlog : Nat) : Next :=
  streamCall socks desc fun sock ↦ .listen sock.desc backlog

/-- `accept`, up to the loop of `tcp::accept`. -/
def accept (socks : Slots Sock) (desc : SockDesc) : Next :=
  streamCall socks desc fun sock ↦ .accept sock.desc

/-- `connect`. -/
def connect (socks : Slots Sock) (desc : SockDesc) (addr : IpEndp) : Next :=
  streamCall socks desc fun sock ↦ .connectCall sock.desc addr

/-- `send`. -/
def send (socks : Slots Sock) (desc : SockDesc) (data : List U8) : Next :=
  streamCall socks desc fun sock ↦ .send sock.desc data 0

/-- `recv`. -/
def recv (socks : Slots Sock) (desc : SockDesc) (len : Nat) : Next :=
  streamCall socks desc fun sock ↦ .receive sock.desc len

/-- `sendto`. -/
def sendto (socks : Slots Sock) (desc : SockDesc) (data : List U8) (addr : IpEndp) : Next :=
  dgramCall socks desc fun sock ↦ .sendto sock.desc data addr

/-- `recvfrom`. -/
def recvfrom (socks : Slots Sock) (desc : SockDesc) (len : Nat) : Next :=
  dgramCall socks desc fun sock ↦ .recvfrom sock.desc len

/-- A call up to its first critical section below. -/
def enter (socks : Slots Sock) : Request → Next
  | .open family ty => Sock.open family ty
  | .close desc => close socks desc
  | .bind desc addr => bind socks desc addr
  | .listen desc backlog => listen socks desc backlog
  | .accept desc => accept socks desc
  | .connect desc addr => connect socks desc addr
  | .send desc data => send socks desc data
  | .recv desc len => recv socks desc len
  | .sendto desc data addr => sendto socks desc data addr
  | .recvfrom desc len => recvfrom socks desc len

/-! ## Going on -/

/-- The entry for a block that `tcp.rs` has returned. -/
def entry (family : U16) (ty : U8) (desc : TcpDesc) (tcp : Tcp) : Sock where
  family := family
  ty := ty
  desc := desc
  task := (tcp.get desc).map (·.task)

/-- How a call goes on after a critical section of `tcp.rs`: the loops of `connect`,
`send`, `receive` and `accept`, and what the callers in `sock.rs` make of the result. -/
def follow (desc : SockDesc) (sock : Sock) (ev : Event) (out : Outcome) : Next :=
  match ev, out.reply with
  | _, .wait _ => .call (.tcp desc sock ev true)
  | _, .again => .call (.tcp desc sock ev false)
  | .connectCall d _, .desc _ => .call (.tcp desc sock (.connectPoll d) false)
  | .connectPoll d, .established => .call (.tcp desc sock (.openFinish d) false)
  | .openFinish _, .desc _ => .done .ok
  | .send d data sent, .queued n => .call (.tcp desc sock (.send d data (sent + n)) false)
  | .accept _, .conn new remote =>
      .call (.store (entry sock.family sock.ty new out.tcp) (some remote))
  | _, .ok => .done .ok
  | _, .sent n => .done (.count n)
  | _, .bytes data => .done (.bytes data)
  | _, _ => .done .err

/-- A wait of a call is interrupted. -/
def interrupted (desc : SockDesc) (sock : Sock) : Event → Next
  | .connectPoll d => .call (.tcp desc sock (.connectInterrupted d) false)
  | .send _ _ sent => .done (if sent = 0 then .err else .count sent)
  | _ => .done .err

/-- `close`, after it has taken the entry out of `SOCKS`. -/
def closeBelow (desc : SockDesc) (sock : Sock) : Next :=
  if sock.ty = sockStream then .call (.tcp desc sock (.close sock.desc) false)
  else if sock.ty = sockDgram then .call (.udp (.close sock.desc))
  else .done .err

/-- What `store` answers. -/
def stored (desc : SockDesc) : Option IpEndp → Answer
  | none => .desc desc
  | some remote => .conn desc remote

/-! ## The machine -/

/-- `PCBS` of `tcp.rs`, `SOCKS`, and the calls in progress. -/
structure Stack where
  tcp : Tcp := {}
  socks : Slots Sock := []
  calls : Slots Call := []
deriving DecidableEq, Repr

/-- What can happen to the stack. -/
inductive Action where
  | arrive (s : TcpSegment)
  | timer
  /-- An application makes a call. -/
  | call (req : Request)
  /-- The call in slot `i` runs its next critical section. -/
  | resume (i : Nat)
  /-- The wait of the call in slot `i` is interrupted. -/
  | interrupt (i : Nat)
deriving DecidableEq, Repr

/-- The call in slot `i` goes on, or it returns and its slot is free. -/
def goOn (calls : Slots Call) (i : Nat) : Next → Slots Call × Option Answer
  | .done answer => (calls.free i, some answer)
  | .call call => (calls.put i call, none)

/-- The next critical section of a call. -/
def resume (env : SockEnv) (st : Stack) : Call → Checked (Tcp × Slots Sock × Next)
  | .open family ty =>
      if ty = sockStream then do
        let out ← Tcp.step env.toEnv st.tcp .socket
        match out.reply with
        | .desc d => return (out.tcp, st.socks, .call (.store (entry family ty d out.tcp) none))
        | _ => return (out.tcp, st.socks, .done .err)
      else match env.udpOpen with
        | none => return (st.tcp, st.socks, .done .err)
        | some d =>
            return (st.tcp, st.socks, .call (.store { family := family, ty := ty, desc := d } none))
  | .store sock remote =>
      let r := sockAlloc st.socks sock
      return (st.tcp, r.2, .done (stored r.1 remote))
  | .clear desc sock =>
      if desc < st.socks.length then return (st.tcp, st.socks.free desc, closeBelow desc sock)
      else .error .index
  | .tcp desc sock ev _ => do
      let out ← Tcp.step env.toEnv st.tcp ev
      return (out.tcp, st.socks, follow desc sock ev out)
  | .udp call => return (st.tcp, st.socks, .done (env.udp call))

/-- One turn, with what a call that ends returns.  Where there is no such call, nothing
happens. -/
def turn (env : SockEnv) (st : Stack) : Action → Checked (Stack × Option Answer)
  | .arrive s => do
      let out ← Tcp.step env.toEnv st.tcp (.arrive s)
      return ({ st with tcp := out.tcp }, none)
  | .timer => do
      let out ← Tcp.step env.toEnv st.tcp .timer
      return ({ st with tcp := out.tcp }, none)
  | .call req => match enter st.socks req with
    | .done answer => return (st, some answer)
    | .call call => return ({ st with calls := (st.calls.insert call).2 }, none)
  | .resume i => match st.calls.peek i with
    | none => return (st, none)
    | some call => do
        let r ← resume env st call
        let next := goOn st.calls i r.2.2
        return ({ tcp := r.1, socks := r.2.1, calls := next.1 }, next.2)
  | .interrupt i => match st.calls.peek i with
    | some (.tcp desc sock ev true) =>
        let next := goOn st.calls i (interrupted desc sock ev)
        return ({ st with calls := next.1 }, next.2)
    | _ => return (st, none)

end Sock

end Microps
