import Microps.Ip.Input
import Microps.Lib.Slots
import Microps.Tcp.Basic

/-!
# UDP

The data and the functions of `udp.rs`.  Each call takes the lock of the table `PCBS`
once, except `recvfrom`, which takes it in every round of its loop; `recvfrom` here is one
round.  What the functions do besides is their `Effect`s, and what they return is their
`Reply`.

As in TCP, a `TaskId` stands for the `Arc<Task>` of a block and tells apart two blocks that
occupy the same slot one after the other.
-/

namespace Microps

/-- An index into the table of control blocks. -/
abbrev UdpDesc := Nat

/-- `UdpQueueEntry`. -/
structure UdpQueueEntry where
  remote : IpEndp
  data : List U8
deriving DecidableEq, Repr

/-- `UdpPcb`. -/
structure UdpPcb where
  localEndp : IpEndp := .any
  queue : List UdpQueueEntry := []
  task : TaskId
deriving DecidableEq, Repr

/-- `UdpPcb::empty`, with the task that `new_task` made for it. -/
def UdpPcb.empty (task : TaskId) : UdpPcb := { task := task }

/-- The state of the UDP module: the table `PCBS`, and the next task that `new_task` will
make. -/
structure Udp where
  pcbs : Slots UdpPcb := []
  nextTask : TaskId := 0
deriving DecidableEq, Repr

namespace Udp

/-- `UDP_HDR_SIZE`. -/
def udpHdrSize : Nat := 8
/-- `IP_PROTOCOL_UDP`. -/
def protocolUdp : U8 := 17
/-- `PCB_SIZE_MAX`. -/
def pcbSizeMax : Nat := 16
/-- `DYNAMIC_PORT_MIN`. -/
def dynamicPortMin : Nat := 49152
/-- `DYNAMIC_PORT_MAX`. -/
def dynamicPortMax : Nat := 65535

/-! ## Datagrams -/

/-- `build_pseudo_header`. -/
def buildPseudoHeader (src dst : IpAddr) (udpLen : U16) : List U8 :=
  src.octets ++ dst.octets ++ [0, protocolUdp] ++ beBytes16 udpLen

/-- `UdpHdr`: a slice long enough to hold a header. -/
structure UdpHdr where
  data : List U8
  /-- `UdpHdr::new` refuses shorter slices. -/
  long : udpHdrSize ≤ data.length

namespace UdpHdr

/-- `UdpHdr::new`. -/
def new (data : List U8) : Option UdpHdr :=
  if h : udpHdrSize ≤ data.length then some ⟨data, h⟩ else none

/-- `self.data[i]` for an offset in the header. -/
def byte (h : UdpHdr) (i : Fin 8) : U8 :=
  h.data.get ⟨i, Nat.lt_of_lt_of_le i.isLt h.long⟩

/-- `src()`. -/
def src (h : UdpHdr) : U16 := beU16 (h.byte 0) (h.byte 1)

/-- `dst()`. -/
def dst (h : UdpHdr) : U16 := beU16 (h.byte 2) (h.byte 3)

/-- `len()`. -/
def len (h : UdpHdr) : U16 := beU16 (h.byte 4) (h.byte 5)

/-- `sum()`. -/
def sum (h : UdpHdr) : U16 := beU16 (h.byte 6) (h.byte 7)

end UdpHdr

/-- The reasons for which `udp::input` drops a datagram, with what it logs. -/
inductive Drop where
  /-- `"too short, len={}"`. -/
  | tooShort (len : Nat)
  /-- `"length mismatch, header={}, actual={}"`. -/
  | lengthMismatch (header : U16) (actual : Nat)
  /-- `"checksum error, sum=0x{:04x}"`. -/
  | checksum (sum : U16)
deriving DecidableEq, Repr

/-- A datagram between two endpoints. -/
structure Datagram where
  src : IpEndp
  dst : IpEndp
  payload : List U8
deriving DecidableEq, Repr

/-- The checksum over the pseudo header and the datagram. -/
def datagramCksum (e : Endian) (src dst : IpAddr) (data : List U8) : Checked U16 := do
  let pseudo ← cksum16 e (buildPseudoHeader src dst (BitVec.ofNat 16 data.length)) 0
  cksum16 e data ((~~~ pseudo).setWidth 32)

/-- What `udp::input` compares with zero: a zero checksum is not checked. -/
def checkedSum (e : Endian) (src dst : IpAddr) (udp : UdpHdr) : Checked U16 :=
  if udp.sum ≠ 0 then datagramCksum e src dst udp.data else return 0

/-- The checks of `udp::input`, in their order: the datagram in a packet from `src` to
`dst`, or the reason why it is dropped. -/
def parse (e : Endian) (src dst : IpAddr) (data : List U8) : Checked (Except Drop Datagram) :=
  match UdpHdr.new data with
  | none => return .error (.tooShort data.length)
  | some udp => do
      if udp.len.toNat ≠ data.length then
        return .error (.lengthMismatch udp.len data.length)
      let sum ← checkedSum e src dst udp
      if sum ≠ 0 then return .error (.checksum udp.sum)
      let payload ← slice data udpHdrSize data.length
      return .ok { src := ⟨src, udp.src⟩, dst := ⟨dst, udp.dst⟩, payload := payload }

/-- A message on its way to `ip::output`. -/
structure Message where
  bytes : List U8
  src : IpAddr
  dst : IpAddr
deriving DecidableEq, Repr

/-- `output`, up to its call of `ip::output`; `none` when the datagram is too long.  The
checksum is computed over the message with a zero checksum field, and a zero checksum is sent
as `0xffff`. -/
def output (e : Endian) (src dst : IpEndp) (data : List U8) : Checked (Option Message) :=
  let total := udpHdrSize + data.length
  if 65535 < total then return none
  else do
    let head := beBytes16 src.port ++ beBytes16 dst.port ++ beBytes16 (BitVec.ofNat 16 total)
    let sum ← datagramCksum e src.addr dst.addr (head ++ [0, 0] ++ data)
    let sum := if sum = 0 then 0xffff else sum
    return some { bytes := head ++ neBytes16 e sum ++ data, src := src.addr, dst := dst.addr }

/-! ## The table -/

/-- `pcb_get_mut`, read-only. -/
def get (udp : Udp) (desc : UdpDesc) : Option UdpPcb := udp.pcbs.peek desc

/-- Write a block back to its slot. -/
def set (udp : Udp) (desc : UdpDesc) (pcb : UdpPcb) : Udp :=
  { udp with pcbs := udp.pcbs.put desc pcb }

/-- `pcb_alloc`. -/
def pcbAlloc (udp : Udp) : Option (UdpDesc × Udp) :=
  (udp.pcbs.alloc pcbSizeMax (.empty udp.nextTask)).map fun r ↦
    (r.1, { pcbs := r.2, nextTask := udp.nextTask + 1 })

/-- The test of `pcb_select`. -/
def selects (pcb : UdpPcb) (key : IpEndp) : Bool :=
  pcb.localEndp.port = key.port ∧
    (pcb.localEndp.addr = key.addr ∨ pcb.localEndp.addr = .any ∨ key.addr = .any)

/-- `pcb_select`: the first slot whose block matches. -/
def pcbSelect (pcbs : Slots UdpPcb) (key : IpEndp) : Option UdpDesc :=
  pcbs.findIdx? fun slot ↦ slot.any fun pcb ↦ selects pcb key

/-! ## The calls -/

/-- What a call does besides changing the table. -/
inductive Effect where
  /-- `notify` is called on a task. -/
  | notify (task : TaskId)
  /-- `icmp::output` is called. -/
  | icmp (message : IcmpMessage)
deriving DecidableEq, Repr

/-- What a call returns or decides. -/
inductive Reply where
  /-- Nothing: it was not a call. -/
  | none
  /-- `Ok(())`. -/
  | ok
  /-- An error. -/
  | err
  /-- `open` returns a slot. -/
  | desc (desc : UdpDesc)
  /-- `recvfrom` returns the sender and the octets it copied out. -/
  | datagram (remote : IpEndp) (data : List U8)
  /-- The round of `recvfrom` takes a snapshot of the task and waits on it. -/
  | wait (task : TaskId)
  /-- `sendto` returns what `ip::output` returns for the message. -/
  | output (message : Message)
deriving DecidableEq, Repr

/-- What a call leaves behind. -/
structure Outcome where
  udp : Udp
  reply : Reply := .none
  effects : List Effect := []
deriving DecidableEq, Repr

/-- `open`. -/
def openCall (udp : Udp) : Outcome :=
  match udp.pcbAlloc with
  | none => { udp := udp, reply := .err }
  | some (desc, udp) => { udp := udp, reply := .desc desc }

/-- `close`, with `pcb_release`. -/
def closeCall (udp : Udp) (desc : UdpDesc) : Outcome :=
  match udp.get desc with
  | none => { udp := udp, reply := .err }
  | some pcb => { udp := { udp with pcbs := udp.pcbs.free desc }, reply := .ok,
                  effects := [.notify pcb.task] }

/-- `bind`. -/
def bindCall (udp : Udp) (desc : UdpDesc) (localEndp : IpEndp) : Outcome :=
  match udp.get desc with
  | none => { udp := udp, reply := .err }
  | some pcb =>
      if (pcbSelect udp.pcbs localEndp).isSome then { udp := udp, reply := .err }
      else { udp := udp.set desc { pcb with localEndp := localEndp }, reply := .ok }

/-- `input`, on a packet with the header `hdr` that arrived at `iface`. -/
def input (e : Endian) (udp : Udp) (hdr : Ip.IpHdr) (iface : IpIface) (data : List U8) :
    Checked Outcome := do
  match ← parse e hdr.src hdr.dst data with
  | .error _ => return { udp := udp }
  | .ok datagram => match pcbSelect udp.pcbs datagram.dst with
    | none =>
        -- Only send ICMP Port Unreachable for unicast destinations.
        if hdr.dst = iface.unicast then
          let quoted ← slice data 0 (min data.length 8)
          let message ← icmpOutput e icmpTypeDestUnreach icmpCodePortUnreach 0
            (hdr.asBytes ++ quoted) iface.unicast hdr.src
          return { udp := udp, effects := [.icmp message] }
        else return { udp := udp }
    | some desc => match udp.get desc with
      | none => return { udp := udp }
      | some pcb =>
          return { udp := udp.set desc { pcb with
                     queue := pcb.queue ++ [⟨datagram.src, datagram.payload⟩] },
                   effects := [.notify pcb.task] }

/-- One round of the loop of `recvfrom`, into a buffer of `len` octets. -/
def recvfrom (udp : Udp) (desc : UdpDesc) (len : Nat) : Outcome :=
  match udp.get desc with
  | none => { udp := udp, reply := .err }
  | some pcb => match pcb.queue with
    | [] => { udp := udp, reply := .wait pcb.task }
    | entry :: queue =>
        { udp := udp.set desc { pcb with queue := queue },
          reply := .datagram entry.remote (entry.data.take (min len entry.data.length)) }

/-- `assign_dynamic_port`, for the block `pcb` in slot `desc`: the port, and the table with
the port set. -/
def assignDynamicPort (udp : Udp) (desc : UdpDesc) (pcb : UdpPcb) : Option (U16 × Udp) :=
  let ports := (List.range' dynamicPortMin (dynamicPortMax + 1 - dynamicPortMin)).map
    (BitVec.ofNat 16)
  (ports.find? fun port ↦ (pcbSelect udp.pcbs ⟨pcb.localEndp.addr, port⟩).isNone).map fun port ↦
    (port, udp.set desc { pcb with localEndp := ⟨pcb.localEndp.addr, port⟩ })

/-- The first section of `sendto`: the local port, and the table with the port set if it was
not. -/
def sendtoPort (udp : Udp) (desc : UdpDesc) (pcb : UdpPcb) : Option (U16 × Udp) :=
  if pcb.localEndp.port = 0 then assignDynamicPort udp desc pcb
  else some (pcb.localEndp.port, udp)

/-- The source address of `sendto`: that of the block, or that of the interface to the peer. -/
def sourceAddr (routes : List IpRoute) (pcb : UdpPcb) (remote : IpEndp) : Option IpAddr :=
  if pcb.localEndp.addr = .any then (routeLookup routes remote.addr).map (·.iface.unicast)
  else some pcb.localEndp.addr

/-- `sendto`. -/
def sendto (e : Endian) (routes : List IpRoute) (udp : Udp) (desc : UdpDesc) (data : List U8)
    (remote : IpEndp) : Checked Outcome :=
  match udp.get desc with
  | none => return { udp := udp, reply := .err }
  | some pcb => match sendtoPort udp desc pcb with
    | none => return { udp := udp, reply := .err }
    | some (port, udp) =>
        match sourceAddr routes pcb remote with
        | none => return { udp := udp, reply := .err }
        | some addr => do
            match ← output e ⟨addr, port⟩ remote data with
            | none => return { udp := udp, reply := .err }
            | some message => return { udp := udp, reply := .output message }

end Udp

end Microps
