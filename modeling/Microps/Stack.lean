import Microps.Icmp.Input
import Microps.Ip.Output
import Microps.Net
import Microps.Tcp.Encode
import Microps.Tcp.Pcb
import Microps.Udp.Encode

/-!
# From one stack to another

What a transport protocol hands to `ip::output` is packed by `ip::build_packet`, taken by the
driver of a device, and handed by the driver at the other end to the stack there.  The layers
are proved to undo each other one by one; here they are put together.
-/

namespace Microps.Stack

/-- `IP_PROTOCOL_ICMP`. -/
def protocolIcmp : U8 := 1

/-- `IP_PROTOCOL_TCP`. -/
def protocolTcp : U8 := 6

/-- The protocols that `net::init` registers. -/
def protocols : List U8 := [protocolIcmp, Udp.protocolUdp, protocolTcp]

/-- What a protocol gets out of a packet that it accepts. -/
inductive Arrival where
  | icmp (src dst : IpAddr) (message : Icmp)
  | udp (datagram : Udp.Datagram)
  | tcp (segment : TcpSegment)
deriving DecidableEq, Repr

/-- The checks of the handler of a protocol. -/
def handle (e : Endian) (hdr : Ip.IpHdr) (iface : IpIface) (protocol : U8) (payload : List U8) :
    Checked (Option Arrival) :=
  if protocol = protocolIcmp then do
    match ← icmpParse e payload with
    | .ok message => return some (.icmp hdr.src hdr.dst message)
    | .error _ => return none
  else if protocol = Udp.protocolUdp then do
    match ← Udp.parse e hdr.src hdr.dst payload with
    | .ok datagram => return some (.udp datagram)
    | .error _ => return none
  else do
    match ← Tcp.input e hdr.src hdr.dst iface payload with
    | .arrives segment => return some (.tcp segment)
    | .drop _ => return none

/-- `ip::input` and the handler that it calls. -/
def ipInput (e : Endian) (data : List U8) (dev : Device) : Checked (Option Arrival) := do
  match ← Ip.input e protocols dev.iface data with
  | .deliver protocol payload => match Ip.IpHdr.new data, dev.iface with
    | some hdr, some iface => handle e hdr iface protocol payload
    | _, _ => return none
  | _ => return none

/-- The packet that `tx` is given to output gets to `rx`, whatever else is queued there, and the
stack of `rx` gets `arrival` out of it. -/
def Delivers (e : Endian) (tx rx : Device) (hwaddr packet : List U8) (arrival : Arrival) : Prop :=
  ∃ sent, tx.output etherTypeIp packet hwaddr = .ok sent ∧ ∃ data,
    (∀ queue, Net.softirqHandler (Net.arrive queue rx sent) =
      Net.softirqHandler queue ++ [(.ip, ⟨etherTypeIp, data, rx⟩)]) ∧
    ipInput e data rx = .ok (some arrival)

/-- From `src` at the device `tx` to `dst`, the address of the interface at `rx`. -/
structure Path (tx rx : Device) (hwaddr : List U8) (iface : IpIface) (src dst : IpAddr) :
    Prop where
  up : tx.up = true
  /-- A frame is sent to the hardware address of `rx`. -/
  etherTap : tx.ops = .etherTap → tx.mtu.toNat = etherPayloadSizeMax ∧
    hwaddr.take etherAddrLen = rx.addr.octets
  /-- A loopback device is at both ends. -/
  loopback : tx.ops = .loopback → rx = tx
  iface_eq : rx.iface = some iface
  dst_eq : dst = iface.unicast
  /-- Neither address is a broadcast address. -/
  unicast : ¬ (src = .broadcast ∨ src = iface.broadcast ∨ dst = .broadcast ∨ dst = iface.broadcast)

section

variable {e : Endian} {tx rx : Device} {hwaddr : List U8} {iface : IpIface} {src dst : IpAddr}

/-- The device carries a packet up to its MTU, with something behind it perhaps. -/
theorem Path.carries (h : Path tx rx hwaddr iface src dst) {packet : List U8}
    (hmtu : packet.length ≤ tx.mtu.toNat) :
    ∃ sent pad, tx.output etherTypeIp packet hwaddr = .ok sent ∧
      ∀ queue, Net.softirqHandler (Net.arrive queue rx sent) =
        Net.softirqHandler queue ++ [(.ip, ⟨etherTypeIp, packet ++ pad, rx⟩)] := by
  have hfits : ¬ tx.mtu < BitVec.ofNat 16 packet.length := by
    have := tx.mtu.isLt
    rw [BitVec.lt_def, BitVec.toNat_ofNat, Nat.mod_eq_of_lt (by omega)]
    omega
  unfold Device.output
  rw [if_neg (by simp [h.up]), if_neg hfits]
  cases hops : tx.ops with
  | etherTap =>
      obtain ⟨hmax, hdst⟩ := h.etherTap hops
      obtain ⟨frame, pad, htransmit, hinput⟩ :=
        EtherTap.input_transmit tx etherTypeIp hdst (hmax ▸ hmtu)
      refine ⟨.frame frame, pad, by simp [htransmit, Except.map], fun queue ↦ ?_⟩
      simp only [Net.arrive, hinput]
      exact Net.softirqHandler_inputHandler_ip queue _ rx
  | loopback =>
      refine ⟨.input etherTypeIp packet, [], rfl, fun queue ↦ ?_⟩
      rw [List.append_nil]
      exact Net.softirqHandler_inputHandler_ip queue packet rx

/-- What the handler of a protocol accepts is delivered. -/
theorem Path.delivers (h : Path tx rx hwaddr iface src dst) {protocol : U8}
    (hprotocol : protocol ∈ protocols) {payload : List U8} (id : U16)
    (hmtu : Ip.hdrSizeMin + payload.length ≤ tx.mtu.toNat) {arrival : Arrival}
    (harrival : ∀ hdr : Ip.IpHdr, hdr.src = src → hdr.dst = dst →
      handle e hdr iface protocol payload = .ok (some arrival)) :
    ∃ packet, Ip.buildPacket e protocol payload src dst id = .ok (some packet) ∧
      Delivers e tx rx hwaddr packet arrival := by
  have hlen : Ip.hdrSizeMin + payload.length ≤ 65535 := by
    have := tx.mtu.isLt
    omega
  obtain ⟨packet, hpacket, hlength, hinput⟩ :=
    Ip.input_buildPacket e hprotocol h.dst_eq src id hlen
  obtain ⟨sent, pad, hsent, hqueue⟩ := h.carries (hlength ▸ hmtu)
  obtain ⟨hdr, hnew, hsrc, hdst, hdeliver⟩ := hinput pad
  refine ⟨packet, hpacket, sent, hsent, packet ++ pad, hqueue, ?_⟩
  simp only [ipInput, h.iface_eq, hdeliver, hnew, bind, Except.bind]
  exact harrival hdr hsrc hdst

/-! ## The protocols -/

theorem Path.udp (e : Endian) (h : Path tx rx hwaddr iface src dst) (id sport dport : U16)
    {data : List U8} (hmtu : Ip.hdrSizeMin + (Udp.udpHdrSize + data.length) ≤ tx.mtu.toNat) :
    ∃ m packet, Udp.output e ⟨src, sport⟩ ⟨dst, dport⟩ data = .ok (some m) ∧
      Ip.buildPacket e Udp.protocolUdp m.bytes m.src m.dst id = .ok (some packet) ∧
      Delivers e tx rx hwaddr packet (.udp ⟨⟨src, sport⟩, ⟨dst, dport⟩, data⟩) := by
  have hlen : Udp.udpHdrSize + data.length ≤ 65535 := by
    have := tx.mtu.isLt
    omega
  obtain ⟨m, hm, hsrc, hdst, hlength, hparse⟩ :=
    Udp.parse_output e ⟨src, sport⟩ ⟨dst, dport⟩ hlen
  have harrival : ∀ hdr : Ip.IpHdr, hdr.src = src → hdr.dst = dst →
      handle e hdr iface Udp.protocolUdp m.bytes =
        .ok (some (.udp ⟨⟨src, sport⟩, ⟨dst, dport⟩, data⟩)) := by
    intro hdr hsrc hdst
    rw [handle, if_neg (by decide), if_pos rfl, hsrc, hdst, hparse]
    rfl
  obtain ⟨packet, hpacket, hdelivers⟩ := h.delivers (by decide) id (hlength ▸ hmtu) harrival
  exact ⟨m, packet, hm, by rw [hsrc, hdst]; exact hpacket, hdelivers⟩

theorem Path.tcp (e : Endian) (h : Path tx rx hwaddr iface src dst) (id : U16) {s : TcpSegment}
    (hsrc : s.src.addr = src) (hdst : s.dst.addr = dst)
    (hmtu : Ip.hdrSizeMin + (tcpHdrSize + s.data.length) ≤ tx.mtu.toNat) :
    ∃ bytes packet, Tcp.encode e s = .ok bytes ∧
      Ip.buildPacket e protocolTcp bytes src dst id = .ok (some packet) ∧
      Delivers e tx rx hwaddr packet (.tcp s) := by
  have hlen : tcpHdrSize + s.data.length ≤ 65535 := by
    have := tx.mtu.isLt
    omega
  subst hsrc hdst
  obtain ⟨bytes, hbytes, hlength, hinput⟩ := Tcp.input_encode e hlen h.unicast
  have harrival : ∀ hdr : Ip.IpHdr, hdr.src = s.src.addr → hdr.dst = s.dst.addr →
      handle e hdr iface protocolTcp bytes = .ok (some (.tcp s)) := by
    intro hdr hsrc hdst
    rw [handle, if_neg (by decide), if_neg (by decide), hsrc, hdst, hinput]
    rfl
  obtain ⟨packet, hpacket, hdelivers⟩ := h.delivers (by decide) id (hlength ▸ hmtu) harrival
  exact ⟨bytes, packet, hbytes, hpacket, hdelivers⟩

theorem Path.icmp (e : Endian) (h : Path tx rx hwaddr iface src dst) (id : U16) {icmp : Icmp}
    (hmtu : Ip.hdrSizeMin + (icmpHdrSize + icmp.payload.length) ≤ tx.mtu.toNat) :
    ∃ m packet, icmpOutput e icmp.ty icmp.code icmp.values icmp.payload src dst = .ok m ∧
      Ip.buildPacket e protocolIcmp m.bytes m.src m.dst id = .ok (some packet) ∧
      Delivers e tx rx hwaddr packet (.icmp src dst icmp) := by
  have hlen : icmpHdrSize + icmp.payload.length ≤ 65535 := by
    have := tx.mtu.isLt
    omega
  obtain ⟨m, hm, hsrc, hdst, hlength, hparse⟩ := icmpParse_output e icmp src dst hlen
  have harrival : ∀ hdr : Ip.IpHdr, hdr.src = src → hdr.dst = dst →
      handle e hdr iface protocolIcmp m.bytes = .ok (some (.icmp src dst icmp)) := by
    intro hdr hsrc hdst
    rw [handle, if_pos rfl, hparse, ← hsrc, ← hdst]
    rfl
  obtain ⟨packet, hpacket, hdelivers⟩ := h.delivers (by decide) id (hlength ▸ hmtu) harrival
  exact ⟨m, packet, hm, by rw [hsrc, hdst]; exact hpacket, hdelivers⟩

/-- The length of a segment that fits in a packet. -/
theorem toNat_info_len {s : TcpSegment} (h : s.data.length ≤ 65535) :
    s.info.len.toNat = s.data.length + (if flagIsset s.flg flgSyn then 1 else 0) +
      (if flagIsset s.flg flgFin then 1 else 0) := by
  simp only [TcpSegment.info, BitVec.toNat_add, BitVec.toNat_ofNat]
  split <;> split <;> simp <;> omega

/-- **What one stack encodes, the other decodes**: a datagram, segment or message that fits the
MTU of the device is accepted at the other end of a path, and all that is in it is recovered. -/
theorem round_trip (e : Endian) (h : Path tx rx hwaddr iface src dst) (id : U16) :
    (∀ sport dport data,
      Ip.hdrSizeMin + (Udp.udpHdrSize + data.length) ≤ tx.mtu.toNat →
      ∃ m packet, Udp.output e ⟨src, sport⟩ ⟨dst, dport⟩ data = .ok (some m) ∧
        Ip.buildPacket e Udp.protocolUdp m.bytes m.src m.dst id = .ok (some packet) ∧
        Delivers e tx rx hwaddr packet (.udp ⟨⟨src, sport⟩, ⟨dst, dport⟩, data⟩)) ∧
    (∀ sport dport seq ack flg wnd data,
      Ip.hdrSizeMin + (tcpHdrSize + data.length) ≤ tx.mtu.toNat →
      ∃ s bytes packet, s = Tcp.outputSegment seq ack flg wnd data ⟨src, sport⟩ ⟨dst, dport⟩ ∧
        Tcp.encode e s = .ok bytes ∧
        Ip.buildPacket e protocolTcp bytes src dst id = .ok (some packet) ∧
        Delivers e tx rx hwaddr packet (.tcp ⟨⟨src, sport⟩, ⟨dst, dport⟩, seq, ack, flg, wnd, data⟩) ∧
        s.info.len.toNat = data.length + (if flagIsset flg flgSyn then 1 else 0) +
          (if flagIsset flg flgFin then 1 else 0)) ∧
    ∀ icmp : Icmp, Ip.hdrSizeMin + (icmpHdrSize + icmp.payload.length) ≤ tx.mtu.toNat →
      ∃ m packet, icmpOutput e icmp.ty icmp.code icmp.values icmp.payload src dst = .ok m ∧
        Ip.buildPacket e protocolIcmp m.bytes m.src m.dst id = .ok (some packet) ∧
        Delivers e tx rx hwaddr packet (.icmp src dst icmp) := by
  refine ⟨?_, ?_, ?_⟩
  · intro sport dport data hmtu
    exact h.udp e id sport dport hmtu
  · intro sport dport seq ack flg wnd data hmtu
    obtain ⟨bytes, packet, hbytes, hpacket, hdelivers⟩ := h.tcp e id (s :=
      Tcp.outputSegment seq ack flg wnd data ⟨src, sport⟩ ⟨dst, dport⟩) rfl rfl hmtu
    have hlen : data.length ≤ 65535 := by
      have := tx.mtu.isLt
      omega
    exact ⟨_, bytes, packet, rfl, hbytes, hpacket, hdelivers, toNat_info_len hlen⟩
  · intro icmp hmtu
    exact h.icmp e id hmtu

end

/-- A device of the fixed runs: `192.0.2.n` at `00:00:00:00:00:n`. -/
def hostDev (n : U8) : Device where
  up := true
  mtu := 1500
  addr := ⟨0, 0, 0, 0, 0, n⟩
  broadcast := .broadcast
  iface := some ⟨⟨192, 0, 2, n⟩, ⟨255, 255, 255, 0⟩, ⟨192, 0, 2, 255⟩, 1500⟩

/-- A segment with three octets gets from one host to the other. -/
theorem round_trip_segment :
    ∃ s bytes packet, s = Tcp.outputSegment 100 7 (flgSyn ||| flgFin) 1000 [1, 2, 3]
        ⟨⟨192, 0, 2, 1⟩, 9⟩ ⟨⟨192, 0, 2, 2⟩, 7⟩ ∧
      Tcp.encode .little s = .ok bytes ∧
      Ip.buildPacket .little protocolTcp bytes ⟨192, 0, 2, 1⟩ ⟨192, 0, 2, 2⟩ 0 =
        .ok (some packet) ∧
      Delivers .little (hostDev 1) (hostDev 2) [0, 0, 0, 0, 0, 2] packet (.tcp s) ∧
      s.info.len.toNat = 5 := by
  have hpath : Path (hostDev 1) (hostDev 2) [0, 0, 0, 0, 0, 2]
      ⟨⟨192, 0, 2, 2⟩, ⟨255, 255, 255, 0⟩, ⟨192, 0, 2, 255⟩, 1500⟩ ⟨192, 0, 2, 1⟩ ⟨192, 0, 2, 2⟩ := by
    refine ⟨rfl, fun _ ↦ ⟨rfl, rfl⟩, fun hops ↦ absurd hops (by decide), rfl, rfl, by decide⟩
  obtain ⟨s, bytes, packet, rfl, hbytes, hpacket, hdelivers, hlen⟩ :=
    (round_trip .little hpath 0).2.1 9 7 100 7 (flgSyn ||| flgFin) 1000 [1, 2, 3] (by decide)
  exact ⟨_, bytes, packet, rfl, hbytes, hpacket, hdelivers, hlen⟩

end Microps.Stack
