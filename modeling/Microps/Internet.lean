import Microps.Icmp.Unreach
import Microps.Ip.Transmit
import Microps.Lib.Network

/-!
# Hosts on an internet

Any number of hosts exchange IP packets over a network that may lose, duplicate, delay and reorder
them, and put something behind them.  Any host may hear a packet at any of its interfaces: what is
between the hosts is left open.

A host has its table of UDP blocks and its routes.  It answers what it hears as `ip::input`,
`icmp::input` and `udp::input` do.  What TCP sends is left open as well: a host may hand anything
to `ip::output` as a segment.
-/

namespace Microps.Internet

/-- What a host is configured with. -/
structure Config where
  ifaces : List IpIface
  routes : List IpRoute
  /-- A route leads through an interface that is registered. -/
  iface_mem : ∀ r ∈ routes, r.iface ∈ ifaces

/-- What may happen next at a host; `id` is what `random32` returns where a packet is sent. -/
inductive Label where
  /-- A critical section of a call of the UDP module. -/
  | call (ev : Udp.Event) (id : U16)
  /-- TCP hands a segment to `ip::output`. -/
  | segment (data : List U8) (src dst : IpAddr) (id : U16)
  /-- A packet is heard, with what the link has put behind it. -/
  | hear (iface : IpIface) (packet pad : List U8) (id : U16)

/-- `ip::output`, up to the device: the packet, unless it is refused. -/
def transmit (e : Endian) (cfg : Config) (protocol : U8) (data : List U8) (src dst : IpAddr)
    (id : U16) : Checked (List (List U8)) := do
  match ← Ip.prepare e cfg.routes protocol data src dst id with
  | .error _ => return []
  | .ok p => return [p.packet]

/-- The table after `ip::input`. -/
def receive (e : Endian) (udp : Udp) (iface : IpIface) (data : List U8) : Checked Udp := do
  match ← Ip.input e Stack.protocols (some iface) data with
  | .deliver protocol payload => match Ip.IpHdr.new data with
    | some hdr =>
        if protocol = Udp.protocolUdp then
          let out ← Udp.input e udp hdr iface payload
          return out.udp
        else return udp
    | none => return udp
  | _ => return udp

/-- `ip::input`: the table after it, and the packets with which it answers. -/
def hear (e : Endian) (cfg : Config) (udp : Udp) (iface : IpIface) (data : List U8) (id : U16) :
    Checked (Udp × List (List U8)) := do
  let messages ← Stack.answers e udp (some iface) data
  let udp ← receive e udp iface data
  let sent ← messages.mapM fun m ↦ transmit e cfg Stack.protocolIcmp m.bytes m.src m.dst id
  return (udp, sent.flatten)

/-- Run one critical section: the table after it, and the packets that are sent. -/
def act (e : Endian) (cfg : Config) (udp : Udp) : Label → Checked (Udp × List (List U8))
  | .call (.arrive _ _ _) _ => return (udp, [])
  | .call ev id => do
      let out ← Udp.step ⟨e, cfg.routes⟩ udp ev
      match out.reply with
      | .output m =>
          let sent ← transmit e cfg Udp.protocolUdp m.bytes m.src m.dst id
          return (out.udp, sent)
      | _ => return (out.udp, [])
  | .segment data src dst id => do
      let sent ← transmit e cfg Stack.protocolTcp data src dst id
      return (udp, sent)
  | .hear iface packet pad id =>
      if iface ∈ cfg.ifaces then hear e cfg udp iface (packet ++ pad) id else return (udp, [])

/-- The hosts as the parties of a network of packets. -/
def internet {ι : Type} (e : Endian) (cfg : ι → Config) :
    Network.Protocol ι Udp Label (List U8) Panic where
  hears
    | .hear _ packet _ _ => some packet
    | _ => none
  act i := act e (cfg i)

/-- No block is open. -/
def Started {ι : Type} (party : ι → Udp) : Prop := ∀ i, party i = {}

/-! ## Packets that are sent -/

/-- The packet that `ip::build_packet` has made of `data`. -/
def Built (e : Endian) (protocol : U8) (data : List U8) (src dst : IpAddr) (packet : List U8) :
    Prop :=
  ∃ id, Ip.buildPacket e protocol data src dst id = .ok (some packet)

section

variable {e : Endian} {cfg : Config} {udp : Udp} {iface : IpIface} {protocol : U8}
  {data packet pad : List U8} {src dst : IpAddr} {id : U16}

/-- The source address that `ip::output` lets through. -/
theorem prepare_source {routes : List IpRoute} {p : Ip.Prepared}
    (h : Ip.prepare e routes protocol data src dst id = .ok (.ok p)) :
    ∃ route, routeLookup routes dst = some route ∧ (src = .any ∨ src = route.iface.unicast) := by
  unfold Ip.prepare at h
  split at h
  · exact absurd h (by simp [pure, Except.pure])
  split at h
  · exact absurd h (by simp [pure, Except.pure])
  next route hroute =>
  refine ⟨route, hroute, ?_⟩
  by_cases hany : src = .any
  · exact .inl hany
  · by_contra hno
    have hne : src ≠ route.iface.unicast := fun heq ↦ hno (.inr heq)
    simp [Ip.sourceAddr, hany, hne, pure, Except.pure] at h

/-- What is sent comes from the interface to its destination. -/
theorem transmit_spec {sent : List (List U8)}
    (h : transmit e cfg protocol data src dst id = .ok sent) (hmem : packet ∈ sent) :
    ∃ route ∈ cfg.routes, routeLookup cfg.routes dst = some route ∧
      (src = .any ∨ src = route.iface.unicast) ∧
      Built e protocol data route.iface.unicast dst packet := by
  obtain ⟨r, hr, hrest⟩ := Machine.exists_of_bind_ok h
  cases r with
  | error reason =>
      obtain rfl := Except.ok.inj hrest
      exact absurd hmem (by simp)
  | ok p =>
      obtain rfl := Except.ok.inj hrest
      obtain rfl := List.mem_singleton.mp hmem
      obtain ⟨r', hr', hrouted⟩ := Ip.prepare_spec e cfg.routes protocol data src dst id
      obtain rfl := Except.ok.inj (hr'.symm.trans hr)
      obtain ⟨route, hrouted⟩ := hrouted p rfl
      obtain ⟨route', hroute', hsrc⟩ := prepare_source hr
      obtain rfl := Option.some.inj (hrouted.lookup.symm.trans hroute')
      exact ⟨route, Ip.mem_of_routeLookup hroute', hroute', hsrc, id, hrouted.built⟩

theorem Built.length_le (h : Built e protocol data src dst packet) :
    Ip.hdrSizeMin + data.length ≤ 65535 := by
  obtain ⟨id, h⟩ := h
  unfold Ip.buildPacket at h
  by_contra hlong
  simp [Nat.lt_of_not_le hlong, pure, Except.pure] at h

/-- The header of a packet, whatever the link has put behind it. -/
theorem Built.header (h : Built e protocol data src dst packet) (pad : List U8) :
    ∃ hdr, Ip.IpHdr.new (packet ++ pad) = some hdr ∧ hdr.src = src ∧ hdr.dst = dst ∧
      hdr.protocol = protocol ∧ hdr.hlen ≤ hdr.total.toNat ∧ Stack.payloadOf hdr = data := by
  have hlen := h.length_le
  obtain ⟨id, h⟩ := h
  unfold Ip.buildPacket at h
  simp only [if_neg (Nat.not_lt.mpr hlen)] at h
  obtain ⟨sum, hsum, hrest⟩ := Machine.exists_of_bind_ok h
  obtain rfl := Option.some.inj (Except.ok.inj hrest)
  have hzero := cksum16_filled (by rw [Ip.length_buildHead])
    (by simp [Ip.length_buildHead, IpAddr.octets]) (by decide) hsum (.inl rfl)
  have hdst : dst = (⟨dst, .any, .any, 0⟩ : IpIface).unicast := rfl
  obtain ⟨hdr, haccepted, hsrc, hdst', hprotocol, hhlen, htotal⟩ :=
    Ip.accepted_of_filled pad hlen hdst hzero
  refine ⟨hdr, haccepted.hdr_new, hsrc, hdst', hprotocol, by rw [hhlen, htotal]; omega, ?_⟩
  have hpayload : ∀ head : List U8, head.length = Ip.hdrSizeMin →
      ((head ++ data ++ pad).take (Ip.hdrSizeMin + data.length)).drop Ip.hdrSizeMin = data := by
    intro head htwenty
    rw [List.take_left' (by rw [List.length_append, htwenty]), List.drop_left' htwenty]
  rw [Stack.payloadOf, Ip.IpHdr.data_of_new haccepted.hdr_new, hhlen, htotal]
  exact hpayload _ (by simp [Ip.length_buildHead, IpAddr.octets, Ip.hdrSizeMin])

/-- A packet of a registered protocol is handed to it, or dropped. -/
theorem Built.input (h : Built e protocol data src dst packet)
    (hprotocol : protocol ∈ Stack.protocols) (iface : IpIface) (pad : List U8) :
    (∃ reason, Ip.input e Stack.protocols (some iface) (packet ++ pad) = .ok (.drop reason)) ∨
    ∃ hdr, Ip.IpHdr.new (packet ++ pad) = some hdr ∧ hdr.src = src ∧ hdr.dst = dst ∧
      Ip.input e Stack.protocols (some iface) (packet ++ pad) = .ok (.deliver protocol data) := by
  obtain ⟨hdr, hnew, hsrc, hdst, rfl, hle, rfl⟩ := h.header pad
  by_cases hacc : ∃ hdr' ifc, Ip.Accepted e (some iface) (packet ++ pad) hdr' ifc
  · obtain ⟨hdr', ifc, hacc⟩ := hacc
    obtain rfl := Option.some.inj (hacc.hdr_new.symm.trans hnew)
    exact .inr ⟨hdr', hnew, hsrc, hdst, Stack.input_registered hacc hle hprotocol⟩
  · exact .inl (Ip.input_rejected Stack.protocols fun hdr ifc hac ↦ hacc ⟨hdr, ifc, hac⟩)

end

/-! ## Datagrams -/

/-- The packet that is heard as `pad` behind it holds the datagram `g`. -/
def Holds (e : Endian) (packet : List U8) (g : Udp.Datagram) : Prop :=
  ∃ iface pad hdr payload, Ip.IpHdr.new (packet ++ pad) = some hdr ∧
    Ip.input e Stack.protocols (some iface) (packet ++ pad) =
      .ok (.deliver Udp.protocolUdp payload) ∧
    Udp.parse e hdr.src hdr.dst payload = .ok (.ok g)

/-- What is queued on a block was in a packet that has been sent. -/
def Heard (e : Endian) (net : List (List U8)) (udp : Udp) : Prop :=
  ∀ d p, udp.get d = some p → ∀ entry ∈ p.queue, ∃ packet ∈ net, ∃ g : Udp.Datagram,
    Holds e packet g ∧ entry = ⟨g.src, g.payload⟩

/-- `sendto` sent `m` as the datagram of `data` to `remote`, from the block in slot `d`. -/
structure Sends (e : Endian) (routes : List IpRoute) (udp' : Udp) (d : UdpDesc) (data : List U8)
    (remote : IpEndp) (m : Udp.Message) (src : IpEndp) : Prop where
  output : Udp.output e src remote data = .ok (some m)
  port : ∃ q, udp'.get d = some q ∧ src.port = q.localEndp.port
  /-- The address of the interface, if the block has none. -/
  addr : src.addr ≠ .any ∨
    ∃ route, routeLookup routes remote.addr = some route ∧ src.addr = route.iface.unicast

section

variable {e : Endian} {cfg : Config} {routes : List IpRoute} {udp udp' : Udp} {d : UdpDesc}
  {data : List U8} {remote : IpEndp} {m : Udp.Message}

theorem sendtoPort_port {p : UdpPcb} {port : U16} (hp : udp.get d = some p)
    (h : Udp.sendtoPort udp d p = some (port, udp')) :
    ∃ q, udp'.get d = some q ∧ port = q.localEndp.port := by
  unfold Udp.sendtoPort at h
  split at h
  · unfold Udp.assignDynamicPort at h
    obtain ⟨port', -, heq⟩ := Option.map_eq_some_iff.mp h
    cases heq
    exact ⟨_, by rw [Udp.get_set hp, if_pos rfl], rfl⟩
  · cases h
    exact ⟨p, hp, rfl⟩

/-- What `sendto` hands to `ip::output`. -/
theorem sendto_sends {out : Udp.Outcome} (h : Udp.sendto e routes udp d data remote = .ok out)
    (hreply : out.reply = .output m) : ∃ src, Sends e routes out.udp d data remote m src := by
  unfold Udp.sendto at h
  split at h
  · cases h
    exact absurd hreply (by simp)
  next p hp =>
  split at h
  · cases h
    exact absurd hreply (by simp)
  next port udp' hport =>
  split at h
  · cases h
    exact absurd hreply (by simp)
  next addr haddr =>
  obtain ⟨r, hr, hrest⟩ := Machine.exists_of_bind_ok h
  cases r with
  | none =>
      cases hrest
      exact absurd hreply (by simp)
  | some m' =>
      cases hrest
      obtain rfl : m' = m := by simpa using hreply
      refine ⟨⟨addr, port⟩, hr, sendtoPort_port hp hport, ?_⟩
      unfold Udp.sourceAddr at haddr
      split at haddr
      · obtain ⟨route, hroute, rfl⟩ := Option.map_eq_some_iff.mp haddr
        exact .inr ⟨route, hroute, rfl⟩
      · next hany =>
        obtain rfl := Option.some.inj haddr
        exact .inl hany

/-- Only `sendto` replies with a message. -/
theorem sendto_of_reply {env : Udp.Env} {ev : Udp.Event} {out : Udp.Outcome}
    (h : Udp.step env udp ev = .ok out) (hev : ∀ hdr iface data, ev ≠ .arrive hdr iface data)
    (hreply : out.reply = .output m) :
    ∃ d data remote, ev = .sendto d data remote := by
  cases ev with
  | sendto d data remote => exact ⟨d, data, remote, rfl⟩
  | arrive hdr iface data => exact absurd rfl (hev hdr iface data)
  | «open» =>
      cases h
      revert hreply
      unfold Udp.openCall
      split <;> simp
  | close d =>
      cases h
      revert hreply
      unfold Udp.closeCall
      split <;> simp
  | bind d l =>
      cases h
      revert hreply
      unfold Udp.bindCall
      split
      · simp
      · split <;> simp
  | recvfrom d len =>
      cases h
      revert hreply
      unfold Udp.recvfrom
      split
      · simp
      · split <;> simp

/-- A packet that holds a datagram was built by UDP. -/
theorem Holds.protocol {packet : List U8} {g : Udp.Datagram} (h : Holds e packet g) {protocol : U8}
    {src dst : IpAddr} (hbuilt : Built e protocol data src dst packet)
    (hprotocol : protocol ∈ Stack.protocols) : protocol = Udp.protocolUdp := by
  obtain ⟨iface, pad, hdr, payload, -, hinput, -⟩ := h
  rcases hbuilt.input hprotocol iface pad with ⟨reason, hdrop⟩ | ⟨hdr', -, -, -, hdeliver⟩
  · exact absurd (hdrop.symm.trans hinput) (by simp)
  · have heq := hdeliver.symm.trans hinput
    simp only [Except.ok.injEq, Ip.Outcome.deliver.injEq] at heq
    exact heq.1

/-- It holds what was put into it. -/
theorem Holds.eq {src : IpEndp} {g : Udp.Datagram} {packet : List U8} (h : Holds e packet g)
    (houtput : Udp.output e src remote data = .ok (some m))
    (hbuilt : Built e Udp.protocolUdp m.bytes src.addr remote.addr packet) :
    g = ⟨src, remote, data⟩ := by
  obtain ⟨iface, pad, hdr, payload, hnew, hinput, hparse⟩ := h
  have hlen : Udp.udpHdrSize + data.length ≤ 65535 := by
    by_contra hlong
    simp [Udp.output, Nat.lt_of_not_le hlong, pure, Except.pure] at houtput
  rcases hbuilt.input (by decide) iface pad with
    ⟨reason, hdrop⟩ | ⟨hdr', hnew', hsrc, hdst, hdeliver⟩
  · exact absurd (hdrop.symm.trans hinput) (by simp)
  · obtain rfl := Option.some.inj (hnew'.symm.trans hnew)
    have heq := hdeliver.symm.trans hinput
    simp only [Except.ok.injEq, Ip.Outcome.deliver.injEq, true_and] at heq
    obtain ⟨m', hm', -, -, -, hparse'⟩ := Udp.parse_output e src remote hlen
    obtain rfl : m' = m := by simpa using hm'.symm.trans houtput
    rw [hsrc, hdst, ← heq, hparse'] at hparse
    exact (Except.ok.inj (Except.ok.inj hparse)).symm

/-- What an event queues it has accepted. -/
theorem mem_queue_of_move {env : Udp.Env} {ev : Udp.Event} {out : Udp.Outcome}
    (h : Udp.Move env udp ev out) {p : UdpPcb} (hp : out.udp.get d = some p) {entry : UdpQueueEntry}
    (hentry : entry ∈ p.queue) :
    (∃ q, udp.get d = some q ∧ entry ∈ q.queue) ∨
      ∃ g, Udp.accepts env ev = some g ∧ entry = ⟨g.src, g.payload⟩ := by
  cases h with
  | idle haccepts hreply hrecv => exact .inl ⟨p, hp, hentry⟩
  | opened halloc =>
      rw [(Udp.pcbAlloc_spec halloc).2.2] at hp
      split at hp
      · cases hp
        exact absurd hentry (by simp [UdpPcb.empty])
      · exact .inl ⟨p, hp, hentry⟩
  | closed hold =>
      rw [Udp.get_free] at hp
      split at hp
      · exact absurd hp (by simp)
      · exact .inl ⟨p, hp, hentry⟩
  | @assigned _ _ c q l hold hev hfree hbinding =>
      rw [Udp.get_set hold] at hp
      split at hp
      · next hd =>
        cases hp
        exact .inl ⟨q, hd ▸ hold, hentry⟩
      · exact .inl ⟨p, hp, hentry⟩
  | queued haccepts hselect hold =>
      rw [Udp.get_set hold] at hp
      split at hp
      · next hd =>
        cases hp
        rcases List.mem_append.mp hentry with hentry | hentry
        · exact .inl ⟨_, hd ▸ hold, hentry⟩
        · exact .inr ⟨_, haccepts, List.mem_singleton.mp hentry⟩
      · exact .inl ⟨p, hp, hentry⟩
  | popped hold hqueue =>
      rw [Udp.get_set hold] at hp
      split at hp
      · next hd =>
        cases hp
        exact .inl ⟨_, hd ▸ hold, hqueue ▸ List.mem_cons_of_mem _ hentry⟩
      · exact .inl ⟨p, hp, hentry⟩

end

section

variable {e : Endian} {cfg : Config} {udp udp' : Udp} {net : List (List U8)}

/-- A call that is not the receive path. -/
theorem act_call {ev : Udp.Event} (hev : ∀ hdr iface data, ev ≠ .arrive hdr iface data) (id : U16) :
    act e cfg udp (.call ev id) = do
      let out ← Udp.step ⟨e, cfg.routes⟩ udp ev
      match out.reply with
      | .output m =>
          let sent ← transmit e cfg Udp.protocolUdp m.bytes m.src m.dst id
          return (out.udp, sent)
      | _ => return (out.udp, []) := by
  cases ev with
  | arrive hdr iface data => exact absurd rfl (hev hdr iface data)
  | «open» | close d | bind d l | sendto d data remote | recvfrom d len => rfl

/-- The table after a call. -/
theorem act_call_step {ev : Udp.Event} (hev : ∀ hdr iface data, ev ≠ .arrive hdr iface data)
    {id : U16} {out : Udp × List (List U8)} (h : act e cfg udp (.call ev id) = .ok out) :
    ∃ o, Udp.step ⟨e, cfg.routes⟩ udp ev = .ok o ∧ out.1 = o.udp ∧ ∀ packet ∈ out.2, ∃ m sent,
      o.reply = .output m ∧
      transmit e cfg Udp.protocolUdp m.bytes m.src m.dst id = .ok sent ∧ packet ∈ sent := by
  rw [act_call hev] at h
  obtain ⟨o, ho, hrest⟩ := Machine.exists_of_bind_ok h
  refine ⟨o, ho, ?_⟩
  split at hrest
  · next m hm =>
    obtain ⟨sent, hsent, hret⟩ := Machine.exists_of_bind_ok hrest
    cases hret
    exact ⟨rfl, fun packet hpacket ↦ ⟨m, sent, hm, hsent, hpacket⟩⟩
  · cases hrest
    exact ⟨rfl, by simp⟩

/-- The table after a packet. -/
theorem receive_cases {iface : IpIface} {data : List U8} (h : receive e udp iface data = .ok udp') :
    udp' = udp ∨ ∃ hdr payload out, Ip.IpHdr.new data = some hdr ∧
      Ip.input e Stack.protocols (some iface) data = .ok (.deliver Udp.protocolUdp payload) ∧
      Udp.input e udp hdr iface payload = .ok out ∧ udp' = out.udp := by
  obtain ⟨r, hr, hrest⟩ := Machine.exists_of_bind_ok h
  cases r with
  | drop reason => exact .inl (Except.ok.inj hrest).symm
  | unreachable message => exact .inl (Except.ok.inj hrest).symm
  | deliver protocol payload =>
      dsimp only at hrest
      split at hrest
      · next hdr hnew =>
        split at hrest
        · next hprotocol =>
          obtain ⟨out, hout, hret⟩ := Machine.exists_of_bind_ok hrest
          exact .inr ⟨hdr, payload, out, hnew, hprotocol ▸ hr, hout, (Except.ok.inj hret).symm⟩
        · exact .inl (Except.ok.inj hrest).symm
      · exact .inl (Except.ok.inj hrest).symm

/-- What a host does that hears a packet. -/
theorem act_hear_cases {iface : IpIface} {packet pad : List U8} {id : U16}
    {out : Udp × List (List U8)} (h : act e cfg udp (.hear iface packet pad id) = .ok out) :
    out = (udp, []) ∨ ∃ messages sent,
      Stack.answers e udp (some iface) (packet ++ pad) = .ok messages ∧
      receive e udp iface (packet ++ pad) = .ok out.1 ∧
      (messages.mapM fun m ↦ transmit e cfg Stack.protocolIcmp m.bytes m.src m.dst id) = .ok sent ∧
      out.2 = sent.flatten := by
  change (if iface ∈ cfg.ifaces then _ else _) = _ at h
  split at h
  · obtain ⟨messages, hmessages, hrest⟩ := Machine.exists_of_bind_ok h
    obtain ⟨udp', hudp', hrest⟩ := Machine.exists_of_bind_ok hrest
    obtain ⟨sent, hsent, hret⟩ := Machine.exists_of_bind_ok hrest
    cases hret
    exact .inr ⟨messages, sent, hmessages, hudp', hsent, rfl⟩
  · exact .inl (Except.ok.inj h).symm

theorem Heard.mono (h : Heard e net udp) (sent : List (List U8)) : Heard e (net ++ sent) udp := by
  intro d p hp entry hentry
  obtain ⟨packet, hpacket, hrest⟩ := h d p hp entry hentry
  exact ⟨packet, List.mem_append_left sent hpacket, hrest⟩

/-- A call queues nothing. -/
theorem Heard.call (h : Heard e net udp) {ev : Udp.Event} {env : Udp.Env} {out : Udp.Outcome}
    (hout : Udp.step env udp ev = .ok out) (hev : ∀ hdr iface data, ev ≠ .arrive hdr iface data) :
    Heard e net out.udp := by
  intro d p hp entry hentry
  rcases mem_queue_of_move (Udp.step_move hout) hp hentry with ⟨q, hq, hold⟩ | ⟨g, hg, -⟩
  · exact h d q hq entry hold
  · cases ev with
    | arrive hdr iface data => exact absurd rfl (hev hdr iface data)
    | «open» | close d | bind d l | sendto d data remote | recvfrom d len =>
        exact absurd hg (by simp [Udp.accepts])

/-- A packet that is heard queues what it holds. -/
theorem Heard.receive (h : Heard e net udp) {iface : IpIface} {packet pad : List U8}
    (hpacket : packet ∈ net) (hreceive : receive e udp iface (packet ++ pad) = .ok udp') :
    Heard e net udp' := by
  rcases receive_cases hreceive with rfl | ⟨hdr, payload, out, hnew, hinput, hout, rfl⟩
  · exact h
  intro d p hp entry hentry
  have hstep : Udp.step ⟨e, []⟩ udp (.arrive hdr iface payload) = .ok out := hout
  rcases mem_queue_of_move (Udp.step_move hstep) hp hentry with ⟨q, hq, hold⟩ | ⟨g, hg, rfl⟩
  · exact h d q hq entry hold
  · exact ⟨packet, hpacket, g, ⟨iface, pad, hdr, payload, hnew, hinput, Udp.accepts_arrive.mp hg⟩,
      rfl⟩

/-- What a host does keeps its queues to what was sent. -/
theorem Heard.act (h : Heard e net udp) {label : Label} {out : Udp × List (List U8)}
    (hhears : ∀ iface packet pad id, label = .hear iface packet pad id → packet ∈ net)
    (hact : act e cfg udp label = .ok out) : Heard e net out.1 := by
  cases label with
  | call ev id =>
      by_cases hev : ∀ hdr iface data, ev ≠ .arrive hdr iface data
      · obtain ⟨o, ho, heq, -⟩ := act_call_step hev hact
        exact heq ▸ h.call ho hev
      · push Not at hev
        obtain ⟨hdr, iface, data, rfl⟩ := hev
        cases hact
        exact h
  | segment data src dst id =>
      have hact : (do
          let sent ← transmit e cfg Stack.protocolTcp data src dst id
          return (udp, sent)) = .ok out := hact
      obtain ⟨sent, -, hret⟩ := Machine.exists_of_bind_ok hact
      cases hret
      exact h
  | hear iface packet pad id =>
      rcases act_hear_cases hact with rfl | ⟨messages, sent, -, hreceive, -, -⟩
      · exact h
      · exact h.receive (hhears iface packet pad id rfl) hreceive

end

/-! ## Where packets come from -/

/-- A message with which a packet is answered: it is for the sender, and it is no echo request. -/
def Answers (e : Endian) (iface : IpIface) (data : List U8) (m : IcmpMessage) : Prop :=
  ∃ hdr ty code values quoted, Ip.IpHdr.new data = some hdr ∧ ty ≠ icmpTypeEcho ∧
    icmpOutput e ty code values quoted iface.unicast hdr.src = .ok m

section

variable {e : Endian} {cfg : Config} {udp : Udp} {iface : IpIface} {data packet : List U8}
  {m : IcmpMessage}

theorem udpInput_answers {hdr : Ip.IpHdr} {payload : List U8} {out : Udp.Outcome}
    (hnew : Ip.IpHdr.new data = some hdr) (hout : Udp.input e udp hdr iface payload = .ok out)
    (hm : m ∈ out.effects.filterMap Udp.Effect.icmp?) : Answers e iface data m := by
  obtain ⟨r, -, hrest⟩ := Machine.exists_of_bind_ok hout
  cases r with
  | error reason =>
      cases hrest
      exact absurd hm (by simp)
  | ok g =>
      dsimp only at hrest
      split at hrest
      · split at hrest
        · obtain ⟨quoted, -, hrest⟩ := Machine.exists_of_bind_ok hrest
          obtain ⟨m', hm', hret⟩ := Machine.exists_of_bind_ok hrest
          cases hret
          obtain rfl : m = m' := by simpa [Udp.Effect.icmp?] using hm
          exact ⟨hdr, _, _, _, _, hnew, by decide, hm'⟩
        · cases hrest
          exact absurd hm (by simp)
      · split at hrest
        · cases hrest
          exact absurd hm (by simp)
        · cases hrest
          exact absurd hm (by simp [Udp.Effect.icmp?])

theorem icmpInput_answers {hdr : Ip.IpHdr} {payload : List U8}
    (hnew : Ip.IpHdr.new data = some hdr)
    (h : icmpInput e hdr.src iface payload = .ok (some m)) : Answers e iface data m := by
  obtain ⟨r, -, hrest⟩ := Machine.exists_of_bind_ok h
  cases r with
  | error reason => exact absurd (Except.ok.inj hrest) (by simp)
  | ok icmp =>
      dsimp only at hrest
      split at hrest
      · obtain ⟨m', hm', hret⟩ := Machine.exists_of_bind_ok hrest
        obtain rfl : m' = m := by simpa using Except.ok.inj hret
        exact ⟨hdr, _, _, _, _, hnew, by decide, hm'⟩
      · exact absurd (Except.ok.inj hrest) (by simp)

theorem input_unreachable_answers {protocols : List U8}
    (h : Ip.input e protocols (some iface) data = .ok (.unreachable m)) :
    Answers e iface data m := by
  by_cases hacc : ∃ hdr ifc, Ip.Accepted e (some iface) data hdr ifc
  · obtain ⟨hdr, ifc, hacc⟩ := hacc
    obtain rfl := Option.some.inj hacc.iface_eq
    rw [Ip.input_accepted protocols hacc, Ip.dispatch] at h
    split at h
    · obtain ⟨payload, -, hret⟩ := Machine.exists_of_bind_ok h
      exact absurd (Except.ok.inj hret) (by simp)
    · obtain ⟨rest, -, h⟩ := Machine.exists_of_bind_ok h
      obtain ⟨quoted, -, h⟩ := Machine.exists_of_bind_ok h
      obtain ⟨m', hm', hret⟩ := Machine.exists_of_bind_ok h
      obtain rfl : m' = m := by simpa using Except.ok.inj hret
      exact ⟨hdr, _, _, _, _, hacc.hdr_new, by decide, hm'⟩
  · obtain ⟨reason, hdrop⟩ := Ip.input_rejected protocols fun hdr ifc hac ↦ hacc ⟨hdr, ifc, hac⟩
    exact absurd (hdrop.symm.trans h) (by simp)

/-- What a host answers. -/
theorem answers_spec {messages : List IcmpMessage}
    (h : Stack.answers e udp (some iface) data = .ok messages) (hm : m ∈ messages) :
    Answers e iface data m := by
  obtain ⟨r, hr, hrest⟩ := Machine.exists_of_bind_ok h
  cases r with
  | drop reason =>
      obtain rfl := Except.ok.inj hrest
      exact absurd hm (by simp)
  | unreachable message =>
      obtain rfl := Except.ok.inj hrest
      obtain rfl := List.mem_singleton.mp hm
      exact input_unreachable_answers hr
  | deliver protocol payload =>
      dsimp only at hrest
      split at hrest
      · next hdr ifc hnew hifc =>
        obtain rfl := Option.some.inj hifc
        split at hrest
        · obtain ⟨reply, hreply, hret⟩ := Machine.exists_of_bind_ok hrest
          obtain rfl := Except.ok.inj hret
          obtain rfl := Option.mem_toList.mp hm
          exact icmpInput_answers hnew hreply
        split at hrest
        · obtain ⟨out, hout, hret⟩ := Machine.exists_of_bind_ok hrest
          obtain rfl := Except.ok.inj hret
          exact udpInput_answers hnew hout hm
        · obtain rfl := Except.ok.inj hrest
          exact absurd hm (by simp)
      · obtain rfl := Except.ok.inj hrest
        exact absurd hm (by simp)

/-- A message that is no echo request is not answered by `icmp::input`. -/
theorem icmpInput_quiet {bytes : List U8} (e : Endian) (src : IpAddr) (iface : IpIface)
    (hlen : bytes.length ≤ 65535) (hhead : bytes.head? ≠ some icmpTypeEcho) :
    icmpInput e src iface bytes = .ok none := by
  have hparse : ∃ r, icmpParse e bytes = .ok r ∧ ∀ icmp, r = .ok icmp → icmp.ty ≠ icmpTypeEcho := by
    unfold icmpParse
    by_cases hlong : icmpHdrSize ≤ bytes.length
    · have hnew : IcmpCommon.new bytes = some ⟨bytes, hlong⟩ := dif_pos hlong
      obtain ⟨sum, hsum⟩ := cksum16_ok e 0 hlen (by decide)
      have hty : IcmpCommon.ty ⟨bytes, hlong⟩ ≠ icmpTypeEcho := by
        intro hty
        refine hhead ?_
        rw [List.head?_eq_getElem?, ← hty]
        exact List.getElem?_eq_getElem _
      rw [hnew]
      simp only [hsum, slice_ok hlong (Nat.le_refl _), bind, Except.bind]
      split
      · exact ⟨_, rfl, fun icmp h ↦ absurd h (by simp)⟩
      · refine ⟨_, rfl, fun icmp h ↦ ?_⟩
        obtain rfl := Except.ok.inj h
        exact hty
    · have hnew : IcmpCommon.new bytes = none := dif_neg hlong
      rw [hnew]
      exact ⟨_, rfl, fun icmp h ↦ absurd h (by simp)⟩
  obtain ⟨r, hr, hquiet⟩ := hparse
  rw [icmpInput, hr]
  cases r with
  | error reason => rfl
  | ok icmp => exact if_neg (hquiet icmp rfl)

/-- **An answer is not answered**, by no host and in no state of its table. -/
theorem act_hear_answer {pad heard : List U8} {src dst : IpAddr} (hm : Answers e iface heard m)
    (hbuilt : Built e Stack.protocolIcmp m.bytes src dst packet) (cfg : Config) (udp : Udp)
    (iface' : IpIface) (id : U16) :
    act e cfg udp (.hear iface' packet pad id) = .ok (udp, []) := by
  obtain ⟨hdr, ty, code, values, quoted, -, hty, hm⟩ := hm
  have hlen : m.bytes.length ≤ 65535 :=
    Nat.le_trans (Nat.le_add_left _ Ip.hdrSizeMin) hbuilt.length_le
  have hhead : m.bytes.head? ≠ some icmpTypeEcho := by
    rw [(Stack.icmpOutput_bytes hm).1]
    simpa using hty
  have hanswers : Stack.answers e udp (some iface') (packet ++ pad) = .ok [] ∧
      receive e udp iface' (packet ++ pad) = .ok udp := by
    unfold Stack.answers receive
    rcases hbuilt.input (by decide) iface' pad with
      ⟨reason, hdrop⟩ | ⟨hdr', hnew, -, -, hdeliver⟩
    · rw [hdrop]
      exact ⟨rfl, rfl⟩
    · have hquiet := icmpInput_quiet e hdr'.src iface' hlen hhead
      rw [hdeliver, hnew]
      simp only [bind, Except.bind, if_true, hquiet]
      exact ⟨rfl, rfl⟩
  change (if iface' ∈ cfg.ifaces then _ else _) = _
  split
  · simp only [hear, hanswers.1, hanswers.2, bind, Except.bind, List.mapM_nil, pure, Except.pure,
      List.flatten_nil]
  · rfl

/-- The addresses of a datagram are those that it is handed to `ip::output` with. -/
theorem output_addrs {src dst : IpEndp} {m : Udp.Message}
    (h : Udp.output e src dst data = .ok (some m)) : m.src = src.addr ∧ m.dst = dst.addr := by
  unfold Udp.output at h
  dsimp only at h
  split at h
  · exact absurd (Except.ok.inj h) (by simp)
  · obtain ⟨sum, -, hret⟩ := Machine.exists_of_bind_ok h
    obtain rfl := Option.some.inj (Except.ok.inj hret)
    exact ⟨rfl, rfl⟩

/-- **Where a packet comes from**: it is a datagram that was given to `sendto`, a segment, or an
answer to a packet that was heard. -/
inductive Origin (e : Endian) (cfg : Config) (udp : Udp) (packet : List U8) :
    Label → Udp × List (List U8) → Prop
  | datagram {d : UdpDesc} {data : List U8} {remote : IpEndp} {id : U16}
      {out : Udp × List (List U8)} {m : Udp.Message} {src : IpEndp} {iface : IpIface}
      (hsends : Sends e cfg.routes out.1 d data remote m src) (hiface : iface ∈ cfg.ifaces)
      (hsrc : src.addr = iface.unicast)
      (hbuilt : Built e Udp.protocolUdp m.bytes src.addr remote.addr packet) :
      Origin e cfg udp packet (.call (.sendto d data remote) id) out
  | segment {data : List U8} {src dst source : IpAddr} {id : U16} {out : Udp × List (List U8)}
      (hbuilt : Built e Stack.protocolTcp data source dst packet) :
      Origin e cfg udp packet (.segment data src dst id) out
  | answer {iface : IpIface} {heard pad : List U8} {id : U16} {out : Udp × List (List U8)}
      {m : IcmpMessage} {source : IpAddr} (hm : Answers e iface (heard ++ pad) m)
      (hbuilt : Built e Stack.protocolIcmp m.bytes source m.dst packet) :
      Origin e cfg udp packet (.hear iface heard pad id) out

/-- An answer is sent where a packet is heard. -/
theorem Origin.prompted {label : Label} {out : Udp × List (List U8)}
    (h : Origin e cfg udp packet label out) :
    (∀ iface heard pad id, label ≠ .hear iface heard pad id) ∨
      ∃ iface heard pad id m source, label = .hear iface heard pad id ∧
        Answers e iface (heard ++ pad) m ∧
        Built e Stack.protocolIcmp m.bytes source m.dst packet := by
  cases h with
  | datagram | segment => exact .inl (by simp)
  | answer hm hbuilt => exact .inr ⟨_, _, _, _, _, _, rfl, hm, hbuilt⟩

theorem mem_of_mapM_ok {α β : Type} {f : α → Checked β} {l : List α} {l' : List β}
    (h : l.mapM f = .ok l') {b : β} (hb : b ∈ l') : ∃ a ∈ l, f a = .ok b := by
  induction l generalizing l' with
  | nil =>
      obtain rfl := Except.ok.inj h
      exact absurd hb (by simp)
  | cons a l ih =>
      rw [List.mapM_cons] at h
      obtain ⟨b', hb', h⟩ := Machine.exists_of_bind_ok h
      obtain ⟨l'', hl'', hret⟩ := Machine.exists_of_bind_ok h
      obtain rfl := Except.ok.inj hret
      rcases List.mem_cons.mp hb with rfl | hb
      · exact ⟨a, List.mem_cons_self, hb'⟩
      · obtain ⟨a', ha', hf⟩ := ih hl'' hb
        exact ⟨a', List.mem_cons_of_mem a ha', hf⟩

theorem origin_of_act {label : Label} {out : Udp × List (List U8)}
    (h : act e cfg udp label = .ok out) (hpacket : packet ∈ out.2) :
    Origin e cfg udp packet label out := by
  cases label with
  | call ev id =>
      by_cases hev : ∀ hdr iface data, ev ≠ .arrive hdr iface data
      · obtain ⟨o, ho, heq, hsent⟩ := act_call_step hev h
        obtain ⟨m, sent, hreply, hsent, hmem⟩ := hsent packet hpacket
        obtain ⟨d, data, remote, rfl⟩ := sendto_of_reply ho hev hreply
        obtain ⟨src, hsends⟩ := sendto_sends ho hreply
        obtain ⟨hsrc, hdst⟩ := output_addrs hsends.output
        obtain ⟨route, hroute, hlookup, hany, hbuilt⟩ := transmit_spec hsent hmem
        rw [hsrc] at hany
        rw [hdst] at hlookup hbuilt
        have haddr : src.addr = route.iface.unicast := by
          rcases hsends.addr with hne | ⟨route', hroute', haddr⟩
          · exact hany.resolve_left hne
          · obtain rfl := Option.some.inj (hlookup.symm.trans hroute')
            exact haddr
        rw [← haddr] at hbuilt
        exact .datagram (heq ▸ hsends) (cfg.iface_mem route hroute) haddr hbuilt
      · push Not at hev
        obtain ⟨hdr, iface, data, rfl⟩ := hev
        cases h
        exact absurd hpacket (by simp)
  | segment data src dst id =>
      have h : (do
          let sent ← transmit e cfg Stack.protocolTcp data src dst id
          return (udp, sent)) = .ok out := h
      obtain ⟨sent, hsent, hret⟩ := Machine.exists_of_bind_ok h
      cases hret
      obtain ⟨route, -, -, -, hbuilt⟩ := transmit_spec hsent hpacket
      exact .segment hbuilt
  | hear iface heard pad id =>
      rcases act_hear_cases h with rfl | ⟨messages, sent, hanswers, -, hmap, heq⟩
      · exact absurd hpacket (by simp)
      · rw [heq] at hpacket
        obtain ⟨packets, hpackets, hmem⟩ := List.mem_flatten.mp hpacket
        obtain ⟨m, hm, hsent⟩ := mem_of_mapM_ok hmap hpackets
        obtain ⟨route, -, -, -, hbuilt⟩ := transmit_spec hsent hmem
        exact .answer (answers_spec hanswers hm) hbuilt

end

/-! ## Two hosts -/

/-- The interface `192.0.2.n`. -/
def hostIface (n : U8) : IpIface :=
  ⟨⟨192, 0, 2, n⟩, ⟨255, 255, 255, 0⟩, ⟨192, 0, 2, 255⟩, 1500⟩

/-- A host with this interface only. -/
def Config.sample (n : U8) : Config where
  ifaces := [hostIface n]
  routes := [⟨⟨192, 0, 2, 0⟩, ⟨255, 255, 255, 0⟩, .any, hostIface n⟩]
  iface_mem := by simp

/-- The first host and the second one. -/
def two (i : Bool) : Config := .sample (if i then 2 else 1)

/-- What the first one sends: three octets to port 7 of the second one, and one to port 9. -/
def sentPackets : List (List U8) :=
  [[69, 0, 0, 31, 0, 0, 0, 0, 255, 17, 55, 202, 192, 0, 2, 1, 192, 0, 2, 2, 192, 0, 0, 7, 0, 11,
      183, 202, 1, 2, 3],
    [69, 0, 0, 29, 0, 0, 0, 0, 255, 17, 55, 204, 192, 0, 2, 1, 192, 0, 2, 2, 192, 0, 0, 9, 0, 9,
      183, 206, 4]]

/-- What the second one answers. -/
def answerPacket : List U8 :=
  [69, 0, 0, 56, 0, 0, 0, 0, 255, 1, 55, 193, 192, 0, 2, 2, 192, 0, 2, 1, 3, 3, 133, 27, 0, 0, 0, 0,
    69, 0, 0, 29, 0, 0, 0, 0, 255, 17, 55, 204, 192, 0, 2, 1, 192, 0, 2, 2, 192, 0, 0, 9, 0, 9,
    183, 206]

/-- A block on port 7 gets the first of them, and no block the second. -/
theorem reaches_two : ∃ w : Network.World Bool Udp (List U8),
    Network.Reaches (internet .little two) Started w ∧ w.net = sentPackets ++ [answerPacket] ∧
      w.party true = { pcbs := [some ⟨⟨.any, 7⟩, [⟨⟨⟨192, 0, 2, 1⟩, 49152⟩, [1, 2, 3]⟩], 0⟩],
                       nextTask := 1 } := by
  have hstart : Network.Reaches (internet .little two) Started ⟨fun _ ↦ {}, []⟩ :=
    .start ⟨fun _ ↦ rfl, rfl⟩
  have hsend : Network.exec (act .little (two false)) {} [.call .open 0,
      .call (.sendto 0 [1, 2, 3] ⟨⟨192, 0, 2, 2⟩, 7⟩) 0,
      .call (.sendto 0 [4] ⟨⟨192, 0, 2, 2⟩, 9⟩) 0] =
        .ok ({ pcbs := [some ⟨⟨.any, 49152⟩, [], 0⟩], nextTask := 1 }, sentPackets) := by
    decide +kernel
  have hhear : Network.exec (act .little (two true)) {} [.call .open 0, .call (.bind 0 ⟨.any, 7⟩) 0,
      .hear (hostIface 2) (sentPackets.getD 0 []) [0, 0] 0,
      .hear (hostIface 2) (sentPackets.getD 1 []) [] 0] =
        .ok ({ pcbs := [some ⟨⟨.any, 7⟩, [⟨⟨⟨192, 0, 2, 1⟩, 49152⟩, [1, 2, 3]⟩], 0⟩],
               nextTask := 1 }, [answerPacket]) := by
    decide +kernel
  obtain ⟨w, hw, hnet, hparty⟩ : ∃ w : Network.World Bool Udp (List U8),
      Network.Reaches (internet .little two) Started w ∧ w.net = sentPackets ∧
        w.party true = {} :=
    ⟨_, hstart.leads (Network.Leads.exec (i := false) (by simp [Network.World.Hears, internet])
      hsend), rfl, rfl⟩
  have hleads := Network.Leads.exec (P := internet .little two) (w := w) (i := true)
    (by simp [Network.World.Hears, internet, hnet, sentPackets]) (hparty.symm ▸ hhear)
  exact ⟨_, hw.leads hleads, by simp [hnet], by simp⟩

/-! ## Whole runs -/

section

variable {ι : Type} [DecidableEq ι] {e : Endian} {cfg : ι → Config}
  {w : Network.World ι Udp (List U8)}

theorem heard (h : Network.Reaches (internet e cfg) Started w) (i : ι) :
    Heard e w.net (w.party i) := by
  refine Network.Reaches.informed (fun net _ udp ↦ Heard e net udp) ?_ ?_ ?_ h i
  · intro party hparty i d p hp
    rw [hparty i] at hp
    exact absurd hp (by simp [Udp.get, Slots.peek])
  · exact fun net out i udp hheard ↦ hheard.mono out
  · intro net i udp label out hheard hhears hact
    refine (hheard.act ?_ hact).mono out.2
    rintro iface packet pad id rfl
    exact hhears packet rfl

/-- **Datagrams are genuine**: whatever `recvfrom` returns on some host was given to `sendto`
before, on a host that has the address from which it is said to come, and from a block with the
port; it is that datagram from its first octet, cut where the buffer ends.  The network may have
lost, duplicated and reordered packets, and the hosts may have sent anything else. -/
theorem datagrams_genuine (h : Network.Reaches (internet e cfg) Started w) {i : ι} {d : UdpDesc}
    {len : Nat} {remote : IpEndp} {data : List U8}
    (hreply : (Udp.recvfrom (w.party i) d len).reply = .datagram remote data) :
    ∃ w₀ j desc whole dst id out, Network.Reaches (internet e cfg) Started w₀ ∧
      act e (cfg j) (w₀.party j) (.call (.sendto desc whole dst) id) = .ok out ∧
      Network.Leads (internet e cfg) (w₀.after j out) w ∧
      data = whole.take (min len whole.length) ∧
      (∃ iface ∈ (cfg j).ifaces, remote.addr = iface.unicast) ∧
      ∃ q, out.1.get desc = some q ∧ remote.port = q.localEndp.port := by
  obtain ⟨p, entry, queue, hp, hqueue, hremote, hdata⟩ : ∃ p entry queue,
      (w.party i).get d = some p ∧ p.queue = entry :: queue ∧ entry.remote = remote ∧
        entry.data.take (min len entry.data.length) = data := by
    unfold Udp.recvfrom at hreply
    split at hreply
    · exact absurd hreply (by simp)
    next p hp =>
    split at hreply
    · exact absurd hreply (by simp)
    next entry queue hqueue =>
    simp only [Udp.Reply.datagram.injEq] at hreply
    exact ⟨p, entry, queue, hp, hqueue, hreply⟩
  obtain ⟨packet, hpacket, g, hholds, rfl⟩ := heard h i d p hp entry (by simp [hqueue])
  obtain ⟨w₀, j, label, out, hreach, -, hact, hleads, hmem⟩ := h.origin hpacket
  cases origin_of_act hact hmem with
  | datagram hsends hiface hsrc hbuilt =>
      obtain rfl := hholds.eq hsends.output hbuilt
      subst hremote hdata
      exact ⟨w₀, j, _, _, _, _, out, hreach, hact, hleads, rfl, ⟨_, hiface, hsrc⟩, hsends.port⟩
  | segment hbuilt => exact absurd (hholds.protocol hbuilt (by decide)) (by decide)
  | answer hm hbuilt => exact absurd (hholds.protocol hbuilt (by decide)) (by decide)

theorem datagrams_genuine_two : ∃ w₀ : Network.World Bool Udp (List U8), ∃ j desc whole dst id out,
    act .little (two j) (w₀.party j) (.call (.sendto desc whole dst) id) = .ok out ∧
      [1, 2] = whole.take (min 2 whole.length) := by
  obtain ⟨w, hw, -, hparty⟩ := reaches_two
  have hreply : (Udp.recvfrom (w.party true) 0 2).reply =
      .datagram ⟨⟨192, 0, 2, 1⟩, 49152⟩ [1, 2] := by
    rw [hparty]
    decide
  obtain ⟨w₀, j, desc, whole, dst, id, out, -, hact, -, hdata, -, -⟩ := datagrams_genuine hw hreply
  exact ⟨w₀, j, desc, whole, dst, id, out, hact, hdata⟩

/-- The packet was not sent in answer to another one. -/
def Unprompted (e : Endian) (cfg : ι → Config) (w : Network.World ι Udp (List U8))
    (packet : List U8) : Prop :=
  ∃ w₀ i label out, Network.Reaches (internet e cfg) Started w₀ ∧
    act e (cfg i) (w₀.party i) label = .ok out ∧ Network.Leads (internet e cfg) (w₀.after i out) w ∧
    packet ∈ out.2 ∧ ∀ iface heard pad id, label ≠ .hear iface heard pad id

/-- What was not sent in answer is no ICMP message. -/
theorem Unprompted.protocol {packet : List U8} (h : Unprompted e cfg w packet) (pad : List U8) :
    ∃ hdr, Ip.IpHdr.new (packet ++ pad) = some hdr ∧ hdr.protocol ≠ Stack.protocolIcmp := by
  obtain ⟨w₀, i, label, out, -, hact, -, hmem, hno⟩ := h
  cases origin_of_act hact hmem with
  | datagram hsends hiface hsrc hbuilt =>
      obtain ⟨hdr, hnew, -, -, hprotocol, -⟩ := hbuilt.header pad
      exact ⟨hdr, hnew, by rw [hprotocol]; decide⟩
  | segment hbuilt =>
      obtain ⟨hdr, hnew, -, -, hprotocol, -⟩ := hbuilt.header pad
      exact ⟨hdr, hnew, by rw [hprotocol]; decide⟩
  | answer hm hbuilt => exact absurd rfl (hno _ _ _ _)

/-- The packet was sent, as an ICMP message to the sender of `heard`, by a host that heard `heard`
at some step of the run. -/
def AnswerTo (e : Endian) (cfg : ι → Config) (w : Network.World ι Udp (List U8))
    (packet heard : List U8) : Prop :=
  ∃ w₀ i iface pad id out, Network.Reaches (internet e cfg) Started w₀ ∧ heard ∈ w₀.net ∧
    act e (cfg i) (w₀.party i) (.hear iface heard pad id) = .ok out ∧ packet ∈ out.2 ∧
    Network.Leads (internet e cfg) (w₀.after i out) w ∧ Unprompted e cfg w₀ heard ∧
    ∀ tail, ∃ hdr hdr', Ip.IpHdr.new (packet ++ tail) = some hdr ∧
      Ip.IpHdr.new (heard ++ pad) = some hdr' ∧ hdr.protocol = Stack.protocolIcmp ∧
      hdr.dst = hdr'.src

/-- **Answers end**: a packet in the network was sent by an application or TCP, or it is the ICMP
answer to such a packet, sent to its sender where a host heard it, and is answered by no host in
whatever state.  However packets are duplicated, no two hosts keep each other busy. -/
theorem answers_end (h : Network.Reaches (internet e cfg) Started w) {packet : List U8}
    (hpacket : packet ∈ w.net) :
    Unprompted e cfg w packet ∨
      (∃ heard, AnswerTo e cfg w packet heard) ∧ ∀ j udp iface pad id,
        act e (cfg j) udp (.hear iface packet pad id) = .ok (udp, []) := by
  obtain ⟨w₀, i, label, out, hreach, hhears, hact, hleads, hmem⟩ := h.origin hpacket
  rcases (origin_of_act hact hmem).prompted with
    hno | ⟨iface, heard, pad, id, m, source, rfl, hm, hbuilt⟩
  · exact .inl ⟨w₀, i, label, out, hreach, hact, hleads, hmem, hno⟩
  refine .inr ⟨⟨heard, w₀, i, iface, pad, id, out, hreach, hhears heard rfl, hact, hmem, hleads, ?_,
    fun tail ↦ ?_⟩, fun j udp iface' pad' id' ↦
      act_hear_answer hm hbuilt (cfg j) udp iface' id'⟩
  · obtain ⟨w₁, k, label, out₁, hreach₁, -, hact₁, hleads₁, hmem₁⟩ :=
      hreach.origin (hhears heard rfl)
    rcases (origin_of_act hact₁ hmem₁).prompted with hno | ⟨_, _, _, _, _, _, rfl, hm₁, hbuilt₁⟩
    · exact ⟨w₁, k, label, out₁, hreach₁, hact₁, hleads₁, hmem₁, hno⟩
    · -- A host that hears an answer would have sent nothing.
      have hnone : act e (cfg i) (w₀.party i) (.hear iface heard pad id) = _ :=
        act_hear_answer hm₁ hbuilt₁ (cfg i) (w₀.party i) iface id
      obtain rfl := Except.ok.inj (hnone.symm.trans hact)
      exact absurd hmem (by simp)
  · obtain ⟨hdr', ty, code, values, quoted, hnew', -, hm⟩ := hm
    obtain ⟨hdr, hnew, -, hdst, hprotocol, -⟩ := hbuilt.header tail
    refine ⟨hdr, hdr', hnew, hnew', hprotocol, hdst.trans ?_⟩
    obtain ⟨sum, -, hret⟩ := Machine.exists_of_bind_ok hm
    exact (congrArg IcmpMessage.dst (Except.ok.inj hret)).symm

/-- The answer of the second host was sent in answer, and is not answered. -/
theorem answers_end_two : ∃ w : Network.World Bool Udp (List U8), answerPacket ∈ w.net ∧
    (∃ heard, AnswerTo .little two w answerPacket heard) ∧ ∀ j udp iface pad id,
      act .little (two j) udp (.hear iface answerPacket pad id) = .ok (udp, []) := by
  obtain ⟨w, hw, hnet, -⟩ := reaches_two
  have hmem : answerPacket ∈ w.net := by simp [hnet]
  refine ⟨w, hmem, (answers_end hw hmem).resolve_left fun hno ↦ ?_⟩
  obtain ⟨hdr, hnew, hprotocol⟩ := hno.protocol []
  have hicmp : (Ip.IpHdr.new (answerPacket ++ [])).map (·.protocol) =
      some Stack.protocolIcmp := by
    decide +kernel
  rw [hnew] at hicmp
  exact hprotocol (Option.some.inj hicmp)

end

end Microps.Internet
