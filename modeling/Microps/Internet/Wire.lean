import Microps.Internet
import Microps.Tcp.Corrupt
import Microps.Tcp.EndToEnd

/-!
# Two hosts on a wire

Two whole hosts, each with its TCP and its UDP blocks, exchange IP packets over a link that may
lose, duplicate, delay and reorder them, and put something behind them.  `Tcp.World` is what TCP
makes of such a link: there, segments are exchanged, and nobody else sends anything.

Every run of the hosts is a run of `Tcp.World`, in which a step that is not TCP's is no step.  A
segment that is heard is one that the other host sent, because the packet that holds it was built
of it, and the checksum would notice if it was built for another address.
-/

namespace Microps.Internet

open Tcp (Event)

/-! ## The hosts -/

/-- What `output_segment` hands to the device; `id` is what `random32` returns. -/
def sendSegment (e : Endian) (cfg : Config) (s : TcpSegment) (id : U16) :
    Checked (List (List U8)) := do
  let bytes ← Tcp.encode e s
  transmit e cfg Stack.protocolTcp bytes s.src.addr s.dst.addr id

/-- The same for the segments of a critical section, in order. -/
def sendAll (e : Endian) (cfg : Config) : List TcpSegment → List U16 → Checked (List (List U8))
  | [], _ => return []
  | s :: ss, ids => do
      let sent ← sendSegment e cfg s (ids.headD 0)
      let rest ← sendAll e cfg ss ids.tail
      return sent ++ rest

/-- The segment in a packet that `tcp::input` hands to `segment_arrives`. -/
def segmentIn (e : Endian) (iface : IpIface) (data : List U8) : Checked (Option TcpSegment) := do
  match ← Ip.input e Stack.protocols (some iface) data with
  | .deliver protocol payload => match Ip.IpHdr.new data with
    | some hdr =>
        if protocol = Stack.protocolTcp then
          match ← Tcp.input e hdr.src hdr.dst iface payload with
          | .arrives s => return some s
          | .drop _ => return none
        else return none
    | none => return none
  | _ => return none

/-- A host, with the history of its connection. -/
structure Host where
  tcp : Tcp := {}
  udp : Udp := {}
  /-- A connection has begun. -/
  begun : Bool := false
  /-- The octets queued by `send`. -/
  queued : List U8 := []
  /-- The octets returned by `receive`. -/
  taken : List U8 := []
  /-- The packets sent so far. -/
  wire : List (List U8) := []

/-- What may happen next at a host. -/
inductive HostLabel where
  /-- A critical section of TCP, apart from `segment_arrives`. -/
  | tcp (env : Env) (ev : Event) (ids : List U16)
  /-- A critical section of a call of the UDP module. -/
  | udp (ev : Udp.Event) (id : U16)
  /-- A packet is heard, with what the link has put behind it. -/
  | hear (env : Env) (iface : IpIface) (packet pad : List U8) (ids : List U16)

/-- The critical section of TCP in it. -/
def HostLabel.event (e : Endian) : HostLabel → Option (Env × Event)
  | .tcp env ev _ => some (env, ev)
  | .udp _ _ => none
  | .hear env iface packet pad _ => match segmentIn e iface (packet ++ pad) with
    | .ok (some s) => some (env, .arrive s)
    | _ => none

namespace Host

/-- TCP runs a critical section.  Whether `ip::output` succeeds is left open, as in `Env`. -/
def event (e : Endian) (cfg : Config) (x : Host) (env : Env) (ev : Event) (ids : List U16) :
    Checked Host := do
  let out ← Tcp.step env x.tcp ev
  let sent ← sendAll e cfg (Tcp.emitted out.effects) ids
  return { x with
    tcp := out.tcp
    begun := x.begun || Tcp.begins env x.tcp ev
    queued := x.queued ++ Tcp.queuedBy ev out.reply
    taken := x.taken ++ Tcp.takenBy out.reply
    wire := x.wire ++ sent }

/-- UDP or ICMP goes on. -/
def other (e : Endian) (cfg : Config) (x : Host) (label : Label) : Checked Host := do
  let out ← Internet.act e cfg x.udp label
  return { x with udp := out.1, wire := x.wire ++ out.2 }

/-- One step. -/
def act (e : Endian) (cfg : Config) (x : Host) : HostLabel → Checked Host
  | .tcp env ev ids => x.event e cfg env ev ids
  | .udp ev id => x.other e cfg (.call ev id)
  | .hear env iface packet pad ids =>
      if iface ∈ cfg.ifaces then do
        match ← segmentIn e iface (packet ++ pad) with
        | some s => x.event e cfg env (.arrive s) ids
        | none => x.other e cfg (.hear iface packet pad (ids.headD 0))
      else return x

/-- The steps that may be made: what is heard was sent by the host `y`, and each host begins at
most one connection. -/
structure Allows (e : Endian) (cfg : Config) (x y : Host) (label : HostLabel) : Prop where
  called : ∀ env s ids, label ≠ .tcp env (.arrive s) ids
  heard : ∀ env iface packet pad ids, label = .hear env iface packet pad ids → packet ∈ y.wire
  routes : ∀ env ev, label.event e = some (env, ev) → env.routes = cfg.routes
  begins : ∀ env ev, label.event e = some (env, ev) → Tcp.begins env x.tcp ev = true →
    x.begun = false

end Host

/-- The two hosts. -/
structure Hosts where
  host : Host := {}
  peer : Host := {}

/-- The states reached by any interleaving of the steps of the two hosts. -/
def Hosts.Reachable (e : Endian) (cfg : Tcp.Party → Config) : Hosts → Prop :=
  Machine.Reach (· = {}) fun w (label : Tcp.Party × HostLabel) w' ↦
    match label.1 with
    | .host => w'.peer = w.peer ∧ w.host.Allows e (cfg .host) w.peer label.2 ∧
        w.host.act e (cfg .host) label.2 = .ok w'.host
    | .peer => w'.host = w.host ∧ w.peer.Allows e (cfg .peer) w.host label.2 ∧
        w.peer.act e (cfg .peer) label.2 = .ok w'.peer

/-! ## Segments in packets -/

/-- A packet that was built of a segment. -/
def Packed (e : Endian) (cfg : Config) (s : TcpSegment) (packet : List U8) : Prop :=
  ∃ bytes, ∃ iface ∈ cfg.ifaces, Tcp.encode e s = .ok bytes ∧
    (s.src.addr = .any ∨ s.src.addr = iface.unicast) ∧
    Built e Stack.protocolTcp bytes iface.unicast s.dst.addr packet

/-- The checksum tells the address of every interface from `0.0.0.0`.  An address whose halves add
up to `0xffff`, such as `10.0.245.255`, looks like it to the checksum. -/
def Config.Tells (e : Endian) (cfg : Config) : Prop :=
  ∀ iface ∈ cfg.ifaces, ¬ 65535 ∣ wordSum e iface.unicast.octets

section

variable {e : Endian} {cfg : Config} {iface : IpIface} {s s' : TcpSegment}
  {bytes packet pad : List U8} {src dst addr : IpAddr} {protocol : U8}

/-- The octets of a segment. -/
theorem encode_spec (h : Tcp.encode e s = .ok bytes) :
    bytes.length = tcpHdrSize + s.data.length ∧
      (bytes.length ≤ 131068 → Tcp.segmentCksum e s.src.addr s.dst.addr bytes = .ok 0) := by
  obtain ⟨sum, hsum, h⟩ := Machine.exists_of_bind_ok h
  obtain ⟨_, -, h⟩ := Machine.exists_of_bind_ok h
  obtain rfl := Except.ok.inj h
  have hlength : (Tcp.encodeHead s ++ neBytes16 e sum ++ ([0, 0] ++ s.data)).length =
      tcpHdrSize + s.data.length := by
    simp only [List.length_append, Tcp.length_encodeHead, length_neBytes16, List.length_cons,
      List.length_nil, tcpHdrSize]
    omega
  exact ⟨hlength, fun hle ↦ Tcp.segmentCksum_encoded (hlength ▸ hle) hsum⟩

theorem wordSum_pseudoHeader (e : Endian) (src dst : IpAddr) (len : U16) :
    wordSum e (Tcp.buildPseudoHeader src dst len) =
      wordSum e src.octets + wordSum e (dst.octets ++ ([0, 6] ++ beBytes16 len)) := by
  rw [← wordSum_append e (by simp [IpAddr.octets])]
  simp only [Tcp.buildPseudoHeader, List.append_assoc]

/-- A segment that is right for no address is right for those only that look like it. -/
theorem dvd_of_segmentCksum (hlen : bytes.length ≤ 65535)
    (hany : Tcp.segmentCksum e .any dst bytes = .ok 0)
    (haddr : Tcp.segmentCksum e addr dst bytes = .ok 0) : 65535 ∣ wordSum e addr.octets := by
  have hpseudo : ∀ src : IpAddr, (Tcp.buildPseudoHeader src dst
      (BitVec.ofNat 16 bytes.length)).length ≤ 131068 := by
    intro src
    simp [Tcp.buildPseudoHeader, IpAddr.octets, beBytes16]
  have hlong : bytes.length ≤ 131068 := Nat.le_trans hlen (by decide)
  rw [Tcp.segmentCksum_eq] at hany haddr
  have hzero := modEq_zero_of_seededCksum (hpseudo _) hlong hany
  have hzero' := modEq_zero_of_seededCksum (hpseudo _) hlong haddr
  have hsame := Nat.ModEq.add_right_cancel' _ (hzero'.trans hzero.symm)
  rw [wordSum_pseudoHeader, wordSum_pseudoHeader] at hsame
  have hnone : wordSum e IpAddr.any.octets = 0 := by
    cases e with
    | little | big => rfl
  rw [hnone] at hsame
  exact (Nat.modEq_zero_iff_dvd).mp (Nat.ModEq.add_right_cancel' _ hsame)

/-- What is heard of a packet. -/
theorem segmentIn_built (hbuilt : Built e protocol bytes src dst packet)
    (hprotocol : protocol ∈ Stack.protocols)
    (h : segmentIn e iface (packet ++ pad) = .ok (some s)) :
    protocol = Stack.protocolTcp ∧ Tcp.input e src dst iface bytes = .ok (.arrives s) := by
  obtain ⟨r, hr, hrest⟩ := Machine.exists_of_bind_ok h
  rcases hbuilt.input hprotocol iface pad with ⟨reason, hdrop⟩ | ⟨hdr, hnew, hsrc, hdst, hdeliver⟩
  · obtain rfl := Except.ok.inj (hdrop.symm.trans hr)
    exact absurd (Except.ok.inj hrest) (by simp)
  · obtain rfl := Except.ok.inj (hdeliver.symm.trans hr)
    dsimp only at hrest
    rw [hnew] at hrest
    dsimp only at hrest
    split at hrest
    · next htcp =>
      obtain ⟨r, hr, hrest⟩ := Machine.exists_of_bind_ok hrest
      cases r with
      | drop reason => exact absurd (Except.ok.inj hrest) (by simp)
      | arrives s' =>
          obtain rfl : s' = s := by simpa using Except.ok.inj hrest
          rw [hsrc, hdst] at hr
          exact ⟨htcp, hr⟩
    · exact absurd (Except.ok.inj hrest) (by simp)

/-- **A segment that is heard is the one that was sent.** -/
theorem Packed.eq (h : Packed e cfg s packet) (hcfg : cfg.Tells e)
    (hheard : segmentIn e iface (packet ++ pad) = .ok (some s')) : s = s' := by
  obtain ⟨bytes, ifc, hmem, hencode, hsrc, hbuilt⟩ := h
  obtain ⟨hlength, hcksum⟩ := encode_spec hencode
  have hfits := hbuilt.length_le
  obtain ⟨-, hinput⟩ := segmentIn_built hbuilt (by decide) hheard
  have hlen : bytes.length ≤ 65535 := Nat.le_trans (Nat.le_add_left _ _) hfits
  obtain ⟨hdr, hacc⟩ : ∃ hdr, Tcp.Accepted e ifc.unicast s.dst.addr iface bytes hdr := by
    by_contra hno
    obtain ⟨d, hdrop⟩ := Tcp.input_dropped hlen fun hdr hacc ↦ hno ⟨hdr, hacc⟩
    exact absurd (hdrop.symm.trans hinput) (by simp)
  have hsrc : s.src.addr = ifc.unicast := by
    refine hsrc.resolve_left fun hany ↦ hcfg ifc hmem ?_
    have hany := hany ▸ hcksum (Nat.le_trans hlen (by decide))
    exact dvd_of_segmentCksum hlen hany hacc.cksum
  have hunicast : ¬ (s.src.addr = .broadcast ∨ s.src.addr = iface.broadcast ∨
      s.dst.addr = .broadcast ∨ s.dst.addr = iface.broadcast) := hsrc ▸ hacc.unicast
  obtain ⟨bytes', hencode', -, harrives⟩ := Tcp.input_encode e (hlength ▸ hlen) hunicast
  obtain rfl := Except.ok.inj (hencode'.symm.trans hencode)
  rw [hsrc, hinput] at harrives
  simpa using harrives.symm

/-- The packets of a segment. -/
theorem sendSegment_packed {id : U16} {sent : List (List U8)}
    (h : sendSegment e cfg s id = .ok sent) (hpacket : packet ∈ sent) : Packed e cfg s packet := by
  obtain ⟨bytes, hencode, h⟩ := Machine.exists_of_bind_ok h
  obtain ⟨route, hroute, -, hsrc, hbuilt⟩ := transmit_spec h hpacket
  exact ⟨bytes, route.iface, cfg.iface_mem route hroute, hencode, hsrc, hbuilt⟩

theorem sendAll_packed {ss : List TcpSegment} {ids : List U16} {sent : List (List U8)}
    (h : sendAll e cfg ss ids = .ok sent) (hpacket : packet ∈ sent) :
    ∃ s ∈ ss, Packed e cfg s packet := by
  induction ss generalizing ids sent with
  | nil =>
      obtain rfl := Except.ok.inj h
      exact absurd hpacket (by simp)
  | cons s ss ih =>
      obtain ⟨first, hfirst, h⟩ := Machine.exists_of_bind_ok h
      obtain ⟨rest, hrest, h⟩ := Machine.exists_of_bind_ok h
      obtain rfl := Except.ok.inj h
      rcases List.mem_append.mp hpacket with hpacket | hpacket
      · exact ⟨s, List.mem_cons_self, sendSegment_packed hfirst hpacket⟩
      · obtain ⟨s', hs', hpacked⟩ := ih hrest hpacket
        exact ⟨s', List.mem_cons_of_mem s hs', hpacked⟩

end

/-! ## What TCP makes of it -/

/-- The packet holds a segment that is in the network of TCP, or none. -/
def Carried (e : Endian) (cfg : Config) (net : List TcpSegment) (packet : List U8) : Prop :=
  (∃ s ∈ net, Packed e cfg s packet) ∨
    ∃ protocol ∈ Stack.protocols, protocol ≠ Stack.protocolTcp ∧
      ∃ data src dst, Built e protocol data src dst packet

/-- The host is the side `s` of `Tcp.World`, as far as TCP is concerned. -/
structure Host.Shows (e : Endian) (cfg : Config) (x : Host) (s : Tcp.Side) : Prop where
  tcp : s.tcp = x.tcp
  begun : s.begun = x.begun
  queued : s.queued = x.queued
  taken : s.taken = x.taken
  wire : ∀ packet ∈ x.wire, Carried e cfg s.net packet

namespace Host

section

variable {e : Endian} {cfg cfg' : Config} {x x' y : Host} {s t : Tcp.Side} {env : Env}
  {ev : Event} {ids : List U16}

theorem Shows.initial (e : Endian) (cfg : Config) : Shows e cfg {} {} where
  tcp := rfl
  begun := rfl
  queued := rfl
  taken := rfl
  wire := by simp

/-- A critical section of TCP is a step of the side. -/
theorem Shows.event (h : x.Shows e cfg s) (hevent : x.event e cfg env ev ids = .ok x') :
    ∃ out, Tcp.step env s.tcp ev = .ok out ∧ x'.Shows e cfg (s.after env ev out) := by
  obtain ⟨out, hout, hevent⟩ := Machine.exists_of_bind_ok hevent
  obtain ⟨sent, hsent, hevent⟩ := Machine.exists_of_bind_ok hevent
  obtain rfl := Except.ok.inj hevent
  refine ⟨out, h.tcp.symm ▸ hout, ?_⟩
  constructor
  case tcp => rfl
  case begun => simp only [Tcp.Side.after, h.begun, h.tcp]
  case queued => simp only [Tcp.Side.after, h.queued]
  case taken => simp only [Tcp.Side.after, h.taken]
  case wire =>
    intro packet hpacket
    rcases List.mem_append.mp hpacket with hpacket | hpacket
    · rcases h.wire packet hpacket with ⟨seg, hseg, hpacked⟩ | hother
      · exact .inl ⟨seg, List.mem_append_left _ hseg, hpacked⟩
      · exact .inr hother
    · obtain ⟨seg, hseg, hpacked⟩ := sendAll_packed hsent hpacket
      exact .inl ⟨seg, List.mem_append_right _ hseg, hpacked⟩

/-- What UDP and ICMP send is no segment. -/
theorem Shows.other (h : x.Shows e cfg s) {label : Label}
    (hlabel : ∀ data src dst id, label ≠ .segment data src dst id)
    (hother : x.other e cfg label = .ok x') : x'.Shows e cfg s := by
  obtain ⟨out, hout, hother⟩ := Machine.exists_of_bind_ok hother
  obtain rfl := Except.ok.inj hother
  refine { h with wire := fun packet hpacket ↦ ?_ }
  rcases List.mem_append.mp hpacket with hpacket | hpacket
  · exact h.wire packet hpacket
  cases origin_of_act hout hpacket with
  | datagram hsends hiface hsrc hbuilt =>
      exact .inr ⟨_, by decide, by decide, _, _, _, hbuilt⟩
  | segment hbuilt => exact absurd rfl (hlabel _ _ _ _)
  | answer hm hbuilt => exact .inr ⟨_, by decide, by decide, _, _, _, hbuilt⟩

/-- What a host does that hears a packet. -/
theorem act_hear_cases {iface : IpIface} {packet pad : List U8}
    (h : x.act e cfg (.hear env iface packet pad ids) = .ok x') :
    x' = x ∨ x.other e cfg (.hear iface packet pad (ids.headD 0)) = .ok x' ∨
      ∃ seg, segmentIn e iface (packet ++ pad) = .ok (some seg) ∧
        x.event e cfg env (.arrive seg) ids = .ok x' := by
  change (if iface ∈ cfg.ifaces then _ else _) = _ at h
  split at h
  · obtain ⟨r, hr, h⟩ := Machine.exists_of_bind_ok h
    cases r with
    | none => exact .inr (.inl h)
    | some seg => exact .inr (.inr ⟨seg, hr, h⟩)
  · exact .inl (Except.ok.inj h).symm

/-- A segment that is heard was sent by the other side. -/
theorem Shows.heard (hy : y.Shows e cfg' t) (hcfg : cfg'.Tells e) {iface : IpIface}
    {packet pad : List U8} {seg : TcpSegment} (hpacket : packet ∈ y.wire)
    (hseg : segmentIn e iface (packet ++ pad) = .ok (some seg)) : seg ∈ t.net := by
  rcases hy.wire packet hpacket with
    ⟨seg', hmem, hpacked⟩ | ⟨protocol, hprotocol, hne, data, src, dst, hbuilt⟩
  · exact hpacked.eq hcfg hseg ▸ hmem
  · exact absurd (segmentIn_built hbuilt hprotocol hseg).1 hne

/-- **A step of a host is a step of its side, or none.** -/
theorem Shows.act (hx : x.Shows e cfg s) (hy : y.Shows e cfg' t) (hcfg : cfg'.Tells e)
    {label : HostLabel} (hallows : x.Allows e cfg y label) (h : x.act e cfg label = .ok x') :
    x'.Shows e cfg s ∨ ∃ env ev s', s.Acts t env ev s' ∧ x'.Shows e cfg s' := by
  have hbegins : ∀ env ev, label.event e = some (env, ev) → Tcp.begins env s.tcp ev = true →
      s.begun = false := by
    intro env ev hevent hbegins
    rw [hx.tcp] at hbegins
    rw [hx.begun]
    exact hallows.begins env ev hevent hbegins
  cases label with
  | tcp env ev ids =>
      obtain ⟨out, hout, hshows⟩ := hx.event h
      refine .inr ⟨env, ev, _, ⟨fun seg hseg ↦ ?_, hbegins env ev rfl, out, hout, rfl⟩, hshows⟩
      exact absurd (hseg ▸ rfl) (hallows.called env seg ids)
  | udp ev id => exact .inl (hx.other (by simp) h)
  | hear env iface packet pad ids =>
      rcases act_hear_cases h with rfl | hother | ⟨seg, hseg, hevent⟩
      · exact .inl hx
      · exact .inl (hx.other (by simp) hother)
      · obtain ⟨out, hout, hshows⟩ := hx.event hevent
        have hlabel : HostLabel.event e (.hear env iface packet pad ids) =
            some (env, .arrive seg) := by
          simp only [HostLabel.event, hseg]
        have hmem := hy.heard hcfg (hallows.heard env iface packet pad ids rfl) hseg
        refine .inr ⟨env, .arrive seg, _, ⟨?_, hbegins _ _ hlabel, out, hout, rfl⟩, hshows⟩
        rintro _ ⟨⟩
        exact hmem

end

end Host

/-- **The hosts refine `Tcp.World`.** -/
theorem Hosts.Reachable.shown {e : Endian} {cfg : Tcp.Party → Config} {w : Hosts}
    (h : Hosts.Reachable e cfg w) (hcfg : ∀ party, (cfg party).Tells e) :
    ∃ v : Tcp.World, v.Reachable ∧ w.host.Shows e (cfg .host) v.host ∧
      w.peer.Shows e (cfg .peer) v.peer := by
  refine Machine.Reach.simulated (fun w (v : Tcp.World) ↦ w.host.Shows e (cfg .host) v.host ∧
    w.peer.Shows e (cfg .peer) v.peer) ?_ ?_ h
  · rintro _ rfl
    exact ⟨{}, rfl, .initial e _, .initial e _⟩
  · rintro w ⟨party, label⟩ w' v ⟨hhost, hpeer⟩ hstep
    cases party with
    | host =>
        obtain ⟨hsame, hallows, hact⟩ := hstep
        rcases hhost.act hpeer (hcfg .peer) hallows hact with hshows | ⟨env, ev, s', hacts, hshows⟩
        · exact .inl ⟨hshows, hsame ▸ hpeer⟩
        · exact .inr ⟨(.host, env, ev), { v with host := s' }, ⟨rfl, hacts⟩, hshows, hsame ▸ hpeer⟩
    | peer =>
        obtain ⟨hsame, hallows, hact⟩ := hstep
        rcases hpeer.act hhost (hcfg .host) hallows hact with hshows | ⟨env, ev, s', hacts, hshows⟩
        · exact .inl ⟨hsame ▸ hhost, hshows⟩
        · exact .inr ⟨(.peer, env, ev), { v with peer := s' }, ⟨rfl, hacts⟩, hsame ▸ hhost, hshows⟩

/-! ## A run that is evaluated -/

/-- `Host.Allows` as a test. -/
def Host.allowed (e : Endian) (cfg : Config) (x y : Host) (label : HostLabel) : Bool :=
  (match label with
    | .tcp _ (.arrive _) _ => false
    | _ => true) &&
  (match label with
    | .hear _ _ packet _ _ => decide (packet ∈ y.wire)
    | _ => true) &&
  match label.event e with
  | some (env, ev) =>
      decide (env.routes = cfg.routes) && (!Tcp.begins env x.tcp ev || !x.begun)
  | none => true

theorem Host.allows_of_allowed {e : Endian} {cfg : Config} {x y : Host} {label : HostLabel}
    (h : x.allowed e cfg y label = true) : x.Allows e cfg y label := by
  simp only [Host.allowed, Bool.and_eq_true] at h
  obtain ⟨⟨hcalled, hheard⟩, hevent⟩ := h
  constructor
  case called =>
    rintro env s ids rfl
    exact absurd hcalled (by simp)
  case heard =>
    rintro env iface packet pad ids rfl
    exact of_decide_eq_true hheard
  case routes =>
    intro env ev hlabel
    rw [hlabel] at hevent
    exact of_decide_eq_true ((Bool.and_eq_true _ _).mp hevent).1
  case begins =>
    intro env ev hlabel hbegins
    rw [hlabel] at hevent
    have hbegun := ((Bool.and_eq_true _ _).mp hevent).2
    simpa [hbegins] using hbegun

/-- A step of the hosts, as a function. -/
def Hosts.act (e : Endian) (cfg : Tcp.Party → Config) (w : Hosts)
    (label : Tcp.Party × HostLabel) : Checked Hosts :=
  match label.1 with
  | .host =>
      if w.host.allowed e (cfg .host) w.peer label.2 then
        (w.host.act e (cfg .host) label.2).map fun x ↦ { w with host := x }
      else .error .unwrap
  | .peer =>
      if w.peer.allowed e (cfg .peer) w.host label.2 then
        (w.peer.act e (cfg .peer) label.2).map fun x ↦ { w with peer := x }
      else .error .unwrap

theorem exists_reachable_hosts (e : Endian) (cfg : Tcp.Party → Config) (P : Hosts → Bool)
    (labels : List (Tcp.Party × HostLabel))
    (h : Machine.execTest (Hosts.act e cfg) P {} labels = true) :
    ∃ w : Hosts, Hosts.Reachable e cfg w ∧ P w = true := by
  refine Machine.exists_reach_of_execTest ?_ rfl h
  rintro w ⟨party, label⟩ w' hstep
  cases party with
  | host | peer =>
      simp only [Hosts.act] at hstep
      split at hstep
      · next hallowed =>
        obtain ⟨x, hx, rfl⟩ := Machine.exists_of_map_ok hstep
        exact ⟨rfl, Host.allows_of_allowed hallowed, hx⟩
      · exact absurd hstep (by simp)

/-- The host is `192.0.2.1`, and the peer `192.0.2.2`. -/
def wired : Tcp.Party → Config
  | .host => .sample 1
  | .peer => .sample 2

/-- What the peer sends: a SYN, the acknowledgement of the other one, and five octets in two
segments. -/
def peerPackets : List (List U8) :=
  [[69, 0, 0, 40, 0, 0, 0, 0, 255, 6, 55, 204, 192, 0, 2, 2, 192, 0, 2, 1, 0, 9, 0, 7, 0, 0, 1, 244,
      0, 0, 0, 0, 80, 2, 255, 255, 41, 219, 0, 0],
    [69, 0, 0, 40, 0, 0, 0, 0, 255, 6, 55, 204, 192, 0, 2, 2, 192, 0, 2, 1, 0, 9, 0, 7, 0, 0, 1,
      245, 0, 0, 0, 101, 80, 16, 255, 255, 41, 103, 0, 0],
    [69, 0, 0, 43, 0, 0, 0, 0, 255, 6, 55, 201, 192, 0, 2, 2, 192, 0, 2, 1, 0, 9, 0, 7, 0, 0, 1,
      245, 0, 0, 0, 101, 80, 24, 255, 255, 37, 90, 0, 0, 1, 2, 3],
    [69, 0, 0, 42, 0, 0, 0, 0, 255, 6, 55, 202, 192, 0, 2, 2, 192, 0, 2, 1, 0, 9, 0, 7, 0, 0, 1,
      248, 0, 0, 0, 101, 80, 24, 255, 255, 37, 85, 0, 0, 4, 5]]

/-- The SYN of the host. -/
def hostPacket : List U8 :=
  [69, 0, 0, 40, 0, 0, 0, 0, 255, 6, 55, 204, 192, 0, 2, 1, 192, 0, 2, 2, 0, 7, 0, 9, 0, 0, 0, 100,
    0, 0, 1, 245, 80, 18, 255, 255, 41, 102, 0, 0]

/-- The two segments arrive out of order, with three octets behind them, and the first of them
twice; on the peer a datagram is sent in between. -/
def wiredRun : List (Tcp.Party × HostLabel) :=
  [(.host, .tcp (env .host 100) (.openCall Tcp.hostEndp .any false) []),
    (.peer, .tcp (env .peer 500) (.openCall Tcp.peerEndp Tcp.hostEndp true) []),
    (.host, .hear (env .host 100) (hostIface 1) (peerPackets.getD 0 []) [] []),
    (.peer, .hear (env .peer 500) (hostIface 2) hostPacket [] []),
    (.peer, .tcp (env .peer 500) (.openFinish 0) []),
    (.host, .hear (env .host 100) (hostIface 1) (peerPackets.getD 1 []) [] []),
    (.peer, .tcp (env .peer 500) (.send 0 [1, 2, 3] 0) []),
    (.peer, .udp .open 0),
    (.peer, .udp (.sendto 0 [6] Tcp.hostEndp) 0),
    (.peer, .tcp (env .peer 500) (.send 0 [4, 5] 0) []),
    (.host, .hear (env .host 100) (hostIface 1) (peerPackets.getD 3 []) [0, 0, 0] []),
    (.host, .hear (env .host 100) (hostIface 1) (peerPackets.getD 2 []) [0, 0, 0] []),
    (.host, .hear (env .host 100) (hostIface 1) (peerPackets.getD 2 []) [0, 0, 0] []),
    (.host, .tcp (env .host 100) (.receive 0 8) [])]
where
  env (party : Tcp.Party) (isn : U32) : Env :=
    { now := 0, random32 := isn, ipOutput := fun _ ↦ true, routes := (wired party).routes }

/-! ## Streams -/

/-- **Streams are intact on the wire**: whatever packets are lost, duplicated, delayed and
reordered, and whatever UDP and ICMP send besides, TCP runs on each host as on a side of a reachable
`Tcp.World`, and what `receive` has returned on one host is a prefix of what `send` has queued on
the other. -/
theorem streams_intact {e : Endian} {cfg : Tcp.Party → Config} {w : Hosts}
    (h : Hosts.Reachable e cfg w) (hcfg : ∀ party, (cfg party).Tells e) :
    (∃ v : Tcp.World, v.Reachable ∧ v.host.tcp = w.host.tcp ∧ v.peer.tcp = w.peer.tcp) ∧
      w.host.taken <+: w.peer.queued ∧ w.peer.taken <+: w.host.queued := by
  obtain ⟨v, hv, hhost, hpeer⟩ := h.shown hcfg
  obtain ⟨iss, iss', hlink, hlink'⟩ := hv.linked
  refine ⟨⟨v, hv, hhost.tcp, hpeer.tcp⟩, ?_, ?_⟩
  · rw [← hhost.taken, ← hpeer.queued]
    exact hlink.taken
  · rw [← hpeer.taken, ← hhost.queued]
    exact hlink'.taken

/-- Three of the five octets are received, and they are the first three. -/
theorem streams_intact_wired : ∃ w : Hosts, Hosts.Reachable .little wired w ∧
    w.peer.queued = [1, 2, 3, 4, 5] ∧ w.host.taken = [1, 2, 3] ∧
      w.host.taken <+: w.peer.queued := by
  obtain ⟨w, hreach, htest⟩ := exists_reachable_hosts .little wired
    (fun w ↦ w.peer.queued = [1, 2, 3, 4, 5] && w.host.taken = [1, 2, 3]) wiredRun
    (by decide +kernel)
  simp only [Bool.and_eq_true, decide_eq_true_eq] at htest
  have htells : ∀ party, (wired party).Tells .little := by
    intro party
    cases party with
    | host | peer =>
        intro iface hiface
        obtain rfl := List.mem_singleton.mp hiface
        decide
  exact ⟨w, hreach, htest.1, htest.2, (streams_intact hreach htells).2.1⟩

end Microps.Internet
