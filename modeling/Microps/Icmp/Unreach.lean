import Microps.Stack

/-!
# Destination unreachable

Two places report an unreachable destination: `ip::input` a protocol that nobody has registered,
and `udp::input` a port that no block matches.  Both quote the header of the packet and the first
octets of its payload.  `udp::input` does so only for packets to the unicast address; `ip::input`
has no such test, so an unknown protocol is reported for a broadcast as well.
-/

namespace Microps

/-- The ICMP message among the effects of `udp::input`. -/
def Udp.Effect.icmp? : Udp.Effect → Option IcmpMessage
  | .icmp message => some message
  | .notify _ => none

namespace Stack

/-- The ICMP messages with which a host answers a packet: those of `ip::input`, of the handler of
ICMP and of the handler of UDP.  The handler of TCP sends none. -/
def answers (e : Endian) (udp : Udp) (iface : Option IpIface) (data : List U8) :
    Checked (List IcmpMessage) := do
  match ← Ip.input e protocols iface data with
  | .drop _ => return []
  | .unreachable message => return [message]
  | .deliver protocol payload => match Ip.IpHdr.new data, iface with
    | some hdr, some ifc =>
        if protocol = protocolIcmp then
          let reply ← icmpInput e hdr.src ifc payload
          return reply.toList
        else if protocol = Udp.protocolUdp then
          let out ← Udp.input e udp hdr ifc payload
          return out.effects.filterMap Udp.Effect.icmp?
        else return []
    | _, _ => return []

/-- A destination-unreachable message. -/
def IsUnreach (m : IcmpMessage) : Prop := m.bytes.head? = some icmpTypeDestUnreach

/-- The message quotes the header of the packet and the first octets of its payload, eight of them
or as many as there are. -/
def Quotes (m : IcmpMessage) (hdr : Ip.IpHdr) : Prop :=
  m.bytes.drop icmpHdrSize =
    hdr.data.take hdr.hlen ++ ((hdr.data.take hdr.total.toNat).drop hdr.hlen).take 8

/-- The address is that of the interface, and no broadcast address. -/
def OnlyUnicast (dst : IpAddr) (ifc : IpIface) : Prop :=
  dst = ifc.unicast ∧ dst ≠ ifc.broadcast ∧ dst ≠ .broadcast

/-- Every destination-unreachable message with which a packet is answered is for a packet to the
unicast address, and quotes what it should. -/
def ReportsRight (e : Endian) (udp : Udp) (iface : Option IpIface) (data : List U8) : Prop :=
  ∀ ms, answers e udp iface data = .ok ms → ∀ m ∈ ms, IsUnreach m →
    ∃ hdr ifc, Ip.IpHdr.new data = some hdr ∧ iface = some ifc ∧ OnlyUnicast hdr.dst ifc ∧
      Quotes m hdr

/-- The payload of a packet. -/
def payloadOf (hdr : Ip.IpHdr) : List U8 := (hdr.data.take hdr.total.toNat).drop hdr.hlen

/-- The packet calls for a report: its protocol is not registered, or it is a valid datagram to
the unicast address for a port that no block matches. -/
def CallsForReport (e : Endian) (udp : Udp) (hdr : Ip.IpHdr) (ifc : IpIface) : Prop :=
  hdr.protocol ∉ protocols ∨
    hdr.protocol = Udp.protocolUdp ∧ hdr.dst = ifc.unicast ∧
      ∃ g, Udp.parse e hdr.src hdr.dst (payloadOf hdr) = .ok (.ok g) ∧
        Udp.pcbSelect udp.pcbs g.dst = none

/-! ## Messages -/

/-- What `icmp::output` puts into a message. -/
theorem icmpOutput_bytes {e : Endian} {ty code : U8} {values : U32} {data : List U8}
    {src dst : IpAddr} {m : IcmpMessage} (h : icmpOutput e ty code values data src dst = .ok m) :
    m.bytes.head? = some ty ∧ m.bytes.drop icmpHdrSize = data := by
  obtain ⟨sum, -, hret⟩ := Machine.exists_of_bind_ok h
  obtain rfl := Except.ok.inj hret
  obtain ⟨a, b, hfield⟩ := exists_neBytes16 e sum
  rw [hfield]
  exact ⟨rfl, rfl⟩

/-- An echo reply reports nothing. -/
theorem not_isUnreach_of_icmpInput {e : Endian} {src : IpAddr} {iface : IpIface} {data : List U8}
    {m : IcmpMessage} (h : icmpInput e src iface data = .ok (some m)) : ¬ IsUnreach m := by
  obtain ⟨r, -, h⟩ := Machine.exists_of_bind_ok h
  cases r with
  | error reason => exact absurd h (by simp [pure, Except.pure])
  | ok icmp =>
      dsimp only at h
      split at h
      · obtain ⟨message, hmessage, hret⟩ := Machine.exists_of_bind_ok h
        obtain rfl : message = m := by simpa [pure, Except.pure] using hret
        rw [IsUnreach, (icmpOutput_bytes hmessage).1]
        decide
      · exact absurd h (by simp [pure, Except.pure])

/-! ## The two places -/

section

variable {e : Endian} {udp : Udp} {iface : Option IpIface} {data : List U8} {hdr : Ip.IpHdr}
  {ifc : IpIface}

/-- The octets that `ip::input` quotes. -/
theorem take_quoted (data : List U8) (hlen total : Nat) :
    data.take (hlen + min 8 (total - hlen)) =
      data.take hlen ++ ((data.take total).drop hlen).take 8 := by
  rw [List.take_add, List.drop_take, List.take_take]

/-- The handler of UDP reports nothing, unless a datagram that it accepts finds no block and is to
the unicast address. -/
theorem udp_quiet {payload : List U8} {out : Udp.Outcome}
    (hout : Udp.input e udp hdr ifc payload = .ok out)
    (hno : (∃ g, Udp.parse e hdr.src hdr.dst payload = .ok (.ok g) ∧
      Udp.pcbSelect udp.pcbs g.dst = none) → hdr.dst ≠ ifc.unicast) :
    out.effects.filterMap Udp.Effect.icmp? = [] := by
  let env : Udp.Env := ⟨e, []⟩
  cases haccepts : Udp.accepts env (.arrive hdr ifc payload) with
  | none =>
      have hrefused : Udp.input e udp hdr ifc payload = _ := Udp.input_refused env haccepts
      obtain rfl := Except.ok.inj (hrefused.symm.trans hout)
      rfl
  | some g =>
      cases hselect : Udp.pcbSelect udp.pcbs g.dst with
      | none =>
          have hparse := Udp.accepts_arrive.mp haccepts
          have hsilent : Udp.input e udp hdr ifc payload = _ :=
            (Udp.input_unreachable env haccepts hselect).2 (hno ⟨g, hparse, hselect⟩)
          obtain rfl := Except.ok.inj (hsilent.symm.trans hout)
          rfl
      | some d =>
          obtain ⟨p, hp, -, -⟩ := Udp.pcbSelect_some hselect
          have hqueued : Udp.input e udp hdr ifc payload = _ :=
            Udp.input_queued env haccepts hselect hp
          obtain rfl := Except.ok.inj (hqueued.symm.trans hout)
          rfl

variable (hacc : Ip.Accepted e iface data hdr ifc) (hle : hdr.hlen ≤ hdr.total.toNat)

include hacc hle

/-- An unknown protocol. -/
theorem answers_unknown (udp : Udp) (hprotocol : hdr.protocol ∉ protocols) :
    ∃ m, answers e udp iface data = .ok [m] ∧ IsUnreach m ∧ Quotes m hdr := by
  have hdata := Ip.IpHdr.data_of_new hacc.hdr_new
  have htotal := hacc.total_le
  have hsmall := hdr.hlen_le
  have hslice : slice hdr.data 0 (hdr.hlen + min 8 (hdr.total.toNat - hdr.hlen)) =
      .ok (hdr.data.take (hdr.hlen + min 8 (hdr.total.toNat - hdr.hlen))) := by
    rw [slice_ok (Nat.zero_le _) (by rw [hdata]; omega), List.drop_zero]
  obtain ⟨m, hm⟩ := icmpOutput_ok e icmpTypeDestUnreach icmpCodeProtoUnreach 0
    (hdr.data.take (hdr.hlen + min 8 (hdr.total.toNat - hdr.hlen))) ifc.unicast hdr.src
    (by simp only [List.length_take, icmpHdrSize]; omega)
  have hinput : Ip.input e protocols iface data = .ok (.unreachable m) := by
    rw [Ip.input_accepted protocols hacc]
    simp only [Ip.dispatch, hprotocol, if_false, usub_ok hle, hslice, hm, bind, Except.bind]
    rfl
  obtain ⟨hhead, hquoted⟩ := icmpOutput_bytes hm
  refine ⟨m, ?_, hhead, ?_⟩
  · rw [answers, hinput]
    rfl
  · rw [Quotes, hquoted, take_quoted]

/-- A registered protocol gets the payload. -/
theorem input_registered (hprotocol : hdr.protocol ∈ protocols) :
    Ip.input e protocols iface data = .ok (.deliver hdr.protocol (payloadOf hdr)) := by
  have hdata := Ip.IpHdr.data_of_new hacc.hdr_new
  rw [Ip.input_accepted protocols hacc]
  simp only [Ip.dispatch, hprotocol, if_true, slice_ok hle (hdata ▸ hacc.total_le), bind,
    Except.bind]
  rfl

/-- What the handlers answer. -/
theorem answers_registered (udp : Udp) (hprotocol : hdr.protocol ∈ protocols) :
    answers e udp iface data =
      if hdr.protocol = protocolIcmp then
        (icmpInput e hdr.src ifc (payloadOf hdr)).map Option.toList
      else if hdr.protocol = Udp.protocolUdp then
        (Udp.input e udp hdr ifc (payloadOf hdr)).map fun out ↦
          out.effects.filterMap Udp.Effect.icmp?
      else .ok [] := by
  rw [answers, input_registered hacc hle hprotocol]
  simp only [bind, Except.bind, hacc.hdr_new, hacc.iface_eq]
  split
  · cases icmpInput e hdr.src ifc (payloadOf hdr) with
    | error p => rfl
    | ok r => rfl
  split
  · cases Udp.input e udp hdr ifc (payloadOf hdr) with
    | error p => rfl
    | ok out => rfl
  · rfl

/-- A datagram for a port that no block matches. -/
theorem answers_udp (hprotocol : hdr.protocol = Udp.protocolUdp) (hdst : hdr.dst = ifc.unicast)
    {g : Udp.Datagram} (hparse : Udp.parse e hdr.src hdr.dst (payloadOf hdr) = .ok (.ok g))
    (hnone : Udp.pcbSelect udp.pcbs g.dst = none) :
    ∃ m, answers e udp iface data = .ok [m] ∧ IsUnreach m ∧ Quotes m hdr := by
  have haccepts : Udp.accepts ⟨e, []⟩ (.arrive hdr ifc (payloadOf hdr)) = some g :=
    Udp.accepts_arrive.mpr hparse
  obtain ⟨m, hm, hinput⟩ := (Udp.input_unreachable ⟨e, []⟩ haccepts hnone).1 hdst
  obtain ⟨hhead, hquoted⟩ := icmpOutput_bytes hm
  have hudp : Udp.input e udp hdr ifc (payloadOf hdr) =
      .ok { udp := udp, effects := [.icmp m] } := hinput
  refine ⟨m, ?_, hhead, ?_⟩
  · rw [answers_registered hacc hle udp (by rw [hprotocol]; decide), hprotocol,
      if_neg (by decide), if_pos rfl, hudp]
    rfl
  · have hbytes : hdr.asBytes = hdr.data.take hdr.hlen := by
      rw [Ip.IpHdr.asBytes, Ip.IpHdr.data_of_new hacc.hdr_new, Nat.min_eq_left hacc.hlen_le]
    rw [Quotes, hquoted, hbytes, payloadOf]

/-- A packet that calls for a report gets one. -/
theorem exists_report (hcalls : CallsForReport e udp hdr ifc) :
    ∃ m, answers e udp iface data = .ok [m] ∧ IsUnreach m ∧ Quotes m hdr := by
  rcases hcalls with hunknown | ⟨hprotocol, hdst, g, hparse, hnone⟩
  · exact answers_unknown hacc hle udp hunknown
  · exact answers_udp hacc hle hprotocol hdst hparse hnone

/-- A packet that calls for no report gets none. -/
theorem not_isUnreach_of_answers (hno : ¬ CallsForReport e udp hdr ifc) {ms : List IcmpMessage}
    (hms : answers e udp iface data = .ok ms) {m : IcmpMessage} (hm : m ∈ ms) : ¬ IsUnreach m := by
  have hprotocol : hdr.protocol ∈ protocols := by
    by_contra hunknown
    exact hno (.inl hunknown)
  rw [answers_registered hacc hle udp hprotocol] at hms
  split at hms
  · obtain ⟨reply, hreply, rfl⟩ := Machine.exists_of_map_ok hms
    obtain rfl := Option.mem_toList.mp hm
    exact not_isUnreach_of_icmpInput hreply
  split at hms
  · next hudp =>
    obtain ⟨out, hout, rfl⟩ := Machine.exists_of_map_ok hms
    have hquiet := udp_quiet hout fun hg hdst ↦ hno (.inr ⟨hudp, hdst, hg⟩)
    exact absurd hm (by simp [hquiet])
  · cases hms
    exact absurd hm (by simp)

end

/-- A packet that is not answered. -/
theorem answers_rejected {e : Endian} {udp : Udp} {iface : Option IpIface} {data : List U8}
    {ms : List IcmpMessage} (hms : answers e udp iface data = .ok ms)
    (h : ∀ hdr ifc, Ip.Accepted e iface data hdr ifc → ¬ hdr.hlen ≤ hdr.total.toNat) : ms = [] := by
  by_cases hacc : ∃ hdr ifc, Ip.Accepted e iface data hdr ifc
  · obtain ⟨hdr, ifc, hacc⟩ := hacc
    obtain ⟨p, hp⟩ := Ip.dispatch_error e protocols hdr ifc (Nat.lt_of_not_le (h hdr ifc hacc))
    rw [answers, Ip.input_accepted protocols hacc, hp] at hms
    exact absurd hms (by simp [bind, Except.bind])
  · obtain ⟨d, hd⟩ := Ip.input_rejected protocols fun hdr ifc hac ↦ hacc ⟨hdr, ifc, hac⟩
    rw [answers, hd] at hms
    exact (Except.ok.inj hms).symm

/-- **When an unreachable destination is reported as it should be**: exactly if a packet that
calls for a report is to the unicast address only. -/
theorem reportsRight_iff (e : Endian) (udp : Udp) (iface : Option IpIface) (data : List U8) :
    ReportsRight e udp iface data ↔
      ∀ hdr ifc, Ip.Accepted e iface data hdr ifc → hdr.hlen ≤ hdr.total.toNat →
        CallsForReport e udp hdr ifc → OnlyUnicast hdr.dst ifc := by
  constructor
  · intro hright hdr ifc hacc hle hcalls
    obtain ⟨m, hm, hunreach, -⟩ := exists_report hacc hle hcalls
    obtain ⟨hdr', ifc', hnew, hiface, honly, -⟩ :=
      hright _ hm m List.mem_cons_self hunreach
    obtain rfl : hdr = hdr' := Option.some.inj (hacc.hdr_new.symm.trans hnew)
    obtain rfl : ifc = ifc' := Option.some.inj (hacc.iface_eq.symm.trans hiface)
    exact honly
  · intro hcond ms hms m hm hunreach
    by_cases hacc : ∃ hdr ifc, Ip.Accepted e iface data hdr ifc ∧ hdr.hlen ≤ hdr.total.toNat
    · obtain ⟨hdr, ifc, hacc, hle⟩ := hacc
      by_cases hcalls : CallsForReport e udp hdr ifc
      · refine ⟨hdr, ifc, hacc.hdr_new, hacc.iface_eq, hcond hdr ifc hacc hle hcalls, ?_⟩
        obtain ⟨m', hm', -, hquotes⟩ := exists_report hacc hle hcalls
        obtain rfl := Except.ok.inj (hm'.symm.trans hms)
        obtain rfl := List.mem_singleton.mp hm
        exact hquotes
      · exact absurd hunreach (not_isUnreach_of_answers hacc hle hcalls hms hm)
    · obtain rfl := answers_rejected hms fun hdr ifc hac hle ↦ hacc ⟨hdr, ifc, hac, hle⟩
      exact absurd hm (by simp)

/-- A packet of an unassigned protocol to the broadcast address of the subnet 192.0.2.0/24. -/
def broadcastUnknown : List U8 :=
  [0x45, 0x00, 0x00, 0x14, 0x00, 0x00, 0x00, 0x00, 0xff, 0xfd, 0x35, 0xec,
    192, 0, 2, 1, 192, 0, 2, 255]

/-- An interface of that subnet. -/
def subnetIface : IpIface := ⟨⟨192, 0, 2, 2⟩, ⟨255, 255, 255, 0⟩, ⟨192, 0, 2, 255⟩, 1500⟩

/-- The broadcast is answered. -/
theorem broadcast_reported :
    ¬ ReportsRight .little {} (some subnetIface) broadcastUnknown := by
  intro hright
  have hsent : ∃ m, answers .little {} (some subnetIface) broadcastUnknown = .ok [m] ∧
      m.bytes.head? = some icmpTypeDestUnreach := by
    refine ⟨⟨[3, 2, 0xfc, 0xfd, 0, 0, 0, 0] ++ broadcastUnknown, ⟨192, 0, 2, 2⟩,
      ⟨192, 0, 2, 1⟩⟩, ?_, ?_⟩
    · decide +kernel
    · rfl
  obtain ⟨m, hm, hunreach⟩ := hsent
  obtain ⟨hdr, ifc, hnew, hiface, ⟨hdst, hne, -⟩, -⟩ := hright _ hm m List.mem_cons_self hunreach
  obtain rfl : subnetIface = ifc := Option.some.inj hiface
  have hlen : Ip.hdrSizeMin ≤ broadcastUnknown.length := by decide
  obtain rfl : ⟨broadcastUnknown, hlen⟩ = hdr := Option.some.inj hnew
  change (⟨192, 0, 2, 255⟩ : IpAddr) = ⟨192, 0, 2, 2⟩ at hdst
  exact absurd hdst (by decide)

end Stack

end Microps
