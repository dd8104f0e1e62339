import Mathlib.Algebra.Order.BigOperators.Group.List
import Microps.Lan.Truth

/-!
# A packet gets through

Whatever has happened on the network, and whatever the caches hold, two hosts that have a network
in common can still reach each other: when their entries have expired, one of them asks for the
address of the other, which answers, and then both have what they need.  The packet that was to be
sent is lost, but the next one gets through: `packet_gets_through`.
-/

namespace Microps

namespace Arp

section

variable {now : Nat} {pa : IpAddr} {ha : EtherAddr} {cache : Cache}

/-- An entry that was inserted is found, if it is the only one for its address. -/
theorem cacheSelect_cacheInsert (hlacks : Lacks cache pa) (hstuck : ¬ Stuck cache)
    (state : CacheState) :
    cacheSelect (cacheInsert now cache pa ha state) pa = some (state, ha) := by
  have hmem : ⟨state, pa, ha, now⟩ ∈ cacheInsert now cache pa ha state :=
    ((cacheInsert_eq_or now cache pa ha state).resolve_left fun h ↦ hstuck h.1).2
  cases hselect : cacheSelect (cacheInsert now cache pa ha state) pa with
  | none => exact absurd rfl (cacheSelect_none hselect _ hmem)
  | some found =>
      obtain ⟨state', ha'⟩ := found
      obtain ⟨entry, hentry, hpa, hstate, hha⟩ := cacheSelect_some hselect
      rcases mem_cacheInsert hentry with rfl | hold
      · rw [← hstate, ← hha]
      · exact absurd hpa (hlacks entry hold)

/-- An entry that was updated is found. -/
theorem cacheSelect_cacheUpdate (h : (cacheUpdate now pa ha cache).1 = true) :
    cacheSelect (cacheUpdate now pa ha cache).2 pa = some (.resolved, ha) := by
  induction cache with
  | nil => exact absurd h (by simp [cacheUpdate])
  | cons entry rest ih =>
      unfold cacheUpdate at h ⊢
      by_cases hpa : entry.pa = pa
      · simp [hpa, cacheSelect]
      · simp only [if_neg hpa] at h ⊢
        rw [← ih h]
        simp [cacheSelect, hpa]

/-- **A packet for the interface of the device** makes the sender known, and is answered if it is a
request. -/
theorem input_encode (now : Nat) {dev : Device} {iface : IpIface} (hiface : dev.iface = some iface)
    (hstuck : ¬ Stuck cache) (op : U16) (sha : EtherAddr) (spa : IpAddr) (tha : EtherAddr)
    (pad : List U8) :
    cacheSelect (input now dev cache (encode op sha spa tha iface.unicast ++ pad)).cache spa =
        some (.resolved, sha) ∧
      (input now dev cache (encode op sha spa tha iface.unicast ++ pad)).sent =
        if op = opRequest then [reply dev sha spa iface.unicast] else [] := by
  obtain ⟨hdr, arp, hparse, rfl, rfl, rfl, htpa⟩ :=
    parse_encode op sha spa tha iface.unicast pad
  simp only [input, hparse, hiface, if_pos htpa]
  refine ⟨?_, trivial⟩
  cases hmerge : (cacheUpdate now arp.spa arp.sha cache).1 with
  | true => simpa using cacheSelect_cacheUpdate hmerge
  | false =>
      obtain ⟨hlacks, hsame⟩ := cacheUpdate_false hmerge
      rw [hsame]
      simpa using cacheSelect_cacheInsert hlacks hstuck .resolved

/-- When enough time has passed, nothing is left but what is static. -/
theorem onTimer_eq_nil (hdynamic : ∀ entry ∈ cache, entry.state ≠ .static)
    (hlate : ∀ entry ∈ cache, entry.timestamp + cacheTimeout ≤ now) : onTimer now cache = [] := by
  rw [onTimer_eq, List.filter_eq_nil_iff]
  intro entry hentry
  have hold := hlate entry hentry
  have hexpired : entry.expired now = true :=
    decide_eq_true ⟨hdynamic entry hentry, by omega⟩
  simp [hexpired]

end

end Arp

namespace Lan

/-- An Ethernet interface of a host that is up. -/
structure Port (cfg : Config) where
  dev : Device
  iface : IpIface
  dev_mem : dev ∈ cfg.devices
  ops_eq : dev.ops = .etherTap
  up : dev.up
  iface_eq : dev.iface = some iface

section

variable {ι : Type} {e : Endian} {cfg : ι → Config} {i j : ι}

/-- A packet that is not too long becomes a frame, which is taken where it goes. -/
theorem Port.frames (a : Port (cfg i)) (packet : Packet)
    (hlen : packet.data.length ≤ etherPayloadSizeMax) :
    ∃ frame, Sending.frames ⟨a.dev, packet⟩ = [frame] ∧
      ∀ rx : Device, packet.dst = rx.addr ∨ packet.dst = .broadcast →
        ∃ pad, EtherTap.input rx frame = some (packet.ty, packet.data ++ pad) := by
  have hmtu : ¬ a.dev.mtu < BitVec.ofNat 16 packet.data.length := by
    rw [BitVec.lt_def, (cfg i).mtu_tap a.dev a.dev_mem a.ops_eq, BitVec.toNat_ofNat]
    exact Nat.not_lt.mpr (Nat.le_trans (Nat.mod_le _ _) hlen)
  let peer : Device :=
    { up := true, mtu := 1500, addr := packet.dst, broadcast := .broadcast, iface := none }
  have hdst : packet.dst.octets.take etherAddrLen = peer.addr.octets := rfl
  obtain ⟨frame, -, htransmit, -⟩ := EtherTap.input_transmit a.dev packet.ty hdst hlen
  refine ⟨frame, ?_, fun rx hdst ↦ ?_⟩
  · simp [Sending.frames, Device.output, a.up, hmtu, a.ops_eq, htransmit, Except.map]
  · obtain ⟨pad, hinput⟩ := @EtherTap.input_of_transmit _ rx _ _ _ _ htransmit
    refine ⟨pad, hinput.trans (if_pos ?_)⟩
    rcases hdst with h | h
    · exact .inl (by rw [h]; rfl)
    · exact .inr (by rw [h]; rfl)

/-- A packet that `ip::output` prepares, and its way to an interface of the next hop. -/
structure Hop (e : Endian) (a : Port (cfg i)) (b : Port (cfg j)) (protocol : U8) (data : List U8)
    (src dst : IpAddr) (id : U16) (p : Ip.Prepared) : Prop where
  prepare : Ip.prepare e (cfg i).routes protocol data src dst id = .ok (.ok p)
  dev : (cfg i).devOf p.iface = a.dev
  target : p.target = b.iface.unicast
  unicast : ¬ (p.target = p.iface.broadcast ∨ p.target = .broadcast)

variable {a : Port (cfg i)} {b : Port (cfg j)} {protocol : U8} {data : List U8} {src dst : IpAddr}
  {id : U16} {p : Ip.Prepared}

theorem Hop.routed (h : Hop e a b protocol data src dst id p) :
    ∃ route, Ip.Routed e (cfg i).routes protocol data dst id p route := by
  obtain ⟨r, hprepare, hrouted⟩ := Ip.prepare_spec e (cfg i).routes protocol data src dst id
  exact hrouted p (Except.ok.inj (hprepare.symm.trans h.prepare))

theorem Hop.iface (h : Hop e a b protocol data src dst id p) : p.iface = a.iface := by
  obtain ⟨route, hrouted⟩ := h.routed
  have hiface := (cfg i).iface_eq route (Ip.mem_of_routeLookup hrouted.lookup)
  rw [← hrouted.iface, h.dev, a.iface_eq] at hiface
  exact (Option.some.inj hiface).symm

/-- The packet fits a frame. -/
theorem Hop.length_le (h : Hop e a b protocol data src dst id p) :
    p.packet.length ≤ etherPayloadSizeMax := by
  obtain ⟨route, hrouted⟩ := h.routed
  have hroute := Ip.mem_of_routeLookup hrouted.lookup
  have hmtu := (cfg i).mtu_eq route hroute
  rw [← hrouted.iface, h.dev] at hmtu
  have hfits := hrouted.fits
  rw [← hrouted.iface, ← hmtu, (cfg i).mtu_tap a.dev a.dev_mem a.ops_eq] at hfits
  exact hrouted.length ▸ hfits

/-- `output_device` resolves the address of the next hop. -/
theorem Hop.outputDevice_eq (h : Hop e a b protocol data src dst id p) (now : Nat)
    (cache : Arp.Cache) :
    Ip.outputDevice now ((cfg i).devOf p.iface) cache p =
      let found := Arp.resolve (Arp.outputTakes a.dev) now a.dev a.iface cache b.iface.unicast
      match found.reply with
      | .error () => { found with reply := .error () }
      | .ok none => { found with reply := .ok () }
      | .ok (some mac) => Ip.transmit a.dev cache p.packet mac := by
  have harp : ((cfg i).devOf p.iface).needArp = true := by simp [Device.needArp, h.dev, a.ops_eq]
  have hneeds : Ip.outputDevice now ((cfg i).devOf p.iface) cache p =
      let found := Arp.resolve (Arp.outputTakes ((cfg i).devOf p.iface)) now
        ((cfg i).devOf p.iface) p.iface cache p.target
      match found.reply with
      | .error () => { found with reply := .error () }
      | .ok none => { found with reply := .ok () }
      | .ok (some mac) => Ip.transmit ((cfg i).devOf p.iface) cache p.packet mac :=
    (if_pos harp).trans (if_neg h.unicast)
  rw [h.dev, h.target, h.iface] at hneeds
  rwa [h.dev]

/-- The packet is sent where its next hop is known. -/
theorem Hop.exec_known (h : Hop e a b protocol data src dst id p) {host : Host}
    (hknown : Arp.cacheSelect host.cache b.iface.unicast = some (.resolved, b.dev.addr))
    (now : Nat) :
    ∃ frame pad, Network.exec (act e (cfg i)) host [.output protocol data src dst id,
        .insert now host.calls.length, .send host.calls.length] = .ok (host, [frame]) ∧
      EtherTap.input b.dev frame = some (etherTypeIp, p.packet ++ pad) := by
  obtain ⟨frame, hframes, htaken⟩ :=
    a.frames ⟨etherTypeIp, p.packet, b.dev.addr⟩ h.length_le
  obtain ⟨pad, hinput⟩ := htaken b.dev (.inl rfl)
  have hout : Ip.outputDevice now ((cfg i).devOf p.iface) host.cache p =
      Ip.transmit a.dev host.cache p.packet b.dev.addr := by
    rw [h.outputDevice_eq]
    simp only [Arp.resolve, hknown]
  refine ⟨frame, pad, ?_, hinput⟩
  have hexec := exec_output host.cache host.calls now h.prepare
  rw [hout] at hexec
  rw [hexec, Ip.transmit, framesOf, List.flatMap_singleton, h.dev, hframes]

/-- Where its next hop is not known, a request is sent instead. -/
theorem Hop.exec_unknown (h : Hop e a b protocol data src dst id p) {host : Host}
    (hunknown : Arp.cacheSelect host.cache b.iface.unicast = none) (now : Nat) :
    ∃ host' frame pad, Network.exec (act e (cfg i)) host [.output protocol data src dst id,
        .insert now host.calls.length, .send host.calls.length] = .ok (host', [frame]) ∧
      EtherTap.input b.dev frame = some (etherTypeArp,
        Arp.encode Arp.opRequest a.dev.addr a.iface.unicast .any b.iface.unicast ++ pad) := by
  have hbroadcast := (cfg i).broadcast_eq a.dev a.dev_mem a.ops_eq
  obtain ⟨frame, hframes, htaken⟩ :=
    a.frames (Arp.request a.dev a.iface b.iface.unicast)
      (Nat.le_trans (m := Arp.etherIpSize) (Nat.le_of_eq rfl) (by decide))
  obtain ⟨pad, hinput⟩ := htaken b.dev (.inr hbroadcast)
  have hsent : (Ip.outputDevice now ((cfg i).devOf p.iface) host.cache p).sent =
      [Arp.request a.dev a.iface b.iface.unicast] := by
    rw [h.outputDevice_eq, Arp.resolve_of_lacks hunknown]
    cases Arp.outputTakes a.dev (Arp.request a.dev a.iface b.iface.unicast) <;> rfl
  have hexec := exec_output host.cache host.calls now h.prepare
  rw [hsent, framesOf, List.flatMap_singleton, h.dev, hframes] at hexec
  exact ⟨_, frame, pad, hexec, hinput⟩

variable [DecidableEq ι] {w : Network.World ι Host (List U8)}

/-- A call that runs on its own. -/
theorem Leads.call {label : Label} (now : Nat) {out : Host × List (List U8)}
    (hhears : w.Hears (lan e cfg) label)
    (h : Network.exec (act e (cfg i)) ⟨(w.party i).cache, (w.party i).calls⟩
      [label, .insert now (w.party i).calls.length, .send (w.party i).calls.length] = .ok out) :
    Network.Leads (lan e cfg) w (w.after i out) := by
  refine Network.Leads.exec (fun label' hlabel ↦ ?_) h
  rcases List.mem_cons.mp hlabel with rfl | hlabel
  · exact hhears
  · rcases List.mem_cons.mp hlabel with rfl | hlabel
    · exact fun m hm ↦ absurd hm (by simp [lan])
    · obtain rfl := List.mem_singleton.mp hlabel
      exact fun m hm ↦ absurd hm (by simp [lan])

/-- In a reachable world there is always room for an entry. -/
theorem not_stuck (h : Network.Reaches (lan e cfg) Started w) (i : ι) :
    ¬ Arp.Stuck (w.party i).cache := by
  rintro ⟨hfull, hstatic⟩
  obtain ⟨entry, hentry⟩ := List.exists_mem_of_length_pos (Nat.lt_of_lt_of_le (by decide) hfull)
  exact (((Reaches.honest h).1 i).cache entry hentry).dynamic (hstatic entry hentry)

/-- **A packet that is heard**: the receiver knows the sender then, and answers a request. -/
theorem Leads.hear (h : Network.Reaches (lan e cfg) Started w) (b : Port (cfg j)) {frame : List U8}
    (hframe : frame ∈ w.net) {op : U16} {sha : EtherAddr} {spa : IpAddr} {tha : EtherAddr}
    {pad : List U8} (hinput : EtherTap.input b.dev frame =
      some (etherTypeArp, Arp.encode op sha spa tha b.iface.unicast ++ pad)) (now : Nat) :
    ∃ out : Host × List (List U8), Network.Leads (lan e cfg) w (w.after j out) ∧
      Arp.cacheSelect out.1.cache spa = some (.resolved, sha) ∧
      out.2 = if op = Arp.opRequest then
        Sending.frames ⟨b.dev, Arp.reply b.dev sha spa b.iface.unicast⟩ else [] := by
  obtain ⟨hselect, hsent⟩ :=
    Arp.input_encode now b.iface_eq (not_stuck h j) op sha spa tha pad
  refine ⟨_, Leads.call now ?_ (exec_hear now ⟨b.dev_mem, b.ops_eq⟩ hinput), hselect, ?_⟩
  · rintro m hm
    cases hm
    exact hframe
  · dsimp only
    rw [hsent]
    split
    · simp [framesOf]
    · rfl

/-- **An exchange**: a host that does not know the next hop asks for it, and then both know each
other. -/
theorem Leads.exchange (h : Network.Reaches (lan e cfg) Started w) (hij : i ≠ j)
    (hop : Hop e a b protocol data src dst id p)
    (hunknown : Arp.cacheSelect (w.party i).cache b.iface.unicast = none) (now : Nat) :
    ∃ w', Network.Leads (lan e cfg) w w' ∧
      Arp.cacheSelect (w'.party i).cache b.iface.unicast = some (.resolved, b.dev.addr) ∧
      Arp.cacheSelect (w'.party j).cache a.iface.unicast = some (.resolved, a.dev.addr) := by
  obtain ⟨host', frame, pad, hexec, hinput⟩ := hop.exec_unknown hunknown now
  have hask : Network.Leads (lan e cfg) w (w.after i (host', [frame])) :=
    Leads.call now (fun m hm ↦ absurd hm (by simp [lan])) hexec
  obtain ⟨out, hanswer, hknows, hout⟩ :=
    Leads.hear (h.leads hask) b (List.mem_append_right _ List.mem_cons_self) hinput now
  obtain ⟨reply, hreply, htaken⟩ :=
    b.frames (Arp.reply b.dev a.dev.addr a.iface.unicast b.iface.unicast)
      (Nat.le_trans (m := Arp.etherIpSize) (Nat.le_of_eq rfl) (by decide))
  obtain ⟨pad', hinput'⟩ := htaken a.dev (.inl rfl)
  rw [if_pos rfl, hreply] at hout
  have hnet : reply ∈ ((w.after i (host', [frame])).after j out).net := by
    rw [Network.World.net_after, hout]
    exact List.mem_append_right _ List.mem_cons_self
  obtain ⟨out', hlearn, hknows', -⟩ :=
    Leads.hear ((h.leads hask).leads hanswer) a hnet hinput' now
  refine ⟨_, (hask.trans hanswer).trans hlearn, ?_, ?_⟩
  · rwa [Network.World.party_after_self]
  · rwa [Network.World.party_after_ne _ hij.symm, Network.World.party_after_self]

/-- **Packets get through**: in whatever world two hosts are, the one may still come to know the
interface of the other; then a call of `ip::output` sends its packet there, and if the packet is
for that interface, `ip::input` hands the payload to the protocol. -/
theorem packet_gets_through (h : Network.Reaches (lan e cfg) Started w) (hij : i ≠ j)
    (hop : Hop e a b protocol data src dst id p) :
    ∃ w', Network.Leads (lan e cfg) w w' ∧ ∀ now, ∃ frame pad,
      Network.exec (act e (cfg i)) (w'.party i) [.output protocol data src dst id,
        .insert now (w'.party i).calls.length, .send (w'.party i).calls.length] =
          .ok (w'.party i, [frame]) ∧
      EtherTap.input b.dev frame = some (etherTypeIp, p.packet ++ pad) ∧
      ∀ protocols, protocol ∈ protocols → dst = b.iface.unicast →
        Ip.input e protocols b.dev.iface (p.packet ++ pad) = .ok (.deliver protocol data) := by
  -- First all entries of the sender expire.
  obtain ⟨now, hlate⟩ : ∃ now, ∀ entry ∈ (w.party i).cache,
      entry.timestamp + Arp.cacheTimeout ≤ now := by
    refine ⟨((w.party i).cache.map (·.timestamp)).sum + Arp.cacheTimeout, fun entry hentry ↦ ?_⟩
    exact Nat.add_le_add_right (List.le_sum_of_mem (List.mem_map_of_mem hentry)) _
  have hforgets : Network.Leads (lan e cfg) w (w.after i (⟨[], (w.party i).calls⟩, [])) := by
    refine Network.Leads.act (e := Label.timer now) (fun m hm ↦ absurd hm (by simp [lan])) ?_
    have hempty := Arp.onTimer_eq_nil
      (fun entry hentry ↦ (((Reaches.honest h).1 i).cache entry hentry).dynamic) hlate
    simp [lan, act, hempty, pure, Except.pure]
  obtain ⟨w', hexchange, hknown, -⟩ := Leads.exchange (h.leads hforgets) hij hop
    (by rw [Network.World.party_after_self]; rfl) now
  refine ⟨w', hforgets.trans hexchange, fun now' ↦ ?_⟩
  obtain ⟨frame, pad, hexec, hinput⟩ := hop.exec_known hknown now'
  refine ⟨frame, pad, hexec, hinput, fun protocols hprotocol hdst ↦ ?_⟩
  obtain ⟨route, hrouted⟩ := hop.routed
  have hlen : Ip.hdrSizeMin + data.length ≤ 65535 := by
    have hmtu := route.iface.mtu.isLt
    have hfits := hrouted.fits
    omega
  obtain ⟨packet, hbuild, -, hunpack⟩ :=
    Ip.input_buildPacket e hprotocol hdst route.iface.unicast id hlen
  obtain rfl := Option.some.inj (Except.ok.inj (hbuild.symm.trans hrouted.built))
  obtain ⟨hdr, -, -, -, hdeliver⟩ := hunpack pad
  rw [b.iface_eq]
  exact hdeliver

end

/-- The interfaces of the two hosts. -/
def samplePort (i : Bool) : Port (two i) where
  dev := sampleDev (if i then 2 else 1)
  iface := sampleIface (if i then 2 else 1)
  dev_mem := List.mem_cons_self
  ops_eq := rfl
  up := rfl
  iface_eq := rfl

/-- Also where the address has been asked for in vain, and the other host is about to answer. -/
theorem packet_gets_through_two : ∃ w : Network.World Bool Host (List U8),
    (w.party false).cache = [⟨.incomplete, ⟨192, 0, 2, 2⟩, .any, 0⟩] ∧
      (w.party true).cache = [⟨.resolved, ⟨192, 0, 2, 1⟩, ⟨2, 0, 0, 0, 0, 1⟩, 0⟩] ∧
      (w.party true).calls.length = 1 ∧
      ∃ w', Network.Leads (lan .little two) w w' ∧ ∀ now, ∃ frame pad,
        Network.exec (act .little (two false)) (w'.party false) [.output 17 [1, 2, 3] .any
          ⟨192, 0, 2, 2⟩ 0, .insert now (w'.party false).calls.length,
            .send (w'.party false).calls.length] = .ok (w'.party false, [frame]) ∧
        EtherTap.input (sampleDev 2) frame = some (etherTypeIp, [69, 0, 0, 23, 0, 0, 0, 0, 255, 17,
          55, 210, 192, 0, 2, 1, 192, 0, 2, 2, 1, 2, 3] ++ pad) ∧
        ∀ protocols, 17 ∈ protocols → ⟨192, 0, 2, 2⟩ = (sampleIface 2).unicast →
          Ip.input .little protocols (sampleDev 2).iface ([69, 0, 0, 23, 0, 0, 0, 0, 255, 17, 55,
            210, 192, 0, 2, 1, 192, 0, 2, 2, 1, 2, 3] ++ pad) = .ok (.deliver 17 [1, 2, 3]) := by
  have hop : Hop .little (samplePort false) (samplePort true) 17 [1, 2, 3] .any ⟨192, 0, 2, 2⟩ 0
      ⟨sampleIface 1, [69, 0, 0, 23, 0, 0, 0, 0, 255, 17, 55, 210, 192, 0, 2, 1, 192, 0, 2, 2, 1,
        2, 3], ⟨192, 0, 2, 2⟩⟩ :=
    ⟨by decide +kernel, rfl, rfl, by decide⟩
  obtain ⟨w, hw, -, hasked, htold, hcalls⟩ := reaches_two
  exact ⟨w, hasked, htold, hcalls, packet_gets_through hw (by decide) hop⟩

end Lan

end Microps
