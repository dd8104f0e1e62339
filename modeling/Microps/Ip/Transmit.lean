import Microps.Arp.Unsent
import Microps.Ip.Output
import Microps.Ip.Route

/-!
# From a protocol to a device

`ip::output` looks up a route, checks the source address and the length, builds the packet and
hands it to `output_device`, which finds the hardware address of the next hop: the broadcast
address, what ARP knows, or none on a device without ARP.  The two are split where the first of
them ends, because it reads nothing that another thread may change.
-/

namespace Microps

/-- `FLAG_NEED_ARP` is set, by `ether_tap::init` and by no other driver. -/
def Device.needArp (dev : Device) : Bool := dev.ops = .etherTap

namespace Ip

/-- The reasons for which `output` refuses a packet, with what it logs. -/
inductive Refusal where
  /-- `"source address is required for broadcast"`. -/
  | sourceRequired
  /-- `"no route to host, dst={}"`. -/
  | noRoute (dst : IpAddr)
  /-- `"source address mismatch, src={}, iface={}"`. -/
  | sourceMismatch (src unicast : IpAddr)
  /-- `"too long, dev={}, mtu={} < {}"`. -/
  | mtu (mtu : U16) (total : Nat)
  /-- `"too long, total={}"`. -/
  | total (total : Nat)
deriving DecidableEq, Repr

/-- What `output` hands to `output_device`. -/
structure Prepared where
  iface : IpIface
  packet : List U8
  target : IpAddr
deriving DecidableEq, Repr

/-- The next hop of a packet on a route. -/
def nexthop (route : IpRoute) (dst : IpAddr) : IpAddr :=
  if route.nexthop ≠ .any then route.nexthop else dst

/-- The source address of a packet that leaves through an interface. -/
def sourceAddr (iface : IpIface) (src : IpAddr) : Except Refusal IpAddr :=
  if src = .any then .ok iface.unicast
  else if src ≠ iface.unicast then .error (.sourceMismatch src iface.unicast)
  else .ok src

/-- `output`, up to its call of `output_device`; `id` is what `random32` returns. -/
def prepare (e : Endian) (routes : List IpRoute) (protocol : U8) (data : List U8)
    (src dst : IpAddr) (id : U16) : Checked (Except Refusal Prepared) :=
  if src = .any ∧ dst = .broadcast then return .error .sourceRequired
  else match routeLookup routes dst with
  | none => return .error (.noRoute dst)
  | some route => match sourceAddr route.iface src with
    | .error reason => return .error reason
    | .ok source =>
        let total := hdrSizeMin + data.length
        if route.iface.mtu.toNat < total then return .error (.mtu route.iface.mtu total)
        else do
          match ← buildPacket e protocol data source dst id with
          | none => return .error (.total total)
          | some packet => return .ok ⟨route.iface, packet, nexthop route dst⟩

/-- `Device::output` of an IP packet. -/
def transmit (dev : Device) (cache : Arp.Cache) (packet : List U8) (hwaddr : EtherAddr) :
    Arp.Outcome (Except Unit Unit) where
  cache := cache
  sent := [⟨etherTypeIp, packet, hwaddr⟩]
  reply := if Arp.outputTakes dev ⟨etherTypeIp, packet, hwaddr⟩ then .ok () else .error ()

/-- `output_device`, where `dev` is the device of the interface. -/
def outputDevice (now : Nat) (dev : Device) (cache : Arp.Cache) (p : Prepared) :
    Arp.Outcome (Except Unit Unit) :=
  if dev.needArp then
    if p.target = p.iface.broadcast ∨ p.target = .broadcast then
      transmit dev cache p.packet dev.broadcast
    else
      let found := Arp.resolve (Arp.outputTakes dev) now dev p.iface cache p.target
      match found.reply with
      | .error () => { found with reply := .error () }
      | .ok none => { found with reply := .ok () }
      | .ok (some mac) => transmit dev cache p.packet mac
  else transmit dev cache p.packet .any

/-- `output`, where `devOf` is the device of an interface. -/
def output (e : Endian) (now : Nat) (id : U16) (routes : List IpRoute) (devOf : IpIface → Device)
    (cache : Arp.Cache) (protocol : U8) (data : List U8) (src dst : IpAddr) :
    Checked (Arp.Outcome (Except Unit Unit)) := do
  match ← prepare e routes protocol data src dst id with
  | .error _ => return { cache := cache, reply := .error () }
  | .ok p => return outputDevice now (devOf p.iface) cache p

/-! ## What is prepared -/

/-- A packet that is ready for a device, with the route that it takes. -/
structure Routed (e : Endian) (routes : List IpRoute) (protocol : U8) (data : List U8)
    (dst : IpAddr) (id : U16) (p : Prepared) (route : IpRoute) : Prop where
  lookup : routeLookup routes dst = some route
  iface : p.iface = route.iface
  target : p.target = nexthop route dst
  /-- It fits the device. -/
  fits : hdrSizeMin + data.length ≤ route.iface.mtu.toNat
  /-- It comes from the address of the interface. -/
  built : buildPacket e protocol data route.iface.unicast dst id = .ok (some p.packet)
  length : p.packet.length = hdrSizeMin + data.length

section

variable {e : Endian} {routes : List IpRoute} {protocol : U8} {data : List U8} {src dst : IpAddr}
  {id : U16}

/-- A route that is found is one of the table. -/
theorem mem_of_routeLookup {route : IpRoute} (h : routeLookup routes dst = some route) :
    route ∈ routes := by
  rcases routeLookup_spec routes dst with ⟨-, hnone⟩ | ⟨i, best, hbest, hsome⟩
  · exact absurd (hnone.symm.trans h) (by simp)
  · obtain rfl := Option.some.inj (hsome.symm.trans h)
    exact List.mem_of_getElem? hbest.at_index

theorem sourceAddr_eq {iface : IpIface} {source : IpAddr}
    (h : sourceAddr iface src = .ok source) : source = iface.unicast := by
  unfold sourceAddr at h
  split at h
  · exact (Except.ok.inj h).symm
  · split at h
    · exact absurd h (by simp)
    · next hsame =>
      obtain rfl := Except.ok.inj h
      simpa using hsame

/-- A packet that is not too long is built. -/
theorem buildPacket_ok (e : Endian) (protocol : U8) (src dst : IpAddr) (id : U16)
    (hlen : hdrSizeMin + data.length ≤ 65535) :
    ∃ packet, buildPacket e protocol data src dst id = .ok (some packet) ∧
      packet.length = hdrSizeMin + data.length := by
  have hmem : protocol ∈ [protocol] := List.mem_cons_self
  have hdst : dst = (⟨dst, .any, .any, 0⟩ : IpIface).unicast := rfl
  obtain ⟨packet, hpacket, hlength, -⟩ := input_buildPacket e hmem hdst src id hlen
  exact ⟨packet, hpacket, hlength⟩

/-- `output` never panics, and what it hands on is routed. -/
theorem prepare_spec (e : Endian) (routes : List IpRoute) (protocol : U8) (data : List U8)
    (src dst : IpAddr) (id : U16) :
    ∃ r, prepare e routes protocol data src dst id = .ok r ∧
      ∀ p, r = .ok p → ∃ route, Routed e routes protocol data dst id p route := by
  have refuse : ∀ reason : Refusal, ∃ r,
      (pure (.error reason) : Checked (Except Refusal Prepared)) = .ok r ∧
        ∀ p, r = .ok p → ∃ route, Routed e routes protocol data dst id p route := fun reason ↦
    ⟨.error reason, rfl, fun p h ↦ absurd h (by simp)⟩
  unfold prepare
  split
  · exact refuse _
  cases hroute : routeLookup routes dst with
  | none => exact refuse (.noRoute dst)
  | some route =>
      dsimp only
      cases hsource : sourceAddr route.iface src with
      | error reason => exact refuse reason
      | ok source =>
          obtain rfl := sourceAddr_eq hsource
          dsimp only
          by_cases hfits : route.iface.mtu.toNat < hdrSizeMin + data.length
          · rw [if_pos hfits]
            exact refuse _
          · have hlen : hdrSizeMin + data.length ≤ 65535 := by
              have := route.iface.mtu.isLt
              omega
            obtain ⟨packet, hpacket, hlength⟩ :=
              buildPacket_ok e protocol route.iface.unicast dst id hlen
            rw [if_neg hfits, hpacket]
            refine ⟨_, rfl, ?_⟩
            rintro p hp
            obtain rfl := Except.ok.inj hp
            exact ⟨route, hroute, rfl, rfl, Nat.le_of_not_lt hfits, hpacket, hlength⟩

end

end Ip

end Microps
