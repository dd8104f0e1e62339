import Microps.Arp.Race
import Microps.Ip.Transmit
import Microps.Lib.Network

/-!
# Hosts on an Ethernet

Any number of hosts send IP packets to each other, each with its devices, its routes and its ARP
cache.  The network carries the frames that are written to their TAP devices; it may lose,
duplicate, delay and reorder them.

A host runs any number of calls of `ip::output`, `arp::input` and `arp::on_timer` at the same
time, one critical section of one of them after the other: what a call still has to do is kept in
`Host.calls`.  The input queue of a host only delays what it hears, which the network does as
well, so that a frame is heard when its handler runs.  What the handlers of the transport
protocols answer is left open: `Label.output` may happen at any time.
-/

namespace Microps.Lan

/-- What a host is configured with: `DEVICES`, `ROUTES` and `iface.dev`. -/
structure Config where
  devices : List Device
  routes : List IpRoute
  devOf : IpIface → Device
  /-- The device of an interface is registered. -/
  devOf_mem : ∀ r ∈ routes, devOf r.iface ∈ devices
  /-- `add_iface` has given it the interface. -/
  iface_eq : ∀ r ∈ routes, (devOf r.iface).iface = some r.iface
  mtu_eq : ∀ r ∈ routes, (devOf r.iface).mtu = r.iface.mtu
  /-- `ether_tap::init` stores the broadcast address. -/
  broadcast_eq : ∀ dev ∈ devices, dev.ops = .etherTap → dev.broadcast = .broadcast
  /-- It stores `ETHER_PAYLOAD_SIZE_MAX` as well. -/
  mtu_tap : ∀ dev ∈ devices, dev.ops = .etherTap → dev.mtu.toNat = etherPayloadSizeMax

/-- The interface `192.0.2.n`. -/
def sampleIface (n : U8) : IpIface :=
  ⟨⟨192, 0, 2, n⟩, ⟨255, 255, 255, 0⟩, ⟨192, 0, 2, 255⟩, 1500⟩

/-- Its device. -/
def sampleDev (n : U8) : Device :=
  { up := true, mtu := 1500, addr := ⟨2, 0, 0, 0, 0, n⟩, broadcast := .broadcast,
    iface := some (sampleIface n) }

/-- A host with this interface only. -/
def Config.sample (n : U8) : Config where
  devices := [sampleDev n]
  routes := [⟨⟨192, 0, 2, 0⟩, ⟨255, 255, 255, 0⟩, .any, sampleIface n⟩]
  devOf _ := sampleDev n
  devOf_mem := by simp
  iface_eq := by simp [sampleDev]
  mtu_eq := by simp [sampleDev, sampleIface]
  broadcast_eq := by simp [sampleDev]
  mtu_tap := by simp [sampleDev, etherPayloadSizeMax]

/-- A packet that is about to be handed to `Device::output`. -/
structure Sending where
  dev : Device
  packet : Packet
deriving DecidableEq, Repr

/-- What a call still has to do. -/
inductive Doing where
  /-- It calls `cache_insert`, and then sends a packet perhaps. -/
  | inserting (ins : Arp.Insertion) (next : Option Sending)
  | sending (s : Sending)
deriving DecidableEq, Repr

/-- A host. -/
structure Host where
  cache : Arp.Cache := []
  calls : List Doing := []
deriving DecidableEq, Repr

/-- What may happen next. -/
inductive Label where
  /-- `ip::output`, up to the look at the cache. -/
  | output (protocol : U8) (data : List U8) (src dst : IpAddr) (id : U16)
  /-- A frame arrives at a device and is handled; in `arp::input`, up to the end of
  `cache_update`. -/
  | hear (now : Nat) (dev : Device) (frame : List U8)
  /-- A call inserts its entry. -/
  | insert (now : Nat) (i : Nat)
  /-- A call sends its packet, and returns. -/
  | send (i : Nat)
  /-- `arp::on_timer`. -/
  | timer (now : Nat)
deriving DecidableEq, Repr

/-- What is left of `output_device` when it has looked at the cache. -/
def lookUp (dev : Device) (cache : Arp.Cache) (p : Ip.Prepared) : Option Doing :=
  if dev.needArp then
    if p.target = p.iface.broadcast ∨ p.target = .broadcast then
      some (.sending ⟨dev, ⟨etherTypeIp, p.packet, dev.broadcast⟩⟩)
    else match Arp.cacheSelect cache p.target with
      | some (.resolved, ha) | some (.static, ha) =>
          some (.sending ⟨dev, ⟨etherTypeIp, p.packet, ha⟩⟩)
      | some (.incomplete, _) => none
      | none => some (.inserting ⟨p.target, .any, .incomplete⟩
          (some ⟨dev, Arp.request dev p.iface p.target⟩))
  else some (.sending ⟨dev, ⟨etherTypeIp, p.packet, .any⟩⟩)

/-- What is left of `arp::input` when it has updated the cache; `merge` says whether it has found
an entry. -/
def answer (dev : Device) (hdr : Arp.ArpHdr) (arp : Arp.ArpEtherIP) (merge : Bool) :
    Option Doing :=
  match dev.iface with
  | none => none
  | some iface =>
      if arp.tpa = iface.unicast then
        let next := if hdr.op = Arp.opRequest then
          some ⟨dev, Arp.reply dev arp.sha arp.spa iface.unicast⟩ else none
        if merge then next.map .sending else some (.inserting ⟨arp.spa, arp.sha, .resolved⟩ next)
      else none

/-- `arp::input`, up to the end of `cache_update`. -/
def Host.hearArp (h : Host) (now : Nat) (dev : Device) (data : List U8) : Host :=
  match Arp.parse data with
  | none => h
  | some (hdr, arp) =>
      let (merge, cache) := Arp.cacheUpdate now arp.spa arp.sha h.cache
      { cache := cache, calls := h.calls ++ (answer dev hdr arp merge).toList }

/-- What `Device::output` writes to a TAP device.  What the loopback driver takes stays on the
host. -/
def Sending.frames (s : Sending) : List (List U8) :=
  match s.dev.output s.packet.ty s.packet.data s.packet.dst.octets with
  | .ok (.frame octets) => [octets]
  | _ => []

/-- `cache_insert`, and what is left of the call then. -/
def Host.insert (h : Host) (now : Nat) (i : Nat) : Host :=
  match h.calls[i]? with
  | some (.inserting ins next) =>
      { cache := Arp.cacheInsert now h.cache ins.pa ins.ha ins.state
        calls := match next with
          | some s => h.calls.set i (.sending s)
          | none => h.calls.eraseIdx i }
  | _ => h

/-- A call hands its packet to the device. -/
def Host.send (h : Host) (i : Nat) : Host × List (List U8) :=
  match h.calls[i]? with
  | some (.sending s) => ({ h with calls := h.calls.eraseIdx i }, s.frames)
  | _ => (h, [])

/-- Run one critical section: the host after it, and the frames that it sends. -/
def act (e : Endian) (cfg : Config) (h : Host) : Label → Checked (Host × List (List U8))
  | .output protocol data src dst id => do
      match ← Ip.prepare e cfg.routes protocol data src dst id with
      | .error _ => return (h, [])
      | .ok p =>
          return ({ h with calls := h.calls ++ (lookUp (cfg.devOf p.iface) h.cache p).toList }, [])
  | .hear now dev frame =>
      if dev ∈ cfg.devices ∧ dev.ops = .etherTap then
        match EtherTap.input dev frame with
        | some (ty, data) =>
            if ty = etherTypeArp then return (h.hearArp now dev data, []) else return (h, [])
        | none => return (h, [])
      else return (h, [])
  | .insert now i => return (h.insert now i, [])
  | .send i => return h.send i
  | .timer now => return ({ h with cache := Arp.onTimer now h.cache }, [])

/-- The hosts as the parties of a network of frames. -/
def lan {ι : Type} (e : Endian) (cfg : ι → Config) :
    Network.Protocol ι Host Label (List U8) Panic where
  hears
    | .hear _ _ frame => some frame
    | _ => none
  act i := act e (cfg i)

/-! ## One call on its own -/

section

variable {e : Endian} {cfg : Config} {h : Host}

/-- What the packets become that a call hands to a device. -/
def framesOf (dev : Device) (packets : List Packet) : List (List U8) :=
  packets.flatMap fun packet ↦ Sending.frames ⟨dev, packet⟩

/-- The rest of a call, on its own. -/
theorem exec_rest (now : Nat) (cache : Arp.Cache) (calls : List Doing) (doing : Option Doing) :
    Network.exec (act e cfg) ⟨cache, calls ++ doing.toList⟩
        [.insert now calls.length, .send calls.length] =
      .ok (match doing with
        | none => (⟨cache, calls⟩, [])
        | some (.inserting ins next) =>
            (⟨Arp.cacheInsert now cache ins.pa ins.ha ins.state, calls⟩,
              next.toList.flatMap Sending.frames)
        | some (.sending s) => (⟨cache, calls⟩, s.frames)) := by
  match doing with
  | none => simp [Network.exec, act, Host.insert, Host.send, bind, Except.bind, pure, Except.pure]
  | some (.sending s) =>
      simp [Network.exec, act, Host.insert, Host.send, bind, Except.bind, pure, Except.pure,
        List.eraseIdx_append_of_length_le]
  | some (.inserting ins none) =>
      simp [Network.exec, act, Host.insert, Host.send, bind, Except.bind, pure, Except.pure,
        List.eraseIdx_append_of_length_le]
  | some (.inserting ins (some s)) =>
      simp [Network.exec, act, Host.insert, Host.send, bind, Except.bind, pure, Except.pure,
        List.eraseIdx_append_of_length_le]

/-- A label, and then the rest of the call that it has begun. -/
theorem exec_begin {label : Label} {cache cache' : Arp.Cache} {calls : List Doing}
    {doing : Option Doing} (h : act e cfg ⟨cache, calls⟩ label =
      .ok (⟨cache', calls ++ doing.toList⟩, [])) (now : Nat) :
    Network.exec (act e cfg) ⟨cache, calls⟩ [label, .insert now calls.length, .send calls.length] =
      Network.exec (act e cfg) ⟨cache', calls ++ doing.toList⟩
        [.insert now calls.length, .send calls.length] := by
  rw [Network.exec, h]
  change (Network.exec (act e cfg) ⟨cache', calls ++ doing.toList⟩
    [.insert now calls.length, .send calls.length] >>= fun r' ↦ _) = _
  rw [exec_rest]
  rfl

/-- **`ip::output` on its own** is the call that the critical sections were cut from. -/
theorem exec_output (cache : Arp.Cache) (calls : List Doing) (now : Nat) {protocol : U8}
    {data : List U8} {src dst : IpAddr} {id : U16} {p : Ip.Prepared}
    (h : Ip.prepare e cfg.routes protocol data src dst id = .ok (.ok p)) :
    Network.exec (act e cfg) ⟨cache, calls⟩
        [.output protocol data src dst id, .insert now calls.length, .send calls.length] =
      .ok (⟨(Ip.outputDevice now (cfg.devOf p.iface) cache p).cache, calls⟩,
        framesOf (cfg.devOf p.iface) (Ip.outputDevice now (cfg.devOf p.iface) cache p).sent) := by
  have hact : act e cfg ⟨cache, calls⟩ (.output protocol data src dst id) =
      .ok (⟨cache, calls ++ (lookUp (cfg.devOf p.iface) cache p).toList⟩, []) := by
    rw [act, h]
    rfl
  rw [exec_begin hact, exec_rest]
  congr 1
  unfold lookUp Ip.outputDevice
  by_cases harp : (cfg.devOf p.iface).needArp
  · by_cases hall : p.target = p.iface.broadcast ∨ p.target = .broadcast
    · simp [harp, hall, Ip.transmit, framesOf]
    · cases hselect : Arp.cacheSelect cache p.target with
      | none =>
          by_cases htakes : Arp.outputTakes (cfg.devOf p.iface)
              (Arp.request (cfg.devOf p.iface) p.iface p.target)
          · simp [harp, hall, hselect, Arp.resolve, htakes, framesOf]
          · simp [harp, hall, hselect, Arp.resolve, htakes, framesOf]
      | some found =>
          obtain ⟨state, ha⟩ := found
          cases state <;> simp [harp, hall, hselect, Arp.resolve, Ip.transmit, framesOf]
  · simp [harp, Ip.transmit, framesOf]

/-- **`arp::input` on its own** is the call as well. -/
theorem exec_hear {cache : Arp.Cache} {calls : List Doing} {dev : Device} {frame data : List U8}
    (now : Nat) (hdev : dev ∈ cfg.devices ∧ dev.ops = .etherTap)
    (h : EtherTap.input dev frame = some (etherTypeArp, data)) :
    Network.exec (act e cfg) ⟨cache, calls⟩
        [.hear now dev frame, .insert now calls.length, .send calls.length] =
      .ok (⟨(Arp.input now dev cache data).cache, calls⟩,
        framesOf dev (Arp.input now dev cache data).sent) := by
  have hact : act e cfg ⟨cache, calls⟩ (.hear now dev frame) =
      .ok (Host.hearArp ⟨cache, calls⟩ now dev data, []) := by
    rw [act, if_pos hdev, h]
    rfl
  unfold Host.hearArp at hact
  unfold Arp.input
  cases hparse : Arp.parse data with
  | none =>
      rw [hparse] at hact
      have hnone : act e cfg ⟨cache, calls⟩ (.hear now dev frame) =
          .ok (⟨cache, calls ++ (none : Option Doing).toList⟩, []) := by simpa using hact
      rw [exec_begin hnone, exec_rest]
      rfl
  | some found =>
      obtain ⟨hdr, arp⟩ := found
      rw [hparse] at hact
      rw [exec_begin hact, exec_rest]
      congr 1
      unfold answer
      cases hiface : dev.iface with
      | none => simp [framesOf]
      | some iface =>
          by_cases htpa : arp.tpa = iface.unicast
          · by_cases hop : hdr.op = Arp.opRequest <;>
              cases hmerge : (Arp.cacheUpdate now arp.spa arp.sha cache).1 <;>
                simp [htpa, hop, hmerge, framesOf]
          · simp [htpa, framesOf]

end

end Microps.Lan
