import Mathlib.Data.Nat.Basic
import Microps.Ether
import Microps.Lib.Scan

/-!
# The ARP module

`arp.rs`: the cache with its four critical sections, the packets, and the calls that are made
of these.  Time is counted in nanoseconds.  Whether `Device::output` takes a packet is up to
the caller of the model.
-/

namespace Microps.Arp

/-- `ARP_HRD_ETHER`. -/
def hrdEther : U16 := 0x0001

/-- `ARP_PRO_IP`. -/
def proIp : U16 := etherTypeIp

/-- `ARP_OP_REQUEST`. -/
def opRequest : U16 := 1

/-- `ARP_OP_REPLY`. -/
def opReply : U16 := 2

/-- `ARP_HDR_SIZE`. -/
def hdrSize : Nat := 8

/-- `ARP_ETHER_IP_SIZE`. -/
def etherIpSize : Nat := 28

/-- `CACHE_SIZE`. -/
def cacheSize : Nat := 32

/-- `CACHE_TIMEOUT`, thirty seconds. -/
def cacheTimeout : Nat := 30000000000

/-! ## The cache -/

/-- `CacheState`. -/
inductive CacheState where
  | incomplete
  | resolved
  | static
deriving DecidableEq, Repr

/-- `CacheEntry`. -/
structure CacheEntry where
  state : CacheState
  pa : IpAddr
  ha : EtherAddr
  timestamp : Nat
deriving DecidableEq, Repr

/-- `CACHE`. -/
abbrev Cache := List CacheEntry

/-- `cache_select`. -/
def cacheSelect (cache : Cache) (pa : IpAddr) : Option (CacheState × EtherAddr) :=
  (cache.find? fun entry ↦ entry.pa = pa).map fun entry ↦ (entry.state, entry.ha)

/-- `cache_update`: the first entry for `pa` is overwritten. -/
def cacheUpdate (now : Nat) (pa : IpAddr) (ha : EtherAddr) : Cache → Bool × Cache
  | [] => (false, [])
  | entry :: rest =>
      if entry.pa = pa then
        (true, { entry with ha := ha, state := .resolved, timestamp := now } :: rest)
      else ((cacheUpdate now pa ha rest).1, entry :: (cacheUpdate now pa ha rest).2)

/-- The loop of `cache_insert`: the first of the oldest entries that are not static. -/
def oldest (cache : Cache) : Option Nat :=
  Scan.firstLeast (fun entry ↦ entry.state = .static) (fun entry ↦ entry.timestamp) cache

/-- `cache_insert`. -/
def cacheInsert (now : Nat) (cache : Cache) (pa : IpAddr) (ha : EtherAddr) (state : CacheState) :
    Cache :=
  if cache.length < cacheSize then cache ++ [⟨state, pa, ha, now⟩]
  else match oldest cache with
    | some i => cache.set i ⟨state, pa, ha, now⟩
    | none => cache

/-- The test of the loop of `on_timer`. -/
def CacheEntry.expired (now : Nat) (entry : CacheEntry) : Bool :=
  entry.state ≠ .static ∧ cacheTimeout ≤ now - entry.timestamp

/-- `on_timer`. -/
def onTimer (now : Nat) (cache : Cache) : Cache :=
  Scan.removeFrom (CacheEntry.expired now) cache 0

/-! ## Packets -/

/-- `ArpHdr`: a slice long enough to hold the header. -/
structure ArpHdr where
  data : List U8
  len : hdrSize ≤ data.length

namespace ArpHdr

/-- `ArpHdr::new`. -/
def new (data : List U8) : Option ArpHdr :=
  if h : hdrSize ≤ data.length then some ⟨data, h⟩ else none

/-- `self.data[i]` for an offset in the header. -/
def byte (h : ArpHdr) (i : Fin 8) : U8 :=
  h.data.get ⟨i, Nat.lt_of_lt_of_le i.isLt h.len⟩

/-- `hrd()`. -/
def hrd (h : ArpHdr) : U16 := beU16 (h.byte 0) (h.byte 1)

/-- `pro()`. -/
def pro (h : ArpHdr) : U16 := beU16 (h.byte 2) (h.byte 3)

/-- `hln()`. -/
def hln (h : ArpHdr) : U8 := h.byte 4

/-- `pln()`. -/
def pln (h : ArpHdr) : U8 := h.byte 5

/-- `op()`. -/
def op (h : ArpHdr) : U16 := beU16 (h.byte 6) (h.byte 7)

end ArpHdr

/-- `ArpEtherIP`: a slice long enough to hold a packet for Ethernet and IP. -/
structure ArpEtherIP where
  data : List U8
  len : etherIpSize ≤ data.length

namespace ArpEtherIP

/-- `ArpEtherIP::new`. -/
def new (data : List U8) : Option ArpEtherIP :=
  if h : etherIpSize ≤ data.length then some ⟨data, h⟩ else none

/-- `self.data[i]` for an offset in the packet. -/
def byte (p : ArpEtherIP) (i : Fin 28) : U8 :=
  p.data.get ⟨i, Nat.lt_of_lt_of_le i.isLt p.len⟩

/-- `sha()`. -/
def sha (p : ArpEtherIP) : EtherAddr :=
  ⟨p.byte 8, p.byte 9, p.byte 10, p.byte 11, p.byte 12, p.byte 13⟩

/-- `spa()`. -/
def spa (p : ArpEtherIP) : IpAddr := ⟨p.byte 14, p.byte 15, p.byte 16, p.byte 17⟩

/-- `tpa()`. -/
def tpa (p : ArpEtherIP) : IpAddr := ⟨p.byte 24, p.byte 25, p.byte 26, p.byte 27⟩

end ArpEtherIP

/-- The packet that `request` and `reply` fill in. -/
def encode (op : U16) (sha : EtherAddr) (spa : IpAddr) (tha : EtherAddr) (tpa : IpAddr) :
    List U8 :=
  beBytes16 hrdEther ++ beBytes16 proIp ++ [6, 4] ++ beBytes16 op ++ sha.octets ++ spa.octets ++
    tha.octets ++ tpa.octets

/-- `request`.  The target hardware address is left zero. -/
def request (dev : Device) (iface : IpIface) (tpa : IpAddr) : Packet where
  ty := etherTypeArp
  data := encode opRequest dev.addr iface.unicast .any tpa
  dst := dev.broadcast

/-- `reply`. -/
def reply (dev : Device) (tha : EtherAddr) (tpa src : IpAddr) : Packet where
  ty := etherTypeArp
  data := encode opReply dev.addr src tha tpa
  dst := tha

/-- The checks of `input`: the header and the packet, if it is one for Ethernet and IP. -/
def parse (data : List U8) : Option (ArpHdr × ArpEtherIP) := do
  let hdr ← ArpHdr.new data
  guard ¬ (hdr.hrd ≠ hrdEther ∨ hdr.hln ≠ 6)
  guard ¬ (hdr.pro ≠ proIp ∨ hdr.pln ≠ 4)
  let arp ← ArpEtherIP.new data
  return (hdr, arp)

/-- **A packet is read back**, also with something behind it. -/
theorem parse_encode (op : U16) (sha : EtherAddr) (spa : IpAddr) (tha : EtherAddr) (tpa : IpAddr)
    (pad : List U8) :
    ∃ hdr arp, parse (encode op sha spa tha tpa ++ pad) = some (hdr, arp) ∧ hdr.op = op ∧
      arp.sha = sha ∧ arp.spa = spa ∧ arp.tpa = tpa := by
  generalize hdata : encode op sha spa tha tpa ++ pad = data
  have hlen : etherIpSize ≤ data.length := by
    rw [← hdata, List.length_append]
    exact Nat.le_add_right 28 _
  have hshort : hdrSize ≤ data.length := Nat.le_trans (by decide) hlen
  have hnew : ArpHdr.new data = some ⟨data, hshort⟩ := dif_pos hshort
  have hnew' : ArpEtherIP.new data = some ⟨data, hlen⟩ := dif_pos hlen
  have hfields : ArpHdr.hrd ⟨data, hshort⟩ = hrdEther ∧ ArpHdr.hln ⟨data, hshort⟩ = 6 ∧
      ArpHdr.pro ⟨data, hshort⟩ = proIp ∧ ArpHdr.pln ⟨data, hshort⟩ = 4 ∧
      ArpHdr.op ⟨data, hshort⟩ = op := by
    subst hdata
    exact ⟨beU16_extract hrdEther, rfl, beU16_extract proIp, rfl, beU16_extract op⟩
  obtain ⟨hhrd, hhln, hpro, hpln, hop⟩ := hfields
  have haddrs : ArpEtherIP.sha ⟨data, hlen⟩ = sha ∧ ArpEtherIP.spa ⟨data, hlen⟩ = spa ∧
      ArpEtherIP.tpa ⟨data, hlen⟩ = tpa := by
    subst hdata
    exact ⟨rfl, rfl, rfl⟩
  refine ⟨⟨data, hshort⟩, ⟨data, hlen⟩, ?_, hop, haddrs⟩
  have hether : ¬ (ArpHdr.hrd ⟨data, hshort⟩ ≠ hrdEther ∨ ArpHdr.hln ⟨data, hshort⟩ ≠ 6) :=
    not_or.2 ⟨not_not.2 hhrd, not_not.2 hhln⟩
  have hip : ¬ (ArpHdr.pro ⟨data, hshort⟩ ≠ proIp ∨ ArpHdr.pln ⟨data, hshort⟩ ≠ 4) :=
    not_or.2 ⟨not_not.2 hpro, not_not.2 hpln⟩
  rw [parse, hnew, Option.bind_eq_bind, Option.bind_some, guard, if_pos hether, guard, if_pos hip,
    hnew']
  rfl

/-! ## The calls -/

/-- What a call leaves behind, with what it returns. -/
structure Outcome (ρ : Type) where
  cache : Cache
  /-- What it hands to `Device::output`. -/
  sent : List Packet := []
  reply : ρ

/-- `resolve` on an interface of `dev`, which `takes` packets or not. -/
def resolve (takes : Packet → Bool) (now : Nat) (dev : Device) (iface : IpIface) (cache : Cache)
    (pa : IpAddr) : Outcome (Except Unit (Option EtherAddr)) :=
  match cacheSelect cache pa with
  | some (.resolved, ha) | some (.static, ha) => { cache := cache, reply := .ok (some ha) }
  | some (.incomplete, _) => { cache := cache, reply := .ok none }
  | none =>
      { cache := cacheInsert now cache pa .any .incomplete
        sent := [request dev iface pa]
        reply := if takes (request dev iface pa) then .ok none else .error () }

/-- `input`. -/
def input (now : Nat) (dev : Device) (cache : Cache) (data : List U8) : Outcome Unit :=
  match parse data with
  | none => { cache := cache, reply := () }
  | some (hdr, arp) =>
      let (merge, cache) := cacheUpdate now arp.spa arp.sha cache
      match dev.iface with
      | none => { cache := cache, reply := () }
      | some iface =>
          if arp.tpa = iface.unicast then
            { cache := if merge then cache else cacheInsert now cache arp.spa arp.sha .resolved
              sent := if hdr.op = opRequest then [reply dev arp.sha arp.spa iface.unicast] else []
              reply := () }
          else { cache := cache, reply := () }

end Microps.Arp
