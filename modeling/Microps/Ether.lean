import Microps.Ip.Basic

/-!
# Ethernet and devices

Hardware addresses, the constants of `ether.rs`, and the fields of a `Device` that the stack
reads.  The octets of an Ethernet header are read by `EtherTap.input`; `EtherHdr` is used for
printing only.
-/

namespace Microps

/-- `EtherAddr([u8; 6])`. -/
structure EtherAddr where
  o₀ : U8
  o₁ : U8
  o₂ : U8
  o₃ : U8
  o₄ : U8
  o₅ : U8
deriving DecidableEq, Repr

namespace EtherAddr

/-- `ETHER_ADDR_ANY`. -/
def any : EtherAddr := ⟨0, 0, 0, 0, 0, 0⟩

/-- `ETHER_ADDR_BROADCAST`. -/
def broadcast : EtherAddr := ⟨0xff, 0xff, 0xff, 0xff, 0xff, 0xff⟩

/-- The octets, as the array the source stores. -/
def octets (a : EtherAddr) : List U8 := [a.o₀, a.o₁, a.o₂, a.o₃, a.o₄, a.o₅]

theorem octets_inj {a b : EtherAddr} : a.octets = b.octets ↔ a = b := by
  obtain ⟨⟩ := a
  obtain ⟨⟩ := b
  simp [octets]

end EtherAddr

/-- `ETHER_ADDR_LEN`. -/
def etherAddrLen : Nat := 6

/-- `ETHER_TYPE_IP`, which is also `PROTOCOL_TYPE_IP`. -/
def etherTypeIp : U16 := 0x0800

/-- `ETHER_TYPE_ARP`. -/
def etherTypeArp : U16 := 0x0806

/-- `ETHER_HDR_SIZE`. -/
def etherHdrSize : Nat := 14

/-- `ETHER_PAYLOAD_SIZE_MIN`. -/
def etherPayloadSizeMin : Nat := 46

/-- `ETHER_PAYLOAD_SIZE_MAX`. -/
def etherPayloadSizeMax : Nat := 1500

/-- The implementations of `Ops`. -/
inductive Ops where
  | etherTap
  | loopback
deriving DecidableEq, Repr

/-- `Device`.  Of the sixteen octets of its addresses an Ethernet device uses the first six. -/
structure Device where
  /-- `FLAG_UP` is set. -/
  up : Bool
  mtu : U16
  addr : EtherAddr
  broadcast : EtherAddr
  /-- `get_iface(FAMILY_IP)`. -/
  iface : Option IpIface
  ops : Ops := .etherTap
deriving DecidableEq, Repr

/-- A call of `Device::output`. -/
structure Packet where
  ty : U16
  data : List U8
  dst : EtherAddr
deriving DecidableEq, Repr

end Microps
