import Microps.Util
import Microps.Ip.Basic

/-!
# ICMP messages

The encoder of `icmp.rs`, as the error paths of `ip::input` and `udp::input` use
it: the message it hands to `ip::output`.
-/

namespace Microps

/-- `ICMP_HDR_SIZE`. -/
def icmpHdrSize : Nat := 8

/-- `ICMP_TYPE_DEST_UNREACH`. -/
def icmpTypeDestUnreach : U8 := 3

/-- `ICMP_CODE_PROTO_UNREACH`. -/
def icmpCodeProtoUnreach : U8 := 2

/-- `ICMP_CODE_PORT_UNREACH`. -/
def icmpCodePortUnreach : U8 := 3

/-- An ICMP message on its way to `ip::output`. -/
structure IcmpMessage where
  /-- The encoded message. -/
  bytes : List U8
  /-- Source address. -/
  src : IpAddr
  /-- Destination address. -/
  dst : IpAddr
deriving DecidableEq, Repr

/-- `icmp::output`, up to its call of `ip::output`.  The checksum is computed
over the message with a zero checksum field. -/
def icmpOutput (e : Endian) (ty code : U8) (values : U32) (data : List U8) (src dst : IpAddr) :
    Checked IcmpMessage := do
  let head := [ty, code]
  let tail := beBytes32 values ++ data
  let sum ← cksum16 e (head ++ [0, 0] ++ tail) 0
  return ⟨head ++ neBytes16 e sum ++ tail, src, dst⟩

/-- A message of at most 65535 octets is encoded without a panic. -/
theorem icmpOutput_ok (e : Endian) (ty code : U8) (values : U32) (data : List U8)
    (src dst : IpAddr) (h : icmpHdrSize + data.length ≤ 65535) :
    ∃ m, icmpOutput e ty code values data src dst = .ok m := by
  have hlen : ([ty, code] ++ [0, 0] ++ (beBytes32 values ++ data)).length ≤ 65535 := by
    simp only [List.length_append, List.length_cons, List.length_nil, beBytes32]
    simp only [icmpHdrSize] at h
    omega
  obtain ⟨s, hs⟩ := cksum16_ok e 0 hlen (by decide)
  exact ⟨⟨[ty, code] ++ neBytes16 e s ++ (beBytes32 values ++ data), src, dst⟩, by
    simp only [icmpOutput, hs]; rfl⟩

end Microps
