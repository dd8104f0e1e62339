import Microps.Cksum
import Microps.Ip.Input

/-!
# Sending an IP packet

`ip::build_packet`, and that `ip::input` unpacks what it has packed, also where the link has
put something behind it.
-/

namespace Microps.Ip

/-- The octets of a header up to its checksum: version 4 and five words of header, no type of
service, no fragment, 255 hops to live. -/
def buildHead (protocol : U8) (total id : U16) : List U8 :=
  [0x45, 0] ++ beBytes16 total ++ beBytes16 id ++ beBytes16 0 ++ [255, protocol]

/-- `build_packet`; `none` when the packet is too long.  The checksum is computed over the
header with a zero checksum field. -/
def buildPacket (e : Endian) (protocol : U8) (data : List U8) (src dst : IpAddr) (id : U16) :
    Checked (Option (List U8)) :=
  let total := hdrSizeMin + data.length
  if 65535 < total then return none
  else do
    let head := buildHead protocol (BitVec.ofNat 16 total) id
    let addrs := src.octets ++ dst.octets
    let sum ← cksum16 e (head ++ [0, 0] ++ addrs) 0
    return some (head ++ neBytes16 e sum ++ addrs ++ data)

theorem length_buildHead (protocol : U8) (total id : U16) :
    (buildHead protocol total id).length = 10 := rfl

section

variable {e : Endian} {protocol : U8} {data : List U8} {src dst : IpAddr} {id : U16}

/-- The fields of a packet that `build_packet` has made, with `pad` behind it. -/
theorem accepted_of_filled {iface : IpIface} {sum : U16} (pad : List U8)
    (hlen : hdrSizeMin + data.length ≤ 65535) (hdst : dst = iface.unicast)
    (hsum : cksum16 e (buildHead protocol (BitVec.ofNat 16 (hdrSizeMin + data.length)) id ++
      neBytes16 e sum ++ (src.octets ++ dst.octets)) 0 = .ok 0) :
    ∃ hdr, Accepted e (some iface) (buildHead protocol
        (BitVec.ofNat 16 (hdrSizeMin + data.length)) id ++ neBytes16 e sum ++
          (src.octets ++ dst.octets) ++ data ++ pad) hdr iface ∧
      hdr.src = src ∧ hdr.dst = dst ∧ hdr.protocol = protocol ∧ hdr.hlen = hdrSizeMin ∧
      hdr.total.toNat = hdrSizeMin + data.length := by
  obtain ⟨a, b, hfield⟩ := exists_neBytes16 e sum
  rw [hfield] at hsum ⊢
  generalize hhead : buildHead protocol (BitVec.ofNat 16 (hdrSizeMin + data.length)) id ++
    [a, b] ++ (src.octets ++ dst.octets) = head at hsum ⊢
  have htwenty : head.length = hdrSizeMin := by
    simp [← hhead, length_buildHead, IpAddr.octets, hdrSizeMin]
  have hlong : hdrSizeMin ≤ (head ++ data ++ pad).length := by
    simp only [List.length_append, htwenty]
    omega
  -- The header is the first twenty octets, all of them given.
  have hfields : IpHdr.byte ⟨head ++ data ++ pad, hlong⟩ 0 = 0x45 ∧
      IpHdr.total ⟨head ++ data ++ pad, hlong⟩ = BitVec.ofNat 16 (hdrSizeMin + data.length) ∧
      IpHdr.offset ⟨head ++ data ++ pad, hlong⟩ = 0 ∧
      IpHdr.src ⟨head ++ data ++ pad, hlong⟩ = src ∧
      IpHdr.dst ⟨head ++ data ++ pad, hlong⟩ = dst ∧
      IpHdr.protocol ⟨head ++ data ++ pad, hlong⟩ = protocol := by
    subst hhead
    exact ⟨rfl, beU16_extract _, beU16_extract 0, rfl, rfl, rfl⟩
  obtain ⟨hfirst, htotal, hoffset, hsrc, hdst', hprotocol⟩ := hfields
  have hversion : IpHdr.version ⟨head ++ data ++ pad, hlong⟩ = 4 := by
    rw [IpHdr.version, hfirst]
    decide
  have hhlen : IpHdr.hlen ⟨head ++ data ++ pad, hlong⟩ = hdrSizeMin := by
    rw [IpHdr.hlen, IpHdr.ihl, hfirst]
    decide
  have htotal : (IpHdr.total ⟨head ++ data ++ pad, hlong⟩).toNat = hdrSizeMin + data.length := by
    rw [htotal, BitVec.toNat_ofNat, Nat.mod_eq_of_lt (Nat.lt_succ_of_le hlen)]
  refine ⟨⟨head ++ data ++ pad, hlong⟩, ⟨dif_pos hlong, hversion, hhlen ▸ hlong, ?_, ?_, ?_, rfl, ?_⟩,
    hsrc, hdst', hprotocol, hhlen, htotal⟩
  · rw [htotal]
    simp only [List.length_append, htwenty]
    omega
  · rw [hhlen, List.append_assoc, List.take_left' htwenty]
    exact hsum
  · rw [hoffset]
    decide
  · exact .inl (hdst'.trans hdst)

/-- **A packet is unpacked.** -/
theorem input_buildPacket (e : Endian) {protocols : List U8} (hprotocol : protocol ∈ protocols)
    {iface : IpIface} (hdst : dst = iface.unicast) (src : IpAddr) (id : U16)
    (hlen : hdrSizeMin + data.length ≤ 65535) :
    ∃ packet, buildPacket e protocol data src dst id = .ok (some packet) ∧
      packet.length = hdrSizeMin + data.length ∧
      ∀ pad, ∃ hdr, IpHdr.new (packet ++ pad) = some hdr ∧ hdr.src = src ∧ hdr.dst = dst ∧
        input e protocols (some iface) (packet ++ pad) = .ok (.deliver protocol data) := by
  unfold buildPacket
  simp only [if_neg (Nat.not_lt.mpr hlen)]
  have hshort : (buildHead protocol (BitVec.ofNat 16 (hdrSizeMin + data.length)) id ++ [0, 0] ++
      (src.octets ++ dst.octets)).length ≤ 65535 := by
    simp [length_buildHead, IpAddr.octets]
  obtain ⟨sum, hsum⟩ := cksum16_ok e 0 hshort (by decide)
  rw [hsum]
  refine ⟨_, rfl, ?_, fun pad ↦ ?_⟩
  · simp only [List.length_append, length_buildHead, length_neBytes16, IpAddr.octets,
      List.length_cons, List.length_nil, hdrSizeMin]
  have hzero := cksum16_filled (by rw [length_buildHead])
    (by simp [length_buildHead, IpAddr.octets]) (by decide) hsum (.inl rfl)
  obtain ⟨hdr, haccepted, hsrc, hdst', hprotocol', hhlen, htotal⟩ :=
    accepted_of_filled pad hlen hdst hzero
  have hdata := IpHdr.data_of_new haccepted.hdr_new
  have hle : hdr.hlen ≤ hdr.total.toNat := by
    rw [hhlen, htotal]
    omega
  refine ⟨hdr, haccepted.hdr_new, hsrc, hdst', ?_⟩
  rw [input_accepted protocols haccepted, dispatch, if_pos (hprotocol' ▸ hprotocol),
    slice_ok hle (hdata ▸ haccepted.total_le), hdata, hprotocol', hhlen, htotal]
  have hpayload : ∀ head : List U8, head.length = hdrSizeMin →
      ((head ++ data ++ pad).take (hdrSizeMin + data.length)).drop hdrSizeMin = data := by
    intro head htwenty
    rw [List.take_left' (by rw [List.length_append, htwenty]), List.drop_left' htwenty]
  rw [hpayload _ (by simp [length_buildHead, IpAddr.octets, hdrSizeMin])]
  rfl

end

end Microps.Ip
