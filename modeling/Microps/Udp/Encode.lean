import Microps.Cksum
import Microps.Udp.Step

/-!
# Datagrams there and back

What `udp::output` encodes, the checks of `udp::input` accept, and they recover the datagram.
-/

namespace Microps.Udp

/-- The header fields are read back, whatever the checksum field holds. -/
theorem parse_encoded {e : Endian} {src dst : IpEndp} {data : List U8} (stored : U16)
    (hlen : udpHdrSize + data.length ≤ 65535)
    (hsum : datagramCksum e src.addr dst.addr (beBytes16 src.port ++ beBytes16 dst.port ++
      beBytes16 (BitVec.ofNat 16 (udpHdrSize + data.length)) ++ neBytes16 e stored ++ data) =
        .ok 0) :
    parse e src.addr dst.addr (beBytes16 src.port ++ beBytes16 dst.port ++
      beBytes16 (BitVec.ofNat 16 (udpHdrSize + data.length)) ++ neBytes16 e stored ++ data) =
        .ok (.ok ⟨src, dst, data⟩) := by
  obtain ⟨a, b, hfield⟩ := exists_neBytes16 e stored
  rw [hfield] at hsum ⊢
  generalize hbytes : beBytes16 src.port ++ beBytes16 dst.port ++
    beBytes16 (BitVec.ofNat 16 (udpHdrSize + data.length)) ++ [a, b] ++ data = bytes at hsum ⊢
  have hlength : bytes.length = udpHdrSize + data.length := by
    simp [← hbytes, beBytes16, udpHdrSize]
    omega
  have hlong : udpHdrSize ≤ bytes.length := by omega
  have hnew : UdpHdr.new bytes = some ⟨bytes, hlong⟩ := dif_pos hlong
  have hsrc : UdpHdr.src ⟨bytes, hlong⟩ = src.port := by
    subst hbytes
    exact beU16_extract src.port
  have hdst : UdpHdr.dst ⟨bytes, hlong⟩ = dst.port := by
    subst hbytes
    exact beU16_extract dst.port
  have htotal : UdpHdr.len ⟨bytes, hlong⟩ = BitVec.ofNat 16 (udpHdrSize + data.length) := by
    subst hbytes
    exact beU16_extract _
  have hchecked : checkedSum e src.addr dst.addr ⟨bytes, hlong⟩ = .ok 0 := by
    unfold checkedSum
    split
    · exact hsum
    · rfl
  have hpayload : slice bytes udpHdrSize bytes.length = .ok data := by
    rw [slice_ok hlong (Nat.le_refl _), List.take_length]
    subst hbytes
    rfl
  unfold parse
  simp only [hnew, htotal, hlength, BitVec.toNat_ofNat, Nat.mod_eq_of_lt (Nat.lt_succ_of_le hlen),
    hchecked, bind, Except.bind]
  rw [hlength] at hpayload
  simp [hpayload, hsrc, hdst, pure, Except.pure]

/-- **A datagram is read back.** -/
theorem parse_output (e : Endian) (src dst : IpEndp) {data : List U8}
    (hlen : udpHdrSize + data.length ≤ 65535) :
    ∃ m, output e src dst data = .ok (some m) ∧ m.src = src.addr ∧ m.dst = dst.addr ∧
      m.bytes.length = udpHdrSize + data.length ∧
      parse e src.addr dst.addr m.bytes = .ok (.ok ⟨src, dst, data⟩) := by
  obtain ⟨r, hr⟩ := output_ok e src dst data
  unfold output at hr ⊢
  simp only [if_neg (Nat.not_lt.mpr hlen)] at hr ⊢
  obtain ⟨sum, hsum, -⟩ := Machine.exists_of_bind_ok hr
  rw [hsum]
  refine ⟨_, rfl, rfl, rfl, ?_, ?_⟩
  · simp [beBytes16, udpHdrSize]
    omega
  · refine parse_encoded _ hlen ?_
    generalize hhead : beBytes16 src.port ++ beBytes16 dst.port ++
      beBytes16 (BitVec.ofNat 16 (udpHdrSize + data.length)) = head at hsum ⊢
    have hsix : head.length = 6 := by simp [← hhead, beBytes16]
    unfold datagramCksum at hsum ⊢
    simp only [List.length_append, length_neBytes16, List.length_cons, List.length_nil] at hsum ⊢
    refine seeded_cksum16_filled (by rw [hsix]) ?_ hsum ?_
    · rw [hsix]
      simp only [udpHdrSize] at hlen
      omega
    · by_cases hzero : sum = 0
      · exact .inr ⟨hzero, if_pos hzero⟩
      · exact .inl (if_neg hzero)

end Microps.Udp
