import Microps.Cksum
import Microps.Tcp.Input

/-!
# Segments there and back

The octets that `output_segment` hands to `ip::output`, and that `tcp::input` reads the
segment back from them.
-/

namespace Microps.Tcp

/-- The octets of a segment up to its checksum. -/
def encodeHead (s : TcpSegment) : List U8 :=
  beBytes16 s.src.port ++ beBytes16 s.dst.port ++ beBytes32 s.seq ++ beBytes32 s.ack ++
    [BitVec.ofNat 8 (tcpHdrSize / 4) <<< 4, s.flg] ++ beBytes16 s.wnd

/-- The octets that `output_segment` makes of a segment.  The checksum is computed over the
segment with a zero checksum field; the urgent pointer is zero. -/
def encode (e : Endian) (s : TcpSegment) : Checked (List U8) := do
  let tail := [0, 0] ++ s.data
  let sum ← segmentCksum e s.src.addr s.dst.addr (encodeHead s ++ [0, 0] ++ tail)
  let bytes := encodeHead s ++ neBytes16 e sum ++ tail
  let _ ← print bytes
  return bytes

theorem length_encodeHead (s : TcpSegment) : (encodeHead s).length = 16 := rfl

/-- The header of an encoded segment, whatever its checksum field holds: it is twenty octets
long, and every field is read back. -/
theorem exists_hdr_encoded (e : Endian) (s : TcpSegment) (sum : U16) :
    ∃ hdr, TcpHdr.new (encodeHead s ++ neBytes16 e sum ++ ([0, 0] ++ s.data)) = some hdr ∧
      hdr.hlen = tcpHdrSize ∧ hdr.src = s.src.port ∧ hdr.dst = s.dst.port ∧ hdr.seq = s.seq ∧
      hdr.ack = s.ack ∧ hdr.flg = s.flg ∧ hdr.wnd = s.wnd ∧
      hdr.data.drop tcpHdrSize = s.data := by
  obtain ⟨a, b, hfield⟩ := exists_neBytes16 e sum
  rw [hfield]
  have hlong : tcpHdrSize ≤ (encodeHead s ++ [a, b] ++ ([0, 0] ++ s.data)).length := by
    simp [length_encodeHead, tcpHdrSize]
    omega
  refine ⟨⟨_, hlong⟩, dif_pos hlong, ?_, beU16_extract _, beU16_extract _, beU32_extract _,
    beU32_extract _, rfl, beU16_extract _, rfl⟩
  have hoff : TcpHdr.off ⟨encodeHead s ++ [a, b] ++ ([0, 0] ++ s.data), hlong⟩ =
      BitVec.ofNat 8 (tcpHdrSize / 4) <<< 4 := rfl
  rw [TcpHdr.hlen, hoff]
  decide

/-- A segment of any length that fits twice in a packet is put together. -/
theorem exists_encode (e : Endian) {s : TcpSegment} (hlen : tcpHdrSize + s.data.length ≤ 131068) :
    ∃ sum, segmentCksum e s.src.addr s.dst.addr (encodeHead s ++ [0, 0] ++ ([0, 0] ++ s.data)) =
        .ok sum ∧
      encode e s = .ok (encodeHead s ++ neBytes16 e sum ++ ([0, 0] ++ s.data)) ∧
      (encodeHead s ++ neBytes16 e sum ++ ([0, 0] ++ s.data)).length =
        tcpHdrSize + s.data.length ∧
      ∃ r, print (encodeHead s ++ neBytes16 e sum ++ ([0, 0] ++ s.data)) = .ok r := by
  have hlength : (encodeHead s ++ [0, 0] ++ ([0, 0] ++ s.data)).length =
      tcpHdrSize + s.data.length := by
    simp [length_encodeHead, tcpHdrSize]
    omega
  obtain ⟨sum, hsum⟩ := segmentCksum_ok e s.src.addr s.dst.addr (hlength ▸ hlen)
  obtain ⟨hdr, hnew, hhlen, -⟩ := exists_hdr_encoded e s sum
  have hfilled : (encodeHead s ++ neBytes16 e sum ++ ([0, 0] ++ s.data)).length =
      tcpHdrSize + s.data.length := by
    rw [← hlength]
    simp only [List.length_append, length_neBytes16, List.length_cons, List.length_nil]
  have hlong : tcpHdrSize ≤ (encodeHead s ++ neBytes16 e sum ++ ([0, 0] ++ s.data)).length :=
    hfilled ▸ Nat.le_add_right _ _
  obtain ⟨r, hprint⟩ := (print_ok_iff hnew).mpr ⟨Nat.le_of_eq hhlen.symm, hhlen ▸ hlong⟩
  refine ⟨sum, hsum, ?_, hfilled, r, hprint⟩
  simp only [encode, hsum, hprint, bind, Except.bind]
  rfl

/-- The checksum of an encoded segment is right. -/
theorem segmentCksum_encoded {e : Endian} {s : TcpSegment} {sum : U16}
    (hlen : tcpHdrSize + s.data.length ≤ 131068)
    (hsum : segmentCksum e s.src.addr s.dst.addr (encodeHead s ++ [0, 0] ++ ([0, 0] ++ s.data)) =
      .ok sum) :
    segmentCksum e s.src.addr s.dst.addr
      (encodeHead s ++ neBytes16 e sum ++ ([0, 0] ++ s.data)) = .ok 0 := by
  unfold segmentCksum at hsum ⊢
  simp only [List.length_append, length_neBytes16, List.length_cons, List.length_nil] at hsum ⊢
  refine seeded_cksum16_filled (by rw [length_encodeHead]) ?_ hsum (.inl rfl)
  rw [length_encodeHead]
  simp only [tcpHdrSize] at hlen
  simp only [List.cons_append, List.nil_append, List.length_cons]
  omega

/-- **A segment is read back.** -/
theorem input_encode (e : Endian) {s : TcpSegment} {iface : IpIface}
    (hlen : tcpHdrSize + s.data.length ≤ 65535)
    (hunicast : ¬ (s.src.addr = .broadcast ∨ s.src.addr = iface.broadcast ∨
      s.dst.addr = .broadcast ∨ s.dst.addr = iface.broadcast)) :
    ∃ bytes, encode e s = .ok bytes ∧ bytes.length = tcpHdrSize + s.data.length ∧
      input e s.src.addr s.dst.addr iface bytes = .ok (.arrives s) := by
  obtain ⟨sum, hsum, hencode, hfilled, r, hprint⟩ := exists_encode e (Nat.le_trans hlen (by decide))
  obtain ⟨hdr, hnew, hhlen, hsrc, hdst, hseq, hack, hflg, hwnd, hpayload⟩ :=
    exists_hdr_encoded e s sum
  have hzero := segmentCksum_encoded (Nat.le_trans hlen (by decide)) hsum
  have hlong : tcpHdrSize ≤ (encodeHead s ++ neBytes16 e sum ++ ([0, 0] ++ s.data)).length :=
    hfilled ▸ Nat.le_add_right _ _
  refine ⟨encodeHead s ++ neBytes16 e sum ++ ([0, 0] ++ s.data), hencode, hfilled, ?_⟩
  rw [input_eq_of_accepted ⟨hnew, hzero, hunicast⟩, hprint, hhlen, usub_ok hlong,
    slice_ok hlong (Nat.le_refl _), List.take_length, ← TcpHdr.data_of_new hnew, hpayload, hsrc,
    hdst, hseq, hack, hflg, hwnd]
  rfl

end Microps.Tcp
