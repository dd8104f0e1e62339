import Microps.Cksum.ByteOrder
import Microps.Tcp.Encode
import Microps.Tcp.Reach

/-!
# Corrupted segments

A segment in which one 16-bit word has been changed does not get past the checksum test of
`tcp::input`.  The sum over the segment is a multiple of 65535 before the change; two words that
differ by a multiple of 65535 are equal, or are the two zeros of one's complement.
-/

namespace Microps

open EndAround

/-- One aligned 16-bit word of a slice has been changed, or the last octet of a slice of odd
length.  A change from one zero of one's complement to the other does not count. -/
inductive WordChanged : List U8 → List U8 → Prop where
  | word {before after : List U8} {a b a' b' : U8} (heven : before.length % 2 = 0)
      (hne : (a, b) ≠ (a', b')) (hup : ¬ ((a, b) = (0, 0) ∧ (a', b') = (0xff, 0xff)))
      (hdown : ¬ ((a, b) = (0xff, 0xff) ∧ (a', b') = (0, 0))) :
      WordChanged (before ++ [a, b] ++ after) (before ++ [a', b'] ++ after)
  | odd {before : List U8} {a a' : U8} (heven : before.length % 2 = 0) (hne : a ≠ a') :
      WordChanged (before ++ [a]) (before ++ [a'])

theorem WordChanged.length_eq {data data' : List U8} (h : WordChanged data data') :
    data'.length = data.length := by
  cases h with
  | word heven hne hup hdown => simp only [List.length_append, List.length_cons]
  | odd heven hne => simp only [List.length_append, List.length_cons]

/-- Two words are congruent only if they are equal or the two zeros. -/
theorem word_modEq_cases {v w : U16} (h : v.toNat ≡ w.toNat [MOD 65535]) :
    v = w ∨ v = 0 ∧ w = 0xffff ∨ v = 0xffff ∧ w = 0 := by
  have hv := v.isLt
  have hw := w.isLt
  have hzero : (0 : U16).toNat = 0 := rfl
  have hones : (0xffff : U16).toNat = 65535 := rfl
  rw [Nat.ModEq] at h
  simp only [← BitVec.toNat_inj, hzero, hones]
  omega

/-- A word as it is read tells its octets. -/
theorem neU16_inj {e : Endian} {a b a' b' : U8} (h : neU16 e a b = neU16 e a' b') :
    (a, b) = (a', b') := by
  have ha := a.isLt
  have hb := b.isLt
  have ha' := a'.isLt
  have hb' := b'.isLt
  have hwords := congrArg BitVec.toNat h
  rw [Prod.mk.injEq, ← BitVec.toNat_inj, ← BitVec.toNat_inj]
  cases e with
  | little =>
      rw [neU16, neU16, toNat_append_octets, toNat_append_octets] at hwords
      omega
  | big =>
      rw [neU16, neU16, toNat_append_octets, toNat_append_octets] at hwords
      omega

/-- **A change shows in the sum**, modulo 65535. -/
theorem WordChanged.not_modEq {data data' : List U8} (h : WordChanged data data') (e : Endian) :
    ¬ wordSum e data ≡ wordSum e data' [MOD 65535] := by
  have hzeros : neU16 e 0 0 = 0 := by cases e <;> rfl
  have hones : neU16 e 0xff 0xff = 0xffff := by cases e <;> rfl
  cases h with
  | @word before after a b a' b' heven hne hup hdown =>
      have hsum : ∀ x y, wordSum e (before ++ [x, y] ++ after) =
          wordSum e before + (neU16 e x y).toNat + wordSum e after := by
        intro x y
        have hfield : (before ++ [x, y]).length % 2 = 0 := by
          simpa using heven
        rw [wordSum_append e hfield, wordSum_append e heven]
        rfl
      intro hmod
      rw [hsum, hsum] at hmod
      have hword := Nat.ModEq.add_left_cancel' _ (Nat.ModEq.add_right_cancel' _ hmod)
      rcases word_modEq_cases hword with heq | ⟨h₀, h₁⟩ | ⟨h₁, h₀⟩
      · exact hne (neU16_inj heq)
      · exact hup ⟨neU16_inj (h₀.trans hzeros.symm), neU16_inj (h₁.trans hones.symm)⟩
      · exact hdown ⟨neU16_inj (h₁.trans hones.symm), neU16_inj (h₀.trans hzeros.symm)⟩
  | @odd before a a' heven hne =>
      intro hmod
      rw [wordSum_append e heven, wordSum_append e heven] at hmod
      have hlast : a.toNat ≡ a'.toNat [MOD 65535] := Nat.ModEq.add_left_cancel' _ hmod
      have ha := a.isLt
      have ha' := a'.isLt
      rw [Nat.ModEq, Nat.mod_eq_of_lt (by omega), Nat.mod_eq_of_lt (by omega)] at hlast
      exact hne (BitVec.eq_of_toNat_eq hlast)

/-- A sum whose checksum is zero is a multiple of 65535. -/
theorem modEq_zero_of_seededCksum {e : Endian} {pseudo data : List U8}
    (hpseudo : pseudo.length ≤ 131068) (hdata : data.length ≤ 131068)
    (h : seededCksum e pseudo data = .ok 0) :
    wordSum e pseudo + wordSum e data ≡ 0 [MOD 65535] := by
  rw [seededCksum_eq e hpseudo hdata] at h
  have hcompl := congrArg BitVec.toNat (Except.ok.inj h)
  rw [toNat_compl_rep, show (0 : U16).toNat = 0 from rfl] at hcompl
  have hle := rep_le (m := 65535) (by decide) (wordSum e pseudo + wordSum e data)
  have hall : rep 65535 (wordSum e pseudo + wordSum e data) = 65535 := by omega
  calc wordSum e pseudo + wordSum e data
      ≡ rep 65535 (wordSum e pseudo + wordSum e data) [MOD 65535] := (rep_modEq _ _).symm
    _ = 65535 := hall
    _ ≡ 0 [MOD 65535] := rfl

/-- A changed word is noticed. -/
theorem WordChanged.seededCksum_ne {data data' : List U8} (h : WordChanged data data')
    {e : Endian} {pseudo : List U8} (hpseudo : pseudo.length ≤ 131068)
    (hdata : data.length ≤ 131068) (hzero : seededCksum e pseudo data = .ok 0) :
    ∃ sum, sum ≠ 0 ∧ seededCksum e pseudo data' = .ok sum := by
  have hdata' : data'.length ≤ 131068 := h.length_eq ▸ hdata
  refine ⟨_, ?_, seededCksum_eq e hpseudo hdata'⟩
  intro hsum
  have hzero' := modEq_zero_of_seededCksum hpseudo hdata'
    ((seededCksum_eq e hpseudo hdata').trans (congrArg Except.ok hsum))
  have hmod := (modEq_zero_of_seededCksum hpseudo hdata hzero).trans hzero'.symm
  exact h.not_modEq e (Nat.ModEq.add_left_cancel' _ hmod)

namespace Tcp

/-- `tcp::input` on the table: a segment that is not dropped is handed to `segment_arrives`. -/
def inputCall (e : Endian) (env : Env) (tcp : Tcp) (src dst : IpAddr) (iface : IpIface)
    (data : List U8) : Checked (Option Drop × Outcome) := do
  match ← input e src dst iface data with
  | .drop reason => return (some reason, { tcp := tcp })
  | .arrives s => do
      let r ← segmentArrives env tcp s
      return (none, { tcp := r.1, effects := r.2 })

/-- The checksum of a segment is seeded with that of its pseudo header. -/
theorem segmentCksum_eq (e : Endian) (src dst : IpAddr) (data : List U8) :
    segmentCksum e src dst data =
      seededCksum e (buildPseudoHeader src dst (BitVec.ofNat 16 data.length)) data := rfl

/-- A wrong checksum is the reason for dropping a segment, whatever else is wrong with it. -/
theorem input_checksum {e : Endian} {src dst : IpAddr} {iface : IpIface} {data : List U8}
    {hdr : TcpHdr} {sum : U16} (hnew : TcpHdr.new data = some hdr)
    (hsum : segmentCksum e src dst data = .ok sum) (hne : sum ≠ 0) :
    input e src dst iface data = .ok (.drop (.checksum hdr.sum)) := by
  simp only [input, hnew, hsum, bind, Except.bind, if_pos hne]
  rfl

/-- **Corruption is rejected.**  A segment that `output_segment` has built and in which one word
has been changed is dropped at the checksum test, and the table is left as it is. -/
theorem corrupt_rejected (e : Endian) (env : Env) (tcp : Tcp) (iface : IpIface) {s : TcpSegment}
    (hlen : tcpHdrSize + s.data.length ≤ 131068) {bytes bytes' : List U8}
    (hbuilt : encode e s = .ok bytes) (hchanged : WordChanged bytes bytes') :
    ∃ hdr, TcpHdr.new bytes' = some hdr ∧
      inputCall e env tcp s.src.addr s.dst.addr iface bytes' =
        .ok (some (.checksum hdr.sum), { tcp := tcp }) := by
  obtain ⟨sum, hsum, hencode, hlength, -⟩ := exists_encode e hlen
  obtain rfl := Except.ok.inj (hencode.symm.trans hbuilt)
  have hzero := segmentCksum_encoded hlen hsum
  have hlong : tcpHdrSize ≤ bytes'.length := by
    rw [hchanged.length_eq, hlength]
    exact Nat.le_add_right _ _
  have hpseudo : (buildPseudoHeader s.src.addr s.dst.addr
      (BitVec.ofNat 16 bytes'.length)).length ≤ 131068 := by
    simp [buildPseudoHeader, IpAddr.octets, beBytes16]
  -- The pseudo header holds the length, which has not changed.
  have hseeded : seededCksum e (buildPseudoHeader s.src.addr s.dst.addr
      (BitVec.ofNat 16 bytes'.length)) (encodeHead s ++ neBytes16 e sum ++ ([0, 0] ++ s.data)) =
        .ok 0 := by
    rw [hchanged.length_eq, ← segmentCksum_eq]
    exact hzero
  obtain ⟨sum', hne, hsum'⟩ := hchanged.seededCksum_ne hpseudo (hlength ▸ hlen) hseeded
  rw [← segmentCksum_eq] at hsum'
  refine ⟨⟨bytes', hlong⟩, dif_pos hlong, ?_⟩
  rw [inputCall, input_checksum (dif_pos hlong) hsum' hne]
  rfl

/-- A segment with one octet of data, to port 7. -/
def oddSegment : TcpSegment :=
  { src := peerEndp, dst := hostEndp, seq := 500, ack := 101, flg := flgAck, wnd := 1000,
    data := [0x61] }

/-- Its port and its data are changed in turn. -/
theorem corrupt_rejected_odd :
    ∃ bytes port text, encode .little oddSegment = .ok bytes ∧ WordChanged bytes port ∧
      WordChanged bytes text ∧ ∀ tcp iface data, data = port ∨ data = text → ∃ reason,
        inputCall .little calmEnv tcp peerEndp.addr hostEndp.addr iface data =
          .ok (some reason, { tcp := tcp }) := by
  have hlen : tcpHdrSize + oddSegment.data.length ≤ 131068 := by decide
  obtain ⟨sum, -, hencode, -⟩ := exists_encode .little hlen
  have hport : WordChanged (encodeHead oddSegment ++ neBytes16 .little sum ++ [0, 0, 0x61])
      ([0, 9] ++ [0, 8] ++ ((encodeHead oddSegment).drop 4 ++ neBytes16 .little sum ++
        [0, 0, 0x61])) :=
    @WordChanged.word [0, 9] _ 0 7 0 8 (by decide) (by decide) (by decide) (by decide)
  have htext : WordChanged (encodeHead oddSegment ++ neBytes16 .little sum ++ [0, 0, 0x61])
      (encodeHead oddSegment ++ neBytes16 .little sum ++ [0, 0] ++ [0x62]) :=
    @WordChanged.odd (encodeHead oddSegment ++ neBytes16 .little sum ++ [0, 0]) 0x61 0x62
      (by simp [length_encodeHead]) (by decide)
  refine ⟨_, _, _, hencode, hport, htext, ?_⟩
  rintro tcp iface data (rfl | rfl)
  · obtain ⟨hdr, -, hdrop⟩ := corrupt_rejected .little calmEnv tcp iface hlen hencode hport
    exact ⟨_, hdrop⟩
  · obtain ⟨hdr, -, hdrop⟩ := corrupt_rejected .little calmEnv tcp iface hlen hencode htext
    exact ⟨_, hdrop⟩

end Tcp

end Microps
