import Microps.Ip.Input
import Microps.Lib.Machine
import Microps.Tcp.Basic

/-!
# Receiving a TCP segment

`tcp::input` on an arbitrary slice handed over by `ip::input`, and the `print` it
calls before it looks at the segment.  The data offset of the header is used by
both without being checked against the minimal header or the length of the slice,
and that is what decides when they are safe: `input_safe_iff_offset`.
-/

namespace Microps.Tcp

/-- `TcpHdr`: a slice long enough to hold the fixed part of a header. -/
structure TcpHdr where
  /-- The segment. -/
  data : List U8
  /-- `TcpHdr::new` refuses shorter slices. -/
  len : tcpHdrSize ≤ data.length

namespace TcpHdr

/-- `TcpHdr::new`. -/
def new (data : List U8) : Option TcpHdr :=
  if h : tcpHdrSize ≤ data.length then some ⟨data, h⟩ else none

/-- `self.data[i]` for an offset in the fixed part of the header. -/
def byte (h : TcpHdr) (i : Fin 20) : U8 :=
  h.data.get ⟨i, Nat.lt_of_lt_of_le i.isLt h.len⟩

/-- `src()`. -/
def src (h : TcpHdr) : U16 := beU16 (h.byte 0) (h.byte 1)

/-- `dst()`. -/
def dst (h : TcpHdr) : U16 := beU16 (h.byte 2) (h.byte 3)

/-- `seq()`. -/
def seq (h : TcpHdr) : U32 := beU32 (h.byte 4) (h.byte 5) (h.byte 6) (h.byte 7)

/-- `ack()`. -/
def ack (h : TcpHdr) : U32 := beU32 (h.byte 8) (h.byte 9) (h.byte 10) (h.byte 11)

/-- `off()`. -/
def off (h : TcpHdr) : U8 := h.byte 12

/-- `hlen()`. -/
def hlen (h : TcpHdr) : Nat := (h.off >>> 4).toNat * 4

/-- `flg()`. -/
def flg (h : TcpHdr) : U8 := h.byte 13

/-- `wnd()`. -/
def wnd (h : TcpHdr) : U16 := beU16 (h.byte 14) (h.byte 15)

/-- `sum()`. -/
def sum (h : TcpHdr) : U16 := beU16 (h.byte 16) (h.byte 17)

/-- `up()`. -/
def up (h : TcpHdr) : U16 := beU16 (h.byte 18) (h.byte 19)

theorem data_of_new {data : List U8} {hdr : TcpHdr} (h : TcpHdr.new data = some hdr) :
    hdr.data = data := by
  unfold TcpHdr.new at h
  split at h
  · obtain rfl := Option.some.inj h
    rfl
  · exact absurd h (by simp)

end TcpHdr

/-! ## Printing -/

/-- One line that `print` writes about an option: its kind, and its length when it
has one. -/
structure OptionLine where
  kind : U8
  len : Option U8 := none
deriving DecidableEq, Repr

/-- The option loop of `print`, from position `pos` on.  Every round that goes on
moves `pos` forward, by one or by the length of the option, which is not zero. -/
def printOptions (data : List U8) (hlen pos : Nat) : Checked (List OptionLine) :=
  if pos < hlen then do
    let kind ← index data pos
    if kind = 0 then return [{ kind := kind }]
    else if kind = 1 then do
      let rest ← printOptions data hlen (pos + 1)
      return { kind := kind } :: rest
    else if hlen ≤ pos + 1 then return []
    else do
      let olen ← index data (pos + 1)
      if _hz : olen = 0 then return [{ kind := kind, len := some olen }]
      else do
        let rest ← printOptions data hlen (pos + olen.toNat)
        return { kind := kind, len := some olen } :: rest
  else return []
termination_by hlen - pos
decreasing_by
  · omega
  · have : olen.toNat ≠ 0 := fun h0 ↦ _hz (BitVec.eq_of_toNat_eq h0)
    omega

/-- What `print` writes about a segment, the dump of its octets apart. -/
structure Printed where
  src : U16
  dst : U16
  seq : U32
  ack : U32
  off : U8
  hlen : Nat
  options : Nat
  payload : Nat
  flg : U8
  wnd : U16
  sum : U16
  up : U16
  lines : List OptionLine
deriving DecidableEq, Repr

/-- `print`.  The lengths of the options and of the payload are checked
subtractions. -/
def print (data : List U8) : Checked (Option Printed) :=
  match TcpHdr.new data with
  | none => return none
  | some hdr => do
      let hlen := hdr.hlen
      let options ← usub hlen tcpHdrSize
      let payload ← usub data.length hlen
      let lines ← printOptions data hlen tcpHdrSize
      return some {
        src := hdr.src, dst := hdr.dst, seq := hdr.seq, ack := hdr.ack, off := hdr.off,
        hlen := hlen, options := options, payload := payload, flg := hdr.flg, wnd := hdr.wnd,
        sum := hdr.sum, up := hdr.up, lines := lines }

/-! ## Input -/

/-- `build_pseudo_header`. -/
def buildPseudoHeader (src dst : IpAddr) (tcpLen : U16) : List U8 :=
  src.octets ++ dst.octets ++ [0, 6] ++ beBytes16 tcpLen

/-- The reasons for which `tcp::input` drops a segment, with what it logs. -/
inductive Drop where
  /-- `"too short, len={}"`. -/
  | tooShort (len : Nat)
  /-- `"checksum error, sum=0x{:04x}"`. -/
  | checksum (sum : U16)
  /-- `"only supports unicast, src={}, dst={}"`. -/
  | notUnicast (src dst : IpEndp)
deriving DecidableEq, Repr

/-- How a call of `tcp::input` ends. -/
inductive Input where
  /-- The segment is dropped. -/
  | drop (reason : Drop)
  /-- `segment_arrives` is called. -/
  | arrives (s : TcpSegment)
deriving DecidableEq, Repr

/-- The checksum over the pseudo header and the segment. -/
def segmentCksum (e : Endian) (src dst : IpAddr) (data : List U8) : Checked U16 := do
  let pseudo ← cksum16 e (buildPseudoHeader src dst (BitVec.ofNat 16 data.length)) 0
  cksum16 e data ((~~~ pseudo).setWidth 32)

/-- `tcp::input`, on a segment in a packet from `src` to `dst`. -/
def input (e : Endian) (src dst : IpAddr) (iface : IpIface) (data : List U8) : Checked Input :=
  match TcpHdr.new data with
  | none => return .drop (.tooShort data.length)
  | some tcp => do
      let sum ← segmentCksum e src dst data
      if sum ≠ 0 then return .drop (.checksum tcp.sum)
      let srcEndp : IpEndp := ⟨src, tcp.src⟩
      let dstEndp : IpEndp := ⟨dst, tcp.dst⟩
      if src = .broadcast ∨ src = iface.broadcast ∨ dst = .broadcast ∨ dst = iface.broadcast then
        return .drop (.notUnicast srcEndp dstEndp)
      let _ ← print data
      let hlen := tcp.hlen
      let _ ← usub data.length hlen
      let payload ← slice data hlen data.length
      return .arrives { src := srcEndp, dst := dstEndp, seq := tcp.seq, ack := tcp.ack,
                        flg := tcp.flg, wnd := tcp.wnd, data := payload }

/-! ## Safety -/

/-- The option loop stays inside a header that the slice holds. -/
theorem printOptions_ok {data : List U8} {hlen : Nat} (h : hlen ≤ data.length) (pos : Nat) :
    ∃ lines, printOptions data hlen pos = .ok lines := by
  induction hrest : hlen - pos using Nat.strongRecOn generalizing pos with
  | ind rest ih =>
  rw [printOptions]
  split
  · next hpos =>
    rw [index_ok (Nat.lt_of_lt_of_le hpos h)]
    simp only [bind, Except.bind]
    split
    · exact ⟨_, rfl⟩
    split
    · obtain ⟨lines, hlines⟩ := ih (hlen - (pos + 1)) (by omega) (pos + 1) rfl
      exact ⟨_, by rw [hlines]; rfl⟩
    split
    · exact ⟨_, rfl⟩
    next hnext =>
    rw [index_ok (Nat.lt_of_lt_of_le (Nat.lt_of_not_le hnext) h)]
    simp only
    split
    · exact ⟨_, rfl⟩
    next holen =>
    have hne : (data.get ⟨pos + 1, by omega⟩).toNat ≠ 0 := fun h0 ↦
      holen (BitVec.eq_of_toNat_eq h0)
    obtain ⟨lines, hlines⟩ := ih (hlen - (pos + (data.get ⟨pos + 1, by omega⟩).toNat)) (by omega)
      (pos + (data.get ⟨pos + 1, by omega⟩).toNat) rfl
    exact ⟨_, by rw [hlines]; rfl⟩
  · exact ⟨[], rfl⟩

/-- `print` returns exactly when the data offset lies between the minimal header
and the length of the segment. -/
theorem print_ok_iff {data : List U8} {hdr : TcpHdr} (hnew : TcpHdr.new data = some hdr) :
    (∃ r, print data = .ok r) ↔ tcpHdrSize ≤ hdr.hlen ∧ hdr.hlen ≤ data.length := by
  unfold print
  simp only [hnew]
  constructor
  · rintro ⟨r, hr⟩
    by_cases hmin : tcpHdrSize ≤ hdr.hlen
    · refine ⟨hmin, ?_⟩
      by_contra hlt
      rw [usub_ok hmin, usub_error (Nat.lt_of_not_le hlt)] at hr
      exact absurd hr (by simp [bind, Except.bind])
    · rw [usub_error (Nat.lt_of_not_le hmin)] at hr
      exact absurd hr (by simp [bind, Except.bind])
  · rintro ⟨hmin, hle⟩
    obtain ⟨lines, hlines⟩ := printOptions_ok hle tcpHdrSize
    rw [usub_ok hmin, usub_ok hle, hlines]
    exact ⟨_, rfl⟩

/-- The segment passes every check that `tcp::input` makes before it prints it. -/
structure Accepted (e : Endian) (src dst : IpAddr) (iface : IpIface) (data : List U8)
    (hdr : TcpHdr) : Prop where
  /-- The slice holds the fixed part of a header. -/
  hdr_new : TcpHdr.new data = some hdr
  /-- The checksum is right. -/
  cksum : segmentCksum e src dst data = .ok 0
  /-- Neither address is a broadcast address. -/
  unicast : ¬ (src = .broadcast ∨ src = iface.broadcast ∨ dst = .broadcast ∨
    dst = iface.broadcast)

/-- What a caller may ask of one call of `tcp::input`: it returns, and it calls
`segment_arrives` only for a segment whose header fits, with the header's fields
and exactly the octets after the header and its options. -/
def InputSafe (src dst : IpAddr) (data : List U8) (r : Checked Input) : Prop :=
  ∃ o, r = .ok o ∧ ∀ s, o = .arrives s → ∃ hdr, TcpHdr.new data = some hdr ∧
    tcpHdrSize ≤ hdr.hlen ∧ hdr.hlen ≤ data.length ∧
    s = { src := ⟨src, hdr.src⟩, dst := ⟨dst, hdr.dst⟩, seq := hdr.seq, ack := hdr.ack,
          flg := hdr.flg, wnd := hdr.wnd, data := data.drop hdr.hlen }

/-- A slice that fits in an IP packet has a checksum. -/
theorem segmentCksum_ok (e : Endian) (src dst : IpAddr) {data : List U8}
    (h : data.length ≤ 131068) : ∃ sum, segmentCksum e src dst data = .ok sum := by
  have hpseudo : (buildPseudoHeader src dst (BitVec.ofNat 16 data.length)).length ≤ 65535 := by
    simp [buildPseudoHeader, IpAddr.octets, beBytes16]
  exact seeded_cksum16_ok e hpseudo h

/-- `tcp::input` drops a segment that is not accepted. -/
theorem input_dropped {e : Endian} {src dst : IpAddr} {iface : IpIface} {data : List U8}
    (hlen : data.length ≤ 65535) (h : ∀ hdr, ¬ Accepted e src dst iface data hdr) :
    ∃ d, input e src dst iface data = .ok (.drop d) := by
  unfold input
  cases hnew : TcpHdr.new data with
  | none => exact ⟨_, rfl⟩
  | some hdr =>
      obtain ⟨sum, hsum⟩ := segmentCksum_ok e src dst (Nat.le_trans hlen (by decide))
      simp only [hsum, bind, Except.bind]
      split
      · exact ⟨_, rfl⟩
      next hzero =>
      split
      · exact ⟨_, rfl⟩
      next hcast =>
      rw [not_not] at hzero
      exact absurd ⟨hnew, hzero ▸ hsum, hcast⟩ (h hdr)

/-- `tcp::input` on an accepted segment prints it and passes it on. -/
theorem input_eq_of_accepted {e : Endian} {src dst : IpAddr} {iface : IpIface} {data : List U8}
    {hdr : TcpHdr} (h : Accepted e src dst iface data hdr) :
    input e src dst iface data = (do
      let _ ← print data
      let _ ← usub data.length hdr.hlen
      let payload ← slice data hdr.hlen data.length
      return .arrives { src := ⟨src, hdr.src⟩, dst := ⟨dst, hdr.dst⟩, seq := hdr.seq,
                        ack := hdr.ack, flg := hdr.flg, wnd := hdr.wnd, data := payload }) := by
  unfold input
  simp only [h.hdr_new, h.cksum, bind, Except.bind]
  rw [if_neg (by simp), if_neg h.unicast]

/-- `tcp::input` on a slice that fits in an IP packet. -/
theorem input_safe_iff_of_length (e : Endian) (src dst : IpAddr) (iface : IpIface)
    {data : List U8} (hlen : data.length ≤ 65535) :
    InputSafe src dst data (input e src dst iface data) ↔
      ∀ hdr, Accepted e src dst iface data hdr →
        tcpHdrSize ≤ hdr.hlen ∧ hdr.hlen ≤ data.length := by
  constructor
  · rintro ⟨o, ho, -⟩ hdr hacc
    rw [input_eq_of_accepted hacc] at ho
    rw [← print_ok_iff hacc.hdr_new]
    cases hprint : print data with
    | error e => exact absurd ho (by simp [hprint, bind, Except.bind])
    | ok r => exact ⟨r, rfl⟩
  · intro h
    by_cases hacc : ∃ hdr, Accepted e src dst iface data hdr
    · obtain ⟨hdr, hacc⟩ := hacc
      obtain ⟨hmin, hle⟩ := h hdr hacc
      obtain ⟨r, hprint⟩ := (print_ok_iff hacc.hdr_new).mpr ⟨hmin, hle⟩
      rw [input_eq_of_accepted hacc, hprint, usub_ok hle, slice_ok hle (Nat.le_refl _)]
      refine ⟨_, rfl, fun s hs ↦ ⟨hdr, hacc.hdr_new, hmin, hle, ?_⟩⟩
      cases hs
      rw [List.take_length]
    · obtain ⟨d, hd⟩ := input_dropped hlen fun hdr h ↦ hacc ⟨hdr, h⟩
      exact ⟨_, hd, fun s hs ↦ absurd hs (by simp)⟩

/-- What `ip::input` hands to a handler is no longer than a packet can be. -/
theorem length_of_deliver {e : Endian} {protocols : List U8} {iface : Option IpIface}
    {packet data : List U8} {protocol : U8}
    (h : Ip.input e protocols iface packet = .ok (.deliver protocol data)) :
    data.length ≤ 65535 := by
  by_cases hacc : ∃ hdr ifc, Ip.Accepted e iface packet hdr ifc
  · obtain ⟨hdr, ifc, hacc⟩ := hacc
    rw [Ip.input_accepted protocols hacc] at h
    unfold Ip.dispatch at h
    simp only at h
    split at h
    · cases hslice : slice hdr.data hdr.hlen hdr.total.toNat with
      | error p => simp [hslice, bind, Except.bind] at h
      | ok payload =>
          rw [hslice] at h
          obtain ⟨-, rfl⟩ : hdr.protocol = protocol ∧ payload = data := by
            simpa [bind, Except.bind, pure, Except.pure] using h
          have := length_le_of_slice hslice
          have := hdr.total.isLt
          omega
    · obtain ⟨rest, -, h⟩ := Machine.exists_of_bind_ok h
      obtain ⟨quoted, -, h⟩ := Machine.exists_of_bind_ok h
      obtain ⟨message, -, h⟩ := Machine.exists_of_bind_ok h
      cases h
  · obtain ⟨d, hd⟩ := Ip.input_rejected protocols fun hdr ifc h ↦ hacc ⟨hdr, ifc, h⟩
    exact absurd (hd.symm.trans h) (by simp)

/-- **When `tcp::input` is safe.**  On a slice that `ip::input` hands over, it is
safe exactly when the segment fails one of its checks or has its data offset
between the minimal header and its own length: the comparisons the code does not
make. -/
theorem input_safe_iff_offset {e : Endian} {protocols : List U8} {ipIface : Option IpIface}
    {packet data : List U8} {protocol : U8}
    (h : Ip.input e protocols ipIface packet = .ok (.deliver protocol data)) (src dst : IpAddr)
    (iface : IpIface) :
    InputSafe src dst data (input e src dst iface data) ↔
      ∀ hdr, Accepted e src dst iface data hdr →
        tcpHdrSize ≤ hdr.hlen ∧ hdr.hlen ≤ data.length :=
  input_safe_iff_of_length e src dst iface (length_of_deliver h)

/-- The header of a packet of forty octets from 192.0.2.2 to 192.0.2.1. -/
def zeroOffsetHeader : List U8 :=
  [0x45, 0, 0, 40, 0, 0, 0, 0, 0xff, 6, 0x37, 0xcc, 192, 0, 2, 2, 192, 0, 2, 1]

/-- A segment of twenty octets from port 9 to port 7 with data offset 0 and a
valid checksum. -/
def zeroOffset : List U8 :=
  [0, 9, 0, 7, 0, 0, 0, 1, 0, 0, 0, 0, 0x00, 0x02, 0x03, 0xe8, 0x77, 0xe6, 0, 0]

/-- The interface on which it arrives. -/
def hostIface : IpIface := ⟨⟨192, 0, 2, 1⟩, ⟨255, 255, 255, 0⟩, ⟨192, 0, 2, 255⟩, 1500⟩

theorem zeroOffset_delivered :
    Ip.input .little [6] (some hostIface) (zeroOffsetHeader ++ zeroOffset) =
      .ok (.deliver 6 zeroOffset) := by
  decide +kernel

/-- The segment is delivered, and on it the two sides agree: both fail. -/
theorem input_safe_iff_offset_zeroOffset :
    Ip.input .little [6] (some hostIface) (zeroOffsetHeader ++ zeroOffset) =
        .ok (.deliver 6 zeroOffset) ∧
      (InputSafe ⟨192, 0, 2, 2⟩ ⟨192, 0, 2, 1⟩ zeroOffset
          (input .little ⟨192, 0, 2, 2⟩ ⟨192, 0, 2, 1⟩ hostIface zeroOffset) ↔
        ∀ hdr, Accepted .little ⟨192, 0, 2, 2⟩ ⟨192, 0, 2, 1⟩ hostIface zeroOffset hdr →
          tcpHdrSize ≤ hdr.hlen ∧ hdr.hlen ≤ zeroOffset.length) :=
  ⟨zeroOffset_delivered, input_safe_iff_offset zeroOffset_delivered _ _ hostIface⟩

/-- `ip::input` hands the segment over, and `tcp::input` panics on it: `print`
computes `hlen - 20`. -/
theorem input_zeroOffset_not_safe :
    ¬ ∀ data, Ip.input .little [6] (some hostIface) (zeroOffsetHeader ++ data) =
        .ok (.deliver 6 data) →
      InputSafe ⟨192, 0, 2, 2⟩ ⟨192, 0, 2, 1⟩ data
        (input .little ⟨192, 0, 2, 2⟩ ⟨192, 0, 2, 1⟩ hostIface data) := by
  intro hall
  obtain ⟨o, ho, -⟩ := hall zeroOffset zeroOffset_delivered
  have hpanic : input .little ⟨192, 0, 2, 2⟩ ⟨192, 0, 2, 1⟩ hostIface zeroOffset =
      .error .overflow := by
    decide +kernel
  exact absurd (hpanic.symm.trans ho) (by simp)

end Microps.Tcp
