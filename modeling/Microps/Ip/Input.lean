import Microps.Icmp

/-!
# Receiving an IP packet

`ip::input` on an arbitrary byte slice.  The function ends by dropping the
packet, by calling the handler of its protocol, or by answering with an ICMP
error; every slice it takes on the way there is a checked one, so a malformed
packet can also make it panic.

The header fields `ihl` and `total` are checked against the length of the slice
but neither against the other nor against the minimal header, and that is what
decides when the function is safe: `input_safe_iff`.
-/

namespace Microps.Ip

/-- `IP_HDR_SIZE_MIN`. -/
def hdrSizeMin : Nat := 20

/-- `IpHdr`: a slice long enough to hold the fixed part of a header. -/
structure IpHdr where
  /-- The packet. -/
  data : List U8
  /-- `IpHdr::new` refuses shorter slices. -/
  len : hdrSizeMin ≤ data.length

namespace IpHdr

/-- `IpHdr::new`. -/
def new (data : List U8) : Option IpHdr :=
  if h : hdrSizeMin ≤ data.length then some ⟨data, h⟩ else none

/-- `self.data[i]` for an offset in the fixed part of the header. -/
def byte (h : IpHdr) (i : Fin 20) : U8 :=
  h.data.get ⟨i, Nat.lt_of_lt_of_le i.isLt h.len⟩

/-- `version()`. -/
def version (h : IpHdr) : U8 := h.byte 0 >>> 4

/-- `ihl()`. -/
def ihl (h : IpHdr) : U8 := h.byte 0 &&& 0x0f

/-- `hlen()`. -/
def hlen (h : IpHdr) : Nat := h.ihl.toNat * 4

/-- `total()`. -/
def total (h : IpHdr) : U16 := beU16 (h.byte 2) (h.byte 3)

/-- `offset()`. -/
def offset (h : IpHdr) : U16 := beU16 (h.byte 6) (h.byte 7)

/-- `protocol()`. -/
def protocol (h : IpHdr) : U8 := h.byte 9

/-- `sum()`. -/
def sum (h : IpHdr) : U16 := beU16 (h.byte 10) (h.byte 11)

/-- `src()`. -/
def src (h : IpHdr) : IpAddr := ⟨h.byte 12, h.byte 13, h.byte 14, h.byte 15⟩

/-- `dst()`. -/
def dst (h : IpHdr) : IpAddr := ⟨h.byte 16, h.byte 17, h.byte 18, h.byte 19⟩

/-- `as_bytes()`. -/
def asBytes (h : IpHdr) : List U8 := h.data.take (min h.hlen h.data.length)

/-- The header length is a multiple of four below 64. -/
theorem hlen_le (h : IpHdr) : h.hlen ≤ 60 := by
  have : h.ihl.toNat ≤ 15 := by
    have := Nat.and_le_right (n := (h.byte 0).toNat) (m := 15)
    simpa [ihl] using this
  unfold hlen
  omega

end IpHdr

/-- The reasons for which `ip::input` drops a packet, with what it logs. -/
inductive Drop where
  /-- `"too short, len={}"`. -/
  | tooShort (len : Nat)
  /-- `"not IPv4, version={}"`. -/
  | notIPv4 (version : U8)
  /-- `"header truncated, len={} < hlen={}"`. -/
  | headerTruncated (len hlen : Nat)
  /-- `"total truncated, len={} < total={}"`. -/
  | totalTruncated (len total : Nat)
  /-- `"checksum error, sum=0x{:04x}"`. -/
  | checksum (sum : U16)
  /-- `"fragments does not support"`. -/
  | fragment
  /-- The device has no IP interface. -/
  | noIface
  /-- The packet is for another host. -/
  | notForUs
deriving DecidableEq, Repr

/-- How a call of `ip::input` ends. -/
inductive Outcome where
  /-- The packet is dropped. -/
  | drop (reason : Drop)
  /-- The handler of `protocol` is called with `payload`. -/
  | deliver (protocol : U8) (payload : List U8)
  /-- `icmp::output` is called to report an unreachable protocol. -/
  | unreachable (message : IcmpMessage)
deriving DecidableEq, Repr

/-- `IP_HDR_FLAG_MF`. -/
def flagMf : U16 := 0x2000
/-- `IP_HDR_OFFSET_MASK`. -/
def offsetMask : U16 := 0x1fff

/-- The tail of `ip::input`, from the choice of the handler on.  `protocols` is
the list of registered protocol numbers. -/
def dispatch (e : Endian) (protocols : List U8) (hdr : IpHdr) (iface : IpIface) :
    Checked Outcome := do
  let hlen := hdr.hlen
  let total := hdr.total.toNat
  if hdr.protocol ∈ protocols then
    let payload ← slice hdr.data hlen total
    return .deliver hdr.protocol payload
  else
    let rest ← usub total hlen
    let quoted ← slice hdr.data 0 (hlen + min 8 rest)
    let message ← icmpOutput e icmpTypeDestUnreach icmpCodeProtoUnreach 0 quoted
      iface.unicast hdr.src
    return .unreachable message

/-- The checks of `ip::input`, in their order: the header and interface of a
packet that passes them all, or the reason why it is dropped. -/
def checks (e : Endian) (iface : Option IpIface) (data : List U8) :
    Checked (Except Drop (IpHdr × IpIface)) :=
  match IpHdr.new data with
  | none => return .error (.tooShort data.length)
  | some hdr => do
    if hdr.version ≠ 4 then return .error (.notIPv4 hdr.version)
    let hlen := hdr.hlen
    if data.length < hlen then return .error (.headerTruncated data.length hlen)
    let total := hdr.total.toNat
    if data.length < total then return .error (.totalTruncated data.length total)
    let head ← slice data 0 hlen
    let sum ← cksum16 e head 0
    if sum ≠ 0 then return .error (.checksum hdr.sum)
    if hdr.offset &&& flagMf ≠ 0 ∨ hdr.offset &&& offsetMask ≠ 0 then return .error .fragment
    match iface with
    | none => return .error .noIface
    | some iface =>
      if hdr.dst ≠ iface.unicast ∧ hdr.dst ≠ iface.broadcast ∧ hdr.dst ≠ IpAddr.broadcast then
        return .error .notForUs
      return .ok (hdr, iface)

/-- `ip::input`. -/
def input (e : Endian) (protocols : List U8) (iface : Option IpIface) (data : List U8) :
    Checked Outcome := do
  match ← checks e iface data with
  | .error reason => return .drop reason
  | .ok (hdr, iface) => dispatch e protocols hdr iface

/-! ## When a packet gets past the checks -/

/-- The packet passes every check that `ip::input` makes before it looks for a
handler. -/
structure Accepted (e : Endian) (iface : Option IpIface) (data : List U8) (hdr : IpHdr)
    (ifc : IpIface) : Prop where
  /-- The slice holds the fixed part of a header. -/
  hdr_new : IpHdr.new data = some hdr
  /-- It is an IPv4 packet. -/
  version : hdr.version = 4
  /-- The slice holds the header. -/
  hlen_le : hdr.hlen ≤ data.length
  /-- The slice holds the packet. -/
  total_le : hdr.total.toNat ≤ data.length
  /-- The header checksum is right. -/
  cksum : cksum16 e (data.take hdr.hlen) 0 = .ok 0
  /-- The packet is not a fragment. -/
  whole : ¬ (hdr.offset &&& flagMf ≠ 0 ∨ hdr.offset &&& offsetMask ≠ 0)
  /-- The device has an IP interface. -/
  iface_eq : iface = some ifc
  /-- The packet is addressed to that interface. -/
  dst : hdr.dst = ifc.unicast ∨ hdr.dst = ifc.broadcast ∨ hdr.dst = IpAddr.broadcast

theorem IpHdr.data_of_new {data : List U8} {hdr : IpHdr} (h : IpHdr.new data = some hdr) :
    hdr.data = data := by
  unfold IpHdr.new at h
  split at h
  · obtain rfl := Option.some.inj h
    rfl
  · exact absurd h (by simp)

/-- The checks never panic, and they let exactly the accepted packets pass. -/
theorem checks_ok (e : Endian) (iface : Option IpIface) (data : List U8) :
    ∃ r, checks e iface data = .ok r ∧
      ∀ hdr ifc, r = .ok (hdr, ifc) ↔ Accepted e iface data hdr ifc := by
  -- A failed check settles the call, provided no packet that fails it is accepted.
  have reject : ∀ d : Drop, (∀ hdr ifc, ¬ Accepted e iface data hdr ifc) →
      ∃ r, (pure (.error d) : Checked (Except Drop (IpHdr × IpIface))) = .ok r ∧
        ∀ hdr ifc, r = .ok (hdr, ifc) ↔ Accepted e iface data hdr ifc := fun d h ↦
    ⟨.error d, rfl, fun hdr ifc ↦ ⟨fun h' ↦ absurd h' (by simp), fun h' ↦ absurd h' (h hdr ifc)⟩⟩
  unfold checks
  cases hnew : IpHdr.new data with
  | none =>
      refine reject _ fun hdr ifc h ↦ ?_
      exact absurd (hnew.symm.trans h.hdr_new) (by simp)
  | some hdr₀ =>
      have huniq : ∀ {hdr ifc}, Accepted e iface data hdr ifc → hdr = hdr₀ := fun h ↦
        Option.some.inj (h.hdr_new.symm.trans hnew)
      dsimp only
      split
      · next hver => exact reject _ fun hdr ifc h ↦ hver (huniq h ▸ h.version)
      next hver =>
      split
      · next hhl => exact reject _ fun hdr ifc h ↦ absurd (huniq h ▸ h.hlen_le) (by omega)
      next hhl =>
      split
      · next htl => exact reject _ fun hdr ifc h ↦ absurd (huniq h ▸ h.total_le) (by omega)
      next htl =>
      have hslice : slice data 0 hdr₀.hlen = .ok (data.take hdr₀.hlen) := by
        rw [slice_ok (by omega) (by omega), List.drop_zero]
      have hlen : (data.take hdr₀.hlen).length ≤ 65535 := by
        have := hdr₀.hlen_le
        simp only [List.length_take]
        omega
      obtain ⟨s, hs⟩ := cksum16_ok e 0 hlen (by decide)
      simp only [hslice, hs, bind, Except.bind]
      split
      · next hsum =>
        refine reject _ fun hdr ifc h ↦ hsum ?_
        have hck := h.cksum
        rw [huniq h, hs] at hck
        exact Except.ok.inj hck
      next hsum =>
      split
      · next hfrag => exact reject _ fun hdr ifc h ↦ absurd hfrag (huniq h ▸ h.whole)
      next hfrag =>
      cases iface with
      | none => exact reject _ fun hdr ifc h ↦ absurd h.iface_eq (by simp)
      | some ifc₀ =>
          dsimp only
          split
          · next hdst =>
            refine reject _ fun hdr ifc h ↦ ?_
            obtain rfl : ifc₀ = ifc := Option.some.inj h.iface_eq
            have := h.dst
            rw [huniq h] at this
            tauto
          · next hdst =>
            refine ⟨.ok (hdr₀, ifc₀), rfl, fun hdr ifc ↦ ⟨fun h ↦ ?_, fun h ↦ ?_⟩⟩
            · obtain ⟨rfl, rfl⟩ : hdr₀ = hdr ∧ ifc₀ = ifc := by simpa using h
              refine ⟨hnew, by tauto, by omega, by omega, ?_, hfrag, rfl, by tauto⟩
              rw [hs, Classical.not_not.mp hsum]
            · rw [huniq h, Option.some.inj h.iface_eq]

/-! ## Safety -/

/-- What a caller may ask of one call of `ip::input`: it returns, and it calls a
handler or builds an ICMP error only for a packet whose header, total length and
slice are nested, handing over exactly the octets after the header. -/
def Safe (data : List U8) (r : Checked Outcome) : Prop :=
  ∃ o, r = .ok o ∧
    (∀ p payload, o = .deliver p payload → ∃ hdr, IpHdr.new data = some hdr ∧
      hdrSizeMin ≤ hdr.hlen ∧ hdr.hlen ≤ hdr.total.toNat ∧ hdr.total.toNat ≤ data.length ∧
      payload = (data.take hdr.total.toNat).drop hdr.hlen) ∧
    (∀ m, o = .unreachable m → ∃ hdr, IpHdr.new data = some hdr ∧
      hdrSizeMin ≤ hdr.hlen ∧ hdr.hlen ≤ hdr.total.toNat ∧ hdr.total.toNat ≤ data.length)

/-- On an accepted packet whose lengths are nested the dispatch returns. -/
theorem dispatch_ok (e : Endian) (protocols : List U8) (hdr : IpHdr) (ifc : IpIface)
    (h : hdr.hlen ≤ hdr.total.toNat) (ht : hdr.total.toNat ≤ hdr.data.length) :
    (hdr.protocol ∈ protocols ∧ dispatch e protocols hdr ifc =
        .ok (.deliver hdr.protocol ((hdr.data.take hdr.total.toNat).drop hdr.hlen))) ∨
      ∃ m, dispatch e protocols hdr ifc = .ok (.unreachable m) := by
  unfold dispatch
  by_cases hp : hdr.protocol ∈ protocols
  · refine .inl ⟨hp, ?_⟩
    simp only [hp, if_true, slice_ok h ht, bind, Except.bind, pure, Except.pure]
  · have hle := hdr.hlen_le
    have hq : slice hdr.data 0 (hdr.hlen + min 8 (hdr.total.toNat - hdr.hlen)) =
        .ok (hdr.data.take (hdr.hlen + min 8 (hdr.total.toNat - hdr.hlen))) := by
      rw [slice_ok (by omega) (by omega), List.drop_zero]
    obtain ⟨m, hm⟩ := icmpOutput_ok e icmpTypeDestUnreach icmpCodeProtoUnreach 0
      (hdr.data.take (hdr.hlen + min 8 (hdr.total.toNat - hdr.hlen)))
      ifc.unicast hdr.src (by simp only [List.length_take, icmpHdrSize]; omega)
    refine .inr ⟨m, ?_⟩
    simp only [hp, if_false, usub_ok h, hq, hm, bind, Except.bind, pure, Except.pure]

/-- On an accepted packet that ends before its header does the dispatch
panics, whether or not a handler is registered. -/
theorem dispatch_error (e : Endian) (protocols : List U8) (hdr : IpHdr) (ifc : IpIface)
    (h : hdr.total.toNat < hdr.hlen) : ∃ p, dispatch e protocols hdr ifc = .error p := by
  unfold dispatch
  by_cases hp : hdr.protocol ∈ protocols
  · exact ⟨.slice, by simp only [hp, if_true, slice_error (.inl h), bind, Except.bind]⟩
  · exact ⟨.overflow, by simp only [hp, if_false, usub_error h, bind, Except.bind]⟩

/-- `ip::input` on an accepted packet is its dispatch. -/
theorem input_accepted {e : Endian} {iface : Option IpIface} {data : List U8} {hdr : IpHdr}
    {ifc : IpIface} (protocols : List U8) (h : Accepted e iface data hdr ifc) :
    input e protocols iface data = dispatch e protocols hdr ifc := by
  obtain ⟨r, hr, hiff⟩ := checks_ok e iface data
  rw [input, hr, (hiff hdr ifc).mpr h]
  rfl

/-- `ip::input` drops a packet that is not accepted. -/
theorem input_rejected {e : Endian} {iface : Option IpIface} {data : List U8}
    (protocols : List U8) (h : ∀ hdr ifc, ¬ Accepted e iface data hdr ifc) :
    ∃ d, input e protocols iface data = .ok (.drop d) := by
  obtain ⟨r, hr, hiff⟩ := checks_ok e iface data
  cases r with
  | error d => exact ⟨d, by rw [input, hr]; rfl⟩
  | ok p => exact absurd ((hiff p.1 p.2).mp rfl) (h p.1 p.2)

/-- **When `ip::input` is safe.**  It is safe exactly on the packets that fail
one of its checks or whose header length is at least the minimal one and at most
their total length: the two comparisons the code does not make. -/
theorem input_safe_iff (e : Endian) (protocols : List U8) (iface : Option IpIface)
    (data : List U8) :
    Safe data (input e protocols iface data) ↔
      ∀ hdr ifc, Accepted e iface data hdr ifc →
        hdrSizeMin ≤ hdr.hlen ∧ hdr.hlen ≤ hdr.total.toNat := by
  constructor
  · rintro ⟨o, ho, hdel, hicmp⟩ hdr ifc hacc
    rw [input_accepted protocols hacc] at ho
    have hle : hdr.hlen ≤ hdr.total.toNat := by
      by_contra hlt
      obtain ⟨p, hp⟩ := dispatch_error e protocols hdr ifc (by omega)
      exact absurd (hp.symm.trans ho) (by simp)
    refine ⟨?_, hle⟩
    have hdata := IpHdr.data_of_new hacc.hdr_new
    rcases dispatch_ok e protocols hdr ifc hle (hdata ▸ hacc.total_le) with ⟨-, hd⟩ | ⟨m, hd⟩
    · obtain ⟨hdr', hnew, hmin, -⟩ := hdel _ _ (Except.ok.inj (ho.symm.trans hd))
      rwa [← Option.some.inj (hacc.hdr_new.symm.trans hnew)] at hmin
    · obtain ⟨hdr', hnew, hmin, -⟩ := hicmp _ (Except.ok.inj (ho.symm.trans hd))
      rwa [← Option.some.inj (hacc.hdr_new.symm.trans hnew)] at hmin
  · intro h
    by_cases hacc : ∃ hdr ifc, Accepted e iface data hdr ifc
    · obtain ⟨hdr, ifc, hacc⟩ := hacc
      obtain ⟨hmin, hle⟩ := h hdr ifc hacc
      have hdata := IpHdr.data_of_new hacc.hdr_new
      rw [input_accepted protocols hacc]
      rcases dispatch_ok e protocols hdr ifc hle (hdata ▸ hacc.total_le) with ⟨-, hd⟩ | ⟨m, hd⟩
      · refine ⟨_, hd, fun p payload ho ↦ ?_, fun m ho ↦ absurd ho (by simp)⟩
        obtain ⟨-, rfl⟩ : hdr.protocol = p ∧ _ = payload := by simpa using ho
        exact ⟨hdr, hacc.hdr_new, hmin, hle, hacc.total_le, by rw [hdata]⟩
      · exact ⟨_, hd, fun p payload ho ↦ absurd ho (by simp),
          fun _ _ ↦ ⟨hdr, hacc.hdr_new, hmin, hle, hacc.total_le⟩⟩
    · obtain ⟨d, hd⟩ := input_rejected (e := e) protocols
        (fun hdr ifc hac ↦ hacc ⟨hdr, ifc, hac⟩)
      exact ⟨_, hd, fun p payload ho ↦ absurd ho (by simp), fun m ho ↦ absurd ho (by simp)⟩

/-- A packet of twenty octets, with a valid header checksum, that claims to be
zero octets long. -/
def zeroTotal : List U8 :=
  [0x45, 0x00, 0x00, 0x00, 0x00, 0x00, 0x00, 0x00, 0xff, 0x06, 0x37, 0xf4,
    192, 0, 2, 1, 192, 0, 2, 2]

/-- An interface for which `zeroTotal` is destined. -/
def zeroTotalIface : IpIface := ⟨⟨192, 0, 2, 2⟩, ⟨255, 255, 255, 0⟩, ⟨192, 0, 2, 255⟩, 1500⟩

/-- `ip::input` panics on `zeroTotal`: it slices `data[20..0]`. -/
theorem input_zeroTotal_not_safe :
    ¬ Safe zeroTotal (input .little [6] (some zeroTotalIface) zeroTotal) := by
  rintro ⟨o, ho, -⟩
  have hpanic : input .little [6] (some zeroTotalIface) zeroTotal = .error .slice := by
    decide +kernel
  exact absurd (hpanic.symm.trans ho) (by simp)

end Microps.Ip
