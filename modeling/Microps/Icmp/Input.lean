import Microps.Cksum
import Microps.Icmp
import Microps.Lib.Machine

/-!
# Receiving an ICMP message

`icmp::input`, and that it reads back what `icmp::output` has encoded.
-/

namespace Microps

/-- `ICMP_TYPE_ECHO_REPLY`. -/
def icmpTypeEchoReply : U8 := 0

/-- `ICMP_TYPE_ECHO`. -/
def icmpTypeEcho : U8 := 8

/-- `IcmpCommon`: a slice long enough to hold a header. -/
structure IcmpCommon where
  data : List U8
  /-- `IcmpCommon::new` refuses shorter slices. -/
  len : icmpHdrSize ≤ data.length

namespace IcmpCommon

/-- `IcmpCommon::new`. -/
def new (data : List U8) : Option IcmpCommon :=
  if h : icmpHdrSize ≤ data.length then some ⟨data, h⟩ else none

/-- `self.data[i]` for an offset in the header. -/
def byte (h : IcmpCommon) (i : Fin 8) : U8 :=
  h.data.get ⟨i, Nat.lt_of_lt_of_le i.isLt h.len⟩

/-- `ty()`. -/
def ty (h : IcmpCommon) : U8 := h.byte 0

/-- `code()`. -/
def code (h : IcmpCommon) : U8 := h.byte 1

/-- `sum()`. -/
def sum (h : IcmpCommon) : U16 := beU16 (h.byte 2) (h.byte 3)

/-- `dep()`. -/
def dep (h : IcmpCommon) : U32 := beU32 (h.byte 4) (h.byte 5) (h.byte 6) (h.byte 7)

end IcmpCommon

/-- The reasons for which `icmp::input` drops a message, with what it logs. -/
inductive IcmpDrop where
  /-- `"too short, len={}"`. -/
  | tooShort (len : Nat)
  /-- `"checksum error, sum=0x{:04x}"`. -/
  | checksum (sum : U16)
deriving DecidableEq, Repr

/-- What a message says. -/
structure Icmp where
  ty : U8
  code : U8
  values : U32
  payload : List U8
deriving DecidableEq, Repr

/-- The checks of `icmp::input`, in their order. -/
def icmpParse (e : Endian) (data : List U8) : Checked (Except IcmpDrop Icmp) :=
  match IcmpCommon.new data with
  | none => return .error (.tooShort data.length)
  | some com => do
      let sum ← cksum16 e data 0
      if sum ≠ 0 then return .error (.checksum com.sum)
      let payload ← slice data icmpHdrSize data.length
      return .ok { ty := com.ty, code := com.code, values := com.dep, payload := payload }

/-- `icmp::input`, on a message from `src`: the reply to an echo request. -/
def icmpInput (e : Endian) (src : IpAddr) (iface : IpIface) (data : List U8) :
    Checked (Option IcmpMessage) := do
  match ← icmpParse e data with
  | .error _ => return none
  | .ok icmp =>
      if icmp.ty = icmpTypeEcho then
        let message ← icmpOutput e icmpTypeEchoReply 0 icmp.values icmp.payload iface.unicast src
        return some message
      else return none

/-- **A message is read back.** -/
theorem icmpParse_output (e : Endian) (icmp : Icmp) (src dst : IpAddr)
    (hlen : icmpHdrSize + icmp.payload.length ≤ 65535) :
    ∃ m, icmpOutput e icmp.ty icmp.code icmp.values icmp.payload src dst = .ok m ∧
      m.src = src ∧ m.dst = dst ∧ m.bytes.length = icmpHdrSize + icmp.payload.length ∧
      icmpParse e m.bytes = .ok (.ok icmp) := by
  obtain ⟨m, hm⟩ := icmpOutput_ok e icmp.ty icmp.code icmp.values icmp.payload src dst hlen
  obtain ⟨sum, hsum, heq⟩ := Machine.exists_of_bind_ok hm
  cases heq
  refine ⟨_, hm, rfl, rfl, ?_, ?_⟩
  · simp [beBytes32, icmpHdrSize]
    omega
  have hzero : cksum16 e ([icmp.ty, icmp.code] ++ neBytes16 e sum ++
      (beBytes32 icmp.values ++ icmp.payload)) 0 = .ok 0 := by
    refine cksum16_filled (by simp) ?_ (by decide) hsum (.inl rfl)
    simp only [icmpHdrSize] at hlen
    simp only [List.length_cons, List.length_nil, List.length_append, beBytes32]
    omega
  obtain ⟨a, b, hfield⟩ := exists_neBytes16 e sum
  rw [hfield] at hzero ⊢
  generalize hbytes : [icmp.ty, icmp.code] ++ [a, b] ++ (beBytes32 icmp.values ++ icmp.payload) =
    bytes at hzero ⊢
  have hlong : icmpHdrSize ≤ bytes.length := by
    simp [← hbytes, beBytes32, icmpHdrSize]
  have hnew : IcmpCommon.new bytes = some ⟨bytes, hlong⟩ := dif_pos hlong
  have hfields : IcmpCommon.ty ⟨bytes, hlong⟩ = icmp.ty ∧
      IcmpCommon.code ⟨bytes, hlong⟩ = icmp.code ∧
      IcmpCommon.dep ⟨bytes, hlong⟩ = icmp.values := by
    subst hbytes
    exact ⟨rfl, rfl, beU32_extract _⟩
  obtain ⟨hty, hcode, hdep⟩ := hfields
  have hpayload : slice bytes icmpHdrSize bytes.length = .ok icmp.payload := by
    rw [slice_ok hlong (Nat.le_refl _), List.take_length]
    subst hbytes
    rfl
  simp only [icmpParse, hnew, hzero, hpayload, hty, hcode, hdep, bind, Except.bind]
  rfl

/-- **An echo request is answered** with its values and its payload, and nothing else is. -/
theorem icmpInput_output (e : Endian) (icmp : Icmp) (src dst : IpAddr) (iface : IpIface)
    (hlen : icmpHdrSize + icmp.payload.length ≤ 65535) :
    ∃ m r, icmpOutput e icmp.ty icmp.code icmp.values icmp.payload src dst = .ok m ∧
      icmpInput e src iface m.bytes = .ok r ∧
      (icmp.ty ≠ icmpTypeEcho → r = none) ∧
      (icmp.ty = icmpTypeEcho → ∃ m', r = some m' ∧ m'.src = iface.unicast ∧ m'.dst = src ∧
        icmpParse e m'.bytes = .ok (.ok { icmp with ty := icmpTypeEchoReply, code := 0 })) := by
  obtain ⟨m, hm, -, -, -, hparse⟩ := icmpParse_output e icmp src dst hlen
  by_cases hecho : icmp.ty = icmpTypeEcho
  · obtain ⟨m', hm', hsrc', hdst', -, hparse'⟩ := icmpParse_output e
      { icmp with ty := icmpTypeEchoReply, code := 0 } iface.unicast src hlen
    refine ⟨m, some m', hm, ?_, fun hother ↦ absurd hecho hother, fun _ ↦
      ⟨m', rfl, hsrc', hdst', hparse'⟩⟩
    simp only [icmpInput, hparse, hecho, hm', if_true, bind, Except.bind, pure, Except.pure]
  · refine ⟨m, none, hm, ?_, fun _ ↦ rfl, fun hother ↦ absurd hother hecho⟩
    simp only [icmpInput, hparse, hecho, if_false, bind, Except.bind, pure, Except.pure]

end Microps
