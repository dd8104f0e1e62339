import Microps.Ether
import Microps.Lib.Numeral

/-!
# Addresses as text

How addresses are written and read: `Display` and `FromStr` of `IpAddr` and `IpEndp` in `ip.rs`,
of `EtherAddr` in `ether.rs`, and of `SocketAddrV4` and `SocketAddr` in `sock.rs`.  A text is the
list of its characters, and `Err(())` is `none`.
-/

namespace Microps

open Numeral

/-! ## Fields -/

/-- `u8::from_str_radix(s, radix)`, which is `s.parse()` for radix ten. -/
def parseU8 (radix : Nat) (s : List Char) : Option U8 :=
  (parseUint radix (2 ^ 8) s).map (BitVec.ofNat 8)

/-- `s.parse()` for a `u16`. -/
def parseU16 (s : List Char) : Option U16 := (parseUint 10 (2 ^ 16) s).map (BitVec.ofNat 16)

/-- `{}` of an unsigned word. -/
def decimal {w : Nat} (v : BitVec w) : List Char := Nat.toDigits 10 v.toNat

/-- `{:02x}` of an octet. -/
def hex02 (v : U8) : List Char :=
  let digits := Nat.toDigits 16 v.toNat
  List.replicate (2 - digits.length) '0' ++ digits

/-- The loop of `from_str` over an array of `n` octets, and the test that no field is left. -/
def parseOctets (radix : Nat) : Nat → List (List Char) → Option (List U8)
  | 0, [] => some []
  | 0, _ :: _ => none
  | _ + 1, [] => none
  | n + 1, part :: parts => do
      let octet ← parseU8 radix part
      let octets ← parseOctets radix n parts
      return octet :: octets

/-! ## IP -/

namespace IpAddr

/-- `IpAddr::fmt`. -/
def fmt (a : IpAddr) : List Char :=
  decimal a.o₀ ++ '.' :: (decimal a.o₁ ++ '.' :: (decimal a.o₂ ++ '.' :: decimal a.o₃))

/-- `IpAddr::from_str`. -/
def fromStr (s : List Char) : Option IpAddr := do
  match ← parseOctets 10 4 (s.splitOn '.') with
  | [o₀, o₁, o₂, o₃] => return ⟨o₀, o₁, o₂, o₃⟩
  | _ => none

end IpAddr

namespace IpEndp

/-- `IpEndp::fmt`. -/
def fmt (e : IpEndp) : List Char := e.addr.fmt ++ ':' :: decimal e.port

/-- `IpEndp::from_str`. -/
def fromStr (s : List Char) : Option IpEndp := do
  let (addrStr, portStr) ← rsplitOnce ':' s
  let addr ← IpAddr.fromStr addrStr
  let port ← parseU16 portStr
  return ⟨addr, port⟩

end IpEndp

/-! ## Sockets -/

/-- `SocketAddrV4`. -/
structure SocketAddrV4 where
  ip : IpAddr
  port : U16
deriving DecidableEq, Repr

/-- `SocketAddr`. -/
inductive SocketAddr where
  | v4 (addr : SocketAddrV4)
deriving DecidableEq, Repr

/-- `SocketAddrV4::fmt`. -/
def SocketAddrV4.fmt (a : SocketAddrV4) : List Char := a.ip.fmt ++ ':' :: decimal a.port

/-- `SocketAddrV4::from_str`. -/
def SocketAddrV4.fromStr (s : List Char) : Option SocketAddrV4 := do
  let endp ← IpEndp.fromStr s
  return ⟨endp.addr, endp.port⟩

/-- `SocketAddr::fmt`. -/
def SocketAddr.fmt : SocketAddr → List Char
  | .v4 addr => addr.fmt

/-- `SocketAddr::from_str`. -/
def SocketAddr.fromStr (s : List Char) : Option SocketAddr := do
  let addr ← SocketAddrV4.fromStr s
  return .v4 addr

/-! ## Ethernet -/

namespace EtherAddr

/-- `EtherAddr::fmt`. -/
def fmt (a : EtherAddr) : List Char :=
  hex02 a.o₀ ++ ':' :: (hex02 a.o₁ ++ ':' :: (hex02 a.o₂ ++ ':' :: (hex02 a.o₃ ++
    ':' :: (hex02 a.o₄ ++ ':' :: hex02 a.o₅))))

/-- `EtherAddr::from_str`. -/
def fromStr (s : List Char) : Option EtherAddr := do
  match ← parseOctets 16 6 (s.splitOn ':') with
  | [o₀, o₁, o₂, o₃, o₄, o₅] => return ⟨o₀, o₁, o₂, o₃, o₄, o₅⟩
  | _ => none

end EtherAddr

/-! ## What is read -/

/-- The fields are numerals with the values of the octets. -/
def Reads (radix : Nat) (fields : List (List Char)) (octets : List U8) : Prop :=
  List.Forall₂ (fun field octet ↦ IsNumeral radix field octet.toNat) fields octets

section

variable {radix : Nat} (hpos : 0 < radix) (hradix : radix ≤ 16)

include hpos hradix

/-- A word is read from the numerals of its value. -/
theorem parseUint_map_iff {w : Nat} {s : List Char} {v : BitVec w} :
    (parseUint radix (2 ^ w) s).map (BitVec.ofNat w) = some v ↔ IsNumeral radix s v.toNat := by
  rw [Option.map_eq_some_iff]
  constructor
  · rintro ⟨n, hn, rfl⟩
    obtain ⟨hnumeral, hlt⟩ := (parseUint_eq_some_iff hpos hradix).mp hn
    rwa [BitVec.toNat_ofNat, Nat.mod_eq_of_lt hlt]
  · intro hnumeral
    exact ⟨v.toNat, (parseUint_eq_some_iff hpos hradix).mpr ⟨hnumeral, v.isLt⟩, by simp⟩

theorem parseOctets_eq_some_iff {n : Nat} {fields : List (List Char)} {octets : List U8} :
    parseOctets radix n fields = some octets ↔ octets.length = n ∧ Reads radix fields octets := by
  induction n generalizing fields octets with
  | zero =>
      cases fields with
      | nil =>
          rw [parseOctets, Option.some.injEq, eq_comm]
          refine ⟨?_, fun h ↦ List.eq_nil_of_length_eq_zero h.1⟩
          rintro rfl
          exact ⟨rfl, .nil⟩
      | cons field fields =>
          refine iff_of_false (by simp [parseOctets]) ?_
          rintro ⟨hlen, hreads⟩
          rw [List.eq_nil_of_length_eq_zero hlen] at hreads
          exact absurd hreads (by simp [Reads])
  | succ n ih =>
      cases fields with
      | nil =>
          refine iff_of_false (by simp [parseOctets]) ?_
          rintro ⟨hlen, hreads⟩
          obtain rfl := List.forall₂_nil_left_iff.mp hreads
          exact absurd hlen (by simp)
      | cons field fields =>
          simp only [parseOctets, Option.bind_eq_bind, Option.bind_eq_some_iff, Option.pure_def,
            Option.some.injEq, parseU8, parseUint_map_iff hpos hradix, ih]
          constructor
          · rintro ⟨octet, hfield, octets, ⟨hlen, hreads⟩, rfl⟩
            exact ⟨by rw [List.length_cons, hlen], .cons hfield hreads⟩
          · rintro ⟨hlen, hreads⟩
            obtain ⟨octet, octets, hfield, hrest, rfl⟩ := List.forall₂_cons_left_iff.mp hreads
            exact ⟨octet, hfield, octets, ⟨Nat.succ.inj hlen, hrest⟩, rfl⟩

/-- Octets are read from fields that are joined by a separator. -/
theorem parseOctets_splitOn_iff {sep : Char} (hsep : sep.isAlphanum = false) (hplus : sep ≠ '+')
    {s : List Char} {octets : List U8} (hne : octets ≠ []) :
    parseOctets radix octets.length (s.splitOn sep) = some octets ↔
      ∃ fields, Reads radix fields octets ∧ s = [sep].intercalate fields := by
  rw [parseOctets_eq_some_iff hpos hradix]
  have hsplit {fields : List (List Char)} (hreads : Reads radix fields octets) :
      s.splitOn sep = fields ↔ s = [sep].intercalate fields := by
    refine splitOn_eq_iff ?_ ?_
    · rintro rfl
      exact hne (List.forall₂_nil_left_iff.mp hreads)
    · intro field hmem
      obtain ⟨octet, hfield⟩ := exists_forall₂_iff.mp ⟨octets, hreads⟩ field hmem
      exact hfield.not_mem hradix hsep hplus
  constructor
  · rintro ⟨-, hreads⟩
    exact ⟨_, hreads, (hsplit hreads).mp rfl⟩
  · rintro ⟨fields, hreads, hs⟩
    rw [(hsplit hreads).mpr hs]
    exact ⟨rfl, hreads⟩

/-- The same for an address, which is its octets. -/
theorem bind_parseOctets_iff {sep : Char} (hsep : sep.isAlphanum = false) (hplus : sep ≠ '+')
    {s : List Char} {A : Type} {a : A} {octets : List U8} (hne : octets ≠ [])
    {make : List U8 → Option A} (hmake : ∀ octets', make octets' = some a ↔ octets' = octets) :
    (parseOctets radix octets.length (s.splitOn sep)).bind make = some a ↔
      ∃ fields, Reads radix fields octets ∧ s = [sep].intercalate fields := by
  simp only [Option.bind_eq_some_iff, hmake, exists_eq_right]
  exact parseOctets_splitOn_iff hpos hradix hsep hplus hne

end

/-- **An IP address is read** from four numerals with a dot in between. -/
theorem IpAddr.fromStr_eq_some_iff {s : List Char} {a : IpAddr} :
    IpAddr.fromStr s = some a ↔
      ∃ fields, Reads 10 fields a.octets ∧ s = ['.'].intercalate fields := by
  have hne : a.octets ≠ [] := by simp [octets]
  refine bind_parseOctets_iff (show 0 < 10 by decide) (by decide) (by decide) (by decide) hne
    fun octets ↦ ⟨fun h ↦ ?_, ?_⟩
  · split at h
    · obtain rfl := Option.some.inj h
      rfl
    · exact absurd h (by simp)
  · rintro rfl
    rfl

/-- **An Ethernet address is read** from six numerals with a colon in between. -/
theorem EtherAddr.fromStr_eq_some_iff {s : List Char} {a : EtherAddr} :
    EtherAddr.fromStr s = some a ↔
      ∃ fields, Reads 16 fields a.octets ∧ s = [':'].intercalate fields := by
  have hne : a.octets ≠ [] := by simp [octets]
  refine bind_parseOctets_iff (show 0 < 16 by decide) (by decide) (by decide) (by decide) hne
    fun octets ↦ ⟨fun h ↦ ?_, ?_⟩
  · split at h
    · obtain rfl := Option.some.inj h
      rfl
    · exact absurd h (by simp)
  · rintro rfl
    rfl

/-- **An endpoint is read** from an address, a colon and a numeral. -/
theorem IpEndp.fromStr_eq_some_iff {s : List Char} {e : IpEndp} :
    IpEndp.fromStr s = some e ↔ ∃ addr port, s = addr ++ ':' :: port ∧
      IpAddr.fromStr addr = some e.addr ∧ IsNumeral 10 port e.port.toNat := by
  simp only [IpEndp.fromStr, Option.bind_eq_bind, Option.bind_eq_some_iff, Option.pure_def,
    Option.some.injEq, Prod.exists, rsplitOnce_eq_some_iff, parseU16,
    parseUint_map_iff (show 0 < 10 by decide) (by decide)]
  constructor
  · rintro ⟨addr, port, ⟨hs, -⟩, a, haddr, v, hport, rfl⟩
    exact ⟨addr, port, hs, haddr, hport⟩
  · rintro ⟨addr, port, hs, haddr, hport⟩
    exact ⟨addr, port, ⟨hs, hport.not_mem (by decide) (by decide) (by decide)⟩, e.addr, haddr,
      e.port, hport, rfl⟩

/-! ## There and back -/

theorem isNumeral_decimal {w : Nat} (v : BitVec w) : IsNumeral 10 (decimal v) v.toNat :=
  .inl (isRun_toDigits (by decide) v.toNat)

theorem isNumeral_hex02 (v : U8) : IsNumeral 16 (hex02 v) v.toNat :=
  .inl ((isRun_toDigits (by decide) v.toNat).zeros (by decide) _)

/-- Octets that are written as numerals are read back. -/
theorem reads_map {radix : Nat} {write : U8 → List Char}
    (hwrite : ∀ v, IsNumeral radix (write v) v.toNat) (octets : List U8) :
    Reads radix (octets.map write) octets := by
  rw [Reads, List.forall₂_map_left_iff, List.forall₂_same]
  exact fun v _ ↦ hwrite v

theorem IpAddr.fromStr_fmt (a : IpAddr) : IpAddr.fromStr a.fmt = some a := by
  refine IpAddr.fromStr_eq_some_iff.mpr ⟨_, reads_map isNumeral_decimal a.octets, ?_⟩
  simp [IpAddr.fmt, IpAddr.octets, List.intercalate]

theorem IpEndp.fromStr_fmt (e : IpEndp) : IpEndp.fromStr e.fmt = some e :=
  IpEndp.fromStr_eq_some_iff.mpr
    ⟨e.addr.fmt, decimal e.port, rfl, e.addr.fromStr_fmt, isNumeral_decimal e.port⟩

theorem SocketAddr.fromStr_fmt (a : SocketAddr) : SocketAddr.fromStr a.fmt = some a := by
  obtain ⟨⟨ip, port⟩⟩ := a
  have hendp : IpEndp.fromStr (SocketAddr.fmt (.v4 ⟨ip, port⟩)) = some ⟨ip, port⟩ :=
    IpEndp.fromStr_fmt ⟨ip, port⟩
  simp only [SocketAddr.fromStr, SocketAddrV4.fromStr, hendp, Option.bind_eq_bind,
    Option.bind_some, Option.pure_def]

theorem EtherAddr.fromStr_fmt (a : EtherAddr) : EtherAddr.fromStr a.fmt = some a := by
  refine EtherAddr.fromStr_eq_some_iff.mpr ⟨_, reads_map isNumeral_hex02 a.octets, ?_⟩
  simp [EtherAddr.fmt, EtherAddr.octets, List.intercalate]

/-- **Every address is read back from its text.** -/
theorem addr_text_round_trip :
    (∀ a : IpAddr, IpAddr.fromStr a.fmt = some a) ∧
      (∀ e : IpEndp, IpEndp.fromStr e.fmt = some e) ∧
      (∀ a : SocketAddr, SocketAddr.fromStr a.fmt = some a) ∧
      ∀ a : EtherAddr, EtherAddr.fromStr a.fmt = some a :=
  ⟨IpAddr.fromStr_fmt, IpEndp.fromStr_fmt, SocketAddr.fromStr_fmt, EtherAddr.fromStr_fmt⟩

example : IpEndp.fmt ⟨⟨192, 0, 2, 1⟩, 80⟩ = "192.0.2.1:80".toList := by decide +kernel

example : EtherAddr.fmt ⟨0, 0, 0x5e, 0, 0x53, 0xff⟩ = "00:00:5e:00:53:ff".toList := by
  decide +kernel

end Microps
