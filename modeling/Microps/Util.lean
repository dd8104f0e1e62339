import Microps.Word

/-!
# The Internet checksum

`cksum16` of `util.rs`: a sum of 16-bit words in the host's byte order, folded
to 16 bits and complemented.  The accumulator is a `u32` and is added to with
overflow checks, so a long enough slice could panic; `cksum16_ok` says that no
slice that fits in an IP packet does.
-/

namespace Microps

/-- The summing loop: `sum += u16::from_ne_bytes(..) as u32` for every pair of
octets, and the odd last octet on its own. -/
def cksumSum (e : Endian) : List U8 → Nat → Checked Nat
  | a :: b :: rest, sum =>
      if sum + (neU16 e a b).toNat < 2 ^ 32 then
        cksumSum e rest (sum + (neU16 e a b).toNat)
      else .error .overflow
  | [a], sum => if sum + a.toNat < 2 ^ 32 then .ok (sum + a.toNat) else .error .overflow
  | [], sum => .ok sum

/-- The folding loop: `while sum >> 16 != 0`.  Every round makes `sum` smaller,
so `sum` rounds are more than enough. -/
def cksumFold : Nat → Nat → Nat
  | 0, sum => sum
  | rounds + 1, sum =>
      if sum / 2 ^ 16 = 0 then sum else cksumFold rounds (sum % 2 ^ 16 + sum / 2 ^ 16)

/-- `util::cksum16`. -/
def cksum16 (e : Endian) (data : List U8) (init : U32) : Checked U16 :=
  match cksumSum e data init.toNat with
  | .ok sum => .ok (~~~ (BitVec.ofNat 16 (cksumFold sum sum)))
  | .error p => .error p

/-- Each pair of octets adds less than `2 ^ 16`, so the accumulator of a short
slice stays in range. -/
theorem cksumSum_ok (e : Endian) (data : List U8) (sum : Nat)
    (h : sum + 2 ^ 16 * (data.length / 2 + data.length % 2) < 2 ^ 32) :
    ∃ s, cksumSum e data sum = .ok s := by
  fun_induction cksumSum e data sum with
  | case1 a b rest sum hlt ih =>
      apply ih
      have := (neU16 e a b).isLt
      simp only [List.length_cons] at h
      omega
  | case2 a b rest sum hge =>
      have := (neU16 e a b).isLt
      simp only [List.length_cons] at h
      omega
  | case3 a sum hlt => exact ⟨_, rfl⟩
  | case4 a sum hge =>
      have := a.isLt
      simp only [List.length_cons, List.length_nil] at h
      omega
  | case5 sum => exact ⟨_, rfl⟩

/-- With a 16-bit seed, the accumulator has room for twice the octets of a packet. -/
theorem cksum16_ok_of_le (e : Endian) {data : List U8} (init : U32)
    (hlen : data.length ≤ 131068) (hinit : init.toNat ≤ 65535) :
    ∃ s, cksum16 e data init = .ok s := by
  obtain ⟨s, hs⟩ := cksumSum_ok e data init.toNat (by omega)
  exact ⟨_, by rw [cksum16, hs]⟩

/-- `cksum16` never panics on a slice of at most 65535 octets with a 16-bit
seed, which is how every caller of the stack uses it. -/
theorem cksum16_ok (e : Endian) {data : List U8} (init : U32)
    (hlen : data.length ≤ 65535) (hinit : init.toNat ≤ 65535) :
    ∃ s, cksum16 e data init = .ok s :=
  cksum16_ok_of_le e init (by omega) hinit

/-- The seed that is made of the checksum of a pseudo header. -/
theorem toNat_seed_le (sum : U16) : ((~~~ sum).setWidth 32).toNat ≤ 65535 := by
  have := (~~~ sum).isLt
  rw [BitVec.toNat_setWidth_of_le (by decide)]
  omega

/-- A checksum seeded with that of a pseudo header does not panic either. -/
theorem seeded_cksum16_ok (e : Endian) {pseudo data : List U8} (hpseudo : pseudo.length ≤ 65535)
    (hdata : data.length ≤ 131068) :
    ∃ s, (do let sum ← cksum16 e pseudo 0; cksum16 e data ((~~~ sum).setWidth 32)) = .ok s := by
  obtain ⟨sum, hsum⟩ := cksum16_ok e 0 hpseudo (by decide)
  obtain ⟨s, hs⟩ := cksum16_ok_of_le e _ hdata (toNat_seed_le sum)
  exact ⟨s, by rw [hsum]; exact hs⟩

end Microps
