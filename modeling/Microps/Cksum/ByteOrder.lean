import Microps.Cksum.Compose
import Microps.Lib.Machine

/-!
# Checksums across byte orders

`cksum16` reads words in the host's byte order and the encoders store its result in that order.
A big-endian sum is 256 times the little-endian one, up to a multiple of 65535, and swapping the
octets of the result undoes it.  The odd last octet does not follow: it is added as the low
octet of a word on either host, where a big-endian one should add it as the high one.
`byteOrderFree_iff` says what comes of that.
-/

namespace Microps

open EndAround

/-- The checksum of a buffer, seeded with that of its pseudo header.  A message without one has
the empty pseudo header, whose seed is zero. -/
def seededCksum (e : Endian) (pseudo buf : List U8) : Checked U16 := do
  let seed ← cksum16 e pseudo 0
  cksum16 e buf ((~~~ seed).setWidth 32)

/-- The two octets that an encoder stores for a buffer. -/
def storedCksum (e : Endian) (pseudo buf : List U8) : Checked (List U8) := do
  let sum ← seededCksum e pseudo buf
  return neBytes16 e sum

/-- Hosts of either byte order store the same octets for a buffer, and every host accepts the
message in which a host of any byte order has stored them. -/
def ByteOrderFree (pseudo buf : List U8) : Prop :=
  (∃ stored, storedCksum .little pseudo buf = .ok stored ∧
    storedCksum .big pseudo buf = .ok stored) ∧
  ∀ head tail, buf = head ++ [0, 0] ++ tail → head.length % 2 = 0 →
    ∀ e e' stored, storedCksum e pseudo buf = .ok stored →
      seededCksum e' pseudo (head ++ stored ++ tail) = .ok 0

theorem seededCksum_eq (e : Endian) {pseudo buf : List U8} (hpseudo : pseudo.length ≤ 131068)
    (hbuf : buf.length ≤ 131068) :
    seededCksum e pseudo buf =
      .ok (~~~ BitVec.ofNat 16 (rep 65535 (wordSum e pseudo + wordSum e buf))) :=
  seeded_cksum16_eq e hpseudo hbuf

theorem storedCksum_eq (e : Endian) {pseudo buf : List U8} (hpseudo : pseudo.length ≤ 131068)
    (hbuf : buf.length ≤ 131068) :
    storedCksum e pseudo buf = .ok (neBytes16 e
      (~~~ BitVec.ofNat 16 (rep 65535 (wordSum e pseudo + wordSum e buf)))) := by
  rw [storedCksum, seededCksum_eq e hpseudo hbuf]
  rfl

/-! ## Swapping octets -/

/-- A word with its octets swapped. -/
def swapOctets (n : Nat) : Nat := 256 * (n % 256) + n / 256

/-- Swapping the octets of a word is multiplying it by 256. -/
theorem swapOctets_eq_rep {n : Nat} (h : n ≤ 65535) : swapOctets n = rep 65535 (256 * n) := by
  rcases Nat.eq_zero_or_pos n with rfl | hn
  · rfl
  · have hle : swapOctets n ≤ 65535 := by
      rw [swapOctets]
      omega
    have hpos : 0 < swapOctets n := by
      rw [swapOctets]
      omega
    have hcongr : swapOctets n ≡ 256 * n [MOD 65535] := by
      rw [swapOctets, Nat.ModEq]
      omega
    rw [← rep_of_le hle]
    exact rep_congr hpos (by omega) hcongr

/-- The little-endian octets of one word are the big-endian ones of another. -/
theorem neBytes16_eq_iff (v w : U16) :
    neBytes16 .little v = neBytes16 .big w ↔ v.toNat = swapOctets w.toNat := by
  have hv := v.isLt
  have hw := w.isLt
  simp only [neBytes16, List.cons.injEq, and_true, ← BitVec.toNat_inj, BitVec.extractLsb'_toNat,
    Nat.shiftRight_eq_div_pow, Nat.pow_zero, Nat.div_one, Nat.reducePow, swapOctets]
  have hhigh : w.toNat / 256 < 256 := by omega
  have hlow : w.toNat % 256 < 256 := Nat.mod_lt _ (by decide)
  generalize w.toNat / 256 = high at hhigh ⊢
  generalize w.toNat % 256 = low at hlow ⊢
  omega

/-! ## Sums on the two hosts -/

/-- The last octet of a slice of odd length. -/
def oddOctet (data : List U8) : Nat :=
  match data with
  | _ :: _ :: rest => oddOctet rest
  | [a] => a.toNat
  | [] => 0

theorem oddOctet_lt (data : List U8) : oddOctet data < 256 := by
  fun_induction oddOctet data with
  | case1 a b rest ih => exact ih
  | case2 a => exact a.isLt
  | case3 => decide

theorem oddOctet_eq_zero_iff (data : List U8) :
    oddOctet data = 0 ↔ data.length % 2 = 0 ∨ data.getLast? = some 0 := by
  fun_induction oddOctet data with
  | case1 a b rest ih =>
      rw [ih]
      cases rest with
      | nil => simp
      | cons c rest =>
          have hparity : (a :: b :: c :: rest).length % 2 = (c :: rest).length % 2 := by
            simp only [List.length_cons]
            omega
          rw [hparity, List.getLast?_cons_cons, List.getLast?_cons_cons]
  | case2 a => simp [← BitVec.toNat_inj]
  | case3 => simp

/-- The sum on a big-endian host, shifted by an octet, against the one on a little-endian host:
the odd octet is shifted out of its place. -/
theorem wordSum_big (data : List U8) :
    256 * wordSum .big data ≡ wordSum .little data + 255 * oddOctet data [MOD 65535] := by
  induction data using wordSum.induct with
  | case1 a b rest ih =>
      have hword : 256 * (neU16 .big a b).toNat ≡ (neU16 .little a b).toNat [MOD 65535] := by
        rw [neU16, neU16, toNat_append_octets, toNat_append_octets, Nat.ModEq]
        omega
      calc 256 * wordSum .big (a :: b :: rest)
          = 256 * (neU16 .big a b).toNat + 256 * wordSum .big rest := by
            rw [wordSum, Nat.mul_add]
        _ ≡ (neU16 .little a b).toNat + (wordSum .little rest + 255 * oddOctet rest)
            [MOD 65535] := hword.add ih
        _ = wordSum .little (a :: b :: rest) + 255 * oddOctet (a :: b :: rest) := by
            rw [wordSum, oddOctet, Nat.add_assoc]
  | case2 a =>
      simp only [wordSum, oddOctet, Nat.ModEq]
      omega
  | case3 => rfl

/-- Only zeros sum up to zero, on either host. -/
theorem wordSum_eq_zero (data : List U8) : wordSum .big data = 0 ↔ wordSum .little data = 0 := by
  induction data using wordSum.induct with
  | case1 a b rest ih =>
      simp only [wordSum, neU16, toNat_append_octets]
      omega
  | case2 a => rfl
  | case3 => rfl

/-- What the two hosts store for a sum is the same exactly if no odd octet was misplaced. -/
theorem stored_eq_iff {big little odd : Nat} (hodd : odd < 256)
    (hsums : 256 * big ≡ little + 255 * odd [MOD 65535]) (hzero : big = 0 ↔ little = 0) :
    neBytes16 .little (~~~ BitVec.ofNat 16 (rep 65535 little)) =
        neBytes16 .big (~~~ BitVec.ofNat 16 (rep 65535 big)) ↔ odd = 0 := by
  have hlittle := rep_le (m := 65535) (by decide) little
  have hbig := rep_le (m := 65535) (by decide) big
  -- Complementing commutes with swapping.
  have hcompl : swapOctets (65535 - rep 65535 big) = 65535 - swapOctets (rep 65535 big) := by
    rw [swapOctets, swapOctets]
    omega
  have hswap : swapOctets (rep 65535 big) = rep 65535 (256 * big) := by
    rw [swapOctets_eq_rep hbig, rep_mul_rep (by decide)]
  have hswapLe := rep_le (m := 65535) (by decide) (256 * big)
  rw [neBytes16_eq_iff, toNat_compl_rep, toNat_compl_rep, hcompl, hswap]
  constructor
  · intro heq
    have hreps : rep 65535 little = rep 65535 (256 * big) := by omega
    have hmod : little ≡ little + 255 * odd [MOD 65535] :=
      calc little ≡ rep 65535 little [MOD 65535] := (rep_modEq _ _).symm
        _ = rep 65535 (256 * big) := hreps
        _ ≡ 256 * big [MOD 65535] := rep_modEq _ _
        _ ≡ little + 255 * odd [MOD 65535] := hsums
    have hshift : 0 ≡ 255 * odd [MOD 65535] := by
      refine Nat.ModEq.add_left_cancel' little ?_
      rwa [Nat.add_zero]
    rw [Nat.ModEq] at hshift
    omega
  · rintro rfl
    rw [Nat.mul_zero, Nat.add_zero] at hsums
    congr 1
    rcases Nat.eq_zero_or_pos big with rfl | hpos
    · rw [hzero.mp rfl]
    · have hlittlePos : 0 < little := Nat.pos_of_ne_zero fun h0 ↦
        absurd (hzero.mpr h0) (Nat.ne_of_gt hpos)
      exact (rep_congr (by omega) hlittlePos hsums).symm

/-! ## Messages -/

/-- A host accepts what a host of its own byte order has stored. -/
theorem seededCksum_stored {e : Endian} {pseudo buf head tail stored : List U8}
    (hbuf : buf.length ≤ 131068) (hsplit : buf = head ++ [0, 0] ++ tail) (hhead : head.length % 2 = 0)
    (hstored : storedCksum e pseudo buf = .ok stored) :
    seededCksum e pseudo (head ++ stored ++ tail) = .ok 0 := by
  have hfits : head.length + 2 + tail.length ≤ 131068 := by
    rw [hsplit] at hbuf
    simp only [List.length_append, List.length_cons, List.length_nil] at hbuf
    omega
  obtain ⟨sum, hsum, hret⟩ := Machine.exists_of_bind_ok hstored
  obtain rfl := Except.ok.inj hret
  rw [hsplit] at hsum
  exact seeded_cksum16_filled hhead hfits hsum (.inl rfl)

section

variable {pseudo buf : List U8} (heven : pseudo.length % 2 = 0)
  (hpseudo : pseudo.length ≤ 131068) (hbuf : buf.length ≤ 131068)

include heven hpseudo hbuf

/-- The octets stored by the two hosts are the same exactly if the buffer has no odd octet other
than zero. -/
theorem storedCksum_eq_iff :
    storedCksum .little pseudo buf = storedCksum .big pseudo buf ↔ oddOctet buf = 0 := by
  have hnone : oddOctet pseudo = 0 := (oddOctet_eq_zero_iff pseudo).mpr (.inl heven)
  have hsums : 256 * (wordSum .big pseudo + wordSum .big buf) ≡
      wordSum .little pseudo + wordSum .little buf + 255 * oddOctet buf [MOD 65535] := by
    have hadd := (wordSum_big pseudo).add (wordSum_big buf)
    rwa [hnone, Nat.mul_zero, Nat.add_zero, ← Nat.mul_add, ← Nat.add_assoc] at hadd
  have hzero : wordSum .big pseudo + wordSum .big buf = 0 ↔
      wordSum .little pseudo + wordSum .little buf = 0 := by
    rw [Nat.add_eq_zero_iff, Nat.add_eq_zero_iff, wordSum_eq_zero, wordSum_eq_zero]
  rw [storedCksum_eq .little hpseudo hbuf, storedCksum_eq .big hpseudo hbuf, Except.ok.injEq]
  exact stored_eq_iff (oddOctet_lt buf) hsums hzero

/-- **Where the byte order of a host shows**: exactly on a buffer of odd length whose last octet
is not zero. -/
theorem byteOrderFree_iff :
    ByteOrderFree pseudo buf ↔ buf.length % 2 = 0 ∨ buf.getLast? = some 0 := by
  rw [← oddOctet_eq_zero_iff, ← storedCksum_eq_iff heven hpseudo hbuf]
  constructor
  · rintro ⟨⟨stored, hlittle, hbig⟩, -⟩
    rw [hlittle, hbig]
  · intro hsame
    have hall : ∀ e e', storedCksum e pseudo buf = storedCksum e' pseudo buf := by
      intro e e'
      cases e <;> cases e'
      · rfl
      · exact hsame
      · exact hsame.symm
      · rfl
    refine ⟨⟨_, storedCksum_eq .little hpseudo hbuf, ?_⟩, ?_⟩
    · rw [hall .big .little]
      exact storedCksum_eq .little hpseudo hbuf
    · intro head tail hsplit hhead e e' stored hstored
      exact seededCksum_stored hbuf hsplit hhead (hall e' e ▸ hstored)

end

/-- An echo request with an even number of octets. -/
theorem byteOrderFree_even : ByteOrderFree [] [8, 0, 0, 0, 0, 1, 0, 1, 0x61, 0] :=
  (byteOrderFree_iff (by decide) (by decide) (by decide)).mpr (.inl (by decide))

/-- An echo request with one octet of data has a different checksum on either host. -/
theorem not_byteOrderFree_odd :
    storedCksum .little [] [8, 0, 0, 0, 0, 1, 0, 1, 0x61] = .ok [0x96, 0xfd] ∧
      storedCksum .big [] [8, 0, 0, 0, 0, 1, 0, 1, 0x61] = .ok [0xf7, 0x9c] ∧
      ¬ ByteOrderFree [] [8, 0, 0, 0, 0, 1, 0, 1, 0x61] := by
  have hlittle : storedCksum .little [] [8, 0, 0, 0, 0, 1, 0, 1, 0x61] = .ok [0x96, 0xfd] := by
    decide
  have hbig : storedCksum .big [] [8, 0, 0, 0, 0, 1, 0, 1, 0x61] = .ok [0xf7, 0x9c] := by
    decide
  refine ⟨hlittle, hbig, ?_⟩
  rintro ⟨⟨stored, hstored, hstored'⟩, -⟩
  rw [hlittle] at hstored
  rw [hbig, ← hstored] at hstored'
  exact absurd hstored' (by decide)

end Microps
