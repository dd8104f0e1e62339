import Microps.Cksum

/-!
# `cksum16` and RFC 1071

On a little-endian host: the sum that the loop over the slice builds up is the one's complement
sum of the words of the slice, an odd last octet padded with a zero; the folding loop ends; and
a checksum may be computed in parts.
-/

namespace Microps

open EndAround

/-- The `i`th octet of a slice, zero past its end. -/
def octetAt (data : List U8) (i : Nat) : Nat := (data.getD i 0).toNat

/-- The `i`th 16-bit word of a slice in little-endian order, padded with a zero octet. -/
def paddedWord (data : List U8) (i : Nat) : Nat :=
  octetAt data (2 * i) + 256 * octetAt data (2 * i + 1)

/-- The sum `S` of RFC 1071: the seed and all the words. -/
def rfcSum (data : List U8) (init : U32) : Nat :=
  init.toNat + ((List.range ((data.length + 1) / 2)).map (paddedWord data)).sum

theorem toNat_append_octets (a b : U8) : (a ++ b).toNat = 256 * a.toNat + b.toNat := by
  have hb := b.isLt
  rw [BitVec.toNat_append, ← Nat.shiftLeft_add_eq_or_of_lt hb, Nat.shiftLeft_eq]
  omega

theorem paddedWord_cons (a b : U8) (rest : List U8) (i : Nat) :
    paddedWord (a :: b :: rest) (i + 1) = paddedWord rest i := rfl

/-- The padded words of a slice sum up to `wordSum`. -/
theorem sum_paddedWord (data : List U8) :
    ((List.range ((data.length + 1) / 2)).map (paddedWord data)).sum = wordSum .little data := by
  induction data using wordSum.induct with
  | case1 a b rest ih =>
      have hhead : paddedWord (a :: b :: rest) 0 = (neU16 .little a b).toNat := by
        rw [neU16, toNat_append_octets, Nat.add_comm]
        rfl
      have hcount : ((a :: b :: rest).length + 1) / 2 = (rest.length + 1) / 2 + 1 := by
        simp only [List.length_cons]
        omega
      have htail : paddedWord (a :: b :: rest) ∘ Nat.succ = paddedWord rest := by
        funext i
        exact paddedWord_cons a b rest i
      rw [hcount, List.range_succ_eq_map, List.map_cons, List.map_map, List.sum_cons, hhead, htail,
        ih, wordSum]
  | case2 a => simp [paddedWord, octetAt, wordSum]
  | case3 => rfl

/-! ## The folding loop -/

/-- The body of the folding loop. -/
def foldRound (sum : Nat) : Nat := sum % 2 ^ 16 + sum / 2 ^ 16

/-- The loop `while sum >> 16 != 0`, entered with `sum`, is left with `r`. -/
inductive Folds : Nat → Nat → Prop where
  | done {sum : Nat} (h : sum / 2 ^ 16 = 0) : Folds sum sum
  | round {sum r : Nat} (h : sum / 2 ^ 16 ≠ 0) (hrest : Folds (foldRound sum) r) : Folds sum r

/-- The loop ends, and `cksumFold` is what it computes: the sum decreases in every round. -/
theorem folds_cksumFold {rounds sum : Nat} (h : sum ≤ rounds) : Folds sum (cksumFold rounds sum) := by
  induction rounds generalizing sum with
  | zero =>
      obtain rfl : sum = 0 := by omega
      exact .done rfl
  | succ rounds ih =>
      unfold cksumFold
      split
      · next hfits => exact .done hfits
      · next hfits =>
        refine .round hfits (ih ?_)
        rw [foldRound]
        omega

/-! ## The checksum -/

/-- A checksum computed in two parts, the first one of even length. -/
theorem cksum16_append (e : Endian) {a b : List U8} {init : U32} (heven : a.length % 2 = 0)
    (hlen : (a ++ b).length ≤ 131068) (hinit : init.toNat ≤ 65535) :
    cksum16 e (a ++ b) init =
      (do let first ← cksum16 e a init; cksum16 e b ((~~~ first).setWidth 32)) := by
  have hlen₂ := hlen
  rw [List.length_append] at hlen₂
  rw [cksum16_eq e hlen hinit, cksum16_eq e (by omega : a.length ≤ 131068) hinit]
  change _ = cksum16 e b _
  rw [cksum16_eq e (by omega) (toNat_seed_le _), toNat_seed_compl_rep, rep_rep_add,
    wordSum_append e heven, Nat.add_assoc]

/-- **`cksum16` is the checksum of RFC 1071 and composes.** -/
theorem cksum16_rfc1071 (data : List U8) (init : U32) (hlen : data.length ≤ 65535)
    (hinit : init.toNat ≤ 0xffff) :
    cksumSum .little data init.toNat = .ok (rfcSum data init) ∧ rfcSum data init < 2 ^ 32 ∧
      (∃ r sum, Folds (rfcSum data init) r ∧ cksum16 .little data init = .ok sum ∧
        sum = ~~~ BitVec.ofNat 16 r ∧
        sum.toNat = if rfcSum data init = 0 then 0xffff
          else 0xffff - ((rfcSum data init - 1) % 65535 + 1)) ∧
      ∀ a b, data = a ++ b → a.length % 2 = 0 →
        cksum16 .little (a ++ b) init =
          (do let first ← cksum16 .little a init; cksum16 .little b ((~~~ first).setWidth 32)) := by
  have hrfc : rfcSum data init = init.toNat + wordSum .little data := by
    rw [rfcSum, sum_paddedWord]
  have hwords := wordSum_le .little data
  have hbound : rfcSum data init < 2 ^ 32 := by omega
  have hsum : cksumSum .little data init.toNat = .ok (rfcSum data init) := by
    rw [hrfc] at hbound ⊢
    exact cksumSum_eq hbound
  refine ⟨hsum, hbound, ⟨_, _, folds_cksumFold (Nat.le_refl _), by rw [cksum16, hsum], rfl, ?_⟩, ?_⟩
  · rw [cksumFold_eq (Nat.le_refl _), toNat_compl_rep, rep]
    split
    · rfl
    · rfl
  · rintro a b rfl heven
    exact cksum16_append .little heven (by omega) hinit

/-- The first two words of the header that `util.rs` is tested with, summed at once and apart. -/
theorem cksum16_rfc1071_header :
    ([0x45, 0x00] ++ [0x00, 0x30] : List U8).length ≤ 65535 ∧ (0 : U32).toNat ≤ 0xffff ∧
      cksum16 .little [0x45, 0x00, 0x00, 0x30] 0 = .ok 0xcfba ∧
      cksum16 .little ([0x45, 0x00] ++ [0x00, 0x30]) 0 =
        (do
          let first ← cksum16 .little [0x45, 0x00] 0
          cksum16 .little [0x00, 0x30] ((~~~ first).setWidth 32)) :=
  ⟨by decide, by decide, by decide,
    (cksum16_rfc1071 ([0x45, 0x00] ++ [0x00, 0x30]) 0 (by decide) (by decide)).2.2.2 _ _ rfl
      (by decide)⟩

end Microps
