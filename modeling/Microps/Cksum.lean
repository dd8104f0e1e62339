import Microps.Lib.EndAround
import Microps.Util

/-!
# What `cksum16` computes

The complement of a sum with end-around carry.  An encoder computes it over a message whose
checksum field is zero and stores it there; `cksum16_filled` says that the checksum of the
message is then zero, which is what a decoder asks for.
-/

namespace Microps

open EndAround

/-- The sum of the 16-bit words, the odd last octet on its own. -/
def wordSum (e : Endian) : List U8 → Nat
  | a :: b :: rest => (neU16 e a b).toNat + wordSum e rest
  | [a] => a.toNat
  | [] => 0

theorem wordSum_append (e : Endian) {a : List U8} (h : a.length % 2 = 0) (b : List U8) :
    wordSum e (a ++ b) = wordSum e a + wordSum e b := by
  fun_induction wordSum e a with
  | case1 x y rest ih =>
      simp only [List.length_cons] at h
      rw [List.cons_append, List.cons_append, wordSum, ih (by omega), Nat.add_assoc]
  | case2 x => simp at h
  | case3 => rw [List.nil_append, Nat.zero_add]

theorem wordSum_le (e : Endian) (data : List U8) :
    wordSum e data ≤ 65535 * ((data.length + 1) / 2) := by
  fun_induction wordSum e data with
  | case1 x y rest ih =>
      have := (neU16 e x y).isLt
      simp only [List.length_cons]
      omega
  | case2 x =>
      have := x.isLt
      simp only [List.length_cons, List.length_nil]
      omega
  | case3 => exact Nat.zero_le _

/-- The octets of a word, as the host stores it, sum up to the word. -/
theorem wordSum_neBytes16 (e : Endian) (v : U16) : wordSum e (neBytes16 e v) = v.toNat := by
  have happ : v.extractLsb' 8 8 ++ v.extractLsb' 0 8 = v := beU16_extract v
  cases e with
  | little => simp [wordSum, neBytes16, neU16, happ]
  | big => simp [wordSum, neBytes16, neU16, happ]

theorem cksumSum_eq {e : Endian} {data : List U8} {sum : Nat}
    (h : sum + wordSum e data < 2 ^ 32) : cksumSum e data sum = .ok (sum + wordSum e data) := by
  fun_induction cksumSum e data sum with
  | case1 a b rest sum hlt ih =>
      rw [wordSum] at h
      rw [ih (by omega), wordSum, Nat.add_assoc]
  | case2 a b rest sum hge =>
      rw [wordSum] at h
      omega
  | case3 a sum hlt => rfl
  | case4 a sum hge => exact absurd h hge
  | case5 sum => rfl

/-- The folding loop brings in the carries. -/
theorem cksumFold_eq {rounds sum : Nat} (h : sum ≤ rounds) :
    cksumFold rounds sum = rep 65535 sum := by
  induction rounds generalizing sum with
  | zero =>
      obtain rfl : sum = 0 := by omega
      rfl
  | succ rounds ih =>
      unfold cksumFold
      split
      · exact (rep_of_le (by omega)).symm
      · rw [ih (by omega)]
        exact rep_fold 65535 sum

/-- **`cksum16` in closed form**, on a slice that fits twice in a packet. -/
theorem cksum16_eq (e : Endian) {data : List U8} {init : U32} (hlen : data.length ≤ 131068)
    (hinit : init.toNat ≤ 65535) :
    cksum16 e data init = .ok (~~~ BitVec.ofNat 16 (rep 65535 (init.toNat + wordSum e data))) := by
  have hsum := wordSum_le e data
  rw [cksum16, cksumSum_eq (by omega)]
  simp only [cksumFold_eq (Nat.le_refl _)]

theorem toNat_compl_rep (n : Nat) :
    (~~~ BitVec.ofNat 16 (rep 65535 n)).toNat = 65535 - rep 65535 n := by
  have hle := rep_le (m := 65535) (by decide) n
  rw [BitVec.toNat_not, BitVec.toNat_ofNat, Nat.mod_eq_of_lt (by omega)]

/-- A complemented checksum, as a seed, stands for the sum it was made of. -/
theorem toNat_seed_compl_rep (n : Nat) :
    ((~~~ (~~~ BitVec.ofNat 16 (rep 65535 n))).setWidth 32).toNat = rep 65535 n := by
  have hle := rep_le (m := 65535) (by decide) n
  rw [BitVec.toNat_setWidth_of_le (by decide), BitVec.not_not, BitVec.toNat_ofNat,
    Nat.mod_eq_of_lt (by omega)]

/-- **A seeded checksum in closed form**: it is that of the pseudo header and the data at once. -/
theorem seeded_cksum16_eq (e : Endian) {pseudo data : List U8} (hpseudo : pseudo.length ≤ 131068)
    (hdata : data.length ≤ 131068) :
    (do let seed ← cksum16 e pseudo 0; cksum16 e data ((~~~ seed).setWidth 32)) =
      .ok (~~~ BitVec.ofNat 16 (rep 65535 (wordSum e pseudo + wordSum e data))) := by
  have hseed : cksum16 e pseudo 0 = .ok (~~~ BitVec.ofNat 16 (rep 65535 (wordSum e pseudo))) := by
    rw [cksum16_eq e hpseudo (by decide), show (0 : U32).toNat = 0 from rfl, Nat.zero_add]
  rw [hseed]
  change cksum16 e data _ = _
  rw [cksum16_eq e hdata (toNat_seed_le _), toNat_seed_compl_rep, rep_rep_add]

/-- **A message with its checksum filled in has checksum zero**, also where a zero checksum is
stored as `0xffff`. -/
theorem cksum16_filled {e : Endian} {head tail : List U8} {init : U32} {sum stored : U16}
    (heven : head.length % 2 = 0) (hlen : head.length + 2 + tail.length ≤ 131068)
    (hinit : init.toNat ≤ 65535) (hsum : cksum16 e (head ++ [0, 0] ++ tail) init = .ok sum)
    (hstored : stored = sum ∨ sum = 0 ∧ stored = 0xffff) :
    cksum16 e (head ++ neBytes16 e stored ++ tail) init = .ok 0 := by
  have hwords : ∀ v : U16, init.toNat + wordSum e (head ++ neBytes16 e v ++ tail) =
      init.toNat + wordSum e head + wordSum e tail + v.toNat := by
    intro v
    have hfield : (head ++ neBytes16 e v).length % 2 = 0 := by
      simpa using heven
    rw [wordSum_append e hfield, wordSum_append e heven, wordSum_neBytes16]
    omega
  have hzeros : neBytes16 e 0 = [0, 0] := by cases e <;> rfl
  have hlength : ∀ v : U16, (head ++ neBytes16 e v ++ tail).length ≤ 131068 := by
    intro v
    simp only [List.length_append, length_neBytes16]
    omega
  generalize hn : init.toNat + wordSum e head + wordSum e tail = n at hwords
  have hle := rep_le (m := 65535) (by decide) n
  have hcompl : sum.toNat = 65535 - rep 65535 n := by
    rw [← hzeros, cksum16_eq e (hlength 0) hinit, hwords 0] at hsum
    rw [← Except.ok.inj hsum]
    exact toNat_compl_rep n
  rw [cksum16_eq e (hlength stored) hinit, hwords stored]
  -- Either way the sum comes to all ones, and its complement is zero.
  have htop : rep 65535 (n + stored.toNat) = 65535 := by
    rcases hstored with rfl | ⟨rfl, rfl⟩
    · rw [hcompl]
      exact rep_add_compl (by decide) n
    · have htop : rep 65535 n = 65535 := by
        rw [show (0 : U16).toNat = 0 from rfl] at hcompl
        omega
      rw [← rep_rep_add, htop]
      rfl
  rw [htop]
  rfl

/-- The same with the checksum of a pseudo header as the seed. -/
theorem seeded_cksum16_filled {e : Endian} {pseudo head tail : List U8} {sum stored : U16}
    (heven : head.length % 2 = 0) (hlen : head.length + 2 + tail.length ≤ 131068)
    (hsum : (do
      let seed ← cksum16 e pseudo 0
      cksum16 e (head ++ [0, 0] ++ tail) ((~~~ seed).setWidth 32)) = .ok sum)
    (hstored : stored = sum ∨ sum = 0 ∧ stored = 0xffff) :
    (do
      let seed ← cksum16 e pseudo 0
      cksum16 e (head ++ neBytes16 e stored ++ tail) ((~~~ seed).setWidth 32)) = .ok 0 := by
  cases hseed : cksum16 e pseudo 0 with
  | error p =>
      rw [hseed] at hsum
      exact absurd hsum (by simp [bind, Except.bind])
  | ok seed =>
      rw [hseed] at hsum
      exact cksum16_filled heven hlen (toNat_seed_le seed) hsum hstored

end Microps
