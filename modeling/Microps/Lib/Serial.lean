import Mathlib.Data.BitVec
import Mathlib.Tactic.Abel

/-!
# Sequence numbers

A log that grows at its end numbers its positions by `w`-bit words, modulo
`2 ^ w`.  Only the word after the last position is kept, so the number of a
position is found by counting back from there: `pos nxt n j` is the number of
position `j` of a log of length `n` that ends at `nxt`.  A window at the end of the
log that is shorter than `2 ^ w` has no two positions of one number.
-/

namespace Serial

variable {w : Nat}

/-- The number of position `j` of a log of length `n` whose next number is
`nxt`. -/
def pos (nxt : BitVec w) (n j : Nat) : BitVec w := nxt - BitVec.ofNat w (n - j)

@[simp] theorem pos_self (nxt : BitVec w) (n : Nat) : pos nxt n n = nxt := by
  simp [pos]

/-- Growing the log does not renumber it. -/
theorem pos_append (nxt : BitVec w) {n j : Nat} (h : j ≤ n) (m : Nat) :
    pos (nxt + BitVec.ofNat w m) (n + m) j = pos nxt n j := by
  have hsplit : n + m - j = (n - j) + m := by omega
  rw [pos, pos, hsplit, BitVec.ofNat_add]
  abel

/-- Numbers count up with positions. -/
theorem pos_add (nxt : BitVec w) {n j k : Nat} (h : j + k ≤ n) :
    pos nxt n j + BitVec.ofNat w k = pos nxt n (j + k) := by
  have hsplit : n - j = (n - (j + k)) + k := by omega
  rw [pos, pos, hsplit, BitVec.ofNat_add]
  abel

/-- How far the end of the log is ahead of a position in the window. -/
theorem toNat_sub_pos (nxt : BitVec w) {n j : Nat} (h : n - j < 2 ^ w) :
    (nxt - pos nxt n j).toNat = n - j := by
  rw [pos, sub_sub_cancel, BitVec.toNat_ofNat, Nat.mod_eq_of_lt h]

/-- Positions count up from the number of the first one. -/
theorem pos_base (base : BitVec w) {n j : Nat} (h : j ≤ n) :
    pos (base + BitVec.ofNat w n) n j = base + BitVec.ofNat w j := by
  have hsplit : BitVec.ofNat w n = BitVec.ofNat w j + BitVec.ofNat w (n - j) := by
    rw [← BitVec.ofNat_add, Nat.add_sub_cancel' h]
  rw [pos, hsplit]
  abel

/-- How far one position in the window is ahead of another. -/
theorem toNat_pos_sub_pos (nxt : BitVec w) {n a j : Nat} (ha : a ≤ j) (hj : j ≤ n)
    (h : n - a < 2 ^ w) : (pos nxt n j - pos nxt n a).toNat = j - a := by
  have hsplit : pos nxt n j = pos nxt n a + BitVec.ofNat w (j - a) := by
    rw [pos_add nxt (by omega), Nat.add_sub_cancel' ha]
  rw [hsplit, add_sub_cancel_left, BitVec.toNat_ofNat, Nat.mod_eq_of_lt (by omega)]

/-- While the numbers have not wrapped since `base`, the plain order of words is
the order of positions. -/
theorem toNat_pos {nxt : BitVec w} {base n j : Nat} (hnxt : nxt.toNat = base + n) (h : j ≤ n) :
    (pos nxt n j).toNat = base + j := by
  have hlt := nxt.isLt
  have hsub : BitVec.ofNat w (n - j) ≤ nxt := by
    rw [BitVec.le_def, BitVec.toNat_ofNat]
    exact Nat.le_trans (Nat.mod_le _ _) (by omega)
  rw [pos, BitVec.toNat_sub_of_le hsub, BitVec.toNat_ofNat, Nat.mod_eq_of_lt (by omega)]
  omega

/-- Every number in the window from position `a` on is that of a position. -/
theorem exists_pos {nxt s : BitVec w} {n a : Nat} (ha : n - a < 2 ^ w)
    (h : (s - pos nxt n a).toNat < (nxt - pos nxt n a).toNat) :
    ∃ i, a ≤ i ∧ i < n ∧ s = pos nxt n i := by
  rw [toNat_sub_pos nxt ha] at h
  refine ⟨a + (s - pos nxt n a).toNat, by omega, by omega, ?_⟩
  rw [← pos_add nxt (by omega), BitVec.ofNat_toNat, BitVec.setWidth_eq]
  abel

/-! ## Moving numbers

Adding one word to two others keeps their plain order exactly when they wrap together.
-/

/-- Adding `k` takes the number past `2 ^ w`. -/
def wraps (k a : BitVec w) : Bool := 2 ^ w ≤ a.toNat + k.toNat

theorem toNat_add_wraps (k a : BitVec w) :
    (a + k).toNat = a.toNat + k.toNat - if wraps k a then 2 ^ w else 0 := by
  have ha := a.isLt
  have hk := k.isLt
  rw [BitVec.toNat_add]
  by_cases h : 2 ^ w ≤ a.toNat + k.toNat
  · rw [if_pos (by simpa [wraps] using h), Nat.mod_eq_sub_mod h, Nat.mod_eq_of_lt (by omega)]
  · rw [if_neg (by simpa [wraps] using h), Nat.mod_eq_of_lt (by omega), Nat.sub_zero]

theorem add_lt_add_iff_wraps {k a b : BitVec w} (hne : a ≠ b) :
    (a + k < b + k ↔ a < b) ↔ wraps k a = wraps k b := by
  have hne : a.toNat ≠ b.toNat := fun h ↦ hne (BitVec.eq_of_toNat_eq h)
  have ha := a.isLt
  have hb := b.isLt
  have hwraps : ∀ c : BitVec w, wraps k c = true ↔ 2 ^ w ≤ c.toNat + k.toNat := fun c ↦ by
    simp [wraps]
  simp only [BitVec.lt_def, toNat_add_wraps, Bool.eq_iff_iff, hwraps]
  split
  · split
    · omega
    · omega
  · split
    · omega
    · omega

/-- All of the numbers wrap, or none does. -/
def Together (k : BitVec w) (numbers : List (BitVec w)) : Prop :=
  ∀ a ∈ numbers, ∀ b ∈ numbers, wraps k a = wraps k b

theorem together_pair {k a b : BitVec w} : Together k [a, b] ↔ wraps k a = wraps k b := by
  refine ⟨fun h ↦ h a (by simp) b (by simp), fun h x hx y hy ↦ ?_⟩
  simp only [List.mem_cons, List.not_mem_nil, or_false] at hx hy
  rcases hx with rfl | rfl <;> rcases hy with rfl | rfl <;> simp [h]

/-- **Two numbers keep their order exactly when they wrap together.** -/
theorem add_lt_add_iff_together {k a b : BitVec w} :
    (a + k < b + k ↔ a < b) ↔ Together k [a, b] := by
  rw [together_pair]
  by_cases hne : a = b
  · subst hne
    exact iff_of_true (iff_of_false (BitVec.lt_irrefl _) (BitVec.lt_irrefl _)) rfl
  · exact add_lt_add_iff_wraps hne

theorem add_le_add_iff_together {k a b : BitVec w} :
    (a + k ≤ b + k ↔ a ≤ b) ↔ Together k [a, b] := by
  rw [← BitVec.not_lt, ← BitVec.not_lt, not_iff_not, add_lt_add_iff_together, together_pair,
    together_pair, eq_comm]

/-- The order of two numbers once they are moved: where only one of them wraps, it comes
first. -/
def Before (k a b : BitVec w) : Prop :=
  wraps k a = true ∧ wraps k b = false ∨ wraps k a = wraps k b ∧ a < b

theorem add_lt_add_iff_before {k a b : BitVec w} : a + k < b + k ↔ Before k a b := by
  have ha := a.isLt
  have hb := b.isLt
  have hwraps : ∀ c : BitVec w, wraps k c = decide (2 ^ w ≤ c.toNat + k.toNat) := fun c ↦ rfl
  simp only [Before, BitVec.lt_def, toNat_add_wraps, hwraps, decide_eq_true_eq, decide_eq_false_iff_not,
    decide_eq_decide]
  split
  · split
    · omega
    · omega
  · split
    · omega
    · omega

@[simp] theorem before_zero {a b : BitVec w} : Before 0 a b ↔ a < b := by
  rw [← add_lt_add_iff_before, add_zero, add_zero]

/-! ## Going round

Where a word lies between two others on the circle of all words does not depend on where the
numbers start.  The plain order finds the same as long as the circle is not cut in between.
-/

/-- Going up from `lo`, and on from 0 after the last word, `x` comes no later than `hi`. -/
def Between (lo x hi : BitVec w) : Prop := x - lo ≤ hi - lo

theorem between_add (k lo x hi : BitVec w) : Between (lo + k) (x + k) (hi + k) ↔ Between lo x hi := by
  simp only [Between, add_sub_add_right_eq_sub]

theorem toNat_sub_wraps (x lo : BitVec w) :
    (x - lo).toNat = x.toNat + (if x < lo then 2 ^ w else 0) - lo.toNat := by
  have hx := x.isLt
  have hlo := lo.isLt
  rw [BitVec.toNat_sub]
  split
  · next h =>
    rw [BitVec.lt_def] at h
    rw [Nat.mod_eq_of_lt (by omega)]
    omega
  · next h =>
    rw [BitVec.lt_def] at h
    rw [Nat.mod_eq_sub_mod (by omega), Nat.mod_eq_of_lt (by omega)]
    omega

theorem le_and_le_iff {lo x hi : BitVec w} : lo ≤ x ∧ x ≤ hi ↔ Between lo x hi ∧ lo ≤ hi := by
  have hx := x.isLt
  have hhi := hi.isLt
  simp only [Between, BitVec.le_def, BitVec.lt_def, toNat_sub_wraps]
  split
  · split
    · omega
    · omega
  · split
    · omega
    · omega

/-- A window of `len` words from `lo` on. -/
theorem le_and_lt_add_iff {lo x len : BitVec w} :
    lo ≤ x ∧ x < lo + len ↔ x - lo < len ∧ lo ≤ lo + len := by
  have hx := x.isLt
  have hlo := lo.isLt
  have hlen := len.isLt
  simp only [BitVec.le_def, BitVec.lt_def, toNat_sub_wraps, toNat_add_wraps, wraps, decide_eq_true_eq]
  split
  · split
    · omega
    · omega
  · split
    · omega
    · omega

end Serial
