import Mathlib.Data.Nat.ModEq

/-!
# End-around carry

Addition in one's complement: a carry out of the highest bit comes back in at the lowest.
With words below `m + 1` this is addition modulo `m` in which zero and `m` are kept apart:
a sum is zero only if all its terms are, and otherwise one of `1, …, m`.  `rep m n` is what a
sum of value `n` comes to.
-/

namespace EndAround

/-- What a sum of value `n` comes to. -/
def rep (m n : Nat) : Nat := if n = 0 then 0 else (n - 1) % m + 1

variable {m : Nat}

@[simp] theorem rep_zero (m : Nat) : rep m 0 = 0 := rfl

theorem rep_pos {n : Nat} (h : 0 < n) : 0 < rep m n := by
  rw [rep, if_neg (Nat.ne_of_gt h)]
  exact Nat.succ_pos _

theorem rep_le (hm : 0 < m) (n : Nat) : rep m n ≤ m := by
  unfold rep
  split
  · exact Nat.zero_le m
  · exact Nat.mod_lt _ hm

theorem rep_modEq (m n : Nat) : rep m n ≡ n [MOD m] := by
  unfold rep
  split
  · next h => rw [h]
  · next h =>
    calc (n - 1) % m + 1 ≡ n - 1 + 1 [MOD m] := (Nat.mod_modEq _ _).add_right 1
      _ = n := Nat.succ_pred_eq_of_ne_zero h

/-- A word other than zero comes to itself. -/
theorem rep_of_le {n : Nat} (h : n ≤ m) : rep m n = n := by
  unfold rep
  split
  · next h₀ => exact h₀.symm
  · next h₀ =>
    rw [Nat.mod_eq_of_lt (by omega)]
    omega

/-- What a positive sum comes to depends on its residue only. -/
theorem rep_congr {a b : Nat} (ha : 0 < a) (hb : 0 < b) (h : a ≡ b [MOD m]) :
    rep m a = rep m b := by
  have hpred : a - 1 ≡ b - 1 [MOD m] := by
    refine Nat.ModEq.add_right_cancel' 1 ?_
    rwa [Nat.sub_add_cancel ha, Nat.sub_add_cancel hb]
  rw [rep, rep, if_neg (Nat.ne_of_gt ha), if_neg (Nat.ne_of_gt hb)]
  exact congrArg (· + 1) hpred

/-- Carries may be brought in early. -/
theorem rep_rep_add (m a b : Nat) : rep m (rep m a + b) = rep m (a + b) := by
  rcases Nat.eq_zero_or_pos a with rfl | ha
  · rfl
  · exact rep_congr (Nat.add_pos_left (rep_pos ha) b) (Nat.add_pos_left ha b)
      ((rep_modEq m a).add_right b)

/-- Scaling, too, sees residues only. -/
theorem rep_mul_rep {k : Nat} (hk : 0 < k) (n : Nat) : rep m (k * rep m n) = rep m (k * n) := by
  rcases Nat.eq_zero_or_pos n with rfl | hn
  · rfl
  · exact rep_congr (Nat.mul_pos hk (rep_pos hn)) (Nat.mul_pos hk hn)
      ((rep_modEq m n).mul_left k)

/-- One round of bringing in the carries. -/
theorem rep_fold (m n : Nat) : rep m (n % (m + 1) + n / (m + 1)) = rep m n := by
  rcases Nat.eq_zero_or_pos n with rfl | hn
  · simp
  have hdiv := Nat.mod_add_div n (m + 1)
  have hsplit : (m + 1) * (n / (m + 1)) = m * (n / (m + 1)) + n / (m + 1) := Nat.succ_mul _ _
  have hpos : 0 < n % (m + 1) + n / (m + 1) := by
    by_contra hzero
    obtain ⟨hmod, hquot⟩ := Nat.add_eq_zero_iff.mp (Nat.eq_zero_of_not_pos hzero)
    rw [hmod, hquot] at hdiv
    exact absurd hdiv.symm (Nat.ne_of_gt hn)
  refine rep_congr hpos hn ?_
  calc n % (m + 1) + n / (m + 1)
      ≡ n % (m + 1) + n / (m + 1) + m * (n / (m + 1)) [MOD m] :=
        Nat.ModEq.symm (by simp [Nat.ModEq])
    _ = n := by omega

/-- **Filling in the complement**: a sum to which the complement of what it comes to is added
comes to `m`. -/
theorem rep_add_compl (hm : 0 < m) (n : Nat) : rep m (n + (m - rep m n)) = m := by
  have hle := rep_le hm n
  rw [← rep_rep_add, Nat.add_sub_cancel' hle, rep_of_le (Nat.le_refl m)]

end EndAround
