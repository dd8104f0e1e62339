import Mathlib.Data.Finset.Card
import Mathlib.Order.Interval.Finset.Nat

/-!
# The first free number

A search through consecutive numbers for one that is not taken.  Holders of one number each
cannot take one number more than there are of them, so the search ends early.
-/

namespace FirstFree

/-- Among one number more than there are holders, one is free. -/
theorem exists_notMem (taken : List Nat) (lo : Nat) :
    ∃ n, lo ≤ n ∧ n ≤ lo + taken.length ∧ n ∉ taken := by
  have hcard : taken.toFinset.card < (Finset.Icc lo (lo + taken.length)).card := by
    rw [Nat.card_Icc]
    have := List.toFinset_card_le taken
    omega
  obtain ⟨n, hn, hfree⟩ := Finset.exists_mem_notMem_of_card_lt_card hcard
  rw [Finset.mem_Icc] at hn
  exact ⟨n, hn.1, hn.2, fun h ↦ hfree (List.mem_toFinset.mpr h)⟩

/-- The search ends at the first number that passes. -/
theorem find?_range' {lo count n : Nat} {p : Nat → Bool} (hlo : lo ≤ n) (hcount : n < lo + count)
    (hp : p n = true) :
    ∃ m, (List.range' lo count).find? p = some m ∧ lo ≤ m ∧ m ≤ n ∧ p m = true ∧
      ∀ j, lo ≤ j → j < m → p j = false := by
  cases hfind : (List.range' lo count).find? p with
  | none =>
      have hnone := List.find?_range'_eq_none.mp hfind n hlo hcount
      exact absurd hp (by simpa using hnone)
  | some m =>
      obtain ⟨hm, hmem, hbefore⟩ := List.find?_range'_eq_some.mp hfind
      rw [List.mem_range'_1] at hmem
      refine ⟨m, rfl, hmem.1, ?_, hm, fun j hj hlt ↦ by simpa using hbefore j hj hlt⟩
      by_contra hlt
      have hbad := hbefore n hlo (by omega)
      exact absurd hp (by simpa using hbad)

end FirstFree
