import Mathlib.Data.List.Basic

/-!
# Spaced times

A list of times, of which each is at least as far after the one before it as a lower bound says,
and at most as far as an upper bound says.  The bounds may depend on the place in the list.
-/

/-- Consecutive times are spaced. -/
def Spaced (lo hi : Nat → Nat) (ts : List Nat) : Prop :=
  ∀ i t t', ts[i]? = some t → ts[i + 1]? = some t' → t + lo i ≤ t' ∧ t' ≤ t + hi i

namespace Spaced

variable {lo hi : Nat → Nat} {ts : List Nat} {t t' : Nat}

theorem singleton (lo hi : Nat → Nat) (t : Nat) : Spaced lo hi [t] :=
  fun i _ _ _ h ↦ absurd h (by simp)

/-- A time joins at the end. -/
theorem snoc (h : Spaced lo hi ts) (hlast : ts.getLast? = some t)
    (hlo : t + lo (ts.length - 1) ≤ t') (hhi : t' ≤ t + hi (ts.length - 1)) :
    Spaced lo hi (ts ++ [t']) := by
  have hlen : 0 < ts.length := by
    rw [List.length_pos_iff]
    rintro rfl
    exact absurd hlast (by simp)
  rw [List.getLast?_eq_getElem?] at hlast
  intro i a b ha hb
  rcases Nat.lt_trichotomy (i + 1) ts.length with hlt | heq | hgt
  · rw [List.getElem?_append_left (by omega)] at ha
    rw [List.getElem?_append_left hlt] at hb
    exact h i a b ha hb
  · obtain rfl : i = ts.length - 1 := by omega
    rw [List.getElem?_append_left (by omega), hlast] at ha
    rw [List.getElem?_append_right (by omega), heq, Nat.sub_self] at hb
    cases ha
    cases hb
    exact ⟨hlo, hhi⟩
  · rw [List.getElem?_append_right (by omega), List.getElem?_eq_none (by simp; omega)] at hb
    exact absurd hb (by simp)

end Spaced
