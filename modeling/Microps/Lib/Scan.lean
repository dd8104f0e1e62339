import Mathlib.Data.List.Basic
import Mathlib.Order.Lattice

/-!
# Loops over a vector

Two loops that a program runs over a vector by index, and what they compute: one takes out in
place what passes a test, and the other finds the first of the least elements.
-/

universe u v

namespace Scan

variable {α : Type u} {κ : Type v}

/-! ## Removal in place -/

/-- From index `i` on, remove what passes the test: the index moves on only where nothing was
removed. -/
def removeFrom (p : α → Bool) (l : List α) (i : Nat) : List α :=
  if h : i < l.length then
    if p (l.get ⟨i, h⟩) then removeFrom p (l.eraseIdx i) i else removeFrom p l (i + 1)
  else l
termination_by l.length - i
decreasing_by
  · rw [List.length_eraseIdx_of_lt h]
    omega
  · omega

/-- What is left, in its order. -/
theorem removeFrom_eq (p : α → Bool) (l : List α) (i : Nat) :
    removeFrom p l i = l.take i ++ (l.drop i).filter fun a ↦ !p a := by
  fun_induction removeFrom p l i with
  | case1 l i h hp ih =>
      have hdrop : l.drop i = l.get ⟨i, h⟩ :: l.drop (i + 1) := List.drop_eq_getElem_cons h
      rw [ih, List.eraseIdx_eq_take_drop_succ, hdrop, List.filter_cons_of_neg (by simpa using hp)]
      have hlen : (l.take i).length = i := List.length_take_of_le (Nat.le_of_lt h)
      rw [List.take_left' hlen, List.drop_left' hlen]
  | case2 l i h hp ih =>
      have hdrop : l.drop i = l.get ⟨i, h⟩ :: l.drop (i + 1) := List.drop_eq_getElem_cons h
      have htake : l.take (i + 1) = l.take i ++ [l.get ⟨i, h⟩] := by simp
      rw [ih, hdrop, List.filter_cons_of_pos (by simpa using hp), htake, List.append_assoc]
      rfl
  | case3 l i h =>
      have hle : l.length ≤ i := Nat.le_of_not_lt h
      rw [List.take_of_length_le hle, List.drop_of_length_le hle]
      simp

theorem removeFrom_zero (p : α → Bool) (l : List α) :
    removeFrom p l 0 = l.filter fun a ↦ !p a := by
  simp [removeFrom_eq]

/-! ## The first of the least -/

section

variable [LinearOrder κ]

/-- One round: the index held so far, unless the element at `i` has a smaller key. -/
def hold (skip : α → Bool) (key : α → κ) (l : List α) (held : Option Nat) (a : α × Nat) :
    Option Nat :=
  if skip a.1 then held else match held.bind fun j ↦ l[j]? with
    | some b => if key b ≤ key a.1 then held else some a.2
    | none => some a.2

/-- The index of the first among the elements with the least key; some are skipped. -/
def firstLeast (skip : α → Bool) (key : α → κ) (l : List α) : Option Nat :=
  l.zipIdx.foldl (hold skip key l) none

/-- Index `i` is the first with the least key among those below `n` that are not skipped. -/
structure IsFirstLeast (skip : α → Bool) (key : α → κ) (l : List α) (n i : Nat) (a : α) :
    Prop where
  at_index : l[i]? = some a
  lt : i < n
  kept : skip a = false
  least : ∀ j b, j < n → l[j]? = some b → skip b = false → key a ≤ key b ∧ (j < i → key a < key b)

variable {skip : α → Bool} {key : α → κ} {l : List α}

/-- There is one such index only. -/
theorem IsFirstLeast.unique {n i j : Nat} {a b : α} (ha : IsFirstLeast skip key l n i a)
    (hb : IsFirstLeast skip key l n j b) : i = j := by
  obtain ⟨hab, hlt⟩ := ha.least j b hb.lt hb.at_index hb.kept
  obtain ⟨hba, hgt⟩ := hb.least i a ha.lt ha.at_index ha.kept
  rcases Nat.lt_trichotomy i j with hij | hij | hij
  · exact absurd (hgt hij) (not_lt_of_ge hab)
  · exact hij
  · exact absurd (hlt hij) (not_lt_of_ge hba)

/-- What is held after `n` elements. -/
def Held (skip : α → Bool) (key : α → κ) (l : List α) (n : Nat) : Option Nat → Prop
  | some i => ∃ a, IsFirstLeast skip key l n i a
  | none => ∀ j b, j < n → l[j]? = some b → skip b = true

/-- One round holds on to it. -/
theorem Held.hold {n : Nat} {held : Option Nat} {a : α} (h : Held skip key l n held)
    (ha : l[n]? = some a) : Held skip key l (n + 1) (hold skip key l held (a, n)) := by
  -- A new element is the one at index `n`.
  have hcases : ∀ {j : Nat} {b : α}, j < n + 1 → l[j]? = some b → j < n ∨ (j = n ∧ b = a) := by
    intro j b hj hb
    rcases Nat.lt_succ_iff_lt_or_eq.mp hj with hlt | rfl
    · exact .inl hlt
    · exact .inr ⟨rfl, Option.some.inj (hb.symm.trans ha)⟩
  unfold Scan.hold
  split
  · next hskip =>
    cases held with
    | none =>
        intro j b hj hb
        rcases hcases hj hb with hlt | ⟨-, rfl⟩
        · exact h j b hlt hb
        · exact hskip
    | some i =>
        obtain ⟨c, hc⟩ := h
        refine ⟨c, hc.at_index, Nat.lt_succ_of_lt hc.lt, hc.kept, fun j b hj hb hkept ↦ ?_⟩
        rcases hcases hj hb with hlt | ⟨-, rfl⟩
        · exact hc.least j b hlt hb hkept
        · exact absurd (hskip.symm.trans hkept) (by simp)
  next hskip =>
  have hskip : skip a = false := by simpa using hskip
  cases held with
  | none =>
      refine ⟨a, ha, Nat.lt_succ_self n, hskip, fun j b hj hb hkept ↦ ?_⟩
      rcases hcases hj hb with hlt | ⟨rfl, rfl⟩
      · exact absurd ((h j b hlt hb).symm.trans hkept) (by simp)
      · exact ⟨le_refl _, fun hlt ↦ absurd hlt (Nat.lt_irrefl _)⟩
  | some i =>
      obtain ⟨c, hc⟩ := h
      simp only [Option.bind_some, hc.at_index]
      split
      · next hle =>
        refine ⟨c, hc.at_index, Nat.lt_succ_of_lt hc.lt, hc.kept, fun j b hj hb hkept ↦ ?_⟩
        rcases hcases hj hb with hlt | ⟨rfl, rfl⟩
        · exact hc.least j b hlt hb hkept
        · exact ⟨hle, fun hlt ↦ absurd hc.lt (Nat.lt_asymm hlt)⟩
      · next hgt =>
        have hgt : key a < key c := lt_of_not_ge hgt
        refine ⟨a, ha, Nat.lt_succ_self n, hskip, fun j b hj hb hkept ↦ ?_⟩
        rcases hcases hj hb with hlt | ⟨rfl, rfl⟩
        · have hlt' := lt_of_lt_of_le hgt (hc.least j b hlt hb hkept).1
          exact ⟨le_of_lt hlt', fun _ ↦ hlt'⟩
        · exact ⟨le_refl _, fun hlt ↦ absurd hlt (Nat.lt_irrefl _)⟩

/-- **The loop finds the first of the least.** -/
theorem firstLeast_held (skip : α → Bool) (key : α → κ) (l : List α) :
    Held skip key l l.length (firstLeast skip key l) := by
  suffices h : ∀ (rest : List α) (n : Nat) (held : Option Nat), l.drop n = rest → n ≤ l.length →
      Held skip key l n held →
      Held skip key l l.length ((rest.zipIdx n).foldl (hold skip key l) held) from
    h l 0 none rfl (Nat.zero_le _) fun j b hj ↦ absurd hj (Nat.not_lt_zero j)
  intro rest
  induction rest with
  | nil =>
      intro n held hdrop hle hheld
      obtain rfl : n = l.length := Nat.le_antisymm hle (List.drop_eq_nil_iff.mp hdrop)
      exact hheld
  | cons a rest ih =>
      intro n held hdrop _ hheld
      have hlt : n < l.length := by
        by_contra hge
        rw [List.drop_of_length_le (Nat.le_of_not_lt hge)] at hdrop
        exact absurd hdrop (by simp)
      have hcons := (List.drop_eq_getElem_cons hlt).symm.trans hdrop
      obtain ⟨hget, hrest⟩ := List.cons.inj hcons
      have ha : l[n]? = some a := by rw [List.getElem?_eq_getElem hlt, hget]
      exact ih (n + 1) _ hrest hlt (hheld.hold ha)

end

end Scan
