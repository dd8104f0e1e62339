import Mathlib.Data.List.Basic
import Mathlib.Order.Basic

/-!
# Slot tables

A *slot table* is a list of optional occupants addressed by index.  Freeing a
slot leaves a hole, and allocation fills the first hole before it grows the
list, so an index is a handle that outlives its occupant and may come to name
another one.  Nothing here says what the occupants are.
-/

universe u

/-- A table of slots, each empty or holding one occupant. -/
abbrev Slots (α : Type u) := List (Option α)

namespace Slots

variable {α : Type u}

/-- The occupant of slot `i`; a slot past the end is empty. -/
def peek (t : Slots α) (i : Nat) : Option α := t[i]?.join

/-- Store `a` in slot `i`.  A slot past the end is left alone. -/
def put (t : Slots α) (i : Nat) (a : α) : Slots α := t.set i (some a)

/-- Empty slot `i`. -/
def free (t : Slots α) (i : Nat) : Slots α := t.set i none

/-- Take the first empty slot, or a new one at the end while there are fewer
than `max`. -/
def alloc (max : Nat) (t : Slots α) (a : α) : Option (Nat × Slots α) :=
  match t.findIdx? Option.isNone with
  | some i => some (i, put t i a)
  | none => if max ≤ t.length then none else some (t.length, t ++ [some a])

/-- Take the first empty slot, or a new one at the end. -/
def insert (t : Slots α) (a : α) : Nat × Slots α :=
  match t.findIdx? Option.isNone with
  | some i => (i, put t i a)
  | none => (t.length, t ++ [some a])

/-! ## Reading after writing -/

@[simp] theorem length_put (t : Slots α) (i : Nat) (a : α) : (put t i a).length = t.length := by
  simp [put]

@[simp] theorem length_free (t : Slots α) (i : Nat) : (free t i).length = t.length := by
  simp [free]

@[simp] theorem peek_nil (i : Nat) : peek ([] : Slots α) i = none := by
  simp [peek]

/-- An occupied slot lies inside the table. -/
theorem lt_length_of_peek {t : Slots α} {i : Nat} {a : α} (h : peek t i = some a) :
    i < t.length := by
  by_contra hlt
  rw [peek, List.getElem?_eq_none (by omega)] at h
  exact absurd h (by simp)

theorem mem_of_peek {t : Slots α} {i : Nat} {a : α} (h : peek t i = some a) : some a ∈ t := by
  have hlt := lt_length_of_peek h
  rw [peek, List.getElem?_eq_getElem hlt, Option.join_some] at h
  exact h ▸ List.getElem_mem hlt

theorem peek_of_mem {t : Slots α} {a : α} (h : some a ∈ t) : ∃ i, peek t i = some a := by
  obtain ⟨i, hi⟩ := List.getElem?_of_mem h
  exact ⟨i, by rw [peek, hi, Option.join_some]⟩

/-- Some occupant passes a test. -/
theorem any_any_iff {t : Slots α} {f : α → Bool} :
    (t.any fun slot ↦ slot.any f) = true ↔ ∃ i a, peek t i = some a ∧ f a = true := by
  rw [List.any_eq_true]
  constructor
  · rintro ⟨slot, hslot, h⟩
    obtain ⟨a, rfl, ha⟩ := (Option.any_eq_true _ _).mp h
    obtain ⟨i, hi⟩ := peek_of_mem hslot
    exact ⟨i, a, hi, ha⟩
  · rintro ⟨i, a, hi, ha⟩
    exact ⟨some a, mem_of_peek hi, ha⟩

theorem peek_put_self {t : Slots α} {i : Nat} (h : i < t.length) (a : α) :
    peek (put t i a) i = some a := by
  simp [peek, put, h]

theorem peek_put_ne (t : Slots α) {i j : Nat} (h : j ≠ i) (a : α) :
    peek (put t i a) j = peek t j := by
  simp [peek, put, List.getElem?_set_ne (Ne.symm h)]

@[simp] theorem peek_free_self (t : Slots α) (i : Nat) : peek (free t i) i = none := by
  by_cases h : i < t.length
  · simp [peek, free, h]
  · simp [peek, free, h]

theorem peek_free_ne (t : Slots α) {i j : Nat} (h : j ≠ i) :
    peek (free t i) j = peek t j := by
  simp [peek, free, List.getElem?_set_ne (Ne.symm h)]

/-- Overwriting an occupied slot, at every index. -/
theorem peek_put {t : Slots α} {i : Nat} {a : α} (h : peek t i = some a) (b : α) (j : Nat) :
    peek (put t i b) j = if j = i then some b else peek t j := by
  split
  · next hj => rw [hj, peek_put_self (lt_length_of_peek h)]
  · next hj => exact peek_put_ne t hj b

/-- Freeing a slot, at every index. -/
theorem peek_free (t : Slots α) (i j : Nat) :
    peek (free t i) j = if j = i then none else peek t j := by
  split
  · next hj => rw [hj, peek_free_self]
  · next hj => exact peek_free_ne t hj

/-- What is left after a slot is freed was there before. -/
theorem peek_of_free {t : Slots α} {i j : Nat} {a : α} (h : peek (free t i) j = some a) :
    peek t j = some a := by
  rw [peek_free] at h
  split at h
  · exact absurd h (by simp)
  · exact h

/-- The second of two writes to a slot is the one that counts. -/
@[simp] theorem put_put (t : Slots α) (i : Nat) (a b : α) : put (put t i a) i b = put t i b := by
  simp [put]

/-- Storing back what is already there changes nothing. -/
theorem put_peek {t : Slots α} {i : Nat} {a : α} (h : peek t i = some a) : put t i a = t := by
  apply List.ext_getElem?
  intro j
  by_cases hj : j = i
  · subst hj
    have hlt := lt_length_of_peek h
    simp only [peek, List.getElem?_eq_getElem hlt, Option.join_some] at h
    simp [put, hlt, h]
  · simp [put, List.getElem?_set_ne (Ne.symm hj)]

/-- Writes to different slots do not interfere. -/
theorem put_comm (t : Slots α) {i j : Nat} (h : i ≠ j) (a b : α) :
    put (put t i a) j b = put (put t j b) i a :=
  List.set_comm _ _ h

/-- Tables of one length with the same occupants are equal. -/
theorem ext_peek {t t' : Slots α} (hlen : t.length = t'.length)
    (h : ∀ i, peek t i = peek t' i) : t = t' := by
  apply List.ext_getElem hlen
  intro i hi hi'
  simpa [peek, List.getElem?_eq_getElem hi, List.getElem?_eq_getElem hi'] using h i

/-! ## Allocation -/

/-- What allocation does: the index it returns was empty, now holds the new
occupant, and no other slot has changed. -/
theorem alloc_spec {max : Nat} {t t' : Slots α} {a : α} {i : Nat}
    (h : alloc max t a = some (i, t')) :
    peek t i = none ∧ ∀ j, peek t' j = if j = i then some a else peek t j := by
  unfold alloc at h
  split at h
  · next k hk =>
    obtain ⟨rfl, rfl⟩ : k = i ∧ put t k a = t' := by simpa using h
    obtain ⟨hlt, hnone, -⟩ := List.findIdx?_eq_some_iff_getElem.mp hk
    refine ⟨?_, fun j ↦ ?_⟩
    · rw [peek, List.getElem?_eq_getElem hlt, Option.isNone_iff_eq_none.mp hnone]
      rfl
    · split
      · next hj => rw [hj, peek_put_self hlt]
      · next hj => exact peek_put_ne t hj a
  · split at h
    · exact absurd h (by simp)
    · obtain ⟨rfl, rfl⟩ : t.length = i ∧ t ++ [some a] = t' := by simpa using h
      refine ⟨by simp [peek], fun j ↦ ?_⟩
      rcases Nat.lt_trichotomy j t.length with hj | hj | hj
      · rw [if_neg (by omega), peek, peek, List.getElem?_append_left hj]
      · subst hj
        simp [peek]
      · rw [if_neg (by omega), peek, peek, List.getElem?_eq_none (by simp; omega),
          List.getElem?_eq_none (by omega)]

/-- A table that is within its bound stays there. -/
theorem length_le_of_alloc {max : Nat} {t t' : Slots α} {a : α} {i : Nat} (hlen : t.length ≤ max)
    (h : alloc max t a = some (i, t')) : t'.length ≤ max := by
  unfold alloc at h
  split at h
  · next k hk =>
    obtain ⟨rfl, rfl⟩ : k = i ∧ put t k a = t' := by simpa using h
    exact (length_put t k a).trans_le hlen
  · split at h
    · exact absurd h (by simp)
    · next hroom =>
      obtain ⟨rfl, rfl⟩ : t.length = i ∧ t ++ [some a] = t' := by simpa using h
      rw [List.length_append, List.length_singleton]
      omega

/-- What an insertion does, at every index. -/
theorem insert_spec (t : Slots α) (a : α) : peek t (insert t a).1 = none ∧
    ∀ j, peek (insert t a).2 j = if j = (insert t a).1 then some a else peek t j := by
  have h : alloc (t.length + 1) t a = some (insert t a) := by
    unfold alloc insert
    split
    · rfl
    · rw [if_neg (by omega)]
  exact alloc_spec h

end Slots
