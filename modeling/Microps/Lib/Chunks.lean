import Mathlib.Data.List.Basic
import Mathlib.Algebra.Order.Group.Nat

/-!
# Streams in chunks

A stream that is sent in pieces, none of them empty.  `offset` is where a piece begins, and since
none is empty the place in the stream determines the piece.
-/

universe u

namespace Chunks

variable {α : Type u}

/-- Where the `n`th chunk begins. -/
def offset (chunks : List (List α)) (n : Nat) : Nat := (chunks.take n).flatten.length

variable {chunks : List (List α)} {n m : Nat} {c : List α}

@[simp] theorem offset_zero (chunks : List (List α)) : offset chunks 0 = 0 := rfl

theorem flatten_take_succ (h : chunks[n]? = some c) :
    (chunks.take (n + 1)).flatten = (chunks.take n).flatten ++ c := by
  rw [List.take_add_one, h, List.flatten_append]
  simp

theorem offset_succ (h : chunks[n]? = some c) :
    offset chunks (n + 1) = offset chunks n + c.length := by
  rw [offset, flatten_take_succ h, List.length_append, offset]

theorem offset_mono (chunks : List (List α)) (h : n ≤ m) : offset chunks n ≤ offset chunks m := by
  refine (List.IsPrefix.sublist ?_).length_le
  obtain ⟨rest, hrest⟩ := List.take_prefix_take_left h (l := chunks)
  exact ⟨rest.flatten, by rw [← List.flatten_append, hrest]⟩

/-- More chunks do not move those that are there. -/
theorem offset_append (more : List (List α)) (h : n ≤ chunks.length) :
    offset (chunks ++ more) n = offset chunks n := by
  rw [offset, List.take_append_of_le_length h, offset]

theorem offset_lt (hne : [] ∉ chunks) (h : chunks[m]? = some c) (hlt : m < n) :
    offset chunks m < offset chunks n := by
  have hpos : c ≠ [] := fun hc ↦ hne (hc ▸ List.mem_of_getElem? h)
  calc offset chunks m < offset chunks (m + 1) := by
        rw [offset_succ h]
        exact Nat.lt_add_of_pos_right (List.length_pos_iff.mpr hpos)
    _ ≤ offset chunks n := offset_mono chunks hlt

/-- **The place determines the chunk.** -/
theorem eq_of_offset_eq (hne : [] ∉ chunks) (h : chunks[m]? = some c)
    (heq : offset chunks n = offset chunks m) : n = m := by
  rcases Nat.lt_trichotomy n m with hlt | rfl | hlt
  · have hn : n < chunks.length := Nat.lt_trans hlt (List.getElem?_eq_some_iff.mp h).1
    exact absurd heq (Nat.ne_of_lt (offset_lt hne (List.getElem?_eq_getElem hn) hlt))
  · rfl
  · exact absurd heq.symm (Nat.ne_of_lt (offset_lt hne h hlt))

/-- Where something is missing, there is a next chunk. -/
theorem exists_next (h : (chunks.take n).flatten ≠ chunks.flatten) :
    ∃ c, chunks[n]? = some c := by
  have hlt : n < chunks.length := by
    by_contra hle
    exact h (by rw [List.take_of_length_le (Nat.le_of_not_lt hle)])
  exact ⟨_, List.getElem?_eq_getElem hlt⟩

/-- What is there of some chunks is there of more of them. -/
theorem exists_take_append (chunks more : List (List α)) (n : Nat) :
    ∃ m, (chunks.take n).flatten = ((chunks ++ more).take m).flatten := by
  refine ⟨min n chunks.length, ?_⟩
  rw [List.take_append_of_le_length (Nat.min_le_right _ _), ← List.take_eq_take_min]

end Chunks
