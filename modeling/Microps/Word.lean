import Mathlib.Algebra.GroupWithZero.Nat
import Mathlib.Tactic.Common

/-!
# Machine words, slices and panics

The stack is compiled with overflow checks, so plain `+`, `-` and `[..]` on
machine integers and slices may panic while the `wrapping_` operations may not.
A model that has to tell the two apart runs in `Checked`; a word operation that
cannot panic is the `BitVec` one.
-/

namespace Microps

/-- An octet. -/
abbrev U8 := BitVec 8
/-- A 16-bit word. -/
abbrev U16 := BitVec 16
/-- A 32-bit word. -/
abbrev U32 := BitVec 32
/-- A 64-bit word. -/
abbrev U64 := BitVec 64

/-- The ways in which the code can panic. -/
inductive Panic where
  /-- An index outside its slice. -/
  | index
  /-- A range outside its slice, or one that ends before it starts. -/
  | slice
  /-- Arithmetic that leaves the range of its type. -/
  | overflow
  /-- `unwrap` on `None`. -/
  | unwrap
deriving DecidableEq, Repr

/-- A computation that either returns or panics. -/
abbrev Checked := Except Panic

/-- `opt.unwrap()`. -/
def unwrap {α : Type} : Option α → Checked α
  | some a => .ok a
  | none => .error .unwrap

/-- `data[i]`. -/
def index (data : List U8) (i : Nat) : Checked U8 :=
  match data[i]? with
  | some b => .ok b
  | none => .error .index

/-- `&data[lo..hi]`. -/
def slice (data : List U8) (lo hi : Nat) : Checked (List U8) :=
  if lo ≤ hi ∧ hi ≤ data.length then .ok ((data.take hi).drop lo) else .error .slice

/-- `a - b` on `usize`. -/
def usub (a b : Nat) : Checked Nat :=
  if b ≤ a then .ok (a - b) else .error .overflow

/-- `a - b` on a `w`-bit word. -/
def wsub {w : Nat} (a b : BitVec w) : Checked (BitVec w) :=
  if b ≤ a then .ok (a - b) else .error .overflow

/-- `a + b` on a `w`-bit word. -/
def wadd {w : Nat} (a b : BitVec w) : Checked (BitVec w) :=
  if a.toNat + b.toNat < 2 ^ w then .ok (a + b) else .error .overflow

theorem slice_ok {data : List U8} {lo hi : Nat} (h₁ : lo ≤ hi) (h₂ : hi ≤ data.length) :
    slice data lo hi = .ok ((data.take hi).drop lo) :=
  if_pos ⟨h₁, h₂⟩

theorem slice_error {data : List U8} {lo hi : Nat} (h : hi < lo ∨ data.length < hi) :
    slice data lo hi = .error .slice :=
  if_neg (by omega)

theorem length_le_of_slice {data r : List U8} {lo hi : Nat} (h : slice data lo hi = .ok r) :
    r.length ≤ hi := by
  unfold slice at h
  split at h
  · cases h
    simp only [List.length_drop, List.length_take]
    omega
  · exact absurd h (by simp)

theorem usub_ok {a b : Nat} (h : b ≤ a) : usub a b = .ok (a - b) := if_pos h

theorem usub_error {a b : Nat} (h : a < b) : usub a b = .error .overflow := if_neg (by omega)

theorem index_ok {data : List U8} {i : Nat} (h : i < data.length) :
    index data i = .ok (data.get ⟨i, h⟩) := by
  simp [index, h]

/-! ## Byte order -/

/-- The byte order of the host, which `to_ne_bytes` and `from_ne_bytes` follow. -/
inductive Endian where
  | little
  | big
deriving DecidableEq, Repr

/-- The offsets in a header of eight octets are numerals. -/
instance instNeZeroEight : NeZero 8 := ⟨by decide⟩

/-- The offsets in a header of twenty octets are numerals. -/
instance instNeZeroTwenty : NeZero 20 := ⟨by decide⟩

/-- `u16::from_be_bytes([a, b])`. -/
def beU16 (a b : U8) : U16 := a ++ b

/-- `u32::from_be_bytes([a, b, c, d])`. -/
def beU32 (a b c d : U8) : U32 := a ++ b ++ c ++ d

/-- `u16::from_ne_bytes([a, b])`. -/
def neU16 : Endian → U8 → U8 → U16
  | .little, a, b => b ++ a
  | .big, a, b => a ++ b

/-- `v.to_be_bytes()` for a `u16`. -/
def beBytes16 (v : U16) : List U8 := [v.extractLsb' 8 8, v.extractLsb' 0 8]

/-- `v.to_be_bytes()` for a `u32`. -/
def beBytes32 (v : U32) : List U8 :=
  [v.extractLsb' 24 8, v.extractLsb' 16 8, v.extractLsb' 8 8, v.extractLsb' 0 8]

/-- `v.to_ne_bytes()` for a `u16`. -/
def neBytes16 : Endian → U16 → List U8
  | .little, v => [v.extractLsb' 0 8, v.extractLsb' 8 8]
  | .big, v => [v.extractLsb' 8 8, v.extractLsb' 0 8]

/-- A word is read back from its octets. -/
@[simp] theorem beU16_extract (v : U16) : beU16 (v.extractLsb' 8 8) (v.extractLsb' 0 8) = v := by
  have h : (8 : Nat) = 0 + 8 := rfl
  exact (BitVec.extractLsb'_append_extractLsb'_eq_extractLsb' h).trans BitVec.extractLsb'_eq_self

@[simp] theorem beU32_extract (v : U32) :
    beU32 (v.extractLsb' 24 8) (v.extractLsb' 16 8) (v.extractLsb' 8 8) (v.extractLsb' 0 8) =
      v := by
  have h₁ : (24 : Nat) = 16 + 8 := rfl
  have h₂ : (16 : Nat) = 8 + 8 := rfl
  have h₃ : (8 : Nat) = 0 + 8 := rfl
  rw [beU32, BitVec.extractLsb'_append_extractLsb'_eq_extractLsb' h₁,
    BitVec.extractLsb'_append_extractLsb'_eq_extractLsb' h₂,
    BitVec.extractLsb'_append_extractLsb'_eq_extractLsb' h₃]
  exact BitVec.extractLsb'_eq_self

@[simp] theorem length_neBytes16 (e : Endian) (v : U16) : (neBytes16 e v).length = 2 := by
  cases e <;> rfl

theorem exists_neBytes16 (e : Endian) (v : U16) : ∃ a b, neBytes16 e v = [a, b] := by
  cases e <;> exact ⟨_, _, rfl⟩

end Microps
