import Mathlib.Data.List.Basic
import Mathlib.Data.List.Forall2
import Mathlib.Data.Nat.Digits.Defs
import Mathlib.Tactic.Ring

/-!
# Numbers and fields in a text

A text is a list of characters.  `parseUint` reads an unsigned number below a bound: it takes a
leading plus sign and as many digits as there are.  `IsNumeral` says without it which texts
these are, and `parseUint_eq_some_iff` that it reads no others.  Fields are joined by a separator
and split at it again, or at its last occurrence.
-/

namespace Numeral

/-! ## Digits -/

/-- The value of an ASCII letter or digit. -/
def charValue (c : Char) : Option Nat :=
  if c.isDigit then some (c.toNat - '0'.toNat)
  else if c.isLower then some (c.toNat - 'a'.toNat + 10)
  else if c.isUpper then some (c.toNat - 'A'.toNat + 10)
  else none

/-- The value of a digit of the radix. -/
def toDigit (radix : Nat) (c : Char) : Option Nat := (charValue c).filter (· < radix)

/-- One more digit after the value `acc`, which must stay below `bound`. -/
def addDigit (radix bound acc : Nat) (c : Char) : Option Nat := do
  let d ← toDigit radix c
  if acc * radix + d < bound then some (acc * radix + d) else none

/-- The loop over the digits. -/
def parseDigits (radix bound : Nat) : List Char → Nat → Option Nat
  | [], acc => some acc
  | c :: rest, acc => do
      let acc ← addDigit radix bound acc c
      parseDigits radix bound rest acc

/-- Read an unsigned number below `bound`. -/
def parseUint (radix bound : Nat) : List Char → Option Nat
  | [] => none
  | ['+'] => none
  | ['-'] => none
  | '+' :: digits => parseDigits radix bound digits 0
  | digits => parseDigits radix bound digits 0

/-! ## What is read as a number -/

/-- A list has a partner exactly if each of its members has one. -/
theorem exists_forall₂_iff {α β : Type} {R : α → β → Prop} {l : List α} :
    (∃ m, List.Forall₂ R l m) ↔ ∀ a ∈ l, ∃ b, R a b := by
  induction l with
  | nil => simp
  | cons a l ih =>
      rw [List.forall_mem_cons, ← ih]
      constructor
      · rintro ⟨_, hm⟩
        obtain ⟨b, m, hb, hrest, rfl⟩ := List.forall₂_cons_left_iff.mp hm
        exact ⟨⟨b, hb⟩, m, hrest⟩
      · rintro ⟨⟨b, hb⟩, m, hm⟩
        exact ⟨b :: m, .cons hb hm⟩

/-- The character is a digit of the radix with the value `d`, in upper or lower case. -/
def IsDigit (radix : Nat) (c : Char) (d : Nat) : Prop :=
  d < radix ∧ (c = d.digitChar ∨ c = d.digitChar.toUpper)

/-- The text is a run of digits of the radix, at least one, with the value `n`. -/
def IsRun (radix : Nat) (s : List Char) (n : Nat) : Prop :=
  s ≠ [] ∧ ∃ digits, List.Forall₂ (IsDigit radix) s digits ∧
    Nat.ofDigits radix digits.reverse = n

/-- The text is such a run, perhaps after a plus sign. -/
def IsNumeral (radix : Nat) (s : List Char) (n : Nat) : Prop :=
  IsRun radix s n ∨ ∃ run, s = '+' :: run ∧ IsRun radix run n

/-- Only ASCII characters have a value. -/
theorem toNat_lt_of_charValue {c : Char} {d : Nat} (h : charValue c = some d) : c.toNat < 123 := by
  have hlt {k : UInt32} (hle : c.val ≤ k) (hk : k.toNat < 123) : c.toNat < 123 :=
    Nat.lt_of_le_of_lt (UInt32.le_iff_toNat_le.mp hle) hk
  unfold charValue at h
  split at h
  · next hdigit => exact hlt (of_decide_eq_true (Bool.and_eq_true_iff.mp hdigit).2) (by decide)
  split at h
  · next hlower => exact hlt (of_decide_eq_true (Bool.and_eq_true_iff.mp hlower).2) (by decide)
  split at h
  · next hupper => exact hlt (of_decide_eq_true hupper).2 (by decide)
  · exact absurd h (by simp)

/-- The digits are the characters that have a value below the radix. -/
theorem toDigit_eq_some_iff {radix d : Nat} (hradix : radix ≤ 16) {c : Char} :
    toDigit radix c = some d ↔ IsDigit radix c d := by
  have hchars : ∀ n < 123, ∀ d ∈ charValue (Char.ofNat n), d < 16 →
      Char.ofNat n = d.digitChar ∨ Char.ofNat n = d.digitChar.toUpper := by
    decide +kernel
  have hvalues : ∀ d < 16, charValue d.digitChar = some d ∧
      charValue d.digitChar.toUpper = some d := by
    decide +kernel
  rw [toDigit, Option.filter_eq_some_iff, decide_eq_true_eq, IsDigit, and_comm]
  refine and_congr_right fun hd ↦ ⟨fun hvalue ↦ ?_, ?_⟩
  · have hchar := hchars c.toNat (toNat_lt_of_charValue hvalue)
    rw [Char.ofNat_toNat] at hchar
    exact hchar d hvalue (by omega)
  · rintro (rfl | rfl)
    · exact (hvalues d (by omega)).1
    · exact (hvalues d (by omega)).2

section

variable {radix bound n acc : Nat} {s : List Char} {c : Char}

theorem addDigit_eq_some_iff (hradix : radix ≤ 16) :
    addDigit radix bound acc c = some n ↔
      ∃ d, IsDigit radix c d ∧ acc * radix + d < bound ∧ acc * radix + d = n := by
  simp only [addDigit, Option.bind_eq_bind, Option.bind_eq_some_iff, toDigit_eq_some_iff hradix,
    Option.ite_none_right_eq_some, Option.some.injEq]

/-- **The loop over the digits** reads a text of digits whose value stays below the bound. -/
theorem parseDigits_eq_some_iff (hpos : 0 < radix) (hradix : radix ≤ 16) :
    parseDigits radix bound s acc = some n ↔
      ∃ digits, List.Forall₂ (IsDigit radix) s digits ∧
        acc * radix ^ digits.length + Nat.ofDigits radix digits.reverse = n ∧
        (s = [] ∨ n < bound) := by
  induction s generalizing acc with
  | nil => simp [parseDigits]
  | cons c s ih =>
      -- The value of the digits behind the first one, which stands for `d`.
      have hvalue (d : Nat) (digits : List Nat) :
          acc * radix ^ (d :: digits).length + Nat.ofDigits radix (d :: digits).reverse =
            (acc * radix + d) * radix ^ digits.length + Nat.ofDigits radix digits.reverse := by
        rw [Nat.ofDigits_reverse_cons, List.length_cons]
        ring
      simp only [parseDigits, Option.bind_eq_bind, Option.bind_eq_some_iff,
        addDigit_eq_some_iff hradix, ih]
      constructor
      · rintro ⟨_, ⟨d, hd, hbound, rfl⟩, digits, hdigits, hn, hlast⟩
        refine ⟨d :: digits, .cons hd hdigits, (hvalue d digits).trans hn, .inr ?_⟩
        rcases hlast with rfl | hlast
        · obtain rfl := List.forall₂_nil_left_iff.mp hdigits
          simpa [← hn] using hbound
        · exact hlast
      · rintro ⟨_, hdigits, hn, hlast⟩
        obtain ⟨d, digits, hd, hrest, rfl⟩ := List.forall₂_cons_left_iff.mp hdigits
        have hbound := hlast.resolve_left (by simp)
        rw [hvalue] at hn
        refine ⟨_, ⟨d, hd, ?_, rfl⟩, digits, hrest, hn, .inr hbound⟩
        have hle := Nat.le_mul_of_pos_right (acc * radix + d) (Nat.pow_pos hpos (n := digits.length))
        omega

theorem parseDigits_zero_iff (hpos : 0 < radix) (hradix : radix ≤ 16) (hne : s ≠ []) :
    parseDigits radix bound s 0 = some n ↔ IsRun radix s n ∧ n < bound := by
  rw [parseDigits_eq_some_iff hpos hradix, IsRun]
  constructor
  · rintro ⟨digits, hdigits, hn, hlast⟩
    exact ⟨⟨hne, digits, hdigits, by simpa using hn⟩, hlast.resolve_left hne⟩
  · rintro ⟨⟨-, digits, hdigits, hn⟩, hbound⟩
    exact ⟨digits, hdigits, by simpa using hn, .inr hbound⟩

/-- A digit is a letter or a decimal digit. -/
theorem IsDigit.isAlphanum {d : Nat} (h : IsDigit radix c d) (hradix : radix ≤ 16) :
    c.isAlphanum = true := by
  have hchars : ∀ d < 16, d.digitChar.isAlphanum = true ∧
      d.digitChar.toUpper.isAlphanum = true := by
    decide +kernel
  obtain ⟨hd, rfl | rfl⟩ := h
  · exact (hchars d (by omega)).1
  · exact (hchars d (by omega)).2

theorem IsRun.isAlphanum (h : IsRun radix s n) (hradix : radix ≤ 16) (hc : c ∈ s) :
    c.isAlphanum = true := by
  obtain ⟨-, digits, hdigits, -⟩ := h
  obtain ⟨d, hd⟩ := exists_forall₂_iff.mp ⟨digits, hdigits⟩ c hc
  exact hd.isAlphanum hradix

/-- A run of digits does not begin with a sign. -/
theorem not_isRun_cons (hradix : radix ≤ 16) (hc : c.isAlphanum = false) :
    ¬ IsRun radix (c :: s) n := by
  intro h
  exact absurd (h.isAlphanum hradix List.mem_cons_self) (by simp [hc])

theorem isNumeral_plus_iff (hradix : radix ≤ 16) :
    IsNumeral radix ('+' :: s) n ↔ IsRun radix s n := by
  constructor
  · rintro (hrun | ⟨run, heq, hrun⟩)
    · exact absurd hrun (not_isRun_cons hradix (by decide))
    · rw [(List.cons.inj heq).2]
      exact hrun
  · exact fun hrun ↦ .inr ⟨s, rfl, hrun⟩

/-- Without a plus sign, only a run of digits is left. -/
theorem isNumeral_iff_isRun (hplus : ∀ run, s ≠ '+' :: run) :
    IsNumeral radix s n ↔ IsRun radix s n := by
  constructor
  · rintro (hrun | ⟨run, heq, -⟩)
    · exact hrun
    · exact absurd heq (hplus run)
  · exact .inl

/-- **What is read as a number**: a run of digits, perhaps after a plus sign, whose value is
below the bound. -/
theorem parseUint_eq_some_iff (hpos : 0 < radix) (hradix : radix ≤ 16) :
    parseUint radix bound s = some n ↔ IsNumeral radix s n ∧ n < bound := by
  unfold parseUint
  split
  · rw [isNumeral_iff_isRun (by simp)]
    exact iff_of_false (by simp) fun h ↦ h.1.1 rfl
  · rw [isNumeral_plus_iff hradix]
    exact iff_of_false (by simp) fun h ↦ h.1.1 rfl
  · rw [isNumeral_iff_isRun (by simp)]
    exact iff_of_false (by simp) fun h ↦ not_isRun_cons hradix (by decide) h.1
  · next digits hne =>
    rw [isNumeral_plus_iff hradix]
    exact parseDigits_zero_iff hpos hradix hne
  · next hne _ _ hplus =>
    rw [isNumeral_iff_isRun hplus]
    exact parseDigits_zero_iff hpos hradix hne

end

/-! ## What is written as a number -/

section

variable {radix n : Nat} {s : List Char}

/-- One more digit at the end. -/
theorem IsRun.concat (h : IsRun radix s n) {d : Nat} (hd : d < radix) :
    IsRun radix (s ++ [d.digitChar]) (n * radix + d) := by
  obtain ⟨-, digits, hdigits, rfl⟩ := h
  refine ⟨by simp, digits ++ [d], List.rel_append hdigits (.cons ⟨hd, .inl rfl⟩ .nil), ?_⟩
  rw [List.reverse_append, List.reverse_singleton, List.singleton_append, Nat.ofDigits_cons]
  ring

theorem isRun_singleton {d : Nat} (hd : d < radix) : IsRun radix [d.digitChar] d :=
  ⟨by simp, [d], .cons ⟨hd, .inl rfl⟩ .nil, by simp⟩

/-- **A number is written** with its digits. -/
theorem isRun_toDigits (hone : 1 < radix) (n : Nat) : IsRun radix (Nat.toDigits radix n) n := by
  induction n using Nat.strongRecOn with
  | ind n ih =>
  rcases Nat.lt_or_ge n radix with hlt | hge
  · rw [Nat.toDigits_of_lt_base hlt]
    exact isRun_singleton hlt
  · have hrun := (ih (n / radix) (Nat.div_lt_self (by omega) hone)).concat
      (Nat.mod_lt n (by omega : 0 < radix))
    rw [Nat.div_add_mod'] at hrun
    rw [Nat.toDigits_of_base_le hone hge]
    exact hrun

/-- Zeros in front do not count. -/
theorem IsRun.zeros (h : IsRun radix s n) (hpos : 0 < radix) (k : Nat) :
    IsRun radix (List.replicate k '0' ++ s) n := by
  induction k with
  | zero => exact h
  | succ k ih =>
      obtain ⟨-, digits, hdigits, hn⟩ := ih
      refine ⟨by simp [List.replicate_succ], 0 :: digits, ?_, ?_⟩
      · exact .cons ⟨hpos, .inl rfl⟩ hdigits
      · rw [Nat.ofDigits_reverse_zero_cons]
        exact hn

/-- A numeral has no separator in it. -/
theorem IsNumeral.not_mem (h : IsNumeral radix s n) (hradix : radix ≤ 16) {c : Char}
    (hc : c.isAlphanum = false) (hplus : c ≠ '+') : c ∉ s := by
  have hrun {run : List Char} (h : IsRun radix run n) : c ∉ run := by
    intro hmem
    exact absurd (h.isAlphanum hradix hmem) (by simp [hc])
  rcases h with h | ⟨run, rfl, h⟩
  · exact hrun h
  · rw [List.mem_cons, not_or]
    exact ⟨hplus, hrun h⟩

end

/-! ## Fields -/

/-- A member of joined fields is the separator or stands in a field. -/
theorem exists_of_mem_intercalate {α : Type} {sep c : α} {fields : List (List α)}
    (h : c ∈ [sep].intercalate fields) : c = sep ∨ ∃ field ∈ fields, c ∈ field := by
  induction fields with
  | nil => exact absurd h (by simp)
  | cons field fields ih =>
      cases fields with
      | nil => exact .inr ⟨field, by simp, by simpa using h⟩
      | cons next fields =>
          rw [List.intercalate_cons_cons, List.mem_append, List.mem_append,
            List.mem_singleton] at h
          rcases h with (hc | hc) | hc
          · exact .inr ⟨field, by simp, hc⟩
          · exact .inl hc
          · rcases ih hc with hsep | ⟨field', hmem, hc⟩
            · exact .inl hsep
            · exact .inr ⟨field', List.mem_cons_of_mem _ hmem, hc⟩

variable {α : Type} [DecidableEq α]

/-- Split at the last occurrence of the separator. -/
def rsplitOnce (sep : α) : List α → Option (List α × List α)
  | [] => none
  | x :: rest => match rsplitOnce sep rest with
    | some (before, after) => some (x :: before, after)
    | none => if x = sep then some ([], rest) else none

theorem rsplitOnce_eq_none_iff {sep : α} {s : List α} : rsplitOnce sep s = none ↔ sep ∉ s := by
  induction s with
  | nil => simp [rsplitOnce]
  | cons x rest ih =>
      rw [rsplitOnce, List.mem_cons, not_or, ← ih, eq_comm (a := sep)]
      split
      · next hrest => simp [hrest]
      · next hrest => simp [hrest]

/-- What stands behind the last separator. -/
theorem rsplitOnce_append {sep : α} (s : List α) {t : List α} (h : sep ∉ t) :
    rsplitOnce sep (s ++ sep :: t) = some (s, t) := by
  induction s with
  | nil =>
      rw [List.nil_append, rsplitOnce, rsplitOnce_eq_none_iff.mpr h]
      exact if_pos rfl
  | cons x rest ih => rw [List.cons_append, rsplitOnce, ih]

/-- **Splitting at the last separator.** -/
theorem rsplitOnce_eq_some_iff {sep : α} {s before after : List α} :
    rsplitOnce sep s = some (before, after) ↔ s = before ++ sep :: after ∧ sep ∉ after := by
  refine ⟨fun h ↦ ?_, fun ⟨hs, hafter⟩ ↦ hs ▸ rsplitOnce_append before hafter⟩
  induction s generalizing before with
  | nil => exact absurd h (by simp [rsplitOnce])
  | cons x rest ih =>
      rw [rsplitOnce] at h
      split at h
      · next before' after' hrest =>
        obtain ⟨rfl, rfl⟩ : x :: before' = before ∧ after' = after := by simpa using h
        obtain ⟨rfl, hafter⟩ := ih hrest
        exact ⟨rfl, hafter⟩
      · next hrest =>
        split at h
        · next hx =>
          obtain ⟨rfl, rfl⟩ : [] = before ∧ rest = after := by simpa using h
          exact ⟨by rw [hx, List.nil_append], rsplitOnce_eq_none_iff.mp hrest⟩
        · exact absurd h (by simp)

/-- **Splitting at every separator**: the fields are those that are joined again, and none of
them has a separator in it. -/
theorem splitOn_eq_iff {sep : α} {s : List α} {fields : List (List α)} (hne : fields ≠ [])
    (hfields : ∀ field ∈ fields, sep ∉ field) :
    s.splitOn sep = fields ↔ s = [sep].intercalate fields := by
  constructor
  · rintro rfl
    exact (List.intercalate_splitOn sep).symm
  · rintro rfl
    exact List.splitOn_intercalate sep hfields hne

end Numeral
