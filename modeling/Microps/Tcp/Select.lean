import Microps.Tcp.Table

/-!
# Selection

What `pcb_select` returns: a block that is not listening and passes the address tests
wins over the listeners, and of these the last one is taken.
-/

namespace Microps.Tcp

/-- The block in slot `d` passes the address tests, and it is a listener only where no
other kind of block does. -/
def Selected (l r : IpEndp) (t : Slots TcpPcb) (d : TcpDesc) : Prop :=
  ∃ p, t.peek d = some p ∧ selects p l r = true ∧
    (p.state = .listen → ∀ j q, t.peek j = some q → selects q l r = true → q.state = .listen)

/-- The block in slot `d` is the first one that passes the address tests and is not listening;
where all that pass them are listening, it is the last of these. -/
def Chosen (l r : IpEndp) (t : Slots TcpPcb) (d : TcpDesc) : Prop :=
  ∃ p, t.peek d = some p ∧ selects p l r = true ∧
    if p.state = .listen then
      ∀ j q, t.peek j = some q → selects q l r = true → q.state = .listen ∧ j ≤ d
    else ∀ j q, j < d → t.peek j = some q → selects q l r = true → q.state = .listen

section

variable {l r : IpEndp} {t : Slots TcpPcb} {d : TcpDesc}

theorem Chosen.selected (h : Chosen l r t d) : Selected l r t d := by
  obtain ⟨p, hp, hsel, hrank⟩ := h
  refine ⟨p, hp, hsel, fun hs j q hq hselq ↦ ?_⟩
  rw [if_pos hs] at hrank
  exact (hrank j q hq hselq).1

/-- A slot is put in front that has no claim of its own. -/
theorem Chosen.cons (h : Chosen l r t d) {slot : Option TcpPcb}
    (hslot : ∀ q, slot = some q → selects q l r = true → q.state = .listen) :
    Chosen l r (slot :: t) (d + 1) := by
  obtain ⟨p, hp, hsel, hrank⟩ := h
  refine ⟨p, hp, hsel, ?_⟩
  split
  · next hs =>
    rw [if_pos hs] at hrank
    intro j q hq hselq
    cases j with
    | zero => exact ⟨hslot q hq hselq, Nat.zero_le _⟩
    | succ j =>
        obtain ⟨hlisten, hle⟩ := hrank j q hq hselq
        exact ⟨hlisten, Nat.succ_le_succ hle⟩
  · next hs =>
    rw [if_neg hs] at hrank
    intro j q hj hq hselq
    cases j with
    | zero => exact hslot q hq hselq
    | succ j => exact hrank j q (Nat.lt_of_succ_lt_succ hj) hq hselq

/-- The loop of `pcb_select`, from index `i` on. -/
theorem selectLoop_spec (l r : IpEndp) (t : Slots TcpPcb) (i : Nat) (candidate : Option TcpDesc) :
    (∃ k, Chosen l r t k ∧ selectLoop l r t i candidate = some (i + k)) ∨
      selectLoop l r t i candidate = candidate ∧
        ∀ j q, t.peek j = some q → selects q l r = false := by
  induction t generalizing i candidate with
  | nil => exact .inr ⟨rfl, by simp⟩
  | cons slot t ih =>
      have hnext : ∀ k, some (i + 1 + k) = some (i + (k + 1)) := fun k ↦ by rw [Nat.add_right_comm]; rfl
      cases slot with
      | none =>
          rcases ih (i + 1) candidate with ⟨k, hk, heq⟩ | ⟨heq, hno⟩
          · exact .inl ⟨k + 1, hk.cons (by simp), heq.trans (hnext k)⟩
          · refine .inr ⟨heq, fun j q hq ↦ ?_⟩
            cases j with
            | zero => exact absurd hq (by simp [Slots.peek])
            | succ j => exact hno j q hq
      | some p =>
          rw [selectLoop]
          by_cases hsel : selects p l r = true
          · rw [if_pos hsel]
            by_cases hs : p.state = .listen
            · have hfirst : ∀ q, some p = some q → selects q l r = true → q.state = .listen := by
                rintro q ⟨⟩ -
                exact hs
              rw [if_neg (by simpa using hs)]
              rcases ih (i + 1) (some i) with ⟨k, hk, heq⟩ | ⟨heq, hno⟩
              · exact .inl ⟨k + 1, hk.cons hfirst, heq.trans (hnext k)⟩
              · refine .inl ⟨0, ⟨p, rfl, hsel, ?_⟩, heq⟩
                rw [if_pos hs]
                intro j q hq hselq
                cases j with
                | zero => exact ⟨hfirst q hq hselq, Nat.le_refl _⟩
                | succ j => exact absurd hselq (by simp [hno j q hq])
            · rw [if_pos hs]
              refine .inl ⟨0, ⟨p, rfl, hsel, ?_⟩, rfl⟩
              rw [if_neg hs]
              exact fun j q hj ↦ absurd hj (Nat.not_lt_zero j)
          · rw [if_neg hsel]
            rcases ih (i + 1) candidate with ⟨k, hk, heq⟩ | ⟨heq, hno⟩
            · refine .inl ⟨k + 1, hk.cons ?_, heq.trans (hnext k)⟩
              rintro q ⟨⟩ hselq
              exact absurd hselq hsel
            · refine .inr ⟨heq, fun j q hq ↦ ?_⟩
              cases j with
              | zero =>
                  obtain rfl : p = q := Option.some.inj hq
                  simpa using hsel
              | succ j => exact hno j q hq

theorem pcbSelect_chosen (h : pcbSelect t l r = some d) : Chosen l r t d := by
  rcases selectLoop_spec l r t 0 none with ⟨k, hk, heq⟩ | ⟨heq, -⟩
  · obtain rfl : k = d := by simpa using heq.symm.trans h
    exact hk
  · exact absurd (heq.symm.trans h) (by simp)

theorem pcbSelect_some (h : pcbSelect t l r = some d) : Selected l r t d :=
  (pcbSelect_chosen h).selected

/-- Nothing is selected where no block passes the tests. -/
theorem pcbSelect_none (h : pcbSelect t l r = none) {j : TcpDesc} {q : TcpPcb}
    (hq : t.peek j = some q) : selects q l r = false := by
  rcases selectLoop_spec l r t 0 none with ⟨k, -, heq⟩ | ⟨-, hno⟩
  · exact absurd (heq.symm.trans h) (by simp)
  · exact hno j q hq

end

end Microps.Tcp
