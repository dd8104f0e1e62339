import Mathlib.Logic.Basic

/-!
# Labelled machines and their invariants

A machine is a set of initial states and a labelled step relation.  `Reach` is
the set of states its runs visit, and `Reach.invariant` is the one induction
every safety theorem goes through; `Reach.simulated` relates the states of two
machines.  `Leads` says that one state may lead to another.  Machines that are
given as a fallible function on states are run on a list of labels by `exec`.  `record` is a history
variable that such a machine may carry along.
-/

universe u v w

namespace Machine

variable {σ : Type u} {ε : Type v}

/-- The states visited by the runs of a machine. -/
inductive Reach (Init : σ → Prop) (Step : σ → ε → σ → Prop) : σ → Prop
  /-- A run may stop where it starts. -/
  | start {s : σ} : Init s → Reach Init Step s
  /-- A run may be extended by one step. -/
  | next {s : σ} {e : ε} {s' : σ} : Reach Init Step s → Step s e s' → Reach Init Step s'

variable {Init : σ → Prop} {Step : σ → ε → σ → Prop}

/-- What holds initially and is kept by every step holds in every state
reached. -/
theorem Reach.invariant (Inv : σ → Prop) (hinit : ∀ s, Init s → Inv s)
    (hstep : ∀ s e s', Inv s → Step s e s' → Inv s') {s : σ} (h : Reach Init Step s) :
    Inv s := by
  induction h with
  | start hs => exact hinit _ hs
  | next _ hs ih => exact hstep _ _ _ ih hs

/-- A machine with fewer steps reaches fewer states. -/
theorem Reach.mono {Step' : σ → ε → σ → Prop} (hsub : ∀ s e s', Step s e s' → Step' s e s')
    {s : σ} (h : Reach Init Step s) : Reach Init Step' s := by
  induction h with
  | start hs => exact .start hs
  | next _ hs ih => exact .next ih (hsub _ _ _ hs)

/-- A machine is simulated by another one, which may stay where it is, if every step can be
followed: each state that is reached is related to one that the other machine reaches. -/
theorem Reach.simulated {σ' : Type*} {ε' : Type*} {Init' : σ' → Prop}
    {Step' : σ' → ε' → σ' → Prop} (R : σ → σ' → Prop)
    (hinit : ∀ s, Init s → ∃ t, Init' t ∧ R s t)
    (hstep : ∀ s e s' t, R s t → Step s e s' → R s' t ∨ ∃ e' t', Step' t e' t' ∧ R s' t')
    {s : σ} (h : Reach Init Step s) : ∃ t, Reach Init' Step' t ∧ R s t := by
  induction h with
  | start hs =>
      obtain ⟨t, ht, hR⟩ := hinit _ hs
      exact ⟨t, .start ht, hR⟩
  | next _ hs ih =>
      obtain ⟨t, ht, hR⟩ := ih
      rcases hstep _ _ _ t hR hs with hR' | ⟨e', t', ht', hR'⟩
      · exact ⟨t, ht, hR'⟩
      · exact ⟨t', ht.next ht', hR'⟩

/-! ## What may follow -/

/-- One state may lead to another. -/
def Leads (Step : σ → ε → σ → Prop) (s : σ) : σ → Prop := Reach (· = s) Step

theorem Leads.refl {s : σ} : Leads Step s s := .start rfl

theorem Leads.step {s s' : σ} {e : ε} (h : Step s e s') : Leads Step s s' := Leads.refl.next h

theorem Leads.trans {s s' s'' : σ} (h : Leads Step s s') (h' : Leads Step s' s'') :
    Leads Step s s'' := by
  induction h' with
  | start heq => exact heq ▸ h
  | next _ hstep ih => exact ih.next hstep

/-- What may follow a state that is reached is reached. -/
theorem Reach.leads {s s' : σ} (h : Reach Init Step s) (h' : Leads Step s s') :
    Reach Init Step s' := by
  induction h' with
  | start heq => exact heq ▸ h
  | next _ hstep ih => exact ih.next hstep

/-! ## Machines given by a function -/

variable {κ : Type w}

/-- Where a fallible value mapped by a function is there, the value is. -/
theorem exists_of_map_ok {τ : Type v} {x : Except κ σ} {g : σ → τ} {b : τ}
    (h : x.map g = .ok b) : ∃ a, x = .ok a ∧ g a = b := by
  cases x with
  | error k => exact absurd h (by simp [Except.map])
  | ok a => exact ⟨a, rfl, by simpa [Except.map] using h⟩

/-- Where a fallible computation succeeds, so do its parts. -/
theorem exists_of_bind_ok {τ : Type u} {x : Except κ σ} {g : σ → Except κ τ} {b : τ}
    (h : x >>= g = .ok b) : ∃ a, x = .ok a ∧ g a = .ok b := by
  cases x with
  | error k => exact absurd h (by simp [bind, Except.bind])
  | ok a => exact ⟨a, rfl, h⟩

theorem ok_of_toOption {x : Except κ σ} {a : σ} (h : x.toOption = some a) : x = .ok a := by
  cases x with
  | error k => exact absurd h (by simp [Except.toOption])
  | ok b => simpa [Except.toOption] using h

/-- Run a fallible step function on a list of labels. -/
def exec (f : σ → ε → Except κ σ) : σ → List ε → Except κ σ
  | s, [] => .ok s
  | s, e :: es => match f s e with
    | .ok s' => exec f s' es
    | .error k => .error k

/-- Whether a run succeeds and ends in a state that passes `P`. -/
def execTest (f : σ → ε → Except κ σ) (P : σ → Bool) (s : σ) (es : List ε) : Bool :=
  match exec f s es with
  | .ok s' => P s'
  | .error _ => false

theorem reach_exec {f : σ → ε → Except κ σ} {s s' : σ} {es : List ε}
    (hstep : ∀ e ∈ es, ∀ s s', f s e = .ok s' → Step s e s') (hs : Reach Init Step s)
    (h : exec f s es = .ok s') : Reach Init Step s' := by
  induction es generalizing s with
  | nil =>
      simp only [exec, Except.ok.injEq] at h
      exact h ▸ hs
  | cons e es ih =>
      unfold exec at h
      split at h
      · next s₁ h₁ =>
        exact ih (fun e' he' ↦ hstep e' (List.mem_cons_of_mem e he'))
          (hs.next (hstep e List.mem_cons_self _ _ h₁)) h
      · exact absurd h (by simp)

/-- Whether a call succeeds with a result that passes `P`. -/
def okTest {α : Type*} (r : Except κ α) (P : α → Bool) : Bool :=
  match r with
  | .ok a => P a
  | .error _ => false

theorem exists_of_okTest {α : Type*} {r : Except κ α} {P : α → Bool} (h : okTest r P = true) :
    ∃ a, r = .ok a ∧ P a = true := by
  cases r with
  | error e => exact absurd h (by simp [okTest])
  | ok a => exact ⟨a, rfl, h⟩

/-- A successful test run ends in a reachable state that passes the test, if the labels of the run
stand for steps of the machine. -/
theorem exists_reach_of_execTest_mem {f : σ → ε → Except κ σ} {P : σ → Bool} {s : σ} {es : List ε}
    (hstep : ∀ e ∈ es, ∀ s s', f s e = .ok s' → Step s e s') (hs : Init s)
    (h : execTest f P s es = true) : ∃ s', Reach Init Step s' ∧ P s' = true := by
  unfold execTest at h
  split at h
  · next s' h' => exact ⟨s', reach_exec hstep (.start hs) h', h⟩
  · exact absurd h (by simp)

theorem exists_reach_of_execTest {f : σ → ε → Except κ σ}
    (hstep : ∀ s e s', f s e = .ok s' → Step s e s') {P : σ → Bool} {s : σ} {es : List ε}
    (hs : Init s) (h : execTest f P s es = true) :
    ∃ s', Reach Init Step s' ∧ P s' = true :=
  exists_reach_of_execTest_mem (fun e _ s s' ↦ hstep s e s') hs h

/-! ## Records

A history variable that keeps a list for every key, to which a step may append.
-/

section

variable {τ : Type u} {α : Type v} [DecidableEq τ]

/-- Append to the list of one key, or to none. -/
def record (log : τ → List α) (new : Option (τ × List α)) : τ → List α := fun k ↦
  match new with
  | some (k', as) => if k = k' then log k ++ as else log k
  | none => log k

@[simp] theorem record_none (log : τ → List α) : record log none = log := rfl

@[simp] theorem record_self (log : τ → List α) (k : τ) (as : List α) :
    record log (some (k, as)) k = log k ++ as :=
  if_pos rfl

/-- The lists of the other keys stay as they are. -/
theorem record_of_ne (log : τ → List α) {new : Option (τ × List α)} {k : τ}
    (h : ∀ k' as, new = some (k', as) → k' ≠ k) : record log new k = log k := by
  cases new with
  | none => rfl
  | some r => exact if_neg (h r.1 r.2 rfl).symm

theorem record_ne (log : τ → List α) {k k' : τ} (h : k ≠ k') (as : List α) :
    record log (some (k', as)) k = log k :=
  if_neg h

end

end Machine
