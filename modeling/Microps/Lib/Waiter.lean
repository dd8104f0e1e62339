import Microps.Lib.Machine
import Microps.Lib.Slots

/-!
# Calls that wait

A machine keeps objects in numbered slots.  A call on a slot makes rounds: each runs one
event of the machine, and between two rounds the call keeps the number of the slot and
nothing else.  Meanwhile the object may be released and its slot given to another, which the
next round would not notice.

`Host` is such a machine, `World` the machine with its pending calls, and
`Reaches.occupied` says when no round is served by a stranger: as long as no stranger comes to
serve in a slot while a call on it is pending.
-/

namespace Microps.Waiter

/-- A machine with objects in slots, and a call that makes rounds. -/
structure Host (σ ε ρ τ ν κ χ : Type) where
  /-- Run an event: its reply and the next state. -/
  step : σ → ε → Except χ (ρ × σ)
  /-- The identity of the object in a slot. -/
  occupant : σ → Nat → Option τ
  /-- There is an object in the slot that does not simply fail a round. -/
  serves : σ → Nat → Bool
  /-- One round of the call, on a slot and with its argument. -/
  round : ν → Nat → κ → ε
  /-- After this reply the call waits for its next round. -/
  waits : ρ → Bool

/-- A call that has begun and not yet returned. -/
structure Pending (τ κ : Type) where
  desc : Nat
  arg : κ
  /-- Who was in the slot when the call began; the call does not know. -/
  origin : Option τ

/-- A machine and the calls that are pending. -/
structure World (σ τ κ : Type) where
  host : σ
  calls : Slots (Pending τ κ) := []

/-- What may happen next. -/
inductive Label (ε ν κ : Type) where
  /-- An event of the machine. -/
  | event (e : ε)
  /-- A call begins. -/
  | begin (desc : Nat) (arg : κ)
  /-- A call makes a round. -/
  | round (i : Nat) (v : ν)
  /-- A call is interrupted. -/
  | interrupt (i : Nat)

section

variable {σ ε ρ τ ν κ χ : Type} (H : Host σ ε ρ τ ν κ χ)

/-- One step of a machine with its calls. -/
def World.step (w : World σ τ κ) : Label ε ν κ → Except χ (World σ τ κ)
  | .event e => (H.step w.host e).map fun r ↦ { w with host := r.2 }
  | .begin desc arg =>
      .ok { w with calls := (w.calls.insert ⟨desc, arg, H.occupant w.host desc⟩).2 }
  | .round i v => match w.calls.peek i with
    | none => .ok w
    | some c => (H.step w.host (H.round v c.desc c.arg)).map fun r ↦
        { host := r.2, calls := if H.waits r.1 then w.calls else w.calls.free i }
  | .interrupt i => .ok { w with calls := w.calls.free i }

/-- The worlds reached from a machine without calls, by steps that meet the guard `G`. -/
def Reaches (init : σ) (G : World σ τ κ → Label ε ν κ → Prop) : World σ τ κ → Prop :=
  Machine.Reach (· = { host := init }) fun w label w' ↦ G w label ∧ w.step H label = .ok w'

/-- The reply to every pending call is as `P` says, whenever it makes its next round. -/
def Answers (P : σ → Pending τ κ → ρ → Prop) (w : World σ τ κ) : Prop :=
  ∀ i c v r s', w.calls.peek i = some c → H.step w.host (H.round v c.desc c.arg) = .ok (r, s') →
    P w.host c r

/-- Nobody serves in the slot of the call, or it is occupied by whom the call began with. -/
def Occupied (s : σ) (c : Pending τ κ) : Prop :=
  H.serves s c.desc = false ∨ H.occupant s c.desc = c.origin

/-- An object comes to serve only if the event `F` says so, in a slot that it was in before or that
was empty; a round brings nobody to serve. -/
structure Steady (F : σ → ε → Nat → Prop) : Prop where
  event : ∀ s e r s' d, H.step s e = .ok (r, s') → H.serves s' d = false ∨
    (H.occupant s' d = H.occupant s d ∧ (H.serves s d = true ∨ F s e d)) ∨
    (H.occupant s d = none ∧ F s e d)
  round : ∀ s v c a d, ¬ F s (H.round v c a) d

/-- Who comes to serve in the slot of a pending call is whom the call began with. -/
def Spares (F : σ → ε → Nat → Prop) (w : World σ τ κ) (e : ε) : Prop :=
  ∀ i c, w.calls.peek i = some c → F w.host e c.desc →
    H.occupant w.host c.desc ≠ none ∧ H.occupant w.host c.desc = c.origin

variable {H} {F : σ → ε → Nat → Prop}

/-- A call that no stranger serves goes on not to be served by one. -/
theorem Occupied.step (hsteady : Steady H F) {s s' : σ} {c : Pending τ κ} (h : Occupied H s c)
    {e : ε} {r : ρ} (hstep : H.step s e = .ok (r, s'))
    (hspares : F s e c.desc → H.occupant s c.desc ≠ none ∧ H.occupant s c.desc = c.origin) :
    Occupied H s' c := by
  rcases hsteady.event s e r s' c.desc hstep with
    hnobody | ⟨hsame, hserves | hcomes⟩ | ⟨hnone, hcomes⟩
  · exact .inl hnobody
  · exact .inr (hsame.trans (h.resolve_left (by simp [hserves])))
  · exact .inr (hsame.trans (hspares hcomes).2)
  · exact absurd hnone (hspares hcomes).1

/-- **No stranger serves a round**, as long as none comes to serve in a slot while a call on it is
pending. -/
theorem Reaches.occupied (hsteady : Steady H F) {init : σ}
    {G : World σ τ κ → Label ε ν κ → Prop} (hG : ∀ w e, G w (.event e) → Spares H F w e)
    {w : World σ τ κ} (h : Reaches H init G w) {i : Nat} {c : Pending τ κ}
    (hc : w.calls.peek i = some c) : Occupied H w.host c := by
  suffices hall : ∀ i c, w.calls.peek i = some c → Occupied H w.host c from hall i c hc
  refine Machine.Reach.invariant
    (fun w : World σ τ κ ↦ ∀ i c, w.calls.peek i = some c → Occupied H w.host c) ?_ ?_ h
  · rintro _ rfl i c hc
    exact absurd hc (by simp)
  rintro w label w' ih ⟨hguard, hstep⟩ i c hc
  cases label with
  | event e =>
      obtain ⟨⟨r, s'⟩, hs, rfl⟩ := Machine.exists_of_map_ok hstep
      exact (ih i c hc).step hsteady hs (hG w e hguard i c hc)
  | begin desc arg =>
      cases hstep
      change (w.calls.insert _).2.peek i = some c at hc
      rw [(Slots.insert_spec _ _).2] at hc
      split at hc
      · cases hc
        exact .inr rfl
      · exact ih i c hc
  | round k v =>
      simp only [World.step] at hstep
      split at hstep
      · cases hstep
        exact ih i c hc
      next c' _ =>
      obtain ⟨⟨r, s'⟩, hs, rfl⟩ := Machine.exists_of_map_ok hstep
      -- Whether or not the call goes on, the others are still pending.
      have hold : w.calls.peek i = some c := by
        simp only at hc
        split at hc
        · exact hc
        · exact Slots.peek_of_free hc
      exact (ih i c hold).step hsteady hs fun hcomes ↦ absurd hcomes (hsteady.round _ _ _ _ _)
  | interrupt k =>
      cases hstep
      exact ih i c (Slots.peek_of_free hc)

/-- The machine under the calls makes a run of its own. -/
theorem Reaches.host {init : σ} {G : World σ τ κ → Label ε ν κ → Prop} {w : World σ τ κ}
    (h : Reaches H init G w) :
    Machine.Reach (· = init) (fun s (e : ε) s' ↦ ∃ r, H.step s e = .ok (r, s')) w.host := by
  refine Machine.Reach.invariant (fun w : World σ τ κ ↦
    Machine.Reach (· = init) (fun s (e : ε) s' ↦ ∃ r, H.step s e = .ok (r, s')) w.host) ?_ ?_ h
  · rintro _ rfl
    exact .start rfl
  rintro w label w' ih ⟨-, hstep⟩
  cases label with
  | event e =>
      obtain ⟨⟨r, s'⟩, hs, rfl⟩ := Machine.exists_of_map_ok hstep
      exact ih.next ⟨r, hs⟩
  | begin desc arg =>
      cases hstep
      exact ih
  | round k v =>
      simp only [World.step] at hstep
      split at hstep
      · cases hstep
        exact ih
      · obtain ⟨⟨r, s'⟩, hs, rfl⟩ := Machine.exists_of_map_ok hstep
        exact ih.next ⟨r, hs⟩
  | interrupt k =>
      cases hstep
      exact ih

/-! ## Fixed runs -/

/-- A step that fails with `k` where it does not pass the test `g`. -/
def World.stepWhen (H : Host σ ε ρ τ ν κ χ) (k : χ) (g : World σ τ κ → Label ε ν κ → Bool)
    (w : World σ τ κ) (label : Label ε ν κ) : Except χ (World σ τ κ) :=
  if g w label then w.step H label else .error k

/-- A fixed run that ends well ends in a world that is reached. -/
theorem exists_reaches (init : σ) (k : χ) {G : World σ τ κ → Label ε ν κ → Prop}
    (g : World σ τ κ → Label ε ν κ → Bool) (hg : ∀ w label, g w label = true → G w label)
    (P : World σ τ κ → Bool) (labels : List (Label ε ν κ))
    (h : Machine.execTest (World.stepWhen H k g) P { host := init } labels = true) :
    ∃ w, Reaches H init G w ∧ P w = true := by
  refine Machine.exists_reach_of_execTest ?_ rfl h
  intro w label w' hstep
  unfold World.stepWhen at hstep
  split at hstep
  · next hok => exact ⟨hg w label hok, hstep⟩
  · exact absurd hstep (by simp)

end

end Microps.Waiter
