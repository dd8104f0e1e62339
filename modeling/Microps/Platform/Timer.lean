import Mathlib.Data.List.Forall2
import Microps.Lib.Machine
import Microps.Lib.Spaced

/-!
# The timers

The table of `platform/linux/timer.rs`.  The interrupt routine runs about every millisecond, and
calls the handlers of those timers whose interval is over.  A timer measures its interval from the
time at which it was last found to be over, so that two of its calls are never closer together than
that, and never much further apart: only the time that may pass between two runs of the routine is
added.
-/

namespace Microps.Timer

/-- `TimerEntry`.  What the handlers are is left open. -/
structure TimerEntry (η : Type) where
  interval : Nat
  last : Nat
  handler : η
deriving DecidableEq, Repr

variable {η : Type}

/-- `register`. -/
def register (timers : List (TimerEntry η)) (now interval : Nat) (handler : η) :
    List (TimerEntry η) :=
  timers ++ [⟨interval, now, handler⟩]

/-- `now.saturating_sub(entry.last) >= entry.interval`. -/
def TimerEntry.expired (entry : TimerEntry η) (now : Nat) : Bool :=
  entry.interval ≤ now - entry.last

/-- `isr`: the table that it leaves, and the handlers that it calls. -/
def isr (now : Nat) : List (TimerEntry η) → List (TimerEntry η) × List η
  | [] => ([], [])
  | entry :: timers =>
      let r := isr now timers
      if entry.expired now then ({ entry with last := now } :: r.1, entry.handler :: r.2)
      else (entry :: r.1, r.2)

/-- The timers under a clock. -/
structure Timers (η : Type) where
  timers : List (TimerEntry η) := []
  /-- What the clock has shown last. -/
  now : Nat := 0
  /-- When the routine last ran. -/
  ran : Nat := 0
  /-- For every timer, when it was registered and when its handler was called. -/
  times : List (List Nat) := []

inductive Act (η : Type) where
  | register (now interval : Nat) (handler : η)
  | isr (now : Nat)

/-- The clock of a step. -/
def Act.now : Act η → Nat
  | .register now _ _ => now
  | .isr now => now

/-- The times of a timer after the routine has run. -/
def follow (now : Nat) (entry : TimerEntry η) (ts : List Nat) : List Nat :=
  if entry.expired now then ts ++ [now] else ts

/-- One step. -/
def Timers.step (s : Timers η) : Act η → Timers η
  | .register now interval handler =>
      { s with timers := register s.timers now interval handler, now := now,
               times := s.times ++ [[now]] }
  | .isr now =>
      { timers := (isr now s.timers).1, now := now, ran := now,
        times := List.zipWith (follow now) s.timers s.times }

/-- The states of runs in which the routine runs whenever `gap` has passed. -/
def Reachable (gap : Nat) : Timers η → Prop :=
  Machine.Reach (· = {}) fun s act s' ↦
    (s.now ≤ act.now ∧ act.now ≤ s.ran + gap) ∧ s.step act = s'

/-- What holds of one timer: the routine did not leave it when it was over. -/
structure OnTime (gap now ran : Nat) (entry : TimerEntry η) (ts : List Nat) : Prop where
  last : ts.getLast? = some entry.last
  spaced : Spaced (fun _ ↦ entry.interval) (fun _ ↦ entry.interval + gap) ts
  seen : entry.last ≤ now
  early : ran ≤ entry.last + entry.interval

section

variable {gap now ran now' : Nat} {entry : TimerEntry η} {ts : List Nat} {s : Timers η}

theorem OnTime.mono (h : OnTime gap now ran entry ts) (hnow : now ≤ now') :
    OnTime gap now' ran entry ts :=
  { h with seen := Nat.le_trans h.seen hnow }

/-- The routine runs. -/
theorem OnTime.isr (h : OnTime gap now ran entry ts) (hnow : now ≤ now') (hgap : now' ≤ ran + gap) :
    OnTime gap now' now' (if entry.expired now' then { entry with last := now' } else entry)
      (follow now' entry ts) := by
  have hseen := h.seen
  have hearly := h.early
  unfold follow TimerEntry.expired
  split
  · next hdue =>
    have hdue := of_decide_eq_true hdue
    refine ⟨List.getLast?_concat, ?_, Nat.le_refl _, Nat.le_add_right _ _⟩
    exact h.spaced.snoc h.last (by omega) (by omega)
  · next hdue =>
    have hdue : ¬ entry.interval ≤ now' - entry.last := fun hle ↦ hdue (decide_eq_true hle)
    exact ⟨h.last, h.spaced, by omega, by omega⟩

theorem isr_fst (now : Nat) (timers : List (TimerEntry η)) : (isr now timers).1 =
    timers.map fun entry ↦ if entry.expired now then { entry with last := now } else entry := by
  induction timers with
  | nil => rfl
  | cons entry timers ih =>
      rw [isr, List.map_cons, ← ih]
      split <;> rfl

/-- The routine calls the handlers of the timers that are over, in their order. -/
theorem isr_snd (now : Nat) (timers : List (TimerEntry η)) : (isr now timers).2 =
    (timers.filter fun entry ↦ entry.expired now).map (·.handler) := by
  induction timers with
  | nil => rfl
  | cons entry timers ih =>
      rw [isr, List.filter_cons]
      split
      · rw [List.map_cons, ← ih]
      · exact ih

/-- What holds of all timers. -/
structure Inv (gap : Nat) (s : Timers η) : Prop where
  onTime : List.Forall₂ (OnTime gap s.now s.ran) s.timers s.times
  ran : s.ran ≤ s.now
  now : s.now ≤ s.ran + gap

theorem Inv.step (h : Inv gap s) {act : Act η} (hnow : s.now ≤ act.now)
    (hgap : act.now ≤ s.ran + gap) : Inv gap (s.step act) := by
  have hran := h.ran
  cases act with
  | register now interval handler =>
      refine ⟨?_, Nat.le_trans h.ran hnow, hgap⟩
      refine List.rel_append (h.onTime.imp fun _ _ hts ↦ hts.mono hnow) (.cons ?_ .nil)
      refine ⟨rfl, .singleton _ _ now, Nat.le_refl _, ?_⟩
      exact Nat.le_trans (Nat.le_trans hran hnow) (Nat.le_add_right _ _)
  | isr now =>
      refine ⟨?_, Nat.le_refl _, Nat.le_add_right _ _⟩
      have honTime := h.onTime
      simp only [Timers.step, isr_fst]
      generalize s.timers = timers at honTime
      generalize s.times = times at honTime
      induction honTime with
      | nil => exact .nil
      | cons hts _ ih => exact .cons (hts.isr hnow hgap) ih

/-- **Timers are punctual**: where the routine runs whenever `gap` has passed, the handler of a
timer is called for the first time between its interval and its interval and `gap` after the timer
was registered, and again between its interval and its interval and `gap` after that; and it is
never overdue by more than `gap`. -/
theorem timers_punctual (h : Reachable gap s) :
    s.times.length = s.timers.length ∧
    (∀ now, (Timer.isr now s.timers).2 =
      (s.timers.filter fun entry ↦ entry.expired now).map (·.handler)) ∧
    ∀ (k : Nat) (entry : TimerEntry η) (ts : List Nat), s.timers[k]? = some entry →
      s.times[k]? = some ts →
      (∀ i t t', ts[i]? = some t → ts[i + 1]? = some t' →
        t + entry.interval ≤ t' ∧ t' ≤ t + (entry.interval + gap)) ∧
      ∃ t, ts.getLast? = some t ∧ t ≤ s.now ∧ s.now ≤ t + entry.interval + gap := by
  have hinv : Inv gap s := by
    refine Machine.Reach.invariant (Inv gap) ?_ ?_ h
    · rintro _ rfl
      exact ⟨.nil, Nat.le_refl _, Nat.zero_le _⟩
    · rintro s act _ ih ⟨⟨hnow, hgap⟩, rfl⟩
      exact ih.step hnow hgap
  refine ⟨hinv.onTime.length_eq.symm, fun now ↦ isr_snd now _, fun k entry ts hentry hts ↦ ?_⟩
  have hone : OnTime gap s.now s.ran entry ts := by
    obtain ⟨hlt, rfl⟩ := List.getElem?_eq_some_iff.mp hentry
    obtain ⟨hlt', rfl⟩ := List.getElem?_eq_some_iff.mp hts
    exact (List.forall₂_iff_get.mp hinv.onTime).2 k hlt hlt'
  have hearly := hone.early
  have hnow := hinv.now
  exact ⟨hone.spaced, entry.last, hone.last, hone.seen, by omega⟩

/-- A timer of 100 that is looked at every 30 is called at 120 and at 240. -/
theorem timers_punctual_twice : ∃ s : Timers Unit, Reachable 30 s ∧ s.times = [[0, 120, 240]] ∧
    ∃ t, s.times[0]?.bind List.getLast? = some t ∧ s.now ≤ t + 100 + 30 := by
  have hrun : ∀ {s : Timers Unit}, Reachable 30 s → ∀ act : Act Unit, s.now ≤ act.now →
      act.now ≤ s.ran + 30 → Reachable 30 (s.step act) :=
    fun hs act hnow hgap ↦ hs.next ⟨⟨hnow, hgap⟩, rfl⟩
  have hstart : Reachable 30 ({} : Timers Unit) := .start rfl
  have hs := hrun (hrun (hrun (hrun (hrun (hrun (hrun (hrun (hrun hstart
    (.register 0 100 ()) (by decide) (by decide)) (.isr 30) (by decide) (by decide))
    (.isr 60) (by decide) (by decide)) (.isr 90) (by decide) (by decide))
    (.isr 120) (by decide) (by decide)) (.isr 150) (by decide) (by decide))
    (.isr 180) (by decide) (by decide)) (.isr 210) (by decide) (by decide))
    (.isr 240) (by decide) (by decide)
  obtain ⟨-, -, hall⟩ := timers_punctual hs
  obtain ⟨-, t, ht, -, hnow⟩ := hall 0 ⟨100, 240, ()⟩ [0, 120, 240] (by decide) (by decide)
  exact ⟨_, hs, by decide, t, ht, hnow⟩

end

end Microps.Timer
