import Microps.Lib.Machine
import Microps.Word

/-!
# Interrupts

The table of `platform/linux/intr.rs`, and the loop in which `intr_main` calls the routines of a
signal.  The loop ends at the first routine that is not shared; since `register` lets two routines
have one number only if both are shared, that cuts none off.
-/

namespace Microps.Intr

abbrev IrqNumber := U32

def flagShared : U32 := 0x0001

def flagQuiet : U32 := 0x0002

/-- `flags & FLAG_SHARED != 0`. -/
def isShared (flags : U32) : Bool := flags &&& flagShared ≠ 0

/-- `IrqEntry`, without the name that is logged.  What the routines are is left open. -/
structure IrqEntry (ρ : Type) where
  irq : IrqNumber
  isr : ρ
  flags : U32
deriving DecidableEq, Repr

variable {ρ : Type}

/-- `register`. -/
def register (irqs : List (IrqEntry ρ)) (irq : IrqNumber) (isr : ρ) (flags : U32) :
    Except Unit (List (IrqEntry ρ)) :=
  if irqs.any fun entry ↦ entry.irq = irq && !(isShared entry.flags && isShared flags) then
    .error ()
  else .ok (irqs ++ [⟨irq, isr, flags⟩])

/-- The entries of a signal, which `intr_main` collects first. -/
def matching (irqs : List (IrqEntry ρ)) (sig : IrqNumber) : List (IrqEntry ρ) :=
  irqs.filter fun entry ↦ entry.irq = sig

/-- What is left of the loop after the routine of `entry` has been called. -/
def remaining (entry : IrqEntry ρ) (rest : List (IrqEntry ρ)) : List (IrqEntry ρ) :=
  if isShared entry.flags then rest else []

/-- The routines that the loop calls, in order. -/
def called : List (IrqEntry ρ) → List ρ
  | [] => []
  | entry :: rest => entry.isr :: if isShared entry.flags then called rest else []

/-- The tables that calls of `register` build; one that fails leaves the table alone. -/
def Registered : List (IrqEntry ρ) → Prop :=
  Machine.Reach (· = []) fun irqs (call : IrqNumber × ρ × U32) irqs' ↦
    irqs' = (register irqs call.1 call.2.1 call.2.2).toOption.getD irqs

/-- Routines that have the same number are shared. -/
def Compatible (irqs : List (IrqEntry ρ)) : Prop :=
  irqs.Pairwise fun a b ↦ a.irq = b.irq → isShared a.flags = true ∧ isShared b.flags = true

section

variable {irqs irqs' : List (IrqEntry ρ)} {irq sig : IrqNumber} {isr : ρ} {flags : U32}

theorem register_eq (h : register irqs irq isr flags = .ok irqs') :
    irqs' = irqs ++ [⟨irq, isr, flags⟩] ∧
      ∀ entry ∈ irqs, entry.irq = irq → isShared entry.flags = true ∧ isShared flags = true := by
  unfold register at h
  split at h
  · exact absurd h (by simp)
  · next hnone =>
    cases h
    refine ⟨rfl, fun entry hentry hirq ↦ ?_⟩
    rw [← Bool.and_eq_true]
    by_contra hno
    refine hnone (List.any_eq_true.mpr ⟨entry, hentry, ?_⟩)
    rw [Bool.not_eq_true] at hno
    rw [hno, hirq, decide_eq_true rfl]
    rfl

theorem register_ok (h : ∀ entry ∈ irqs, entry.irq = irq →
    isShared entry.flags = true ∧ isShared flags = true) :
    register irqs irq isr flags = .ok (irqs ++ [⟨irq, isr, flags⟩]) := by
  refine if_neg fun hany ↦ ?_
  obtain ⟨entry, hentry, hbad⟩ := List.any_eq_true.mp hany
  rw [Bool.and_eq_true] at hbad
  obtain ⟨hshared, hshared'⟩ := h entry hentry (of_decide_eq_true hbad.1)
  rw [hshared, hshared'] at hbad
  exact absurd hbad.2 (by decide)

theorem Compatible.register (h : Compatible irqs) (hok : register irqs irq isr flags = .ok irqs') :
    Compatible irqs' := by
  obtain ⟨rfl, hshared⟩ := register_eq hok
  refine List.pairwise_append.mpr ⟨h, List.pairwise_singleton _ _, fun a ha b hb heq ↦ ?_⟩
  obtain rfl := List.mem_singleton.mp hb
  exact hshared a ha heq

theorem Registered.compatible (h : Registered irqs) : Compatible irqs := by
  refine Machine.Reach.invariant Compatible ?_ ?_ h
  · rintro _ rfl
    exact List.Pairwise.nil
  · rintro irqs ⟨irq, isr, flags⟩ _ ih rfl
    cases hok : Intr.register irqs irq isr flags with
    | error e => exact ih
    | ok irqs' => exact ih.register hok

/-- In the entries of one signal, all are shared if there are two. -/
theorem Compatible.matching (h : Compatible irqs) (sig : IrqNumber) :
    (Intr.matching irqs sig).Pairwise fun a b ↦ isShared a.flags = true ∧ isShared b.flags = true := by
  refine (List.Pairwise.filter _ h).imp_of_mem fun ha hb hab ↦ hab ?_
  have hirq : ∀ {entry}, entry ∈ Intr.matching irqs sig → entry.irq = sig :=
    fun hentry ↦ of_decide_eq_true (List.mem_filter.mp hentry).2
  exact (hirq ha).trans (hirq hb).symm

theorem remaining_eq {entry : IrqEntry ρ} {rest : List (IrqEntry ρ)}
    (h : (entry :: rest).Pairwise fun a b ↦ isShared a.flags = true ∧ isShared b.flags = true) :
    remaining entry rest = rest := by
  cases rest with
  | nil => simp [remaining]
  | cons next rest =>
      rw [remaining, if_pos ((List.pairwise_cons.mp h).1 next List.mem_cons_self).1]

theorem called_eq {entries : List (IrqEntry ρ)}
    (h : entries.Pairwise fun a b ↦ isShared a.flags = true ∧ isShared b.flags = true) :
    called entries = entries.map (·.isr) := by
  induction entries with
  | nil => rfl
  | cons entry rest ih =>
      have hrest := remaining_eq h
      rw [remaining] at hrest
      rw [called, List.map_cons, ← ih (List.pairwise_cons.mp h).2]
      cases hshared : isShared entry.flags with
      | true => rfl
      | false =>
          rw [if_neg (by simp [hshared])] at hrest
          rw [← hrest]
          rfl

/-- **Every routine is called**: whatever has been registered, the loop calls for each signal
all the routines with its number, each once and in the order in which they were registered. -/
theorem dispatch_calls_all (h : Registered irqs) (sig : IrqNumber) :
    called (matching irqs sig) = (irqs.filter fun entry ↦ entry.irq = sig).map (·.isr) :=
  called_eq (h.compatible.matching sig)

end

end Microps.Intr
