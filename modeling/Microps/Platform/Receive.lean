import Microps.Net.Softirq
import Microps.Platform.Intr

/-!
# The receive path

From the TAP devices to the protocol handlers.  A frame that the kernel holds for a device raises a
signal; the dispatcher of `platform/linux/intr.rs` calls the routines of the signal one after the
other, and that of `driver/ether_tap.rs` reads frames until there are none and gives them to
`net::input_handler`, which queues them for the soft interrupt.  All devices share one signal, a
signal that is raised twice is taken once, frames arrive at any time, and `open` may still be under
way when the first one does.

The machine carries that of the soft interrupt along, so that what is proved there holds here.
-/

namespace Microps.Platform

open Intr (IrqNumber IrqEntry)
open Net (Softirq Handler InputEntry)

/-! ## The table -/

/-- The routines. -/
inductive Isr where
  | softirq
  | timer
  | task
  | tap (i : Nat)
deriving DecidableEq, Repr

/-- `SIGUSR1`. -/
def softIrq : IrqNumber := 10

/-- `SIGALRM`. -/
def timerIrq : IrqNumber := 14

/-- `SIGUSR2`. -/
def taskIrq : IrqNumber := 12

/-- `SIGRTMIN() + 1`. -/
def tapIrq : IrqNumber := 35

/-- `platform::init`, and then `n` calls of `ether_tap::init`. -/
def init (n : Nat) : Except Unit (List (IrqEntry Isr)) := do
  let irqs ← Intr.register [] softIrq .softirq 0
  let irqs ← Intr.register irqs timerIrq .timer Intr.flagQuiet
  let irqs ← Intr.register irqs taskIrq .task 0
  (List.range n).foldlM (fun irqs i ↦ Intr.register irqs tapIrq (.tap i) Intr.flagShared) irqs

def tapEntry (i : Nat) : IrqEntry Isr := ⟨tapIrq, .tap i, Intr.flagShared⟩

/-- The table that they build. -/
def table (n : Nat) : List (IrqEntry Isr) :=
  [⟨softIrq, .softirq, 0⟩, ⟨timerIrq, .timer, Intr.flagQuiet⟩, ⟨taskIrq, .task, 0⟩] ++
    (List.range n).map tapEntry

theorem mem_table {n : Nat} {entry : IrqEntry Isr} (h : entry ∈ table n) :
    entry ∈ table 0 ∨ ∃ i < n, entry = tapEntry i := by
  rcases List.mem_append.mp h with h | h
  · exact .inl (List.mem_append_left _ h)
  · obtain ⟨i, hi, rfl⟩ := List.mem_map.mp h
    exact .inr ⟨i, List.mem_range.mp hi, rfl⟩

/-- The platform does not use the signal of the devices. -/
theorem irq_of_mem_table {n : Nat} {entry : IrqEntry Isr} (h : entry ∈ table n)
    (hirq : entry.irq = tapIrq) : ∃ i < n, entry = tapEntry i := by
  refine (mem_table h).resolve_left fun hentry ↦ ?_
  have hne : ∀ entry ∈ table 0, entry.irq ≠ tapIrq := by decide
  exact hne entry hentry hirq

theorem register_tap (n : Nat) :
    Intr.register (table n) tapIrq (.tap n) Intr.flagShared = .ok (table (n + 1)) := by
  have hshared : Intr.isShared Intr.flagShared = true := by decide
  rw [Intr.register_ok]
  · simp only [table, List.range_succ, List.map_append, List.map_singleton, List.append_assoc]
    rfl
  · rintro entry hentry hirq
    obtain ⟨i, -, rfl⟩ := irq_of_mem_table hentry hirq
    exact ⟨hshared, hshared⟩

theorem compatible_table (n : Nat) : Intr.Compatible (table n) := by
  induction n with
  | zero =>
      unfold Intr.Compatible
      decide
  | succ n ih => exact ih.register (register_tap n)

/-- No call fails. -/
theorem init_eq (n : Nat) : init n = .ok (table n) := by
  have hrest : ∀ n, (List.range n).foldlM
      (fun irqs i ↦ Intr.register irqs tapIrq (.tap i) Intr.flagShared) (table 0) =
        .ok (table n) := by
    intro n
    induction n with
    | zero => rfl
    | succ n ih =>
        rw [List.range_succ, List.foldlM_append, ih]
        simp only [bind, Except.bind, List.foldlM_cons, register_tap, List.foldlM_nil]
        rfl
  exact hrest n

/-! ## The machine -/

/-- The size of the buffer that a frame is read into. -/
def etherFrameSizeMax : Nat := 1514

/-- What the kernel holds for a device. -/
inductive Link where
  /-- `open` has not been called. -/
  | down
  /-- There is a descriptor, and a frame raises the signal. -/
  | up
  | closed
deriving DecidableEq, Repr

/-- A TAP device: the part of the driver and the part of the kernel. -/
structure Tap where
  dev : Device
  link : Link := .down
  /-- `open` has stored the descriptor. -/
  stored : Bool := false
  /-- The frames that are waiting to be read. -/
  rx : List (List U8) := []
  /-- Since a frame last arrived, the routine has found no descriptor, or a read has failed. -/
  missed : Bool := false
  /-- The frames that have arrived, and those that have been read. -/
  arrived : List (List U8) := []
  read : List (List U8) := []
deriving DecidableEq, Repr

/-- Where the dispatcher is; `rest` are the entries it still has to go through. -/
inductive Serving where
  /-- In `sigwait`, or gone. -/
  | idle
  /-- In the loop of `intr_main`. -/
  | between (rest : List (IrqEntry Isr))
  /-- In `softirq_handler`. -/
  | softirq (rest : List (IrqEntry Isr))
  /-- In the loop of the routine of a device. -/
  | reading (i : Nat) (rest : List (IrqEntry Isr))
  /-- In the routine of the timer or of the tasks. -/
  | other (rest : List (IrqEntry Isr))
deriving DecidableEq, Repr

def Serving.rest : Serving → List (IrqEntry Isr)
  | .idle => []
  | .between rest | .softirq rest | .reading _ rest | .other rest => rest

/-- The receive path. -/
structure Receive where
  /-- `IRQS`. -/
  irqs : List (IrqEntry Isr)
  taps : List Tap
  soft : Softirq Handler := { protocols := Net.protocols }
  /-- The signals that are pending, apart from the soft interrupt. -/
  pending : List IrqNumber := []
  serving : Serving := .idle
  /-- What was queued, with the device that it came from. -/
  log : List (Option Nat × InputEntry) := []

/-- What may happen next. -/
inductive Act where
  /-- Someone raises a signal. -/
  | raise (sig : IrqNumber)
  /-- `open` has the descriptor, and has set it up. -/
  | attach (i : Nat)
  /-- `open` stores it. -/
  | store (i : Nat)
  /-- `close`. -/
  | close (i : Nat)
  /-- A frame arrives at a device. -/
  | arrive (i : Nat) (frame : List U8)
  /-- `sigwait` returns. -/
  | take (sig : IrqNumber)
  /-- The loop of `intr_main` calls the next routine, or ends. -/
  | call
  /-- The routine of a device reads, and gives the frame to `net::input_handler`, up to the
  raise; or there is nothing to read, and it returns. -/
  | read
  /-- The read fails, and the routine returns. -/
  | fail
  /-- The routine of the timer or of the tasks returns. -/
  | returns
  /-- Another thread, a handler or `softirq_handler` goes on. -/
  | soft (act : Net.Act Handler)
  /-- `sigwait` fails, or returns with `SIGHUP`. -/
  | stop
deriving DecidableEq, Repr

namespace Receive

/-- The input queue, the soft interrupt or its handler go on; `src` is the device that is read. -/
def goes (w : Receive) (src : Option Nat) (act : Net.Act Handler) : Receive :=
  let soft := w.soft.step act
  { w with soft := soft,
           log := w.log ++ (soft.pushed.drop w.soft.pushed.length).map fun entry ↦ (src, entry) }

def setTap (w : Receive) (i : Nat) (tap : Tap) : Receive := { w with taps := w.taps.set i tap }

/-- A signal that is pending already is not raised twice.  Where the kernel queues it, it is as if
someone had raised it again after it was taken. -/
def raise (w : Receive) (sig : IrqNumber) : Receive :=
  if sig ∈ w.pending then w else { w with pending := sig :: w.pending }

/-- The loop of `intr_main`. -/
def call (w : Receive) : Receive :=
  match w.serving with
  | .between [] =>
      if w.soft.phase = .isr then { w.goes none .isrReturns with serving := .idle }
      else { w with serving := .idle }
  | .between (entry :: rest) =>
      let rest := Intr.remaining entry rest
      match entry.isr with
      | .softirq => { w with serving := .softirq rest }
      | .timer | .task => { w with serving := .other rest }
      | .tap i => match w.taps[i]? with
        | none => { w with serving := .between rest }
        | some tap =>
            if tap.stored then { w with serving := .reading i rest }
            else { w.setTap i { tap with missed := true } with serving := .between rest }
  | _ => w

/-- The loop of the routine of a device. -/
def read (w : Receive) : Receive :=
  match w.serving with
  | .reading i rest => match w.taps[i]? with
    | none => w
    | some tap => match tap.rx with
      | [] => { w with serving := .between rest }
      | frame :: rx =>
          let w := w.setTap i { tap with rx := rx, read := tap.read ++ [frame] }
          match EtherTap.input tap.dev (frame.take etherFrameSizeMax) with
          | none => w
          | some (ty, data) => w.goes (some i) (.input .dispatcher ⟨ty, data, tap.dev⟩ true)
  | _ => w

/-- One step. -/
def step (w : Receive) : Act → Receive
  | .raise sig => w.raise sig
  | .attach i => match w.taps[i]? with
    | some tap => w.setTap i { tap with link := .up }
    | none => w
  | .store i => match w.taps[i]? with
    | some tap => w.setTap i { tap with stored := true }
    | none => w
  | .close i => match w.taps[i]? with
    | some tap => w.setTap i { tap with link := .closed, stored := false }
    | none => w
  | .arrive i frame => match w.taps[i]? with
    | some tap =>
        (w.setTap i { tap with
          rx := tap.rx ++ [frame], missed := false, arrived := tap.arrived ++ [frame] }).raise tapIrq
    | none => w
  | .take sig =>
      { w.goes none (if sig = softIrq then .takeSoft else .takeOther) with
        pending := w.pending.erase sig, serving := .between (Intr.matching w.irqs sig) }
  | .call => w.call
  | .read => w.read
  | .fail => match w.serving with
    | .reading i rest => match w.taps[i]? with
      | some tap => { w.setTap i { tap with missed := true } with serving := .between rest }
      | none => w
    | _ => w
  | .returns => match w.serving with
    | .other rest => { w with serving := .between rest }
    | _ => w
  | .soft act =>
      let w' := w.goes none act
      match w.serving with
      | .softirq rest =>
          if w'.soft.phase = .waiting then { w' with serving := .between rest } else w'
      | _ => w'
  | .stop => w.goes none .stop

/-- The signal can be taken. -/
def isPending (w : Receive) (sig : IrqNumber) : Prop :=
  if sig = softIrq then w.soft.pending = true else sig ∈ w.pending

/-- The steps of the soft interrupt that do not come with one of the others. -/
def allowsSoft (w : Receive) : Net.Act Handler → Prop
  | .input .dispatcher _ _ => (∃ rest, w.serving = .softirq rest) ∨ ∃ rest, w.serving = .other rest
  | .input (.other _) _ _ | .raise _ => True
  | .pop | .dispatch | .handlerReturns => ∃ rest, w.serving = .softirq rest
  | .register _ _ | .takeSoft | .takeOther | .isrReturns | .stop => False

/-- The steps that may be made.  The dispatcher does nothing else while it is in
`input_handler`, and no frame is empty. -/
def allows (w : Receive) : Act → Prop
  | .raise sig => sig ≠ softIrq
  | .attach i => ∃ tap, w.taps[i]? = some tap ∧ tap.link = .down
  | .store i => ∃ tap, w.taps[i]? = some tap ∧ tap.link = .up ∧ tap.stored = false
  | .close i => ∃ tap, w.taps[i]? = some tap ∧ tap.stored = true
  | .arrive i frame => frame ≠ [] ∧ ∃ tap, w.taps[i]? = some tap ∧ tap.link = .up
  | .take sig => w.serving = .idle ∧ w.soft.phase = .waiting ∧ w.isPending sig ∧
      ∃ entry ∈ w.irqs, entry.irq = sig
  | .call => (∃ rest, w.serving = .between rest) ∧ .dispatcher ∉ w.soft.inside
  | .read => (∃ i rest tap, w.serving = .reading i rest ∧ w.taps[i]? = some tap ∧ tap.link = .up) ∧
      .dispatcher ∉ w.soft.inside
  | .fail => (∃ i rest, w.serving = .reading i rest) ∧ .dispatcher ∉ w.soft.inside
  | .returns => (∃ rest, w.serving = .other rest) ∧ .dispatcher ∉ w.soft.inside
  | .soft act => w.soft.allows act ∧ w.allowsSoft act
  | .stop => w.serving = .idle ∧ w.soft.phase = .waiting

/-- The states that are reached when the devices `devs` have been registered. -/
def Reachable (devs : List Device) : Receive → Prop :=
  Machine.Reach
    (fun w ↦ ∃ irqs, init devs.length = .ok irqs ∧
      w = { irqs := irqs, taps := devs.map fun dev ↦ { dev := dev } })
    fun w act w' ↦ w.allows act ∧ w.step act = w'

/-! ## The input queue -/

/-- What a step of the soft interrupt queues. -/
def pushes (protocols : List (U16 × Handler)) : Net.Act Handler → List InputEntry
  | .input _ entry known =>
      if (protocols.any fun p ↦ p.1 = entry.ty) && known then [entry] else []
  | _ => []

theorem pushed_step (s : Softirq Handler) (act : Net.Act Handler) :
    (s.step act).pushed = s.pushed ++ pushes s.protocols act := by
  cases act with
  | input thread entry known =>
      simp only [Softirq.step, pushes]
      split
      · rfl
      · exact (List.append_nil _).symm
  | pop =>
      simp only [Softirq.step, pushes, List.append_nil]
      split <;> rfl
  | dispatch =>
      simp only [Softirq.step, pushes, List.append_nil]
      split
      · split <;> rfl
      · rfl
  | register | raise | takeSoft | takeOther | isrReturns | stop | handlerReturns =>
      exact (List.append_nil _).symm

theorem protocols_step (s : Softirq Handler) {act : Net.Act Handler}
    (h : ∀ ty handler, act ≠ .register ty handler) : (s.step act).protocols = s.protocols := by
  cases act with
  | register ty handler => exact absurd rfl (h ty handler)
  | input thread entry known =>
      simp only [Softirq.step]
      split <;> rfl
  | pop =>
      simp only [Softirq.step]
      split <;> rfl
  | dispatch =>
      simp only [Softirq.step]
      split
      · split <;> rfl
      · rfl
  | raise | takeSoft | takeOther | isrReturns | stop | handlerReturns => rfl

variable {w : Receive} {src : Option Nat} {act : Net.Act Handler}

theorem log_goes (w : Receive) (src : Option Nat) (act : Net.Act Handler) :
    (w.goes src act).log = w.log ++ (pushes w.soft.protocols act).map fun entry ↦ (src, entry) := by
  simp only [goes, pushed_step, List.drop_left]

/-- The packets of the device `i`. -/
def fromTap (w : Receive) (i : Nat) : List InputEntry :=
  w.log.filterMap fun r ↦ if r.1 = some i then some r.2 else none

theorem fromTap_goes (w : Receive) (src : Option Nat) (act : Net.Act Handler) (i : Nat) :
    (w.goes src act).fromTap i =
      w.fromTap i ++ if src = some i then pushes w.soft.protocols act else [] := by
  rw [fromTap, log_goes, List.filterMap_append, List.filterMap_map]
  congr 1
  split
  · next heq =>
    simp only [Function.comp_def, heq, if_true]
    exact List.filterMap_some
  · next hne =>
    simp only [Function.comp_def, hne, if_false]
    exact List.filterMap_eq_nil_iff.mpr fun _ _ ↦ rfl

/-! ## The dispatcher -/

/-- Where the dispatcher is, and what the soft interrupt knows of it. -/
inductive Fits : Serving → Net.Phase → Prop
  | idle : Fits .idle .waiting
  | ended : Fits .idle .ended
  | between {rest : List (IrqEntry Isr)} : (∀ entry ∈ rest, entry.isr ≠ .softirq) →
      Fits (.between rest) .isr
  | taken : Fits (.between [⟨softIrq, .softirq, 0⟩]) .loop
  | done : Fits (.between []) .waiting
  | softirq {phase : Net.Phase} : phase.inLoop = true → Fits (.softirq []) phase
  | reading {i : Nat} {rest : List (IrqEntry Isr)} : (∀ entry ∈ rest, entry.isr ≠ .softirq) →
      Fits (.reading i rest) .isr
  | other {rest : List (IrqEntry Isr)} : (∀ entry ∈ rest, entry.isr ≠ .softirq) →
      Fits (.other rest) .isr

theorem Fits.between_cases {rest : List (IrqEntry Isr)} {phase : Net.Phase}
    (h : Fits (.between rest) phase) : (∀ entry ∈ rest, entry.isr ≠ .softirq) ∧ phase = .isr ∨
      rest = [⟨softIrq, .softirq, 0⟩] ∧ phase = .loop ∨ rest = [] ∧ phase = .waiting := by
  cases h with
  | between hrest => exact .inl ⟨hrest, rfl⟩
  | taken => exact .inr (.inl ⟨rfl, rfl⟩)
  | done => exact .inr (.inr ⟨rfl, rfl⟩)

theorem Fits.reading_cases {i : Nat} {rest : List (IrqEntry Isr)} {phase : Net.Phase}
    (h : Fits (.reading i rest) phase) : (∀ entry ∈ rest, entry.isr ≠ .softirq) ∧ phase = .isr := by
  cases h with
  | reading hrest => exact ⟨hrest, rfl⟩

theorem Fits.other_cases {rest : List (IrqEntry Isr)} {phase : Net.Phase}
    (h : Fits (.other rest) phase) : (∀ entry ∈ rest, entry.isr ≠ .softirq) ∧ phase = .isr := by
  cases h with
  | other hrest => exact ⟨hrest, rfl⟩

/-- The dispatcher is in step with the soft interrupt, and skips no routine. -/
structure Dispatches (n : Nat) (w : Receive) : Prop where
  irqs : w.irqs = table n
  soft : Softirq.Reachable w.soft
  protocols : w.soft.protocols = Net.protocols
  fits : Fits w.serving w.soft.phase
  shared : w.serving.rest.Pairwise fun a b ↦
    Intr.isShared a.flags = true ∧ Intr.isShared b.flags = true
  log : w.log.map (·.2) = w.soft.pushed

section

variable {n : Nat} {w : Receive} {src : Option Nat} {act : Net.Act Handler}

/-- The soft interrupt goes on. -/
theorem Dispatches.goes (h : Dispatches n w) (src : Option Nat) (act : Net.Act Handler)
    (hallows : w.soft.allows act) (hregister : ∀ ty handler, act ≠ .register ty handler)
    {serving : Serving} {pending : List IrqNumber}
    (hfits : Fits serving (w.soft.step act).phase)
    (hshared : serving.rest.Pairwise fun a b ↦
      Intr.isShared a.flags = true ∧ Intr.isShared b.flags = true) :
    Dispatches n { w.goes src act with serving := serving, pending := pending } where
  irqs := h.irqs
  soft := h.soft.next ⟨hallows, rfl⟩
  protocols := (protocols_step w.soft hregister).trans h.protocols
  fits := hfits
  shared := hshared
  log := by
    change (w.goes src act).log.map (·.2) = (w.soft.step act).pushed
    rw [log_goes, List.map_append, h.log, pushed_step, List.map_map]
    congr 1
    exact List.map_id _

/-- The dispatcher goes on alone. -/
theorem Dispatches.moves (h : Dispatches n w) {serving : Serving} {pending : List IrqNumber}
    {taps : List Tap} (hfits : Fits serving w.soft.phase)
    (hshared : serving.rest.Pairwise fun a b ↦
      Intr.isShared a.flags = true ∧ Intr.isShared b.flags = true) :
    Dispatches n { w with serving := serving, pending := pending, taps := taps } :=
  ⟨h.irqs, h.soft, h.protocols, hfits, hshared, h.log⟩

/-- The entries of a signal. -/
theorem Dispatches.matching (h : Dispatches n w) (sig : IrqNumber) :
    (Intr.matching w.irqs sig).Pairwise fun a b ↦
      Intr.isShared a.flags = true ∧ Intr.isShared b.flags = true := by
  rw [h.irqs]
  exact (compatible_table n).matching sig

/-- Only the soft interrupt has the routine of the soft interrupt. -/
theorem matching_softIrq (n : Nat) :
    Intr.matching (table n) softIrq = [⟨softIrq, .softirq, 0⟩] := by
  rw [Intr.matching, table, List.filter_append]
  have hnone : ((List.range n).map tapEntry).filter (fun entry ↦ entry.irq = softIrq) = [] := by
    rw [List.filter_eq_nil_iff]
    intro entry hentry
    obtain ⟨i, -, rfl⟩ := List.mem_map.mp hentry
    rw [decide_eq_true_iff]
    exact (by decide : tapIrq ≠ softIrq)
  rw [hnone]
  rfl

theorem isr_of_mem_matching {sig : IrqNumber} (hsig : sig ≠ softIrq) :
    ∀ entry ∈ Intr.matching (table n) sig, entry.isr ≠ .softirq := by
  intro entry hentry
  obtain ⟨hmem, hirq⟩ := List.mem_filter.mp hentry
  have hirq := of_decide_eq_true hirq
  rcases mem_table hmem with hmem | ⟨i, -, rfl⟩
  · rintro hisr
    refine hsig ?_
    rw [← hirq]
    revert hisr
    have hall : ∀ entry ∈ table 0, entry.isr = .softirq → entry.irq = softIrq := by decide
    exact hall entry hmem
  · exact Isr.noConfusion

/-- `sigwait` returns. -/
theorem Dispatches.take (h : Dispatches n w) {sig : IrqNumber} (hallows : w.allows (.take sig)) :
    Dispatches n (w.step (.take sig)) := by
  obtain ⟨-, hphase, hpending, -⟩ := hallows
  by_cases hsig : sig = softIrq
  · subst hsig
    rw [isPending, if_pos rfl] at hpending
    refine h.goes none .takeSoft ⟨hphase, hpending⟩ (by simp) ?_ (h.matching _)
    rw [h.irqs, matching_softIrq]
    exact .taken
  · rw [step, if_neg hsig]
    refine h.goes none .takeOther hphase (by simp) ?_ (h.matching _)
    rw [h.irqs]
    exact .between (isr_of_mem_matching hsig)

/-- The loop of `intr_main` goes on. -/
theorem Dispatches.call (h : Dispatches n w) (hallows : w.allows .call) :
    Dispatches n (w.step .call) := by
  obtain ⟨⟨rest, hserving⟩, hinside⟩ := hallows
  have hfits := h.fits
  have hshared := h.shared
  rw [hserving] at hfits hshared
  change Dispatches n w.call
  rw [Receive.call, hserving]
  cases rest with
  | nil =>
      dsimp only
      split
      · next hphase => exact h.goes none .isrReturns ⟨hphase, hinside⟩ (by simp) .idle .nil
      · next hphase =>
        rcases hfits.between_cases with ⟨-, hisr⟩ | ⟨hrest, -⟩ | ⟨-, hwaiting⟩
        · exact absurd hisr hphase
        · exact absurd hrest (by simp)
        · exact h.moves (hwaiting ▸ .idle) .nil
  | cons entry rest =>
      have hrest := (List.pairwise_cons.mp hshared).2
      dsimp only
      rw [Intr.remaining_eq hshared]
      rcases hfits.between_cases with ⟨hother, hphase⟩ | ⟨hsoft, hphase⟩ | ⟨hnil, -⟩
      · have hafter : ∀ e ∈ rest, e.isr ≠ .softirq := fun e he ↦ hother e (.tail _ he)
        split
        · next hisr => exact absurd hisr (hother entry (.head _))
        · exact h.moves (hphase ▸ .other hafter) hrest
        · exact h.moves (hphase ▸ .other hafter) hrest
        · split
          · exact h.moves (hphase ▸ .between hafter) hrest
          · split
            · exact h.moves (hphase ▸ .reading hafter) hrest
            · exact h.moves (hphase ▸ .between hafter) hrest
      · cases hsoft
        exact h.moves (.softirq (hphase ▸ rfl)) .nil
      · exact absurd hnil (by simp)

theorem phase_input (s : Softirq Handler) (thread : Net.Thread) (entry : InputEntry)
    (known : Bool) : (s.step (.input thread entry known)).phase = s.phase := by
  simp only [Softirq.step]
  split <;> rfl

/-- The routine of a device goes on. -/
theorem Dispatches.read (h : Dispatches n w) (hallows : w.allows .read) :
    Dispatches n (w.step .read) := by
  obtain ⟨⟨i, rest, tap, hserving, htap, -⟩, hinside⟩ := hallows
  have hfits := h.fits
  have hshared := h.shared
  rw [hserving] at hfits hshared
  obtain ⟨hrest, hphase⟩ := hfits.reading_cases
  change Dispatches n w.read
  unfold Receive.read
  simp only [hserving, htap]
  split
  · exact h.moves (hphase ▸ .between hrest) hshared
  · next frame rx _ =>
    have hmoved : Dispatches n (w.setTap i { tap with rx := rx, read := tap.read ++ [frame] }) :=
      h.moves h.fits h.shared
    split
    · exact hmoved
    · next ty data _ =>
      have hcalls : w.soft.phase.calls = true := by
        rw [hphase]
        rfl
      refine hmoved.goes (some i) (.input .dispatcher ⟨ty, data, tap.dev⟩ true)
        ⟨hinside, fun _ ↦ hcalls⟩ (by simp) ?_ h.shared
      change Fits w.serving (w.soft.step _).phase
      rw [phase_input]
      exact h.fits

/-- What a step of the soft interrupt does to its phase. -/
theorem phase_soft (hallows : w.allowsSoft act) : (w.soft.step act).phase = w.soft.phase ∨
    (∃ rest, w.serving = .softirq rest) ∧
      ((w.soft.step act).phase = .waiting ∨ (w.soft.step act).phase.inLoop = true) := by
  cases act with
  | input thread entry known => exact .inl (phase_input w.soft thread entry known)
  | raise => exact .inl rfl
  | pop =>
      simp only [Softirq.step]
      split
      · exact .inr ⟨hallows, .inl rfl⟩
      · exact .inr ⟨hallows, .inr rfl⟩
  | dispatch =>
      simp only [Softirq.step]
      split
      · split
        · exact .inr ⟨hallows, .inr rfl⟩
        · exact .inr ⟨hallows, .inr rfl⟩
      · exact .inl rfl
  | handlerReturns => exact .inr ⟨hallows, .inr rfl⟩
  | register | takeSoft | takeOther | isrReturns | stop => exact hallows.elim

/-- The input queue goes on. -/
theorem Dispatches.soft_step (h : Dispatches n w) (hallows : w.allows (.soft act)) :
    Dispatches n (w.step (.soft act)) := by
  obtain ⟨hallows, hsoft⟩ := hallows
  have hregister : ∀ ty handler, act ≠ .register ty handler := by
    rintro ty handler rfl
    exact hsoft
  have hfits := h.fits
  have hgoes : ∀ serving, Fits serving (w.soft.step act).phase →
      serving.rest = w.serving.rest → Dispatches n { w.goes none act with serving := serving } :=
    fun serving hfits hrest ↦ h.goes none act hallows hregister hfits (hrest ▸ h.shared)
  simp only [step]
  split
  · next rest hserving =>
    rw [hserving] at hfits
    cases hfits with
    | softirq hloop =>
      split
      · next hwaiting =>
        refine hgoes _ ?_ (by rw [hserving]; rfl)
        change (w.soft.step act).phase = .waiting at hwaiting
        exact hwaiting ▸ .done
      · next hnot =>
        refine hgoes w.serving ?_ rfl
        rw [hserving]
        refine .softirq ?_
        rcases phase_soft hsoft with hsame | ⟨-, hwaiting | hloop⟩
        · rw [hsame]
          exact hloop
        · exact absurd hwaiting hnot
        · exact hloop
  · next hserving =>
    refine hgoes w.serving ?_ rfl
    rcases phase_soft hsoft with hsame | ⟨⟨rest, hrest⟩, -⟩
    · rw [hsame]
      exact h.fits
    · exact absurd hrest (hserving rest)

/-- **One step keeps the dispatcher in step.** -/
theorem Dispatches.step {act : Act} (h : Dispatches n w) (hallows : w.allows act) :
    Dispatches n (w.step act) := by
  have hsame : ∀ {taps pending}, Dispatches n { w with taps := taps, pending := pending } :=
    h.moves h.fits h.shared
  cases act with
  | raise sig =>
      simp only [Receive.step, raise]
      split
      · exact h
      · exact hsame
  | attach i | store i | close i =>
      simp only [Receive.step]
      split
      · exact hsame
      · exact h
  | arrive i frame =>
      simp only [Receive.step]
      split
      · simp only [raise]
        split
        · exact hsame
        · exact hsame
      · exact h
  | take sig => exact h.take hallows
  | call => exact h.call hallows
  | read => exact h.read hallows
  | fail =>
      obtain ⟨⟨i, rest, hserving⟩, -⟩ := hallows
      have hfits := h.fits
      have hshared := h.shared
      rw [hserving] at hfits hshared
      obtain ⟨hrest, hphase⟩ := hfits.reading_cases
      simp only [Receive.step, hserving]
      split
      · exact h.moves (hphase ▸ .between hrest) hshared
      · exact h
  | returns =>
      obtain ⟨⟨rest, hserving⟩, -⟩ := hallows
      have hfits := h.fits
      have hshared := h.shared
      rw [hserving] at hfits hshared
      obtain ⟨hrest, hphase⟩ := hfits.other_cases
      simp only [Receive.step, hserving]
      exact h.moves (hphase ▸ .between hrest) hshared
  | soft act => exact h.soft_step hallows
  | stop => exact h.goes none .stop hallows.2 (by simp) (hallows.1 ▸ .ended) h.shared

end

/-! ## The devices -/

/-- The routine of the device `i` is about to be called, or is reading. -/
def Coming (w : Receive) (i : Nat) : Prop :=
  tapIrq ∈ w.pending ∨ (∃ entry ∈ w.serving.rest, entry.isr = .tap i) ∨
    ∃ rest, w.serving = .reading i rest

/-- What a frame adds to the input queue. -/
def queued (dev : Device) (frame : List U8) : List InputEntry :=
  Net.arrive [] dev (.frame (frame.take etherFrameSizeMax))

/-- What holds of a device. -/
structure Reads (w : Receive) (i : Nat) (tap : Tap) : Prop where
  account : tap.arrived = tap.read ++ tap.rx
  log : w.fromTap i = tap.read.flatMap (queued tap.dev)
  live : tap.rx ≠ [] → tap.missed = false → w.Coming i

/-- What holds of all devices. -/
structure Watches (devs : List Device) (w : Receive) : Prop where
  devs : w.taps.map (·.dev) = devs
  reads : ∀ i tap, w.taps[i]? = some tap → w.Reads i tap

section

variable {devs : List Device} {n : Nat} {w w' : Receive} {i : Nat} {tap tap' : Tap} {sig : IrqNumber}
  {act : Net.Act Handler}

theorem Reads.keep (h : w.Reads i tap) (hlog : w'.fromTap i = w.fromTap i)
    (hcoming : w.Coming i → w'.Coming i) : w'.Reads i tap :=
  ⟨h.account, hlog.trans h.log, fun hrx hmissed ↦ hcoming (h.live hrx hmissed)⟩

theorem Watches.lt_length (h : Watches devs w) (htap : w.taps[i]? = some tap) :
    i < devs.length := by
  rw [← h.devs, List.length_map]
  exact (List.getElem?_eq_some_iff.mp htap).1

theorem set_self (htap : w.taps[i]? = some tap) : w.taps.set i tap = w.taps := by
  obtain ⟨hlt, rfl⟩ := List.getElem?_eq_some_iff.mp htap
  exact List.set_getElem_self hlt

/-- The devices are left alone. -/
theorem Watches.keep (h : Watches devs w) (htaps : w'.taps = w.taps)
    (hlog : ∀ i, w'.fromTap i = w.fromTap i)
    (hcoming : ∀ i, i < devs.length → w.Coming i → w'.Coming i) : Watches devs w' where
  devs := by
    rw [htaps]
    exact h.devs
  reads i tap htap := by
    rw [htaps] at htap
    exact (h.reads i tap htap).keep (hlog i) (hcoming i (h.lt_length htap))

/-- One device changes. -/
theorem Watches.change (h : Watches devs w) (htap : w.taps[i]? = some tap)
    (hdev : tap'.dev = tap.dev) (htaps : w'.taps = w.taps.set i tap')
    (hlog : ∀ j ≠ i, w'.fromTap j = w.fromTap j) (hcoming : ∀ j ≠ i, w.Coming j → w'.Coming j)
    (hreads : w'.Reads i tap') : Watches devs w' where
  devs := by
    rw [htaps, List.map_set, hdev, ← List.map_set, set_self htap]
    exact h.devs
  reads j tap₁ htap₁ := by
    rw [htaps, List.getElem?_set] at htap₁
    split at htap₁
    · next heq =>
      subst heq
      split at htap₁
      · cases htap₁
        exact hreads
      · exact absurd htap₁ (by simp)
    · next hne => exact (h.reads j tap₁ htap₁).keep (hlog j (Ne.symm hne)) (hcoming j (Ne.symm hne))

/-- The flags of a device change. -/
theorem Watches.flags (h : Watches devs w) (htap : w.taps[i]? = some tap)
    (hdev : tap'.dev = tap.dev) (hrx : tap'.rx = tap.rx) (hmissed : tap'.missed = tap.missed)
    (harrived : tap'.arrived = tap.arrived) (hread : tap'.read = tap.read) :
    Watches devs (w.setTap i tap') := by
  have hreads := h.reads i tap htap
  refine h.change htap hdev rfl (fun _ _ ↦ rfl) (fun _ _ hcoming ↦ hcoming) ⟨?_, ?_, ?_⟩
  · rw [harrived, hread, hrx]
    exact hreads.account
  · rw [hread, hdev]
    exact hreads.log
  · rw [hrx, hmissed]
    exact hreads.live

/-- The routine of a device leaves it to the next frame. -/
theorem Watches.miss (h : Watches devs w) {serving : Serving} (htap : w.taps[i]? = some tap)
    (hcoming : ∀ j ≠ i, w.Coming j →
      Coming { w.setTap i { tap with missed := true } with serving := serving } j) :
    Watches devs { w.setTap i { tap with missed := true } with serving := serving } := by
  have hreads := h.reads i tap htap
  refine h.change htap ?_ rfl (fun _ _ ↦ rfl) hcoming
    ⟨hreads.account, hreads.log, fun _ hmissed ↦ Bool.noConfusion hmissed⟩
  rfl

/-! ### The steps -/

theorem mem_raise (w : Receive) (sig : IrqNumber) : sig ∈ (w.raise sig).pending := by
  rw [raise]
  split
  · assumption
  · exact List.mem_cons_self

theorem Coming.raise (h : w.Coming i) (sig : IrqNumber) : (w.raise sig).Coming i := by
  rw [Receive.raise]
  split
  · exact h
  · exact h.imp_left (List.mem_cons_of_mem _)

theorem raise_same (w : Receive) (sig : IrqNumber) :
    (w.raise sig).taps = w.taps ∧ (w.raise sig).log = w.log := by
  rw [raise]
  split <;> exact ⟨rfl, rfl⟩

/-- A frame arrives. -/
theorem Watches.arrive (h : Watches devs w) {frame : List U8}
    (hallows : w.allows (.arrive i frame)) : Watches devs (w.step (.arrive i frame)) := by
  obtain ⟨-, tap, htap, -⟩ := hallows
  simp only [step, htap]
  have hlog : ∀ (w : Receive) j, (w.raise tapIrq).fromTap j = w.fromTap j := by
    intro w j
    rw [fromTap, (raise_same w tapIrq).2]
    rfl
  have hreads := h.reads i tap htap
  refine h.change htap ?_ (raise_same _ _).1 (fun j _ ↦ hlog _ j)
    (fun j _ hcoming ↦ @Coming.raise (w.setTap i _) j hcoming tapIrq)
    ⟨?_, (hlog _ i).trans hreads.log, fun _ _ ↦ .inl (mem_raise _ _)⟩
  · rfl
  · change tap.arrived ++ [frame] = tap.read ++ (tap.rx ++ [frame])
    rw [hreads.account, List.append_assoc]

/-- `sigwait` returns: the routine of each device is called if its signal is taken. -/
theorem Watches.take (h : Watches devs w) (hd : Dispatches devs.length w)
    (hallows : w.allows (.take sig)) : Watches devs (w.step (.take sig)) := by
  obtain ⟨hidle, -, -, -⟩ := hallows
  refine h.keep rfl (fun j ↦ ?_) ?_
  · refine (fromTap_goes w none _ j).trans ?_
    rw [if_neg (by simp), List.append_nil]
  · rintro j hj (hpending | ⟨entry, hentry, -⟩ | ⟨rest, hreading⟩)
    · by_cases hsig : sig = tapIrq
      · refine .inr (.inl ⟨tapEntry j, ?_, rfl⟩)
        change tapEntry j ∈ Intr.matching w.irqs sig
        rw [hd.irqs, hsig]
        exact List.mem_filter.mpr ⟨List.mem_append_right _
          (List.mem_map.mpr ⟨j, List.mem_range.mpr hj, rfl⟩), decide_eq_true rfl⟩
      · exact .inl ((List.mem_erase_of_ne (Ne.symm hsig)).mpr hpending)
    · rw [hidle] at hentry
      exact absurd hentry List.not_mem_nil
    · rw [hidle] at hreading
      exact absurd hreading (by simp)

/-- Where the loop of `intr_main` has come to an end, only the signal is left. -/
theorem Coming.of_end (h : w.Coming i) (hserving : w.serving = .between []) :
    tapIrq ∈ w.pending := by
  rcases h with hpending | ⟨entry, hentry, -⟩ | ⟨rest, hreading⟩
  · exact hpending
  · rw [hserving] at hentry
    exact absurd hentry List.not_mem_nil
  · exact absurd (hserving.symm.trans hreading) (by simp)

/-- The loop of `intr_main` goes past a routine. -/
theorem Coming.of_call (h : w.Coming i) {entry : IrqEntry Isr} {rest : List (IrqEntry Isr)}
    (hserving : w.serving = .between (entry :: rest)) (hpending : w'.pending = w.pending)
    (hrest : w'.serving.rest = rest) : entry.isr = .tap i ∨ w'.Coming i := by
  rcases h with hmem | ⟨e, he, hisr⟩ | ⟨rest, hreading⟩
  · exact .inr (.inl (hpending ▸ hmem))
  · rw [hserving] at he
    rcases List.mem_cons.mp he with rfl | he
    · exact .inl hisr
    · exact .inr (.inr (.inl ⟨e, hrest ▸ he, hisr⟩))
  · exact absurd (hserving.symm.trans hreading) (by simp)

/-- The loop of `intr_main` goes on. -/
theorem Watches.call (h : Watches devs w) (hd : Dispatches devs.length w)
    (hallows : w.allows .call) : Watches devs (w.step .call) := by
  have hshared := hd.shared
  obtain ⟨⟨rest, hserving⟩, -⟩ := hallows
  rw [hserving] at hshared
  change Watches devs w.call
  rw [Receive.call, hserving]
  cases rest with
  | nil =>
      dsimp only
      split
      · refine h.keep rfl (fun j ↦ ?_) fun j _ hj ↦ .inl (hj.of_end hserving)
        refine (fromTap_goes w none _ j).trans ?_
        rw [if_neg (by simp), List.append_nil]
      · exact h.keep rfl (fun _ ↦ rfl) fun j _ hj ↦ .inl (hj.of_end hserving)
  | cons entry rest =>
      have hpast : ∀ (serving : Serving) (taps : List Tap), serving.rest = rest →
          ∀ j, entry.isr ≠ .tap j → w.Coming j →
            Coming { w with serving := serving, taps := taps } j :=
        fun serving taps hrest j hne hj ↦
          (@Coming.of_call w { w with serving := serving, taps := taps } j hj entry rest hserving rfl
            hrest).resolve_left hne
      dsimp only
      rw [Intr.remaining_eq hshared]
      split
      · next hisr =>
        exact h.keep rfl (fun _ ↦ rfl) fun j _ ↦ hpast _ _ rfl j (by simp [hisr])
      · next hisr =>
        exact h.keep rfl (fun _ ↦ rfl) fun j _ ↦ hpast _ _ rfl j (by simp [hisr])
      · next hisr =>
        exact h.keep rfl (fun _ ↦ rfl) fun j _ ↦ hpast _ _ rfl j (by simp [hisr])
      · next i hisr =>
        have hother : ∀ j ≠ i, entry.isr ≠ .tap j := by
          rintro j hji heq
          exact hji (Isr.tap.inj (heq.symm.trans hisr))
        split
        · next hnone =>
          refine h.keep rfl (fun _ ↦ rfl) fun j hj ↦ hpast _ _ rfl j (hother j ?_)
          rintro rfl
          rw [← h.devs, List.length_map] at hj
          exact absurd (List.getElem?_eq_none_iff.mp hnone) (Nat.not_le.mpr hj)
        · next tap htap =>
          split
          · refine h.keep rfl (fun _ ↦ rfl) fun j _ hcoming ↦ ?_
            by_cases hji : j = i
            · subst hji
              exact .inr (.inr ⟨rest, rfl⟩)
            · exact hpast _ _ rfl j (hother j hji) hcoming
          · exact h.miss htap fun j hji ↦ hpast _ _ rfl j (hother j hji)

theorem pushes_eq (hd : Dispatches devs.length w) (ty : U16) (data : List U8) (dev : Device) :
    pushes w.soft.protocols (.input .dispatcher ⟨ty, data, dev⟩ true) =
      Net.inputHandler [] ty data dev := by
  rw [hd.protocols, pushes, Bool.and_true]
  rfl

/-- What the other devices wait for while one is read. -/
theorem Coming.of_reading {rest : List (IrqEntry Isr)} {j : Nat} (h : w.Coming j)
    (hserving : w.serving = .reading i rest) (hj : j ≠ i) (taps : List Tap) :
    Coming { w with serving := .between rest, taps := taps } j := by
  rcases h with hpending | ⟨entry, hentry, hisr⟩ | ⟨rest', hreading⟩
  · exact .inl hpending
  · rw [hserving] at hentry
    exact .inr (.inl ⟨entry, hentry, hisr⟩)
  · rw [hserving] at hreading
    cases hreading
    exact absurd rfl hj

/-- The routine of a device goes on. -/
theorem Watches.read (h : Watches devs w) (hd : Dispatches devs.length w)
    (hallows : w.allows .read) : Watches devs (w.step .read) := by
  obtain ⟨⟨i, rest, tap, hserving, htap, -⟩, -⟩ := hallows
  have hreads := h.reads i tap htap
  change Watches devs w.read
  unfold Receive.read
  simp only [hserving, htap]
  split
  · next hrx =>
    -- There is nothing left to read.
    refine h.change htap rfl (set_self htap).symm (fun _ _ ↦ rfl)
      (fun j hji hj ↦ hj.of_reading hserving hji _)
      ⟨hreads.account, hreads.log, fun hne ↦ absurd hrx hne⟩
  · next frame rx hrx =>
    have haccount : tap.arrived = (tap.read ++ [frame]) ++ rx := by
      rw [hreads.account, hrx, List.append_assoc]
      rfl
    have hcoming : w.Coming i := .inr (.inr ⟨rest, hserving⟩)
    cases hinput : EtherTap.input tap.dev (frame.take etherFrameSizeMax) with
    | none =>
        refine h.change htap ?_ rfl (fun _ _ ↦ rfl) (fun _ _ hj ↦ hj)
          ⟨haccount, ?_, fun _ _ ↦ hcoming⟩
        · rfl
        · change w.fromTap i = (tap.read ++ [frame]).flatMap (queued tap.dev)
          rw [hreads.log, List.flatMap_append, List.flatMap_singleton, queued, Net.arrive, hinput,
            List.append_nil]
    | some r =>
        obtain ⟨ty, data⟩ := r
        refine h.change htap ?_ rfl (fun j hj ↦ ?_) (fun _ _ hj ↦ hj)
          ⟨haccount, ?_, fun _ _ ↦ hcoming⟩
        · rfl
        · refine (fromTap_goes _ _ _ j).trans ?_
          rw [if_neg (by simpa using Ne.symm hj), List.append_nil]
          rfl
        · refine (fromTap_goes _ _ _ i).trans ?_
          rw [if_pos rfl]
          change w.fromTap i ++ pushes w.soft.protocols _ =
            (tap.read ++ [frame]).flatMap (queued tap.dev)
          rw [pushes_eq hd, hreads.log, List.flatMap_append, List.flatMap_singleton, queued,
            Net.arrive, hinput]

/-- **One step keeps the devices watched.** -/
theorem Watches.step (h : Watches devs w) (hd : Dispatches devs.length w) {act : Act}
    (hallows : w.allows act) : Watches devs (w.step act) := by
  cases act with
  | raise sig =>
      exact h.keep (raise_same w sig).1 (fun _ ↦ by rw [Receive.step, fromTap, (raise_same w sig).2]; rfl)
        fun j _ hj ↦ hj.raise sig
  | attach i | store i | close i =>
      simp only [Receive.step]
      split
      · next tap htap => exact h.flags htap rfl rfl rfl rfl rfl
      · exact h
  | arrive i frame => exact h.arrive hallows
  | take sig => exact h.take hd hallows
  | call => exact h.call hd hallows
  | read => exact h.read hd hallows
  | fail =>
      obtain ⟨⟨i, rest, hserving⟩, -⟩ := hallows
      simp only [Receive.step, hserving]
      split
      · next tap htap => exact h.miss htap fun j hji hj ↦ hj.of_reading hserving hji _
      · exact h
  | returns =>
      obtain ⟨⟨rest, hserving⟩, -⟩ := hallows
      simp only [Receive.step, hserving]
      refine h.keep rfl (fun _ ↦ rfl) fun j _ hj ↦ ?_
      rcases hj with hpending | ⟨entry, hentry, hisr⟩ | ⟨rest', hreading⟩
      · exact .inl hpending
      · rw [hserving] at hentry
        exact .inr (.inl ⟨entry, hentry, hisr⟩)
      · exact absurd (hserving.symm.trans hreading) (by simp)
  | soft act =>
      have hlog : ∀ j, (w.goes none act).fromTap j = w.fromTap j := by
        intro j
        rw [fromTap_goes, if_neg (by simp), List.append_nil]
      simp only [Receive.step]
      split
      · next rest hserving =>
        split
        · refine h.keep rfl hlog fun j _ hj ↦ ?_
          rcases hj with hpending | ⟨entry, hentry, hisr⟩ | ⟨rest', hreading⟩
          · exact .inl hpending
          · rw [hserving] at hentry
            exact .inr (.inl ⟨entry, hentry, hisr⟩)
          · exact absurd (hserving.symm.trans hreading) (by simp)
        · exact h.keep rfl hlog fun _ _ hj ↦ hj
      · exact h.keep rfl hlog fun _ _ hj ↦ hj
  | stop =>
      refine h.keep rfl (fun j ↦ ?_) fun _ _ hj ↦ hj
      refine (fromTap_goes w none _ j).trans ?_
      rw [if_neg (by simp), List.append_nil]

theorem Reachable.inv (h : Reachable devs w) : Dispatches devs.length w ∧ Watches devs w := by
  refine Machine.Reach.invariant (fun w ↦ Dispatches devs.length w ∧ Watches devs w) ?_ ?_ h
  · rintro _ ⟨irqs, hinit, rfl⟩
    cases (init_eq devs.length).symm.trans hinit
    have hempty : Softirq.Reachable ({} : Softirq Handler) := .start rfl
    have harp : Softirq.Reachable (Softirq.step {} (.register etherTypeArp Handler.arp)) :=
      @Machine.Reach.next _ _ _ _ _ (Net.Act.register etherTypeArp Handler.arp) _ hempty
        ⟨trivial, rfl⟩
    have hip : Softirq.Reachable ({ protocols := Net.protocols } : Softirq Handler) :=
      @Machine.Reach.next _ _ _ _ _ (Net.Act.register etherTypeIp Handler.ip) _ harp
        ⟨trivial, rfl⟩
    refine ⟨⟨rfl, hip, rfl, .idle, .nil, rfl⟩, ⟨?_, fun i tap htap ↦ ?_⟩⟩
    · rw [List.map_map]
      exact List.map_id _
    · rw [List.getElem?_map] at htap
      obtain ⟨dev, -, rfl⟩ := Option.map_eq_some_iff.mp htap
      exact ⟨rfl, rfl, fun hne ↦ absurd rfl hne⟩
  · rintro w act _ ⟨hd, hw⟩ ⟨hallows, rfl⟩
    exact ⟨hd.step hallows, hw.step hd hallows⟩

/-! ## What is handed on -/

/-- The packets of the device `i` that were handed on, with their handlers. -/
def handedFrom (w : Receive) (i : Nat) : List (Handler × InputEntry) :=
  ((w.log.map (·.1)).zip w.soft.handed).filterMap fun r ↦ if r.1 = some i then some r.2 else none

/-- What was handed on went to the handlers of its types. -/
theorem filterMap_handed (i : Nat) {handed : List (Handler × InputEntry)}
    {log : List (Option Nat × InputEntry)}
    (hhandlers : ∀ r ∈ handed, Softirq.handlerOf Net.protocols r.2.ty = some r.1)
    (hlog : log.map (·.2) = handed.map (·.2)) :
    ((log.map (·.1)).zip handed).filterMap (fun r ↦ if r.1 = some i then some r.2 else none) =
      Net.softirqHandler (log.filterMap fun r ↦ if r.1 = some i then some r.2 else none) := by
  induction handed generalizing log with
  | nil =>
      obtain rfl : log = [] := List.map_eq_nil_iff.mp hlog
      rfl
  | cons r handed ih =>
      cases log with
      | nil => exact absurd hlog (by simp)
      | cons l log =>
          obtain ⟨src, entry⟩ := l
          rw [List.map_cons, List.map_cons, List.cons.injEq] at hlog
          obtain ⟨rfl, hlog⟩ := hlog
          have hih := ih (fun r hr ↦ hhandlers r (.tail _ hr)) hlog
          rw [List.map_cons, List.zip_cons_cons, List.filterMap_cons, List.filterMap_cons]
          by_cases hsrc : src = some i
          · simp only [hsrc, if_true]
            obtain ⟨p, hp, hhandler⟩ := Option.map_eq_some_iff.mp (hhandlers r (.head _))
            simp only [Net.softirqHandler, hp, hhandler]
            rw [hih]
          · simp only [hsrc, if_false]
            exact hih

/-- What was handed on of a device comes first in what was queued for it, and is all of that when
nothing is left in the queue. -/
theorem Dispatches.handed (h : Dispatches n w) (i : Nat) : ∃ first rest,
    w.fromTap i = first ++ rest ∧ w.handedFrom i = Net.softirqHandler first ∧
      (w.soft.phase.inHand ++ w.soft.queue = [] → rest = []) := by
  have hsoft := h.soft.inv
  have horder : w.log.map (·.2) = _ := h.log.trans hsoft.order
  obtain ⟨first, rest, hlog, hfirst, hrest⟩ := List.map_eq_append_iff.mp horder
  have hhandlers := hsoft.handlers
  rw [h.protocols] at hhandlers
  refine ⟨_, _, by rw [fromTap, hlog, List.filterMap_append], ?_, fun hnone ↦ ?_⟩
  · have hlen : (first.map (·.1)).length = w.soft.handed.length := by
      rw [List.length_map, ← List.length_map (·.2), hfirst, List.length_map]
    rw [handedFrom, hlog, List.map_append, ← List.append_nil w.soft.handed,
      List.zip_append hlen, List.zip_nil_right, List.append_nil]
    exact filterMap_handed i hhandlers hfirst
  · rw [hnone, List.map_eq_nil_iff] at hrest
    rw [hrest]
    rfl

/-! ## Runs that are evaluated -/

instance (serving : Serving) : Decidable (∃ rest, serving = .between rest) :=
  match serving with
  | .between rest => .isTrue ⟨rest, rfl⟩
  | .idle | .softirq _ | .reading _ _ | .other _ => .isFalse fun ⟨_, h⟩ ↦ nomatch h

instance (serving : Serving) : Decidable (∃ rest, serving = .softirq rest) :=
  match serving with
  | .softirq rest => .isTrue ⟨rest, rfl⟩
  | .idle | .between _ | .reading _ _ | .other _ => .isFalse fun ⟨_, h⟩ ↦ nomatch h

instance (serving : Serving) : Decidable (∃ rest, serving = .other rest) :=
  match serving with
  | .other rest => .isTrue ⟨rest, rfl⟩
  | .idle | .between _ | .softirq _ | .reading _ _ => .isFalse fun ⟨_, h⟩ ↦ nomatch h

instance (serving : Serving) : Decidable (∃ i rest, serving = .reading i rest) :=
  match serving with
  | .reading i rest => .isTrue ⟨i, rest, rfl⟩
  | .idle | .between _ | .softirq _ | .other _ => .isFalse fun ⟨_, _, h⟩ ↦ nomatch h

instance (slot : Option Tap) (P : Tap → Prop) [DecidablePred P] :
    Decidable (∃ tap, slot = some tap ∧ P tap) :=
  decidable_of_iff (slot.any fun tap ↦ decide (P tap)) (by
    rw [Option.any_eq_true]
    simp only [decide_eq_true_eq])

instance (serving : Serving) (taps : List Tap) : Decidable (∃ i rest tap,
    serving = .reading i rest ∧ taps[i]? = some tap ∧ tap.link = .up) :=
  match serving with
  | .reading i rest => decidable_of_iff (∃ tap, taps[i]? = some tap ∧ tap.link = .up)
      ⟨fun ⟨tap, h⟩ ↦ ⟨i, rest, tap, rfl, h⟩, fun ⟨_, _, tap, h, h'⟩ ↦ by cases h; exact ⟨tap, h'⟩⟩
  | .idle | .between _ | .softirq _ | .other _ => .isFalse fun ⟨_, _, _, h, _⟩ ↦ nomatch h

instance (w : Receive) (act : Net.Act Handler) : Decidable (w.allowsSoft act) :=
  match act with
  | .input .dispatcher _ _ => inferInstanceAs (Decidable (_ ∨ _))
  | .input (.other _) _ _ | .raise _ => .isTrue trivial
  | .pop | .dispatch | .handlerReturns => inferInstanceAs (Decidable (∃ _, _ = _))
  | .register _ _ | .takeSoft | .takeOther | .isrReturns | .stop => .isFalse id

instance (w : Receive) (sig : IrqNumber) : Decidable (w.isPending sig) :=
  inferInstanceAs (Decidable (if sig = softIrq then w.soft.pending = true else sig ∈ w.pending))

instance (w : Receive) (act : Act) : Decidable (w.allows act) :=
  match act with
  | .raise sig => inferInstanceAs (Decidable (sig ≠ softIrq))
  | .attach i => inferInstanceAs (Decidable (∃ tap, w.taps[i]? = some tap ∧ tap.link = .down))
  | .store i => inferInstanceAs (Decidable (∃ tap, w.taps[i]? = some tap ∧
      tap.link = .up ∧ tap.stored = false))
  | .close i => inferInstanceAs (Decidable (∃ tap, w.taps[i]? = some tap ∧ tap.stored = true))
  | .arrive i frame => inferInstanceAs (Decidable (frame ≠ [] ∧ ∃ tap, w.taps[i]? = some tap ∧ _))
  | .take sig => inferInstanceAs (Decidable (_ ∧ _ ∧ w.isPending sig ∧ _))
  | .call | .read | .fail | .returns | .stop => inferInstanceAs (Decidable (_ ∧ _))
  | .soft act => inferInstanceAs (Decidable (w.soft.allows act ∧ w.allowsSoft act))

/-- A fixed run that may be made ends in a reachable state. -/
theorem exists_reachable (devs : List Device) (P : Receive → Bool) (acts : List Act)
    (h : Machine.execTest (fun (w : Receive) act ↦
      if w.allows act then (.ok (w.step act) : Checked Receive) else .error .unwrap) P
        { irqs := table devs.length, taps := devs.map fun dev ↦ { dev := dev } } acts = true) :
    ∃ w, Reachable devs w ∧ P w = true := by
  refine Machine.exists_reach_of_execTest ?_ ⟨_, init_eq devs.length, rfl⟩ h
  intro w act w' hstep
  split at hstep
  · next hallows =>
    cases hstep
    exact ⟨hallows, rfl⟩
  · exact absurd hstep (by simp)

/-! ## From the wire to the handlers -/

end

end Receive

end Microps.Platform
