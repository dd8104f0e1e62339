import Microps.Lib.Machine
import Microps.Net

/-!
# The soft interrupt

`net::input_handler` queues a packet and raises a signal; the thread of
`platform/linux/intr.rs` waits for signals and runs `net::softirq_handler`, which calls the
protocol handlers until the queue is empty.  A signal that is raised twice before it is
taken is taken once.  Handlers and other interrupt routines may call `input_handler`
themselves, through the loopback driver or the TAP driver, and so may any other thread.
-/

namespace Microps.Net

variable {η : Type}

/-- The threads: the one of `intr_main`, and any other. -/
inductive Thread where
  | dispatcher
  | other (i : Nat)
deriving DecidableEq, Repr

/-- Where the dispatcher is. -/
inductive Phase where
  /-- In `sigwait`. -/
  | waiting
  /-- In the routine of another interrupt. -/
  | isr
  /-- In the loop of `softirq_handler`, before it looks at the queue. -/
  | loop
  /-- It has taken a packet from the queue. -/
  | popped (entry : InputEntry)
  /-- In the handler of a packet. -/
  | handling (entry : InputEntry)
  /-- `intr_main` has returned. -/
  | ended
deriving DecidableEq, Repr

/-- The dispatcher is inside the loop of `softirq_handler`. -/
def Phase.inLoop : Phase → Bool
  | .loop | .popped _ | .handling _ => true
  | _ => false

/-- What the dispatcher has taken from the queue and not yet handed on. -/
def Phase.inHand : Phase → List InputEntry
  | .popped entry => [entry]
  | _ => []

/-- The dispatcher runs code that may call `input_handler`. -/
def Phase.calls : Phase → Bool
  | .isr | .handling _ => true
  | _ => false

/-- The queue, the signal and the threads. -/
structure Softirq (η : Type) where
  /-- `PROTOCOLS`. -/
  protocols : List (U16 × η) := []
  /-- `INPUT_QUEUE`. -/
  queue : List InputEntry := []
  /-- The soft interrupt is pending. -/
  pending : Bool := false
  phase : Phase := .waiting
  /-- The threads that are in `input_handler` between its push and its raise. -/
  inside : List Thread := []
  /-- What was queued, in order. -/
  pushed : List InputEntry := []
  /-- What was handed to which handler, in order. -/
  handed : List (η × InputEntry) := []
deriving DecidableEq, Repr

/-- What may happen next. -/
inductive Act (η : Type) where
  /-- Some thread calls `register_protocol`. -/
  | register (ty : U16) (handler : η)
  /-- A thread calls `input_handler`, up to the raise; `known` says whether the device is
  registered. -/
  | input (thread : Thread) (entry : InputEntry) (known : Bool)
  /-- A thread raises the soft interrupt and returns from `input_handler`. -/
  | raise (thread : Thread)
  /-- `sigwait` returns with the soft interrupt. -/
  | takeSoft
  /-- `sigwait` returns with another one. -/
  | takeOther
  /-- The routine of another interrupt returns. -/
  | isrReturns
  /-- `sigwait` fails, or returns with `SIGHUP`. -/
  | stop
  /-- `softirq_handler` takes a packet from the queue, or returns. -/
  | pop
  /-- `softirq_handler` calls the handler of the packet, if there is one. -/
  | dispatch
  /-- The handler returns. -/
  | handlerReturns
deriving DecidableEq, Repr

namespace Softirq

/-- `register_protocol`. -/
def registerProtocol (protocols : List (U16 × η)) (ty : U16) (handler : η) : List (U16 × η) :=
  if protocols.any fun p ↦ p.1 = ty then protocols else protocols ++ [(ty, handler)]

/-- One step. -/
def step (s : Softirq η) : Act η → Softirq η
  | .register ty handler => { s with protocols := registerProtocol s.protocols ty handler }
  | .input thread entry known =>
      if (s.protocols.any fun p ↦ p.1 = entry.ty) && known then
        { s with
          queue := s.queue ++ [entry], inside := thread :: s.inside
          pushed := s.pushed ++ [entry] }
      else s
  | .raise thread => { s with pending := true, inside := s.inside.erase thread }
  | .takeSoft => { s with pending := false, phase := .loop }
  | .takeOther => { s with phase := .isr }
  | .isrReturns => { s with phase := .waiting }
  | .stop => { s with phase := .ended }
  | .pop => match s.queue with
    | [] => { s with phase := .waiting }
    | entry :: queue => { s with phase := .popped entry, queue := queue }
  | .dispatch => match s.phase with
    | .popped entry => match s.protocols.find? fun p ↦ p.1 = entry.ty with
      | some p => { s with phase := .handling entry, handed := s.handed ++ [(p.2, entry)] }
      | none => { s with phase := .loop }
    | _ => s
  | .handlerReturns => { s with phase := .loop }

/-- The steps that may be made.  A thread is in one call of `input_handler` at a time, and
the dispatcher does nothing else while it is. -/
def allows (s : Softirq η) : Act η → Prop
  | .register _ _ => True
  | .input thread _ _ =>
      thread ∉ s.inside ∧ (thread = .dispatcher → s.phase.calls = true)
  | .raise thread => thread ∈ s.inside
  | .takeSoft => s.phase = .waiting ∧ s.pending = true
  | .takeOther | .stop => s.phase = .waiting
  | .isrReturns => s.phase = .isr ∧ .dispatcher ∉ s.inside
  | .pop => s.phase = .loop
  | .dispatch => ∃ entry, s.phase = .popped entry
  | .handlerReturns => (∃ entry, s.phase = .handling entry) ∧ .dispatcher ∉ s.inside

/-- The states that are reached from an empty queue. -/
def Reachable : Softirq η → Prop :=
  Machine.Reach (· = {}) fun s act s' ↦ s.allows act ∧ s.step act = s'

/-- A type has a handler. -/
def Registered (protocols : List (U16 × η)) (ty : U16) : Prop := ∃ p ∈ protocols, p.1 = ty

theorem Registered.register {protocols : List (U16 × η)} {ty : U16}
    (h : Registered protocols ty) (ty' : U16) (handler : η) :
    Registered (registerProtocol protocols ty' handler) ty := by
  obtain ⟨p, hp, hty⟩ := h
  unfold registerProtocol
  split
  · exact ⟨p, hp, hty⟩
  · exact ⟨p, List.mem_append_left _ hp, hty⟩

theorem Registered.exists_find {protocols : List (U16 × η)} {ty : U16}
    (h : Registered protocols ty) : ∃ q, (protocols.find? fun p ↦ p.1 = ty) = some q := by
  obtain ⟨p, hp, hty⟩ := h
  rw [← Option.isSome_iff_exists, List.find?_isSome]
  exact ⟨p, hp, by simpa using hty⟩

/-- The handler that `softirq_handler` finds for a type. -/
def handlerOf (protocols : List (U16 × η)) (ty : U16) : Option η :=
  (protocols.find? fun p ↦ p.1 = ty).map (·.2)

/-- The first handler for a type stays the one that is found. -/
theorem handlerOf_register {protocols : List (U16 × η)} {ty : U16} {handler : η}
    (h : handlerOf protocols ty = some handler) (ty' : U16) (handler' : η) :
    handlerOf (registerProtocol protocols ty' handler') ty = some handler := by
  obtain ⟨p, hp, rfl⟩ := Option.map_eq_some_iff.mp h
  unfold registerProtocol handlerOf
  split
  · rw [hp]
    rfl
  · rw [List.find?_append, hp]
    rfl

/-- What holds of the queue. -/
structure Inv (s : Softirq η) : Prop where
  /-- A packet in the queue is on its way to the loop. -/
  live : s.queue ≠ [] → s.pending = true ∨ s.phase.inLoop = true ∨ s.inside ≠ []
  /-- What was queued was handed on, or will be next. -/
  order : s.pushed = s.handed.map (·.2) ++ (s.phase.inHand ++ s.queue)
  types : ∀ entry ∈ s.phase.inHand ++ s.queue, Registered s.protocols entry.ty
  handlers : ∀ r ∈ s.handed, handlerOf s.protocols r.2.ty = some r.1

namespace Inv

variable {s : Softirq η}

theorem init : Inv ({} : Softirq η) where
  live h := absurd rfl h
  order := rfl
  types _ h := absurd h List.not_mem_nil
  handlers _ h := absurd h List.not_mem_nil

/-- The dispatcher moves on with nothing in hand, before and after. -/
theorem of_phase (h : Inv s) {phase : Phase} {pending : Bool} (hbefore : s.phase.inHand = [])
    (hafter : phase.inHand = [])
    (hlive : s.queue ≠ [] → pending = true ∨ phase.inLoop = true ∨ s.inside ≠ []) :
    Inv { s with phase := phase, pending := pending } where
  live := hlive
  order := by
    rw [hafter, ← hbefore]
    exact h.order
  types := by
    rw [hafter, ← hbefore]
    exact h.types
  handlers := h.handlers

theorem register (h : Inv s) (ty : U16) (handler : η) : Inv (s.step (.register ty handler)) where
  live := h.live
  order := h.order
  types entry he := (h.types entry he).register ty handler
  handlers r hr := handlerOf_register (h.handlers r hr) ty handler

theorem input (h : Inv s) (thread : Thread) (entry : InputEntry) (known : Bool) :
    Inv (s.step (.input thread entry known)) := by
  simp only [step]
  split
  · next hknown =>
    rw [Bool.and_eq_true, List.any_eq_true] at hknown
    obtain ⟨⟨p, hp, hty⟩, -⟩ := hknown
    refine ⟨fun _ ↦ .inr (.inr (List.cons_ne_nil _ _)), ?_, fun e he ↦ ?_, h.handlers⟩
    · simp only
      rw [h.order, List.append_assoc, List.append_assoc]
    · rw [← List.append_assoc] at he
      rcases List.mem_append.mp he with he | he
      · exact h.types e he
      · rw [List.mem_singleton.mp he]
        exact ⟨p, hp, by simpa using hty⟩
  · exact h

theorem raise (h : Inv s) (thread : Thread) : Inv (s.step (.raise thread)) where
  live _ := .inl rfl
  order := h.order
  types := h.types
  handlers := h.handlers

/-- The loop takes the packet at the front, or finds the queue empty and ends. -/
theorem pop (h : Inv s) (hphase : s.phase = .loop) : Inv (s.step .pop) := by
  have horder := h.order
  have htypes := h.types
  simp only [hphase, Phase.inHand, List.nil_append] at horder htypes
  simp only [step]
  split
  · next hqueue =>
    refine ⟨fun hne ↦ absurd hqueue hne, ?_, ?_, h.handlers⟩
    · exact horder
    · exact htypes
  · next entry queue hqueue =>
    rw [hqueue] at horder htypes
    exact ⟨fun _ ↦ .inr (.inl rfl), horder, htypes, h.handlers⟩

/-- The packet in hand has a handler, since handlers are never removed. -/
theorem dispatch (h : Inv s) {entry : InputEntry} (hphase : s.phase = .popped entry) :
    Inv (s.step .dispatch) := by
  have horder := h.order
  have htypes := h.types
  simp only [hphase, Phase.inHand] at horder htypes
  obtain ⟨q, hq⟩ := (htypes entry (by simp)).exists_find
  simp only [step, hphase, hq]
  refine ⟨fun _ ↦ .inr (.inl rfl), ?_, fun e he ↦ htypes e ?_, fun r hr ↦ ?_⟩
  · simp only [List.map_append, List.map_singleton]
    rw [horder, List.append_assoc]
    rfl
  · exact List.mem_append_right _ he
  · rcases List.mem_append.mp hr with hr | hr
    · exact h.handlers r hr
    · rw [List.mem_singleton.mp hr]
      exact Option.map_eq_some_iff.mpr ⟨q, hq, rfl⟩

/-- **One step keeps the invariant.** -/
theorem step {act : Act η} (h : Inv s) (hallows : s.allows act) : Inv (s.step act) := by
  cases act with
  | register ty handler => exact h.register ty handler
  | input thread entry known => exact h.input thread entry known
  | raise thread => exact h.raise thread
  | takeSoft =>
      exact h.of_phase (by rw [hallows.1]; rfl) rfl fun _ ↦ .inr (.inl rfl)
  | takeOther | stop =>
      have hphase : s.phase = .waiting := hallows
      refine h.of_phase (by rw [hphase]; rfl) rfl fun hne ↦ ?_
      have hlive := h.live hne
      rw [hphase] at hlive
      exact hlive
  | isrReturns =>
      have hphase : s.phase = .isr := hallows.1
      refine h.of_phase (by rw [hphase]; rfl) rfl fun hne ↦ ?_
      have hlive := h.live hne
      rw [hphase] at hlive
      exact hlive
  | pop => exact h.pop hallows
  | dispatch =>
      obtain ⟨entry, hphase⟩ := hallows
      exact h.dispatch hphase
  | handlerReturns =>
      obtain ⟨⟨entry, hphase⟩, -⟩ := hallows
      exact h.of_phase (by rw [hphase]; rfl) rfl fun _ ↦ .inr (.inl rfl)

end Inv

theorem Reachable.inv {s : Softirq η} (h : Reachable s) : Inv s := by
  refine Machine.Reach.invariant Inv ?_ ?_ h
  · rintro _ rfl
    exact .init
  · rintro s act _ ih ⟨hallows, rfl⟩
    exact ih.step hallows

/-- **No packet is stranded**: a packet in the queue has the soft interrupt pending, the
dispatcher in the loop, or a caller about to raise it; and what was queued is what was
handed to the handlers, in order, followed by what the dispatcher holds and by the queue. -/
theorem never_stranded {s : Softirq η} (h : Reachable s) :
    (s.queue ≠ [] → s.pending = true ∨ s.phase.inLoop = true ∨ s.inside ≠ []) ∧
    s.pushed = s.handed.map (·.2) ++ (s.phase.inHand ++ s.queue) ∧
    (∀ r ∈ s.handed, handlerOf s.protocols r.2.ty = some r.1) ∧
    ∀ entry, s.phase = .popped entry → ∃ handler, handlerOf s.protocols entry.ty = some handler ∧
      (s.step .dispatch).handed = s.handed ++ [(handler, entry)] := by
  have hinv := h.inv
  refine ⟨hinv.live, hinv.order, hinv.handlers, fun entry hphase ↦ ?_⟩
  obtain ⟨q, hq⟩ := (hinv.types entry (by simp [hphase, Phase.inHand])).exists_find
  refine ⟨q.2, Option.map_eq_some_iff.mpr ⟨q, hq, rfl⟩, ?_⟩
  simp only [step, hphase, hq]

/-- A packet on the loopback device. -/
def loopbackEntry : InputEntry :=
  { ty := etherTypeIp, data := [0x45]
    dev := { up := true, mtu := 65535, addr := ⟨0, 0, 0, 0, 0, 0⟩, broadcast := ⟨0, 0, 0, 0, 0, 0⟩,
             iface := none,
             ops := .loopback } }

instance (phase : Phase) : Decidable (∃ entry, phase = .popped entry) :=
  match phase with
  | .popped entry => .isTrue ⟨entry, rfl⟩
  | .waiting | .isr | .loop | .handling _ | .ended => .isFalse fun ⟨_, h⟩ ↦ nomatch h

instance (phase : Phase) : Decidable (∃ entry, phase = .handling entry) :=
  match phase with
  | .handling entry => .isTrue ⟨entry, rfl⟩
  | .waiting | .isr | .loop | .popped _ | .ended => .isFalse fun ⟨_, h⟩ ↦ nomatch h

instance (s : Softirq η) (act : Act η) : Decidable (s.allows act) :=
  match act with
  | .register _ _ => inferInstanceAs (Decidable True)
  | .input thread _ _ =>
      inferInstanceAs (Decidable (thread ∉ s.inside ∧
        (thread = .dispatcher → s.phase.calls = true)))
  | .raise thread => inferInstanceAs (Decidable (thread ∈ s.inside))
  | .takeSoft => inferInstanceAs (Decidable (s.phase = .waiting ∧ s.pending = true))
  | .takeOther | .stop => inferInstanceAs (Decidable (s.phase = .waiting))
  | .isrReturns => inferInstanceAs (Decidable (s.phase = .isr ∧ .dispatcher ∉ s.inside))
  | .pop => inferInstanceAs (Decidable (s.phase = .loop))
  | .dispatch => inferInstanceAs (Decidable (∃ entry, s.phase = .popped entry))
  | .handlerReturns =>
      inferInstanceAs (Decidable ((∃ entry, s.phase = .handling entry) ∧ .dispatcher ∉ s.inside))

/-- A fixed run that may be made ends in a reachable state. -/
theorem exists_reachable (P : Softirq η → Bool) (acts : List (Act η))
    (h : Machine.execTest (fun (s : Softirq η) act ↦
      if s.allows act then (.ok (s.step act) : Checked (Softirq η)) else .error .unwrap) P {} acts =
        true) :
    ∃ s, Reachable s ∧ P s = true := by
  refine Machine.exists_reach_of_execTest ?_ rfl h
  intro s act s' hstep
  split at hstep
  · next hallows =>
    cases hstep
    exact ⟨hallows, rfl⟩
  · exact absurd hstep (by simp)

/-- The handler of a packet sends one over the loopback device, and the interrupt that is
raised for it is still pending when the loop goes on. -/
theorem never_stranded_loopback : ∃ s : Softirq Handler, Reachable s ∧ s.queue = [loopbackEntry] ∧
    s.handed = [(.ip, loopbackEntry)] ∧
    (s.pending = true ∨ s.phase.inLoop = true ∨ s.inside ≠ []) := by
  obtain ⟨s, hs, htest⟩ := exists_reachable
    (fun s : Softirq Handler ↦ s.queue = [loopbackEntry] && s.handed = [(.ip, loopbackEntry)])
    [.register etherTypeIp .ip, .input (.other 0) loopbackEntry true, .raise (.other 0), .takeSoft,
      .pop, .dispatch, .input .dispatcher loopbackEntry true, .raise .dispatcher, .handlerReturns]
    (by decide)
  simp only [Bool.and_eq_true, decide_eq_true_eq] at htest
  refine ⟨s, hs, htest.1, htest.2, (never_stranded hs).1 ?_⟩
  rw [htest.1]
  exact List.cons_ne_nil _ _

end Softirq

end Microps.Net
