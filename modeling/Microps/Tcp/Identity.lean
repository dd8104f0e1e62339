import Microps.Tcp.Output
import Microps.Tcp.Reach

/-!
# The identity of a block

Slots are reused, so a descriptor does not say which block is meant.  A task does:
no two blocks ever share one, and a block keeps its task, its mode and where it came
from until it is released.
-/

namespace Microps.Tcp

/-! ## What a block keeps -/

/-- What a block keeps from its allocation to its release. -/
structure SameBlock (p p' : TcpPcb) : Prop where
  task : p'.task = p.task
  mode : p'.mode = p.mode
  parent : p'.parentDesc = p.parentDesc
  creator : p'.hist.creator = p.hist.creator

section

variable {env : Env} {tcp : Tcp} {d : TcpDesc} {ev : Event} {p p' : TcpPcb}

theorem BlockStep.same {es : List Effect} {reply : Reply}
    (h : BlockStep env tcp d ev p es reply p') :
    SameBlock p p' ∧ p'.backlog = p.backlog ∧ p'.hist.accepted = p.hist.accepted := by
  cases h with
  | mss m | bind l _ | listen n _ | connectFails _ | interrupted | take len n wnd _ _ _ _ =>
      exact ⟨⟨rfl, rfl, rfl, rfl⟩, rfl, rfl⟩
  | syn l r _ _ | synFails l r _ _ =>
      rw [sendSyn_eq]
      exact ⟨⟨rfl, rfl, rfl, rfl⟩, rfl, rfl⟩
  | passive s _ _ _ _ _ _ =>
      rw [passiveOpen_eq]
      exact ⟨⟨rfl, rfl, rfl, rfl⟩, rfl, rfl⟩
  | synSent s acceptable _ _ _ _ _ =>
      obtain ⟨q, hq, hcases⟩ := synInSynSent_cases env p s.info acceptable
      obtain ⟨snd, queue, heq, -⟩ := takeSyn_eq p s.info acceptable
      subst hq
      rcases hcases with ⟨-, hcase⟩ | ⟨-, hcase⟩
      · rw [hcase, heq]
        exact ⟨⟨rfl, rfl, rfl, rfl⟩, rfl, rfl⟩
      · rw [hcase, heq]
        exact ⟨⟨rfl, rfl, rfl, rfl⟩, rfl, rfl⟩
  | fin state _ =>
      rw [sendFin_eq]
      exact ⟨⟨rfl, rfl, rfl, rfl⟩, rfl, rfl⟩
  | data data sent n _ _ _ _ =>
      rw [sendData_eq]
      exact ⟨⟨rfl, rfl, rfl, rfl⟩, rfl, rfl⟩

/-- SYN_RECEIVED is entered from LISTEN and from SYN_SENT, and the latter two by a
call on the block that goes ahead. -/
theorem BlockStep.state {es : List Effect} {reply : Reply}
    (h : BlockStep env tcp d ev p es reply p') :
    (p'.state = .synReceived → p.state = .synReceived ∨ p.state = .listen ∨ p.state = .synSent) ∧
      (p'.state = .listen → p.state = .listen ∨ reopens env tcp d p ev = true) ∧
      (p'.state = .synSent → p.state = .synSent ∨ reopens env tcp d p ev = true) := by
  cases h with
  | mss m | bind l _ | take len n wnd _ _ _ _ => exact ⟨.inl, .inl, .inl⟩
  | listen n hstate hport =>
      exact ⟨by simp, fun _ ↦ .inr (decide_eq_true ⟨rfl, hstate, hport⟩), by simp⟩
  | connectFails _ | interrupted => exact ⟨by simp, by simp, by simp⟩
  | syn l r hlocal houtput =>
      refine ⟨by simp [Tcp.synSent], by simp [Tcp.synSent], fun _ ↦ .inr ?_⟩
      obtain ⟨hchoose, hfree⟩ := hlocal
      simpa [reopens, hchoose, houtput] using hfree
  | synFails l r _ _ => exact ⟨by simp, by simp, by simp⟩
  | passive s _ hstate _ _ _ _ =>
      rw [passiveOpen_eq]
      exact ⟨fun _ ↦ .inr (.inl hstate), by simp, by simp⟩
  | synSent s acceptable _ hstate _ _ _ =>
      obtain ⟨q, -, hcases⟩ := synInSynSent_cases env p s.info acceptable
      refine ⟨fun _ ↦ .inr (.inr hstate), ?_, ?_⟩
      · rcases hcases with ⟨-, hcase⟩ | ⟨-, hcase⟩ <;> simp [hcase]
      · rcases hcases with ⟨-, hcase⟩ | ⟨-, hcase⟩ <;> simp [hcase]
  | fin state hstate =>
      rw [sendFin_eq]
      rcases hstate with ⟨-, rfl⟩ | ⟨-, rfl⟩ <;> exact ⟨by simp, by simp, by simp⟩
  | data data sent n _ _ _ _ =>
      rw [sendData_eq]
      exact ⟨.inl, .inl, .inl⟩

theorem Arrived.same {s : TcpSegment} (h : Arrived p s p') :
    SameBlock p p' ∧ p'.hist.accepted = p.hist.accepted := by
  obtain ⟨snd, queue, tw, backlog, -, hcases⟩ := h.eq
  rcases hcases with ⟨-, -, rfl⟩ | ⟨-, -, -, rfl⟩ | ⟨-, -, rfl⟩ | ⟨-, -, -, rfl⟩ <;>
    exact ⟨⟨rfl, rfl, rfl, rfl⟩, rfl⟩

/-- A segment past SYN_SENT leads to none of the early states. -/
theorem Arrived.state {s : TcpSegment} (h : Arrived p s p')
    (hstate : p.state ≠ .closed ∧ p.state ≠ .listen ∧ p.state ≠ .synSent) :
    p'.state ≠ .closed ∧ p'.state ≠ .listen ∧ p'.state ≠ .synSent ∧ p'.state ≠ .synReceived := by
  have hafter := h.after
  generalize (s.ack = p.snd.nxt : Bool) = all at hafter
  have hack : p.state.afterAck all ≠ .closed ∧ p.state.afterAck all ≠ .listen ∧
      p.state.afterAck all ≠ .synSent ∧ p.state.afterAck all ≠ .synReceived := by
    cases hs : p.state <;> cases all <;> simp_all [TcpState.afterAck]
  have hfin : (p.state.afterAck all).afterFin all ≠ .closed ∧
      (p.state.afterAck all).afterFin all ≠ .listen ∧
      (p.state.afterAck all).afterFin all ≠ .synSent ∧
      (p.state.afterAck all).afterFin all ≠ .synReceived := by
    cases hs : p.state <;> cases all <;> simp_all [TcpState.afterAck, TcpState.afterFin]
  rcases hafter with heq | ⟨-, heq⟩
  · rw [heq]
    exact hack
  · rw [heq]
    exact hfin

/-- The text and FIN steps leave the backlog alone. -/
theorem textAndFin_backlog {q : TcpPcb} {seg : SegInfo} {flags : U8} {data : List U8}
    {es : List Effect} (hstate : q.state ≠ .closed ∧ q.state ≠ .listen)
    (h : textAndFin env q seg flags data = .ok (p', es)) : p'.backlog = q.backlog := by
  rcases textAndFin_cases hstate h with ⟨-, -, rfl, -⟩ | ⟨-, -, -, rfl, -⟩ | ⟨-, -, tw, rfl, -⟩ |
    ⟨-, -, -, tw, rfl, -⟩ <;> rfl

theorem retransEmit_same (env : Env) (p : TcpPcb) :
    SameBlock p (retransEmit env p).1 ∧ (retransEmit env p).1.backlog = p.backlog ∧
      (retransEmit env p).1.hist.accepted = p.hist.accepted ∧
      ((retransEmit env p).1.state = p.state ∨ (retransEmit env p).1.state = .closed) := by
  rcases retransEmit_cases env p with heq | ⟨f, -, heq⟩
  · rw [heq]
    exact ⟨⟨rfl, rfl, rfl, rfl⟩, rfl, rfl, .inr rfl⟩
  · rw [heq]
    exact ⟨⟨rfl, rfl, rfl, rfl⟩, rfl, rfl, .inl rfl⟩

theorem Evolve.same {reply : Reply} (h : Evolve env tcp d reply ev p p') :
    SameBlock p p' ∧ (p.hist.accepted = true → p'.hist.accepted = true) := by
  cases h with
  | keep backlog mss accepted haccepted => exact ⟨⟨rfl, rfl, rfl, rfl⟩, haccepted⟩
  | block hblock => exact ⟨hblock.same.1, fun h ↦ hblock.same.2.2.trans h⟩
  | arrived s _ _ harrived => exact ⟨harrived.same.1, fun h ↦ harrived.same.2.trans h⟩
  | tick => exact ⟨(retransEmit_same env p).1, fun h ↦ (retransEmit_same env p).2.2.1.trans h⟩

end

/-- What a new block looks like. -/
structure Newborn (tcp : Tcp) (p : TcpPcb) : Prop where
  task : p.task = tcp.nextTask
  backlog : p.backlog = []
  accepted : p.hist.accepted = false
  origin : p.parentDesc = none ∧ p.hist.creator = none ∧ p.state ≠ .synReceived ∨
    ∃ l q, tcp.get l = some q ∧ q.state = .listen ∧ q.mode = .socket ∧ p.parentDesc = some l ∧
      p.hist.creator = some q.task ∧ p.state = .synReceived ∧ p.mode = .rfc

theorem Birth.newborn {env : Env} {tcp : Tcp} {d : TcpDesc} {ev : Event} {es : List Effect}
    {reply : Reply} {p : TcpPcb} (h : Birth env tcp d tcp.nextTask ev es reply p) :
    Newborn tcp p := by
  cases h with
  | socket => exact ⟨rfl, rfl, rfl, .inl ⟨rfl, rfl, by simp [TcpPcb.empty]⟩⟩
  | listen l r => exact ⟨rfl, rfl, rfl, .inl ⟨rfl, rfl, by simp⟩⟩
  | syn l l' r _ _ =>
      rw [sendSyn_eq]
      exact ⟨rfl, rfl, rfl, .inl ⟨rfl, rfl, by simp [synSent]⟩⟩
  | child s l q child _ hq hstate hmode _ _ _ _ hchild =>
      rw [passiveOpen_eq, hchild]
      exact ⟨rfl, rfl, rfl, .inr ⟨l, q, hq, hstate, hmode, rfl, rfl, rfl, rfl⟩⟩

/-! ## Tasks -/

/-- A task belongs to one block. -/
structure TaskInv (tcp : Tcp) : Prop where
  fresh : ∀ d p, tcp.get d = some p → p.task < tcp.nextTask
  distinct : ∀ d d' p p', tcp.get d = some p → tcp.get d' = some p' → p.task = p'.task → d = d'

theorem TaskInv.move {env : Env} {tcp : Tcp} {ev : Event} {out : Outcome} (h : TaskInv tcp)
    (hmove : Move env tcp ev out) : TaskInv out.tcp := by
  rcases hmove.blocks with ⟨hnext, hold⟩ | ⟨c, q, tcp', -, hnext, hbirth, hget⟩
  · constructor
    · intro d p' hp'
      obtain ⟨p, hp, hevolve⟩ := hold d p' hp'
      rw [hevolve.same.1.task]
      exact Nat.lt_of_lt_of_le (h.fresh d p hp) hnext
    · intro d₁ d₂ p₁' p₂' hp₁' hp₂' htask
      obtain ⟨p₁, hp₁, hevolve₁⟩ := hold d₁ p₁' hp₁'
      obtain ⟨p₂, hp₂, hevolve₂⟩ := hold d₂ p₂' hp₂'
      rw [hevolve₁.same.1.task, hevolve₂.same.1.task] at htask
      exact h.distinct d₁ d₂ p₁ p₂ hp₁ hp₂ htask
  · have hnew := hbirth.newborn
    constructor
    · intro d p' hp'
      rw [hget] at hp'
      split at hp'
      · cases hp'
        rw [hnew.task, hnext]
        exact Nat.lt_succ_self _
      · rw [hnext]
        exact Nat.lt_succ_of_lt (h.fresh d p' hp')
    · intro d₁ d₂ p₁' p₂' hp₁' hp₂' htask
      rw [hget] at hp₁' hp₂'
      split at hp₁' <;> split at hp₂'
      · next h₁ h₂ => rw [h₁, h₂]
      · cases hp₁'
        rw [hnew.task] at htask
        exact absurd htask (Nat.ne_of_gt (h.fresh d₂ p₂' hp₂'))
      · cases hp₂'
        rw [hnew.task] at htask
        exact absurd htask (Nat.ne_of_lt (h.fresh d₁ p₁' hp₁'))
      · exact h.distinct d₁ d₂ p₁' p₂' hp₁' hp₂' htask

end Microps.Tcp
