import Microps.Tcp.Ack
import Microps.Tcp.Text

/-!
# A segment past SYN_SENT

The ACK, text and FIN steps put together: everything that a segment which reaches
the ACK step can do to the block, in the four ways in which its text and its FIN
can be taken.
-/

namespace Microps.Tcp

/-- What the ACK step has done to the send side of a block. -/
def SndStep (p : TcpPcb) (seg : SegInfo) (snd : SndVars) (queue : List TcpQueueEntry) : Prop :=
  (snd = p.snd ∧ queue = p.queue) ∨
    (acksNew p seg ∧ snd.nxt = p.snd.nxt ∧ snd.una = seg.ack ∧
      queue = p.queue.dropWhile fun e ↦ !decide (seg.ack < e.seq + e.consume))

theorem AckStep.eq {p p₁ : TcpPcb} {seg : SegInfo} {es : List Effect} (h : AckStep p seg p₁ es) :
    ∃ snd queue tw, SndStep p seg snd queue ∧
      p₁ = { p with
        snd := snd, queue := queue, state := p.state.afterAck (seg.ack = p.snd.nxt),
        twTimer := tw } := by
  obtain ⟨tw, rfl⟩ := h.block
  unfold ackBlock
  by_cases hnew : acksNew p seg
  · obtain ⟨snd, heq, hnxt, huna⟩ := ackNew_eq p seg
    refine ⟨snd, _, tw, .inr ⟨hnew, hnxt, huna, rfl⟩, ?_⟩
    rw [if_pos hnew, heq]
  · refine ⟨p.snd, p.queue, tw, .inl ⟨rfl, rfl⟩, ?_⟩
    rw [if_neg hnew]

theorem afterAck_ne {state : TcpState} (all : Bool) (hclosed : state ≠ .closed)
    (hlisten : state ≠ .listen) :
    state.afterAck all ≠ .closed ∧ state.afterAck all ≠ .listen := by
  cases state <;> cases all <;> simp_all [TcpState.afterAck]

/-- The text is looked at in SYN_RECEIVED, which the ACK step leaves, and in the
states that take text. -/
theorem takesText_afterAck (state : TcpState) (all : Bool) :
    (state.afterAck all).takesText = (state.takesText || state = .synReceived) := by
  cases state <;> cases all <;> rfl

/-- The segment has text that is looked at. -/
def SeesText (p : TcpPcb) (s : TcpSegment) : Prop :=
  (p.state.takesText ∨ p.state = .synReceived) ∧ s.data ≠ []

/-- The segment has a FIN that is looked at. -/
def SeesFin (p : TcpPcb) (s : TcpSegment) : Prop :=
  flagIsset s.flg flgFin = true ∧ (SeesText p s → fits p s.info s.data)

/-- How a segment that passes the ACK step leaves a block. -/
structure Arrived (p : TcpPcb) (s : TcpSegment) (p' : TcpPcb) : Prop where
  passes : passesAck p s.info
  eq : ∃ snd queue tw backlog, SndStep p s.info snd queue ∧
    ((¬ (SeesText p s ∧ fits p s.info s.data) ∧ ¬ SeesFin p s ∧ p' = { p with
        snd := snd, queue := queue, twTimer := tw, backlog := backlog,
        state := p.state.afterAck (s.ack = p.snd.nxt) }) ∨
    (SeesText p s ∧ fits p s.info s.data ∧ ¬ SeesFin p s ∧ p' = { textBlock p s.info s.data with
        snd := snd, queue := queue, twTimer := tw, backlog := backlog,
        state := p.state.afterAck (s.ack = p.snd.nxt) }) ∨
    (¬ SeesText p s ∧ SeesFin p s ∧ p' = { consumeFin p s.info with
        snd := snd, queue := queue, twTimer := tw, backlog := backlog,
        state := (p.state.afterAck (s.ack = p.snd.nxt)).afterFin (s.ack = p.snd.nxt) }) ∨
    (SeesText p s ∧ fits p s.info s.data ∧ SeesFin p s ∧
      p' = { consumeFin (textBlock p s.info s.data) s.info with
        snd := snd, queue := queue, twTimer := tw, backlog := backlog,
        state := (p.state.afterAck (s.ack = p.snd.nxt)).afterFin (s.ack = p.snd.nxt) }))

/-- **A segment past SYN_SENT**, after the ACK step has let it through. -/
theorem arrived {env : Env} {p p₁ p' : TcpPcb} {s : TcpSegment} {es₁ es₂ : List Effect}
    (backlog : List TcpDesc) (hstate : p.state ≠ .closed ∧ p.state ≠ .listen ∧ p.state ≠ .synSent)
    (hack : AckStep p s.info p₁ es₁)
    (htext : textAndFin env { p₁ with backlog := backlog } s.info s.flg s.data = .ok (p', es₂)) :
    Arrived p s p' := by
  refine ⟨hack.passes, ?_⟩
  obtain ⟨snd, queue, tw, hsnd, rfl⟩ := hack.eq
  have hsees : SeesText p s ↔ (p.state.afterAck (s.ack = p.snd.nxt)).takesText ∧ s.data ≠ [] := by
    simp [SeesText, takesText_afterAck]
  have hopen : p.state.afterAck (s.ack = p.snd.nxt) ≠ .closed ∧
      p.state.afterAck (s.ack = p.snd.nxt) ≠ .listen := afterAck_ne _ hstate.1 hstate.2.1
  have hnxt : snd.nxt = p.snd.nxt := by
    rcases hsnd with ⟨rfl, -⟩ | ⟨-, hnxt, -⟩
    · rfl
    · exact hnxt
  rcases textAndFin_cases hopen htext with ⟨hno, hnofin, rfl, -⟩ | ⟨hyes, hfit, hfin, rfl, -⟩ |
    ⟨hno, hfin, tw', rfl, -⟩ | ⟨hyes, hfit, hfin, tw', rfl, -⟩
  · refine ⟨snd, queue, tw, backlog, hsnd, .inl ⟨?_, ?_, rfl⟩⟩
    · exact fun h ↦ hno ⟨hsees.mp h.1, h.2⟩
    · exact fun h ↦ hnofin ⟨h.1, fun h' ↦ h.2 (hsees.mpr h')⟩
  · refine ⟨snd, queue, tw, backlog, hsnd, .inr (.inl ⟨hsees.mpr hyes, hfit, ?_, rfl⟩)⟩
    exact fun h ↦ absurd h.1 (by simp [hfin])
  · refine ⟨snd, queue, tw', backlog, hsnd, .inr (.inr (.inl ⟨mt hsees.mp hno, ?_, ?_⟩))⟩
    · exact ⟨hfin, fun h ↦ absurd (hsees.mp h) hno⟩
    · rw [hnxt]
      rfl
  · refine ⟨snd, queue, tw', backlog, hsnd, .inr (.inr (.inr ⟨hsees.mpr hyes, hfit, ?_, ?_⟩))⟩
    · exact ⟨hfin, fun _ ↦ hfit⟩
    · rw [hnxt]
      rfl

/-- The same for a block that has joined a backlog in between, perhaps its own. -/
theorem arrived_of_join {env : Env} {p p₁ p₂ p' : TcpPcb} {s : TcpSegment} {es₁ es₂ : List Effect}
    {d l : TcpDesc} (hstate : p.state ≠ .closed ∧ p.state ≠ .listen ∧ p.state ≠ .synSent)
    (hack : AckStep p s.info p₁ es₁)
    (hp₂ : p₂ = if d = l then { p₁ with backlog := p₁.backlog ++ [d] } else p₁)
    (htext : textAndFin env p₂ s.info s.flg s.data = .ok (p', es₂)) : Arrived p s p' := by
  split at hp₂
  · rw [hp₂] at htext
    exact arrived _ hstate hack htext
  · rw [hp₂] at htext
    exact arrived p₁.backlog hstate hack htext

/-! ## The four ways together -/

section

variable {p p' : TcpPcb} {s : TcpSegment}

/-- The text and the FIN leave the send side to the ACK step. -/
theorem Arrived.send (h : Arrived p s p') :
    SndStep p s.info p'.snd p'.queue ∧ p'.iss = p.iss ∧ p'.hist.sent = p.hist.sent := by
  obtain ⟨snd, queue, tw, backlog, hsnd, hcases⟩ := h.eq
  rcases hcases with ⟨-, -, rfl⟩ | ⟨-, -, -, rfl⟩ | ⟨-, -, rfl⟩ | ⟨-, -, -, rfl⟩ <;>
    exact ⟨hsnd, rfl, rfl⟩

/-- What has been received only grows. -/
theorem Arrived.receive (h : Arrived p s p') :
    p'.irs = p.irs ∧ p'.hist.synced = p.hist.synced ∧ p.hist.rcvd <+: p'.hist.rcvd ∧
      (p.hist.fin = true → p'.hist.fin = true) := by
  obtain ⟨snd, queue, tw, backlog, -, hcases⟩ := h.eq
  rcases hcases with ⟨-, -, rfl⟩ | ⟨-, -, -, rfl⟩ | ⟨-, -, rfl⟩ | ⟨-, -, -, rfl⟩
  · exact ⟨rfl, rfl, List.prefix_rfl, id⟩
  · exact ⟨rfl, rfl, List.prefix_append _ _, id⟩
  · exact ⟨rfl, rfl, List.prefix_rfl, fun _ ↦ rfl⟩
  · exact ⟨rfl, rfl, List.prefix_append _ _, fun _ ↦ rfl⟩

theorem Arrived.endpoints (h : Arrived p s p') :
    p.localEndp = p'.localEndp ∧ p.remoteEndp = p'.remoteEndp := by
  obtain ⟨snd, queue, tw, backlog, -, hcases⟩ := h.eq
  rcases hcases with ⟨-, -, rfl⟩ | ⟨-, -, -, rfl⟩ | ⟨-, -, rfl⟩ | ⟨-, -, -, rfl⟩ <;>
    exact ⟨rfl, rfl⟩

/-- The state after the ACK step, and after the FIN step if there is one. -/
theorem Arrived.after (h : Arrived p s p') :
    p'.state = p.state.afterAck (s.ack = p.snd.nxt) ∨ flagIsset s.flg flgFin = true ∧
      p'.state = (p.state.afterAck (s.ack = p.snd.nxt)).afterFin (s.ack = p.snd.nxt) := by
  obtain ⟨snd, queue, tw, backlog, -, hcases⟩ := h.eq
  rcases hcases with ⟨-, -, rfl⟩ | ⟨-, -, -, rfl⟩ | ⟨-, hfin, rfl⟩ | ⟨-, -, hfin, rfl⟩
  · exact .inl rfl
  · exact .inl rfl
  · exact .inr ⟨hfin.1, rfl⟩
  · exact .inr ⟨hfin.1, rfl⟩

end

end Microps.Tcp
