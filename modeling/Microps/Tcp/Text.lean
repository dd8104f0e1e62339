import Microps.Tcp.Pcb

/-!
# The text and FIN steps

What `segment_arrives` does after the ACK step, as equations: the text is refused
and the function returns, or it is skipped or copied and the FIN bit is looked at.
-/

namespace Microps

/-- The state in which the FIN step leaves a block.  `all` says that everything
sent so far is acknowledged. -/
def TcpState.afterFin (all : Bool) : TcpState → TcpState
  | .synReceived | .established => .closeWait
  | .finWait1 => if all then .timeWait else .closing
  | .finWait2 => .timeWait
  | state => state

namespace Tcp

/-- The segment has text that the state of the block looks at. -/
def hasText (p : TcpPcb) (data : List U8) : Prop := p.state.takesText ∧ data ≠ []

/-- The text is the next in order and does not exceed the window. -/
def fits (p : TcpPcb) (seg : SegInfo) (data : List U8) : Prop :=
  p.rcv.nxt = seg.seq ∧ data.length ≤ p.rcv.wnd.toNat

instance (p : TcpPcb) (data : List U8) : Decidable (hasText p data) := by
  unfold hasText
  infer_instance

instance (p : TcpPcb) (seg : SegInfo) (data : List U8) : Decidable (fits p seg data) := by
  unfold fits
  infer_instance

/-- The block with the text in its buffer. -/
def textBlock (p : TcpPcb) (seg : SegInfo) (data : List U8) : TcpPcb :=
  { p with
    buf := p.buf ++ data
    rcv := { nxt := seg.seq + BitVec.ofNat 32 data.length,
             wnd := p.rcv.wnd - BitVec.ofNat 16 data.length }
    hist := { p.hist with rcvd := p.hist.rcvd ++ data } }

/-- The window check keeps the subtraction in range. -/
theorem copyText_eq {p : TcpPcb} {seg : SegInfo} {data : List U8} (h : fits p seg data) :
    copyText p seg data = .ok (textBlock p seg data) := by
  have hle : BitVec.ofNat 16 data.length ≤ p.rcv.wnd := by
    have hlt := p.rcv.wnd.isLt
    have hfit := h.2
    rw [BitVec.le_def, BitVec.toNat_ofNat, Nat.mod_eq_of_lt (by omega)]
    exact hfit
  unfold copyText wsub
  rw [if_pos hle]
  rfl

/-- **The text and FIN steps** never panic, and this is what they do. -/
theorem textAndFin_eq (env : Env) (p : TcpPcb) (seg : SegInfo) (flags : U8) (data : List U8) :
    textAndFin env p seg flags data = .ok (
      if hasText p data then
        if fits p seg data then
          ((checkFin env (textBlock p seg data) seg flags).1,
            [.emit (ackOf (textBlock p seg data)), .notify p.task] ++
              (checkFin env (textBlock p seg data) seg flags).2)
        else (p, [.emit (ackOf p)])
      else checkFin env p seg flags) := by
  unfold textAndFin processText
  by_cases htext : p.state.takesText ∧ data ≠ []
  · rw [if_pos htext, if_pos (show hasText p data from htext)]
    by_cases hfit : fits p seg data
    · have hok : ¬ (p.rcv.nxt ≠ seg.seq ∨ p.rcv.wnd.toNat < data.length) := by
        rintro (hseq | hlt)
        · exact hseq hfit.1
        · exact absurd hfit.2 (by omega)
      rw [if_neg hok, copyText_eq hfit, if_pos hfit]
      rfl
    · have hbad : p.rcv.nxt ≠ seg.seq ∨ p.rcv.wnd.toNat < data.length := by
        by_contra h
        exact hfit ⟨by tauto, by omega⟩
      rw [if_pos hbad, if_neg hfit]
      rfl
  · rw [if_neg htext, if_neg (show ¬ hasText p data from htext)]
    rfl

/-- **The FIN step**, in a state that looks at the bit. -/
theorem checkFin_fin (env : Env) {p : TcpPcb} (seg : SegInfo) {flags : U8}
    (hfin : flagIsset flags flgFin = true) (hstate : p.state ≠ .closed ∧ p.state ≠ .listen) :
    ∃ tw es, checkFin env p seg flags =
        ({ consumeFin p seg with
            state := p.state.afterFin (seg.ack = p.snd.nxt), twTimer := tw },
          .emit (ackOf (consumeFin p seg)) :: es) ∧
      (p.state = .synReceived ∨ p.state = .established → .notify p.task ∈ es) ∧
      ∀ e ∈ es, e = .notify p.task ∧ (p.state = .synReceived ∨ p.state = .established) := by
  have hcond : ¬ (p.state = .closed ∨ p.state = .listen) := by tauto
  unfold checkFin
  rw [if_pos hfin, if_neg hcond]
  simp only
  have hst : (consumeFin p seg).state = p.state := rfl
  rw [hst]
  cases h : p.state with
  | synReceived | established =>
      exact ⟨p.twTimer, [.notify p.task], rfl, by simp, by simp⟩
  | finWait1 =>
      have hafter : TcpState.finWait1.afterFin (seg.ack = p.snd.nxt) =
          if seg.ack = p.snd.nxt then .timeWait else .closing := by
        simp [TcpState.afterFin]
      rw [hafter, show (consumeFin p seg).snd.nxt = p.snd.nxt from rfl]
      by_cases hack : seg.ack = p.snd.nxt
      · rw [if_pos hack, if_pos hack]
        exact ⟨env.now + timewaitSec, [], rfl, by simp, by simp⟩
      · rw [if_neg hack, if_neg hack]
        exact ⟨p.twTimer, [], rfl, by simp, by simp⟩
  | finWait2 => exact ⟨env.now + timewaitSec, [], rfl, by simp, by simp⟩
  | closeWait | closing | lastAck | timeWait | synSent =>
      refine ⟨p.twTimer, [], ?_, by simp, by simp⟩
      simp only [TcpState.afterFin, ← h]
      rfl
  | closed => exact absurd h hstate.1
  | listen => exact absurd h hstate.2

theorem checkFin_noFin (env : Env) (p : TcpPcb) (seg : SegInfo) {flags : U8}
    (hfin : flagIsset flags flgFin = false) : checkFin env p seg flags = (p, []) := by
  rw [checkFin, if_neg (by simp [hfin])]

/-- The text and FIN steps, in the four ways in which the text and the FIN can be
taken. -/
theorem textAndFin_cases {env : Env} {q p' : TcpPcb} {seg : SegInfo} {flags : U8}
    {data : List U8} {es : List Effect} (hstate : q.state ≠ .closed ∧ q.state ≠ .listen)
    (h : textAndFin env q seg flags data = .ok (p', es)) :
    (¬ (hasText q data ∧ fits q seg data) ∧
      ¬ (flagIsset flags flgFin = true ∧ (hasText q data → fits q seg data)) ∧ p' = q ∧
      ∀ e ∈ es, e = .emit (ackOf q)) ∨
    (hasText q data ∧ fits q seg data ∧ flagIsset flags flgFin = false ∧
      p' = textBlock q seg data ∧
      es = [.emit (ackOf (textBlock q seg data)), .notify q.task]) ∨
    (¬ hasText q data ∧ flagIsset flags flgFin = true ∧ ∃ tw, p' = { consumeFin q seg with
        state := q.state.afterFin (seg.ack = q.snd.nxt), twTimer := tw } ∧
      .emit (ackOf (consumeFin q seg)) ∈ es ∧
      (q.state = .synReceived ∨ q.state = .established → .notify q.task ∈ es) ∧
      ∀ e ∈ es, e = .emit (ackOf (consumeFin q seg)) ∨
        e = .notify q.task ∧ (q.state = .synReceived ∨ q.state = .established)) ∨
    (hasText q data ∧ fits q seg data ∧ flagIsset flags flgFin = true ∧
      ∃ tw, p' = { consumeFin (textBlock q seg data) seg with
        state := q.state.afterFin (seg.ack = q.snd.nxt), twTimer := tw } ∧
      .notify q.task ∈ es ∧ ∀ e ∈ es, e = .emit (ackOf (textBlock q seg data)) ∨
        e = .emit (ackOf (consumeFin (textBlock q seg data) seg)) ∨ e = .notify q.task) := by
  rw [textAndFin_eq] at h
  by_cases htext : hasText q data
  · rw [if_pos htext] at h
    by_cases hfit : fits q seg data
    · rw [if_pos hfit] at h
      cases hflag : flagIsset flags flgFin with
      | false =>
          rw [checkFin_noFin env _ seg hflag] at h
          cases h
          exact .inr (.inl ⟨htext, hfit, rfl, rfl, rfl⟩)
      | true =>
          obtain ⟨tw, es', heq, -, hes⟩ := checkFin_fin env (p := textBlock q seg data) seg hflag
            hstate
          rw [heq] at h
          cases h
          refine .inr (.inr (.inr ⟨htext, hfit, rfl, tw, rfl, by simp, ?_⟩))
          intro e he
          simp only [List.mem_append, List.mem_cons, List.not_mem_nil, or_false] at he
          rcases he with (rfl | rfl) | rfl | he
          · exact .inl rfl
          · exact .inr (.inr rfl)
          · exact .inr (.inl rfl)
          · exact .inr (.inr (hes e he).1)
    · rw [if_neg hfit] at h
      cases h
      exact .inl ⟨fun h ↦ hfit h.2, fun h ↦ hfit (h.2 htext), rfl, by simp⟩
  · rw [if_neg htext] at h
    cases hflag : flagIsset flags flgFin with
    | false =>
        rw [checkFin_noFin env _ seg hflag] at h
        cases h
        exact .inl ⟨fun h ↦ htext h.1, fun h ↦ absurd h.1 (by simp), rfl, by simp⟩
    | true =>
        obtain ⟨tw, es', heq, hnotify, hes⟩ := checkFin_fin env (p := q) seg hflag hstate
        rw [heq] at h
        cases h
        refine .inr (.inr (.inl ⟨htext, rfl, tw, rfl, by simp, ?_, ?_⟩))
        · exact fun h ↦ List.mem_cons_of_mem _ (hnotify h)
        · intro e he
          rcases List.mem_cons.mp he with rfl | he
          · exact .inl rfl
          · exact .inr (hes e he)

/-- The text and the FIN do not touch the send side. -/
theorem textAndFin_send {env : Env} {q p' : TcpPcb} {seg : SegInfo} {flags : U8} {data : List U8}
    {es : List Effect} (hstate : q.state ≠ .closed ∧ q.state ≠ .listen)
    (h : textAndFin env q seg flags data = .ok (p', es)) :
    p'.snd = q.snd ∧ p'.queue = q.queue := by
  rcases textAndFin_cases hstate h with ⟨-, -, rfl, -⟩ | ⟨-, -, -, rfl, -⟩ | ⟨-, -, tw, rfl, -⟩ |
    ⟨-, -, -, tw, rfl, -⟩ <;> exact ⟨rfl, rfl⟩

end Tcp

end Microps
