import Microps.Tcp.Pcb

/-!
# The ACK step

`segment_arrives` runs the ACK step in eight states, which fall through to one
another.  This module says once what the step does: when it falls through to the
text of the segment, and what it has then changed.
-/

namespace Microps

/-- The state in which the ACK step leaves a block.  `all` says that everything
sent so far is acknowledged. -/
def TcpState.afterAck (all : Bool) : TcpState → TcpState
  | .synReceived => .established
  | .finWait1 => if all then .finWait2 else .finWait1
  | .closing => if all then .timeWait else .closing
  | state => state

/-- The states that share the main branch of the ACK step. -/
def TcpState.isOpen : TcpState → Bool
  | .established | .closeWait | .finWait1 | .finWait2 => true
  | _ => false

namespace Tcp

/-- The ACK field lets the segment through to its text. -/
def passesAck (p : TcpPcb) (seg : SegInfo) : Prop :=
  match p.state with
  | .synReceived => p.snd.una ≤ seg.ack ∧ seg.ack ≤ p.snd.nxt
  | .established | .closeWait | .finWait1 | .finWait2 =>
      ¬ (p.snd.una ≤ seg.ack ∧ p.snd.nxt < seg.ack)
  | .lastAck => False
  | _ => True

instance (p : TcpPcb) (seg : SegInfo) : Decidable (passesAck p seg) := by
  unfold passesAck
  split <;> infer_instance

/-- The ACK field acknowledges something new, in the plain order of 32-bit
words. -/
def acksNew (p : TcpPcb) (seg : SegInfo) : Prop :=
  (p.state = .synReceived ∨ p.state = .established ∨ p.state = .closeWait ∨
    p.state = .finWait1 ∨ p.state = .finWait2) ∧ p.snd.una < seg.ack ∧ seg.ack ≤ p.snd.nxt

instance (p : TcpPcb) (seg : SegInfo) : Decidable (acksNew p seg) := by
  unfold acksNew
  infer_instance

/-- The block that the ACK step leaves, but for the time-wait timer. -/
def ackBlock (p : TcpPcb) (seg : SegInfo) : TcpPcb :=
  { (if acksNew p seg then ackNew p seg else p) with
    state := p.state.afterAck (seg.ack = p.snd.nxt) }

/-- What the ACK step that falls through has done. -/
structure AckStep (p : TcpPcb) (seg : SegInfo) (p₁ : TcpPcb) (es : List Effect) : Prop where
  passes : passesAck p seg
  block : ∃ tw, p₁ = { ackBlock p seg with twTimer := tw }
  notify : p.state = .synReceived → .notify p.task ∈ es
  effects : ∀ e ∈ es, e = .notify p.task
  silent : p.state.isOpen = true → es = []

theorem ackNew_state (p : TcpPcb) (seg : SegInfo) : (ackNew p seg).state = p.state := by
  unfold ackNew retransQueueCleanup
  simp only
  split
  · rfl
  · rfl

theorem ackNew_nxt (p : TcpPcb) (seg : SegInfo) : (ackNew p seg).snd.nxt = p.snd.nxt := by
  unfold ackNew retransQueueCleanup
  simp only
  split
  · rfl
  · rfl

/-- What an acknowledgement of something new does to the send variables. -/
theorem ackNew_eq (p : TcpPcb) (seg : SegInfo) :
    ∃ snd : SndVars, ackNew p seg = { p with
        snd := snd
        queue := p.queue.dropWhile fun e ↦ !decide (seg.ack < e.seq + e.consume) } ∧
      snd.nxt = p.snd.nxt ∧ snd.una = seg.ack := by
  unfold ackNew retransQueueCleanup
  simp only
  split
  · exact ⟨_, rfl, rfl, rfl⟩
  · exact ⟨_, rfl, rfl, rfl⟩

/-- The update of the send window looks neither at the state nor changes it. -/
theorem ackNew_with_state (p : TcpPcb) (seg : SegInfo) (state : TcpState) :
    ackNew { p with state := state } seg = { ackNew p seg with state := state } := by
  unfold ackNew retransQueueCleanup
  simp only
  split
  · rfl
  · rfl

theorem ackFinWait1_eq {p : TcpPcb} (seg : SegInfo) (hopen : p.state.isOpen) :
    ackFinWait1 p seg = { p with state := p.state.afterAck (seg.ack = p.snd.nxt) } := by
  unfold ackFinWait1
  split
  · next h => rw [h.1, TcpState.afterAck, if_pos (by simpa using h.2)]
  · next h =>
    cases hstate : p.state with
    | finWait1 =>
        have : ¬ seg.ack = p.snd.nxt := fun hack ↦ h ⟨hstate, hack⟩
        simp [TcpState.afterAck, this, ← hstate]
    | established | closeWait | finWait2 => simp [TcpState.afterAck, ← hstate]
    | closed | listen | synSent | synReceived | closing | lastAck | timeWait =>
        simp [hstate, TcpState.isOpen] at hopen

/-- The main branch of the ACK step. -/
theorem ackOpen_cases {p : TcpPcb} (seg : SegInfo) (hopen : p.state.isOpen) :
    (¬ (p.snd.una ≤ seg.ack ∧ p.snd.nxt < seg.ack) ∧ ackOpen p seg = .go (ackBlock p seg) []) ∨
      (p.snd.una ≤ seg.ack ∧ p.snd.nxt < seg.ack ∧ ackOpen p seg = .halt p [.emit (ackOf p)]) := by
  have hstates : p.state = .synReceived ∨ p.state = .established ∨ p.state = .closeWait ∨
      p.state = .finWait1 ∨ p.state = .finWait2 := by
    cases h : p.state <;> simp_all [TcpState.isOpen]
  unfold ackOpen ackBlock
  split
  · next h =>
    left
    refine ⟨by bv_omega, ?_⟩
    have hopen' : (ackNew p seg).state.isOpen := by rw [ackNew_state, hopen]
    rw [if_pos ⟨hstates, h⟩, ackFinWait1_eq seg hopen', ackNew_state, ackNew_nxt]
  next h =>
  rw [if_neg (show ¬ acksNew p seg from fun hnew ↦ h hnew.2)]
  split
  · left
    exact ⟨by bv_omega, by rw [ackFinWait1_eq seg hopen]⟩
  split
  · right
    exact ⟨by bv_omega, by bv_omega, rfl⟩
  · left
    exact ⟨by bv_omega, by rw [ackFinWait1_eq seg hopen]⟩

/-- A block that leaves SYN_RECEIVED goes on as an established one. -/
theorem ackBlock_established {p : TcpPcb} (seg : SegInfo) (hsr : p.state = .synReceived) :
    ackBlock { p with state := .established } seg = ackBlock p seg := by
  have hiff : acksNew { p with state := .established } seg ↔ acksNew p seg := by
    simp [acksNew, hsr]
  unfold ackBlock
  by_cases h : acksNew p seg
  · rw [if_pos h, if_pos (hiff.mpr h), ackNew_with_state, hsr]
    rfl
  · rw [if_neg h, if_neg (mt hiff.mp h), hsr]
    rfl

/-- A state outside the main branch acknowledges nothing. -/
theorem ackBlock_of_not_open {p : TcpPcb} (seg : SegInfo) (hsr : p.state ≠ .synReceived)
    (hopen : ¬ p.state.isOpen) :
    ackBlock p seg = { p with state := p.state.afterAck (seg.ack = p.snd.nxt) } := by
  have hnew : ¬ acksNew p seg := by
    rintro ⟨h | h | h | h | h, -⟩ <;> simp_all [TcpState.isOpen]
  rw [ackBlock, if_neg hnew]

/-- **The ACK step**: it falls through, or it answers and stops, or it was the
last ACK of the connection. -/
theorem checkAck_cases (env : Env) {p : TcpPcb} (seg : SegInfo) (flags : U8) (l r : IpEndp)
    (hstate : p.state ≠ .closed ∧ p.state ≠ .listen ∧ p.state ≠ .synSent) :
    (∃ p₁ es, AckStep p seg p₁ es ∧ checkAck env p seg flags l r =
        (.go p₁ es, if p.state = .synReceived then p.parentDesc else none)) ∨
      (¬ passesAck p seg ∧ ∃ es, checkAck env p seg flags l r = (.halt p es, none) ∧
        ∀ e ∈ es, ∃ s, e = .emit s ∧ (flagIsset s.flg flgRst = true ∨ s = ackOf p)) ∨
      (p.state = .lastAck ∧ seg.ack = p.snd.nxt ∧
        checkAck env p seg flags l r = (.release { p with state := .closed } [], none)) := by
  unfold checkAck
  split
  · next hsr =>
    split
    · next hack =>
      left
      have hopen : ({ p with state := .established } : TcpPcb).state.isOpen := rfl
      rcases ackOpen_cases seg hopen with ⟨-, hgo⟩ | ⟨-, hlt, -⟩
      · refine ⟨ackBlock p seg, [.notify p.task], ?_, ?_⟩
        · exact ⟨by simpa [passesAck, hsr] using hack, ⟨_, rfl⟩, by simp, by simp,
            by simp [hsr, TcpState.isOpen]⟩
        · simp only [ackStates]
          rw [hgo, ackBlock_established seg hsr]
          rfl
      · exact absurd hack.2 (by simpa using hlt)
    · next hack =>
      right; left
      refine ⟨by simpa [passesAck, hsr] using hack, _, rfl, ?_⟩
      intro e he
      exact ⟨_, List.mem_singleton.mp he, .inl (outputSegment_rst _ _ _ _ _ _)⟩
  · next hsr =>
    have hopen : p.state.isOpen → ackStates env p seg flags = ackOpen p seg := by
      intro h
      cases hs : p.state <;> simp_all [TcpState.isOpen, ackStates]
    by_cases ho : p.state.isOpen
    · have hpass : passesAck p seg ↔ ¬ (p.snd.una ≤ seg.ack ∧ p.snd.nxt < seg.ack) := by
        cases hs : p.state <;> simp_all [TcpState.isOpen, passesAck]
      rw [hopen ho]
      rcases ackOpen_cases seg ho with ⟨hnot, hgo⟩ | ⟨hle, hlt, hhalt⟩
      · left
        exact ⟨_, [], ⟨hpass.mpr hnot, ⟨_, rfl⟩, fun h ↦ absurd h hsr, by simp, fun _ ↦ rfl⟩,
          by rw [hgo]⟩
      · right; left
        refine ⟨fun h ↦ hpass.mp h ⟨hle, hlt⟩, _, by rw [hhalt], ?_⟩
        intro e he
        exact ⟨_, by simpa using he, .inr rfl⟩
    · have hblock := ackBlock_of_not_open seg hsr ho
      unfold ackStates
      cases hs : p.state with
      | closing =>
          left
          have hpass : passesAck p seg := by simp [passesAck, hs]
          simp only
          split
          · next hack =>
            refine ⟨_, _, ⟨hpass, ⟨env.now + timewaitSec, ?_⟩, fun h ↦ absurd h hsr, ?_,
              fun h ↦ absurd h ho⟩, rfl⟩
            · simp [hblock, hs, hack, TcpState.afterAck, setTimewaitTimer]
            · simp
          · next hack =>
            refine ⟨_, _, ⟨hpass, ⟨p.twTimer, ?_⟩, fun h ↦ absurd h hsr, by simp,
              fun _ ↦ rfl⟩, rfl⟩
            have hsame : p.state.afterAck (seg.ack = p.snd.nxt) = p.state := by
              simp [hs, TcpState.afterAck, hack]
            rw [hblock, hsame]
      | timeWait =>
          left
          have hpass : passesAck p seg := by simp [passesAck, hs]
          have hsame : p.state.afterAck (seg.ack = p.snd.nxt) = p.state := by
            simp [hs, TcpState.afterAck]
          simp only
          split
          · refine ⟨_, _, ⟨hpass, ⟨env.now + timewaitSec, ?_⟩, fun h ↦ absurd h hsr, by simp,
              fun _ ↦ rfl⟩, rfl⟩
            rw [hblock, hsame, setTimewaitTimer]
          · refine ⟨_, _, ⟨hpass, ⟨p.twTimer, ?_⟩, fun h ↦ absurd h hsr, by simp,
              fun _ ↦ rfl⟩, rfl⟩
            rw [hblock, hsame]
      | lastAck =>
          simp only
          right
          split
          · next hack => exact .inr ⟨trivial, hack, rfl⟩
          · exact .inl ⟨by simp [passesAck, hs], [], rfl, by simp⟩
      | closed | listen | synSent | synReceived => simp_all
      | established | closeWait | finWait1 | finWait2 => simp [hs, TcpState.isOpen] at ho

end Tcp

end Microps
