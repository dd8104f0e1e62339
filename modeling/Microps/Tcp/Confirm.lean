import Microps.Tcp.Acknowledge

/-!
# The acknowledgement of the SYN

ESTABLISHED is reached from SYN_SENT and from SYN_RECEIVED.  In SYN_SENT an
acknowledgement has to lie after the initial sequence number; in SYN_RECEIVED it may
be the initial sequence number itself, and then the handshake is complete although
the peer has acknowledged nothing.
-/

namespace Microps

/-- The states in which the SYN is taken to be acknowledged. -/
def TcpState.confirmed : TcpState → Bool
  | .established | .closeWait | .finWait2 => true
  | _ => false

namespace Tcp

/-- As long as nothing is acknowledged, a segment completes a handshake only with a
number after the SYN (that of the SYN itself is refused where `snd.nxt` has wrapped), and
the acknowledgement of a FIN counts only if the numbers do not wrap.  A connection begins
only on a block with an empty queue. -/
def AcksSyn (env : Env) (tcp : Tcp) (ev : Event) : Prop :=
  BeginsClean env tcp ev ∧ ∀ s d p, ev = .arrive s → pcbSelect tcp.pcbs s.dst s.src = some d →
    tcp.get d = some p → ReachesAck p s → p.snd.una = p.iss →
      (p.state = .synReceived → s.ack = p.iss → p.snd.nxt < p.iss) ∧
        (p.state = .finWait1 → s.ack = p.snd.nxt → p.snd.una ≤ p.snd.nxt)

/-- What holds of every block. -/
structure SynInv (p : TcpPcb) : Prop where
  send : ∃ a, SendInv p a
  order : p.state.isActive = true → InOrder p
  una : p.state.confirmed = true → p.snd.una ≠ p.iss

section

variable {env : Env} {tcp : Tcp} {d : TcpDesc} {ev : Event} {p p' : TcpPcb} {s : TcpSegment}
  {a : Nat}

theorem SynInv.birth {task : TaskId} {es : List Effect} {reply : Reply}
    (h : Birth env tcp d task ev es reply p) : SynInv p where
  send := SendInv.birth h
  order := InOrder.birth h
  una := by
    cases h with
    | socket => simp [TcpState.confirmed, TcpPcb.empty]
    | listen l r => simp [TcpState.confirmed]
    | syn l l' r _ _ => simp [TcpState.confirmed, Tcp.synSent]
    | child s l p child _ _ _ _ _ _ _ _ _ => simp [TcpState.confirmed, passiveOpen_eq]

/-- A step of the block by itself confirms the SYN only in SYN_SENT. -/
theorem BlockStep.confirmed {es : List Effect} {reply : Reply}
    (h : BlockStep env tcp d ev p es reply p') (hstate : p'.state.confirmed = true) :
    p'.iss < p'.snd.una ∨
      p.state.confirmed = true ∧ p'.snd.una = p.snd.una ∧ p'.iss = p.iss := by
  cases h with
  | mss m => exact .inr ⟨hstate, rfl, rfl⟩
  | bind l _ => exact .inr ⟨hstate, rfl, rfl⟩
  | take len n wnd _ _ _ _ => exact .inr ⟨hstate, rfl, rfl⟩
  | listen n _ | connectFails _ | interrupted => simp [TcpState.confirmed] at hstate
  | syn l r _ _ => simp [TcpState.confirmed, Tcp.synSent] at hstate
  | synFails l r _ _ => simp [TcpState.confirmed] at hstate
  | passive s _ _ _ _ _ _ => simp [TcpState.confirmed, passiveOpen_eq] at hstate
  | synSent s acceptable _ _ _ _ _ =>
      obtain ⟨q, -, ⟨hlt, hcase⟩ | ⟨-, hcase⟩⟩ := synInSynSent_cases env p s.info acceptable
      · rw [hcase]
        exact .inl hlt
      · simp [TcpState.confirmed, hcase] at hstate
  | fin state hto =>
      rw [sendFin_eq] at hstate
      rcases hto with ⟨-, rfl⟩ | ⟨-, rfl⟩ <;> simp [TcpState.confirmed] at hstate
  | data data sent n _ _ _ _ =>
      rw [sendData_eq] at hstate ⊢
      exact .inr ⟨hstate, rfl, rfl⟩

/-- How a segment past SYN_SENT leads to the confirmed states. -/
theorem Arrived.confirmed (h : Arrived p s p') (hstate : p'.state.confirmed = true) :
    p.state.confirmed = true ∨ p.state = .synReceived ∨
      p.state = .finWait1 ∧ s.ack = p.snd.nxt := by
  have hafter := h.after
  by_cases hall : s.ack = p.snd.nxt
  · rcases hafter with heq | ⟨-, heq⟩ <;>
      cases hs : p.state <;> simp_all [TcpState.confirmed, TcpState.afterAck, TcpState.afterFin]
  · rcases hafter with heq | ⟨-, heq⟩ <;>
      cases hs : p.state <;> simp_all [TcpState.confirmed, TcpState.afterAck, TcpState.afterFin]

/-- Once past the initial sequence number, `snd.una` stays there. -/
theorem Arrived.una_ne_iss (h : Arrived p s p') (hinv : SendInv p a)
    (hactive : p.state.isActive = true) (hne : p.snd.una ≠ p.iss) : p'.snd.una ≠ p'.iss := by
  have hcount := (hinv.active hactive).2
  obtain ⟨hsnd, hiss, -⟩ := h.send
  rw [hiss]
  rcases hsnd with ⟨hsnd, -⟩ | ⟨hnew, -, huna, -⟩
  · rw [hsnd]
    exact hne
  · have hlt : p.snd.una < s.ack := hnew.2.1
    rw [huna]
    rintro (heq : s.ack = p.iss)
    rw [heq, BitVec.lt_def] at hlt
    omega

/-- With its SYN not acknowledged, a connection has something in flight. -/
theorem InOrder.una_ne_nxt (h : InOrder p) (hinv : SendInv p a) (hactive : p.state.isActive = true)
    (heq : p.snd.una = p.iss) : p.snd.una ≠ p.snd.nxt := by
  intro hnxt
  have hcount := (hinv.active hactive).2
  have hflight := hinv.inFlight
  have hle := hinv.le
  have hpos := List.length_pos_of_ne_nil h.started
  rw [hnxt, sub_self] at hflight
  rw [heq] at hcount
  simp at hflight
  omega

/-- A segment past SYN_SENT. -/
theorem SynInv.arrived {out : Outcome} (h : SynInv p) (hguard : AcksSyn env tcp (.arrive s))
    (hout : step env tcp (.arrive s) = .ok out)
    (hselect : pcbSelect tcp.pcbs s.dst s.src = some d) (hp : tcp.get d = some p)
    (hp' : out.tcp.get d = some p') (hreach : ReachesAck p s) (harrived : Arrived p s p')
    (hstate : p'.state.confirmed = true) : p'.snd.una ≠ p'.iss := by
  have hactive := TcpState.isActive_of_ne hreach.state.1 hreach.state.2.1
  obtain ⟨a, hinv⟩ := h.send
  by_cases hne : p.snd.una = p.iss
  · obtain ⟨hsyn, hfin⟩ := hguard.2 s d p rfl hselect hp hreach hne
    -- The SYN is acknowledged now.
    have hacks : acksNew p s.info → p'.snd.una ≠ p'.iss := by
      intro hnew
      obtain ⟨r, hr, heq⟩ := Machine.exists_of_bind_ok hout
      cases heq
      obtain ⟨-, huna, -⟩ := segmentArrives_acks hselect hp hreach hnew hr hp'
      have hlt : p.snd.una < s.ack := hnew.2.1
      rw [huna, harrived.send.2.1, ← hne]
      exact (BitVec.ne_of_lt hlt).symm
    rcases harrived.confirmed hstate with hs | hs | ⟨hs, hall⟩
    · exact absurd hne (h.una hs)
    · have hpass := harrived.passes
      simp only [passesAck, hs] at hpass
      have hle : p.snd.una ≤ s.ack := hpass.1
      have hnew : s.ack ≠ p.iss := fun heq ↦
        absurd (hsyn hs heq) (BitVec.not_lt.mpr (heq ▸ hpass.2))
      have hlt : p.snd.una < s.ack := by bv_omega
      exact hacks ⟨.inl hs, hlt, hpass.2⟩
    · have hle := hfin hs hall
      have hnxt := (h.order hactive).una_ne_nxt hinv hactive hne
      have hbetween : p.snd.una < s.ack ∧ s.ack ≤ p.snd.nxt := by bv_omega
      exact hacks ⟨.inr (.inr (.inr (.inl hs))), hbetween⟩
  · exact harrived.una_ne_iss hinv hactive hne

/-- **One step**, of one block. -/
theorem SynInv.evolve {out : Outcome} (hguard : AcksSyn env tcp ev)
    (hout : step env tcp ev = .ok out) (hp : tcp.get d = some p) (h : SynInv p)
    (hp' : out.tcp.get d = some p') (hevolve : Evolve env tcp d out.reply ev p p') : SynInv p' := by
  obtain ⟨a, hinv⟩ := h.send
  refine ⟨hinv.evolve hevolve, InOrder.evolve hinv h.order hp hguard.1 hevolve, fun hstate ↦ ?_⟩
  cases hevolve with
  | keep backlog mss accepted _ => exact h.una hstate
  | block hblock =>
      rcases hblock.confirmed hstate with hlt | ⟨hs, huna, hiss⟩
      · exact (BitVec.ne_of_lt hlt).symm
      · rw [huna, hiss]
        exact h.una hs
  | arrived s hselect hreach harrived =>
      exact h.arrived hguard hout hselect hp hp' hreach harrived hstate
  | tick =>
      rcases retransEmit_cases env p with heq | ⟨f, -, heq⟩
      · simp [heq, TcpState.confirmed] at hstate
      · rw [heq] at hstate ⊢
        exact h.una hstate

end

/-- **The SYN is acknowledged**: in a run in which handshakes are completed by
acknowledgements of the SYN, a block in ESTABLISHED, CLOSE_WAIT or FIN_WAIT2 has
`snd.una` after the initial sequence number and no SYN in its queue. -/
theorem syn_acknowledged {tcp : Tcp} (h : ReachableWhen AcksSyn tcp) {d : TcpDesc} {p : TcpPcb}
    (hp : tcp.get d = some p)
    (hstate : p.state = .established ∨ p.state = .closeWait ∨ p.state = .finWait2) :
    p.snd.una ≠ p.iss ∧ ∀ e ∈ p.queue, flagIsset e.flg flgSyn = false := by
  have hinv : SynInv p := h.blocks_of_step SynInv.birth SynInv.evolve hp
  have hne : p.snd.una ≠ p.iss := by
    apply hinv.una
    rcases hstate with hs | hs | hs <;> rw [hs] <;> rfl
  have hactive : p.state.isActive = true := by
    rcases hstate with hs | hs | hs <;> rw [hs] <;> rfl
  refine ⟨hne, fun e he ↦ ?_⟩
  by_contra hflg
  exact hne ((hinv.order hactive).syn e he (by simpa using hflg)).2.2

/-- Nothing that may go wrong happens. -/
def acksAfterSyn (env : Env) (tcp : Tcp) (ev : Event) : Bool :=
  acksPlain env tcp ev &&
    match ev with
    | .arrive s => !((pcbSelect tcp.pcbs s.dst s.src).bind tcp.get).any fun p ↦
        p.state = .synReceived && s.ack = p.iss
    | _ => true

theorem acksSyn_of_acksAfterSyn (env : Env) (tcp : Tcp) (ev : Event)
    (h : acksAfterSyn env tcp ev = true) : AcksSyn env tcp ev := by
  obtain ⟨hplain, hafter⟩ := Bool.and_eq_true_iff.mp h
  refine ⟨(acksCounted_of_acksPlain env tcp ev hplain).1, ?_⟩
  rintro s d p rfl hselect hp - -
  have hget : (pcbSelect tcp.pcbs s.dst s.src).bind tcp.get = some p := by rw [hselect]; exact hp
  have hwrap := (Bool.and_eq_true_iff.mp hplain).2
  simp only [hget, Option.any_some, Bool.not_eq_true', Bool.or_eq_false_iff,
    decide_eq_false_iff_not] at hafter hwrap
  refine ⟨fun hs heq ↦ absurd hafter (by simp [hs, heq]), fun _ _ ↦ BitVec.not_lt.mp hwrap.2⟩

/-- A passive open, and the segment that completes its handshake. -/
def passiveHandshake (ack : U32) : List (Env × Event) :=
  [(calmEnv, .openCall hostEndp .any false), fromPeer 500 0 flgSyn [], fromPeer 501 ack flgAck []]

theorem syn_acknowledged_passive :
    ∃ tcp p, ReachableWhen AcksSyn tcp ∧ tcp.get 0 = some p ∧ p.state = .established ∧
      p.snd.una ≠ p.iss ∧ ∀ e ∈ p.queue, flagIsset e.flg flgSyn = false := by
  obtain ⟨tcp, hreach, htest⟩ := exists_reachableWhen acksAfterSyn acksSyn_of_acksAfterSyn
    (fun tcp ↦ (tcp.get 0).any fun p ↦ p.state = .established) (passiveHandshake 101)
    (by decide +kernel)
  obtain ⟨p, hp, htest⟩ := (Option.any_eq_true _ _).mp htest
  have hstate : p.state = .established := by simpa using htest
  exact ⟨tcp, p, hreach, hp, hstate, syn_acknowledged hreach hp (.inl hstate)⟩

/-- Otherwise it fails: an acknowledgement of nothing establishes the connection. -/
theorem established_without_ack :
    ¬ ∀ tcp, Reachable tcp → ∀ d p, tcp.get d = some p →
      (p.state = .established ∨ p.state = .closeWait ∨ p.state = .finWait2) →
      p.snd.una ≠ p.iss ∧ ∀ e ∈ p.queue, flagIsset e.flg flgSyn = false := by
  intro hall
  obtain ⟨tcp, hreach, htest⟩ := exists_reachableWhen (fun _ _ _ ↦ true) (fun _ _ _ _ ↦ trivial)
    (fun tcp ↦ (tcp.get 0).any fun p ↦ p.state = .established && p.snd.una = p.iss)
    (passiveHandshake 100) (by decide +kernel)
  obtain ⟨p, hp, htest⟩ := (Option.any_eq_true _ _).mp htest
  simp only [Bool.and_eq_true, decide_eq_true_eq] at htest
  exact (hall tcp hreach 0 p hp (.inl htest.1)).1 htest.2

end Tcp

end Microps
