import Microps.Tcp.Conform
import Microps.Tcp.Queue

/-!
# Acknowledged data leaves the queue

The ACK step is written separately for four groups of states, and only one of them
moves `snd.una` and cleans up the queue.  In CLOSING the acknowledgement of the FIN
leads to TIME_WAIT with the FIN still in the queue, where the timer finds it.
-/

namespace Microps.Tcp

/-- The ACK field acknowledges something in flight, in the circular order of sequence
numbers. -/
def AcksFlight (p : TcpPcb) (ack : U32) : Prop :=
  0 < (ack - p.snd.una).toNat ∧ (ack - p.snd.una).toNat ≤ inFlight p

/-- When a segment acknowledges something in flight, `snd.una` follows and no entry is
left that ends at or before it. -/
def Settles (env : Env) (tcp : Tcp) (d : TcpDesc) (p : TcpPcb) (s : TcpSegment) : Prop :=
  pcbSelect tcp.pcbs s.dst s.src = some d →
    (p.state.isOpen = true ∨ p.state = .closing ∨ p.state = .lastAck) → ReachesAck p s →
    AcksFlight p s.ack → ∀ out, step env tcp (.arrive s) = .ok out →
    ∀ p', out.tcp.get d = some p' → p'.snd.una = s.ack ∧
      ∀ e ∈ p'.queue, 0 < (e.seq + e.consume - s.ack).toNat ∧
        (e.seq + e.consume - s.ack).toNat ≤ (p'.snd.nxt - s.ack).toNat

/-- A block in FIN_WAIT2 or TIME_WAIT has an empty queue, and the timer has nothing to do
with it but to release it. -/
def Rests (tcp : Tcp) (d : TcpDesc) (p : TcpPcb) : Prop :=
  p.state = .finWait2 ∨ p.state = .timeWait → p.queue = [] ∧
    ∀ env, retransEmit env p = (p, []) ∧
      ∀ out, step env tcp .timer = .ok out → ∀ p', out.tcp.get d = some p' → p' = p

/-- Something in flight is acknowledged only where the ACK step counts it: not in CLOSING,
in LAST_ACK only together with the FIN, and otherwise only while the numbers in flight do
not wrap.  A connection begins only on a block with an empty queue. -/
def AcksCounted (env : Env) (tcp : Tcp) (ev : Event) : Prop :=
  BeginsClean env tcp ev ∧ ∀ s d p, ev = .arrive s → pcbSelect tcp.pcbs s.dst s.src = some d →
    tcp.get d = some p → ReachesAck p s → AcksFlight p s.ack →
      p.state ≠ .closing ∧ (p.state = .lastAck → s.ack = p.snd.nxt) ∧
        (p.state.isOpen = true → p.snd.una ≤ p.snd.nxt)

section

variable {env : Env} {tcp : Tcp} {d : TcpDesc} {ev : Event} {p p' : TcpPcb} {s : TcpSegment}
  {a : Nat}

/-- What the ACK step counts, `segment_arrives` takes off the queue. -/
theorem segmentArrives_acks {r : Tcp × List Effect}
    (hselect : pcbSelect tcp.pcbs s.dst s.src = some d) (hp : tcp.get d = some p)
    (hreach : ReachesAck p s) (hnew : acksNew p s.info) (h : segmentArrives env tcp s = .ok r)
    (hp' : r.1.get d = some p') :
    p'.snd.nxt = p.snd.nxt ∧ p'.snd.una = s.ack ∧
      p'.queue = p.queue.dropWhile fun e ↦ !decide (s.ack < e.seq + e.consume) := by
  have hpass : passesAck p s.info := by
    obtain ⟨hstate, hlt, hle⟩ := hnew
    rcases hstate with hs | hs | hs | hs | hs <;> simp only [passesAck, hs]
    · exact ⟨BitVec.le_of_lt hlt, hle⟩
    all_goals exact fun hno ↦ absurd hle (BitVec.not_le.mpr hno.2)
  obtain ⟨r', q', hr, hq', ⟨q, es, backlog, es', hstep, htext⟩, -⟩ :=
    arrivesOtherwise_text env hp hreach hpass
  rw [segmentArrives_otherwise env hselect hp hreach.state, hr] at h
  cases h
  obtain rfl : q' = p' := by simpa using hq'.symm.trans hp'
  obtain ⟨hsnd, hqueue⟩ := textAndFin_send (q := { q with backlog := backlog })
    ⟨(hstep.past hreach).1, (hstep.past hreach).2.1⟩ htext
  obtain ⟨tw, rfl⟩ := hstep.block
  obtain ⟨snd, heq, hnxt, huna⟩ := ackNew_eq p s.info
  rw [hsnd, hqueue]
  simp only [ackBlock, if_pos hnew, heq]
  exact ⟨hnxt, huna, rfl⟩

/-- The acknowledgement of everything in LAST_ACK releases the block. -/
theorem arrivesOtherwise_lastAck (env : Env) (hp : tcp.get d = some p) (hstate : p.state = .lastAck)
    (hreach : ReachesAck p s) (hall : s.ack = p.snd.nxt) {r : Tcp × List Effect}
    (h : arrivesOtherwise env tcp d p s.info s.flg s.data s.dst s.src = .ok r) :
    r.1.get d = none := by
  unfold arrivesOtherwise at h
  rw [if_neg (by simp [hreach.acceptable]), if_neg (by simp [hreach.rst]),
    if_neg (by simp [hreach.syn]), if_neg (by simp [hreach.ack])] at h
  have hcheck : checkAck env p s.info s.flg s.dst s.src =
      (.release { p with state := .closed } [], none) := by
    simp [checkAck, ackStates, hstate, TcpSegment.info, hall]
  rw [hcheck] at h
  cases h
  exact (pcbRelease_closed_spec env hp).1.freed

/-- With nothing in flight the queue is empty. -/
theorem InOrder.queue_eq_nil (h : InOrder p) (hzero : inFlight p = 0) : p.queue = [] := by
  rw [List.eq_nil_iff_forall_not_mem]
  intro e he
  have := h.between e he
  omega

/-- In the main branch of the ACK step, what is in flight is counted if it does not
wrap. -/
theorem acksNew_of_acksFlight (hopen : p.state.isOpen = true) (hacks : AcksFlight p s.ack)
    (hwrap : p.snd.una ≤ p.snd.nxt) : acksNew p s.info := by
  have hstate : p.state = .synReceived ∨ p.state = .established ∨ p.state = .closeWait ∨
      p.state = .finWait1 ∨ p.state = .finWait2 := by
    cases hs : p.state <;> simp_all [TcpState.isOpen]
  have hbetween : p.snd.una < s.ack ∧ s.ack ≤ p.snd.nxt := by
    unfold AcksFlight inFlight at hacks
    bv_omega
  exact ⟨hstate, hbetween⟩

/-- How FIN_WAIT2 and TIME_WAIT are reached. -/
theorem Arrived.resting (h : Arrived p s p') (hstate : p'.state = .finWait2 ∨ p'.state = .timeWait) :
    (p.state = .finWait2 ∨ p.state = .timeWait) ∨
      s.ack = p.snd.nxt ∧ (p.state = .finWait1 ∨ p.state = .closing) := by
  have hafter := h.after
  by_cases hall : s.ack = p.snd.nxt
  · rcases hafter with heq | ⟨-, heq⟩ <;>
      cases hs : p.state <;> simp_all [TcpState.afterAck, TcpState.afterFin]
  · rcases hafter with heq | ⟨-, heq⟩ <;>
      cases hs : p.state <;> simp_all [TcpState.afterAck, TcpState.afterFin]

/-! ## Along a run -/

/-- What holds of every block. -/
structure AckInv (p : TcpPcb) : Prop where
  send : ∃ a, SendInv p a
  order : p.state.isActive = true → InOrder p
  resting : p.state = .finWait2 ∨ p.state = .timeWait → p.queue = []

theorem AckInv.birth {task : TaskId} {es : List Effect} {reply : Reply}
    (h : Birth env tcp d task ev es reply p) : AckInv p where
  send := SendInv.birth h
  order := InOrder.birth h
  resting := by
    cases h with
    | socket => simp [TcpPcb.empty]
    | listen l r => simp
    | syn l l' r _ _ => simp [Tcp.synSent]
    | child s l p child _ _ _ _ _ _ _ _ _ => simp [passiveOpen_eq]

/-- A step of the block by itself leads to neither state. -/
theorem BlockStep.resting {es : List Effect} {reply : Reply}
    (h : BlockStep env tcp d ev p es reply p')
    (hstate : p'.state = .finWait2 ∨ p'.state = .timeWait) :
    p.state = p'.state ∧ p'.queue = p.queue := by
  cases h with
  | mss m => exact ⟨rfl, rfl⟩
  | bind l _ => exact ⟨rfl, rfl⟩
  | take len n wnd _ _ _ _ => exact ⟨rfl, rfl⟩
  | listen n _ | connectFails _ | interrupted => simp at hstate
  | syn l r _ _ => simp [Tcp.synSent] at hstate
  | synFails l r _ _ => simp at hstate
  | passive s _ _ _ _ _ _ => simp [passiveOpen_eq] at hstate
  | synSent s acceptable _ _ _ _ _ =>
      obtain ⟨q, -, ⟨-, hcase⟩ | ⟨-, hcase⟩⟩ := synInSynSent_cases env p s.info acceptable
      · simp [hcase] at hstate
      · simp [hcase] at hstate
  | fin state hto =>
      rw [sendFin_eq] at hstate
      rcases hto with ⟨-, rfl⟩ | ⟨-, rfl⟩ <;> simp at hstate
  | data data sent n hfrom _ _ _ =>
      rw [sendData_eq] at hstate
      rcases hfrom with hs | hs <;> simp [hs] at hstate

/-- A segment past SYN_SENT. -/
theorem AckInv.arrived {out : Outcome} (h : AckInv p) (hguard : AcksCounted env tcp (.arrive s))
    (hout : step env tcp (.arrive s) = .ok out)
    (hselect : pcbSelect tcp.pcbs s.dst s.src = some d) (hp : tcp.get d = some p)
    (hp' : out.tcp.get d = some p') (hreach : ReachesAck p s) (harrived : Arrived p s p')
    (horder : InOrder p') (hstate : p'.state = .finWait2 ∨ p'.state = .timeWait) :
    p'.queue = [] := by
  have hactive := TcpState.isActive_of_ne hreach.state.1 hreach.state.2.1
  have hkeeps : p.queue = [] → p'.queue = [] := by
    intro hempty
    rcases harrived.send.1 with ⟨-, hqueue⟩ | ⟨-, -, -, hqueue⟩
    · rw [hqueue, hempty]
    · rw [hqueue, hempty, List.dropWhile_nil]
  rcases harrived.resting hstate with hold | ⟨hall, hfrom⟩
  · exact hkeeps (h.resting hold)
  by_cases hzero : inFlight p = 0
  · exact hkeeps ((h.order hactive).queue_eq_nil hzero)
  have hacks : AcksFlight p s.ack := by
    rw [AcksFlight, hall]
    exact ⟨Nat.pos_of_ne_zero hzero, Nat.le_refl _⟩
  obtain ⟨hclosing, -, hwrap⟩ := hguard.2 s d p rfl hselect hp hreach hacks
  have hopen : p.state.isOpen = true := by
    rw [hfrom.resolve_right hclosing]
    rfl
  -- Everything is acknowledged, and the cleanup has seen to it.
  obtain ⟨r, hr, heq⟩ := Machine.exists_of_bind_ok hout
  cases heq
  obtain ⟨hnxt, huna, -⟩ := segmentArrives_acks hselect hp hreach
    (acksNew_of_acksFlight hopen hacks (hwrap hopen)) hr hp'
  apply horder.queue_eq_nil
  rw [inFlight, hnxt, huna, hall, sub_self]
  rfl

/-- **One step**, of one block. -/
theorem AckInv.evolve {out : Outcome} (hguard : AcksCounted env tcp ev)
    (hout : step env tcp ev = .ok out) (hp : tcp.get d = some p) (h : AckInv p)
    (hp' : out.tcp.get d = some p') (hevolve : Evolve env tcp d out.reply ev p p') : AckInv p' := by
  obtain ⟨a, hinv⟩ := h.send
  have horder := InOrder.evolve hinv h.order hp hguard.1 hevolve
  refine ⟨hinv.evolve hevolve, horder, fun hstate ↦ ?_⟩
  cases hevolve with
  | keep backlog mss accepted _ => exact h.resting hstate
  | block hblock =>
      obtain ⟨hs, hqueue⟩ := hblock.resting hstate
      rw [hqueue]
      exact h.resting (hs ▸ hstate)
  | arrived s hselect hreach harrived =>
      refine h.arrived hguard hout hselect hp hp' hreach harrived (horder ?_) hstate
      rcases hstate with hs | hs <;> simp [hs, TcpState.isActive]
  | tick =>
      rcases retransEmit_cases env p with heq | ⟨f, -, heq⟩
      · simp [heq] at hstate
      · rw [heq] at hstate ⊢
        have hempty : p.queue = [] := h.resting hstate
        simp [hempty]

/-- What the timer leaves of a block. -/
theorem timer_get {out : Outcome} (hout : step env tcp .timer = .ok out) (hp : tcp.get d = some p)
    (hp' : out.tcp.get d = some p') : p' = p ∨ p' = (retransEmit env p).1 := by
  cases step_move hout with
  | idle _ _ => exact .inl (by simpa using hp'.symm.trans hp)
  | work _ hblock => cases hblock
  | birth _ hbirth => cases hbirth
  | drop _ _ hev _ _ _ _ => exact hev.elim
  | tick _ hsome _ =>
      rcases hsome d p hp with ⟨hd, -⟩ | ⟨hd, -⟩
      · exact .inr (by simpa using hp'.symm.trans hd)
      · exact absurd (hp'.symm.trans hd) (by simp)

/-- A segment that acknowledges something in flight, from a table in which all is
well. -/
theorem AckInv.settles (h : AckInv p) (hp : tcp.get d = some p)
    (hguard : AcksCounted env tcp (.arrive s)) : Settles env tcp d p s := by
  intro hselect hstate hreach hacks out hout p' hp'
  obtain ⟨hclosing, hlast, hwrap⟩ := hguard.2 s d p rfl hselect hp hreach hacks
  obtain ⟨r, hr, heq⟩ := Machine.exists_of_bind_ok hout
  cases heq
  rcases hstate with hopen | hs | hs
  · have hnew := acksNew_of_acksFlight hopen hacks (hwrap hopen)
    obtain ⟨hnxt, huna, hqueue⟩ := segmentArrives_acks hselect hp hreach hnew hr hp'
    have horder : InOrder p :=
      h.order (TcpState.isActive_of_ne hreach.state.1 hreach.state.2.1)
    refine ⟨huna, fun e he ↦ ?_⟩
    rw [hqueue] at he
    have hlt : s.ack < e.seq + e.consume :=
      horder.lt_of_mem_cleanup (BitVec.le_of_lt hnew.2.1) hnew.2.2 he
    have hbetween := horder.between e ((List.dropWhile_suffix _).subset he)
    have hle := hwrap hopen
    unfold AcksFlight at hacks
    unfold ahead at hbetween
    unfold inFlight at hbetween hacks
    rw [hnxt]
    generalize e.seq + e.consume = last at hlt hbetween ⊢
    bv_omega
  · exact absurd hs hclosing
  · -- The last ACK of the connection.
    rw [segmentArrives_otherwise env hselect hp hreach.state] at hr
    have hgone := arrivesOtherwise_lastAck env hp hs hreach (hlast hs) hr
    exact absurd (hp'.symm.trans hgone) (by simp)

end

/-- **Acknowledged data leaves the queue**: in a run in which something in flight is
acknowledged only where the ACK step counts it, every such acknowledgement moves
`snd.una` and cleans up the queue, and in FIN_WAIT2 and TIME_WAIT the queue is empty and
the timer leaves the block alone until it releases it. -/
theorem acknowledged_leaves_queue {tcp : Tcp} (h : ReachableWhen AcksCounted tcp) {d : TcpDesc}
    {p : TcpPcb} (hp : tcp.get d = some p) :
    (∀ env s, AcksCounted env tcp (.arrive s) → Settles env tcp d p s) ∧ Rests tcp d p := by
  have hinv : AckInv p := h.blocks_of_step AckInv.birth AckInv.evolve hp
  refine ⟨fun env s hguard ↦ hinv.settles hp hguard, fun hstate ↦ ?_⟩
  have hqueue := hinv.resting hstate
  refine ⟨hqueue, fun env ↦ ?_⟩
  have hquiet := retransEmit_of_nil env hqueue
  refine ⟨hquiet, fun out hout p' hp' ↦ ?_⟩
  rcases timer_get hout hp hp' with rfl | rfl
  · rfl
  · rw [hquiet]

/-- Nothing that may go wrong happens: a connection begins while every queue is empty, and
segments arrive at blocks that are neither in CLOSING nor in LAST_ACK and whose numbers do
not wrap. -/
def acksPlain (env : Env) (tcp : Tcp) (ev : Event) : Bool :=
  (!begins env tcp ev || !tcp.pcbs.any fun slot ↦ slot.any fun p ↦ p.queue ≠ []) &&
    match ev with
    | .arrive s => !((pcbSelect tcp.pcbs s.dst s.src).bind tcp.get).any fun p ↦
        p.state = .closing || p.state = .lastAck || p.snd.nxt < p.snd.una
    | _ => true

/-- While every queue is empty, a connection may begin anywhere. -/
theorem beginsClean_of_empty {env : Env} {tcp : Tcp} {ev : Event}
    (h : begins env tcp ev = true → ∀ d p, tcp.get d = some p → p.queue = []) :
    BeginsClean env tcp ev := by
  intro hbegins
  cases ev with
  | connectCall d r => exact h hbegins d
  | arrive s => exact fun d p _ hp _ ↦ h hbegins d p hp
  | _ => trivial

theorem acksCounted_of_acksPlain (env : Env) (tcp : Tcp) (ev : Event)
    (h : acksPlain env tcp ev = true) : AcksCounted env tcp ev := by
  obtain ⟨hclean, hplain⟩ := Bool.and_eq_true_iff.mp h
  refine ⟨beginsClean_of_empty fun hbegins d p hp ↦ ?_, ?_⟩
  · by_contra hne
    have hany : (tcp.pcbs.any fun slot ↦ slot.any fun p ↦ p.queue ≠ []) = true :=
      Slots.any_any_iff.mpr ⟨d, p, hp, by simpa using hne⟩
    rw [hbegins, hany] at hclean
    exact absurd hclean (by decide)
  · rintro s d p rfl hselect hp - -
    have hget : (pcbSelect tcp.pcbs s.dst s.src).bind tcp.get = some p := by rw [hselect]; exact hp
    simp only [hget, Option.any_some, Bool.not_eq_true', Bool.or_eq_false_iff,
      decide_eq_false_iff_not] at hplain
    obtain ⟨⟨hclosing, hlast⟩, hwrap⟩ := hplain
    exact ⟨hclosing, fun hs ↦ absurd hs hlast, fun _ ↦ BitVec.not_lt.mp hwrap⟩

/-- An active open that is closed. -/
def activeClose : List (Env × Event) :=
  [(calmEnv, .openCall hostEndp peerEndp true), fromPeer 500 101 (flgSyn ||| flgAck) [],
    (calmEnv, .close 0)]

/-- The segment that acknowledges the FIN of `activeClose`. -/
def ackOfFin : TcpSegment :=
  { src := peerEndp, dst := hostEndp, seq := 501, ack := 102, flg := flgAck, wnd := 1000, data := [] }

/-- The FIN leaves the queue when it is acknowledged, and FIN_WAIT2 has an empty one. -/
theorem acknowledged_leaves_queue_finWait2 :
    (∃ tcp p, ReachableWhen AcksCounted tcp ∧ tcp.get 0 = some p ∧ p.state = .finWait1 ∧
      p.queue ≠ [] ∧ ∃ out p', step calmEnv tcp (.arrive ackOfFin) = .ok out ∧
        out.tcp.get 0 = some p' ∧ p'.snd.una = 102 ∧ ∀ e ∈ p'.queue,
          0 < (e.seq + e.consume - ackOfFin.ack).toNat) ∧
      ∃ tcp p, ReachableWhen AcksCounted tcp ∧ tcp.get 0 = some p ∧ p.state = .finWait2 ∧
        p.queue = [] := by
  constructor
  · obtain ⟨tcp, hreach, htest⟩ := exists_reachableWhen acksPlain acksCounted_of_acksPlain
      (fun tcp ↦ acksPlain calmEnv tcp (.arrive ackOfFin) &&
        pcbSelect tcp.pcbs hostEndp peerEndp = some 0 &&
        ((tcp.get 0).any fun p ↦ p.state = .finWait1 && p.queue ≠ [] &&
          acceptable p ackOfFin.info && p.snd.una = 101 && p.snd.nxt = 102) &&
        Machine.okTest (step calmEnv tcp (.arrive ackOfFin)) fun out ↦ (out.tcp.get 0).isSome)
      activeClose (by decide +kernel)
    simp only [Bool.and_eq_true, decide_eq_true_eq] at htest
    obtain ⟨⟨⟨hplain, hselect⟩, hblock⟩, hstep⟩ := htest
    obtain ⟨p, hp, hblock⟩ := (Option.any_eq_true _ _).mp hblock
    simp only [Bool.and_eq_true, decide_eq_true_eq] at hblock
    obtain ⟨⟨⟨⟨hstate, hqueue⟩, hacceptable⟩, huna⟩, hnxt⟩ := hblock
    have hreaches : ReachesAck p ackOfFin :=
      ⟨by simp [hstate], hacceptable, by decide, by decide, by decide⟩
    obtain ⟨out, hout, hsome⟩ := Machine.exists_of_okTest hstep
    obtain ⟨p', hp'⟩ := Option.isSome_iff_exists.mp hsome
    obtain ⟨hsettles, -⟩ := acknowledged_leaves_queue hreach hp
    have hacks : AcksFlight p ackOfFin.ack := by
      rw [AcksFlight, inFlight, huna, hnxt]
      decide
    obtain ⟨huna', hqueue'⟩ := hsettles calmEnv ackOfFin (acksCounted_of_acksPlain _ _ _ hplain)
      hselect (.inl (by rw [hstate]; rfl)) hreaches hacks out hout p' hp'
    exact ⟨tcp, p, hreach, hp, hstate, hqueue, out, p', hout, hp', huna',
      fun e he ↦ (hqueue' e he).1⟩
  · obtain ⟨tcp, hreach, htest⟩ := exists_reachableWhen acksPlain acksCounted_of_acksPlain
      (fun tcp ↦ (tcp.get 0).any fun p ↦ p.state = .finWait2)
      (activeClose ++ [(calmEnv, .arrive ackOfFin)]) (by decide +kernel)
    obtain ⟨p, hp, htest⟩ := (Option.any_eq_true _ _).mp htest
    have hstate : p.state = .finWait2 := by simpa using htest
    obtain ⟨-, hrests⟩ := acknowledged_leaves_queue hreach hp
    exact ⟨tcp, p, hreach, hp, hstate, (hrests (.inl hstate)).1⟩

/-- Otherwise it fails: both sides close at once, the acknowledgement of the FIN arrives in
CLOSING, and in TIME_WAIT the FIN is still in the queue. -/
theorem timeWait_queue_not_empty :
    ¬ ∀ tcp, Reachable tcp → ∀ d p, tcp.get d = some p →
      (∀ env s, Settles env tcp d p s) ∧ Rests tcp d p := by
  intro hall
  obtain ⟨tcp, hreach, htest⟩ := exists_reachableWhen (fun _ _ _ ↦ true) (fun _ _ _ _ ↦ trivial)
    (fun tcp ↦ (tcp.get 0).any fun p ↦ p.state = .timeWait && p.queue ≠ [])
    (activeClose ++ [fromPeer 501 101 (flgAck ||| flgFin) [], fromPeer 502 102 flgAck []])
    (by decide +kernel)
  obtain ⟨p, hp, htest⟩ := (Option.any_eq_true _ _).mp htest
  simp only [Bool.and_eq_true, decide_eq_true_eq] at htest
  exact htest.2 ((hall tcp hreach 0 p hp).2 (.inr htest.1)).1

end Microps.Tcp
