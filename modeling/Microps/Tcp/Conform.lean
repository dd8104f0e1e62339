import Microps.Tcp.Receive
import Microps.Tcp.Select

/-!
# The state machine

`segment_arrives` is one function with early returns and steps that fall through to
the next, so one segment can take two edges of the state diagram.  `Edge` lists the
changes of state it may make and what each needs of the segment, and `Ends` the
segments on which it releases a block.
-/

namespace Microps.Tcp

/-- The changes of state that a segment may make to the block it is for. -/
inductive Edge (p : TcpPcb) (s : TcpSegment) : TcpState → Prop
  /-- A listener that is no socket takes a SYN itself. -/
  | listen (hstate : p.state = .listen) (hmode : p.mode = .rfc)
      (hsyn : flagIsset s.flg flgSyn = true) (hack : flagIsset s.flg flgAck = false)
      (hrst : flagIsset s.flg flgRst = false) : Edge p s .synReceived
  | synSent (hstate : p.state = .synSent) (hsyn : flagIsset s.flg flgSyn = true) :
      Edge p s .established
  /-- Both sides open at once. -/
  | simultaneousOpen (hstate : p.state = .synSent) (hsyn : flagIsset s.flg flgSyn = true) :
      Edge p s .synReceived
  | synReceived (hstate : p.state = .synReceived) : Edge p s .established
  /-- The segment that completes the handshake brings a FIN. -/
  | synReceivedFin (hstate : p.state = .synReceived) (hfin : flagIsset s.flg flgFin = true) :
      Edge p s .closeWait
  | established (hstate : p.state = .established) (hfin : flagIsset s.flg flgFin = true) :
      Edge p s .closeWait
  | finWait1 (hstate : p.state = .finWait1) (hack : s.ack = p.snd.nxt) : Edge p s .finWait2
  /-- The segment that acknowledges our FIN brings the peer's. -/
  | finWait1Fin (hstate : p.state = .finWait1) (hack : s.ack = p.snd.nxt)
      (hfin : flagIsset s.flg flgFin = true) : Edge p s .timeWait
  /-- Both sides close at once. -/
  | simultaneousClose (hstate : p.state = .finWait1) (hack : s.ack ≠ p.snd.nxt)
      (hfin : flagIsset s.flg flgFin = true) : Edge p s .closing
  | finWait2 (hstate : p.state = .finWait2) (hfin : flagIsset s.flg flgFin = true) :
      Edge p s .timeWait
  | closing (hstate : p.state = .closing) (hack : s.ack = p.snd.nxt) : Edge p s .timeWait

/-- The segments on which the block is released: an acceptable RST, a SYN in the
window, and the acknowledgement of the last FIN. -/
inductive Ends (p : TcpPcb) (s : TcpSegment) : Prop
  /-- In SYN_SENT a RST is acceptable when it acknowledges the SYN. -/
  | synSent (hstate : p.state = .synSent) (hrst : flagIsset s.flg flgRst = true)
      (hflg : flagIsset s.flg flgAck = true) (hiss : p.iss < s.ack) (huna : p.snd.una ≤ s.ack)
      (hnxt : s.ack ≤ p.snd.nxt)
  | rst (hstate : p.state.gotSyn = true) (hacc : acceptable p s.info = true)
      (hrst : flagIsset s.flg flgRst = true)
  | syn (hstate : p.state.gotSyn = true) (hacc : acceptable p s.info = true)
      (hsyn : flagIsset s.flg flgSyn = true)
  | lastAck (hstate : p.state = .lastAck) (hacc : acceptable p s.info = true)
      (hflg : flagIsset s.flg flgAck = true) (hack : s.ack = p.snd.nxt)

/-- What `segment_arrives` may do to the table, for a segment that is for the block
`p` in slot `d`. -/
structure Conforms (tcp : Tcp) (d : TcpDesc) (p : TcpPcb) (s : TcpSegment) (tcp' : Tcp) : Prop where
  block : (∃ p', tcp'.get d = some p' ∧ (p'.state = p.state ∨ Edge p s p'.state)) ∨
    (tcp'.get d = none ∧ Ends p s)
  /-- No other block is released on other segments either. -/
  released : ∀ j q, tcp.get j = some q → tcp'.get j = none → Ends p s
  check : p.state.gotSyn = true → acceptable p s.info = false → tcp' = tcp

section

variable {env : Env} {tcp tcp' : Tcp} {d : TcpDesc} {p p' : TcpPcb} {s : TcpSegment}

theorem Conforms.refl (hp : tcp.get d = some p) (s : TcpSegment) : Conforms tcp d p s tcp where
  block := .inl ⟨p, hp, .inl rfl⟩
  released j q hq hn := absurd (hq.symm.trans hn) (by simp)
  check _ _ := rfl

/-- The block makes a step, and no slot is emptied. -/
theorem Conforms.of_edge (hp' : tcp'.get d = some p') (hedge : p'.state = p.state ∨ Edge p s p'.state)
    (hkeep : ∀ j, tcp'.get j = none → tcp.get j = none)
    (hcheck : p.state.gotSyn = true → acceptable p s.info = true) :
    Conforms tcp d p s tcp' where
  block := .inl ⟨p', hp', hedge⟩
  released j q hq hn := absurd (hq.symm.trans (hkeep j hn)) (by simp)
  check hstate hacc := absurd ((hcheck hstate).symm.trans hacc) (by simp)

theorem Conforms.of_ends (hp : tcp.get d = some p) {q : TcpPcb}
    (hq : { q with state := .closed } = { p with state := .closed }) (hends : Ends p s)
    (hcheck : p.state.gotSyn = true → acceptable p s.info = true) :
    Conforms tcp d p s (closeAndRelease env tcp d q).1 where
  block := by
    rw [closeAndRelease, hq]
    exact .inr ⟨(pcbRelease_closed_spec env hp).1.freed, hends⟩
  released _ _ _ _ := hends
  check hstate hacc := absurd ((hcheck hstate).symm.trans hacc) (by simp)

/-! ## LISTEN and SYN_SENT -/

theorem listenTarget_ok (tcp : Tcp) (d : TcpDesc) (p : TcpPcb) :
    ∃ target, listenTarget tcp d p = .ok target := by
  unfold listenTarget
  split
  · split
    · exact ⟨_, rfl⟩
    · split
      · exact ⟨_, rfl⟩
      · next c tcp' halloc =>
        rw [get_pcbAlloc halloc]
        exact ⟨_, rfl⟩
  · exact ⟨_, rfl⟩

theorem arrivesListen_conforms (env : Env) (hp : tcp.get d = some p) (hstate : p.state = .listen)
    (s : TcpSegment) :
    ∃ r, arrivesListen env tcp d p s.info s.flg s.dst s.src = .ok r ∧ Conforms tcp d p s r.1 := by
  have hnosyn : ¬ p.state.gotSyn = true := by simp [hstate, TcpState.gotSyn]
  unfold arrivesListen
  split
  · exact ⟨_, rfl, .refl hp s⟩
  next hrst =>
  split
  · exact ⟨_, rfl, .refl hp s⟩
  next hack =>
  split
  · next hsyn =>
    obtain ⟨target, htarget⟩ := listenTarget_ok tcp d p
    rw [htarget]
    rcases listenTarget_cases htarget with rfl | ⟨hmode, rfl⟩ |
      ⟨c, tcp', hmode, hroom, halloc, rfl⟩
    · exact ⟨_, rfl, .refl hp s⟩
    · simp only [bind, Except.bind, hp, unwrap]
      have hset := get_set hp (passiveOpen env p s.info s.dst s.src).1
      refine ⟨_, rfl, .of_edge (by rw [hset, if_pos rfl]) (.inr ?_) (fun j hj ↦ ?_)
        fun h ↦ absurd h hnosyn⟩
      · rw [passiveOpen_eq]
        exact .listen hstate hmode hsyn (by simpa using hack) (by simpa using hrst)
      · rw [hset] at hj
        split at hj
        · exact absurd hj (by simp)
        · exact hj
    · simp only [bind, Except.bind, get_birth halloc, if_pos, unwrap]
      have hset := get_birth halloc (passiveOpen env { TcpPcb.empty tcp.nextTask with
        parentDesc := some d, hist := { creator := some p.task } } s.info s.dst s.src).1
      have hne : d ≠ c := by
        rintro rfl
        exact absurd (hp.symm.trans (pcbAlloc_spec halloc).1) (by simp)
      refine ⟨_, rfl, .of_edge (show Tcp.get _ d = some p from ?_) (.inl rfl) (fun j hj ↦ ?_)
        fun h ↦ absurd h hnosyn⟩
      · rw [set_set, hset, if_neg hne, hp]
      · rw [set_set, hset] at hj
        split at hj
        · exact absurd hj (by simp)
        · exact hj
  · exact ⟨_, rfl, .refl hp s⟩

theorem arrivesSynSent_conforms (env : Env) (hp : tcp.get d = some p) (hstate : p.state = .synSent)
    (s : TcpSegment) :
    Conforms tcp d p s (arrivesSynSent env tcp d p s.info s.flg s.dst s.src).1 := by
  have hnosyn : ¬ p.state.gotSyn = true := by simp [hstate, TcpState.gotSyn]
  unfold arrivesSynSent
  simp only
  split
  · exact .refl hp s
  next hbad =>
  split
  · next hrst =>
    split
    · next hacc =>
      have hacc : flagIsset s.flg flgAck = true ∧ p.snd.una ≤ s.ack ∧ s.ack ≤ p.snd.nxt := by
        simpa [TcpSegment.info] using hacc
      have hiss : p.iss < s.ack := by
        by_contra hle
        exact hbad ⟨hacc.1, .inl (by simpa [TcpSegment.info] using hle)⟩
      exact .of_ends hp rfl (.synSent hstate hrst hacc.1 hiss hacc.2.1 hacc.2.2)
        fun h ↦ absurd h hnosyn
    · exact .refl hp s
  · split
    · next hsyn =>
      generalize decide (flagIsset s.flg flgAck = true ∧ p.snd.una ≤ s.info.ack ∧
        s.info.ack ≤ p.snd.nxt) = acc
      have hset := get_set hp (synInSynSent env p s.info acc).1
      refine .of_edge (by rw [hset, if_pos rfl]) (.inr ?_) (fun j hj ↦ ?_) fun h ↦ absurd h hnosyn
      · obtain ⟨q, -, hcases⟩ := synInSynSent_cases env p s.info acc
        rcases hcases with ⟨-, hcase⟩ | ⟨-, hcase⟩
        · rw [hcase]
          exact .synSent hstate hsyn
        · rw [hcase]
          exact .simultaneousOpen hstate hsyn
      · rw [hset] at hj
        split at hj
        · exact absurd hj (by simp)
        · exact hj
    · exact .refl hp s

/-! ## Past SYN_SENT -/

/-- The ACK step takes one edge or none. -/
theorem Edge.afterAck (p : TcpPcb) (s : TcpSegment) :
    p.state.afterAck (s.ack = p.snd.nxt) = p.state ∨
      Edge p s (p.state.afterAck (s.ack = p.snd.nxt)) := by
  by_cases hack : s.ack = p.snd.nxt
  · cases hstate : p.state with
    | synReceived => exact .inr (.synReceived hstate)
    | finWait1 =>
        simp only [hack, TcpState.afterAck, decide_true, if_true]
        exact .inr (.finWait1 hstate hack)
    | closing =>
        simp only [hack, TcpState.afterAck, decide_true, if_true]
        exact .inr (.closing hstate hack)
    | _ => exact .inl rfl
  · cases hstate : p.state with
    | synReceived => exact .inr (.synReceived hstate)
    | finWait1 | closing => exact .inl (by simp [hack, TcpState.afterAck])
    | _ => exact .inl rfl

/-- The ACK step and the FIN step together. -/
theorem Edge.afterFin (p : TcpPcb) {s : TcpSegment} (hfin : flagIsset s.flg flgFin = true) :
    (p.state.afterAck (s.ack = p.snd.nxt)).afterFin (s.ack = p.snd.nxt) = p.state ∨
      Edge p s ((p.state.afterAck (s.ack = p.snd.nxt)).afterFin (s.ack = p.snd.nxt)) := by
  by_cases hack : s.ack = p.snd.nxt
  · simp only [hack, decide_true]
    cases hstate : p.state with
    | synReceived => exact .inr (.synReceivedFin hstate hfin)
    | established => exact .inr (.established hstate hfin)
    | finWait1 => exact .inr (.finWait1Fin hstate hack hfin)
    | finWait2 => exact .inr (.finWait2 hstate hfin)
    | closing => exact .inr (.closing hstate hack)
    | _ => exact .inl rfl
  · simp only [hack, decide_false]
    cases hstate : p.state with
    | synReceived => exact .inr (.synReceivedFin hstate hfin)
    | established => exact .inr (.established hstate hfin)
    | finWait1 => exact .inr (.simultaneousClose hstate hack hfin)
    | finWait2 => exact .inr (.finWait2 hstate hfin)
    | _ => exact .inl rfl

theorem Arrived.edge (h : Arrived p s p') : p'.state = p.state ∨ Edge p s p'.state := by
  rcases h.after with heq | ⟨hfin, heq⟩
  · rw [heq]
    exact Edge.afterAck p s
  · rw [heq]
    exact Edge.afterFin p hfin

/-- Joining a backlog changes nothing but backlogs. -/
theorem get_joinBacklog (hp : tcp.get d = some p) (parent : Option TcpDesc) :
    (∃ backlog, (tcp.joinBacklog d parent).1.get d = some { p with backlog := backlog }) ∧
      ∀ j, (tcp.joinBacklog d parent).1.get j = none → tcp.get j = none := by
  unfold joinBacklog
  split
  · exact ⟨⟨p.backlog, hp⟩, fun j hj ↦ hj⟩
  split
  · exact ⟨⟨p.backlog, hp⟩, fun j hj ↦ hj⟩
  next _ l _ q hq =>
  have hset := get_set hq { q with backlog := q.backlog ++ [d] }
  refine ⟨?_, fun j hj ↦ ?_⟩
  · by_cases hdl : d = l
    · subst hdl
      obtain rfl : p = q := by simpa using hp.symm.trans hq
      exact ⟨p.backlog ++ [d], by rw [hset, if_pos rfl]⟩
    · exact ⟨p.backlog, by rw [hset, if_neg hdl, hp]⟩
  · rw [hset] at hj
    split at hj
    · exact absurd hj (by simp)
    · exact hj

/-- A segment that gets past the ACK step goes on to its text, in the block that the step left. -/
theorem arrivesOtherwise_go (env : Env) (hp : tcp.get d = some p) (hreach : ReachesAck p s)
    (hpass : passesAck p s.info) :
    ∃ r p', arrivesOtherwise env tcp d p s.info s.flg s.data s.dst s.src = .ok r ∧
      r.1.get d = some p' ∧ (∃ q es backlog es', AckStep p s.info q es ∧
        (checkAck env p s.info s.flg s.dst s.src).1 = .go q es ∧
        textAndFin env { q with backlog := backlog } s.info s.flg s.data = .ok (p', es')) ∧
      ∀ j, r.1.get j = none → tcp.get j = none := by
  unfold arrivesOtherwise
  rw [if_neg (by simp [hreach.acceptable]), if_neg (by simp [hreach.rst]),
    if_neg (by simp [hreach.syn]), if_neg (by simp [hreach.ack])]
  rcases checkAck_cases env s.info s.flg s.dst s.src hreach.state with
    ⟨q, es, hstep, hcheck⟩ | ⟨hno, -⟩ | ⟨hlast, -, -⟩
  · rw [hcheck]
    generalize (if p.state = .synReceived then p.parentDesc else none) = parent
    have hset := get_set hp q
    obtain ⟨⟨backlog, hget⟩, hkeep⟩ := get_joinBacklog
      (show (tcp.set d q).get d = some q by rw [hset, if_pos rfl]) parent
    simp only [hget, unwrap, bind, Except.bind]
    have htext := textAndFin_eq env { q with backlog := backlog } s.info s.flg s.data
    revert htext
    generalize (if hasText { q with backlog := backlog } s.data then _ else _) = r
    intro htext
    rw [htext]
    have hput := get_set hget r.1
    refine ⟨_, r.1, rfl, by rw [hput, if_pos rfl], ⟨q, es, backlog, r.2, hstep, rfl, htext⟩,
      fun j hj ↦ ?_⟩
    rw [hput] at hj
    split at hj
    · exact absurd hj (by simp)
    · have hj := hkeep j hj
      rw [hset] at hj
      split at hj
      · exact absurd hj (by simp)
      · exact hj
  · exact absurd hpass hno
  · simp [passesAck, hlast] at hpass

/-- A segment that gets past the ACK step goes on to its text. -/
theorem arrivesOtherwise_text (env : Env) (hp : tcp.get d = some p) (hreach : ReachesAck p s)
    (hpass : passesAck p s.info) :
    ∃ r p', arrivesOtherwise env tcp d p s.info s.flg s.data s.dst s.src = .ok r ∧
      r.1.get d = some p' ∧ (∃ q es backlog es', AckStep p s.info q es ∧
        textAndFin env { q with backlog := backlog } s.info s.flg s.data = .ok (p', es')) ∧
      ∀ j, r.1.get j = none → tcp.get j = none := by
  obtain ⟨r, p', hr, hp', ⟨q, es, backlog, es', hstep, -, htext⟩, hkeep⟩ :=
    arrivesOtherwise_go env hp hreach hpass
  exact ⟨r, p', hr, hp', ⟨q, es, backlog, es', hstep, htext⟩, hkeep⟩

theorem arrivesOtherwise_arrived (env : Env) (hp : tcp.get d = some p) (hreach : ReachesAck p s)
    (hpass : passesAck p s.info) :
    ∃ r p', arrivesOtherwise env tcp d p s.info s.flg s.data s.dst s.src = .ok r ∧
      r.1.get d = some p' ∧ Arrived p s p' ∧ ∀ j, r.1.get j = none → tcp.get j = none := by
  obtain ⟨r, p', hr, hp', ⟨q, es, backlog, es', hstep, htext⟩, hkeep⟩ :=
    arrivesOtherwise_text env hp hreach hpass
  exact ⟨r, p', hr, hp', arrived backlog hreach.state hstep htext, hkeep⟩

theorem arrivesOtherwise_conforms (env : Env) (hp : tcp.get d = some p)
    (hstate : p.state.gotSyn = true) (s : TcpSegment) :
    ∃ r, arrivesOtherwise env tcp d p s.info s.flg s.data s.dst s.src = .ok r ∧
      Conforms tcp d p s r.1 := by
  have hpast := (TcpState.gotSyn_iff _).mp hstate
  by_cases harrived : ReachesAck p s ∧ passesAck p s.info
  · obtain ⟨r, p', hr, hp', harrived', hkeep⟩ := arrivesOtherwise_arrived env hp harrived.1 harrived.2
    exact ⟨r, hr, .of_edge hp' harrived'.edge hkeep fun _ ↦ harrived.1.acceptable⟩
  unfold arrivesOtherwise
  split
  · split
    · exact ⟨_, rfl, .refl hp s⟩
    · exact ⟨_, rfl, .refl hp s⟩
  next hacc =>
  have hacc : acceptable p s.info = true := by simpa using hacc
  split
  · next hrst => exact ⟨_, rfl, .of_ends hp rfl (.rst hstate hacc hrst) fun _ ↦ hacc⟩
  next hrst =>
  split
  · next hsyn =>
    rw [output_rst]
    exact ⟨_, rfl, .of_ends hp rfl (.syn hstate hacc hsyn) fun _ ↦ hacc⟩
  next hsyn =>
  split
  · exact ⟨_, rfl, .refl hp s⟩
  next hflg =>
  have hreach : ReachesAck p s :=
    ⟨hpast, hacc, by simpa using hrst, by simpa using hsyn, by simpa using hflg⟩
  rcases checkAck_cases env s.info s.flg s.dst s.src hpast with
    ⟨q, es, hstep, hcheck⟩ | ⟨-, es, hcheck, -⟩ | ⟨hlast, hack, hcheck⟩
  · exact absurd ⟨hreach, hstep.passes⟩ harrived
  · rw [hcheck]
    refine ⟨_, rfl, ?_⟩
    simp only
    rw [Tcp.set, Slots.put_peek hp]
    exact .refl hp s
  · rw [hcheck]
    exact ⟨_, rfl, .of_ends hp rfl (.lastAck hlast hacc hreach.ack hack) fun _ ↦ hacc⟩

/-- Past SYN_SENT, `segment_arrives` goes through its eight checks. -/
theorem segmentArrives_otherwise (env : Env) (hselect : pcbSelect tcp.pcbs s.dst s.src = some d)
    (hp : tcp.get d = some p)
    (hstate : p.state ≠ .closed ∧ p.state ≠ .listen ∧ p.state ≠ .synSent) :
    segmentArrives env tcp s =
      arrivesOtherwise env tcp d p s.info s.flg s.data s.dst s.src := by
  obtain ⟨hclosed, hlisten, hsent⟩ := hstate
  unfold segmentArrives
  simp only [hselect, hp, unwrap, bind, Except.bind]

theorem segmentArrives_arrived (env : Env) (hselect : pcbSelect tcp.pcbs s.dst s.src = some d)
    (hp : tcp.get d = some p) (hreach : ReachesAck p s) (hpass : passesAck p s.info) :
    ∃ r p', segmentArrives env tcp s = .ok r ∧ r.1.get d = some p' ∧ Arrived p s p' := by
  obtain ⟨r, p', hr, hp', harrived, -⟩ := arrivesOtherwise_arrived env hp hreach hpass
  exact ⟨r, p', (segmentArrives_otherwise env hselect hp hreach.state).trans hr, hp', harrived⟩

end

/-! ## Conformance -/

/-- **Conformance to the state machine**: on every table and every segment
`segment_arrives` returns.  The block that the segment is for keeps its state, takes
one of the edges, or is released; a block is released only on an acceptable RST, on a
SYN in the window or, in LAST_ACK, on the acknowledgement of the FIN; and a segment
that fails the sequence check leaves the whole table alone. -/
theorem segmentArrives_conforms (env : Env) (tcp : Tcp) (s : TcpSegment) :
    ∃ r, segmentArrives env tcp s = .ok r ∧
      (pcbSelect tcp.pcbs s.dst s.src = none → r.1 = tcp) ∧
      ∀ d, pcbSelect tcp.pcbs s.dst s.src = some d →
        ∃ p, tcp.get d = some p ∧
          ((∃ p', r.1.get d = some p' ∧ (p'.state = p.state ∨ Edge p s p'.state)) ∨
            (r.1.get d = none ∧ Ends p s)) ∧
          (∀ j q, tcp.get j = some q → r.1.get j = none → Ends p s) ∧
          (p.state.gotSyn = true → acceptable p s.info = false → r.1 = tcp) := by
  unfold segmentArrives
  cases hselect : pcbSelect tcp.pcbs s.dst s.src with
  | none => exact ⟨_, rfl, fun _ ↦ rfl, by simp⟩
  | some d =>
      obtain ⟨p, hp, -, -⟩ := pcbSelect_some hselect
      have hdone : ∀ {x : Checked (Tcp × List Effect)},
          (∃ r, x = .ok r ∧ Conforms tcp d p s r.1) →
          ∃ r, x = .ok r ∧ (some d = none → r.1 = tcp) ∧ ∀ c, some d = some c →
            ∃ p, tcp.get c = some p ∧
              ((∃ p', r.1.get c = some p' ∧ (p'.state = p.state ∨ Edge p s p'.state)) ∨
                (r.1.get c = none ∧ Ends p s)) ∧
              (∀ j q, tcp.get j = some q → r.1.get j = none → Ends p s) ∧
              (p.state.gotSyn = true → acceptable p s.info = false → r.1 = tcp) := by
        rintro x ⟨r, hr, hconforms⟩
        refine ⟨r, hr, by simp, ?_⟩
        rintro _ ⟨⟩
        exact ⟨p, hp, hconforms.block, hconforms.released, hconforms.check⟩
      simp only [show tcp.get d = some p from hp, unwrap, bind, Except.bind]
      cases hstate : p.state with
      | closed => exact hdone ⟨_, rfl, .refl hp s⟩
      | listen => exact hdone (arrivesListen_conforms env hp hstate s)
      | synSent => exact hdone ⟨_, rfl, arrivesSynSent_conforms env hp hstate s⟩
      | _ => exact hdone (arrivesOtherwise_conforms env hp (by simp [hstate, TcpState.gotSyn]) s)

end Microps.Tcp
