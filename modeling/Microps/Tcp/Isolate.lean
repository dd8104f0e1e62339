import Microps.Tcp.Decision
import Microps.Tcp.Drain

/-!
# Whom a segment touches

`segment_arrives` has the whole table in its hands, and it allocates, links and releases
slots on its way.  Two questions about a single call: which slots may differ after it, and
to whom it sends when the segment was a reset.
-/

namespace Microps.Tcp

/-! ## Slots -/

/-- What a segment for the block `p` in slot `d` may do to slot `j`. -/
inductive Touches (tcp : Tcp) (d : TcpDesc) (p : TcpPcb) (tcp' : Tcp) (j : TcpDesc) : Prop
  | unchanged (hget : tcp'.get j = tcp.get j)
  /-- The slot is the one the segment is for. -/
  | chosen (heq : j = d)
  /-- The slot was free and is given to a child of the listening socket. -/
  | child (hstate : p.state = .listen) (hmode : p.mode = .socket) (hempty : tcp.get j = none)
      (halloc : ∃ tcp₁, tcp.pcbAlloc = some (j, tcp₁))
  /-- The parent of the block has it appended to its backlog, and keeps the rest. -/
  | parent (q : TcpPcb) (hparent : p.parentDesc = some j) (hq : tcp.get j = some q)
      (hq' : tcp'.get j = some { q with backlog := q.backlog ++ [d] })
  /-- The block is released, and with it the slots reached from it. -/
  | released (hd : tcp'.get d = none) (hlinked : Linked tcp.pcbs d j) (hj : tcp'.get j = none)

section

variable {env : Env} {tcp : Tcp} {d : TcpDesc} {p : TcpPcb} {s : TcpSegment}

/-- A write to the chosen slot touches no other. -/
theorem Touches.set (hp : tcp.get d = some p) (q : TcpPcb) (j : TcpDesc) :
    Touches tcp d p (tcp.set d q) j := by
  by_cases hj : j = d
  · exact .chosen hj
  · exact .unchanged (by rw [get_set hp, if_neg hj])

theorem Touches.closeAndRelease (env : Env) (hp : tcp.get d = some p) {q : TcpPcb}
    (hq : q.backlog = p.backlog) (j : TcpDesc) :
    Touches tcp d p (Tcp.closeAndRelease env tcp d q).1 j := by
  by_cases hlinked : Linked tcp.pcbs d j
  · exact .released (get_closeAndRelease_of_linked env hp hq .refl) hlinked
      (get_closeAndRelease_of_linked env hp hq hlinked)
  · exact .unchanged (get_closeAndRelease_of_not_linked env hp hq hlinked)

/-- Joining the backlog of the parent writes to the parent's slot. -/
theorem Touches.joinBacklog (hp : tcp.get d = some p) (q : TcpPcb) {parent : Option TcpDesc}
    (hparent : parent = none ∨ parent = p.parentDesc) (j : TcpDesc) :
    Touches tcp d p ((tcp.set d q).joinBacklog d parent).1 j := by
  unfold Tcp.joinBacklog
  split
  · exact .set hp q j
  next l =>
  have hl : p.parentDesc = some l := by
    rcases hparent with hparent | hparent
    · exact absurd hparent (by simp)
    · exact hparent.symm
  split
  · exact .set hp q j
  next r hr =>
  by_cases hjd : j = d
  · exact .chosen hjd
  by_cases hjl : j = l
  · subst hjl
    have hold : tcp.get j = some r := by rwa [get_set hp, if_neg hjd] at hr
    exact .parent r hl hold (by rw [get_set hr, if_pos rfl])
  · exact .unchanged (by rw [get_set hr, if_neg hjl, get_set hp, if_neg hjd])

/-- One more write to the chosen slot changes nothing about the others. -/
theorem Touches.then_set {tcp' : Tcp} {q : TcpPcb} (hq : tcp'.get d = some q) (q' : TcpPcb)
    {j : TcpDesc} (h : Touches tcp d p tcp' j) : Touches tcp d p (tcp'.set d q') j := by
  by_cases hj : j = d
  · exact .chosen hj
  have hset : (tcp'.set d q').get j = tcp'.get j := by rw [get_set hq, if_neg hj]
  cases h with
  | unchanged hget => exact .unchanged (hset.trans hget)
  | chosen heq => exact .chosen heq
  | child hstate hmode hempty halloc => exact .child hstate hmode hempty halloc
  | parent r hparent hr hr' => exact .parent r hparent hr (hset.trans hr')
  | released hd _ _ => exact absurd (hq.symm.trans hd) (by simp)

/-- The parent that a decision hands on is that of the block. -/
theorem flow_parent (env : Env) (p : TcpPcb) (s : TcpSegment) (v : Decision) :
    (flow env p s v).2 = none ∨ (flow env p s v).2 = p.parentDesc := by
  cases v with
  | synSent v => exact .inl rfl
  | check acceptable => exact .inl rfl
  | ack v =>
      cases v with
      | answer => exact .inl rfl
      | refuse => exact .inl rfl
      | pass news =>
          simp only [flow, passFlow]
          split
          · exact .inr rfl
          · exact .inl rfl
          · exact .inl rfl
          · exact .inl rfl
          · exact .inl rfl
          · exact .inl rfl

/-- Whatever `segment_arrives` decides, it returns, and touches only those slots. -/
theorem finish_touches (env : Env) (hp : tcp.get d = some p) (s : TcpSegment) {f : Flow}
    {parent : Option TcpDesc} (hf : f.pcb.backlog = p.backlog)
    (hparent : parent = none ∨ parent = p.parentDesc) :
    ∃ r, finish env tcp d s (f, parent) = .ok r ∧ ∀ j, Touches tcp d p r.1 j := by
  cases f with
  | halt q es => exact ⟨_, rfl, Touches.set hp q⟩
  | release q es => exact ⟨_, rfl, Touches.closeAndRelease env hp hf⟩
  | go q es =>
      have hset : (tcp.set d q).get d = some q := by rw [get_set hp, if_pos rfl]
      obtain ⟨⟨backlog, hget⟩, -⟩ := get_joinBacklog hset parent
      simp only [finish, hget, unwrap, bind, Except.bind, textAndFin_eq]
      exact ⟨_, rfl, fun j ↦ (Touches.joinBacklog hp q hparent j).then_set hget _⟩

theorem arrivesListen_touches (env : Env) (hp : tcp.get d = some p) (hstate : p.state = .listen)
    (s : TcpSegment) :
    ∃ r, arrivesListen env tcp d p s.info s.flg s.dst s.src = .ok r ∧
      ∀ j, Touches tcp d p r.1 j := by
  have hsame : ∀ j, Touches tcp d p tcp j := fun j ↦ .unchanged rfl
  unfold arrivesListen
  split
  · exact ⟨_, rfl, hsame⟩
  split
  · exact ⟨_, rfl, hsame⟩
  split
  · obtain ⟨target, htarget⟩ := listenTarget_ok tcp d p
    rw [htarget]
    rcases listenTarget_cases htarget with rfl | ⟨-, rfl⟩ | ⟨c, tcp', hmode, -, halloc, rfl⟩
    · exact ⟨_, rfl, hsame⟩
    · simp only [bind, Except.bind, hp, unwrap]
      exact ⟨_, rfl, Touches.set hp _⟩
    · simp only [bind, Except.bind, get_birth halloc, if_pos, unwrap]
      refine ⟨_, rfl, fun j ↦ ?_⟩
      rw [set_set]
      by_cases hj : j = c
      · subst hj
        exact .child hstate hmode (pcbAlloc_spec halloc).1 ⟨tcp', halloc⟩
      · exact .unchanged (by rw [get_birth halloc, if_neg hj])
  · exact ⟨_, rfl, hsame⟩

end

/-- **Connection isolation**: on every table and every segment `segment_arrives` returns, and
every slot is as before, except the one `pcb_select` chose, the one given to a new child of a
listening socket, the parent of the chosen block, whose backlog grows by one at its end, and,
when the chosen block is released, the slots that are reached from it through backlogs. -/
theorem segmentArrives_isolates (env : Env) (tcp : Tcp) (s : TcpSegment) :
    ∃ r, segmentArrives env tcp s = .ok r ∧
      (pcbSelect tcp.pcbs s.dst s.src = none → r.1 = tcp) ∧
      ∀ d, pcbSelect tcp.pcbs s.dst s.src = some d →
        ∃ p, tcp.get d = some p ∧ ∀ j, Touches tcp d p r.1 j := by
  cases hselect : pcbSelect tcp.pcbs s.dst s.src with
  | none =>
      refine ⟨(tcp, arrivesClosed s.info s.flg s.dst s.src), ?_, fun _ ↦ rfl, by simp⟩
      simp only [segmentArrives, hselect]
      rfl
  | some d =>
      obtain ⟨p, hp, -, -⟩ := pcbSelect_some hselect
      suffices htouches : ∃ r, segmentArrives env tcp s = .ok r ∧ ∀ j, Touches tcp d p r.1 j by
        obtain ⟨r, hr, hall⟩ := htouches
        refine ⟨r, hr, by simp, ?_⟩
        rintro _ ⟨⟩
        exact ⟨p, hp, hall⟩
      by_cases hclosed : p.state = .closed
      · refine ⟨(tcp, arrivesClosed s.info s.flg s.dst s.src), ?_, fun j ↦ .unchanged rfl⟩
        simp only [segmentArrives, hselect, show tcp.get d = some p from hp, unwrap, bind,
          Except.bind, hclosed]
        rfl
      by_cases hlisten : p.state = .listen
      · obtain ⟨r, hr, hall⟩ := arrivesListen_touches env hp hlisten s
        refine ⟨r, ?_, hall⟩
        simp only [segmentArrives, hselect, show tcp.get d = some p from hp, unwrap, bind,
          Except.bind, hlisten]
        exact hr
      · rw [segmentArrives_eq_finish env hselect hp ⟨hclosed, hlisten⟩]
        exact finish_touches env hp s (flow_pcb env p s (decision p s)).2
          (flow_parent env p s (decision p s))

/-! ## Answers to a reset -/

/-- In SYN_SENT, the acknowledgement is not one of our SYN. -/
def RefusesAck (p : TcpPcb) (s : TcpSegment) : Prop :=
  p.state = .synSent ∧ flagIsset s.flg flgAck = true ∧ (s.ack ≤ p.iss ∨ s.ack > p.snd.nxt)

/-- The numbers of a reset are such that it ends the connection. -/
def ResetEnds (p : TcpPcb) (s : TcpSegment) : Prop :=
  (p.state = .synSent ∧ flagIsset s.flg flgAck = true ∧ p.snd.una ≤ s.ack ∧ s.ack ≤ p.snd.nxt) ∨
    (p.state.gotSyn = true ∧ acceptable p s.info = true)

/-- A call returns and sends nothing to `endp`. -/
def SilentTo (endp : IpEndp) (x : Checked (Tcp × List Effect)) : Prop :=
  ∃ r, x = .ok r ∧ ∀ seg, .emit seg ∈ r.2 → seg.dst ≠ endp

section

variable {env : Env} {tcp : Tcp} {d : TcpDesc} {p : TcpPcb} {s : TcpSegment}

theorem silentTo_ok (endp : IpEndp) (r : Tcp × List Effect) :
    SilentTo endp (.ok r) ↔ ∀ seg, .emit seg ∈ r.2 → seg.dst ≠ endp := by
  constructor
  · rintro ⟨_, ⟨⟩, h⟩
    exact h
  · intro h
    exact ⟨r, rfl, h⟩

theorem silentTo_nil (endp : IpEndp) (tcp : Tcp) : SilentTo endp (.ok (tcp, [])) :=
  (silentTo_ok _ _).mpr (by simp)

/-- The reset that answers a refused acknowledgement goes to the sender. -/
theorem not_silentTo_rstFor (tcp : Tcp) (s : TcpSegment) :
    ¬ SilentTo s.src (.ok (tcp, [rstFor s.info s.dst s.src])) := by
  intro h
  exact (silentTo_ok _ _).mp h _ (List.mem_singleton.mpr rfl) rfl

/-- A release is silent to an endpoint that is the peer of none of the blocks it resets. -/
theorem silentTo_closeAndRelease (env : Env) (hp : tcp.get d = some p) (endp : IpEndp) :
    SilentTo endp (.ok (closeAndRelease env tcp d p)) ↔ ∀ j q, j ≠ d → Linked tcp.pcbs d j →
      tcp.get j = some q → q.state ≠ .closed → q.remoteEndp ≠ endp := by
  rw [silentTo_ok]
  constructor
  · intro h j q hj hlinked hq hstate
    exact h (resetOf q)
      ((emit_mem_closeAndRelease env hp rfl _).mpr ⟨j, q, hj, hlinked, hq, hstate, rfl⟩)
  · intro h seg hseg
    obtain ⟨j, q, hj, hlinked, hq, hstate, rfl⟩ := (emit_mem_closeAndRelease env hp rfl _).mp hseg
    exact h j q hj hlinked hq hstate

/-- What `segment_arrives` does with a reset in SYN_SENT. -/
theorem arrivesSynSent_rst (env : Env) (tcp : Tcp) (d : TcpDesc) (hstate : p.state = .synSent)
    (hrst : flagIsset s.flg flgRst = true) :
    (RefusesAck p s ∧ arrivesSynSent env tcp d p s.info s.flg s.dst s.src =
        (tcp, [rstFor s.info s.dst s.src])) ∨
      (¬ RefusesAck p s ∧ ResetEnds p s ∧ arrivesSynSent env tcp d p s.info s.flg s.dst s.src =
        closeAndRelease env tcp d p) ∨
      (¬ RefusesAck p s ∧ ¬ ResetEnds p s ∧
        arrivesSynSent env tcp d p s.info s.flg s.dst s.src = (tcp, [])) := by
  have hgot : ¬ p.state.gotSyn = true := by simp [hstate, TcpState.gotSyn]
  unfold arrivesSynSent RefusesAck ResetEnds
  simp only [hstate, true_and, show s.info.ack = s.ack from rfl]
  split
  · next hbad => exact .inl ⟨hbad, rfl⟩
  next hbad =>
  right
  simp only [decide_eq_true_eq]
  split
  · next hgood => exact .inl ⟨hbad, .inl hgood, rfl⟩
  · next hgood =>
    refine .inr ⟨hbad, ?_, rfl⟩
    rintro (hends | ⟨hends, -⟩)
    · exact hgood hends
    · exact absurd hends (by simp [TcpState.gotSyn])

/-- What it does with one past SYN_SENT. -/
theorem arrivesOtherwise_rst (env : Env) (tcp : Tcp) (d : TcpDesc)
    (hstate : p.state.gotSyn = true) (hrst : flagIsset s.flg flgRst = true) :
    (ResetEnds p s ∧ arrivesOtherwise env tcp d p s.info s.flg s.data s.dst s.src =
        .ok (closeAndRelease env tcp d p)) ∨
      (¬ ResetEnds p s ∧ arrivesOtherwise env tcp d p s.info s.flg s.data s.dst s.src =
        .ok (tcp, [])) := by
  obtain ⟨-, -, hsent⟩ := (TcpState.gotSyn_iff _).mp hstate
  unfold arrivesOtherwise ResetEnds
  cases hacc : acceptable p s.info with
  | false =>
      refine .inr ⟨by simp [hsent], ?_⟩
      simp only [hrst, Bool.not_false, if_true]
      rfl
  | true =>
      refine .inl ⟨.inr ⟨hstate, rfl⟩, ?_⟩
      simp only [hrst, Bool.not_true, Bool.false_eq_true, if_false, if_true]
      rfl

end

/-- **When a reset is answered**: `segment_arrives` sends nothing to the sender of a reset
exactly when the segment is for no block in SYN_SENT that refuses its acknowledgement, and,
if it ends the connection of the block it is for, no other open connection with the same peer
is queued behind that block. -/
theorem reset_unanswered_iff (env : Env) (tcp : Tcp) (s : TcpSegment)
    (hrst : flagIsset s.flg flgRst = true) :
    (∃ r, segmentArrives env tcp s = .ok r ∧ ∀ seg, .emit seg ∈ r.2 → seg.dst ≠ s.src) ↔
      ∀ d p, pcbSelect tcp.pcbs s.dst s.src = some d → tcp.get d = some p →
        ¬ RefusesAck p s ∧ (ResetEnds p s → ∀ j q, j ≠ d → Linked tcp.pcbs d j →
          tcp.get j = some q → q.state ≠ .closed → q.remoteEndp ≠ s.src) := by
  change SilentTo s.src (segmentArrives env tcp s) ↔ _
  have hquiet : arrivesClosed s.info s.flg s.dst s.src = [] := by
    simp only [arrivesClosed, hrst, if_true]
  cases hselect : pcbSelect tcp.pcbs s.dst s.src with
  | none =>
      have hcall : segmentArrives env tcp s = .ok (tcp, []) := by
        simp only [segmentArrives, hselect, hquiet]
        rfl
      rw [hcall]
      exact ⟨fun _ ↦ by simp, fun _ ↦ silentTo_nil _ _⟩
  | some d =>
      obtain ⟨p, hp, -, -⟩ := pcbSelect_some hselect
      -- The condition is about the chosen block alone.
      suffices hone : SilentTo s.src (segmentArrives env tcp s) ↔ ¬ RefusesAck p s ∧
          (ResetEnds p s → ∀ j q, j ≠ d → Linked tcp.pcbs d j → tcp.get j = some q →
            q.state ≠ .closed → q.remoteEndp ≠ s.src) by
        rw [hone]
        constructor
        · rintro hcond _ p' ⟨⟩ hp'
          obtain rfl : p = p' := by simpa using hp.symm.trans hp'
          exact hcond
        · intro hcond
          exact hcond d p rfl hp
      have hget : tcp.get d = some p := hp
      cases hstate : p.state with
      | closed =>
          have hcall : segmentArrives env tcp s = .ok (tcp, []) := by
            simp only [segmentArrives, hselect, hget, unwrap, bind, Except.bind, hstate, hquiet]
            rfl
          rw [hcall]
          simp [silentTo_nil, RefusesAck, ResetEnds, hstate, TcpState.gotSyn]
      | listen =>
          have hcall : segmentArrives env tcp s = .ok (tcp, []) := by
            simp only [segmentArrives, hselect, hget, unwrap, bind, Except.bind, hstate,
              arrivesListen, hrst, if_true]
            rfl
          rw [hcall]
          simp [silentTo_nil, RefusesAck, ResetEnds, hstate, TcpState.gotSyn]
      | synSent =>
          have hcall : segmentArrives env tcp s =
              .ok (arrivesSynSent env tcp d p s.info s.flg s.dst s.src) := by
            simp only [segmentArrives, hselect, hget, unwrap, bind, Except.bind, hstate]
            rfl
          rw [hcall]
          rcases arrivesSynSent_rst env tcp d hstate hrst with ⟨hbad, heq⟩ | ⟨hbad, hends, heq⟩ |
            ⟨hbad, hends, heq⟩
          · rw [heq]
            simp [hbad, not_silentTo_rstFor]
          · rw [heq, silentTo_closeAndRelease env hp]
            simp only [hbad, hends, not_false_eq_true, true_and, forall_const]
          · rw [heq]
            simp [hbad, hends, silentTo_nil]
      | _ =>
          have hgot : p.state.gotSyn = true := by simp [hstate, TcpState.gotSyn]
          have hbad : ¬ RefusesAck p s := by simp [RefusesAck, hstate]
          rw [segmentArrives_otherwise env hselect hp ((TcpState.gotSyn_iff _).mp hgot)]
          rcases arrivesOtherwise_rst env tcp d hgot hrst with ⟨hends, heq⟩ | ⟨hends, heq⟩
          · rw [heq, silentTo_closeAndRelease env hp]
            simp only [hbad, hends, not_false_eq_true, true_and, forall_const]
          · rw [heq]
            simp [hbad, hends, silentTo_nil]

/-- The table after an active `open` that sent its SYN with the number 100. -/
def openedTable : Tcp :=
  { pcbs := [some (synSent (sendSyn calmEnv (.empty 0) hostEndp peerEndp).1)], nextTask := 1 }

/-- A reset from the peer, with the acknowledgement number `ack`. -/
def resetFromPeer (ack : U32) : TcpSegment :=
  { src := peerEndp, dst := hostEndp, seq := 0, ack := ack, flg := flgRst ||| flgAck, wnd := 0,
    data := [] }

/-- A reset that acknowledges our SYN is not answered. -/
theorem reset_unanswered_iff_acked :
    ∃ r, segmentArrives calmEnv openedTable (resetFromPeer 101) = .ok r ∧
      ∀ seg, .emit seg ∈ r.2 → seg.dst ≠ peerEndp := by
  have hone : pcbSelect openedTable.pcbs hostEndp peerEndp = some 0 := by decide
  refine (reset_unanswered_iff calmEnv openedTable (resetFromPeer 101) (by decide)).mpr ?_
  intro d p hselect hp
  obtain rfl : 0 = d := by simpa using hone.symm.trans hselect
  cases hp
  refine ⟨by unfold RefusesAck; decide, fun _ j q hj hlinked ↦ absurd (hlinked.eq_of_empty ?_) hj⟩
  rintro _ ⟨⟩
  rfl

/-- One that acknowledges something else is answered with a reset. -/
theorem reset_answered : Reachable openedTable ∧
    flagIsset (resetFromPeer 50).flg flgRst = true ∧
    ¬ ∃ r, segmentArrives calmEnv openedTable (resetFromPeer 50) = .ok r ∧
      ∀ seg, .emit seg ∈ r.2 → seg.dst ≠ peerEndp := by
  refine ⟨?_, by decide, ?_⟩
  · have hstep : step calmEnv {} (.openCall hostEndp peerEndp true) =
        .ok { tcp := openedTable, reply := .desc 0,
              effects := [.emit (sendSyn calmEnv (.empty 0) hostEndp peerEndp).2] } := by decide
    exact .next (e := (calmEnv, .openCall hostEndp peerEndp true)) (.start rfl)
      ⟨trivial, _, hstep, rfl⟩
  · rintro ⟨r, hr, hsilent⟩
    have hcall : segmentArrives calmEnv openedTable (resetFromPeer 50) =
        .ok (openedTable, [rstFor (resetFromPeer 50).info hostEndp peerEndp]) := by decide
    cases hcall.symm.trans hr
    exact hsilent _ (List.mem_singleton.mpr rfl) rfl

end Microps.Tcp
