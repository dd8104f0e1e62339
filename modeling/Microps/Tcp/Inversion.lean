import Microps.Tcp.Step

/-!
# Inversion

Every event makes one of the moves of `Move`.  The proofs follow the functions of
`tcp.rs` branch by branch, once; what comes after argues about moves.
-/

namespace Microps.Tcp

/-! ## The table -/

theorem get_set {tcp : Tcp} {d : TcpDesc} {p : TcpPcb} (hp : tcp.get d = some p) (q : TcpPcb)
    (j : TcpDesc) : (tcp.set d q).get j = if j = d then some q else tcp.get j :=
  Slots.peek_put hp q j

/-- A block is written, then another one, then the first again. -/
theorem get_set_set_set {tcp : Tcp} {d l : TcpDesc} {p p₁ p₂ q q' : TcpPcb}
    (hp : tcp.get d = some p) (hq : (tcp.set d p₁).get l = some q) (j : TcpDesc) :
    (((tcp.set d p₁).set l q').set d p₂).get j =
      if j = d then some p₂ else if j = l then some q' else tcp.get j := by
  obtain ⟨r, hr⟩ : ∃ r, ((tcp.set d p₁).set l q').get d = some r := by
    rw [get_set hq]
    split
    · exact ⟨q', rfl⟩
    · exact ⟨p₁, by rw [get_set hp, if_pos rfl]⟩
  rw [get_set hr, get_set hq, get_set hp]
  by_cases hj : j = d
  · rw [if_pos hj, if_pos hj]
  · rw [if_neg hj, if_neg hj, if_neg hj]

/-- A fresh slot, and a block with a new task in it. -/
theorem pcbAlloc_spec {tcp tcp' : Tcp} {d : TcpDesc} (h : tcp.pcbAlloc = some (d, tcp')) :
    tcp.get d = none ∧ tcp'.nextTask = tcp.nextTask + 1 ∧
      ∀ j, tcp'.get j = if j = d then some (.empty tcp.nextTask) else tcp.get j := by
  obtain ⟨⟨i, t⟩, halloc, heq⟩ := Option.map_eq_some_iff.mp h
  obtain ⟨rfl, rfl⟩ : i = d ∧ { pcbs := t, nextTask := tcp.nextTask + 1 } = tcp' := by
    simpa using heq
  obtain ⟨hnone, hget⟩ := Slots.alloc_spec halloc
  exact ⟨hnone, rfl, hget⟩

theorem get_pcbAlloc {tcp tcp' : Tcp} {d : TcpDesc} (h : tcp.pcbAlloc = some (d, tcp')) :
    tcp'.get d = some (.empty tcp.nextTask) := by
  rw [(pcbAlloc_spec h).2.2, if_pos rfl]

/-- Filling the slot that was just allocated. -/
theorem get_birth {tcp tcp' : Tcp} {d : TcpDesc} (h : tcp.pcbAlloc = some (d, tcp')) (q : TcpPcb)
    (j : TcpDesc) : (tcp'.set d q).get j = if j = d then some q else tcp.get j := by
  rw [get_set (get_pcbAlloc h), (pcbAlloc_spec h).2.2]
  split
  · rfl
  · rfl

@[simp] theorem set_set (tcp : Tcp) (d : TcpDesc) (p q : TcpPcb) :
    (tcp.set d p).set d q = tcp.set d q := by
  simp [set]

/-! ## A segment arrives -/

theorem Answer.rstFor {tcp : Tcp} (seg : SegInfo) (l r : IpEndp) :
    ∀ e ∈ [Tcp.rstFor seg l r], ∃ seg, e = .emit seg ∧ Answer tcp seg := by
  intro e he
  exact ⟨_, List.mem_singleton.mp he, .inl (outputSegment_rst _ _ _ _ _ _)⟩

theorem listenTarget_cases {tcp : Tcp} {d : TcpDesc} {p : TcpPcb} {target : Option (TcpDesc × Tcp)}
    (h : listenTarget tcp d p = .ok target) :
    target = none ∨ (p.mode = .rfc ∧ target = some (d, tcp)) ∨
      ∃ c tcp', p.mode = .socket ∧ p.backlog.length < p.backlogMax ∧
        tcp.pcbAlloc = some (c, tcp') ∧ target = some (c, tcp'.set c
          { TcpPcb.empty tcp.nextTask with
            parentDesc := some d, hist := { creator := some p.task } }) := by
  unfold listenTarget at h
  split at h
  · next hmode =>
    split at h
    · cases h
      exact .inl rfl
    · next hroom =>
      split at h
      · cases h
        exact .inl rfl
      · next c tcp' halloc =>
        rw [get_pcbAlloc halloc] at h
        cases h
        exact .inr (.inr ⟨c, tcp', hmode, by omega, halloc, rfl⟩)
  · next hmode =>
    cases h
    refine .inr (.inl ⟨?_, rfl⟩)
    cases hm : p.mode with
    | rfc => rfl
    | socket => exact absurd hm hmode

theorem arrivesListen_move {env : Env} {tcp : Tcp} {d : TcpDesc} {p : TcpPcb} {s : TcpSegment}
    {r : Tcp × List Effect} (hselect : pcbSelect tcp.pcbs s.dst s.src = some d)
    (hp : tcp.get d = some p) (hstate : p.state = .listen)
    (h : arrivesListen env tcp d p s.info s.flg s.dst s.src = .ok r) :
    Move env tcp (.arrive s) { tcp := r.1, effects := r.2 } := by
  unfold arrivesListen at h
  split at h
  · cases h
    exact .idle rfl (by simp)
  · next hrst =>
    split at h
    · cases h
      exact .idle rfl (Answer.rstFor _ _ _)
    · next hack =>
      split at h
      · next hsyn =>
        rw [Bool.not_eq_true] at hrst hack
        cases htarget : listenTarget tcp d p with
        | error e => simp [htarget, bind, Except.bind] at h
        | ok target =>
            rw [htarget] at h
            rcases listenTarget_cases htarget with rfl | ⟨hmode, rfl⟩ |
              ⟨c, tcp', hmode, hroom, halloc, rfl⟩
            · cases h
              exact .idle rfl (by simp)
            · simp only [bind, Except.bind, hp, unwrap] at h
              cases h
              exact .work hp (.passive s hselect hstate hmode hrst hack hsyn)
            · simp only [bind, Except.bind, get_birth halloc, if_pos, unwrap] at h
              cases h
              rw [set_set]
              exact .birth halloc (.child s d p _ hselect hp hstate hmode hroom hrst hack hsyn rfl)
      · cases h
        exact .idle rfl (by simp)

/-- `transition(pcb, desc, CLOSED)` and `pcb_release`, after some resets. -/
theorem Move.closeAndRelease {env : Env} {tcp : Tcp} {ev : Event} {d : TcpDesc} {p q : TcpPcb}
    {reply : Reply} (es : List Effect) (hp : tcp.get d = some p) (hev : Drops tcp d p ev)
    (hreply : reply.quiet) (hq : { q with state := .closed } = { p with state := .closed })
    (hes : ∀ e ∈ es, ∃ seg, e = .emit seg ∧ flagIsset seg.flg flgRst = true) :
    Move env tcp ev
      { tcp := (Tcp.closeAndRelease env tcp d q).1, reply := reply,
        effects := es ++ (Tcp.closeAndRelease env tcp d q).2 } := by
  rw [Tcp.closeAndRelease, hq]
  obtain ⟨hdrained, hbacklog⟩ := pcbRelease_closed_spec env hp
  exact .drop es hp hev hreply hes hdrained hbacklog

theorem arrivesSynSent_move {env : Env} {tcp : Tcp} {d : TcpDesc} {p : TcpPcb} {s : TcpSegment}
    (hselect : pcbSelect tcp.pcbs s.dst s.src = some d) (hp : tcp.get d = some p)
    (hstate : p.state = .synSent) :
    Move env tcp (.arrive s)
      { tcp := (arrivesSynSent env tcp d p s.info s.flg s.dst s.src).1,
        effects := (arrivesSynSent env tcp d p s.info s.flg s.dst s.src).2 } := by
  have hdrops : Drops tcp d p (.arrive s) := by simp [Drops, hselect, hstate]
  unfold arrivesSynSent
  simp only
  split
  · exact .idle rfl (Answer.rstFor _ _ _)
  · next hbad =>
    split
    · split
      · exact .closeAndRelease [] hp hdrops rfl rfl (by simp)
      · exact .idle rfl (by simp)
    · next hrst =>
      split
      · next hsyn =>
        refine .work hp (.synSent s _ hselect hstate (by simpa using hrst) hsyn ?_)
        intro hacc
        have hacc : flagIsset s.flg flgAck = true ∧ p.snd.una ≤ s.ack ∧ s.ack ≤ p.snd.nxt := by
          simpa [TcpSegment.info] using hacc
        refine ⟨hacc.1, ?_, hacc.2.1, hacc.2.2⟩
        by_contra hle
        exact hbad ⟨hacc.1, .inl (by simpa [TcpSegment.info] using hle)⟩
      · exact .idle rfl (by simp)

/-- A block past SYN_SENT answers with an acknowledgement. -/
theorem Answer.ackOf {tcp : Tcp} {d : TcpDesc} {p : TcpPcb} (hp : tcp.get d = some p)
    (hstate : p.state ≠ .closed ∧ p.state ≠ .listen ∧ p.state ≠ .synSent) :
    ∀ e ∈ [Effect.emit (Tcp.ackOf p)], ∃ seg, e = .emit seg ∧ Answer tcp seg := by
  intro e he
  exact ⟨_, by simpa using he, .inr ⟨d, p, hp, hstate.1, hstate.2.1, hstate.2.2, rfl⟩⟩

theorem arrivesOtherwise_move {env : Env} {tcp : Tcp} {d : TcpDesc} {p : TcpPcb} {s : TcpSegment}
    {r : Tcp × List Effect} (hselect : pcbSelect tcp.pcbs s.dst s.src = some d)
    (hp : tcp.get d = some p)
    (hstate : p.state ≠ .closed ∧ p.state ≠ .listen ∧ p.state ≠ .synSent)
    (h : arrivesOtherwise env tcp d p s.info s.flg s.data s.dst s.src = .ok r) :
    Move env tcp (.arrive s) { tcp := r.1, effects := r.2 } := by
  have hdrops : Drops tcp d p (.arrive s) := ⟨hselect, hstate.1, hstate.2.1⟩
  unfold arrivesOtherwise at h
  split at h
  · split at h
    · cases h
      exact .idle rfl (by simp)
    · cases h
      exact .idle rfl (Answer.ackOf hp hstate)
  next hacc =>
  split at h
  · cases h
    exact .closeAndRelease [] hp hdrops rfl rfl (by simp)
  next hrst =>
  split at h
  · rw [output_rst] at h
    cases h
    refine .closeAndRelease [_] hp hdrops rfl rfl ?_
    intro e he
    exact ⟨_, List.mem_singleton.mp he, outputSegment_rst _ _ _ _ _ _⟩
  next hsyn =>
  split at h
  · cases h
    exact .idle rfl (by simp)
  next hack =>
  have hreach : ReachesAck p s :=
    ⟨hstate, by simpa using hacc, by simpa using hrst, by simpa using hsyn, by simpa using hack⟩
  rcases checkAck_cases env s.info s.flg s.dst s.src hstate with
    ⟨q, es, hstep, hcheck⟩ | ⟨-, es, hcheck, hes⟩ | ⟨-, -, hcheck⟩
  · have hget := get_set hp q
    rw [hcheck] at h
    -- Without a parent to notify, the text is processed in the block the ACK step left.
    have hplain : (p.state = .synReceived → ∀ l, p.parentDesc = some l →
          (tcp.set d q).get l = none) → (do
          let r ← textAndFin env q s.info s.flg s.data
          return ((tcp.set d q).set d r.1, es ++ [] ++ r.2)) = .ok r →
        Move env tcp (.arrive s) { tcp := r.1, effects := r.2 } := by
      intro hnone h
      cases htext : textAndFin env q s.info s.flg s.data with
      | error e => simp [htext, bind, Except.bind] at h
      | ok r' =>
          rw [htext] at h
          cases h
          rw [set_set, List.append_nil]
          exact .pass hselect hp hnone hreach hstep htext
    by_cases hsr : p.state = .synReceived
    · rw [if_pos hsr] at h
      cases hparent : p.parentDesc with
      | none =>
          simp only [joinBacklog, hparent, hget, if_pos, unwrap] at h
          exact hplain (by simp [hparent]) h
      | some l =>
          cases hl : (tcp.set d q).get l with
          | none =>
              simp only [joinBacklog, hparent, hl, hget, if_pos, unwrap] at h
              refine hplain (fun _ l' hl' ↦ ?_) h
              obtain rfl : l = l' := by simpa using hparent.symm.trans hl'
              exact hl
          | some parent =>
              simp only [joinBacklog, hparent, hl] at h
              have hget' := get_set hl { parent with backlog := parent.backlog ++ [d] } d
              have hd : ((tcp.set d q).set l { parent with backlog := parent.backlog ++ [d] }).get d =
                  some (if d = l then { q with backlog := q.backlog ++ [d] } else q) := by
                rw [hget']
                split
                · next hdl =>
                  subst hdl
                  rw [hget, if_pos rfl] at hl
                  cases hl
                  rfl
                · rw [hget, if_pos rfl]
              rw [hd] at h
              cases htext : textAndFin env (if d = l then { q with backlog := q.backlog ++ [d] }
                  else q) s.info s.flg s.data with
              | error e => simp [htext, unwrap, bind, Except.bind] at h
              | ok r' =>
                  simp only [unwrap, bind, Except.bind, htext] at h
                  cases h
                  exact .join hselect hp hsr hparent hreach hstep hl rfl htext
    · rw [if_neg hsr] at h
      simp only [joinBacklog, hget, if_pos, unwrap] at h
      exact hplain (fun h ↦ absurd h hsr) h
  · rw [hcheck] at h
    cases h
    rw [Tcp.set, Slots.put_peek hp]
    refine .idle rfl fun e he ↦ ?_
    obtain ⟨seg, rfl, hseg⟩ := hes e he
    refine ⟨seg, rfl, hseg.imp_right ?_⟩
    rintro rfl
    exact ⟨d, p, hp, hstate.1, hstate.2.1, hstate.2.2, rfl⟩
  · rw [hcheck] at h
    cases h
    exact .closeAndRelease [] hp hdrops rfl rfl (by simp)

/-! ## The timer -/

/-- Sending again changes neither the task nor the backlog. -/
theorem retransEmit_keeps (env : Env) (p : TcpPcb) :
    (retransEmit env p).1.task = p.task ∧ (retransEmit env p).1.backlog = p.backlog := by
  unfold retransEmit
  split
  · exact ⟨rfl, rfl⟩
  · exact ⟨rfl, rfl⟩

/-- What the loop of `on_timer` has done to the table `t` when it comes to slot
`k`. -/
structure Ticked (env : Env) (t : Slots TcpPcb) (k : Nat) (acc : Slots TcpPcb × List Effect) :
    Prop where
  none : ∀ j, t.peek j = none → acc.1.peek j = none
  some : ∀ j p, t.peek j = some p →
    (k ≤ j ∧ acc.1.peek j = some p) ∨
    (j < k ∧ acc.1.peek j = some (retransEmit env p).1 ∧
      (∀ e ∈ (retransEmit env p).2, e ∈ acc.2) ∧ ¬ (p.state = .timeWait ∧ p.twTimer < env.now)) ∨
    (acc.1.peek j = .none ∧ .notify p.task ∈ acc.2 ∧ (p.state = .timeWait ∨
      ∃ i q, t.peek i = .some q ∧ j ∈ q.backlog ∧ acc.1.peek i = .none))
  emits : ∀ seg, .emit seg ∈ acc.2 → flagIsset seg.flg flgRst = true ∨
    ∃ j p, t.peek j = .some p ∧ .emit seg ∈ (retransEmit env p).2

/-- What is in a slot during the loop was there before it began, with the same
task and backlog. -/
theorem Ticked.before {env : Env} {t : Slots TcpPcb} {k : Nat} {acc : Slots TcpPcb × List Effect}
    (h : Ticked env t k acc) {j : Nat} {p : TcpPcb} (hp : acc.1.peek j = .some p) :
    ∃ q, t.peek j = .some q ∧ p.task = q.task ∧ p.backlog = q.backlog ∧ (k ≤ j → p = q) := by
  cases hq : t.peek j with
  | none => exact absurd (hp.symm.trans (h.none j hq)) (by simp)
  | some q =>
      rcases h.some j q hq with ⟨hk, hj⟩ | ⟨hk, hj, -⟩ | ⟨hj, -⟩
      · obtain rfl : p = q := by simpa using hp.symm.trans hj
        exact ⟨p, rfl, rfl, rfl, fun _ ↦ rfl⟩
      · obtain rfl : p = (retransEmit env q).1 := by simpa using hp.symm.trans hj
        exact ⟨q, rfl, (retransEmit_keeps env q).1, (retransEmit_keeps env q).2, by omega⟩
      · exact absurd (hp.symm.trans hj) (by simp)

/-- A block in TIME_WAIT is released. -/
theorem Ticked.release {env : Env} {t : Slots TcpPcb} {k : Nat} {acc : Slots TcpPcb × List Effect}
    (h : Ticked env t k acc) {p : TcpPcb} (hp : acc.1.peek k = .some p)
    (hstate : p.state = .timeWait) {r : Released} (hr : Drained acc.1 k r) :
    Ticked env t (k + 1) (r.pcbs, acc.2 ++ r.effects) := by
  constructor
  · exact fun j hj ↦ hr.drain.none_of_none (h.none j hj)
  · intro j q hq
    have hlater : acc.1.peek j = .none → r.pcbs.peek j = .none := hr.drain.none_of_none
    rcases hr.drain.frame j with hf | hf
    · have hjk : j ≠ k := by
        rintro rfl
        exact absurd (hr.freed.symm.trans (hf.trans hp)) (by simp)
      rcases h.some j q hq with ⟨hk, hj⟩ | ⟨hk, hj, hes, hlive⟩ | ⟨hj, hn, hcause⟩
      · exact .inl ⟨by omega, hf.trans hj⟩
      · exact .inr (.inl ⟨by omega, hf.trans hj, fun e he ↦ by simp [hes e he], hlive⟩)
      · refine .inr (.inr ⟨hlater hj, by simp [hn], hcause.imp_right ?_⟩)
        rintro ⟨i, q', hi, hmem, hi'⟩
        exact ⟨i, q', hi, hmem, hr.drain.none_of_none hi'⟩
    · refine .inr (.inr ⟨hf, ?_⟩)
      cases hj : acc.1.peek j with
      | none =>
          rcases h.some j q hq with ⟨-, hj'⟩ | ⟨-, hj', -⟩ | ⟨-, hn, hcause⟩
          · exact absurd (hj.symm.trans hj') (by simp)
          · exact absurd (hj.symm.trans hj') (by simp)
          · refine ⟨by simp [hn], hcause.imp_right ?_⟩
            rintro ⟨i, q', hi, hmem, hi'⟩
            exact ⟨i, q', hi, hmem, hr.drain.none_of_none hi'⟩
      | some p' =>
          obtain ⟨q', hq', htask, -, hsame⟩ := h.before hj
          obtain rfl : q = q' := by simpa using hq.symm.trans hq'
          refine ⟨?_, ?_⟩
          · have := hr.drain.notified j p' hj hf
            rw [htask] at this
            simp [this]
          · rcases hr.drain.caused j p' hj hf with rfl | ⟨i, r', hi, hmem, hi'⟩
            · left
              obtain rfl : p = p' := by simpa using hp.symm.trans hj
              rw [← hsame (Nat.le_refl j), hstate]
            · right
              obtain ⟨q'', hq'', -, hbacklog, -⟩ := h.before hi
              exact ⟨i, q'', hq'', hbacklog ▸ hmem, hi'⟩
  · intro seg hseg
    rcases List.mem_append.mp hseg with hseg | hseg
    · exact h.emits seg hseg
    · exact .inl (hr.drain.resets seg hseg)

/-- A block is sent again as far as it is due. -/
theorem Ticked.emit {env : Env} {t : Slots TcpPcb} {k : Nat} {acc : Slots TcpPcb × List Effect}
    (h : Ticked env t k acc) {p : TcpPcb} (hp : acc.1.peek k = .some p)
    (hlive : ¬ (p.state = .timeWait ∧ p.twTimer < env.now)) :
    Ticked env t (k + 1)
      (acc.1.put k (retransEmit env p).1, acc.2 ++ (retransEmit env p).2) := by
  have hput := Slots.peek_put hp (retransEmit env p).1
  have hnone : ∀ i, acc.1.peek i = .none → (acc.1.put k (retransEmit env p).1).peek i = .none := by
    intro i hi
    have hik : i ≠ k := by
      rintro rfl
      exact absurd (hp.symm.trans hi) (by simp)
    rw [hput, if_neg hik, hi]
  obtain ⟨q, hq, -, -, hsame⟩ := h.before hp
  obtain rfl := hsame (Nat.le_refl k)
  constructor
  · exact fun j hj ↦ hnone j (h.none j hj)
  · intro j q' hq'
    by_cases hjk : j = k
    · subst hjk
      obtain rfl : p = q' := by simpa using hq.symm.trans hq'
      exact .inr (.inl ⟨by omega, by rw [hput, if_pos rfl], by simp +contextual, hlive⟩)
    · rcases h.some j q' hq' with ⟨hk, hj⟩ | ⟨hk, hj, hes, hlive'⟩ | ⟨hj, hn, hcause⟩
      · exact .inl ⟨by omega, by rw [hput, if_neg hjk, hj]⟩
      · exact .inr (.inl ⟨by omega, by rw [hput, if_neg hjk, hj], fun e he ↦ by simp [hes e he],
          hlive'⟩)
      · refine .inr (.inr ⟨hnone j hj, by simp [hn], hcause.imp_right ?_⟩)
        rintro ⟨i, q', hi, hmem, hi'⟩
        exact ⟨i, q', hi, hmem, hnone i hi'⟩
  · intro seg hseg
    rcases List.mem_append.mp hseg with hseg | hseg
    · exact h.emits seg hseg
    · exact .inr ⟨k, p, hq, hseg⟩

/-- One round of the loop of `on_timer`. -/
theorem Ticked.timerSlot {env : Env} {t : Slots TcpPcb} {k : Nat}
    {acc : Slots TcpPcb × List Effect} (h : Ticked env t k acc) :
    Ticked env t (k + 1) (Tcp.timerSlot env acc k) := by
  unfold Tcp.timerSlot
  split
  · next hk =>
    refine ⟨h.none, fun j p hp ↦ ?_, h.emits⟩
    rcases h.some j p hp with ⟨hkj, hj⟩ | ⟨hkj, hj, hes⟩ | hj
    · have hne : j ≠ k := by
        rintro rfl
        exact absurd (hj.symm.trans hk) (by simp)
      exact .inl ⟨by omega, hj⟩
    · exact .inr (.inl ⟨by omega, hj, hes⟩)
    · exact .inr (.inr hj)
  · next p hp =>
    split
    · next hexpired => exact h.release hp hexpired.1 (pcbRelease_closed_spec env hp).1
    · next hlive => exact h.emit hp hlive

/-- What `on_timer` does to a table. -/
theorem onTimer_ticked (env : Env) (tcp : Tcp) :
    Ticked env tcp.pcbs tcp.pcbs.length ((onTimer env tcp).1.pcbs, (onTimer env tcp).2) := by
  have hloop : ∀ n, Ticked env tcp.pcbs n ((List.range n).foldl (timerSlot env) (tcp.pcbs, [])) := by
    intro n
    induction n with
    | zero => exact ⟨fun j hj ↦ hj, fun j p hp ↦ .inl ⟨Nat.zero_le j, hp⟩, by simp⟩
    | succ n ih =>
        rw [List.range_succ, List.foldl_append]
        exact ih.timerSlot
  exact hloop tcp.pcbs.length

theorem onTimer_move (env : Env) (tcp : Tcp) :
    Move env tcp .timer { tcp := (onTimer env tcp).1, effects := (onTimer env tcp).2 } := by
  have h := onTimer_ticked env tcp
  refine .tick h.none (fun j p hp ↦ ?_) h.emits
  rcases h.some j p hp with ⟨hj, -⟩ | ⟨-, hj, hes⟩ | hj
  · exact absurd (Slots.lt_length_of_peek hp) (by omega)
  · exact .inl ⟨hj, hes⟩
  · exact .inr hj

/-! ## The events -/

theorem arrivesClosed_answer {tcp : Tcp} (seg : SegInfo) (flags : U8) (l r : IpEndp) :
    ∀ e ∈ arrivesClosed seg flags l r, ∃ seg, e = .emit seg ∧ Answer tcp seg := by
  unfold arrivesClosed
  split
  · simp
  split
  · intro e he
    exact ⟨_, List.mem_singleton.mp he, .inl (outputSegment_rstAck _ _ _ _ _ _)⟩
  · exact Answer.rstFor seg l r

theorem segmentArrives_move {env : Env} {tcp : Tcp} {s : TcpSegment} {r : Tcp × List Effect}
    (h : segmentArrives env tcp s = .ok r) :
    Move env tcp (.arrive s) { tcp := r.1, effects := r.2 } := by
  unfold segmentArrives at h
  simp only at h
  split at h
  · cases h
    exact .idle rfl (arrivesClosed_answer _ _ _ _)
  · next d hselect =>
    cases hp : tcp.get d with
    | none => simp [hp, unwrap, bind, Except.bind] at h
    | some p =>
        simp only [hp, unwrap, bind, Except.bind] at h
        split at h
        · cases h
          exact .idle rfl (arrivesClosed_answer _ _ _ _)
        · next hstate => exact arrivesListen_move hselect hp hstate h
        · next hstate =>
          cases h
          exact arrivesSynSent_move hselect hp hstate
        · next hclosed hlisten hsynSent =>
          exact arrivesOtherwise_move hselect hp ⟨hclosed, hlisten, hsynSent⟩ h

/-- The block of a failed `open` leaves its slot empty. -/
theorem openFail_move {env : Env} {tcp tcp' : Tcp} {d : TcpDesc} {l r : IpEndp} {active : Bool}
    (p : TcpPcb) (es : List Effect) (halloc : tcp.pcbAlloc = some (d, tcp'))
    (hempty : p.backlog = [])
    (hes : ∀ e ∈ es, active = true ∧
      ∃ l', Opens env tcp l r l' ∧ e = .emit (sendSyn env (.empty tcp.nextTask) l' r).2) :
    Move env tcp (.openCall l r active) (openFail env (tcp'.set d p) d es) := by
  have hget := get_birth halloc p
  have hp : (tcp'.set d p).get d = some p := by rw [hget, if_pos rfl]
  have hrelease := pcbRelease_empty env hp hempty
  unfold openFail
  refine .stillborn (fun j ↦ ?_) ?_ ?_
  · simp only [hrelease, Tcp.get, Slots.peek_free]
    split
    · next hj => exact (hj ▸ (pcbAlloc_spec halloc).1).symm
    · next hj => exact (hget j).trans (if_neg hj)
  · exact (pcbAlloc_spec halloc).2.1
  · intro seg hseg
    simp only [hrelease, List.mem_append, List.mem_singleton, reduceCtorEq, or_false] at hseg
    obtain ⟨hactive, l', hopens, heq⟩ := hes _ hseg
    cases heq
    exact .inr ⟨hactive, l', hopens, rfl⟩

theorem openCall_move {env : Env} {tcp : Tcp} {l r : IpEndp} {active : Bool} {out : Outcome}
    (h : openCall env tcp l r active = .ok out) : Move env tcp (.openCall l r active) out := by
  unfold openCall at h
  split at h
  · cases h
    exact .idle rfl (by simp)
  · next d tcp' halloc =>
    have hget := get_pcbAlloc halloc
    have hfail : Move env tcp (.openCall l r active) (openFail env tcp' d []) := by
      have hself : tcp'.set d (.empty tcp.nextTask) = tcp' := by
        rw [Tcp.set, Slots.put_peek hget]
      rw [← hself]
      exact openFail_move (.empty tcp.nextTask) [] halloc rfl (by simp)
    split at h
    · next hactive =>
      subst hactive
      split at h
      · cases h
        exact hfail
      · next l' hlocal =>
        split at h
        · cases h
          exact hfail
        · next hfree =>
          have hopens : Opens env tcp l r l' := ⟨d, tcp', halloc, hlocal, by simpa using hfree⟩
          simp only [hget, unwrap, bind, Except.bind] at h
          split at h
          · next houtput =>
            cases h
            exact .birth halloc (.syn l l' r hopens houtput)
          · cases h
            refine openFail_move _ [_] halloc ?_ ?_
            · rw [sendSyn, output]
              split <;> rfl
            · intro e he
              exact ⟨rfl, l', hopens, by simpa using he⟩
    · next hactive =>
      rw [Bool.not_eq_true] at hactive
      subst hactive
      split at h
      · cases h
        exact hfail
      · next hfree =>
        simp only [hget, unwrap, bind, Except.bind] at h
        cases h
        exact .birth halloc (.listen l r ⟨d, tcp', halloc, by simpa using hfree⟩)

theorem openFinish_move {env : Env} {tcp : Tcp} {d : TcpDesc} {out : Outcome}
    (h : openFinish env tcp d = .ok out) : Move env tcp (.openFinish d) out := by
  unfold openFinish at h
  split at h
  · cases h
    exact .idle rfl (by simp)
  · next p hp =>
    cases hmss : mssFor env p.remoteEndp with
    | error e => simp [hmss, bind, Except.bind] at h
    | ok m =>
        simp only [hmss, bind, Except.bind] at h
        cases m with
        | none =>
            cases h
            exact .idle rfl (by simp)
        | some m =>
            cases h
            exact .work hp (.mss m)

theorem connectCall_move (env : Env) (tcp : Tcp) (d : TcpDesc) (r : IpEndp) :
    Move env tcp (.connectCall d r) (connectCall env tcp d r) := by
  unfold connectCall
  split
  · exact .idle rfl (by simp)
  next p hp =>
  split
  · exact .idle rfl (by simp)
  next l hl =>
  split
  · exact .idle rfl (by simp)
  next hfree =>
  have hlocal : Connects env tcp p l r := ⟨hl, by simpa using hfree⟩
  simp only
  split
  · next houtput => exact .work hp (.syn l r hlocal houtput)
  · next houtput => exact .work hp (.synFails l r hlocal (by simpa using houtput))

theorem connectPoll_move (env : Env) (tcp : Tcp) (d : TcpDesc) :
    Move env tcp (.connectPoll d) (connectPoll tcp d) := by
  unfold connectPoll
  split
  · exact .idle rfl (by simp)
  next p hp =>
  split
  · exact .idle rfl (by simp)
  · exact .idle rfl (by simp)
  · exact .idle rfl (by simp)
  · exact .idle rfl (by simp)
  · next h₁ h₂ h₃ h₄ => exact .work hp (.connectFails ⟨h₁, h₂, h₃, h₄⟩)

theorem closeCall_move (env : Env) (tcp : Tcp) (d : TcpDesc) :
    Move env tcp (.close d) (closeCall env tcp d) := by
  unfold closeCall
  simp only
  split
  · exact .idle rfl (by simp)
  next p hp =>
  have hdrop : p.state = .listen ∨ p.state = .synSent → Move env tcp (.close d)
      { tcp := { tcp with
          pcbs := (pcbRelease env (tcp.pcbs.put d { p with state := .closed }) d).pcbs },
        reply := if (pcbRelease env (tcp.pcbs.put d { p with state := .closed }) d).ok then .ok
          else .err,
        effects := (pcbRelease env (tcp.pcbs.put d { p with state := .closed }) d).effects } := by
    intro hstate
    obtain ⟨hdrained, hbacklog⟩ := pcbRelease_closed_spec env hp
    refine .drop [] hp ⟨rfl, hstate⟩ ?_ (by simp) hdrained hbacklog
    split
    · rfl
    · rfl
  split
  · exact .idle rfl (by simp)
  · next hstate => exact hdrop (.inl hstate)
  · next hstate => exact hdrop (.inr hstate)
  · next hstate => exact .work hp (.fin .finWait1 (.inl ⟨.inl hstate, rfl⟩))
  · next hstate => exact .work hp (.fin .finWait1 (.inl ⟨.inr hstate, rfl⟩))
  · next hstate => exact .work hp (.fin .lastAck (.inr ⟨hstate, rfl⟩))
  all_goals exact .idle rfl (by simp)

/-- **One round of `send`**: it fails, is done, waits, or queues the next part of the data. -/
theorem sendCall_cases (env : Env) (tcp : Tcp) (d : TcpDesc) (data : List U8) (sent : Nat) :
    (∀ p, tcp.get d = some p → ¬ (p.state = .established ∨ p.state = .closeWait)) ∧
        sendCall env tcp d data sent = { tcp := tcp, reply := .err } ∨
      ∃ p, tcp.get d = some p ∧ (p.state = .established ∨ p.state = .closeWait) ∧
        (data.length ≤ sent ∧ sendCall env tcp d data sent = { tcp := tcp, reply := .sent sent } ∨
        sent < data.length ∧ sendCap p = 0 ∧
          sendCall env tcp d data sent = { tcp := tcp, reply := .wait p.task } ∨
        ∃ n, sent < data.length ∧ n = min (min p.mss.toNat (data.length - sent)) (sendCap p) ∧
          sendCap p ≠ 0 ∧ sendCall env tcp d data sent =
            { tcp := tcp.set d (sendData env p ((data.drop sent).take n)).1, reply := .queued n,
              effects := [.emit (sendData env p ((data.drop sent).take n)).2] }) := by
  unfold sendCall
  cases hp : tcp.get d with
  | none => exact .inl ⟨by simp, rfl⟩
  | some p =>
      simp only [Option.some.injEq, forall_eq', exists_eq_left']
      split
      · next hstate =>
        refine .inr ⟨hstate, ?_⟩
        split
        · next hlen => exact .inl ⟨hlen, rfl⟩
        · next hlen =>
          split
          · next hcap => exact .inr (.inl ⟨by omega, hcap, rfl⟩)
          · next hcap => exact .inr (.inr ⟨_, by omega, rfl, hcap, rfl⟩)
      · next hstate => exact .inl ⟨hstate, rfl⟩

theorem sendCall_move (env : Env) (tcp : Tcp) (d : TcpDesc) (data : List U8) (sent : Nat) :
    Move env tcp (.send d data sent) (sendCall env tcp d data sent) := by
  rcases sendCall_cases env tcp d data sent with ⟨-, heq⟩ | ⟨p, hp, hstate, hcases⟩
  · rw [heq]
    exact .idle rfl (by simp)
  · rcases hcases with ⟨-, heq⟩ | ⟨-, -, heq⟩ | ⟨n, hsent, hn, hcap, heq⟩
    · rw [heq]
      exact .idle rfl (by simp)
    · rw [heq]
      exact .idle rfl (by simp)
    · rw [heq]
      exact .work hp (.data data sent n hstate hsent hn hcap)

theorem takeBytes_move {env : Env} {tcp : Tcp} {d : TcpDesc} {p : TcpPcb} {len : Nat}
    {out : Outcome} (hp : tcp.get d = some p) (hstate : p.state.takesText ∨ p.state = .closeWait)
    (hbuf : p.buf ≠ []) (h : takeBytes tcp d p len = .ok out) :
    Move env tcp (.receive d len) out := by
  unfold takeBytes at h
  cases hwnd : wadd p.rcv.wnd (BitVec.ofNat 16 (min len p.buf.length)) with
  | error e => simp [hwnd, bind, Except.bind] at h
  | ok wnd =>
      simp only [hwnd, bind, Except.bind] at h
      cases h
      exact .work hp (.take len _ wnd hstate hbuf rfl hwnd)

theorem receiveCall_move {env : Env} {tcp : Tcp} {d : TcpDesc} {len : Nat} {out : Outcome}
    (h : receiveCall tcp d len = .ok out) : Move env tcp (.receive d len) out := by
  have hidle : ∀ {reply : Reply}, reply.quiet → ({ tcp := tcp, reply := reply } : Outcome) = out →
      Move env tcp (.receive d len) out := by
    rintro reply hquiet rfl
    exact .idle hquiet (by simp)
  unfold receiveCall at h
  split at h
  · exact hidle rfl (Except.ok.inj h)
  next p hp =>
  have htake : p.state.takesText ∨ p.state = .closeWait →
      ∀ {reply : Reply}, reply.quiet → (if p.buf = [] then
        .ok { tcp := tcp, reply := reply } else takeBytes tcp d p len) = .ok out →
      Move env tcp (.receive d len) out := by
    intro hstate reply hquiet h
    split at h
    · exact hidle hquiet (Except.ok.inj h)
    · next hbuf => exact takeBytes_move hp hstate hbuf h
  split at h
  · next hstate => exact htake (.inl (by simp [TcpState.takesText, hstate])) rfl h
  · next hstate => exact htake (.inl (by simp [TcpState.takesText, hstate])) rfl h
  · next hstate => exact htake (.inl (by simp [TcpState.takesText, hstate])) rfl h
  · next hstate => exact htake (.inr hstate) rfl h
  all_goals exact hidle rfl (Except.ok.inj h)

theorem socketCall_move {env : Env} {tcp : Tcp} {out : Outcome} (h : socketCall tcp = .ok out) :
    Move env tcp .socket out := by
  unfold socketCall at h
  split at h
  · cases h
    exact .idle rfl (by simp)
  · next d tcp' halloc =>
    simp only [get_pcbAlloc halloc, unwrap, bind, Except.bind] at h
    cases h
    exact .birth halloc .socket

theorem bindCall_move (env : Env) (tcp : Tcp) (d : TcpDesc) (l : IpEndp) :
    Move env tcp (.bind d l) (bindCall tcp d l) := by
  unfold bindCall
  split
  · exact .idle rfl (by simp)
  next p hp =>
  split
  · exact .idle rfl (by simp)
  next hok => exact .work hp (.bind l (by tauto))

theorem listenCall_move (env : Env) (tcp : Tcp) (d : TcpDesc) (n : Nat) :
    Move env tcp (.listen d n) (listenCall tcp d n) := by
  unfold listenCall
  split
  · exact .idle rfl (by simp)
  next p hp =>
  split
  · exact .idle rfl (by simp)
  next hok => exact .work hp (.listen n (by tauto) (by tauto))

theorem mssFor_eq_none {env : Env} {r : IpEndp} (h : mssFor env r = .ok none) :
    routeLookup env.routes r.addr = none := by
  unfold mssFor at h
  split at h
  · next hroute => exact hroute
  · next route hroute =>
    cases hsub : usub route.iface.mtu.toNat (20 + tcpHdrSize) with
    | error e => simp [hsub, bind, Except.bind] at h
    | ok m => simp [hsub, bind, Except.bind, pure, Except.pure] at h

theorem acceptCall_move {env : Env} {tcp : Tcp} {d : TcpDesc} {out : Outcome}
    (h : acceptCall env tcp d = .ok out) : Move env tcp (.accept d) out := by
  unfold acceptCall at h
  split at h
  · cases h
    exact .idle rfl (by simp)
  next p hp =>
  split at h
  · cases h
    exact .idle rfl (by simp)
  next hstate =>
  rw [not_not] at hstate
  split at h
  · cases h
    exact .idle rfl (by simp)
  next new rest hbacklog =>
  simp only at h
  split at h
  · next hnew =>
    cases h
    exact .pop hp hstate hbacklog (.inl ⟨rfl, hnew⟩)
  next q hq =>
  cases hmss : mssFor env q.remoteEndp with
  | error e => simp [hmss, bind, Except.bind] at h
  | ok m =>
      simp only [hmss, bind, Except.bind] at h
      cases m with
      | none =>
          cases h
          exact .pop hp hstate hbacklog (.inr ⟨rfl, q, hq, mssFor_eq_none hmss⟩)
      | some m =>
          cases h
          exact .accept m hp hstate hbacklog hq

/-- **Every event makes a move.** -/
theorem step_move {env : Env} {tcp : Tcp} {ev : Event} {out : Outcome}
    (h : step env tcp ev = .ok out) : Move env tcp ev out := by
  cases ev with
  | arrive s =>
      cases harrives : segmentArrives env tcp s with
      | error e => simp [step, harrives, bind, Except.bind] at h
      | ok r =>
          simp only [step, harrives, bind, Except.bind] at h
          cases h
          exact segmentArrives_move harrives
  | timer => exact Except.ok.inj h ▸ onTimer_move env tcp
  | openCall l r active => exact openCall_move h
  | openPoll d =>
      cases h
      unfold openPoll
      split
      · exact .idle rfl (by simp)
      next p hp =>
      split
      iterate 4 exact .idle rfl (by simp)
      exact .closeAndRelease [] hp rfl rfl rfl (by simp)
  | openInterrupted d =>
      cases h
      unfold openInterrupted
      split
      · exact .idle rfl (by simp)
      next p hp => exact .closeAndRelease [] hp rfl rfl rfl (by simp)
  | openFinish d => exact openFinish_move h
  | connectCall d r => exact Except.ok.inj h ▸ connectCall_move env tcp d r
  | connectPoll d => exact Except.ok.inj h ▸ connectPoll_move env tcp d
  | connectInterrupted d =>
      cases h
      unfold connectInterrupted
      split
      · exact .idle rfl (by simp)
      next p hp => exact .work hp .interrupted
  | close d => exact Except.ok.inj h ▸ closeCall_move env tcp d
  | send d data sent => exact Except.ok.inj h ▸ sendCall_move env tcp d data sent
  | receive d len => exact receiveCall_move h
  | socket => exact socketCall_move h
  | bind d l => exact Except.ok.inj h ▸ bindCall_move env tcp d l
  | listen d n => exact Except.ok.inj h ▸ listenCall_move env tcp d n
  | accept d => exact acceptCall_move h

end Microps.Tcp
