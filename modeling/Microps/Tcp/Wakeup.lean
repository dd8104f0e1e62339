import Microps.Tcp.Output
import Microps.Tcp.Reach

/-!
# Waiting and waking up

A blocking call looks at its block under the lock of the table, and if it has to
wait it takes a snapshot of the generation of the block's task and sleeps until
the generation has advanced.  It is woken up in time if every step after which it
would no longer wait notifies the task.  `Sleeps` lists the steps that do not.
-/

namespace Microps.Tcp

/-! ## Tasks -/

/-- What the effects of a step do to the generation of a task: `notify` adds one to
it, wrapping. -/
def generation (t : TaskId) (es : List Effect) (g : U64) : U64 :=
  es.foldl (fun g e ↦ if e = .notify t then g + 1 else g) g

/-- The generation advances by the number of notifications. -/
theorem generation_eq (t : TaskId) (es : List Effect) (g : U64) :
    generation t es g = g + BitVec.ofNat 64 (es.count (.notify t)) := by
  induction es generalizing g with
  | nil => simp [generation]
  | cons e es ih =>
      rw [List.count_cons]
      by_cases he : e = .notify t
      · have hstep : generation t (e :: es) g = generation t es (g + 1) := by
          simp [generation, he]
        rw [hstep, ih, if_pos (by simpa using he), BitVec.ofNat_add, BitVec.add_assoc,
          BitVec.add_comm 1]
        rfl
      · have hstep : generation t (e :: es) g = generation t es g := by
          simp [generation, he]
        rw [hstep, ih, if_neg (by simpa using he), Nat.add_zero]

/-! ## Waiting -/

/-- The calls that wait, with what their loop body depends on. -/
inductive Waiter where
  | send (data : List U8) (sent : Nat)
  | receive (len : Nat)
  | opening
  | connect
  | accept
deriving DecidableEq, Repr

/-- The loop body of a waiting call on `d`. -/
def Waiter.round (d : TcpDesc) : Waiter → Event
  | .send data sent => .send d data sent
  | .receive len => .receive d len
  | .opening => .openPoll d
  | .connect => .connectPoll d
  | .accept => .accept d

/-- The loop body chooses to wait on the task `t`. -/
def Waits (env : Env) (tcp : Tcp) (d : TcpDesc) (w : Waiter) (t : TaskId) : Prop :=
  ∃ out, step env tcp (w.round d) = .ok out ∧ out.reply = .wait t

/-- The states of a block in which a call waits. -/
def waitsIn (p : TcpPcb) : Waiter → Prop
  | .send data sent => (p.state = .established ∨ p.state = .closeWait) ∧ sent < data.length ∧
      sendCap p = 0
  | .receive _ => p.state.takesText = true ∧ p.buf = []
  | .opening | .connect => p.state = .listen ∨ p.state = .synReceived ∨ p.state = .synSent
  | .accept => p.state = .listen ∧ p.backlog = []

theorem openPoll_wait (env : Env) (tcp : Tcp) (d : TcpDesc) (t : TaskId) :
    (openPoll env tcp d).reply = .wait t ↔
      ∃ p, tcp.get d = some p ∧ waitsIn p .opening ∧ p.task = t := by
  unfold openPoll
  cases hp : tcp.get d with
  | none => simp
  | some p => cases hs : p.state <;> simp [waitsIn, hs]

theorem connectPoll_wait (tcp : Tcp) (d : TcpDesc) (t : TaskId) :
    (connectPoll tcp d).reply = .wait t ↔
      ∃ p, tcp.get d = some p ∧ waitsIn p .connect ∧ p.task = t := by
  unfold connectPoll
  cases hp : tcp.get d with
  | none => simp
  | some p => cases hs : p.state <;> simp [waitsIn, hs]

theorem sendCall_wait (env : Env) (tcp : Tcp) (d : TcpDesc) (data : List U8) (sent : Nat)
    (t : TaskId) : (sendCall env tcp d data sent).reply = .wait t ↔
      ∃ p, tcp.get d = some p ∧ waitsIn p (.send data sent) ∧ p.task = t := by
  rcases sendCall_cases env tcp d data sent with ⟨hnot, heq⟩ | ⟨p, hp, hstate, hcases⟩
  · rw [heq]
    refine iff_of_false (by simp) ?_
    rintro ⟨p, hp, hwaits, -⟩
    exact hnot p hp hwaits.1
  · rw [hp]
    simp only [waitsIn, Option.some.injEq, exists_eq_left']
    rcases hcases with ⟨hlen, heq⟩ | ⟨hlen, hcap, heq⟩ | ⟨n, hlen, -, hcap, heq⟩
    · simp [heq, Nat.not_lt.mpr hlen]
    · simp [heq, hstate, hlen, hcap]
    · simp [heq, hcap]

theorem takeBytes_no_wait {tcp : Tcp} {d : TcpDesc} {p : TcpPcb} {len : Nat} {out : Outcome}
    (h : takeBytes tcp d p len = .ok out) (t : TaskId) : out.reply ≠ .wait t := by
  obtain ⟨wnd, -, hout⟩ := Machine.exists_of_bind_ok h
  cases hout
  simp

theorem receiveCall_wait (tcp : Tcp) (d : TcpDesc) (len : Nat) (t : TaskId) :
    (∃ out, receiveCall tcp d len = .ok out ∧ out.reply = .wait t) ↔
      ∃ p, tcp.get d = some p ∧ waitsIn p (.receive len) ∧ p.task = t := by
  have hnot : ∀ p, ¬ ∃ out, takeBytes tcp d p len = .ok out ∧ out.reply = .wait t :=
    fun p ⟨out, h, hr⟩ ↦ takeBytes_no_wait h t hr
  unfold receiveCall
  cases hp : tcp.get d with
  | none => simp [pure, Except.pure]
  | some p =>
      simp only [waitsIn, Option.some.injEq, exists_eq_left']
      cases hs : p.state <;> by_cases hb : p.buf = [] <;>
        simp [hb, hnot, pure, Except.pure, TcpState.takesText]

theorem acceptCall_wait (env : Env) (tcp : Tcp) (d : TcpDesc) (t : TaskId) :
    (∃ out, acceptCall env tcp d = .ok out ∧ out.reply = .wait t) ↔
      ∃ p, tcp.get d = some p ∧ waitsIn p .accept ∧ p.task = t := by
  unfold acceptCall
  cases hp : tcp.get d with
  | none => simp [pure, Except.pure]
  | some p =>
      simp only [waitsIn, Option.some.injEq, exists_eq_left']
      split
      · next hstate => simp [hstate, pure, Except.pure]
      next hstate =>
      rw [ne_eq, not_not] at hstate
      cases hb : p.backlog with
      | nil => simp [hstate, pure, Except.pure]
      | cons new rest =>
          simp only [reduceCtorEq, and_false, false_and, iff_false]
          rintro ⟨out, hout, hr⟩
          split at hout
          · cases hout
            exact absurd hr (by simp)
          · obtain ⟨mss, -, hout⟩ := Machine.exists_of_bind_ok hout
            cases mss <;> cases hout <;> exact absurd hr (by simp)

theorem waits_iff (env : Env) (tcp : Tcp) (d : TcpDesc) (w : Waiter) (t : TaskId) :
    Waits env tcp d w t ↔ ∃ p, tcp.get d = some p ∧ waitsIn p w ∧ p.task = t := by
  unfold Waits
  cases w with
  | send data sent => simpa [step, Waiter.round, pure, Except.pure] using sendCall_wait env tcp d data sent t
  | receive len => exact receiveCall_wait tcp d len t
  | opening => simpa [step, Waiter.round, pure, Except.pure] using openPoll_wait env tcp d t
  | connect => simpa [step, Waiter.round, pure, Except.pure] using connectPoll_wait tcp d t
  | accept => exact acceptCall_wait env tcp d t

/-! ## Steps that do not wake up -/

/-- The send window that the ACK step leaves behind. -/
def windowAfter (p : TcpPcb) (seg : SegInfo) : U16 :=
  if p.snd.wl1 < seg.seq ∨ (p.snd.wl1 = seg.seq ∧ p.snd.wl2 ≤ seg.ack) then seg.wnd
  else p.snd.wnd

/-- The ACK step makes room to send. -/
def opensWindow (p : TcpPcb) (seg : SegInfo) : Prop :=
  acksNew p seg ∧ (p.snd.nxt - seg.ack).toNat < (windowAfter p seg).toNat

/-- The steps after which a waiting call on the block `p` in slot `d` would not wait
any more, and that do not notify its task. -/
inductive Sleeps (env : Env) (tcp : Tcp) (d : TcpDesc) (p : TcpPcb) : Waiter → Event → Prop
  /-- An acknowledgement makes room for `send`, and the segment has no text and no FIN
  for which the task is notified. -/
  | window (data : List U8) (sent : Nat) (s : TcpSegment)
      (hselect : pcbSelect tcp.pcbs s.dst s.src = some d) (hreach : ReachesAck p s)
      (hopens : opensWindow p s.info)
      (hquiet : p.state = .closeWait ∨
        ¬ (SeesText p s ∧ fits p s.info s.data) ∧ ¬ SeesFin p s) :
      Sleeps env tcp d p (.send data sent) (.arrive s)
  /-- A FIN ends the stream for `receive` after this side has closed. -/
  | fin (len : Nat) (s : TcpSegment) (hselect : pcbSelect tcp.pcbs s.dst s.src = some d)
      (hreach : ReachesAck p s) (hpasses : passesAck p s.info)
      (hstate : p.state = .finWait1 ∨ p.state = .finWait2)
      (hfin : flagIsset s.flg flgFin = true) (hdata : s.data = []) :
      Sleeps env tcp d p (.receive len) (.arrive s)
  /-- A listener opened by `open` becomes the connection, and `accept` waits on it. -/
  | syn (s : TcpSegment) (hselect : pcbSelect tcp.pcbs s.dst s.src = some d)
      (hstate : p.state = .listen) (hmode : p.mode = .rfc) (hrst : flagIsset s.flg flgRst = false)
      (hack : flagIsset s.flg flgAck = false) (hsyn : flagIsset s.flg flgSyn = true) :
      Sleeps env tcp d p .accept (.arrive s)
  /-- `connect` opens the block anew. -/
  | connect (w : Waiter) (l r : IpEndp) (hlocal : Connects env tcp p l r)
      (hw : w ≠ .opening ∧ w ≠ .connect ∨ env.ipOutput (sendSyn env p l r).2 = false) :
      Sleeps env tcp d p w (.connectCall d r)
  /-- `connect` finds the block in a state it does not expect and closes it. -/
  | poll (w : Waiter) (hstate : p.state ≠ .established ∧ p.state ≠ .listen ∧
        p.state ≠ .synReceived ∧ p.state ≠ .synSent) :
      Sleeps env tcp d p w (.connectPoll d)
  /-- `connect` is interrupted and closes the block. -/
  | interrupted (w : Waiter) : Sleeps env tcp d p w (.connectInterrupted d)


section

variable {env : Env} {tcp : Tcp} {d : TcpDesc} {p p₁ p' : TcpPcb} {s : TcpSegment} {seg : SegInfo}
  {w : Waiter} {ev : Event} {es₁ es₂ : List Effect}

theorem ackNew_snd (p : TcpPcb) (seg : SegInfo) :
    (ackNew p seg).snd.wnd = windowAfter p seg ∧ (ackNew p seg).snd.nxt = p.snd.nxt ∧
      (ackNew p seg).snd.una = seg.ack := by
  unfold ackNew retransQueueCleanup windowAfter
  simp only
  split
  · exact ⟨rfl, rfl, rfl⟩
  · exact ⟨rfl, rfl, rfl⟩

/-- A sender that had no room has some after the ACK step exactly if the window
opens. -/
theorem sendCap_ack (hack : AckStep p seg p₁ es₁) (hcap : sendCap p = 0) :
    sendCap p₁ ≠ 0 ↔ opensWindow p seg := by
  obtain ⟨tw, rfl⟩ := hack.block
  unfold ackBlock opensWindow
  by_cases hnew : acksNew p seg
  · obtain ⟨hwnd, hnxt, huna⟩ := ackNew_snd p seg
    rw [if_pos hnew]
    simp only [sendCap, hwnd, hnxt, huna, hnew, true_and]
    omega
  · rw [if_neg hnew]
    simp only [hnew, false_and, iff_false, not_not]
    exact hcap

/-- What the text and FIN steps see is what the block before the ACK step shows. -/
theorem AckStep.sees (hack : AckStep p s.info p₁ es₁) :
    (hasText p₁ s.data ↔ SeesText p s) ∧ (fits p₁ s.info s.data ↔ fits p s.info s.data) := by
  obtain ⟨snd, queue, tw, -, rfl⟩ := hack.eq
  refine ⟨?_, Iff.rfl⟩
  simp [hasText, SeesText, takesText_afterAck]

/-- A segment that passes the ACK step wakes up, unless it is on the list. -/
theorem pass_wakes (hselect : pcbSelect tcp.pcbs s.dst s.src = some d) (hreach : ReachesAck p s)
    (hack : AckStep p s.info p₁ es₁)
    (htext : textAndFin env p₁ s.info s.flg s.data = .ok (p', es₂)) (hwait : waitsIn p w)
    (hafter : ¬ waitsIn p' w) :
    .notify p.task ∈ es₁ ++ es₂ ∨ Sleeps env tcp d p w (.arrive s) := by
  obtain ⟨hsees, hfits⟩ := hack.sees
  obtain ⟨snd, queue, tw, -, heq⟩ := hack.eq
  have htask : p₁.task = p.task := by rw [heq]
  have hstate : p₁.state = p.state.afterAck (s.ack = p.snd.nxt) := by rw [heq]; rfl
  have hbuf : p₁.buf = p.buf := by rw [heq]
  have hopen : p₁.state ≠ .closed ∧ p₁.state ≠ .listen := by
    rw [hstate]
    exact afterAck_ne _ hreach.state.1 hreach.state.2.1
  cases w with
  | send data sent =>
      obtain ⟨hst, hlen, hcap⟩ := hwait
      have hsame : p₁.state = p.state := by
        rw [hstate]
        rcases hst with hs | hs <;> rw [hs] <;> rfl
      have hopens := sendCap_ack hack hcap
      rcases textAndFin_cases hopen htext with ⟨hno, hnofin, rfl, -⟩ | ⟨-, -, -, -, rfl⟩ |
        ⟨-, hfin, tw', rfl, -, hnotify, -⟩ | ⟨-, -, -, -, -, hnotify, -⟩
      · right
        refine .window data sent s hselect hreach (hopens.mp ?_) (.inr ⟨?_, ?_⟩)
        · exact fun hcap' ↦ hafter ⟨hsame ▸ hst, hlen, hcap'⟩
        · rwa [hsees, hfits] at hno
        · rwa [hsees, hfits] at hnofin
      · exact .inl (by simp [htask])
      · rcases hst with hs | hs
        · exact .inl (List.mem_append_right _ (htask ▸ hnotify (.inr (hsame.trans hs))))
        · right
          refine .window data sent s hselect hreach (hopens.mp ?_) (.inl hs)
          refine fun hcap' ↦ hafter ⟨.inr ?_, hlen, hcap'⟩
          simp only [hsame, hs]
          rfl
      · exact .inl (List.mem_append_right _ (htask ▸ hnotify))
  | receive len =>
      obtain ⟨hst, hempty⟩ := hwait
      have htakes : p₁.state.takesText = true := by
        rw [hstate, takesText_afterAck, hst]
        rfl
      rcases textAndFin_cases hopen htext with ⟨-, -, rfl, -⟩ | ⟨-, -, -, -, rfl⟩ |
        ⟨hno, hfin, tw', rfl, -, hnotify, -⟩ | ⟨-, -, -, -, -, hnotify, -⟩
      · exact absurd ⟨htakes, hbuf.trans hempty⟩ hafter
      · exact .inl (by simp [htask])
      · have hdata : s.data = [] := by
          by_contra hne
          exact hno ⟨htakes, hne⟩
        by_cases hest : p.state = .established
        · refine .inl (List.mem_append_right _ (htask ▸ hnotify (.inr ?_)))
          rw [hstate, hest]
          rfl
        · right
          refine .fin len s hselect hreach hack.passes ?_ hfin hdata
          cases hs : p.state <;> simp_all [TcpState.takesText]
      · exact .inl (List.mem_append_right _ (htask ▸ hnotify))
  | opening | connect =>
      rcases hwait with hs | hs | hs
      · exact absurd hs hreach.state.2.1
      · exact .inl (List.mem_append_left _ (hack.notify hs))
      · exact absurd hs hreach.state.2.2
  | accept => exact absurd hwait.1 hreach.state.2.1

theorem BlockStep.wakes {es : List Effect} {reply : Reply}
    (h : BlockStep env tcp d ev p es reply p') (hwait : waitsIn p w) (hafter : ¬ waitsIn p' w) :
    .notify p.task ∈ es ∨ Sleeps env tcp d p w ev := by
  cases h with
  | mss m => exact absurd hwait hafter
  | bind l _ => exact absurd hwait hafter
  | listen n hstate => cases w <;> simp [waitsIn, hstate, TcpState.takesText] at hwait
  | connectFails hstate => exact .inr (.poll w hstate)
  | interrupted => exact .inr (.interrupted w)
  | syn l r hlocal _ =>
      refine .inr (.connect w l r hlocal (.inl ?_))
      constructor
      · rintro rfl
        exact hafter (.inr (.inr rfl))
      · rintro rfl
        exact hafter (.inr (.inr rfl))
  | synFails l r hlocal houtput => exact .inr (.connect w l r hlocal (.inr houtput))
  | passive s hselect hstate hmode hrst hack hsyn =>
      rw [passiveOpen_eq] at hafter
      cases w with
      | accept => exact .inr (.syn s hselect hstate hmode hrst hack hsyn)
      | opening | connect => exact absurd (.inr (.inl rfl)) hafter
      | send data sent => simp [waitsIn, hstate] at hwait
      | receive len => simp [waitsIn, hstate, TcpState.takesText] at hwait
  | synSent s acceptable _ hstate _ _ _ =>
      obtain ⟨q, hq, hcases⟩ := synInSynSent_cases env p s.info acceptable
      obtain ⟨snd, queue, heq, -⟩ := takeSyn_eq p s.info acceptable
      rcases hcases with ⟨-, hcase⟩ | ⟨-, hcase⟩
      · rw [hcase, hq, heq]
        exact .inl (by simp)
      · rw [hcase] at hafter
        cases w with
        | opening | connect => exact absurd (.inr (.inl rfl)) hafter
        | send data sent => simp [waitsIn, hstate] at hwait
        | receive len => simp [waitsIn, hstate, TcpState.takesText] at hwait
        | accept => simp [waitsIn, hstate] at hwait
  | fin state _ => exact .inl (by simp)
  | data data sent n hstate _ _ hcap =>
      rw [sendData_eq] at hafter
      cases w with
      | send data sent => exact absurd hwait.2.2 hcap
      | receive len => exact absurd hwait hafter
      | opening | connect => exact absurd hwait hafter
      | accept => exact absurd hwait hafter
  | take len n wnd _ hbuf _ _ =>
      cases w with
      | receive len => exact absurd hwait.2 hbuf
      | send data sent => exact absurd hwait hafter
      | opening | connect => exact absurd hwait hafter
      | accept => exact absurd hwait hafter

/-- Only `accept` looks at the backlog. -/
theorem waitsIn_backlog {backlog rest : List TcpDesc} {new : TcpDesc} (hwait : waitsIn p w)
    (hbacklog : p.backlog = new :: rest) : waitsIn { p with backlog := backlog } w := by
  cases w with
  | accept => exact absurd hwait.2 (by simp [hbacklog])
  | send data sent => exact hwait
  | receive len => exact hwait
  | opening | connect => exact hwait

/-- **One step**: it leaves a waiting call waiting, or notifies its task, or it is on
the list. -/
theorem Move.wakes {out : Outcome} (h : Move env tcp ev out) (hp : tcp.get d = some p)
    (hwait : waitsIn p w) (hafter : ∀ p', out.tcp.get d = some p' → ¬ waitsIn p' w) :
    .notify p.task ∈ out.effects ∨ Sleeps env tcp d p w ev := by
  cases h with
  | idle _ _ => exact absurd hwait (hafter p hp)
  | @work ev reply es c q q' hq hblock =>
      have hget := get_set hq q'
      by_cases hc : d = c
      · subst hc
        obtain rfl : p = q := by simpa using hp.symm.trans hq
        exact hblock.wakes hwait (hafter q' (by rw [hget, if_pos rfl]))
      · exact absurd hwait (hafter p (by rw [hget, if_neg hc, hp]))
  | @birth ev reply es c tcp' q halloc hbirth =>
      have hc : d ≠ c := by
        rintro rfl
        exact absurd (hp.symm.trans (pcbAlloc_spec halloc).1) (by simp)
      exact absurd hwait (hafter p (by rw [get_birth halloc, if_neg hc, hp]))
  | stillborn hget _ _ => exact absurd hwait (hafter p ((hget d).trans hp))
  | drop es _ _ _ _ hdrained _ =>
      rcases hdrained.drain.frame d with hsame | hgone
      · exact absurd hwait (hafter p (hsame.trans hp))
      · exact .inl (List.mem_append_right _ (hdrained.drain.notified d p hp hgone))
  | @pass s c q q₁ q' es₁ es₂ hselect hq hparent hreach hack htext =>
      have hget := get_set hq q'
      by_cases hc : d = c
      · subst hc
        obtain rfl : p = q := by simpa using hp.symm.trans hq
        exact pass_wakes hselect hreach hack htext hwait (hafter q' (by rw [hget, if_pos rfl]))
      · exact absurd hwait (hafter p (by rw [hget, if_neg hc, hp]))
  | @join s c l q q₁ q₂ q' parent es₁ es₂ hselect hq hstate hparent hreach hack hl hq₂ htext =>
      -- Both the block and its parent are notified.
      by_cases hc : d = c
      · subst hc
        obtain rfl : p = q := by simpa using hp.symm.trans hq
        exact .inl (by simp [hack.notify hstate])
      · have hp₁ : (tcp.set c q₁).get d = some p := by rw [get_set hq, if_neg hc, hp]
        by_cases hdl : d = l
        · subst hdl
          obtain rfl : p = parent := by simpa using hp₁.symm.trans hl
          exact .inl (by simp)
        · refine absurd hwait (hafter p ?_)
          rw [get_set_set_set hq hl, if_neg hc, if_neg hdl, hp]
  | @pop l new q rest reply hq hstate hbacklog hreply =>
      have hget := get_set hq { q with backlog := rest }
      by_cases hc : d = l
      · subst hc
        obtain rfl : p = q := by simpa using hp.symm.trans hq
        exact absurd (waitsIn_backlog hwait hbacklog) (hafter _ (by rw [hget, if_pos rfl]))
      · exact absurd hwait (hafter p (by rw [hget, if_neg hc, hp]))
  | @accept l new q r rest m hq hstate hbacklog hr =>
      have hget := get_set hr { r with mss := m, hist := { r.hist with accepted := true } }
      have hget' := get_set hq { q with backlog := rest }
      -- The block as it is before `accept` marks it as accepted.
      obtain ⟨p₁, hp₁, hwait₁⟩ : ∃ p₁, (tcp.set l { q with backlog := rest }).get d = some p₁ ∧
          waitsIn p₁ w := by
        by_cases hc : d = l
        · subst hc
          obtain rfl : p = q := by simpa using hp.symm.trans hq
          exact ⟨_, by rw [hget', if_pos rfl], waitsIn_backlog hwait hbacklog⟩
        · exact ⟨p, by rw [hget', if_neg hc, hp], hwait⟩
      by_cases hc : d = new
      · subst hc
        obtain rfl : p₁ = r := by simpa using hp₁.symm.trans hr
        have hnot := hafter _ ((hget d).trans (if_pos rfl))
        exact absurd hwait₁ hnot
      · exact absurd hwait₁ (hafter p₁ (by rw [hget, if_neg hc, hp₁]))
  | tick hnone hsome _ =>
      rcases hsome d p hp with ⟨hd, hes, -⟩ | ⟨-, hnotify, -⟩
      · have hafter' := hafter _ hd
        rcases retransEmit_cases env p with heq | ⟨f, -, heq⟩
        · exact .inl (hes _ (by simp [heq]))
        · rw [heq] at hafter'
          exact absurd hwait hafter'
      · exact .inl hnotify

/-! ## The list is complete -/

/-- A segment for a block past SYN_RECEIVED that gets through to its text. -/
theorem step_pass (hselect : pcbSelect tcp.pcbs s.dst s.src = some d) (hp : tcp.get d = some p)
    (hreach : ReachesAck p s) (hpasses : passesAck p s.info) (hstate : p.state ≠ .synReceived) :
    ∃ p₁ es₁ p' es₂, AckStep p s.info p₁ es₁ ∧
      textAndFin env p₁ s.info s.flg s.data = .ok (p', es₂) ∧
      step env tcp (.arrive s) = .ok { tcp := tcp.set d p', effects := es₁ ++ es₂ } := by
  have harrives : segmentArrives env tcp s =
      arrivesOtherwise env tcp d p s.info s.flg s.data s.dst s.src := by
    obtain ⟨h₁, h₂, h₃⟩ := hreach.state
    simp only [segmentArrives, hselect, hp, unwrap, bind, Except.bind]
  rcases checkAck_cases env s.info s.flg s.dst s.src hreach.state with
    ⟨p₁, es₁, hack, hcheck⟩ | ⟨hnot, -⟩ | ⟨hlast, -, -⟩
  · obtain ⟨r, htext⟩ : ∃ r, textAndFin env p₁ s.info s.flg s.data = .ok r :=
      ⟨_, textAndFin_eq env p₁ s.info s.flg s.data⟩
    refine ⟨p₁, es₁, r.1, r.2, hack, htext, ?_⟩
    have hother : arrivesOtherwise env tcp d p s.info s.flg s.data s.dst s.src =
        .ok (tcp.set d r.1, es₁ ++ r.2) := by
      rw [if_neg hstate] at hcheck
      simp [arrivesOtherwise, hreach.acceptable, hreach.rst, hreach.syn, hreach.ack, hcheck,
        joinBacklog, get_set hp, unwrap, htext, bind, Except.bind, pure, Except.pure]
    simp only [step, harrives, hother, bind, Except.bind, pure, Except.pure]
  · exact absurd hpasses hnot
  · simp [passesAck, hlast] at hpasses

theorem acksNew.passes (h : acksNew p seg) : passesAck p seg := by
  obtain ⟨hstate, hlt, hle⟩ := h
  have hnot : ¬ p.snd.nxt < seg.ack := BitVec.not_lt.mpr hle
  rcases hstate with hs | hs | hs | hs | hs <;> simp [passesAck, hs, hnot]
  exact ⟨BitVec.le_of_lt hlt, hle⟩

/-- A closed block lets nobody wait. -/
theorem not_waitsIn_closed (hstate : p.state = .closed) (w : Waiter) : ¬ waitsIn p w := by
  cases w <;> simp [waitsIn, hstate, TcpState.takesText]

theorem Sleeps.window_loses {data : List U8} {sent : Nat} {out : Outcome}
    (hselect : pcbSelect tcp.pcbs s.dst s.src = some d) (hreach : ReachesAck p s)
    (hopens : opensWindow p s.info)
    (hquiet : p.state = .closeWait ∨ ¬ (SeesText p s ∧ fits p s.info s.data) ∧ ¬ SeesFin p s)
    (hp : tcp.get d = some p) (hwait : waitsIn p (.send data sent))
    (hstep : step env tcp (.arrive s) = .ok out) :
    (∀ p', out.tcp.get d = some p' → ¬ waitsIn p' (.send data sent)) ∧
      .notify p.task ∉ out.effects := by
  obtain ⟨hst, -, hcap⟩ := hwait
  have hopen : p.state.isOpen = true := by rcases hst with hs | hs <;> simp [hs, TcpState.isOpen]
  have hne : p.state ≠ .synReceived := by rcases hst with hs | hs <;> simp [hs]
  obtain ⟨p₁, es₁, p', es₂, hack, htext, hout⟩ := step_pass hselect hp hreach hopens.1.passes hne
  cases hstep.symm.trans hout
  rw [hack.silent hopen, List.nil_append]
  obtain ⟨hsees, hfits⟩ := hack.sees
  have hroom : sendCap p₁ ≠ 0 := (sendCap_ack hack hcap).mpr hopens
  obtain ⟨snd, queue, tw, -, heq⟩ := hack.eq
  have hsame : p₁.state = p.state := by
    rw [heq]
    rcases hst with hs | hs <;> simp [hs, TcpState.afterAck]
  have hclosed : p₁.state ≠ .closed ∧ p₁.state ≠ .listen := by
    rw [hsame]
    exact ⟨hreach.state.1, hreach.state.2.1⟩
  -- No text is taken, and a FIN only in CLOSE_WAIT.
  have hnotext : ¬ (hasText p₁ s.data ∧ fits p₁ s.info s.data) := by
    rintro ⟨htx, hfit⟩
    rcases hquiet with hs | ⟨hno, -⟩
    · simp [hasText, hsame, hs, TcpState.takesText] at htx
    · exact hno ⟨hsees.mp htx, hfits.mp hfit⟩
  have hkept : sendCap p' = sendCap p₁ ∧ .notify p.task ∉ es₂ := by
    rcases textAndFin_cases hclosed htext with ⟨-, -, rfl, hes⟩ | ⟨htx, hfit, -⟩ |
      ⟨hno, hfin, tw', rfl, -, -, hes⟩ | ⟨htx, hfit, -⟩
    · exact ⟨rfl, fun hmem ↦ absurd (hes _ hmem) (by simp)⟩
    · exact absurd ⟨htx, hfit⟩ hnotext
    · refine ⟨rfl, fun hmem ↦ ?_⟩
      rcases hes _ hmem with hemit | ⟨-, hs | hs⟩
      · exact absurd hemit (by simp)
      · exact absurd (hsame.symm.trans hs) hne
      · rcases hquiet with hs' | ⟨-, hnofin⟩
        · exact absurd (hs'.symm.trans (hsame.symm.trans hs)) (by simp)
        · exact hnofin ⟨hfin, fun htx ↦ absurd (hsees.mpr htx) hno⟩
    · exact absurd ⟨htx, hfit⟩ hnotext
  refine ⟨fun q hq hwait' ↦ ?_, hkept.2⟩
  rw [get_set hp, if_pos rfl] at hq
  cases hq
  exact hroom (hkept.1 ▸ hwait'.2.2)

theorem Sleeps.fin_loses {len : Nat} {out : Outcome}
    (hselect : pcbSelect tcp.pcbs s.dst s.src = some d) (hreach : ReachesAck p s)
    (hpasses : passesAck p s.info) (hstate : p.state = .finWait1 ∨ p.state = .finWait2)
    (hfin : flagIsset s.flg flgFin = true) (hdata : s.data = []) (hp : tcp.get d = some p)
    (hstep : step env tcp (.arrive s) = .ok out) :
    (∀ p', out.tcp.get d = some p' → ¬ waitsIn p' (.receive len)) ∧
      .notify p.task ∉ out.effects := by
  have hopen : p.state.isOpen = true := by
    rcases hstate with hs | hs <;> simp [hs, TcpState.isOpen]
  have hne : p.state ≠ .synReceived := by rcases hstate with hs | hs <;> simp [hs]
  obtain ⟨p₁, es₁, p', es₂, hack, htext, hout⟩ := step_pass hselect hp hreach hpasses hne
  cases hstep.symm.trans hout
  rw [hack.silent hopen, List.nil_append]
  obtain ⟨snd, queue, tw, -, heq⟩ := hack.eq
  have hstate₁ : p₁.state = .finWait1 ∨ p₁.state = .finWait2 := by
    rw [heq]
    rcases hstate with hs | hs
    · cases hall : decide (s.ack = p.snd.nxt) <;>
        simp [hs, TcpState.afterAck, TcpSegment.info, hall]
    · simp [hs, TcpState.afterAck]
  have hclosed : p₁.state ≠ .closed ∧ p₁.state ≠ .listen := by
    rcases hstate₁ with hs | hs <;> simp [hs]
  have hnotext : ¬ hasText p₁ s.data := fun htx ↦ htx.2 hdata
  rcases textAndFin_cases hclosed htext with ⟨-, hnofin, -⟩ | ⟨htx, -⟩ |
    ⟨-, -, tw', rfl, -, -, hes⟩ | ⟨htx, -⟩
  · exact absurd ⟨hfin, fun htx ↦ absurd htx hnotext⟩ hnofin
  · exact absurd htx hnotext
  · refine ⟨fun q hq hwait' ↦ ?_, fun hmem ↦ ?_⟩
    · rw [get_set hp, if_pos rfl] at hq
      cases hq
      have htakes := hwait'.1
      rcases hstate₁ with hs | hs
      · cases hall : decide (s.ack = p₁.snd.nxt) <;>
          simp [hs, TcpState.afterFin, TcpState.takesText, TcpSegment.info, hall] at htakes
      · simp [hs, TcpState.afterFin, TcpState.takesText] at htakes
    · rcases hes _ hmem with hemit | ⟨-, hs | hs⟩
      · exact absurd hemit (by simp)
      · rcases hstate₁ with hs' | hs' <;> simp [hs'] at hs
      · rcases hstate₁ with hs' | hs' <;> simp [hs'] at hs
  · exact absurd htx hnotext

/-- A step on the list ends the wait and does not notify the task. -/
theorem Sleeps.loses {out : Outcome} (h : Sleeps env tcp d p w ev) (hp : tcp.get d = some p)
    (hwait : waitsIn p w) (hstep : step env tcp ev = .ok out) :
    (∀ p', out.tcp.get d = some p' → ¬ waitsIn p' w) ∧ .notify p.task ∉ out.effects := by
  cases h with
  | window data sent s hselect hreach hopens hquiet =>
      exact window_loses hselect hreach hopens hquiet hp hwait hstep
  | fin len s hselect hreach hpasses hstate hfin hdata =>
      exact fin_loses hselect hreach hpasses hstate hfin hdata hp hstep
  | syn s hselect hstate hmode hrst hack hsyn =>
      have hlisten : arrivesListen env tcp d p s.info s.flg s.dst s.src =
          .ok (tcp.set d (passiveOpen env p s.info s.dst s.src).1,
            [.emit (passiveOpen env p s.info s.dst s.src).2]) := by
        simp [arrivesListen, hrst, hack, hsyn, listenTarget, hmode, hp, unwrap, bind, Except.bind,
          pure, Except.pure]
      simp only [step, segmentArrives, hselect, hp, unwrap, hstate, hlisten, bind, Except.bind, pure,
        Except.pure, Except.ok.injEq] at hstep
      subst hstep
      refine ⟨fun q hq hwait' ↦ ?_, by simp⟩
      rw [get_set hp, if_pos rfl, passiveOpen_eq] at hq
      cases hq
      exact absurd hwait'.1 (by simp)
  | connect w l r hlocal hw =>
      simp only [step, connectCall, hp, hlocal.1, hlocal.2, Bool.false_eq_true, if_false, pure,
        Except.pure, Except.ok.injEq] at hstep
      split at hstep
      · next houtput =>
        subst hstep
        refine ⟨fun q hq hwait' ↦ ?_, by simp⟩
        rw [get_set hp, if_pos rfl] at hq
        cases hq
        rcases hw with hw | hw
        · cases w <;> simp [waitsIn, Tcp.synSent, TcpState.takesText] at hwait' hw
        · exact absurd houtput (by simp [hw])
      · subst hstep
        refine ⟨fun q hq ↦ ?_, by simp⟩
        rw [get_set hp, if_pos rfl] at hq
        cases hq
        exact not_waitsIn_closed rfl w
  | poll w hstate =>
      obtain ⟨h₁, h₂, h₃, h₄⟩ := hstate
      simp only [step, connectPoll, hp, pure, Except.pure, Except.ok.injEq] at hstep
      subst hstep
      refine ⟨fun q hq ↦ ?_, by simp⟩
      rw [get_set hp, if_pos rfl] at hq
      cases hq
      exact not_waitsIn_closed rfl w
  | interrupted w =>
      simp only [step, connectInterrupted, hp, pure, Except.pure, Except.ok.injEq] at hstep
      subst hstep
      refine ⟨fun q hq ↦ ?_, by simp⟩
      rw [get_set hp, if_pos rfl] at hq
      cases hq
      exact not_waitsIn_closed rfl w

end

/-! ## No lost wake-up -/

/-- If a call on `d` waits before a step and would not wait after it, the step
notifies the task on which it waits: the generation advances by the number of
notifications, which is not zero. -/
def WakesUp (tcp : Tcp) (out : Outcome) (d : TcpDesc) (w : Waiter) : Prop :=
  ∀ env env' t, Waits env tcp d w t → (∀ t', ¬ Waits env' out.tcp d w t') →
    ∃ n, 0 < n ∧ out.effects.count (.notify t) = n ∧
      ∀ g, generation t out.effects g = g + BitVec.ofNat 64 n

/-- **No lost wake-up**, for every table and every step: a waiting call is woken up in
time exactly if the step is not one of those that `Sleeps` lists. -/
theorem wakesUp_iff {env : Env} {tcp : Tcp} {ev : Event} {out : Outcome}
    (hstep : step env tcp ev = .ok out) (d : TcpDesc) (w : Waiter) :
    WakesUp tcp out d w ↔
      ¬ ∃ p, tcp.get d = some p ∧ waitsIn p w ∧ Sleeps env tcp d p w ev := by
  constructor
  · rintro hwakes ⟨p, hp, hwait, hsleeps⟩
    obtain ⟨hafter, hnot⟩ := hsleeps.loses hp hwait hstep
    have hbefore : Waits env tcp d w p.task := (waits_iff ..).mpr ⟨p, hp, hwait, rfl⟩
    have hend : ∀ t', ¬ Waits env out.tcp d w t' := by
      intro t' hwait'
      obtain ⟨p', hp', hwait', -⟩ := (waits_iff ..).mp hwait'
      exact hafter p' hp' hwait'
    obtain ⟨n, hpos, hcount, -⟩ := hwakes env env p.task hbefore hend
    exact hnot (List.count_pos_iff.mp (hcount ▸ hpos))
  · intro hno env₁ env₂ t hbefore hafter
    obtain ⟨p, hp, hwait, rfl⟩ := (waits_iff ..).mp hbefore
    refine ⟨_, ?_, rfl, generation_eq p.task out.effects⟩
    rcases (step_move hstep).wakes hp hwait fun p' hp' hwait' ↦
      hafter p'.task ((waits_iff ..).mpr ⟨p', hp', hwait', rfl⟩) with hnotify | hsleeps
    · exact List.count_pos_iff.mpr hnotify
    · exact absurd ⟨p, hp, hwait, hsleeps⟩ hno

/-- An established connection whose window is full. -/
def fullWindow : List (Env × Event) :=
  [(calmEnv, .openCall hostEndp .any false), fromPeer 500 0 flgSyn [],
    (calmEnv, .arrive { src := peerEndp, dst := hostEndp, seq := 501, ack := 101, flg := flgAck,
                        wnd := 2, data := [] }),
    (routedEnv, .openFinish 0), (calmEnv, .send 0 [1, 2, 3] 0)]

/-- The peer takes the two octets and opens its window. -/
def windowOpens : Event := (fromPeer 501 103 flgAck []).2

/-- Text wakes up a waiting `receive`. -/
theorem wakesUp_iff_text :
    ∃ tcp out p, Reachable tcp ∧ step calmEnv tcp (fromPeer 501 103 flgAck [7]).2 = .ok out ∧
      tcp.get 0 = some p ∧ waitsIn p (.receive 1) ∧ WakesUp tcp out 0 (.receive 1) := by
  obtain ⟨tcp, hreach, htest⟩ := exists_reachableWhen (fun _ _ _ ↦ true) (fun _ _ _ _ ↦ trivial)
    (fun tcp ↦ ((tcp.get 0).any fun p ↦ p.state = .established && p.buf = []) &&
      Machine.okTest (step calmEnv tcp (fromPeer 501 103 flgAck [7]).2) fun _ ↦ true)
    fullWindow (by decide +kernel)
  simp only [Bool.and_eq_true] at htest
  obtain ⟨p, hp, hstate⟩ := (Option.any_eq_true _ _).mp htest.1
  simp only [Bool.and_eq_true, decide_eq_true_eq] at hstate
  obtain ⟨out, hout, -⟩ := Machine.exists_of_okTest htest.2
  have hwait : waitsIn p (.receive 1) := ⟨by simp [hstate.1, TcpState.takesText], hstate.2⟩
  refine ⟨tcp, out, p, hreach, hout, hp, hwait, (wakesUp_iff hout 0 (.receive 1)).mpr ?_⟩
  rintro ⟨q, hq, -, hsleeps⟩
  cases hsleeps with
  | fin len s _ _ _ _ hfin _ => exact absurd hfin (by decide)

/-- The acknowledgement that opens the window does not wake up the waiting `send`. -/
theorem window_update_loses_wakeup :
    ¬ ∀ tcp, Reachable tcp → ∀ env ev out, step env tcp ev = .ok out → ∀ d w,
      WakesUp tcp out d w := by
  intro hall
  obtain ⟨tcp, hreach, htest⟩ := exists_reachableWhen (fun _ _ _ ↦ true) (fun _ _ _ _ ↦ trivial)
    (fun tcp ↦ Machine.okTest (step calmEnv tcp windowOpens) fun out ↦
      (sendCall calmEnv tcp 0 [1, 2, 3] 2).reply = .wait 0 &&
        (sendCall calmEnv out.tcp 0 [1, 2, 3] 2).reply = .queued 1 &&
        .notify 0 ∉ out.effects) fullWindow (by decide +kernel)
  obtain ⟨out, hout, hreplies⟩ := Machine.exists_of_okTest htest
  simp only [Bool.and_eq_true, decide_eq_true_eq] at hreplies
  obtain ⟨⟨hbefore, hafter⟩, hnot⟩ := hreplies
  have hend : ∀ t', ¬ Waits calmEnv out.tcp 0 (.send [1, 2, 3] 2) t' := by
    rintro t' ⟨_, heq, hwait⟩
    cases heq
    exact absurd (hafter.symm.trans hwait) (by simp)
  obtain ⟨n, hpos, hcount, -⟩ := hall tcp hreach calmEnv windowOpens out hout 0
    (.send [1, 2, 3] 2) calmEnv calmEnv 0 ⟨_, rfl, hbefore⟩ hend
  exact hnot (List.count_pos_iff.mp (hcount ▸ hpos))

end Microps.Tcp
