import Microps.Lib.Spaced
import Microps.Tcp.Backoff
import Microps.Tcp.Conform

/-!
# Punctual timers

`on_timer` comes about every tenth of a second, and looks at every block when it does.  Where the
time between two of its visits to a block is bounded, what a block waits for is late by no more
than that: an entry of the queue is sent again when its time-out is over, a connection is given up
when the deadline of an entry is, and a block in TIME_WAIT is released half a minute after the last
segment that set its timer, if nothing has taken it out of that state before.

The back-off says how long an entry waits at least.  Here the upper bounds are added to it.
-/

namespace Microps.Tcp

/-! ## The time-wait timer -/

/-- A block that is in TIME_WAIT after a step has set its timer in it, or was in TIME_WAIT with the
same timer before. -/
def Lingers (env : Env) (p p' : TcpPcb) : Prop :=
  p'.state = .timeWait → p'.twTimer = env.now + timewaitSec ∨
    p.state = .timeWait ∧ p'.twTimer = p.twTimer

namespace Lingers

variable {env : Env} {p q p' : TcpPcb}

theorem of_eq (hstate : p'.state = p.state) (htimer : p'.twTimer = p.twTimer) :
    Lingers env p p' :=
  fun h ↦ .inr ⟨hstate ▸ h, htimer⟩

theorem of_ne (h : p'.state ≠ .timeWait) : Lingers env p p' :=
  fun h' ↦ absurd h' h

theorem of_set (h : p'.twTimer = env.now + timewaitSec) : Lingers env p p' :=
  fun _ ↦ .inl h

theorem trans (h : Lingers env p q) (h' : Lingers env q p') : Lingers env p p' := by
  intro hstate
  rcases h' hstate with hset | ⟨hq, heq⟩
  · exact .inl hset
  · rw [heq]
    exact h hq

end Lingers

section

variable {env : Env} {tcp : Tcp} {d : TcpDesc} {p p' q : TcpPcb} {s : TcpSegment} {seg : SegInfo}
  {es : List Effect}

/-- The ACK step sets the timer where it leaves CLOSING. -/
theorem checkAck_lingers {flags : U8} {l r : IpEndp} (hstep : AckStep p seg q es)
    (h : (checkAck env p seg flags l r).1 = .go q es) : Lingers env p q := by
  intro hq
  have hstate : p.state.afterAck (seg.ack = p.snd.nxt) = .timeWait := by
    obtain ⟨tw, rfl⟩ := hstep.block
    exact hq
  unfold checkAck at h
  cases hp : p.state with
  | timeWait =>
      simp only [hp, reduceCtorEq, if_false, ackStates] at h
      split at h
      · cases h
        exact .inl rfl
      · cases h
        exact .inr ⟨rfl, rfl⟩
  | closing =>
      simp only [hp, reduceCtorEq, if_false, ackStates] at h
      split at h
      · cases h
        exact .inl rfl
      · cases h
        exact absurd (hp.symm.trans hq) (by simp)
  | finWait1 =>
      rw [hp, TcpState.afterAck] at hstate
      split at hstate <;> exact absurd hstate (by simp)
  | closed | listen | synSent | synReceived | established | finWait2 | closeWait | lastAck =>
      rw [hp] at hstate
      exact absurd hstate (by simp [TcpState.afterAck])

/-- The FIN step sets the timer where it enters TIME_WAIT. -/
theorem checkFin_lingers (env : Env) (p : TcpPcb) (seg : SegInfo) (flags : U8) :
    Lingers env p (checkFin env p seg flags).1 := by
  unfold checkFin
  split
  · split
    · exact .of_eq rfl rfl
    · simp only
      split
      · exact .of_ne (by simp)
      · exact .of_ne (by simp)
      · split
        · exact .of_set rfl
        · exact .of_ne (by simp)
      · exact .of_set rfl
      · exact .of_eq rfl rfl
  · exact .of_eq rfl rfl

theorem textAndFin_lingers {flags : U8} {data : List U8}
    (h : textAndFin env p seg flags data = .ok (p', es)) : Lingers env p p' := by
  rw [textAndFin_eq] at h
  split at h
  · split at h
    · cases h
      have htext : Lingers env p (textBlock p seg data) := .of_eq rfl rfl
      exact htext.trans (checkFin_lingers env _ seg flags)
    · cases h
      exact .of_eq rfl rfl
  · have h := congrArg Prod.fst (Except.ok.inj h)
    cases h
    exact checkFin_lingers env p seg flags

/-- A segment sets the timer where it takes a block to TIME_WAIT. -/
theorem segmentArrives_lingers {r : Tcp × List Effect}
    (hselect : pcbSelect tcp.pcbs s.dst s.src = some d) (hp : tcp.get d = some p)
    (hreach : ReachesAck p s) (hpass : passesAck p s.info) (h : segmentArrives env tcp s = .ok r)
    (hp' : r.1.get d = some p') : Lingers env p p' := by
  obtain ⟨r', q', hr, hq', ⟨q, es, backlog, es', hstep, hcheck, htext⟩, -⟩ :=
    arrivesOtherwise_go env hp hreach hpass
  rw [segmentArrives_otherwise env hselect hp hreach.state, hr] at h
  cases h
  obtain rfl : q' = p' := by simpa using hq'.symm.trans hp'
  have hjoined : Lingers env q { q with backlog := backlog } := .of_eq rfl rfl
  exact (checkAck_lingers hstep hcheck).trans (hjoined.trans (textAndFin_lingers htext))

theorem BlockStep.lingers {ev : Event} {reply : Reply} (h : BlockStep env tcp d ev p es reply p') :
    Lingers env p p' := by
  cases h with
  | mss m => exact .of_eq rfl rfl
  | bind l hstate => exact .of_eq rfl rfl
  | listen n hstate => exact .of_ne (by simp)
  | connectFails hstate => exact .of_ne (by simp)
  | interrupted => exact .of_ne (by simp)
  | syn l r hlocal houtput => exact .of_ne (by simp [Tcp.synSent])
  | synFails l r hlocal houtput => exact .of_ne (by simp)
  | passive s hselect hstate hmode hrst hack hsyn =>
      rw [passiveOpen_eq]
      exact .of_ne (by simp)
  | synSent s acceptable hselect hstate hrst hsyn hack =>
      obtain ⟨q, hq, hcases⟩ := synInSynSent_cases env p s.info acceptable
      rcases hcases with ⟨-, heq⟩ | ⟨-, heq⟩
      · rw [heq]
        exact .of_ne (by simp)
      · rw [heq]
        exact .of_ne (by simp)
  | fin state hstate =>
      rw [sendFin_eq]
      refine .of_ne ?_
      rcases hstate with ⟨-, rfl⟩ | ⟨-, rfl⟩ <;> simp
  | data data sent n hstate hsent hn hcap =>
      rw [sendData_eq]
      exact .of_eq rfl rfl
  | take len n wnd hstate hbuf hn hwnd => exact .of_eq rfl rfl

/-- Every event but the timer sets the timer of a block that it takes to TIME_WAIT. -/
theorem step_lingers {ev : Event} {out : Outcome} (hout : step env tcp ev = .ok out)
    (hev : ev ≠ .timer) (hp : tcp.get d = some p) (hp' : out.tcp.get d = some p') :
    Lingers env p p' := by
  rcases (step_move hout).evolve hp' with ⟨q, hq, hevolve⟩ | ⟨hnone, -⟩
  · obtain rfl : p = q := by simpa using hp.symm.trans hq
    cases hevolve with
    | keep backlog mss accepted haccepted => exact .of_eq rfl rfl
    | block hblock => exact hblock.lingers
    | arrived s hselect hreach harrived =>
        obtain ⟨r, hr, rfl⟩ := Machine.exists_of_map_ok hout
        exact segmentArrives_lingers hselect hp hreach harrived.passes hr hp'
    | tick => exact absurd rfl hev
  · exact absurd (hp.symm.trans hnone) (by simp)

theorem Birth.state_ne {ev : Event} {reply : Reply} {task : TaskId}
    (h : Birth env tcp d task ev es reply p) : p.state ≠ .timeWait := by
  cases h with
  | socket => simp [TcpPcb.empty]
  | listen l r => simp
  | syn l l' r hopens houtput => simp [Tcp.synSent]
  | child s l q child hselect hq hstate hmode hroom hrst hack hsyn hchild =>
      rw [passiveOpen_eq]
      simp

/-- The block that a round of `on_timer` visits. -/
theorem timerVisit_self {tick : Nat} (hp' : (timerVisit tick env tcp d).get d = some p') :
    ∃ p, tcp.get d = some p ∧ ¬ (p.state = .timeWait ∧ p.twTimer < tick) ∧
      p' = (retransEmit env p).1 := by
  have hp' : (timerRound tick env (tcp.pcbs, []) d).1.peek d = some p' := hp'
  unfold timerRound at hp'
  split at hp'
  · next hd => exact absurd (hp'.symm.trans hd) (by simp)
  · next p hp =>
    split at hp'
    · exact absurd (hp'.symm.trans (pcbRelease_closed_spec env hp).1.freed) (by simp)
    · next hlive =>
      rw [Slots.peek_put hp, if_pos rfl] at hp'
      exact ⟨p, hp, hlive, (Option.some.inj hp').symm⟩

theorem retransEmit_lingers (env : Env) (p : TcpPcb) : Lingers env p (retransEmit env p).1 := by
  unfold retransEmit
  split
  · exact .of_ne (by simp)
  · exact .of_eq rfl rfl

end

/-! ## Visits to the slots -/

/-- A run under a clock, and what has become of every slot in it. -/
structure Watched where
  timed : Timed := {}
  /-- What the clock showed to `on_timer` when it last came to the slot, and what it shows now
  where the slot is empty. -/
  seen : TcpDesc → Nat := fun _ ↦ 0
  /-- When the time-wait timer of the block was set. -/
  lingers : TcpDesc → Nat := fun _ ↦ 0
  /-- `on_timer` has found an entry of the queue to be past its deadline. -/
  gaveUp : TcpDesc → Bool := fun _ ↦ false

/-- The clock that the loop of `on_timer` has read, in a round for slot `d`. -/
def Act.tick (d : TcpDesc) : Act → Option Nat
  | .call _ _ => none
  | .visit tick _ desc => if desc = d then some tick else none

/-- The block stays in TIME_WAIT, with the timer that it had. -/
def rests : Option TcpPcb → Option TcpPcb → Bool
  | some p, some p' => p.state = .timeWait ∧ p'.state = .timeWait ∧ p'.twTimer = p.twTimer
  | _, _ => false

/-- An entry of the queue is past its deadline. -/
def overdue (now : Nat) (queue : List TcpQueueEntry) : Bool :=
  queue.any fun e ↦ e.first + retransDeadline ≤ now

/-- One step, and what becomes of every slot. -/
def Watched.step (w : Watched) (act : Act) : Checked Watched :=
  (w.timed.step act).map fun timed ↦
    { timed := timed
      seen := fun d ↦
        if (w.timed.tcp.get d).isNone then act.env.now else (act.tick d).getD (w.seen d)
      lingers := fun d ↦
        if rests (w.timed.tcp.get d) (timed.tcp.get d) then w.lingers d else act.env.now
      gaveUp := fun d ↦ (w.timed.tcp.get d).isSome &&
        (w.gaveUp d ||
          (act.tick d).isSome && overdue act.env.now (w.timed.tcp.queueOf d)) }

/-- The steps a run may make in which `on_timer` comes to every block before `gap` has passed. -/
structure Watched.allows (gap : Nat) (w : Watched) (act : Act) : Prop where
  timed : w.timed.allows act
  /-- A round comes after the loop has read the clock, but not long after it. -/
  tick : ∀ d tick, act.tick d = some tick → tick ≤ act.env.now ∧ act.env.now ≤ tick + gap
  seen : ∀ d p, w.timed.tcp.get d = some p → act.env.now ≤ w.seen d + gap

/-- The states that such runs reach. -/
def Watched.Reachable (gap : Nat) : Watched → Prop :=
  Machine.Reach (· = {}) fun w act w' ↦ w.allows gap act ∧ w.step act = .ok w'

/-- The entry `e` was sent at the times `ts`, and it was neither due nor past its deadline when
`on_timer` last came to it. -/
structure Prompt (gap seen : Nat) (e : TcpQueueEntry) (ts : List Nat) : Prop where
  early : seen < e.last + e.rto
  fresh : seen < e.first + retransDeadline
  spaced : Spaced (fun i ↦ defaultRto * 2 ^ i) (fun i ↦ defaultRto * 2 ^ i + gap) ts

/-- What holds of the block `p` in a slot of which the rest is given. -/
structure Attended (gap now seen lingers : Nat) (gaveUp : Bool) (sent : List (List Nat))
    (p : TcpPcb) : Prop where
  came : seen ≤ now
  soon : now ≤ seen + gap
  timer : p.state = .timeWait → seen ≤ p.twTimer ∧ p.twTimer = lingers + timewaitSec
  entries : gaveUp = false → List.Forall₂ (Prompt gap seen) p.queue sent

section

variable {gap seen now : Nat} {env : Env} {e : TcpQueueEntry} {ts : List Nat}
  {sent : List (List Nat)} {p p' : TcpPcb} {tick lingers : Nat} {gaveUp : Bool}

/-- An entry that has just joined a queue. -/
theorem Prompt.new (gap : Nat) (hseen : seen ≤ env.now) (seq : U32) (flg : U8) (data : List U8) :
    Prompt gap seen (queueEntry env seq flg data) [env.now] where
  early := Nat.lt_of_le_of_lt hseen (Nat.lt_add_of_pos_right (show 0 < defaultRto by decide))
  fresh := Nat.lt_of_le_of_lt hseen (Nat.lt_add_of_pos_right (by decide))
  spaced := .singleton _ _ env.now

/-- An entry that is due when `on_timer` comes is sent again. -/
theorem Prompt.again (h : Prompt gap seen e ts) (hback : BacksOff now e ts)
    (hdue : e.last + e.rto ≤ env.now) (hfresh : env.now < e.first + retransDeadline)
    (htick : tick ≤ env.now) (hgap : env.now ≤ seen + gap) :
    Prompt gap tick { e with last := env.now, rto := e.rto * 2 } (ts ++ [env.now]) := by
  have hrto := hback.rto
  have hearly := h.early
  have hpos : 0 < e.rto := by
    rw [hrto]
    exact Nat.mul_pos (by decide) (Nat.two_pow_pos _)
  refine ⟨?_, Nat.lt_of_le_of_lt htick hfresh, h.spaced.snoc hback.last ?_ ?_⟩
  · exact Nat.lt_of_le_of_lt htick (Nat.lt_add_of_pos_right (Nat.mul_pos hpos (by decide)))
  · rw [← hrto]
    exact hdue
  · rw [← hrto]
    omega

/-- `on_timer` comes to a queue of which no entry is past its deadline. -/
theorem followEmit_prompt (hback : List.Forall₂ (BacksOff now) p.queue sent)
    (h : List.Forall₂ (Prompt gap seen) p.queue sent) (hfresh : overdue env.now p.queue = false)
    (htick : tick ≤ env.now) (hgap : env.now ≤ seen + gap) :
    List.Forall₂ (Prompt gap tick) (retransEmit env p).1.queue (followEmit env p.queue sent) := by
  have hearly := hfresh
  unfold overdue at hfresh
  simp only [overdue, List.any_eq_false, decide_eq_true_eq, Nat.not_le] at hearly
  unfold retransEmit followEmit
  rw [hfresh]
  simp only [Bool.false_eq_true, if_false]
  clear hfresh
  generalize p.queue = q at h hback hearly
  induction h with
  | nil => exact .nil
  | @cons e ts q sent hts _ ih =>
      obtain ⟨hone, hrest⟩ := List.forall₂_cons.mp hback
      have hdeadline := hearly e (by simp)
      refine .cons ?_ (ih hrest fun e' he' ↦ hearly e' (List.mem_cons_of_mem e he'))
      beta_reduce
      split
      · next hdue =>
        have hdue : e.last + e.rto ≤ env.now := by simpa [TcpQueueEntry.due] using hdue
        exact hts.again hone hdue hdeadline htick hgap
      · next hdue =>
        have hdue : env.now < e.last + e.rto := by simpa [TcpQueueEntry.due] using hdue
        exact ⟨Nat.lt_of_le_of_lt htick hdue, Nat.lt_of_le_of_lt htick hdeadline, hts.spaced⟩

/-- The timer of a block after a step. -/
theorem Attended.timer_step (h : Attended gap now seen lingers gaveUp sent p)
    (hlingers : Lingers env p p') {seen' : Nat} (hseen : seen' ≤ env.now)
    (hlate : p'.state = .timeWait → p.state = .timeWait → seen' ≤ max seen p.twTimer)
    (hstate : p'.state = .timeWait) :
    seen' ≤ p'.twTimer ∧ p'.twTimer =
      (if rests (some p) (some p') then lingers else env.now) + timewaitSec := by
  split
  · next hrests =>
    obtain ⟨hp, -, heq⟩ : p.state = .timeWait ∧ p'.state = .timeWait ∧ p'.twTimer = p.twTimer := by
      simpa [rests] using hrests
    obtain ⟨hle, hset⟩ := h.timer hp
    have := hlate hstate hp
    rw [heq]
    exact ⟨by omega, hset⟩
  · next hrests =>
    rcases hlingers hstate with hset | ⟨hp, heq⟩
    · rw [hset]
      exact ⟨by omega, rfl⟩
    · exact absurd (show rests (some p) (some p') by simp [rests, hp, hstate, heq]) hrests

/-- `on_timer` comes to a block. -/
theorem Attended.visit (h : Attended gap now seen lingers gaveUp sent p)
    (hback : List.Forall₂ (BacksOff now) p.queue sent)
    (hlive : ¬ (p.state = .timeWait ∧ p.twTimer < tick)) (htick : tick ≤ env.now)
    (hsoon : env.now ≤ tick + gap) (hgap : env.now ≤ seen + gap) :
    Attended gap env.now tick
      (if rests (some p) (some (retransEmit env p).1) then lingers else env.now)
      (gaveUp || overdue env.now p.queue) (followEmit env p.queue sent) (retransEmit env p).1 where
  came := htick
  soon := hsoon
  timer := h.timer_step (retransEmit_lingers env p) htick fun _ hp ↦ by
    have : tick ≤ p.twTimer := Nat.le_of_not_lt fun hlt ↦ hlive ⟨hp, hlt⟩
    omega
  entries hgave := by
    obtain ⟨hgave, hfresh⟩ := Bool.or_eq_false_iff.mp hgave
    exact followEmit_prompt hback (h.entries hgave) hfresh htick hgap

/-- Another event finds the block. -/
theorem Attended.evolve {tcp : Tcp} {d : TcpDesc} {ev : Event} {out : Outcome}
    (h : Attended gap now seen lingers gaveUp sent p) (hout : step env tcp ev = .ok out)
    (hev : ev ≠ .timer) (hp : tcp.get d = some p) (hp' : out.tcp.get d = some p')
    (hnow : now ≤ env.now) (hgap : env.now ≤ seen + gap) :
    Attended gap env.now seen (if rests (some p) (some p') then lingers else env.now) gaveUp
      (follow env.now p.queue p'.queue sent) p' where
  came := Nat.le_trans h.came hnow
  soon := hgap
  timer := h.timer_step (step_lingers hout hev hp hp') (Nat.le_trans h.came hnow)
    fun _ _ ↦ Nat.le_max_left _ _
  entries hgave := by
    have hqueue := (step_move hout).queueOf hev d
    simp only [Tcp.queueOf, hp, hp', Option.map_some, Option.getD_some] at hqueue
    exact hqueue.follow (h.entries hgave) (Prompt.new gap (Nat.le_trans h.came hnow))

end

/-- What holds of all slots. -/
def Attends (gap : Nat) (w : Watched) : Prop :=
  ∀ d p, w.timed.tcp.get d = some p →
    Attended gap w.timed.now (w.seen d) (w.lingers d) (w.gaveUp d) (w.timed.sent d) p

section

variable {gap : Nat} {w w' : Watched}

theorem Attends.call {env : Env} {ev : Event} (h : Attends gap w) (hright : TimesRight w.timed)
    (hallows : w.allows gap (.call env ev)) (hstep : w.step (.call env ev) = .ok w') :
    Attends gap w' := by
  obtain ⟨timed, htimed, rfl⟩ := Machine.exists_of_map_ok hstep
  obtain ⟨out, hout, rfl⟩ := Machine.exists_of_map_ok htimed
  have hev : ev ≠ .timer := fun hev ↦ hallows.timed.2.2 env (by rw [hev])
  intro d p' hp'
  have hp' : out.tcp.get d = some p' := hp'
  cases hp : w.timed.tcp.get d with
  | some p =>
      have hq : w.timed.tcp.queueOf d = p.queue := by simp [Tcp.queueOf, hp]
      have hq' : out.tcp.queueOf d = p'.queue := by simp [Tcp.queueOf, hp']
      have hev := (h d p hp).evolve hout hev hp hp' hallows.timed.1 (hallows.seen d p hp)
      simpa [hp, hp', hq, hq', Act.env, Act.tick] using hev
  | none =>
      have hq : w.timed.tcp.queueOf d = [] := by simp [Tcp.queueOf, hp]
      have hq' : out.tcp.queueOf d = p'.queue := by simp [Tcp.queueOf, hp']
      have hsent : w.timed.sent d = [] := by
        have := hright d
        rw [hq] at this
        exact List.forall₂_nil_left_iff.mp this
      have hqueue := (step_move hout).queueOf hev d
      rw [hq, hq'] at hqueue
      rcases (step_move hout).evolve hp' with ⟨q, hold, -⟩ | ⟨-, es, reply, hbirth⟩
      · exact absurd (hold.symm.trans hp) (by simp)
      · simp only [hp, hp', hq, hq', hsent, Act.env, Act.tick, Option.isNone_none, if_true]
        refine ⟨Nat.le_refl _, Nat.le_add_right _ _, fun hstate ↦ absurd hstate hbirth.state_ne,
          fun _ ↦ ?_⟩
        exact hqueue.follow .nil (Prompt.new gap (Nat.le_refl _))

theorem Attends.visit {tick : Nat} {env : Env} {desc : TcpDesc} (h : Attends gap w)
    (hright : TimesRight w.timed) (hallows : w.allows gap (.visit tick env desc))
    (hstep : w.step (.visit tick env desc) = .ok w') : Attends gap w' := by
  obtain ⟨timed, htimed, rfl⟩ := Machine.exists_of_map_ok hstep
  cases htimed
  intro d p' hp'
  have hp' : (timerVisit tick env w.timed.tcp desc).get d = some p' := hp'
  have hq' : (timerVisit tick env w.timed.tcp desc).queueOf d = p'.queue := by
    simp [Tcp.queueOf, hp']
  by_cases hd : desc = d
  · subst hd
    obtain ⟨p, hp, hlive, rfl⟩ := timerVisit_self hp'
    have hq : w.timed.tcp.queueOf desc = p.queue := by simp [Tcp.queueOf, hp]
    have hback := hright desc
    rw [hq] at hback
    obtain ⟨htick, hsoon⟩ : tick ≤ env.now ∧ env.now ≤ tick + gap :=
      hallows.tick desc tick (by simp [Act.tick])
    have hgap : env.now ≤ w.seen desc + gap := hallows.seen desc p hp
    have hvisit := (h desc p hp).visit hback hlive htick hsoon hgap
    rw [← follow_of_length_eq env.now (length_retransEmit env p) (followEmit env p.queue _)]
      at hvisit
    simpa [hp, hp', hq, hq', Act.env, Act.tick] using hvisit
  · rcases timerRound_cases hp' with ⟨-, hp⟩ | ⟨heq, -⟩
    · have hp : w.timed.tcp.get d = some p' := hp
      have hq : w.timed.tcp.queueOf d = p'.queue := by simp [Tcp.queueOf, hp]
      have hold := h d p' hp
      have hnow : w.timed.now ≤ env.now := hallows.timed.1
      have hsame : Lingers env p' p' := .of_eq rfl rfl
      have htimer := hold.timer_step hsame (Nat.le_trans hold.came hnow)
        fun _ _ ↦ Nat.le_max_left _ _
      have hlater : Attended gap env.now (w.seen d)
          (if rests (some p') (some p') then w.lingers d else env.now) (w.gaveUp d)
          (w.timed.sent d) p' :=
        ⟨Nat.le_trans hold.came hnow, hallows.seen d p' hp, htimer, hold.entries⟩
      simpa [hp, hp', hq, hq', Act.env, Act.tick, hd, Ne.symm hd,
        follow_of_length_eq env.now rfl (w.timed.sent d)] using hlater
    · exact absurd heq.symm hd

theorem Watched.Reachable.attends (h : Watched.Reachable gap w) :
    TimedReachable w.timed ∧ Attends gap w := by
  refine Machine.Reach.invariant (fun w ↦ TimedReachable w.timed ∧ Attends gap w) ?_ ?_ h
  · rintro _ rfl
    refine ⟨.start rfl, fun d p hp ↦ absurd hp ?_⟩
    simp [Tcp.get, Slots.peek]
  · rintro w act w' ⟨hreach, ih⟩ ⟨hallows, hstep⟩
    have hnext : TimedReachable w'.timed := by
      obtain ⟨timed, htimed, rfl⟩ := Machine.exists_of_map_ok hstep
      exact hreach.next ⟨hallows.timed, htimed⟩
    refine ⟨hnext, ?_⟩
    cases act with
    | call env ev => exact ih.call hreach.timesRight hallows hstep
    | visit tick env desc => exact ih.visit hreach.timesRight hallows hstep

/-- The round of `on_timer` for a block in TIME_WAIT. -/
theorem timerVisit_timeWait {tcp : Tcp} {d : TcpDesc} {p : TcpPcb} (hp : tcp.get d = some p)
    (hstate : p.state = .timeWait) (tick : Nat) (env : Env) :
    (timerVisit tick env tcp d).get d =
      if tick ≤ p.twTimer then some (retransEmit env p).1 else none := by
  have hpeek : tcp.pcbs.peek d = some p := hp
  simp only [timerVisit, timerRound, hpeek, hstate, true_and, Tcp.get]
  by_cases hlive : tick ≤ p.twTimer
  · rw [if_neg (Nat.not_lt.mpr hlive), if_pos hlive, Slots.peek_put hpeek, if_pos rfl]
  · rw [if_pos (Nat.not_le.mp hlive), if_neg hlive]
    exact (pcbRelease_closed_spec env hpeek).1.freed

/-- **Timers of a connection are punctual**: where `on_timer` comes to every block before `gap` has
passed, no block is in TIME_WAIT for longer than half a minute and `gap` after its timer was set.
A visit of `on_timer` releases it exactly if the half minute is over, and otherwise looks after its
queue as in any state.  Until `on_timer` finds an entry of the queue past its deadline, every entry
that is sent again is sent when its time-out is over, or less than `gap` after that; no entry is
overdue by more than that, and none is left past its deadline for longer. -/
theorem connection_punctual (h : Watched.Reachable gap w) {d : TcpDesc} {p : TcpPcb}
    (hp : w.timed.tcp.get d = some p) :
    (p.state = .timeWait → w.timed.now ≤ w.lingers d + timewaitSec + gap ∧
      ∀ tick env, (timerVisit tick env w.timed.tcp d).get d =
        if tick ≤ w.lingers d + timewaitSec then some (retransEmit env p).1 else none) ∧
    (w.gaveUp d = false → (w.timed.sent d).length = p.queue.length ∧
      ∀ (i : Nat) (e : TcpQueueEntry) (ts : List Nat), p.queue[i]? = some e →
        (w.timed.sent d)[i]? = some ts →
        w.timed.now < e.last + e.rto + gap ∧ w.timed.now < e.first + retransDeadline + gap ∧
        ∀ (j t t' : Nat), ts[j]? = some t → ts[j + 1]? = some t' →
          t + defaultRto * 2 ^ j ≤ t' ∧ t' ≤ t + (defaultRto * 2 ^ j + gap)) := by
  have hone := h.attends.2 d p hp
  have hsoon := hone.soon
  refine ⟨fun hstate ↦ ?_, fun hgave ↦ ?_⟩
  · obtain ⟨hle, hset⟩ := hone.timer hstate
    refine ⟨by omega, fun tick env ↦ ?_⟩
    rw [timerVisit_timeWait hp hstate tick env, hset]
  · have hall := hone.entries hgave
    refine ⟨hall.length_eq.symm, fun i e ts he hts ↦ ?_⟩
    obtain ⟨hi, rfl⟩ := List.getElem?_eq_some_iff.mp he
    obtain ⟨hi', rfl⟩ := List.getElem?_eq_some_iff.mp hts
    have hprompt : Prompt gap (w.seen d) p.queue[i] (w.timed.sent d)[i] := hall.get hi hi'
    have hearly := hprompt.early
    have hfresh := hprompt.fresh
    exact ⟨by omega, by omega, hprompt.spaced⟩

/-- `on_timer` runs round by round, and soon after it has read the clock. -/
def Act.timely (gap : Nat) : Act → Bool
  | .call _ .timer => false
  | .call _ _ => true
  | .visit tick env _ => tick ≤ env.now ∧ env.now ≤ tick + gap

/-- A step whose guard is evaluated. -/
def Watched.stepWhen (gap : Nat) (w : Watched) (act : Act) : Checked Watched :=
  if act.timely gap = true ∧ w.timed.now ≤ act.env.now ∧ act.env.now < clockMax ∧
      ∀ d ∈ List.range w.timed.tcp.pcbs.length, act.env.now ≤ w.seen d + gap then w.step act
  else .error .unwrap

theorem exists_watched (gap : Nat) (P : Watched → Bool) (acts : List Act)
    (h : Machine.execTest (Watched.stepWhen gap) P {} acts = true) :
    ∃ w, Watched.Reachable gap w ∧ P w = true := by
  refine Machine.exists_reach_of_execTest (fun w act w' hstep ↦ ?_) rfl h
  unfold Watched.stepWhen at hstep
  split at hstep
  · next hguard =>
    obtain ⟨htimely, hnow, hmax, hcomes⟩ := hguard
    refine ⟨⟨⟨hnow, hmax, ?_⟩, ?_, ?_⟩, hstep⟩
    · rintro env rfl
      exact absurd htimely (by simp [Act.timely])
    · intro d tick htick
      cases act with
      | call env ev => exact absurd htick (by simp [Act.tick])
      | visit tick' env desc =>
          simp only [Act.tick] at htick
          split at htick
          · cases htick
            exact of_decide_eq_true htimely
          · exact absurd htick (by simp)
    · exact fun d p hp ↦ hcomes d (List.mem_range.mpr (Slots.lt_length_of_peek hp))
  · exact absurd hstep (by simp)

/-- A SYN of which `on_timer` takes care at least every half a second. -/
theorem connection_punctual_syn : ∃ w d p e, Watched.Reachable 500000000 w ∧
    w.timed.tcp.get d = some p ∧ p.queue[0]? = some e ∧
    (w.timed.sent d)[0]? = some [0, 250000000, 700000000] ∧
    w.timed.now < e.last + e.rto + 500000000 := by
  obtain ⟨w, hw, htest⟩ := exists_watched 500000000
    (fun w ↦ (w.timed.tcp.get 0).any fun p : TcpPcb ↦
      p.queue.length = 1 && w.timed.sent 0 = [[0, 250000000, 700000000]] && !w.gaveUp 0)
    [.call calmEnv (.openCall hostEndp peerEndp true),
      .visit 100000000 { calmEnv with now := 100000000 } 0,
      .visit 250000000 { calmEnv with now := 250000000 } 0,
      .visit 650000000 { calmEnv with now := 700000000 } 0] (by decide +kernel)
  cases hp : w.timed.tcp.get 0 with
  | none => simp [hp] at htest
  | some p =>
      simp only [hp, Option.any_some, Bool.and_eq_true, decide_eq_true_eq,
        Bool.not_eq_true'] at htest
      obtain ⟨⟨hlen, hsent⟩, hgave⟩ := htest
      obtain ⟨e, he⟩ := List.length_eq_one_iff.mp hlen
      have he : p.queue[0]? = some e := by rw [he]; rfl
      have hts : (w.timed.sent 0)[0]? = some [0, 250000000, 700000000] := by rw [hsent]; rfl
      obtain ⟨-, hentries⟩ := connection_punctual hw hp
      obtain ⟨-, hall⟩ := hentries hgave
      exact ⟨w, 0, p, e, hw, hp, he, hts, (hall 0 e _ he hts).1⟩

end

end Microps.Tcp
