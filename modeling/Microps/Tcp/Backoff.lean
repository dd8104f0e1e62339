import Mathlib.Data.List.Forall2
import Microps.Tcp.Output
import Microps.Tcp.Reach

/-!
# Back-off

The retransmission queue under a clock.  `on_timer` visits the slots one by one and
`retrans_emit` reads the clock in each of them, so that a round of its loop is a step
here, and the rounds may come in any order and at any time.  Beside the table, a run
keeps the times at which every entry of a queue was sent.

An entry that was sent `k + 1` times waits `2 ^ k` times the default time-out before
it is sent again, and the deadline stops it before the sixth time.  That bounds the
times that are added to the clock.
-/

namespace Microps.Tcp

/-- `Duration::MAX` in nanoseconds. -/
def durationMax : Nat := 2 ^ 64 * 1000000000 - 1

/-- A bound of what `clock_gettime` reads: the seconds of a `timespec` are a signed
64-bit number. -/
def clockMax : Nat := 2 ^ 63 * 1000000000

/-! ## The loop of `on_timer`, round by round -/

/-- One round of the loop of `on_timer`, which has read the clock as `tick` before the
first one. -/
def timerRound (tick : Nat) (env : Env) (acc : Slots TcpPcb × List Effect) (desc : TcpDesc) :
    Slots TcpPcb × List Effect :=
  match acc.1.peek desc with
  | none => acc
  | some pcb =>
      if pcb.state = .timeWait ∧ pcb.twTimer < tick then
        let r := pcbRelease env (acc.1.put desc { pcb with state := .closed }) desc
        (r.pcbs, acc.2 ++ r.effects)
      else
        let r := retransEmit env pcb
        (acc.1.put desc r.1, acc.2 ++ r.2)

/-- A clock that stands still during the loop is the one of the event. -/
theorem timerRound_now (env : Env) : timerRound env.now env = timerSlot env := rfl

/-- A round leaves a block alone, or it is the one that is sent again. -/
theorem timerRound_cases {tick : Nat} {env : Env} {acc : Slots TcpPcb × List Effect}
    {desc d : TcpDesc} {p' : TcpPcb} (h : (timerRound tick env acc desc).1.peek d = some p') :
    d ≠ desc ∧ acc.1.peek d = some p' ∨
      d = desc ∧ ∃ p, acc.1.peek d = some p ∧ p' = (retransEmit env p).1 := by
  unfold timerRound at h
  split at h
  · next hdesc =>
    refine .inl ⟨?_, h⟩
    rintro rfl
    exact absurd (h.symm.trans hdesc) (by simp)
  · next p hp =>
    split at h
    · have hdrained := (pcbRelease_closed_spec env hp).1
      refine .inl ⟨?_, hdrained.drain.some_of_some h⟩
      rintro rfl
      exact absurd (h.symm.trans hdrained.freed) (by simp)
    · rw [Slots.peek_put hp] at h
      split at h
      · next hd =>
        subst hd
        cases h
        exact .inr ⟨rfl, p, hp, rfl⟩
      · next hd => exact .inl ⟨hd, h⟩

/-- The table after a round. -/
def timerVisit (tick : Nat) (env : Env) (tcp : Tcp) (desc : TcpDesc) : Tcp :=
  { tcp with pcbs := (timerRound tick env (tcp.pcbs, []) desc).1 }

/-! ## What happens to a queue -/

/-- Entries leave a queue at the front, or one that is new joins it. -/
def QueueStep (env : Env) (q q' : List TcpQueueEntry) : Prop :=
  (∃ k ≤ q.length, q' = q.drop k) ∨
    ∃ seq flg data, q' = q ++ [queueEntry env seq flg data] ∧ data.length < 2 ^ 16

namespace QueueStep

variable {env : Env} {q : List TcpQueueEntry}

theorem refl (env : Env) (q : List TcpQueueEntry) : QueueStep env q q :=
  .inl ⟨0, Nat.zero_le _, rfl⟩

theorem dropWhile (env : Env) (q : List TcpQueueEntry) (f : TcpQueueEntry → Bool) :
    QueueStep env q (q.dropWhile f) := by
  obtain ⟨front, hfront⟩ := List.dropWhile_suffix (l := q) f
  refine .inl ⟨front.length, ?_, ?_⟩
  · rw [← hfront, List.length_append]
    exact Nat.le_add_right _ _
  · conv_rhs => rw [← hfront, List.drop_left]

/-- A segment without data joins the queue. -/
theorem push (env : Env) (q : List TcpQueueEntry) (seq : U32) (flg : U8) :
    QueueStep env q (q ++ [queueEntry env seq flg []]) :=
  .inr ⟨seq, flg, [], rfl, by simp⟩

end QueueStep

theorem SndStep.queue {env : Env} {p : TcpPcb} {seg : SegInfo} {snd : SndVars}
    {queue : List TcpQueueEntry} (h : SndStep p seg snd queue) : QueueStep env p.queue queue := by
  rcases h with ⟨-, rfl⟩ | ⟨-, -, -, rfl⟩
  · exact .refl env p.queue
  · exact .dropWhile env p.queue _

theorem BlockStep.queue {env : Env} {tcp : Tcp} {d : TcpDesc} {ev : Event} {p p' : TcpPcb}
    {es : List Effect} {reply : Reply} (h : BlockStep env tcp d ev p es reply p') :
    QueueStep env p.queue p'.queue := by
  cases h with
  | mss m => exact .refl env p.queue
  | bind l hstate => exact .refl env p.queue
  | listen n hstate => exact .refl env p.queue
  | connectFails hstate => exact .refl env p.queue
  | interrupted => exact .refl env p.queue
  | take len n wnd hstate hbuf hn hwnd => exact .refl env p.queue
  | syn l r hlocal houtput =>
      rw [sendSyn_eq]
      exact .push env p.queue _ _
  | synFails l r hlocal houtput =>
      rw [sendSyn_eq]
      exact .push env p.queue _ _
  | passive s hselect hstate hmode hrst hack hsyn =>
      rw [passiveOpen_eq]
      exact .push env p.queue _ _
  | synSent s acceptable hselect hstate hrst hsyn hack =>
      obtain ⟨q, hq, hcases⟩ := synInSynSent_cases env p s.info acceptable
      obtain ⟨snd, queue, htake, hqueue⟩ := takeSyn_eq p s.info acceptable
      rw [htake] at hq
      subst hq
      rcases hqueue with ⟨-, rfl, rfl⟩ | ⟨hacc, rfl, rfl⟩
      · rcases hcases with ⟨-, heq⟩ | ⟨-, heq⟩
        · rw [heq]
          exact .refl env p.queue
        · rw [heq]
          exact .push env p.queue _ _
      · -- An ACK that is acceptable is for the SYN, so that no SYN is queued again.
        rcases hcases with ⟨-, heq⟩ | ⟨hnew, heq⟩
        · rw [heq]
          exact .dropWhile env p.queue _
        · exact absurd (hack hacc).2.1 hnew
  | fin state hstate =>
      rw [sendFin_eq]
      exact .push env p.queue _ _
  | data data sent n hstate hsent hn hcap =>
      rw [sendData_eq]
      simp only
      split
      · rw [List.append_nil]
        exact .refl env p.queue
      · refine .inr ⟨_, _, _, rfl, ?_⟩
        have hmss := p.mss.isLt
        rw [List.length_take]
        omega

/-- What an event but the timer does to the queue of a block. -/
theorem Evolve.queue {env : Env} {tcp : Tcp} {d : TcpDesc} {reply : Reply} {ev : Event}
    {p p' : TcpPcb} (h : Evolve env tcp d reply ev p p') (hev : ev ≠ .timer) :
    QueueStep env p.queue p'.queue := by
  cases h with
  | keep backlog mss accepted haccepted => exact .refl env p.queue
  | block hblock => exact hblock.queue
  | arrived s hselect hreach harrived =>
      obtain ⟨snd, queue, tw, backlog, hsnd, hp'⟩ := harrived.eq
      rcases hp' with ⟨-, -, rfl⟩ | ⟨-, -, -, rfl⟩ | ⟨-, -, rfl⟩ | ⟨-, -, -, rfl⟩
      · exact hsnd.queue
      · exact hsnd.queue
      · exact hsnd.queue
      · exact hsnd.queue
  | tick => exact absurd rfl hev

theorem Birth.queue {env : Env} {tcp : Tcp} {d : TcpDesc} {task : TaskId} {ev : Event}
    {es : List Effect} {reply : Reply} {p : TcpPcb} (h : Birth env tcp d task ev es reply p) :
    QueueStep env [] p.queue := by
  cases h with
  | socket => exact .refl env []
  | listen l r => exact .refl env []
  | syn l l' r hopens houtput =>
      rw [sendSyn_eq]
      exact .push env [] _ _
  | child s l q child hselect hq hstate hmode hroom hrst hack hsyn hchild =>
      subst hchild
      rw [passiveOpen_eq]
      exact .push env [] _ _

/-! ## Runs under a clock -/

/-- What is sent, and when. -/
structure Timed where
  tcp : Tcp := {}
  /-- What the clock has shown last. -/
  now : Nat := 0
  /-- For every slot and every entry of the queue in it, when the entry was sent. -/
  sent : TcpDesc → List (List Nat) := fun _ ↦ []

/-- A step of a run under a clock. -/
inductive Act where
  /-- A critical section other than `on_timer`. -/
  | call (env : Env) (ev : Event)
  /-- A round of the loop of `on_timer`, which has read the clock as `tick`. -/
  | visit (tick : Nat) (env : Env) (desc : TcpDesc)

/-- The environment of a step. -/
def Act.env : Act → Env
  | .call env _ => env
  | .visit _ env _ => env

/-- The times of the queue `q'` that was `q`: those of the entries that have left at the
front are dropped, and an entry that has joined was sent now. -/
def follow (now : Nat) (q q' : List TcpQueueEntry) (sent : List (List Nat)) :
    List (List Nat) :=
  sent.drop (q.length - q'.length) ++ List.replicate (q'.length - q.length) [now]

/-- The times of a queue after `retrans_emit`: an entry that was due was sent now. -/
def followEmit (env : Env) (q : List TcpQueueEntry) (sent : List (List Nat)) :
    List (List Nat) :=
  if q.any fun e ↦ e.first + retransDeadline ≤ env.now then sent
  else List.zipWith (fun e ts ↦ if e.due env then ts ++ [env.now] else ts) q sent

/-- One step of a run under a clock. -/
def Timed.step (s : Timed) : Act → Checked Timed
  | .call env ev => (Tcp.step env s.tcp ev).map fun out ↦
      { tcp := out.tcp, now := env.now,
        sent := fun d ↦ follow env.now (s.tcp.queueOf d) (out.tcp.queueOf d) (s.sent d) }
  | .visit tick env desc => .ok
      { tcp := timerVisit tick env s.tcp desc, now := env.now,
        sent := fun d ↦
          follow env.now (s.tcp.queueOf d) ((timerVisit tick env s.tcp desc).queueOf d)
            (if d = desc then followEmit env (s.tcp.queueOf d) (s.sent d) else s.sent d) }

/-- The steps a run may make: the clock does not go back, and `on_timer` runs round by
round. -/
def Timed.allows (s : Timed) (act : Act) : Prop :=
  s.now ≤ act.env.now ∧ act.env.now < clockMax ∧ ∀ env, act ≠ .call env .timer

/-- The states that runs under a clock reach. -/
def TimedReachable : Timed → Prop :=
  Machine.Reach (· = {}) fun s act s' ↦ s.allows act ∧ s.step act = .ok s'

/-! ## One entry -/

/-- The entry `e` was sent at the times `ts`, and the clock shows `now`. -/
structure BacksOff (now : Nat) (e : TcpQueueEntry) (ts : List Nat) : Prop where
  first : ts.head? = some e.first
  last : ts.getLast? = some e.last
  seen : e.last ≤ now
  rto : e.rto = defaultRto * 2 ^ (ts.length - 1)
  span : e.first + defaultRto * (2 ^ (ts.length - 1) - 1) ≤ e.last
  waits : ∀ (i t t' : Nat), ts[i]? = some t → ts[i + 1]? = some t' →
    t + defaultRto * 2 ^ i ≤ t' ∧ t' < e.first + retransDeadline

namespace BacksOff

variable {env : Env} {now : Nat} {e : TcpQueueEntry} {ts : List Nat}

theorem mono (h : BacksOff now e ts) {now' : Nat} (hnow : now ≤ now') : BacksOff now' e ts :=
  { h with seen := Nat.le_trans h.seen hnow }

theorem ne_nil (h : BacksOff now e ts) : ts ≠ [] := by
  rintro rfl
  exact absurd h.first (by simp)

/-- An entry that has just joined a queue. -/
theorem new (env : Env) (seq : U32) (flg : U8) (data : List U8) :
    BacksOff env.now (queueEntry env seq flg data) [env.now] where
  first := rfl
  last := rfl
  seen := Nat.le_refl _
  rto := rfl
  span := by simp [queueEntry]
  waits i t t' _ ht' := absurd ht' (by simp)

/-- An entry that is due is sent again. -/
theorem again (h : BacksOff now e ts) (hdue : e.last + e.rto ≤ env.now)
    (hearly : env.now < e.first + retransDeadline) :
    BacksOff env.now { e with last := env.now, rto := e.rto * 2 } (ts ++ [env.now]) := by
  obtain ⟨k, hk⟩ := Nat.exists_eq_add_one_of_ne_zero (List.length_eq_zero_iff.not.mpr h.ne_nil)
  have hrto := h.rto
  have hspan := h.span
  rw [hk, Nat.add_sub_cancel] at hrto hspan
  have hpow : 0 < 2 ^ k := Nat.two_pow_pos k
  have hlast : ts[k]? = some e.last := by
    have := h.last
    rwa [List.getLast?_eq_getElem?, hk, Nat.add_sub_cancel] at this
  constructor
  · rw [List.head?_append, h.first]
    rfl
  · simp
  · exact Nat.le_refl _
  · simp only [List.length_append, List.length_singleton, hk, Nat.add_sub_cancel]
    rw [hrto, Nat.pow_succ, Nat.mul_assoc]
  · simp only [List.length_append, List.length_singleton, hk, Nat.add_sub_cancel]
    rw [hrto] at hdue
    rw [Nat.pow_succ]
    unfold defaultRto at hspan hdue ⊢
    omega
  · intro i t t' ht ht'
    by_cases hi : i + 1 < ts.length
    · rw [List.getElem?_append_left (by omega)] at ht
      rw [List.getElem?_append_left hi] at ht'
      exact h.waits i t t' ht ht'
    · obtain rfl : i = k := by
        have := (List.getElem?_eq_some_iff.mp ht').1
        rw [List.length_append, List.length_singleton] at this
        omega
      rw [List.getElem?_append_left (by omega), hlast] at ht
      rw [← hk, List.getElem?_concat_length] at ht'
      cases ht
      cases ht'
      exact ⟨hrto ▸ hdue, hearly⟩

/-- An entry that was sent again was so before its deadline. -/
theorem last_lt (h : BacksOff now e ts) (hlen : 1 < ts.length) :
    e.last < e.first + retransDeadline := by
  obtain ⟨k, hk⟩ : ∃ k, ts.length = k + 2 := ⟨ts.length - 2, by omega⟩
  have hlast := h.last
  rw [List.getLast?_eq_getElem?, hk] at hlast
  exact (h.waits k ts[k] e.last (List.getElem?_eq_getElem _) hlast).2

/-- The deadline stops an entry before it is sent for the seventh time. -/
theorem length_le (h : BacksOff now e ts) : ts.length ≤ 6 := by
  by_contra hlong
  have hlast := h.last_lt (by omega)
  have hspan := h.span
  have hpow : 2 ^ 6 ≤ 2 ^ (ts.length - 1) := Nat.pow_le_pow_right (by decide) (by omega)
  unfold defaultRto at hspan
  unfold retransDeadline at hlast
  omega

theorem rto_le (h : BacksOff now e ts) : e.rto ≤ 6400000000 := by
  have hpow : 2 ^ (ts.length - 1) ≤ 2 ^ 5 :=
    Nat.pow_le_pow_right (by decide) (by have := h.length_le; omega)
  have hrto := h.rto
  unfold defaultRto at hrto
  omega

end BacksOff

/-! ## One step -/

section

variable {env : Env} {q q' : List TcpQueueEntry} {sent : List (List Nat)}

/-- The times follow the queue through a critical section. -/
theorem QueueStep.follow {R : TcpQueueEntry → List Nat → Prop} (h : QueueStep env q q')
    (hold : List.Forall₂ R q sent)
    (hnew : ∀ seq flg data, R (queueEntry env seq flg data) [env.now]) :
    List.Forall₂ R q' (follow env.now q q' sent) := by
  rcases h with ⟨k, hk, rfl⟩ | ⟨seq, flg, data, rfl, -⟩
  · have hdrop : q.length - (q.drop k).length = k := by
      rw [List.length_drop]
      omega
    rw [Tcp.follow, hdrop, List.length_drop, Nat.sub_eq_zero_of_le (Nat.sub_le _ _),
      List.replicate_zero, List.append_nil]
    exact List.forall₂_drop k hold
  · rw [Tcp.follow, List.length_append, List.length_singleton,
      Nat.sub_eq_zero_of_le (Nat.le_succ _), List.drop_zero, Nat.add_sub_cancel_left]
    exact List.rel_append hold (.cons (hnew seq flg data) .nil)

/-- The times follow the queue through `retrans_emit`. -/
theorem followEmit_backsOff {p : TcpPcb} {now : Nat} (hnow : now ≤ env.now)
    (h : List.Forall₂ (BacksOff now) p.queue sent) :
    List.Forall₂ (BacksOff env.now) (retransEmit env p).1.queue (followEmit env p.queue sent) := by
  unfold retransEmit followEmit
  split
  · exact h.imp fun e ts hts ↦ hts.mono hnow
  · next hearly =>
    simp only [List.any_eq_true, not_exists, not_and, decide_eq_true_eq, Nat.not_le] at hearly
    simp only
    generalize p.queue = q at h hearly
    induction h with
    | nil => exact .nil
    | @cons e ts q sent hts _ ih =>
        refine .cons ?_ (ih fun e' he' ↦ hearly e' (List.mem_cons_of_mem e he'))
        beta_reduce
        split
        · next hdue => exact hts.again (by simpa [TcpQueueEntry.due] using hdue) (hearly e (by simp))
        · exact hts.mono hnow

end

/-- The queues of the table that a critical section leaves. -/
theorem Move.queueOf {env : Env} {tcp : Tcp} {ev : Event} {out : Outcome}
    (h : Move env tcp ev out) (hev : ev ≠ .timer) (d : TcpDesc) :
    QueueStep env (tcp.queueOf d) (out.tcp.queueOf d) := by
  unfold Tcp.queueOf
  cases hp' : out.tcp.get d with
  | none => exact .inl ⟨_, Nat.le_refl _, (List.drop_length).symm⟩
  | some p' =>
      rcases h.evolve hp' with ⟨p, hp, hevolve⟩ | ⟨hnone, es, reply, hbirth⟩
      · rw [hp]
        exact hevolve.queue hev
      · rw [hnone]
        exact hbirth.queue

/-- The times of every queue are right. -/
def TimesRight (s : Timed) : Prop :=
  ∀ d, List.Forall₂ (BacksOff s.now) (s.tcp.queueOf d) (s.sent d)

theorem TimesRight.call {s : Timed} {env : Env} {ev : Event} {out : Outcome} (h : TimesRight s)
    (hnow : s.now ≤ env.now) (hev : ev ≠ .timer) (hout : step env s.tcp ev = .ok out) (d : TcpDesc) :
    List.Forall₂ (BacksOff env.now) (out.tcp.queueOf d)
      (follow env.now (s.tcp.queueOf d) (out.tcp.queueOf d) (s.sent d)) :=
  ((step_move hout).queueOf hev d).follow ((h d).imp fun _ _ hts ↦ hts.mono hnow)
    (BacksOff.new env)

theorem follow_of_length_eq (now : Nat) {q q' : List TcpQueueEntry} (hlen : q'.length = q.length)
    (sent : List (List Nat)) : follow now q q' sent = sent := by
  simp [follow, hlen]

theorem follow_nil (now : Nat) {q : List TcpQueueEntry} {sent : List (List Nat)}
    (hlen : sent.length ≤ q.length) : follow now q [] sent = [] := by
  simp [follow, hlen]

theorem length_followEmit (env : Env) {q : List TcpQueueEntry} {sent : List (List Nat)}
    (hlen : sent.length = q.length) : (followEmit env q sent).length = q.length := by
  unfold followEmit
  split
  · exact hlen
  · simp [hlen]

theorem length_retransEmit (env : Env) (p : TcpPcb) :
    (retransEmit env p).1.queue.length = p.queue.length := by
  unfold retransEmit
  split
  · rfl
  · simp

theorem TimesRight.visit {s : Timed} {env : Env} (h : TimesRight s) (hnow : s.now ≤ env.now)
    (tick : Nat) (desc d : TcpDesc) :
    List.Forall₂ (BacksOff env.now) ((timerVisit tick env s.tcp desc).queueOf d)
      (follow env.now (s.tcp.queueOf d) ((timerVisit tick env s.tcp desc).queueOf d)
        (if d = desc then followEmit env (s.tcp.queueOf d) (s.sent d) else s.sent d)) := by
  have hlen := (h d).length_eq.symm
  cases hp' : (timerVisit tick env s.tcp desc).get d with
  | none =>
      have hnil : (timerVisit tick env s.tcp desc).queueOf d = [] := by simp [Tcp.queueOf, hp']
      rw [hnil, follow_nil]
      · exact .nil
      · split
        · exact Nat.le_of_eq (length_followEmit env hlen)
        · exact Nat.le_of_eq hlen
  | some p' =>
      have hq' : (timerVisit tick env s.tcp desc).queueOf d = p'.queue := by
        simp [Tcp.queueOf, hp']
      rcases timerRound_cases hp' with ⟨hd, hp⟩ | ⟨rfl, p, hp, rfl⟩
      · have hq : s.tcp.queueOf d = p'.queue := by simp [Tcp.queueOf, Tcp.get, hp]
        have hd' := h d
        rw [hq', hq, follow_of_length_eq _ rfl, if_neg hd]
        rw [hq] at hd'
        exact hd'.imp fun _ _ hts ↦ hts.mono hnow
      · have hq : s.tcp.queueOf d = p.queue := by simp [Tcp.queueOf, Tcp.get, hp]
        have hd' := h d
        rw [hq', hq, follow_of_length_eq _ (length_retransEmit env p), if_pos rfl]
        rw [hq] at hd'
        exact followEmit_backsOff hnow hd'

/-! ## Whole runs -/

/-- **The times of every queue are right** in every run. -/
theorem TimedReachable.timesRight {s : Timed} (h : TimedReachable s) : TimesRight s := by
  refine Machine.Reach.invariant TimesRight ?_ ?_ h
  · rintro _ rfl d
    exact .nil
  · rintro s act s' ih ⟨⟨hnow, -, htimer⟩, hstep⟩ d
    cases act with
    | call env ev =>
        obtain ⟨out, hout, rfl⟩ := Machine.exists_of_map_ok hstep
        exact ih.call hnow (fun hev ↦ htimer env (by rw [hev])) hout d
    | visit tick env desc =>
        cases hstep
        exact ih.visit hnow tick desc d

theorem TimedReachable.now_lt {s : Timed} (h : TimedReachable s) : s.now < clockMax := by
  refine Machine.Reach.invariant (·.now < clockMax) ?_ ?_ h
  · rintro _ rfl
    decide
  · rintro s act s' - ⟨⟨-, hmax, -⟩, hstep⟩
    cases act with
    | call env ev =>
        obtain ⟨out, -, rfl⟩ := Machine.exists_of_map_ok hstep
        exact hmax
    | visit tick env desc =>
        cases hstep
        exact hmax

/-- **Retransmission backs off**: an entry that was sent again `k` times waits `2 ^ k`
times the default time-out, every time was as far after the one before it as that and
before the deadline, so that `k` is at most 5 and no `Duration` overflows. -/
theorem backs_off {s : Timed} (h : TimedReachable s) {d : TcpDesc} {p : TcpPcb}
    (hp : s.tcp.get d = some p) :
    (s.sent d).length = p.queue.length ∧
      ∀ (i : Nat) (e : TcpQueueEntry) (ts : List Nat), p.queue[i]? = some e →
        (s.sent d)[i]? = some ts →
        ∃ k, ts.length = k + 1 ∧ ts.head? = some e.first ∧ ts.getLast? = some e.last ∧
          e.rto = defaultRto * 2 ^ k ∧
          e.first ≤ e.last ∧ defaultRto * (2 ^ k - 1) ≤ e.last - e.first ∧
          (∀ (j t t' : Nat), ts[j]? = some t → ts[j + 1]? = some t' →
            t + defaultRto * 2 ^ j ≤ t' ∧ t' < e.first + retransDeadline) ∧
          k ≤ 5 ∧ e.rto ≤ 6400000000 ∧
          e.rto * 2 ≤ durationMax ∧ e.last + e.rto ≤ durationMax ∧
          e.first + retransDeadline ≤ durationMax := by
  have hright := h.timesRight d
  have hq : s.tcp.queueOf d = p.queue := by simp [Tcp.queueOf, hp]
  rw [hq] at hright
  refine ⟨hright.length_eq.symm, fun i e ts he hts ↦ ?_⟩
  obtain ⟨hi, rfl⟩ := List.getElem?_eq_some_iff.mp he
  obtain ⟨hi', rfl⟩ := List.getElem?_eq_some_iff.mp hts
  have hback : BacksOff s.now p.queue[i] (s.sent d)[i] := hright.get hi hi'
  obtain ⟨k, hk⟩ := Nat.exists_eq_add_one_of_ne_zero (List.length_eq_zero_iff.not.mpr hback.ne_nil)
  have hlen := hback.length_le
  have hrto := hback.rto
  have hspan := hback.span
  have hle := hback.rto_le
  have hseen := hback.seen
  have hnow := h.now_lt
  rw [hk, Nat.add_sub_cancel] at hrto hspan
  have hfirst := Nat.le_trans (Nat.le_add_right _ _) hspan
  refine ⟨k, hk, hback.first, hback.last, hrto, hfirst, ?_, hback.waits, by omega, hle, ?_, ?_, ?_⟩
  · exact Nat.le_sub_of_add_le' hspan
  · unfold durationMax
    omega
  · unfold durationMax clockMax at *
    omega
  · unfold durationMax clockMax retransDeadline at *
    omega

/-- A step whose guard is evaluated. -/
def Timed.stepWhen (s : Timed) (act : Act) : Checked Timed :=
  match act with
  | .call _ .timer => .error .unwrap
  | act => if s.now ≤ act.env.now ∧ act.env.now < clockMax then s.step act else .error .unwrap

theorem exists_timedReachable (P : Timed → Bool) (acts : List Act)
    (h : Machine.execTest Timed.stepWhen P {} acts = true) :
    ∃ s, TimedReachable s ∧ P s = true := by
  refine Machine.exists_reach_of_execTest ?_ rfl h
  intro s act s' hstep
  unfold Timed.stepWhen at hstep
  split at hstep
  · exact absurd hstep (by simp)
  · next hact =>
    split at hstep
    · next hnow => exact ⟨⟨hnow.1, hnow.2, hact⟩, hstep⟩
    · exact absurd hstep (by simp)

/-- A SYN that is sent at 0, 0.25 and 0.7 seconds. -/
theorem backs_off_syn : ∃ s d p e ts, TimedReachable s ∧ s.tcp.get d = some p ∧
    p.queue[0]? = some e ∧ (s.sent d)[0]? = some ts ∧ ts = [0, 250000000, 700000000] ∧
    (s.sent d).length = p.queue.length ∧ ∃ k, ts.length = k + 1 ∧ e.rto = defaultRto * 2 ^ k := by
  obtain ⟨s, hs, htest⟩ := exists_timedReachable
    (fun s ↦ (s.tcp.get 0).any fun p : TcpPcb ↦
      p.queue.length = 1 && s.sent 0 = [[0, 250000000, 700000000]])
    [.call calmEnv (.openCall hostEndp peerEndp true),
      .visit 100000000 { calmEnv with now := 100000000 } 0,
      .visit 250000000 { calmEnv with now := 250000000 } 0,
      .visit 650000000 { calmEnv with now := 700000000 } 0] (by decide +kernel)
  cases hp : s.tcp.get 0 with
  | none => simp [hp] at htest
  | some p =>
      simp only [hp, Option.any_some, Bool.and_eq_true, decide_eq_true_eq] at htest
      obtain ⟨e, he⟩ := List.length_eq_one_iff.mp htest.1
      have he : p.queue[0]? = some e := by rw [he]; rfl
      have hts : (s.sent 0)[0]? = some [0, 250000000, 700000000] := by rw [htest.2]; rfl
      obtain ⟨hlen, hall⟩ := backs_off hs hp
      obtain ⟨k, hk, -, -, hrto, -⟩ := hall 0 e _ he hts
      exact ⟨s, 0, p, e, _, hs, hp, he, hts, rfl, hlen, k, hk, hrto⟩

end Microps.Tcp
