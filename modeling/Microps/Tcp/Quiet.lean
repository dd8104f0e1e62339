import Microps.Tcp.Drain
import Microps.Tcp.Endpoints
import Microps.Tcp.Output

/-!
# Closed blocks

A block that is CLOSED but still allocated belongs to no connection: it is a socket that has
not connected yet, or one whose `connect` has failed.  It should have nothing queued and
nothing buffered, since `on_timer` does not look at the state of a block and `connect` does
not look at its queue.

There are four places that close a block and leave it in its slot: the deadline of
`retrans_emit` and the three error branches of `connect`.  None of them clears the queue or
the buffer, where `open` releases the block in the same branches.
-/

namespace Microps.Tcp

/-- Nothing is queued for retransmission and nothing is left to be received. -/
def Emptied (p : TcpPcb) : Prop := p.queue = [] ∧ p.buf = []

/-- A closed block is empty. -/
def ClosedEmpty (p : TcpPcb) : Prop := p.state = .closed → Emptied p

/-- The event closes no block that has something queued or buffered and keeps its slot: the
deadline passes only for blocks in TIME_WAIT that the tick releases, the SYN of a `connect`
is sent, and the other failures of `connect` meet an empty block. -/
def ClosesEmpty (env : Env) (tcp : Tcp) : Event → Prop
  | .timer => ∀ d p, tcp.get d = some p → expired env p = true →
      p.state = .timeWait ∧ p.twTimer < env.now
  | .connectInterrupted d => ∀ p, tcp.get d = some p → Emptied p
  | .connectPoll d => ∀ p, tcp.get d = some p → p.state = .established ∨ p.state = .listen ∨
      p.state = .synReceived ∨ p.state = .synSent ∨ Emptied p
  | .connectCall d r => ∀ p, tcp.get d = some p → ∀ l, Connects env tcp p l r →
      env.ipOutput (sendSyn env p l r).2 = true
  | _ => True

section

variable {env : Env} {tcp : Tcp} {d : TcpDesc} {ev : Event} {reply : Reply} {p p' : TcpPcb}

theorem ClosedEmpty.birth {task : TaskId} {es : List Effect}
    (h : Birth env tcp d task ev es reply p) : ClosedEmpty p := by
  cases h with
  | socket => exact fun _ ↦ ⟨rfl, rfl⟩
  | listen l r => exact fun hstate ↦ absurd hstate (by simp)
  | syn l l' r hopens houtput => exact fun hstate ↦ absurd hstate (by simp [Tcp.synSent])
  | child s l q child hselect hp hstate hmode hroom hrst hack hsyn hchild =>
      rw [passiveOpen_eq]
      exact fun hstate ↦ absurd hstate (by simp)

theorem ClosedEmpty.block {es : List Effect} (h : ClosedEmpty p) (hp : tcp.get d = some p)
    (hguard : ClosesEmpty env tcp ev) (hblock : BlockStep env tcp d ev p es reply p') :
    ClosedEmpty p' := by
  cases hblock with
  | mss m => exact h
  | bind l hstate => exact h
  | listen n hstate => exact fun hclosed ↦ absurd hclosed (by simp)
  | connectFails hstate =>
      intro _
      rcases hguard p hp with hs | hs | hs | hs | hempty
      · exact absurd hs hstate.1
      · exact absurd hs hstate.2.1
      · exact absurd hs hstate.2.2.1
      · exact absurd hs hstate.2.2.2
      · exact hempty
  | interrupted => exact fun _ ↦ hguard p hp
  | syn l r hlocal houtput => exact fun hclosed ↦ absurd hclosed (by simp [Tcp.synSent])
  | synFails l r hlocal houtput =>
      exact absurd (houtput.symm.trans (hguard p hp l hlocal)) (by simp)
  | passive s hselect hstate hmode hrst hack hsyn =>
      rw [passiveOpen_eq]
      exact fun hclosed ↦ absurd hclosed (by simp)
  | synSent s acceptable hselect hstate hrst hsyn hack =>
      obtain ⟨q, -, ⟨-, heq⟩ | ⟨-, heq⟩⟩ := synInSynSent_cases env p s.info acceptable
      · rw [heq]
        exact fun hclosed ↦ absurd hclosed (by simp)
      · rw [heq]
        exact fun hclosed ↦ absurd hclosed (by simp)
  | fin state hstate =>
      rw [sendFin_eq]
      rcases hstate with ⟨-, rfl⟩ | ⟨-, rfl⟩
      · exact fun hclosed ↦ absurd hclosed (by simp)
      · exact fun hclosed ↦ absurd hclosed (by simp)
  | data data sent n hstate hsent hn hcap =>
      rw [sendData_eq]
      intro hclosed
      rcases hstate with hs | hs
      · exact absurd (hs.symm.trans hclosed) (by simp)
      · exact absurd (hs.symm.trans hclosed) (by simp)
  | take len n wnd hstate hbuf hn hwnd =>
      intro hclosed
      have hclosed : p.state = .closed := hclosed
      simp [hclosed, TcpState.takesText] at hstate

/-- A tick that gives no block up keeps the closed ones empty. -/
theorem ClosedEmpty.tick {out : Outcome} (h : ClosedEmpty p) (hp : tcp.get d = some p)
    (hguard : ClosesEmpty env tcp .timer) (hout : step env tcp .timer = .ok out)
    (hp' : out.tcp.get d = some p') : ClosedEmpty p' := by
  cases step_move hout with
  | idle _ _ =>
      obtain rfl : p' = p := by simpa using hp'.symm.trans hp
      exact h
  | work _ hblock => cases hblock
  | birth _ hbirth => cases hbirth
  | drop _ _ hev _ _ _ _ => exact hev.elim
  | tick _ hsome _ =>
      rcases hsome d p hp with ⟨hd, -, hstays⟩ | ⟨hd, -⟩
      · obtain rfl : p' = (retransEmit env p).1 := by simpa using hp'.symm.trans hd
        have hexpired : expired env p = false := by
          by_contra hexp
          exact hstays (hguard d p hp (by simpa using hexp))
        intro hclosed
        rw [(retransEmit_expired env p).2, hexpired, if_neg (by simp)] at hclosed
        obtain ⟨hqueue, hbuf⟩ := h hclosed
        rw [retransEmit_of_nil env hqueue]
        exact ⟨hqueue, hbuf⟩
      · exact absurd (hp'.symm.trans hd) (by simp)

/-- **Every step keeps closed blocks empty**, as far as it meets the guard. -/
theorem ReachableWhen.closedEmpty {tcp : Tcp} (h : ReachableWhen ClosesEmpty tcp) {d : TcpDesc}
    {p : TcpPcb} (hp : tcp.get d = some p) : ClosedEmpty p := by
  refine h.blocks_of_step ClosedEmpty.birth ?_ hp
  intro env tcp d ev out p p' hguard hout hp hempty hp' hev
  cases hev with
  | keep backlog mss accepted haccepted => exact hempty
  | block hblock => exact hempty.block hp hguard hblock
  | arrived s hselect hreach harrived =>
      exact fun hclosed ↦ absurd hclosed (harrived.state hreach.state).1
  | tick => exact hempty.tick hp hguard hout hp'

end

/-! ## Whom the timer sends for -/

/-- The segment is one of the block `p`: an entry of its queue, or the reset with which it is
released. -/
def SentFor (p : TcpPcb) (seg : TcpSegment) : Prop :=
  seg = resetOf p ∨ ∃ e ∈ p.queue, seg = entrySegment p e

/-- Sending a block again leaves its segments what they are. -/
theorem SentFor.of_retransEmit {env : Env} {p : TcpPcb} {seg : TcpSegment}
    (h : SentFor (retransEmit env p).1 seg) : SentFor p seg := by
  rcases retransEmit_cases env p with heq | ⟨f, hf, heq⟩
  · rw [heq] at h
    exact h
  · rw [heq] at h
    rcases h with h | ⟨e', he', rfl⟩
    · exact .inl h
    · obtain ⟨e, he, rfl⟩ := List.mem_map.mp he'
      obtain ⟨hseq, hflg, hdata⟩ := hf e
      refine .inr ⟨e, he, ?_⟩
      simp only [entrySegment, hseq, hflg, hdata]

/-- A closed block with nothing queued stays so. -/
theorem retransEmit_closed (env : Env) {p : TcpPcb} (hstate : p.state = .closed)
    (hqueue : p.queue = []) :
    (retransEmit env p).1.state = .closed ∧ (retransEmit env p).1.queue = [] := by
  rw [retransEmit_of_nil env hqueue]
  exact ⟨hstate, hqueue⟩

/-- The loop of `on_timer`, on a table `t` whose closed blocks are empty: what is in a slot was
there before, with the same segments, and what was sent belongs to a block that was not
closed. -/
structure Ticking (t : Slots TcpPcb) (acc : Slots TcpPcb × List Effect) : Prop where
  was : ∀ j q, acc.1.peek j = some q → ∃ p, t.peek j = some p ∧
    (p.state = .closed → q.state = .closed ∧ q.queue = []) ∧ ∀ seg, SentFor q seg → SentFor p seg
  sent : ∀ seg, .emit seg ∈ acc.2 → ∃ j p, t.peek j = some p ∧ p.state ≠ .closed ∧ SentFor p seg

section

variable {env : Env} {t : Slots TcpPcb} {acc : Slots TcpPcb × List Effect}

theorem Ticking.start (hempty : ∀ j p, t.peek j = some p → ClosedEmpty p) :
    Ticking t (t, []) where
  was j q hq := ⟨q, hq, fun hstate ↦ ⟨hstate, (hempty j q hq hstate).1⟩, fun _ h ↦ h⟩
  sent seg hseg := absurd hseg (by simp)

/-- The block in slot `d` is released. -/
theorem Ticking.release (h : Ticking t acc) {d : TcpDesc} {q : TcpPcb}
    (hq : acc.1.peek d = some q) :
    Ticking t ((pcbRelease env (acc.1.put d { q with state := .closed }) d).pcbs,
      acc.2 ++ (pcbRelease env (acc.1.put d { q with state := .closed }) d).effects) := by
  have hput := Slots.peek_put hq { q with state := .closed }
  have htorn := pcbRelease_torn env (by rw [hput, if_pos rfl]) rfl
  have hfreed := (pcbRelease_spec env (acc.1.put d { q with state := .closed }) d).1.freed
  constructor
  · intro j r hr
    have hj : j ≠ d := by
      rintro rfl
      exact absurd (hr.symm.trans hfreed) (by simp)
    have hr := htorn.some_of_some hr
    rw [hput, if_neg hj] at hr
    exact h.was j r hr
  · intro seg hseg
    rcases List.mem_append.mp hseg with hseg | hseg
    · exact h.sent seg hseg
    · obtain ⟨j, r, hr, -, hstate, rfl⟩ := htorn.sent seg hseg
      rw [hput] at hr
      split at hr
      · cases hr
        exact absurd rfl hstate
      · obtain ⟨p, hp, hclosed, hsent⟩ := h.was j r hr
        exact ⟨j, p, hp, fun hs ↦ hstate (hclosed hs).1, hsent _ (.inl rfl)⟩

/-- The block in slot `d` is sent again. -/
theorem Ticking.emit (h : Ticking t acc) {d : TcpDesc} {q : TcpPcb} (hq : acc.1.peek d = some q) :
    Ticking t (acc.1.put d (retransEmit env q).1, acc.2 ++ (retransEmit env q).2) := by
  obtain ⟨p, hp, hclosed, hsent⟩ := h.was d q hq
  constructor
  · intro j r hr
    rw [Slots.peek_put hq] at hr
    split at hr
    · next hj =>
      subst hj
      cases hr
      refine ⟨p, hp, fun hs ↦ ?_, fun seg hseg ↦ hsent seg hseg.of_retransEmit⟩
      exact retransEmit_closed env (hclosed hs).1 (hclosed hs).2
    · exact h.was j r hr
  · intro seg hseg
    rcases List.mem_append.mp hseg with hseg | hseg
    · exact h.sent seg hseg
    · obtain ⟨e, he, rfl⟩ := emit_mem_retransEmit hseg
      refine ⟨d, p, hp, fun hs ↦ ?_, hsent _ (.inr ⟨e, he, rfl⟩)⟩
      rw [(hclosed hs).2] at he
      exact absurd he (by simp)

theorem Ticking.timerSlot (h : Ticking t acc) (d : TcpDesc) :
    Ticking t (Tcp.timerSlot env acc d) := by
  unfold Tcp.timerSlot
  split
  · exact h
  next q hq =>
  split
  · exact h.release hq
  · exact h.emit hq

end

/-- **Whom the timer sends for**: where closed blocks are empty, every segment of `on_timer`
is one of a block that is not closed. -/
theorem emit_mem_onTimer {env : Env} {tcp : Tcp}
    (hempty : ∀ j p, tcp.get j = some p → ClosedEmpty p) {seg : TcpSegment}
    (hseg : .emit seg ∈ (onTimer env tcp).2) :
    ∃ j p, tcp.get j = some p ∧ p.state ≠ .closed ∧ SentFor p seg := by
  have hloop : ∀ (ds : List TcpDesc) (acc : Slots TcpPcb × List Effect),
      Ticking tcp.pcbs acc → Ticking tcp.pcbs (ds.foldl (timerSlot env) acc) := by
    intro ds
    induction ds with
    | nil => exact fun acc h ↦ h
    | cons d ds ih => exact fun acc h ↦ ih _ (h.timerSlot d)
  exact (hloop _ _ (.start hempty)).sent seg hseg

/-! ## Quiescence -/

/-- `connect` on a closed block that is empty leaves nothing but its SYN in the queue, or
leaves the block alone. -/
theorem connectCall_emptied {env : Env} {tcp : Tcp} {d : TcpDesc} {p p' : TcpPcb} {r : IpEndp}
    (hp : tcp.get d = some p) (hempty : Emptied p)
    (hp' : (connectCall env tcp d r).tcp.get d = some p') :
    p'.buf = [] ∧ (p' = p ∨ p'.queue = [queueEntry env p'.iss flgSyn []]) := by
  obtain ⟨hqueue, hbuf⟩ := hempty
  have hsame : tcp.get d = some p' → p'.buf = [] ∧
      (p' = p ∨ p'.queue = [queueEntry env p'.iss flgSyn []]) := by
    intro heq
    obtain rfl : p' = p := by simpa using heq.symm.trans hp
    exact ⟨hbuf, .inl rfl⟩
  unfold connectCall at hp'
  simp only [hp] at hp'
  split at hp'
  · exact hsame hp'
  split at hp'
  · exact hsame hp'
  next l _ _ =>
  rw [sendSyn_eq] at hp'
  split at hp'
  · rw [get_set hp, if_pos rfl] at hp'
    cases hp'
    exact ⟨hbuf, .inr (by simp [Tcp.synSent, hqueue])⟩
  · rw [get_set hp, if_pos rfl] at hp'
    cases hp'
    exact ⟨hbuf, .inr (by simp [hqueue])⟩

/-- **A closed block is quiescent**, in every run whose steps close only empty blocks: its
queue and its buffer are empty, the timer leaves it alone and sends for the others only, and a
`connect` on it has nothing but its own SYN queued. -/
theorem closed_quiescent {tcp : Tcp} (h : ReachableWhen ClosesEmpty tcp) {d : TcpDesc}
    {p : TcpPcb} (hp : tcp.get d = some p) (hstate : p.state = .closed) :
    p.queue = [] ∧ p.buf = [] ∧
      (∀ env, retransEmit env p = (p, []) ∧ ∀ seg, .emit seg ∈ (onTimer env tcp).2 →
        ∃ j q, tcp.get j = some q ∧ q.state ≠ .closed ∧ SentFor q seg) ∧
      ∀ env r p', (connectCall env tcp d r).tcp.get d = some p' →
        p'.buf = [] ∧ (p' = p ∨ p'.queue = [queueEntry env p'.iss flgSyn []]) := by
  obtain ⟨hqueue, hbuf⟩ := h.closedEmpty hp hstate
  refine ⟨hqueue, hbuf, fun env ↦ ⟨retransEmit_of_nil env hqueue, fun seg hseg ↦ ?_⟩,
    fun env r p' hp' ↦ ?_⟩
  · exact emit_mem_onTimer (fun _ _ hq ↦ h.closedEmpty hq) hseg
  · exact connectCall_emptied hp ⟨hqueue, hbuf⟩ hp'

/-- No deadline passes, no `connect` fails in its loop, and every SYN is sent. -/
def closesEmptyTest (env : Env) (tcp : Tcp) : Event → Bool
  | .timer | .connectPoll _ => false
  | .connectInterrupted d => (tcp.get d).all fun p ↦ p.queue = [] ∧ p.buf = []
  | .connectCall d r => (tcp.get d).all fun p ↦ (chooseLocal env tcp p.localEndp r).all fun l ↦
      env.ipOutput (sendSyn env p l r).2
  | _ => true

theorem closesEmpty_of_test (env : Env) (tcp : Tcp) (ev : Event)
    (h : closesEmptyTest env tcp ev = true) : ClosesEmpty env tcp ev := by
  cases ev with
  | timer => exact absurd h (by simp [closesEmptyTest])
  | connectPoll d => exact absurd h (by simp [closesEmptyTest])
  | connectInterrupted d =>
      intro p hp
      simpa [closesEmptyTest, Emptied, hp] using h
  | connectCall d r =>
      rintro p hp l ⟨hlocal, -⟩
      simpa [closesEmptyTest, hp, hlocal] using h
  | _ => trivial

/-- A socket connects, and is closed again once its SYN is acknowledged. -/
theorem closed_quiescent_reconnect :
    ∃ tcp p, ReachableWhen ClosesEmpty tcp ∧ tcp.get 0 = some p ∧ p.state = .closed ∧
      p.remoteEndp = peerEndp ∧ p.queue = [] ∧ p.buf = [] := by
  obtain ⟨tcp, hreach, htest⟩ := exists_reachableWhen closesEmptyTest closesEmpty_of_test
    (fun tcp ↦ (tcp.get 0).any fun p ↦ p.state = .closed && p.remoteEndp = peerEndp)
    [(routedEnv, .socket), (routedEnv, .connectCall 0 peerEndp),
      (routedEnv, .arrive { src := peerEndp, dst := ⟨⟨192, 0, 2, 1⟩, 49152⟩, seq := 300, ack := 101,
                            flg := flgSyn ||| flgAck, wnd := 1000, data := [] }),
      (routedEnv, .connectInterrupted 0)] (by decide +kernel)
  obtain ⟨p, hp, htest⟩ := (Option.any_eq_true _ _).mp htest
  simp only [Bool.and_eq_true, decide_eq_true_eq] at htest
  obtain ⟨hqueue, hbuf, -⟩ := closed_quiescent hreach hp htest.1
  exact ⟨tcp, p, hreach, hp, htest.1, htest.2, hqueue, hbuf⟩

/-- Otherwise it fails: a `connect` that is interrupted leaves its SYN in the queue, and the
next one is queued behind it. -/
theorem closed_not_quiescent :
    (¬ ∀ tcp, Reachable tcp → ∀ d p, tcp.get d = some p → p.state = .closed →
      p.queue = [] ∧ p.buf = []) ∧
    ∃ tcp p, Reachable tcp ∧ tcp.get 0 = some p ∧ p.state = .synSent ∧
      p.queue.map (·.seq) = [100, 700] := by
  constructor
  · intro hall
    obtain ⟨tcp, hreach, htest⟩ := exists_reachableWhen (fun _ _ _ ↦ true) (fun _ _ _ _ ↦ trivial)
      (fun tcp ↦ (tcp.get 0).any fun p ↦ p.state = .closed && p.queue ≠ [])
      [(routedEnv, .socket), (routedEnv, .connectCall 0 peerEndp),
        (routedEnv, .connectInterrupted 0)] (by decide +kernel)
    obtain ⟨p, hp, htest⟩ := (Option.any_eq_true _ _).mp htest
    simp only [Bool.and_eq_true, decide_eq_true_eq] at htest
    exact htest.2 (hall tcp hreach 0 p hp htest.1).1
  · obtain ⟨tcp, hreach, htest⟩ := exists_reachableWhen (fun _ _ _ ↦ true) (fun _ _ _ _ ↦ trivial)
      (fun tcp ↦ (tcp.get 0).any fun p ↦ p.state = .synSent && p.queue.map (·.seq) = [100, 700])
      [(routedEnv, .socket), (routedEnv, .connectCall 0 peerEndp),
        (routedEnv, .connectInterrupted 0),
        ({ routedEnv with random32 := 700 }, .connectCall 0 ⟨⟨192, 0, 2, 3⟩, 9⟩)]
      (by decide +kernel)
    obtain ⟨p, hp, htest⟩ := (Option.any_eq_true _ _).mp htest
    simp only [Bool.and_eq_true, decide_eq_true_eq] at htest
    exact ⟨tcp, p, hreach, hp, htest.1, htest.2⟩

end Microps.Tcp
