import Microps.Tcp.Progress

/-!
# Completion

A connection at rest can be closed: from ESTABLISHED the host goes through FIN_WAIT1, FIN_WAIT2 and
TIME_WAIT, the peer through CLOSE_WAIT and LAST_ACK, and both blocks are released.  Since an
established connection can come to rest, it can be completed.
-/

namespace Microps.Tcp

/-! ## Segments without text -/

section

variable {env : Env} {tcp : Tcp} {d : TcpDesc} {q q₁ : TcpPcb} {s : TcpSegment} {es : List Effect}

/-- A segment without text, past the ACK step. -/
theorem segmentArrives_empty (env : Env) (hselect : pcbSelect tcp.pcbs s.dst s.src = some d)
    (hq : tcp.get d = some q) (hreach : ReachesAck q s) (hdata : s.data = [])
    (hcheck : checkAck env q s.info s.flg s.dst s.src = (.go q₁ es, none)) :
    segmentArrives env tcp s = .ok (tcp.set d (checkFin env q₁ s.info s.flg).1,
      es ++ (checkFin env q₁ s.info s.flg).2) := by
  have hget : (tcp.set d q₁).get d = some q₁ := by rw [get_set hq, if_pos rfl]
  have htext : textAndFin env q₁ s.info s.flg s.data = .ok (checkFin env q₁ s.info s.flg) := by
    simp [textAndFin, processText, hdata, bind, Except.bind, pure, Except.pure]
  rw [segmentArrives_otherwise env hselect hq hreach.state]
  unfold arrivesOtherwise
  rw [if_neg (by simp [hreach.acceptable]), if_neg (by simp [hreach.rst]),
    if_neg (by simp [hreach.syn]), if_neg (by simp [hreach.ack]), hcheck]
  simp only [joinBacklog, hget, unwrap, bind, Except.bind, htext, List.append_nil, set_set]
  rfl

/-- The ACK step of a block that has nothing in flight. -/
theorem checkAck_settled (env : Env) (l r : IpEndp) {flags : U8}
    (hstate : q.state = .established ∨ q.state = .finWait2) (hack : s.info.ack = q.snd.nxt)
    (huna : q.snd.una = q.snd.nxt) : checkAck env q s.info flags l r = (.go q [], none) := by
  have hlt : ¬ q.snd.nxt < q.snd.nxt := BitVec.lt_irrefl _
  rcases hstate with hs | hs <;>
    simp [checkAck, ackStates, ackOpen, ackFinWait1, hs, hack, huna, hlt]

/-- The ACK step of FIN_WAIT1 when the FIN is acknowledged. -/
theorem checkAck_finWait1 (env : Env) (l r : IpEndp) {flags : U8} (hstate : q.state = .finWait1)
    (hack : s.info.ack = q.snd.nxt) (huna : q.snd.una < q.snd.nxt) :
    ∃ q', checkAck env q s.info flags l r = (.go q' [], none) ∧ q'.state = .finWait2 ∧
      q'.snd.nxt = q.snd.nxt ∧ q'.snd.una = q.snd.nxt ∧ q'.rcv = q.rcv ∧
      q'.localEndp = q.localEndp ∧ q'.remoteEndp = q.remoteEndp := by
  obtain ⟨snd, heq, hnxt, huna'⟩ := ackNew_eq q s.info
  refine ⟨ackFinWait1 (ackNew q s.info) s.info, ?_, ?_⟩
  · simp [checkAck, ackStates, ackOpen, hstate, hack, huna]
  · rw [heq, ackFinWait1, if_pos ⟨hstate, hack.trans hnxt.symm⟩]
    exact ⟨rfl, hnxt, huna'.trans hack, rfl, rfl, rfl⟩

end

/-! ## Closing -/

/-- What is left of the side `y₀` while the block `q₀` in its slot `d` is closed. -/
structure Closes (y₀ : Side) (d : TcpDesc) (q₀ : TcpPcb) (y : Side) (q : TcpPcb) : Prop where
  tcp : y.tcp = y₀.tcp.set d q
  taken : y.taken = y₀.taken
  localEndp : q.localEndp = q₀.localEndp
  remoteEndp : q.remoteEndp = q₀.remoteEndp
  listen : q.state ≠ .listen

section

variable {x y₀ y : Side} {d : TcpDesc} {q₀ q q₁ : TcpPcb} {s : TcpSegment}

theorem Closes.refl (hq : y.tcp.get d = some q) (hlisten : q.state ≠ .listen) :
    Closes y d q y q :=
  ⟨(Took.refl hq).tcp, rfl, rfl, rfl, hlisten⟩

theorem Closes.get (h : Closes y₀ d q₀ y q) (hq₀ : y₀.tcp.get d = some q₀) :
    y.tcp.get d = some q := by
  rw [h.tcp, get_set hq₀, if_pos rfl]

theorem Closes.select (h : Closes y₀ d q₀ y q) (hq₀ : y₀.tcp.get d = some q₀)
    (hlisten : q₀.state ≠ .listen) (l r : IpEndp) :
    pcbSelect y.tcp.pcbs l r = pcbSelect y₀.tcp.pcbs l r := by
  rw [h.tcp]
  exact pcbSelect_set hq₀ h.localEndp h.remoteEndp
    ⟨fun hs ↦ absurd hs h.listen, fun hs ↦ absurd hs hlisten⟩

/-- `close` sends a FIN. -/
theorem Closes.close (x : Side) (h : Closes y₀ d q₀ y q) (hq₀ : y₀.tcp.get d = some q₀)
    {state : TcpState} (hstate : q.state = .established ∧ state = .finWait1 ∨
      q.state = .closeWait ∧ state = .lastAck) :
    ∃ y', Side.Next x y (calmEnv, .close d) y' ∧
      Closes y₀ d q₀ y' (sendFin calmEnv q state).1 ∧ (sendFin calmEnv q state).2 ∈ y'.net := by
  have hcall : step calmEnv y.tcp (.close d) = .ok {
      tcp := y.tcp.set d (sendFin calmEnv q state).1, reply := .ok,
      effects := [.emit (sendFin calmEnv q state).2, .notify q.task] } := by
    rcases hstate with ⟨hs, rfl⟩ | ⟨hs, rfl⟩ <;>
      simp [step, closeCall, h.get hq₀, hs, pure, Except.pure]
  refine ⟨_, ⟨calmEnv_sendsAll, by simp, by simp [begins], _, hcall, rfl⟩, ⟨?_, ?_, ?_, ?_, ?_⟩, ?_⟩
  · change y.tcp.set d _ = _
    rw [h.tcp, set_set]
  · exact (List.append_nil _).trans h.taken
  · rw [sendFin_eq]
    exact h.localEndp
  · rw [sendFin_eq]
    exact h.remoteEndp
  · rw [sendFin_eq]
    rcases hstate with ⟨-, rfl⟩ | ⟨-, rfl⟩ <;> simp
  · exact List.mem_append_right _ (mem_emitted.mpr List.mem_cons_self)

/-- A segment without text. -/
theorem Closes.hear (h : Closes y₀ d q₀ y q) (hq₀ : y₀.tcp.get d = some q₀)
    (hlisten : q₀.state ≠ .listen) (hs : s ∈ x.net)
    (hselect : pcbSelect y₀.tcp.pcbs s.dst s.src = some d) (hreach : ReachesAck q s)
    (hdata : s.data = [])
    (hcheck : checkAck calmEnv q s.info s.flg s.dst s.src = (.go q₁ [], none))
    {q' : TcpPcb} {es : List Effect} (hfin : checkFin calmEnv q₁ s.info s.flg = (q', es))
    (hlocal : q'.localEndp = q₀.localEndp) (hremote : q'.remoteEndp = q₀.remoteEndp)
    (hlisten' : q'.state ≠ .listen) :
    ∃ y', Side.Next x y (calmEnv, .arrive s) y' ∧ Closes y₀ d q₀ y' q' ∧
      ∀ seg, .emit seg ∈ es → seg ∈ y'.net := by
  have hcall := segmentArrives_empty calmEnv
    (by rw [h.select hq₀ hlisten]; exact hselect) (h.get hq₀) hreach hdata hcheck
  rw [hfin] at hcall
  refine ⟨_, .hear calmEnv_sendsAll hs hreach.ack hcall,
    ⟨?_, (List.append_nil _).trans h.taken, hlocal, hremote, hlisten'⟩,
    fun seg hseg ↦ List.mem_append_right _ (mem_emitted.mpr hseg)⟩
  change y.tcp.set d _ = _
  rw [h.tcp, set_set]

/-- A block with an open window expects a number far from the end. -/
structure Expects (q : TcpPcb) (n : U32) : Prop where
  nxt : q.rcv.nxt = n
  wnd : q.rcv.wnd.toNat = 65535
  room : n.toNat + 65535 < 2 ^ 32

theorem Expects.reaches {n : U32} (h : Expects q n) (hseq : s.seq = n)
    (hpast : q.state ≠ .closed ∧ q.state ≠ .listen ∧ q.state ≠ .synSent)
    (hflg : s.flg = flgAck ∨ s.flg = flgAck ||| flgFin) : ReachesAck q s := by
  have hflags : flagIsset s.flg flgRst = false ∧ flagIsset s.flg flgSyn = false ∧
      flagIsset s.flg flgAck = true := by
    rcases hflg with hflg | hflg <;> rw [hflg] <;> decide
  refine ⟨hpast, acceptable_next (hseq.trans h.nxt.symm) ?_ ?_, hflags.1, hflags.2.1, hflags.2.2⟩
  · rw [h.wnd]
    decide
  · rw [h.nxt, h.wnd]
    exact h.room

theorem Talk.expects {x y : Side} {c d : TcpDesc} {p q : TcpPcb} (h : Talk x c p y d q)
    (hset : Settled x p y q) :
    Expects q p.snd.nxt ∧ p.snd.nxt.toNat + 65536 < 2 ^ 32 := by
  have hwnd := h.there.window
  have hnxt := h.there.snd_nxt (by rw [h.host]; rfl)
  have hle := h.there.rcv_nxt.2.2
  have hno := h.there.noWrap
  rw [NoWrap] at hno
  rw [hset.buf, List.length_nil, Nat.add_zero] at hwnd
  refine ⟨⟨h.there.met (by rw [h.host]; rfl) hset.rcvd, hwnd, ?_⟩, ?_⟩ <;> omega

end

/-! ## The states on the way -/

/-- The states of the blocks in slot `c` of the host and in slot `d` of the peer. -/
def World.States (w : World) (c d : TcpDesc) (states : TcpState × TcpState) : Prop :=
  (∃ p, w.host.tcp.get c = some p ∧ p.state = states.1) ∧
    ∃ q, w.peer.tcp.get d = some q ∧ q.state = states.2

/-- One world may become another, through worlds in which the two blocks are in these states, one
after the other. -/
def World.Through (c d : TcpDesc) : List (TcpState × TcpState) → World → World → Prop
  | [], w, w' => Machine.Leads World.Next w w'
  | states :: rest, w, w' => ∃ w₁, Machine.Leads World.Next w w₁ ∧ w₁.States c d states ∧
      World.Through c d rest w₁ w'

section

variable {c d : TcpDesc} {states : List (TcpState × TcpState)} {w w' w'' : World}

theorem World.Through.of_leads (h : Machine.Leads World.Next w w')
    (h' : World.Through c d states w' w'') : World.Through c d states w w'' := by
  cases states with
  | nil => exact h.trans h'
  | cons s rest =>
      obtain ⟨w₁, hleads, hrest⟩ := h'
      exact ⟨w₁, h.trans hleads, hrest⟩

theorem World.Through.append {more : List (TcpState × TcpState)}
    (h : World.Through c d states w w') (h' : World.Through c d more w' w'') :
    World.Through c d (states ++ more) w w'' := by
  induction states generalizing w with
  | nil => exact h'.of_leads h
  | cons s rest ih =>
      obtain ⟨w₁, hleads, hstates, hrest⟩ := h
      exact ⟨w₁, hleads, hstates, ih hrest⟩

end

/-! ## One side -/

section

variable {x y : Side} {c d : TcpDesc} {p q : TcpPcb}

theorem add_one_toNat {n : U32} (h : n.toNat + 65536 < 2 ^ 32) : (n + 1).toNat = n.toNat + 1 := by
  bv_omega

/-- What both sides have in common after one of them has closed. -/
structure HalfClosed (x y : Side) (c d : TcpDesc) (p q : TcpPcb) (x' y' : Side) (p' q' : TcpPcb) :
    Prop where
  host : Closes x c p x' p'
  peer : Closes y d q y' q'
  done : p'.state = .finWait2
  open' : q'.state = .closeWait
  nxt : p'.snd.nxt = p.snd.nxt + 1
  una : p'.snd.una = p'.snd.nxt
  expects : Expects p' q'.snd.nxt
  nxt' : q'.snd.nxt = q.snd.nxt
  una' : q'.snd.una = q'.snd.nxt
  expects' : Expects q' p'.snd.nxt

/-- **One side closes**, and the other acknowledges. -/
theorem Talk.halfCloses (h : Talk x c p y d q) (hset : Settled x p y q) (hset' : Settled y q x p) :
    ∃ x' p' y' q', World.Through c d [(.finWait1, .established), (.finWait1, .closeWait),
      (.finWait2, .closeWait)] ⟨x, y⟩ ⟨x', y'⟩ ∧ HalfClosed x y c d p q x' y' p' q' := by
  obtain ⟨hexpects, hroom⟩ := h.expects hset
  obtain ⟨hexpects', -⟩ := h.symm.expects hset'
  have hlisten : p.state ≠ .listen := by simp [h.host]
  have hlisten' : q.state ≠ .listen := by simp [h.peer]
  have hone := add_one_toNat hroom
  -- The host sends its FIN.
  obtain ⟨x₁, hnext₁, hx₁, hfin⟩ := (Closes.refl h.there.sender hlisten).close y h.there.sender
    (.inl ⟨h.host, rfl⟩)
  rw [sendFin_eq] at hx₁ hfin
  -- The peer consumes it.
  let f := entrySegment p (queueEntry calmEnv p.snd.nxt (flgAck ||| flgFin) [])
  have hflag : flagIsset f.flg flgFin = true :=
    show flagIsset (flgAck ||| flgFin) flgFin = true by decide
  have htake : checkFin calmEnv q f.info f.flg = ({ consumeFin q f.info with state := .closeWait },
      [.emit (ackOf (consumeFin q f.info)), .notify q.task]) := by
    rw [checkFin, if_pos hflag, if_neg (by simp [h.peer])]
    simp only [consumeFin, h.peer]
  obtain ⟨y₁, hnext₂, hy₁, hack⟩ := (Closes.refl h.there.receiver hlisten').hear h.there.receiver
    hlisten' hfin h.there.select (hexpects.reaches rfl (by simp [h.peer]) (.inr rfl)) rfl
    (checkAck_settled calmEnv _ _ (.inl h.peer) hexpects'.nxt hset'.una) htake rfl rfl (by simp)
  have hack := hack _ List.mem_cons_self
  -- The host hears that it has.
  let a := ackOf (consumeFin q f.info)
  have hflag' : flagIsset a.flg flgFin = false := (ackOf_flags _).2.2.2
  have hnew : p.snd.una < p.snd.nxt + 1 := by
    rw [hset.una, BitVec.lt_def]
    omega
  obtain ⟨p₂, hcheck, hdone, hnxt, huna, hrcv, hlocal, hremote⟩ := checkAck_finWait1
    (q := { p with
      queue := p.queue ++ [queueEntry calmEnv p.snd.nxt (flgAck ||| flgFin) []]
      snd := { p.snd with nxt := p.snd.nxt + 1 }
      state := .finWait1, hist := { p.hist with sent := p.hist.sent ++ [.fin] } })
    (s := a) calmEnv a.dst a.src rfl rfl hnew
  have hleave : checkFin calmEnv p₂ a.info a.flg = (p₂, []) := by
    rw [checkFin, if_neg (by simp [hflag'])]
  obtain ⟨x₂, hnext₃, hx₂, -⟩ := hx₁.hear h.there.sender hlisten hack h.back.select
    (Expects.reaches ⟨hexpects'.nxt, hexpects'.wnd, hexpects'.room⟩ rfl (by simp) (.inl rfl)) rfl
    hcheck hleave hlocal hremote (by simp [hdone])
  refine ⟨x₂, p₂, y₁, _, ?_, hx₂, hy₁, hdone, rfl, hnxt, huna.trans hnxt.symm, ?_, rfl, hset'.una, ?_⟩
  · exact ⟨_, World.leads_host (.step hnext₁),
      ⟨⟨_, hx₁.get h.there.sender, rfl⟩, ⟨_, h.there.receiver, h.peer⟩⟩,
      _, World.leads_peer (.step hnext₂),
      ⟨⟨_, hx₁.get h.there.sender, rfl⟩, ⟨_, hy₁.get h.there.receiver, rfl⟩⟩,
      _, World.leads_host (.step hnext₃),
      ⟨⟨_, hx₂.get h.there.sender, hdone⟩, ⟨_, hy₁.get h.there.receiver, rfl⟩⟩, .refl⟩
  · exact ⟨by rw [hrcv]; exact hexpects'.nxt, by rw [hrcv]; exact hexpects'.wnd, hexpects'.room⟩
  · refine ⟨hnxt.symm, hexpects.wnd, ?_⟩
    rw [hnxt]
    change (p.snd.nxt + 1).toNat + 65535 < 2 ^ 32
    omega

/-! ## Release -/

/-- The acknowledgement of its FIN releases a block in LAST_ACK. -/
theorem segmentArrives_lastAck (env : Env) {tcp : Tcp} {s : TcpSegment}
    (hselect : pcbSelect tcp.pcbs s.dst s.src = some d) (hq : tcp.get d = some q)
    (hstate : q.state = .lastAck) (hreach : ReachesAck q s) (hall : s.ack = q.snd.nxt) :
    ∃ r, segmentArrives env tcp s = .ok r ∧ r.1.get d = none := by
  have hcall : ∃ r, segmentArrives env tcp s = .ok r := by
    rw [segmentArrives_otherwise env hselect hq hreach.state]
    unfold arrivesOtherwise
    rw [if_neg (by simp [hreach.acceptable]), if_neg (by simp [hreach.rst]),
      if_neg (by simp [hreach.syn]), if_neg (by simp [hreach.ack])]
    have hcheck : checkAck env q s.info s.flg s.dst s.src =
        (.release { q with state := .closed } [], none) := by
      simp [checkAck, ackStates, hstate, TcpSegment.info, hall]
    rw [hcheck]
    exact ⟨_, rfl⟩
  obtain ⟨r, hr⟩ := hcall
  refine ⟨r, hr, ?_⟩
  rw [segmentArrives_otherwise env hselect hq hreach.state] at hr
  exact arrivesOtherwise_lastAck env hq hstate hreach hall hr

/-- A block in TIME_WAIT is released once its time is over. -/
theorem onTimer_timeWait {env : Env} {tcp : Tcp} (hp : tcp.get c = some p)
    (hstate : p.state = .timeWait) (hlate : p.twTimer < env.now) :
    (onTimer env tcp).1.get c = none := by
  have hticked := onTimer_ticked env tcp
  rcases hticked.some c p hp with ⟨hle, -⟩ | ⟨-, -, -, hnot⟩ | ⟨hnone, -⟩
  · exact absurd (Slots.lt_length_of_peek hp) (Nat.not_lt.mpr hle)
  · exact absurd ⟨hstate, hlate⟩ hnot
  · exact hnone

/-- **The other side closes**, and both blocks are released. -/
theorem HalfClosed.completes {x₀ y₀ : Side} {p₀ q₀ : TcpPcb} (h : HalfClosed x₀ y₀ c d p₀ q₀ x y p q)
    (ht : Talk x₀ c p₀ y₀ d q₀) : ∃ x' y',
      World.Through c d [(.finWait2, .lastAck), (.timeWait, .lastAck)] ⟨x, y⟩ ⟨x', y'⟩ ∧
      x'.taken = x₀.taken ∧ y'.taken = y₀.taken ∧ x'.tcp.get c = none ∧ y'.tcp.get d = none := by
  have hlisten : p₀.state ≠ .listen := by simp [ht.host]
  have hlisten' : q₀.state ≠ .listen := by simp [ht.peer]
  -- The peer sends its FIN.
  obtain ⟨y₁, hnext₁, hy₁, hfin⟩ := h.peer.close x ht.there.receiver (.inr ⟨h.open', rfl⟩)
  rw [sendFin_eq] at hy₁ hfin
  -- The host consumes it.
  let f := entrySegment q (queueEntry calmEnv q.snd.nxt (flgAck ||| flgFin) [])
  have hflag : flagIsset f.flg flgFin = true :=
    show flagIsset (flgAck ||| flgFin) flgFin = true by decide
  have hselect : pcbSelect x₀.tcp.pcbs f.dst f.src = some c := by
    change pcbSelect x₀.tcp.pcbs q.remoteEndp q.localEndp = _
    rw [h.peer.localEndp, h.peer.remoteEndp]
    exact ht.back.select
  have htake : checkFin calmEnv p f.info f.flg =
      (setTimewaitTimer calmEnv { consumeFin p f.info with state := .timeWait },
        [.emit (ackOf (consumeFin p f.info))]) := by
    rw [checkFin, if_pos hflag, if_neg (by simp [h.done])]
    simp only [consumeFin, h.done]
  obtain ⟨x₂, hnext₂, hx₂, hack⟩ := h.host.hear ht.there.sender hlisten hfin hselect
    (h.expects.reaches rfl (by simp [h.done]) (.inr rfl)) rfl
    (checkAck_settled calmEnv _ _ (.inr h.done) h.expects'.nxt h.una) htake h.host.localEndp
    h.host.remoteEndp (by simp [setTimewaitTimer])
  have hack := hack _ List.mem_cons_self
  -- The peer hears that it has.
  let a := ackOf (consumeFin p f.info)
  have hselect' : pcbSelect y₁.tcp.pcbs a.dst a.src = some d := by
    rw [hy₁.select ht.there.receiver hlisten']
    change pcbSelect y₀.tcp.pcbs p.remoteEndp p.localEndp = _
    rw [h.host.localEndp, h.host.remoteEndp]
    exact ht.there.select
  obtain ⟨r, hr, hgone⟩ := segmentArrives_lastAck calmEnv (s := a) hselect'
    (hy₁.get ht.there.receiver) rfl (Expects.reaches ⟨h.expects'.nxt, h.expects'.wnd, h.expects'.room⟩
      rfl (by simp) (.inl rfl)) rfl
  have hnext₃ := Side.Next.hear calmEnv_sendsAll hack (ackOf_flags _).2.2.1 hr
  -- The host waits.
  let late : Env := { calmEnv with now := calmEnv.now + timewaitSec + 1 }
  have hgone' : (onTimer late x₂.tcp).1.get c = none :=
    onTimer_timeWait (hx₂.get ht.there.sender) rfl (Nat.lt_succ_self _)
  have hnext₄ : Side.Next (y₁.after calmEnv (.arrive a) { tcp := r.1, effects := r.2 }) x₂
      (late, .timer) (x₂.after late .timer
        { tcp := (onTimer late x₂.tcp).1, effects := (onTimer late x₂.tcp).2 }) :=
    ⟨calmEnv_sendsAll, by simp, by simp [begins], _, rfl, rfl⟩
  refine ⟨_, _, ⟨_, World.leads_peer (.step hnext₁),
    ⟨⟨_, h.host.get ht.there.sender, h.done⟩, ⟨_, hy₁.get ht.there.receiver, rfl⟩⟩,
    _, World.leads_host (.step hnext₂),
    ⟨⟨_, hx₂.get ht.there.sender, rfl⟩, ⟨_, hy₁.get ht.there.receiver, rfl⟩⟩,
    (World.leads_peer (.step hnext₃)).trans (World.leads_host (.step hnext₄))⟩,
    (List.append_nil _).trans hx₂.taken, (List.append_nil _).trans hy₁.taken, hgone', hgone⟩

/-- **Connections can be completed**: in every world with an established connection, whatever was
lost, reordered or sent again so far, everything that is queued on either side can still be
delivered, the host and then the peer can close, and the blocks of both are released in the end. -/
theorem connection_completes {w : World} (h : w.Unrefused) (hp : w.host.tcp.get c = some p)
    (hq : w.peer.tcp.get d = some q) (hhost : p.state = .established)
    (hpeer : q.state = .established)
    (hthere : pcbSelect w.peer.tcp.pcbs p.remoteEndp p.localEndp = some d)
    (hback : pcbSelect w.host.tcp.pcbs q.remoteEndp q.localEndp = some c)
    (hno : NoWrap p) (hno' : NoWrap q) :
    ∃ w', World.Through c d [(.established, .established), (.finWait1, .established),
        (.finWait1, .closeWait), (.finWait2, .closeWait), (.finWait2, .lastAck),
        (.timeWait, .lastAck)] w w' ∧
      w'.host.taken = w.peer.queued ∧ w'.peer.taken = w.host.queued ∧
      w'.host.tcp.get c = none ∧ w'.peer.tcp.get d = none := by
  obtain ⟨x, p', y, q', hleads, htalk, htook, htook', hset, hset'⟩ :=
    (h.reachable.talk hp hq hhost hpeer hthere hback hno hno').settles
  have htaken := (hset.taken htalk.there).trans htook.queued
  have htaken' := (hset'.taken htalk.back).trans htook'.queued
  obtain ⟨x₁, p₁, y₁, q₁, hthrough₁, hhalf⟩ := htalk.halfCloses hset hset'
  obtain ⟨x₂, y₂, hthrough₂, hx₂, hy₂, hgone, hgone'⟩ := hhalf.completes htalk
  have hsettled : World.States ⟨x, y⟩ c d (.established, .established) :=
    ⟨⟨p', htalk.there.sender, htalk.host⟩, ⟨q', htalk.there.receiver, htalk.peer⟩⟩
  exact ⟨⟨x₂, y₂⟩, ⟨⟨x, y⟩, hleads, hsettled, hthrough₁.append hthrough₂⟩, hx₂.trans htaken',
    hy₂.trans htaken, hgone, hgone'⟩

/-- The connection of `reorderedRun`. -/
theorem connection_completes_reordered : ∃ w w' : World, w.Unrefused ∧
    (w.host.tcp.get 0).isSome = true ∧ w.host.taken = [1, 2, 3] ∧
      World.Through 0 0 [(.established, .established), (.finWait1, .established),
        (.finWait1, .closeWait), (.finWait2, .closeWait), (.finWait2, .lastAck),
        (.timeWait, .lastAck)] w w' ∧
      w'.host.taken = [1, 2, 3, 4, 5] ∧ w'.host.tcp.get 0 = none := by
  obtain ⟨w, hreach, htest⟩ := exists_unrefusedWorld
    (fun w ↦ w.peer.queued = [1, 2, 3, 4, 5] && w.host.taken = [1, 2, 3] && talking w 0 0)
    reorderedRun sendsAll_reorderedRun (by decide +kernel)
  simp only [Bool.and_eq_true, decide_eq_true_eq, talking, Option.any_eq_true] at htest
  obtain ⟨⟨hqueued, htaken⟩, p, hp, q, hq, ⟨⟨⟨⟨hhost, hpeer⟩, hthere⟩, hback⟩, hno⟩, hno'⟩ := htest
  obtain ⟨w', hthrough, hall, -, hgone, -⟩ :=
    connection_completes hreach hp hq hhost hpeer hthere hback hno hno'
  exact ⟨w, w', hreach, by rw [hp]; rfl, htaken, hthrough, hall.trans hqueued, hgone⟩

end

end Microps.Tcp
