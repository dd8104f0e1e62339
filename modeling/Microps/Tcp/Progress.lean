import Microps.Tcp.Acknowledge
import Microps.Tcp.Handshake
import Microps.Tcp.Trail

/-!
# Progress

While `ip::output` refuses nothing, what has been queued can still be delivered and acknowledged.
Whatever the network has done so far, the chunks that the receiver misses are still on it, and when
they arrive in order the receiver takes one after the other, provided `receive` makes room; and the
receiver answers a SYN that arrives late with an acknowledgement of everything it has got.
`pcb_select` has to pick the right block on either side, which it may not where another one is in
the way.

The sequence numbers must not wrap: `segment_arrives` compares them as plain 32-bit words.
-/

namespace Microps.Tcp

/-! ## One segment -/

section

variable {env : Env} {tcp : Tcp} {d : TcpDesc} {p p' q q' : TcpPcb} {s : TcpSegment} {l r : IpEndp}

/-- Only its endpoints and whether it listens matter for the selection of a block. -/
theorem selectLoop_put (hlocal : p'.localEndp = p.localEndp)
    (hremote : p'.remoteEndp = p.remoteEndp) (hlisten : p'.state = .listen ↔ p.state = .listen)
    {t : Slots TcpPcb} (hp : t.peek d = some p) (i : Nat) (candidate : Option TcpDesc) :
    selectLoop l r (Slots.put t d p') i candidate = selectLoop l r t i candidate := by
  have hsel : selects p' l r = selects p l r := by rw [selects, selects, hlocal, hremote]
  induction t generalizing d i candidate with
  | nil => exact absurd hp (by simp)
  | cons slot t ih =>
      cases d with
      | zero =>
          obtain rfl : slot = some p := by simpa [Slots.peek] using hp
          change selectLoop l r (some p' :: t) i candidate = _
          simp only [selectLoop, hsel, ne_eq, hlisten]
      | succ d =>
          change selectLoop l r (slot :: Slots.put t d p') i candidate = _
          have hp : Slots.peek t d = some p := by simpa [Slots.peek] using hp
          cases slot with
          | none => exact ih hp _ _
          | some a => simp only [selectLoop, ih hp]

theorem pcbSelect_set (hp : tcp.get d = some p) (hlocal : p'.localEndp = p.localEndp)
    (hremote : p'.remoteEndp = p.remoteEndp) (hlisten : p'.state = .listen ↔ p.state = .listen) :
    pcbSelect (tcp.set d p').pcbs l r = pcbSelect tcp.pcbs l r :=
  selectLoop_put hlocal hremote hlisten hp 0 none

/-- In a state that takes text, a segment concerns its block only. -/
theorem segmentArrives_text (env : Env) (hselect : pcbSelect tcp.pcbs s.dst s.src = some d)
    (hq : tcp.get d = some q) (htakes : q.state.takesText = true) (hreach : ReachesAck q s)
    (hpass : passesAck q s.info) :
    ∃ q' es, segmentArrives env tcp s = .ok (tcp.set d q', es) ∧ Arrived q s q' := by
  have hsr : q.state ≠ .synReceived := by
    rintro hs
    exact absurd htakes (by simp [hs, TcpState.takesText])
  rw [segmentArrives_otherwise env hselect hq hreach.state]
  unfold arrivesOtherwise
  rw [if_neg (by simp [hreach.acceptable]), if_neg (by simp [hreach.rst]),
    if_neg (by simp [hreach.syn]), if_neg (by simp [hreach.ack])]
  rcases checkAck_cases env s.info s.flg s.dst s.src hreach.state with
    ⟨q₁, es, hstep, hcheck⟩ | ⟨hno, -⟩ | ⟨hlast, -, -⟩
  · rw [hcheck, if_neg hsr]
    have hget : (tcp.set d q₁).get d = some q₁ := by rw [get_set hq, if_pos rfl]
    simp only [joinBacklog, hget, unwrap, bind, Except.bind]
    have htext := textAndFin_eq env q₁ s.info s.flg s.data
    revert htext
    generalize (if hasText q₁ s.data then _ else _) = r
    intro htext
    rw [htext]
    refine ⟨r.1, es ++ [] ++ r.2, ?_, arrived q₁.backlog hreach.state hstep htext⟩
    rw [← set_set tcp d q₁ r.1]
    rfl
  · exact absurd hpass hno
  · simp [passesAck, hlast] at hpass

/-- A segment out of the window is answered. -/
theorem segmentArrives_again (env : Env) (hselect : pcbSelect tcp.pcbs s.dst s.src = some d)
    (hq : tcp.get d = some q)
    (hstate : q.state ≠ .closed ∧ q.state ≠ .listen ∧ q.state ≠ .synSent)
    (hacc : acceptable q s.info = false) (hrst : flagIsset s.flg flgRst = false) :
    segmentArrives env tcp s = .ok (tcp, [.emit (ackOf q)]) := by
  rw [segmentArrives_otherwise env hselect hq hstate]
  simp [arrivesOtherwise, hacc, hrst, pure, Except.pure]

/-- The next number is acceptable while the window is open and does not wrap. -/
theorem acceptable_next (hseq : s.seq = q.rcv.nxt) (hwnd : 0 < q.rcv.wnd.toNat)
    (hno : q.rcv.nxt.toNat + q.rcv.wnd.toNat < 2 ^ 32) : acceptable q s.info = true := by
  have hzero : q.rcv.wnd ≠ 0 := by
    rintro hzero
    rw [hzero] at hwnd
    exact absurd hwnd (by decide)
  have hlt : s.info.seq < q.rcv.nxt + q.rcv.wnd.setWidth 32 := by
    change s.seq < _
    rw [hseq, BitVec.lt_def, BitVec.toNat_add, BitVec.toNat_setWidth]
    omega
  have hle : q.rcv.nxt ≤ s.info.seq := hseq ▸ BitVec.le_refl _
  unfold acceptable
  simp only [hzero, if_false]
  split
  · exact decide_eq_true ⟨hle, hlt⟩
  · exact decide_eq_true (.inl ⟨hle, hlt⟩)

theorem step_arrive {r : Tcp × List Effect} (h : segmentArrives env tcp s = .ok r) :
    step env tcp (.arrive s) = .ok { tcp := r.1, effects := r.2 } := by
  simp only [step, h]
  rfl

theorem ackOf_flags (p : TcpPcb) : flagIsset (ackOf p).flg flgRst = false ∧
    flagIsset (ackOf p).flg flgSyn = false ∧ flagIsset (ackOf p).flg flgAck = true ∧
    flagIsset (ackOf p).flg flgFin = false := by
  rw [show (ackOf p).flg = flgAck from rfl]
  decide

theorem past_of_takesText (h : q.state.takesText = true) :
    q.state ≠ .closed ∧ q.state ≠ .listen ∧ q.state ≠ .synSent := by
  cases hs : q.state <;> simp_all [TcpState.takesText]

end

/-! ## The receiver -/

/-- The numbers of what the block has sent, and of a window after it, do not wrap. -/
def NoWrap (p : TcpPcb) : Prop := p.iss.toNat + p.hist.sent.length + 65536 < 2 ^ 32

/-- `ip::output` refuses no segment. -/
def Env.SendsAll (env : Env) : Prop := ∀ seg, env.ipOutput seg = true

theorem calmEnv_sendsAll : Env.SendsAll calmEnv := fun _ ↦ rfl

/-- One step of the side `y`, whose peer is `x`, in which nothing is refused. -/
def Side.Next (x y : Side) (label : Env × Event) (y' : Side) : Prop :=
  Env.SendsAll label.1 ∧ y.Acts x label.1 label.2 y'

/-- A side that is sent a segment with an acknowledgement may hear it. -/
theorem Side.Next.hear {x y : Side} {env : Env} {s : TcpSegment} {r : Tcp × List Effect}
    (hall : Env.SendsAll env) (hs : s ∈ x.net) (hack : flagIsset s.flg flgAck = true)
    (h : segmentArrives env y.tcp s = .ok r) : Side.Next x y (env, .arrive s)
      (y.after env (.arrive s) { tcp := r.1, effects := r.2 }) := by
  refine ⟨hall, ?_, by simp [begins, hack], _, step_arrive h, rfl⟩
  rintro _ ⟨⟩
  exact hs

/-- The block `q` of the side `y` takes what the block `p` of the side `x` has sent. -/
structure Hearing (x : Side) (c : TcpDesc) (p : TcpPcb) (y : Side) (d : TcpDesc) (q : TcpPcb) :
    Prop where
  trails : Trails x y
  sender : x.tcp.get c = some p
  receiver : y.tcp.get d = some q
  select : pcbSelect y.tcp.pcbs p.remoteEndp p.localEndp = some d
  active : p.state.isActive = true
  unfinished : p.hist.fin = false
  takes : q.state.takesText = true
  noWrap : NoWrap p
  noWrap' : NoWrap q

/-- What receiving leaves of a side. -/
structure Took (y : Side) (d : TcpDesc) (q : TcpPcb) (y' : Side) (q' : TcpPcb) : Prop where
  tcp : y'.tcp = y.tcp.set d q'
  queued : y'.queued = y.queued
  net : y.net ⊆ y'.net
  localEndp : q'.localEndp = q.localEndp
  remoteEndp : q'.remoteEndp = q.remoteEndp
  iss : q'.iss = q.iss
  sent : q'.hist.sent = q.hist.sent
  takes : q.state.takesText = true → q'.state.takesText = true
  established : q.state = .established → q'.state = .established

section

variable {x y y' y'' : Side} {c d : TcpDesc} {p q q' q'' : TcpPcb} {s : TcpSegment}

theorem Took.refl (hq : y.tcp.get d = some q) : Took y d q y q :=
  ⟨by rw [Tcp.set, Slots.put_peek hq], rfl, List.Subset.refl _, rfl, rfl, rfl, rfl, id, id⟩

theorem Took.trans (h : Took y d q y' q') (h' : Took y' d q' y'' q'') : Took y d q y'' q'' where
  tcp := by rw [h'.tcp, h.tcp, set_set]
  queued := h'.queued.trans h.queued
  net := List.Subset.trans h.net h'.net
  localEndp := h'.localEndp.trans h.localEndp
  remoteEndp := h'.remoteEndp.trans h.remoteEndp
  iss := h'.iss.trans h.iss
  sent := h'.sent.trans h.sent
  takes hs := h'.takes (h.takes hs)
  established hs := h'.established (h.established hs)

theorem Trails.leads (h : Trails x y) (hleads : Machine.Leads (Side.Next x) y y') :
    Trails x y' := by
  induction hleads with
  | start heq => exact heq ▸ h
  | next _ hstep ih => exact (ih.symm.acts hstep.2).symm

/-- Receiving does not end the conversation. -/
theorem Hearing.took (h : Hearing x c p y d q) (hleads : Machine.Leads (Side.Next x) y y')
    (ht : Took y d q y' q') : Hearing x c p y' d q' where
  trails := h.trails.leads hleads
  sender := h.sender
  receiver := by rw [ht.tcp, get_set h.receiver, if_pos rfl]
  select := by
    have hlisten : q'.state = .listen ↔ q.state = .listen :=
      ⟨fun hs ↦ absurd hs (past_of_takesText (ht.takes h.takes)).2.1,
        fun hs ↦ absurd hs (past_of_takesText h.takes).2.1⟩
    rw [ht.tcp, pcbSelect_set h.receiver ht.localEndp ht.remoteEndp hlisten]
    exact h.select
  active := h.active
  unfinished := h.unfinished
  takes := ht.takes h.takes
  noWrap := h.noWrap
  noWrap' := by
    have hno := h.noWrap'
    rwa [NoWrap, ← ht.iss, ← ht.sent] at hno

/-! ## What the receiver knows -/

/-- The two sides are linked, and each has left its trail. -/
theorem Hearing.linked (h : Hearing x c p y d q) : ∃ chunks chunks', Link p.iss q.iss x y ∧
    Link q.iss p.iss y x ∧ Trail p.iss chunks x y ∧ Trail q.iss chunks' y x := by
  obtain ⟨iss, iss', chunks, chunks', hx, hy, htx, hty⟩ := h.trails
  have hpast := past_of_takesText h.takes
  obtain rfl := (hx.snd c p h.sender (hx.started_of_active h.sender h.active)).initial
  obtain rfl := (hy.snd d q h.receiver (hy.started h.receiver hpast.1 hpast.2.1)).initial
  exact ⟨chunks, chunks', hx, hy, htx, hty⟩

theorem Hearing.receiver_active (h : Hearing x c p y d q) : q.state.isActive = true :=
  TcpState.isActive_of_ne (past_of_takesText h.takes).1 (past_of_takesText h.takes).2.1

theorem Hearing.receiver_unfinished (h : Hearing x c p y d q) :
    q.hist.synced = true ∧ q.hist.fin = false := by
  obtain ⟨chunks, chunks', -, hy, -, -⟩ := h.linked
  have hgot := (TcpState.gotSyn_iff _).mpr (past_of_takesText h.takes)
  refine ⟨(hy.rcvInv h.receiver).synced hgot, ?_⟩
  rw [(hy.rcvInv h.receiver).fin hgot]
  have htakes := h.takes
  cases hs : q.state <;> simp_all [TcpState.takesText, TcpState.gotFin]

/-- What the receiver expects next, as a number that has not wrapped. -/
theorem Hearing.rcv_nxt (h : Hearing x c p y d q) :
    q.rcv.nxt.toNat = p.iss.toNat + 1 + q.hist.rcvd.length ∧
      q.hist.rcvd.length ≤ x.queued.length ∧ 1 + x.queued.length ≤ p.hist.sent.length := by
  obtain ⟨chunks, chunks', hx, hy, -, -⟩ := h.linked
  have hrcv := hy.rcv d q h.receiver (hy.started_of_active h.receiver h.receiver_active)
  have hle := (hx.snd c p h.sender (hx.started_of_active h.sender h.active)).le
  have hcount := hrcv.count h.receiver_unfinished.1 h.receiver_unfinished.2
  have hno := h.noWrap
  rw [NoWrap] at hno
  refine ⟨?_, hrcv.got.length_le, hle⟩
  rw [hcount]
  bv_omega

theorem Hearing.window (h : Hearing x c p y d q) : q.rcv.wnd.toNat + q.buf.length = 65535 := by
  obtain ⟨chunks, chunks', -, -, -, hty⟩ := h.linked
  obtain ⟨accepted, returned, hbal⟩ := hty.balanced d q h.receiver h.receiver_active
  exact hbal.wnd

/-- What the sender acknowledges, the receiver has sent. -/
theorem Hearing.passes (h : Hearing x c p y d q) (hs : s ∈ x.net)
    (hrst : flagIsset s.flg flgRst = false) (hack : flagIsset s.flg flgAck = true) :
    passesAck q s.info := by
  obtain ⟨chunks, chunks', hx, hy, -, -⟩ := h.linked
  have hstarted := hx.started_of_active h.sender h.active
  obtain ⟨-, m, hm, heq⟩ := hx.acks s hs c p h.sender hstarted hrst hack h.unfinished
  obtain ⟨a, hsend⟩ := hy.sendInv h.receiver
  have hnxt := (hsend.active h.receiver_active).1
  have hsent := (hy.snd d q h.receiver (hy.started_of_active h.receiver h.receiver_active)).le
  have hgot := (hx.rcv c p h.sender hstarted).got.length_le
  have hno := h.noWrap'
  rw [NoWrap] at hno
  have hle : s.ack ≤ q.snd.nxt := by
    have hack : s.ack.toNat = q.iss.toNat + 1 + m := by
      rw [heq]
      bv_omega
    have hend : q.snd.nxt.toNat = q.iss.toNat + q.hist.sent.length := by
      rw [hnxt]
      bv_omega
    rw [BitVec.le_def, hack, hend]
    omega
  have hnot : ¬ (q.snd.una ≤ s.info.ack ∧ q.snd.nxt < s.info.ack) :=
    fun hno ↦ BitVec.not_lt.mpr hle hno.2
  have htakes := h.takes
  cases hs : q.state <;> simp_all [passesAck, TcpState.takesText]

/-! ## Rounds -/

/-- `receive` makes room. -/
theorem Hearing.drain (h : Hearing x c p y d q) : ∃ y' q', Machine.Leads (Side.Next x) y y' ∧
    Took y d q y' q' ∧ q'.hist.rcvd = q.hist.rcvd ∧ q'.buf = [] := by
  by_cases hbuf : q.buf = []
  · exact ⟨y, q, .refl, .refl h.receiver, rfl, hbuf⟩
  have hsum := h.window
  have hwadd : wadd q.rcv.wnd (BitVec.ofNat 16 q.buf.length) = .ok 65535 := by
    have hlt : (q.rcv.wnd.toNat + (BitVec.ofNat 16 q.buf.length).toNat) < 2 ^ 16 := by
      rw [BitVec.toNat_ofNat]
      omega
    rw [wadd, if_pos hlt]
    congr 1
    bv_omega
  have hcall : receiveCall y.tcp d q.buf.length = .ok {
      tcp := y.tcp.set d { q with buf := [], rcv := { q.rcv with wnd := 65535 } }
      reply := .bytes q.buf } := by
    have htake : receiveCall y.tcp d q.buf.length = takeBytes y.tcp d q q.buf.length := by
      have htakes := h.takes
      unfold receiveCall
      simp only [h.receiver]
      cases hs : q.state <;> simp_all [TcpState.takesText]
    rw [htake, takeBytes, Nat.min_self, hwadd]
    simp [bind, Except.bind, pure, Except.pure]
  refine ⟨y.after calmEnv (.receive d q.buf.length) _, _,
    .step (e := (calmEnv, .receive d q.buf.length))
      ⟨calmEnv_sendsAll, by simp, by simp [begins], _, hcall, rfl⟩,
    ⟨rfl, ?_, ?_, rfl, rfl, rfl, rfl, id, id⟩, rfl, rfl⟩
  · exact List.append_nil _
  · exact List.subset_append_left _ _

/-- A chunk at the place where the receiver is. -/
theorem Hearing.reaches {chunks : List (List U8)} {n : Nat} (h : Hearing x c p y d q)
    (hbuf : q.buf = []) (hchunk : IsChunk p.iss chunks n s.flg s.seq s.data) (hne : s.data ≠ [])
    (hshort : s.data.length ≤ 65535) (hoff : Chunks.offset chunks n = q.hist.rcvd.length) :
    ReachesAck q s ∧ fits q s.info s.data := by
  obtain ⟨hnxt, hgot, hle⟩ := h.rcv_nxt
  have hpos := List.length_pos_iff.mpr hne
  have hno := h.noWrap
  rw [NoWrap] at hno
  have hwnd : q.rcv.wnd.toNat = 65535 := by
    have hsum := h.window
    rwa [hbuf] at hsum
  have hseq : q.rcv.nxt = s.seq := by
    rw [hchunk.seq, hoff]
    bv_omega
  have hacc := acceptable_next (s := s) hseq.symm (by omega) (by omega)
  refine ⟨⟨past_of_takesText h.takes, hacc, hchunk.rst, ?_, ?_⟩, hseq, by omega⟩
  · rw [hchunk.flg]
    decide
  · rw [hchunk.flg]
    decide

/-- **The next chunk is taken.** -/
theorem Hearing.more (h : Hearing x c p y d q) (hbuf : q.buf = [])
    (hmore : q.hist.rcvd ≠ x.queued) :
    ∃ y' q', Machine.Leads (Side.Next x) y y' ∧ Took y d q y' q' ∧
      q.hist.rcvd.length < q'.hist.rcvd.length := by
  obtain ⟨chunks, chunks', hx, hy, htx, hty⟩ := h.linked
  -- The chunk that comes next, and the segment that brings it.
  obtain ⟨n, hn⟩ := htx.rcvd d q h.receiver
    (hy.started_of_active h.receiver h.receiver_active) h.receiver_unfinished.2
  obtain ⟨data, hdata⟩ := Chunks.exists_next (fun heq ↦ hmore (hn.trans (heq.trans htx.queued.symm)))
  obtain ⟨s, hs, rfl, hchunk⟩ := htx.sent n data hdata
  have hne : s.data ≠ [] := fun hnil ↦ htx.nonempty (hnil ▸ List.mem_of_getElem? hdata)
  obtain ⟨hreach, hfits⟩ := h.reaches hbuf hchunk hne
    (htx.short _ (List.mem_of_getElem? hdata)) (by rw [hn, Chunks.offset])
  obtain ⟨hsrc, hdst⟩ := htx.ends s hs hchunk.rst hne c p h.sender h.active
  have hselect : pcbSelect y.tcp.pcbs s.dst s.src = some d := by
    rw [hsrc, hdst]
    exact h.select
  obtain ⟨q', es, hcall, harrived⟩ := segmentArrives_text calmEnv hselect h.receiver h.takes
    hreach (h.passes hs hchunk.rst hreach.ack)
  have hsees : SeesText q s := ⟨.inl h.takes, hne⟩
  have hnofin : ¬ SeesFin q s := by
    rintro ⟨hflag, -⟩
    rw [hchunk.flg] at hflag
    exact absurd hflag (by decide)
  obtain ⟨snd, queue, tw, backlog, -, hcases⟩ := harrived.eq
  obtain rfl : q' = { textBlock q s.info s.data with
      snd := snd, queue := queue, twTimer := tw, backlog := backlog,
      state := q.state.afterAck (s.ack = q.snd.nxt) } := by
    rcases hcases with ⟨hnot, -⟩ | ⟨-, -, -, heq⟩ | ⟨hnot, -⟩ | ⟨-, -, hyes, -⟩
    · exact absurd ⟨hsees, hfits⟩ hnot
    · exact heq
    · exact absurd hsees hnot
    · exact absurd hyes hnofin
  refine ⟨_, _, .step (Side.Next.hear calmEnv_sendsAll hs hreach.ack hcall),
    ⟨rfl, ?_, ?_, rfl, rfl, rfl, rfl, ?_, ?_⟩, ?_⟩
  · exact List.append_nil _
  · exact List.subset_append_left _ _
  · intro htakes
    change (q.state.afterAck _).takesText = true
    rw [takesText_afterAck, htakes, Bool.true_or]
  · intro hest
    change q.state.afterAck _ = .established
    rw [hest]
    rfl
  · change _ < (q.hist.rcvd ++ s.data).length
    rw [List.length_append]
    exact Nat.lt_add_of_pos_right (List.length_pos_iff.mpr hne)

/-- **All chunks are taken.** -/
theorem Hearing.all (h : Hearing x c p y d q) : ∃ y' q', Machine.Leads (Side.Next x) y y' ∧
    Took y d q y' q' ∧ q'.hist.rcvd = x.queued ∧ q'.buf = [] := by
  induction hn : x.queued.length - q.hist.rcvd.length using Nat.strong_induction_on
    generalizing y q with
  | _ n ih =>
      obtain ⟨y₁, q₁, hleads₁, htook₁, hrcvd₁, hbuf₁⟩ := h.drain
      have h₁ := h.took hleads₁ htook₁
      by_cases hall : q₁.hist.rcvd = x.queued
      · exact ⟨y₁, q₁, hleads₁, htook₁, hall, hbuf₁⟩
      obtain ⟨y₂, q₂, hleads₂, htook₂, hlt⟩ := h₁.more hbuf₁ hall
      have h₂ := h₁.took hleads₂ htook₂
      have hless : x.queued.length - q₂.hist.rcvd.length < n := by
        have hle := h₂.rcv_nxt.2.1
        rw [hrcvd₁] at hlt
        omega
      obtain ⟨y₃, q₃, hleads₃, htook₃, hall₃, hbuf₃⟩ := ih _ hless h₂ rfl
      exact ⟨y₃, q₃, (hleads₁.trans hleads₂).trans hleads₃, (htook₁.trans htook₂).trans htook₃,
        hall₃, hbuf₃⟩

/-- What has been received is in the buffer or was taken out of it. -/
theorem Hearing.taken (h : Hearing x c p y d q) : y.taken ++ q.buf = q.hist.rcvd := by
  obtain ⟨chunks, chunks', -, hy, -, -⟩ := h.linked
  exact (hy.rcv d q h.receiver (hy.started_of_active h.receiver h.receiver_active)).buf

/-! ## Acknowledgements -/

/-- An old SYN is answered with what has been received. -/
theorem Hearing.answers (h : Hearing x c p y d q) : ∃ y', Machine.Leads (Side.Next x) y y' ∧
    Took y d q y' q ∧ y'.taken = y.taken ∧ ackOf q ∈ y'.net := by
  obtain ⟨chunks, chunks', -, -, htx, -⟩ := h.linked
  obtain ⟨s, hs, hflg, hdata, hseq, hsrc, hdst⟩ := htx.syn c p h.sender h.active
  have hselect : pcbSelect y.tcp.pcbs s.dst s.src = some d := by
    rw [hsrc, hdst]
    exact h.select
  have hflags : flagIsset s.flg flgSyn = true ∧ flagIsset s.flg flgFin = false ∧
      flagIsset s.flg flgRst = false := by
    rcases hflg with hflg | hflg <;> rw [hflg] <;> decide
  have hlen : s.info.len = 1 := by simp [TcpSegment.info, hdata, hflags]
  have hacc : acceptable q s.info = false := by
    have hnot : ¬ q.rcv.nxt ≤ s.seq := by
      have hnxt := h.rcv_nxt.1
      rw [hseq, BitVec.le_def]
      omega
    have hend : s.info.seq + s.info.len - 1 = s.seq := by
      rw [hlen]
      exact BitVec.add_sub_cancel _ _
    have hlen' : s.info.len ≠ 0 := by
      rw [hlen]
      decide
    rw [acceptable, if_neg hlen']
    split
    · rfl
    · simp only [hend]
      exact decide_eq_false fun hin ↦ hin.elim (fun h ↦ hnot h.1) fun h ↦ hnot h.1
  have hcall := segmentArrives_again calmEnv hselect h.receiver (past_of_takesText h.takes) hacc
    hflags.2.2
  refine ⟨y.after calmEnv (.arrive s) _, .step (e := (calmEnv, .arrive s))
    ⟨calmEnv_sendsAll, ?_, ?_, _, step_arrive hcall, rfl⟩,
    ⟨?_, ?_, ?_, rfl, rfl, rfl, rfl, id, id⟩, ?_, ?_⟩
  · rintro _ ⟨⟩
    exact hs
  · -- The block that is selected does not listen.
    intro hnew
    simp only [begins, hselect, h.receiver, Option.any_some, Bool.and_eq_true,
      decide_eq_true_eq] at hnew
    exact absurd hnew.2.1 (past_of_takesText h.takes).2.1
  · exact (Took.refl h.receiver).tcp
  · exact List.append_nil _
  · exact List.subset_append_left _ _
  · exact List.append_nil _
  · exact List.mem_append_right _ (List.mem_singleton_self _)

/-- What a connection sends next, as a number that has not wrapped. -/
theorem Hearing.snd_nxt (h : Hearing x c p y d q) (hcan : p.state.canSend = true) :
    p.snd.nxt.toNat = p.iss.toNat + 1 + x.queued.length := by
  obtain ⟨chunks, chunks', hx, -, -, -⟩ := h.linked
  have hle := h.rcv_nxt.2.2
  have hno := h.noWrap
  rw [NoWrap] at hno
  rw [hx.nxt_eq h.sender h.active hcan]
  bv_omega

/-- A receiver that has received everything expects what the sender will send next. -/
theorem Hearing.met (h : Hearing x c p y d q) (hcan : p.state.canSend = true)
    (hall : q.hist.rcvd = x.queued) : q.rcv.nxt = p.snd.nxt := by
  apply BitVec.eq_of_toNat_eq
  rw [h.rcv_nxt.1, hall, h.snd_nxt hcan]

/-- **An acknowledgement settles** what is in flight, where each side has received everything. -/
theorem Hearing.settles (h : Hearing x c p y d q) (hp : p.state = .established)
    (hq : q.state = .established) (hbuf : q.buf = []) (hmem : ackOf p ∈ x.net)
    (hack : p.rcv.nxt = q.snd.nxt) (hall : q.hist.rcvd = x.queued) :
    ∃ y' q', Machine.Leads (Side.Next x) y y' ∧ Took y d q y' q' ∧ y'.taken = y.taken ∧
      q'.hist.rcvd = q.hist.rcvd ∧ q'.buf = q.buf ∧ q'.rcv = q.rcv ∧ q'.snd.nxt = q.snd.nxt ∧
      q'.snd.una = q'.snd.nxt := by
  by_cases hdone : q.snd.una = q.snd.nxt
  · exact ⟨y, q, .refl, .refl h.receiver, rfl, rfl, rfl, rfl, rfl, hdone⟩
  obtain ⟨chunks, chunks', hx, hy, -, -⟩ := h.linked
  have hnxt := h.met (by simp [hp, TcpState.canSend]) hall
  have hselect : pcbSelect y.tcp.pcbs (ackOf p).dst (ackOf p).src = some d := h.select
  obtain ⟨hrst, hsyn, hflag, hfin⟩ := ackOf_flags p
  have hacc : acceptable q (ackOf p).info = true := by
    have hwnd := h.window
    have hle := h.rcv_nxt
    have hno := h.noWrap
    rw [NoWrap] at hno
    rw [hbuf, List.length_nil, Nat.add_zero] at hwnd
    exact acceptable_next hnxt.symm (by omega) (by omega)
  have hreach : ReachesAck q (ackOf p) :=
    ⟨past_of_takesText h.takes, hacc, hrst, hsyn, hflag⟩
  have hnew : acksNew q (ackOf p).info := by
    obtain ⟨a, hsend⟩ := hy.sendInv h.receiver
    have hno := h.noWrap'
    rw [NoWrap] at hno
    obtain ⟨hnxt', huna⟩ := hsend.active h.receiver_active
    have hle := hsend.le
    refine ⟨by simp [hq], ?_, ?_⟩
    · change q.snd.una < p.rcv.nxt
      rw [hack]
      bv_omega
    · change p.rcv.nxt ≤ q.snd.nxt
      rw [hack]
      exact BitVec.le_refl _
  obtain ⟨q', es, hcall, harrived⟩ := segmentArrives_text calmEnv hselect h.receiver h.takes
    hreach (h.passes hmem hrst hflag)
  have hget : (y.tcp.set d q').get d = some q' := by rw [get_set h.receiver, if_pos rfl]
  obtain ⟨hsame, huna, -⟩ := segmentArrives_acks hselect h.receiver hreach hnew hcall hget
  obtain ⟨snd, queue, tw, backlog, -, hcases⟩ := harrived.eq
  have hnotext : ¬ SeesText q (ackOf p) := fun hsees ↦ hsees.2 rfl
  have hnofin : ¬ SeesFin q (ackOf p) := fun hsees ↦ absurd hsees.1 (by simp [hfin])
  obtain rfl : q' = { q with
      snd := snd, queue := queue, twTimer := tw, backlog := backlog,
      state := q.state.afterAck ((ackOf p).ack = q.snd.nxt) } := by
    rcases hcases with ⟨-, -, heq⟩ | ⟨hyes, -⟩ | ⟨-, hyes, -⟩ | ⟨hyes, -⟩
    · exact heq
    · exact absurd hyes hnotext
    · exact absurd hyes hnofin
    · exact absurd hyes hnotext
  have hstate : q.state.afterAck ((ackOf p).ack = q.snd.nxt) = .established := by
    rw [hq]
    rfl
  refine ⟨_, _, .step (Side.Next.hear calmEnv_sendsAll hmem hflag hcall),
    ⟨rfl, ?_, ?_, rfl, rfl, rfl, rfl, ?_, ?_⟩, ?_, rfl, rfl, rfl, hsame, ?_⟩
  · exact List.append_nil _
  · exact List.subset_append_left _ _
  · exact fun _ ↦ hstate ▸ rfl
  · exact fun _ ↦ hstate
  · exact List.append_nil _
  · rw [huna, hsame]
    exact hack

end

/-! ## Both directions -/

/-- An established connection, of which each side finds its block for the segments of the
other. -/
structure Talk (x : Side) (c : TcpDesc) (p : TcpPcb) (y : Side) (d : TcpDesc) (q : TcpPcb) :
    Prop where
  there : Hearing x c p y d q
  back : Hearing y d q x c p
  host : p.state = .established
  peer : q.state = .established

section

variable {x y y' : Side} {c d : TcpDesc} {p q q' : TcpPcb}

theorem Talk.symm (h : Talk x c p y d q) : Talk y d q x c p := ⟨h.back, h.there, h.peer, h.host⟩

/-- Either side may receive. -/
theorem Talk.took (h : Talk x c p y d q) (hleads : Machine.Leads (Side.Next x) y y')
    (ht : Took y d q y' q') : Talk x c p y' d q' where
  there := h.there.took hleads ht
  back := by
    have hthere := h.there.took hleads ht
    refine ⟨hthere.trails.symm, hthere.receiver, hthere.sender, ?_, hthere.receiver_active,
      hthere.receiver_unfinished.2, h.back.takes, hthere.noWrap', hthere.noWrap⟩
    rw [ht.localEndp, ht.remoteEndp]
    exact h.back.select
  host := h.host
  peer := ht.established h.peer

end

/-! ## Worlds -/

/-- One step of the world. -/
def World.Next (w : World) (label : Party × Env × Event) (w' : World) : Prop :=
  match label.1 with
  | .host => w'.peer = w.peer ∧ Side.Next w.peer w.host label.2 w'.host
  | .peer => w'.host = w.host ∧ Side.Next w.host w.peer label.2 w'.peer

/-- The worlds that are reached while `ip::output` refuses nothing: what is on the network there
has been sent. -/
def World.Unrefused : World → Prop := Machine.Reach (· = {}) World.Next

theorem World.Unrefused.reachable {w : World} (h : w.Unrefused) : w.Reachable := by
  refine Machine.Reach.mono ?_ h
  rintro w ⟨party, label⟩ w' hstep
  cases party with
  | host | peer => exact ⟨hstep.1, hstep.2.2⟩

theorem exists_unrefusedWorld (P : World → Bool) (labels : List (Party × Env × Event))
    (hall : ∀ label ∈ labels, Env.SendsAll label.2.1)
    (h : Machine.execTest World.act P {} labels = true) :
    ∃ w : World, w.Unrefused ∧ P w = true := by
  refine Machine.exists_reach_of_execTest_mem ?_ rfl h
  rintro ⟨party, env, ev⟩ hlabel w w' hstep
  have hsends := hall _ hlabel
  cases party with
  | host | peer =>
      obtain ⟨x, hx, rfl⟩ := Machine.exists_of_map_ok hstep
      exact ⟨rfl, hsends, Side.acts_of_act hx⟩

theorem World.leads_peer {x y y' : Side} (h : Machine.Leads (Side.Next x) y y') :
    Machine.Leads World.Next ⟨x, y⟩ ⟨x, y'⟩ := by
  induction h with
  | start heq => exact heq ▸ .refl
  | @next y₁ label y₂ _ hstep ih =>
      have hnext : World.Next ⟨x, y₁⟩ (.peer, label) ⟨x, y₂⟩ := ⟨rfl, hstep⟩
      exact ih.next hnext

theorem World.leads_host {x x' y : Side} (h : Machine.Leads (Side.Next y) x x') :
    Machine.Leads World.Next ⟨x, y⟩ ⟨x', y⟩ := by
  induction h with
  | start heq => exact heq ▸ .refl
  | @next x₁ label x₂ _ hstep ih =>
      have hnext : World.Next ⟨x₁, y⟩ (.host, label) ⟨x₂, y⟩ := ⟨rfl, hstep⟩
      exact ih.next hnext

/-- The connection is at rest: everything is delivered and acknowledged. -/
structure Settled (x : Side) (p : TcpPcb) (y : Side) (q : TcpPcb) : Prop where
  rcvd : q.hist.rcvd = x.queued
  buf : q.buf = []
  una : p.snd.una = p.snd.nxt

theorem Settled.taken {x y : Side} {c d : TcpDesc} {p q : TcpPcb} (hset : Settled x p y q)
    (h : Hearing x c p y d q) : y.taken = x.queued := by
  have htaken := h.taken
  rwa [hset.buf, List.append_nil, hset.rcvd] at htaken

/-- **Talk settles.** -/
theorem Talk.settles {x y : Side} {c d : TcpDesc} {p q : TcpPcb} (h : Talk x c p y d q) :
    ∃ x' p' y' q', Machine.Leads World.Next ⟨x, y⟩ ⟨x', y'⟩ ∧ Talk x' c p' y' d q' ∧
      Took x c p x' p' ∧ Took y d q y' q' ∧ Settled x' p' y' q' ∧ Settled y' q' x' p' := by
  have hcan : ∀ {r : TcpPcb}, r.state = .established → r.state.canSend = true :=
    fun hr ↦ hr ▸ rfl
  -- Each side receives everything.
  obtain ⟨y₁, q₁, hl₁, ht₁, hall₁, hbuf₁⟩ := h.there.all
  have h₁ := h.took hl₁ ht₁
  obtain ⟨x₂, p₂, hl₂, ht₂, hall₂, hbuf₂⟩ := h₁.back.all
  have h₂ := (h₁.symm.took hl₂ ht₂).symm
  -- The peer acknowledges it.
  obtain ⟨y₃, hl₃, ht₃, -, hmem₃⟩ := h₂.there.answers
  have h₃ := h₂.took hl₃ ht₃
  obtain ⟨x₄, p₄, hl₄, ht₄, -, hrcvd₄, hbuf₄, -, -, huna₄⟩ := h₃.back.settles h₃.peer h₃.host
    hbuf₂ hmem₃ (h₃.there.met (hcan h₃.host) (hall₁.trans ht₂.queued.symm))
    (hall₂.trans ht₃.queued.symm)
  have h₄ := (h₃.symm.took hl₄ ht₄).symm
  -- And so does the host.
  obtain ⟨x₅, hl₅, ht₅, -, hmem₅⟩ := h₄.back.answers
  have h₅ := (h₄.symm.took hl₅ ht₅).symm
  obtain ⟨y₆, q₆, hl₆, ht₆, -, hrcvd₆, hbuf₆, -, -, huna₆⟩ := h₅.there.settles h₅.host h₅.peer
    hbuf₁ hmem₅ (h₅.back.met (hcan h₅.peer) (hrcvd₄.trans (hall₂.trans ht₃.queued.symm)))
    (hall₁.trans (((ht₂.trans ht₄).trans ht₅).queued).symm)
  have h₆ := h₅.took hl₆ ht₆
  refine ⟨x₅, p₄, y₆, q₆, ?_, h₆, (ht₂.trans ht₄).trans ht₅, (ht₁.trans ht₃).trans ht₆, ?_, ?_⟩
  · exact ((((World.leads_peer hl₁).trans (World.leads_host hl₂)).trans
      (World.leads_peer hl₃)).trans (World.leads_host (hl₄.trans hl₅))).trans
        (World.leads_peer hl₆)
  · exact ⟨hrcvd₆.trans (hall₁.trans (((ht₂.trans ht₄).trans ht₅).queued).symm),
      hbuf₆.trans hbuf₁, huna₄⟩
  · exact ⟨hrcvd₄.trans (hall₂.trans ((ht₃.trans ht₆).queued).symm), hbuf₄.trans hbuf₂, huna₆⟩

section

variable {w : World} {c d : TcpDesc} {p q : TcpPcb}

/-- **Nothing is stuck**: in every world in which the block `p` of the host takes what the block
`q` of the peer sends, what the peer has queued can still be delivered, whatever was lost or
reordered so far.  The peer may have begun to close, and so may the host as long as its FIN has
not arrived. -/
theorem queued_delivered (h : w.Unrefused) (hp : w.host.tcp.get c = some p)
    (hq : w.peer.tcp.get d = some q)
    (hselect : pcbSelect w.host.tcp.pcbs q.remoteEndp q.localEndp = some c)
    (htakes : p.state.takesText = true) (hactive : q.state.isActive = true)
    (hopen : q.hist.fin = false) (hno : NoWrap p) (hno' : NoWrap q) :
    ∃ w', Machine.Leads World.Next w w' ∧ w'.peer = w.peer ∧ w'.host.taken = w.peer.queued := by
  have hhearing : Hearing w.peer d q w.host c p :=
    ⟨h.reachable.trails.symm, hq, hp, hselect, hactive, hopen, htakes, hno', hno⟩
  obtain ⟨x, p', hleads, htook, hall, hbuf⟩ := hhearing.all
  refine ⟨⟨x, w.peer⟩, World.leads_host hleads, rfl, ?_⟩
  have htaken := (hhearing.took hleads htook).taken
  rw [hbuf, List.append_nil, hall] at htaken
  exact htaken

/-- The tests that a connection is established and that nothing has wrapped. -/
def talking (w : World) (c d : TcpDesc) : Bool :=
  (w.host.tcp.get c).any fun p ↦ (w.peer.tcp.get d).any fun q ↦
    p.state = .established && q.state = .established &&
    pcbSelect w.peer.tcp.pcbs p.remoteEndp p.localEndp = some d &&
    pcbSelect w.host.tcp.pcbs q.remoteEndp q.localEndp = some c &&
    decide (p.iss.toNat + p.hist.sent.length + 65536 < 2 ^ 32) &&
    decide (q.iss.toNat + q.hist.sent.length + 65536 < 2 ^ 32)

theorem sendsAll_reorderedRun : ∀ label ∈ reorderedRun, Env.SendsAll label.2.1 := by
  simp [reorderedRun, Env.SendsAll, calmEnv, routedEnv]

/-- The two octets of `reorderedRun` that arrived too early still get through. -/
theorem queued_delivered_reordered : ∃ w w' : World, w.Unrefused ∧ w.host.taken = [1, 2, 3] ∧
    w.peer.queued = [1, 2, 3, 4, 5] ∧ Machine.Leads World.Next w w' ∧
      w'.host.taken = [1, 2, 3, 4, 5] := by
  obtain ⟨w, hreach, htest⟩ := exists_unrefusedWorld
    (fun w ↦ w.peer.queued = [1, 2, 3, 4, 5] && w.host.taken = [1, 2, 3] && talking w 0 0)
    reorderedRun sendsAll_reorderedRun (by decide +kernel)
  simp only [Bool.and_eq_true, decide_eq_true_eq, talking, Option.any_eq_true] at htest
  obtain ⟨⟨hqueued, htaken⟩, p, hp, q, hq, ⟨⟨⟨⟨hhost, hpeer⟩, -⟩, hselect⟩, hno⟩, hno'⟩ := htest
  have hopen : q.hist.fin = false := by
    obtain ⟨iss, iss', -, hlink⟩ := hreach.reachable.linked
    rw [(hlink.rcvInv hq).fin (by rw [hpeer]; rfl), hpeer]
    rfl
  obtain ⟨w', hleads, -, hall⟩ := queued_delivered hreach hp hq hselect (by rw [hhost]; rfl)
    (by rw [hpeer]; rfl) hopen hno hno'
  exact ⟨w, w', hreach, htaken, hqueued, hleads, hall.trans hqueued⟩

theorem World.Reachable.talk (h : w.Reachable) (hp : w.host.tcp.get c = some p)
    (hq : w.peer.tcp.get d = some q) (hhost : p.state = .established)
    (hpeer : q.state = .established)
    (hthere : pcbSelect w.peer.tcp.pcbs p.remoteEndp p.localEndp = some d)
    (hback : pcbSelect w.host.tcp.pcbs q.remoteEndp q.localEndp = some c)
    (hno : NoWrap p) (hno' : NoWrap q) : Talk w.host c p w.peer d q := by
  obtain ⟨iss, iss', hlink, hlink'⟩ := h.linked
  have hopen : p.hist.fin = false := by
    rw [(hlink.rcvInv hp).fin (by rw [hhost]; rfl), hhost]
    rfl
  have hopen' : q.hist.fin = false := by
    rw [(hlink'.rcvInv hq).fin (by rw [hpeer]; rfl), hpeer]
    rfl
  refine ⟨⟨h.trails, hp, hq, hthere, by rw [hhost]; rfl, hopen, by rw [hpeer]; rfl, hno, hno'⟩,
    ⟨h.trails.symm, hq, hp, hback, by rw [hpeer]; rfl, hopen', by rw [hhost]; rfl, hno', hno⟩,
    hhost, hpeer⟩

/-- **Connections settle**: in every world with an established connection, everything that is
queued on either side can still be delivered and acknowledged, and then nothing is left to send
again. -/
theorem connection_settles (h : w.Unrefused) (hp : w.host.tcp.get c = some p)
    (hq : w.peer.tcp.get d = some q) (hhost : p.state = .established)
    (hpeer : q.state = .established)
    (hthere : pcbSelect w.peer.tcp.pcbs p.remoteEndp p.localEndp = some d)
    (hback : pcbSelect w.host.tcp.pcbs q.remoteEndp q.localEndp = some c)
    (hno : NoWrap p) (hno' : NoWrap q) :
    ∃ w' p' q', Machine.Leads World.Next w w' ∧ w'.host.tcp.get c = some p' ∧
      w'.peer.tcp.get d = some q' ∧ p'.state = .established ∧ q'.state = .established ∧
      w'.host.taken = w.peer.queued ∧ w'.peer.taken = w.host.queued ∧
      p'.snd.una = p'.snd.nxt ∧ q'.snd.una = q'.snd.nxt ∧ p'.queue = [] ∧ q'.queue = [] := by
  obtain ⟨x, p', y, q', hleads, htalk, htook, htook', hset, hset'⟩ :=
    (h.reachable.talk hp hq hhost hpeer hthere hback hno hno').settles
  obtain ⟨chunks, chunks', -, -, htrail, htrail'⟩ := htalk.there.linked
  refine ⟨⟨x, y⟩, p', q', hleads, htalk.back.receiver, htalk.there.receiver, htalk.host, htalk.peer,
    (hset'.taken htalk.back).trans htook'.queued, (hset.taken htalk.there).trans htook.queued,
    hset.una, hset'.una, ?_, ?_⟩
  · refine (htrail.order c p' htalk.there.sender htalk.there.active).queue_eq_nil ?_
    simp [inFlight, hset.una]
  · refine (htrail'.order d q' htalk.back.sender htalk.back.active).queue_eq_nil ?_
    simp [inFlight, hset'.una]

/-- The connection of `reorderedRun`. -/
theorem connection_settles_reordered : ∃ w w' : World, w.Unrefused ∧ w.host.taken = [1, 2, 3] ∧
    Machine.Leads World.Next w w' ∧ w'.host.taken = [1, 2, 3, 4, 5] ∧
      ∃ q', w'.peer.tcp.get 0 = some q' ∧ q'.queue = [] := by
  obtain ⟨w, hreach, htest⟩ := exists_unrefusedWorld
    (fun w ↦ w.peer.queued = [1, 2, 3, 4, 5] && w.host.taken = [1, 2, 3] && talking w 0 0)
    reorderedRun sendsAll_reorderedRun (by decide +kernel)
  simp only [Bool.and_eq_true, decide_eq_true_eq, talking, Option.any_eq_true] at htest
  obtain ⟨⟨hqueued, htaken⟩, p, hp, q, hq, ⟨⟨⟨⟨hhost, hpeer⟩, hthere⟩, hback⟩, hno⟩, hno'⟩ := htest
  obtain ⟨w', p', q', hleads, -, hq', -, -, hall, -, -, -, -, hempty⟩ :=
    connection_settles hreach hp hq hhost hpeer hthere hback hno hno'
  exact ⟨w, w', hreach, htaken, hleads, hall.trans hqueued, q', hq', hempty⟩

end

end Microps.Tcp
