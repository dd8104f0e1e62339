import Microps.Tcp.Stream

/-!
# End to end

The invariant `Link` holds between the two sides of every reachable world.  A step of
one side is either one of a connection that has begun, which `Link.step_blocks` covers
block by block, or begins the connection.  Both are seen from the side that takes the
step and from its peer.
-/

namespace Microps.Tcp

section

variable {iss iss' : U32} {x y : Side} {env : Env} {ev : Event} {reply : Reply} {d : TcpDesc}
  {p p' : TcpPcb} {s : TcpSegment} {queued taken : List U8}

/-! ## One step of the world -/

theorem RcvSide.peer {y' : Side} (h : RcvSide iss taken y p) (hbegun : y.begun = true → y'.begun = true)
    (hqueued : y.queued <+: y'.queued) : RcvSide iss taken y' p :=
  ⟨h.buf, h.opening, h.unsynced, fun hs ↦ hbegun (h.begun hs), h.count, h.got.trans hqueued⟩

/-- Outside a connection nothing but an old SYN is sent. -/
theorem Fresh.sends (h : Fresh iss p) (hsends : Sends p s) :
    p.queue ≠ [] ∧ flagIsset s.flg flgAck = false ∧ s.seq = iss ∧ s.data = [] := by
  rcases hsends with ⟨h₁, h₂, -⟩ | ⟨e, he, hflg, hseq, hdata, -⟩
  · rcases h.state with hs | hs
    · exact absurd hs h₁
    · exact absurd hs h₂
  · obtain ⟨hflg', hseq', hdata'⟩ := h.queue e he
    refine ⟨List.ne_nil_of_mem he, ?_, hseq.trans hseq', hdata.trans hdata'⟩
    rw [hflg, hflg']
    decide

/-- A connection sends what belongs to its stream. -/
theorem SndSide.sends (h : SndSide iss queued p) (hsends : Sends p s) :
    Carries iss queued s.flg s.seq s.data := by
  rcases hsends with ⟨-, -, -, hsyn, hdata, -⟩ | ⟨e, he, hflg, hseq, hdata, -⟩
  · exact .of_empty hsyn hdata
  · rw [hflg, hseq, hdata]
    exact (h.queue e he).1

/-- A connection acknowledges what it has received. -/
theorem RcvSide.sends (h : RcvSide iss' taken y p) (hsnd : SndSide iss queued p)
    (hinv : RcvInv False p) (hsends : Sends p s) : AcksReceived iss' p s := by
  intro _ hack hfin
  have hsynced : p.hist.synced = true := by
    rcases hsends with ⟨h₁, h₂, h₃, -⟩ | ⟨e, he, hflg, -⟩
    · exact hinv.synced ((TcpState.gotSyn_iff _).mpr ⟨h₁, h₂, h₃⟩)
    · by_contra hnot
      rw [Bool.not_eq_true] at hnot
      exact absurd ((hsnd.queue e he).2 hnot) (by simp [← hflg, hack])
  have hnxt : s.ack = p.rcv.nxt := by
    rcases hsends with ⟨-, -, -, -, -, hnxt⟩ | ⟨e, -, -, -, -, hnxt⟩
    · exact hnxt hfin
    · exact hnxt
  refine ⟨hsynced, p.hist.rcvd.length, Nat.le_refl _, ?_⟩
  apply BitVec.eq_of_toNat_eq
  have hcount := h.count hsynced hfin
  have hlt := p.rcv.nxt.isLt
  rw [hnxt, hcount, BitVec.toNat_add (iss' + 1), BitVec.toNat_ofNat]
  omega

theorem AcksReceived.mono (h : AcksReceived iss p s)
    (hsynced : p.hist.synced = true → p'.hist.synced = true)
    (hrcvd : p.hist.rcvd <+: p'.hist.rcvd) (hfin : p.hist.fin = true → p'.hist.fin = true) :
    AcksReceived iss p' s := by
  intro hrst hack hnot
  have hf : p.hist.fin = false := by
    by_contra hne
    rw [Bool.not_eq_false] at hne
    exact absurd ((hfin hne).symm.trans hnot) (by simp)
  obtain ⟨hs, m, hm, heq⟩ := h hrst hack hf
  exact ⟨hsynced hs, m, Nat.le_trans hm hrcvd.length_le, heq⟩

theorem Side.reach_after {out : Outcome} (hreach : Reachable x.tcp)
    (hstep : step env x.tcp ev = .ok out) : Reachable (x.after env ev out).tcp :=
  Machine.Reach.next hreach (e := (env, ev)) ⟨trivial, out, hstep, rfl⟩

/-- What is acknowledged and what is in flight make up what has been queued. -/
theorem SndSide.length_le {a : Nat} (h : SndSide iss queued p) (hinv : SendInv p a) :
    1 + queued.length ≤ acked p + 65536 := by
  have hlen := h.le
  have hbound := hinv.bound
  rw [hinv.acked_eq]
  omega

/-- What is put into the logs comes from a connection. -/
theorem Link.logs_of_move {out : Outcome} (hx : Link iss iss' x y) (hy : Link iss' iss y x)
    (hnew : begins env x.tcp ev = false) (hnet : ∀ s, ev = .arrive s → s ∈ y.net)
    (hmove : Move env x.tcp ev out) : (queuedBy ev out.reply = [] ∧ takenBy out.reply = []) ∨
      ∃ c r', out.tcp.get c = some r' ∧ Started r' := by
  by_cases h : queuedBy ev out.reply = [] ∧ takenBy out.reply = []
  · exact .inl h
  · obtain ⟨c, r, r', es, hr, hblock, hout, h₁, h₂⟩ := hmove.logs h
    refine .inr ⟨c, r', by rw [hout, get_set hr, if_pos rfl], ?_⟩
    exact (hblock.inside hx hy hr (hx.started hr h₁ h₂) hnew hnet).started

/-- What is sent comes from a block before or after the step. -/
theorem Move.sends {tcp : Tcp} {out : Outcome} (h : Move env tcp ev out)
    (hnew : begins env tcp ev = false) (hs : .emit s ∈ out.effects)
    (hrst : flagIsset s.flg flgRst = false) :
    ∃ c r, (tcp.get c = some r ∨ out.tcp.get c = some r) ∧ Sends r s := by
  rcases h.emits hs with h | ⟨h, -⟩ | h
  · exact absurd h (by simp [hrst])
  · exact absurd h (by simp [hnew])
  · exact h

/-- **The mover**, when it does not begin a connection. -/
theorem Link.step_self {out : Outcome} (hx : Link iss iss' x y) (hy : Link iss' iss y x)
    (hnew : begins env x.tcp ev = false) (hnet : ∀ s, ev = .arrive s → s ∈ y.net)
    (hstep : step env x.tcp ev = .ok out) : Link iss iss' (x.after env ev out) y := by
  have hmove := step_move hstep
  have hreach := Side.reach_after hx.reach hstep
  have hbegun : (x.after env ev out).begun = x.begun := by simp [Side.after, hnew]
  have hblocks := fun d p' (hp' : out.tcp.get d = some p') ↦
    hx.step_blocks hy hnew hnet hmove hp'
  have hinside : ∀ d p', out.tcp.get d = some p' → Started p' → ∃ p, x.tcp.get d = some p ∧
      Started p ∧ Inside iss iss' (x.queued ++ queuedBy ev out.reply)
        (x.taken ++ takenBy out.reply) y p p' := by
    intro d p' hp' hstarted
    rcases hblocks d p' hp' with h | ⟨hnot, -⟩
    · exact h
    · exact absurd hstarted hnot
  have hlogs := hx.logs_of_move hy hnew hnet hmove
  constructor
  case reach => exact hreach
  case idle =>
    intro hb
    rw [hbegun] at hb
    have hidle := hx.idle hb
    have hout : ∀ d p', out.tcp.get d = some p' → ¬ Started p' ∧ p'.queue = [] := by
      intro d p' hp'
      rcases hblocks d p' hp' with ⟨p, hp, hstarted, -⟩ | ⟨hnot, -, hqueue⟩
      · exact absurd hstarted (hidle.blocks d p hp).1
      · exact ⟨hnot, hqueue hb⟩
    have hnone : queuedBy ev out.reply = [] ∧ takenBy out.reply = [] := by
      rcases hlogs with h | ⟨c, r', hr', hstarted⟩
      · exact h
      · exact absurd hstarted (hout c r' hr').1
    refine ⟨?_, ?_, ?_, hout⟩
    · simp [Side.after, hidle.queued, hnone.1]
    · simp [Side.after, hidle.taken, hnone.2]
    · intro s hs
      rcases List.mem_append.mp hs with hs | hs
      · exact hidle.net s hs
      · by_contra hrst
        rw [Bool.not_eq_true] at hrst
        obtain ⟨c, r, hr, hsends⟩ := hmove.sends hnew (mem_emitted.mp hs) hrst
        rcases hr with hr | hr
        · obtain ⟨hnot, hqueue⟩ := hidle.blocks c r hr
          exact ((hx.fresh c r hr hnot).sends hsends).1 hqueue
        · rcases hblocks c r hr with ⟨p, hp, hstarted, -⟩ | ⟨-, hfresh, hqueue⟩
          · exact absurd hstarted (hidle.blocks c p hp).1
          · exact (hfresh.sends hsends).1 (hqueue hb)
  case unique =>
    intro d d' p' q' hp' hq' hs hs'
    obtain ⟨p, hp, hstarted, -⟩ := hinside d p' hp' hs
    obtain ⟨q, hq, hstarted', -⟩ := hinside d' q' hq' hs'
    exact hx.unique d d' p q hp hq hstarted hstarted'
  case fresh =>
    intro d p' hp' hnot
    rcases hblocks d p' hp' with ⟨p, -, -, hin⟩ | ⟨-, hfresh, -⟩
    · exact absurd hin.started hnot
    · exact hfresh
  case snd =>
    intro d p' hp' hs
    obtain ⟨p, -, -, hin⟩ := hinside d p' hp' hs
    exact hin.snd
  case rcv =>
    intro d p' hp' hs
    obtain ⟨p, -, -, hin⟩ := hinside d p' hp' hs
    exact hin.rcv
  case acked =>
    intro d p' hp' hs
    obtain ⟨p, -, -, hin⟩ := hinside d p' hp' hs
    exact hin.acked
  case net =>
    intro s hs hrst
    rcases List.mem_append.mp hs with hs | hs
    · exact (hx.net s hs hrst).append _
    · obtain ⟨c, r, hr, hsends⟩ := hmove.sends hnew (mem_emitted.mp hs) hrst
      rcases hr with hr | hr
      · by_cases hstarted : Started r
        · exact ((hx.snd c r hr hstarted).sends hsends).append _
        · obtain ⟨-, -, hseq, hdata⟩ := (hx.fresh c r hr hstarted).sends hsends
          exact .of_syn hseq hdata
      · rcases hblocks c r hr with ⟨p, -, -, hin⟩ | ⟨-, hfresh, -⟩
        · exact hin.snd.sends hsends
        · obtain ⟨-, -, hseq, hdata⟩ := hfresh.sends hsends
          exact .of_syn hseq hdata
  case acks =>
    intro s hs d p' hp' hstarted'
    obtain ⟨p, hp, hstarted, hin⟩ := hinside d p' hp' hstarted'
    rcases List.mem_append.mp hs with hs | hs
    · exact (hx.acks s hs d p hp hstarted).mono hin.synced hin.rcvd hin.fin
    · intro hrst hack hfin
      obtain ⟨c, r, hr, hsends⟩ := hmove.sends hnew (mem_emitted.mp hs) hrst
      rcases hr with hr | hr
      · by_cases hstartedr : Started r
        · obtain rfl := hx.unique c d r p hr hp hstartedr hstarted
          obtain rfl : r = p := by simpa using hr.symm.trans hp
          have hacks : AcksReceived iss' r s :=
            (hx.rcv c r hr hstarted).sends (hx.snd c r hr hstarted) (hx.rcvInv hr) hsends
          exact hacks.mono hin.synced hin.rcvd hin.fin hrst hack hfin
        · exact absurd ((hx.fresh c r hr hstartedr).sends hsends).2.1 (by simp [hack])
      · rcases hblocks c r hr with ⟨q, hq, hstartedq, hinq⟩ | ⟨-, hfresh, -⟩
        · obtain rfl := hx.unique c d q p hq hp hstartedq hstarted
          obtain rfl : r = p' := by simpa using hr.symm.trans hp'
          exact hinq.rcv.sends hinq.snd (ReachableWhen.rcvInv hreach hr) hsends hrst hack hfin
        · exact absurd (hfresh.sends hsends).2.1 (by simp [hack])
  case taken =>
    rcases hlogs with ⟨-, hnone⟩ | ⟨c, r', hr', hstarted⟩
    · simp only [Side.after, hnone, List.append_nil]
      exact hx.taken
    · obtain ⟨p, -, -, hin⟩ := hinside c r' hr' hstarted
      have hbuf := hin.rcv.buf
      exact List.IsPrefix.trans ⟨r'.buf, hbuf⟩ hin.rcv.got
  case room =>
    intro c q hq hstartedq hfin
    rcases hlogs with ⟨hnone, -⟩ | ⟨e, r', hr', hstarted⟩
    · simp only [Side.after, hnone, List.append_nil]
      exact hx.room c q hq hstartedq hfin
    · obtain ⟨p, -, -, hin⟩ := hinside e r' hr' hstarted
      obtain ⟨a, hinv⟩ := ReachableWhen.sendInv hreach hr'
      have hle := hin.acked.le c q hq hstartedq hfin
      have hlen := hin.snd.length_le hinv
      change (x.queued ++ queuedBy ev out.reply).length ≤ _
      omega
  case start =>
    intro hb
    rcases hlogs with ⟨hnone, -⟩ | ⟨e, r', hr', hstarted⟩
    · simp only [Side.after, hnone, List.append_nil]
      exact hx.start hb
    · obtain ⟨p, -, -, hin⟩ := hinside e r' hr' hstarted
      obtain ⟨a, hinv⟩ := ReachableWhen.sendInv hreach hr'
      have hzero := hin.acked.zero hb
      have hlen := hin.snd.length_le hinv
      change (x.queued ++ queuedBy ev out.reply).length ≤ _
      omega

/-- **The peer of the mover**, when the mover does not begin a connection. -/
theorem Link.step_peer {out : Outcome} (hx : Link iss iss' x y) (hy : Link iss' iss y x)
    (hnew : begins env x.tcp ev = false) (hnet : ∀ s, ev = .arrive s → s ∈ y.net)
    (hstep : step env x.tcp ev = .ok out) : Link iss' iss y (x.after env ev out) := by
  have hmove := step_move hstep
  have hbegun : (x.after env ev out).begun = x.begun := by simp [Side.after, hnew]
  have hqueued : x.queued <+: (x.after env ev out).queued := List.prefix_append _ _
  -- The connection of the mover was there before the step and has received less.
  have hinside : ∀ d p', out.tcp.get d = some p' → Started p' → p'.hist.fin = false →
      ∃ p, x.tcp.get d = some p ∧ Started p ∧ p.hist.fin = false ∧
        p.hist.rcvd.length ≤ p'.hist.rcvd.length := by
    intro d p' hp' hstarted hfin
    rcases hx.step_blocks hy hnew hnet hmove hp' with ⟨p, hp, hs, hin⟩ | ⟨hnot, -⟩
    · refine ⟨p, hp, hs, ?_, hin.rcvd.length_le⟩
      by_contra hne
      rw [Bool.not_eq_false] at hne
      exact absurd ((hin.fin hne).symm.trans hfin) (by simp)
    · exact absurd hstarted hnot
  constructor
  case reach => exact hy.reach
  case idle => exact hy.idle
  case unique => exact hy.unique
  case fresh => exact hy.fresh
  case snd => exact hy.snd
  case rcv => exact fun d q hq hs ↦ (hy.rcv d q hq hs).peer (fun h ↦ hbegun.trans h) hqueued
  case acked =>
    intro d q hq hs
    refine ⟨fun c p' hp' hstarted hfin ↦ ?_, fun hb ↦ (hy.acked d q hq hs).zero (hbegun.symm.trans hb)⟩
    obtain ⟨p, hp, hstarted, hfin, hlen⟩ := hinside c p' hp' hstarted hfin
    have hle := (hy.acked d q hq hs).le c p hp hstarted hfin
    omega
  case net => exact hy.net
  case acks => exact hy.acks
  case taken => exact hy.taken.trans hqueued
  case room =>
    intro c p' hp' hstarted hfin
    obtain ⟨p, hp, hstarted, hfin, hlen⟩ := hinside c p' hp' hstarted hfin
    have hle := hy.room c p hp hstarted hfin
    omega
  case start => exact fun hb ↦ hy.start (hbegun.symm.trans hb)

/-! ## Beginning a connection -/

/-- The block of a connection that has just begun. -/
structure Begun (iss iss' : U32) (y : Side) (p : TcpPcb) : Prop where
  started : Started p
  snd : SndSide iss [] p
  rcv : RcvSide iss' [] y p
  rcvd : p.hist.rcvd = []
  acked : Tcp.acked p = 0

/-- An active open. -/
theorem Begun.synSent (hbuf : p.buf = []) (hqueue : p.queue = []) (l r : IpEndp) :
    Begun env.random32 iss' y (Tcp.synSent (sendSyn env p l r).1) := by
  rw [sendSyn_eq, hqueue]
  refine ⟨by simp [Started, Tcp.synSent], ⟨rfl, Nat.le_refl _, fun _ ↦ rfl, ?_⟩, ?_, rfl, ?_⟩
  · intro e he
    obtain rfl : e = _ := by simpa [Tcp.synSent] using he
    exact ⟨.of_syn rfl rfl, fun _ ↦ show flagIsset flgSyn flgAck = false by decide⟩
  · refine ⟨hbuf, fun _ ↦ rfl, fun _ ↦ ⟨rfl, rfl⟩, ?_, ?_, List.nil_prefix⟩
    · exact fun h ↦ absurd h (by simp [Tcp.synSent])
    · exact fun h ↦ absurd h (by simp [Tcp.synSent])
  · simp only [Tcp.acked, Tcp.synSent, List.length_singleton]
    bv_omega

/-- A passive open, on a SYN from the peer. -/
theorem Begun.passive (hbuf : p.buf = []) (hqueue : p.queue = []) (hseq : s.seq = iss')
    (hbegun : y.begun = true) :
    Begun env.random32 iss' y (passiveOpen env p s.info s.dst s.src).1 := by
  rw [passiveOpen_eq, hqueue]
  refine ⟨by simp [Started], ⟨rfl, Nat.le_refl _, fun _ ↦ rfl, ?_⟩, ?_, rfl, ?_⟩
  · intro e he
    obtain rfl : e = _ := by simpa using he
    exact ⟨.of_syn rfl rfl, fun h ↦ absurd h (by simp)⟩
  · refine ⟨hbuf, fun h ↦ absurd h (by simp), fun _ ↦ ⟨rfl, rfl⟩, fun _ ↦ hbegun, ?_,
      List.nil_prefix⟩
    intro _ _
    rw [← hseq]
    rfl
  · simp only [Tcp.acked, List.length_singleton]
    bv_omega

/-- What a segment with which a connection can begin says. -/
def SaysIss (iss : U32) (y : Side) (ev : Event) : Prop :=
  ∀ s, ev = .arrive s → flagIsset s.flg flgRst = false → flagIsset s.flg flgSyn = true →
    s.seq = iss ∧ y.begun = true

/-- A block step that may begin a connection begins it in the slot that the event names,
or leaves the block fresh. -/
theorem BlockStep.begins {es : List Effect} (h : BlockStep env tcp d ev p es reply p')
    (hnew : Tcp.begins env tcp ev = true) (hnot : ¬ Started p) (hfresh : Fresh env.random32 p)
    (hqueue : p.queue = []) (hsyn : SaysIss iss' y ev) :
    ((∃ r, ev = .connectCall d r) ∨ ∃ s, ev = .arrive s ∧
      pcbSelect tcp.pcbs s.dst s.src = some d) ∧ Begun env.random32 iss' y p' ∨
    ¬ Started p' ∧ Fresh env.random32 p' := by
  cases h with
  | syn l r _ _ => exact .inl ⟨.inl ⟨r, rfl⟩, .synSent hfresh.buf hqueue l r⟩
  | synFails l r _ _ =>
      rw [sendSyn_eq, hqueue]
      refine .inr ⟨hnot, .inl rfl, hfresh.buf, ?_⟩
      intro e he
      obtain rfl : e = _ := by simpa using he
      exact ⟨rfl, rfl, rfl⟩
  | passive s hselect _ _ hrst _ hflag =>
      obtain ⟨hseq, hbegun⟩ := hsyn s rfl hrst hflag
      exact .inl ⟨.inr ⟨s, rfl, hselect⟩, .passive hfresh.buf hqueue hseq hbegun⟩
  | synSent s acceptable _ hs _ _ _ => rcases hfresh.state with h | h <;> simp [h] at hs
  | _ => exact absurd hnew (by simp [Tcp.begins])

theorem Birth.begins {task : TaskId} {es : List Effect}
    (h : Birth env tcp d task ev es reply p) (hnew : Tcp.begins env tcp ev = true)
    (hsyn : SaysIss iss' y ev) : Begun env.random32 iss' y p := by
  cases h with
  | socket | listen l r => exact absurd hnew (by simp [Tcp.begins])
  | syn l l' r _ _ => exact .synSent rfl rfl l' r
  | child s l q child _ _ _ _ _ hrst _ hflag hchild =>
      obtain ⟨hseq, hbegun⟩ := hsyn s rfl hrst hflag
      rw [hchild]
      exact .passive rfl rfl hseq hbegun

/-- **One step of a side** that begins a connection, block by block.  The connection is
in the slot that the event names, or in the one that was allocated. -/
theorem Link.begin_blocks {out : Outcome} (hx : Link iss iss' x y) (hy : Link iss' iss y x)
    (hnew : begins env x.tcp ev = true) (hidle : Idle x)
    (hnet : ∀ s, ev = .arrive s → s ∈ y.net) (hmove : Move env x.tcp ev out) :
    ∃ c, ∀ d p', out.tcp.get d = some p' → d = c ∧ Begun env.random32 iss' y p' ∨
      ¬ Started p' ∧ Fresh env.random32 p' := by
  have hsyn : SaysIss iss' y ev := by
    intro s hev hrst hflag
    exact ⟨((hy.net s (hnet s hev) hrst).syn hflag).1, hy.begun_of_net (hnet s hev) hrst⟩
  have hkeep : ∀ d p, x.tcp.get d = some p → ¬ Started p ∧ Fresh env.random32 p := by
    intro d p hp
    obtain ⟨hnot, hqueue⟩ := hidle.blocks d p hp
    have hfresh := hx.fresh d p hp hnot
    exact ⟨hnot, hfresh.state, hfresh.buf, by simp [hqueue]⟩
  rcases hmove.blocks with ⟨-, hblocks⟩ | ⟨c, q, tcp', halloc, -, hbirth, hget⟩
  · -- The slot that the event names, if it names one.
    obtain ⟨c, hc⟩ : ∃ c, ∀ d, ((∃ r, ev = .connectCall d r) ∨ ∃ s, ev = .arrive s ∧
        pcbSelect x.tcp.pcbs s.dst s.src = some d) → d = c := by
      cases ev with
      | connectCall d r =>
          refine ⟨d, ?_⟩
          rintro d' (⟨r', h⟩ | ⟨s, h, -⟩)
          · cases h
            rfl
          · exact absurd h (by simp)
      | arrive s =>
          refine ⟨(pcbSelect x.tcp.pcbs s.dst s.src).getD 0, ?_⟩
          rintro d' (⟨r', h⟩ | ⟨s', h, hselect⟩)
          · exact absurd h (by simp)
          · cases h
            simp [hselect]
      | _ => exact ⟨0, by rintro d' (⟨r', h⟩ | ⟨s', h, -⟩) <;> exact absurd h (by simp)⟩
    refine ⟨c, fun d p' hp' ↦ ?_⟩
    obtain ⟨p, hp, hevolve⟩ := hblocks d p' hp'
    obtain ⟨hnot, hfresh⟩ := hkeep d p hp
    have hqueue := (hidle.blocks d p hp).2
    cases hevolve with
    | keep backlog mss accepted _ => exact .inr ⟨hnot, hfresh.state, hfresh.buf, hfresh.queue⟩
    | arrived s _ hreach _ =>
        rcases hfresh.state with hs | hs
        · exact absurd hs hreach.state.1
        · exact absurd hs hreach.state.2.1
    | tick => exact absurd hnew (by simp [begins])
    | block hblock =>
        rcases hblock.begins hnew hnot hfresh hqueue hsyn with ⟨hnamed, hbegun⟩ | h
        · exact .inl ⟨hc d hnamed, hbegun⟩
        · exact .inr h
  · refine ⟨c, fun d p' hp' ↦ ?_⟩
    rw [hget] at hp'
    split at hp'
    · next hd =>
      subst hd
      cases hp'
      exact .inl ⟨rfl, hbirth.begins hnew hsyn⟩
    · exact .inr (hkeep d p' hp')

/-- A step that begins a connection puts nothing into the logs. -/
theorem Link.begin_logs {out : Outcome} (hx : Link iss iss' x y) (hidle : Idle x)
    (hmove : Move env x.tcp ev out) : queuedBy ev out.reply = [] ∧ takenBy out.reply = [] := by
  by_contra hlogs
  obtain ⟨c, r, r', es, hr, -, -, h₁, h₂⟩ := hmove.logs hlogs
  exact (hidle.blocks c r hr).1 (hx.started hr h₁ h₂)

theorem Link.begin_self {out : Outcome} (hx : Link iss iss' x y) (hy : Link iss' iss y x)
    (hnew : begins env x.tcp ev = true) (hidle : Idle x)
    (hnet : ∀ s, ev = .arrive s → s ∈ y.net) (hstep : step env x.tcp ev = .ok out) :
    Link env.random32 iss' (x.after env ev out) y := by
  have hmove := step_move hstep
  have hreach := Side.reach_after hx.reach hstep
  obtain ⟨c, hblocks⟩ := hx.begin_blocks hy hnew hidle hnet hmove
  obtain ⟨hnoqueue, hnotake⟩ := hx.begin_logs hidle hmove
  have hqueued : (x.after env ev out).queued = [] := by simp [Side.after, hidle.queued, hnoqueue]
  have htaken : (x.after env ev out).taken = [] := by simp [Side.after, hidle.taken, hnotake]
  have hbegun : ∀ d p', out.tcp.get d = some p' → Started p' →
      d = c ∧ Begun env.random32 iss' y p' := by
    intro d p' hp' hstarted
    rcases hblocks d p' hp' with h | ⟨hnot, -⟩
    · exact h
    · exact absurd hstarted hnot
  -- Nothing is sent but the first SYN and what the blocks after the step send.
  have hsent : ∀ s ∈ (x.after env ev out).net, flagIsset s.flg flgRst = false →
      FirstSyn env s ∨ ∃ d r, out.tcp.get d = some r ∧ Sends r s := by
    intro s hs hrst
    rcases List.mem_append.mp hs with hs | hs
    · exact absurd (hidle.net s hs) (by simp [hrst])
    · rcases hmove.emits (mem_emitted.mp hs) with h | ⟨-, h⟩ | ⟨d, r, hr | hr, hsends⟩
      · exact absurd h (by simp [hrst])
      · exact .inl h
      · obtain ⟨hnot, hqueue⟩ := hidle.blocks d r hr
        exact absurd hqueue ((hx.fresh d r hr hnot).sends hsends).1
      · exact .inr ⟨d, r, hr, hsends⟩
  constructor
  case reach => exact hreach
  case idle =>
    intro hb
    simp [Side.after, hnew] at hb
  case unique =>
    intro d d' p q hp hq hs hs'
    rw [(hbegun d p hp hs).1, (hbegun d' q hq hs').1]
  case fresh =>
    intro d p' hp' hnot
    rcases hblocks d p' hp' with ⟨-, h⟩ | ⟨-, hfresh⟩
    · exact absurd h.started hnot
    · exact hfresh
  case snd =>
    intro d p' hp' hs
    rw [hqueued]
    exact (hbegun d p' hp' hs).2.snd
  case rcv =>
    intro d p' hp' hs
    rw [htaken]
    exact (hbegun d p' hp' hs).2.rcv
  case acked =>
    intro d p' hp' hs
    have hzero := (hbegun d p' hp' hs).2.acked
    exact ⟨fun _ _ _ _ _ ↦ hzero ▸ Nat.zero_le _, fun _ ↦ hzero⟩
  case net =>
    intro s hs hrst
    rw [hqueued]
    rcases hsent s hs hrst with ⟨-, hseq, hdata⟩ | ⟨d, r, hr, hsends⟩
    · exact .of_syn hseq hdata
    · rcases hblocks d r hr with ⟨-, h⟩ | ⟨-, hfresh⟩
      · exact h.snd.sends hsends
      · obtain ⟨-, -, hseq, hdata⟩ := hfresh.sends hsends
        exact .of_syn hseq hdata
  case acks =>
    intro s hs d p' hp' hstarted hrst hack hfin
    obtain ⟨rfl, h⟩ := hbegun d p' hp' hstarted
    rcases hsent s hs hrst with ⟨hflg, -⟩ | ⟨d', r, hr, hsends⟩
    · rw [hflg] at hack
      exact absurd hack (by decide)
    · rcases hblocks d' r hr with ⟨rfl, -⟩ | ⟨-, hfresh⟩
      · obtain rfl : r = p' := by simpa using hr.symm.trans hp'
        exact h.rcv.sends h.snd (ReachableWhen.rcvInv hreach hr) hsends hrst hack hfin
      · exact absurd (hfresh.sends hsends).2.1 (by simp [hack])
  case taken =>
    rw [htaken]
    exact List.nil_prefix
  case room =>
    intro _ _ _ _ _
    simp [hqueued]
  case start =>
    intro _
    simp [hqueued]

theorem Link.begin_peer {out : Outcome} (hx : Link iss iss' x y) (hy : Link iss' iss y x)
    (hnew : begins env x.tcp ev = true) (hidle : Idle x) (hbegun : x.begun = false)
    (hnet : ∀ s, ev = .arrive s → s ∈ y.net) (hstep : step env x.tcp ev = .ok out) :
    Link iss' env.random32 y (x.after env ev out) := by
  obtain ⟨c, hblocks⟩ := hx.begin_blocks hy hnew hidle hnet (step_move hstep)
  have hafter : (x.after env ev out).begun = true := by simp [Side.after, hnew]
  have hqueued : x.queued <+: (x.after env ev out).queued := List.prefix_append _ _
  -- Nobody has synchronised with a side that has not begun.
  have hunsynced : ∀ d q, y.tcp.get d = some q → Started q → q.hist.synced = false := by
    intro d q hq hs
    by_contra hne
    rw [Bool.not_eq_false] at hne
    exact absurd ((hy.rcv d q hq hs).begun hne) (by simp [hbegun])
  constructor
  case reach => exact hy.reach
  case idle => exact hy.idle
  case unique => exact hy.unique
  case fresh => exact hy.fresh
  case snd => exact hy.snd
  case rcv =>
    intro d q hq hs
    have hrcv := hy.rcv d q hq hs
    refine ⟨hrcv.buf, hrcv.opening, hrcv.unsynced, fun _ ↦ hafter, ?_, hrcv.got.trans hqueued⟩
    exact fun h ↦ absurd ((hunsynced d q hq hs).symm.trans h) (by simp)
  case acked =>
    intro d q hq hs
    have hzero := (hy.acked d q hq hs).zero hbegun
    refine ⟨fun _ _ _ _ _ ↦ hzero ▸ Nat.zero_le _, fun h ↦ ?_⟩
    exact absurd (hafter.symm.trans h) (by simp)
  case net => exact hy.net
  case acks =>
    intro s hs d q hq hstarted hrst hack hfin
    obtain ⟨hsynced, -⟩ := hy.acks s hs d q hq hstarted hrst hack hfin
    exact absurd ((hunsynced d q hq hstarted).symm.trans hsynced) (by simp)
  case taken => exact hy.taken.trans hqueued
  case room =>
    intro d p' hp' hstarted _
    have hstart := hy.start hbegun
    omega
  case start => exact fun h ↦ absurd (hafter.symm.trans h) (by simp)

/-- **One step of the world**: the two sides stay linked. -/
theorem Link.acts {x' : Side} (hx : Link iss iss' x y) (hy : Link iss' iss y x)
    (h : x.Acts y env ev x') : ∃ iss₁, Link iss₁ iss' x' y ∧ Link iss' iss₁ y x' := by
  obtain ⟨hnet, hbegins, out, hstep, rfl⟩ := h
  cases hnew : begins env x.tcp ev with
  | false =>
      exact ⟨iss, hx.step_self hy hnew hnet hstep, hx.step_peer hy hnew hnet hstep⟩
  | true =>
      have hbegun := hbegins hnew
      have hidle := hx.idle hbegun
      exact ⟨env.random32, hx.begin_self hy hnew hidle hnet hstep,
        hx.begin_peer hy hnew hidle hbegun hnet hstep⟩

end

theorem Link.initial : Link 0 0 {} {} := by
  constructor
  case reach => exact .start rfl
  case idle => exact fun _ ↦ ⟨rfl, rfl, by simp, by simp [Tcp.get]⟩
  case taken => exact List.prefix_rfl
  case start => exact fun _ ↦ Nat.zero_le _
  all_goals simp [Tcp.get]

theorem World.Reachable.linked {w : World} (h : w.Reachable) :
    ∃ iss iss', Link iss iss' w.host w.peer ∧ Link iss' iss w.peer w.host := by
  refine Machine.Reach.invariant (fun w : World ↦
    ∃ iss iss', Link iss iss' w.host w.peer ∧ Link iss' iss w.peer w.host) ?_ ?_ h
  · rintro _ rfl
    exact ⟨0, 0, .initial, .initial⟩
  · rintro w ⟨party, env, ev⟩ w' ⟨iss, iss', hhost, hpeer⟩ hstep
    cases party with
    | host =>
        obtain ⟨hsame, hacts⟩ := hstep
        obtain ⟨iss₁, h₁, h₂⟩ := hhost.acts hpeer hacts
        exact ⟨iss₁, iss', hsame ▸ h₁, hsame ▸ h₂⟩
    | peer =>
        obtain ⟨hsame, hacts⟩ := hstep
        obtain ⟨iss₁, h₁, h₂⟩ := hpeer.acts hhost hacts
        exact ⟨iss, iss₁, hsame ▸ h₂, hsame ▸ h₁⟩

/-- **End to end**: in every reachable world, what `receive` has returned on one side
is a prefix of what `send` has queued on the other. -/
theorem received_prefix_of_queued {w : World} (h : w.Reachable) :
    w.host.taken <+: w.peer.queued ∧ w.peer.taken <+: w.host.queued := by
  obtain ⟨iss, iss', hhost, hpeer⟩ := h.linked
  exact ⟨hhost.taken, hpeer.taken⟩

/-- The segment of an arrival. -/
def Event.segment : Event → Option TcpSegment
  | .arrive s => some s
  | _ => none

/-- A step of a side, as a function. -/
def Side.act (x y : Side) (env : Env) (ev : Event) : Checked Side :=
  if (∀ s ∈ ev.segment, s ∈ y.net) ∧ (begins env x.tcp ev = true → x.begun = false) then
    (step env x.tcp ev).map (x.after env ev)
  else .error .unwrap

/-- A step of the world, as a function. -/
def World.act (w : World) (label : Party × Env × Event) : Checked World :=
  match label.1 with
  | .host => (w.host.act w.peer label.2.1 label.2.2).map fun x ↦ { w with host := x }
  | .peer => (w.peer.act w.host label.2.1 label.2.2).map fun x ↦ { w with peer := x }

theorem Side.acts_of_act {x y x' : Side} {env : Env} {ev : Event} (h : x.act y env ev = .ok x') :
    x.Acts y env ev x' := by
  unfold Side.act at h
  split at h
  · next hguard =>
    obtain ⟨out, hout, rfl⟩ := Machine.exists_of_map_ok h
    exact ⟨fun s hs ↦ hguard.1 s (by simp [hs, Event.segment]), hguard.2, out, hout, rfl⟩
  · exact absurd h (by simp)

theorem exists_reachableWorld (P : World → Bool) (labels : List (Party × Env × Event))
    (h : Machine.execTest World.act P {} labels = true) : ∃ w : World, w.Reachable ∧ P w = true := by
  refine Machine.exists_reach_of_execTest ?_ rfl h
  rintro w ⟨party, env, ev⟩ w' hstep
  cases party with
  | host | peer =>
      obtain ⟨x, hx, rfl⟩ := Machine.exists_of_map_ok hstep
      exact ⟨rfl, Side.acts_of_act hx⟩

/-- An active and a passive open.  The peer sends five octets in two segments, which
arrive out of order, the first of them twice. -/
def reorderedRun : List (Party × Env × Event) :=
  [(.host, calmEnv, .openCall hostEndp .any false),
    (.peer, { routedEnv with random32 := 500 }, .openCall peerEndp hostEndp true),
    (.host, calmEnv, toHost 500 0 flgSyn []),
    (.peer, routedEnv, toPeer 100 501 (flgSyn ||| flgAck) []),
    (.peer, routedEnv, .openFinish 0),
    (.host, calmEnv, toHost 501 101 flgAck []),
    (.peer, calmEnv, .send 0 [1, 2, 3] 0),
    (.peer, calmEnv, .send 0 [4, 5] 0),
    (.host, calmEnv, toHost 504 101 (flgAck ||| flgPsh) [4, 5]),
    (.host, calmEnv, toHost 501 101 (flgAck ||| flgPsh) [1, 2, 3]),
    (.host, calmEnv, toHost 501 101 (flgAck ||| flgPsh) [1, 2, 3]),
    (.host, calmEnv, .receive 0 8)]
where
  toHost (seq ack : U32) (flg : U8) (data : List U8) : Event :=
    .arrive { src := peerEndp, dst := hostEndp, seq := seq, ack := ack, flg := flg, wnd := 65535,
              data := data }
  toPeer (seq ack : U32) (flg : U8) (data : List U8) : Event :=
    .arrive { src := hostEndp, dst := peerEndp, seq := seq, ack := ack, flg := flg, wnd := 65535,
              data := data }

/-- Three of the five octets are received, and they are the first three. -/
theorem received_prefix_of_queued_reordered :
    ∃ w : World, w.Reachable ∧ w.peer.queued = [1, 2, 3, 4, 5] ∧ w.host.taken = [1, 2, 3] ∧
      w.host.taken <+: w.peer.queued := by
  obtain ⟨w, hreach, htest⟩ := exists_reachableWorld
    (fun w ↦ w.peer.queued = [1, 2, 3, 4, 5] && w.host.taken = [1, 2, 3]) reorderedRun
    (by decide +kernel)
  simp only [Bool.and_eq_true, decide_eq_true_eq] at htest
  exact ⟨w, hreach, htest.1, htest.2, (received_prefix_of_queued hreach).1⟩

end Microps.Tcp
