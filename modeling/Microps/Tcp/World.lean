import Microps.Tcp.Identity

/-!
# Two endpoints and a network

Two hosts run the machine of `Tcp.Step` and exchange segments over a network that
may lose, duplicate, delay and reorder them, but neither alters nor invents any: a
segment that arrives at one side is one that the other side has sent at some time.
Each side begins at most one connection, by an active or a passive open; whatever
else its applications and its timer do is left open.

Each side also keeps what its calls of `send` have queued and what its calls of
`receive` have returned.
-/

namespace Microps.Tcp

/-- The event begins a connection: a SYN is sent for the first time. -/
def begins (env : Env) (tcp : Tcp) : Event → Bool
  | .openCall l r true => tcp.pcbAlloc.any fun a ↦ (chooseLocal env a.2 l r).any fun l' ↦
      !(pcbSelect a.2.pcbs l' r).isSome
  | .connectCall d r => (tcp.get d).any fun p ↦ (chooseLocal env tcp p.localEndp r).any fun l ↦
      !(pcbSelect tcp.pcbs l r).isSome
  | .arrive s => !flagIsset s.flg flgRst && !flagIsset s.flg flgAck && flagIsset s.flg flgSyn &&
      (pcbSelect tcp.pcbs s.dst s.src).any fun d ↦ (tcp.get d).any fun p ↦
        p.state = .listen && (p.mode = .rfc ||
          (decide (p.backlog.length < p.backlogMax) && tcp.pcbAlloc.isSome))
  | _ => false

/-- What a round of `send` has queued. -/
def queuedBy : Event → Reply → List U8
  | .send _ data sent, .queued n => (data.drop sent).take n
  | _, _ => []

/-- What a call of `receive` has returned. -/
def takenBy : Reply → List U8
  | .bytes data => data
  | _ => []

/-- One of the two endpoints, with its history. -/
structure Side where
  tcp : Tcp := {}
  /-- A connection has begun. -/
  begun : Bool := false
  /-- The octets queued by `send`. -/
  queued : List U8 := []
  /-- The octets returned by `receive`. -/
  taken : List U8 := []
  /-- The segments sent so far, any of which may still arrive, and more than once. -/
  net : List TcpSegment := []
deriving DecidableEq, Repr

/-- What one event at a side leaves behind. -/
def Side.after (x : Side) (env : Env) (ev : Event) (out : Outcome) : Side where
  tcp := out.tcp
  begun := x.begun || begins env x.tcp ev
  queued := x.queued ++ queuedBy ev out.reply
  taken := x.taken ++ takenBy out.reply
  net := x.net ++ emitted out.effects

/-- A side `x` whose peer is `y` takes a step. -/
def Side.Acts (x y : Side) (env : Env) (ev : Event) (x' : Side) : Prop :=
  (∀ s, ev = .arrive s → s ∈ y.net) ∧ (begins env x.tcp ev = true → x.begun = false) ∧
    ∃ out, step env x.tcp ev = .ok out ∧ x' = x.after env ev out

/-- The two endpoints. -/
structure World where
  host : Side := {}
  peer : Side := {}
deriving DecidableEq, Repr

/-- The two sides of the world. -/
inductive Party where
  | host
  | peer
deriving DecidableEq, Repr

/-- The worlds reached by any interleaving of the events of the two sides. -/
def World.Reachable : World → Prop :=
  Machine.Reach (· = {}) fun w (label : Party × Env × Event) w' ↦
    match label.1 with
    | .host => w'.peer = w.peer ∧ w.host.Acts w.peer label.2.1 label.2.2 w'.host
    | .peer => w'.host = w.host ∧ w.peer.Acts w.host label.2.1 label.2.2 w'.peer

/-! ## What a step sends -/

/-- A block sends a segment: an acknowledgement without data, or an entry of its
queue. -/
def Sends (p : TcpPcb) (seg : TcpSegment) : Prop :=
  (p.state ≠ .closed ∧ p.state ≠ .listen ∧ p.state ≠ .synSent ∧
      flagIsset seg.flg flgSyn = false ∧ seg.data = [] ∧
      (p.hist.fin = false → seg.ack = p.rcv.nxt)) ∨
    ∃ e ∈ p.queue, seg.flg = e.flg ∧ seg.seq = e.seq ∧ seg.data = e.data ∧ seg.ack = p.rcv.nxt

theorem Sends.ackOf {p : TcpPcb}
    (h : p.state ≠ .closed ∧ p.state ≠ .listen ∧ p.state ≠ .synSent) : Sends p (ackOf p) :=
  .inl ⟨h.1, h.2.1, h.2.2, show flagIsset flgAck flgSyn = false by decide, rfl, fun _ ↦ rfl⟩

section

variable {env : Env} {tcp : Tcp} {d : TcpDesc} {ev : Event} {p p' : TcpPcb} {seg : TcpSegment}

/-- The first SYN of an active open. -/
def FirstSyn (env : Env) (seg : TcpSegment) : Prop :=
  seg.flg = flgSyn ∧ seg.seq = env.random32 ∧ seg.data = []

theorem firstSyn_sendSyn (env : Env) (p : TcpPcb) (l r : IpEndp) :
    FirstSyn env (sendSyn env p l r).2 := by
  rw [sendSyn_eq]
  exact ⟨rfl, rfl, rfl⟩

theorem begins_of_connects {l r : IpEndp} (hp : tcp.get d = some p)
    (h : Connects env tcp p l r) : begins env tcp (.connectCall d r) = true := by
  simpa [begins, hp, h.1] using h.2

theorem begins_of_opens {l r l' : IpEndp} (h : Opens env tcp l r l') :
    begins env tcp (.openCall l r true) = true := by
  obtain ⟨c, tcp', halloc, hlocal, hfree⟩ := h
  simpa [begins, halloc, hlocal] using hfree

theorem BlockStep.emits {es : List Effect} {reply : Reply}
    (h : BlockStep env tcp d ev p es reply p') (hp : tcp.get d = some p) (hseg : .emit seg ∈ es) :
    begins env tcp ev = true ∧ FirstSyn env seg ∨ Sends p' seg := by
  cases h with
  | mss m | bind l _ | listen n _ | connectFails _ | interrupted | take len n wnd _ _ _ _ =>
      exact absurd hseg (by simp)
  | syn l r hlocal _ | synFails l r hlocal _ =>
      obtain rfl : seg = _ := by simpa using hseg
      exact .inl ⟨begins_of_connects hp hlocal, firstSyn_sendSyn env p l r⟩
  | passive s _ _ _ _ _ _ =>
      right; right
      obtain rfl : seg = _ := by simpa using hseg
      rw [passiveOpen_eq]
      exact ⟨queueEntry env env.random32 (flgSyn ||| flgAck) [], by simp, rfl, rfl, rfl, rfl⟩
  | synSent s acceptable _ _ _ _ _ =>
      right
      obtain ⟨q, -, hcases⟩ := synInSynSent_cases env p s.info acceptable
      rcases hcases with ⟨-, hcase⟩ | ⟨-, hcase⟩
      · rw [hcase] at hseg ⊢
        obtain rfl : seg = Tcp.ackOf q := by simpa using hseg
        exact .inl ⟨by simp, by simp, by simp, show flagIsset flgAck flgSyn = false by decide, rfl,
          fun _ ↦ rfl⟩
      · rw [hcase] at hseg ⊢
        obtain rfl : seg = _ := by simpa using hseg
        exact .inr ⟨queueEntry env q.iss (flgSyn ||| flgAck) [], by simp, rfl, rfl, rfl, rfl⟩
  | fin state _ =>
      right; right
      rw [sendFin_eq] at hseg ⊢
      obtain rfl : seg = _ := by simpa using hseg
      exact ⟨queueEntry env p.snd.nxt (flgAck ||| flgFin) [], by simp, rfl, rfl, rfl, rfl⟩
  | data data sent n hstate _ _ _ =>
      right
      rw [sendData_eq] at hseg ⊢
      obtain rfl : seg = _ := by simpa using hseg
      by_cases hnil : (data.drop sent).take n = []
      · left
        refine ⟨?_, ?_, ?_, show flagIsset (flgAck ||| flgPsh) flgSyn = false by decide, hnil,
          fun _ ↦ rfl⟩
        · rcases hstate with hs | hs <;> simp [hs]
        · rcases hstate with hs | hs <;> simp [hs]
        · rcases hstate with hs | hs <;> simp [hs]
      · right
        rw [if_neg hnil]
        exact ⟨queueEntry env p.snd.nxt (flgAck ||| flgPsh) ((data.drop sent).take n), by simp, rfl,
          rfl, rfl, rfl⟩

/-- A segment past SYN_SENT is answered from the block it leaves, as long as no FIN is
consumed. -/
theorem textAndFin_emits {q : TcpPcb} {s : TcpSegment} {es : List Effect}
    (hstate : q.state ≠ .closed ∧ q.state ≠ .listen ∧ q.state ≠ .synSent)
    (hpast : p'.state ≠ .closed ∧ p'.state ≠ .listen ∧ p'.state ≠ .synSent)
    (h : textAndFin env q s.info s.flg s.data = .ok (p', es)) (hseg : .emit seg ∈ es) :
    Sends p' seg := by
  have hack : ∀ r : TcpPcb, seg = ackOf r → flagIsset seg.flg flgSyn = false ∧ seg.data = [] := by
    rintro r rfl
    exact ⟨show flagIsset flgAck flgSyn = false by decide, rfl⟩
  have hsends : ∀ r : TcpPcb, seg = ackOf r → (p'.hist.fin = false → r.rcv.nxt = p'.rcv.nxt) →
      Sends p' seg := by
    intro r hr hnxt
    refine .inl ⟨hpast.1, hpast.2.1, hpast.2.2, (hack r hr).1, (hack r hr).2, fun hfin ↦ ?_⟩
    rw [hr]
    exact hnxt hfin
  rcases textAndFin_cases ⟨hstate.1, hstate.2.1⟩ h with ⟨-, -, rfl, hes⟩ | ⟨-, -, -, rfl, rfl⟩ |
    ⟨-, -, tw, rfl, -, -, hes⟩ | ⟨-, -, -, tw, rfl, -, hes⟩
  · exact hsends p' (by simpa using hes _ hseg) fun _ ↦ rfl
  · exact hsends _ (by simpa using hseg) fun _ ↦ rfl
  · rcases hes _ hseg with heq | ⟨heq, -⟩
    · exact hsends _ (by simpa using heq) fun hfin ↦ absurd hfin (by simp [consumeFin])
    · exact absurd heq (by simp)
  · rcases hes _ hseg with heq | heq | heq
    · exact hsends _ (by simpa using heq) fun hfin ↦ absurd hfin (by simp [consumeFin])
    · exact hsends _ (by simpa using heq) fun hfin ↦ absurd hfin (by simp [consumeFin])
    · exact absurd heq (by simp)

/-- The ACK step sends nothing when it falls through. -/
theorem AckStep.emits {p₁ : TcpPcb} {info : SegInfo} {es : List Effect}
    (h : AckStep p info p₁ es) : .emit seg ∉ es :=
  fun hseg ↦ absurd (h.effects _ hseg) (by simp)

theorem AckStep.past {p₁ : TcpPcb} {s : TcpSegment} {es : List Effect} (hreach : ReachesAck p s)
    (h : AckStep p s.info p₁ es) :
    p₁.state ≠ .closed ∧ p₁.state ≠ .listen ∧ p₁.state ≠ .synSent := by
  obtain ⟨snd, queue, tw, -, rfl⟩ := h.eq
  obtain ⟨h₁, h₂, h₃⟩ := hreach.state
  refine ⟨(afterAck_ne _ h₁ h₂).1, (afterAck_ne _ h₁ h₂).2, ?_⟩
  generalize decide (s.info.ack = p.snd.nxt) = all
  cases hs : p.state <;> cases all <;> simp_all [TcpState.afterAck]

/-- **What a step sends**: a reset, the first SYN of an active open, or a segment of
a block that is there before or after it. -/
theorem Move.emits {out : Outcome} (h : Move env tcp ev out) (hseg : .emit seg ∈ out.effects) :
    flagIsset seg.flg flgRst = true ∨ (begins env tcp ev = true ∧ FirstSyn env seg) ∨
      ∃ c r, (tcp.get c = some r ∨ out.tcp.get c = some r) ∧ Sends r seg := by
  cases h with
  | idle _ hes =>
      obtain ⟨seg', heq, hanswer⟩ := hes _ hseg
      obtain rfl : seg = seg' := by simpa using heq
      rcases hanswer with hrst | ⟨c, r, hr, h₁, h₂, h₃, rfl⟩
      · exact .inl hrst
      · exact .inr (.inr ⟨c, r, .inl hr, .ackOf ⟨h₁, h₂, h₃⟩⟩)
  | @work ev reply es c r r' hr hblock =>
      rcases hblock.emits hr hseg with hsyn | hsends
      · exact .inr (.inl hsyn)
      · exact .inr (.inr ⟨c, r', .inr (by rw [get_set hr, if_pos rfl]), hsends⟩)
  | @birth ev reply es c tcp' r halloc hbirth =>
      have hget : (tcp'.set c r).get c = some r := by rw [get_birth halloc, if_pos rfl]
      cases hbirth with
      | socket | listen l r => exact absurd hseg (by simp)
      | syn l l' r hopens _ =>
          obtain rfl : seg = _ := by simpa using hseg
          exact .inr (.inl ⟨begins_of_opens hopens, firstSyn_sendSyn env _ l' r⟩)
      | child s l q child _ _ _ _ _ _ _ _ _ =>
          refine .inr (.inr ⟨c, _, .inr hget, .inr ?_⟩)
          obtain rfl : seg = _ := by simpa using hseg
          rw [passiveOpen_eq]
          exact ⟨queueEntry env env.random32 (flgSyn ||| flgAck) [], by simp, rfl, rfl, rfl, rfl⟩
  | stillborn _ _ hes =>
      rcases hes seg hseg with hrst | ⟨rfl, l', hopens, rfl⟩
      · exact .inl hrst
      · exact .inr (.inl ⟨begins_of_opens hopens, firstSyn_sendSyn env _ l' _⟩)
  | drop es _ _ _ hes hdrained _ =>
      left
      rcases List.mem_append.mp hseg with hseg | hseg
      · obtain ⟨seg', heq, hrst⟩ := hes _ hseg
        obtain rfl : seg = seg' := by simpa using heq
        exact hrst
      · exact hdrained.drain.resets seg hseg
  | @pass s c r r₁ r' es₁ es₂ hselect hr hparent hreach hack htext =>
      rcases List.mem_append.mp hseg with hseg | hseg
      · exact absurd hseg hack.emits
      · obtain ⟨h₁, h₂, h₃, -⟩ := (arrived r₁.backlog hreach.state hack htext).state hreach.state
        exact .inr (.inr ⟨c, r', .inr (by rw [get_set hr, if_pos rfl]),
          textAndFin_emits (hack.past hreach) ⟨h₁, h₂, h₃⟩ htext hseg⟩)
  | @join s c l r r₁ r₂ r' parent es₁ es₂ hselect hr hstate hparent hreach hack hl hr₂ htext =>
      have hseg : .emit seg ∈ es₂ := by
        rcases List.mem_append.mp hseg with hseg | hseg
        · rcases List.mem_append.mp hseg with hseg | hseg
          · exact absurd hseg hack.emits
          · exact absurd hseg (by simp)
        · exact hseg
      have hr₂ : ∃ backlog, r₂ = { r₁ with backlog := backlog } := by
        split at hr₂
        · exact ⟨_, hr₂⟩
        · exact ⟨r₁.backlog, hr₂⟩
      obtain ⟨backlog, rfl⟩ := hr₂
      obtain ⟨h₁, h₂, h₃, -⟩ := (arrived backlog hreach.state hack htext).state hreach.state
      have hpast := hack.past hreach
      exact .inr (.inr ⟨c, r', .inr (by rw [get_set_set_set hr hl, if_pos rfl]),
        textAndFin_emits (q := { r₁ with backlog := backlog }) hpast ⟨h₁, h₂, h₃⟩ htext hseg⟩)
  | pop _ _ _ _ => exact absurd hseg (by simp)
  | accept _ _ _ _ _ => exact absurd hseg (by simp)
  | tick _ _ hes =>
      rcases hes seg hseg with hrst | ⟨c, r, hr, hemit⟩
      · exact .inl hrst
      · obtain ⟨e, he, rfl⟩ := emit_mem_retransEmit hemit
        exact .inr (.inr ⟨c, r, .inl hr, .inr ⟨e, he, rfl, rfl, rfl, rfl⟩⟩)

end

end Microps.Tcp
