import Microps.Tcp.Backlog

/-!
# Blocks that somebody looks after

A block goes away when somebody releases it: the application that refers to it, the
listener that made it and has not handed it out, or the machine itself once the
connection is closing.  `NoOrphans` says that every block has one of these.  Who the
applications refer to is a parameter, `refers`.
-/

namespace Microps

/-- The connection is closing and goes away by itself. -/
def TcpState.leaving : TcpState → Bool
  | .finWait1 | .finWait2 | .closing | .lastAck | .timeWait => true
  | _ => false

namespace Tcp

/-- Somebody will release the block `p` in slot `d`. -/
def Tended (refers : TcpDesc → Prop) (tcp : Tcp) (d : TcpDesc) (p : TcpPcb) : Prop :=
  refers d ∨ (p.state = .synReceived ∧ p.parentDesc ≠ none) ∨
    (∃ l q, tcp.get l = some q ∧ d ∈ q.backlog) ∨ p.state.leaving = true

/-- Every block is looked after.  The listener that a half-open block will report to is
there, and only listeners have a backlog. -/
structure NoOrphans (refers : TcpDesc → Prop) (tcp : Tcp) : Prop where
  half : ∀ d p l, tcp.get d = some p → p.state = .synReceived → p.parentDesc = some l →
    ∃ q, tcp.get l = some q ∧ q.state = .listen
  listener : ∀ d p, tcp.get d = some p → p.backlog ≠ [] → p.state = .listen
  mode : ∀ d p, tcp.get d = some p → p.parentDesc = none → p.mode = .socket
  tended : ∀ d p, tcp.get d = some p → Tended refers tcp d p

/-- A half-open block will report to slot `d`. -/
def Awaits (tcp : Tcp) (d : TcpDesc) : Prop :=
  ∃ c q, tcp.get c = some q ∧ q.state = .synReceived ∧ q.parentDesc = some d

/-- The timer gives the connection up. -/
def givesUp (env : Env) (p : TcpPcb) : Bool :=
  (p.queue.any fun e ↦ e.first + retransDeadline ≤ env.now) ∧
    ¬ (p.state = .timeWait ∧ p.twTimer < env.now)

/-- A critical section that leaves no block behind. -/
structure Mindful (refers : TcpDesc → Prop) (env : Env) (tcp : Tcp) (ev : Event) : Prop where
  off : KeepsOff False env tcp ev
  /-- It is not one of `tcp::open`. -/
  «open» : (∀ l r active, ev ≠ .openCall l r active) ∧
    ∀ d, ev ≠ .openPoll d ∧ ev ≠ .openInterrupted d
  /-- `connect` goes ahead on a block that is referred to and has no children. -/
  connect : ∀ d p, tcp.get d = some p →
    ((∃ l r, Connects env tcp p l r ∧ ev = .connectCall d r) ∨ ev = .connectPoll d ∨
      ev = .connectInterrupted d) →
    refers d ∧ (p.state = .listen → ev ≠ .connectPoll d → p.backlog = [] ∧ ¬ Awaits tcp d)
  /-- A listener is not closed while a child is half open. -/
  close : ∀ d p, tcp.get d = some p → ev = .close d → p.state = .listen → ¬ Awaits tcp d
  /-- What `accept` takes out of a backlog has a route. -/
  accept : ∀ d p c rest q, tcp.get d = some p → ev = .accept d → p.state = .listen →
    p.backlog = c :: rest → tcp.get c = some q → routeLookup env.routes q.remoteEndp.addr ≠ none
  /-- Who is given up is referred to or in a backlog, and has no children. -/
  tick : ev = .timer → ∀ d p, tcp.get d = some p → givesUp env p = true →
    (p.state = .listen → p.backlog = [] ∧ ¬ Awaits tcp d) ∧
      (refers d ∨ ∃ l q, tcp.get l = some q ∧ d ∈ q.backlog)

section

variable {refers : TcpDesc → Prop} {env : Env} {tcp tcp' : Tcp} {d l : TcpDesc} {ev : Event}
  {p p' parent : TcpPcb} {reply : Reply}

theorem NoOrphans.mono {refers' : TcpDesc → Prop} (h : NoOrphans refers tcp)
    (hsub : ∀ d p, tcp.get d = some p → refers d → refers' d ∨ p.state.leaving = true) :
    NoOrphans refers' tcp := by
  refine ⟨h.half, h.listener, h.mode, fun d p hp ↦ ?_⟩
  rcases h.tended d p hp with href | hrest
  · rcases hsub d p hp href with href | hleaving
    · exact .inl href
    · exact .inr (.inr (.inr hleaving))
  · exact .inr hrest

/-- A block in one of the early states is the application's. -/
theorem NoOrphans.refers_of_early (h : NoOrphans refers tcp) (hqueue : QueueInv False tcp)
    (hp : tcp.get d = some p) (hstate : p.state = .closed ∨ p.state = .listen ∨ p.state = .synSent)
    (hparent : p.parentDesc = none) : refers d := by
  rcases h.tended d p hp with href | ⟨-, hne⟩ | ⟨l, q, hl, hmem⟩ | hleaving
  · exact href
  · exact absurd hparent hne
  · exact absurd ((hqueue.entry l q d p hl hmem hp).1.symm.trans hparent) (by simp)
  · rcases hstate with hs | hs | hs <;> simp [hs, TcpState.leaving] at hleaving

/-! ## What a step changes -/

/-- One block changes. -/
theorem NoOrphans.set (h : NoOrphans refers tcp) (hp : tcp.get d = some p) (hsame : SameBlock p p')
    (hbacklog : p'.backlog = p.backlog)
    (hhalf : p'.state = .synReceived → p.state = .synReceived ∨ p.parentDesc = none)
    (hlisten : p.state = .listen → p'.state = .listen ∨ p.backlog = [] ∧ ¬ Awaits tcp d)
    (htended : Tended refers tcp d p') : NoOrphans refers (tcp.set d p') := by
  have hget := get_set hp p'
  have hlists : ∀ c, (∃ l q, tcp.get l = some q ∧ c ∈ q.backlog) →
      ∃ l q, (tcp.set d p').get l = some q ∧ c ∈ q.backlog := by
    rintro c ⟨l, q, hl, hmem⟩
    by_cases hld : l = d
    · subst hld
      obtain rfl : q = p := by simpa using hl.symm.trans hp
      exact ⟨l, p', by rw [hget, if_pos rfl], hbacklog ▸ hmem⟩
    · exact ⟨l, q, by rw [hget, if_neg hld, hl], hmem⟩
  have hlistens : ∀ l q, tcp.get l = some q → q.state = .listen → Awaits tcp l →
      ∃ q, (tcp.set d p').get l = some q ∧ q.state = .listen := by
    intro l q hl hstate hawaits
    by_cases hld : l = d
    · subst hld
      obtain rfl : q = p := by simpa using hl.symm.trans hp
      rcases hlisten hstate with hs | ⟨-, hnot⟩
      · exact ⟨p', by rw [hget, if_pos rfl], hs⟩
      · exact absurd hawaits hnot
    · exact ⟨q, by rw [hget, if_neg hld, hl], hstate⟩
  constructor
  · intro c r' l hr' hstate hparent
    rw [hget] at hr'
    split at hr'
    · next hc =>
      subst hc
      cases hr'
      rw [hsame.parent] at hparent
      have hstate : p.state = .synReceived :=
        (hhalf hstate).resolve_right (by simp [hparent])
      obtain ⟨q, hl, hq⟩ := h.half c p l hp hstate hparent
      exact hlistens l q hl hq ⟨c, p, hp, hstate, hparent⟩
    · obtain ⟨q, hl, hq⟩ := h.half c r' l hr' hstate hparent
      exact hlistens l q hl hq ⟨c, r', hr', hstate, hparent⟩
  · intro c r' hr' hne
    rw [hget] at hr'
    split at hr'
    · cases hr'
      rw [hbacklog] at hne
      exact (hlisten (h.listener d p hp hne)).resolve_right fun h ↦ hne h.1
    · exact h.listener c r' hr' hne
  · intro c r' hr' hnone
    rw [hget] at hr'
    split at hr'
    · cases hr'
      rw [hsame.mode]
      exact h.mode d p hp (hsame.parent ▸ hnone)
    · exact h.mode c r' hr' hnone
  · intro c r' hr'
    rw [hget] at hr'
    split at hr'
    · next hc =>
      subst hc
      cases hr'
      exact htended.imp_right (Or.imp_right (Or.imp_left (hlists c)))
    · exact (h.tended c r' hr').imp_right (Or.imp_right (Or.imp_left (hlists c)))

/-- A block keeps its state. -/
theorem NoOrphans.set_same (h : NoOrphans refers tcp) (hp : tcp.get d = some p)
    (hsame : SameBlock p p') (hbacklog : p'.backlog = p.backlog) (hstate : p'.state = p.state) :
    NoOrphans refers (tcp.set d p') := by
  refine h.set hp hsame hbacklog (fun hs ↦ .inl (hstate ▸ hs)) (fun hs ↦ .inl (hstate.trans hs)) ?_
  rw [Tended, hstate, hsame.parent]
  exact h.tended d p hp

theorem BlockStep.noOrphans {es : List Effect} (h : NoOrphans refers tcp)
    (hqueue : QueueInv False tcp) (hguard : Mindful refers env tcp ev) (hp : tcp.get d = some p)
    (hblock : BlockStep env tcp d ev p es reply p') : NoOrphans refers (tcp.set d p') := by
  have hsame := hblock.same
  cases hblock with
  | mss m | bind l _ | take len n wnd _ _ _ _ => exact h.set_same hp hsame.1 hsame.2.1 rfl
  | data data sent n _ _ _ _ => exact h.set_same hp hsame.1 hsame.2.1 (by rw [sendData_eq])
  | listen n hstate hport =>
      have hparent := hguard.off.child d p hp (decide_eq_true ⟨rfl, hstate, hport⟩)
      exact h.set hp hsame.1 hsame.2.1 (by simp) (fun _ ↦ .inl rfl)
        (.inl (h.refers_of_early hqueue hp (.inl hstate) hparent))
  | connectFails hstate =>
      exact h.set hp hsame.1 hsame.2.1 (by simp) (fun hs ↦ absurd hs hstate.2.1)
        (.inl (hguard.connect d p hp (.inr (.inl rfl))).1)
  | interrupted =>
      obtain ⟨href, hfree⟩ := hguard.connect d p hp (.inr (.inr rfl))
      exact h.set hp hsame.1 hsame.2.1 (by simp) (fun hs ↦ .inr (hfree hs (by simp))) (.inl href)
  | syn l r hlocal _ =>
      obtain ⟨href, hfree⟩ := hguard.connect d p hp (.inl ⟨l, r, hlocal, rfl⟩)
      exact h.set hp hsame.1 hsame.2.1 (by simp [Tcp.synSent])
        (fun hs ↦ .inr (hfree hs (by simp))) (.inl href)
  | synFails l r hlocal _ =>
      obtain ⟨href, hfree⟩ := hguard.connect d p hp (.inl ⟨l, r, hlocal, rfl⟩)
      exact h.set hp hsame.1 hsame.2.1 (by simp) (fun hs ↦ .inr (hfree hs (by simp))) (.inl href)
  | passive s _ hstate hmode _ _ _ =>
      -- Sockets have no listener in this mode but a child, and a child does not listen.
      have hparent : p.parentDesc = none := by
        by_contra hne
        exact (hqueue.child d p hp hne).1 hstate
      exact absurd ((h.mode d p hp hparent).symm.trans hmode) (by simp)
  | synSent s acceptable _ hstate _ _ _ =>
      have hparent : p.parentDesc = none := by
        by_contra hne
        exact (hqueue.child d p hp hne).2 hstate
      exact h.set hp hsame.1 hsame.2.1 (fun _ ↦ .inr hparent)
        (fun hs ↦ absurd (hs.symm.trans hstate) (by simp))
        (.inl (h.refers_of_early hqueue hp (.inr (.inr hstate)) hparent))
  | fin state hstate =>
      have hleaving : (sendFin env p state).1.state.leaving = true := by
        rw [sendFin_eq]
        rcases hstate with ⟨-, rfl⟩ | ⟨-, rfl⟩ <;> rfl
      refine h.set hp hsame.1 hsame.2.1 ?_ ?_ (.inr (.inr (.inr hleaving)))
      · intro hs
        exact absurd hleaving (by simp [hs, TcpState.leaving])
      · intro hs
        rcases hstate with ⟨hs' | hs', -⟩ | ⟨hs', -⟩ <;> exact absurd (hs.symm.trans hs') (by simp)

theorem Arrived.leaving {s : TcpSegment} (h : Arrived p s p') (hleaving : p.state.leaving = true) :
    p'.state.leaving = true := by
  have hafter := h.after
  generalize (s.ack = p.snd.nxt : Bool) = all at hafter
  have hack : (p.state.afterAck all).leaving = true := by
    cases hs : p.state <;> cases all <;> simp_all [TcpState.afterAck, TcpState.leaving]
  have hfin : ((p.state.afterAck all).afterFin all).leaving = true := by
    cases hs : p.state <;> cases all <;>
      simp_all [TcpState.afterAck, TcpState.afterFin, TcpState.leaving]
  rcases hafter with heq | ⟨-, heq⟩
  · rw [heq]
    exact hack
  · rw [heq]
    exact hfin

/-- A segment past SYN_SENT that does not complete a handshake with a listener. -/
theorem NoOrphans.pass {s : TcpSegment} {p₁ : TcpPcb} {es₁ es₂ : List Effect}
    (h : NoOrphans refers tcp) (hqueue : QueueInv False tcp) (hp : tcp.get d = some p)
    (hparent : p.state = .synReceived → ∀ l, p.parentDesc = some l → (tcp.set d p₁).get l = none)
    (hreach : ReachesAck p s) (hack : AckStep p s.info p₁ es₁)
    (htext : textAndFin env p₁ s.info s.flg s.data = .ok (p', es₂)) :
    NoOrphans refers (tcp.set d p') := by
  have harrived := arrived p₁.backlog hreach.state hack htext
  obtain ⟨-, -, -, hne⟩ := harrived.state hreach.state
  refine h.set hp harrived.same.1 (hack.backlog hreach htext) (fun hs ↦ absurd hs hne)
    (fun hs ↦ absurd hs hreach.state.2.1) ?_
  rcases h.tended d p hp with href | ⟨hstate, hchild⟩ | hlisted | hleaving
  · exact .inl href
  · -- The listener is still there.
    obtain ⟨l, hl⟩ := Option.ne_none_iff_exists'.mp hchild
    obtain ⟨q, hq, -⟩ := h.half d p l hp hstate hl
    have hld : l ≠ d := fun heq ↦ hqueue.self d p hp (heq ▸ hl)
    have hnone := hparent hstate l hl
    rw [get_set hp, if_neg hld] at hnone
    exact absurd (hq.symm.trans hnone) (by simp)
  · exact .inr (.inr (.inl hlisted))
  · exact .inr (.inr (.inr (harrived.leaving hleaving)))

/-- The backlog of a listener changes.  Whom it loses is referred to. -/
theorem NoOrphans.rebacklog {refers' : TcpDesc → Prop} (h : NoOrphans refers tcp)
    (hl : tcp.get l = some parent) (hstate : parent.state = .listen) (backlog : List TcpDesc)
    (hget : ∀ j, tcp'.get j =
      if j = l then some { parent with backlog := backlog } else tcp.get j)
    (hkeep : ∀ c q, tcp.get c = some q → refers c ∨ c ∈ parent.backlog →
      refers' c ∨ c ∈ backlog) : NoOrphans refers' tcp' := by
  have hgetl : tcp'.get l = some { parent with backlog := backlog } := (hget l).trans (if_pos rfl)
  have hback : ∀ j q', tcp'.get j = some q' → ∃ q, tcp.get j = some q ∧
      q' = { q with backlog := q'.backlog } ∧ (q.state = .listen ∨ q'.backlog = q.backlog) := by
    intro j q' hq'
    rw [hget] at hq'
    split at hq'
    · next hj =>
      subst hj
      cases hq'
      exact ⟨parent, hl, rfl, .inl hstate⟩
    · exact ⟨q', hq', rfl, .inr rfl⟩
  constructor
  · intro c r' k hr' hs hparent
    obtain ⟨r, hr, heq, -⟩ := hback c r' hr'
    rw [heq] at hs hparent
    obtain ⟨q, hq, hlisten⟩ := h.half c r k hr hs hparent
    by_cases hk : k = l
    · exact ⟨{ parent with backlog := backlog }, hk ▸ hgetl, hstate⟩
    · exact ⟨q, by rw [hget, if_neg hk, hq], hlisten⟩
  · intro c r' hr' hne
    obtain ⟨r, hr, heq, hlisten | hb⟩ := hback c r' hr'
    · rw [heq]
      exact hlisten
    · rw [heq]
      exact h.listener c r hr (hb ▸ hne)
  · intro c r' hr' hnone
    obtain ⟨r, hr, heq, -⟩ := hback c r' hr'
    rw [heq] at hnone ⊢
    exact h.mode c r hr hnone
  · intro c r' hr'
    obtain ⟨r, hr, heq, -⟩ := hback c r' hr'
    have hkept : refers c ∨ c ∈ parent.backlog → Tended refers' tcp' c r' := by
      intro hc
      rcases hkeep c r hr hc with href | hmem
      · exact .inl href
      · exact .inr (.inr (.inl ⟨l, _, hgetl, hmem⟩))
    rcases h.tended c r hr with href | hhalf | ⟨k, q, hq, hmem⟩ | hleaving
    · exact hkept (.inl href)
    · rw [heq]
      exact .inr (.inl hhalf)
    · by_cases hk : k = l
      · subst hk
        obtain rfl : q = parent := by simpa using hq.symm.trans hl
        exact hkept (.inr hmem)
      · exact .inr (.inr (.inl ⟨k, q, by rw [hget, if_neg hk, hq], hmem⟩))
    · rw [heq]
      exact .inr (.inr (.inr hleaving))

/-- A block joins the backlog of a listener, which then looks after it. -/
theorem NoOrphans.push (h : NoOrphans (fun c ↦ refers c ∨ c = d) tcp) (hl : tcp.get l = some parent)
    (hstate : parent.state = .listen)
    (hget : ∀ j, tcp'.get j =
      if j = l then some { parent with backlog := parent.backlog ++ [d] } else tcp.get j) :
    NoOrphans refers tcp' := by
  refine h.rebacklog hl hstate _ hget fun c q _ hc ↦ ?_
  rcases hc with (href | rfl) | hmem
  · exact .inl href
  · exact .inr (by simp)
  · exact .inr (List.mem_append_left _ hmem)

/-- A listener hands a block out, to somebody who refers to it. -/
theorem NoOrphans.pop (h : NoOrphans refers tcp) {new : TcpDesc} {rest : List TcpDesc}
    (hp : tcp.get d = some p) (hbacklog : p.backlog = new :: rest)
    (hnew : ∀ q, tcp.get new = some q → refers new) :
    NoOrphans refers (tcp.set d { p with backlog := rest }) := by
  have hlisten : p.state = .listen := h.listener d p hp (by simp [hbacklog])
  refine h.rebacklog hp hlisten rest (get_set hp _) fun c q hq hc ↦ ?_
  rcases hc with href | hmem
  · exact .inl href
  · rw [hbacklog] at hmem
    rcases List.mem_cons.mp hmem with rfl | hmem
    · exact .inl (hnew q hq)
    · exact .inr hmem

/-- A new block. -/
theorem NoOrphans.birth (h : NoOrphans refers tcp) (hnew : Newborn tcp p)
    (hempty : tcp.get d = none) (hmode : p.parentDesc = none → p.mode = .socket ∧ refers d)
    (hget : ∀ j, tcp'.get j = if j = d then some p else tcp.get j) : NoOrphans refers tcp' := by
  have hforth : ∀ j q, tcp.get j = some q → tcp'.get j = some q := by
    intro j q hq
    have hj : j ≠ d := by
      rintro rfl
      exact absurd (hq.symm.trans hempty) (by simp)
    rw [hget, if_neg hj, hq]
  constructor
  · intro c r l hr hs hparent
    rw [hget] at hr
    split at hr
    · cases hr
      rcases hnew.origin with ⟨hnone, -⟩ | ⟨l', q, hq, hlisten, -, hparent', -⟩
      · exact absurd (hparent.symm.trans hnone) (by simp)
      · obtain rfl : l = l' := by simpa using hparent.symm.trans hparent'
        exact ⟨q, hforth l q hq, hlisten⟩
    · obtain ⟨q, hq, hlisten⟩ := h.half c r l hr hs hparent
      exact ⟨q, hforth l q hq, hlisten⟩
  · intro c r hr hne
    rw [hget] at hr
    split at hr
    · cases hr
      exact absurd hnew.backlog hne
    · exact h.listener c r hr hne
  · intro c r hr hnone
    rw [hget] at hr
    split at hr
    · cases hr
      exact (hmode hnone).1
    · exact h.mode c r hr hnone
  · intro c r hr
    rw [hget] at hr
    split at hr
    · next hc =>
      subst hc
      cases hr
      rcases hnew.origin with ⟨hnone, -⟩ | ⟨l, q, -, -, -, hparent, -, hstate, -⟩
      · exact .inl (hmode hnone).2
      · exact .inr (.inl ⟨hstate, by simp [hparent]⟩)
    · refine (h.tended c r hr).imp_right (Or.imp_right (Or.imp_left ?_))
      rintro ⟨l, q, hq, hmem⟩
      exact ⟨l, q, hforth l q hq, hmem⟩

/-- A listener is not in a backlog. -/
theorem QueueInv.not_listed (hqueue : QueueInv False tcp) (hp : tcp.get d = some p)
    (hstate : p.state = .listen) {q : TcpPcb} (hl : tcp.get l = some q) : d ∉ q.backlog := by
  intro hmem
  have hparent := (hqueue.entry l q d p hl hmem hp).1
  exact (hqueue.child d p hp (by simp [hparent])).1 hstate

/-- Blocks are released.  A listener goes only when nobody will report to it, and takes
its backlog with it. -/
theorem NoOrphans.drop (h : NoOrphans refers tcp)
    (hsurvives : ∀ j q, tcp'.get j = some q → tcp.get j = some q)
    (hlistens : ∀ l q, tcp.get l = some q → q.state = .listen → tcp'.get l = none →
      ¬ Awaits tcp l ∧ ∀ c ∈ q.backlog, tcp'.get c = none)
    (hframe : ∀ j, tcp'.get j = tcp.get j ∨ tcp'.get j = none) : NoOrphans refers tcp' := by
  constructor
  · intro c r l hr hs hparent
    have hr₀ := hsurvives c r hr
    obtain ⟨q, hq, hlisten⟩ := h.half c r l hr₀ hs hparent
    rcases hframe l with hl | hl
    · exact ⟨q, hl.trans hq, hlisten⟩
    · exact absurd ⟨c, r, hr₀, hs, hparent⟩ (hlistens l q hq hlisten hl).1
  · exact fun c r hr ↦ h.listener c r (hsurvives c r hr)
  · exact fun c r hr ↦ h.mode c r (hsurvives c r hr)
  · intro c r hr
    refine (h.tended c r (hsurvives c r hr)).imp_right (Or.imp_right (Or.imp_left ?_))
    rintro ⟨l, q, hq, hmem⟩
    rcases hframe l with hl | hl
    · exact ⟨l, q, hl.trans hq, hmem⟩
    · have hlisten := h.listener l q hq (List.ne_nil_of_mem hmem)
      have hgone := (hlistens l q hq hlisten hl).2 c hmem
      exact absurd (hr.symm.trans hgone) (by simp)

theorem retransEmit_state (env : Env) (p : TcpPcb) :
    (retransEmit env p).1.state = p.state ∨
      (p.queue.any fun e ↦ e.first + retransDeadline ≤ env.now) = true := by
  unfold retransEmit
  split
  · next h => exact .inr h
  · exact .inl rfl

/-- The timer ticks. -/
theorem NoOrphans.tick {t' : Slots TcpPcb} (h : NoOrphans refers tcp) (hqueue : QueueInv False tcp)
    (hguard : Mindful refers env tcp .timer) (hnone : ∀ j, tcp.get j = none → t'.peek j = none)
    (hsome : ∀ j p, tcp.get j = some p →
      t'.peek j = some (retransEmit env p).1 ∧ ¬ (p.state = .timeWait ∧ p.twTimer < env.now) ∨
      t'.peek j = none ∧ (p.state = .timeWait ∨
        ∃ i q, tcp.get i = some q ∧ j ∈ q.backlog ∧ t'.peek i = none)) :
    NoOrphans refers { tcp with pcbs := t' } := by
  -- What is left of a block, and whether it was given up.
  have hback : ∀ j p', t'.peek j = some p' → ∃ p, tcp.get j = some p ∧ SameBlock p p' ∧
      p'.backlog = p.backlog ∧ (p'.state = p.state ∨ p'.state = .closed ∧ givesUp env p = true) := by
    intro j p' hp'
    cases hp : tcp.get j with
    | none => exact absurd (hp'.symm.trans (hnone j hp)) (by simp)
    | some p =>
        rcases hsome j p hp with ⟨hj, hlive⟩ | ⟨hj, -⟩
        · obtain rfl : p' = (retransEmit env p).1 := by simpa using hp'.symm.trans hj
          obtain ⟨hsame, hbacklog, -, hstate⟩ := retransEmit_same env p
          refine ⟨p, rfl, hsame, hbacklog, ?_⟩
          rcases retransEmit_state env p with hs | hup
          · exact .inl hs
          · exact hstate.imp_right fun hs ↦ ⟨hs, decide_eq_true ⟨hup, hlive⟩⟩
        · exact absurd (hp'.symm.trans hj) (by simp)
  -- A listener stays, and listens on unless it has no children.
  have hlistens : ∀ l q, tcp.get l = some q → q.state = .listen →
      ∃ q', t'.peek l = some q' ∧ q'.backlog = q.backlog ∧
        (q'.state = .listen ∨ q.backlog = [] ∧ ¬ Awaits tcp l) := by
    intro l q hq hlisten
    rcases hsome l q hq with ⟨hl, -⟩ | ⟨-, hs | ⟨i, r, hr, hmem, -⟩⟩
    · obtain ⟨q₀, hq₀, -, hbacklog, hstate⟩ := hback l _ hl
      obtain rfl : q = q₀ := by simpa using hq.symm.trans hq₀
      refine ⟨_, hl, hbacklog, ?_⟩
      rcases hstate with hs | ⟨-, hup⟩
      · exact .inl (hs.trans hlisten)
      · exact .inr ((hguard.tick rfl l q hq hup).1 hlisten)
    · exact absurd (hlisten.symm.trans hs) (by simp)
    · exact absurd hmem (hqueue.not_listed hq hlisten hr)
  have hlists : ∀ c, (∃ l q, tcp.get l = some q ∧ c ∈ q.backlog) →
      ∃ l q, t'.peek l = some q ∧ c ∈ q.backlog := by
    rintro c ⟨l, q, hq, hmem⟩
    obtain ⟨q', hq', hbacklog, -⟩ :=
      hlistens l q hq (h.listener l q hq (List.ne_nil_of_mem hmem))
    exact ⟨l, q', hq', hbacklog ▸ hmem⟩
  constructor
  · intro c r' l hr' hs hparent
    obtain ⟨r, hr, hsame, -, hstate⟩ := hback c r' hr'
    rw [hsame.parent] at hparent
    have hs : r.state = .synReceived := by
      rcases hstate with hstate | ⟨hclosed, -⟩
      · exact hstate ▸ hs
      · exact absurd (hs.symm.trans hclosed) (by simp)
    obtain ⟨q, hq, hlisten⟩ := h.half c r l hr hs hparent
    obtain ⟨q', hq', -, hlisten' | ⟨-, hnot⟩⟩ := hlistens l q hq hlisten
    · exact ⟨q', hq', hlisten'⟩
    · exact absurd ⟨c, r, hr, hs, hparent⟩ hnot
  · intro c r' hr' hne
    obtain ⟨r, hr, -, hbacklog, -⟩ := hback c r' hr'
    rw [hbacklog] at hne
    obtain ⟨q', hq', -, hlisten | ⟨hnil, -⟩⟩ := hlistens c r hr (h.listener c r hr hne)
    · obtain rfl : r' = q' := by simpa using hr'.symm.trans hq'
      exact hlisten
    · exact absurd hnil hne
  · intro c r' hr' hparent
    obtain ⟨r, hr, hsame, -⟩ := hback c r' hr'
    rw [hsame.mode]
    exact h.mode c r hr (hsame.parent ▸ hparent)
  · intro c r' hr'
    obtain ⟨r, hr, hsame, -, hstate⟩ := hback c r' hr'
    rcases hstate with hstate | ⟨-, hup⟩
    · rw [Tended, hstate, hsame.parent]
      exact (h.tended c r hr).imp_right (Or.imp_right (Or.imp_left (hlists c)))
    · rcases (hguard.tick rfl c r hr hup).2 with href | hlisted
      · exact .inl href
      · exact .inr (.inr (.inl (hlists c hlisted)))

/-- Whom a step gives to its caller. -/
def Gives (ev : Event) (out : Outcome) (d : TcpDesc) : Prop :=
  (ev = .socket ∧ out.reply = .desc d) ∨ ∃ remote, out.reply = .conn d remote

/-- **One step**: nobody is left behind, if the caller refers to what it gets. -/
theorem NoOrphans.move {out : Outcome} (h : NoOrphans refers tcp) (hqueue : QueueInv False tcp)
    (hguard : Mindful refers env tcp ev) (hmove : Move env tcp ev out) :
    NoOrphans (fun d ↦ refers d ∨ Gives ev out d) out.tcp := by
  have hmono : ∀ {tcp' : Tcp}, NoOrphans refers tcp' →
      NoOrphans (fun d ↦ refers d ∨ Gives ev out d) tcp' :=
    fun h ↦ h.mono fun _ _ _ href ↦ .inl (.inl href)
  cases hmove with
  | idle _ _ => exact hmono h
  | work hp hblock => exact hmono (hblock.noOrphans h hqueue hguard hp)
  | @birth ev reply es d tcp' p' halloc hbirth =>
      refine (hmono h).birth hbirth.newborn (pcbAlloc_spec halloc).1 ?_ (get_birth halloc p')
      intro hnone
      cases hbirth with
      | socket => exact ⟨rfl, .inr (.inl ⟨rfl, rfl⟩)⟩
      | listen l r => exact absurd rfl (hguard.open.1 l r false)
      | syn l l' r _ _ => exact absurd rfl (hguard.open.1 l r true)
      | child s l q child _ _ _ _ _ _ _ _ hchild =>
          rw [passiveOpen_eq, hchild] at hnone
          exact absurd hnone (by simp)
  | stillborn _ _ _ => exact absurd rfl (hguard.open.1 _ _ _)
  | @drop ev reply es d p r hp hev _ _ hdrained hbacklog =>
      refine hmono (h.drop (fun j q hq ↦ hdrained.drain.some_of_some hq) ?_ hdrained.drain.frame)
      intro l q hq hlisten hgone
      -- A listener is released by itself, and only by `close`.
      obtain rfl : l = d := by
        rcases hdrained.drain.caused l q hq hgone with hroot | ⟨i, r, hr, hmem, -⟩
        · exact hroot
        · exact absurd hmem (hqueue.not_listed hq hlisten hr)
      obtain rfl : q = p := by simpa using hq.symm.trans hp
      refine ⟨?_, hbacklog⟩
      cases ev with
      | arrive s => exact absurd hlisten hev.2.2
      | close d' =>
          obtain rfl : d' = l := hev.1
          exact hguard.close d' q hq rfl hlisten
      | openPoll d' => exact absurd rfl (hguard.open.2 d').1
      | openInterrupted d' => exact absurd rfl (hguard.open.2 d').2
      | _ => exact absurd hev id
  | pass _ hp hparent hreach hack htext =>
      exact hmono (h.pass hqueue hp hparent hreach hack htext)
  | @join s d l p p₁ p₂ p' parent es₁ es₂ hselect hp hstate hparent hreach hack hl hp₂ htext =>
      have hdl : d ≠ l := by
        rintro rfl
        exact hqueue.self d p hp hparent
      rw [if_neg hdl] at hp₂
      rw [hp₂] at htext
      rw [get_set hp, if_neg (Ne.symm hdl)] at hl
      have harrived := arrived p₁.backlog hreach.state hack htext
      obtain ⟨-, -, -, hne⟩ := harrived.state hreach.state
      obtain ⟨q, hq, hlisten⟩ := h.half d p l hp hstate hparent
      obtain rfl : parent = q := by simpa using hl.symm.trans hq
      have hwide : NoOrphans (fun c ↦ refers c ∨ c = d) tcp :=
        h.mono fun _ _ _ href ↦ .inl (.inl href)
      have hset : NoOrphans (fun c ↦ refers c ∨ c = d) (tcp.set d p') :=
        hwide.set hp harrived.same.1 (hack.backlog hreach htext) (fun hs ↦ absurd hs hne)
          (fun hs ↦ absurd hs hreach.state.2.1) (.inl (.inr rfl))
      have hl' : (tcp.set d p').get l = some parent := by
        rw [get_set hp, if_neg (Ne.symm hdl), hl]
      exact hmono (hset.push hl' hlisten (get_join hp hl hdl _))
  | @pop d new p rest reply hp hstate hbacklog hreply =>
      refine hmono (h.pop hp hbacklog fun q hq ↦ ?_)
      have hne : new ≠ d := by
        rintro rfl
        exact hqueue.not_listed hp hstate hp (hbacklog ▸ List.mem_cons_self)
      rcases hreply with ⟨-, hgone⟩ | ⟨-, q', hq', hroute⟩
      · rw [get_set hp, if_neg hne] at hgone
        exact absurd (hq.symm.trans hgone) (by simp)
      · rw [get_set hp, if_neg hne] at hq'
        exact absurd hroute (hguard.accept d p new rest q' hp rfl hstate hbacklog hq')
  | @accept d new p q rest m hp hstate hbacklog hq =>
      have hpop := (hmono h).pop hp hbacklog fun _ _ ↦ .inr (.inr ⟨q.remoteEndp, rfl⟩)
      exact hpop.set_same hq ⟨rfl, rfl, rfl, rfl⟩ rfl rfl
  | tick hnone hsome _ =>
      refine hmono (h.tick hqueue hguard hnone fun j p hp ↦ ?_)
      rcases hsome j p hp with ⟨hj, -, hlive⟩ | ⟨hj, -, hcause⟩
      · exact .inl ⟨hj, hlive⟩
      · exact .inr ⟨hj, hcause⟩

/-- What `close` leaves of the block: nothing, a connection that is closing, or the
closed block that it found. -/
theorem closeCall_spec (env : Env) (tcp : Tcp) (d : TcpDesc) :
    ((closeCall env tcp d).reply = .ok ∨ (closeCall env tcp d).reply = .err) ∧
      ∀ p', (closeCall env tcp d).tcp.get d = some p' →
        p'.state.leaving = true ∨ tcp.get d = some p' ∧ p'.state = .closed := by
  cases hp : tcp.get d with
  | none =>
      simp only [closeCall, hp]
      exact ⟨.inr trivial, by simp⟩
  | some p =>
      have hshut : ∀ state : TcpState, state.leaving = true → ∀ p',
          (tcp.set d (sendFin env p state).1).get d = some p' → p'.state.leaving = true := by
        intro state hleaving p' hp'
        rw [get_set hp, if_pos rfl, sendFin_eq] at hp'
        cases hp'
        exact hleaving
      cases hs : p.state with
      | closed =>
          simp only [closeCall, hp, hs]
          exact ⟨.inr trivial, fun p' hp' ↦ .inr ⟨hp', by rw [← Option.some.inj hp', hs]⟩⟩
      | listen | synSent =>
          simp only [closeCall, hp, hs]
          refine ⟨by split <;> simp, fun p' hp' ↦ ?_⟩
          have hfreed := (pcbRelease_closed_spec env hp).1.freed
          exact absurd (hp'.symm.trans hfreed) (by simp)
      | synReceived | established =>
          simp only [closeCall, hp, hs]
          exact ⟨.inl trivial, fun p' hp' ↦ .inl (hshut .finWait1 rfl p' hp')⟩
      | closeWait =>
          simp only [closeCall, hp, hs]
          exact ⟨.inl trivial, fun p' hp' ↦ .inl (hshut .lastAck rfl p' hp')⟩
      | finWait1 | finWait2 | closing | lastAck | timeWait =>
          simp only [closeCall, hp, hs]
          refine ⟨.inr trivial, fun p' hp' ↦ .inl ?_⟩
          rw [← Option.some.inj hp', hs]
          rfl

end

end Tcp

end Microps
