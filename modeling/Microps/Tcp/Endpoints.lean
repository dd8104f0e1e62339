import Microps.Tcp.Identity
import Microps.Tcp.Select

/-!
# Endpoints

The local and remote endpoints of a block are assigned in five places, and each asks
`pcb_select` whether somebody has them already.  The answer is that of the receive path:
it includes closed blocks with the endpoints of their last connection, and listeners
only where nothing else matches.

Two blocks that are not listening therefore have different pairs of endpoints, unless a
listener becomes a closed block without being released.  Two bindings do not overlap,
unless a wildcard address is bound after a specific one: there the address test of
`pcb_select` has `!=` where that of `udp.rs` has `==`.
-/

namespace Microps.Tcp

/-! ## Pairs of endpoints -/

/-- The two blocks have the same local and the same remote endpoint. -/
def SamePair (p q : TcpPcb) : Prop :=
  p.localEndp = q.localEndp ∧ p.remoteEndp = q.remoteEndp

/-- An entry of the queue has passed the deadline, on which `retrans_emit` gives the
block up. -/
def expired (env : Env) (p : TcpPcb) : Bool :=
  p.queue.any fun e ↦ e.first + retransDeadline ≤ env.now

/-- The event makes a closed block of the listener `p` in slot `d`, which stays where it
is. -/
def GivenUp (env : Env) (ev : Event) (d : TcpDesc) (p : TcpPcb) : Prop :=
  p.state = .listen ∧ (ev = .connectInterrupted d ∨ ev = .timer ∧ expired env p = true)

/-- The event gives a block in slot `d` its endpoints. -/
def Assigns (tcp : Tcp) (d : TcpDesc) : Event → Prop
  | .bind c _ | .connectCall c _ => c = d
  | .arrive s => pcbSelect tcp.pcbs s.dst s.src = some d
  | _ => False

section

variable {env : Env} {tcp : Tcp} {ev : Event} {d : TcpDesc} {p p' q : TcpPcb} {l r : IpEndp}

theorem selects_self (hlocal : q.localEndp = l) (hremote : q.remoteEndp = r) :
    selects q l r = true := by
  simp [selects, hlocal, hremote]

/-- Who looks for a wildcard peer finds every block with the local endpoint. -/
theorem selects_any (hlocal : q.localEndp = l) : selects q l .any = true := by
  simp [selects, hlocal, IpEndp.any]

/-- The tick leaves a block closed exactly when it has expired. -/
theorem retransEmit_expired (env : Env) (p : TcpPcb) :
    SamePair p (retransEmit env p).1 ∧
      (retransEmit env p).1.state = if expired env p then .closed else p.state := by
  unfold retransEmit expired
  split
  · exact ⟨⟨rfl, rfl⟩, rfl⟩
  · exact ⟨⟨rfl, rfl⟩, rfl⟩

/-- What `pcb_select` does not find is nobody's. -/
theorem not_samePair_of_free (h : (pcbSelect tcp.pcbs l r).isSome = false) {j : TcpDesc}
    (hq : tcp.get j = some q) (hlocal : p'.localEndp = l) (hremote : p'.remoteEndp = r) :
    ¬ SamePair p' q := by
  rintro ⟨hl, hr⟩
  have hnot := pcbSelect_none (by simpa using h) hq
  have hself := selects_self (hl.symm.trans hlocal) (hr.symm.trans hremote)
  exact absurd (hself.symm.trans hnot) (by simp)

/-- Where a listener is found, the endpoints of the segment are nobody's but
listeners'. -/
theorem not_samePair_of_listener (h : pcbSelect tcp.pcbs l r = some d) (hp : tcp.get d = some p)
    (hlisten : p.state = .listen) {j : TcpDesc} (hq : tcp.get j = some q)
    (hstate : q.state ≠ .listen) (hlocal : p'.localEndp = l) (hremote : p'.remoteEndp = r) :
    ¬ SamePair p' q := by
  rintro ⟨hl, hr⟩
  obtain ⟨p₀, hp₀, -, hall⟩ := pcbSelect_some h
  obtain rfl : p = p₀ := by simpa using hp.symm.trans hp₀
  have hself := selects_self (hl.symm.trans hlocal) (hr.symm.trans hremote)
  exact hstate (hall hlisten j q hq hself)

/-- The block keeps its endpoints, and does not leave LISTEN unless it is given up; or it
gets endpoints that no block has which is not listening. -/
def KeepsPair (env : Env) (tcp : Tcp) (d : TcpDesc) (ev : Event) (p p' : TcpPcb) : Prop :=
  (SamePair p p' ∧ (p'.state ≠ .listen → p.state ≠ .listen ∨ GivenUp env ev d p)) ∨
    (Assigns tcp d ev ∧ ∀ j q, tcp.get j = some q → q.state ≠ .listen → ¬ SamePair p' q)

theorem KeepsPair.of_not_listen (hpair : SamePair p p') (hstate : p.state ≠ .listen) :
    KeepsPair env tcp d ev p p' :=
  .inl ⟨hpair, fun _ ↦ .inl hstate⟩

theorem KeepsPair.of_same (hpair : SamePair p p') (hstate : p'.state = p.state) :
    KeepsPair env tcp d ev p p' :=
  .inl ⟨hpair, fun h ↦ .inl (hstate ▸ h)⟩

theorem BlockStep.keepsPair {es : List Effect} {reply : Reply} (hp : tcp.get d = some p)
    (h : BlockStep env tcp d ev p es reply p') (hbind : ∀ l, ev ≠ .bind d l) :
    KeepsPair env tcp d ev p p' := by
  cases h with
  | mss m | take len n wnd _ _ _ _ => exact .of_same ⟨rfl, rfl⟩ rfl
  | bind l _ => exact absurd rfl (hbind l)
  | listen n _ => exact .inl ⟨⟨rfl, rfl⟩, fun h ↦ absurd rfl h⟩
  | connectFails hstate => exact .of_not_listen ⟨rfl, rfl⟩ hstate.2.1
  | interrupted =>
      by_cases hs : p.state = .listen
      · exact .inl ⟨⟨rfl, rfl⟩, fun _ ↦ .inr ⟨hs, .inl rfl⟩⟩
      · exact .of_not_listen ⟨rfl, rfl⟩ hs
  | syn l r hlocal _ =>
      rw [sendSyn_eq]
      exact .inr ⟨rfl, fun j q hq _ ↦ not_samePair_of_free hlocal.2 hq rfl rfl⟩
  | synFails l r hlocal _ =>
      rw [sendSyn_eq]
      exact .inr ⟨rfl, fun j q hq _ ↦ not_samePair_of_free hlocal.2 hq rfl rfl⟩
  | passive s hselect hstate _ _ _ _ =>
      rw [passiveOpen_eq]
      exact .inr ⟨hselect,
        fun j q hq hs ↦ not_samePair_of_listener hselect hp hstate hq hs rfl rfl⟩
  | synSent s acceptable _ hstate _ _ _ =>
      obtain ⟨q, hq, hcases⟩ := synInSynSent_cases env p s.info acceptable
      obtain ⟨snd, queue, heq, -⟩ := takeSyn_eq p s.info acceptable
      subst hq
      rcases hcases with ⟨-, hcase⟩ | ⟨-, hcase⟩
      · rw [hcase, heq]
        exact .of_not_listen ⟨rfl, rfl⟩ (by simp [hstate])
      · rw [hcase, heq]
        exact .of_not_listen ⟨rfl, rfl⟩ (by simp [hstate])
  | fin state hstate =>
      rw [sendFin_eq]
      refine .of_not_listen ⟨rfl, rfl⟩ ?_
      rcases hstate with ⟨h | h, -⟩ | ⟨h, -⟩ <;> simp [h]
  | data data sent n _ _ _ _ =>
      rw [sendData_eq]
      exact .of_same ⟨rfl, rfl⟩ rfl

theorem Evolve.keepsPair {reply : Reply} (hp : tcp.get d = some p)
    (h : Evolve env tcp d reply ev p p') (hbind : ∀ l, ev ≠ .bind d l) :
    KeepsPair env tcp d ev p p' := by
  cases h with
  | keep backlog mss accepted _ => exact .of_same ⟨rfl, rfl⟩ rfl
  | block hblock => exact hblock.keepsPair hp hbind
  | arrived s _ hreach harrived =>
      exact .of_not_listen harrived.endpoints hreach.state.2.1
  | tick =>
      obtain ⟨hpair, hstate⟩ := retransEmit_expired env p
      refine .inl ⟨hpair, fun hs ↦ ?_⟩
      by_cases hexp : expired env p = true
      · by_cases hl : p.state = .listen
        · exact .inr ⟨hl, .inr ⟨rfl, hexp⟩⟩
        · exact .inl hl
      · rw [hstate, if_neg hexp] at hs
        exact .inl hs

/-- `bind` succeeds only where no block has the local endpoint. -/
theorem bindCall_cases (tcp : Tcp) (d : TcpDesc) (l : IpEndp) :
    bindCall tcp d l = { tcp := tcp, reply := .err } ∨
      ∃ p, tcp.get d = some p ∧ p.state = .closed ∧ l.port ≠ 0 ∧
        pcbSelect tcp.pcbs l .any = none ∧
        bindCall tcp d l = { tcp := tcp.set d { p with localEndp := l }, reply := .ok } := by
  unfold bindCall
  split
  · exact .inl rfl
  next p hp =>
  split
  · exact .inl rfl
  next hok =>
  refine .inr ⟨p, hp, by tauto, fun h ↦ hok (.inl h), ?_, rfl⟩
  rw [← Option.not_isSome_iff_eq_none]
  exact fun h ↦ hok (.inr (.inr h))

end

/-! ## Connections are unique -/

/-- No two blocks that are not listening have the same pair of endpoints. -/
def UniquePairs (tcp : Tcp) : Prop :=
  ∀ d d' p p', tcp.get d = some p → tcp.get d' = some p' → d ≠ d' → p.state ≠ .listen →
    p'.state ≠ .listen → p.localEndp.port ≠ 0 → ¬ SamePair p p'

/-- Where a listener is given up, another block with its endpoints is a listener that is
not given up. -/
def GivesUpAlone (env : Env) (tcp : Tcp) (ev : Event) : Prop :=
  ∀ d d' p p', tcp.get d = some p → tcp.get d' = some p' → d ≠ d' → GivenUp env ev d p →
    p.localEndp.port ≠ 0 → SamePair p p' → p'.state = .listen ∧ ¬ GivenUp env ev d' p'

section

variable {env : Env} {tcp : Tcp} {ev : Event} {out : Outcome}

theorem SamePair.symm {p q : TcpPcb} (h : SamePair p q) : SamePair q p := ⟨h.1.symm, h.2.symm⟩

theorem SamePair.trans {p q r : TcpPcb} (h : SamePair p q) (h' : SamePair q r) : SamePair p r :=
  ⟨h.1.trans h'.1, h.2.trans h'.2⟩

/-- Blocks that stay in their slots. -/
theorem UniquePairs.evolve (h : UniquePairs tcp) (hguard : GivesUpAlone env tcp ev)
    (hold : ∀ d p', out.tcp.get d = some p' → ∃ p, tcp.get d = some p ∧ KeepsPair env tcp d ev p p') :
    UniquePairs out.tcp := by
  intro d₁ d₂ p₁' p₂' hp₁' hp₂' hne hs₁ hs₂ hport hpair
  obtain ⟨p₁, hp₁, hk₁⟩ := hold d₁ p₁' hp₁'
  obtain ⟨p₂, hp₂, hk₂⟩ := hold d₂ p₂' hp₂'
  -- Who assigns endpoints gives up no listener, and assigns them in one slot only.
  have hclash : ∀ {c c' : TcpDesc} {q : TcpPcb}, c ≠ c' → Assigns tcp c ev →
      ¬ Assigns tcp c' ev ∧ ¬ GivenUp env ev c' q := by
    intro c c' q hcc hassigns
    cases ev <;> simp_all [Assigns, GivenUp]
  rcases hk₁ with ⟨hsame₁, hst₁⟩ | ⟨hassigns₁, hfree₁⟩
  · rcases hk₂ with ⟨hsame₂, hst₂⟩ | ⟨hassigns₂, hfree₂⟩
    · have hpair₀ : SamePair p₁ p₂ := hsame₁.trans (hpair.trans hsame₂.symm)
      have hport₁ : p₁.localEndp.port ≠ 0 := by rwa [hsame₁.1]
      rcases hst₁ hs₁ with hl₁ | hgiven₁
      · rcases hst₂ hs₂ with hl₂ | hgiven₂
        · exact h d₁ d₂ p₁ p₂ hp₁ hp₂ hne hl₁ hl₂ hport₁ hpair₀
        · have hport₂ : p₂.localEndp.port ≠ 0 := by rwa [← hpair₀.1]
          exact hl₁ (hguard d₂ d₁ p₂ p₁ hp₂ hp₁ (Ne.symm hne) hgiven₂ hport₂ hpair₀.symm).1
      · obtain ⟨hlisten, hnot⟩ := hguard d₁ d₂ p₁ p₂ hp₁ hp₂ hne hgiven₁ hport₁ hpair₀
        rcases hst₂ hs₂ with hl₂ | hgiven₂
        · exact hl₂ hlisten
        · exact hnot hgiven₂
    · rcases hst₁ hs₁ with hl₁ | hgiven₁
      · exact hfree₂ d₁ p₁ hp₁ hl₁ (hpair.symm.trans hsame₁.symm)
      · exact (hclash (Ne.symm hne) hassigns₂).2 hgiven₁
  · rcases hk₂ with ⟨hsame₂, hst₂⟩ | ⟨hassigns₂, -⟩
    · rcases hst₂ hs₂ with hl₂ | hgiven₂
      · exact hfree₁ d₂ p₂ hp₂ hl₂ (hpair.trans hsame₂.symm)
      · exact (hclash hne hassigns₁).2 hgiven₂
    · exact (hclash (q := p₂) hne hassigns₁).1 hassigns₂

/-- A new block that is not listening has endpoints of its own, if any. -/
theorem Birth.free {d : TcpDesc} {task : TaskId} {es : List Effect} {reply : Reply} {p : TcpPcb}
    (h : Birth env tcp d task ev es reply p) (hstate : p.state ≠ .listen)
    (hport : p.localEndp.port ≠ 0) {j : TcpDesc} {q : TcpPcb} (hq : tcp.get j = some q)
    (hs : q.state ≠ .listen) : ¬ SamePair p q := by
  cases h with
  | socket => exact absurd rfl hport
  | listen l r => exact absurd rfl hstate
  | syn l l' r hopens _ =>
      obtain ⟨c, tcp', halloc, -, hfree⟩ := hopens
      have hjc : j ≠ c := by
        rintro rfl
        exact absurd (hq.symm.trans (pcbAlloc_spec halloc).1) (by simp)
      have hq' : tcp'.get j = some q := by rw [(pcbAlloc_spec halloc).2.2, if_neg hjc, hq]
      rw [sendSyn_eq]
      exact not_samePair_of_free hfree hq' rfl rfl
  | child s l p₀ child hselect hp hlisten _ _ _ _ _ hchild =>
      rw [passiveOpen_eq]
      exact not_samePair_of_listener hselect hp hlisten hq hs rfl rfl

/-- **One step** keeps connections apart. -/
theorem UniquePairs.step (h : UniquePairs tcp) (hguard : GivesUpAlone env tcp ev)
    (hout : step env tcp ev = .ok out) : UniquePairs out.tcp := by
  by_cases hbind : ∃ d l, ev = .bind d l
  · obtain ⟨d, l, rfl⟩ := hbind
    rcases bindCall_cases tcp d l with heq | ⟨p, hp, -, -, hnone, heq⟩
    · cases hout
      rwa [heq]
    · cases hout
      -- Whoever has the local endpoint would have been found.
      have hfree : ∀ j q, tcp.get j = some q → q.localEndp ≠ l := by
        intro j q hq hlocal
        exact absurd ((selects_any hlocal).symm.trans (pcbSelect_none hnone hq)) (by simp)
      rw [heq]
      intro d₁ d₂ p₁ p₂ hp₁ hp₂ hne hs₁ hs₂ hport hpair
      rw [get_set hp] at hp₁ hp₂
      split at hp₁ <;> split at hp₂
      · next h₁ h₂ => exact hne (h₁.trans h₂.symm)
      · cases hp₁
        exact hfree d₂ p₂ hp₂ hpair.1.symm
      · cases hp₂
        exact hfree d₁ p₁ hp₁ hpair.1
      · exact h d₁ d₂ p₁ p₂ hp₁ hp₂ hne hs₁ hs₂ hport hpair
  have hnobind : ∀ d l, ev ≠ .bind d l := fun d l heq ↦ hbind ⟨d, l, heq⟩
  rcases (step_move hout).blocks with ⟨-, hold⟩ | ⟨c, q, tcp', -, -, hbirth, hget⟩
  · refine h.evolve hguard fun d p' hp' ↦ ?_
    obtain ⟨p, hp, hevolve⟩ := hold d p' hp'
    exact ⟨p, hp, hevolve.keepsPair hp (hnobind d)⟩
  · intro d₁ d₂ p₁ p₂ hp₁ hp₂ hne hs₁ hs₂ hport hpair
    rw [hget] at hp₁ hp₂
    split at hp₁ <;> split at hp₂
    · next h₁ h₂ => exact hne (h₁.trans h₂.symm)
    · cases hp₁
      exact hbirth.free hs₁ hport hp₂ hs₂ hpair
    · cases hp₂
      exact hbirth.free hs₂ (hpair.1 ▸ hport) hp₁ hs₁ hpair.symm
    · exact h d₁ d₂ p₁ p₂ hp₁ hp₂ hne hs₁ hs₂ hport hpair

end

/-- **Connections are unique**: in a run in which no listener is given up that shares its
endpoints with a block that is not listening afterwards, no two allocated blocks that are
not listening and have a local port have the same pair of endpoints. -/
theorem connections_unique {tcp : Tcp} (h : ReachableWhen GivesUpAlone tcp) {d d' : TcpDesc}
    {p p' : TcpPcb} (hp : tcp.get d = some p) (hp' : tcp.get d' = some p') (hne : d ≠ d')
    (hstate : p.state ≠ .listen) (hstate' : p'.state ≠ .listen) (hport : p.localEndp.port ≠ 0) :
    ¬ (p.localEndp = p'.localEndp ∧ p.remoteEndp = p'.remoteEndp) := by
  suffices hall : UniquePairs tcp from hall d d' p p' hp hp' hne hstate hstate' hport
  refine Machine.Reach.invariant UniquePairs ?_ ?_ h
  · rintro _ rfl d d' p p' hp
    exact absurd hp (by simp [Tcp.get])
  · rintro tcp ⟨env, ev⟩ _ ih ⟨hguard, out, hout, rfl⟩
    exact ih.step hguard hout

/-- The event gives nobody up. -/
def givesNobodyUp (_ : Env) (_ : Tcp) : Event → Bool
  | .connectInterrupted _ | .timer => false
  | _ => true

theorem givesUpAlone_of_givesNobodyUp (env : Env) (tcp : Tcp) (ev : Event)
    (h : givesNobodyUp env tcp ev = true) : GivesUpAlone env tcp ev := by
  rintro d d' p p' - - - ⟨-, hgiven⟩ - -
  rcases hgiven with rfl | ⟨rfl, -⟩
  · exact absurd h (by simp [givesNobodyUp])
  · exact absurd h (by simp [givesNobodyUp])

/-- Two active opens from one local endpoint. -/
theorem connections_unique_two_opens :
    ∃ tcp p p', ReachableWhen GivesUpAlone tcp ∧ tcp.get 0 = some p ∧ tcp.get 1 = some p' ∧
      p.localEndp = hostEndp ∧ p'.localEndp = hostEndp ∧
      ¬ (p.localEndp = p'.localEndp ∧ p.remoteEndp = p'.remoteEndp) := by
  obtain ⟨tcp, hreach, htest⟩ := exists_reachableWhen givesNobodyUp givesUpAlone_of_givesNobodyUp
    (fun tcp ↦ ((tcp.get 0).any fun p ↦ p.state = .synSent && p.localEndp = hostEndp) &&
      (tcp.get 1).any fun p ↦ p.state = .synSent && p.localEndp = hostEndp)
    [(calmEnv, .openCall hostEndp peerEndp true),
      (calmEnv, .openCall hostEndp ⟨⟨192, 0, 2, 3⟩, 9⟩ true)] (by decide +kernel)
  simp only [Bool.and_eq_true] at htest
  obtain ⟨p, hp, htest₀⟩ := (Option.any_eq_true _ _).mp htest.1
  obtain ⟨p', hp', htest₁⟩ := (Option.any_eq_true _ _).mp htest.2
  simp only [Bool.and_eq_true, decide_eq_true_eq] at htest₀ htest₁
  refine ⟨tcp, p, p', hreach, hp, hp', htest₀.2, htest₁.2, ?_⟩
  exact connections_unique hreach hp hp' (by decide) (by simp [htest₀.1]) (by simp [htest₁.1])
    (by rw [htest₀.2]; decide)

/-- The environment of the fixed runs when the deadline of the first segments has
passed. -/
def lateEnv : Env := { calmEnv with now := retransDeadline }

/-- Otherwise it fails: a `connect` is given up, the socket listens with the endpoints it
still has, a SYN from the same peer makes a child, and the next tick gives the listener
up for the SYN it once sent. -/
theorem connections_not_unique :
    ¬ ∀ tcp, Reachable tcp → ∀ d d' p p', tcp.get d = some p → tcp.get d' = some p' → d ≠ d' →
      p.state ≠ .listen → p'.state ≠ .listen → p.localEndp.port ≠ 0 →
      ¬ (p.localEndp = p'.localEndp ∧ p.remoteEndp = p'.remoteEndp) := by
  intro hall
  obtain ⟨tcp, hreach, htest⟩ := exists_reachableWhen (fun _ _ _ ↦ true) (fun _ _ _ _ ↦ trivial)
    (fun tcp ↦ ((tcp.get 0).any fun p ↦ p.state = .closed && p.localEndp = ⟨hostEndp.addr, 49152⟩ &&
        p.remoteEndp = peerEndp) &&
      (tcp.get 1).any fun p ↦ p.state = .synReceived && p.localEndp = ⟨hostEndp.addr, 49152⟩ &&
        p.remoteEndp = peerEndp)
    [(calmEnv, .socket), (routedEnv, .connectCall 0 peerEndp), (lateEnv, .timer),
      (lateEnv, .connectPoll 0), (lateEnv, .listen 0 1),
      (lateEnv, .arrive { src := peerEndp, dst := ⟨hostEndp.addr, 49152⟩, seq := 500, ack := 0,
                          flg := flgSyn, wnd := 1000, data := [] }),
      (lateEnv, .timer)] (by decide +kernel)
  simp only [Bool.and_eq_true] at htest
  obtain ⟨p, hp, htest₀⟩ := (Option.any_eq_true _ _).mp htest.1
  obtain ⟨p', hp', htest₁⟩ := (Option.any_eq_true _ _).mp htest.2
  simp only [Bool.and_eq_true, decide_eq_true_eq] at htest₀ htest₁
  refine hall tcp hreach 0 1 p p' hp hp' (by decide) (by simp [htest₀.1.1]) (by simp [htest₁.1.1])
    (by rw [htest₀.1.2]; decide) ⟨htest₀.1.2.trans htest₁.1.2.symm, htest₀.2.trans htest₁.2.symm⟩

/-! ## Bindings -/

/-- A table, and the tasks of the blocks that `bind`, or a passive open for any peer, has
given their local endpoint. -/
structure Bindings where
  tcp : Tcp := {}
  bound : List TaskId := []
deriving DecidableEq, Repr

/-- The block that an event binds. -/
def boundBy (tcp : Tcp) (out : Outcome) : Event → Option TaskId
  | .bind d _ => if out.reply = .ok then (tcp.get d).map (·.task) else none
  | .openCall _ r false => match out.reply with
    | .desc d => if r = .any then (out.tcp.get d).map (·.task) else none
    | _ => none
  | _ => none

def Bindings.after (b : Bindings) (ev : Event) (out : Outcome) : Bindings where
  tcp := out.tcp
  bound := b.bound ++ (boundBy b.tcp out ev).toList

/-- The bindings reached by the runs whose steps all meet the guard `G`. -/
def BindingsWhen (G : Bindings → Event → Prop) : Bindings → Prop :=
  Machine.Reach (· = {}) fun b (label : Env × Event) b' ↦
    G b label.2 ∧ ∃ out, step label.1 b.tcp label.2 = .ok out ∧ b' = b.after label.2 out

/-- Two local endpoints have the same port, and equal addresses or a wildcard. -/
def Overlap (l l' : IpEndp) : Prop :=
  l.port = l'.port ∧ (l.addr = l'.addr ∨ l.addr = .any ∨ l'.addr = .any)

/-- No block other than the one in slot `d` is bound to a specific address and the port
of `l`. -/
def ClearOfPort (b : Bindings) (d : Option TcpDesc) (l : IpEndp) : Prop :=
  ∀ j q, b.tcp.get j = some q → d ≠ some j → q.task ∈ b.bound → q.localEndp.addr ≠ .any →
    q.localEndp.port ≠ l.port

/-- `bind` goes ahead. -/
def Binds (tcp : Tcp) (d : TcpDesc) (l : IpEndp) : Prop :=
  l.port ≠ 0 ∧ (∃ p, tcp.get d = some p ∧ p.state = .closed) ∧ pcbSelect tcp.pcbs l .any = none

/-- Where `bind`, or a passive open for any peer, goes ahead with a wildcard address, no
specific address is bound to the port. -/
def WildcardClear (b : Bindings) : Event → Prop
  | .bind d l => l.addr = .any → Binds b.tcp d l → ClearOfPort b (some d) l
  | .openCall l r false => r = .any → l.addr = .any → OpensPassive b.tcp l r → ClearOfPort b none l
  | _ => True

/-- What holds of the bound blocks. -/
structure BindInv (b : Bindings) : Prop where
  tasks : TaskInv b.tcp
  fresh : ∀ t ∈ b.bound, t < b.tcp.nextTask
  port : ∀ d p, b.tcp.get d = some p → p.task ∈ b.bound → p.localEndp.port ≠ 0
  distinct : ∀ d d' p p', b.tcp.get d = some p → b.tcp.get d' = some p' → d ≠ d' →
    p.task ∈ b.bound → p'.task ∈ b.bound → p.localEndp.port ≠ p'.localEndp.port

section

variable {env : Env} {tcp : Tcp} {b : Bindings} {ev : Event} {out : Outcome} {d : TcpDesc}
  {p p' q : TcpPcb} {l r : IpEndp}

/-- `pcb_select` finds every block with the port, unless a wildcard is looked for and the
block has a specific address. -/
theorem port_ne_of_free (hnone : pcbSelect tcp.pcbs l .any = none) {j : TcpDesc}
    (hq : tcp.get j = some q)
    (hspecific : l.addr = .any → q.localEndp.addr ≠ .any → q.localEndp.port ≠ l.port) :
    q.localEndp.port ≠ l.port := by
  intro hport
  have hnot := pcbSelect_none hnone hq
  by_cases hl : l.addr = .any
  · by_cases hq' : q.localEndp.addr = .any
    · simp [selects, hport, hq', IpEndp.any] at hnot
    · exact hspecific hl hq' hport
  · simp [selects, hport, hl, IpEndp.any] at hnot

/-- The choice of a local endpoint keeps a port that is given. -/
theorem chooseLocal_port {l' : IpEndp} (h : chooseLocal env tcp l r = some l')
    (hport : l.port ≠ 0) : l'.port = l.port := by
  simp only [chooseLocal, if_neg hport] at h
  split at h <;> obtain ⟨addr, -, heq⟩ := Option.bind_eq_some_iff.mp h <;> cases heq <;> rfl

/-- A block keeps a port that it has, until the next `bind`. -/
theorem Evolve.port {reply : Reply} (hp : tcp.get d = some p)
    (h : Evolve env tcp d reply ev p p') (hbind : ∀ l, ev ≠ .bind d l)
    (hport : p.localEndp.port ≠ 0) : p'.localEndp.port = p.localEndp.port := by
  cases h with
  | keep backlog mss accepted _ => rfl
  | block hblock =>
      cases hblock with
      | mss m | listen n _ | connectFails _ | interrupted | take len n wnd _ _ _ _ => rfl
      | bind l _ => exact absurd rfl (hbind l)
      | syn l r hlocal _ =>
          rw [sendSyn_eq]
          exact chooseLocal_port hlocal.1 hport
      | synFails l r hlocal _ =>
          rw [sendSyn_eq]
          exact chooseLocal_port hlocal.1 hport
      | passive s hselect _ _ _ _ _ =>
          obtain ⟨p₀, hp₀, hsel, -⟩ := pcbSelect_some hselect
          obtain rfl : p = p₀ := by simpa using hp.symm.trans hp₀
          rw [passiveOpen_eq]
          exact (of_decide_eq_true hsel).1.symm
      | synSent s acceptable _ _ _ _ _ =>
          obtain ⟨q, hq, hcases⟩ := synInSynSent_cases env p s.info acceptable
          obtain ⟨snd, queue, heq, -⟩ := takeSyn_eq p s.info acceptable
          subst hq
          rcases hcases with ⟨-, hcase⟩ | ⟨-, hcase⟩ <;> rw [hcase, heq]
      | fin state _ => rw [sendFin_eq]
      | data data sent n _ _ _ _ => rw [sendData_eq]
  | arrived s _ _ harrived =>
      rw [harrived.endpoints.1]
  | tick => rw [← (retransEmit_expired env p).1.1]

/-- A passive open succeeds only where `pcb_select` finds nothing, not even the new
block. -/
theorem openCall_passive_cases (h : openCall env tcp l r false = .ok out) :
    out.reply = .err ∨ ∃ c tcp', tcp.pcbAlloc = some (c, tcp') ∧
      pcbSelect tcp'.pcbs l r = none ∧
      out = { tcp := tcp'.set c { TcpPcb.empty tcp.nextTask with
                localEndp := l, remoteEndp := r, state := .listen },
              reply := .desc c } := by
  unfold openCall at h
  split at h
  · cases h
    exact .inl rfl
  next c tcp' halloc =>
  rw [if_neg (by simp)] at h
  split at h
  · cases h
    exact .inl rfl
  next hfree =>
  simp only [get_pcbAlloc halloc, unwrap, bind, Except.bind] at h
  cases h
  exact .inr ⟨c, tcp', halloc, by simpa using hfree, rfl⟩

/-- A step that binds nothing. -/
theorem BindInv.keep (h : BindInv b) (hout : step env b.tcp ev = .ok out)
    (hnone : boundBy b.tcp out ev = none) (hbind : ∀ d l, ev = .bind d l → out.tcp = b.tcp) :
    BindInv (b.after ev out) := by
  have hmove := step_move hout
  have hbound : (b.after ev out).bound = b.bound := by simp [Bindings.after, hnone]
  -- A bound block was there before, with the same port.
  have hold : ∀ d p', out.tcp.get d = some p' → p'.task ∈ b.bound →
      ∃ p, b.tcp.get d = some p ∧ p.task ∈ b.bound ∧ p'.localEndp.port = p.localEndp.port := by
    intro d p' hp' hin
    by_cases hb : ∃ l, ev = .bind d l
    · obtain ⟨l, rfl⟩ := hb
      rw [hbind d l rfl] at hp'
      exact ⟨p', hp', hin, rfl⟩
    rcases hmove.blocks with ⟨-, hall⟩ | ⟨c, q, tcp', -, -, hbirth, hget⟩
    · obtain ⟨p, hp, hevolve⟩ := hall d p' hp'
      have hin' : p.task ∈ b.bound := hevolve.same.1.task ▸ hin
      exact ⟨p, hp, hin', hevolve.port hp (fun l heq ↦ hb ⟨l, heq⟩) (h.port d p hp hin')⟩
    · rw [hget] at hp'
      split at hp'
      · cases hp'
        rw [hbirth.newborn.task] at hin
        exact absurd (h.fresh _ hin) (Nat.lt_irrefl _)
      · exact ⟨p', hp', hin, rfl⟩
  constructor
  · exact h.tasks.move hmove
  · intro t ht
    exact Nat.lt_of_lt_of_le (h.fresh t (hbound ▸ ht)) hmove.nextTask_le
  · intro d p' hp' hin
    obtain ⟨p, hp, hin, hport⟩ := hold d p' hp' (hbound ▸ hin)
    rw [hport]
    exact h.port d p hp hin
  · intro d₁ d₂ p₁' p₂' hp₁' hp₂' hne hin₁ hin₂
    obtain ⟨p₁, hp₁, hin₁, hport₁⟩ := hold d₁ p₁' hp₁' (hbound ▸ hin₁)
    obtain ⟨p₂, hp₂, hin₂, hport₂⟩ := hold d₂ p₂' hp₂' (hbound ▸ hin₂)
    rw [hport₁, hport₂]
    exact h.distinct d₁ d₂ p₁ p₂ hp₁ hp₂ hne hin₁ hin₂

/-- A step that binds the block in slot `c` to a port that is nobody else's. -/
theorem BindInv.add {c : TcpDesc} (h : BindInv b) (hout : step env b.tcp ev = .ok out)
    (hbound : boundBy b.tcp out ev = some p.task) (hport : p.localEndp.port ≠ 0)
    (hget : ∀ j, out.tcp.get j = if j = c then some p else b.tcp.get j)
    (hfree : ∀ j q, b.tcp.get j = some q → j ≠ c → q.task ∈ b.bound →
      q.localEndp.port ≠ p.localEndp.port) : BindInv (b.after ev out) := by
  have hmove := step_move hout
  have htasks : TaskInv out.tcp := h.tasks.move hmove
  have hp : out.tcp.get c = some p := by rw [hget, if_pos rfl]
  have hmem : ∀ {t}, t ∈ (b.after ev out).bound ↔ t ∈ b.bound ∨ t = p.task := by
    simp [Bindings.after, hbound]
  -- Another bound block was bound before.
  have hold : ∀ j q, out.tcp.get j = some q → q.task ∈ (b.after ev out).bound → j ≠ c →
      b.tcp.get j = some q ∧ q.task ∈ b.bound := by
    intro j q hq hin hjc
    refine ⟨by rwa [hget, if_neg hjc] at hq, (hmem.mp hin).resolve_right fun heq ↦ ?_⟩
    exact hjc (htasks.distinct j c q p hq hp heq)
  constructor
  · exact htasks
  · intro t ht
    rcases hmem.mp ht with ht | rfl
    · exact Nat.lt_of_lt_of_le (h.fresh t ht) hmove.nextTask_le
    · exact htasks.fresh c p hp
  · intro j q hq hin
    by_cases hjc : j = c
    · subst hjc
      obtain rfl : p = q := by simpa using hp.symm.trans hq
      exact hport
    · obtain ⟨hq, hin⟩ := hold j q hq hin hjc
      exact h.port j q hq hin
  · intro d₁ d₂ p₁ p₂ hp₁ hp₂ hne hin₁ hin₂
    by_cases h₁ : d₁ = c
    · subst h₁
      obtain rfl : p = p₁ := by simpa using hp.symm.trans hp₁
      obtain ⟨hp₂, hin₂⟩ := hold d₂ p₂ hp₂ hin₂ (Ne.symm hne)
      exact Ne.symm (hfree d₂ p₂ hp₂ (Ne.symm hne) hin₂)
    · obtain ⟨hp₁, hin₁⟩ := hold d₁ p₁ hp₁ hin₁ h₁
      by_cases h₂ : d₂ = c
      · subst h₂
        obtain rfl : p = p₂ := by simpa using hp.symm.trans hp₂
        exact hfree d₁ p₁ hp₁ hne hin₁
      · obtain ⟨hp₂, hin₂⟩ := hold d₂ p₂ hp₂ hin₂ h₂
        exact h.distinct d₁ d₂ p₁ p₂ hp₁ hp₂ hne hin₁ hin₂

/-- **One step** keeps bindings apart, if a wildcard is bound after no specific
address. -/
theorem BindInv.step (h : BindInv b) (hguard : WildcardClear b ev)
    (hout : step env b.tcp ev = .ok out) : BindInv (b.after ev out) := by
  by_cases hbind : ∃ d l, ev = .bind d l
  · obtain ⟨d, l, rfl⟩ := hbind
    rcases bindCall_cases b.tcp d l with heq | ⟨p, hp, hstate, hport, hnone, heq⟩
    · obtain rfl : out = { tcp := b.tcp, reply := .err } := by
        rw [← heq]
        exact (Except.ok.inj hout).symm
      exact h.keep hout (by simp [boundBy]) fun _ _ _ ↦ rfl
    · obtain rfl : out = { tcp := b.tcp.set d { p with localEndp := l }, reply := .ok } := by
        rw [← heq]
        exact (Except.ok.inj hout).symm
      refine h.add (c := d) hout (by simp [boundBy, hp]) hport (get_set hp _) ?_
      intro j q hq hjd hin
      exact port_ne_of_free hnone hq fun hany hs ↦
        hguard hany ⟨hport, ⟨p, hp, hstate⟩, hnone⟩ j q hq (by simpa using Ne.symm hjd) hin hs
  have hnobind : ∀ d l, ev = .bind d l → out.tcp = b.tcp :=
    fun d l heq ↦ absurd ⟨d, l, heq⟩ hbind
  by_cases hopen : ∃ l, ev = .openCall l .any false
  · obtain ⟨l, rfl⟩ := hopen
    rcases openCall_passive_cases hout with herr | ⟨c, tcp', halloc, hnone, rfl⟩
    · exact h.keep hout (by simp [boundBy, herr]) hnobind
    · have hget := get_birth halloc { TcpPcb.empty b.tcp.nextTask with
        localEndp := l, remoteEndp := .any, state := .listen }
      refine h.add (c := c) hout ?_ ?_ hget ?_
      · simp [boundBy, hget]
      · -- On port 0 the new block itself is found.
        intro hport
        have hself := pcbSelect_none hnone (get_pcbAlloc halloc)
        have hport : l.port = 0 := hport
        simp [selects, TcpPcb.empty, IpEndp.any, hport] at hself
      · intro j q hq hjc hin
        have hq' : tcp'.get j = some q := by rw [(pcbAlloc_spec halloc).2.2, if_neg hjc, hq]
        exact port_ne_of_free hnone hq' fun hany hs ↦
          hguard rfl hany ⟨c, tcp', halloc, by simp [hnone]⟩ j q hq (by simp) hin hs
  · refine h.keep hout ?_ hnobind
    cases ev with
    | bind d l => exact absurd ⟨d, l, rfl⟩ hbind
    | openCall l r active =>
        cases active with
        | true => rfl
        | false =>
            have hr : r ≠ .any := by
              rintro rfl
              exact hopen ⟨l, rfl⟩
            cases hreply : out.reply <;> simp [boundBy, hreply, hr]
    | _ => rfl

end

theorem BindingsWhen.inv {b : Bindings} (h : BindingsWhen WildcardClear b) : BindInv b := by
  refine Machine.Reach.invariant BindInv ?_ ?_ h
  · rintro _ rfl
    constructor
    · constructor <;> simp [Tcp.get]
    all_goals simp [Tcp.get]
  · rintro b ⟨env, ev⟩ _ ih ⟨hguard, out, hout, rfl⟩
    exact ih.step hguard hout

/-- **Bindings do not overlap**: in a run in which a wildcard address is bound only where
no specific address is bound to the port, no two blocks that `bind` or a passive open for
any peer has bound overlap. -/
theorem bindings_disjoint {b : Bindings} (h : BindingsWhen WildcardClear b) {d d' : TcpDesc}
    {p p' : TcpPcb} (hp : b.tcp.get d = some p) (hp' : b.tcp.get d' = some p') (hne : d ≠ d')
    (hbound : p.task ∈ b.bound) (hbound' : p'.task ∈ b.bound) :
    ¬ Overlap p.localEndp p'.localEndp :=
  fun hoverlap ↦ h.inv.distinct d d' p p' hp hp' hne hbound hbound' hoverlap.1

/-- No block has the port. -/
def portUnused (tcp : Tcp) (l : IpEndp) : Bool :=
  !tcp.pcbs.any fun slot ↦ slot.any fun q ↦ q.localEndp.port = l.port

/-- A port is bound only where no block has it. -/
def bindsUnused (b : Bindings) : Event → Bool
  | .bind _ l | .openCall l _ false => portUnused b.tcp l
  | _ => true

theorem clearOfPort_of_portUnused {b : Bindings} {l : IpEndp} (d : Option TcpDesc)
    (h : portUnused b.tcp l = true) : ClearOfPort b d l := by
  intro j q hq _ _ _ hport
  simp only [portUnused, Bool.not_eq_true'] at h
  exact absurd (h.symm.trans (Slots.any_any_iff.mpr ⟨j, q, hq, by simpa using hport⟩)) (by simp)

theorem wildcardClear_of_bindsUnused {b : Bindings} {ev : Event} (h : bindsUnused b ev = true) :
    WildcardClear b ev := by
  cases ev with
  | bind d l => exact fun _ _ ↦ clearOfPort_of_portUnused _ h
  | openCall l r active =>
      cases active with
      | true => trivial
      | false => exact fun _ _ _ ↦ clearOfPort_of_portUnused _ h
  | _ => trivial

/-- One guarded step of the bindings of a fixed run. -/
def bindingsStep (g : Bindings → Event → Bool) (b : Bindings) (label : Env × Event) :
    Checked Bindings :=
  if g b label.2 then (step label.1 b.tcp label.2).map (b.after label.2) else .error .unwrap

theorem exists_bindingsWhen {G : Bindings → Event → Prop} (g : Bindings → Event → Bool)
    (hg : ∀ b ev, g b ev = true → G b ev) (P : Bindings → Bool) (labels : List (Env × Event))
    (h : Machine.execTest (bindingsStep g) P {} labels = true) :
    ∃ b, BindingsWhen G b ∧ P b = true := by
  refine Machine.exists_reach_of_execTest ?_ rfl h
  intro b label b' hstep
  unfold bindingsStep at hstep
  split at hstep
  · next hok =>
    obtain ⟨out, hout, heq⟩ := Machine.exists_of_map_ok hstep
    exact ⟨hg b label.2 hok, out, hout, heq.symm⟩
  · exact absurd hstep (by simp)

/-- The first two blocks of the fixed runs are bound, to `l` and to `l'`. -/
def bothBound (l l' : IpEndp) (b : Bindings) : Bool :=
  ((b.tcp.get 0).any fun p ↦ p.localEndp = l && b.bound.contains p.task) &&
    (b.tcp.get 1).any fun p ↦ p.localEndp = l' && b.bound.contains p.task

theorem exists_of_bothBound {l l' : IpEndp} {b : Bindings} (h : bothBound l l' b = true) :
    ∃ p p', b.tcp.get 0 = some p ∧ b.tcp.get 1 = some p' ∧ p.task ∈ b.bound ∧
      p'.task ∈ b.bound ∧ p.localEndp = l ∧ p'.localEndp = l' := by
  obtain ⟨h₀, h₁⟩ := Bool.and_eq_true_iff.mp h
  obtain ⟨p, hp, htest⟩ := (Option.any_eq_true _ _).mp h₀
  obtain ⟨p', hp', htest'⟩ := (Option.any_eq_true _ _).mp h₁
  simp only [Bool.and_eq_true, decide_eq_true_eq, List.contains_iff_mem] at htest htest'
  exact ⟨p, p', hp, hp', htest.2, htest'.2, htest.1, htest'.1⟩

/-- A specific address on port 7 and the wildcard on port 8. -/
theorem bindings_disjoint_two_ports :
    ∃ b p p', BindingsWhen WildcardClear b ∧ b.tcp.get 0 = some p ∧ b.tcp.get 1 = some p' ∧
      p.task ∈ b.bound ∧ p'.task ∈ b.bound ∧ ¬ Overlap p.localEndp p'.localEndp := by
  obtain ⟨b, hreach, htest⟩ := exists_bindingsWhen bindsUnused
    (fun _ _ ↦ wildcardClear_of_bindsUnused) (bothBound hostEndp ⟨.any, 8⟩)
    [(calmEnv, .socket), (calmEnv, .bind 0 hostEndp), (calmEnv, .openCall ⟨.any, 8⟩ .any false)]
    (by decide +kernel)
  obtain ⟨p, p', hp, hp', hbound, hbound', -, -⟩ := exists_of_bothBound htest
  exact ⟨b, p, p', hreach, hp, hp', hbound, hbound',
    bindings_disjoint hreach hp hp' (by decide) hbound hbound'⟩

/-- Otherwise it fails: after the specific address, the wildcard is bound to the same
port. -/
theorem bindings_overlap :
    ¬ ∀ b, BindingsWhen (fun _ _ ↦ True) b → ∀ d d' p p', b.tcp.get d = some p →
      b.tcp.get d' = some p' → d ≠ d' → p.task ∈ b.bound → p'.task ∈ b.bound →
      ¬ Overlap p.localEndp p'.localEndp := by
  intro hall
  obtain ⟨b, hreach, htest⟩ := exists_bindingsWhen (G := fun _ _ ↦ True) (fun _ _ ↦ true)
    (fun _ _ _ ↦ trivial) (bothBound hostEndp ⟨.any, hostEndp.port⟩)
    [(calmEnv, .socket), (calmEnv, .bind 0 hostEndp), (calmEnv, .socket),
      (calmEnv, .bind 1 ⟨.any, hostEndp.port⟩)] (by decide +kernel)
  obtain ⟨p, p', hp, hp', hbound, hbound', hlocal, hlocal'⟩ := exists_of_bothBound htest
  refine hall b hreach 0 1 p p' hp hp' (by decide) hbound hbound' ⟨?_, .inr (.inr ?_)⟩
  · rw [hlocal, hlocal']
  · rw [hlocal']

end Microps.Tcp
