import Microps.Tcp.Backlog

/-!
# The bound on the backlog

`segment_arrives` compares the backlog of a listener with `backlog_max` when a SYN
arrives, but a child is only put into the backlog when its handshake is complete.  Any
number of children may be half open in between, so the bound holds in the runs in which
a handshake only ever completes while there is room.
-/

namespace Microps.Tcp

/-- The segment completes the handshake of the child `p` in slot `d`, whose parent is in
slot `l`. -/
structure Completes (tcp : Tcp) (s : TcpSegment) (d l : TcpDesc) (p : TcpPcb) : Prop where
  select : pcbSelect tcp.pcbs s.dst s.src = some d
  block : tcp.get d = some p
  state : p.state = .synReceived
  reaches : ReachesAck p s
  passes : passesAck p s.info
  parent : p.parentDesc = some l

/-- How a block comes to be a listener with its backlog. -/
inductive Listens (tcp : Tcp) (d : TcpDesc) : Event → TcpPcb → Prop
  /-- It was one, and its backlog has not grown. -/
  | keeps {ev : Event} {p p' : TcpPcb} (hp : tcp.get d = some p) (hstate : p.state = .listen)
      (hmode : p'.mode = p.mode) (hmax : p'.backlogMax = p.backlogMax)
      (hbacklog : p'.backlog.length ≤ p.backlog.length) : Listens tcp d ev p'
  /-- It was one, and a child has joined. -/
  | joins {s : TcpSegment} {c : TcpDesc} {p p' q : TcpPcb} (hp : tcp.get d = some p)
      (hstate : p.state = .listen) (hmode : p'.mode = p.mode)
      (hmax : p'.backlogMax = p.backlogMax) (hchild : Completes tcp s c d q)
      (hbacklog : p'.backlog = p.backlog ++ [c]) : Listens tcp d (.arrive s) p'
  /-- It is one by a call of `listen`. -/
  | listen {n : Nat} {p p' : TcpPcb} (hp : tcp.get d = some p) (hstate : p.state = .closed)
      (hmax : p'.backlogMax = n) (hbacklog : p'.backlog = p.backlog) :
      Listens tcp d (.listen d n) p'
  | new {ev : Event} {p' : TcpPcb} (hbacklog : p'.backlog = []) : Listens tcp d ev p'

section

variable {env : Env} {tcp : Tcp} {ev : Event} {out : Outcome} {d : TcpDesc} {p p' : TcpPcb}

theorem BlockStep.listens {es : List Effect} {reply : Reply} (hp : tcp.get d = some p)
    (h : BlockStep env tcp d ev p es reply p') (hlisten : p'.state = .listen) :
    Listens tcp d ev p' := by
  cases h with
  | mss m | bind l _ | take len n wnd _ _ _ _ => exact .keeps hp hlisten rfl rfl (Nat.le_refl _)
  | listen n hstate => exact .listen hp hstate rfl rfl
  | connectFails _ | interrupted | synFails l r _ _ => exact absurd hlisten (by simp)
  | syn l r _ _ => exact absurd hlisten (by simp [Tcp.synSent])
  | passive s _ _ _ _ _ _ =>
      rw [passiveOpen_eq] at hlisten
      exact absurd hlisten (by simp)
  | synSent s acceptable _ _ _ _ _ =>
      obtain ⟨q, -, hcases⟩ := synInSynSent_cases env p s.info acceptable
      rcases hcases with ⟨-, hcase⟩ | ⟨-, hcase⟩
      · rw [hcase] at hlisten
        exact absurd hlisten (by simp)
      · rw [hcase] at hlisten
        exact absurd hlisten (by simp)
  | fin state hstate =>
      rw [sendFin_eq] at hlisten
      rcases hstate with ⟨-, rfl⟩ | ⟨-, rfl⟩ <;> exact absurd hlisten (by simp)
  | data data sent n hstate _ _ _ =>
      rw [sendData_eq] at hlisten ⊢
      exact .keeps hp hlisten rfl rfl (Nat.le_refl _)

/-- **Backlogs**: a move lets the backlog of a listener grow in one way only. -/
theorem Move.listens (h : Move env tcp ev out) (hp' : out.tcp.get d = some p')
    (hlisten : p'.state = .listen) : Listens tcp d ev p' := by
  rcases h.slots with ⟨-, hold⟩ | ⟨c, q, tcp', -, -, hbirth, hget⟩
  · obtain ⟨p, hp, hstays⟩ := hold d p' hp'
    cases hstays with
    | same => exact .keeps hp hlisten rfl rfl (Nat.le_refl _)
    | block hblock => exact hblock.listens hp hlisten
    | arrived s _ hreach harrived => exact absurd hlisten (harrived.state hreach.state).2.1
    | joins s c hselect hq hstate hreach hpasses hparent =>
        exact .joins hp hlisten rfl rfl ⟨hselect, hq, hstate, hreach, hpasses, hparent⟩ rfl
    | pops hbacklog => exact .keeps hp hlisten rfl rfl (by simp [hbacklog])
    | handed l m backlog hbacklog _ => exact .keeps hp hlisten rfl rfl hbacklog.length_le
    | tick =>
        rcases retransEmit_cases env p with heq | ⟨f, -, heq⟩
        · rw [heq] at hlisten
          exact absurd hlisten (by simp)
        · rw [heq] at hlisten ⊢
          exact .keeps hp hlisten rfl rfl (Nat.le_refl _)
  · rw [hget] at hp'
    split at hp'
    · cases hp'
      exact .new hbirth.newborn.backlog
    · exact .keeps hp' hlisten rfl rfl (Nat.le_refl _)

end

/-- There is room in the backlog of a listening socket when a handshake completes, and
`listen` asks for no less than the backlog already holds. -/
def HasRoom (_ : Env) (tcp : Tcp) : Event → Prop
  | .arrive s => ∀ d l p q, Completes tcp s d l p → tcp.get l = some q → q.state = .listen →
      q.mode = .socket → q.backlog.length < q.backlogMax
  | .listen d n => ∀ p, tcp.get d = some p → p.state = .closed → p.backlog.length ≤ n
  | _ => True

/-- **The bound on the backlog**: in a run in which there is room whenever a handshake
completes, the backlog of a listening socket never exceeds `backlog_max`. -/
theorem backlog_bounded {tcp : Tcp} (h : ReachableWhen HasRoom tcp) {d : TcpDesc} {p : TcpPcb}
    (hp : tcp.get d = some p) (hstate : p.state = .listen) (hmode : p.mode = .socket) :
    p.backlog.length ≤ p.backlogMax := by
  suffices hall : ∀ d p, tcp.get d = some p → p.state = .listen → p.mode = .socket →
      p.backlog.length ≤ p.backlogMax from hall d p hp hstate hmode
  refine Machine.Reach.invariant (fun tcp : Tcp ↦ ∀ d p, tcp.get d = some p →
    p.state = .listen → p.mode = .socket → p.backlog.length ≤ p.backlogMax) ?_ ?_ h
  · rintro _ rfl d p hp
    exact absurd hp (by simp [Tcp.get])
  · rintro tcp ⟨env, ev⟩ _ ih ⟨hroom, out, hout, rfl⟩ d p' hp' hstate' hmode'
    cases (step_move hout).listens hp' hstate' with
    | keeps hp hs hm hmax hle =>
        rw [hmax]
        exact Nat.le_trans hle (ih d _ hp hs (hm ▸ hmode'))
    | joins hp hs hm hmax hchild hbacklog =>
        rw [hmax, hbacklog, List.length_append]
        exact hroom _ d _ _ hchild hp hs (hm ▸ hmode')
    | listen hp hs hmax hbacklog =>
        rw [hmax, hbacklog]
        exact hroom _ hp hs
    | new hbacklog => simp [hbacklog]

/-- A listener without room, or another block with a backlog. -/
def crowded (q : TcpPcb) : Bool :=
  if q.state = .listen then q.backlogMax ≤ q.backlog.length else q.backlog ≠ []

/-- No block is crowded. -/
def allHaveRoom (_ : Env) (tcp : Tcp) (_ : Event) : Bool :=
  !tcp.pcbs.any fun slot ↦ slot.any crowded

theorem hasRoom_of_allHaveRoom (env : Env) (tcp : Tcp) (ev : Event)
    (h : allHaveRoom env tcp ev = true) : HasRoom env tcp ev := by
  have hall : ∀ j q, tcp.get j = some q → crowded q = false := by
    intro j q hq
    rw [Bool.eq_false_iff]
    intro hfull
    simp only [allHaveRoom, Bool.not_eq_true'] at h
    exact absurd (h.symm.trans (Slots.any_any_iff.mpr ⟨j, q, hq, hfull⟩)) (by simp)
  cases ev with
  | arrive s =>
      intro d l p q _ hq hstate _
      simpa [crowded, hstate] using hall l q hq
  | listen d n =>
      intro p hp hstate
      have hnil : p.backlog = [] := by simpa [crowded, hstate] using hall d p hp
      simp [hnil]
  | _ => trivial

/-- A listener with room for two has one child in its backlog. -/
theorem backlog_bounded_one_child :
    ∃ tcp p, ReachableWhen HasRoom tcp ∧ tcp.get 0 = some p ∧ p.state = .listen ∧
      p.mode = .socket ∧ p.backlog = [1] ∧ p.backlog.length ≤ p.backlogMax := by
  obtain ⟨tcp, hreach, htest⟩ := exists_reachableWhen allHaveRoom hasRoom_of_allHaveRoom
    (fun tcp ↦ (tcp.get 0).any fun p ↦ p.state = .listen && p.mode = .socket && p.backlog = [1])
    oneChild (by decide +kernel)
  obtain ⟨p, hp, htest⟩ := (Option.any_eq_true _ _).mp htest
  simp only [Bool.and_eq_true, decide_eq_true_eq] at htest
  obtain ⟨⟨hstate, hmode⟩, hbacklog⟩ := htest
  exact ⟨tcp, p, hreach, hp, hstate, hmode, hbacklog, backlog_bounded hreach hp hstate hmode⟩

/-- A segment from another peer. -/
def fromOther (seq ack : U32) (flg : U8) : Env × Event :=
  (calmEnv, .arrive { src := ⟨⟨192, 0, 2, 3⟩, 9⟩, dst := hostEndp, seq := seq, ack := ack,
                      flg := flg, wnd := 1000, data := [] })

/-- Without the condition it fails: two SYNs arrive at a listener with room for one
before either handshake completes. -/
theorem backlog_overrun :
    ¬ ∀ tcp, Reachable tcp → ∀ d p, tcp.get d = some p → p.state = .listen → p.mode = .socket →
      p.backlog.length ≤ p.backlogMax := by
  intro hall
  obtain ⟨tcp, hreach, htest⟩ := exists_reachableWhen (fun _ _ _ ↦ true) (fun _ _ _ _ ↦ trivial)
    (fun tcp ↦ (tcp.get 0).any fun p ↦ p.state = .listen && p.mode = .socket &&
      p.backlog = [1, 2] && p.backlogMax = 1)
    [(calmEnv, .socket), (calmEnv, .bind 0 hostEndp), (calmEnv, .listen 0 1),
      fromPeer 500 0 flgSyn [], fromOther 700 0 flgSyn,
      fromPeer 501 101 flgAck [], fromOther 701 101 flgAck] (by decide +kernel)
  obtain ⟨p, hp, htest⟩ := (Option.any_eq_true _ _).mp htest
  simp only [Bool.and_eq_true, decide_eq_true_eq] at htest
  obtain ⟨⟨⟨hstate, hmode⟩, hbacklog⟩, hmax⟩ := htest
  exact absurd (hall tcp hreach 0 p hp hstate hmode) (by simp [hbacklog, hmax])

end Microps.Tcp
