import Microps.Lib.Waiter
import Microps.Tcp.Backlog
import Microps.Tcp.Deliver
import Microps.Udp.Deliver

/-!
# Blocking calls and the blocks they began with

`udp::recvfrom` and `tcp::receive` wait for their block outside the lock of the table, and
look it up again by its slot afterwards.  `close` empties the slot before it wakes them, so a
new block may be there first: then the call goes on with the data of a socket it was not
called on.  `receive` at least fails on a block that is not connected.  `Udp.host` and
`Tcp.host` are the two modules as machines with calls that wait.
-/

namespace Microps

/-! ## `udp::recvfrom` -/

namespace Udp

/-- The UDP module, and the rounds of `recvfrom` into a buffer of some length. -/
def host : Waiter.Host Journal (Env × Event) Reply TaskId Env Nat Panic where
  step j label := (step label.1 j.udp label.2).map fun out ↦
    (out.reply, j.after label.1 label.2 out)
  occupant j d := (j.udp.get d).map (·.task)
  serves j d := (j.udp.get d).isSome
  round env d len := (env, .recvfrom d len)
  waits
    | .wait _ => true
    | _ => false

/-- The UDP module and its pending calls. -/
abbrev World := Waiter.World Journal TaskId Nat

/-- The event is an `open` that takes slot `d`. -/
def Fills (j : Journal) (label : Env × Event) (d : Nat) : Prop :=
  label.2 = .open ∧ ∃ udp', j.udp.pcbAlloc = some (d, udp')

/-- `open` takes no slot on which a call is pending. -/
def SparesCalls (w : World) : Waiter.Label (Env × Event) Env Nat → Prop
  | .event e => ∀ i c, w.calls.peek i = some c → ¬ Fills w.host e c.desc
  | _ => True

/-- What a call on slot `c.desc` should return: the next datagram of those that arrived for
the block with which it began, or an error once that block is gone. -/
structure Faithful (j : Journal) (c : Waiter.Pending TaskId Nat) (reply : Reply) : Prop where
  data : ∀ remote data, reply = .datagram remote data → ∃ task entry rest,
    c.origin = some task ∧ j.arrived task = j.popped task ++ entry :: rest ∧
      remote = entry.remote ∧ data = entry.data.take (min c.arg entry.data.length)
  gone : (∀ p, j.udp.get c.desc = some p → c.origin ≠ some p.task) → reply = .err

section

variable {env : Env} {j j' : Journal} {ev : Event} {reply : Reply}

theorem host_step (h : host.step j (env, ev) = .ok (reply, j')) :
    ∃ out, step env j.udp ev = .ok out ∧ out.reply = reply ∧ j' = j.after env ev out := by
  obtain ⟨out, hout, heq⟩ := Machine.exists_of_map_ok h
  cases heq
  exact ⟨out, hout, rfl, rfl⟩

/-- What an event does to the occupant of a slot. -/
theorem Move.occupant {udp : Udp} {out : Outcome} (h : Move env udp ev out) (d : UdpDesc) :
    (out.udp.get d).map (·.task) = (udp.get d).map (·.task) ∨
      (out.udp.get d).map (·.task) = none ∨
      ((udp.get d).map (·.task) = none ∧ ev = .open ∧ ∃ udp', udp.pcbAlloc = some (d, udp')) := by
  have hset : ∀ {c : UdpDesc} {p : UdpPcb} (q : UdpPcb), udp.get c = some p → q.task = p.task →
      ((udp.set c q).get d).map (·.task) = (udp.get d).map (·.task) := by
    intro c p q hp htask
    rw [get_set hp]
    split
    · next hd => rw [hd, hp, Option.map_some, Option.map_some, htask]
    · rfl
  cases h with
  | idle _ _ _ => exact .inl rfl
  | @opened c udp' halloc =>
      obtain ⟨hnone, -, hget⟩ := pcbAlloc_spec halloc
      by_cases hd : d = c
      · subst hd
        exact .inr (.inr ⟨by rw [hnone, Option.map_none], rfl, udp', halloc⟩)
      · refine .inl ?_
        change (udp'.get d).map (·.task) = _
        rw [hget, if_neg hd]
  | @closed c p hp =>
      by_cases hd : d = c
      · exact .inr (.inl (by rw [get_free, if_pos hd, Option.map_none]))
      · exact .inl (by rw [get_free, if_neg hd])
  | assigned hp _ _ _ => exact .inl (hset _ hp rfl)
  | queued _ _ hp => exact .inl (hset _ hp rfl)
  | popped hp _ => exact .inl (hset _ hp rfl)

end

theorem host_steady : Waiter.Steady host Fills where
  event := by
    rintro j ⟨env, ev⟩ reply j' d h
    obtain ⟨out, hout, -, rfl⟩ := host_step h
    rcases (step_move hout).occupant d with hsame | hnone | hfills
    · cases hp : j.udp.get d with
      | none =>
          have hgone : out.udp.get d = none := by simpa [hp] using hsame
          exact .inl (by simp [host, Journal.after, hgone])
      | some p => exact .inr (.inl ⟨hsame, .inl (by simp [host, hp])⟩)
    · have hgone : out.udp.get d = none := by simpa using hnone
      exact .inl (by simp [host, Journal.after, hgone])
    · exact .inr (.inr hfills)
  round := by
    rintro j env c len d ⟨hev, -⟩
    exact absurd hev (by simp [host])

/-- A journal under pending calls is one of a run. -/
theorem journaled_of_reaches {G : World → Waiter.Label (Env × Event) Env Nat → Prop} {w : World}
    (h : Waiter.Reaches host {} G w) : Journaled w.host := by
  refine Machine.Reach.mono ?_ h.host
  rintro j ⟨env, ev⟩ j' ⟨reply, hstep⟩
  obtain ⟨out, hout, -, rfl⟩ := host_step hstep
  exact ⟨out, hout, rfl⟩

/-- A round that meets no stranger does what it should. -/
theorem Faithful.of_occupied {j j' : Journal} (hinv : JournalInv j)
    {c : Waiter.Pending TaskId Nat} (h : Waiter.Occupied host j c) {env : Env} {reply : Reply}
    (hstep : host.step j (host.round env c.desc c.arg) = .ok (reply, j')) :
    Faithful j c reply := by
  obtain ⟨out, hout, rfl, -⟩ := host_step hstep
  obtain rfl : Udp.recvfrom j.udp c.desc c.arg = out := by
    simpa [step, pure, Except.pure] using hout
  cases hp : j.udp.get c.desc with
  | none => exact ⟨by simp [Udp.recvfrom, hp], by simp [Udp.recvfrom, hp]⟩
  | some p =>
      have horigin : some p.task = c.origin := by
        rcases h with h | h
        · simp [host, hp] at h
        · simpa [host, hp] using h
      refine ⟨fun remote data hreply ↦ ?_, fun hgone ↦ absurd horigin.symm (hgone p hp)⟩
      cases hqueue : p.queue with
      | nil => simp [Udp.recvfrom, hp, hqueue] at hreply
      | cons entry queue =>
          simp only [Udp.recvfrom, hp, hqueue, Reply.datagram.injEq] at hreply
          refine ⟨p.task, entry, queue, horigin.symm, ?_, hreply.1.symm, hreply.2.symm⟩
          rw [← hinv.exact c.desc p hp, hqueue]

end Udp

/-! ## `tcp::receive` -/

/-- The states in which `receive` does not fail. -/
def TcpState.receives : TcpState → Bool
  | .closed | .listen | .synSent | .synReceived => false
  | _ => true

namespace Tcp

/-- The TCP module, and the rounds of `receive` into a buffer of some length. -/
def host : Waiter.Host Journal (Env × Event) Reply TaskId Env Nat Panic where
  step j label := (step label.1 j.tcp label.2).map fun out ↦ (out.reply, j.after label.2 out)
  occupant j d := (j.tcp.get d).map (·.task)
  serves j d := (j.tcp.get d).any (·.state.receives)
  round env d len := (env, .receive d len)
  waits
    | .wait _ => true
    | _ => false

/-- The TCP module and its pending calls. -/
abbrev Calls := Waiter.World Journal TaskId Nat

/-- The event takes the block `p` in slot `d` out of the handshake: it is closed in SYN_RECEIVED, or
a segment completes the handshake. -/
def EndsHandshake (tcp : Tcp) (d : TcpDesc) (p : TcpPcb) : Event → Prop
  | .close d' => d' = d ∧ p.state = .synReceived
  | .arrive s => pcbSelect tcp.pcbs s.dst s.src = some d ∧
      (p.state = .synReceived ∧ ReachesAck p s ∧ passesAck p s.info ∨
        p.state = .synSent ∧ flagIsset s.flg flgRst = false ∧ flagIsset s.flg flgSyn = true ∧
          (flagIsset s.flg flgAck = true ∧ p.iss < s.ack ∧ p.snd.una ≤ s.ack ∧ s.ack ≤ p.snd.nxt ∨
            p.iss < p.snd.una))
  | _ => False

/-- The event takes the block in slot `d`, whichever it is, out of the handshake. -/
def Connected (j : Journal) (label : Env × Event) (d : Nat) : Prop :=
  ∃ p, j.tcp.get d = some p ∧ EndsHandshake j.tcp d p label.2

/-- In a slot on which a call is pending, this happens to no block but the one with which the call
began. -/
def SparesCalls (w : Calls) : Waiter.Label (Env × Event) Env Nat → Prop
  | .event e => ∀ i c p, w.calls.peek i = some c → w.host.tcp.get c.desc = some p →
      EndsHandshake w.host.tcp c.desc p e.2 → c.origin = some p.task
  | _ => True

/-- What a call on slot `c.desc` should return: octets that follow, in what was delivered to the
block with which it began, those returned before; or an error once that block is gone. -/
structure Faithful (j : Journal) (c : Waiter.Pending TaskId Nat) (reply : Reply) : Prop where
  data : ∀ data, reply = .bytes data → ∃ task rest,
    c.origin = some task ∧ j.delivered task = j.returned task ++ data ++ rest
  gone : (∀ p, j.tcp.get c.desc = some p → c.origin ≠ some p.task) → reply = .err

section

variable {env : Env} {j j' : Journal} {ev : Event} {reply : Reply}

theorem host_step (h : host.step j (env, ev) = .ok (reply, j')) :
    ∃ out, step env j.tcp ev = .ok out ∧ out.reply = reply ∧ j' = j.after ev out := by
  obtain ⟨out, hout, heq⟩ := Machine.exists_of_map_ok h
  cases heq
  exact ⟨out, hout, rfl, rfl⟩

/-- A block that is new is not connected. -/
theorem Birth.receives {tcp : Tcp} {d : TcpDesc} {task : TaskId} {es : List Effect} {p : TcpPcb}
    (h : Birth env tcp d task ev es reply p) : p.state.receives = false := by
  cases h with
  | socket | listen l r _ => rfl
  | syn l l' r _ _ => rfl
  | child s l p child _ _ _ _ _ _ _ _ _ => rw [passiveOpen_eq]; rfl

/-- A step of a block by itself that connects it. -/
theorem BlockStep.receives {tcp : Tcp} {d : TcpDesc} {p p' : TcpPcb} {es : List Effect}
    (h : BlockStep env tcp d ev p es reply p') (hreceives : p'.state.receives = true) :
    p.state.receives = true ∨ EndsHandshake tcp d p ev := by
  cases h with
  | mss m | bind l _ | take len n wnd _ _ _ _ => exact .inl hreceives
  | listen n _ _ | connectFails _ | interrupted | syn l r _ _ | synFails l r _ _ =>
      exact absurd hreceives (by simp [TcpState.receives, Tcp.synSent])
  | passive s _ _ _ _ _ _ =>
      rw [passiveOpen_eq] at hreceives
      exact absurd hreceives (by simp [TcpState.receives])
  | synSent s acceptable hselect hstate hrst hsyn hack =>
      refine .inr ⟨hselect, .inr ⟨hstate, hrst, hsyn, ?_⟩⟩
      obtain ⟨q, rfl, hcases⟩ := synInSynSent_cases env p s.info acceptable
      obtain ⟨snd, queue, heq, hside⟩ := takeSyn_eq p s.info acceptable
      rcases hside with ⟨-, rfl, rfl⟩ | ⟨hacceptable, -, -⟩
      · rcases hcases with ⟨hlt, -⟩ | ⟨-, hcase⟩
        · rw [heq] at hlt
          exact .inr hlt
        · rw [hcase] at hreceives
          exact absurd hreceives (by simp [TcpState.receives])
      · exact .inl (hack hacceptable)
  | fin state hstate =>
      rcases hstate with ⟨hs | hs, -⟩ | ⟨hs, -⟩
      · exact .inr ⟨rfl, hs⟩
      · exact .inl (by rw [hs]; rfl)
      · exact .inl (by rw [hs]; rfl)
  | data data sent n _ _ _ _ =>
      rw [sendData_eq] at hreceives
      exact .inl hreceives

/-- An event that connects a block. -/
theorem Evolve.receives {tcp : Tcp} {d : TcpDesc} {p p' : TcpPcb}
    (h : Evolve env tcp d reply ev p p') (hreceives : p'.state.receives = true) :
    p.state.receives = true ∨ EndsHandshake tcp d p ev := by
  cases h with
  | keep backlog mss accepted _ => exact .inl hreceives
  | block hblock => exact hblock.receives hreceives
  | arrived s hselect hreach harrived =>
      obtain ⟨hclosed, hlisten, hsynSent⟩ := hreach.state
      by_cases hs : p.state = .synReceived
      · exact .inr ⟨hselect, .inl ⟨hs, hreach, harrived.passes⟩⟩
      · refine .inl ?_
        cases hstate : p.state <;> simp_all [TcpState.receives]
  | tick =>
      rcases retransEmit_cases env p with heq | ⟨f, -, heq⟩
      · rw [heq] at hreceives
        exact absurd hreceives (by simp [TcpState.receives])
      · rw [heq] at hreceives
        exact .inl hreceives

end

theorem host_steady : Waiter.Steady host Connected where
  event := by
    rintro j ⟨env, ev⟩ reply j' d h
    obtain ⟨out, hout, -, rfl⟩ := host_step h
    change ((out.tcp.get d).any (·.state.receives)) = false ∨
      ((out.tcp.get d).map (·.task) = (j.tcp.get d).map (·.task) ∧
        ((j.tcp.get d).any (·.state.receives) = true ∨ Connected j (env, ev) d)) ∨ _
    cases hp' : out.tcp.get d with
    | none => exact .inl rfl
    | some p' =>
        by_cases hreceives : p'.state.receives = true
        · rcases (step_move hout).blocks with ⟨-, hold⟩ | ⟨c, q, tcp', -, -, hbirth, hget⟩
          · obtain ⟨p, hp, hevolve⟩ := hold d p' hp'
            refine .inr (.inl ⟨by rw [hp, Option.map_some, Option.map_some, hevolve.same.1.task], ?_⟩)
            rw [hp]
            exact (hevolve.receives hreceives).imp_right fun hends ↦ ⟨p, hp, hends⟩
          · rw [hget] at hp'
            split at hp'
            · obtain rfl := Option.some.inj hp'
              exact absurd hreceives (by simp [hbirth.receives])
            · exact .inr (.inl ⟨by rw [hp'], .inl (by rw [hp']; exact hreceives)⟩)
        · exact .inl (by simpa using hreceives)
  round := by
    rintro j env c len d ⟨p, -, hends⟩
    exact hends

theorem journaled_of_reaches {G : Calls → Waiter.Label (Env × Event) Env Nat → Prop} {w : Calls}
    (h : Waiter.Reaches host {} G w) : Journaled w.host := by
  refine Machine.Reach.mono ?_ h.host
  rintro j ⟨env, ev⟩ j' ⟨reply, hstep⟩
  obtain ⟨out, hout, -, rfl⟩ := host_step hstep
  exact ⟨out, hout, rfl⟩

/-- The octets of a reply are the first in the buffer of the block. -/
theorem receiveCall_bytes {tcp : Tcp} {d : TcpDesc} {p : TcpPcb} {len : Nat} {out : Outcome}
    {data : List U8} (hp : tcp.get d = some p) (hout : receiveCall tcp d len = .ok out)
    (hreply : out.reply = .bytes data) : ∃ rest, p.buf = data ++ rest := by
  rcases receiveCall_cases hp len with ⟨-, -, heq⟩ | ⟨reply, hquiet, heq, -⟩
  · obtain ⟨wnd, -, hout⟩ := Machine.exists_of_bind_ok (heq.symm.trans hout)
    cases hout
    cases hreply
    exact ⟨_, (List.take_append_drop _ _).symm⟩
  · cases heq.symm.trans hout
    obtain rfl : reply = .bytes data := hreply
    obtain rfl : data = [] := by simpa [Reply.quiet] using hquiet
    exact ⟨p.buf, rfl⟩

/-- A round that meets no stranger does what it should. -/
theorem Faithful.of_occupied {j j' : Journal} (hinv : JournalInv j)
    {c : Waiter.Pending TaskId Nat} (h : Waiter.Occupied host j c) {env : Env} {reply : Reply}
    (hstep : host.step j (host.round env c.desc c.arg) = .ok (reply, j')) :
    Faithful j c reply := by
  obtain ⟨out, hout, rfl, -⟩ := host_step hstep
  have hout : receiveCall j.tcp c.desc c.arg = .ok out := hout
  cases hp : j.tcp.get c.desc with
  | none =>
      obtain rfl : { tcp := j.tcp, reply := .err } = out := by
        simpa [receiveCall, hp, pure, Except.pure] using hout
      exact ⟨by simp, by simp⟩
  | some p =>
      rcases h with hfails | horigin
      · -- A block that is not connected fails the call, whoever it is.
        have hstate : p.state.receives = false := by simpa [host, hp] using hfails
        obtain rfl : { tcp := j.tcp, reply := .err } = out := by
          unfold receiveCall at hout
          cases hs : p.state <;> simp_all [TcpState.receives, pure, Except.pure]
        exact ⟨by simp, by simp⟩
      have horigin : some p.task = c.origin := by simpa [host, hp] using horigin
      refine ⟨fun data hreply ↦ ?_, fun hgone ↦ absurd horigin.symm (hgone p hp)⟩
      obtain ⟨rest, hbuf⟩ := receiveCall_bytes hp hout hreply
      refine ⟨p.task, rest, horigin.symm, ?_⟩
      rw [← hinv.octets c.desc p hp, hbuf, List.append_assoc]

end Tcp

/-! ## Both -/

/-- **Blocking calls keep to their incarnation**: what they return was delivered to the block they
began with, and once it is gone they fail.  This holds in every run in which `udp::open` takes no
slot on which a call is pending, and in which no TCP block but the one with which a call began gets
connected in its slot. -/
theorem calls_keep_incarnation (u : Udp.World) (t : Tcp.Calls) :
    (Waiter.Reaches Udp.host {} Udp.SparesCalls u → Waiter.Answers Udp.host Udp.Faithful u) ∧
    (Waiter.Reaches Tcp.host {} Tcp.SparesCalls t → Waiter.Answers Tcp.host Tcp.Faithful t) := by
  constructor
  · intro h i c env reply j' hc hstep
    have hoccupied := h.occupied Udp.host_steady
      (fun _ _ hguard i c hc hfills ↦ absurd hfills (hguard i c hc)) hc
    exact .of_occupied (Udp.journaled_of_reaches h).inv hoccupied hstep
  · intro h i c env reply j' hc hstep
    have hspares : ∀ (w : Tcp.Calls) e, Tcp.SparesCalls w (.event e) →
        Waiter.Spares Tcp.host Tcp.Connected w e := by
      rintro w e hguard i c hc ⟨p, hp, hends⟩
      have horigin := hguard i c p hc hp hends
      exact ⟨by simp [Tcp.host, hp], by simp [Tcp.host, hp, horigin]⟩
    have hoccupied := h.occupied Tcp.host_steady hspares hc
    exact .of_occupied (Tcp.journaled_of_reaches h).inv hoccupied hstep

/-- No event is an `open` while a call is pending. -/
def Udp.opensFirst (w : Udp.World) : Waiter.Label (Udp.Env × Udp.Event) Udp.Env Nat → Bool
  | .event (_, .open) => w.calls = []
  | _ => true

theorem Udp.sparesCalls_of_opensFirst (w : Udp.World)
    (label : Waiter.Label (Udp.Env × Udp.Event) Udp.Env Nat)
    (h : Udp.opensFirst w label = true) : Udp.SparesCalls w label := by
  rcases label with ⟨env, ev⟩ | _ | _ | _
  · rintro i c hc ⟨rfl, -⟩
    have hnil : w.calls = [] := by simpa [Udp.opensFirst] using h
    rw [hnil] at hc
    exact absurd hc (by simp)
  all_goals trivial

/-- While a call is pending, no segment but a reset arrives and nothing is closed. -/
def Tcp.connectsFirst (w : Tcp.Calls) : Waiter.Label (Env × Tcp.Event) Env Nat → Bool
  | .event (_, .arrive s) => w.calls = [] || flagIsset s.flg flgRst
  | .event (_, .close _) => w.calls = []
  | _ => true

theorem Tcp.sparesCalls_of_connectsFirst (w : Tcp.Calls)
    (label : Waiter.Label (Env × Tcp.Event) Env Nat) (h : Tcp.connectsFirst w label = true) :
    Tcp.SparesCalls w label := by
  rcases label with ⟨env, ev⟩ | _ | _ | _
  · intro i c p hc hp hends
    cases ev with
    | arrive s =>
        -- A reset completes no handshake.
        obtain ⟨-, hcase⟩ := hends
        have hrst : flagIsset s.flg flgRst = false :=
          hcase.elim (fun h ↦ h.2.1.rst) fun h ↦ h.2.1
        have hnil : w.calls = [] := by simpa [Tcp.connectsFirst, hrst] using h
        rw [hnil] at hc
        exact absurd hc (by simp)
    | close d =>
        have hnil : w.calls = [] := by simpa [Tcp.connectsFirst] using h
        rw [hnil] at hc
        exact absurd hc (by simp)
    | _ => exact hends.elim
  all_goals trivial

/-- The peer accepts a connection of the host. -/
def Tcp.synAck : TcpSegment where
  src := peerEndp
  dst := ⟨⟨192, 0, 2, 1⟩, 49152⟩
  seq := 300
  ack := 101
  flg := flgSyn ||| flgAck
  wnd := 1000
  data := []

/-- A datagram comes for the first of two calls, and the socket of the second is closed.  A
connection is reset while a call is pending, and a new socket takes its slot. -/
theorem calls_keep_incarnation_two_calls :
    (∃ w, Waiter.Reaches Udp.host {} Udp.SparesCalls w ∧
      (w.calls.map fun c ↦ c.map (·.desc)) = [some 0, some 1] ∧
      Waiter.Answers Udp.host Udp.Faithful w) ∧
    ∃ w c p, Waiter.Reaches Tcp.host {} Tcp.SparesCalls w ∧ w.calls.peek 0 = some c ∧
      c.desc = 0 ∧ c.origin = some 0 ∧ w.host.tcp.get 0 = some p ∧ p.task ≠ 0 ∧
      Waiter.Answers Tcp.host Tcp.Faithful w := by
  constructor
  · obtain ⟨w, hreach, htest⟩ := Waiter.exists_reaches (H := Udp.host) {} .unwrap
      (G := Udp.SparesCalls) Udp.opensFirst Udp.sparesCalls_of_opensFirst
      (fun w ↦ (w.calls.map fun c ↦ c.map (·.desc)) = [some 0, some 1])
      [.event (Udp.bareEnv, .open), .event (Udp.bareEnv, .open),
        .event (Udp.bareEnv, .bind 0 ⟨.any, 7⟩), .begin 0 8, .begin 1 8, .round 0 Udp.bareEnv,
        .round 1 Udp.bareEnv, .event (Udp.fromPeer 7), .event (Udp.bareEnv, .close 1)]
      (by decide +kernel)
    exact ⟨w, hreach, by simpa using htest, (calls_keep_incarnation w { host := {} }).1 hreach⟩
  · obtain ⟨w, hreach, htest⟩ := Waiter.exists_reaches (H := Tcp.host) {} .unwrap
      (G := Tcp.SparesCalls) Tcp.connectsFirst Tcp.sparesCalls_of_connectsFirst
      (fun w ↦ ((w.calls.peek 0).any fun c ↦ c.desc = 0 && c.origin = some 0) &&
        (w.host.tcp.get 0).any fun p ↦ p.task ≠ 0)
      [.event (Tcp.routedEnv, .socket), .event (Tcp.routedEnv, .connectCall 0 Tcp.peerEndp),
        .event (Tcp.routedEnv, .arrive Tcp.synAck), .begin 0 8, .round 0 Tcp.routedEnv,
        .event (Tcp.routedEnv, .arrive { Tcp.synAck with seq := 301, flg := flgRst }),
        .event (Tcp.routedEnv, .socket)] (by decide +kernel)
    obtain ⟨hcall, hblock⟩ := Bool.and_eq_true_iff.mp htest
    obtain ⟨c, hc, hcall⟩ := (Option.any_eq_true _ _).mp hcall
    obtain ⟨p, hp, htask⟩ := (Option.any_eq_true _ _).mp hblock
    simp only [Bool.and_eq_true, decide_eq_true_eq] at hcall htask
    exact ⟨w, c, p, hreach, hc, hcall.1, hcall.2, hp, htask,
      (calls_keep_incarnation { host := {} } w).2 hreach⟩

/-- The block in the slot of a call is not the one with which it began, and the next round of
the call returns from it. -/
def Udp.crosses (w : Udp.World) : Bool :=
  (w.calls.peek 0).any fun c ↦
    (Udp.host.step w.host (Udp.host.round Udp.bareEnv c.desc c.arg)).toOption.any fun r ↦
      c.origin = some 0 && w.host.arrived 0 = [] && r.1 = .datagram ⟨⟨192, 0, 2, 2⟩, 9⟩ [1, 2, 3]

def Tcp.crosses (w : Tcp.Calls) : Bool :=
  (w.calls.peek 0).any fun c ↦
    (Tcp.host.step w.host (Tcp.host.round Tcp.routedEnv c.desc c.arg)).toOption.any fun r ↦
      c.origin = some 0 && w.host.delivered 0 = [] && r.1 = .bytes [1, 2, 3]

/-- Otherwise they cross: the socket goes while the call waits, the next one gets its slot, and
the call returns what was sent to the next one. -/
theorem calls_cross_incarnations :
    (¬ ∀ w, Waiter.Reaches Udp.host {} (fun _ _ ↦ True) w →
      Waiter.Answers Udp.host Udp.Faithful w) ∧
    ¬ ∀ w, Waiter.Reaches Tcp.host {} (fun _ _ ↦ True) w →
      Waiter.Answers Tcp.host Tcp.Faithful w := by
  constructor
  · intro hall
    obtain ⟨w, hreach, htest⟩ := Waiter.exists_reaches (H := Udp.host) {} .unwrap
      (G := fun _ _ ↦ True) (fun _ _ ↦ true) (fun _ _ _ ↦ trivial) Udp.crosses
      [.event (Udp.bareEnv, .open), .begin 0 8, .round 0 Udp.bareEnv,
        .event (Udp.bareEnv, .close 0), .event (Udp.bareEnv, .open),
        .event (Udp.bareEnv, .bind 0 ⟨.any, 7⟩), .event (Udp.fromPeer 7)] (by decide +kernel)
    obtain ⟨c, hc, htest⟩ := (Option.any_eq_true _ _).mp htest
    obtain ⟨⟨reply, j'⟩, hstep, htest⟩ := (Option.any_eq_true _ _).mp htest
    simp only [Bool.and_eq_true, decide_eq_true_eq] at htest
    obtain ⟨⟨horigin, hnone⟩, rfl⟩ := htest
    obtain ⟨task, entry, rest, htask, harrived, -⟩ := (hall w hreach 0 c _ _ _ hc
      (Machine.ok_of_toOption hstep)).data _ _ rfl
    obtain rfl : 0 = task := by simpa using horigin.symm.trans htask
    simp [hnone] at harrived
  · intro hall
    obtain ⟨w, hreach, htest⟩ := Waiter.exists_reaches (H := Tcp.host) {} .unwrap
      (G := fun _ _ ↦ True) (fun _ _ ↦ true) (fun _ _ _ ↦ trivial) Tcp.crosses
      [.event (Tcp.routedEnv, .socket), .event (Tcp.routedEnv, .connectCall 0 Tcp.peerEndp),
        .event (Tcp.routedEnv, .arrive Tcp.synAck), .begin 0 8, .round 0 Tcp.routedEnv,
        .event (Tcp.routedEnv, .arrive { Tcp.synAck with seq := 301, flg := flgRst }),
        .event (Tcp.routedEnv, .socket), .event (Tcp.routedEnv, .connectCall 0 Tcp.peerEndp),
        .event (Tcp.routedEnv, .arrive Tcp.synAck),
        .event (Tcp.routedEnv, .arrive { Tcp.synAck with
          seq := 301, flg := flgAck, data := [1, 2, 3] })] (by decide +kernel)
    obtain ⟨c, hc, htest⟩ := (Option.any_eq_true _ _).mp htest
    obtain ⟨⟨reply, j'⟩, hstep, htest⟩ := (Option.any_eq_true _ _).mp htest
    simp only [Bool.and_eq_true, decide_eq_true_eq] at htest
    obtain ⟨⟨horigin, hnone⟩, rfl⟩ := htest
    obtain ⟨task, rest, htask, hdelivered⟩ := (hall w hreach 0 c _ _ _ hc
      (Machine.ok_of_toOption hstep)).data _ rfl
    obtain rfl : 0 = task := by simpa using horigin.symm.trans htask
    simp [hnone] at hdelivered

end Microps
