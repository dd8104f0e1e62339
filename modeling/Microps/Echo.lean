import Microps.Tcp.EndToEnd

/-!
# The echo server

The program of `test/src/main.rs` on one side of `Tcp.World`.  It accepts connections on port 7 and
sends back what it receives, up to 128 octets at a time.  Its calls are those of TCP: the table of
sockets in between only stores the descriptors.

A call of `send` that is interrupted returns how much it has queued, as long as that is not nothing,
and the program looks for an error only.  What is left of its buffer is then never sent, and what it
receives next follows the gap.
-/

namespace Microps.Echo

open Tcp (Event Reply Side)

/-! ## The program -/

/-- Where the program stands; `l` is the listener, and `c` the connection. -/
inductive Phase where
  | start
  | opened (l : TcpDesc)
  | bound (l : TcpDesc)
  | accepting (l : TcpDesc)
  | receiving (l c : TcpDesc)
  /-- In `send`, which has queued `sent` octets of its buffer. -/
  | sending (l c : TcpDesc) (data : List U8) (sent : Nat)
  /-- At the end of `conn_main`. -/
  | closing (l c : TcpDesc)
  /-- At the end of `app_main`. -/
  | leaving (l : TcpDesc)
  | ended
deriving DecidableEq, Repr

namespace Phase

/-- The critical section that comes next. -/
def event : Phase → Option Event
  | .start => some .socket
  | .opened l => some (.bind l ⟨.any, 7⟩)
  | .bound l => some (.listen l 1)
  | .accepting l => some (.accept l)
  | .receiving _ c => some (.receive c 128)
  | .sending _ c data sent => some (.send c data sent)
  | .closing _ c => some (.close c)
  | .leaving l => some (.close l)
  | .ended => none

/-- The loop of `app_main`, at its test of `TERMINATE`. -/
def loop (terminate : Bool) (l : TcpDesc) : Phase :=
  if terminate then .leaving l else .accepting l

/-- Where the program goes on after it. -/
def after (terminate : Bool) (phase : Phase) (reply : Reply) : Phase :=
  match phase with
  | .start => match reply with
    | .desc l => .opened l
    | _ => .ended
  | .opened l => match reply with
    | .ok => .bound l
    | _ => .leaving l
  | .bound l => match reply with
    | .ok => loop terminate l
    | _ => .leaving l
  | .accepting l => match reply with
    | .conn c _ => .receiving l c
    | .wait _ | .again => .accepting l
    | _ => .leaving l
  | .receiving l c => match reply with
    | .bytes data => if data = [] then .closing l c else .sending l c data 0
    | .wait _ => .receiving l c
    | _ => .closing l c
  | .sending l c data sent => match reply with
    | .queued n => .sending l c data (sent + n)
    | .wait _ => .sending l c data sent
    | .sent _ => .receiving l c
    | _ => .closing l c
  | .closing l _ => loop terminate l
  | .leaving _ | .ended => .ended

/-- Where it goes on when its wait is interrupted. -/
def interrupted : Phase → Phase
  | .accepting l => .leaving l
  | .receiving l c => .closing l c
  | .sending l c _ sent => if sent = 0 then .closing l c else .receiving l c
  | phase => phase

/-- The program begins no connection by itself. -/
theorem event_passive {phase : Phase} {ev : Event} (env : Env) (tcp : Tcp)
    (h : phase.event = some ev) : Tcp.begins env tcp ev = false ∧ ∀ seg, ev ≠ .arrive seg := by
  cases phase with
  | ended => exact absurd h (by simp [event])
  | _ =>
      cases h
      exact ⟨rfl, by simp⟩

theorem eq_sending {phase : Phase} {c : TcpDesc} {data : List U8} {sent : Nat}
    (h : phase.event = some (.send c data sent)) : ∃ l, phase = .sending l c data sent := by
  cases phase with
  | sending l c' data' sent' =>
      cases h
      exact ⟨l, rfl⟩
  | _ => exact absurd h (by simp [event])

/-- The program is in `send` because `recv` has returned octets, or because a round of `send` has
not finished. -/
theorem cases_of_sending {phase : Phase} {terminate : Bool} {reply : Reply} {l c : TcpDesc}
    {data : List U8} {sent : Nat} (h : phase.after terminate reply = .sending l c data sent) :
    (reply = .bytes data ∧ data ≠ [] ∧ sent = 0) ∨
      ∃ before, phase = .sending l c data before ∧
        ((∃ n, reply = .queued n ∧ sent = before + n) ∨
          ∃ task, reply = .wait task ∧ sent = before) := by
  have hloop : ∀ l', loop terminate l' ≠ .sending l c data sent := by
    intro l'
    unfold loop
    split <;> simp
  cases phase with
  | receiving l' c' =>
      cases reply with
      | bytes data' =>
          simp only [after] at h
          split at h
          · exact absurd h (by simp)
          · next hne =>
            cases h
            exact .inl ⟨rfl, hne, rfl⟩
      | _ => exact absurd h (by simp [after])
  | sending l' c' data' sent' =>
      cases reply with
      | queued n =>
          cases h
          exact .inr ⟨sent', rfl, .inl ⟨n, rfl, rfl⟩⟩
      | wait task =>
          cases h
          exact .inr ⟨_, rfl, .inr ⟨task, rfl, rfl⟩⟩
      | _ => exact absurd h (by simp [after])
  | closing l' c' => exact absurd h (hloop l')
  | bound l' => cases reply <;> exact absurd h (by simp [after, hloop])
  | start | opened l' | accepting l' => cases reply <;> exact absurd h (by simp [after])
  | leaving l' | ended => exact absurd h (by simp [after])

end Phase

/-- The program, the two sides, and the history of what the program has in its buffer. -/
structure Server where
  world : Tcp.World := {}
  phase : Phase := .start
  /-- The last critical section has decided to wait. -/
  waiting : Bool := false
  /-- What `recv` has returned last and `send` has not queued. -/
  left : List U8 := []
  /-- `recv` has returned octets while some were left. -/
  skipped : Bool := false
deriving DecidableEq, Repr

/-- What may happen next. -/
inductive Act where
  /-- Anything at the other side. -/
  | peer (env : Env) (ev : Event)
  /-- A segment arrives, or the timer ticks. -/
  | network (env : Env) (ev : Event)
  /-- The program runs its next critical section, for which its wait may have ended, and finds
  `terminate` in `TERMINATE`. -/
  | call (env : Env) (terminate : Bool)
  /-- The signal interrupts its wait. -/
  | interrupt

namespace Server

/-- The reply is to wait. -/
def waits : Reply → Bool
  | .wait _ => true
  | _ => false

/-- The program has run a critical section. -/
def called (s : Server) (env : Env) (terminate : Bool) (ev : Event) (out : Tcp.Outcome) :
    Server where
  world := { s.world with host := s.world.host.after env ev out }
  phase := s.phase.after terminate out.reply
  waiting := waits out.reply
  left :=
    if Tcp.takenBy out.reply = [] then s.left.drop (Tcp.queuedBy ev out.reply).length
    else Tcp.takenBy out.reply
  skipped := s.skipped || decide (Tcp.takenBy out.reply ≠ [] ∧ s.left ≠ [])

/-- One step. -/
def Step (s : Server) (act : Act) (s' : Server) : Prop :=
  match act with
  | .peer env ev => ∃ x, s.world.peer.Acts s.world.host env ev x ∧
      s' = { s with world := { s.world with peer := x } }
  | .network env ev => (ev = .timer ∨ ∃ seg, ev = .arrive seg) ∧
      ∃ x, s.world.host.Acts s.world.peer env ev x ∧
        s' = { s with world := { s.world with host := x } }
  | .call env terminate => ∃ ev out, s.phase.event = some ev ∧
      Tcp.step env s.world.host.tcp ev = .ok out ∧ s' = s.called env terminate ev out
  | .interrupt => s.waiting = true ∧
      s' = { s with phase := s.phase.interrupted, waiting := false }

/-- The states of its runs, in any environment. -/
def Reachable : Server → Prop := Machine.Reach (· = {}) Step

/-! ## The world around it -/

section

variable {s s' : Server} {env : Env} {ev : Event} {out : Tcp.Outcome}

theorem Reachable.world (h : s.Reachable) : s.world.Reachable := by
  induction h with
  | start hs => exact .start (congrArg Server.world hs)
  | @next s act s' _ hstep ih =>
      cases act with
      | peer env ev =>
          obtain ⟨x, hacts, rfl⟩ := hstep
          exact ih.next (e := (Tcp.Party.peer, env, ev)) ⟨rfl, hacts⟩
      | network env ev =>
          obtain ⟨-, x, hacts, rfl⟩ := hstep
          exact ih.next (e := (Tcp.Party.host, env, ev)) ⟨rfl, hacts⟩
      | call env terminate =>
          obtain ⟨ev, out, hevent, hout, rfl⟩ := hstep
          obtain ⟨hbegins, harrive⟩ := Phase.event_passive env s.world.host.tcp hevent
          refine ih.next (e := (Tcp.Party.host, env, ev)) ⟨rfl, ?_, ?_, out, hout, rfl⟩
          · exact fun seg hseg ↦ absurd hseg (harrive seg)
          · exact fun h ↦ absurd (h.symm.trans hbegins) (by simp)
      | interrupt =>
          obtain ⟨-, rfl⟩ := hstep
          exact ih

/-! ## What it sends back -/

/-- What the program has received is what it has queued and what is left, but for gaps. -/
structure Inv (s : Server) : Prop where
  sending : ∀ l c data sent, s.phase = .sending l c data sent → s.left = data.drop sent
  sub : (s.world.host.queued ++ s.left).Sublist s.world.host.taken
  same : s.skipped = false → s.world.host.queued ++ s.left = s.world.host.taken

/-- A round of `send` takes from the front of what is left. -/
theorem Inv.queuedBy_prefix (h : s.Inv) (hevent : s.phase.event = some ev) (reply : Reply) :
    Tcp.queuedBy ev reply <+: s.left := by
  cases ev with
  | send c data sent =>
      cases reply with
      | queued n =>
          obtain ⟨l, hphase⟩ := Phase.eq_sending hevent
          have hleft := h.sending l c data sent hphase
          rw [hleft]
          exact List.take_prefix n _
      | _ => exact List.nil_prefix
  | _ => exact List.nil_prefix

/-- What the program has in its buffer while it is in `send`. -/
theorem Inv.sending_called (h : s.Inv) (hevent : s.phase.event = some ev) {terminate : Bool}
    {l c : TcpDesc} {data : List U8} {sent : Nat}
    (hphase : s.phase.after terminate out.reply = .sending l c data sent) :
    (s.called env terminate ev out).left = data.drop sent := by
  have hprefix := h.queuedBy_prefix hevent out.reply
  rcases Phase.cases_of_sending hphase with ⟨hreply, hne, rfl⟩ | ⟨before, hs, hreply⟩
  · simp only [called, hreply, Tcp.takenBy, if_neg hne, List.drop_zero]
  have hleft := h.sending _ _ _ _ hs
  rw [hs] at hevent
  cases hevent
  rcases hreply with ⟨n, hreply, rfl⟩ | ⟨task, hreply, rfl⟩
  · -- What was queued and what is left now make up what was left before.
    rw [hreply, hleft] at hprefix
    have happend := List.prefix_iff_eq_append.mp hprefix
    have htake := List.take_append_drop n (data.drop before)
    simp only [called, hreply, hleft, Tcp.takenBy, if_true]
    rw [← List.drop_drop]
    exact List.append_cancel_left (happend.trans htake.symm)
  · simp only [called, hreply, hleft, Tcp.takenBy, Tcp.queuedBy, if_true, List.length_nil,
      List.drop_zero]

/-- A round of `receive` queues nothing. -/
theorem queuedBy_of_takenBy {reply : Reply} (ev : Event) (h : Tcp.takenBy reply ≠ []) :
    Tcp.queuedBy ev reply = [] := by
  cases reply with
  | bytes data => cases ev <;> rfl
  | _ => exact absurd rfl h

theorem Inv.called (h : s.Inv) (hevent : s.phase.event = some ev) (env : Env) (terminate : Bool)
    (out : Tcp.Outcome) : (s.called env terminate ev out).Inv := by
  have hprefix := List.prefix_iff_eq_append.mp (h.queuedBy_prefix hevent out.reply)
  refine ⟨fun l c data sent hphase ↦ h.sending_called hevent hphase, ?_, ?_⟩
  all_goals
    simp only [Server.called, Side.after]
    by_cases htaken : Tcp.takenBy out.reply = []
  · rw [if_pos htaken, htaken, List.append_nil, List.append_assoc, hprefix]
    exact h.sub
  · rw [if_neg htaken, queuedBy_of_takenBy ev htaken, List.append_nil]
    exact ((List.sublist_append_left _ _).trans h.sub).append (List.Sublist.refl _)
  · rw [if_pos htaken, htaken, List.append_nil, List.append_assoc, hprefix]
    intro hskipped
    exact h.same (by simpa using hskipped)
  · rw [if_neg htaken, queuedBy_of_takenBy ev htaken, List.append_nil]
    intro hskipped
    simp only [Bool.or_eq_false_iff, decide_eq_false_iff_not, not_and, not_not] at hskipped
    have hsame := h.same hskipped.1
    rw [hskipped.2 htaken, List.append_nil] at hsame
    rw [hsame]

/-- What does not come from the program leaves its history alone. -/
theorem Inv.network (h : s.Inv) (hev : ev = .timer ∨ ∃ seg, ev = .arrive seg) {x : Side}
    (hacts : s.world.host.Acts s.world.peer env ev x) :
    Inv { s with world := { s.world with host := x } } := by
  obtain ⟨-, -, out, hout, rfl⟩ := hacts
  have hreply : out.reply = .none := by
    rcases hev with rfl | ⟨seg, rfl⟩
    · cases hout
      rfl
    · obtain ⟨r, -, hret⟩ := Machine.exists_of_bind_ok hout
      cases hret
      rfl
  have hqueued : Tcp.queuedBy ev out.reply = [] := by
    rw [hreply]
    cases ev <;> rfl
  have htaken : Tcp.takenBy out.reply = [] := by
    rw [hreply]
    rfl
  refine ⟨h.sending, ?_, fun hskipped ↦ ?_⟩
  all_goals simp only [Side.after, hqueued, htaken, List.append_nil]
  · exact h.sub
  · exact h.same hskipped

theorem Reachable.inv (h : s.Reachable) : s.Inv := by
  refine Machine.Reach.invariant Inv ?_ ?_ h
  · rintro _ rfl
    exact ⟨by simp, by simp, fun _ ↦ rfl⟩
  · rintro s act s' hinv hstep
    cases act with
    | peer env ev =>
        obtain ⟨x, -, rfl⟩ := hstep
        exact ⟨hinv.sending, hinv.sub, hinv.same⟩
    | network env ev =>
        obtain ⟨hev, x, hacts, rfl⟩ := hstep
        exact hinv.network hev hacts
    | call env terminate =>
        obtain ⟨ev, out, hevent, -, rfl⟩ := hstep
        exact hinv.called hevent env terminate out
    | interrupt =>
        obtain ⟨-, rfl⟩ := hstep
        refine ⟨fun l c data sent hphase ↦ ?_, hinv.sub, hinv.same⟩
        cases hs : s.phase <;> simp only [hs, Phase.interrupted, reduceCtorEq] at hphase
        split at hphase <;> exact absurd hphase (by simp)

end

end Server

/-! ## Runs that are evaluated -/

/-- A step, as a function. -/
def Server.act (s : Server) : Act → Checked Server
  | .peer env ev => (s.world.peer.act s.world.host env ev).map fun x ↦
      { s with world := { s.world with peer := x } }
  | .network env ev =>
      if ev = .timer ∨ ev.segment.isSome then
        (s.world.host.act s.world.peer env ev).map fun x ↦
          { s with world := { s.world with host := x } }
      else .error .unwrap
  | .call env terminate => match s.phase.event with
    | none => .error .unwrap
    | some ev => (Tcp.step env s.world.host.tcp ev).map (s.called env terminate ev)
  | .interrupt =>
      if s.waiting then .ok { s with phase := s.phase.interrupted, waiting := false }
      else .error .unwrap

theorem Server.step_of_act {s s' : Server} {act : Act} (h : s.act act = .ok s') :
    s.Step act s' := by
  cases act with
  | peer env ev =>
      obtain ⟨x, hx, rfl⟩ := Machine.exists_of_map_ok h
      exact ⟨x, Tcp.Side.acts_of_act hx, rfl⟩
  | network env ev =>
      simp only [act] at h
      split at h
      · next hev =>
        obtain ⟨x, hx, rfl⟩ := Machine.exists_of_map_ok h
        refine ⟨hev.imp_right fun hseg ↦ ?_, x, Tcp.Side.acts_of_act hx, rfl⟩
        cases ev with
        | arrive seg => exact ⟨seg, rfl⟩
        | _ => exact absurd hseg (by simp [Event.segment])
      · exact absurd h (by simp)
  | call env terminate =>
      simp only [act] at h
      split at h
      · exact absurd h (by simp)
      · next ev hevent =>
        obtain ⟨out, hout, rfl⟩ := Machine.exists_of_map_ok h
        exact ⟨ev, out, hevent, hout, rfl⟩
  | interrupt =>
      simp only [act] at h
      split at h
      · next hwaiting => exact ⟨hwaiting, (Except.ok.inj h).symm⟩
      · exact absurd h (by simp)

theorem Server.exists_reachable (P : Server → Bool) (acts : List Act)
    (h : Machine.execTest Server.act P {} acts = true) : ∃ s : Server, s.Reachable ∧ P s = true :=
  Machine.exists_reach_of_execTest (fun _ _ _ ↦ Server.step_of_act) rfl h

/-- A connection on which three octets are sent to the program and come back; the first `recv` has
to wait. -/
def echoRun : List Act :=
  [.call host false, .call host false, .call host false, .call host false,
    .peer peer (.openCall Tcp.peerEndp Tcp.hostEndp true),
    .network host (toHost 500 0 flgSyn []),
    .peer peer (toPeer 100 501 (flgSyn ||| flgAck) []),
    .peer peer (.openFinish 0),
    .network host (toHost 501 101 flgAck []),
    .call host false, .call host false,
    .peer peer (.send 0 [1, 2, 3] 0),
    .network host (toHost 501 101 (flgAck ||| flgPsh) [1, 2, 3]),
    .call host false, .call host false, .call host false,
    .peer peer (toPeer 101 504 (flgAck ||| flgPsh) [1, 2, 3]),
    .peer peer (.receive 0 8)]
where
  host : Env := Tcp.routedEnv
  peer : Env := { Tcp.routedEnv with random32 := 500 }
  toHost (seq ack : U32) (flg : U8) (data : List U8) : Event :=
    .arrive { src := Tcp.peerEndp, dst := Tcp.hostEndp, seq := seq, ack := ack, flg := flg,
              wnd := 65535, data := data }
  toPeer (seq ack : U32) (flg : U8) (data : List U8) : Event :=
    .arrive { src := Tcp.hostEndp, dst := Tcp.peerEndp, seq := seq, ack := ack, flg := flg,
              wnd := 65535, data := data }

/-! ## Through the network and back -/

/-- **What comes back was sent, in order**: whatever the network, the timers and the other side do,
as long as each side begins at most one connection, the octets that the peer of the echo server
receives are some of those that it has sent, in the same order; and they are the first ones, unless
`recv` has returned octets to the program while it still had some that `send` had not queued. -/
theorem echoed_in_order {s : Server} (h : s.Reachable) :
    s.world.peer.taken.Sublist s.world.peer.queued ∧
      (s.skipped = false → s.world.peer.taken <+: s.world.peer.queued) := by
  obtain ⟨iss, iss', hhost, hpeer⟩ := h.world.linked
  have hinv := h.inv
  constructor
  · have hqueued : s.world.host.queued.Sublist s.world.host.taken :=
      (List.sublist_append_left _ _).trans hinv.sub
    exact hpeer.taken.sublist.trans (hqueued.trans hhost.taken.sublist)
  · intro hskipped
    have hsame : s.world.host.queued <+: s.world.host.taken :=
      hinv.same hskipped ▸ List.prefix_append _ _
    exact hpeer.taken.trans (hsame.trans hhost.taken)

/-- Three octets come back. -/
theorem echoed_in_order_three : ∃ s : Server, s.Reachable ∧ s.world.peer.taken = [1, 2, 3] ∧
    s.world.peer.taken <+: s.world.peer.queued := by
  obtain ⟨s, hreach, htest⟩ := Server.exists_reachable
    (fun s ↦ s.world.peer.taken = [1, 2, 3] && !s.skipped) echoRun (by decide +kernel)
  simp only [Bool.and_eq_true, decide_eq_true_eq, Bool.not_eq_true'] at htest
  exact ⟨s, hreach, htest.1, (echoed_in_order hreach).2 htest.2⟩

end Microps.Echo
