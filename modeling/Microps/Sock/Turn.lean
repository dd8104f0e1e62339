import Microps.Sock.Basic
import Microps.Tcp.Backlog

/-!
# Turns

`Turn` says once what a turn does to the three tables of the stack, and runs are runs
of turns.
-/

namespace Microps.Sock

open Tcp (Event Outcome Reply)

/-- The critical section of `tcp.rs` that a turn runs. -/
def below (st : Stack) : Action → Option Event
  | .arrive s => some (.arrive s)
  | .timer => some .timer
  | .call _ | .interrupt _ => none
  | .resume i => match st.calls.peek i with
    | some (.open _ ty) => if ty = sockStream then some .socket else none
    | some (.tcp _ _ ev _) => some ev
    | _ => none

/-- A `SOCK_STREAM` entry of `SOCKS` refers to the slot. -/
def live (socks : Slots Sock) (d : TcpDesc) : Bool :=
  socks.any fun slot ↦ slot.any fun s ↦ s.ty = sockStream ∧ s.desc = d

theorem live_iff {socks : Slots Sock} {d : TcpDesc} :
    live socks d = true ↔ ∃ i s, socks.peek i = some s ∧ s.ty = sockStream ∧ s.desc = d := by
  simp only [live, Slots.any_any_iff, decide_eq_true_eq]

/-- A backlog lists the slot. -/
def listed (tcp : Tcp) (d : TcpDesc) : Bool :=
  tcp.pcbs.any fun slot ↦ slot.any fun p ↦ d ∈ p.backlog

theorem listed_iff {tcp : Tcp} {d : TcpDesc} :
    listed tcp d = true ↔ ∃ l p, tcp.get l = some p ∧ d ∈ p.backlog := by
  simp only [listed, Slots.any_any_iff, decide_eq_true_eq, Tcp.get]

/-- What a turn does. -/
inductive Turn (env : SockEnv) (st : Stack) : Action → Stack → Prop
  /-- Nothing changes. -/
  | idle {act : Action} : Turn env st act st
  /-- A segment arrives, or the timer ticks. -/
  | event {act : Action} {ev : Event} {out : Outcome}
      (hact : act = .timer ∧ ev = .timer ∨ ∃ s, act = .arrive s ∧ ev = .arrive s)
      (hstep : Tcp.step env.toEnv st.tcp ev = .ok out) : Turn env st act { st with tcp := out.tcp }
  /-- A call begins. -/
  | enter {req : Request} {c : Call} (henter : Sock.enter st.socks req = .call c) :
      Turn env st (.call req) { st with calls := (st.calls.insert c).2 }
  /-- `open` runs `tcp::socket`. -/
  | socket {i : Nat} {family : U16} {out : Outcome} {calls : Slots Call} {c : Option Call}
      (hi : st.calls.peek i = some (.open family sockStream))
      (hstep : Tcp.step env.toEnv st.tcp .socket = .ok out)
      (hc : (∃ d, out.reply = .desc d ∧
          c = some (.store (entry family sockStream d out.tcp) none)) ∨
        (∀ d, out.reply ≠ .desc d) ∧ c = none)
      (hcalls : ∀ j, calls.peek j = if j = i then c else st.calls.peek j) :
      Turn env st (.resume i) { st with tcp := out.tcp, calls := calls }
  /-- A call runs in `udp.rs`. -/
  | udp {i : Nat} {c : Call} {calls : Slots Call} {c' : Option Call}
      (hi : st.calls.peek i = some c)
      (hcall : (∃ family ty, ty ≠ sockStream ∧ c = .open family ty) ∨ ∃ u, c = .udp u)
      (hc : c' = none ∨ ∃ s r, c' = some (.store s r) ∧ s.ty ≠ sockStream)
      (hcalls : ∀ j, calls.peek j = if j = i then c' else st.calls.peek j) :
      Turn env st (.resume i) { st with calls := calls }
  /-- A call puts its entry into `SOCKS`. -/
  | store {i : Nat} {sock : Sock} {remote : Option IpEndp} {socks : Slots Sock}
      {calls : Slots Call} (desc : SockDesc) (hi : st.calls.peek i = some (.store sock remote))
      (hdesc : st.socks.peek desc = none)
      (hsocks : ∀ j, socks.peek j = if j = desc then some sock else st.socks.peek j)
      (hcalls : ∀ j, calls.peek j = if j = i then none else st.calls.peek j) :
      Turn env st (.resume i) { st with socks := socks, calls := calls }
  /-- `close` takes an entry out of `SOCKS`. -/
  | clear {i : Nat} {desc : SockDesc} {sock : Sock} {socks : Slots Sock} {calls : Slots Call}
      (hi : st.calls.peek i = some (.clear desc sock))
      (hsocks : ∀ j, socks.peek j = if j = desc then none else st.socks.peek j)
      (hcalls : ∀ j, calls.peek j =
        if j = i then (closeBelow desc sock).call? else st.calls.peek j) :
      Turn env st (.resume i) { st with socks := socks, calls := calls }
  /-- A call runs in `tcp.rs`. -/
  | tcp {i : Nat} {desc : SockDesc} {sock : Sock} {ev : Event} {w : Bool} {out : Outcome}
      {calls : Slots Call} (hi : st.calls.peek i = some (.tcp desc sock ev w))
      (hstep : Tcp.step env.toEnv st.tcp ev = .ok out)
      (hcalls : ∀ j, calls.peek j =
        if j = i then (follow desc sock ev out).call? else st.calls.peek j) :
      Turn env st (.resume i) { st with tcp := out.tcp, calls := calls }
  /-- A wait is interrupted. -/
  | interrupt {i : Nat} {desc : SockDesc} {sock : Sock} {ev : Event} {calls : Slots Call}
      (hi : st.calls.peek i = some (.tcp desc sock ev true))
      (hcalls : ∀ j, calls.peek j =
        if j = i then (interrupted desc sock ev).call? else st.calls.peek j) :
      Turn env st (.interrupt i) { st with calls := calls }

section

variable {env : SockEnv} {st st' : Stack} {act : Action} {answer : Option Answer}

theorem peek_goOn {calls : Slots Call} {i : Nat} {c : Call} (h : calls.peek i = some c)
    (next : Next) (j : Nat) :
    (goOn calls i next).1.peek j = if j = i then next.call? else calls.peek j := by
  cases next with
  | done answer => exact Slots.peek_free calls i j
  | call c' => exact Slots.peek_put h c' j

theorem resume_turn {i : Nat} {c : Call} {tcp : Tcp} {socks : Slots Sock} {next : Next}
    (hi : st.calls.peek i = some c) (h : resume env st c = .ok (tcp, socks, next)) :
    Turn env st (.resume i) { tcp := tcp, socks := socks, calls := (goOn st.calls i next).1 } := by
  have hcalls := peek_goOn hi next
  cases c with
  | «open» family ty =>
      simp only [resume] at h
      split at h
      · next hty =>
        subst hty
        obtain ⟨out, hout, h⟩ := Machine.exists_of_bind_ok h
        split at h
        · next d hreply =>
          cases h
          exact .socket hi hout (.inl ⟨d, hreply, rfl⟩) hcalls
        · next hreply =>
          cases h
          exact .socket hi hout (.inr ⟨hreply, rfl⟩) hcalls
      · next hty =>
        split at h
        · cases h
          exact .udp hi (.inl ⟨family, ty, hty, rfl⟩) (.inl rfl) hcalls
        · cases h
          exact .udp hi (.inl ⟨family, ty, hty, rfl⟩) (.inr ⟨_, _, rfl, hty⟩) hcalls
  | store sock remote =>
      cases h
      obtain ⟨hdesc, hsocks⟩ := Slots.insert_spec st.socks sock
      exact .store _ hi hdesc hsocks hcalls
  | clear desc sock =>
      simp only [resume] at h
      split at h
      · cases h
        exact .clear hi (Slots.peek_free st.socks desc) hcalls
      · exact absurd h (by simp)
  | tcp desc sock ev w =>
      obtain ⟨out, hout, h⟩ := Machine.exists_of_bind_ok h
      cases h
      exact .tcp hi hout hcalls
  | udp call =>
      cases h
      exact .udp hi (.inr ⟨call, rfl⟩) (.inl rfl) hcalls

/-- **Every turn is a `Turn`.** -/
theorem turn_spec (h : turn env st act = .ok (st', answer)) : Turn env st act st' := by
  cases act with
  | arrive s =>
      obtain ⟨out, hout, h⟩ := Machine.exists_of_bind_ok h
      cases h
      exact .event (.inr ⟨s, rfl, rfl⟩) hout
  | timer =>
      obtain ⟨out, hout, h⟩ := Machine.exists_of_bind_ok h
      cases h
      exact .event (.inl ⟨rfl, rfl⟩) hout
  | call req =>
      simp only [turn] at h
      split at h
      · cases h
        exact .idle
      · next c hc =>
        cases h
        exact .enter hc
  | resume i =>
      simp only [turn] at h
      split at h
      · cases h
        exact .idle
      · next c hc =>
        obtain ⟨r, hr, h⟩ := Machine.exists_of_bind_ok h
        cases h
        exact resume_turn hc hr
  | interrupt i =>
      simp only [turn] at h
      split at h
      · next desc sock ev hi =>
        cases h
        exact .interrupt hi (peek_goOn hi _)
      · cases h
        exact .idle

/-- A call does not begin with an entry to store. -/
theorem enter_ne_store (socks : Slots Sock) (req : Request) (s : Sock) (r : Option IpEndp) :
    Sock.enter socks req ≠ .call (.store s r) := by
  cases req <;>
    simp only [Sock.enter, Sock.open, close, Sock.bind, listen, accept, connect, send, recv, sendto,
      recvfrom, streamCall, dgramCall, withSock] <;>
    (repeat' split) <;> simp

theorem closeBelow_ne_store (desc : SockDesc) (sock s : Sock) (r : Option IpEndp) :
    (closeBelow desc sock).call? ≠ some (.store s r) := by
  unfold closeBelow
  split
  · simp [Next.call?]
  · split <;> simp [Next.call?]

theorem interrupted_ne_store (desc : SockDesc) (sock : Sock) (ev : Event) (s : Sock)
    (r : Option IpEndp) : (interrupted desc sock ev).call? ≠ some (.store s r) := by
  cases ev <;> simp [interrupted, Next.call?]

/-- A call that leaves `tcp.rs` with an entry to store is one of `accept`. -/
theorem follow_store {desc : SockDesc} {sock s : Sock} {ev : Event} {out : Outcome}
    {r : Option IpEndp} (h : (follow desc sock ev out).call? = some (.store s r)) :
    ∃ l new remote, ev = .accept l ∧ out.reply = .conn new remote ∧
      s = entry sock.family sock.ty new out.tcp := by
  unfold follow at h
  split at h <;> simp only [Next.call?, Option.some.injEq, reduceCtorEq, Call.store.injEq] at h
  next l new remote hreply => exact ⟨l, new, remote, rfl, hreply, h.1.symm⟩

end

/-! ## Runs -/

/-- The stacks reached by the runs whose turns all meet the guard `G`. -/
def StackWhen (G : SockEnv → Stack → Action → Prop) : Stack → Prop :=
  Machine.Reach (· = {}) fun st (label : SockEnv × Action) st' ↦
    G label.1 st label.2 ∧ ∃ answer, turn label.1 st label.2 = .ok (st', answer)

/-- The stacks reached by any run. -/
def StackReachable : Stack → Prop := StackWhen fun _ _ _ ↦ True

/-- One turn of a run that stops where the test `g` fails. -/
def turnWhen (g : SockEnv → Stack → Action → Bool) (st : Stack) (label : SockEnv × Action) :
    Checked Stack :=
  if g label.1 st label.2 then (turn label.1 st label.2).map (·.1) else .error .unwrap

/-- A fixed run that ends well ends in a reachable stack. -/
theorem exists_stackWhen {G : SockEnv → Stack → Action → Prop} (g : SockEnv → Stack → Action → Bool)
    (hg : ∀ env st act, g env st act = true → G env st act) (P : Stack → Bool)
    (labels : List (SockEnv × Action)) (h : Machine.execTest (turnWhen g) P {} labels = true) :
    ∃ st, StackWhen G st ∧ P st = true := by
  refine Machine.exists_reach_of_execTest ?_ rfl h
  rintro st ⟨env, act⟩ st' hstep
  unfold turnWhen at hstep
  split at hstep
  · next hok =>
    obtain ⟨⟨st₁, answer⟩, hturn, rfl⟩ := Machine.exists_of_map_ok hstep
    exact ⟨hg env st act hok, answer, hturn⟩
  · exact absurd hstep (by simp)

/-- The environment of the fixed runs. -/
def sockEnv : SockEnv := { Tcp.routedEnv with udpOpen := none, udp := fun _ ↦ .err }

/-- A listening socket, and a peer that connects to it and is accepted. -/
def acceptRun : List (SockEnv × Action) :=
  [.call (.open afInet sockStream), .resume 0, .resume 0, .call (.bind 0 Tcp.hostEndp), .resume 0,
    .call (.listen 0 2), .resume 0, .call (.accept 0), .resume 0, fromPeer 500 0 flgSyn,
    fromPeer 501 101 flgAck, .resume 0, .resume 0].map fun act ↦ (sockEnv, act)
where
  fromPeer (seq ack : U32) (flg : U8) : Action :=
    .arrive { src := Tcp.peerEndp, dst := Tcp.hostEndp, seq := seq, ack := ack, flg := flg,
              wnd := 1000, data := [] }

end Microps.Sock
