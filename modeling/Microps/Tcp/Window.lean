import Microps.Tcp.Conform
import Microps.Tcp.Identity

/-!
# The receive window

The window offered to the peer and the unread octets make up the receive buffer, and
nothing is lost or made up between `segment_arrives`, which puts octets in, and
`receive`, which takes them out.  An `Account` follows one connection in its slot with
what has gone in and what has come out so far.
-/

namespace Microps

/-- The states in which `receive` reports the end of the stream without a look at the
buffer. -/
def TcpState.pastReceive : TcpState → Bool
  | .closing | .lastAck | .timeWait => true
  | _ => false

namespace Tcp

/-! ## An account of one connection -/

instance (p : TcpPcb) (s : TcpSegment) : Decidable (ReachesAck p s) :=
  decidable_of_iff ((p.state ≠ .closed ∧ p.state ≠ .listen ∧ p.state ≠ .synSent) ∧
      acceptable p s.info = true ∧ flagIsset s.flg flgRst = false ∧
      flagIsset s.flg flgSyn = false ∧ flagIsset s.flg flgAck = true)
    ⟨fun h ↦ ⟨h.1, h.2.1, h.2.2.1, h.2.2.2.1, h.2.2.2.2⟩,
      fun h ↦ ⟨h.state, h.acceptable, h.rst, h.syn, h.ack⟩⟩

/-- The segment passes every check on its way to the text step, and its text is copied
to the buffer. -/
def Accepts (p : TcpPcb) (s : TcpSegment) : Prop :=
  ReachesAck p s ∧ passesAck p s.info ∧ SeesText p s ∧ fits p s.info s.data

instance (p : TcpPcb) (s : TcpSegment) : Decidable (Accepts p s) := by
  unfold Accepts SeesText
  infer_instance

/-- The payload that the block in slot `d` accepts. -/
def acceptedBy (tcp : Tcp) (d : TcpDesc) : Event → List U8
  | .arrive s =>
      if pcbSelect tcp.pcbs s.dst s.src = some d ∧ (tcp.get d).any fun p ↦ Accepts p s then s.data
      else []
  | _ => []

/-- What `receive` returns from slot `d`. -/
def returnedBy (d : TcpDesc) : Event → Reply → List U8
  | .receive c _, .bytes data => if c = d then data else []
  | _, _ => []

/-- A connection and its octets. -/
structure Account where
  tcp : Tcp
  /-- The payloads that `segment_arrives` has accepted, in order. -/
  accepted : List U8
  /-- The octets that `receive` has returned. -/
  returned : List U8
deriving DecidableEq, Repr

def Account.after (a : Account) (d : TcpDesc) (ev : Event) (out : Outcome) : Account where
  tcp := out.tcp
  accepted := a.accepted ++ acceptedBy a.tcp d ev
  returned := a.returned ++ returnedBy d ev out.reply

/-- A connection begins in slot `d`, by `open`, by `connect` or by a SYN that a listener
takes, on a block that is new or has no unread octets. -/
def Starts (d : TcpDesc) (tcp tcp' : Tcp) : Prop :=
  (∀ p, tcp.get d = some p → (p.state = .closed ∨ p.state = .listen) ∧ p.buf = []) ∧
    ∃ p, tcp'.get d = some p ∧ (p.state = .synSent ∨ p.state = .synReceived)

/-- The event does not make another connection of the block in slot `d`. -/
def leavesConnection (d : TcpDesc) : Event → Bool
  | .connectCall c _ | .listen c _ => c ≠ d
  | _ => true

/-- The accounts of a connection in slot `d`, from its start until the block is
released. -/
def Connection (d : TcpDesc) : Account → Prop :=
  Machine.Reach
    (fun a ↦ a.accepted = [] ∧ a.returned = [] ∧ ∃ env tcp ev out, step env tcp ev = .ok out ∧
      out.tcp = a.tcp ∧ Starts d tcp a.tcp)
    fun a (label : Env × Event) a' ↦ leavesConnection d label.2 = true ∧
      ∃ out, step label.1 a.tcp label.2 = .ok out ∧ (out.tcp.get d).isSome = true ∧
        a' = a.after d label.2 out

/-! ## One step -/

/-- One round of `receive`: it copies octets out, or it leaves the table alone and says
why there are none. -/
theorem receiveCall_cases {tcp : Tcp} {d : TcpDesc} {p : TcpPcb} (hp : tcp.get d = some p)
    (len : Nat) :
    ((p.state.takesText ∨ p.state = .closeWait) ∧ p.buf ≠ [] ∧
        receiveCall tcp d len = takeBytes tcp d p len) ∨
      ∃ reply : Reply, reply.quiet = true ∧
        receiveCall tcp d len = .ok { tcp := tcp, reply := reply } ∧
        (reply = .bytes [] ↔ (p.state = .closeWait ∧ p.buf = []) ∨ p.state.pastReceive = true) := by
  unfold receiveCall
  simp only [hp]
  cases hstate : p.state with
  | established | finWait1 | finWait2 =>
      by_cases hbuf : p.buf = []
      · simp only [hbuf, if_true]
        exact .inr ⟨_, rfl, rfl, by simp [TcpState.pastReceive]⟩
      · exact .inl ⟨by simp [TcpState.takesText], hbuf, if_neg hbuf⟩
  | closeWait =>
      by_cases hbuf : p.buf = []
      · simp only [hbuf, if_true]
        exact .inr ⟨_, rfl, rfl, by simp⟩
      · exact .inl ⟨by simp, hbuf, if_neg hbuf⟩
  | closing | lastAck | timeWait => exact .inr ⟨_, rfl, rfl, by simp [TcpState.pastReceive]⟩
  | closed | listen | synSent | synReceived =>
      exact .inr ⟨_, rfl, rfl, by simp [TcpState.pastReceive]⟩

/-- The window and the buffer of a block, against what has gone in and come out. -/
structure Balanced (accepted returned : List U8) (p : TcpPcb) : Prop where
  wnd : p.rcv.wnd.toNat + p.buf.length = 65535
  octets : returned ++ p.buf = accepted
  state : p.state ≠ .listen

section

variable {env : Env} {tcp : Tcp} {d : TcpDesc} {ev : Event} {p p' : TcpPcb} {s : TcpSegment}
  {accepted returned : List U8}

theorem Balanced.congr (h : Balanced accepted returned p) (hwnd : p'.rcv.wnd = p.rcv.wnd)
    (hbuf : p'.buf = p.buf) (hstate : p'.state ≠ .listen) : Balanced accepted returned p' where
  wnd := by rw [hwnd, hbuf, h.wnd]
  octets := by rw [hbuf, h.octets]
  state := hstate

/-- A connection starts with an empty buffer and the whole window. -/
theorem Balanced.of_start (hwnd : p.rcv.wnd = recvBufSize) (hbuf : p.buf = [])
    (hstate : p.state ≠ .listen) : Balanced [] [] p where
  wnd := by rw [hwnd, hbuf]; rfl
  octets := by rw [hbuf]; rfl
  state := hstate

/-- The text of a segment moves octets from the window to the buffer. -/
theorem Balanced.text (h : Balanced accepted returned p) (hfits : fits p s.info s.data)
    (hwnd : p'.rcv.wnd = p.rcv.wnd - BitVec.ofNat 16 s.data.length)
    (hbuf : p'.buf = p.buf ++ s.data) (hstate : p'.state ≠ .listen) :
    Balanced (accepted ++ s.data) returned p' where
  wnd := by
    have hlen := hfits.2
    have hsum := h.wnd
    have hlt := p.rcv.wnd.isLt
    rw [hwnd, hbuf, List.length_append]
    bv_omega
  octets := by rw [hbuf, ← List.append_assoc, h.octets]
  state := hstate

/-- `receive` moves them out again. -/
theorem Balanced.take (h : Balanced accepted returned p) {n : Nat} {wnd : U16}
    (hn : n ≤ p.buf.length) (hwnd : wadd p.rcv.wnd (BitVec.ofNat 16 n) = .ok wnd) :
    Balanced accepted (returned ++ p.buf.take n)
      { p with buf := p.buf.drop n, rcv := { p.rcv with wnd := wnd } } where
  wnd := by
    have hsum := h.wnd
    unfold wadd at hwnd
    split at hwnd
    · next hlt =>
      cases hwnd
      simp only [List.length_drop]
      bv_omega
    · exact absurd hwnd (by simp)
  octets := by
    simp only [List.append_assoc, List.take_append_drop]
    exact h.octets
  state := h.state

theorem Balanced.arrived (h : Balanced accepted returned p) (hreach : ReachesAck p s)
    (harrived : Arrived p s p') :
    Balanced (accepted ++ if Accepts p s then s.data else []) returned p' := by
  have hstate := (harrived.state hreach.state).2.1
  have hyes : SeesText p s → fits p s.info s.data →
      (accepted ++ if Accepts p s then s.data else []) = accepted ++ s.data := by
    intro htext hfits
    rw [if_pos ⟨hreach, harrived.passes, htext, hfits⟩]
  obtain ⟨snd, queue, tw, backlog, -, hcases⟩ := harrived.eq
  rcases hcases with ⟨hno, -, rfl⟩ | ⟨htext, hfits, -, rfl⟩ | ⟨hno, -, rfl⟩ | ⟨htext, hfits, -, rfl⟩
  · rw [if_neg fun hacc ↦ hno hacc.2.2, List.append_nil]
    exact h.congr rfl rfl hstate
  · rw [hyes htext hfits]
    exact h.text hfits rfl rfl hstate
  · rw [if_neg fun hacc ↦ hno hacc.2.2.1, List.append_nil]
    exact h.congr rfl rfl hstate
  · rw [hyes htext hfits]
    exact h.text hfits rfl rfl hstate

/-- A step of the block by itself, other than a `receive`. -/
theorem Balanced.block {es : List Effect} {reply : Reply} (h : Balanced accepted returned p)
    (hblock : BlockStep env tcp d ev p es reply p') (hleaves : leavesConnection d ev = true)
    (hev : ∀ len, ev ≠ .receive d len) : Balanced accepted returned p' := by
  cases hblock with
  | mss m => exact h.congr rfl rfl h.state
  | bind l _ => exact h.congr rfl rfl h.state
  | listen n _ => simp [leavesConnection] at hleaves
  | connectFails _ | interrupted => exact h.congr rfl rfl (by simp)
  | syn l r _ _ | synFails l r _ _ => simp [leavesConnection] at hleaves
  | passive s _ hstate _ _ _ _ => exact absurd hstate h.state
  | synSent s acceptable _ _ _ _ _ =>
      obtain ⟨q, hq, hcases⟩ := synInSynSent_cases env p s.info acceptable
      obtain ⟨snd, queue, heq, -⟩ := takeSyn_eq p s.info acceptable
      subst hq
      rcases hcases with ⟨-, hcase⟩ | ⟨-, hcase⟩
      · rw [hcase, heq]
        exact h.congr rfl rfl (by simp)
      · rw [hcase, heq]
        exact h.congr rfl rfl (by simp)
  | fin state hstate =>
      rw [sendFin_eq]
      refine h.congr rfl rfl ?_
      rcases hstate with ⟨-, rfl⟩ | ⟨-, rfl⟩ <;> simp
  | data data sent n _ _ _ _ =>
      rw [sendData_eq]
      exact h.congr rfl rfl h.state
  | take len n wnd _ _ _ _ => exact absurd rfl (hev len)

/-- An event that brings no text for the block and is no `receive` from it. -/
theorem Balanced.evolve {reply : Reply} (h : Balanced accepted returned p)
    (hevolve : Evolve env tcp d reply ev p p') (hp : tcp.get d = some p)
    (hleaves : leavesConnection d ev = true) (hev : ∀ len, ev ≠ .receive d len)
    (hnone : acceptedBy tcp d ev = []) : Balanced accepted returned p' := by
  cases hevolve with
  | keep backlog mss accepted _ => exact h.congr rfl rfl h.state
  | block hblock => exact h.block hblock hleaves hev
  | arrived s hselect hreach harrived =>
      have heq : (if Accepts p s then s.data else []) = [] := by
        simpa [acceptedBy, hselect, hp] using hnone
      have hnext := h.arrived hreach harrived
      rwa [heq, List.append_nil] at hnext
  | tick =>
      rcases retransEmit_cases env p with heq | ⟨f, -, heq⟩
      · rw [heq]
        exact h.congr rfl rfl (by simp)
      · rw [heq]
        exact h.congr rfl rfl h.state

theorem Balanced.receive {len : Nat} {out : Outcome} (h : Balanced accepted returned p)
    (hp : tcp.get d = some p) (hout : receiveCall tcp d len = .ok out)
    (hp' : out.tcp.get d = some p') :
    Balanced accepted (returned ++ returnedBy d (.receive d len) out.reply) p' := by
  rcases receiveCall_cases hp len with ⟨-, -, heq⟩ | ⟨reply, hquiet, heq, -⟩
  · obtain ⟨wnd, hwnd, hout⟩ := Machine.exists_of_bind_ok (heq.symm.trans hout)
    cases hout
    rw [get_set hp, if_pos rfl] at hp'
    cases hp'
    simpa [returnedBy] using h.take (Nat.min_le_right _ _) hwnd
  · cases heq.symm.trans hout
    obtain rfl : p = p' := by simpa using hp.symm.trans hp'
    have hnil : returnedBy d (.receive d len) reply = [] := by
      cases reply <;> simp_all [returnedBy, Reply.quiet]
    simpa only [hnil, List.append_nil] using h

/-- **One step** keeps the account of a connection. -/
theorem Balanced.next {out : Outcome} (h : Balanced accepted returned p) (hp : tcp.get d = some p)
    (hout : step env tcp ev = .ok out) (hp' : out.tcp.get d = some p')
    (hleaves : leavesConnection d ev = true) :
    Balanced (accepted ++ acceptedBy tcp d ev) (returned ++ returnedBy d ev out.reply) p' := by
  by_cases hrecv : ∃ len, ev = .receive d len
  · obtain ⟨len, rfl⟩ := hrecv
    rw [show acceptedBy tcp d (.receive d len) = [] from rfl, List.append_nil]
    exact h.receive hp hout hp'
  have hev : ∀ len, ev ≠ .receive d len := fun len heq ↦ hrecv ⟨len, heq⟩
  have hreturned : returnedBy d ev out.reply = [] := by
    unfold returnedBy
    split
    · next c len _ _ => rw [if_neg fun hc ↦ hev len (by rw [hc])]
    · rfl
  rw [hreturned, List.append_nil]
  by_cases hnone : acceptedBy tcp d ev = []
  · rw [hnone, List.append_nil]
    rcases (step_move hout).evolve hp' with ⟨q, hq, hevolve⟩ | ⟨hfree, -⟩
    · obtain rfl : p = q := by simpa using hp.symm.trans hq
      exact h.evolve hevolve hp hleaves hev hnone
    · exact absurd (hp.symm.trans hfree) (by simp)
  -- Text for the block: the segment passes the ACK step.
  cases ev with
  | arrive s =>
      have hsome : pcbSelect tcp.pcbs s.dst s.src = some d ∧ Accepts p s := by
        by_contra hnot
        exact hnone (by simp [acceptedBy, hp]; tauto)
      obtain ⟨r, q, hr, hq, harrived⟩ :=
        segmentArrives_arrived env hsome.1 hp hsome.2.1 hsome.2.2.1
      obtain rfl : out = { tcp := r.1, effects := r.2 } := by
        simp only [Tcp.step, hr] at hout
        cases hout
        rfl
      obtain rfl : q = p' := by simpa using hq.symm.trans hp'
      simpa [acceptedBy, hsome.1, hp] using h.arrived hsome.2.1 harrived
  | _ => exact absurd rfl hnone

/-- The first SYN of a connection on a block that was closed or listening. -/
theorem Balanced.of_evolve {reply : Reply} (hevolve : Evolve env tcp d reply ev p p')
    (hold : p.state = .closed ∨ p.state = .listen) (hbuf : p.buf = [])
    (hstate : p'.state = .synSent ∨ p'.state = .synReceived) : Balanced [] [] p' := by
  have hlisten : p'.state ≠ .listen := by rcases hstate with h | h <;> simp [h]
  have hchanged : p'.state ≠ p.state := by
    intro heq
    rcases hold with h | h <;> rcases hstate with h' | h' <;> simp_all
  cases hevolve with
  | keep backlog mss accepted _ => exact absurd rfl hchanged
  | block hblock =>
      cases hblock with
      | mss m | bind l _ | take len n wnd _ _ _ _ => exact absurd rfl hchanged
      | listen n _ | connectFails _ | interrupted => simp at hstate
      | syn l r _ _ =>
          rw [sendSyn_eq] at hlisten ⊢
          exact .of_start rfl hbuf hlisten
      | synFails l r _ _ => simp at hstate
      | passive s _ _ _ _ _ _ =>
          rw [passiveOpen_eq] at hlisten ⊢
          exact .of_start rfl hbuf hlisten
      | synSent s acceptable _ h _ _ _ => simp [h] at hold
      | fin state h =>
          rcases h with ⟨h | h, -⟩ | ⟨h, -⟩ <;> simp [h] at hold
      | data data sent n h _ _ _ => rcases h with h | h <;> simp [h] at hold
  | arrived s _ hreach _ =>
      rcases hold with h | h
      · exact absurd h hreach.state.1
      · exact absurd h hreach.state.2.1
  | tick =>
      rcases (retransEmit_same env p).2.2.2 with h | h
      · exact absurd h hchanged
      · simp [h] at hstate

/-- A connection begins on a new block. -/
theorem Balanced.of_birth {task : TaskId} {es : List Effect} {reply : Reply}
    (h : Birth env tcp d task ev es reply p)
    (hstate : p.state = .synSent ∨ p.state = .synReceived) : Balanced [] [] p := by
  cases h with
  | socket => simp [TcpPcb.empty] at hstate
  | listen l r => simp at hstate
  | syn l l' r _ _ =>
      rw [sendSyn_eq]
      exact .of_start rfl rfl (by simp [synSent])
  | child s l q child _ _ _ _ _ _ _ _ hchild =>
      rw [passiveOpen_eq, hchild]
      exact .of_start rfl rfl (by simp)

/-- A connection begins with a balanced account. -/
theorem Balanced.start {out : Outcome} (hout : step env tcp ev = .ok out)
    (hstart : Starts d tcp out.tcp) : ∃ p, out.tcp.get d = some p ∧ Balanced [] [] p := by
  obtain ⟨hfresh, p', hp', hstate⟩ := hstart
  refine ⟨p', hp', ?_⟩
  rcases (step_move hout).evolve hp' with ⟨p, hp, hevolve⟩ | ⟨-, es, reply, hbirth⟩
  · exact .of_evolve hevolve (hfresh p hp).1 (hfresh p hp).2 hstate
  · exact .of_birth hbirth hstate

end

/-- The account of a connection is balanced in every run. -/
theorem Connection.balanced {d : TcpDesc} {a : Account} (h : Connection d a) :
    ∃ p, a.tcp.get d = some p ∧ Balanced a.accepted a.returned p := by
  refine Machine.Reach.invariant
    (fun a : Account ↦ ∃ p, a.tcp.get d = some p ∧ Balanced a.accepted a.returned p) ?_ ?_ h
  · rintro ⟨_, _, _⟩ ⟨rfl, rfl, env, tcp, ev, out, hout, rfl, hstart⟩
    exact Balanced.start hout hstart
  · rintro a ⟨env, ev⟩ _ ⟨p, hp, hbal⟩ ⟨hleaves, out, hout, hsome, rfl⟩
    obtain ⟨p', hp'⟩ := Option.isSome_iff_exists.mp hsome
    exact ⟨p', hp', hbal.next hp hout hp' hleaves⟩

/-- The narrowing cast of a length that fits the window loses nothing. -/
theorem toNat_ofNat_of_le {n : Nat} {wnd : U16} (h : n ≤ wnd.toNat) :
    (BitVec.ofNat 16 n).toNat = n := by
  have hlt := wnd.isLt
  rw [BitVec.toNat_ofNat, Nat.mod_eq_of_lt (by omega)]

/-- **Receive-window accounting**: from the start of a connection on, and whatever
arrives and is called, the window and the unread octets make up the buffer, and what
`receive` has returned, followed by the unread octets, is what `segment_arrives` has
accepted.  So the subtraction and the addition on the window stay in range, and the
casts to `u16` lose nothing. -/
theorem window_accounts {d : TcpDesc} {a : Account} (h : Connection d a) {p : TcpPcb}
    (hp : a.tcp.get d = some p) :
    p.rcv.wnd.toNat + p.buf.length = 65535 ∧ a.returned ++ p.buf = a.accepted ∧
      (∀ s, Accepts p s → (BitVec.ofNat 16 s.data.length).toNat = s.data.length ∧
        ∃ wnd, wsub p.rcv.wnd (BitVec.ofNat 16 s.data.length) = .ok wnd ∧
          wnd.toNat + s.data.length = p.rcv.wnd.toNat) ∧
      ∀ len n, n = min len p.buf.length → (BitVec.ofNat 16 n).toNat = n ∧
        ∃ wnd, wadd p.rcv.wnd (BitVec.ofNat 16 n) = .ok wnd ∧
          wnd.toNat = p.rcv.wnd.toNat + n := by
  obtain ⟨q, hq, hbal⟩ := h.balanced
  obtain rfl : p = q := by simpa using hp.symm.trans hq
  have hsum := hbal.wnd
  have hlt := p.rcv.wnd.isLt
  refine ⟨hsum, hbal.octets, ?_, ?_⟩
  · intro s hs
    have hlen := hs.2.2.2.2
    have hcast := toNat_ofNat_of_le hlen
    refine ⟨hcast, p.rcv.wnd - BitVec.ofNat 16 s.data.length, ?_, ?_⟩
    · rw [wsub, if_pos (by rw [BitVec.le_def, hcast]; exact hlen)]
    · rw [BitVec.toNat_sub_of_le (by rw [BitVec.le_def, hcast]; exact hlen), hcast]
      omega
  · intro len n hn
    have hle : n ≤ p.buf.length := hn ▸ Nat.min_le_right _ _
    have hcast : (BitVec.ofNat 16 n).toNat = n := by
      rw [BitVec.toNat_ofNat, Nat.mod_eq_of_lt (by omega)]
    refine ⟨hcast, p.rcv.wnd + BitVec.ofNat 16 n, ?_, ?_⟩
    · rw [wadd, if_pos (by rw [hcast]; omega)]
    · rw [BitVec.toNat_add, hcast, Nat.mod_eq_of_lt (by omega)]

/-! ## Fixed connections -/

/-- One step of the account of a fixed connection. -/
def accountStep (d : TcpDesc) (a : Account) (label : Env × Event) : Checked Account := do
  let out ← step label.1 a.tcp label.2
  if leavesConnection d label.2 ∧ (out.tcp.get d).isSome then return a.after d label.2 out
  else .error .unwrap

/-- A connection that begins with the first event of all and passes a test. -/
def connectionTest (d : TcpDesc) (P : Account → Bool) (first : Env × Event)
    (labels : List (Env × Event)) : Bool :=
  match step first.1 {} first.2 with
  | .ok out => ((out.tcp.get d).any fun p ↦ p.state = .synSent) &&
      Machine.execTest (accountStep d) P ⟨out.tcp, [], []⟩ labels
  | .error _ => false

theorem exists_connection (d : TcpDesc) (P : Account → Bool) (first : Env × Event)
    (labels : List (Env × Event)) (h : connectionTest d P first labels = true) :
    ∃ a, Connection d a ∧ P a = true := by
  unfold connectionTest at h
  split at h
  · next out hout =>
    obtain ⟨hstart, htest⟩ := Bool.and_eq_true_iff.mp h
    obtain ⟨p, hp, hstate⟩ := (Option.any_eq_true _ _).mp hstart
    refine Machine.exists_reach_of_execTest ?_ ?_ htest
    · intro a label a' hstep
      obtain ⟨out, hout, hrest⟩ := Machine.exists_of_bind_ok hstep
      split at hrest
      · next hguard =>
        cases hrest
        exact ⟨hguard.1, out, hout, hguard.2, rfl⟩
      · exact absurd hrest (by simp)
    · refine ⟨rfl, rfl, _, _, _, out, hout, rfl, by simp [Tcp.get], p, hp, .inl ?_⟩
      exact of_decide_eq_true hstate
  · exact absurd h (by simp)

/-- An active open, the peer's SYN and three octets, two of which are read. -/
theorem window_accounts_three_octets :
    ∃ a p, Connection 0 a ∧ a.tcp.get 0 = some p ∧ a.accepted = [1, 2, 3] ∧ a.returned = [1, 2] ∧
      p.rcv.wnd.toNat + p.buf.length = 65535 ∧ a.returned ++ p.buf = a.accepted := by
  obtain ⟨a, ha, htest⟩ := exists_connection 0
    (fun a ↦ (a.tcp.get 0).isSome && a.accepted = [1, 2, 3] && a.returned = [1, 2])
    (calmEnv, .openCall hostEndp peerEndp true)
    [fromPeer 500 101 (flgSyn ||| flgAck) [], fromPeer 501 101 flgAck [1, 2, 3],
      (calmEnv, .receive 0 2)] (by decide +kernel)
  simp only [Bool.and_eq_true, decide_eq_true_eq] at htest
  obtain ⟨⟨hsome, haccepted⟩, hreturned⟩ := htest
  obtain ⟨p, hp⟩ := Option.isSome_iff_exists.mp hsome
  obtain ⟨hwnd, hoctets, -⟩ := window_accounts ha hp
  exact ⟨a, p, ha, hp, haccepted, hreturned, hwnd, hoctets⟩

/-! ## The end of the stream -/

/-- What a round of `receive` with room for at least one octet reports as the end of
the stream. -/
theorem receiveCall_zero {tcp : Tcp} {d : TcpDesc} {p : TcpPcb} (hp : tcp.get d = some p)
    {len : Nat} (hlen : 0 < len) :
    (∃ out, receiveCall tcp d len = .ok out ∧ out.reply = .bytes []) ↔
      (p.state = .closeWait ∧ p.buf = []) ∨ p.state.pastReceive = true := by
  rcases receiveCall_cases hp len with ⟨hstate, hbuf, heq⟩ | ⟨reply, -, heq, hreply⟩
  · constructor
    · rintro ⟨out, hout, hzero⟩
      obtain ⟨wnd, -, hout⟩ := Machine.exists_of_bind_ok (heq.symm.trans hout)
      cases hout
      have hnil : p.buf.take (min len p.buf.length) = [] := by simpa using hzero
      have hpos := List.length_pos_iff.mpr hbuf
      rw [List.take_eq_nil_iff] at hnil
      rcases hnil with hnil | hnil
      · omega
      · exact absurd hnil hbuf
    · rintro (⟨-, hnil⟩ | hpast)
      · exact absurd hnil hbuf
      · rcases hstate with h | h <;>
          cases hs : p.state <;> simp_all [TcpState.takesText, TcpState.pastReceive]
  · rw [← hreply]
    constructor
    · rintro ⟨out, hout, hzero⟩
      cases heq.symm.trans hout
      exact hzero
    · exact fun h ↦ ⟨_, heq, h⟩

/-- **The end of the stream**: a `receive` with room for an octet reports the end of the
stream only when the buffer is empty, and so everything accepted has been returned,
exactly when the block is not in CLOSING, LAST_ACK or TIME_WAIT with unread octets. -/
theorem receive_zero_iff {tcp : Tcp} {d : TcpDesc} {p : TcpPcb} (hp : tcp.get d = some p)
    {len : Nat} (hlen : 0 < len) :
    ((∀ out, receiveCall tcp d len = .ok out → out.reply = .bytes [] → p.buf = []) ↔
        ¬ (p.state.pastReceive = true ∧ p.buf ≠ [])) ∧
      ∀ a, Connection d a → a.tcp = tcp →
        ((∀ out, receiveCall tcp d len = .ok out → out.reply = .bytes [] →
            a.returned = a.accepted) ↔
          ¬ (p.state.pastReceive = true ∧ p.buf ≠ [])) := by
  have hzero := receiveCall_zero hp hlen
  have hiff : (∀ out, receiveCall tcp d len = .ok out → out.reply = .bytes [] → p.buf = []) ↔
      ¬ (p.state.pastReceive = true ∧ p.buf ≠ []) := by
    constructor
    · rintro hall ⟨hpast, hbuf⟩
      obtain ⟨out, hout, hreply⟩ := hzero.mpr (.inr hpast)
      exact hbuf (hall out hout hreply)
    · intro hnot out hout hreply
      rcases hzero.mp ⟨out, hout, hreply⟩ with ⟨-, hbuf⟩ | hpast
      · exact hbuf
      · by_contra hbuf
        exact hnot ⟨hpast, hbuf⟩
  refine ⟨hiff, ?_⟩
  rintro a ha rfl
  obtain ⟨q, hq, hbal⟩ := ha.balanced
  obtain rfl : p = q := by simpa using hp.symm.trans hq
  have hall : a.returned = a.accepted ↔ p.buf = [] := by
    rw [← hbal.octets]
    simp
  simpa only [hall] using hiff

/-- Three octets, one of them read, and the peer's FIN: the block is in CLOSE_WAIT. -/
theorem receive_zero_iff_closeWait :
    ∃ a p, Connection 0 a ∧ a.tcp.get 0 = some p ∧ p.state = .closeWait ∧ p.buf = [2, 3] ∧
      ∀ out, receiveCall a.tcp 0 5 = .ok out → out.reply = .bytes [] → a.returned = a.accepted := by
  obtain ⟨a, ha, htest⟩ := exists_connection 0
    (fun a ↦ (a.tcp.get 0).any fun p ↦ p.state = .closeWait && p.buf = [2, 3])
    (calmEnv, .openCall hostEndp peerEndp true)
    [fromPeer 500 101 (flgSyn ||| flgAck) [], fromPeer 501 101 flgAck [1, 2, 3],
      (calmEnv, .receive 0 1), fromPeer 504 101 (flgAck ||| flgFin) []] (by decide +kernel)
  obtain ⟨p, hp, htest⟩ := (Option.any_eq_true _ _).mp htest
  simp only [Bool.and_eq_true, decide_eq_true_eq] at htest
  refine ⟨a, p, ha, hp, htest.1, htest.2, ?_⟩
  exact ((receive_zero_iff hp (Nat.succ_pos 4)).2 a ha rfl).mpr
    (by simp [htest.1, TcpState.pastReceive])

/-- Otherwise it fails: two octets and then the peer's FIN arrive after our `close`, and
the block is in TIME_WAIT with the octets unread. -/
theorem receive_loses_octets :
    ¬ ∀ tcp, Reachable tcp → ∀ d p, tcp.get d = some p → ∀ len, 0 < len → ∀ out,
      receiveCall tcp d len = .ok out → out.reply = .bytes [] → p.buf = [] := by
  intro hall
  obtain ⟨tcp, hreach, htest⟩ := exists_reachableWhen (fun _ _ _ ↦ true) (fun _ _ _ _ ↦ trivial)
    (fun tcp ↦ (tcp.get 0).any fun p ↦ p.state = .timeWait && p.buf = [1, 2])
    [(calmEnv, .openCall hostEndp peerEndp true), fromPeer 500 101 (flgSyn ||| flgAck) [],
      (calmEnv, .close 0), fromPeer 501 102 flgAck [1, 2],
      fromPeer 503 102 (flgAck ||| flgFin) []] (by decide +kernel)
  obtain ⟨p, hp, htest⟩ := (Option.any_eq_true _ _).mp htest
  simp only [Bool.and_eq_true, decide_eq_true_eq] at htest
  obtain ⟨out, hout, hreply⟩ := (receiveCall_zero hp Nat.one_pos).mpr
    (.inr (by simp [htest.1, TcpState.pastReceive]))
  exact absurd (hall tcp hreach 0 p hp 1 Nat.one_pos out hout hreply) (by simp [htest.2])

end Tcp

end Microps
