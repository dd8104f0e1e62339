import Microps.Tcp.Reach
import Microps.Tcp.Output
import Microps.Tcp.Teardown

/-!
# Calls that fail

A call that returns an error should leave no trace: `bind`, `listen`, `close` and the set-up
of `connect` leave every block as it was, `open` leaves no block behind, and `accept` takes no
connection out of the backlog.  The error exits come after different amounts of work, some of
which is undone and some not; `Undone` says when nothing is left to undo.
-/

namespace Microps.Tcp

/-- The entries of a backlog that name a block of the table. -/
def liveEntries (tcp : Tcp) (backlog : List TcpDesc) : List TcpDesc :=
  backlog.filter fun d ↦ (tcp.get d).isSome

/-- What a failed part of a call has left as it was.  A round of `accept` that does not return a
connection is part of a call that may fail later. -/
def LeavesNoTrace (tcp : Tcp) (ev : Event) (out : Outcome) : Prop :=
  match ev with
  | .bind _ _ | .listen _ _ | .close _ | .connectCall _ _ | .openCall _ _ _ =>
      out.reply = .err → ∀ j, out.tcp.get j = tcp.get j
  | .openPoll d | .openInterrupted d | .openFinish d => out.reply = .err → out.tcp.get d = none
  | .accept d => (∀ new r, out.reply ≠ .conn new r) → ∀ p p', tcp.get d = some p →
      out.tcp.get d = some p' → liveEntries tcp p'.backlog = liveEntries tcp p.backlog
  | _ => True

/-- The call is atomic in its errors. -/
def ErrorAtomic (env : Env) (tcp : Tcp) (ev : Event) : Prop :=
  ∀ out, step env tcp ev = .ok out → LeavesNoTrace tcp ev out

/-- The error exits that would have something to undo are not taken. -/
def Undone (env : Env) (tcp : Tcp) : Event → Prop
  | .connectCall d r => ∀ p l, tcp.get d = some p → Connects env tcp p l r →
      env.ipOutput (sendSyn env p l r).2 = true
  | .close d => ∀ p, tcp.get d = some p → p.state = .listen ∨ p.state = .synSent →
      ¬ Relation.TransGen (Queues tcp.pcbs) d d
  | .openFinish d => ∀ p, tcp.get d = some p →
      (routeLookup env.routes p.remoteEndp.addr).isSome = true
  | .accept d => ∀ p new rest q, tcp.get d = some p → p.state = .listen →
      p.backlog = new :: rest → tcp.get new = some q →
      (routeLookup env.routes q.remoteEndp.addr).isSome = true
  | _ => True

section

variable {env : Env} {tcp : Tcp} {d : TcpDesc}

/-! ## Setting up -/

/-- `bind` and `listen` change the table last. -/
theorem bindCall_err {l : IpEndp} (h : (bindCall tcp d l).reply = .err) :
    (bindCall tcp d l).tcp = tcp := by
  unfold bindCall at h ⊢
  split at h
  · rfl
  · split at h
    · next hcond => simp only [hcond, if_true]
    · exact absurd h (by simp)

theorem listenCall_err {n : Nat} (h : (listenCall tcp d n).reply = .err) :
    (listenCall tcp d n).tcp = tcp := by
  unfold listenCall at h ⊢
  split at h
  · rfl
  · split at h
    · next hcond => simp only [hcond, if_true]
    · exact absurd h (by simp)

/-- A failed `open` gives its block back. -/
theorem openCall_err {l r : IpEndp} {active : Bool} {out : Outcome}
    (h : openCall env tcp l r active = .ok out) (herr : out.reply = .err) (j : TcpDesc) :
    out.tcp.get j = tcp.get j := by
  have hmove := openCall_move h
  cases hmove with
  | idle _ _ => rfl
  | work hp hblock => cases hblock
  | birth halloc hbirth =>
      cases hbirth with
      | listen => exact absurd herr (by simp)
      | syn => exact absurd herr (by simp)
  | stillborn hget _ _ => exact hget j
  | drop es hp hev _ _ _ _ => exact absurd hev (by simp [Drops])

/-- A failed SYN leaves an entry in the queue. -/
theorem sendSyn_ne (env : Env) (p : TcpPcb) (l r : IpEndp) :
    { (sendSyn env p l r).1 with state := .closed } ≠ p := by
  intro heq
  have hqueue := congrArg (fun q : TcpPcb ↦ q.queue.length) heq
  rw [sendSyn_eq] at hqueue
  simp at hqueue

/-- The set-up of `connect` leaves no trace unless the SYN cannot be sent. -/
theorem connectCall_atomic_iff (env : Env) (tcp : Tcp) (d : TcpDesc) (r : IpEndp) :
    ErrorAtomic env tcp (.connectCall d r) ↔ Undone env tcp (.connectCall d r) := by
  constructor
  · intro h p l hp hconnects
    by_contra hout
    have hcall : connectCall env tcp d r =
        { tcp := tcp.set d { (sendSyn env p l r).1 with state := .closed }, reply := .err,
          effects := [.emit (sendSyn env p l r).2] } := by
      unfold connectCall
      simp only [hp, hconnects.1, hconnects.2, Bool.false_eq_true, if_false, hout]
    have hsame := h _ (congrArg Except.ok hcall) rfl d
    rw [get_set hp, if_pos rfl, hp] at hsame
    exact sendSyn_ne env p l r (Option.some.inj hsame)
  · rintro h _ ⟨⟩ herr j
    unfold connectCall at herr ⊢
    cases hp : tcp.get d with
    | none => rfl
    | some p =>
        simp only [hp] at herr ⊢
        cases hchoose : chooseLocal env tcp p.localEndp r with
        | none => rfl
        | some l =>
            simp only [hchoose] at herr ⊢
            split at herr
            · next hselect => simp only [hselect, if_true]
            next hselect =>
            have hout := h p l hp ⟨hchoose, by simpa using hselect⟩
            simp [hout] at herr

/-! ## Closing -/

/-- What leads from a slot to a slot is the same after the block was closed. -/
theorem transGen_put {p q : TcpPcb} (hp : tcp.get d = some p) (hq : q.backlog = p.backlog)
    {i j : TcpDesc} : Relation.TransGen (Queues (tcp.pcbs.put d q)) i j ↔
      Relation.TransGen (Queues tcp.pcbs) i j :=
  ⟨Relation.TransGen.mono (fun i j ↦ (queues_put hp hq i j).mp) i j,
    Relation.TransGen.mono (fun i j ↦ (queues_put hp hq i j).mpr) i j⟩

/-- `close` leaves no trace unless the backlogs lead back to the block that it releases. -/
theorem closeCall_atomic_iff (env : Env) (tcp : Tcp) (d : TcpDesc) :
    ErrorAtomic env tcp (.close d) ↔ Undone env tcp (.close d) := by
  -- The two states in which the block is released.
  have hreleases : ∀ p, tcp.get d = some p → p.state = .listen ∨ p.state = .synSent →
      (((closeCall env tcp d).reply = .err → ∀ j, (closeCall env tcp d).tcp.get j = tcp.get j) ↔
        ¬ Relation.TransGen (Queues tcp.pcbs) d d) := by
    intro p hp hstate
    have hcall : closeCall env tcp d =
        { tcp := { tcp with
            pcbs := (pcbRelease env (tcp.pcbs.put d { p with state := .closed }) d).pcbs },
          reply := if (pcbRelease env (tcp.pcbs.put d { p with state := .closed }) d).ok
            then .ok else .err,
          effects := (pcbRelease env (tcp.pcbs.put d { p with state := .closed }) d).effects } := by
      unfold closeCall
      rcases hstate with hs | hs <;> simp only [hp, hs]
    have hclosed : (tcp.pcbs.put d { p with state := .closed }).peek d =
        some { p with state := .closed } := by
      rw [Slots.peek_put hp, if_pos rfl]
    have hok := pcbRelease_ok_iff env hclosed
    rw [transGen_put (q := { p with state := .closed }) hp rfl] at hok
    rw [← hok, hcall]
    constructor
    · intro hsame
      by_contra hno
      have hd := hsame (if_neg hno) d
      have hfreed : tcp.get d = none :=
        hd.symm.trans (pcbRelease_closed_spec env hp).1.freed
      exact absurd (hp.symm.trans hfreed) (by simp)
    · intro hyes herr
      exact absurd herr (by simp [hyes])
  constructor
  · intro h p hp hstate
    exact (hreleases p hp hstate).mp (h _ rfl)
  · rintro h _ ⟨⟩
    cases hp : tcp.get d with
    | none =>
        intro _ j
        simp only [closeCall, hp]
    | some p =>
        cases hs : p.state with
        | listen | synSent => exact (hreleases p hp (by simp [hs])).mpr (h p hp (by simp [hs]))
        | synReceived | established | closeWait =>
            intro herr
            simp [closeCall, hp, hs] at herr
        | closed | finWait1 | finWait2 | closing | lastAck | timeWait =>
            intro _ j
            simp only [closeCall, hp, hs]

/-! ## Waiting for the connection -/

theorem openPoll_err (h : (openPoll env tcp d).reply = .err) : (openPoll env tcp d).tcp.get d = none := by
  unfold openPoll at h ⊢
  cases hp : tcp.get d with
  | none => exact hp
  | some p =>
      simp only [hp] at h ⊢
      split at h
      · exact absurd h (by simp)
      · exact absurd h (by simp)
      · exact absurd h (by simp)
      · exact absurd h (by simp)
      · exact get_closeAndRelease_of_linked env hp rfl .refl

theorem openInterrupted_get (env : Env) (tcp : Tcp) (d : TcpDesc) :
    (openInterrupted env tcp d).tcp.get d = none := by
  unfold openInterrupted
  cases hp : tcp.get d with
  | none => exact hp
  | some p => exact get_closeAndRelease_of_linked env hp rfl .refl

/-- The maximum segment size is not found only where there is no route. -/
theorem mssFor_of_no_route {r : IpEndp} (h : routeLookup env.routes r.addr = none) :
    mssFor env r = .ok none := by
  unfold mssFor
  rw [h]
  rfl

/-- The end of `open` leaves no trace unless the route is gone. -/
theorem openFinish_atomic_iff (env : Env) (tcp : Tcp) (d : TcpDesc) :
    ErrorAtomic env tcp (.openFinish d) ↔ Undone env tcp (.openFinish d) := by
  constructor
  · intro h p hp
    cases hroute : routeLookup env.routes p.remoteEndp.addr with
    | some route => rfl
    | none =>
        have hcall : openFinish env tcp d = .ok { tcp := tcp, reply := .err } := by
          unfold openFinish
          simp only [hp, mssFor_of_no_route hroute]
          rfl
        exact absurd (hp.symm.trans (h _ hcall rfl)) (by simp)
  · intro h out hout herr
    change openFinish env tcp d = _ at hout
    unfold openFinish at hout
    split at hout
    · next hp =>
      cases hout
      exact hp
    · next p hp =>
      obtain ⟨mss, hmss, hout⟩ := Machine.exists_of_bind_ok hout
      cases mss with
      | none =>
          have hroute := h p hp
          simp [mssFor_eq_none hmss] at hroute
      | some mss =>
          cases hout
          exact absurd herr (by simp)

/-! ## Accepting -/

theorem liveEntries_cons_of_none {new : TcpDesc} {rest : List TcpDesc} (h : tcp.get new = none) :
    liveEntries tcp (new :: rest) = liveEntries tcp rest := by
  simp [liveEntries, h]

theorem liveEntries_cons_of_some {new : TcpDesc} {rest : List TcpDesc} {q : TcpPcb}
    (h : tcp.get new = some q) : liveEntries tcp (new :: rest) = new :: liveEntries tcp rest := by
  simp [liveEntries, h]

/-- What a listener finds in a slot after it has changed its own backlog. -/
theorem get_set_backlog {p : TcpPcb} (hp : tcp.get d = some p) (backlog : List TcpDesc)
    (j : TcpDesc) : ((tcp.set d { p with backlog := backlog }).get j).map (·.remoteEndp) =
      (tcp.get j).map (·.remoteEndp) := by
  rw [get_set hp]
  split
  · next hj =>
    rw [hj, hp]
    rfl
  · rfl

/-- `accept` takes no connection out of the backlog unless it finds no route to the peer. -/
theorem acceptCall_atomic_iff (env : Env) (tcp : Tcp) (d : TcpDesc) :
    ErrorAtomic env tcp (.accept d) ↔ Undone env tcp (.accept d) := by
  constructor
  · intro h p new rest q hp hstate hbacklog hq
    cases hroute : routeLookup env.routes q.remoteEndp.addr with
    | some route => rfl
    | none =>
        have hsame := get_set_backlog hp rest new
        rw [hq] at hsame
        obtain ⟨q', hq', hremote⟩ := Option.map_eq_some_iff.mp hsame
        have hnone : routeLookup env.routes q'.remoteEndp.addr = none := by rw [hremote, hroute]
        have hcall : acceptCall env tcp d =
            .ok { tcp := tcp.set d { p with backlog := rest }, reply := .err } := by
          unfold acceptCall
          simp only [hp]
          rw [if_neg (by simp [hstate])]
          simp only [hbacklog, hq', mssFor_of_no_route hnone]
          rfl
        have hlive := h _ hcall (by simp) p { p with backlog := rest } hp
          (by rw [get_set hp, if_pos rfl])
        rw [hbacklog, liveEntries_cons_of_some hq] at hlive
        exact absurd (congrArg List.length hlive) (by simp)
  · intro h out hout hconn p p' hp hp'
    cases acceptCall_move hout with
    | idle _ _ =>
        obtain rfl : p = p' := Option.some.inj (hp.symm.trans hp')
        rfl
    | work _ hblock => cases hblock
    | birth _ hbirth => cases hbirth
    | drop es _ hev _ _ _ _ => exact absurd hev (by simp [Drops])
    | accept m _ _ _ _ => exact absurd rfl (hconn _ _)
    | @pop _ new p₀ rest reply hp₀ hstate hbacklog hreply =>
        obtain rfl : p = p₀ := Option.some.inj (hp.symm.trans hp₀)
        rw [get_set hp, if_pos rfl] at hp'
        cases hp'
        have hsame := get_set_backlog hp rest new
        rcases hreply with ⟨-, hnone⟩ | ⟨-, q, hq, hroute⟩
        · rw [hnone] at hsame
          rw [hbacklog, liveEntries_cons_of_none (Option.map_eq_none_iff.mp hsame.symm)]
        · rw [hq] at hsame
          obtain ⟨q', hq', hremote⟩ := Option.map_eq_some_iff.mp hsame.symm
          have hfound := h p new rest q' hp hstate hbacklog hq'
          simp [hremote, hroute] at hfound

end

/-- **Calls that fail leave no trace** exactly where nothing is left to undo: the SYN of
`connect` can be sent, the backlogs do not lead back to a block that `close` releases, and
`open` and `accept` find a route to the peer. -/
theorem errorAtomic_iff (env : Env) (tcp : Tcp) (ev : Event) :
    ErrorAtomic env tcp ev ↔ Undone env tcp ev := by
  cases ev with
  | connectCall d r => exact connectCall_atomic_iff env tcp d r
  | close d => exact closeCall_atomic_iff env tcp d
  | openFinish d => exact openFinish_atomic_iff env tcp d
  | accept d => exact acceptCall_atomic_iff env tcp d
  | openCall l r active => exact ⟨fun _ ↦ trivial, fun _ out hout herr j ↦ openCall_err hout herr j⟩
  | openPoll d =>
      refine ⟨fun _ ↦ trivial, ?_⟩
      rintro - _ ⟨⟩ herr
      exact openPoll_err herr
  | openInterrupted d =>
      refine ⟨fun _ ↦ trivial, ?_⟩
      rintro - _ ⟨⟩ -
      exact openInterrupted_get env tcp d
  | bind d l =>
      refine ⟨fun _ ↦ trivial, ?_⟩
      rintro - _ ⟨⟩ herr j
      rw [bindCall_err herr]
  | listen d n =>
      refine ⟨fun _ ↦ trivial, ?_⟩
      rintro - _ ⟨⟩ herr j
      rw [listenCall_err herr]
  | arrive | timer | connectPoll | connectInterrupted | send | receive | socket =>
      exact ⟨fun _ ↦ trivial, fun _ _ _ ↦ trivial⟩

/-- A `connect` whose SYN cannot be sent has changed its block. -/
theorem connect_not_atomic : ¬ ∀ env tcp ev, Reachable tcp → ErrorAtomic env tcp ev := by
  intro hall
  obtain ⟨tcp, hreach, htest⟩ := exists_reachableWhen (fun _ _ _ ↦ true) (fun _ _ _ _ ↦ trivial)
    (fun tcp ↦ decide
        ((connectCall { routedEnv with ipOutput := fun _ ↦ false } tcp 0 peerEndp).reply = .err) &&
      !decide ((connectCall { routedEnv with ipOutput := fun _ ↦ false } tcp 0 peerEndp).tcp.get 0 =
        tcp.get 0))
    [(calmEnv, .socket)] (by decide +kernel)
  simp only [Bool.and_eq_true, Bool.not_eq_true', decide_eq_true_eq, decide_eq_false_iff_not] at htest
  exact htest.2 (hall { routedEnv with ipOutput := fun _ ↦ false } tcp (.connectCall 0 peerEndp)
    hreach _ rfl htest.1 0)

end Microps.Tcp
