import Microps.Tcp.Reach

/-!
# The size of the table

`pcb_alloc` gives out a new slot only while there are fewer than `PCB_SIZE_MAX`, and nothing
else makes the table longer.
-/

namespace Microps.Tcp

/-! ## Release keeps the table as long as it is -/

theorem length_releaseSlot (acc : Slots TcpPcb × List Effect) (d : TcpDesc) :
    (releaseSlot acc d).pcbs.length = acc.1.length := by
  unfold releaseSlot
  split
  · rfl
  · exact Slots.length_free _ _

theorem length_foldl_releaseEntry (env : Env) {release : Slots TcpPcb → TcpDesc → Released}
    (hrelease : ∀ t d, (release t d).pcbs.length = t.length) (ds : List TcpDesc)
    (acc : Slots TcpPcb × List Effect) :
    (ds.foldl (releaseEntry env release) acc).1.length = acc.1.length := by
  induction ds generalizing acc with
  | nil => rfl
  | cons d ds ih =>
      rw [List.foldl_cons, ih]
      unfold releaseEntry
      split
      · rfl
      · simp only [hrelease, Slots.length_put]

theorem length_pcbReleaseN (env : Env) (depth : Nat) (t : Slots TcpPcb) (d : TcpDesc) :
    (pcbReleaseN env depth t d).pcbs.length = t.length := by
  induction depth generalizing t d with
  | zero =>
      unfold pcbReleaseN
      split
      · rfl
      · rw [length_releaseSlot, Slots.length_put]
  | succ depth ih =>
      unfold pcbReleaseN
      split
      · rfl
      · rw [length_releaseSlot, length_foldl_releaseEntry env ih, Slots.length_put]

/-! ## The bound -/

/-- The table has no more slots than `pcb_alloc` gives out. -/
def Bounded (tcp : Tcp) : Prop := tcp.pcbs.length ≤ pcbSizeMax

variable {env : Env} {tcp : Tcp}

namespace Bounded

theorem set (h : Bounded tcp) (d : TcpDesc) (p : TcpPcb) : Bounded (tcp.set d p) :=
  (Slots.length_put _ _ _).trans_le h

theorem release (h : Bounded tcp) (t : Slots TcpPcb) (ht : t.length = tcp.pcbs.length)
    (d : TcpDesc) : Bounded { tcp with pcbs := (pcbRelease env t d).pcbs } := by
  rw [Bounded, pcbRelease, length_pcbReleaseN, ht]
  exact h

theorem closeAndRelease (h : Bounded tcp) (d : TcpDesc) (p : TcpPcb) :
    Bounded (closeAndRelease env tcp d p).1 :=
  h.release _ (Slots.length_put _ _ _) d

theorem pcbAlloc (h : Bounded tcp) {d : TcpDesc} {tcp' : Tcp}
    (halloc : tcp.pcbAlloc = some (d, tcp')) : Bounded tcp' := by
  unfold Tcp.pcbAlloc at halloc
  obtain ⟨⟨i, t⟩, hslots, heq⟩ := Option.map_eq_some_iff.mp halloc
  cases heq
  exact Slots.length_le_of_alloc h hslots

theorem openFail (h : Bounded tcp) (d : TcpDesc) (es : List Effect) :
    Bounded (openFail env tcp d es).tcp :=
  h.release _ rfl d

/-! ## Segments -/

theorem listenTarget (h : Bounded tcp) {d target : TcpDesc} {p : TcpPcb} {tcp' : Tcp}
    (htarget : listenTarget tcp d p = .ok (some (target, tcp'))) : Bounded tcp' := by
  unfold Tcp.listenTarget at htarget
  split at htarget
  · split at htarget
    · cases htarget
    · split at htarget
      · cases htarget
      · next hnew =>
        obtain ⟨new, -, hret⟩ := Machine.exists_of_bind_ok htarget
        cases hret
        exact (h.pcbAlloc hnew).set _ _
  · cases htarget
    exact h

theorem arrivesListen (h : Bounded tcp) {d : TcpDesc} {p : TcpPcb} {seg : SegInfo} {flags : U8}
    {l r : IpEndp} {res : Tcp × List Effect}
    (hres : arrivesListen env tcp d p seg flags l r = .ok res) : Bounded res.1 := by
  unfold Tcp.arrivesListen at hres
  split at hres
  · cases hres
    exact h
  split at hres
  · cases hres
    exact h
  split at hres
  · obtain ⟨target, htarget, hres⟩ := Machine.exists_of_bind_ok hres
    cases target with
    | none =>
        cases hres
        exact h
    | some t =>
        obtain ⟨new, -, hret⟩ := Machine.exists_of_bind_ok hres
        cases hret
        exact (h.listenTarget htarget).set _ _
  · cases hres
    exact h

theorem arrivesSynSent (h : Bounded tcp) (d : TcpDesc) (p : TcpPcb) (seg : SegInfo) (flags : U8)
    (l r : IpEndp) : Bounded (arrivesSynSent env tcp d p seg flags l r).1 := by
  unfold Tcp.arrivesSynSent
  dsimp only
  split
  · exact h
  split
  · split
    · exact h.closeAndRelease d p
    · exact h
  split
  · exact h.set _ _
  · exact h

theorem joinBacklog (h : Bounded tcp) (d : TcpDesc) (parent : Option TcpDesc) :
    Bounded (tcp.joinBacklog d parent).1 := by
  unfold Tcp.joinBacklog
  split
  · exact h
  split
  · exact h
  · exact h.set _ _

theorem arrivesOtherwise (h : Bounded tcp) {d : TcpDesc} {p : TcpPcb} {seg : SegInfo} {flags : U8}
    {data : List U8} {l r : IpEndp} {res : Tcp × List Effect}
    (hres : arrivesOtherwise env tcp d p seg flags data l r = .ok res) : Bounded res.1 := by
  unfold Tcp.arrivesOtherwise at hres
  split at hres
  · split at hres <;> cases hres <;> exact h
  split at hres
  · cases hres
    exact h.closeAndRelease d p
  split at hres
  · cases hres
    exact h.closeAndRelease d _
  split at hres
  · cases hres
    exact h
  split at hres
  · cases hres
    exact h.set _ _
  · cases hres
    exact h.closeAndRelease d _
  · next q es parent _ =>
    obtain ⟨new, -, hres⟩ := Machine.exists_of_bind_ok hres
    obtain ⟨done, -, hret⟩ := Machine.exists_of_bind_ok hres
    cases hret
    exact ((h.set d q).joinBacklog d parent).set _ _

theorem segmentArrives (h : Bounded tcp) {s : TcpSegment} {res : Tcp × List Effect}
    (hres : segmentArrives env tcp s = .ok res) : Bounded res.1 := by
  unfold Tcp.segmentArrives at hres
  dsimp only at hres
  split at hres
  · cases hres
    exact h
  obtain ⟨p, -, hres⟩ := Machine.exists_of_bind_ok hres
  split at hres
  · cases hres
    exact h
  · exact h.arrivesListen hres
  · cases hres
    exact h.arrivesSynSent _ _ _ _ _ _
  · exact h.arrivesOtherwise hres

/-! ## The timer -/

theorem length_timerSlot (env : Env) (acc : Slots TcpPcb × List Effect) (d : TcpDesc) :
    (timerSlot env acc d).1.length = acc.1.length := by
  unfold timerSlot
  split
  · rfl
  · split
    · exact (length_pcbReleaseN env _ _ d).trans (Slots.length_put _ _ _)
    · exact Slots.length_put _ _ _

theorem onTimer (h : Bounded tcp) : Bounded (onTimer env tcp).1 := by
  have hfold : ∀ (ds : List TcpDesc) (acc : Slots TcpPcb × List Effect),
      (ds.foldl (timerSlot env) acc).1.length = acc.1.length := by
    intro ds
    induction ds with
    | nil => exact fun acc ↦ rfl
    | cons d ds ih =>
        intro acc
        rw [List.foldl_cons, ih, length_timerSlot]
  exact (hfold _ _).trans_le h

/-! ## Calls -/

theorem openCall (h : Bounded tcp) {l r : IpEndp} {active : Bool} {out : Outcome}
    (hout : openCall env tcp l r active = .ok out) : Bounded out.tcp := by
  unfold Tcp.openCall at hout
  split at hout
  · cases hout
    exact h
  next d tcp' halloc =>
  have h' := h.pcbAlloc halloc
  split at hout
  · split at hout
    · cases hout
      exact h'.openFail d []
    split at hout
    · cases hout
      exact h'.openFail d []
    obtain ⟨p, -, hout⟩ := Machine.exists_of_bind_ok hout
    dsimp only at hout
    split at hout
    · cases hout
      exact h'.set d _
    · cases hout
      exact (h'.set d _).openFail d _
  split at hout
  · cases hout
    exact h'.openFail d []
  obtain ⟨p, -, hout⟩ := Machine.exists_of_bind_ok hout
  cases hout
  exact h'.set d _

theorem openPoll (h : Bounded tcp) (d : TcpDesc) : Bounded (openPoll env tcp d).tcp := by
  unfold Tcp.openPoll
  split
  · exact h
  split
  · exact h
  · exact h
  · exact h
  · exact h
  · exact h.closeAndRelease d _

theorem openInterrupted (h : Bounded tcp) (d : TcpDesc) :
    Bounded (openInterrupted env tcp d).tcp := by
  unfold Tcp.openInterrupted
  split
  · exact h
  · exact h.closeAndRelease d _

theorem openFinish (h : Bounded tcp) {d : TcpDesc} {out : Outcome}
    (hout : openFinish env tcp d = .ok out) : Bounded out.tcp := by
  unfold Tcp.openFinish at hout
  split at hout
  · cases hout
    exact h
  obtain ⟨mss, -, hout⟩ := Machine.exists_of_bind_ok hout
  cases mss with
  | none =>
      cases hout
      exact h
  | some m =>
      cases hout
      exact h.set d _

theorem connectCall (h : Bounded tcp) (d : TcpDesc) (r : IpEndp) :
    Bounded (connectCall env tcp d r).tcp := by
  unfold Tcp.connectCall
  split
  · exact h
  split
  · exact h
  split
  · exact h
  dsimp only
  split
  · exact h.set d _
  · exact h.set d _

theorem connectPoll (h : Bounded tcp) (d : TcpDesc) : Bounded (connectPoll tcp d).tcp := by
  unfold Tcp.connectPoll
  split
  · exact h
  split
  · exact h
  · exact h
  · exact h
  · exact h
  · exact h.set d _

theorem connectInterrupted (h : Bounded tcp) (d : TcpDesc) :
    Bounded (connectInterrupted tcp d).tcp := by
  unfold Tcp.connectInterrupted
  split
  · exact h
  · exact h.set d _

theorem closeCall (h : Bounded tcp) (d : TcpDesc) : Bounded (closeCall env tcp d).tcp := by
  unfold Tcp.closeCall
  dsimp only
  split
  · exact h
  next p _ =>
  cases p.state with
  | listen | synSent => exact h.release _ (Slots.length_put _ _ _) d
  | synReceived | established | closeWait => exact h.set d _
  | closed | finWait1 | finWait2 | closing | lastAck | timeWait => exact h

theorem sendCall (h : Bounded tcp) (d : TcpDesc) (data : List U8) (sent : Nat) :
    Bounded (sendCall env tcp d data sent).tcp := by
  unfold Tcp.sendCall
  split
  · exact h
  split
  · split
    · exact h
    split
    · exact h
    · exact h.set d _
  · exact h

theorem takeBytes (h : Bounded tcp) {d : TcpDesc} {p : TcpPcb} {len : Nat} {out : Outcome}
    (hout : takeBytes tcp d p len = .ok out) : Bounded out.tcp := by
  obtain ⟨wnd, -, hret⟩ := Machine.exists_of_bind_ok hout
  cases hret
  exact h.set d _

theorem receiveCall (h : Bounded tcp) {d : TcpDesc} {len : Nat} {out : Outcome}
    (hout : receiveCall tcp d len = .ok out) : Bounded out.tcp := by
  unfold Tcp.receiveCall at hout
  split at hout
  · cases hout
    exact h
  next p _ =>
  cases hstate : p.state with
  | established | finWait1 | finWait2 | closeWait =>
      simp only [hstate] at hout
      split at hout
      · cases hout
        exact h
      · exact h.takeBytes hout
  | closing | lastAck | timeWait | closed | listen | synSent | synReceived =>
      simp only [hstate] at hout
      cases hout
      exact h

theorem socketCall (h : Bounded tcp) {out : Outcome} (hout : socketCall tcp = .ok out) :
    Bounded out.tcp := by
  unfold Tcp.socketCall at hout
  split at hout
  · cases hout
    exact h
  next d tcp' halloc =>
  obtain ⟨p, -, hout⟩ := Machine.exists_of_bind_ok hout
  cases hout
  exact (h.pcbAlloc halloc).set d _

theorem bindCall (h : Bounded tcp) (d : TcpDesc) (l : IpEndp) : Bounded (bindCall tcp d l).tcp := by
  unfold Tcp.bindCall
  split
  · exact h
  split
  · exact h
  · exact h.set d _

theorem listenCall (h : Bounded tcp) (d : TcpDesc) (n : Nat) : Bounded (listenCall tcp d n).tcp := by
  unfold Tcp.listenCall
  split
  · exact h
  split
  · exact h
  · exact h.set d _

theorem acceptCall (h : Bounded tcp) {d : TcpDesc} {out : Outcome}
    (hout : acceptCall env tcp d = .ok out) : Bounded out.tcp := by
  unfold Tcp.acceptCall at hout
  split at hout
  · cases hout
    exact h
  split at hout
  · cases hout
    exact h
  split at hout
  · cases hout
    exact h
  dsimp only at hout
  split at hout
  · cases hout
    exact h.set d _
  obtain ⟨mss, -, hout⟩ := Machine.exists_of_bind_ok hout
  cases mss with
  | none =>
      cases hout
      exact h.set d _
  | some m =>
      cases hout
      exact (h.set d _).set _ _

/-! ## Runs -/

/-- No critical section makes the table too long. -/
theorem step (h : Bounded tcp) {ev : Event} {out : Outcome} (hout : step env tcp ev = .ok out) :
    Bounded out.tcp := by
  cases ev with
  | arrive s =>
      obtain ⟨res, hres, hret⟩ := Machine.exists_of_bind_ok hout
      cases hret
      exact h.segmentArrives hres
  | timer =>
      cases hout
      exact h.onTimer
  | openCall l r active => exact h.openCall hout
  | openPoll d =>
      cases hout
      exact h.openPoll d
  | openInterrupted d =>
      cases hout
      exact h.openInterrupted d
  | openFinish d => exact h.openFinish hout
  | connectCall d r =>
      cases hout
      exact h.connectCall d r
  | connectPoll d =>
      cases hout
      exact h.connectPoll d
  | connectInterrupted d =>
      cases hout
      exact h.connectInterrupted d
  | close d =>
      cases hout
      exact h.closeCall d
  | send d data sent =>
      cases hout
      exact h.sendCall d data sent
  | receive d len => exact h.receiveCall hout
  | socket => exact h.socketCall hout
  | bind d l =>
      cases hout
      exact h.bindCall d l
  | listen d n =>
      cases hout
      exact h.listenCall d n
  | accept d => exact h.acceptCall hout

end Bounded

/-- **The table never has more than `PCB_SIZE_MAX` slots.** -/
theorem ReachableWhen.bounded {G : Env → Tcp → Event → Prop} (h : ReachableWhen G tcp) :
    Bounded tcp := by
  refine Machine.Reach.invariant Bounded ?_ ?_ h
  · rintro _ rfl
    exact Nat.zero_le _
  · rintro tcp ⟨env, ev⟩ _ ih ⟨-, out, hout, rfl⟩
    exact ih.step hout

end Microps.Tcp
