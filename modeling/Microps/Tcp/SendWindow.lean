import Microps.Tcp.Conform

/-!
# The send window

When `segment_arrives` takes the window that an acceptable ACK offers.  The update is
nested in the branch for what is newly acknowledged, so an ACK that repeats the last one
offers its window in vain.
-/

namespace Microps.Tcp

/-- The segment is not older than the last window update: the second key counts where the
first is equal. -/
def Newer (p : TcpPcb) (s : TcpSegment) : Prop :=
  p.snd.wl1 < s.seq ∨ (p.snd.wl1 = s.seq ∧ p.snd.wl2 ≤ s.ack)

instance (p : TcpPcb) (s : TcpSegment) : Decidable (Newer p s) := by
  unfold Newer
  infer_instance

/-- The segment is an acceptable ACK for the block `p` in slot `d`, in a state that sends or
has sent all, and offers a window that is up to date. -/
structure Offers (tcp : Tcp) (d : TcpDesc) (p : TcpPcb) (s : TcpSegment) : Prop where
  select : pcbSelect tcp.pcbs s.dst s.src = some d
  get : tcp.get d = some p
  isOpen : p.state.isOpen = true
  acceptable : acceptable p s.info = true
  rst : flagIsset s.flg flgRst = false
  syn : flagIsset s.flg flgSyn = false
  ack : flagIsset s.flg flgAck = true
  una_le : p.snd.una ≤ s.ack
  le_nxt : s.ack ≤ p.snd.nxt
  newer : Newer p s

/-- The send variables hold the window of the segment. -/
def HoldsWindow (snd : SndVars) (s : TcpSegment) : Prop :=
  snd.wnd = s.wnd ∧ snd.wl1 = s.seq ∧ snd.wl2 = s.ack

instance (snd : SndVars) (s : TcpSegment) : Decidable (HoldsWindow snd s) := by
  unfold HoldsWindow
  infer_instance

/-- `segment_arrives` returns, and the block in slot `d` holds the window of the segment. -/
def TakesWindow (env : Env) (tcp : Tcp) (d : TcpDesc) (s : TcpSegment) : Prop :=
  ∃ r p', segmentArrives env tcp s = .ok r ∧ r.1.get d = some p' ∧ HoldsWindow p'.snd s

section

variable {env : Env} {tcp : Tcp} {d : TcpDesc} {p : TcpPcb} {s : TcpSegment}

theorem isOpen_past {state : TcpState} (h : state.isOpen = true) :
    state ≠ .closed ∧ state ≠ .listen ∧ state ≠ .synSent := by
  cases state <;> simp_all [TcpState.isOpen]

theorem Offers.reaches (h : Offers tcp d p s) : ReachesAck p s :=
  ⟨isOpen_past h.isOpen, h.acceptable, h.rst, h.syn, h.ack⟩

theorem Offers.passes (h : Offers tcp d p s) : passesAck p s.info := by
  have hnot : ¬ (p.snd.una ≤ s.ack ∧ p.snd.nxt < s.ack) := by
    have hle := h.le_nxt
    bv_omega
  have hopen := h.isOpen
  cases hstate : p.state <;> simp_all [TcpState.isOpen, passesAck] <;> exact hnot

/-- An up-to-date ACK of something new takes the window with it. -/
theorem ackNew_window (h : Newer p s) : HoldsWindow (ackNew p s.info).snd s := by
  have hcond : p.snd.wl1 < s.info.seq ∨ (p.snd.wl1 = s.info.seq ∧ p.snd.wl2 ≤ s.info.ack) := h
  unfold ackNew retransQueueCleanup
  simp only [if_pos hcond]
  exact ⟨rfl, rfl, rfl⟩

/-- The send variables that the ACK step leaves. -/
theorem Offers.snd (h : Offers tcp d p s) (env : Env) :
    ∃ r p', segmentArrives env tcp s = .ok r ∧ r.1.get d = some p' ∧
      p'.snd = if p.snd.una < s.ack then (ackNew p s.info).snd else p.snd := by
  have hstate := h.reaches.state
  obtain ⟨r, p', hr, hp', ⟨q, es, backlog, es', hstep, htext⟩, -⟩ :=
    arrivesOtherwise_text env h.get h.reaches h.passes
  refine ⟨r, p', (segmentArrives_otherwise env h.select h.get hstate).trans hr, hp', ?_⟩
  obtain ⟨tw, rfl⟩ := hstep.block
  obtain ⟨hclosed, hlisten⟩ := afterAck_ne (s.ack = p.snd.nxt) hstate.1 hstate.2.1
  have hnew : acksNew p s.info ↔ p.snd.una < s.ack := by
    have hopen := h.isOpen
    refine ⟨fun hnew ↦ hnew.2.1, fun hlt ↦ ⟨?_, hlt, h.le_nxt⟩⟩
    cases hs : p.state <;> simp_all [TcpState.isOpen]
  rw [(textAndFin_send ⟨hclosed, hlisten⟩ htext).1]
  unfold ackBlock
  by_cases hlt : p.snd.una < s.ack
  · rw [if_pos (hnew.mpr hlt), if_pos hlt]
  · rw [if_neg (mt hnew.mp hlt), if_neg hlt]

/-- **The window update**: the window that a segment offers is taken exactly if the segment
acknowledges something new, or the block holds that window already. -/
theorem takesWindow_iff (env : Env) (h : Offers tcp d p s) :
    TakesWindow env tcp d s ↔ p.snd.una < s.ack ∨ HoldsWindow p.snd s := by
  obtain ⟨r, p', hr, hp', hsnd⟩ := h.snd env
  have hiff : TakesWindow env tcp d s ↔ HoldsWindow p'.snd s := by
    refine ⟨?_, fun hholds ↦ ⟨r, p', hr, hp', hholds⟩⟩
    rintro ⟨r', q, hr', hq, hholds⟩
    obtain rfl : r = r' := Except.ok.inj (hr.symm.trans hr')
    obtain rfl : p' = q := Option.some.inj (hp'.symm.trans hq)
    exact hholds
  rw [hiff, hsnd]
  by_cases hlt : p.snd.una < s.ack
  · rw [if_pos hlt]
    exact ⟨fun _ ↦ .inl hlt, fun _ ↦ ackNew_window h.newer⟩
  · rw [if_neg hlt]
    exact ⟨.inr, fun hor ↦ hor.resolve_left hlt⟩

end

/-! ## A zero window -/

/-- An ACK from the peer, with the window `wnd`. -/
def peerAck (ack : U32) (wnd : U16) : TcpSegment :=
  { src := peerEndp, dst := hostEndp, seq := 501, ack := ack, flg := flgAck, wnd := wnd, data := [] }

/-- A connection that has two octets in flight; `more` happens after that. -/
def twoInFlight (more : List (Env × Event)) : List (Env × Event) :=
  [(calmEnv, .openCall hostEndp .any false), fromPeer 500 0 flgSyn [],
    (calmEnv, .arrive (peerAck 101 2)), (routedEnv, .openFinish 0),
    (calmEnv, .send 0 [1, 2, 3] 0)] ++ more

/-- The parts of `Offers` that are looked up in the table. -/
def offersTest (s : TcpSegment) (tcp : Tcp) : Bool :=
  pcbSelect tcp.pcbs s.dst s.src = some 0 && (tcp.get 0).any fun p ↦
    p.state.isOpen && acceptable p s.info && p.snd.una ≤ s.ack && s.ack ≤ p.snd.nxt && Newer p s

theorem offers_of_test {tcp : Tcp} {ack : U32} {wnd : U16}
    (h : offersTest (peerAck ack wnd) tcp = true) :
    ∃ p, Offers tcp 0 p (peerAck ack wnd) := by
  unfold offersTest at h
  simp only [Bool.and_eq_true, decide_eq_true_eq] at h
  obtain ⟨hselect, hany⟩ := h
  obtain ⟨p, hp, htest⟩ := (Option.any_eq_true _ _).mp hany
  simp only [Bool.and_eq_true, decide_eq_true_eq] at htest
  obtain ⟨⟨⟨⟨hopen, hacc⟩, huna⟩, hnxt⟩, hnewer⟩ := htest
  have hflg : flagIsset flgAck flgRst = false ∧ flagIsset flgAck flgSyn = false ∧
      flagIsset flgAck flgAck = true := by decide
  exact ⟨p, hselect, hp, hopen, hacc, hflg.1, hflg.2.1, hflg.2.2, huna, hnxt, hnewer⟩

/-- The ACK of the two octets closes the window. -/
theorem takesWindow_iff_closing :
    ∃ tcp, Reachable tcp ∧ TakesWindow calmEnv tcp 0 (peerAck 103 0) := by
  obtain ⟨tcp, hreach, htest⟩ := exists_reachableWhen (fun _ _ _ ↦ true) (fun _ _ _ _ ↦ trivial)
    (fun tcp ↦ offersTest (peerAck 103 0) tcp &&
      (tcp.get 0).any fun p : TcpPcb ↦ decide (p.snd.una < 103)) (twoInFlight []) (by decide +kernel)
  simp only [Bool.and_eq_true] at htest
  obtain ⟨p, hoffers⟩ := offers_of_test htest.1
  obtain ⟨q, hq, hlt⟩ := (Option.any_eq_true _ _).mp htest.2
  obtain rfl : p = q := Option.some.inj (hoffers.get.symm.trans hq)
  exact ⟨tcp, hreach, (takesWindow_iff calmEnv hoffers).mpr (.inl (of_decide_eq_true hlt))⟩

/-- The window stays closed when the peer opens it again. -/
theorem zero_window_stays :
    ¬ ∀ env tcp d p s, Reachable tcp → Offers tcp d p s → TakesWindow env tcp d s := by
  intro hall
  obtain ⟨tcp, hreach, htest⟩ := exists_reachableWhen (fun _ _ _ ↦ true) (fun _ _ _ _ ↦ trivial)
    (fun tcp ↦ offersTest (peerAck 103 1000) tcp &&
      match segmentArrives calmEnv tcp (peerAck 103 1000) with
      | .error _ => false
      | .ok r => (r.1.get 0).any fun p ↦ p.snd.wnd = 0)
    (twoInFlight [(calmEnv, .arrive (peerAck 103 0))]) (by decide +kernel)
  simp only [Bool.and_eq_true] at htest
  obtain ⟨p, hoffers⟩ := offers_of_test htest.1
  obtain ⟨r, p', hr, hp', hwnd, -⟩ := hall calmEnv tcp 0 p _ hreach hoffers
  obtain ⟨-, hzero⟩ := htest
  rw [hr] at hzero
  simp only [hp', Option.any_some, decide_eq_true_eq] at hzero
  exact absurd (hzero.symm.trans hwnd) (by decide)

end Microps.Tcp
