import Microps.Tcp.EndToEnd

/-!
# The handshake

Two sides that have both reached ESTABLISHED agree on their initial sequence numbers
and on how far each has got with the stream of the other.  This follows from the
invariant of the stream: an acknowledgement stands for something that was received, and
what is received is what was sent.
-/

namespace Microps.Tcp

section

variable {iss iss' : U32} {x y : Side} {c d : TcpDesc} {p q : TcpPcb}

/-- Up to the peer's FIN, a block that has received the peer's SYN knows its initial
sequence number and how far it has got. -/
theorem Link.rcv_eq (h : Link iss iss' x y) (hp : x.tcp.get d = some p)
    (hsyn : p.state.gotSyn = true) (hfin : p.state.gotFin = false) :
    p.irs = iss' ∧ p.rcv.nxt = iss' + BitVec.ofNat 32 (1 + p.hist.rcvd.length) := by
  have hpast := (TcpState.gotSyn_iff _).mp hsyn
  have hrcv := h.rcv d p hp (h.started hp hpast.1 hpast.2.1)
  have hinv := h.rcvInv hp
  have hsynced := hinv.synced hsyn
  have hnofin : p.hist.fin = false := (hinv.fin hsyn).trans hfin
  have hcount := hrcv.count hsynced hnofin
  have hnxt : p.rcv.nxt = iss' + 1 + BitVec.ofNat 32 p.hist.rcvd.length := by
    have hlt := p.rcv.nxt.isLt
    apply BitVec.eq_of_toNat_eq
    rw [BitVec.toNat_add, BitVec.toNat_ofNat, Nat.add_mod_mod, ← hcount, Nat.mod_eq_of_lt hlt]
  have hirs : p.rcv.nxt = p.irs + 1 + BitVec.ofNat 32 p.hist.rcvd.length := by
    have hnext := hinv.count hsynced fun hf ↦ absurd (hnofin.symm.trans hf) (by simp)
    simpa [rcvNext, rcvCount, hnofin] using hnext
  refine ⟨?_, ?_⟩
  · have heq := hirs.symm.trans hnxt
    simpa only [BitVec.add_left_inj] using heq
  · rw [hnxt, BitVec.ofNat_add, BitVec.add_assoc]
    rfl

/-- What one side expects next lies between what the other has had acknowledged and what
it has sent. -/
theorem Link.rcv_between (h : Link iss iss' x y) (h' : Link iss' iss y x)
    (hp : x.tcp.get d = some p) (hq : y.tcp.get c = some q) (hsyn : p.state.gotSyn = true)
    (hfin : p.state.gotFin = false) (hactive : q.state.isActive = true) :
    (p.rcv.nxt - q.snd.una).toNat ≤ (q.snd.nxt - q.snd.una).toNat := by
  have hpast := (TcpState.gotSyn_iff _).mp hsyn
  have hstarted := h.started hp hpast.1 hpast.2.1
  have hstarted' : Started q := by
    refine h'.started hq ?_ ?_
    · rintro hs
      simp [hs, TcpState.isActive] at hactive
    · rintro hs
      simp [hs, TcpState.isActive] at hactive
  obtain ⟨a, hinv⟩ := h'.sendInv hq
  have hsnd := h'.snd c q hq hstarted'
  have hnofin : p.hist.fin = false := ((h.rcvInv hp).fin hsyn).trans hfin
  have hacked : a ≤ 1 + p.hist.rcvd.length := by
    rw [← hinv.acked_eq]
    exact (h'.acked c q hq hstarted').le d p hp hstarted hnofin
  have hsent : 1 + p.hist.rcvd.length ≤ q.hist.sent.length := by
    have hle := (h.rcv d p hp hstarted).got.length_le
    have hle' := hsnd.le
    omega
  have hbound := hinv.bound
  have hrcv := (h.rcv_eq hp hsyn hfin).2
  have hnxt := (hinv.active hactive).1
  rw [hsnd.initial] at hnxt
  have hpos : p.rcv.nxt = Serial.pos q.snd.nxt q.hist.sent.length (1 + p.hist.rcvd.length) := by
    rw [hnxt, Serial.pos_base _ hsent, hrcv]
  rw [hinv.inFlight, hpos, hinv.una, Serial.toNat_pos_sub_pos _ hacked hsent (by omega)]
  omega

end

/-- **Handshake agreement**: in every reachable world in which a block of either side is
in ESTABLISHED, each has received the other's initial sequence number, and what each
expects next is something that the other has sent and that is not yet acknowledged, or
the number after it. -/
theorem handshake_agrees {w : World} (h : w.Reachable) {c d : TcpDesc} {p q : TcpPcb}
    (hp : w.host.tcp.get d = some p) (hq : w.peer.tcp.get c = some q)
    (hhost : p.state = .established) (hpeer : q.state = .established) :
    p.irs = q.iss ∧ q.irs = p.iss ∧
      (p.rcv.nxt - q.snd.una).toNat ≤ (q.snd.nxt - q.snd.una).toNat ∧
      (q.rcv.nxt - p.snd.una).toNat ≤ (p.snd.nxt - p.snd.una).toNat := by
  obtain ⟨iss, iss', hlink, hlink'⟩ := h.linked
  have hsyn : p.state.gotSyn = true ∧ p.state.gotFin = false ∧ p.state.isActive = true := by
    rw [hhost]
    exact ⟨rfl, rfl, rfl⟩
  have hsyn' : q.state.gotSyn = true ∧ q.state.gotFin = false ∧ q.state.isActive = true := by
    rw [hpeer]
    exact ⟨rfl, rfl, rfl⟩
  have hiss : p.iss = iss :=
    (hlink.snd d p hp (hlink.started hp (by simp [hhost]) (by simp [hhost]))).initial
  have hiss' : q.iss = iss' :=
    (hlink'.snd c q hq (hlink'.started hq (by simp [hpeer]) (by simp [hpeer]))).initial
  refine ⟨?_, ?_, ?_, ?_⟩
  · rw [hiss', (hlink.rcv_eq hp hsyn.1 hsyn.2.1).1]
  · rw [hiss, (hlink'.rcv_eq hq hsyn'.1 hsyn'.2.1).1]
  · exact hlink.rcv_between hlink' hp hq hsyn.1 hsyn.2.1 hsyn'.2.2
  · exact hlink'.rcv_between hlink hq hp hsyn'.1 hsyn'.2.1 hsyn.2.2

/-- The world of `reorderedRun`, in which the host has received three of five octets and
none of them is acknowledged yet. -/
theorem handshake_agrees_reordered :
    ∃ (w : World) (p q : TcpPcb), w.Reachable ∧ w.host.tcp.get 0 = some p ∧
      w.peer.tcp.get 0 = some q ∧ p.state = .established ∧ q.state = .established ∧
      q.iss = 500 ∧ p.rcv.nxt = 504 ∧ p.irs = q.iss ∧
      (p.rcv.nxt - q.snd.una).toNat ≤ (q.snd.nxt - q.snd.una).toNat := by
  obtain ⟨w, hreach, htest⟩ := exists_reachableWorld
    (fun w ↦ ((w.host.tcp.get 0).any fun p ↦ p.state = .established && p.rcv.nxt = 504) &&
      (w.peer.tcp.get 0).any fun q ↦ q.state = .established && q.iss = 500) reorderedRun
    (by decide +kernel)
  simp only [Bool.and_eq_true] at htest
  obtain ⟨p, hp, hhost⟩ := (Option.any_eq_true _ _).mp htest.1
  obtain ⟨q, hq, hpeer⟩ := (Option.any_eq_true _ _).mp htest.2
  simp only [Bool.and_eq_true, decide_eq_true_eq] at hhost hpeer
  obtain ⟨hirs, -, hnxt, -⟩ := handshake_agrees hreach hp hq hhost.1 hpeer.1
  exact ⟨w, p, q, hreach, hp, hq, hhost.1, hpeer.1, hpeer.2, hhost.2, hirs, hnxt⟩

end Microps.Tcp
