import Microps.Tcp.Output
import Microps.Tcp.Reach

/-!
# The receive side

`rcv.nxt` should count what has been received: the peer's SYN, the octets put into
the buffer since, and the peer's FIN.  Up to the FIN it does, in every run.  The
FIN step assigns `rcv.nxt` from the sequence number of the segment alone, so
whether the count survives it depends on the segment: `FinInOrder` is the
condition under which it does.
-/

namespace Microps

/-- The states a block is in once the peer's FIN has been consumed. -/
def TcpState.gotFin : TcpState → Bool
  | .closeWait | .closing | .lastAck | .timeWait => true
  | _ => false

/-- The states in which a block has received the peer's SYN. -/
def TcpState.gotSyn : TcpState → Bool
  | .closed | .listen | .synSent => false
  | _ => true

theorem TcpState.gotSyn_iff (state : TcpState) :
    state.gotSyn = true ↔ state ≠ .closed ∧ state ≠ .listen ∧ state ≠ .synSent := by
  cases state <;> simp [gotSyn]

@[simp] theorem TcpState.gotSyn_afterAck (state : TcpState) (all : Bool) :
    (state.afterAck all).gotSyn = state.gotSyn := by
  cases state <;> cases all <;> rfl

@[simp] theorem TcpState.gotFin_afterAck (state : TcpState) (all : Bool) :
    (state.afterAck all).gotFin = state.gotFin := by
  cases state <;> cases all <;> rfl

@[simp] theorem TcpState.gotSyn_afterFin (state : TcpState) (all : Bool) :
    (state.afterFin all).gotSyn = state.gotSyn := by
  cases state <;> cases all <;> rfl

/-- A FIN is remembered by the state. -/
theorem TcpState.gotFin_afterFin {state : TcpState} (all : Bool) (h : state.gotSyn = true) :
    (state.afterFin all).gotFin = true := by
  cases state <;> cases all <;> simp_all [gotSyn, gotFin, afterFin]

namespace Tcp

/-- `irs + 1` and the octets put into the buffer since the peer's SYN. -/
def rcvCount (p : TcpPcb) : U32 := p.irs + 1 + BitVec.ofNat 32 p.hist.rcvd.length

/-- What `rcv.nxt` should be. -/
def rcvNext (p : TcpPcb) : U32 := rcvCount p + if p.hist.fin then 1 else 0

/-- The receive side of a block.  The count is only claimed to include the FIN
under the proviso `strict`. -/
structure RcvInv (strict : Prop) (p : TcpPcb) : Prop where
  synced : p.state.gotSyn = true → p.hist.synced = true
  fin : p.state.gotSyn = true → p.hist.fin = p.state.gotFin
  count : p.hist.synced = true → (p.hist.fin = true → strict) → p.rcv.nxt = rcvNext p

section

variable {strict : Prop} {env : Env} {tcp : Tcp} {d : TcpDesc} {ev : Event} {p p' : TcpPcb}
  {s : TcpSegment}

/-- A block that has just received a SYN. -/
theorem RcvInv.of_syn (hsynced : p.hist.synced = true) (hfin : p.hist.fin = false)
    (hstate : p.state.gotFin = false) (hrcvd : p.hist.rcvd = []) (hnxt : p.rcv.nxt = p.irs + 1) :
    RcvInv strict p where
  synced _ := hsynced
  fin _ := hfin.trans hstate.symm
  count _ _ := by simp [rcvNext, rcvCount, hfin, hrcvd, hnxt]

/-- A block that has not received a SYN. -/
theorem RcvInv.of_unsynced (hstate : p.state.gotSyn = false) (hsynced : p.hist.synced = false) :
    RcvInv strict p where
  synced h := absurd h (by simp [hstate])
  fin h := absurd h (by simp [hstate])
  count h := absurd h (by simp [hsynced])

/-- Closing a block, or listening on a closed one, does not touch the count. -/
theorem RcvInv.of_closed (h : RcvInv strict p) (hstate : p'.state.gotSyn = false)
    (hhist : p'.hist = p.hist) (hirs : p'.irs = p.irs) (hnxt : p'.rcv.nxt = p.rcv.nxt) :
    RcvInv strict p' where
  synced h' := absurd h' (by simp [hstate])
  fin h' := absurd h' (by simp [hstate])
  count hs hf := by
    rw [hnxt, h.count (hhist ▸ hs) (hhist ▸ hf), rcvNext, rcvNext, rcvCount, rcvCount, hhist, hirs]

theorem RcvInv.birth {task : TaskId} {es : List Effect} {reply : Reply}
    (h : Birth env tcp d task ev es reply p) : RcvInv strict p := by
  cases h with
  | socket => exact .of_unsynced rfl rfl
  | listen l r => exact .of_unsynced rfl rfl
  | syn l l' r _ _ =>
      rw [sendSyn_eq]
      exact .of_unsynced rfl rfl
  | child s l p child _ _ _ _ _ _ _ _ _ =>
      rw [passiveOpen_eq]
      exact .of_syn rfl rfl rfl rfl rfl

theorem RcvInv.block {es : List Effect} {reply : Reply} (h : RcvInv strict p)
    (hblock : BlockStep env tcp d ev p es reply p') : RcvInv strict p' := by
  cases hblock with
  | mss m => exact ⟨h.synced, h.fin, h.count⟩
  | bind l _ => exact ⟨h.synced, h.fin, h.count⟩
  | listen n _ => exact h.of_closed rfl rfl rfl rfl
  | connectFails _ => exact h.of_closed rfl rfl rfl rfl
  | interrupted => exact h.of_closed rfl rfl rfl rfl
  | syn l r _ _ =>
      rw [sendSyn_eq]
      exact .of_unsynced rfl rfl
  | synFails l r _ _ =>
      rw [sendSyn_eq]
      exact h.of_closed rfl rfl rfl rfl
  | passive s _ _ _ _ _ _ =>
      rw [passiveOpen_eq]
      exact .of_syn rfl rfl rfl rfl rfl
  | synSent s acceptable _ _ _ _ _ =>
      obtain ⟨q, hq, hcases⟩ := synInSynSent_cases env p s.info acceptable
      obtain ⟨snd, queue, heq, -⟩ := takeSyn_eq p s.info acceptable
      subst hq
      rcases hcases with ⟨-, hcase⟩ | ⟨-, hcase⟩
      · rw [hcase, heq]
        exact .of_syn rfl rfl rfl rfl rfl
      · rw [hcase, heq]
        exact .of_syn rfl rfl rfl rfl rfl
  | fin state hstate =>
      have hkeep : state.gotSyn = p.state.gotSyn ∧ state.gotFin = p.state.gotFin := by
        rcases hstate with ⟨h | h, rfl⟩ | ⟨h, rfl⟩ <;> simp [h, TcpState.gotSyn, TcpState.gotFin]
      rw [sendFin_eq]
      exact ⟨fun hs ↦ h.synced (hkeep.1 ▸ hs), fun hs ↦ (h.fin (hkeep.1 ▸ hs)).trans hkeep.2.symm,
        h.count⟩
  | data data sent n _ _ _ _ =>
      rw [sendData_eq]
      exact ⟨h.synced, h.fin, h.count⟩
  | take len n wnd _ _ _ _ => exact ⟨h.synced, h.fin, h.count⟩

/-- The FIN of the segment is the next thing in order: there is nothing before it
that has not been received, or it is the FIN that has been consumed already. -/
def FinNext (p : TcpPcb) (s : TcpSegment) : Prop :=
  if p.state.gotFin then s.seq + 1 = p.rcv.nxt else s.data = [] ∧ s.seq = p.rcv.nxt

/-- Text is looked at in no state that has consumed a FIN. -/
theorem SeesText.gotFin (h : SeesText p s) : p.state.gotFin = false := by
  rcases h.1 with h | h
  · cases hstate : p.state <;> simp_all [TcpState.takesText, TcpState.gotFin]
  · rw [h]
    rfl

/-- The count survives a segment, provided its FIN is the next in order. -/
theorem RcvInv.arrived (h : RcvInv strict p) (hstate : p.state.gotSyn = true)
    (hnext : strict → SeesFin p s → FinNext p s) (harrived : Arrived p s p') :
    RcvInv strict p' := by
  obtain ⟨snd, queue, tw, backlog, -, hcases⟩ := harrived.eq
  have hsynced := h.synced hstate
  rcases hcases with ⟨-, -, rfl⟩ | ⟨htext, hfit, -, rfl⟩ | ⟨-, hfin, rfl⟩ | ⟨htext, -, hfin, rfl⟩
  · exact ⟨fun _ ↦ hsynced, fun _ ↦ by simp [h.fin hstate], h.count⟩
  · refine ⟨fun _ ↦ hsynced, fun _ ↦ ?_, fun _ hs ↦ ?_⟩
    · simpa [textBlock] using h.fin hstate
    · have hcount := h.count hsynced hs
      have hfin : p.hist.fin = false := (h.fin hstate).trans htext.gotFin
      simp only [textBlock, rcvNext, rcvCount, hfin, List.length_append, BitVec.ofNat_add] at hcount ⊢
      rw [← hfit.1, hcount]
      simp only [Bool.false_eq_true, if_false]
      ac_rfl
  · refine ⟨fun _ ↦ hsynced, fun _ ↦ ?_, fun _ hs ↦ ?_⟩
    · exact (TcpState.gotFin_afterFin _ (by simp [hstate])).symm
    · have hs : strict := hs rfl
      have hcount := h.count hsynced fun _ ↦ hs
      have hnext := hnext hs hfin
      change s.seq + 1 = rcvCount p + 1
      unfold FinNext at hnext
      cases hgot : p.state.gotFin with
      | true =>
          rw [if_pos hgot] at hnext
          rw [hnext, hcount, rcvNext, h.fin hstate, hgot, if_pos rfl]
      | false =>
          rw [if_neg (by simp [hgot])] at hnext
          rw [hnext.2, hcount, rcvNext, h.fin hstate, hgot]
          simp
  · refine ⟨fun _ ↦ hsynced, fun _ ↦ ?_, fun _ hs ↦ ?_⟩
    · exact (TcpState.gotFin_afterFin _ (by simp [hstate])).symm
    · have hnext := hnext (hs rfl) hfin
      rw [FinNext, if_neg (by simp [htext.gotFin])] at hnext
      exact absurd hnext.1 htext.2

theorem RcvInv.evolve {reply : Reply} (h : RcvInv strict p)
    (hevolve : Evolve env tcp d reply ev p p')
    (hnext : strict → ∀ s, ev = .arrive s → pcbSelect tcp.pcbs s.dst s.src = some d →
      ReachesAck p s → passesAck p s.info → SeesFin p s → FinNext p s) : RcvInv strict p' := by
  cases hevolve with
  | keep backlog mss accepted _ => exact ⟨h.synced, h.fin, h.count⟩
  | block hblock => exact h.block hblock
  | arrived s hselect hreach harrived =>
      refine h.arrived ((TcpState.gotSyn_iff _).mpr hreach.state) ?_ harrived
      exact fun hs hfin ↦ hnext hs s rfl hselect hreach harrived.passes hfin
  | tick =>
      rcases retransEmit_cases env p with heq | ⟨f, -, heq⟩
      · rw [heq]
        exact h.of_closed rfl rfl rfl rfl
      · rw [heq]
        exact ⟨h.synced, h.fin, h.count⟩

/-- While a connection goes on, octets are only ever added and the FIN is not
forgotten. -/
theorem Evolve.rcvd_mono {reply : Reply} (hstate : p.state.gotSyn = true)
    (hev : ∀ r, ev ≠ .connectCall d r) (h : Evolve env tcp d reply ev p p') :
    p'.irs = p.irs ∧ p'.hist.synced = p.hist.synced ∧ p.hist.rcvd <+: p'.hist.rcvd ∧
      (p.hist.fin = true → p'.hist.fin = true) := by
  cases h with
  | keep backlog mss accepted _ => exact ⟨rfl, rfl, List.prefix_rfl, id⟩
  | block hblock =>
      cases hblock with
      | mss m | bind l _ | listen n _ | connectFails _ | interrupted | take len n wnd _ _ _ _ =>
          exact ⟨rfl, rfl, List.prefix_rfl, id⟩
      | syn l r _ _ | synFails l r _ _ => exact absurd rfl (hev r)
      | passive s _ h _ _ _ _ => simp [h, TcpState.gotSyn] at hstate
      | synSent s acceptable _ h _ _ _ => simp [h, TcpState.gotSyn] at hstate
      | fin state _ =>
          rw [sendFin_eq]
          exact ⟨rfl, rfl, List.prefix_rfl, id⟩
      | data data sent n _ _ _ _ =>
          rw [sendData_eq]
          exact ⟨rfl, rfl, List.prefix_rfl, id⟩
  | arrived s _ _ harrived =>
      exact harrived.receive
  | tick =>
      rcases retransEmit_cases env p with heq | ⟨f, -, heq⟩
      · rw [heq]
        exact ⟨rfl, rfl, List.prefix_rfl, id⟩
      · rw [heq]
        exact ⟨rfl, rfl, List.prefix_rfl, id⟩

end

/-- Up to the peer's FIN, `rcv.nxt` counts what has been received, in every run
and whatever arrives. -/
theorem ReachableWhen.rcvInv {G : Env → Tcp → Event → Prop} {tcp : Tcp} (h : ReachableWhen G tcp)
    {d : TcpDesc} {p : TcpPcb} (hp : tcp.get d = some p) : RcvInv False p :=
  h.blocks RcvInv.birth (fun _ _ hinv hevolve ↦ hinv.evolve hevolve (False.elim ·)) hp

/-! ## Acknowledgement soundness -/

/-- The segment that arrives, if its FIN gets to be looked at, has the FIN next in
order. -/
def FinInOrder (_ : Env) (tcp : Tcp) : Event → Prop
  | .arrive s => ∀ d p, pcbSelect tcp.pcbs s.dst s.src = some d → tcp.get d = some p →
      ReachesAck p s → passesAck p s.info → SeesFin p s → FinNext p s
  | _ => True

theorem ReachableWhen.rcvInv_strict {tcp : Tcp} (h : ReachableWhen FinInOrder tcp) {d : TcpDesc}
    {p : TcpPcb} (hp : tcp.get d = some p) : RcvInv True p := by
  refine h.blocks RcvInv.birth (fun hguard hp hinv hevolve ↦ hinv.evolve hevolve ?_) hp
  rintro - s rfl hselect hreach hpasses hfin
  exact hguard _ _ hselect hp hreach hpasses hfin

/-- **Acknowledgement soundness**: in a run in which every FIN that is looked at
is the next in order, `rcv.nxt` is the peer's initial sequence number, plus one
for its SYN, plus the octets put into the buffer, plus one for its FIN.  As long
as the connection goes on, a further step moves it on by what it puts into the
buffer and by the FIN it consumes, and never back. -/
theorem rcv_nxt_counts {tcp : Tcp} (h : ReachableWhen FinInOrder tcp) {d : TcpDesc} {p : TcpPcb}
    (hp : tcp.get d = some p) (hsynced : p.hist.synced = true) :
    p.rcv.nxt = p.irs + 1 + BitVec.ofNat 32 p.hist.rcvd.length +
        (if p.hist.fin then 1 else 0) ∧
      ∀ env ev out p', FinInOrder env tcp ev → step env tcp ev = .ok out →
        out.tcp.get d = some p' → p.state.gotSyn = true → (∀ r, ev ≠ .connectCall d r) →
        ∃ new, p'.hist.rcvd = p.hist.rcvd ++ new ∧ (p.hist.fin = true → p'.hist.fin = true) ∧
          p'.rcv.nxt = p.rcv.nxt + BitVec.ofNat 32 new.length +
            (if p'.hist.fin && !p.hist.fin then 1 else 0) := by
  have hinv := h.rcvInv_strict hp
  have hcount := hinv.count hsynced fun _ ↦ trivial
  refine ⟨hcount, ?_⟩
  intro env ev out p' hguard hstep hp' hstate hev
  have hinv' := ReachableWhen.rcvInv_strict
    (Machine.Reach.next h (e := (env, ev)) ⟨hguard, out, hstep, rfl⟩) hp'
  obtain ⟨q, hq, hevolve⟩ : ∃ q, tcp.get d = some q ∧ Evolve env tcp d out.reply ev q p' := by
    rcases (step_move hstep).evolve hp' with hold | ⟨hnone, -⟩
    · exact hold
    · exact absurd (hp.symm.trans hnone) (by simp)
  obtain rfl : p = q := by simpa using hp.symm.trans hq
  obtain ⟨hirs, hsame, ⟨new, hnew⟩, hfin⟩ := hevolve.rcvd_mono hstate hev
  refine ⟨new, hnew.symm, hfin, ?_⟩
  rw [hinv'.count (hsame.trans hsynced) fun _ ↦ trivial, hcount, rcvNext, rcvCount, rcvNext,
    rcvCount, hirs, ← hnew, List.length_append, BitVec.ofNat_add]
  cases hf : p.hist.fin with
  | true =>
      rw [hfin hf]
      simp only [if_true, Bool.not_true, Bool.and_false, Bool.false_eq_true, if_false]
      ac_rfl
  | false =>
      simp only [Bool.not_false, Bool.and_true, Bool.false_eq_true, if_false]
      ac_rfl

/-- A FIN comes by itself and next in order, to a block that has consumed none. -/
def finAlone (_ : Env) (tcp : Tcp) : Event → Bool
  | .arrive s => !flagIsset s.flg flgFin ||
      ((pcbSelect tcp.pcbs s.dst s.src).bind tcp.get).all fun p ↦
        !p.state.gotFin && s.data = [] && s.seq = p.rcv.nxt
  | _ => true

theorem finInOrder_of_finAlone (env : Env) (tcp : Tcp) (ev : Event)
    (h : finAlone env tcp ev = true) : FinInOrder env tcp ev := by
  cases ev with
  | arrive s =>
      intro d p hselect hp _ _ hfin
      have hget : (pcbSelect tcp.pcbs s.dst s.src).bind tcp.get = some p := by rw [hselect]; exact hp
      simp only [finAlone, hfin.1, hget, Bool.not_true, Bool.false_or, Option.all_some,
        Bool.and_eq_true, Bool.not_eq_true', decide_eq_true_eq] at h
      obtain ⟨⟨hstate, hdata⟩, hseq⟩ := h
      rw [FinNext, hstate, if_neg (by simp)]
      exact ⟨hdata, hseq⟩
  | _ => trivial

/-- A passive open, the peer's handshake, two octets and its FIN. -/
theorem rcv_nxt_counts_two_octets :
    ∃ tcp p, ReachableWhen FinInOrder tcp ∧ tcp.get 0 = some p ∧ p.hist.rcvd = [1, 2] ∧
      p.hist.fin = true ∧ p.rcv.nxt = p.irs + 1 + BitVec.ofNat 32 p.hist.rcvd.length + 1 := by
  obtain ⟨tcp, hreach, htest⟩ := exists_reachableWhen finAlone finInOrder_of_finAlone
    (fun tcp ↦ (tcp.get 0).any fun p ↦ p.hist.synced && p.hist.rcvd = [1, 2] && p.hist.fin)
    [(calmEnv, .openCall hostEndp .any false), fromPeer 500 0 flgSyn [],
      fromPeer 501 101 flgAck [], fromPeer 501 101 flgAck [1, 2],
      fromPeer 503 101 (flgAck ||| flgFin) []] (by decide +kernel)
  obtain ⟨p, hp, htest⟩ := (Option.any_eq_true _ _).mp htest
  simp only [Bool.and_eq_true, decide_eq_true_eq] at htest
  obtain ⟨⟨hsynced, hrcvd⟩, hfin⟩ := htest
  obtain ⟨hcount, -⟩ := rcv_nxt_counts hreach hp hsynced
  rw [hfin, if_pos rfl] at hcount
  exact ⟨tcp, p, hreach, hp, hrcvd, hfin, hcount⟩

/-- Without the condition it fails: after the handshake the peer sends two octets
and its FIN in one segment, and the octets are no longer counted. -/
theorem rcv_nxt_miscounts_data_and_fin :
    ¬ ∀ tcp, Reachable tcp → ∀ d p, tcp.get d = some p → p.hist.synced = true →
      p.rcv.nxt = p.irs + 1 + BitVec.ofNat 32 p.hist.rcvd.length +
        (if p.hist.fin then 1 else 0) := by
  intro hall
  obtain ⟨tcp, hreach, htest⟩ := exists_reachableWhen (fun _ _ _ ↦ true) (fun _ _ _ _ ↦ trivial)
    (fun tcp ↦ (tcp.get 0).any fun p ↦ p.hist.synced && p.rcv.nxt ≠ p.irs + 1 +
      BitVec.ofNat 32 p.hist.rcvd.length + (if p.hist.fin then 1 else 0))
    [(calmEnv, .openCall hostEndp .any false), fromPeer 500 0 flgSyn [],
      fromPeer 501 101 flgAck [], fromPeer 501 101 (flgAck ||| flgFin) [1, 2]]
    (by decide +kernel)
  obtain ⟨p, hp, htest⟩ := (Option.any_eq_true _ _).mp htest
  simp only [Bool.and_eq_true, decide_eq_true_eq] at htest
  exact htest.2 (hall tcp hreach 0 p hp htest.1)

end Tcp

end Microps
