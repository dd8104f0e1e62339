import Microps.Tcp.Send
import Microps.Tcp.World

/-!
# The retransmission queue in order

`retrans_queue_cleanup` looks at the front of the queue only, in the plain order of
32-bit words.  It is right as long as the entries end in order, each after `snd.una`
and none after `snd.nxt`.  They do in every connection that begins with an empty
queue: `connect` and a SYN for an RFC-style listener keep what an earlier connection
has left there.
-/

namespace Microps.Tcp

/-- How far after `snd.una` an entry of the queue ends. -/
def ahead (p : TcpPcb) (e : TcpQueueEntry) : Nat := (e.seq + e.consume - p.snd.una).toNat

/-- The number of sequence numbers in flight. -/
def inFlight (p : TcpPcb) : Nat := (p.snd.nxt - p.snd.una).toNat

/-- The queue of a connection. -/
structure InOrder (p : TcpPcb) : Prop where
  started : p.hist.sent ≠ []
  opening : p.state = .synSent → p.snd.nxt = p.snd.una + 1
  between : ∀ e ∈ p.queue, 0 < ahead p e ∧ ahead p e ≤ inFlight p
  sorted : p.queue.Pairwise fun e e' ↦ ahead p e ≤ ahead p e'
  syn : ∀ e ∈ p.queue, flagIsset e.flg flgSyn = true →
    e.seq = p.iss ∧ e.consume = 1 ∧ p.snd.una = p.iss

/-- A connection begins only on a block with an empty queue. -/
def BeginsClean (env : Env) (tcp : Tcp) (ev : Event) : Prop :=
  begins env tcp ev = true → match ev with
    | .connectCall d _ => ∀ p, tcp.get d = some p → p.queue = []
    | .arrive s => ∀ d p, pcbSelect tcp.pcbs s.dst s.src = some d → tcp.get d = some p →
        p.mode = .rfc → p.queue = []
    | _ => True

/-- In a list in which `q` fails from some element on, it fails of all that `dropWhile`
leaves. -/
theorem not_of_mem_dropWhile {α : Type} {R : α → α → Prop} {q : α → Bool} {l : List α}
    (hl : l.Pairwise R) (hq : ∀ a ∈ l, ∀ b ∈ l, R a b → q a = false → q b = false) {a : α}
    (ha : a ∈ l.dropWhile q) : q a = false := by
  induction l with
  | nil => exact absurd ha (by simp)
  | cons b l ih =>
      rw [List.pairwise_cons] at hl
      rw [List.dropWhile_cons] at ha
      split at ha
      · exact ih hl.2 (fun a ha b hb ↦ hq a (by simp [ha]) b (by simp [hb])) ha
      · next hb =>
        rw [Bool.not_eq_true] at hb
        rcases List.mem_cons.mp ha with rfl | ha
        · exact hb
        · exact hq b (by simp) a (by simp [ha]) (hl.1 a ha) hb

section

variable {env : Env} {tcp : Tcp} {d : TcpDesc} {ev : Event} {p p' : TcpPcb} {a : Nat}

/-- What leaves the send side alone. -/
theorem InOrder.congr (h : InOrder p) (hsent : p'.hist.sent = p.hist.sent)
    (hsnd : p'.snd.nxt = p.snd.nxt ∧ p'.snd.una = p.snd.una) (hiss : p'.iss = p.iss)
    (hqueue : p'.queue = p.queue) (hstate : p'.state = .synSent → p.state = .synSent) :
    InOrder p' := by
  have hahead : ahead p' = ahead p := by
    funext e
    rw [ahead, ahead, hsnd.2]
  constructor
  · rw [hsent]
    exact h.started
  · intro hs
    rw [hsnd.1, hsnd.2]
    exact h.opening (hstate hs)
  · rw [hqueue, hahead, inFlight, hsnd.1, hsnd.2]
    exact h.between
  · rw [hqueue, hahead]
    exact h.sorted
  · rw [hqueue, hiss, hsnd.2]
    exact h.syn

/-- A SYN begins a connection on a block whose queue is empty. -/
theorem InOrder.begin {flg : U8} (hconsume : (queueEntry env p.iss flg []).consume = 1)
    (hqueue : p.queue = [queueEntry env p.iss flg []]) (hsent : p.hist.sent ≠ [])
    (hnxt : p.snd.nxt = p.iss + 1) (huna : p.snd.una = p.iss) : InOrder p := by
  have hone : inFlight p = 1 := by
    rw [inFlight, hnxt, huna, add_sub_cancel_left]
    rfl
  have hahead : ahead p (queueEntry env p.iss flg []) = 1 := by
    rw [ahead, hconsume, huna, show (queueEntry env p.iss flg []).seq = p.iss from rfl,
      add_sub_cancel_left]
    rfl
  constructor
  · exact hsent
  · intro _
    rw [hnxt, huna]
  · intro e he
    rw [hqueue, List.mem_singleton] at he
    rw [he, hahead, hone]
    exact ⟨Nat.one_pos, Nat.le_refl 1⟩
  · rw [hqueue]
    exact List.pairwise_singleton _ _
  · intro e he _
    rw [hqueue, List.mem_singleton] at he
    rw [he]
    exact ⟨rfl, hconsume, huna⟩

/-- An entry that ends at the new `snd.nxt` is queued. -/
theorem InOrder.add {e : TcpQueueEntry} (h : InOrder p) (hqueue : p'.queue = p.queue ++ [e])
    (hsent : p'.hist.sent ≠ []) (hstate : p'.state ≠ .synSent) (hiss : p'.iss = p.iss)
    (huna : p'.snd.una = p.snd.una) (hend : e.seq + e.consume = p'.snd.nxt)
    (hle : inFlight p ≤ inFlight p') (hpos : 0 < inFlight p')
    (hsyn : flagIsset e.flg flgSyn = true → e.seq = p.iss ∧ e.consume = 1 ∧ p.snd.una = p.iss) :
    InOrder p' := by
  have hahead : ahead p' = ahead p := by
    funext e
    rw [ahead, ahead, huna]
  have hlast : ahead p' e = inFlight p' := by rw [ahead, inFlight, hend]
  constructor
  · exact hsent
  · exact fun hs ↦ absurd hs hstate
  · intro e' he'
    rw [hqueue] at he'
    rcases List.mem_append.mp he' with he' | he'
    · rw [hahead]
      exact ⟨(h.between e' he').1, Nat.le_trans (h.between e' he').2 hle⟩
    · rw [List.mem_singleton.mp he', hlast]
      exact ⟨hpos, Nat.le_refl _⟩
  · rw [hqueue, List.pairwise_append]
    refine ⟨hahead ▸ h.sorted, List.pairwise_singleton _ _, fun e₁ he₁ e₂ he₂ ↦ ?_⟩
    rw [List.mem_singleton.mp he₂, hlast, hahead]
    exact Nat.le_trans (h.between e₁ he₁).2 hle
  · intro e' he' hflg
    rw [hqueue] at he'
    rw [hiss, huna]
    rcases List.mem_append.mp he' with he' | he'
    · exact h.syn e' he' hflg
    · rw [List.mem_singleton.mp he'] at hflg ⊢
      exact hsyn hflg

/-- While the numbers in flight do not wrap, the plain comparison of the cleanup finds
the entries that end after the acknowledgement. -/
theorem InOrder.lt_end_iff (h : InOrder p) {ack : U32} (hle : p.snd.una ≤ ack)
    (hge : ack ≤ p.snd.nxt) {e : TcpQueueEntry} (he : e ∈ p.queue) :
    ack < e.seq + e.consume ↔ (ack - p.snd.una).toNat < ahead p e := by
  have hbetween := h.between e he
  unfold ahead inFlight at hbetween
  unfold ahead
  generalize e.seq + e.consume = last at hbetween ⊢
  bv_omega

/-- What the cleanup leaves ends after the acknowledgement. -/
theorem InOrder.lt_of_mem_cleanup (h : InOrder p) {ack : U32} (hle : p.snd.una ≤ ack)
    (hge : ack ≤ p.snd.nxt) {e : TcpQueueEntry}
    (he : e ∈ p.queue.dropWhile fun e ↦ !decide (ack < e.seq + e.consume)) :
    ack < e.seq + e.consume := by
  have hkept := not_of_mem_dropWhile h.sorted (fun e₁ he₁ e₂ he₂ hle' hlt ↦ ?_) he
  · simpa using hkept
  · have hlt : ack < e₁.seq + e₁.consume := by simpa using hlt
    have hlt' : ack < e₂.seq + e₂.consume := by
      rw [h.lt_end_iff hle hge he₂]
      exact Nat.lt_of_lt_of_le ((h.lt_end_iff hle hge he₁).mp hlt) hle'
    simp [hlt']

/-- An acknowledgement moves `snd.una` and cleans up the queue. -/
theorem InOrder.ack (h : InOrder p) {ack : U32} (hle : p.snd.una ≤ ack) (hge : ack ≤ p.snd.nxt)
    (hiss : p.snd.una = p.iss → p.iss < ack) (hsent : p'.hist.sent = p.hist.sent)
    (hiss' : p'.iss = p.iss) (hnxt : p'.snd.nxt = p.snd.nxt) (huna : p'.snd.una = ack)
    (hqueue : p'.queue = p.queue.dropWhile fun e ↦ !decide (ack < e.seq + e.consume))
    (hstate : p'.state ≠ .synSent) : InOrder p' := by
  have hmem : ∀ e ∈ p'.queue, e ∈ p.queue ∧ ack < e.seq + e.consume := by
    intro e he
    rw [hqueue] at he
    exact ⟨(List.dropWhile_suffix _).subset he, h.lt_of_mem_cleanup hle hge he⟩
  have hahead : ∀ e ∈ p'.queue, ahead p' e = ahead p e - (ack - p.snd.una).toNat ∧
      (ack - p.snd.una).toNat < ahead p e ∧ ahead p e ≤ inFlight p := by
    intro e he
    obtain ⟨he, hlt⟩ := hmem e he
    have hbetween := h.between e he
    refine ⟨?_, (h.lt_end_iff hle hge he).mp hlt, hbetween.2⟩
    unfold ahead inFlight at hbetween
    unfold ahead
    rw [huna]
    generalize e.seq + e.consume = last at hbetween hlt ⊢
    bv_omega
  have hflight : inFlight p' = inFlight p - (ack - p.snd.una).toNat := by
    unfold inFlight
    rw [hnxt, huna]
    bv_omega
  constructor
  · rw [hsent]
    exact h.started
  · exact fun hs ↦ absurd hs hstate
  · intro e he
    obtain ⟨heq, hlt, hle⟩ := hahead e he
    omega
  · have hsub : p'.queue.Pairwise fun e e' ↦ ahead p e ≤ ahead p e' := by
      rw [hqueue]
      exact h.sorted.sublist (List.dropWhile_sublist _)
    refine hsub.imp_of_mem fun he he' hle ↦ ?_
    rw [(hahead _ he).1, (hahead _ he').1]
    omega
  · -- The SYN has been acknowledged and is gone.
    intro e he hflg
    obtain ⟨he, hlt⟩ := hmem e he
    obtain ⟨hseq, hconsume, heq⟩ := h.syn e he hflg
    have hiss := hiss heq
    rw [hseq, hconsume] at hlt
    bv_omega

/-! ## Along a run -/

/-- In a connection `snd.una` is never before the initial sequence number. -/
theorem SendInv.una_eq_iss (h : SendInv p a) (hactive : p.state.isActive = true)
    (hno : ¬ p.iss < p.snd.una) : p.snd.una = p.iss := by
  have hcount := (h.active hactive).2
  apply BitVec.eq_of_toNat_eq
  rw [BitVec.lt_def] at hno
  omega

/-- A SYN received in SYN_SENT. -/
theorem InOrder.synSent {seg : SegInfo} {acceptable : Bool} (hinv : SendInv p a) (h : InOrder p)
    (hstate : p.state = .synSent)
    (hack : acceptable = true → p.iss < seg.ack ∧ p.snd.una ≤ seg.ack ∧ seg.ack ≤ p.snd.nxt) :
    InOrder (synInSynSent env p seg acceptable).1 := by
  obtain ⟨q, hq, hcases⟩ := synInSynSent_cases env p seg acceptable
  obtain ⟨snd, queue, heq, hside⟩ := takeSyn_eq p seg acceptable
  subst hq
  rw [heq] at hcases
  rcases hside with ⟨-, rfl, rfl⟩ | ⟨hacc, rfl, rfl⟩
  · rcases hcases with ⟨-, hcase⟩ | ⟨hno, hcase⟩
    · rw [hcase]
      exact h.congr rfl ⟨rfl, rfl⟩ rfl rfl (by simp)
    · -- Nothing is acknowledged, and both SYNs are in the queue.
      have huna := hinv.una_eq_iss (by simp [hstate, TcpState.isActive]) hno
      obtain ⟨-, hconsume⟩ := synAck_octets env p.iss
      have hnxt : p.iss + 1 = p.snd.nxt := by rw [← huna, h.opening hstate]
      have hone : inFlight p = 1 := by
        rw [inFlight, h.opening hstate, add_sub_cancel_left]
        rfl
      rw [hcase]
      refine h.add rfl h.started (by simp) rfl rfl ?_ (Nat.le_refl _) ?_ fun _ ↦ ⟨rfl, hconsume, huna⟩
      · rw [hconsume]
        exact hnxt
      · exact Nat.lt_of_lt_of_eq Nat.one_pos hone.symm
  · obtain ⟨hlt, hle, hge⟩ := hack hacc
    rcases hcases with ⟨-, hcase⟩ | ⟨hno, -⟩
    · rw [hcase]
      exact h.ack hle hge (fun _ ↦ hlt) rfl rfl rfl rfl rfl (by simp)
    · exact absurd hlt hno

theorem begins_of_passive {s : TcpSegment} (hselect : pcbSelect tcp.pcbs s.dst s.src = some d)
    (hp : tcp.get d = some p) (hstate : p.state = .listen) (hmode : p.mode = .rfc)
    (hrst : flagIsset s.flg flgRst = false) (hack : flagIsset s.flg flgAck = false)
    (hsyn : flagIsset s.flg flgSyn = true) : begins env tcp (.arrive s) = true := by
  simp [begins, hselect, hp, hstate, hmode, hrst, hack, hsyn]

theorem InOrder.block {es : List Effect} {reply : Reply} (hinv : SendInv p a)
    (h : p.state.isActive = true → InOrder p) (hp : tcp.get d = some p)
    (hclean : BeginsClean env tcp ev) (hblock : BlockStep env tcp d ev p es reply p')
    (hactive : p'.state.isActive = true) : InOrder p' := by
  cases hblock with
  | mss m => exact (h hactive).congr rfl ⟨rfl, rfl⟩ rfl rfl id
  | bind l _ => exact (h hactive).congr rfl ⟨rfl, rfl⟩ rfl rfl id
  | take len n wnd _ _ _ _ => exact (h hactive).congr rfl ⟨rfl, rfl⟩ rfl rfl id
  | listen n _ => exact absurd hactive (by simp [TcpState.isActive])
  | connectFails _ => exact absurd hactive (by simp [TcpState.isActive])
  | interrupted => exact absurd hactive (by simp [TcpState.isActive])
  | synFails l r _ _ => exact absurd hactive (by simp [TcpState.isActive])
  | syn l r hlocal _ =>
      have hempty : p.queue = [] := hclean (begins_of_connects hp hlocal) p hp
      rw [sendSyn_eq, hempty]
      exact .begin (syn_octets env env.random32).2 rfl (List.cons_ne_nil _ _) rfl rfl
  | passive s hselect hstate hmode hrst hack hsyn =>
      have hempty : p.queue = [] :=
        hclean (begins_of_passive hselect hp hstate hmode hrst hack hsyn) d p hselect hp hmode
      rw [passiveOpen_eq, hempty]
      exact .begin (synAck_octets env env.random32).2 rfl (by simp) rfl rfl
  | synSent s acceptable _ hstate _ _ hack =>
      refine InOrder.synSent hinv (h (by simp [hstate, TcpState.isActive])) hstate ?_
      exact fun hacc ↦ (hack hacc).2
  | fin state hstate =>
      have hfrom : p.state.isActive = true ∧ p.state.canSend = true ∧ state ≠ .synSent := by
        rcases hstate with ⟨hs | hs, rfl⟩ | ⟨hs, rfl⟩ <;>
          simp [hs, TcpState.isActive, TcpState.canSend]
      have hroom := hinv.room hfrom.2.1
      have hflight : inFlight (sendFin env p state).1 = inFlight p + 1 := by
        have hcount := hinv.inFlight
        rw [sendFin_eq]
        unfold inFlight
        bv_omega
      obtain ⟨-, hconsume⟩ := fin_octets env p.snd.nxt
      rw [sendFin_eq] at hflight ⊢
      refine (h hfrom.1).add rfl (by simp) hfrom.2.2 rfl rfl ?_ (by omega) (by omega) ?_
      · rw [hconsume]
        rfl
      · exact fun hflg ↦ absurd hflg (show ¬ flagIsset (flgAck ||| flgFin) flgSyn = true by decide)
  | data data sent n hstate _ hn hcap =>
      have hfrom : p.state.isActive = true ∧ p.state ≠ .synSent := by
        rcases hstate with hs | hs <;> simp [hs, TcpState.isActive]
      have hold := h hfrom.1
      have hfit := length_le_of_sendCap hn hcap
      have hwnd := p.snd.wnd.isLt
      rw [sendData_eq]
      generalize (data.drop sent).take n = new at hfit ⊢
      by_cases hnil : new = []
      · subst hnil
        exact hold.congr (by simp) ⟨by simp, rfl⟩ rfl (by simp) id
      · have hlen : 0 < new.length := List.length_pos_of_ne_nil hnil
        have hgrow : (p.snd.nxt + BitVec.ofNat 32 new.length - p.snd.una).toNat =
            (p.snd.nxt - p.snd.una).toNat + new.length := by
          have hsplit : p.snd.nxt + BitVec.ofNat 32 new.length - p.snd.una =
              p.snd.nxt - p.snd.una + BitVec.ofNat 32 new.length := by
            abel
          rw [hsplit, BitVec.toNat_add, BitVec.toNat_ofNat]
          omega
        obtain ⟨-, hconsume⟩ := data_octets env p.snd.nxt new
        refine hold.add (e := queueEntry env p.snd.nxt (flgAck ||| flgPsh) new) (by simp [hnil])
          (by simp [hnil]) hfrom.2 rfl rfl ?_ ?_ ?_ ?_
        · rw [hconsume]
          rfl
        · exact (Nat.le_add_right _ _).trans_eq hgrow.symm
        · exact Nat.lt_of_lt_of_eq (Nat.lt_of_lt_of_le hlen (Nat.le_add_left _ _)) hgrow.symm
        · exact fun hflg ↦ absurd hflg (show ¬ flagIsset (flgAck ||| flgPsh) flgSyn = true by decide)

/-- A segment past SYN_SENT. -/
theorem InOrder.arrived {s : TcpSegment} (hinv : SendInv p a) (h : InOrder p)
    (hstate : p.state ≠ .closed ∧ p.state ≠ .listen ∧ p.state ≠ .synSent)
    (harrived : Arrived p s p') : InOrder p' := by
  have hactive := TcpState.isActive_of_ne hstate.1 hstate.2.1
  have hcount := (hinv.active hactive).2
  have hpast := (harrived.state hstate).2.2.1
  obtain ⟨hsnd, hiss, hsent⟩ := harrived.send
  rcases hsnd with ⟨hsnd, hqueue⟩ | ⟨hnew, hnxt, huna, hqueue⟩
  · exact h.congr hsent ⟨by rw [hsnd], by rw [hsnd]⟩ hiss hqueue fun hs ↦ absurd hs hpast
  · refine h.ack (BitVec.le_of_lt hnew.2.1) hnew.2.2 (fun heq ↦ ?_) hsent hiss hnxt huna hqueue hpast
    exact heq ▸ hnew.2.1

theorem InOrder.evolve {reply : Reply} (hinv : SendInv p a)
    (h : p.state.isActive = true → InOrder p) (hp : tcp.get d = some p)
    (hclean : BeginsClean env tcp ev) (hevolve : Evolve env tcp d reply ev p p')
    (hactive : p'.state.isActive = true) : InOrder p' := by
  cases hevolve with
  | keep backlog mss accepted _ => exact (h hactive).congr rfl ⟨rfl, rfl⟩ rfl rfl id
  | block hblock => exact InOrder.block hinv h hp hclean hblock hactive
  | arrived s _ hreach harrived =>
      have hbefore := h (TcpState.isActive_of_ne hreach.state.1 hreach.state.2.1)
      exact InOrder.arrived hinv hbefore hreach.state harrived
  | tick =>
      rcases retransEmit_cases env p with heq | ⟨f, hf, heq⟩
      · rw [heq] at hactive
        exact absurd hactive (by simp [TcpState.isActive])
      · rw [heq] at hactive ⊢
        have hold := h hactive
        have hend : ∀ e, ahead p (f e) = ahead p e := by
          intro e
          obtain ⟨hseq, hflg, hdata⟩ := hf e
          rw [ahead, ahead, TcpQueueEntry.consume, TcpQueueEntry.consume, hseq, hflg, hdata]
        constructor
        · exact hold.started
        · exact hold.opening
        · intro e he
          obtain ⟨e', he', rfl⟩ := List.mem_map.mp he
          exact (hend e').symm ▸ hold.between e' he'
        · rw [List.pairwise_map]
          exact hold.sorted.imp fun {e e'} hle ↦ by
            simpa only [ahead] using (hend e).trans_le (hle.trans_eq (hend e').symm)
        · intro e he hflg
          obtain ⟨e', he', rfl⟩ := List.mem_map.mp he
          obtain ⟨hseq, hflg', hdata⟩ := hf e'
          rw [hflg'] at hflg
          rw [TcpQueueEntry.consume, hseq, hflg', hdata]
          exact hold.syn e' he' hflg

theorem InOrder.birth {task : TaskId} {es : List Effect} {reply : Reply}
    (h : Birth env tcp d task ev es reply p) (hactive : p.state.isActive = true) : InOrder p := by
  cases h with
  | socket => exact absurd hactive (by simp [TcpState.isActive, TcpPcb.empty])
  | listen l r => exact absurd hactive (by simp [TcpState.isActive])
  | syn l l' r _ _ =>
      rw [sendSyn_eq]
      exact .begin (syn_octets env env.random32).2 rfl (List.cons_ne_nil _ _) rfl rfl
  | child s l p child _ _ _ _ _ _ _ _ hchild =>
      rw [passiveOpen_eq, hchild]
      exact .begin (synAck_octets env env.random32).2 rfl (by simp) rfl rfl

end

end Microps.Tcp
