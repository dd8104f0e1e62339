import Microps.Lib.Serial
import Microps.Tcp.Output
import Microps.Tcp.Reach

/-!
# The send side

What has been sent and not yet acknowledged stays in the retransmission queue.
The send side of a block is a log, `hist.sent`, that ends at `snd.nxt`; the
acknowledged part is a prefix of it, and the rest is shorter than a window and one
FIN.  `snd.una` only moves when the plain comparisons of the ACK step succeed, and
since the window is short they succeed only when the numbers from `snd.una` to
`snd.nxt` do not wrap: then the plain comparison of the queue cleanup is right
too.
-/

namespace Microps

/-- What the sequence numbers of an entry are used for. -/
def TcpQueueEntry.octets (e : TcpQueueEntry) : List Octet :=
  (if flagIsset e.flg flgSyn then [.syn] else []) ++ e.data.map .byte ++
    (if flagIsset e.flg flgFin then [.fin] else [])

/-- The states that belong to a connection. -/
def TcpState.isActive : TcpState → Bool
  | .closed | .listen => false
  | _ => true

theorem TcpState.isActive_of_ne {state : TcpState} (hclosed : state ≠ .closed)
    (hlisten : state ≠ .listen) : state.isActive = true := by
  cases state with
  | closed => exact absurd rfl hclosed
  | listen => exact absurd rfl hlisten
  | _ => rfl

/-- The states in which more may still be sent. -/
def TcpState.canSend : TcpState → Bool
  | .synSent | .synReceived | .established | .closeWait => true
  | _ => false

theorem TcpState.canSend_of_afterAck {state : TcpState} {all : Bool}
    (h : (state.afterAck all).canSend = true) : state.canSend = true := by
  cases state <;> cases all <;> simp_all [afterAck, canSend]

theorem TcpState.canSend_of_afterFin {state : TcpState} {all : Bool}
    (h : (state.afterFin all).canSend = true) : state.canSend = true := by
  cases state <;> cases all <;> simp_all [afterFin, canSend]

namespace Tcp

/-! ## Coverage -/

/-- The entry `e` holds the log from position `j` on. -/
def Holds (sent : List Octet) (nxt : U32) (e : TcpQueueEntry) (j : Nat) : Prop :=
  e.octets <+: sent.drop j ∧ e.seq = Serial.pos nxt sent.length j

/-- Some entry of the queue holds position `i` of the log. -/
def Covered (sent : List Octet) (nxt : U32) (queue : List TcpQueueEntry) (i : Nat) : Prop :=
  ∃ e ∈ queue, ∃ j, j ≤ i ∧ i < j + e.octets.length ∧ Holds sent nxt e j

section

variable {sent new : List Octet} {nxt ack : U32} {queue : List TcpQueueEntry} {e : TcpQueueEntry}
  {i j : Nat}

/-- What an entry holds lies inside the log. -/
theorem Holds.le (h : Holds sent nxt e j) (hj : j ≤ sent.length) :
    j + e.octets.length ≤ sent.length := by
  have := h.1.length_le
  rw [List.length_drop] at this
  omega

theorem Holds.lt (h : Holds sent nxt e j) (hne : 0 < e.octets.length) : j < sent.length := by
  have := h.1.length_le
  rw [List.length_drop] at this
  omega

/-- An entry still holds its part when the log grows. -/
theorem Holds.append (h : Holds sent nxt e j) (hj : j ≤ sent.length) :
    Holds (sent ++ new) (nxt + BitVec.ofNat 32 new.length) e j := by
  refine ⟨?_, ?_⟩
  · rw [List.drop_append_of_le_length hj]
    exact h.1.trans (List.prefix_append _ _)
  · rw [List.length_append, Serial.pos_append nxt hj, h.2]

theorem Covered.append_queue (h : Covered sent nxt queue i) (queue' : List TcpQueueEntry) :
    Covered sent nxt (queue ++ queue') i := by
  obtain ⟨e, he, hcover⟩ := h
  exact ⟨e, List.mem_append_left _ he, hcover⟩

theorem Covered.append (h : Covered sent nxt queue i) :
    Covered (sent ++ new) (nxt + BitVec.ofNat 32 new.length) queue i := by
  obtain ⟨e, he, j, hji, hij, hholds⟩ := h
  have hj := hholds.lt (by omega)
  exact ⟨e, he, j, hji, hij, hholds.append (Nat.le_of_lt hj)⟩

/-- Retransmission keeps what the entries hold. -/
theorem Covered.map (h : Covered sent nxt queue i) {f : TcpQueueEntry → TcpQueueEntry}
    (hf : ∀ e, (f e).seq = e.seq ∧ (f e).flg = e.flg ∧ (f e).data = e.data) :
    Covered sent nxt (queue.map f) i := by
  obtain ⟨e, he, j, hji, hij, hholds⟩ := h
  have hoctets : (f e).octets = e.octets := by
    rw [TcpQueueEntry.octets, TcpQueueEntry.octets, (hf e).2.1, (hf e).2.2]
  refine ⟨f e, List.mem_map_of_mem he, j, hji, hoctets ▸ hij, ?_⟩
  rw [Holds, hoctets, (hf e).1]
  exact hholds

theorem mem_dropWhile {α : Type} {q : α → Bool} {l : List α} {a : α} (ha : a ∈ l)
    (hq : q a = false) : a ∈ l.dropWhile q := by
  induction l with
  | nil => exact absurd ha (by simp)
  | cons b l ih =>
      rw [List.dropWhile_cons]
      split
      · next hb =>
        rcases List.mem_cons.mp ha with rfl | ha
        · exact absurd hb (by simp [hq])
        · exact ih ha
      · exact ha

/-- The cleanup keeps the entries that hold something after the new `snd.una`,
provided the numbers have not wrapped since `base`. -/
theorem Covered.cleanup {base a : Nat} (h : Covered sent nxt queue i) (hai : a ≤ i)
    (hnxt : nxt.toNat = base + sent.length) (hack : ack.toNat = base + a)
    (hentries : ∀ e ∈ queue, e.consume = BitVec.ofNat 32 e.octets.length) :
    Covered sent nxt (queue.dropWhile fun e ↦ !decide (ack < e.seq + e.consume)) i := by
  obtain ⟨e, he, j, hji, hij, hholds⟩ := h
  have hj := hholds.lt (by omega)
  have hle := hholds.le (Nat.le_of_lt hj)
  refine ⟨e, mem_dropWhile he ?_, j, hji, hij, hholds⟩
  have hend : (e.seq + e.consume).toNat = base + (j + e.octets.length) := by
    rw [hentries e he, hholds.2, Serial.pos_add nxt hle, Serial.toNat_pos hnxt hle]
  have hlt : ack < e.seq + e.consume := by
    rw [BitVec.lt_def, hend, hack]
    omega
  simp [hlt]

end

/-! ## The invariant -/

/-- The send side of a block, of whose log the first `a` positions are
acknowledged. -/
structure SendInv (p : TcpPcb) (a : Nat) : Prop where
  le : a ≤ p.hist.sent.length
  una : p.snd.una = Serial.pos p.snd.nxt p.hist.sent.length a
  bound : p.hist.sent.length - a ≤ 65536
  covered : ∀ i, a ≤ i → i < p.hist.sent.length → Covered p.hist.sent p.snd.nxt p.queue i
  entries : ∀ e ∈ p.queue, e.consume = BitVec.ofNat 32 e.octets.length
  active : p.state.isActive = true → p.snd.nxt = p.iss + BitVec.ofNat 32 p.hist.sent.length ∧
    p.snd.una.toNat = p.iss.toNat + a
  room : p.state.canSend = true → p.hist.sent.length - a ≤ 65535

section

variable {env : Env} {tcp : Tcp} {d : TcpDesc} {ev : Event} {p p' : TcpPcb} {a : Nat}

/-- What is in flight. -/
theorem SendInv.inFlight (h : SendInv p a) :
    (p.snd.nxt - p.snd.una).toNat = p.hist.sent.length - a := by
  have hbound := h.bound
  rw [h.una, Serial.toNat_sub_pos _ (by omega)]

/-- What leaves the send side alone. -/
theorem SendInv.congr (h : SendInv p a) (hsent : p'.hist.sent = p.hist.sent)
    (hnxt : p'.snd.nxt = p.snd.nxt) (huna : p'.snd.una = p.snd.una)
    (hqueue : ∃ new, p'.queue = p.queue ++ new ∧
      ∀ e ∈ new, e.consume = BitVec.ofNat 32 e.octets.length)
    (hactive : p'.state.isActive = true → p.state.isActive = true ∧ p'.iss = p.iss)
    (hroom : p'.state.canSend = true → p.state.canSend = true) : SendInv p' a := by
  obtain ⟨new, hqueue, hnew⟩ := hqueue
  constructor
  · rw [hsent]
    exact h.le
  · rw [hsent, hnxt, huna]
    exact h.una
  · rw [hsent]
    exact h.bound
  · intro i hai hi
    rw [hsent] at hi
    rw [hsent, hnxt, hqueue]
    exact (h.covered i hai hi).append_queue new
  · intro e he
    rw [hqueue] at he
    rcases List.mem_append.mp he with he | he
    · exact h.entries e he
    · exact hnew e he
  · intro h'
    rw [hsent, hnxt, huna, (hactive h').2]
    exact h.active (hactive h').1
  · intro h'
    rw [hsent]
    exact h.room (hroom h')

/-- A block outside a connection. -/
theorem SendInv.of_inactive (h : SendInv p a) (hstate : p'.state.isActive = false)
    (hsent : p'.hist.sent = p.hist.sent) (hsnd : p'.snd = p.snd)
    (hqueue : ∃ new, p'.queue = p.queue ++ new ∧
      ∀ e ∈ new, e.consume = BitVec.ofNat 32 e.octets.length) : SendInv p' a := by
  have hsend : p'.state.canSend = false := by
    cases hs : p'.state <;> simp_all [TcpState.isActive, TcpState.canSend]
  refine h.congr hsent (by rw [hsnd]) (by rw [hsnd]) hqueue ?_ ?_
  · exact fun h' ↦ absurd h' (by simp [hstate])
  · exact fun h' ↦ absurd h' (by simp [hsend])

/-- A SYN begins a connection. -/
theorem SendInv.begin (queue : List TcpQueueEntry) {flg : U8}
    (hentries : ∀ e ∈ queue, e.consume = BitVec.ofNat 32 e.octets.length)
    (hflg : (queueEntry env p.iss flg []).octets = [.syn])
    (hconsume : (queueEntry env p.iss flg []).consume = 1)
    (hqueue : p.queue = queue ++ [queueEntry env p.iss flg []]) (hsent : p.hist.sent = [.syn])
    (hnxt : p.snd.nxt = p.iss + 1) (huna : p.snd.una = p.iss) : SendInv p 0 := by
  have hpos : Serial.pos p.snd.nxt 1 0 = p.iss := by
    rw [Serial.pos, hnxt]
    exact BitVec.add_sub_cancel _ _
  constructor
  · exact Nat.zero_le _
  · rw [hsent, huna]
    exact hpos.symm
  · simp [hsent]
  · intro i _ hi
    rw [hsent, List.length_singleton] at hi
    obtain rfl : i = 0 := by omega
    refine ⟨queueEntry env p.iss flg [], by simp [hqueue], 0, Nat.le_refl 0, by simp [hflg], ?_⟩
    rw [hsent]
    exact ⟨by simp [hflg], hpos.symm⟩
  · intro e he
    rw [hqueue] at he
    rcases List.mem_append.mp he with he | he
    · exact hentries e he
    · rw [List.mem_singleton.mp he, hflg, hconsume]
      rfl
  · intro _
    rw [hsent, huna, hnxt]
    exact ⟨rfl, rfl⟩
  · simp [hsent]

/-- In a connection, the plain comparisons of the ACK step place an
acknowledgement between the acknowledged part and the end of the log, and then no
number in between has wrapped. -/
theorem SendInv.ack_between (h : SendInv p a) (hactive : p.state.isActive = true) {ack : U32}
    (hle : p.snd.una ≤ ack) (hge : ack ≤ p.snd.nxt) :
    p.snd.nxt.toNat = p.iss.toNat + p.hist.sent.length ∧
      ∃ a', a ≤ a' ∧ a' ≤ p.hist.sent.length ∧ ack.toNat = p.iss.toNat + a' := by
  obtain ⟨hnxt, huna⟩ := h.active hactive
  have hbound := h.bound
  have hn : p.snd.nxt.toNat = p.iss.toNat + p.hist.sent.length := by
    bv_omega
  refine ⟨hn, ack.toNat - p.iss.toNat, ?_, ?_, ?_⟩
  · bv_omega
  · bv_omega
  · bv_omega

/-- An acknowledgement moves `snd.una` and cleans up the queue. -/
theorem SendInv.ack (h : SendInv p a) (hactive : p.state.isActive = true) {ack : U32}
    (hle : p.snd.una ≤ ack) (hge : ack ≤ p.snd.nxt) (hsent : p'.hist.sent = p.hist.sent)
    (hiss : p'.iss = p.iss) (hnxt : p'.snd.nxt = p.snd.nxt) (huna : p'.snd.una = ack)
    (hqueue : p'.queue = p.queue.dropWhile fun e ↦ !decide (ack < e.seq + e.consume))
    (hroom : p'.state.canSend = true → p.state.canSend = true) :
    ∃ a', SendInv p' a' := by
  obtain ⟨hn, a', haa', ha'n, hack⟩ := h.ack_between hactive hle hge
  have hbound := h.bound
  refine ⟨a', ?_⟩
  constructor
  · rw [hsent]
    exact ha'n
  · rw [hsent, hnxt, huna]
    apply BitVec.eq_of_toNat_eq
    rw [hack, Serial.toNat_pos hn ha'n]
  · rw [hsent]
    omega
  · intro i hi hin
    rw [hsent] at hin
    rw [hsent, hnxt, hqueue]
    exact (h.covered i (by omega) hin).cleanup hi hn hack h.entries
  · intro e he
    rw [hqueue] at he
    exact h.entries e ((List.dropWhile_suffix _).subset he)
  · intro _
    rw [hsent, hnxt, huna, hiss]
    exact ⟨(h.active hactive).1, hack⟩
  · intro hs
    have := h.room (hroom hs)
    rw [hsent]
    omega

/-- Something is sent and queued. -/
theorem SendInv.send {e : TcpQueueEntry} (h : SendInv p a) (new : List Octet)
    (hactive : p.state.isActive = true) (hsent : p'.hist.sent = p.hist.sent ++ new)
    (hiss : p'.iss = p.iss) (hnxt : p'.snd.nxt = p.snd.nxt + BitVec.ofNat 32 new.length)
    (huna : p'.snd.una = p.snd.una) (hseq : e.seq = p.snd.nxt) (hoctets : e.octets = new)
    (hconsume : e.consume = BitVec.ofNat 32 new.length)
    (hqueue : p'.queue = p.queue ++ if new = [] then [] else [e])
    (hbound : p.hist.sent.length + new.length - a ≤ 65536)
    (hroom : p'.state.canSend = true → p.hist.sent.length + new.length - a ≤ 65535) :
    SendInv p' a := by
  have hle := h.le
  constructor
  · rw [hsent, List.length_append]
    omega
  · rw [hsent, hnxt, huna, List.length_append, Serial.pos_append _ hle]
    exact h.una
  · rw [hsent, List.length_append]
    exact hbound
  · intro i hai hi
    rw [hsent, List.length_append] at hi
    rw [hsent, hnxt, hqueue]
    by_cases hin : i < p.hist.sent.length
    · exact ((h.covered i hai hin).append).append_queue _
    · have hne : new ≠ [] := by
        rintro rfl
        simp at hi
        omega
      rw [if_neg hne]
      refine ⟨e, by simp, p.hist.sent.length, by omega, by rw [hoctets]; omega, ?_, ?_⟩
      · rw [List.drop_left, hoctets]
      · rw [List.length_append, Serial.pos_append _ (Nat.le_refl _), Serial.pos_self, hseq]
  · intro e' he'
    rw [hqueue] at he'
    rcases List.mem_append.mp he' with he' | he'
    · exact h.entries e' he'
    · split at he'
      · exact absurd he' (by simp)
      · rw [List.mem_singleton.mp he', hconsume, hoctets]
  · intro _
    obtain ⟨hn, hu⟩ := h.active hactive
    rw [hsent, hnxt, huna, hiss, hn, List.length_append, BitVec.ofNat_add]
    exact ⟨by ac_rfl, hu⟩
  · intro hs
    rw [hsent, List.length_append]
    exact hroom hs

/-! ## The invariant along a run -/

/-- A block that has sent nothing. -/
theorem SendInv.of_nothing (hsent : p.hist.sent = []) (hsnd : p.snd.una = p.snd.nxt)
    (hqueue : p.queue = []) (hstate : p.state.isActive = false) : SendInv p 0 := by
  have hsend : p.state.canSend = false := by
    cases hs : p.state <;> simp_all [TcpState.isActive, TcpState.canSend]
  constructor <;> simp_all

/-- A segment without data that is queued takes one sequence number. -/
theorem queueEntry_control (env : Env) (seq : U32) {flg : U8}
    (hflg : flagIsset flg (flgSyn ||| flgFin) = true) :
    (queueEntry env seq flg []).consume = 1 := by
  simp [TcpQueueEntry.consume, queueEntry, hflg]

theorem syn_octets (env : Env) (seq : U32) :
    (queueEntry env seq flgSyn []).octets = [.syn] ∧
      (queueEntry env seq flgSyn []).consume = 1 := by
  refine ⟨?_, queueEntry_control env seq (by decide)⟩
  simp [TcpQueueEntry.octets, queueEntry, show flagIsset flgSyn flgSyn = true by decide,
    show flagIsset flgSyn flgFin = false by decide]

theorem synAck_octets (env : Env) (seq : U32) :
    (queueEntry env seq (flgSyn ||| flgAck) []).octets = [.syn] ∧
      (queueEntry env seq (flgSyn ||| flgAck) []).consume = 1 := by
  refine ⟨?_, queueEntry_control env seq (by decide)⟩
  simp [TcpQueueEntry.octets, queueEntry,
    show flagIsset (flgSyn ||| flgAck) flgSyn = true by decide,
    show flagIsset (flgSyn ||| flgAck) flgFin = false by decide]

theorem fin_octets (env : Env) (seq : U32) :
    (queueEntry env seq (flgAck ||| flgFin) []).octets = [.fin] ∧
      (queueEntry env seq (flgAck ||| flgFin) []).consume = 1 := by
  refine ⟨?_, queueEntry_control env seq (by decide)⟩
  simp [TcpQueueEntry.octets, queueEntry,
    show flagIsset (flgAck ||| flgFin) flgSyn = false by decide,
    show flagIsset (flgAck ||| flgFin) flgFin = true by decide]

theorem data_octets (env : Env) (seq : U32) (data : List U8) :
    (queueEntry env seq (flgAck ||| flgPsh) data).octets = data.map .byte ∧
      (queueEntry env seq (flgAck ||| flgPsh) data).consume = BitVec.ofNat 32 data.length := by
  simp [TcpQueueEntry.octets, TcpQueueEntry.consume, queueEntry,
    show flagIsset (flgAck ||| flgPsh) flgSyn = false by decide,
    show flagIsset (flgAck ||| flgPsh) flgFin = false by decide,
    show flagIsset (flgAck ||| flgPsh) (flgSyn ||| flgFin) = false by decide]

theorem SendInv.birth {task : TaskId} {es : List Effect} {reply : Reply}
    (h : Birth env tcp d task ev es reply p) : ∃ a, SendInv p a := by
  cases h with
  | socket => exact ⟨0, .of_nothing rfl rfl rfl rfl⟩
  | listen l r => exact ⟨0, .of_nothing rfl rfl rfl rfl⟩
  | syn l l' r _ _ =>
      rw [sendSyn_eq]
      obtain ⟨hoctets, hconsume⟩ := syn_octets env env.random32
      exact ⟨0, .begin [] (by simp) hoctets hconsume rfl rfl rfl rfl⟩
  | child s l p child _ _ _ _ _ _ _ _ hchild =>
      rw [passiveOpen_eq, hchild]
      obtain ⟨hoctets, hconsume⟩ := synAck_octets env env.random32
      exact ⟨0, .begin [] (by simp) hoctets hconsume rfl rfl rfl rfl⟩

/-- A SYN received in SYN_SENT. -/
theorem SendInv.synSent {seg : SegInfo} {acceptable : Bool} (h : SendInv p a)
    (hstate : p.state = .synSent)
    (hack : acceptable = true → p.iss < seg.ack ∧ p.snd.una ≤ seg.ack ∧ seg.ack ≤ p.snd.nxt) :
    ∃ a', SendInv (synInSynSent env p seg acceptable).1 a' := by
  have hactive : p.state.isActive = true := by simp [hstate, TcpState.isActive]
  have hsend : p.state.canSend = true := by simp [hstate, TcpState.canSend]
  obtain ⟨q, hq, hcases⟩ := synInSynSent_cases env p seg acceptable
  obtain ⟨snd, queue, heq, hside⟩ := takeSyn_eq p seg acceptable
  subst hq
  rw [heq] at hcases
  rcases hside with ⟨-, rfl, rfl⟩ | ⟨hacc, rfl, rfl⟩
  · rcases hcases with ⟨-, hcase⟩ | ⟨-, hcase⟩
    · rw [hcase]
      exact ⟨a, h.congr rfl rfl rfl ⟨[], by simp⟩ (fun _ ↦ ⟨hactive, rfl⟩) fun _ ↦ hsend⟩
    · rw [hcase]
      refine ⟨a, h.congr rfl rfl rfl ⟨_, rfl, ?_⟩ (fun _ ↦ ⟨hactive, rfl⟩) fun _ ↦ hsend⟩
      intro e he
      rw [List.mem_singleton.mp he, (synAck_octets env _).1, (synAck_octets env _).2]
      rfl
  · obtain ⟨hlt, hle, hge⟩ := hack hacc
    rcases hcases with ⟨-, hcase⟩ | ⟨hno, -⟩
    · rw [hcase]
      exact h.ack hactive hle hge rfl rfl rfl rfl rfl fun _ ↦ hsend
    · exact absurd hlt hno

/-- What `send` queues fits the window. -/
theorem length_le_of_sendCap {data : List U8} {sent n : Nat}
    (hn : n = min (min p.mss.toNat (data.length - sent)) (sendCap p)) (hcap : sendCap p ≠ 0) :
    (p.snd.nxt - p.snd.una).toNat + ((data.drop sent).take n).length ≤ p.snd.wnd.toNat := by
  have hlen : ((data.drop sent).take n).length ≤ n := List.length_take_le _ _
  have hle : n ≤ sendCap p := hn ▸ Nat.min_le_right _ _
  unfold sendCap at hle hcap
  omega

theorem SendInv.block {es : List Effect} {reply : Reply} (h : SendInv p a)
    (hblock : BlockStep env tcp d ev p es reply p') : ∃ a', SendInv p' a' := by
  have hsame : ∃ new : List TcpQueueEntry, p.queue = p.queue ++ new ∧
      ∀ e ∈ new, e.consume = BitVec.ofNat 32 e.octets.length := ⟨[], by simp⟩
  cases hblock with
  | mss m => exact ⟨a, h.congr rfl rfl rfl hsame (⟨·, rfl⟩) id⟩
  | bind l _ => exact ⟨a, h.congr rfl rfl rfl hsame (⟨·, rfl⟩) id⟩
  | take len n wnd _ _ _ _ => exact ⟨a, h.congr rfl rfl rfl hsame (⟨·, rfl⟩) id⟩
  | listen n _ => exact ⟨a, h.of_inactive rfl rfl rfl hsame⟩
  | connectFails _ => exact ⟨a, h.of_inactive rfl rfl rfl hsame⟩
  | interrupted => exact ⟨a, h.of_inactive rfl rfl rfl hsame⟩
  | syn l r _ _ =>
      rw [sendSyn_eq]
      obtain ⟨hoctets, hconsume⟩ := syn_octets env env.random32
      exact ⟨0, .begin p.queue h.entries hoctets hconsume rfl rfl rfl rfl⟩
  | synFails l r _ _ =>
      rw [sendSyn_eq]
      refine ⟨a, h.of_inactive rfl rfl rfl ⟨_, rfl, ?_⟩⟩
      intro e he
      rw [List.mem_singleton.mp he, (syn_octets env _).1, (syn_octets env _).2]
      rfl
  | passive s _ _ _ _ _ _ =>
      rw [passiveOpen_eq]
      obtain ⟨hoctets, hconsume⟩ := synAck_octets env env.random32
      exact ⟨0, .begin p.queue h.entries hoctets hconsume rfl rfl rfl rfl⟩
  | synSent s acceptable _ hstate _ _ hack => exact h.synSent hstate fun hacc ↦ (hack hacc).2
  | fin state hstate =>
      have hactive : p.state.isActive = true ∧ p.state.canSend = true := by
        rcases hstate with ⟨hs | hs, -⟩ | ⟨hs, -⟩ <;>
          simp [hs, TcpState.isActive, TcpState.canSend]
      have hsend : state.canSend = false := by
        rcases hstate with ⟨-, rfl⟩ | ⟨-, rfl⟩ <;> rfl
      have hroom := h.room hactive.2
      have hle := h.le
      rw [sendFin_eq]
      obtain ⟨hoctets, hconsume⟩ := fin_octets env p.snd.nxt
      refine ⟨a, h.send [.fin] hactive.1 rfl rfl rfl rfl rfl hoctets hconsume rfl ?_ ?_⟩
      · rw [List.length_singleton]
        omega
      · exact fun h' ↦ absurd h' (by simp [hsend])
  | data data sent n hstate _ hn hcap =>
      have hactive : p.state.isActive = true := by
        rcases hstate with hs | hs <;> simp [hs, TcpState.isActive]
      have hfit := length_le_of_sendCap hn hcap
      have hwnd := p.snd.wnd.isLt
      rw [h.inFlight] at hfit
      have hle := h.le
      rw [sendData_eq]
      generalize hnew : (data.drop sent).take n = new at hfit ⊢
      obtain ⟨hoctets, hconsume⟩ := data_octets env p.snd.nxt new
      refine ⟨a, h.send (new.map .byte) hactive rfl rfl (by simp) rfl rfl hoctets
        (by simpa using hconsume) (by simp) ?_ fun _ ↦ ?_⟩
      · rw [List.length_map]
        omega
      · rw [List.length_map]
        omega

/-- A segment does not reopen the send side. -/
theorem Arrived.canSend {s : TcpSegment} (h : Arrived p s p') (hcan : p'.state.canSend = true) :
    p.state.canSend = true := by
  rcases h.after with heq | ⟨-, heq⟩
  · rw [heq] at hcan
    exact TcpState.canSend_of_afterAck hcan
  · rw [heq] at hcan
    exact TcpState.canSend_of_afterAck (TcpState.canSend_of_afterFin hcan)

/-- The states after a segment belong to a connection only before. -/
theorem SendInv.arrived {s : TcpSegment} (h : SendInv p a)
    (hstate : p.state ≠ .closed ∧ p.state ≠ .listen ∧ p.state ≠ .synSent)
    (harrived : Arrived p s p') : ∃ a', SendInv p' a' := by
  have hactive := TcpState.isActive_of_ne hstate.1 hstate.2.1
  have hroom := harrived.canSend
  obtain ⟨hsnd, hiss, hsent⟩ := harrived.send
  rcases hsnd with ⟨hsnd, hqueue⟩ | ⟨hnew, hnxt, huna, hqueue⟩
  · refine ⟨a, h.congr hsent (by rw [hsnd]) (by rw [hsnd]) ⟨[], by simp [hqueue]⟩
      (fun _ ↦ ⟨hactive, hiss⟩) hroom⟩
  · exact h.ack hactive (BitVec.le_of_lt hnew.2.1) hnew.2.2 hsent hiss hnxt huna hqueue hroom

theorem SendInv.evolve {reply : Reply} (h : SendInv p a)
    (hevolve : Evolve env tcp d reply ev p p') :
    ∃ a', SendInv p' a' := by
  cases hevolve with
  | keep backlog mss accepted _ =>
      exact ⟨a, h.congr rfl rfl rfl ⟨[], by simp⟩ (⟨·, rfl⟩) id⟩
  | block hblock => exact h.block hblock
  | arrived s _ hreach harrived => exact h.arrived hreach.state harrived
  | tick =>
      rcases retransEmit_cases env p with heq | ⟨f, hf, heq⟩
      · rw [heq]
        exact ⟨a, h.of_inactive rfl rfl rfl ⟨[], by simp⟩⟩
      · rw [heq]
        refine ⟨a, h.le, h.una, h.bound, fun i hai hi ↦ (h.covered i hai hi).map hf, ?_, h.active,
          h.room⟩
        intro e he
        obtain ⟨e', he', rfl⟩ := List.mem_map.mp he
        obtain ⟨hseq, hflg, hdata⟩ := hf e'
        rw [TcpQueueEntry.consume, TcpQueueEntry.octets, hflg, hdata]
        exact h.entries e' he'

end

theorem ReachableWhen.sendInv {G : Env → Tcp → Event → Prop} {tcp : Tcp} (h : ReachableWhen G tcp)
    {d : TcpDesc} {p : TcpPcb} (hp : tcp.get d = some p) : ∃ a, SendInv p a :=
  h.blocks SendInv.birth (fun _ _ ⟨_, hinv⟩ hevolve ↦ hinv.evolve hevolve) hp

/-! ## Retention -/

/-- What the sequence number `s` was used for: the position of the log that is as
far before its end as `s` is before `snd.nxt`. -/
def sentAt (p : TcpPcb) (s : U32) : Option Octet :=
  p.hist.sent[p.hist.sent.length - (p.snd.nxt - s).toNat]?

/-- **The sender retains what is not acknowledged**: in every reachable state,
whatever has arrived, each sequence number from `snd.una` up to `snd.nxt` is that
of an octet, a SYN or a FIN that was sent with it, and an entry of the
retransmission queue still holds it there. -/
theorem queue_retains {tcp : Tcp} (h : Reachable tcp) {d : TcpDesc} {p : TcpPcb}
    (hp : tcp.get d = some p) {s : U32}
    (hs : (s - p.snd.una).toNat < (p.snd.nxt - p.snd.una).toNat) :
    ∃ o, sentAt p s = some o ∧ ∃ e ∈ p.queue, ∃ k, e.octets[k]? = some o ∧
      s = e.seq + BitVec.ofNat 32 k := by
  obtain ⟨a, hinv⟩ := ReachableWhen.sendInv h hp
  have hbound := hinv.bound
  have hle := hinv.le
  rw [hinv.una] at hs
  obtain ⟨i, hai, hi, rfl⟩ := Serial.exists_pos (by omega) hs
  have hindex : p.hist.sent.length - (p.snd.nxt - Serial.pos p.snd.nxt p.hist.sent.length i).toNat =
      i := by
    rw [Serial.toNat_sub_pos _ (by omega)]
    omega
  obtain ⟨e, he, j, hji, hij, ⟨rest, hrest⟩, hseq⟩ := hinv.covered i hai hi
  have hk : i - j < e.octets.length := by omega
  have hlog : p.hist.sent[i]? = e.octets[i - j]? := by
    have hdrop : (p.hist.sent.drop j)[i - j]? = p.hist.sent[i]? := by
      rw [List.getElem?_drop]
      congr 1
      omega
    rw [← hdrop, ← hrest, List.getElem?_append_left hk]
  refine ⟨e.octets[i - j], ?_, e, he, i - j, List.getElem?_eq_getElem hk, ?_⟩
  · rw [sentAt, hindex, hlog]
    exact List.getElem?_eq_getElem hk
  · rw [hseq, Serial.pos_add _ (by omega)]
    congr 1
    omega

/-- A passive open close to the limit of the sequence numbers, and four octets
that pass it and that `ip::output` refuses. -/
def wrappingRun : List (Env × Event) :=
  [(calmEnv, .openCall hostEndp .any false),
    ({ calmEnv with random32 := 0xfffffffd },
      .arrive { src := peerEndp, dst := hostEndp, seq := 500, ack := 0, flg := flgSyn, wnd := 1000,
                data := [] }),
    fromPeer 501 0xfffffffe flgAck [], (routedEnv, .openFinish 0),
    ({ calmEnv with ipOutput := fun _ ↦ false }, .send 0 [1, 2, 3, 4] 0)]

/-- The third octet has sequence number 0. -/
theorem queue_retains_wrapped :
    ∃ tcp p, Reachable tcp ∧ tcp.get 0 = some p ∧ p.snd.una = 0xfffffffe ∧ p.snd.nxt = 2 ∧
      sentAt p 0 = some (.byte 3) ∧ ∃ o, sentAt p 0 = some o ∧ ∃ e ∈ p.queue, ∃ k,
        e.octets[k]? = some o ∧ (0 : U32) = e.seq + BitVec.ofNat 32 k := by
  obtain ⟨tcp, hreach, htest⟩ := exists_reachableWhen (fun _ _ _ ↦ true) (fun _ _ _ _ ↦ trivial)
    (fun tcp ↦ (tcp.get 0).any fun p ↦ p.snd.una = 0xfffffffe && p.snd.nxt = 2 &&
      sentAt p 0 = some (.byte 3)) wrappingRun (by decide +kernel)
  obtain ⟨p, hp, htest⟩ := (Option.any_eq_true _ _).mp htest
  simp only [Bool.and_eq_true, decide_eq_true_eq] at htest
  obtain ⟨⟨huna, hnxt⟩, hsent⟩ := htest
  refine ⟨tcp, p, hreach, hp, huna, hnxt, hsent, queue_retains hreach hp ?_⟩
  rw [huna, hnxt]
  decide

/-! ## Flow control -/

/-- What a round of `send` emits starts at `snd.nxt` and ends in the window. -/
theorem sendCall_emit {env : Env} {tcp : Tcp} {d : TcpDesc} {data : List U8} {sent : Nat}
    {p : TcpPcb} (hp : tcp.get d = some p) {seg : TcpSegment}
    (h : .emit seg ∈ (sendCall env tcp d data sent).effects) :
    seg.seq = p.snd.nxt ∧
      (p.snd.nxt - p.snd.una).toNat + seg.data.length ≤ p.snd.wnd.toNat := by
  rcases sendCall_cases env tcp d data sent with ⟨-, heq⟩ | ⟨q, hq, -, hcases⟩
  · rw [heq] at h
    exact absurd h (by simp)
  · rcases hcases with ⟨-, heq⟩ | ⟨-, -, heq⟩ | ⟨n, -, hn, hcap, heq⟩
    · rw [heq] at h
      exact absurd h (by simp)
    · rw [heq] at h
      exact absurd h (by simp)
    · obtain rfl : p = q := by simpa using hp.symm.trans hq
      rw [heq] at h
      simp only [sendData_eq, List.mem_singleton, Effect.emit.injEq] at h
      subst h
      exact ⟨rfl, length_le_of_sendCap hn hcap⟩

/-- **Flow control**: in every reachable state what is in flight is at most a
window and a FIN, and it is the part of the log that `snd.una` has not passed; in
a connection `snd.una` counts up from the initial sequence number without
wrapping.  What `send` emits ends in the window. -/
theorem inFlight_bounded {tcp : Tcp} (h : Reachable tcp) {d : TcpDesc} {p : TcpPcb}
    (hp : tcp.get d = some p) :
    (p.snd.nxt - p.snd.una).toNat ≤ 65536 ∧
      (∃ acked, acked + (p.snd.nxt - p.snd.una).toNat = p.hist.sent.length ∧
        (p.state.isActive = true → p.snd.una.toNat = p.iss.toNat + acked ∧
          p.snd.nxt = p.iss + BitVec.ofNat 32 p.hist.sent.length)) ∧
      ∀ env data sent out seg, step env tcp (.send d data sent) = .ok out →
        .emit seg ∈ out.effects →
        (seg.seq + BitVec.ofNat 32 seg.data.length - p.snd.una).toNat ≤ p.snd.wnd.toNat := by
  obtain ⟨a, hinv⟩ := ReachableWhen.sendInv h hp
  have hle := hinv.le
  refine ⟨?_, ⟨a, ?_, ?_⟩, ?_⟩
  · rw [hinv.inFlight]
    exact hinv.bound
  · rw [hinv.inFlight]
    omega
  · intro hactive
    exact ⟨(hinv.active hactive).2, (hinv.active hactive).1⟩
  · intro env data sent out seg hout hseg
    cases hout
    obtain ⟨hseq, hfit⟩ := sendCall_emit hp hseg
    have hwnd := p.snd.wnd.isLt
    have hend : seg.seq + BitVec.ofNat 32 seg.data.length - p.snd.una =
        p.snd.nxt - p.snd.una + BitVec.ofNat 32 seg.data.length := by
      rw [hseq]
      abel
    rw [hend, BitVec.toNat_add, BitVec.toNat_ofNat]
    omega

/-- The four octets of `wrappingRun` are in flight. -/
theorem inFlight_bounded_wrapped :
    ∃ tcp p, Reachable tcp ∧ tcp.get 0 = some p ∧ (p.snd.nxt - p.snd.una).toNat = 4 ∧
      (p.snd.nxt - p.snd.una).toNat ≤ 65536 := by
  obtain ⟨tcp, hreach, htest⟩ := exists_reachableWhen (fun _ _ _ ↦ true) (fun _ _ _ _ ↦ trivial)
    (fun tcp ↦ (tcp.get 0).any fun p ↦ (p.snd.nxt - p.snd.una).toNat = 4) wrappingRun
    (by decide +kernel)
  obtain ⟨p, hp, htest⟩ := (Option.any_eq_true _ _).mp htest
  exact ⟨tcp, p, hreach, hp, of_decide_eq_true htest, (inFlight_bounded hreach hp).1⟩

end Tcp

end Microps
