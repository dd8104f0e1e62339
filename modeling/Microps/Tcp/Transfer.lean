import Microps.Tcp.Identity
import Microps.Tcp.Send

/-!
# A call of `send`

`send` takes and drops the lock of the table in every round of its loop, and between two
rounds the receive path, the timer and other callers run.  A call is a machine of its own:
its labels are its rounds, the events that come in between, and the signal that interrupts a
wait.  What runs before the first round is over when the call begins, so the table it starts
with is the one that its first round finds.
-/

namespace Microps.Tcp

/-! ## The call -/

/-- Where a call of `send` stands between two critical sections. -/
inductive Phase where
  /-- Before its first round. -/
  | entry
  /-- A round has queued something, and the next one follows. -/
  | between
  /-- A round has taken a snapshot of the task, and `wait_after` waits on it. -/
  | waiting (task : TaskId) (notified : Bool)
  /-- `send` has returned, from an interrupted wait or from a round. -/
  | returned (result : Except Unit Nat) (interrupted : Bool)
deriving Repr

/-- A call of `send`. -/
structure Sending where
  tcp : Tcp
  sent : Nat := 0
  phase : Phase := .entry
  /-- History: what its rounds put into the retransmission queue, in order. -/
  queued : List TcpQueueEntry := []
  /-- History: the tables its rounds found, each with `sent` before the round. -/
  met : List (Tcp × Nat) := []
deriving Repr

/-- What was put at the end of the queue of the block in slot `d`. -/
def added (d : TcpDesc) (tcp tcp' : Tcp) : List TcpQueueEntry :=
  (tcp'.queueOf d).drop (tcp.queueOf d).length

/-- One round of the loop, up to the wait. -/
def Sending.round (env : Env) (d : TcpDesc) (data : List U8) (s : Sending) : Sending :=
  let out := sendCall env s.tcp d data s.sent
  let s := { s with
    tcp := out.tcp
    queued := s.queued ++ added d s.tcp out.tcp
    met := s.met ++ [(s.tcp, s.sent)] }
  match out.reply with
  | .queued n => { s with sent := s.sent + n, phase := .between }
  | .wait task => { s with phase := .waiting task false }
  | .sent n => { s with phase := .returned (.ok n) false }
  | _ => { s with phase := .returned (.error ()) false }

/-- What an event of the others does to a wait. -/
def Phase.hear (es : List Effect) : Phase → Phase
  | .waiting task notified => .waiting task (notified || .notify task ∈ es)
  | phase => phase

/-- What can happen to a call. -/
inductive SendLabel where
  /-- It runs a round. -/
  | round (env : Env)
  /-- Another critical section of `tcp.rs` runs. -/
  | other (env : Env) (ev : Event)
  /-- Its wait is interrupted. -/
  | interrupt

/-- What happens to a call; a label that does not apply does nothing. -/
def Sending.next (d : TcpDesc) (data : List U8) (s : Sending) : SendLabel → Checked Sending
  | .round env => match s.phase with
    | .entry | .between | .waiting _ true => return s.round env d data
    | _ => return s
  | .other env ev => match s.phase with
    | .between | .waiting _ _ => do
        let out ← step env s.tcp ev
        return { s with tcp := out.tcp, phase := s.phase.hear out.effects }
    | _ => return s
  | .interrupt => match s.phase with
    | .waiting _ _ =>
        return { s with
          phase := .returned (if s.sent = 0 then .error () else .ok s.sent) true }
    | _ => return s

/-- The calls of `send(d, data)` that begin with the table `tcp₀`, where the events in between
meet the guard `G`. -/
def SendRun (G : Env → Tcp → Event → Prop) (d : TcpDesc) (data : List U8) (tcp₀ : Tcp) :
    Sending → Prop :=
  Machine.Reach (· = { tcp := tcp₀ }) fun s label s' ↦
    (∀ env ev, label = .other env ev → G env s.tcp ev) ∧ s.next d data label = .ok s'

/-- The octets that entries of the queue hold. -/
def payload (queue : List TcpQueueEntry) : List U8 := queue.flatMap (·.data)

/-- The sequence numbers of the entries follow one another from `seq` on. -/
def Consecutive (seq : U32) : List TcpQueueEntry → Prop
  | [] => True
  | e :: queue => e.seq = seq ∧ Consecutive (seq + BitVec.ofNat 32 e.data.length) queue

theorem consecutive_concat {seq : U32} {queue : List TcpQueueEntry} {e : TcpQueueEntry}
    (h : Consecutive seq queue) (he : e.seq = seq + BitVec.ofNat 32 (payload queue).length) :
    Consecutive seq (queue ++ [e]) := by
  induction queue generalizing seq with
  | nil => exact ⟨by simpa [payload] using he, trivial⟩
  | cons f queue ih =>
      refine ⟨h.1, ih h.2 ?_⟩
      rw [he, payload, List.flatMap_cons, List.length_append, BitVec.ofNat_add, payload]
      ac_rfl

/-! ## One round -/

/-- The block in slot `d` is there, in a state in which `send` goes on. -/
def sendable (tcp : Tcp) (d : TcpDesc) : Bool :=
  (tcp.get d).any fun p ↦ p.state = .established || p.state = .closeWait

theorem sendable_iff {tcp : Tcp} {d : TcpDesc} : sendable tcp d = true ↔
    ∃ p, tcp.get d = some p ∧ (p.state = .established ∨ p.state = .closeWait) := by
  simp [sendable, Option.any_eq_true]

theorem added_self (d : TcpDesc) (tcp : Tcp) : added d tcp tcp = [] :=
  List.drop_length

/-- What a round queues. -/
def chunkEntries (env : Env) (p : TcpPcb) (chunk : List U8) : List TcpQueueEntry :=
  if chunk = [] then [] else [queueEntry env p.snd.nxt (flgAck ||| flgPsh) chunk]

theorem added_sendData {tcp : Tcp} {d : TcpDesc} {p : TcpPcb} (hp : tcp.get d = some p)
    (env : Env) (chunk : List U8) :
    added d tcp (tcp.set d (sendData env p chunk).1) = chunkEntries env p chunk := by
  simp [added, queueOf, get_set hp, hp, sendData_eq, chunkEntries]

/-- The call after a round that leaves the table alone. -/
def Sending.meet (s : Sending) (phase : Phase) : Sending :=
  { s with met := s.met ++ [(s.tcp, s.sent)], phase := phase }

/-- **One round** of the call. -/
theorem Sending.round_cases (env : Env) (d : TcpDesc) (data : List U8) (s : Sending) :
    sendable s.tcp d = false ∧ s.round env d data = s.meet (.returned (.error ()) false) ∨
      ∃ p, s.tcp.get d = some p ∧ (p.state = .established ∨ p.state = .closeWait) ∧
        (data.length ≤ s.sent ∧ s.round env d data = s.meet (.returned (.ok s.sent) false) ∨
        s.round env d data = s.meet (.waiting p.task false) ∨
        ∃ n, s.sent + n ≤ data.length ∧ n ≤ p.mss.toNat ∧
          s.round env d data = { s.meet .between with
            tcp := s.tcp.set d (sendData env p ((data.drop s.sent).take n)).1
            sent := s.sent + n
            queued := s.queued ++ chunkEntries env p ((data.drop s.sent).take n) }) := by
  rcases sendCall_cases env s.tcp d data s.sent with ⟨hnot, heq⟩ | ⟨p, hp, hstate, hcases⟩
  · refine .inl ⟨?_, ?_⟩
    · rw [← Bool.not_eq_true, sendable_iff]
      rintro ⟨p, hp, hstate⟩
      exact hnot p hp hstate
    · simp only [round, heq, added_self, List.append_nil, meet]
  · refine .inr ⟨p, hp, hstate, ?_⟩
    rcases hcases with ⟨hlen, heq⟩ | ⟨-, -, heq⟩ | ⟨n, hlen, hn, -, heq⟩
    · refine .inl ⟨hlen, ?_⟩
      simp only [round, heq, added_self, List.append_nil, meet]
    · refine .inr (.inl ?_)
      simp only [round, heq, added_self, List.append_nil, meet]
    · refine .inr (.inr ⟨n, by omega, by omega, ?_⟩)
      simp only [round, heq, added_sendData hp, meet]

/-- The call has not returned. -/
def Phase.running : Phase → Bool
  | .returned _ _ => false
  | _ => true

/-- What can happen to a call. -/
theorem Sending.next_cases {d : TcpDesc} {data : List U8} {s s' : Sending} {label : SendLabel}
    (h : s.next d data label = .ok s') :
    s' = s ∨ (s.phase.running = true ∧ ∃ env, s' = s.round env d data) ∨
      (s.phase.running = true ∧ s.phase ≠ .entry ∧ ∃ env ev out, label = .other env ev ∧
        step env s.tcp ev = .ok out ∧
        s' = { s with tcp := out.tcp, phase := s.phase.hear out.effects }) ∨
      (s.phase.running = true ∧
        s' = { s with phase := .returned (if s.sent = 0 then .error () else .ok s.sent) true }) := by
  cases label with
  | round env =>
      cases hphase : s.phase with
      | entry | between =>
          simp only [next, hphase] at h
          exact .inr (.inl ⟨rfl, env, (Except.ok.inj h).symm⟩)
      | waiting task notified =>
          cases notified with
          | true =>
              simp only [next, hphase] at h
              exact .inr (.inl ⟨rfl, env, (Except.ok.inj h).symm⟩)
          | false =>
              simp only [next, hphase] at h
              exact .inl (Except.ok.inj h).symm
      | returned result interrupted =>
          simp only [next, hphase] at h
          exact .inl (Except.ok.inj h).symm
  | other env ev =>
      cases hphase : s.phase with
      | between | waiting task notified =>
          simp only [next, hphase] at h
          obtain ⟨out, hout, h⟩ := Machine.exists_of_bind_ok h
          exact .inr (.inr (.inl ⟨rfl, by simp, env, ev, out, rfl, hout, (Except.ok.inj h).symm⟩))
      | entry | returned result interrupted =>
          simp only [next, hphase] at h
          exact .inl (Except.ok.inj h).symm
  | interrupt =>
      cases hphase : s.phase with
      | waiting task notified =>
          simp only [next, hphase] at h
          exact .inr (.inr (.inr ⟨rfl, (Except.ok.inj h).symm⟩))
      | entry | between | returned result interrupted =>
          simp only [next, hphase] at h
          exact .inl (Except.ok.inj h).symm

theorem Phase.hear_running {phase : Phase} (es : List Effect) (h : phase.running = true) :
    (phase.hear es).running = true := by
  cases phase with
  | returned result interrupted => exact h
  | _ => rfl

theorem Phase.running_returned {phase : Phase} (h : phase.running = true)
    (result : Except Unit Nat) (interrupted : Bool) : phase ≠ .returned result interrupted := by
  rintro rfl
  exact absurd h (by simp [running])

/-! ## What a call has done -/

/-- However the others interleave: what a call has queued is the part of the data that it
counts, and it returns that count. -/
structure Progress (data : List U8) (s : Sending) : Prop where
  le : s.sent ≤ data.length
  payload : payload s.queued = data.take s.sent
  nonempty : ∀ e ∈ s.queued, e.data ≠ []
  result : ∀ n interrupted, s.phase = .returned (.ok n) interrupted →
    n = s.sent ∧ (interrupted = false → n = data.length)

section

variable {env : Env} {tcp : Tcp} {d : TcpDesc} {data : List U8} {p p' : TcpPcb} {s s' : Sending}

theorem payload_append (queue queue' : List TcpQueueEntry) :
    Tcp.payload (queue ++ queue') = Tcp.payload queue ++ Tcp.payload queue' :=
  List.flatMap_append

theorem payload_chunkEntries (env : Env) (p : TcpPcb) (chunk : List U8) :
    Tcp.payload (chunkEntries env p chunk) = chunk := by
  unfold chunkEntries
  split
  · next h => rw [h]; rfl
  · simp [Tcp.payload, queueEntry]

theorem mem_chunkEntries {chunk : List U8} {e : TcpQueueEntry} (h : e ∈ chunkEntries env p chunk) :
    e = queueEntry env p.snd.nxt (flgAck ||| flgPsh) chunk ∧ chunk ≠ [] := by
  unfold chunkEntries at h
  split at h
  · exact absurd h (by simp)
  · next hne => exact ⟨List.mem_singleton.mp h, hne⟩

theorem Progress.entry (data : List U8) (tcp : Tcp) : Progress data { tcp := tcp } :=
  ⟨Nat.zero_le _, by simp [Tcp.payload], by simp, by simp⟩

theorem Progress.idle (h : Progress data s) {phase : Phase} (hphase : ∀ n interrupted,
      phase = .returned (.ok n) interrupted → n = s.sent ∧ (interrupted = false → n = data.length))
    (tcp : Tcp) (met : List (Tcp × Nat)) :
    Progress data { s with tcp := tcp, met := met, phase := phase } :=
  ⟨h.le, h.payload, h.nonempty, hphase⟩

theorem Progress.round (h : Progress data s) : Progress data (s.round env d data) := by
  rcases s.round_cases env d data with ⟨-, heq⟩ | ⟨p, -, -, ⟨hlen, heq⟩ | heq | ⟨n, hlen, -, heq⟩⟩
  · rw [heq]
    exact h.idle (by simp) _ _
  · rw [heq]
    refine h.idle ?_ _ _
    intro n interrupted hphase
    simp only [Phase.returned.injEq, Except.ok.injEq] at hphase
    exact ⟨hphase.1.symm, fun _ ↦ hphase.1 ▸ Nat.le_antisymm h.le hlen⟩
  · rw [heq]
    exact h.idle (by simp) _ _
  · rw [heq]
    refine ⟨hlen, ?_, ?_, by simp [Sending.meet]⟩
    · rw [payload_append, payload_chunkEntries, h.payload, ← List.take_add]
    · intro e he
      rcases List.mem_append.mp he with he | he
      · exact h.nonempty e he
      · obtain ⟨rfl, hne⟩ := mem_chunkEntries he
        exact hne

theorem Progress.next {label : SendLabel} (h : Progress data s)
    (hnext : s.next d data label = .ok s') : Progress data s' := by
  rcases Sending.next_cases hnext with rfl | ⟨-, env, rfl⟩ | ⟨hrun, -, env, ev, out, -, -, rfl⟩ |
    ⟨-, rfl⟩
  · exact h
  · exact h.round
  · refine h.idle (fun n interrupted hphase ↦ ?_) _ _
    exact absurd hphase (Phase.running_returned (Phase.hear_running _ hrun) _ _)
  · refine h.idle (fun n interrupted hphase ↦ ?_) _ _
    simp only [Phase.returned.injEq] at hphase
    obtain ⟨hresult, rfl⟩ := hphase
    split at hresult
    · exact absurd hresult (by simp)
    · exact ⟨(Except.ok.inj hresult).symm, by simp⟩

theorem SendRun.progress {G : Env → Tcp → Event → Prop} {tcp₀ : Tcp}
    (h : SendRun G d data tcp₀ s) : Progress data s := by
  refine Machine.Reach.invariant (Progress data) ?_ (fun _ _ _ hs hnext ↦ hs.next hnext.2) h
  rintro _ rfl
  exact .entry data tcp₀

/-- A call has queued something just when it counts something. -/
theorem Progress.queued_eq_nil (h : Progress data s) : s.queued = [] ↔ s.sent = 0 := by
  have hlen : (Tcp.payload s.queued).length = s.sent := by
    rw [h.payload, List.length_take, Nat.min_eq_left h.le]
  constructor
  · intro hnil
    rw [hnil] at hlen
    exact hlen.symm
  · intro hzero
    cases hqueue : s.queued with
    | nil => rfl
    | cons e queue =>
        have he := h.nonempty e (by simp [hqueue])
        rw [hqueue, hzero, Tcp.payload, List.flatMap_cons, List.length_append] at hlen
        exact absurd (List.eq_nil_of_length_eq_zero (by omega)) he

end

/-! ## Calls that nobody meddles with -/

/-- The calls on the descriptor `d`, but for `receive`. -/
def Event.meddles (d : TcpDesc) : Event → Bool
  | .openPoll d' | .openInterrupted d' | .openFinish d' | .connectCall d' _ | .connectPoll d'
  | .connectInterrupted d' | .close d' | .send d' _ _ | .bind d' _ | .listen d' _ | .accept d' =>
      d' = d
  | _ => false

/-- `accept` hands the descriptor `d` out. -/
def Reply.hands (d : TcpDesc) : Reply → Bool
  | .conn d' _ => d' = d
  | _ => false

/-- The event is a segment, the timer, a `receive`, or a call on another descriptor, and the
block in slot `d` is not released by it. -/
def spares (d : TcpDesc) (env : Env) (tcp : Tcp) (ev : Event) : Bool :=
  !ev.meddles d && match step env tcp ev with
    | .ok out => (out.tcp.get d).isSome && !out.reply.hands d
    | .error _ => true

/-- What such an event leaves alone: the segment size, and `snd.nxt` past LISTEN. -/
structure Spared (p p' : TcpPcb) : Prop where
  mss : p'.mss = p.mss
  listen : p.state ≠ .listen → p'.state ≠ .listen
  nxt : p.state ≠ .listen → p'.snd.nxt = p.snd.nxt

section

variable {env : Env} {tcp : Tcp} {d : TcpDesc} {data : List U8} {p p' p₀ : TcpPcb} {s s' : Sending}
  {ev : Event} {out : Outcome}

theorem Spared.refl (p : TcpPcb) : Spared p p := ⟨rfl, id, fun _ ↦ rfl⟩

theorem Spared.backlog (p : TcpPcb) (backlog : List TcpDesc) :
    Spared p { p with backlog := backlog } := ⟨rfl, id, fun _ ↦ rfl⟩

theorem Spared.arrived {seg : TcpSegment} (hreach : ReachesAck p seg) (h : Arrived p seg p') :
    Spared p p' := by
  refine ⟨?_, fun _ ↦ (h.state hreach.state).2.1, fun _ ↦ ?_⟩
  · obtain ⟨snd, queue, tw, backlog, -, hcases⟩ := h.eq
    rcases hcases with ⟨-, -, rfl⟩ | ⟨-, -, -, rfl⟩ | ⟨-, -, rfl⟩ | ⟨-, -, -, rfl⟩ <;> rfl
  · rcases h.send.1 with ⟨hsnd, -⟩ | ⟨-, hnxt, -⟩
    · rw [hsnd]
    · exact hnxt

theorem Spared.tick (env : Env) (p : TcpPcb) : Spared p (retransEmit env p).1 := by
  rcases retransEmit_cases env p with heq | ⟨f, -, heq⟩
  · rw [heq]
    exact ⟨rfl, fun _ ↦ by simp, fun _ ↦ rfl⟩
  · rw [heq]
    exact ⟨rfl, id, fun _ ↦ rfl⟩

theorem Spared.block {es : List Effect} {reply : Reply} (hev : ev.meddles d = false)
    (h : BlockStep env tcp d ev p es reply p') : Spared p p' := by
  cases h with
  | mss m | bind l _ | listen n _ | connectFails _ | interrupted | syn l r _ _ | synFails l r _ _
  | fin state _ | data data sent n _ _ _ _ => exact absurd hev (by simp [Event.meddles])
  | take len n wnd _ _ _ _ => exact ⟨rfl, id, fun _ ↦ rfl⟩
  | passive seg _ hstate _ _ _ _ =>
      rw [passiveOpen_eq]
      exact ⟨rfl, fun h ↦ absurd hstate h, fun h ↦ absurd hstate h⟩
  | synSent seg acceptable _ hstate _ _ _ =>
      obtain ⟨q, hq, hcases⟩ := synInSynSent_cases env p seg.info acceptable
      obtain ⟨snd, queue, heq, hside⟩ := takeSyn_eq p seg.info acceptable
      have hnxt : snd.nxt = p.snd.nxt := by
        rcases hside with ⟨-, rfl, -⟩ | ⟨-, rfl, -⟩ <;> rfl
      subst hq
      rw [heq] at hcases
      rcases hcases with ⟨-, hcase⟩ | ⟨-, hcase⟩
      · rw [hcase]
        exact ⟨rfl, fun _ ↦ by simp, fun _ ↦ hnxt⟩
      · rw [hcase]
        exact ⟨rfl, fun _ ↦ by simp, fun _ ↦ hnxt⟩

/-- A block that is there before and after such an event. -/
theorem Stays.spared {reply : Reply} (h : Stays env tcp d reply ev p p')
    (hev : ev.meddles d = false) (hreply : reply.hands d = false) : Spared p p' := by
  cases h with
  | same => exact .refl p
  | block hblock => exact .block hev hblock
  | arrived seg _ hreach harrived => exact .arrived hreach harrived
  | joins seg c _ _ _ _ _ _ => exact .backlog p _
  | pops _ => exact absurd hev (by simp [Event.meddles])
  | handed l m backlog _ heq => exact absurd hreply (by simp [heq, Reply.hands])
  | tick => exact .tick env p

/-- Such an event, seen from the slot. -/
theorem spared_of_spares (hspares : spares d env tcp ev = true) (hout : step env tcp ev = .ok out)
    (hp : tcp.get d = some p) : ∃ p', out.tcp.get d = some p' ∧ Spared p p' := by
  simp only [spares, hout, Bool.and_eq_true, Bool.not_eq_true'] at hspares
  obtain ⟨hev, hsome, hreply⟩ := hspares
  obtain ⟨p', hp'⟩ := Option.isSome_iff_exists.mp hsome
  exact ⟨p', hp', ((step_move hout).stays hp hp').spared hev hreply⟩

/-- What a call queues is numbered from the `snd.nxt` that its first round finds. -/
structure Numbered (d : TcpDesc) (p₀ : TcpPcb) (s : Sending) : Prop where
  chunks : ∀ e ∈ s.queued, e.data.length ≤ p₀.mss.toNat
  consecutive : Consecutive p₀.snd.nxt s.queued
  block : s.phase.running = true → ∃ p, s.tcp.get d = some p ∧ p.mss = p₀.mss ∧
    p.snd.nxt = p₀.snd.nxt + BitVec.ofNat 32 s.sent ∧ (s.phase = .entry ∨ p.state ≠ .listen)

theorem Consecutive.chunk {seq : U32} {queue : List TcpQueueEntry} (h : Consecutive seq queue)
    (chunk : List U8) (hnxt : p.snd.nxt = seq + BitVec.ofNat 32 (Tcp.payload queue).length) :
    Consecutive seq (queue ++ chunkEntries env p chunk) := by
  unfold chunkEntries
  split
  · rw [List.append_nil]
    exact h
  · exact consecutive_concat h hnxt

theorem Numbered.round (h : Numbered d p₀ s) (hprogress : Progress data s)
    (hrun : s.phase.running = true) : Numbered d p₀ (s.round env d data) := by
  obtain ⟨p, hp, hmss, hnxt, -⟩ := h.block hrun
  rcases s.round_cases env d data with ⟨-, heq⟩ | ⟨q, hq, hstate, hcases⟩
  · rw [heq]
    exact ⟨h.chunks, h.consecutive, by simp [Sending.meet, Phase.running]⟩
  obtain rfl : p = q := by simpa using hp.symm.trans hq
  have hpast : p.state ≠ .listen := by
    rcases hstate with hs | hs <;> simp [hs]
  rcases hcases with ⟨-, heq⟩ | heq | ⟨n, hlen, hn, heq⟩
  · rw [heq]
    exact ⟨h.chunks, h.consecutive, by simp [Sending.meet, Phase.running]⟩
  · rw [heq]
    exact ⟨h.chunks, h.consecutive, fun _ ↦ ⟨p, hp, hmss, hnxt, .inr hpast⟩⟩
  · rw [heq]
    refine ⟨?_, ?_, fun _ ↦ ⟨_, by rw [get_set hp, if_pos rfl], ?_⟩⟩
    · intro e he
      rcases List.mem_append.mp he with he | he
      · exact h.chunks e he
      · obtain ⟨rfl, -⟩ := mem_chunkEntries he
        exact (List.length_take_le _ _).trans (hmss ▸ hn)
    · refine h.consecutive.chunk _ ?_
      rw [hprogress.payload, List.length_take, Nat.min_eq_left hprogress.le, hnxt]
    · have hchunk : ((data.drop s.sent).take n).length = n := by
        rw [List.length_take, List.length_drop]
        omega
      rw [sendData_eq]
      refine ⟨hmss, ?_, .inr hpast⟩
      rw [hchunk, hnxt, BitVec.ofNat_add, BitVec.add_assoc]

theorem Numbered.next {label : SendLabel} (h : Numbered d p₀ s) (hprogress : Progress data s)
    (hspares : ∀ env ev, label = .other env ev → spares d env s.tcp ev = true)
    (hnext : s.next d data label = .ok s') : Numbered d p₀ s' := by
  rcases Sending.next_cases hnext with rfl | ⟨hrun, env, rfl⟩ |
    ⟨hrun, hbegun, env, ev, out, rfl, hout, rfl⟩ | ⟨-, rfl⟩
  · exact h
  · exact h.round hprogress hrun
  · obtain ⟨p, hp, hmss, hnxt, hpast⟩ := h.block hrun
    have hpast := hpast.resolve_left hbegun
    obtain ⟨p', hp', hspared⟩ := spared_of_spares (hspares env ev rfl) hout hp
    refine ⟨h.chunks, h.consecutive, fun _ ↦ ⟨p', hp', ?_, ?_, .inr (hspared.listen hpast)⟩⟩
    · exact hspared.mss.trans hmss
    · exact (hspared.nxt hpast).trans hnxt
  · exact ⟨h.chunks, h.consecutive, by simp [Phase.running]⟩

theorem SendRun.numbered {tcp₀ : Tcp} (hp : tcp₀.get d = some p₀)
    (h : SendRun (fun env tcp ev ↦ spares d env tcp ev = true) d data tcp₀ s) :
    Numbered d p₀ s := by
  suffices hboth : Progress data s ∧ Numbered d p₀ s from hboth.2
  refine Machine.Reach.invariant (fun s ↦ Progress data s ∧ Numbered d p₀ s) ?_ ?_ h
  · rintro _ rfl
    exact ⟨.entry data tcp₀, by simp, trivial, fun _ ↦ ⟨p₀, hp, rfl, by simp, .inl rfl⟩⟩
  · rintro s label s' ⟨hprogress, hnumbered⟩ ⟨hspares, hnext⟩
    exact ⟨hprogress.next hnext, hnumbered.next hprogress hspares hnext⟩

end

/-- **`send` transmits what it reports**: whatever arrives, ticks or is received between the
critical sections of a call, and whatever runs on other descriptors, if the call returns
`Ok(n)`, then the segments it has queued are not empty, none is longer than the segment size,
their sequence numbers follow one another from the `snd.nxt` that the call has found, and
together they hold the first `n` octets of the data: all of them, unless the wait was
interrupted. -/
theorem send_transmits_reported {tcp₀ : Tcp} {d : TcpDesc} {p₀ : TcpPcb}
    (hp : tcp₀.get d = some p₀) {data : List U8} {s : Sending}
    (h : SendRun (fun env tcp ev ↦ spares d env tcp ev = true) d data tcp₀ s) {n : Nat}
    {interrupted : Bool} (hreturned : s.phase = .returned (.ok n) interrupted) :
    (∀ e ∈ s.queued, e.data ≠ [] ∧ e.data.length ≤ p₀.mss.toNat) ∧
      Consecutive p₀.snd.nxt s.queued ∧ payload s.queued = data.take n ∧ n ≤ data.length ∧
      (interrupted = false → n = data.length) := by
  have hprogress := SendRun.progress h
  have hnumbered := SendRun.numbered hp h
  obtain ⟨rfl, hall⟩ := hprogress.result n interrupted hreturned
  refine ⟨fun e he ↦ ⟨hprogress.nonempty e he, hnumbered.chunks e he⟩, hnumbered.consecutive,
    hprogress.payload, hprogress.le, hall⟩

/-- One label of a call that stops where the test `g` fails. -/
def Sending.nextWhen (g : Env → Tcp → Event → Bool) (d : TcpDesc) (data : List U8) (s : Sending) :
    SendLabel → Checked Sending
  | .other env ev => if g env s.tcp ev then s.next d data (.other env ev) else .error .unwrap
  | label => s.next d data label

/-- A fixed call that ends well is a run of the machine. -/
theorem exists_sendRun {G : Env → Tcp → Event → Prop} (g : Env → Tcp → Event → Bool)
    (hg : ∀ env tcp ev, g env tcp ev = true → G env tcp ev) {P : Sending → Bool} {d : TcpDesc}
    {data : List U8} {tcp₀ : Tcp} {labels : List SendLabel}
    (h : Machine.execTest (Sending.nextWhen g d data) P { tcp := tcp₀ } labels = true) :
    ∃ s, SendRun G d data tcp₀ s ∧ P s = true := by
  refine Machine.exists_reach_of_execTest ?_ rfl h
  intro s label s' hnext
  cases label with
  | round env => exact ⟨by simp, hnext⟩
  | interrupt => exact ⟨by simp, hnext⟩
  | other env ev =>
      simp only [Sending.nextWhen] at hnext
      split at hnext
      · next hok =>
        refine ⟨?_, hnext⟩
        rintro _ _ ⟨rfl, rfl⟩
        exact hg env s.tcp ev hok
      · exact absurd hnext (by simp)

/-- A passive open by a peer that offers a window of two octets. -/
def smallWindow : List (Env × Event) :=
  [(calmEnv, .openCall hostEndp .any false), fromPeer 500 0 flgSyn [],
    (calmEnv, .arrive { src := peerEndp, dst := hostEndp, seq := 501, ack := 101, flg := flgAck,
                        wnd := 2, data := [] }),
    (routedEnv, .openFinish 0)]

/-- Whether the call has returned `Ok(n)`. -/
def Sending.returnsOk (n : Nat) (interrupted : Bool) (s : Sending) : Bool :=
  match s.phase with
  | .returned (.ok m) i => m = n && i = interrupted
  | _ => false

theorem Sending.phase_of_returnsOk {n : Nat} {interrupted : Bool} {s : Sending}
    (h : s.returnsOk n interrupted = true) : s.phase = .returned (.ok n) interrupted := by
  unfold returnsOk at h
  split at h
  · next m i hphase =>
    rw [Bool.and_eq_true, decide_eq_true_eq, decide_eq_true_eq] at h
    rw [hphase, h.1, h.2]
  · exact absurd h (by simp)

/-- Three octets go out in two segments: the call waits until the peer takes the first two
octets and sends one of its own. -/
theorem send_transmits_reported_waiting :
    ∃ (tcp₀ : Tcp) (p₀ : TcpPcb) (s : Sending), Reachable tcp₀ ∧ tcp₀.get 0 = some p₀ ∧
      s.phase = .returned (.ok 3) false ∧ s.queued.map (·.data) = [[1, 2], [3]] ∧
      Consecutive p₀.snd.nxt s.queued ∧ payload s.queued = [1, 2, 3] := by
  obtain ⟨tcp₀, hreach, htest⟩ := exists_reachableWhen (fun _ _ _ ↦ true) (fun _ _ _ _ ↦ trivial)
    (fun tcp ↦ (tcp.get 0).isSome && Machine.execTest (Sending.nextWhen (spares 0) 0 [1, 2, 3])
      (fun s ↦ s.returnsOk 3 false && s.queued.map (·.data) = [[1, 2], [3]]) { tcp := tcp }
      [.round calmEnv, .other calmEnv .timer, .round calmEnv,
        .other calmEnv (fromPeer 501 103 flgAck [7]).2, .other calmEnv (.receive 0 10),
        .round calmEnv, .round calmEnv])
    smallWindow (by decide +kernel)
  rw [Bool.and_eq_true] at htest
  obtain ⟨p₀, hp⟩ := Option.isSome_iff_exists.mp htest.1
  obtain ⟨s, hrun, htest⟩ := exists_sendRun (spares 0) (fun _ _ _ ↦ id) htest.2
  rw [Bool.and_eq_true, decide_eq_true_eq] at htest
  have hphase := Sending.phase_of_returnsOk htest.1
  obtain ⟨-, hnumbers, hpayload, -⟩ := send_transmits_reported hp hrun hphase
  exact ⟨tcp₀, p₀, s, hreach, hp, hphase, htest.2, hnumbers, hpayload⟩

end Microps.Tcp
