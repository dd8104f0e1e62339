import Microps.Tcp.User

/-!
# What sending does to a block

Equations for the places that call `output` on a SYN, a FIN or data: the block
they leave and the segment they send.  A SYN, a FIN and data are queued for
retransmission with the sequence number they are sent with.
-/

namespace Microps.Tcp

/-- The segments that a step has sent. -/
def emitted (es : List Effect) : List TcpSegment :=
  es.filterMap fun e ↦ match e with
    | .emit seg => some seg
    | .notify _ => none

theorem mem_emitted {es : List Effect} {seg : TcpSegment} :
    seg ∈ emitted es ↔ .emit seg ∈ es := by
  simp only [emitted, List.mem_filterMap]
  constructor
  · rintro ⟨e, he, heq⟩
    cases e with
    | emit seg' =>
        obtain rfl : seg' = seg := by simpa using heq
        exact he
    | notify t => exact absurd heq (by simp)
  · exact fun h ↦ ⟨_, h, rfl⟩

@[simp] theorem emitted_append (es es' : List Effect) :
    emitted (es ++ es') = emitted es ++ emitted es' :=
  List.filterMap_append

/-- The queue in a slot. -/
def queueOf (tcp : Tcp) (d : TcpDesc) : List TcpQueueEntry :=
  ((tcp.get d).map (·.queue)).getD []

/-- The entry `retrans_queue_add` makes. -/
def queueEntry (env : Env) (seq : U32) (flg : U8) (data : List U8) : TcpQueueEntry :=
  { first := env.now, last := env.now, rto := defaultRto, seq := seq, flg := flg, data := data }

/-- The segment an entry of the queue is sent as. -/
def entrySegment (p : TcpPcb) (e : TcpQueueEntry) : TcpSegment :=
  outputSegment e.seq p.rcv.nxt e.flg p.rcv.wnd e.data p.localEndp p.remoteEndp

/-- A SYN goes out with the initial sequence number and is queued. -/
theorem output_syn (env : Env) (p : TcpPcb) {flg : U8} (hflg : flagIsset flg flgSyn = true)
    (hflg' : flagIsset flg (flgSyn ||| flgFin) = true) :
    output env p flg [] = ({ p with queue := p.queue ++ [queueEntry env p.iss flg []] },
      entrySegment p (queueEntry env p.iss flg [])) := by
  simp only [output, hflg, hflg', Bool.true_or, if_true]
  rfl

/-- Anything else goes out at `snd.nxt`; a FIN is queued. -/
theorem output_fin (env : Env) (p : TcpPcb) :
    output env p (flgAck ||| flgFin) [] =
      ({ p with queue := p.queue ++ [queueEntry env p.snd.nxt (flgAck ||| flgFin) []] },
        entrySegment p (queueEntry env p.snd.nxt (flgAck ||| flgFin) [])) := by
  simp only [output, show flagIsset (flgAck ||| flgFin) flgSyn = false by decide,
    show flagIsset (flgAck ||| flgFin) (flgSyn ||| flgFin) = true by decide, Bool.true_or, if_true]
  rfl

/-- Data is queued unless it is empty. -/
theorem output_data (env : Env) (p : TcpPcb) (data : List U8) :
    output env p (flgAck ||| flgPsh) data =
      ({ p with queue := p.queue ++
          if data = [] then [] else [queueEntry env p.snd.nxt (flgAck ||| flgPsh) data] },
        entrySegment p (queueEntry env p.snd.nxt (flgAck ||| flgPsh) data)) := by
  simp only [output, show flagIsset (flgAck ||| flgPsh) flgSyn = false by decide,
    show flagIsset (flgAck ||| flgPsh) (flgSyn ||| flgFin) = false by decide, Bool.false_or]
  cases data with
  | nil =>
      simp only [List.isEmpty_nil, if_true, List.append_nil]
      rfl
  | cons b data =>
      simp only [List.isEmpty_cons, reduceCtorEq, if_false]
      rfl

theorem sendSyn_eq (env : Env) (p : TcpPcb) (l r : IpEndp) :
    sendSyn env p l r = ({ p with
        localEndp := l, remoteEndp := r, rcv := { p.rcv with wnd := recvBufSize },
        iss := env.random32, queue := p.queue ++ [queueEntry env env.random32 flgSyn []] },
      outputSegment env.random32 p.rcv.nxt flgSyn recvBufSize [] l r) := by
  rw [sendSyn, output_syn env _ (by decide) (by decide)]
  rfl

theorem passiveOpen_eq (env : Env) (p : TcpPcb) (seg : SegInfo) (l r : IpEndp) :
    passiveOpen env p seg l r = ({ p with
        localEndp := l, remoteEndp := r, rcv := { nxt := seg.seq + 1, wnd := recvBufSize },
        irs := seg.seq, iss := env.random32, state := .synReceived,
        queue := p.queue ++ [queueEntry env env.random32 (flgSyn ||| flgAck) []],
        snd := { p.snd with nxt := env.random32 + 1, una := env.random32 },
        hist := { p.hist with sent := [.syn], synced := true, rcvd := [], fin := false } },
      outputSegment env.random32 (seg.seq + 1) (flgSyn ||| flgAck) recvBufSize [] l r) := by
  rw [passiveOpen, output_syn env _ (by decide) (by decide)]
  rfl

theorem sendFin_eq (env : Env) (p : TcpPcb) (state : TcpState) :
    sendFin env p state = ({ p with
        queue := p.queue ++ [queueEntry env p.snd.nxt (flgAck ||| flgFin) []],
        snd := { p.snd with nxt := p.snd.nxt + 1 }, state := state,
        hist := { p.hist with sent := p.hist.sent ++ [.fin] } },
      entrySegment p (queueEntry env p.snd.nxt (flgAck ||| flgFin) [])) := by
  rw [sendFin, output_fin]

theorem sendData_eq (env : Env) (p : TcpPcb) (data : List U8) :
    sendData env p data = ({ p with
        queue := p.queue ++
          if data = [] then [] else [queueEntry env p.snd.nxt (flgAck ||| flgPsh) data],
        snd := { p.snd with nxt := p.snd.nxt + BitVec.ofNat 32 data.length },
        hist := { p.hist with sent := p.hist.sent ++ data.map .byte } },
      entrySegment p (queueEntry env p.snd.nxt (flgAck ||| flgPsh) data)) := by
  rw [sendData, output_data]

/-- A SYN in SYN_SENT: the connection is established, or both sides have opened
at once. -/
theorem synInSynSent_cases (env : Env) (p : TcpPcb) (seg : SegInfo) (acceptable : Bool) :
    ∃ q, q = takeSyn p seg acceptable ∧
      (q.iss < q.snd.una ∧ synInSynSent env p seg acceptable = ({ q with
            state := .established
            snd := { q.snd with wnd := seg.wnd, wl1 := seg.seq, wl2 := seg.ack } },
          [.emit (ackOf q), .notify q.task]) ∨
        ¬ q.iss < q.snd.una ∧ synInSynSent env p seg acceptable = ({ q with
            state := .synReceived
            queue := q.queue ++ [queueEntry env q.iss (flgSyn ||| flgAck) []] },
          [.emit (entrySegment q (queueEntry env q.iss (flgSyn ||| flgAck) []))])) := by
  refine ⟨_, rfl, ?_⟩
  unfold synInSynSent
  simp only
  split
  · next h => exact .inl ⟨h, rfl⟩
  · next h =>
    rw [output_syn env _ (by decide) (by decide)]
    exact .inr ⟨h, rfl⟩

/-- What `takeSyn` does to the send side. -/
theorem takeSyn_eq (p : TcpPcb) (seg : SegInfo) (acceptable : Bool) :
    ∃ snd queue, takeSyn p seg acceptable = { p with
        rcv := { p.rcv with nxt := seg.seq + 1 }
        irs := seg.seq
        hist := { p.hist with synced := true, rcvd := [], fin := false }
        snd := snd, queue := queue } ∧
      (acceptable = false ∧ snd = p.snd ∧ queue = p.queue ∨
        acceptable = true ∧ snd = { p.snd with una := seg.ack } ∧
          queue = p.queue.dropWhile fun e ↦ !decide (seg.ack < e.seq + e.consume)) := by
  unfold takeSyn
  cases acceptable with
  | false => exact ⟨_, _, rfl, .inl ⟨rfl, rfl, rfl⟩⟩
  | true => exact ⟨_, _, rfl, .inr ⟨rfl, rfl, rfl⟩⟩

/-- The segments `retrans_emit` sends are entries of the queue. -/
theorem emit_mem_retransEmit {env : Env} {p : TcpPcb} {seg : TcpSegment}
    (h : .emit seg ∈ (retransEmit env p).2) : ∃ e ∈ p.queue, seg = entrySegment p e := by
  unfold retransEmit at h
  split at h
  · simp at h
  · obtain ⟨e, he, heq⟩ := List.mem_map.mp h
    cases heq
    exact ⟨e, (List.mem_filter.mp he).1, rfl⟩

/-- `retrans_emit` closes the block, or leaves the entries of its queue where they
are. -/
theorem retransEmit_cases (env : Env) (p : TcpPcb) :
    (retransEmit env p = ({ p with state := .closed }, [.notify p.task])) ∨
      ∃ f : TcpQueueEntry → TcpQueueEntry,
        (∀ e, (f e).seq = e.seq ∧ (f e).flg = e.flg ∧ (f e).data = e.data) ∧
        (retransEmit env p).1 = { p with queue := p.queue.map f } := by
  unfold retransEmit
  split
  · exact .inl rfl
  · refine .inr ⟨_, fun e ↦ ?_, rfl⟩
    split
    · exact ⟨rfl, rfl, rfl⟩
    · exact ⟨rfl, rfl, rfl⟩

/-- A block with nothing queued is left alone. -/
theorem retransEmit_of_nil (env : Env) {p : TcpPcb} (hqueue : p.queue = []) :
    retransEmit env p = (p, []) := by
  have hsame : ({ p with queue := [] } : TcpPcb) = p := by rw [← hqueue]
  simp [retransEmit, hqueue, hsame]

end Microps.Tcp
