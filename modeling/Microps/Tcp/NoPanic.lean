import Microps.Tcp.Bound
import Microps.Tcp.Conform
import Microps.Tcp.Literal
import Microps.Tcp.Teardown

/-!
# No panic

On every table whose queues hold what some run could have left there, each check of
`segment_arrives` and `on_timer` passes, and what they do is what the model says.  The
other fields of the blocks may hold anything.
-/

namespace Microps.Tcp

/-! ## What runs leave in a queue -/

/-- What the checks need of an entry. -/
structure EntrySound (entry : TcpQueueEntry) : Prop where
  data : entry.data.length < 2 ^ 16
  deadline : entry.first + retransDeadline ≤ durationMax
  due : entry.last + entry.rto ≤ durationMax
  double : entry.rto * 2 ≤ durationMax

/-- Some run leaves the entry in the queue of some block. -/
def FromRun (entry : TcpQueueEntry) : Prop :=
  ∃ s d, TimedReachable s ∧ entry ∈ s.tcp.queueOf d

/-- Entries that leave or join a queue. -/
theorem QueueStep.length_lt {env : Env} {q q' : List TcpQueueEntry} (h : QueueStep env q q')
    (hold : ∀ entry ∈ q, entry.data.length < 2 ^ 16) :
    ∀ entry ∈ q', entry.data.length < 2 ^ 16 := by
  intro entry he
  rcases h with ⟨k, -, rfl⟩ | ⟨seq, flg, data, rfl, hdata⟩
  · exact hold entry (List.mem_of_mem_drop he)
  · rcases List.mem_append.mp he with he | he
    · exact hold entry he
    · rw [List.mem_singleton.mp he]
      exact hdata

/-- Sending again does not touch the data. -/
theorem length_lt_retransEmit {env : Env} {p : TcpPcb}
    (hold : ∀ entry ∈ p.queue, entry.data.length < 2 ^ 16) :
    ∀ entry ∈ (retransEmit env p).1.queue, entry.data.length < 2 ^ 16 := by
  rcases retransEmit_cases env p with heq | ⟨f, hf, heq⟩
  · rw [heq]
    exact hold
  · rw [heq]
    intro entry he
    obtain ⟨entry', he', rfl⟩ := List.mem_map.mp he
    rw [(hf entry').2.2]
    exact hold entry' he'

/-- No entry holds more than a 16-bit segment size allows. -/
theorem TimedReachable.length_lt {s : Timed} (h : TimedReachable s) (d : TcpDesc) :
    ∀ entry ∈ s.tcp.queueOf d, entry.data.length < 2 ^ 16 := by
  refine Machine.Reach.invariant
    (fun s : Timed ↦ ∀ d, ∀ entry ∈ s.tcp.queueOf d, entry.data.length < 2 ^ 16) ?_ ?_ h d
  · rintro _ rfl d entry he
    exact absurd he (by simp [Tcp.queueOf, Tcp.get])
  · rintro s act s' ih ⟨⟨-, -, htimer⟩, hstep⟩ d
    cases act with
    | call env ev =>
        obtain ⟨out, hout, rfl⟩ := Machine.exists_of_map_ok hstep
        exact ((step_move hout).queueOf (fun hev ↦ htimer env (by rw [hev])) d).length_lt (ih d)
    | visit tick env desc =>
        cases hstep
        simp only [Tcp.queueOf]
        cases hp' : (timerVisit tick env s.tcp desc).get d with
        | none => simp
        | some p' =>
            rcases timerRound_cases hp' with ⟨-, hp⟩ | ⟨rfl, p, hp, rfl⟩
            · have hold := ih d
              simp only [Tcp.queueOf, show s.tcp.get d = some p' from hp] at hold
              exact hold
            · have hold := ih d
              simp only [Tcp.queueOf, show s.tcp.get d = some p from hp] at hold
              exact length_lt_retransEmit hold

theorem FromRun.sound {entry : TcpQueueEntry} (h : FromRun entry) : EntrySound entry := by
  obtain ⟨s, d, hs, he⟩ := h
  obtain ⟨i, hi, rfl⟩ := List.getElem_of_mem he
  have hright := hs.timesRight d
  have hi' : i < (s.sent d).length := hright.length_eq ▸ hi
  have hback : BacksOff s.now (s.tcp.queueOf d)[i] (s.sent d)[i] := hright.get hi hi'
  have hrto := hback.rto_le
  have hseen := hback.seen
  have hspan := hback.span
  have hnow := hs.now_lt
  constructor
  · exact hs.length_lt d _ he
  · unfold durationMax clockMax retransDeadline at *
    omega
  · unfold durationMax clockMax at *
    omega
  · unfold durationMax
    omega

/-- What the checks need of a table. -/
def TableSound (pcbs : Slots TcpPcb) : Prop :=
  ∀ d p, pcbs.peek d = some p → ∀ entry ∈ p.queue, EntrySound entry

theorem length_timerRound (tick : Nat) (env : Env) (acc : Slots TcpPcb × List Effect)
    (d : TcpDesc) : (timerRound tick env acc d).1.length = acc.1.length := by
  unfold timerRound
  split
  · rfl
  · split
    · exact (length_pcbReleaseN env _ _ d).trans (Slots.length_put _ _ _)
    · exact Slots.length_put _ _ _

namespace Literal

/-! ## Sending -/

theorem slot_ok {pcbs : Slots TcpPcb} {d : TcpDesc} {p : TcpPcb} (h : pcbs.peek d = some p) :
    slot pcbs d = .ok p := by
  have hget : pcbs[d]? = some (some p) := Option.join_eq_some_iff.mp h
  rw [slot, hget]
  rfl

theorem outputSegment_ok (e : Endian) (seq ack : U32) (flg : U8) (wnd : U16) {data : List U8}
    (hdata : data.length < 2 ^ 16) (l r : IpEndp) :
    outputSegment e seq ack flg wnd data l r =
      .ok (.emit (Tcp.outputSegment seq ack flg wnd data l r)) := by
  have htotal : uadd tcpHdrSize data.length = .ok (tcpHdrSize + data.length) := by
    refine if_pos ?_
    unfold tcpHdrSize
    omega
  obtain ⟨sum, -, hencode, -⟩ := exists_encode e
    (s := Tcp.outputSegment seq ack flg wnd data l r) (by
      simp only [Tcp.outputSegment, tcpHdrSize]
      omega)
  simp only [outputSegment, htotal, hencode, bind, Except.bind]
  rfl

theorem output_ok (e : Endian) (env : Env) (p : TcpPcb) (flg : U8) :
    output e env p flg [] =
      .ok ((Tcp.output env p flg []).1, .emit (Tcp.output env p flg []).2) := by
  have hnil : ([] : List U8).length < 2 ^ 16 := by decide
  simp only [output, outputSegment_ok e _ _ _ _ hnil, bind, Except.bind]
  rfl

theorem durationAdd_ok {a b : Nat} (h : a + b ≤ durationMax) : durationAdd a b = .ok (a + b) := by
  rw [durationAdd, if_pos h]

theorem setTimewaitTimer_ok {env : Env} (hnow : env.now < clockMax) (p : TcpPcb) :
    setTimewaitTimer env p = .ok (Tcp.setTimewaitTimer env p) := by
  have hroom : clockMax + timewaitSec ≤ durationMax := by decide
  have hle : env.now + timewaitSec ≤ durationMax :=
    Nat.le_trans (Nat.add_le_add_right (Nat.le_of_lt hnow) _) hroom
  rw [setTimewaitTimer, durationAdd_ok hle]
  rfl

theorem consume_ok {entry : TcpQueueEntry} (h : EntrySound entry) :
    consume entry = .ok entry.consume := by
  have hlen : (BitVec.ofNat 32 entry.data.length).toNat = entry.data.length := by
    rw [BitVec.toNat_ofNat]
    exact Nat.mod_eq_of_lt (Nat.lt_trans h.data (by decide))
  unfold consume TcpQueueEntry.consume
  simp only
  split
  · refine if_pos ?_
    have hdata := h.data
    have hone : (1 : U32).toNat = 1 := rfl
    rw [hlen, hone]
    omega
  · exact congrArg Except.ok (BitVec.add_zero _).symm

theorem cleanupLoop_ok (una : U32) {queue : List TcpQueueEntry}
    (h : ∀ entry ∈ queue, EntrySound entry) :
    cleanupLoop una queue =
      .ok (queue.dropWhile fun e ↦ !decide (una < e.seq + e.consume)) := by
  induction queue with
  | nil => rfl
  | cons entry rest ih =>
      simp only [cleanupLoop, consume_ok (h entry (by simp)), bind, Except.bind]
      rw [List.dropWhile_cons]
      split
      · next hlt =>
        rw [if_neg (by simp [hlt])]
        rfl
      · next hge =>
        rw [if_pos (by simp [hge])]
        exact ih fun e he ↦ h e (List.mem_cons_of_mem entry he)

theorem retransQueueCleanup_ok {p : TcpPcb} (h : ∀ entry ∈ p.queue, EntrySound entry) :
    retransQueueCleanup p = .ok (Tcp.retransQueueCleanup p) := by
  simp only [retransQueueCleanup, cleanupLoop_ok _ h, bind, Except.bind]
  rfl

/-! ## Release -/

section

variable (e : Endian) (env : Env)

theorem resetEntry_ok (p : TcpPcb) :
    resetEntry e env p = .ok (
      if p.state ≠ .closed then
        ({ (Tcp.output env p flgRst []).1 with state := .closed },
          [.emit (Tcp.output env p flgRst []).2])
      else (p, [])) := by
  unfold resetEntry
  split
  · rw [output_ok]
    rfl
  · rfl

theorem releaseSlot_ok (acc : Slots TcpPcb × List Effect) (d : TcpDesc) :
    releaseSlot acc d = .ok (Tcp.releaseSlot acc d) := by
  unfold releaseSlot Tcp.releaseSlot
  cases hp : acc.1.peek d with
  | none => rfl
  | some p =>
      have hget : acc.1[d]? = some (some p) := Option.join_eq_some_iff.mp hp
      simp only [hget]
      rfl

/-- A round fails only if the recursion has gone too deep. -/
theorem releaseEntry_eq {release : Slots TcpPcb → TcpDesc → Checked Released}
    {within : Slots TcpPcb → TcpDesc → Option Released}
    (hrelease : ∀ t d, release t d = unwrap (within t d)) (acc : Slots TcpPcb × List Effect)
    (d : TcpDesc) : releaseEntry e env release acc d = unwrap (entryWithin env within acc d) := by
  unfold releaseEntry entryWithin
  cases hp : acc.1.peek d with
  | none => rfl
  | some p =>
      simp only [resetEntry_ok, hrelease, bind, Except.bind]
      generalize within _ d = r
      cases r with
      | none => rfl
      | some r => rfl

theorem foldlM_releaseEntry {release : Slots TcpPcb → TcpDesc → Checked Released}
    {within : Slots TcpPcb → TcpDesc → Option Released}
    (hrelease : ∀ t d, release t d = unwrap (within t d)) (ds : List TcpDesc)
    (acc : Slots TcpPcb × List Effect) :
    ds.foldlM (releaseEntry e env release) acc = unwrap (ds.foldlM (entryWithin env within) acc) := by
  induction ds generalizing acc with
  | nil => rfl
  | cons d ds ih =>
      rw [List.foldlM_cons, List.foldlM_cons, releaseEntry_eq e env hrelease]
      cases entryWithin env within acc d with
      | none => rfl
      | some acc' => exact ih acc'

theorem pcbReleaseN_eq (depth : Nat) (t : Slots TcpPcb) (d : TcpDesc) :
    pcbReleaseN e env depth t d = unwrap (releaseWithin env depth t d) := by
  induction depth generalizing t d with
  | zero => rfl
  | succ depth ih =>
      unfold pcbReleaseN releaseWithin
      cases t.peek d with
      | none => rfl
      | some p =>
          simp only [foldlM_releaseEntry e env ih, releaseSlot_ok, bind, Except.bind]
          cases p.backlog.foldlM (entryWithin env (releaseWithin env depth))
            (t.put d { p with backlog := [] }, []) with
          | none => rfl
          | some acc => rfl

theorem pcbRelease_ok (t : Slots TcpPcb) (d : TcpDesc) :
    pcbRelease e env t d = .ok (Tcp.pcbRelease env t d) := by
  rw [pcbRelease, pcbReleaseN_eq,
    releaseWithin_eq env _ (covers_range t) (by rw [List.length_range]; exact Nat.lt_succ_self _)]
  rfl

theorem closeAndRelease_ok (tcp : Tcp) (d : TcpDesc) (p : TcpPcb) :
    closeAndRelease e env tcp d p = .ok (Tcp.closeAndRelease env tcp d p) := by
  rw [closeAndRelease, pcbRelease_ok]
  rfl

end

/-! ## A segment arrives -/

section

variable (e : Endian) {env : Env} {tcp : Tcp} {d : TcpDesc} {p : TcpPcb} (s : TcpSegment)

theorem arrivesClosed_ok (tcp : Tcp) :
    arrivesClosed e tcp s.info s.flg s.dst s.src =
      .ok (tcp, Tcp.arrivesClosed s.info s.flg s.dst s.src) := by
  unfold arrivesClosed Tcp.arrivesClosed
  split
  · rfl
  split
  · rw [outputSegment_ok e _ _ _ _ (by decide)]
    rfl
  · rw [outputSegment_ok e _ _ _ _ (by decide)]
    rfl

theorem listenTarget_eq (hp : tcp.get d = some p) :
    listenTarget tcp d = Tcp.listenTarget tcp d p := by
  have hslot := slot_ok (show tcp.pcbs.peek d = some p from hp)
  simp only [listenTarget, Tcp.listenTarget, hslot, bind, Except.bind]
  split
  · split
    · rfl
    · cases halloc : tcp.pcbAlloc with
      | none => rfl
      | some r =>
          have hnew := get_pcbAlloc halloc
          simp only [slot_ok hnew, hnew]
          rfl
  · rfl

theorem passiveOpen_ok (env : Env) (p : TcpPcb) (seg : SegInfo) (l r : IpEndp) :
    passiveOpen e env p seg l r =
      .ok ((Tcp.passiveOpen env p seg l r).1, .emit (Tcp.passiveOpen env p seg l r).2) := by
  simp only [passiveOpen, output_ok, bind, Except.bind]
  rfl

theorem arrivesListen_eq (hp : tcp.get d = some p) :
    arrivesListen e env tcp d s.info s.flg s.dst s.src =
      Tcp.arrivesListen env tcp d p s.info s.flg s.dst s.src := by
  unfold arrivesListen Tcp.arrivesListen
  split
  · rfl
  split
  · rw [outputSegment_ok e _ _ _ _ (by decide)]
    rfl
  split
  · rw [listenTarget_eq hp]
    obtain ⟨target, htarget⟩ := listenTarget_ok tcp d p
    rw [htarget]
    rcases listenTarget_cases htarget with rfl | ⟨-, rfl⟩ | ⟨c, tcp', -, -, halloc, rfl⟩
    · rfl
    · simp only [bind, Except.bind, slot_ok (show tcp.pcbs.peek d = some p from hp), hp, unwrap,
        passiveOpen_ok]
    · have hchild := get_birth halloc
        { TcpPcb.empty tcp.nextTask with parentDesc := some d, hist := { creator := some p.task } } c
      rw [if_pos rfl] at hchild
      simp only [bind, Except.bind, slot_ok hchild, hchild, unwrap, passiveOpen_ok]
  · rfl

section

variable (hqueue : ∀ entry ∈ p.queue, EntrySound entry)

include hqueue

theorem takeSyn_ok (seg : SegInfo) (acceptable : Bool) :
    takeSyn p seg acceptable = .ok (Tcp.takeSyn p seg acceptable) := by
  unfold takeSyn Tcp.takeSyn
  simp only
  split
  · exact retransQueueCleanup_ok hqueue
  · rfl

theorem synInSynSent_ok (seg : SegInfo) (acceptable : Bool) :
    synInSynSent e env p seg acceptable = .ok (Tcp.synInSynSent env p seg acceptable) := by
  simp only [synInSynSent, Tcp.synInSynSent, takeSyn_ok hqueue, bind, Except.bind]
  split
  · rw [output_ok, output_ack]
    rfl
  · rw [output_ok]
    rfl

theorem synSentAcked_ok (hp : tcp.get d = some p) (seg : SegInfo) (flags : U8)
    (acceptable : Bool) :
    synSentAcked e env tcp d seg flags acceptable = .ok (
      if flagIsset flags flgRst then
        if acceptable then Tcp.closeAndRelease env tcp d p else (tcp, [])
      else if flagIsset flags flgSyn then
        (tcp.set d (Tcp.synInSynSent env p seg acceptable).1,
          (Tcp.synInSynSent env p seg acceptable).2)
      else (tcp, [])) := by
  have hslot := slot_ok (show tcp.pcbs.peek d = some p from hp)
  unfold synSentAcked
  split
  · split
    · rw [hslot]
      exact closeAndRelease_ok e env tcp d p
    · rfl
  split
  · simp only [hslot, synInSynSent_ok e hqueue, bind, Except.bind]
    rfl
  · rfl

theorem arrivesSynSent_ok (hp : tcp.get d = some p) :
    arrivesSynSent e env tcp d s.info s.flg s.dst s.src =
      .ok (Tcp.arrivesSynSent env tcp d p s.info s.flg s.dst s.src) := by
  have hslot := slot_ok (show tcp.pcbs.peek d = some p from hp)
  unfold arrivesSynSent Tcp.arrivesSynSent
  cases hack : flagIsset s.flg flgAck with
  | false =>
      simp only [Bool.false_eq_true, if_false, false_and, decide_false]
      exact synSentAcked_ok e hqueue hp s.info s.flg false
  | true =>
      simp only [if_true, true_and, hslot, bind, Except.bind]
      split
      · rw [outputSegment_ok e _ _ _ _ (by decide)]
        rfl
      · exact synSentAcked_ok e hqueue hp s.info s.flg _

/-! ### Past SYN_SENT -/

theorem ackOpen_ok (seg : SegInfo) : ackOpen e env p seg = .ok (Tcp.ackOpen p seg) := by
  unfold ackOpen Tcp.ackOpen
  split
  · simp only [retransQueueCleanup_ok (p := { p with snd := { p.snd with una := seg.ack } }) hqueue,
      bind, Except.bind]
    rfl
  split
  · rfl
  split
  · rw [output_ok, output_ack]
    rfl
  · rfl

theorem ackStates_ok (hnow : env.now < clockMax) (seg : SegInfo) (flags : U8) :
    ackStates e env p seg flags = .ok (Tcp.ackStates env p seg flags) := by
  unfold ackStates Tcp.ackStates
  cases p.state with
  | established | closeWait | finWait1 | finWait2 => exact ackOpen_ok e hqueue seg
  | closing =>
      simp only
      split
      · rw [setTimewaitTimer_ok hnow]
        rfl
      · rfl
  | lastAck =>
      simp only
      split
      · rfl
      · rfl
  | timeWait =>
      simp only
      split
      · rw [setTimewaitTimer_ok hnow]
        rfl
      · rfl
  | closed | listen | synSent | synReceived => rfl

theorem checkAck_ok (hnow : env.now < clockMax) (seg : SegInfo) (flags : U8) (l r : IpEndp) :
    checkAck e env p seg flags l r = .ok (Tcp.checkAck env p seg flags l r) := by
  unfold checkAck Tcp.checkAck
  split
  · split
    · simp only [ackStates_ok e (p := { p with state := .established }) hqueue hnow, bind,
        Except.bind]
      rfl
    · rw [outputSegment_ok e _ _ _ _ (by decide)]
      rfl
  · simp only [ackStates_ok e hqueue hnow, bind, Except.bind]
    rfl

omit hqueue

theorem processText_eq (env : Env) (p : TcpPcb) (seg : SegInfo) (data : List U8) :
    processText e env p seg data = Tcp.processText p seg data := by
  unfold processText Tcp.processText
  split
  · split
    · rw [output_ok, output_ack]
      rfl
    · cases copyText p seg data with
      | error k => rfl
      | ok q =>
          simp only [bind, Except.bind, output_ok, output_ack]
  · rfl

theorem finState_ok (hnow : env.now < clockMax) (q : TcpPcb) (seg : SegInfo) :
    finState env q seg = .ok (match q.state with
      | .synReceived | .established => ({ q with state := .closeWait }, [.notify q.task])
      | .finWait1 =>
          if seg.ack = q.snd.nxt then
            (Tcp.setTimewaitTimer env { q with state := .timeWait }, [])
          else ({ q with state := .closing }, [])
      | .finWait2 => (Tcp.setTimewaitTimer env { q with state := .timeWait }, [])
      | _ => (q, [])) := by
  unfold finState
  cases q.state with
  | finWait1 =>
      simp only
      split
      · rw [setTimewaitTimer_ok hnow]
        rfl
      · rfl
  | finWait2 =>
      simp only
      rw [setTimewaitTimer_ok hnow]
      rfl
  | _ => rfl

theorem consumeFin_ok (hnow : env.now < clockMax) (p : TcpPcb) (seg : SegInfo) {flags : U8}
    (hfin : flagIsset flags flgFin = true) :
    consumeFin e env p seg = .ok (Tcp.checkFin env p seg flags) := by
  unfold consumeFin Tcp.checkFin
  rw [if_pos hfin]
  split
  · rfl
  · rw [output_ok, output_ack]
    simp only [finState_ok hnow, bind, Except.bind, pure, Except.pure]
    cases (Tcp.consumeFin p seg).state with
    | finWait1 =>
        simp only
        split
        · rfl
        · rfl
    | _ => rfl

theorem textAndFin_eq (hnow : env.now < clockMax) (hp : tcp.get d = some p) (seg : SegInfo)
    (flags : U8) (data : List U8) :
    textAndFin e env tcp d seg flags data =
      (Tcp.textAndFin env p seg flags data).map fun r ↦ (tcp.set d r.1, r.2) := by
  have hslot := slot_ok (show tcp.pcbs.peek d = some p from hp)
  unfold textAndFin Tcp.textAndFin
  simp only [hslot, processText_eq, bind, Except.bind]
  cases Tcp.processText p seg data with
  | error k => rfl
  | ok flow =>
      cases flow with
      | halt q es => rfl
      | release q es => rfl
      | go q es =>
          have hget : (tcp.set d q).pcbs.peek d = some q := by
            have := get_set hp q d
            rwa [if_pos rfl] at this
          simp only [slot_ok hget]
          cases hfin : flagIsset flags flgFin with
          | false =>
              simp only [Tcp.checkFin, hfin, Bool.false_eq_true, if_false, List.append_nil]
              rfl
          | true =>
              simp only [if_true, consumeFin_ok e hnow q seg hfin, Tcp.set_set]
              rfl

theorem arrivesOtherwise_eq (hnow : env.now < clockMax) (hp : tcp.get d = some p)
    (hqueue : ∀ entry ∈ p.queue, EntrySound entry)
    (hstate : p.state ≠ .closed ∧ p.state ≠ .listen ∧ p.state ≠ .synSent) :
    arrivesOtherwise e env tcp d s.info s.flg s.data s.dst s.src =
      Tcp.arrivesOtherwise env tcp d p s.info s.flg s.data s.dst s.src := by
  have hslot := slot_ok (show tcp.pcbs.peek d = some p from hp)
  have hsame : tcp.set d p = tcp := by rw [Tcp.set, Slots.put_peek hp]
  unfold arrivesOtherwise Tcp.arrivesOtherwise
  simp only [hslot, bind, Except.bind]
  split
  · cases flagIsset s.flg flgRst with
    | true => rfl
    | false =>
        simp only [output_ok, output_ack, hsame]
        rfl
  split
  · rw [closeAndRelease_ok]
    cases hst : p.state with
    | closed => exact absurd hst hstate.1
    | listen => exact absurd hst hstate.2.1
    | synSent => exact absurd hst hstate.2.2
    | _ => rfl
  split
  · simp only [output_ok, closeAndRelease_ok]
  split
  · rfl
  · rw [checkAck_ok e hqueue hnow]
    obtain ⟨flow, parent⟩ := Tcp.checkAck env p s.info s.flg s.dst s.src
    cases flow with
    | halt q es => rfl
    | release q es =>
        simp only [closeAndRelease_ok]
    | go q es =>
        have hset := get_set hp q d
        rw [if_pos rfl] at hset
        obtain ⟨⟨backlog, hq'⟩, -⟩ := get_joinBacklog hset parent
        simp only [textAndFin_eq e hnow hq', hq', unwrap]
        cases Tcp.textAndFin env { q with backlog := backlog } s.info s.flg s.data with
        | error k => rfl
        | ok r => rfl

end

theorem segmentArrives_eq (hnow : env.now < clockMax) (hsound : TableSound tcp.pcbs) :
    segmentArrives e env tcp s = Tcp.segmentArrives env tcp s := by
  unfold segmentArrives Tcp.segmentArrives
  cases hselect : pcbSelect tcp.pcbs s.dst s.src with
  | none => exact arrivesClosed_ok e s tcp
  | some d =>
      obtain ⟨p, hp, -, -⟩ := pcbSelect_some hselect
      have hget : tcp.get d = some p := hp
      simp only [isClosed, slot_ok hp, hget, unwrap, bind, Except.bind, pure, Except.pure]
      cases hstate : p.state with
      | closed => exact arrivesClosed_ok e s tcp
      | listen => exact arrivesListen_eq e s hget
      | synSent => exact arrivesSynSent_ok e s (hsound d p hp) hget
      | _ => exact arrivesOtherwise_eq e s hnow hget (hsound d p hp) (by simp [hstate])

end

/-! ## The timer -/

section

variable (e : Endian) {env : Env} {p : TcpPcb}

/-- One test of `any`, for a deadline that does not overflow. -/
theorem exceeded_or {now deadline : Nat} {later : Bool} {rest : Checked Bool}
    (hrest : rest = .ok later) :
    (do let d ← (.ok deadline : Checked Nat); if d ≤ now then return true else rest) =
      .ok (decide (deadline ≤ now) || later) := by
  by_cases hle : deadline ≤ now
  · rw [decide_eq_true hle]
    exact if_pos hle
  · rw [decide_eq_false hle, hrest]
    exact if_neg hle

theorem deadlineExceeded_ok (now : Nat) {queue : List TcpQueueEntry}
    (h : ∀ entry ∈ queue, EntrySound entry) :
    deadlineExceeded now queue = .ok (queue.any fun e ↦ e.first + retransDeadline ≤ now) := by
  induction queue with
  | nil =>
      rw [deadlineExceeded, List.any_nil]
      rfl
  | cons entry rest ih =>
      have hrest := ih fun e he ↦ h e (List.mem_cons_of_mem entry he)
      rw [deadlineExceeded, durationAdd_ok (h entry (by simp)).deadline, List.any_cons,
        exceeded_or hrest]

theorem emitLoop_ok (p : TcpPcb) {queue : List TcpQueueEntry}
    (h : ∀ entry ∈ queue, EntrySound entry) :
    emitLoop e env p queue = .ok (
      queue.map fun entry ↦
        if entry.due env then { entry with last := env.now, rto := entry.rto * 2 } else entry,
      (queue.filter (·.due env)).map fun entry ↦ .emit (entrySegment p entry)) := by
  induction queue with
  | nil => rfl
  | cons entry rest ih =>
      have hentry := h entry (by simp)
      have hmul : durationMul entry.rto 2 = .ok (entry.rto * 2) := by
        rw [durationMul, if_pos hentry.double]
      have hrest := ih fun e he ↦ h e (List.mem_cons_of_mem entry he)
      rw [emitLoop, durationAdd_ok hentry.due]
      simp only [bind, Except.bind, outputSegment_ok e _ _ _ _ hentry.data, hmul, hrest]
      by_cases hdue : entry.last + entry.rto ≤ env.now
      · have hyes : entry.due env = true := decide_eq_true hdue
        rw [if_pos hdue, List.map_cons, if_pos hyes, List.filter_cons_of_pos hyes]
        rfl
      · have hno : ¬ entry.due env = true := by simpa [TcpQueueEntry.due] using hdue
        rw [if_neg hdue, List.map_cons, if_neg hno, List.filter_cons_of_neg hno]
        rfl

theorem retransEmit_ok {pcbs : Slots TcpPcb} {d : TcpDesc} (hp : pcbs.peek d = some p)
    (hqueue : ∀ entry ∈ p.queue, EntrySound entry) :
    retransEmit e env pcbs d =
      .ok (pcbs.put d (Tcp.retransEmit env p).1, (Tcp.retransEmit env p).2) := by
  have hget : pcbs[d]? = some (some p) := Option.join_eq_some_iff.mp hp
  unfold retransEmit Tcp.retransEmit
  simp only [hget, deadlineExceeded_ok _ hqueue, slot_ok hp, emitLoop_ok e p hqueue, bind,
    Except.bind]
  split
  · rfl
  · rfl

theorem timewaitElapsed_ok (tick : Nat) {pcbs : Slots TcpPcb} {d : TcpDesc}
    (hp : pcbs.peek d = some p) :
    timewaitElapsed tick pcbs d = .ok (decide (p.state = .timeWait ∧ p.twTimer < tick)) := by
  simp only [timewaitElapsed, slot_ok hp, bind, Except.bind]
  by_cases hstate : p.state = .timeWait
  · simp only [hstate, if_true, true_and]
    rfl
  · simp only [hstate, if_false, false_and, decide_false]
    rfl

theorem timerSlot_ok (tick : Nat) {acc : Slots TcpPcb × List Effect} {d : TcpDesc}
    (hd : d < acc.1.length)
    (hsound : ∀ p, acc.1.peek d = some p → ∀ entry ∈ p.queue, EntrySound entry) :
    timerSlot e tick env acc d = .ok (timerRound tick env acc d) := by
  unfold timerSlot timerRound
  cases hp : acc.1.peek d with
  | none =>
      have hget : acc.1[d]? = some none := by
        rw [Slots.peek, List.getElem?_eq_getElem hd, Option.join_some] at hp
        rw [List.getElem?_eq_getElem hd, hp]
      rw [hget]
      rfl
  | some p =>
      have hget : acc.1[d]? = some (some p) := Option.join_eq_some_iff.mp hp
      simp only [hget, timewaitElapsed_ok tick hp, slot_ok hp, pcbRelease_ok,
        retransEmit_ok e hp (hsound p hp), bind, Except.bind, decide_eq_true_eq]
      split
      · rfl
      · rfl

end

/-- The loop of `on_timer` up to a slot.  The blocks that it has not come to are as they
were or gone. -/
theorem foldlM_timerSlot (e : Endian) (tick : Nat) (envs : TcpDesc → Env) {t : Slots TcpPcb}
    (hsound : TableSound t) {n : Nat} (hn : n ≤ t.length) :
    ∃ acc, (List.range n).foldlM (fun acc d ↦ timerSlot e tick (envs d) acc d) (t, []) = .ok acc ∧
      (List.range n).foldl (fun acc d ↦ timerRound tick (envs d) acc d) (t, []) = acc ∧
      acc.1.length = t.length ∧
      ∀ j p, n ≤ j → acc.1.peek j = some p → t.peek j = some p := by
  induction n with
  | zero => exact ⟨_, rfl, rfl, rfl, fun j p _ hp ↦ hp⟩
  | succ n ih =>
      obtain ⟨acc, hacc, hfold, hlen, hlater⟩ := ih (Nat.le_of_succ_le hn)
      have hround : timerSlot e tick (envs n) acc n = .ok (timerRound tick (envs n) acc n) :=
        timerSlot_ok e tick (hlen ▸ hn) fun p hp ↦ hsound n p (hlater n p (Nat.le_refl n) hp)
      refine ⟨timerRound tick (envs n) acc n, ?_, ?_, ?_, fun j p hj hp ↦ ?_⟩
      · rw [List.range_succ, List.foldlM_append, hacc]
        simp only [bind, Except.bind, List.foldlM_cons, List.foldlM_nil, hround]
        rfl
      · rw [List.range_succ, List.foldl_append, hfold]
        rfl
      · rw [length_timerRound, hlen]
      · rcases timerRound_cases hp with ⟨-, hp⟩ | ⟨rfl, -⟩
        · exact hlater j p (by omega) hp
        · exact absurd hj (by omega)

end Literal

/-! ## Both functions -/

/-- `segment_arrives` returns on every table. -/
theorem exists_segmentArrives (env : Env) (tcp : Tcp) (s : TcpSegment) :
    ∃ r, segmentArrives env tcp s = .ok r := by
  unfold segmentArrives
  cases hselect : pcbSelect tcp.pcbs s.dst s.src with
  | none => exact ⟨_, rfl⟩
  | some d =>
      obtain ⟨p, hp, -, -⟩ := pcbSelect_some hselect
      simp only [show tcp.get d = some p from hp, unwrap, bind, Except.bind]
      cases hstate : p.state with
      | closed => exact ⟨_, rfl⟩
      | listen =>
          obtain ⟨r, hr, -⟩ := arrivesListen_conforms env hp hstate s
          exact ⟨r, hr⟩
      | synSent => exact ⟨_, rfl⟩
      | _ =>
          obtain ⟨r, hr, -⟩ :=
            arrivesOtherwise_conforms env hp (by simp [hstate, TcpState.gotSyn]) s
          exact ⟨r, hr⟩

/-- **No panic**: on every table whose queues hold what some run could have left there, for
every segment and every clock, `segment_arrives` and `on_timer` pass each of their checks,
and do what the model says. -/
theorem never_panics (e : Endian) (tcp : Tcp)
    (hqueue : ∀ d p, tcp.get d = some p → ∀ entry ∈ p.queue, FromRun entry) :
    (∀ env s, env.now < clockMax →
      ∃ r, Literal.segmentArrives e env tcp s = .ok r ∧ segmentArrives env tcp s = .ok r) ∧
    ∀ tick envs, (∀ d, (envs d).now < clockMax) →
      ∃ r, Literal.onTimer e tick envs tcp = .ok r ∧
        ∀ env, tick = env.now → (∀ d, envs d = env) → r = onTimer env tcp := by
  have hsound : TableSound tcp.pcbs := fun d p hp entry he ↦ (hqueue d p hp entry he).sound
  refine ⟨fun env s hnow ↦ ?_, fun tick envs hnow ↦ ?_⟩
  · obtain ⟨r, hr⟩ := exists_segmentArrives env tcp s
    exact ⟨r, (Literal.segmentArrives_eq e s hnow hsound).trans hr, hr⟩
  · obtain ⟨acc, hacc, hfold, -, -⟩ :=
      Literal.foldlM_timerSlot e tick envs hsound (Nat.le_refl tcp.pcbs.length)
    refine ⟨({ tcp with pcbs := acc.1 }, acc.2), ?_, ?_⟩
    · rw [Literal.onTimer, hacc]
      rfl
    · rintro env rfl henvs
      rw [← hfold, onTimer, ← timerRound_now]
      simp only [henvs]

/-- A SYN that was sent twice. -/
def resentSyn : TcpQueueEntry :=
  { first := 0, last := 250000000, rto := 400000000, seq := 100, flg := flgSyn, data := [] }

/-- A block in TIME_WAIT whose backlog names itself and a slot that is not there. -/
def tangledBlock : TcpPcb :=
  { TcpPcb.empty 0 with
    state := .timeWait, localEndp := hostEndp, rcv := { nxt := 1, wnd := 1 }
    backlog := [0, 3], queue := [resentSyn] }

theorem never_panics_tangle :
    (∃ r, Literal.segmentArrives .little calmEnv { pcbs := [some tangledBlock] }
      { src := peerEndp, dst := hostEndp, seq := 1, ack := 1, flg := flgRst, wnd := 1, data := [] } =
        .ok r) ∧
    ∃ r, Literal.onTimer .little 1 (fun _ ↦ calmEnv) { pcbs := [some tangledBlock] } = .ok r := by
  obtain ⟨s, hs, htest⟩ := exists_timedReachable (fun s ↦ s.tcp.queueOf 0 = [resentSyn])
    [.call calmEnv (.openCall hostEndp peerEndp true),
      .visit 250000000 { calmEnv with now := 250000000 } 0] (by decide +kernel)
  have hqueue := of_decide_eq_true htest
  have hfrom : FromRun resentSyn := ⟨s, 0, hs, by simp [hqueue]⟩
  obtain ⟨hsegment, htimer⟩ := never_panics .little { pcbs := [some tangledBlock] } (by
    intro d p hp entry he
    cases d with
    | zero =>
        cases hp
        rw [List.mem_singleton.mp he]
        exact hfrom
    | succ d => exact absurd hp (by simp [Tcp.get, Slots.peek]))
  obtain ⟨r, hr, -⟩ := hsegment calmEnv
    { src := peerEndp, dst := hostEndp, seq := 1, ack := 1, flg := flgRst, wnd := 1, data := [] }
    (by decide)
  obtain ⟨r', hr', -⟩ := htimer 1 (fun _ ↦ calmEnv) (fun _ ↦ by decide)
  exact ⟨⟨r, hr⟩, r', hr'⟩

end Microps.Tcp
