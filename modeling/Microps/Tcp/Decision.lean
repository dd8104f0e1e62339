import Microps.Tcp.Conform
import Microps.Tcp.Shift

/-!
# Sequence numbers and their order

`segment_arrives` compares sequence numbers as plain 32-bit words.  A `Decision` is
what all these comparisons come to for one block and one segment; with the decision
given, the rest of the function compares numbers for equality only, and commutes with
every shift.
-/

namespace Microps.Tcp

/-! ## Decisions -/

/-- What the order of the numbers decides in SYN_SENT. -/
inductive SynVerdict where
  /-- The ACK field is refused with a reset. -/
  | refuse
  | ignore
  /-- The connection is reset. -/
  | release
  /-- Our SYN is acknowledged, and `n` entries leave the queue. -/
  | acked (n : Nat)
  /-- `snd.una` is past the initial sequence number already. -/
  | early
  /-- Both sides open at once. -/
  | both
deriving DecidableEq, Repr

/-- What the order of the numbers decides for a segment that reaches the ACK step. -/
inductive Verdict where
  /-- The segment is answered with an acknowledgement and goes no further. -/
  | answer
  /-- The ACK field is refused with a reset. -/
  | refuse
  /-- The segment goes on.  If it acknowledges something new, `news` says how many entries
  leave the queue and whether the send window is updated. -/
  | pass (news : Option (Nat × Bool))
deriving DecidableEq, Repr

/-- What the order of the numbers decides. -/
inductive Decision where
  | synSent (v : SynVerdict)
  /-- Past SYN_SENT, for a segment with RST or SYN or without ACK. -/
  | check (acceptable : Bool)
  | ack (v : Verdict)
deriving DecidableEq, Repr

/-- The number of entries that `retrans_queue_cleanup` drops. -/
def dropped (p : TcpPcb) (ack : U32) : Nat :=
  p.queue.findIdx fun e ↦ decide (ack < e.seq + e.consume)

/-- The test of the send-window update. -/
def updatesWindow (p : TcpPcb) (seg : SegInfo) : Bool :=
  p.snd.wl1 < seg.seq ∨ (p.snd.wl1 = seg.seq ∧ p.snd.wl2 ≤ seg.ack)

def news (p : TcpPcb) (seg : SegInfo) : Option (Nat × Bool) :=
  if p.snd.una < seg.ack ∧ seg.ack ≤ p.snd.nxt then
    some (dropped p seg.ack, updatesWindow p seg)
  else none

def verdict (p : TcpPcb) (seg : SegInfo) : Verdict :=
  if !acceptable p seg then .answer
  else match p.state with
    | .synReceived =>
        if p.snd.una ≤ seg.ack ∧ seg.ack ≤ p.snd.nxt then .pass (news p seg) else .refuse
    | .established | .closeWait | .finWait1 | .finWait2 =>
        if p.snd.una ≤ seg.ack ∧ p.snd.nxt < seg.ack then .answer else .pass (news p seg)
    | _ => .pass none

def synVerdict (p : TcpPcb) (s : TcpSegment) : SynVerdict :=
  let ack := flagIsset s.flg flgAck
  if ack ∧ (s.ack ≤ p.iss ∨ s.ack > p.snd.nxt) then .refuse
  else
    let acceptable : Bool := ack ∧ p.snd.una ≤ s.ack ∧ s.ack ≤ p.snd.nxt
    if flagIsset s.flg flgRst then if acceptable then .release else .ignore
    else if flagIsset s.flg flgSyn then
      if acceptable then .acked (dropped p s.ack)
      else if p.iss < p.snd.una then .early
      else .both
    else .ignore

/-- The flags take the segment to the ACK step. -/
def asksAck (s : TcpSegment) : Bool :=
  !flagIsset s.flg flgRst && !flagIsset s.flg flgSyn && flagIsset s.flg flgAck

/-- All that `segment_arrives` finds out by comparing numbers for their order. -/
def decision (p : TcpPcb) (s : TcpSegment) : Decision :=
  if p.state = .synSent then .synSent (synVerdict p s)
  else if asksAck s then .ack (verdict p s.info)
  else .check (acceptable p s.info)

/-! ## Carrying out a decision -/

/-- The acknowledgement of something new, with the decision given. -/
def takeNews (p : TcpPcb) (seg : SegInfo) : Option (Nat × Bool) → TcpPcb
  | none => p
  | some (n, window) => { p with
      snd := if window then
          { p.snd with una := seg.ack, wnd := seg.wnd, wl1 := seg.seq, wl2 := seg.ack }
        else { p.snd with una := seg.ack }
      queue := p.queue.drop n }

/-- The ACK step of a segment that goes on. -/
def passFlow (env : Env) (p : TcpPcb) (s : TcpSegment) (news : Option (Nat × Bool)) :
    Flow × Option TcpDesc :=
  match p.state with
  | .synReceived =>
      (.go { takeNews p s.info news with state := .established } [.notify p.task], p.parentDesc)
  | .established | .closeWait | .finWait1 | .finWait2 =>
      (.go (ackFinWait1 (takeNews p s.info news) s.info) [], none)
  | _ => (ackStates env p s.info s.flg, none)

/-- The receive side of a SYN in SYN_SENT. -/
def synBlock (p : TcpPcb) (s : TcpSegment) : TcpPcb :=
  { p with
    rcv := { p.rcv with nxt := s.seq + 1 }, irs := s.seq
    hist := { p.hist with synced := true, rcvd := [], fin := false } }

/-- The connection is established in SYN_SENT. -/
def establish (p : TcpPcb) (s : TcpSegment) : Flow :=
  .halt { p with
      state := .established
      snd := { p.snd with wnd := s.wnd, wl1 := s.seq, wl2 := s.ack } }
    [.emit (ackOf p), .notify p.task]

def synFlow (env : Env) (p : TcpPcb) (s : TcpSegment) : SynVerdict → Flow
  | .refuse => .halt p [rstFor s.info s.dst s.src]
  | .ignore => .halt p []
  | .release => .release p []
  | .acked n =>
      establish { synBlock p s with snd := { p.snd with una := s.ack }, queue := p.queue.drop n } s
  | .early => establish (synBlock p s) s
  | .both =>
      .halt { synBlock p s with
          state := .synReceived
          queue := p.queue ++ [queueEntry env p.iss (flgSyn ||| flgAck) []] }
        [.emit (entrySegment (synBlock p s) (queueEntry env p.iss (flgSyn ||| flgAck) []))]

/-- The sequence check, for a segment that does not reach the ACK step. -/
def checkFlow (p : TcpPcb) (s : TcpSegment) : Bool → Flow
  | false => .halt p (if flagIsset s.flg flgRst then [] else [.emit (ackOf p)])
  | true =>
      if flagIsset s.flg flgRst then .release p []
      else if flagIsset s.flg flgSyn then .release p [.emit (outputSegment p.snd.nxt p.rcv.nxt flgRst
        p.rcv.wnd [] p.localEndp p.remoteEndp)]
      else .halt p []

/-- What `segment_arrives` does up to the text of the segment, with the decision given. -/
def flow (env : Env) (p : TcpPcb) (s : TcpSegment) : Decision → Flow × Option TcpDesc
  | .synSent v => (synFlow env p s v, none)
  | .check acceptable => (checkFlow p s acceptable, none)
  | .ack .answer => (.halt p [.emit (ackOf p)], none)
  | .ack .refuse => (.halt p [rstFor s.info s.dst s.src], none)
  | .ack (.pass news) => passFlow env p s news

/-- The rest of `segment_arrives`. -/
def finish (env : Env) (tcp : Tcp) (d : TcpDesc) (s : TcpSegment) :
    Flow × Option TcpDesc → Checked (Tcp × List Effect)
  | (.halt pcb effects, _) => return (tcp.set d pcb, effects)
  | (.release pcb effects, _) =>
      let r := closeAndRelease env tcp d pcb
      return (r.1, effects ++ r.2)
  | (.go pcb effects, parent) => do
      let joined := (tcp.set d pcb).joinBacklog d parent
      let pcb ← unwrap (joined.1.get d)
      let r ← textAndFin env pcb s.info s.flg s.data
      return (joined.1.set d r.1, effects ++ joined.2 ++ r.2)

section

variable {env : Env} {tcp : Tcp} {d : TcpDesc} {p : TcpPcb} {s : TcpSegment}

theorem ackNew_eq_takeNews (p : TcpPcb) (seg : SegInfo) :
    ackNew p seg = takeNews p seg (some (dropped p seg.ack, updatesWindow p seg)) := by
  have hqueue : p.queue.dropWhile (fun e ↦ !decide (seg.ack < e.seq + e.consume)) =
      p.queue.drop (dropped p seg.ack) := by
    simp [List.dropWhile_eq_drop_findIdx_not, dropped]
  simp only [ackNew, retransQueueCleanup, takeNews, updatesWindow, hqueue, decide_eq_true_eq]
  split
  · rfl
  · rfl

/-- The main branch of the ACK step. -/
theorem ackOpen_eq_news (p : TcpPcb) (seg : SegInfo) :
    ackOpen p seg = if p.snd.una ≤ seg.ack ∧ p.snd.nxt < seg.ack then .halt p [.emit (ackOf p)]
      else .go (ackFinWait1 (takeNews p seg (news p seg)) seg) [] := by
  unfold ackOpen news
  by_cases hnew : p.snd.una < seg.ack ∧ seg.ack ≤ p.snd.nxt
  · rw [if_pos hnew, if_pos hnew, if_neg (by bv_omega), ackNew_eq_takeNews]
  rw [if_neg hnew, if_neg hnew]
  by_cases hold : seg.ack < p.snd.una
  · rw [if_pos hold, if_neg (by bv_omega)]
    rfl
  rw [if_neg hold]
  by_cases hafter : p.snd.nxt < seg.ack
  · rw [if_pos hafter, if_pos (by bv_omega)]
  · rw [if_neg hafter, if_neg (by bv_omega)]
    rfl

/-- The ACK step follows the verdict. -/
theorem checkAck_eq_flow (env : Env) (hacc : acceptable p s.info = true) :
    checkAck env p s.info s.flg s.dst s.src = flow env p s (.ack (verdict p s.info)) := by
  unfold checkAck verdict
  simp only [hacc, Bool.not_true, Bool.false_eq_true, if_false]
  cases hstate : p.state with
  | synReceived =>
      simp only [if_true]
      split
      · next hack =>
        have hhalt : ¬ (p.snd.una ≤ s.info.ack ∧ p.snd.nxt < s.info.ack) := by bv_omega
        have hnews : news { p with state := .established } s.info = news p s.info := rfl
        simp only [ackStates, ackOpen_eq_news, if_neg hhalt, hnews, flow, passFlow, hstate]
        cases news p s.info with
        | none => simp [takeNews, ackFinWait1, Flow.after]
        | some n => simp [takeNews, ackFinWait1, Flow.after]
      · rfl
  | established | closeWait | finWait1 | finWait2 =>
      simp only [reduceCtorEq, if_false, ackStates, hstate, ackOpen_eq_news]
      split
      · rfl
      · simp only [flow, passFlow, hstate]
  | closed | listen | synSent | closing | lastAck | timeWait =>
      simp only [reduceCtorEq, if_false, flow, passFlow, hstate]

theorem finish_halt_self (env : Env) (hp : tcp.get d = some p) (es : List Effect)
    (parent : Option TcpDesc) : finish env tcp d s (.halt p es, parent) = .ok (tcp, es) := by
  simp only [finish, Tcp.set, Slots.put_peek hp]
  rfl

/-- SYN_SENT follows its verdict. -/
theorem arrivesSynSent_eq_finish (env : Env) (hp : tcp.get d = some p) :
    Except.ok (arrivesSynSent env tcp d p s.info s.flg s.dst s.src) =
      finish env tcp d s (synFlow env p s (synVerdict p s), none) := by
  have hseg : s.info.ack = s.ack ∧ s.info.seq = s.seq ∧ s.info.wnd = s.wnd := ⟨rfl, rfl, rfl⟩
  unfold arrivesSynSent synVerdict
  simp only [hseg.1]
  by_cases hbad : flagIsset s.flg flgAck = true ∧ (s.ack ≤ p.iss ∨ s.ack > p.snd.nxt)
  · rw [if_pos hbad, if_pos hbad]
    exact (finish_halt_self env hp _ none).symm
  rw [if_neg hbad, if_neg hbad]
  by_cases hgood : flagIsset s.flg flgAck = true ∧ p.snd.una ≤ s.ack ∧ s.ack ≤ p.snd.nxt
  · simp only [hgood, and_self, decide_true, if_true]
    split
    · rfl
    split
    · -- The acknowledgement lies past the initial sequence number.
      have hlt : p.iss < s.ack := by
        by_contra hle
        exact hbad ⟨hgood.1, .inl (by simpa using hle)⟩
      have hqueue : p.queue.dropWhile (fun e ↦ !decide (s.ack < e.seq + e.consume)) =
          p.queue.drop (dropped p s.ack) := by
        simp [List.dropWhile_eq_drop_findIdx_not, dropped]
      simp only [synInSynSent, takeSyn, retransQueueCleanup, hseg, if_true, hqueue, gt_iff_lt, hlt]
      rfl
    · exact (finish_halt_self env hp _ none).symm
  · simp only [hgood, decide_false, Bool.false_eq_true, if_false]
    split
    · exact (finish_halt_self env hp _ none).symm
    split
    · simp only [synInSynSent, takeSyn, hseg, Bool.false_eq_true, if_false, gt_iff_lt]
      by_cases hlt : p.iss < p.snd.una
      · simp only [hlt, if_true]
        rfl
      · simp only [hlt, if_false]
        rw [output_syn env _ (by decide) (by decide)]
        rfl
    · exact (finish_halt_self env hp _ none).symm

/-- The states past SYN_SENT follow theirs. -/
theorem arrivesOtherwise_eq_finish (env : Env) (hp : tcp.get d = some p)
    (hstate : p.state ≠ .synSent) :
    arrivesOtherwise env tcp d p s.info s.flg s.data s.dst s.src =
      finish env tcp d s (flow env p s (decision p s)) := by
  unfold decision
  rw [if_neg hstate]
  by_cases hask : asksAck s = true
  · rw [if_pos hask]
    have hflags : flagIsset s.flg flgRst = false ∧ flagIsset s.flg flgSyn = false ∧
        flagIsset s.flg flgAck = true := by
      simpa [asksAck, and_assoc] using hask
    obtain ⟨hrst, hsyn, hack⟩ := hflags
    unfold arrivesOtherwise
    by_cases hacc : acceptable p s.info = true
    · simp only [hacc, hrst, hsyn, hack, Bool.not_true, Bool.false_eq_true, if_false,
        checkAck_eq_flow env hacc]
      cases flow env p s (.ack (verdict p s.info)) with
      | mk f parent => cases f <;> rfl
    · simp only [verdict, hacc, hrst, Bool.not_false, Bool.false_eq_true, if_false, if_true, flow,
        finish_halt_self env hp]
      rfl
  · rw [if_neg hask]
    unfold arrivesOtherwise
    simp only [flow]
    cases hacc : acceptable p s.info with
    | false =>
        simp only [checkFlow, Bool.not_false, if_true, finish_halt_self env hp]
        split
        · rfl
        · rfl
    | true =>
        simp only [checkFlow, Bool.not_true, Bool.false_eq_true, if_false, output_rst]
        split
        · rfl
        split
        · rfl
        next hrst hsyn =>
        have hack : flagIsset s.flg flgAck = false := by
          simpa [asksAck, hrst, hsyn] using hask
        simp only [hack, Bool.not_false, if_true, finish_halt_self env hp]
        rfl

/-- **`segment_arrives` follows the decision.** -/
theorem segmentArrives_eq_finish (env : Env) (hselect : pcbSelect tcp.pcbs s.dst s.src = some d)
    (hp : tcp.get d = some p) (hstate : p.state ≠ .closed ∧ p.state ≠ .listen) :
    segmentArrives env tcp s = finish env tcp d s (flow env p s (decision p s)) := by
  by_cases hsent : p.state = .synSent
  · unfold segmentArrives decision
    simp only [hselect, hp, unwrap, bind, Except.bind, hsent, if_true, flow]
    exact arrivesSynSent_eq_finish env hp
  · rw [segmentArrives_otherwise env hselect hp ⟨hstate.1, hstate.2, hsent⟩]
    exact arrivesOtherwise_eq_finish env hp hsent

/-! ## Decisions and shifts -/

def Flow.shift (k m : U32) : Flow → Flow
  | .halt pcb es => .halt (pcb.shift k m) (es.map (Effect.shift k m))
  | .release pcb es => .release (pcb.shift k m) (es.map (Effect.shift k m))
  | .go pcb es => .go (pcb.shift k m) (es.map (Effect.shift k m))

def Flow.visible : Flow → Flow
  | .halt pcb es => .halt pcb (es.map Effect.visible)
  | .release pcb es => .release pcb (es.map Effect.visible)
  | .go pcb es => .go pcb (es.map Effect.visible)

def Flow.pcb : Flow → TcpPcb
  | .halt pcb _ | .release pcb _ | .go pcb _ => pcb

@[simp] theorem effect_visible_visible (e : Effect) : e.visible.visible = e.visible := by
  cases e with
  | notify t => rfl
  | emit seg =>
      simp only [Effect.visible, TcpSegment.visible]
      split <;> simp_all

theorem visible_append (tcp : Tcp) (es es' : List Effect) :
    visible (tcp, es.map Effect.visible ++ es') = visible (tcp, es ++ es') := by
  simp [visible]

/-- What cannot be seen of the effects of a step cannot be seen in the end. -/
theorem finish_visible (env : Env) (tcp : Tcp) (d : TcpDesc) (s : TcpSegment) (f : Flow)
    (parent : Option TcpDesc) :
    (finish env tcp d s (f.visible, parent)).map visible =
      (finish env tcp d s (f, parent)).map visible := by
  cases f with
  | halt pcb es => simp [finish, Flow.visible, visible, pure, Except.pure, Except.map]
  | release pcb es =>
      simp only [finish, Flow.visible, pure, Except.pure, Except.map, visible_append]
  | go pcb es =>
      simp only [finish, Flow.visible, bind, Except.bind]
      cases unwrap (((tcp.set d pcb).joinBacklog d parent).1.get d) with
      | error e => rfl
      | ok q =>
          simp only
          cases textAndFin env q s.info s.flg s.data with
          | error e => rfl
          | ok r => simp only [pure, Except.pure, Except.map, List.append_assoc, visible_append]

/-- A reset for an ACK field has no ACK flag, and 0 for its own. -/
@[simp] theorem rstFor_visible (seg : SegInfo) (l r : IpEndp) :
    (rstFor seg l r).visible = rstFor seg l r := by
  have hrst : flagIsset flgRst flgAck = false := by decide
  simp [rstFor, outputSegment, Effect.visible, TcpSegment.visible, hrst]

theorem rstFor_shift (seg : SegInfo) (l r : IpEndp) (k m : U32) :
    (rstFor (seg.shift k m) l r).visible = ((rstFor seg l r).shift k m).visible := by
  have hrst : flagIsset flgRst flgAck = false := by decide
  simp [rstFor, outputSegment, Effect.shift, Effect.visible, TcpSegment.visible, TcpSegment.shift,
    SegInfo.shift, hrst]

theorem takeNews_shift (p : TcpPcb) (seg : SegInfo) (news : Option (Nat × Bool)) (k m : U32) :
    takeNews (p.shift k m) (seg.shift k m) news = (takeNews p seg news).shift k m := by
  cases news with
  | none => rfl
  | some n =>
      obtain ⟨n, window⟩ := n
      cases window with
      | false => simp [takeNews, TcpPcb.shift, SndVars.shift, SegInfo.shift, List.map_drop]
      | true => simp [takeNews, TcpPcb.shift, SndVars.shift, SegInfo.shift, List.map_drop]

theorem ackFinWait1_shift (p : TcpPcb) (seg : SegInfo) (k m : U32) :
    ackFinWait1 (p.shift k m) (seg.shift k m) = (ackFinWait1 p seg).shift k m := by
  unfold ackFinWait1
  simp only [shift_ack_eq_nxt, shift_state]
  split
  · rfl
  · rfl

theorem passFlow_shift (env : Env) (p : TcpPcb) (s : TcpSegment) (news : Option (Nat × Bool))
    (k m : U32) :
    passFlow env (p.shift k m) (s.shift k m) news =
      ((passFlow env p s news).1.shift k m, (passFlow env p s news).2) := by
  unfold passFlow
  simp only [shift_state, shift_info, takeNews_shift, ackFinWait1_shift]
  cases hstate : p.state with
  | synReceived => rfl
  | established | closeWait | finWait1 | finWait2 => rfl
  | closed | listen | synSent => simp only [ackStates, shift_state, hstate]; rfl
  | closing =>
      simp only [ackStates, shift_state, hstate, shift_ack_eq_nxt]
      split
      · rfl
      · rfl
  | lastAck =>
      simp only [ackStates, shift_state, hstate, shift_ack_eq_nxt]
      split
      · rfl
      · rfl
  | timeWait =>
      simp only [ackStates, shift_state, hstate]
      split
      · next h => rw [if_pos (show flagIsset s.flg flgFin = true from h)]; rfl
      · next h => rw [if_neg (show ¬ flagIsset s.flg flgFin = true from h)]; rfl

theorem synBlock_shift (p : TcpPcb) (s : TcpSegment) (k m : U32) :
    synBlock (p.shift k m) (s.shift k m) = (synBlock p s).shift k m := by
  simp only [synBlock, TcpPcb.shift, TcpSegment.shift]
  rw [add_right_comm]

theorem establish_shift (p : TcpPcb) (s : TcpSegment) (k m : U32) :
    establish (p.shift k m) (s.shift k m) = (establish p s).shift k m :=
  rfl

theorem checkFlow_shift (p : TcpPcb) (s : TcpSegment) (acceptable : Bool) (k m : U32) :
    checkFlow (p.shift k m) (s.shift k m) acceptable = (checkFlow p s acceptable).shift k m := by
  cases hrst : flagIsset s.flg flgRst <;> cases hsyn : flagIsset s.flg flgSyn <;>
    cases acceptable <;> simp only [checkFlow, shift_flg, hrst, hsyn] <;> rfl

/-- **With the decision given, `segment_arrives` does not look at the order of numbers.** -/
theorem flow_shift (env : Env) (p : TcpPcb) (s : TcpSegment) (v : Decision) (k m : U32) :
    (flow env (p.shift k m) (s.shift k m) v).1.visible = ((flow env p s v).1.shift k m).visible ∧
      (flow env (p.shift k m) (s.shift k m) v).2 = (flow env p s v).2 := by
  have hrst : [(rstFor (s.shift k m).info s.dst s.src).visible] =
      [((rstFor s.info s.dst s.src).shift k m).visible] := by
    rw [shift_info, rstFor_shift]
  cases v with
  | check acceptable =>
      refine ⟨?_, rfl⟩
      simp only [flow, checkFlow_shift]
  | ack v =>
      cases v with
      | answer => exact ⟨rfl, rfl⟩
      | refuse =>
          refine ⟨?_, rfl⟩
          simpa [flow, Flow.visible, Flow.shift] using hrst
      | pass news =>
          simp only [flow, passFlow_shift]
          exact ⟨trivial, trivial⟩
  | synSent v =>
      refine ⟨?_, rfl⟩
      cases v with
      | refuse => simpa [flow, synFlow, Flow.visible, Flow.shift] using hrst
      | ignore => rfl
      | release => rfl
      | acked n =>
          have hblock : ({ synBlock (p.shift k m) (s.shift k m) with
                snd := { (p.shift k m).snd with una := (s.shift k m).ack }
                queue := (p.shift k m).queue.drop n } : TcpPcb) =
              ({ synBlock p s with
                snd := { p.snd with una := s.ack }, queue := p.queue.drop n } : TcpPcb).shift k m := by
            rw [synBlock_shift]
            simp [TcpPcb.shift, SndVars.shift, TcpSegment.shift, List.map_drop]
          simp only [flow, synFlow, hblock, establish_shift]
      | early => simp only [flow, synFlow, synBlock_shift, establish_shift]
      | both =>
          simp only [flow, synFlow, synBlock_shift]
          simp [Flow.shift, Flow.visible, TcpPcb.shift, queueEntry, TcpQueueEntry.shift, Effect.shift,
            entrySegment, outputSegment, TcpSegment.shift]

/-- Joining a backlog, apart from the block that joins it. -/
theorem joinBacklog_set (hp : tcp.get d = some p) (parent : Option TcpDesc) :
    ∃ (tcp' : Tcp) (self : List TcpDesc) (es : List Effect), (∃ r, tcp'.get d = some r) ∧
      (∀ e ∈ es, ∃ t, e = .notify t) ∧ (parent = none → tcp' = tcp ∧ self = [] ∧ es = []) ∧
      ∀ q : TcpPcb, q.task = p.task → (tcp.set d q).joinBacklog d parent =
        (tcp'.set d { q with backlog := q.backlog ++ self }, es) := by
  cases parent with
  | none =>
      exact ⟨tcp, [], [], ⟨p, hp⟩, by simp, fun _ ↦ ⟨rfl, rfl, rfl⟩, fun q _ ↦ by
        simp [joinBacklog]⟩
  | some l =>
      by_cases hl : l = d
      · subst hl
        refine ⟨tcp, [l], [.notify p.task], ⟨p, hp⟩, by simp, by simp, fun q hq ↦ ?_⟩
        simp [joinBacklog, get_set hp, hq]
      · cases hparent : tcp.get l with
        | none =>
            refine ⟨tcp, [], [], ⟨p, hp⟩, by simp, by simp, fun q hq ↦ ?_⟩
            simp [joinBacklog, get_set hp, hl, hparent]
        | some parent =>
            refine ⟨tcp.set l { parent with backlog := parent.backlog ++ [d] }, [],
              [.notify parent.task], ⟨p, ?_⟩, by simp, by simp, fun q hq ↦ ?_⟩
            · rw [get_set hparent, if_neg (Ne.symm hl), hp]
            · simp only [joinBacklog, get_set hp, if_neg hl, hparent, List.append_nil]
              simp only [Tcp.set, Slots.put_comm _ hl]

/-- **Carrying out a decision commutes with a shift.** -/
theorem finish_shift (env : Env) (hp : tcp.get d = some p) (s : TcpSegment) (f : Flow)
    (parent : Option TcpDesc) (htask : f.pcb.task = p.task) (hbacklog : f.pcb.backlog = p.backlog)
    (k m : U32) :
    finish env (tcp.set d (p.shift k m)) d (s.shift k m) (f.shift k m, parent) =
      (finish env tcp d s (f, parent)).map (translate env tcp d p k m) := by
  cases f with
  | halt q es =>
      have hget : (tcp.set d q).get d = some q := by rw [get_set hp, if_pos rfl]
      simp [finish, Flow.shift, pure, Except.pure, Except.map, translate, hget]
  | release q es =>
      have hq : closeAndRelease env tcp d q = closeAndRelease env tcp d p :=
        closeAndRelease_alike env hp htask hbacklog
      have hq' : closeAndRelease env (tcp.set d (p.shift k m)) d (q.shift k m) =
          closeAndRelease env tcp d p := by
        rw [← closeAndRelease_alike env hp (q := q.shift k m) htask hbacklog]
        simp [closeAndRelease, Tcp.set]
      have hfree : (closeAndRelease env tcp d p).1.get d = none :=
        (pcbRelease_closed_spec env hp).1.freed
      simp [finish, Flow.shift, pure, Except.pure, Except.map, translate, hq, hq', hfree]
  | go q es =>
      obtain ⟨tcp', self, notes, ⟨r, hr⟩, hnotes, -, hjoin⟩ := joinBacklog_set hp parent
      have hget : ∀ x, (tcp'.set d x).get d = some x := fun x ↦ by rw [get_set hr, if_pos rfl]
      have hnotes : notes.map (Effect.shift k m) = notes := by
        rw [List.map_congr_left (g := id), List.map_id]
        intro e he
        obtain ⟨t, rfl⟩ := hnotes e he
        rfl
      have htext := textAndFin_shift env k m { q with backlog := q.backlog ++ self } s.info s.flg
        s.data
      have hshift : ({ q with backlog := q.backlog ++ self } : TcpPcb).shift k m =
        { q.shift k m with backlog := (q.shift k m).backlog ++ self } := rfl
      rw [hshift] at htext
      simp only [finish, Flow.shift, set_set, hjoin q htask, hjoin (q.shift k m) htask, hget, unwrap,
        bind, Except.bind, shift_info, shift_flg, shift_data, htext]
      cases textAndFin env { q with backlog := q.backlog ++ self } s.info s.flg s.data with
      | error e => rfl
      | ok r =>
          simp [Except.map, pure, Except.pure, translate, hget, hnotes]

/-- A shifted block is selected by the same segments. -/
theorem selectLoop_shift (l r : IpEndp) (k m : U32) {t : Slots TcpPcb} {d : TcpDesc}
    (hp : t.peek d = some p) (i : Nat) (candidate : Option TcpDesc) :
    selectLoop l r (t.put d (p.shift k m)) i candidate = selectLoop l r t i candidate := by
  induction t generalizing d i candidate with
  | nil => exact absurd hp (by simp)
  | cons slot t ih =>
      cases d with
      | zero =>
          obtain rfl : slot = some p := by simpa [Slots.peek] using hp
          rfl
      | succ d =>
          have ih := fun i c ↦ ih (d := d) (by simpa [Slots.peek] using hp) i c
          cases slot with
          | none =>
              simp only [Slots.put, List.set_cons_succ, selectLoop]
              exact ih _ _
          | some q =>
              simp only [Slots.put, List.set_cons_succ, selectLoop]
              split
              · split
                · rfl
                · exact ih _ _
              · exact ih _ _

/-- `segment_arrives` on the shifted block and segment. -/
theorem segmentArrives_shift (env : Env) (hselect : pcbSelect tcp.pcbs s.dst s.src = some d)
    (hp : tcp.get d = some p) (hstate : p.state ≠ .closed ∧ p.state ≠ .listen) (k m : U32) :
    segmentArrives env (tcp.set d (p.shift k m)) (s.shift k m) =
      finish env (tcp.set d (p.shift k m)) d (s.shift k m)
        (flow env (p.shift k m) (s.shift k m) (decision (p.shift k m) (s.shift k m))) := by
  apply segmentArrives_eq_finish
  · exact (selectLoop_shift _ _ k m hp 0 none).trans hselect
  · rw [get_set hp, if_pos rfl]
  · exact hstate

theorem flow_pcb (env : Env) (p : TcpPcb) (s : TcpSegment) (v : Decision) :
    (flow env p s v).1.pcb.task = p.task ∧ (flow env p s v).1.pcb.backlog = p.backlog := by
  have htake : ∀ news, (takeNews p s.info news).task = p.task ∧
      (takeNews p s.info news).backlog = p.backlog := by
    intro news
    cases news with
    | none => exact ⟨rfl, rfl⟩
    | some n => exact ⟨rfl, rfl⟩
  cases v with
  | synSent v => cases v <;> exact ⟨rfl, rfl⟩
  | check acceptable =>
      cases acceptable with
      | false => exact ⟨rfl, rfl⟩
      | true =>
          simp only [flow, checkFlow]
          split
          · exact ⟨rfl, rfl⟩
          split
          · exact ⟨rfl, rfl⟩
          · exact ⟨rfl, rfl⟩
  | ack v =>
      cases v with
      | answer => exact ⟨rfl, rfl⟩
      | refuse => exact ⟨rfl, rfl⟩
      | pass news =>
          simp only [flow, passFlow]
          cases hstate : p.state with
          | synReceived => exact htake news
          | established | closeWait | finWait1 | finWait2 =>
              simp only [ackFinWait1]
              split
              · exact htake news
              · exact htake news
          | closed | listen | synSent | closing | lastAck | timeWait =>
              simp only [ackStates, hstate]
              first
                | exact ⟨rfl, rfl⟩
                | split <;> exact ⟨rfl, rfl⟩

/-- The result of a decision, before and after a shift. -/
theorem finish_flow_shift (env : Env) (hp : tcp.get d = some p) (s : TcpSegment) (v : Decision)
    (k m : U32) :
    (finish env (tcp.set d (p.shift k m)) d (s.shift k m)
        (flow env (p.shift k m) (s.shift k m) v)).map visible =
      (finish env tcp d s (flow env p s v)).map fun r ↦ visible (translate env tcp d p k m r) := by
  obtain ⟨hflow, hparent⟩ := flow_shift env p s v k m
  obtain ⟨htask, hbacklog⟩ := flow_pcb env p s v
  have hshift := finish_shift env hp s (flow env p s v).1 (flow env p s v).2 htask hbacklog k m
  rw [← Prod.mk.eta (p := flow env (p.shift k m) (s.shift k m) v), hparent, ← finish_visible, hflow,
    finish_visible, hshift]
  cases finish env tcp d s ((flow env p s v).1, (flow env p s v).2) with
  | error e => rfl
  | ok r => rfl

/-- A shift changes nothing exactly when the decision made after it has the result of the
decision made before. -/
theorem translates_iff_finish (env : Env) (hselect : pcbSelect tcp.pcbs s.dst s.src = some d)
    (hp : tcp.get d = some p) (hstate : p.state ≠ .closed ∧ p.state ≠ .listen) (k m : U32) :
    Translates env tcp d p s k m ↔
      (finish env (tcp.set d (p.shift k m)) d (s.shift k m) (flow env (p.shift k m) (s.shift k m)
        (decision (p.shift k m) (s.shift k m)))).map visible =
      (finish env (tcp.set d (p.shift k m)) d (s.shift k m)
        (flow env (p.shift k m) (s.shift k m) (decision p s))).map visible := by
  rw [Translates, segmentArrives_shift env hselect hp hstate,
    segmentArrives_eq_finish env hselect hp hstate, ← finish_flow_shift env hp s (decision p s)]

end

end Microps.Tcp
