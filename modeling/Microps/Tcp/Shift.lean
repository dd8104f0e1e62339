import Mathlib.Data.BitVec
import Microps.Tcp.Release
import Microps.Tcp.Text

/-!
# Moving the sequence numbers

A connection has two spaces of sequence numbers, that of what it sends and that of
what it receives.  `shift k m` adds `k` to every number of the first and `m` to every
number of the second.  The steps of `segment_arrives` that compare numbers only for
equality do the same before and after a shift.
-/

namespace Microps

section

variable (k m : U32)

def SndVars.shift (v : SndVars) : SndVars :=
  { v with nxt := v.nxt + k, una := v.una + k, wl1 := v.wl1 + m, wl2 := v.wl2 + k }

def TcpQueueEntry.shift (e : TcpQueueEntry) : TcpQueueEntry := { e with seq := e.seq + k }

def TcpPcb.shift (p : TcpPcb) : TcpPcb :=
  { p with
    snd := p.snd.shift k m, iss := p.iss + k, queue := p.queue.map (TcpQueueEntry.shift k)
    rcv := { p.rcv with nxt := p.rcv.nxt + m }, irs := p.irs + m }

/-- A segment that arrives is numbered by the peer: its ACK field is of the send side and
its sequence number of the receive side. -/
def TcpSegment.shift (s : TcpSegment) : TcpSegment := { s with seq := s.seq + m, ack := s.ack + k }

def SegInfo.shift (s : SegInfo) : SegInfo := { s with seq := s.seq + m, ack := s.ack + k }

/-- A segment that is sent is numbered the other way round. -/
def Effect.shift : Effect → Effect
  | .emit seg => .emit (seg.shift m k)
  | .notify t => .notify t

end

/-! ## What can be seen -/

/-- A control block without its history variables, which the program does not have. -/
def TcpPcb.visible (p : TcpPcb) : TcpPcb := { p with hist := {} }

/-- The ACK field counts only with the ACK flag. -/
def TcpSegment.visible (s : TcpSegment) : TcpSegment :=
  if flagIsset s.flg flgAck then s else { s with ack := 0 }

def Effect.visible : Effect → Effect
  | .emit seg => .emit seg.visible
  | .notify t => .notify t

namespace Tcp

/-- The visible part of the result of `segment_arrives`. -/
def visible (r : Tcp × List Effect) : Tcp × List Effect :=
  ({ r.1 with pcbs := r.1.pcbs.map (Option.map TcpPcb.visible) }, r.2.map Effect.visible)

/-- Shift the block in slot `d`, and what was sent for it, in the result of
`segment_arrives` on the table `tcp` with the block `p` in that slot.  Where the block has
been released, the resets of the blocks in its backlog come last; they are not of the
connection. -/
def translate (env : Env) (tcp : Tcp) (d : TcpDesc) (p : TcpPcb) (k m : U32)
    (r : Tcp × List Effect) : Tcp × List Effect :=
  match r.1.get d with
  | some p' => (r.1.set d (p'.shift k m), r.2.map (Effect.shift k m))
  | none =>
      let drained := (closeAndRelease env tcp d p).2
      (r.1, (r.2.take (r.2.length - drained.length)).map (Effect.shift k m) ++ drained)

/-- Shifting the block and the segment and then running `segment_arrives` is the same, as
far as can be seen, as running it first and shifting the result. -/
def Translates (env : Env) (tcp : Tcp) (d : TcpDesc) (p : TcpPcb) (s : TcpSegment) (k m : U32) :
    Prop :=
  (segmentArrives env (tcp.set d (p.shift k m)) (s.shift k m)).map visible =
    (segmentArrives env tcp s).map fun r ↦ visible (translate env tcp d p k m r)

/-! ## Steps without order -/

section

variable (env : Env) (k m : U32) (p : TcpPcb) (seg : SegInfo) (s : TcpSegment)

@[simp] theorem shift_state : (p.shift k m).state = p.state := rfl
@[simp] theorem shift_task : (p.shift k m).task = p.task := rfl
@[simp] theorem shift_src : (s.shift k m).src = s.src := rfl
@[simp] theorem shift_dst : (s.shift k m).dst = s.dst := rfl
@[simp] theorem shift_flg : (s.shift k m).flg = s.flg := rfl
@[simp] theorem shift_data : (s.shift k m).data = s.data := rfl
@[simp] theorem shift_info : (s.shift k m).info = s.info.shift k m := rfl

theorem ackOf_shift : ackOf (p.shift k m) = (ackOf p).shift m k := rfl

theorem shift_ack_eq_nxt :
    (seg.shift k m).ack = (p.shift k m).snd.nxt ↔ seg.ack = p.snd.nxt := by
  simp [SegInfo.shift, TcpPcb.shift, SndVars.shift]

theorem fits_shift (data : List U8) :
    fits (p.shift k m) (seg.shift k m) data ↔ fits p seg data := by
  simp [fits, SegInfo.shift, TcpPcb.shift]

theorem textBlock_shift (data : List U8) :
    textBlock (p.shift k m) (seg.shift k m) data = (textBlock p seg data).shift k m := by
  simp only [textBlock, TcpPcb.shift, SegInfo.shift]
  rw [add_right_comm]

theorem consumeFin_shift :
    consumeFin (p.shift k m) (seg.shift k m) = (consumeFin p seg).shift k m := by
  simp only [consumeFin, TcpPcb.shift, SegInfo.shift]
  rw [add_right_comm]

theorem checkFin_shift (flags : U8) :
    checkFin env (p.shift k m) (seg.shift k m) flags =
      ((checkFin env p seg flags).1.shift k m,
        (checkFin env p seg flags).2.map (Effect.shift k m)) := by
  have hack : (seg.shift k m).ack = ((consumeFin p seg).shift k m).snd.nxt ↔
      seg.ack = (consumeFin p seg).snd.nxt := shift_ack_eq_nxt k m (consumeFin p seg) seg
  unfold checkFin
  simp only [shift_state, consumeFin_shift, hack]
  split
  · split
    · rfl
    split
    · rfl
    · rfl
    · split
      · rfl
      · rfl
    · rfl
    · rfl
  · rfl

theorem textAndFin_shift (flags : U8) (data : List U8) :
    textAndFin env (p.shift k m) (seg.shift k m) flags data =
      (textAndFin env p seg flags data).map fun r ↦
        (r.1.shift k m, r.2.map (Effect.shift k m)) := by
  rw [textAndFin_eq, textAndFin_eq]
  simp only [Except.map, fits_shift, textBlock_shift, checkFin_shift, ackOf_shift]
  by_cases htext : hasText p data
  · rw [if_pos (show hasText (p.shift k m) data from htext), if_pos htext]
    split
    · simp [Effect.shift]
    · rfl
  · rw [if_neg (show ¬ hasText (p.shift k m) data from htext), if_neg htext]

end

/-! ## Release

`pcb_release` sends nothing for the block that is released, which is CLOSED by then, so
the numbers of that block do not matter.
-/

/-- Two tables that differ in slot `d` only, and there in nothing that `pcb_release` looks
at. -/
structure Alike (d : TcpDesc) (t t' : Slots TcpPcb) : Prop where
  length : t.length = t'.length
  other : ∀ j, j ≠ d → t.peek j = t'.peek j
  slot : t.peek d = none ∧ t'.peek d = none ∨ ∃ q q', t.peek d = some q ∧ t'.peek d = some q' ∧
    q.state = .closed ∧ q'.state = .closed ∧ q.task = q'.task ∧ q.backlog = q'.backlog

section

variable {env : Env} {d : TcpDesc} {t t' : Slots TcpPcb}

theorem Alike.put (h : Alike d t t') {j : TcpDesc} (hj : j ≠ d) (q : TcpPcb) :
    Alike d (t.put j q) (t'.put j q) where
  length := by simp [h.length]
  other i hi := by
    by_cases hij : i = j
    · subst hij
      by_cases hlt : i < t.length
      · rw [Slots.peek_put_self hlt, Slots.peek_put_self (h.length ▸ hlt)]
      · have hnone : ∀ t : Slots TcpPcb, ¬ i < t.length → (t.put i q).peek i = none := by
          intro t hlt
          simp [Slots.put, Slots.peek, hlt]
        rw [hnone t hlt, hnone t' (h.length ▸ hlt)]
    · rw [Slots.peek_put_ne _ hij, Slots.peek_put_ne _ hij, h.other i hi]
  slot := by
    rw [Slots.peek_put_ne _ (Ne.symm hj), Slots.peek_put_ne _ (Ne.symm hj)]
    exact h.slot

theorem Alike.put_self (h : Alike d t t') {q q' p p' : TcpPcb} (hp : t.peek d = some p)
    (hp' : t'.peek d = some p') (hstate : q.state = .closed) (hstate' : q'.state = .closed)
    (htask : q.task = q'.task) (hbacklog : q.backlog = q'.backlog) :
    Alike d (t.put d q) (t'.put d q') where
  length := by simp [h.length]
  other j hj := by rw [Slots.peek_put_ne _ hj, Slots.peek_put_ne _ hj, h.other j hj]
  slot := by
    rw [Slots.peek_put_self (Slots.lt_length_of_peek hp),
      Slots.peek_put_self (Slots.lt_length_of_peek hp')]
    exact .inr ⟨q, q', rfl, rfl, hstate, hstate', htask, hbacklog⟩

theorem Alike.free (h : Alike d t t') (j : TcpDesc) : Alike d (t.free j) (t'.free j) where
  length := by simp [h.length]
  other i hi := by
    rw [Slots.peek_free, Slots.peek_free, h.other i hi]
  slot := by
    rw [Slots.peek_free, Slots.peek_free]
    split
    · exact .inl ⟨rfl, rfl⟩
    · exact h.slot

/-- What a slot holds in the one table and in the other. -/
theorem Alike.peek (h : Alike d t t') (j : TcpDesc) :
    (t.peek j = none ∧ t'.peek j = none) ∨ ∃ q q', t.peek j = some q ∧ t'.peek j = some q' ∧
      q.task = q'.task ∧ q.backlog = q'.backlog ∧
      (j = d ∧ q.state = .closed ∧ q'.state = .closed ∨ j ≠ d ∧ q = q') := by
  by_cases hj : j = d
  · subst hj
    rcases h.slot with hnone | ⟨q, q', hq, hq', hs, hs', htask, hbacklog⟩
    · exact .inl hnone
    · exact .inr ⟨q, q', hq, hq', htask, hbacklog, .inl ⟨rfl, hs, hs'⟩⟩
  · rw [h.other j hj]
    cases hq : t'.peek j with
    | none => exact .inl ⟨rfl, rfl⟩
    | some q => exact .inr ⟨q, q, rfl, rfl, rfl, rfl, .inr ⟨hj, rfl⟩⟩

/-- Two results of `pcb_release` that differ in slot `d` only. -/
structure AlikeReleased (d : TcpDesc) (r r' : Released) : Prop where
  pcbs : Alike d r.pcbs r'.pcbs
  effects : r.effects = r'.effects
  ok : r.ok = r'.ok

/-- Two stages of the loop of `pcb_release` that differ in slot `d` only. -/
def AlikeAcc (d : TcpDesc) (acc acc' : Slots TcpPcb × List Effect) : Prop :=
  Alike d acc.1 acc'.1 ∧ acc.2 = acc'.2

theorem AlikeAcc.releaseSlot {acc acc' : Slots TcpPcb × List Effect} (h : AlikeAcc d acc acc')
    (j : TcpDesc) : AlikeReleased d (Tcp.releaseSlot acc j) (Tcp.releaseSlot acc' j) := by
  unfold Tcp.releaseSlot
  rcases h.1.peek j with ⟨hq, hq'⟩ | ⟨q, q', hq, hq', htask, -⟩
  · simp only [hq, hq']
    exact ⟨h.1, h.2, rfl⟩
  · simp only [hq, hq', htask, h.2]
    exact ⟨h.1.free j, rfl, rfl⟩

/-- Emptying the backlog of a block. -/
theorem Alike.clear (h : Alike d t t') {j : TcpDesc} {q q' : TcpPcb} (hq : t.peek j = some q)
    (hq' : t'.peek j = some q') (htask : q.task = q'.task)
    (hsame : j = d ∧ q.state = .closed ∧ q'.state = .closed ∨ j ≠ d ∧ q = q') :
    Alike d (t.put j { q with backlog := [] }) (t'.put j { q' with backlog := [] }) := by
  rcases hsame with ⟨rfl, hs, hs'⟩ | ⟨hj, rfl⟩
  · exact h.put_self hq hq' hs hs' htask rfl
  · exact h.put hj _

theorem AlikeAcc.releaseEntry {release : Slots TcpPcb → TcpDesc → Released}
    (hrelease : ∀ t t' j, Alike d t t' → AlikeReleased d (release t j) (release t' j))
    {acc acc' : Slots TcpPcb × List Effect} (h : AlikeAcc d acc acc') (j : TcpDesc) :
    AlikeAcc d (Tcp.releaseEntry env release acc j) (Tcp.releaseEntry env release acc' j) := by
  unfold Tcp.releaseEntry
  rcases h.1.peek j with ⟨hq, hq'⟩ | ⟨q, q', hq, hq', htask, hbacklog, hsame⟩
  · simp only [hq, hq']
    exact h
  · simp only [hq, hq', h.2]
    rcases hsame with ⟨rfl, hs, hs'⟩ | ⟨hj, rfl⟩
    · simp only [hs, hs', ne_eq, not_true_eq_false, if_false]
      have hrec := hrelease _ _ j (h.1.put_self hq hq' hs hs' htask hbacklog)
      exact ⟨hrec.pcbs, by rw [hrec.effects]⟩
    · have hrec := fun x ↦ hrelease _ _ j (h.1.put hj x)
      exact ⟨(hrec _).pcbs, by rw [(hrec _).effects]⟩

theorem AlikeAcc.foldl {release : Slots TcpPcb → TcpDesc → Released}
    (hrelease : ∀ t t' j, Alike d t t' → AlikeReleased d (release t j) (release t' j))
    (backlog : List TcpDesc) {acc acc' : Slots TcpPcb × List Effect} (h : AlikeAcc d acc acc') :
    AlikeAcc d (backlog.foldl (Tcp.releaseEntry env release) acc)
      (backlog.foldl (Tcp.releaseEntry env release) acc') := by
  induction backlog generalizing acc acc' with
  | nil => exact h
  | cons j backlog ih => exact ih (h.releaseEntry hrelease j)

theorem pcbReleaseN_alike (env : Env) (depth : Nat) (j : TcpDesc) (h : Alike d t t') :
    AlikeReleased d (pcbReleaseN env depth t j) (pcbReleaseN env depth t' j) := by
  induction depth generalizing t t' j with
  | zero =>
      unfold pcbReleaseN
      rcases h.peek j with ⟨hq, hq'⟩ | ⟨q, q', hq, hq', htask, -, hsame⟩
      · simp only [hq, hq']
        exact ⟨h, rfl, rfl⟩
      · simp only [hq, hq']
        refine AlikeAcc.releaseSlot ?_ j
        exact ⟨h.clear hq hq' htask hsame, rfl⟩
  | succ depth ih =>
      unfold pcbReleaseN
      rcases h.peek j with ⟨hq, hq'⟩ | ⟨q, q', hq, hq', htask, hbacklog, hsame⟩
      · simp only [hq, hq']
        exact ⟨h, rfl, rfl⟩
      · simp only [hq, hq', hbacklog]
        refine AlikeAcc.releaseSlot (AlikeAcc.foldl (fun _ _ j h ↦ ih j h) _ ?_) j
        exact ⟨h.clear hq hq' htask hsame, rfl⟩

/-- **Releasing a block** does not look at its numbers. -/
theorem closeAndRelease_alike (env : Env) {tcp : Tcp} {p q q' : TcpPcb} (hp : tcp.get d = some p)
    (htask : q.task = q'.task) (hbacklog : q.backlog = q'.backlog) :
    closeAndRelease env tcp d q = closeAndRelease env tcp d q' := by
  have hlt := Slots.lt_length_of_peek hp
  have halike : Alike d (tcp.pcbs.put d { q with state := .closed })
      (tcp.pcbs.put d { q' with state := .closed }) := by
    constructor
    · simp
    · intro j hj
      rw [Slots.peek_put_ne _ hj, Slots.peek_put_ne _ hj]
    · rw [Slots.peek_put_self hlt, Slots.peek_put_self hlt]
      exact .inr ⟨_, _, rfl, rfl, rfl, rfl, htask, hbacklog⟩
  have hreleased := pcbReleaseN_alike env (tcp.pcbs.length + 1) d halike
  unfold closeAndRelease pcbRelease
  simp only [Slots.length_put]
  have hfree : ∀ t : Slots TcpPcb, (pcbReleaseN env (tcp.pcbs.length + 1) t d).pcbs.peek d = none :=
    fun t ↦ (pcbReleaseN_spec env _ t d).freed
  have hsame : (pcbReleaseN env (tcp.pcbs.length + 1)
      (tcp.pcbs.put d { q with state := .closed }) d).pcbs =
      (pcbReleaseN env (tcp.pcbs.length + 1)
        (tcp.pcbs.put d { q' with state := .closed }) d).pcbs := by
    apply Slots.ext_peek hreleased.pcbs.length
    intro j
    by_cases hj : j = d
    · rw [hj, hfree, hfree]
    · exact hreleased.pcbs.other j hj
  rw [hsame, hreleased.effects]

end

end Tcp

end Microps
