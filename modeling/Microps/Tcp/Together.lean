import Microps.Lib.Serial
import Microps.Tcp.Translate

/-!
# Where the numbers lie

Moving a connection takes some of its numbers past `2 ^ 32` and leaves others below.  A
comparison of two numbers keeps its outcome exactly when both pass `2 ^ 32` or neither does,
so what decides about a segment is which numbers are compared, and that depends on the state,
on the flags of the segment and on where its numbers lie on the circle.  `Undivided` goes
through the comparisons of `segment_arrives` in their order.
-/

namespace Microps.Tcp

open Serial (Before Between Together wraps)

/-! ## The comparisons -/

/-- The number after the receive window. -/
def wndEnd (p : TcpPcb) : U32 := p.rcv.nxt + p.rcv.wnd.setWidth 32

/-- The first or the last number of the segment is in the receive window, on the circle. -/
def InWindow (p : TcpPcb) (s : TcpSegment) : Prop :=
  if s.info.len = 0 ∧ p.rcv.wnd = 0 then s.seq = p.rcv.nxt
  else s.seq - p.rcv.nxt < p.rcv.wnd.setWidth 32 ∨
    s.info.len ≠ 0 ∧ s.seq + s.info.len - 1 - p.rcv.nxt < p.rcv.wnd.setWidth 32

/-- The move does not part the ends of a receive window that the segment is in. -/
def WindowTogether (m : U32) (p : TcpPcb) (s : TcpSegment) : Prop :=
  InWindow p s → Together m [p.rcv.nxt, wndEnd p]

/-- The move parts the ACK field from the end of no entry that `retrans_queue_cleanup` looks
at: the entries up to the first one that ends after the ACK field. -/
def QueueTogether (k : U32) (p : TcpPcb) (ack : U32) : Prop :=
  ∀ before e after, p.queue = before ++ e :: after → (∀ f ∈ before, f.seq + f.consume ≤ ack) →
    Together k [ack, e.seq + e.consume]

/-- What is compared when something new is acknowledged: the queue, and the window update. -/
def NewsTogether (k m : U32) (p : TcpPcb) (s : TcpSegment) : Prop :=
  p.snd.una < s.ack → s.ack ≤ p.snd.nxt →
    QueueTogether k p s.ack ∧ Together m [p.snd.wl1, s.seq] ∧
      (p.snd.wl1 = s.seq → Together k [p.snd.wl2, s.ack])

/-- What is compared in the ACK step. -/
def AckTogether (k m : U32) (p : TcpPcb) (s : TcpSegment) : Prop :=
  p.state = .synReceived ∨ p.state.isOpen = true →
    (Between p.snd.una s.ack p.snd.nxt → Together k [p.snd.una, p.snd.nxt]) ∧
      (p.state ≠ .synReceived → Together k [p.snd.una, s.ack]) ∧ NewsTogether k m p s

/-- What is compared in SYN_SENT. -/
def SynTogether (k : U32) (p : TcpPcb) (s : TcpSegment) : Prop :=
  if flagIsset s.flg flgAck then
    Between p.iss s.ack p.snd.nxt → s.ack ≠ p.iss → Together k [p.iss, p.snd.nxt] ∧
      (p.iss < p.snd.nxt → flagIsset s.flg flgRst = true ∨ flagIsset s.flg flgSyn = true →
        Together k [p.snd.una, s.ack] ∧
          (flagIsset s.flg flgRst = false → p.snd.una ≤ s.ack → QueueTogether k p s.ack))
  else flagIsset s.flg flgRst = false → flagIsset s.flg flgSyn = true →
    Together k [p.iss, p.snd.una]

/-! ## Comparisons that come to the same

Even where a comparison does not keep its outcome, the segment may be acknowledged and
dropped either way.  The outcomes after a move by `k` and `m` are given by the numbers that
wrap; `k = m = 0` is the connection where it is.
-/

/-- The segment passes the window test. -/
def PassesAt (m : U32) (p : TcpPcb) (s : TcpSegment) : Prop :=
  InWindow p s ∧ ¬ Before m (wndEnd p) p.rcv.nxt

/-- The segment fails the window test, or its ACK field is found beyond `snd.nxt`. -/
def AnsweredAt (k m : U32) (p : TcpPcb) (s : TcpSegment) : Prop :=
  PassesAt m p s →
    p.state.isOpen = true ∧ ¬ Before k s.ack p.snd.una ∧ Before k p.snd.nxt s.ack

/-- The segment fails the window test, or its ACK field acknowledges nothing new. -/
def IdleAt (k m : U32) (p : TcpPcb) (s : TcpSegment) : Prop :=
  PassesAt m p s → p.state.isOpen = true →
    ¬ (Before k p.snd.una s.ack ∧ ¬ Before k p.snd.nxt s.ack)

/-- Moving the block by `k` and `m` leaves every comparison that counts as it is. -/
def Undivided (env : Env) (p : TcpPcb) (s : TcpSegment) (k m : U32) : Prop :=
  if p.state = .synSent then SynTogether k p s
  else if asksAck s then
    (WindowTogether m p s ∧ (PassesAt 0 p s → AckTogether k m p s)) ∨
      (AnsweredAt 0 0 p s ∧ AnsweredAt k m p s) ∨
      (Repeats env p s ∧ IdleAt 0 0 p s ∧ IdleAt k m p s)
  else WindowTogether m p s

section

variable {env : Env} {tcp : Tcp} {d : TcpDesc} {p : TcpPcb} {s : TcpSegment} {k m : U32}

/-! ## The receive window -/

theorem acceptable_iff (p : TcpPcb) (s : TcpSegment) :
    acceptable p s.info = true ↔ InWindow p s ∧ p.rcv.nxt ≤ wndEnd p := by
  have hseq : s.info.seq = s.seq := rfl
  by_cases hwnd : p.rcv.wnd = 0
  · by_cases hlen : s.info.len = 0
    · simp [acceptable, InWindow, wndEnd, hwnd, hlen, hseq]
    · have hlen' : s.info.len ≠ 0#32 := hlen
      simp [acceptable, InWindow, hwnd, hlen']
  · by_cases hlen : s.info.len = 0
    · simp only [acceptable, InWindow, hwnd, hlen, hseq, and_false, if_true, if_false,
        decide_eq_true_eq, Serial.le_and_lt_add_iff, wndEnd, ne_eq, not_true_eq_false, false_and,
        or_false]
    · simp only [acceptable, InWindow, hwnd, hlen, hseq, and_false, if_false, decide_eq_true_eq,
        Serial.le_and_lt_add_iff, wndEnd, ne_eq, not_false_eq_true, true_and, ← or_and_right]

theorem inWindow_shift (k m : U32) : InWindow (p.shift k m) (s.shift k m) ↔ InWindow p s := by
  have hlen : (s.shift k m).info.len = s.info.len := rfl
  have hseq : (s.shift k m).seq = s.seq + m := rfl
  have hrcv : (p.shift k m).rcv = { p.rcv with nxt := p.rcv.nxt + m } := rfl
  have hend : s.seq + m + s.info.len - 1 - (p.rcv.nxt + m) =
      s.seq + s.info.len - 1 - p.rcv.nxt := by
    rw [add_right_comm, add_sub_right_comm, add_sub_add_right_eq_sub]
  simp only [InWindow, hlen, hseq, hrcv, add_left_inj, add_sub_add_right_eq_sub, hend]

theorem wndEnd_shift (k m : U32) : wndEnd (p.shift k m) = wndEnd p + m :=
  add_right_comm _ _ _

theorem acceptable_shift (k m : U32) :
    acceptable (p.shift k m) (s.shift k m).info = true ↔ PassesAt m p s := by
  rw [acceptable_iff, inWindow_shift, wndEnd_shift, PassesAt, ← BitVec.not_lt]
  exact and_congr_right fun _ ↦ not_congr Serial.add_lt_add_iff_before

theorem passesAt_zero : PassesAt 0 p s ↔ acceptable p s.info = true := by
  rw [acceptable_iff, PassesAt, Serial.before_zero, BitVec.not_lt]

/-- Where the ends of the window stay together, the window test stays as it is. -/
theorem acceptable_shift_iff : acceptable (p.shift k m) (s.shift k m).info = acceptable p s.info ↔
    WindowTogether m p s := by
  rw [Bool.eq_iff_iff, acceptable_iff, acceptable_iff, inWindow_shift, wndEnd_shift]
  show (InWindow p s ∧ p.rcv.nxt + m ≤ wndEnd p + m ↔ _) ↔ _
  rw [and_congr_right_iff, WindowTogether, Serial.add_le_add_iff_together]

/-! ## The queue -/

/-- Two tests find the same first element exactly when they agree on the elements up to it. -/
theorem findIdx_eq_findIdx_iff {α : Type} (f g : α → Bool) (l : List α) :
    l.findIdx g = l.findIdx f ↔ ∀ before e after, l = before ++ e :: after →
      (∀ x ∈ before, f x = false) → g e = f e := by
  induction l with
  | nil => simp
  | cons x l ih =>
      rw [List.findIdx_cons, List.findIdx_cons]
      constructor
      · intro h before e after hl hbefore
        have hx : g x = f x := by
          cases hf : f x <;> cases hg : g x <;> simp_all
        cases before with
        | nil =>
            obtain ⟨rfl, -⟩ := List.cons.inj hl
            exact hx
        | cons y before =>
            obtain ⟨rfl, htail⟩ := List.cons.inj hl
            have hf : f x = false := hbefore x List.mem_cons_self
            rw [hx, hf, cond_false, cond_false, Nat.add_right_cancel_iff] at h
            exact ih.mp h before e after htail fun y hy ↦ hbefore y (List.mem_cons_of_mem _ hy)
      · intro h
        rw [h [] x l rfl (by simp)]
        cases hf : f x with
        | true => rfl
        | false =>
            have htail : l.findIdx g = l.findIdx f := ih.mpr fun before e after hl hbefore ↦
              h (x :: before) e after (by rw [hl]; rfl) (by simpa [hf] using hbefore)
            rw [cond_false, cond_false, htail]

theorem dropped_shift_iff :
    dropped (p.shift k m) (s.ack + k) = dropped p s.ack ↔ QueueTogether k p s.ack := by
  have hmap : dropped (p.shift k m) (s.ack + k) =
      p.queue.findIdx fun e ↦ decide (s.ack + k < e.seq + e.consume + k) := by
    have hend : ∀ e : TcpQueueEntry, (e.shift k).seq + (e.shift k).consume =
        e.seq + e.consume + k := fun e ↦ add_right_comm _ _ _
    simp only [dropped, TcpPcb.shift, List.findIdx_map, Function.comp_def, hend]
  rw [hmap, dropped, findIdx_eq_findIdx_iff]
  simp only [decide_eq_decide, Serial.add_lt_add_iff_together, decide_eq_false_iff_not,
    BitVec.not_lt, QueueTogether]

/-! ## The ACK step -/

theorem updatesWindow_shift_iff :
    updatesWindow (p.shift k m) (s.shift k m).info = updatesWindow p s.info ↔
      Together m [p.snd.wl1, s.seq] ∧ (p.snd.wl1 = s.seq → Together k [p.snd.wl2, s.ack]) := by
  have hshift : updatesWindow (p.shift k m) (s.shift k m).info =
      decide (p.snd.wl1 + m < s.seq + m ∨
        (p.snd.wl1 + m = s.seq + m ∧ p.snd.wl2 + k ≤ s.ack + k)) := rfl
  have hplain : updatesWindow p s.info =
      decide (p.snd.wl1 < s.seq ∨ (p.snd.wl1 = s.seq ∧ p.snd.wl2 ≤ s.ack)) := rfl
  rw [hshift, hplain, decide_eq_decide, add_left_inj]
  by_cases heq : p.snd.wl1 = s.seq
  · have hirrefl : ∀ a : U32, ¬ a < a := fun a ↦ BitVec.lt_irrefl a
    simp only [heq, hirrefl, true_and, false_or, forall_true_left, Serial.add_le_add_iff_together,
      Serial.together_pair]
  · simp only [heq, false_and, or_false, false_imp_iff, and_true, Serial.add_lt_add_iff_together]

/-- What is new stays new, and is as it was. -/
theorem news_shift_iff (hnew : p.snd.una + k < s.ack + k ∧ s.ack + k ≤ p.snd.nxt + k ↔
    p.snd.una < s.ack ∧ s.ack ≤ p.snd.nxt) :
    news (p.shift k m) (s.shift k m).info = news p s.info ↔ NewsTogether k m p s := by
  have hshift : news (p.shift k m) (s.shift k m).info =
      if p.snd.una + k < s.ack + k ∧ s.ack + k ≤ p.snd.nxt + k then
        some (dropped (p.shift k m) (s.ack + k), updatesWindow (p.shift k m) (s.shift k m).info)
      else none := rfl
  have hplain : news p s.info = if p.snd.una < s.ack ∧ s.ack ≤ p.snd.nxt then
      some (dropped p s.ack, updatesWindow p s.info) else none := rfl
  rw [hshift, hplain, NewsTogether, ← and_imp]
  simp only [hnew]
  by_cases h : p.snd.una < s.ack ∧ s.ack ≤ p.snd.nxt
  · rw [if_pos h, if_pos h, Option.some.injEq, Prod.mk.injEq, dropped_shift_iff,
      updatesWindow_shift_iff]
    exact ⟨fun hsame _ ↦ hsame, fun hsame ↦ hsame h⟩
  · rw [if_neg h, if_neg h]
    exact iff_of_true rfl fun hnew ↦ absurd hnew h

/-- The tests of the ACK step in the states that send. -/
theorem ackTests_iff {una nxt ack : U32} :
    ((una + k ≤ ack + k ∧ nxt + k < ack + k ↔ una ≤ ack ∧ nxt < ack) ∧
        (una + k < ack + k ∧ ack + k ≤ nxt + k ↔ una < ack ∧ ack ≤ nxt)) ↔
      (Between una ack nxt → Together k [una, nxt]) ∧ Together k [una, ack] := by
  simp only [Between, ← Serial.add_le_add_iff_together]
  bv_omega

/-- The test of the ACK step in SYN_RECEIVED. -/
theorem ackTest_iff {una nxt ack : U32} :
    (una + k ≤ ack + k ∧ ack + k ≤ nxt + k ↔ una ≤ ack ∧ ack ≤ nxt) ↔
      (Between una ack nxt → Together k [una, nxt]) := by
  rw [Serial.le_and_le_iff, Serial.le_and_le_iff, Serial.between_add, and_congr_right_iff,
    Serial.add_le_add_iff_together]

/-- The verdict on an acceptable segment. -/
def ackVerdict (p : TcpPcb) (seg : SegInfo) : Verdict :=
  match p.state with
  | .synReceived => if p.snd.una ≤ seg.ack ∧ seg.ack ≤ p.snd.nxt then .pass (news p seg) else .refuse
  | .established | .closeWait | .finWait1 | .finWait2 =>
      if p.snd.una ≤ seg.ack ∧ p.snd.nxt < seg.ack then .answer else .pass (news p seg)
  | _ => .pass none

theorem verdict_eq (p : TcpPcb) (seg : SegInfo) :
    verdict p seg = if acceptable p seg then ackVerdict p seg else .answer := by
  unfold verdict ackVerdict
  cases acceptable p seg with
  | false => rfl
  | true => rfl

theorem ackVerdict_open (seg : SegInfo) (hopen : p.state.isOpen = true) :
    ackVerdict p seg =
      if p.snd.una ≤ seg.ack ∧ p.snd.nxt < seg.ack then .answer else .pass (news p seg) := by
  unfold ackVerdict
  cases hs : p.state with
  | established | closeWait | finWait1 | finWait2 => rfl
  | closed | listen | synSent | synReceived | closing | lastAck | timeWait =>
      exact absurd hopen (by simp [hs, TcpState.isOpen])

theorem ackVerdict_synReceived (seg : SegInfo) (hstate : p.state = .synReceived) :
    ackVerdict p seg =
      if p.snd.una ≤ seg.ack ∧ seg.ack ≤ p.snd.nxt then .pass (news p seg) else .refuse := by
  unfold ackVerdict
  rw [hstate]

theorem ackVerdict_otherwise (seg : SegInfo) (hstate : p.state ≠ .synReceived)
    (hopen : ¬ p.state.isOpen = true) : ackVerdict p seg = .pass none := by
  unfold ackVerdict
  cases hs : p.state with
  | established | closeWait | finWait1 | finWait2 => exact absurd rfl (hs ▸ hopen)
  | synReceived => exact absurd hs hstate
  | closed | listen | synSent | closing | lastAck | timeWait => rfl

theorem isSome_news_iff (p : TcpPcb) (seg : SegInfo) :
    (news p seg).isSome = true ↔ p.snd.una < seg.ack ∧ seg.ack ≤ p.snd.nxt := by
  unfold news
  split
  · next h => exact iff_of_true rfl h
  · next h => exact iff_of_false (by simp) h

theorem ackVerdict_shift_open (hopen : p.state.isOpen = true) :
    ackVerdict (p.shift k m) (s.shift k m).info = ackVerdict p s.info ↔
      ((Between p.snd.una s.ack p.snd.nxt → Together k [p.snd.una, p.snd.nxt]) ∧
        Together k [p.snd.una, s.ack]) ∧ NewsTogether k m p s := by
  rw [ackVerdict_open _ hopen, ackVerdict_open _ (show (p.shift k m).state.isOpen = true from hopen)]
  show (if p.snd.una + k ≤ s.ack + k ∧ p.snd.nxt + k < s.ack + k then _ else _) =
    (if p.snd.una ≤ s.ack ∧ p.snd.nxt < s.ack then _ else _) ↔ _
  have hsome := isSome_news_iff p s.info
  have hsome' : (news (p.shift k m) (s.shift k m).info).isSome = true ↔
      p.snd.una + k < s.ack + k ∧ s.ack + k ≤ p.snd.nxt + k := isSome_news_iff _ _
  constructor
  · intro h
    by_cases hbeyond : p.snd.una ≤ s.ack ∧ p.snd.nxt < s.ack
    · rw [if_pos hbeyond] at h
      have hbeyond' : p.snd.una + k ≤ s.ack + k ∧ p.snd.nxt + k < s.ack + k := by
        by_contra hno
        rw [if_neg hno] at h
        exact absurd h (by simp)
      refine ⟨ackTests_iff.mp ⟨iff_of_true hbeyond' hbeyond, iff_of_false ?_ ?_⟩, fun _ hack ↦ ?_⟩
      · exact fun hnew ↦ absurd hbeyond'.2 (BitVec.not_lt.mpr hnew.2)
      · exact fun hnew ↦ absurd hbeyond.2 (BitVec.not_lt.mpr hnew.2)
      · exact absurd hbeyond.2 (BitVec.not_lt.mpr hack)
    · rw [if_neg hbeyond] at h
      have hbeyond' : ¬ (p.snd.una + k ≤ s.ack + k ∧ p.snd.nxt + k < s.ack + k) := by
        intro hyes
        rw [if_pos hyes] at h
        exact absurd h (by simp)
      rw [if_neg hbeyond', Verdict.pass.injEq] at h
      have hnew : p.snd.una + k < s.ack + k ∧ s.ack + k ≤ p.snd.nxt + k ↔
          p.snd.una < s.ack ∧ s.ack ≤ p.snd.nxt := by
        rw [← hsome', h, hsome]
        rfl
      exact ⟨ackTests_iff.mp ⟨iff_of_false hbeyond' hbeyond, hnew⟩, (news_shift_iff hnew).mp h⟩
  · rintro ⟨htests, hnews⟩
    obtain ⟨hbeyond, hnew⟩ := ackTests_iff.mpr htests
    simp only [hbeyond, (news_shift_iff hnew).mpr hnews]

theorem ackVerdict_shift_synReceived (hstate : p.state = .synReceived) :
    ackVerdict (p.shift k m) (s.shift k m).info = ackVerdict p s.info ↔
      (Between p.snd.una s.ack p.snd.nxt → Together k [p.snd.una, p.snd.nxt]) ∧
        NewsTogether k m p s := by
  rw [ackVerdict_synReceived _ hstate,
    ackVerdict_synReceived _ (show (p.shift k m).state = .synReceived from hstate)]
  show (if p.snd.una + k ≤ s.ack + k ∧ s.ack + k ≤ p.snd.nxt + k then _ else _) =
    (if p.snd.una ≤ s.ack ∧ s.ack ≤ p.snd.nxt then _ else _) ↔ _
  rw [← ackTest_iff]
  -- Something new is acknowledged where the ACK field is not `snd.una` itself.
  have hnew : (p.snd.una + k ≤ s.ack + k ∧ s.ack + k ≤ p.snd.nxt + k ↔
      p.snd.una ≤ s.ack ∧ s.ack ≤ p.snd.nxt) →
      (p.snd.una + k < s.ack + k ∧ s.ack + k ≤ p.snd.nxt + k ↔
        p.snd.una < s.ack ∧ s.ack ≤ p.snd.nxt) := by
    bv_omega
  constructor
  · intro h
    by_cases hgood : p.snd.una ≤ s.ack ∧ s.ack ≤ p.snd.nxt
    · rw [if_pos hgood] at h
      have hgood' : p.snd.una + k ≤ s.ack + k ∧ s.ack + k ≤ p.snd.nxt + k := by
        by_contra hno
        rw [if_neg hno] at h
        exact absurd h (by simp)
      rw [if_pos hgood', Verdict.pass.injEq] at h
      have hsame := iff_of_true hgood' hgood
      exact ⟨hsame, (news_shift_iff (hnew hsame)).mp h⟩
    · rw [if_neg hgood] at h
      have hgood' : ¬ (p.snd.una + k ≤ s.ack + k ∧ s.ack + k ≤ p.snd.nxt + k) := by
        intro hyes
        rw [if_pos hyes] at h
        exact absurd h (by simp)
      exact ⟨iff_of_false hgood' hgood, fun hlt hle ↦ absurd ⟨BitVec.le_of_lt hlt, hle⟩ hgood⟩
  · rintro ⟨hsame, hnews⟩
    simp only [hsame, (news_shift_iff (hnew hsame)).mpr hnews]

/-- For an acceptable segment. -/
theorem ackVerdict_shift_iff : ackVerdict (p.shift k m) (s.shift k m).info = ackVerdict p s.info ↔
    AckTogether k m p s := by
  unfold AckTogether
  by_cases hopen : p.state.isOpen = true
  · have hsr : p.state ≠ .synReceived := by
      rintro heq
      simp [heq, TcpState.isOpen] at hopen
    rw [ackVerdict_shift_open hopen]
    simp only [hopen, or_true, forall_true_left, ne_eq, hsr, not_false_eq_true, and_assoc]
  by_cases hsr : p.state = .synReceived
  · rw [ackVerdict_shift_synReceived hsr]
    simp only [hsr, true_or, forall_true_left, ne_eq, not_true_eq_false, false_imp_iff, true_and]
  · have hshift : ackVerdict (p.shift k m) (s.shift k m).info = .pass none :=
      ackVerdict_otherwise _ hsr hopen
    rw [hshift, ackVerdict_otherwise _ hsr hopen]
    exact iff_of_true rfl fun h ↦ absurd h (by tauto)

theorem ackVerdict_answer_iff (seg : SegInfo) : ackVerdict p seg = .answer ↔
    p.state.isOpen = true ∧ p.snd.una ≤ seg.ack ∧ p.snd.nxt < seg.ack := by
  by_cases hopen : p.state.isOpen = true
  · rw [ackVerdict_open _ hopen]
    simp [hopen]
  by_cases hsr : p.state = .synReceived
  · rw [ackVerdict_synReceived _ hsr]
    split <;> simp [hopen]
  · rw [ackVerdict_otherwise _ hsr hopen]
    simp [hopen]

theorem verdict_shift_answer_iff (k m : U32) :
    verdict (p.shift k m) (s.shift k m).info = .answer ↔ AnsweredAt k m p s := by
  have hack : ackVerdict (p.shift k m) (s.shift k m).info = .answer ↔ p.state.isOpen = true ∧
      ¬ Before k s.ack p.snd.una ∧ Before k p.snd.nxt s.ack := by
    rw [ackVerdict_answer_iff, ← Serial.add_lt_add_iff_before, ← Serial.add_lt_add_iff_before,
      BitVec.not_lt]
    rfl
  rw [verdict_eq, AnsweredAt, ← acceptable_shift k m]
  split
  · next hacc =>
    rw [hack]
    exact ⟨fun h _ ↦ h, fun h ↦ h hacc⟩
  · next hacc => exact iff_of_true rfl fun h ↦ absurd h hacc

@[simp] theorem shift_zero (p : TcpPcb) : p.shift 0 0 = p := by
  have hentry : TcpQueueEntry.shift 0 = id := funext fun e ↦ by simp [TcpQueueEntry.shift]
  simp only [TcpPcb.shift, SndVars.shift, hentry, List.map_id, add_zero]

@[simp] theorem shift_segment_zero (s : TcpSegment) : s.shift 0 0 = s := by
  simp [TcpSegment.shift]

theorem verdict_answer_iff : verdict p s.info = .answer ↔ AnsweredAt 0 0 p s := by
  have h := verdict_shift_answer_iff (p := p) (s := s) 0 0
  rwa [shift_zero, shift_segment_zero] at h

/-- **The ACK step keeps its verdict.** -/
theorem verdict_shift_iff : verdict (p.shift k m) (s.shift k m).info = verdict p s.info ↔
    (WindowTogether m p s ∧ (PassesAt 0 p s → AckTogether k m p s)) ∨
      (AnsweredAt 0 0 p s ∧ AnsweredAt k m p s) := by
  rw [← verdict_shift_answer_iff k m, ← verdict_answer_iff, ← acceptable_shift_iff (k := k),
    passesAt_zero, ← ackVerdict_shift_iff, verdict_eq, verdict_eq]
  cases acceptable p s.info with
  | true =>
      cases acceptable (p.shift k m) (s.shift k m).info with
      | true =>
          simp only [if_true, true_and, forall_true_left]
          exact ⟨.inl, fun h ↦ h.elim id fun h ↦ h.2.trans h.1.symm⟩
      | false => simp [eq_comm]
  | false =>
      cases acceptable (p.shift k m) (s.shift k m).info with
      | true => simp
      | false => simp

/-! ## SYN_SENT -/

/-- With an ACK field, which is refused where it is not past the SYN. -/
theorem synVerdict_ack (hack : flagIsset s.flg flgAck = true) : synVerdict p s =
    if p.iss < s.ack ∧ s.ack ≤ p.snd.nxt then
      if flagIsset s.flg flgRst then if p.snd.una ≤ s.ack then .release else .ignore
      else if flagIsset s.flg flgSyn then
        if p.snd.una ≤ s.ack then .acked (dropped p s.ack) else .early
      else .ignore
    else .refuse := by
  unfold synVerdict
  by_cases hnew : p.iss < s.ack ∧ s.ack ≤ p.snd.nxt
  · have hpass : ¬ (s.ack ≤ p.iss ∨ s.ack > p.snd.nxt) := by
      simpa [BitVec.not_le, BitVec.not_lt] using hnew
    simp only [hack, hpass, hnew, and_false, if_false, true_and, and_true, if_true, decide_eq_true_eq]
    by_cases hback : p.snd.una ≤ s.ack
    · simp only [hback, if_true]
    · have hearly : p.iss < p.snd.una := BitVec.lt_trans hnew.1 (BitVec.not_le.mp hback)
      simp only [hback, hearly, if_false, if_true]
  · have hbad : s.ack ≤ p.iss ∨ s.ack > p.snd.nxt := by
      by_contra hno
      exact hnew (by simpa [BitVec.not_le, BitVec.not_lt] using hno)
    simp only [hack, hbad, hnew, and_self, if_true, if_false]

/-- Without one. -/
theorem synVerdict_noAck (hack : ¬ flagIsset s.flg flgAck = true) : synVerdict p s =
    if flagIsset s.flg flgRst then .ignore
    else if flagIsset s.flg flgSyn then if p.iss < p.snd.una then .early else .both
    else .ignore := by
  unfold synVerdict
  simp [hack]

/-- The test of the ACK field. -/
theorem synTest_iff {iss nxt ack : U32} :
    (iss + k < ack + k ∧ ack + k ≤ nxt + k ↔ iss < ack ∧ ack ≤ nxt) ↔
      (Between iss ack nxt → ack ≠ iss → Together k [iss, nxt]) := by
  simp only [Between, ← Serial.add_le_add_iff_together]
  bv_omega

/-- What is compared once the ACK field has passed. -/
theorem synTogether_ack (hack : flagIsset s.flg flgAck = true) : SynTogether k p s ↔
    (p.iss + k < s.ack + k ∧ s.ack + k ≤ p.snd.nxt + k ↔ p.iss < s.ack ∧ s.ack ≤ p.snd.nxt) ∧
      (p.iss < s.ack ∧ s.ack ≤ p.snd.nxt → flagIsset s.flg flgRst = true ∨
        flagIsset s.flg flgSyn = true → Together k [p.snd.una, s.ack] ∧
          (flagIsset s.flg flgRst = false → p.snd.una ≤ s.ack → QueueTogether k p s.ack)) := by
  have hnew : p.iss < s.ack ∧ s.ack ≤ p.snd.nxt ↔
      Between p.iss s.ack p.snd.nxt ∧ s.ack ≠ p.iss ∧ p.iss < p.snd.nxt := by
    simp only [Between]
    bv_omega
  rw [synTest_iff, hnew, SynTogether, if_pos hack]
  tauto

theorem synVerdict_shift_ack (hack : flagIsset s.flg flgAck = true) :
    synVerdict (p.shift k m) (s.shift k m) = synVerdict p s ↔ SynTogether k p s := by
  rw [synVerdict_ack hack, synVerdict_ack (show flagIsset (s.shift k m).flg flgAck = true from hack),
    synTogether_ack hack]
  show (if p.iss + k < s.ack + k ∧ s.ack + k ≤ p.snd.nxt + k then
    if flagIsset s.flg flgRst then if p.snd.una + k ≤ s.ack + k then .release else .ignore
    else if flagIsset s.flg flgSyn then
      if p.snd.una + k ≤ s.ack + k then SynVerdict.acked (dropped (p.shift k m) (s.ack + k))
      else .early
    else .ignore else .refuse) = _ ↔ _
  rw [← Serial.add_le_add_iff_together, ← dropped_shift_iff (k := k) (m := m)]
  by_cases hnew : p.iss < s.ack ∧ s.ack ≤ p.snd.nxt
  · by_cases hnew' : p.iss + k < s.ack + k ∧ s.ack + k ≤ p.snd.nxt + k
    · rw [if_pos hnew, if_pos hnew']
      simp only [hnew, hnew', and_self, true_and, forall_true_left]
      by_cases hback : p.snd.una ≤ s.ack <;> by_cases hback' : p.snd.una + k ≤ s.ack + k <;>
        cases flagIsset s.flg flgRst <;> cases flagIsset s.flg flgSyn <;> simp [hback, hback']
    · rw [if_pos hnew, if_neg hnew']
      refine iff_of_false ?_ fun h ↦ hnew' (h.1.mpr hnew)
      cases flagIsset s.flg flgRst <;> cases flagIsset s.flg flgSyn <;>
        by_cases hback : p.snd.una ≤ s.ack <;> simp [hback]
  · by_cases hnew' : p.iss + k < s.ack + k ∧ s.ack + k ≤ p.snd.nxt + k
    · rw [if_neg hnew, if_pos hnew']
      refine iff_of_false ?_ fun h ↦ hnew (h.1.mp hnew')
      cases flagIsset s.flg flgRst <;> cases flagIsset s.flg flgSyn <;>
        by_cases hback : p.snd.una + k ≤ s.ack + k <;> simp [hback]
    · rw [if_neg hnew, if_neg hnew']
      exact iff_of_true rfl ⟨iff_of_false hnew' hnew, fun h ↦ absurd h hnew⟩

theorem synVerdict_shift_noAck (hack : ¬ flagIsset s.flg flgAck = true) :
    synVerdict (p.shift k m) (s.shift k m) = synVerdict p s ↔ SynTogether k p s := by
  rw [synVerdict_noAck hack,
    synVerdict_noAck (show ¬ flagIsset (s.shift k m).flg flgAck = true from hack), SynTogether,
    if_neg hack, ← Serial.add_lt_add_iff_together]
  show (if flagIsset s.flg flgRst then _ else if flagIsset s.flg flgSyn then
    if p.iss + k < p.snd.una + k then SynVerdict.early else .both else .ignore) = _ ↔ _
  cases flagIsset s.flg flgRst with
  | true => simp
  | false =>
      cases flagIsset s.flg flgSyn with
      | false => simp
      | true =>
          simp only [Bool.false_eq_true, if_false, if_true, forall_true_left]
          by_cases h : p.iss < p.snd.una
          · by_cases h' : p.iss + k < p.snd.una + k <;> simp [h, h']
          · by_cases h' : p.iss + k < p.snd.una + k <;> simp [h, h']

/-- **SYN_SENT keeps its verdict.** -/
theorem synVerdict_shift_iff :
    synVerdict (p.shift k m) (s.shift k m) = synVerdict p s ↔ SynTogether k p s := by
  by_cases hack : flagIsset s.flg flgAck = true
  · exact synVerdict_shift_ack hack
  · exact synVerdict_shift_noAck hack

/-! ## All comparisons -/

theorem idle_shift_iff (hstate : p.state ≠ .synSent) (hask : asksAck s = true)
    (hsr : p.state ≠ .synReceived) (k m : U32) :
    (decision (p.shift k m) (s.shift k m)).idle = true ↔ IdleAt k m p s := by
  have hdecision : decision (p.shift k m) (s.shift k m) =
      .ack (verdict (p.shift k m) (s.shift k m).info) := by
    rw [decision, if_neg (show (p.shift k m).state ≠ .synSent from hstate),
      if_pos (show asksAck (s.shift k m) = true from hask)]
  have hnew : p.snd.una + k < s.ack + k ∧ s.ack + k ≤ p.snd.nxt + k ↔
      Before k p.snd.una s.ack ∧ ¬ Before k p.snd.nxt s.ack := by
    rw [← Serial.add_lt_add_iff_before, ← Serial.add_lt_add_iff_before, BitVec.not_lt]
  rw [hdecision, verdict_eq, IdleAt, ← acceptable_shift k m, ← hnew]
  split
  · next hacc =>
    by_cases hopen : p.state.isOpen = true
    · rw [ackVerdict_open _ (show (p.shift k m).state.isOpen = true from hopen)]
      have hsome : (news (p.shift k m) (s.shift k m).info).isSome = true ↔
          p.snd.una + k < s.ack + k ∧ s.ack + k ≤ p.snd.nxt + k := isSome_news_iff _ _
      rw [← hsome]
      split
      · next hbeyond =>
        -- What is beyond `snd.nxt` is not taken for new.
        refine iff_of_true rfl fun _ _ hnews ↦ ?_
        exact absurd hbeyond.2 (BitVec.not_lt.mpr (hsome.mp hnews).2)
      · cases news (p.shift k m) (s.shift k m).info with
        | none => simp [Decision.idle]
        | some n => exact iff_of_false (by simp [Decision.idle]) fun h ↦ h hacc hopen rfl
    · have hpass : ackVerdict (p.shift k m) (s.shift k m).info = .pass none :=
        ackVerdict_otherwise _ hsr hopen
      rw [hpass]
      exact iff_of_true rfl fun _ h ↦ absurd h hopen
  · next hacc => exact iff_of_true rfl fun h ↦ absurd h hacc

theorem idle_iff (hstate : p.state ≠ .synSent) (hask : asksAck s = true)
    (hsr : p.state ≠ .synReceived) : (decision p s).idle = true ↔ IdleAt 0 0 p s := by
  have h := idle_shift_iff hstate hask hsr 0 0
  rwa [shift_zero, shift_segment_zero] at h

/-! ## Numbers that lie together -/

/-- The numbers of the send side that are compared. -/
def sendNumbers (p : TcpPcb) (s : TcpSegment) : List U32 :=
  [p.iss, p.snd.una, p.snd.nxt, p.snd.wl2, s.ack] ++ p.queue.map fun e ↦ e.seq + e.consume

/-- The numbers of the receive side. -/
def rcvNumbers (p : TcpPcb) (s : TcpSegment) : List U32 := [p.rcv.nxt, wndEnd p, p.snd.wl1, s.seq]

/-- Nothing is parted where `2 ^ 32` falls between no two numbers of one side. -/
theorem undivided_of_together (env : Env) (hsend : Together k (sendNumbers p s))
    (hrcv : Together m (rcvNumbers p s)) : Undivided env p s k m := by
  have hpair : ∀ a ∈ sendNumbers p s, ∀ b ∈ sendNumbers p s, Together k [a, b] :=
    fun a ha b hb ↦ Serial.together_pair.mpr (hsend a ha b hb)
  have hpair' : ∀ a ∈ rcvNumbers p s, ∀ b ∈ rcvNumbers p s, Together m [a, b] :=
    fun a ha b hb ↦ Serial.together_pair.mpr (hrcv a ha b hb)
  have hqueue : QueueTogether k p s.ack := by
    intro before e after hq _
    have he : e ∈ p.queue := by simp [hq]
    exact hpair _ (by simp [sendNumbers]) _ (List.mem_append_right _ (List.mem_map_of_mem he))
  have hnews : NewsTogether k m p s := fun _ _ ↦
    ⟨hqueue, hpair' _ (by simp [rcvNumbers]) _ (by simp [rcvNumbers]),
      fun _ ↦ hpair _ (by simp [sendNumbers]) _ (by simp [sendNumbers])⟩
  have hwindow : WindowTogether m p s := fun _ ↦
    hpair' _ (by simp [rcvNumbers]) _ (by simp [rcvNumbers])
  unfold Undivided SynTogether
  split
  · split
    · exact fun _ _ ↦ ⟨hpair _ (by simp [sendNumbers]) _ (by simp [sendNumbers]), fun _ _ ↦
        ⟨hpair _ (by simp [sendNumbers]) _ (by simp [sendNumbers]), fun _ _ ↦ hqueue⟩⟩
    · exact fun _ _ ↦ hpair _ (by simp [sendNumbers]) _ (by simp [sendNumbers])
  split
  · exact .inl ⟨hwindow, fun _ _ ↦
      ⟨fun _ ↦ hpair _ (by simp [sendNumbers]) _ (by simp [sendNumbers]),
        fun _ ↦ hpair _ (by simp [sendNumbers]) _ (by simp [sendNumbers]), hnews⟩⟩
  · exact hwindow

/-! ## Moving the numbers -/

/-- **When a shift can be seen.**  The block and its segment can be moved by `k` and `m`
without a trace exactly when the comparisons that count are left as they are. -/
theorem translates_iff_undivided (env : Env) (hselect : pcbSelect tcp.pcbs s.dst s.src = some d)
    (hp : tcp.get d = some p) (hstate : p.state ≠ .closed ∧ p.state ≠ .listen) (k m : U32) :
    Translates env tcp d p s k m ↔ Undivided env p s k m := by
  rw [translates_iff_decision env hselect hp hstate, Undivided]
  have hask : asksAck (s.shift k m) = asksAck s := rfl
  by_cases hsent : p.state = .synSent
  · -- No verdict of SYN_SENT is idle.
    rw [if_pos hsent, decision, decision, shift_state, if_pos hsent, if_pos hsent,
      Decision.synSent.injEq, synVerdict_shift_iff]
    simp [Decision.idle]
  rw [if_neg hsent]
  by_cases hack : asksAck s = true
  · rw [if_pos hack]
    have hdecision : decision (p.shift k m) (s.shift k m) = decision p s ↔
        verdict (p.shift k m) (s.shift k m).info = verdict p s.info := by
      rw [decision, decision, shift_state, hask, if_neg hsent, if_neg hsent, if_pos hack, if_pos hack,
        Decision.ack.injEq]
    rw [hdecision, verdict_shift_iff, or_assoc]
    refine or_congr_right (or_congr_right (and_congr_right fun hrepeats ↦ ?_))
    rw [idle_shift_iff hsent hack hrepeats.1, idle_iff hsent hack hrepeats.1, and_comm]
  · rw [if_neg hack, decision, decision, shift_state, hask, if_neg hsent, if_neg hsent, if_neg hack,
      if_neg hack, Decision.check.injEq, acceptable_shift_iff]
    simp [Decision.idle]

end

/-- A connection that was opened from 100 and has sent two octets since. -/
def sentBlock : TcpPcb :=
  { state := .established, localEndp := hostEndp, remoteEndp := peerEndp, task := 0
    snd := { nxt := 103, una := 101, wnd := 1000, wl1 := 500, wl2 := 101 }, iss := 100
    rcv := { nxt := 501, wnd := 65535 }, irs := 500
    queue := [queueEntry calmEnv 101 (flgAck ||| flgPsh) [1, 2]] }

/-- The table with this connection alone. -/
def sentTable : Tcp := { pcbs := [some sentBlock], nextTask := 1 }

/-- The acknowledgement of the two octets. -/
def ackOfSent : TcpSegment :=
  { src := peerEndp, dst := hostEndp, seq := 501, ack := 103, flg := flgAck, wnd := 1000, data := [] }

/-- Far from `2 ^ 32` the connection can be moved, and so can be its whole send side when all
of its numbers wrap. -/
theorem translates_iff_undivided_sent :
    pcbSelect sentTable.pcbs ackOfSent.dst ackOfSent.src = some 0 ∧
      sentTable.get 0 = some sentBlock ∧ Translates calmEnv sentTable 0 sentBlock ackOfSent 10 20 ∧
      Translates calmEnv sentTable 0 sentBlock ackOfSent (-50) 20 := by
  have hselect : pcbSelect sentTable.pcbs ackOfSent.dst ackOfSent.src = some 0 := by decide
  have hsend : sendNumbers sentBlock ackOfSent = [100, 101, 103, 101, 103, 103] := by
    decide +kernel
  have hrcv : rcvNumbers sentBlock ackOfSent = [501, 66036, 500, 501] := by decide +kernel
  have htranslates : ∀ k m, Together k [100, 101, 103, 101, 103, 103] →
      Together m [501, 66036, 500, 501] →
      Translates calmEnv sentTable 0 sentBlock ackOfSent k m := fun k m hk hm ↦
    (translates_iff_undivided calmEnv hselect rfl (by decide) k m).mpr
      (undivided_of_together calmEnv (hsend ▸ hk) (hrcv ▸ hm))
  exact ⟨hselect, rfl, htranslates 10 20 (by simp [Together, wraps]) (by simp [Together, wraps]),
    htranslates (-50) 20 (by simp [Together, wraps]) (by simp [Together, wraps])⟩

/-- Moved so that the acknowledgement wraps to 0, it is taken for an old one: `snd.una` stays,
and the octets stay in the queue. -/
theorem translates_fails_at_wrap :
    ¬ ∀ env tcp d p s k m, pcbSelect tcp.pcbs s.dst s.src = some d → tcp.get d = some p →
      p.state ≠ .closed ∧ p.state ≠ .listen → Translates env tcp d p s k m := by
  intro hall
  have h := hall calmEnv sentTable 0 sentBlock ackOfSent (-103) 0 (by decide) rfl (by decide)
  exact absurd h (by unfold Translates; decide +kernel)

end Microps.Tcp
