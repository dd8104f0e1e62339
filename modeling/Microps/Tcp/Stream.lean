import Microps.Tcp.Receive
import Microps.Tcp.Send
import Microps.Tcp.World

/-!
# The stream

What `receive` returns on one side is a prefix of what `send` has queued on the
other.  The receiver takes text only at `rcv.nxt`, a number modulo `2 ^ 32`, so the
invariant has to show that the number determines the position in the stream:

* a receiver whose `rcv.nxt` would wrap finds no segment acceptable, so `rcv.nxt`
  never wraps and fewer than `2 ^ 32` octets are received;
* an acknowledgement acknowledges no more than what has been received, until the
  receiver has consumed a FIN, after which it takes no text any more;
* what is in flight is short, so the sender is never more than a window ahead of
  what has been received.
-/

namespace Microps.Tcp

/-- The block belongs to a connection, or did. -/
def Started (p : TcpPcb) : Prop := p.hist.sent ≠ []

/-! ## What a segment carries -/

/-- A segment, or an entry of the queue, has the SYN at the initial sequence number
and data at the number of its position in the stream. -/
structure Carries (iss : U32) (queued : List U8) (flg : U8) (seq : U32) (data : List U8) :
    Prop where
  syn : flagIsset flg flgSyn = true → seq = iss ∧ data = []
  text : data = [] ∨ ∃ k, seq = iss + 1 + BitVec.ofNat 32 k ∧ data <+: queued.drop k

section

variable {iss : U32} {queued : List U8} {flg : U8} {seq : U32} {data : List U8}

theorem Carries.of_empty (hsyn : flagIsset flg flgSyn = false) (hdata : data = []) :
    Carries iss queued flg seq data where
  syn h := absurd h (by simp [hsyn])
  text := .inl hdata

theorem Carries.of_syn (hseq : seq = iss) (hdata : data = []) :
    Carries iss queued flg seq data where
  syn _ := ⟨hseq, hdata⟩
  text := .inl hdata

theorem lt_length_of_prefix_drop {k : Nat} (hdata : data ≠ []) (h : data <+: queued.drop k) :
    k < queued.length := by
  have hlen := h.length_le
  have hpos := List.length_pos_iff.mpr hdata
  rw [List.length_drop] at hlen
  omega

/-- More data does not move the data that is there. -/
theorem Carries.append (h : Carries iss queued flg seq data) (chunk : List U8) :
    Carries iss (queued ++ chunk) flg seq data where
  syn := h.syn
  text := by
    by_cases hdata : data = []
    · exact .inl hdata
    · obtain ⟨k, hseq, hprefix⟩ := h.text.resolve_left hdata
      have hk := lt_length_of_prefix_drop hdata hprefix
      refine .inr ⟨k, hseq, ?_⟩
      rw [List.drop_append_of_le_length (Nat.le_of_lt hk)]
      exact hprefix.trans (List.prefix_append _ _)

end

/-! ## The invariant -/

/-- A block outside any connection.  Of a connection that could not be begun it may
still have the SYN in its queue. -/
structure Fresh (iss : U32) (p : TcpPcb) : Prop where
  state : p.state = .closed ∨ p.state = .listen
  buf : p.buf = []
  queue : ∀ e ∈ p.queue, e.flg = flgSyn ∧ e.seq = iss ∧ e.data = []

/-- The send side of a connection. -/
structure SndSide (iss : U32) (queued : List U8) (p : TcpPcb) : Prop where
  initial : p.iss = iss
  le : 1 + queued.length ≤ p.hist.sent.length
  eq : p.state.canSend = true → p.hist.sent.length = 1 + queued.length
  queue : ∀ e ∈ p.queue, Carries iss queued e.flg e.seq e.data ∧
    (p.hist.synced = false → flagIsset e.flg flgAck = false)

/-- The receive side of a connection, where `iss` is the initial sequence number of
the peer `y`. -/
structure RcvSide (iss : U32) (taken : List U8) (y : Side) (p : TcpPcb) : Prop where
  buf : taken ++ p.buf = p.hist.rcvd
  opening : p.state = .synSent → p.hist.synced = false
  unsynced : p.hist.synced = false → p.hist.rcvd = [] ∧ p.hist.fin = false
  begun : p.hist.synced = true → y.begun = true
  count : p.hist.synced = true → p.hist.fin = false →
    p.rcv.nxt.toNat = (iss + 1).toNat + p.hist.rcvd.length
  got : p.hist.rcvd <+: y.queued

/-- How much of what a block has sent is acknowledged. -/
def acked (p : TcpPcb) : Nat := p.hist.sent.length - (p.snd.nxt - p.snd.una).toNat

/-- No more is acknowledged than the peer has received, until the peer has consumed a
FIN. -/
structure AckSide (y : Side) (p : TcpPcb) : Prop where
  le : ∀ c q, y.tcp.get c = some q → Started q → q.hist.fin = false →
    acked p ≤ 1 + q.hist.rcvd.length
  zero : y.begun = false → acked p = 0

/-- The acknowledgement in a segment of the block `p` is for something that `p` has
received. -/
def AcksReceived (iss : U32) (p : TcpPcb) (s : TcpSegment) : Prop :=
  flagIsset s.flg flgRst = false → flagIsset s.flg flgAck = true → p.hist.fin = false →
    p.hist.synced = true ∧ ∃ m, m ≤ p.hist.rcvd.length ∧ s.ack = iss + 1 + BitVec.ofNat 32 m

/-- A side that has not begun a connection. -/
structure Idle (x : Side) : Prop where
  queued : x.queued = []
  taken : x.taken = []
  net : ∀ s ∈ x.net, flagIsset s.flg flgRst = true
  blocks : ∀ d p, x.tcp.get d = some p → ¬ Started p ∧ p.queue = []

/-- What holds of the side `x`, whose initial sequence number is `iss`, and its peer
`y`, whose initial sequence number is `iss'`. -/
structure Link (iss iss' : U32) (x y : Side) : Prop where
  reach : Reachable x.tcp
  idle : x.begun = false → Idle x
  unique : ∀ d d' p p', x.tcp.get d = some p → x.tcp.get d' = some p' → Started p → Started p' →
    d = d'
  fresh : ∀ d p, x.tcp.get d = some p → ¬ Started p → Fresh iss p
  snd : ∀ d p, x.tcp.get d = some p → Started p → SndSide iss x.queued p
  rcv : ∀ d p, x.tcp.get d = some p → Started p → RcvSide iss' x.taken y p
  acked : ∀ d p, x.tcp.get d = some p → Started p → AckSide y p
  net : ∀ s ∈ x.net, flagIsset s.flg flgRst = false → Carries iss x.queued s.flg s.seq s.data
  acks : ∀ s ∈ x.net, ∀ d p, x.tcp.get d = some p → Started p → AcksReceived iss' p s
  taken : x.taken <+: y.queued
  room : ∀ c q, y.tcp.get c = some q → Started q → q.hist.fin = false →
    x.queued.length ≤ q.hist.rcvd.length + 65536
  start : y.begun = false → x.queued.length ≤ 65536

section

variable {iss iss' : U32} {x y : Side} {env : Env} {ev : Event} {reply : Reply} {d : TcpDesc}
  {p p' : TcpPcb} {s : TcpSegment} {queued taken : List U8} {a : Nat}

theorem Link.sendInv (h : Link iss iss' x y) (hp : x.tcp.get d = some p) : ∃ a, SendInv p a :=
  ReachableWhen.sendInv h.reach hp

theorem Link.rcvInv (h : Link iss iss' x y) (hp : x.tcp.get d = some p) : RcvInv False p :=
  ReachableWhen.rcvInv h.reach hp

/-- A side that has sent something but resets has begun. -/
theorem Link.begun_of_net (h : Link iss iss' x y) (hs : s ∈ x.net)
    (hrst : flagIsset s.flg flgRst = false) : x.begun = true := by
  by_contra hnot
  rw [Bool.not_eq_true] at hnot
  exact absurd ((h.idle hnot).net s hs) (by simp [hrst])

/-- A block past LISTEN belongs to a connection. -/
theorem Link.started (h : Link iss iss' x y) (hp : x.tcp.get d = some p)
    (hclosed : p.state ≠ .closed) (hlisten : p.state ≠ .listen) : Started p := by
  by_contra hnot
  rcases (h.fresh d p hp hnot).state with hs | hs
  · exact hclosed hs
  · exact hlisten hs

theorem SendInv.acked_eq (h : SendInv p a) : Tcp.acked p = a := by
  have hle := h.le
  rw [Tcp.acked, h.inFlight]
  omega

/-! ## The send side -/

theorem SndSide.congr (h : SndSide iss queued p) (hiss : p'.iss = p.iss)
    (hsent : p'.hist.sent = p.hist.sent)
    (hqueue : ∀ e' ∈ p'.queue, ∃ e ∈ p.queue, e'.flg = e.flg ∧ e'.seq = e.seq ∧ e'.data = e.data)
    (hsynced : p'.hist.synced = false → p.hist.synced = false)
    (hcan : p'.state.canSend = true → p.state.canSend = true) : SndSide iss queued p' where
  initial := hiss.trans h.initial
  le := hsent ▸ h.le
  eq hs := hsent ▸ h.eq (hcan hs)
  queue e' he' := by
    obtain ⟨e, he, hflg, hseq, hdata⟩ := hqueue e' he'
    rw [hflg, hseq, hdata]
    exact ⟨(h.queue e he).1, fun hs ↦ (h.queue e he).2 (hsynced hs)⟩

theorem mem_same {queue : List TcpQueueEntry} :
    ∀ e' ∈ queue, ∃ e ∈ queue, e'.flg = e.flg ∧ e'.seq = e.seq ∧ e'.data = e.data :=
  fun e he ↦ ⟨e, he, rfl, rfl, rfl⟩

theorem mem_dropWhile_same {queue : List TcpQueueEntry} {q : TcpQueueEntry → Bool} :
    ∀ e' ∈ queue.dropWhile q, ∃ e ∈ queue, e'.flg = e.flg ∧ e'.seq = e.seq ∧ e'.data = e.data :=
  fun e he ↦ ⟨e, (List.dropWhile_suffix q).subset he, rfl, rfl, rfl⟩

/-- `send` queues data at the end of the stream. -/
theorem SndSide.data (h : SndSide iss queued p) (hinv : SendInv p a)
    (hactive : p.state.isActive = true) (hcan : p.state.canSend = true)
    (hsynced : p.hist.synced = true) (chunk : List U8) :
    SndSide iss (queued ++ chunk) (sendData env p chunk).1 := by
  have hlen := h.eq hcan
  have hseq : p.snd.nxt = iss + 1 + BitVec.ofNat 32 queued.length := by
    rw [(hinv.active hactive).1, h.initial, hlen, BitVec.ofNat_add, BitVec.add_assoc]
    rfl
  rw [sendData_eq]
  constructor
  · exact h.initial
  · simp only [List.length_append, List.length_map]
    omega
  · intro _
    simp only [List.length_append, List.length_map]
    omega
  · intro e he
    rcases List.mem_append.mp he with he | he
    · exact ⟨(h.queue e he).1.append chunk, (h.queue e he).2⟩
    · split at he
      · exact absurd he (by simp)
      · obtain rfl := List.mem_singleton.mp he
        refine ⟨⟨fun hsyn ↦ ?_, .inr ⟨queued.length, hseq, ?_⟩⟩, fun hs ↦ ?_⟩
        · exact absurd hsyn (show ¬ flagIsset (flgAck ||| flgPsh) flgSyn = true by decide)
        · rw [List.drop_left]
          exact List.prefix_rfl
        · exact absurd (hsynced.symm.trans hs) (by simp)

/-- A FIN ends the stream. -/
theorem SndSide.fin (h : SndSide iss queued p) (hsynced : p.hist.synced = true) {state : TcpState}
    (hstate : state.canSend = false) : SndSide iss queued (sendFin env p state).1 := by
  have hle := h.le
  rw [sendFin_eq]
  constructor
  · exact h.initial
  · simp only [List.length_append, List.length_singleton]
    omega
  · exact fun hs ↦ absurd hs (by simp [hstate])
  · intro e he
    rcases List.mem_append.mp he with he | he
    · exact h.queue e he
    · obtain rfl := List.mem_singleton.mp he
      refine ⟨.of_empty ?_ rfl, fun hs ↦ absurd (hsynced.symm.trans hs) (by simp)⟩
      exact show flagIsset (flgAck ||| flgFin) flgSyn = false by decide

/-! ## The receive side -/

theorem RcvSide.congr (h : RcvSide iss taken y p) (hbuf : p'.buf = p.buf)
    (hsynced : p'.hist.synced = p.hist.synced) (hrcvd : p'.hist.rcvd = p.hist.rcvd)
    (hfin : p'.hist.fin = p.hist.fin) (hnxt : p'.rcv.nxt = p.rcv.nxt)
    (hstate : p'.state = .synSent → p.state = .synSent) : RcvSide iss taken y p' where
  buf := by rw [hbuf, hrcvd, h.buf]
  opening hs := hsynced ▸ h.opening (hstate hs)
  unsynced hs := by
    rw [hrcvd, hfin]
    exact h.unsynced (hsynced ▸ hs)
  begun hs := h.begun (hsynced ▸ hs)
  count hs hf := by rw [hnxt, hrcvd, h.count (hsynced ▸ hs) (hfin ▸ hf)]
  got := hrcvd ▸ h.got

/-- A segment is acceptable only while the window does not wrap. -/
theorem acceptable_no_wrap {seg : SegInfo} (h : acceptable p seg = true) (hwnd : p.rcv.wnd ≠ 0) :
    p.rcv.nxt.toNat + p.rcv.wnd.toNat < 2 ^ 32 := by
  have hwrap : ∀ n : U32, p.rcv.nxt ≤ n → n < p.rcv.nxt + p.rcv.wnd.setWidth 32 →
      p.rcv.nxt.toNat + p.rcv.wnd.toNat < 2 ^ 32 := by
    intro n hle hlt
    have hw := p.rcv.wnd.isLt
    rw [BitVec.le_def] at hle
    rw [BitVec.lt_def, BitVec.toNat_add, BitVec.toNat_setWidth] at hlt
    omega
  unfold acceptable at h
  simp only [hwnd, if_false] at h
  split at h
  · obtain ⟨hle, hlt⟩ := of_decide_eq_true h
    exact hwrap _ hle hlt
  · rcases of_decide_eq_true h with ⟨hle, hlt⟩ | ⟨hle, hlt⟩
    · exact hwrap _ hle hlt
    · exact hwrap _ hle hlt

/-- **Text in order**: what is put into the buffer is what follows in the stream. -/
theorem RcvSide.text_next (h : RcvSide iss taken y p) (hsynced : p.hist.synced = true)
    (hfin : p.hist.fin = false) (hacc : acceptable p s.info = true) (hdata : s.data ≠ [])
    (hfits : fits p s.info s.data) (hcarries : Carries iss y.queued s.flg s.seq s.data)
    (hroom : y.queued.length ≤ p.hist.rcvd.length + 65536) :
    p.hist.rcvd ++ s.data <+: y.queued ∧
      (s.seq + BitVec.ofNat 32 s.data.length).toNat =
        (iss + 1).toNat + (p.hist.rcvd ++ s.data).length := by
  obtain ⟨hseq, hlen⟩ := hfits
  have hseq : p.rcv.nxt = s.seq := hseq
  have hpos := List.length_pos_iff.mpr hdata
  have hwnd : p.rcv.wnd ≠ 0 := by
    intro hzero
    rw [hzero] at hlen
    exact absurd hlen (by simp; omega)
  have hnowrap := acceptable_no_wrap hacc hwnd
  have hcount := h.count hsynced hfin
  obtain ⟨k, hk, hprefix⟩ := hcarries.text.resolve_left hdata
  have hkq := lt_length_of_prefix_drop hdata hprefix
  -- The number fixes the position: it is less than `2 ^ 32` below and a window above.
  have hkr : k = p.hist.rcvd.length := by
    have hlt := p.rcv.nxt.isLt
    have hmod : p.rcv.nxt.toNat = ((iss + 1).toNat + k) % 2 ^ 32 := by
      rw [hseq, hk, BitVec.toNat_add, BitVec.toNat_ofNat, Nat.add_mod_mod]
    omega
  refine ⟨?_, ?_⟩
  · subst hkr
    obtain ⟨rest, hrest⟩ := h.got
    obtain ⟨rest', hrest'⟩ := hprefix
    rw [← hrest, List.drop_left] at hrest'
    exact ⟨rest', by rw [List.append_assoc, hrest', hrest]⟩
  · rw [← hseq, BitVec.toNat_add, BitVec.toNat_ofNat, List.length_append]
    omega

/-- A SYN from the peer. -/
theorem RcvSide.syn (h : RcvSide iss taken y p) (hstate : p.state = .synSent)
    (hbuf : p'.buf = p.buf) (hrcvd : p'.hist.rcvd = []) (hfin : p'.hist.fin = false)
    (hnxt : p'.rcv.nxt = iss + 1) (hstate' : p'.state ≠ .synSent) (hbegun : y.begun = true) :
    RcvSide iss taken y p' where
  buf := by rw [hbuf, hrcvd, h.buf, (h.unsynced (h.opening hstate)).1]
  opening hs := absurd hs hstate'
  unsynced _ := ⟨hrcvd, hfin⟩
  begun _ := hbegun
  count _ _ := by rw [hnxt, hrcvd, List.length_nil, Nat.add_zero]
  got := hrcvd ▸ List.nil_prefix

/-- A segment past SYN_SENT. -/
theorem RcvSide.arrived (h : RcvSide iss taken y p) (hinv : RcvInv False p) (hreach : ReachesAck p s)
    (harrived : Arrived p s p') (hcarries : Carries iss y.queued s.flg s.seq s.data)
    (hroom : p.hist.fin = false → y.queued.length ≤ p.hist.rcvd.length + 65536) :
    RcvSide iss taken y p' := by
  have hsyn : p.state.gotSyn = true := (TcpState.gotSyn_iff _).mpr hreach.state
  have hsynced := hinv.synced hsyn
  have hpast := (harrived.state hreach.state).2.2.1
  obtain ⟨snd, queue, tw, backlog, -, hcases⟩ := harrived.eq
  have htext : SeesText p s → fits p s.info s.data → p.hist.rcvd ++ s.data <+: y.queued ∧
      (s.seq + BitVec.ofNat 32 s.data.length).toNat =
        (iss + 1).toNat + (p.hist.rcvd ++ s.data).length := by
    intro hsees hfits
    have hfin := (hinv.fin hsyn).trans hsees.gotFin
    exact h.text_next hsynced hfin hreach.acceptable hsees.2 hfits hcarries (hroom hfin)
  rcases hcases with ⟨-, -, rfl⟩ | ⟨hsees, hfits, -, rfl⟩ | ⟨-, -, rfl⟩ | ⟨hsees, hfits, -, rfl⟩
  · exact h.congr rfl rfl rfl rfl rfl fun hs ↦ absurd hs hpast
  · obtain ⟨hgot, hcount⟩ := htext hsees hfits
    constructor
    · change taken ++ (p.buf ++ s.data) = p.hist.rcvd ++ s.data
      rw [← List.append_assoc, h.buf]
    · exact fun hs ↦ absurd hs hpast
    · exact fun hs ↦ absurd (hsynced.symm.trans hs) (by simp)
    · exact h.begun
    · exact fun _ _ ↦ hcount
    · exact hgot
  · constructor
    · exact h.buf
    · exact fun hs ↦ absurd hs hpast
    · exact fun hs ↦ absurd (hsynced.symm.trans hs) (by simp)
    · exact h.begun
    · exact fun _ hf ↦ absurd hf (by simp [consumeFin])
    · exact h.got
  · obtain ⟨hgot, -⟩ := htext hsees hfits
    constructor
    · change taken ++ (p.buf ++ s.data) = p.hist.rcvd ++ s.data
      rw [← List.append_assoc, h.buf]
    · exact fun hs ↦ absurd hs hpast
    · exact fun hs ↦ absurd (hsynced.symm.trans hs) (by simp)
    · exact h.begun
    · exact fun _ hf ↦ absurd hf (by simp [consumeFin])
    · exact hgot

/-! ## Acknowledgements -/

theorem AckSide.congr (h : AckSide y p) (heq : Tcp.acked p' = Tcp.acked p) : AckSide y p' where
  le c q hq hs hf := heq ▸ h.le c q hq hs hf
  zero hb := heq ▸ h.zero hb

/-- Sending moves both ends. -/
theorem acked_send {n : Nat} (hsent : p'.hist.sent.length = p.hist.sent.length + n)
    (hnxt : p'.snd.nxt = p.snd.nxt + BitVec.ofNat 32 n) (huna : p'.snd.una = p.snd.una)
    (hn : (p.snd.nxt - p.snd.una).toNat + n < 2 ^ 32) : Tcp.acked p' = Tcp.acked p := by
  have hflight : (p'.snd.nxt - p'.snd.una).toNat = (p.snd.nxt - p.snd.una).toNat + n := by
    rw [hnxt, huna]
    bv_omega
  rw [Tcp.acked, Tcp.acked, hsent, hflight]
  omega

/-- An acknowledgement from the peer is for what the peer has received. -/
theorem AckSide.ack (hy : Link iss' iss y x) (hsnd : SndSide iss queued p) (hinv : SendInv p a)
    (hactive : p.state.isActive = true) (hs : s ∈ y.net) (hrst : flagIsset s.flg flgRst = false)
    (hack : flagIsset s.flg flgAck = true) (hle : p.snd.una ≤ s.ack) (hge : s.ack ≤ p.snd.nxt)
    (hsent : p'.hist.sent = p.hist.sent) (hnxt : p'.snd.nxt = p.snd.nxt)
    (huna : p'.snd.una = s.ack) : AckSide y p' := by
  obtain ⟨hn, a', -, ha', hacked⟩ := hinv.ack_between hactive hle hge
  have heq : Tcp.acked p' = a' := by
    have hflight : (p.snd.nxt - s.ack).toNat = p.hist.sent.length - a' := by
      rw [BitVec.toNat_sub_of_le hge]
      omega
    rw [Tcp.acked, hsent, hnxt, huna, hflight]
    omega
  constructor
  · intro c q hq hstarted hfin
    obtain ⟨-, m, hm, hsack⟩ := hy.acks s hs c q hq hstarted hrst hack hfin
    have hmod : s.ack.toNat ≤ iss.toNat + 1 + m := by
      rw [hsack]
      bv_omega
    rw [heq]
    rw [hsnd.initial] at hacked
    omega
  · intro hb
    exact absurd (hy.begun_of_net hs hrst) (by simp [hb])

/-! ## One step of a connection -/

/-- What a step leaves of a connection. -/
structure Inside (iss iss' : U32) (queued taken : List U8) (y : Side) (p p' : TcpPcb) : Prop where
  started : Started p'
  snd : SndSide iss queued p'
  rcv : RcvSide iss' taken y p'
  acked : AckSide y p'
  synced : p.hist.synced = true → p'.hist.synced = true
  rcvd : p.hist.rcvd <+: p'.hist.rcvd
  fin : p.hist.fin = true → p'.hist.fin = true

/-- A step that moves neither side of the connection. -/
theorem Link.unmoved (hx : Link iss iss' x y) (hp : x.tcp.get d = some p) (hstarted : Started p)
    (hiss : p'.iss = p.iss) (hsnd : p'.snd = p.snd) (hsent : p'.hist.sent = p.hist.sent)
    (hsynced : p'.hist.synced = p.hist.synced) (hrcvd : p'.hist.rcvd = p.hist.rcvd)
    (hfin : p'.hist.fin = p.hist.fin) (hbuf : p'.buf = p.buf) (hnxt : p'.rcv.nxt = p.rcv.nxt)
    (hqueue : ∀ e' ∈ p'.queue, ∃ e ∈ p.queue, e'.flg = e.flg ∧ e'.seq = e.seq ∧ e'.data = e.data)
    (hcan : p'.state.canSend = true → p.state.canSend = true)
    (hsyn : p'.state = .synSent → p.state = .synSent) :
    Inside iss iss' x.queued x.taken y p p' where
  started h := hstarted (hsent.symm.trans h)
  snd := (hx.snd d p hp hstarted).congr hiss hsent hqueue (fun h ↦ hsynced ▸ h) hcan
  rcv := (hx.rcv d p hp hstarted).congr hbuf hsynced hrcvd hfin hnxt hsyn
  acked := (hx.acked d p hp hstarted).congr (by rw [Tcp.acked, Tcp.acked, hsent, hsnd])
  synced h := hsynced ▸ h
  rcvd := hrcvd ▸ List.prefix_rfl
  fin h := hfin ▸ h

theorem begins_of_listen (hselect : pcbSelect x.tcp.pcbs s.dst s.src = some d)
    (hp : x.tcp.get d = some p) (hstate : p.state = .listen)
    (htarget : p.mode = .rfc ∨ p.backlog.length < p.backlogMax ∧ x.tcp.pcbAlloc.isSome = true)
    (hrst : flagIsset s.flg flgRst = false) (hack : flagIsset s.flg flgAck = false)
    (hsyn : flagIsset s.flg flgSyn = true) : begins env x.tcp (.arrive s) = true := by
  rcases htarget with hmode | ⟨hroom, halloc⟩
  · simp [begins, hrst, hack, hsyn, hselect, hp, hstate, hmode]
  · simp [begins, hrst, hack, hsyn, hselect, hp, hstate, hroom, halloc]

/-- A SYN is received in SYN_SENT. -/
theorem Link.inside_synSent {acceptable : Bool} (hx : Link iss iss' x y) (hy : Link iss' iss y x)
    (hp : x.tcp.get d = some p) (hstarted : Started p) (hs : s ∈ y.net)
    (hstate : p.state = .synSent) (hrst : flagIsset s.flg flgRst = false)
    (hsyn : flagIsset s.flg flgSyn = true)
    (hack : acceptable = true → flagIsset s.flg flgAck = true ∧ p.iss < s.ack ∧
      p.snd.una ≤ s.ack ∧ s.ack ≤ p.snd.nxt) :
    Inside iss iss' x.queued x.taken y p (synInSynSent env p s.info acceptable).1 := by
  have hactive : p.state.isActive = true := by simp [hstate, TcpState.isActive]
  have hcan : p.state.canSend = true := by simp [hstate, TcpState.canSend]
  have hsnd := hx.snd d p hp hstarted
  have hrcv := hx.rcv d p hp hstarted
  obtain ⟨a, hinv⟩ := hx.sendInv hp
  have hunsynced := hrcv.opening hstate
  have hseq := ((hy.net s hs hrst).syn hsyn).1
  have hbegun := hy.begun_of_net hs hrst
  obtain ⟨q, hq, hcases⟩ := synInSynSent_cases env p s.info acceptable
  obtain ⟨snd, queue, heq, hside⟩ := takeSyn_eq p s.info acceptable
  rw [heq] at hq
  -- What the two endings have in common.
  have hmid : ∀ state snd' new, snd'.nxt = snd.nxt → snd'.una = snd.una → state ≠ .synSent →
      (∀ e ∈ new, Carries iss x.queued e.flg e.seq e.data) →
      Inside iss iss' x.queued x.taken y p
        { q with state := state, snd := snd', queue := queue ++ new } := by
    intro state snd' new hnxt huna hstate' hnew
    have hentries : ∀ e ∈ queue, ∃ e₀ ∈ p.queue,
        e.flg = e₀.flg ∧ e.seq = e₀.seq ∧ e.data = e₀.data := by
      rcases hside with ⟨-, -, rfl⟩ | ⟨-, -, rfl⟩
      · exact mem_same
      · exact mem_dropWhile_same
    subst hq
    constructor
    · exact hstarted
    · refine ⟨hsnd.initial, hsnd.le, fun _ ↦ hsnd.eq hcan, fun e he ↦ ⟨?_, fun h ↦ ?_⟩⟩
      · rcases List.mem_append.mp he with he | he
        · obtain ⟨e₀, he₀, hflg, hseq, hdata⟩ := hentries e he
          rw [hflg, hseq, hdata]
          exact (hsnd.queue e₀ he₀).1
        · exact hnew e he
      · exact absurd h (by simp)
    · exact hrcv.syn hstate rfl rfl rfl (by rw [← hseq]; rfl) hstate' hbegun
    · rcases hside with ⟨-, rfl, -⟩ | ⟨hacc, rfl, -⟩
      · refine (hx.acked d p hp hstarted).congr ?_
        rw [Tcp.acked, Tcp.acked, hnxt, huna]
      · obtain ⟨hflag, -, hle, hge⟩ := hack hacc
        exact AckSide.ack hy hsnd hinv hactive hs hrst hflag hle hge rfl hnxt huna
    · exact fun _ ↦ rfl
    · rw [(hrcv.unsynced hunsynced).1]
    · intro hfin
      exact absurd ((hrcv.unsynced hunsynced).2.symm.trans hfin) (by simp)
  rcases hcases with ⟨-, hcase⟩ | ⟨-, hcase⟩
  · rw [hcase]
    have hend := hmid .established
      { q.snd with
        wnd := s.info.wnd
        wl1 := s.info.seq
        wl2 := s.info.ack } [] (by rw [hq]) (by rw [hq]) (by simp) (by simp)
    rw [List.append_nil] at hend
    simpa [hq] using hend
  · rw [hcase]
    have hentry : ∀ e ∈ [queueEntry env q.iss (flgSyn ||| flgAck) []],
        Carries iss x.queued e.flg e.seq e.data := by
      intro e he
      obtain rfl := List.mem_singleton.mp he
      exact .of_syn (by rw [hq]; exact hsnd.initial) rfl
    have hend := hmid .synReceived q.snd [queueEntry env q.iss (flgSyn ||| flgAck) []]
      (by rw [hq]) (by rw [hq]) (by simp) hentry
    simpa [hq] using hend

/-- A step of the block of a connection by itself. -/
theorem BlockStep.inside {es : List Effect} (hx : Link iss iss' x y) (hy : Link iss' iss y x)
    (hp : x.tcp.get d = some p) (hstarted : Started p) (hnew : begins env x.tcp ev = false)
    (hnet : ∀ s, ev = .arrive s → s ∈ y.net) (hblock : BlockStep env x.tcp d ev p es reply p') :
    Inside iss iss' (x.queued ++ queuedBy ev reply) (x.taken ++ takenBy reply) y p p' := by
  have hsnd := hx.snd d p hp hstarted
  have hrcv := hx.rcv d p hp hstarted
  have hacked := hx.acked d p hp hstarted
  cases hblock with
  | mss m | bind l _ =>
      simp only [queuedBy, takenBy, List.append_nil]
      exact hx.unmoved hp hstarted rfl rfl rfl rfl rfl rfl rfl rfl mem_same id id
  | listen n _ =>
      simp only [queuedBy, takenBy, List.append_nil]
      exact hx.unmoved hp hstarted rfl rfl rfl rfl rfl rfl rfl rfl mem_same
        (by simp [TcpState.canSend]) (by simp)
  | connectFails _ | interrupted =>
      simp only [queuedBy, takenBy, List.append_nil]
      exact hx.unmoved hp hstarted rfl rfl rfl rfl rfl rfl rfl rfl mem_same
        (by simp [TcpState.canSend]) (by simp)
  | syn l r hlocal _ | synFails l r hlocal _ =>
      exact absurd (begins_of_connects hp hlocal) (by simp [hnew])
  | passive s hselect hstate hmode hrst hack hsyn =>
      have hbegins : begins env x.tcp (.arrive s) = true :=
        begins_of_listen hselect hp hstate (.inl hmode) hrst hack hsyn
      exact absurd hbegins (by simp [hnew])
  | synSent s acceptable _ hstate hrst hsyn hack =>
      simp only [queuedBy, takenBy, List.append_nil]
      exact hx.inside_synSent hy hp hstarted (hnet s rfl) hstate hrst hsyn hack
  | fin state hstate =>
      have hfrom : p.state.gotSyn = true ∧ p.state.canSend = true ∧ state.canSend = false ∧
          state ≠ .synSent := by
        rcases hstate with ⟨hs | hs, rfl⟩ | ⟨hs, rfl⟩ <;>
          simp [hs, TcpState.gotSyn, TcpState.canSend]
      obtain ⟨hsyn, hcan, hnot, hne⟩ := hfrom
      obtain ⟨a, hinv⟩ := hx.sendInv hp
      have hsynced := (hx.rcvInv hp).synced hsyn
      have hroom := hinv.room hcan
      simp only [queuedBy, takenBy, List.append_nil]
      refine ⟨?_, hsnd.fin hsynced hnot, ?_, hacked.congr ?_, ?_, ?_, ?_⟩
      · rw [sendFin_eq]
        simp [Started]
      · rw [sendFin_eq]
        exact hrcv.congr rfl rfl rfl rfl rfl fun hs ↦ absurd hs hne
      · rw [sendFin_eq]
        refine acked_send (n := 1) (by simp) rfl rfl ?_
        rw [hinv.inFlight]
        omega
      · rw [sendFin_eq]
        exact id
      · rw [sendFin_eq]
      · rw [sendFin_eq]
        exact id
  | data data sent n hstate _ hn hcap =>
      have hfrom : p.state.gotSyn = true ∧ p.state.canSend = true ∧ p.state.isActive = true := by
        rcases hstate with hs | hs <;>
          simp [hs, TcpState.gotSyn, TcpState.canSend, TcpState.isActive]
      obtain ⟨hsyn, hcan, hactive⟩ := hfrom
      obtain ⟨a, hinv⟩ := hx.sendInv hp
      have hsynced := (hx.rcvInv hp).synced hsyn
      have hfit := length_le_of_sendCap hn hcap
      have hwnd := p.snd.wnd.isLt
      simp only [queuedBy, takenBy, List.append_nil]
      generalize (data.drop sent).take n = chunk at hfit ⊢
      refine ⟨?_, hsnd.data hinv hactive hcan hsynced chunk, ?_, hacked.congr ?_, ?_, ?_, ?_⟩
      · rw [sendData_eq]
        simpa [Started] using fun h : p.hist.sent = [] ↦ absurd h hstarted
      · rw [sendData_eq]
        exact hrcv.congr rfl rfl rfl rfl rfl id
      · rw [sendData_eq]
        exact acked_send (n := chunk.length) (by simp) rfl rfl (by omega)
      · rw [sendData_eq]
        exact id
      · rw [sendData_eq]
      · rw [sendData_eq]
        exact id
  | take len n wnd _ _ _ _ =>
      simp only [queuedBy, takenBy, List.append_nil]
      refine ⟨hstarted, hsnd.congr rfl rfl mem_same id id, ?_, hacked.congr rfl, id,
        List.prefix_rfl, id⟩
      refine ⟨?_, hrcv.opening, hrcv.unsynced, hrcv.begun, hrcv.count, hrcv.got⟩
      change x.taken ++ p.buf.take n ++ p.buf.drop n = p.hist.rcvd
      rw [List.append_assoc, List.take_append_drop, hrcv.buf]

/-- A segment past SYN_SENT. -/
theorem Arrived.inside (hx : Link iss iss' x y) (hy : Link iss' iss y x)
    (hp : x.tcp.get d = some p) (hs : s ∈ y.net) (hreach : ReachesAck p s)
    (harrived : Arrived p s p') : Inside iss iss' x.queued x.taken y p p' := by
  have hstarted := hx.started hp hreach.state.1 hreach.state.2.1
  have hsnd := hx.snd d p hp hstarted
  have hrcv := hx.rcv d p hp hstarted
  obtain ⟨a, hinv⟩ := hx.sendInv hp
  have hcarries := hy.net s hs hreach.rst
  have hrcv' : RcvSide iss' x.taken y p' :=
    hrcv.arrived (hx.rcvInv hp) hreach harrived hcarries fun hfin ↦ hy.room d p hp hstarted hfin
  have hactive := TcpState.isActive_of_ne hreach.state.1 hreach.state.2.1
  obtain ⟨hstep, hiss, hsent⟩ := harrived.send
  obtain ⟨-, hsynced, hrcvd, hfin⟩ := harrived.receive
  have hentries : ∀ e ∈ p'.queue, ∃ e₀ ∈ p.queue,
      e.flg = e₀.flg ∧ e.seq = e₀.seq ∧ e.data = e₀.data := by
    rcases hstep with ⟨-, hqueue⟩ | ⟨-, -, -, hqueue⟩
    · rw [hqueue]
      exact mem_same
    · rw [hqueue]
      exact mem_dropWhile_same
  refine ⟨fun h ↦ hstarted (hsent.symm.trans h),
    hsnd.congr hiss hsent hentries (fun h ↦ hsynced.symm.trans h) harrived.canSend, hrcv', ?_,
    fun h ↦ hsynced.trans h, hrcvd, hfin⟩
  rcases hstep with ⟨hsame, -⟩ | ⟨hnew, hnxt, huna, -⟩
  · refine (hx.acked d p hp hstarted).congr ?_
    rw [Tcp.acked, Tcp.acked, hsent, hsame]
  · exact AckSide.ack hy hsnd hinv hactive hs hreach.rst hreach.ack (BitVec.le_of_lt hnew.2.1)
      hnew.2.2 hsent hnxt huna

/-- **One step of a connection** that does not begin one.  Unless it is the step of
this very block, it puts nothing into the logs. -/
theorem Evolve.inside (hx : Link iss iss' x y) (hy : Link iss' iss y x)
    (hp : x.tcp.get d = some p) (hstarted : Started p) (hnew : begins env x.tcp ev = false)
    (hnet : ∀ s, ev = .arrive s → s ∈ y.net)
    (hlogs : queuedBy ev reply = [] ∧ takenBy reply = [])
    (hevolve : Evolve env x.tcp d reply ev p p') :
    Inside iss iss' (x.queued ++ queuedBy ev reply) (x.taken ++ takenBy reply) y p p' := by
  cases hevolve with
  | block hblock => exact hblock.inside hx hy hp hstarted hnew hnet
  | keep backlog mss accepted _ =>
      rw [hlogs.1, hlogs.2, List.append_nil, List.append_nil]
      exact hx.unmoved hp hstarted rfl rfl rfl rfl rfl rfl rfl rfl mem_same id id
  | arrived s _ hreach harrived =>
      rw [hlogs.1, hlogs.2, List.append_nil, List.append_nil]
      exact harrived.inside hx hy hp (hnet s rfl) hreach
  | tick =>
      rw [hlogs.1, hlogs.2, List.append_nil, List.append_nil]
      rcases retransEmit_cases env p with heq | ⟨f, hf, heq⟩
      · rw [heq]
        exact hx.unmoved hp hstarted rfl rfl rfl rfl rfl rfl rfl rfl mem_same
          (by simp [TcpState.canSend]) (by simp)
      · rw [heq]
        refine hx.unmoved hp hstarted rfl rfl rfl rfl rfl rfl rfl rfl ?_ id id
        intro e he
        obtain ⟨e₀, he₀, rfl⟩ := List.mem_map.mp he
        exact ⟨e₀, he₀, (hf e₀).2.1, (hf e₀).1, (hf e₀).2.2⟩

/-- A step of a block outside any connection that does not begin one. -/
theorem Evolve.outside (hx : Link iss iss' x y) (hp : x.tcp.get d = some p)
    (hnot : ¬ Started p) (hnew : begins env x.tcp ev = false)
    (hevolve : Evolve env x.tcp d reply ev p p') :
    ¬ Started p' ∧ Fresh iss p' ∧ (p.queue = [] → p'.queue = []) := by
  have hfresh := hx.fresh d p hp hnot
  have hstate := hfresh.state
  cases hevolve with
  | keep backlog mss accepted _ => exact ⟨hnot, ⟨hstate, hfresh.buf, hfresh.queue⟩, id⟩
  | arrived s _ hreach _ =>
      rcases hstate with hs | hs
      · exact absurd hs hreach.state.1
      · exact absurd hs hreach.state.2.1
  | tick =>
      rcases retransEmit_cases env p with heq | ⟨f, hf, heq⟩
      · rw [heq]
        exact ⟨hnot, ⟨.inl rfl, hfresh.buf, hfresh.queue⟩, id⟩
      · rw [heq]
        refine ⟨hnot, ⟨hstate, hfresh.buf, ?_⟩, fun h ↦ by simp [h]⟩
        intro e he
        obtain ⟨e₀, he₀, rfl⟩ := List.mem_map.mp he
        rw [(hf e₀).2.1, (hf e₀).1, (hf e₀).2.2]
        exact hfresh.queue e₀ he₀
  | block hblock =>
      cases hblock with
      | mss m | bind l _ => exact ⟨hnot, ⟨hstate, hfresh.buf, hfresh.queue⟩, id⟩
      | listen n _ => exact ⟨hnot, ⟨.inr rfl, hfresh.buf, hfresh.queue⟩, id⟩
      | connectFails _ | interrupted => exact ⟨hnot, ⟨.inl rfl, hfresh.buf, hfresh.queue⟩, id⟩
      | syn l r hlocal _ | synFails l r hlocal _ =>
          exact absurd (begins_of_connects hp hlocal) (by simp [hnew])
      | passive s hselect hstate hmode hrst hack hsyn =>
          have hbegins : begins env x.tcp (.arrive s) = true :=
            begins_of_listen hselect hp hstate (.inl hmode) hrst hack hsyn
          exact absurd hbegins (by simp [hnew])
      | synSent s acceptable _ hs _ _ _ => rcases hstate with h | h <;> simp [h] at hs
      | fin state hs => rcases hstate with h | h <;> simp [h] at hs
      | data data sent n hs _ _ _ => rcases hstate with h | h <;> simp [h] at hs
      | take len n wnd hs _ _ _ => rcases hstate with h | h <;> simp [h, TcpState.takesText] at hs

/-- A new block that does not begin a connection. -/
theorem Birth.outside (iss : U32) {task : TaskId} {es : List Effect} {c : TcpDesc} {tcp' : Tcp}
    (halloc : x.tcp.pcbAlloc = some (c, tcp')) (hnew : begins env x.tcp ev = false)
    (h : Birth env x.tcp d task ev es reply p) :
    ¬ Started p ∧ Fresh iss p ∧ p.queue = [] := by
  cases h with
  | socket => exact ⟨fun h ↦ h rfl, ⟨.inl rfl, rfl, by simp [TcpPcb.empty]⟩, rfl⟩
  | listen l r => exact ⟨fun h ↦ h rfl, ⟨.inr rfl, rfl, by simp [TcpPcb.empty]⟩, rfl⟩
  | syn l l' r hopens _ => exact absurd (begins_of_opens hopens) (by simp [hnew])
  | child s l q child hselect hq hstate hmode hroom hrst hack hsyn _ =>
      have hbegins : begins env x.tcp (.arrive s) = true :=
        begins_of_listen hselect hq hstate (.inr ⟨hroom, by simp [halloc]⟩) hrst hack hsyn
      exact absurd hbegins (by simp [hnew])

theorem Reply.quiet_logs (h : reply.quiet = true) (ev : Event) :
    queuedBy ev reply = [] ∧ takenBy reply = [] := by
  cases reply with
  | queued n => simp [Reply.quiet] at h
  | bytes data => exact ⟨by cases ev <;> rfl, by simpa [Reply.quiet, takenBy] using h⟩
  | _ => exact ⟨by cases ev <;> rfl, rfl⟩

/-- Only a connection puts something into the logs. -/
theorem Move.logs {out : Outcome} (h : Move env x.tcp ev out)
    (hlogs : ¬ (queuedBy ev out.reply = [] ∧ takenBy out.reply = [])) :
    ∃ c r r' es, x.tcp.get c = some r ∧ BlockStep env x.tcp c ev r es out.reply r' ∧
      out.tcp = x.tcp.set c r' ∧ r.state ≠ .closed ∧ r.state ≠ .listen := by
  cases h with
  | idle hquiet _ => exact absurd (Reply.quiet_logs hquiet ev) hlogs
  | drop es _ _ hquiet _ _ _ => exact absurd (Reply.quiet_logs hquiet ev) hlogs
  | @work ev reply es c r r' hr hblock =>
      refine ⟨c, r, r', es, hr, hblock, rfl, ?_⟩
      cases hblock with
      | data data sent n hstate _ _ _ => rcases hstate with h | h <;> simp [h]
      | take len n wnd hstate _ _ _ =>
          cases hs : r.state <;> simp_all [TcpState.takesText]
      | _ => exact absurd ⟨rfl, rfl⟩ hlogs
  | birth _ hbirth => cases hbirth <;> exact absurd ⟨rfl, rfl⟩ hlogs
  | pop _ _ _ hr => rcases hr with ⟨rfl, -⟩ | ⟨rfl, -⟩ <;> exact absurd ⟨rfl, rfl⟩ hlogs
  | _ => exact absurd ⟨rfl, rfl⟩ hlogs

/-- **One step of a side** that does not begin a connection, block by block. -/
theorem Link.step_blocks {out : Outcome} (hx : Link iss iss' x y) (hy : Link iss' iss y x)
    (hnew : begins env x.tcp ev = false) (hnet : ∀ s, ev = .arrive s → s ∈ y.net)
    (hmove : Move env x.tcp ev out) (hp' : out.tcp.get d = some p') :
    (∃ p, x.tcp.get d = some p ∧ Started p ∧
      Inside iss iss' (x.queued ++ queuedBy ev out.reply) (x.taken ++ takenBy out.reply) y p p') ∨
    (¬ Started p' ∧ Fresh iss p' ∧ (x.begun = false → p'.queue = [])) := by
  by_cases hlogs : queuedBy ev out.reply = [] ∧ takenBy out.reply = []
  · have hold : ∀ p, x.tcp.get d = some p → Evolve env x.tcp d out.reply ev p p' →
        (∃ p, x.tcp.get d = some p ∧ Started p ∧ Inside iss iss' (x.queued ++ queuedBy ev out.reply)
          (x.taken ++ takenBy out.reply) y p p') ∨
        (¬ Started p' ∧ Fresh iss p' ∧ (x.begun = false → p'.queue = [])) := by
      intro p hp hevolve
      by_cases hstarted : Started p
      · exact .inl ⟨p, hp, hstarted, hevolve.inside hx hy hp hstarted hnew hnet hlogs⟩
      · obtain ⟨h₁, h₂, h₃⟩ := hevolve.outside hx hp hstarted hnew
        exact .inr ⟨h₁, h₂, fun hb ↦ h₃ ((hx.idle hb).blocks d p hp).2⟩
    rcases hmove.blocks with ⟨-, hblocks⟩ | ⟨c, q, tcp', halloc, -, hbirth, hget⟩
    · obtain ⟨p, hp, hevolve⟩ := hblocks d p' hp'
      exact hold p hp hevolve
    · rw [hget] at hp'
      split at hp'
      · cases hp'
        obtain ⟨h₁, h₂, h₃⟩ := hbirth.outside iss halloc hnew
        exact .inr ⟨h₁, h₂, fun _ ↦ h₃⟩
      · exact hold p' hp' (.refl env x.tcp d out.reply ev p')
  · obtain ⟨c, r, r', es, hr, hblock, hout, h₁, h₂⟩ := hmove.logs hlogs
    have hstarted := hx.started hr h₁ h₂
    rw [hout, get_set hr] at hp'
    split at hp'
    · next hd =>
      subst hd
      cases hp'
      exact .inl ⟨r, hr, hstarted, hblock.inside hx hy hr hstarted hnew hnet⟩
    · next hd =>
      have hnot : ¬ Started p' := fun h ↦ hd (hx.unique d c p' r hp' hr h hstarted)
      exact .inr ⟨hnot, hx.fresh d p' hp' hnot, fun hb ↦ ((hx.idle hb).blocks d p' hp').2⟩

end

end Microps.Tcp
