import Microps.Tcp.Decision

/-!
# Moving the numbers of a connection

Two different decisions have different results, but for those that come to a plain
acknowledgement: a segment whose number is not acceptable, one whose ACK field is
beyond `snd.nxt`, and one that is let through and has nothing new.  So moving the
numbers of a connection changes nothing exactly when it leaves the decision as it is,
or leads from one of these to another.
-/

namespace Microps.Tcp

/-- What is known of a decision on the block `p` and the segment `s`, wherever their
numbers lie. -/
def Possible (p : TcpPcb) (s : TcpSegment) : Decision → Prop
  | .synSent (.acked n) =>
      p.state = .synSent ∧ n ≤ p.queue.length ∧ flagIsset s.flg flgAck = true
  | .synSent .early => p.state = .synSent ∧ (flagIsset s.flg flgAck = true → s.ack ≠ p.snd.una)
  | .synSent _ => p.state = .synSent
  | .check _ => p.state ≠ .synSent ∧ asksAck s = false
  | .ack .refuse => p.state = .synReceived ∧ asksAck s = true
  | .ack (.pass (some (n, window))) =>
      (p.state = .synReceived ∨ p.state.isOpen = true) ∧ asksAck s = true ∧ s.ack ≠ p.snd.una ∧
        n ≤ p.queue.length ∧ (p.snd.wl1 = s.seq → p.snd.wl2 = s.ack → window = true)
  | .ack _ => p.state ≠ .synSent ∧ asksAck s = true

/-- The segment brings nothing new, but has to be acknowledged: its text is out of order
or exceeds the window, or it is a FIN that has been consumed before. -/
def Repeats (env : Env) (p : TcpPcb) (s : TcpSegment) : Prop :=
  p.state ≠ .synReceived ∧ p.state ≠ .lastAck ∧
    p.state.afterAck (s.ack = p.snd.nxt) = p.state ∧
    (hasText p s.data ∧ ¬ fits p s.info s.data ∨
      ¬ hasText p s.data ∧ flagIsset s.flg flgFin = true ∧ p.rcv.nxt = s.seq + 1 ∧
        p.state.afterFin (s.ack = p.snd.nxt) = p.state ∧
        (p.state = .timeWait → p.twTimer = env.now + timewaitSec))

/-- The decisions that come to an acknowledgement when the segment brings nothing new. -/
def Decision.idle : Decision → Bool
  | .ack .answer | .ack (.pass none) => true
  | _ => false

section

variable {env : Env} {tcp : Tcp} {d : TcpDesc} {p : TcpPcb} {s : TcpSegment}

theorem dropped_le (p : TcpPcb) (ack : U32) : dropped p ack ≤ p.queue.length :=
  List.findIdx_le_length

theorem possible_news (hstate : p.state = .synReceived ∨ p.state.isOpen = true)
    (hask : asksAck s = true) : Possible p s (.ack (.pass (news p s.info))) := by
  have hsent : p.state ≠ .synSent := by
    rintro heq
    simp [heq, TcpState.isOpen] at hstate
  unfold news
  split
  · next hnew =>
    refine ⟨hstate, hask, ?_, dropped_le p _, fun hseq hack ↦ ?_⟩
    · intro heq
      have hlt : p.snd.una < s.ack := hnew.1
      rw [heq] at hlt
      exact absurd hlt (BitVec.lt_irrefl _)
    · simp [updatesWindow, TcpSegment.info, hseq, hack]
  · exact ⟨hsent, hask⟩

theorem possible_synSent {v : SynVerdict} (h : Possible p s (.synSent v)) : p.state = .synSent := by
  cases v with
  | acked n => exact h.1
  | early => exact h.1
  | refuse | ignore | release | both => exact h

theorem possible_ack {v : Verdict} (h : Possible p s (.ack v)) :
    p.state ≠ .synSent ∧ asksAck s = true := by
  cases v with
  | answer => exact h
  | refuse => exact ⟨by simp [h.1], h.2⟩
  | pass news =>
      cases news with
      | none => exact h
      | some n =>
          refine ⟨fun hsent ↦ ?_, h.2.1⟩
          exact absurd h.1 (by simp [hsent, TcpState.isOpen])

/-- The decision that is made is a possible one. -/
theorem possible_decision (p : TcpPcb) (s : TcpSegment) : Possible p s (decision p s) := by
  unfold decision
  split
  · next hstate =>
    unfold synVerdict
    simp only
    split
    · exact hstate
    next hbad =>
    split
    · split
      · exact hstate
      · exact hstate
    split
    · split
      · next hgood =>
        simp only [decide_eq_true_eq] at hgood
        exact ⟨hstate, dropped_le p _, hgood.1⟩
      next hgood =>
      split
      · -- What equals `snd.una` would be acceptable.
        refine ⟨hstate, fun hack heq ↦ hgood ?_⟩
        have hle : s.ack ≤ p.snd.nxt := by
          by_contra hlt
          exact hbad ⟨hack, .inr (by simpa using hlt)⟩
        simp only [decide_eq_true_eq]
        exact ⟨hack, heq ▸ BitVec.le_refl _, hle⟩
      · exact hstate
    · exact hstate
  next hstate =>
  split
  · next hask =>
    unfold verdict
    split
    · exact ⟨hstate, hask⟩
    split
    · next hs =>
      split
      · exact possible_news (.inl hs) hask
      · exact ⟨hs, hask⟩
    iterate 4
      · next hs =>
        split
        · exact ⟨hstate, hask⟩
        · exact possible_news (.inr (by rw [hs]; rfl)) hask
    · exact ⟨hstate, hask⟩
  · next hask => exact ⟨hstate, by simpa using hask⟩

/-- It stays possible when the numbers are moved. -/
theorem Possible.shift {v : Decision} (h : Possible p s v) (k m : U32) :
    Possible (p.shift k m) (s.shift k m) v := by
  have hack : (s.shift k m).ack = (p.shift k m).snd.una ↔ s.ack = p.snd.una := by
    simp [TcpSegment.shift, TcpPcb.shift, SndVars.shift]
  have hseq : (p.shift k m).snd.wl1 = (s.shift k m).seq ↔ p.snd.wl1 = s.seq := by
    simp [TcpSegment.shift, TcpPcb.shift, SndVars.shift]
  have hwl2 : (p.shift k m).snd.wl2 = (s.shift k m).ack ↔ p.snd.wl2 = s.ack := by
    simp [TcpSegment.shift, TcpPcb.shift, SndVars.shift]
  have hlen : (p.shift k m).queue.length = p.queue.length := by simp [TcpPcb.shift]
  cases v with
  | check acceptable => exact h
  | synSent v =>
      cases v with
      | acked n => exact ⟨h.1, hlen ▸ h.2.1, h.2.2⟩
      | early => exact ⟨h.1, fun hflg heq ↦ h.2 hflg (hack.mp heq)⟩
      | refuse | ignore | release | both => exact h
  | ack v =>
      cases v with
      | answer | refuse => exact h
      | pass news =>
          cases news with
          | none => exact h
          | some n =>
              obtain ⟨hstate, hask, hne, hle, hwindow⟩ := h
              exact ⟨hstate, hask, fun heq ↦ hne (hack.mp heq), hlen ▸ hle,
                fun h₁ h₂ ↦ hwindow (hseq.mp h₁) (hwl2.mp h₂)⟩

/-- Whether a segment brings nothing new does not depend on where the numbers lie. -/
theorem repeats_shift (env : Env) (p : TcpPcb) (s : TcpSegment) (k m : U32) :
    Repeats env (p.shift k m) (s.shift k m) ↔ Repeats env p s := by
  have hall : (s.shift k m).ack = (p.shift k m).snd.nxt ↔ s.ack = p.snd.nxt :=
    shift_ack_eq_nxt k m p s.info
  have htext : hasText (p.shift k m) s.data ↔ hasText p s.data := Iff.rfl
  have hnxt : (p.shift k m).rcv.nxt = (s.shift k m).seq + 1 ↔ p.rcv.nxt = s.seq + 1 := by
    simp only [TcpPcb.shift, TcpSegment.shift]
    rw [add_right_comm, add_left_inj]
  simp only [Repeats, shift_state, shift_data, shift_flg, shift_info, fits_shift, hall, htext, hnxt]
  rfl

/-! ## Different decisions have different results -/

/-- What can be seen of a block and of the effects. -/
theorem seen_of_visible {r r' : Tcp × List Effect} (h : visible r = visible r') (d : TcpDesc) :
    (r.1.get d).map TcpPcb.visible = (r'.1.get d).map TcpPcb.visible ∧
      r.2.map Effect.visible = r'.2.map Effect.visible := by
  have hget : ∀ r : Tcp × List Effect,
      (visible r).1.get d = (r.1.get d).map TcpPcb.visible := by
    intro r
    simp only [visible, Tcp.get, Slots.peek, List.getElem?_map]
    cases r.1.pcbs[d]? with
    | none => rfl
    | some slot => rfl
  exact ⟨by rw [← hget, ← hget, h], congrArg Prod.snd h⟩

/-- Results that differ in the block only. -/
theorem visible_set_iff (hp : tcp.get d = some p) {a b : TcpPcb} {es es' : List Effect} :
    visible (tcp.set d a, es) = visible (tcp.set d b, es') ↔
      a.visible = b.visible ∧ es.map Effect.visible = es'.map Effect.visible := by
  constructor
  · intro h
    obtain ⟨hblock, heffects⟩ := seen_of_visible h d
    rw [get_set hp, get_set hp, if_pos rfl, if_pos rfl] at hblock
    exact ⟨Option.some.inj hblock, heffects⟩
  · rintro ⟨hblock, heffects⟩
    simp [visible, Tcp.set, Slots.put, List.map_set, hblock, heffects]

/-- The result of a decision that goes no further. -/
theorem halt_inj (hp : tcp.get d = some p) {q q' : TcpPcb} {es es' : List Effect}
    {parent parent' : Option TcpDesc}
    (h : (finish env tcp d s (.halt q es, parent)).map visible =
      (finish env tcp d s (.halt q' es', parent')).map visible) :
    q.visible = q'.visible ∧ es.map Effect.visible = es'.map Effect.visible := by
  exact (visible_set_iff hp).mp (Except.ok.inj h)

theorem halt_block (hp : tcp.get d = some p) {q p' : TcpPcb} {es : List Effect}
    {parent : Option TcpDesc} {r : Tcp × List Effect} (hget : r.1.get d = some p')
    (h : (finish env tcp d s (.halt q es, parent)).map visible =
      (Except.ok r : Checked (Tcp × List Effect)).map visible) : q.visible = p'.visible := by
  obtain ⟨hblock, -⟩ := seen_of_visible (Except.ok.inj h) d
  rw [get_set hp, if_pos rfl, hget] at hblock
  exact Option.some.inj hblock

theorem halt_ne_release (hp : tcp.get d = some p) {q q' : TcpPcb} {es es' : List Effect}
    {parent parent' : Option TcpDesc} (htask : q'.task = p.task) (hbacklog : q'.backlog = p.backlog) :
    (finish env tcp d s (.halt q es, parent)).map visible ≠
      (finish env tcp d s (.release q' es', parent')).map visible := by
  intro h
  obtain ⟨hblock, -⟩ := seen_of_visible (Except.ok.inj h) d
  have hfree : (closeAndRelease env tcp d q').1.get d = none := by
    rw [closeAndRelease_alike env hp htask hbacklog]
    exact (pcbRelease_closed_spec env hp).1.freed
  rw [get_set hp, if_pos rfl] at hblock
  exact absurd (hblock.trans (congrArg _ hfree)) (by simp)

/-- The state and the number of effects tell most verdicts of SYN_SENT apart. -/
def SynVerdict.mark : SynVerdict → TcpState × Nat
  | .refuse => (.synSent, 1)
  | .ignore => (.synSent, 0)
  | .release => (.closed, 0)
  | .acked _ | .early => (.established, 2)
  | .both => (.synReceived, 1)

theorem synFlow_halt (env : Env) (hstate : p.state = .synSent) {v : SynVerdict} (hv : v ≠ .release) :
    ∃ q es, synFlow env p s v = .halt q es ∧ (q.state, es.length) = v.mark := by
  cases v with
  | release => exact absurd rfl hv
  | refuse => exact ⟨_, _, rfl, by rw [hstate]; rfl⟩
  | ignore => exact ⟨_, _, rfl, by rw [hstate]; rfl⟩
  | acked n => exact ⟨_, _, rfl, rfl⟩
  | early => exact ⟨_, _, rfl, rfl⟩
  | both => exact ⟨_, _, rfl, rfl⟩

/-- In SYN_SENT. -/
theorem synFlow_inj (hp : tcp.get d = some p) {v v' : SynVerdict} (hv : Possible p s (.synSent v))
    (hv' : Possible p s (.synSent v'))
    (h : (finish env tcp d s (synFlow env p s v, none)).map visible =
      (finish env tcp d s (synFlow env p s v', none)).map visible) : v = v' := by
  have hstate := possible_synSent hv
  by_cases hr : v = .release
  · by_cases hr' : v' = .release
    · rw [hr, hr']
    · obtain ⟨q, es, heq, -⟩ := synFlow_halt (s := s) env hstate hr'
      rw [hr, heq] at h
      exact absurd h.symm (halt_ne_release hp rfl rfl)
  by_cases hr' : v' = .release
  · obtain ⟨q, es, heq, -⟩ := synFlow_halt (s := s) env hstate hr
    rw [hr', heq] at h
    exact absurd h (halt_ne_release hp rfl rfl)
  obtain ⟨q, es, heq, hmark⟩ := synFlow_halt (s := s) env hstate hr
  obtain ⟨q', es', heq', hmark'⟩ := synFlow_halt (s := s) env hstate hr'
  have hhalt := h
  rw [heq, heq'] at hhalt
  obtain ⟨hblock, heffects⟩ := halt_inj hp hhalt
  have hsame : v.mark = v'.mark := by
    rw [← hmark, ← hmark']
    have hs : q.visible.state = q'.visible.state := congrArg TcpPcb.state hblock
    have hs : q.state = q'.state := hs
    have hl : es.length = es'.length := by simpa using congrArg List.length heffects
    rw [hs, hl]
  -- What is left are the two ways to be established.
  have hne : ∀ n, Possible p s (.synSent (.acked n)) → Possible p s (.synSent .early) →
      s.ack ≠ p.snd.una := fun n hn he ↦ he.2 hn.2.2
  cases v with
  | acked n =>
      cases v' with
      | acked n' =>
          have hqueue : p.queue.drop n = p.queue.drop n' :=
            congrArg TcpPcb.queue (halt_inj hp h).1
          have hlen := congrArg List.length hqueue
          rw [List.length_drop, List.length_drop] at hlen
          have hn := hv.2.1
          have hn' := hv'.2.1
          congr 1
          omega
      | early => exact absurd (congrArg (·.snd.una) (halt_inj hp h).1) (hne n hv hv')
      | refuse | ignore | release | both => exact absurd hsame (by simp [SynVerdict.mark])
  | early =>
      cases v' with
      | acked n' => exact absurd (congrArg (·.snd.una) (halt_inj hp h).1).symm (hne n' hv' hv)
      | early => rfl
      | refuse | ignore | release | both => exact absurd hsame (by simp [SynVerdict.mark])
  | refuse | ignore | release | both =>
      cases v' <;> first | rfl | exact absurd hsame (by simp [SynVerdict.mark])

/-- For a segment that does not reach the ACK step. -/
theorem checkFlow_inj (hp : tcp.get d = some p) {a a' : Bool}
    (h : (finish env tcp d s (checkFlow p s a, none)).map visible =
      (finish env tcp d s (checkFlow p s a', none)).map visible) : a = a' := by
  have hdiffer : (finish env tcp d s (checkFlow p s false, none)).map visible ≠
      (finish env tcp d s (checkFlow p s true, none)).map visible := by
    simp only [checkFlow]
    split
    · exact halt_ne_release hp rfl rfl
    next hrst =>
    split
    · exact halt_ne_release hp rfl rfl
    next hsyn =>
    intro h
    exact absurd (congrArg List.length (halt_inj hp h).2) (by simp)
  cases a with
  | false =>
      cases a' with
      | false => rfl
      | true => exact absurd h hdiffer
  | true =>
      cases a' with
      | false => exact absurd h.symm hdiffer
      | true => rfl

/-- The result of a decision that goes on to the text. -/
theorem finish_go (env : Env) (hp : tcp.get d = some p) {q : TcpPcb} (htask : q.task = p.task)
    (es : List Effect) (parent : Option TcpDesc) :
    ∃ r p' self notes es', finish env tcp d s (.go q es, parent) = .ok r ∧ r.1.get d = some p' ∧
      textAndFin env { q with backlog := q.backlog ++ self } s.info s.flg s.data = .ok (p', es') ∧
      r.2 = es ++ notes ++ es' ∧
      (parent = none → self = [] ∧ notes = [] ∧ r.1 = tcp.set d p') := by
  obtain ⟨tcp', self, notes, ⟨x, hx⟩, -, hnone, hjoin⟩ := joinBacklog_set hp parent
  have hget : ∀ y, (tcp'.set d y).get d = some y := fun y ↦ by rw [get_set hx, if_pos rfl]
  simp only [finish, hjoin q htask, hget, unwrap, bind, Except.bind]
  have htext := textAndFin_eq env { q with backlog := q.backlog ++ self } s.info s.flg s.data
  revert htext
  generalize (if hasText { q with backlog := q.backlog ++ self } s.data then _ else _) = r
  intro htext
  refine ⟨_, r.1, self, notes, r.2, by rw [htext]; rfl, ?_, htext, rfl, fun h ↦ ?_⟩
  · rw [set_set, hget]
  · obtain ⟨rfl, rfl, rfl⟩ := hnone h
    exact ⟨rfl, rfl, by rw [set_set]⟩

/-- What is new leaves the rest of the block alone. -/
theorem takeNews_keeps (p : TcpPcb) (seg : SegInfo) (news : Option (Nat × Bool)) :
    (takeNews p seg news).state = p.state ∧ (takeNews p seg news).snd.nxt = p.snd.nxt ∧
      (takeNews p seg news).twTimer = p.twTimer ∧ (takeNews p seg news).task = p.task ∧
      (takeNews p seg news).buf = p.buf ∧ (takeNews p seg news).rcv = p.rcv := by
  cases news with
  | none => exact ⟨rfl, rfl, rfl, rfl, rfl, rfl⟩
  | some n =>
      obtain ⟨n, window⟩ := n
      cases window <;> exact ⟨rfl, rfl, rfl, rfl, rfl, rfl⟩

/-- The ACK step of a segment that goes on, outside LAST_ACK. -/
theorem passFlow_eq (env : Env) {news : Option (Nat × Bool)}
    (hstate : p.state ≠ .closed ∧ p.state ≠ .listen)
    (hv : Possible p s (.ack (.pass news))) (hlast : p.state ≠ .lastAck) :
    ∃ tw es parent, passFlow env p s news = (.go { takeNews p s.info news with
        state := p.state.afterAck (s.ack = p.snd.nxt), twTimer := tw } es, parent) ∧
      (p.state ≠ .synReceived → parent = none) ∧
      (p.state ≠ .synReceived → p.state.afterAck (s.ack = p.snd.nxt) = p.state → es = [] ∧
        tw = if p.state = .timeWait ∧ flagIsset s.flg flgFin = true then env.now + timewaitSec
          else p.twTimer) := by
  have hnone : p.state ≠ .synReceived → p.state.isOpen = false → news = none := by
    intro hsr hopen
    cases news with
    | none => rfl
    | some n =>
        rcases hv.1 with h | h
        · exact absurd h hsr
        · exact absurd h (by simp [hopen])
  obtain ⟨hstate', hnxt, htw, -⟩ := takeNews_keeps p s.info news
  have hgo : ∀ state, ({ takeNews p s.info news with state := state } : TcpPcb) =
      { takeNews p s.info news with state := state, twTimer := p.twTimer } := by
    intro state
    rw [← htw]
  have hopen : p.state.isOpen = true → ackFinWait1 (takeNews p s.info news) s.info =
      { takeNews p s.info news with
        state := p.state.afterAck (s.ack = p.snd.nxt), twTimer := p.twTimer } := by
    intro hopen
    rw [ackFinWait1_eq s.info (by rw [hstate', hopen]), hstate', hnxt, hgo]
    rfl
  unfold passFlow
  cases hs : p.state with
  | closed => exact absurd hs hstate.1
  | listen => exact absurd hs hstate.2
  | synSent => exact absurd hs (possible_ack hv).1
  | lastAck => exact absurd hs hlast
  | synReceived =>
      refine ⟨p.twTimer, [.notify p.task], p.parentDesc, ?_, fun h ↦ absurd rfl h,
        fun h ↦ absurd rfl h⟩
      simp only [hgo]
      rfl
  | established | closeWait | finWait1 | finWait2 =>
      simp only
      rw [hopen (by rw [hs]; rfl)]
      exact ⟨p.twTimer, [], none, by rw [hs], fun _ ↦ rfl, fun _ _ ↦ ⟨rfl, by simp⟩⟩
  | closing =>
      obtain rfl : news = none := hnone (by simp [hs]) (by simp [hs, TcpState.isOpen])
      simp only [ackStates, hs]
      by_cases hall : s.ack = p.snd.nxt
      · rw [if_pos (show s.info.ack = p.snd.nxt from hall)]
        refine ⟨env.now + timewaitSec, [.notify p.task], none, ?_, fun _ ↦ rfl, ?_⟩
        · simp [takeNews, setTimewaitTimer, hall, TcpState.afterAck]
        · simp [hall, TcpState.afterAck]
      · rw [if_neg (show ¬ s.info.ack = p.snd.nxt from hall)]
        refine ⟨p.twTimer, [], none, ?_, fun _ ↦ rfl, fun _ _ ↦ ⟨rfl, by simp⟩⟩
        simp [takeNews, hall, TcpState.afterAck, ← hs]
  | timeWait =>
      obtain rfl : news = none := hnone (by simp [hs]) (by simp [hs, TcpState.isOpen])
      simp only [ackStates, hs]
      split
      · next hfin =>
        refine ⟨env.now + timewaitSec, [], none, ?_, fun _ ↦ rfl, fun _ _ ↦ ⟨rfl, by simp [hfin]⟩⟩
        simp [takeNews, setTimewaitTimer, TcpState.afterAck, ← hs]
      · next hfin =>
        refine ⟨p.twTimer, [], none, ?_, fun _ ↦ rfl, fun _ _ ↦ ⟨rfl, by simp [hfin]⟩⟩
        simp [takeNews, TcpState.afterAck, ← hs]

theorem takeNews_inj {news news' : Option (Nat × Bool)} (hv : Possible p s (.ack (.pass news)))
    (hv' : Possible p s (.ack (.pass news')))
    (hsnd : (takeNews p s.info news).snd = (takeNews p s.info news').snd)
    (hqueue : (takeNews p s.info news).queue = (takeNews p s.info news').queue) : news = news' := by
  have huna : ∀ n window, (takeNews p s.info (some (n, window))).snd.una = s.ack := by
    intro n window
    cases window <;> rfl
  cases news with
  | none =>
      cases news' with
      | none => rfl
      | some n' =>
          have heq : p.snd.una = s.ack := (congrArg SndVars.una hsnd).trans (huna n'.1 n'.2)
          exact absurd heq.symm hv'.2.2.1
  | some n =>
      obtain ⟨n, window⟩ := n
      cases news' with
      | none =>
          have heq : s.ack = p.snd.una := (huna n window).symm.trans (congrArg SndVars.una hsnd)
          exact absurd heq hv.2.2.1
      | some n' =>
          obtain ⟨n', window'⟩ := n'
          obtain ⟨-, -, -, hn, hwindow⟩ := hv
          obtain ⟨-, -, -, hn', hwindow'⟩ := hv'
          have hlen : (p.queue.drop n).length = (p.queue.drop n').length := congrArg List.length hqueue
          rw [List.length_drop, List.length_drop] at hlen
          obtain rfl : n = n' := by omega
          -- The update is lost only where there is nothing to update.
          have hsame : window = window' := by
            cases window with
            | true =>
                cases window' with
                | true => rfl
                | false =>
                    have hwl1 : s.seq = p.snd.wl1 := congrArg SndVars.wl1 hsnd
                    have hwl2 : s.ack = p.snd.wl2 := congrArg SndVars.wl2 hsnd
                    exact (hwindow' hwl1.symm hwl2.symm).symm
            | false =>
                cases window' with
                | false => rfl
                | true =>
                    have hwl1 : p.snd.wl1 = s.seq := congrArg SndVars.wl1 hsnd
                    have hwl2 : p.snd.wl2 = s.ack := congrArg SndVars.wl2 hsnd
                    exact hwindow hwl1 hwl2
          rw [hsame]

/-- A segment that goes on, outside LAST_ACK. -/
theorem finish_pass (env : Env) (hp : tcp.get d = some p) {news : Option (Nat × Bool)}
    (hstate : p.state ≠ .closed ∧ p.state ≠ .listen) (hv : Possible p s (.ack (.pass news)))
    (hlast : p.state ≠ .lastAck) :
    ∃ (r : Tcp × List Effect) (q p' : TcpPcb) (es : List Effect),
      finish env tcp d s (passFlow env p s news) = .ok r ∧ r.1.get d = some p' ∧
      textAndFin env q s.info s.flg s.data = .ok (p', es) ∧
      q.state = p.state.afterAck (s.ack = p.snd.nxt) ∧ q.snd = (takeNews p s.info news).snd ∧
      q.queue = (takeNews p s.info news).queue := by
  obtain ⟨tw, es, parent, heq, -⟩ := passFlow_eq env hstate hv hlast
  obtain ⟨r, p', self, notes, es', hr, hp', htext, -⟩ :=
    finish_go (s := s) env hp (q := { takeNews p s.info news with
      state := p.state.afterAck (s.ack = p.snd.nxt), twTimer := tw })
      (takeNews_keeps p s.info news).2.2.2.1 es parent
  rw [heq]
  exact ⟨r, _, p', es', hr, hp', htext, rfl, rfl, rfl⟩

/-- In LAST_ACK a segment that goes on acknowledges everything, or does nothing. -/
theorem passFlow_lastAck (env : Env) (s : TcpSegment) (news : Option (Nat × Bool))
    (hlast : p.state = .lastAck) :
    passFlow env p s news = (.release { p with state := .closed } [], none) ∨
      passFlow env p s news = (.halt p [], none) := by
  simp only [passFlow, hlast, ackStates]
  split
  · exact .inl rfl
  · exact .inr rfl

/-- Segments that both go on have different news. -/
theorem pass_inj (hp : tcp.get d = some p) (hstate : p.state ≠ .closed ∧ p.state ≠ .listen)
    {news news' : Option (Nat × Bool)} (hv : Possible p s (.ack (.pass news)))
    (hv' : Possible p s (.ack (.pass news')))
    (h : (finish env tcp d s (passFlow env p s news)).map visible =
      (finish env tcp d s (passFlow env p s news')).map visible) : news = news' := by
  by_cases hlast : p.state = .lastAck
  · have hnone : ∀ news, Possible p s (.ack (.pass news)) → news = none := by
      rintro (_ | n) hv
      · rfl
      · exact absurd hv.1 (by simp [hlast, TcpState.isOpen])
    rw [hnone news hv, hnone news' hv']
  obtain ⟨r, q, p', es, hr, hget, htext, hq, hsnd, hqueue⟩ := finish_pass env hp hstate hv hlast
  obtain ⟨r', q', p'', es', hr', hget', htext', hq', hsnd', hqueue'⟩ :=
    finish_pass env hp hstate hv' hlast
  rw [hr, hr'] at h
  obtain ⟨hblock, -⟩ := seen_of_visible (Except.ok.inj h) d
  rw [hget, hget'] at hblock
  have hblock : p'.visible = p''.visible := Option.some.inj hblock
  have hafter := afterAck_ne (s.ack = p.snd.nxt) hstate.1 hstate.2
  obtain ⟨hs, hl⟩ := textAndFin_send (by rwa [hq]) htext
  obtain ⟨hs', hl'⟩ := textAndFin_send (by rwa [hq']) htext'
  apply takeNews_inj hv hv'
  · rw [← hsnd, ← hsnd', ← hs, ← hs']
    show p'.visible.snd = p''.visible.snd
    rw [hblock]
  · rw [← hqueue, ← hqueue', ← hl, ← hl']
    show p'.visible.queue = p''.visible.queue
    rw [hblock]

/-! ## Acknowledgements -/

/-- A FIN that changes no state is acknowledged. -/
theorem checkFin_again (env : Env) {q : TcpPcb} (seg : SegInfo) {flags : U8}
    (hfin : flagIsset flags flgFin = true) (hstate : q.state ≠ .closed ∧ q.state ≠ .listen)
    (hsame : q.state.afterFin (seg.ack = q.snd.nxt) = q.state) :
    checkFin env q seg flags = (consumeFin q seg, [.emit (ackOf (consumeFin q seg))]) := by
  have hcond : ¬ (q.state = .closed ∨ q.state = .listen) := by tauto
  have hst : (consumeFin q seg).state = q.state := rfl
  unfold checkFin
  rw [if_pos hfin, if_neg hcond]
  simp only [hst]
  cases hs : q.state with
  | closed => exact absurd hs hstate.1
  | listen => exact absurd hs hstate.2
  | synReceived | established | finWait2 =>
      rw [hs] at hsame
      exact absurd hsame (by simp [TcpState.afterFin])
  | finWait1 =>
      rw [hs, TcpState.afterFin] at hsame
      split at hsame <;> exact absurd hsame (by simp)
  | synSent | closeWait | closing | lastAck | timeWait => rfl

@[simp] theorem ackOf_visible (p : TcpPcb) : (Effect.emit (ackOf p)).visible = .emit (ackOf p) := by
  have hack : flagIsset flgAck flgAck = true := by decide
  simp [Effect.visible, TcpSegment.visible, ackOf, outputSegment, hack]

/-- The text and FIN steps come to a plain acknowledgement exactly when there is nothing
new. -/
theorem textAndFin_acks_iff (env : Env) {q : TcpPcb} (s : TcpSegment)
    (hstate : q.state ≠ .closed ∧ q.state ≠ .listen) {r : TcpPcb × List Effect}
    (h : textAndFin env q s.info s.flg s.data = .ok r) :
    q.visible = r.1.visible ∧ [.emit (ackOf q)] = r.2.map Effect.visible ↔
      hasText q s.data ∧ ¬ fits q s.info s.data ∨
        ¬ hasText q s.data ∧ flagIsset s.flg flgFin = true ∧ q.rcv.nxt = s.seq + 1 ∧
          q.state.afterFin (s.ack = q.snd.nxt) = q.state := by
  rw [textAndFin_eq] at h
  obtain rfl := Except.ok.inj h
  by_cases htext : hasText q s.data
  · rw [if_pos htext]
    by_cases hfit : fits q s.info s.data
    · rw [if_pos hfit]
      refine iff_of_false (fun hsame ↦ ?_) (by tauto)
      have hlen := congrArg List.length hsame.2
      simp at hlen
    · rw [if_neg hfit]
      exact iff_of_true ⟨rfl, by simp⟩ (.inl ⟨htext, hfit⟩)
  rw [if_neg htext]
  cases hfin : flagIsset s.flg flgFin with
  | false =>
      rw [checkFin_noFin env q s.info hfin]
      exact iff_of_false (by simp) (by simp [htext])
  | true =>
      constructor
      · rintro ⟨hblock, heffects⟩
        obtain ⟨tw, es, heq, -⟩ := checkFin_fin env (p := q) s.info hfin hstate
        rw [heq] at hblock
        have hnxt : q.rcv.nxt = s.seq + 1 := congrArg (·.rcv.nxt) hblock
        have hsame : q.state = q.state.afterFin (s.ack = q.snd.nxt) := congrArg TcpPcb.state hblock
        exact .inr ⟨htext, rfl, hnxt, hsame.symm⟩
      · rintro (h | ⟨-, -, hnxt, hsame⟩)
        · exact absurd h.1 htext
        · rw [checkFin_again env s.info hfin hstate hsame]
          have hrcv : (consumeFin q s.info).rcv = q.rcv := by
            show { q.rcv with nxt := s.seq + 1 } = q.rcv
            rw [← hnxt]
          have hack : ackOf (consumeFin q s.info) = ackOf q := by
            simp only [ackOf, hrcv]
            rfl
          refine ⟨?_, by simp [hack]⟩
          show q.visible = { q.visible with rcv := (consumeFin q s.info).rcv }
          rw [hrcv]
          rfl

/-- The time-wait timer after the ACK step, in a state that stays. -/
def keptTimer (env : Env) (p : TcpPcb) (s : TcpSegment) : Nat :=
  if p.state = .timeWait ∧ flagIsset s.flg flgFin = true then env.now + timewaitSec else p.twTimer

/-- A segment that goes on without news and leaves the state as it is. -/
theorem finish_pass_stays (env : Env) (hp : tcp.get d = some p)
    (hstate : p.state ≠ .closed ∧ p.state ≠ .listen) (hv : Possible p s (.ack (.pass none)))
    (hsr : p.state ≠ .synReceived) (hlast : p.state ≠ .lastAck)
    (hsame : p.state.afterAck (s.ack = p.snd.nxt) = p.state) :
    ∃ r, textAndFin env { p with twTimer := keptTimer env p s } s.info s.flg s.data = .ok r ∧
      finish env tcp d s (passFlow env p s none) = .ok (tcp.set d r.1, r.2) := by
  obtain ⟨tw, es, parent, heq, hparent, hstays⟩ := passFlow_eq env hstate hv hlast
  obtain ⟨rfl, rfl⟩ := hstays hsr hsame
  rw [hparent hsr, hsame] at heq
  obtain ⟨r, p', self, notes, es', hr, -, htext, hes, hnone⟩ :=
    finish_go (s := s) env hp (q := { p with twTimer := keptTimer env p s }) rfl [] none
  obtain ⟨rfl, rfl, hset⟩ := hnone rfl
  rw [List.append_nil] at htext
  refine ⟨(p', es'), htext, ?_⟩
  rw [heq]
  refine Eq.trans hr (congrArg Except.ok ?_)
  exact Prod.ext hset hes

/-- In TIME_WAIT the FIN step leaves the timer alone. -/
theorem textAndFin_timer (env : Env) {q : TcpPcb} (s : TcpSegment) (hstate : q.state = .timeWait)
    {r : TcpPcb × List Effect} (h : textAndFin env q s.info s.flg s.data = .ok r) :
    r.1.twTimer = q.twTimer := by
  have htext : ¬ hasText q s.data := fun h ↦ absurd h.1 (by simp [hstate, TcpState.takesText])
  rw [textAndFin_eq, if_neg htext] at h
  obtain rfl := Except.ok.inj h
  cases hfin : flagIsset s.flg flgFin with
  | false => rw [checkFin_noFin env q s.info hfin]
  | true =>
      rw [checkFin_again env s.info hfin (by simp [hstate]) (by simp [hstate, TcpState.afterFin])]
      rfl

/-- A state that is found again after the ACK and FIN steps was never left. -/
theorem stays_of_afterFin {state : TcpState} {all : Bool}
    (h : state.afterAck all = state ∨ (state.afterAck all).afterFin all = state) :
    state ≠ .synReceived ∧ state.afterAck all = state := by
  cases all <;> cases state <;> simp_all [TcpState.afterAck, TcpState.afterFin]

theorem textAndFin_state {q p' : TcpPcb} {seg : SegInfo} {flags : U8} {data : List U8}
    {es : List Effect} (hstate : q.state ≠ .closed ∧ q.state ≠ .listen)
    (h : textAndFin env q seg flags data = .ok (p', es)) :
    p'.state = q.state ∨ p'.state = q.state.afterFin (seg.ack = q.snd.nxt) := by
  rcases textAndFin_cases hstate h with ⟨-, -, rfl, -⟩ | ⟨-, -, -, rfl, -⟩ | ⟨-, -, tw, rfl, -⟩ |
    ⟨-, -, -, tw, rfl, -⟩
  · exact .inl rfl
  · exact .inl rfl
  · exact .inr rfl
  · exact .inr rfl

/-- A segment that goes on and is acknowledged only has no news and leaves the state as it
is. -/
theorem stays_of_answer (hp : tcp.get d = some p) (hstate : p.state ≠ .closed ∧ p.state ≠ .listen)
    (hlast : p.state ≠ .lastAck) {news : Option (Nat × Bool)}
    (hv : Possible p s (.ack (.pass news)))
    (h : (finish env tcp d s (flow env p s (.ack .answer))).map visible =
      (finish env tcp d s (flow env p s (.ack (.pass news)))).map visible) :
    news = none ∧ p.state ≠ .synReceived ∧ p.state.afterAck (s.ack = p.snd.nxt) = p.state := by
  obtain ⟨r, q, p', es, hr, hget, htext, hq, hsnd, hqueue⟩ := finish_pass env hp hstate hv hlast
  simp only [flow] at h
  rw [hr] at h
  have hblock := halt_block hp hget h
  have hafter := afterAck_ne (s.ack = p.snd.nxt) hstate.1 hstate.2
  have hseen : p.visible.state = p'.visible.state := congrArg TcpPcb.state hblock
  have hnxt : q.snd.nxt = p.snd.nxt := by rw [hsnd, (takeNews_keeps p s.info news).2.1]
  obtain ⟨hs, hl⟩ := textAndFin_send (by rwa [hq]) htext
  refine ⟨?_, stays_of_afterFin ?_⟩
  · have hpass : Possible p s (.ack (.pass none)) := possible_ack hv
    apply takeNews_inj hv hpass
    · rw [← hsnd, ← hs]
      show p'.visible.snd = p.visible.snd
      rw [hblock]
    · rw [← hqueue, ← hl]
      show p'.visible.queue = p.visible.queue
      rw [hblock]
  · rw [← hq]
    have hcases := textAndFin_state (by rwa [hq]) htext
    rw [hnxt] at hcases
    rcases hcases with heq | heq
    · exact .inl (hseen.trans heq).symm
    · exact .inr (hseen.trans heq).symm

/-- An acknowledgement is what becomes of a segment that goes on exactly when it brings
nothing new. -/
theorem answer_pass_iff (hp : tcp.get d = some p) (hstate : p.state ≠ .closed ∧ p.state ≠ .listen)
    {news : Option (Nat × Bool)} (hv : Possible p s (.ack (.pass news))) :
    (finish env tcp d s (flow env p s (.ack .answer))).map visible =
      (finish env tcp d s (flow env p s (.ack (.pass news)))).map visible ↔
    news = none ∧ Repeats env p s := by
  by_cases hlast : p.state = .lastAck
  · refine iff_of_false (fun h ↦ ?_) fun h ↦ absurd hlast h.2.2.1
    simp only [flow] at h
    rcases passFlow_lastAck env s news hlast with heq | heq
    · rw [heq] at h
      exact absurd h (halt_ne_release hp rfl rfl)
    · rw [heq] at h
      exact absurd (halt_inj hp h).2 (by simp)
  constructor
  · intro h
    obtain ⟨rfl, hsr, hsame⟩ := stays_of_answer hp hstate hlast hv h
    obtain ⟨r, htext, hr⟩ := finish_pass_stays env hp hstate hv hsr hlast hsame
    simp only [flow] at h
    rw [hr] at h
    obtain ⟨hblock, heffects⟩ := (visible_set_iff hp).mp (Except.ok.inj h)
    have htimer : keptTimer env p s = p.twTimer := by
      by_cases htw : p.state = .timeWait
      · have hseen : p.visible.twTimer = r.1.visible.twTimer := congrArg TcpPcb.twTimer hblock
        have hkeep := textAndFin_timer env (q := { p with twTimer := keptTimer env p s }) s htw htext
        exact hkeep.symm.trans hseen.symm
      · simp [keptTimer, htw]
    rw [htimer] at htext
    refine ⟨rfl, hsr, hlast, hsame, ?_⟩
    rcases (textAndFin_acks_iff env s hstate htext).mp ⟨hblock, by simpa using heffects⟩ with
      h | ⟨hno, hfin, hnxt, hst⟩
    · exact .inl h
    · refine .inr ⟨hno, hfin, hnxt, hst, fun htw ↦ ?_⟩
      rw [← htimer, keptTimer, if_pos ⟨htw, hfin⟩]
  · rintro ⟨rfl, hsr, -, hsame, hnew⟩
    obtain ⟨r, htext, hr⟩ := finish_pass_stays env hp hstate hv hsr hlast hsame
    have htimer : keptTimer env p s = p.twTimer := by
      unfold keptTimer
      split
      · next htw =>
        rcases hnew with h | h
        · exact absurd h.1.1 (by simp [htw.1, TcpState.takesText])
        · exact (h.2.2.2.2 htw.1).symm
      · rfl
    rw [htimer] at htext
    simp only [flow]
    rw [hr]
    refine congrArg Except.ok ((visible_set_iff hp).mpr ?_)
    have hacks := (textAndFin_acks_iff env s hstate htext).mpr (by tauto)
    exact ⟨hacks.1, by simpa using hacks.2⟩

/-- A reset is no acknowledgement. -/
theorem answer_ne_refuse (hp : tcp.get d = some p) :
    (finish env tcp d s (flow env p s (.ack .answer))).map visible ≠
      (finish env tcp d s (flow env p s (.ack .refuse))).map visible := by
  intro h
  have heffects := (halt_inj hp h).2
  have hflg : flgAck ≠ flgRst := by decide
  simp only [List.map_cons, List.map_nil, ackOf_visible, rstFor_visible] at heffects
  simp [rstFor, ackOf, outputSegment, hflg] at heffects

/-- A segment that goes on leaves SYN_RECEIVED. -/
theorem refuse_ne_pass (hp : tcp.get d = some p) (hstate : p.state ≠ .closed ∧ p.state ≠ .listen)
    {news : Option (Nat × Bool)} (hv : Possible p s (.ack .refuse))
    (hv' : Possible p s (.ack (.pass news))) :
    (finish env tcp d s (flow env p s (.ack .refuse))).map visible ≠
      (finish env tcp d s (flow env p s (.ack (.pass news)))).map visible := by
  intro h
  have hsr : p.state = .synReceived := hv.1
  obtain ⟨r, q, p', es, hr, hget, htext, hq, -⟩ := finish_pass env hp hstate hv' (by simp [hsr])
  simp only [flow] at h
  rw [hr] at h
  have hblock := halt_block hp hget h
  have hseen : p.visible.state = p'.visible.state := congrArg TcpPcb.state hblock
  have hseen : p.state = p'.state := hseen
  rw [hsr, TcpState.afterAck] at hq
  rcases textAndFin_state (by simp [hq]) htext with heq | heq
  · rw [hsr, heq, hq] at hseen
    exact absurd hseen (by simp)
  · rw [hsr, heq, hq] at hseen
    exact absurd hseen (by simp [TcpState.afterFin])

/-- **Two decisions have the same result** exactly when they are the same, or come to the
acknowledgement of a segment that brings nothing new. -/
theorem finish_flow_inj (hp : tcp.get d = some p) (hstate : p.state ≠ .closed ∧ p.state ≠ .listen)
    {v v' : Decision} (hv : Possible p s v) (hv' : Possible p s v') :
    (finish env tcp d s (flow env p s v)).map visible =
      (finish env tcp d s (flow env p s v')).map visible ↔
    v = v' ∨ Repeats env p s ∧ v.idle = true ∧ v'.idle = true := by
  cases v with
  | synSent v =>
      cases v' with
      | synSent v' =>
          simp only [Decision.idle, Bool.false_eq_true, and_false, or_false, Decision.synSent.injEq]
          exact ⟨synFlow_inj hp hv hv', fun h ↦ by rw [h]⟩
      | check a' => exact absurd (possible_synSent hv) hv'.1
      | ack v' => exact absurd (possible_synSent hv) (possible_ack hv').1
  | check a =>
      cases v' with
      | synSent v' => exact absurd (possible_synSent hv') hv.1
      | check a' =>
          simp only [Decision.idle, Bool.false_eq_true, and_false, or_false, Decision.check.injEq]
          exact ⟨checkFlow_inj hp, fun h ↦ by rw [h]⟩
      | ack v' => exact absurd (possible_ack hv').2 (by simp [hv.2])
  | ack v =>
      cases v' with
      | synSent v' => exact absurd (possible_synSent hv') (possible_ack hv).1
      | check a' => exact absurd (possible_ack hv).2 (by simp [hv'.2])
      | ack v' =>
          cases v with
          | answer =>
              cases v' with
              | answer => simp
              | refuse => simpa [Decision.idle] using answer_ne_refuse hp
              | pass news' =>
                  rw [answer_pass_iff hp hstate hv']
                  cases news' <;> simp [Decision.idle]
          | refuse =>
              cases v' with
              | answer => simpa [Decision.idle] using (answer_ne_refuse hp).symm
              | refuse => simp
              | pass news' => simpa [Decision.idle] using refuse_ne_pass hp hstate hv hv'
          | pass news =>
              cases v' with
              | answer =>
                  rw [eq_comm, answer_pass_iff hp hstate hv]
                  cases news <;> simp [Decision.idle]
              | refuse => simpa [Decision.idle] using (refuse_ne_pass hp hstate hv' hv).symm
              | pass news' =>
                  constructor
                  · intro h
                    exact .inl (by rw [pass_inj hp hstate hv hv' h])
                  · rintro (h | ⟨-, hidle, hidle'⟩)
                    · rw [h]
                    · cases news <;> cases news' <;> simp_all [Decision.idle]

/-- The block and its segment can be moved by `k` and `m` without a trace exactly when this
leaves the decision as it was, or the segment brings nothing new and is acknowledged by both
decisions. -/
theorem translates_iff_decision (env : Env) (hselect : pcbSelect tcp.pcbs s.dst s.src = some d)
    (hp : tcp.get d = some p) (hstate : p.state ≠ .closed ∧ p.state ≠ .listen) (k m : U32) :
    Translates env tcp d p s k m ↔
      decision (p.shift k m) (s.shift k m) = decision p s ∨
        Repeats env p s ∧ (decision (p.shift k m) (s.shift k m)).idle = true ∧
          (decision p s).idle = true := by
  have hget : (tcp.set d (p.shift k m)).get d = some (p.shift k m) := by
    rw [get_set hp, if_pos rfl]
  rw [translates_iff_finish env hselect hp hstate, finish_flow_inj hget hstate (possible_decision _ _)
    ((possible_decision p s).shift k m), repeats_shift]

end

end Microps.Tcp
