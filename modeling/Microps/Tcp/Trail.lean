import Microps.Lib.Chunks
import Microps.Tcp.EndToEnd
import Microps.Tcp.Queue
import Microps.Tcp.Window

/-!
# What is on its way

`Tcp.EndToEnd` says that nothing wrong arrives.  That something can arrive needs the converse of
its invariant: what `send` has queued was sent in chunks, every chunk is still on the network as a
segment that the peer has a use for, and the peer has received a whole number of them.

The chunks are the rounds of `send`.  A segment with data is one of them, at first and whenever it
is sent again, since the queue is not cut up; so what the peer takes from it ends where the next
one begins.
-/

namespace Microps.Tcp

/-! ## Segments with data -/

section

variable {env : Env} {tcp : Tcp} {d : TcpDesc} {ev : Event} {reply : Reply} {p p' : TcpPcb}
  {seg : TcpSegment} {out : Outcome}

/-- The answers to a segment past SYN_SENT have no data. -/
theorem textAndFin_data {q : TcpPcb} {s : TcpSegment} {es : List Effect}
    (hstate : q.state ≠ .closed ∧ q.state ≠ .listen)
    (h : textAndFin env q s.info s.flg s.data = .ok (p', es)) (hseg : .emit seg ∈ es) :
    seg.data = [] := by
  have hack : ∀ r, Effect.emit seg = .emit (ackOf r) → seg.data = [] := by
    rintro r heq
    cases heq
    rfl
  rcases textAndFin_cases hstate h with ⟨-, -, -, hes⟩ | ⟨-, -, -, -, rfl⟩ |
    ⟨-, -, tw, -, -, -, hes⟩ | ⟨-, -, -, tw, -, -, hes⟩
  · exact hack _ (hes _ hseg)
  · exact hack _ (by simpa using hseg)
  · rcases hes _ hseg with heq | ⟨heq, -⟩
    · exact hack _ heq
    · exact absurd heq (by simp)
  · rcases hes _ hseg with heq | heq | heq
    · exact hack _ heq
    · exact hack _ heq
    · exact absurd heq (by simp)

theorem BlockStep.bears {es : List Effect} (h : BlockStep env tcp d ev p es reply p')
    (hseg : .emit seg ∈ es) (hdata : seg.data ≠ []) : ∃ e ∈ p'.queue, seg = entrySegment p' e := by
  cases h with
  | mss m | bind l _ | listen n _ | connectFails _ | interrupted | take len n wnd _ _ _ _ =>
      exact absurd hseg (by simp)
  | syn l r _ _ | synFails l r _ _ =>
      rw [sendSyn_eq, List.mem_singleton] at hseg
      cases hseg
      exact absurd rfl hdata
  | passive s _ _ _ _ _ _ =>
      rw [passiveOpen_eq, List.mem_singleton] at hseg
      cases hseg
      exact absurd rfl hdata
  | synSent s acceptable _ _ _ _ _ =>
      obtain ⟨q, -, hcases⟩ := synInSynSent_cases env p s.info acceptable
      rcases hcases with ⟨-, hcase⟩ | ⟨-, hcase⟩
      · rw [hcase] at hseg
        obtain rfl : seg = ackOf q := by simpa using hseg
        exact absurd rfl hdata
      · rw [hcase, List.mem_singleton] at hseg
        cases hseg
        exact absurd rfl hdata
  | fin state _ =>
      rw [sendFin_eq] at hseg
      obtain rfl : seg = _ := by simpa using hseg
      exact absurd rfl hdata
  | data data sent n _ _ _ _ =>
      rw [sendData_eq] at hseg ⊢
      obtain rfl : seg = _ := by simpa using hseg
      have hchunk : (data.drop sent).take n ≠ [] := hdata
      refine ⟨_, List.mem_append_right _ ?_, rfl⟩
      rw [if_neg hchunk]
      exact List.mem_singleton_self _

/-- **Data is sent from a queue**, that of a block before the step or after it. -/
theorem Move.bears (h : Move env tcp ev out) (hseg : .emit seg ∈ out.effects)
    (hrst : flagIsset seg.flg flgRst = false) (hdata : seg.data ≠ []) :
    ∃ c r, (tcp.get c = some r ∨ out.tcp.get c = some r) ∧
      ∃ e ∈ r.queue, seg = entrySegment r e := by
  cases h with
  | idle _ hes =>
      obtain ⟨seg', heq, hanswer⟩ := hes _ hseg
      cases heq
      rcases hanswer with h | ⟨c, r, -, -, -, -, rfl⟩
      · exact absurd h (by simp [hrst])
      · exact absurd rfl hdata
  | work hr hblock => exact ⟨_, _, .inr (by rw [get_set hr, if_pos rfl]), hblock.bears hseg hdata⟩
  | birth _ hbirth =>
      cases hbirth with
      | socket | listen l r => exact absurd hseg (by simp)
      | syn l l' r _ _ =>
          rw [sendSyn_eq, List.mem_singleton] at hseg
          cases hseg
          exact absurd rfl hdata
      | child s l q child _ _ _ _ _ _ _ _ _ =>
          rw [passiveOpen_eq, List.mem_singleton] at hseg
          cases hseg
          exact absurd rfl hdata
  | stillborn _ _ hes =>
      rcases hes seg hseg with h | ⟨-, l', -, rfl⟩
      · exact absurd h (by simp [hrst])
      · rw [sendSyn_eq] at hdata
        exact absurd rfl hdata
  | drop es _ _ _ hes hdrained _ =>
      rcases List.mem_append.mp hseg with hseg | hseg
      · obtain ⟨seg', heq, h⟩ := hes _ hseg
        cases heq
        exact absurd h (by simp [hrst])
      · exact absurd (hdrained.drain.resets seg hseg) (by simp [hrst])
  | pass _ _ _ hreach hack htext =>
      rcases List.mem_append.mp hseg with hseg | hseg
      · exact absurd hseg hack.emits
      · have hpast := hack.past hreach
        exact absurd (textAndFin_data ⟨hpast.1, hpast.2.1⟩ htext hseg) hdata
  | @join s c l r r₁ r₂ r' parent es₁ es₂ _ _ _ _ hreach hack _ hr₂ htext =>
      have hpast := hack.past hreach
      have hstate : r₂.state = r₁.state := by
        rw [hr₂]
        split <;> rfl
      rcases List.mem_append.mp hseg with hseg | hseg
      · rcases List.mem_append.mp hseg with hseg | hseg
        · exact absurd hseg hack.emits
        · exact absurd hseg (by simp)
      · exact absurd (textAndFin_data (hstate ▸ ⟨hpast.1, hpast.2.1⟩) htext hseg) hdata
  | pop _ _ _ _ | accept _ _ _ _ _ => exact absurd hseg (by simp)
  | tick _ _ hes =>
      rcases hes seg hseg with h | ⟨c, r, hr, hemit⟩
      · exact absurd h (by simp [hrst])
      · exact ⟨c, r, .inl hr, emit_mem_retransEmit hemit⟩

/-- What a queue has on offer was there before, or has just been queued by `send`. -/
theorem Evolve.queues (h : Evolve env tcp d reply ev p p') {e' : TcpQueueEntry}
    (he' : e' ∈ p'.queue) (hdata : e'.data ≠ []) :
    (∃ e ∈ p.queue, e'.flg = e.flg ∧ e'.seq = e.seq ∧ e'.data = e.data) ∨
      (p.state = .established ∨ p.state = .closeWait) ∧ e'.flg = flgAck ||| flgPsh ∧
        e'.seq = p.snd.nxt ∧ e'.data = queuedBy ev reply := by
  have hold : e' ∈ p.queue → ∃ e ∈ p.queue, e'.flg = e.flg ∧ e'.seq = e.seq ∧ e'.data = e.data :=
    fun he ↦ ⟨e', he, rfl, rfl, rfl⟩
  have hnone : ∀ seq flg, e' ≠ queueEntry env seq flg [] := by
    rintro seq flg rfl
    exact hdata rfl
  cases h with
  | keep backlog mss accepted _ => exact .inl (hold he')
  | arrived s _ _ harrived =>
      obtain ⟨hsnd, -, -⟩ := harrived.send
      rcases hsnd with ⟨-, hqueue⟩ | ⟨-, -, -, hqueue⟩
      · exact .inl (hold (hqueue ▸ he'))
      · rw [hqueue] at he'
        exact .inl (hold ((List.dropWhile_suffix _).subset he'))
  | tick =>
      rcases retransEmit_cases env p with heq | ⟨f, hf, heq⟩
      · rw [heq] at he'
        exact .inl (hold he')
      · rw [heq] at he'
        obtain ⟨e, he, rfl⟩ := List.mem_map.mp he'
        exact .inl ⟨e, he, (hf e).2.1, (hf e).1, (hf e).2.2⟩
  | block hblock =>
      cases hblock with
      | mss m | bind l _ | listen n _ | connectFails _ | interrupted | take len n wnd _ _ _ _ =>
          exact .inl (hold he')
      | syn l r _ _ | synFails l r _ _ =>
          rw [sendSyn_eq] at he'
          rcases List.mem_append.mp he' with he' | he'
          · exact .inl (hold he')
          · exact absurd (List.mem_singleton.mp he') (hnone _ _)
      | passive s _ _ _ _ _ _ =>
          rw [passiveOpen_eq] at he'
          rcases List.mem_append.mp he' with he' | he'
          · exact .inl (hold he')
          · exact absurd (List.mem_singleton.mp he') (hnone _ _)
      | synSent s acceptable _ _ _ _ _ =>
          obtain ⟨q, hq, hcases⟩ := synInSynSent_cases env p s.info acceptable
          obtain ⟨snd, queue, heq, hside⟩ := takeSyn_eq p s.info acceptable
          have hentries : e' ∈ q.queue → e' ∈ p.queue := by
            rw [hq, heq]
            rcases hside with ⟨-, -, rfl⟩ | ⟨-, -, rfl⟩
            · exact id
            · exact fun he ↦ (List.dropWhile_suffix _).subset he
          rcases hcases with ⟨-, hcase⟩ | ⟨-, hcase⟩
          · rw [hcase] at he'
            exact .inl (hold (hentries he'))
          · rw [hcase] at he'
            rcases List.mem_append.mp he' with he' | he'
            · exact .inl (hold (hentries he'))
            · exact absurd (List.mem_singleton.mp he') (hnone _ _)
      | fin state _ =>
          rw [sendFin_eq] at he'
          rcases List.mem_append.mp he' with he' | he'
          · exact .inl (hold he')
          · exact absurd (List.mem_singleton.mp he') (hnone _ _)
      | data data sent n hstate _ _ _ =>
          rw [sendData_eq] at he'
          rcases List.mem_append.mp he' with he' | he'
          · exact .inl (hold he')
          · split at he'
            · exact absurd he' (by simp)
            · obtain rfl := List.mem_singleton.mp he'
              exact .inr ⟨hstate, rfl, rfl, rfl⟩

/-- What `send` queues it sends at once. -/
theorem Move.queues (h : Move env tcp ev out) (hne : queuedBy ev out.reply ≠ []) :
    (queuedBy ev out.reply).length ≤ 65535 ∧
      ∃ c r, tcp.get c = some r ∧ (r.state = .established ∨ r.state = .closeWait) ∧
        .emit (entrySegment r (queueEntry env r.snd.nxt (flgAck ||| flgPsh)
          (queuedBy ev out.reply))) ∈ out.effects := by
  have hloud : ∀ {reply : Reply}, reply.quiet = true → queuedBy ev reply ≠ [] → False :=
    fun hquiet hne ↦ hne (Reply.quiet_logs hquiet ev).1
  cases h with
  | idle hquiet _ => exact (hloud hquiet hne).elim
  | drop es _ _ hquiet _ _ _ => exact (hloud hquiet hne).elim
  | @work ev reply es c r r' hr hblock =>
      cases hblock with
      | data data sent n hstate _ hn hcap =>
          refine ⟨?_, _, _, hr, hstate, ?_⟩
          · have hfit := length_le_of_sendCap hn hcap
            have hwnd := r.snd.wnd.isLt
            change ((data.drop sent).take n).length ≤ 65535
            omega
          · rw [sendData_eq]
            exact List.mem_singleton_self _
      | _ => exact absurd rfl hne
  | birth _ hbirth => cases hbirth <;> exact absurd rfl hne
  | _ => exact absurd rfl hne

/-! ## Endpoints and windows -/

/-- A connection that does not begin was there before, with the same endpoints. -/
theorem Evolve.ends (h : Evolve env tcp d reply ev p p') (hp : tcp.get d = some p)
    (hnew : begins env tcp ev = false) (hactive : p'.state.isActive = true) :
    p.state.isActive = true ∧ p'.localEndp = p.localEndp ∧ p'.remoteEndp = p.remoteEndp := by
  cases h with
  | keep backlog mss accepted _ => exact ⟨hactive, rfl, rfl⟩
  | arrived s _ hreach harrived =>
      exact ⟨TcpState.isActive_of_ne hreach.state.1 hreach.state.2.1,
        harrived.endpoints.1.symm, harrived.endpoints.2.symm⟩
  | tick =>
      rcases retransEmit_cases env p with heq | ⟨f, hf, heq⟩
      · rw [heq] at hactive
        exact absurd hactive (by simp [TcpState.isActive])
      · rw [heq] at hactive ⊢
        exact ⟨hactive, rfl, rfl⟩
  | block hblock =>
      cases hblock with
      | mss m | take len n wnd _ _ _ _ => exact ⟨hactive, rfl, rfl⟩
      | bind l hstate => exact absurd hactive (by simp [hstate, TcpState.isActive])
      | listen n _ | connectFails _ | interrupted =>
          exact absurd hactive (by simp [TcpState.isActive])
      | syn l r hlocal _ | synFails l r hlocal _ =>
          exact absurd (begins_of_connects hp hlocal) (by simp [hnew])
      | passive s hselect hstate hmode hrst hack hsyn =>
          have hbegins : begins env tcp (.arrive s) = true :=
            begins_of_listen (x := { tcp := tcp }) hselect hp hstate (.inl hmode) hrst hack hsyn
          exact absurd hbegins (by simp [hnew])
      | synSent s acceptable _ hstate _ _ _ =>
          obtain ⟨q, hq, hcases⟩ := synInSynSent_cases env p s.info acceptable
          obtain ⟨snd, queue, heq, -⟩ := takeSyn_eq p s.info acceptable
          refine ⟨by simp [hstate, TcpState.isActive], ?_⟩
          subst hq
          rcases hcases with ⟨-, hcase⟩ | ⟨-, hcase⟩
          · rw [hcase, heq]
            exact ⟨rfl, rfl⟩
          · rw [hcase, heq]
            exact ⟨rfl, rfl⟩
      | fin state hstate =>
          rw [sendFin_eq]
          refine ⟨?_, rfl, rfl⟩
          rcases hstate with ⟨hs | hs, -⟩ | ⟨hs, -⟩ <;> simp [hs, TcpState.isActive]
      | data data sent n hstate _ _ _ =>
          rw [sendData_eq]
          refine ⟨?_, rfl, rfl⟩
          rcases hstate with hs | hs <;> simp [hs, TcpState.isActive]

/-- The window and the buffer of a connection that does not begin. -/
theorem Evolve.balanced (h : Evolve env tcp d reply ev p p') (hp : tcp.get d = some p)
    (hnew : begins env tcp ev = false) (hactive : p'.state.isActive = true)
    (hbalanced : ∃ accepted returned, Balanced accepted returned p) :
    ∃ accepted returned, Balanced accepted returned p' := by
  obtain ⟨accepted, returned, hbal⟩ := hbalanced
  have hlisten : p'.state ≠ .listen := by
    intro hs
    exact absurd hactive (by simp [hs, TcpState.isActive])
  cases h with
  | keep backlog mss accepted _ => exact ⟨_, _, hbal.congr rfl rfl hlisten⟩
  | arrived s _ hreach harrived => exact ⟨_, _, hbal.arrived hreach harrived⟩
  | tick =>
      rcases retransEmit_cases env p with heq | ⟨f, hf, heq⟩
      · rw [heq] at hlisten ⊢
        exact ⟨_, _, hbal.congr rfl rfl hlisten⟩
      · rw [heq] at hlisten ⊢
        exact ⟨_, _, hbal.congr rfl rfl hlisten⟩
  | block hblock =>
      by_cases hleaves : leavesConnection d ev = true
      · by_cases hrecv : ∃ len, ev = .receive d len
        · obtain ⟨len, rfl⟩ := hrecv
          cases hblock with
          | take len n wnd _ _ hn hwnd =>
              exact ⟨_, _, hbal.take (hn ▸ Nat.min_le_right _ _) hwnd⟩
        · exact ⟨_, _, hbal.block hblock hleaves fun len heq ↦ hrecv ⟨len, heq⟩⟩
      · cases hblock with
        | listen n _ => exact absurd rfl hlisten
        | syn l r hlocal _ | synFails l r hlocal _ =>
            exact absurd (begins_of_connects hp hlocal) (by simp [hnew])
        | _ => exact absurd rfl hleaves

/-- **The first segment** of a connection, and its window. -/
theorem Move.opens (h : Move env tcp ev out) (hnew : begins env tcp ev = true)
    (hfresh : ∀ d p, tcp.get d = some p → ¬ Started p) (hp' : out.tcp.get d = some p')
    (hstarted : Started p') :
    p'.rcv.wnd = recvBufSize ∧ ∃ seg, .emit seg ∈ out.effects ∧
      (seg.flg = flgSyn ∨ seg.flg = flgSyn ||| flgAck) ∧ seg.data = [] ∧
      seg.seq = p'.iss ∧ seg.src = p'.localEndp ∧ seg.dst = p'.remoteEndp := by
  have hold : ∀ {c}, tcp.get c = some p' → False := fun hp ↦ hfresh _ p' hp hstarted
  have hack : ∀ s r, ev = .arrive s → ReachesAck r s → False := by
    rintro s r rfl hreach
    simp [begins, hreach.ack] at hnew
  cases h with
  | idle _ _ => exact (hold hp').elim
  | stillborn hget _ _ => exact (hold ((hget d).symm.trans hp')).elim
  | drop es _ _ _ _ hdrained _ => exact (hold (hdrained.drain.some_of_some hp')).elim
  | pass _ _ _ hreach _ _ => exact (hack _ _ rfl hreach).elim
  | join _ _ _ _ hreach _ _ _ _ => exact (hack _ _ rfl hreach).elim
  | pop _ _ _ _ | accept _ _ _ _ _ | tick _ _ _ => exact absurd hnew (by simp [begins])
  | @work ev reply es c r r' hr hblock =>
      rw [get_set hr] at hp'
      split at hp'
      · cases hp'
        have hnot := hfresh c r hr
        cases hblock with
        | syn l r _ _ =>
            rw [sendSyn_eq]
            exact ⟨rfl, _, List.mem_singleton_self _, .inl rfl, rfl, rfl, rfl, rfl⟩
        | synFails l r _ _ =>
            rw [sendSyn_eq] at hstarted
            exact absurd hstarted hnot
        | passive s _ _ _ _ _ _ =>
            rw [passiveOpen_eq]
            exact ⟨rfl, _, List.mem_singleton_self _, .inr rfl, rfl, rfl, rfl, rfl⟩
        | synSent s acceptable hselect hstate _ _ _ =>
            simp [begins, hselect, hr, hstate] at hnew
        | _ => exact absurd hnew (by simp [begins])
      · exact (hold hp').elim
  | @birth ev reply es c tcp' r halloc hbirth =>
      rw [get_birth halloc] at hp'
      split at hp'
      · cases hp'
        cases hbirth with
        | socket | listen l r => exact absurd rfl hstarted
        | syn l l' r _ _ =>
            rw [sendSyn_eq]
            exact ⟨rfl, _, List.mem_singleton_self _, .inl rfl, rfl, rfl, rfl, rfl⟩
        | child s l q child _ _ _ _ _ _ _ _ _ =>
            rw [passiveOpen_eq]
            exact ⟨rfl, _, List.mem_singleton_self _, .inr rfl, rfl, rfl, rfl, rfl⟩
      · exact (hold hp').elim

end

/-! ## The invariant -/

/-- A segment, or an entry of the queue, that is the `n`th chunk. -/
structure IsChunk (iss : U32) (chunks : List (List U8)) (n : Nat) (flg : U8) (seq : U32)
    (data : List U8) : Prop where
  flg : flg = flgAck ||| flgPsh
  seq : seq = iss + 1 + BitVec.ofNat 32 (Chunks.offset chunks n)
  data : chunks[n]? = some data

/-- What the side `x` has queued is on its way to `y`. -/
structure Trail (iss : U32) (chunks : List (List U8)) (x y : Side) : Prop where
  queued : x.queued = chunks.flatten
  nonempty : [] ∉ chunks
  short : ∀ data ∈ chunks, data.length ≤ 65535
  sent : ∀ n data, chunks[n]? = some data →
    ∃ s ∈ x.net, s.data = data ∧ IsChunk iss chunks n s.flg s.seq s.data
  net : ∀ s ∈ x.net, flagIsset s.flg flgRst = false → s.data ≠ [] →
    ∃ n, IsChunk iss chunks n s.flg s.seq s.data
  queue : ∀ d p, x.tcp.get d = some p → Started p → ∀ e ∈ p.queue, e.data ≠ [] →
    ∃ n, IsChunk iss chunks n e.flg e.seq e.data
  ends : ∀ s ∈ x.net, flagIsset s.flg flgRst = false → s.data ≠ [] →
    ∀ d p, x.tcp.get d = some p → p.state.isActive = true →
      s.src = p.localEndp ∧ s.dst = p.remoteEndp
  /-- The SYN is on the network as well. -/
  syn : ∀ d p, x.tcp.get d = some p → p.state.isActive = true → ∃ s ∈ x.net,
    (s.flg = flgSyn ∨ s.flg = flgSyn ||| flgAck) ∧ s.data = [] ∧ s.seq = p.iss ∧
      s.src = p.localEndp ∧ s.dst = p.remoteEndp
  order : ∀ d p, x.tcp.get d = some p → p.state.isActive = true → InOrder p
  balanced : ∀ d p, x.tcp.get d = some p → p.state.isActive = true →
    ∃ accepted returned, Balanced accepted returned p
  rcvd : ∀ d q, y.tcp.get d = some q → Started q → q.hist.fin = false →
    ∃ n, q.hist.rcvd = (chunks.take n).flatten

section

variable {iss iss' : U32} {chunks : List (List U8)} {x y : Side} {env : Env} {ev : Event}
  {d : TcpDesc} {p p' : TcpPcb} {s : TcpSegment} {out : Outcome} {n : Nat} {flg : U8} {seq : U32}
  {data : List U8}

theorem IsChunk.append (h : IsChunk iss chunks n flg seq data) (more : List (List U8)) :
    IsChunk iss (chunks ++ more) n flg seq data where
  flg := h.flg
  seq := by
    have hn := (List.getElem?_eq_some_iff.mp h.data).1
    rw [Chunks.offset_append more (Nat.le_of_lt hn)]
    exact h.seq
  data := by
    rw [List.getElem?_append_left (List.getElem?_eq_some_iff.mp h.data).1]
    exact h.data

theorem IsChunk.rst (h : IsChunk iss chunks n flg seq data) : flagIsset flg flgRst = false := by
  rw [h.flg]
  decide

/-- The chunk that is queued at the end. -/
theorem IsChunk.last (iss : U32) (chunks : List (List U8)) (data : List U8) :
    IsChunk iss (chunks ++ [data]) chunks.length (flgAck ||| flgPsh)
      (iss + 1 + BitVec.ofNat 32 chunks.flatten.length) data where
  flg := rfl
  seq := by rw [Chunks.offset_append _ (Nat.le_refl _), Chunks.offset, List.take_length]
  data := by simp

theorem Link.started_of_active (h : Link iss iss' x y) (hp : x.tcp.get d = some p)
    (hactive : p.state.isActive = true) : Started p := by
  refine h.started hp ?_ ?_
  · rintro hs
    exact absurd hactive (by simp [hs, TcpState.isActive])
  · rintro hs
    exact absurd hactive (by simp [hs, TcpState.isActive])

/-- What a connection sends next comes at the end of the stream. -/
theorem Link.nxt_eq (h : Link iss iss' x y) (hp : x.tcp.get d = some p)
    (hactive : p.state.isActive = true) (hcan : p.state.canSend = true) :
    p.snd.nxt = iss + 1 + BitVec.ofNat 32 x.queued.length := by
  have hsnd := h.snd d p hp (h.started_of_active hp hactive)
  obtain ⟨a, hinv⟩ := h.sendInv hp
  rw [(hinv.active hactive).1, hsnd.initial, hsnd.eq hcan, BitVec.ofNat_add, BitVec.add_assoc]
  rfl

theorem Trail.initial : Trail 0 [] {} {} := by
  constructor
  case rcvd => simp [Tcp.get]
  all_goals simp [Tcp.get]

/-! ## The mover -/

/-- The chunks after a step of `send`. -/
def chunksAfter (chunks : List (List U8)) (chunk : List U8) : List (List U8) :=
  chunks ++ if chunk = [] then [] else [chunk]

theorem flatten_chunksAfter (chunks : List (List U8)) (chunk : List U8) :
    (chunksAfter chunks chunk).flatten = chunks.flatten ++ chunk := by
  unfold chunksAfter
  split
  · next h => simp [h]
  · simp

/-- **The mover**, when it does not begin a connection. -/
theorem Trail.step_self (h : Trail iss chunks x y) (hx : Link iss iss' x y)
    (hy : Link iss' iss y x) (hnew : begins env x.tcp ev = false)
    (hnet : ∀ s, ev = .arrive s → s ∈ y.net) (hstep : step env x.tcp ev = .ok out) :
    Trail iss (chunksAfter chunks (queuedBy ev out.reply)) (x.after env ev out) y := by
  have hmove := step_move hstep
  have hx' := hx.step_self hy hnew hnet hstep
  -- A connection after the step was there before.
  have hevolve : ∀ d p', out.tcp.get d = some p' → Started p' →
      ∃ p, x.tcp.get d = some p ∧ Started p ∧ Evolve env x.tcp d out.reply ev p p' := by
    intro d p' hp' hstarted
    rcases hx.step_blocks hy hnew hnet hmove hp' with ⟨p, hp, hs, -⟩ | ⟨hnot, -⟩
    · exact ⟨p, hp, hs, (hmove.stays hp hp').evolve⟩
    · exact absurd hstarted hnot
  have hactive : ∀ d p', out.tcp.get d = some p' → p'.state.isActive = true →
      ∃ p, x.tcp.get d = some p ∧ Evolve env x.tcp d out.reply ev p p' ∧
        p.state.isActive = true ∧ p'.localEndp = p.localEndp ∧ p'.remoteEndp = p.remoteEndp := by
    intro d p' hp' hact
    obtain ⟨p, hp, -, hev⟩ := hevolve d p' hp' (hx'.started_of_active hp' hact)
    exact ⟨p, hp, hev, hev.ends hp hnew hact⟩
  have hold : ∀ {n flg seq data}, IsChunk iss chunks n flg seq data →
      IsChunk iss (chunksAfter chunks (queuedBy ev out.reply)) n flg seq data :=
    fun hchunk ↦ hchunk.append _
  have hlast : ∀ {r : TcpPcb} {c}, x.tcp.get c = some r →
      (r.state = .established ∨ r.state = .closeWait) → queuedBy ev out.reply ≠ [] →
      IsChunk iss (chunksAfter chunks (queuedBy ev out.reply)) chunks.length (flgAck ||| flgPsh)
        r.snd.nxt (queuedBy ev out.reply) := by
    intro r c hr hstate hne
    have hnxt := hx.nxt_eq hr (by rcases hstate with hs | hs <;> simp [hs, TcpState.isActive])
      (by rcases hstate with hs | hs <;> simp [hs, TcpState.canSend])
    rw [hnxt, h.queued, chunksAfter, if_neg hne]
    exact .last iss chunks _
  have hqueue : ∀ d p', out.tcp.get d = some p' → Started p' → ∀ e ∈ p'.queue, e.data ≠ [] →
      ∃ n, IsChunk iss (chunksAfter chunks (queuedBy ev out.reply)) n e.flg e.seq e.data := by
    intro d p' hp' hstarted e he hdata
    obtain ⟨p, hp, hs, hev⟩ := hevolve d p' hp' hstarted
    rcases hev.queues he hdata with ⟨e₀, he₀, hflg, hseq, hsame⟩ | ⟨hstate, hflg, hseq, hsame⟩
    · rw [hflg, hseq, hsame]
      obtain ⟨n, hchunk⟩ := h.queue d p hp hs e₀ he₀ (hsame ▸ hdata)
      exact ⟨n, hold hchunk⟩
    · rw [hflg, hseq, hsame]
      exact ⟨_, hlast hp hstate (hsame ▸ hdata)⟩
  -- A segment with data comes from the queue of a connection.
  have hbears : ∀ s, .emit s ∈ out.effects → flagIsset s.flg flgRst = false → s.data ≠ [] →
      ∃ c r, (x.tcp.get c = some r ∨ out.tcp.get c = some r) ∧ Started r ∧
        ∃ e ∈ r.queue, s = entrySegment r e := by
    intro s hs hrst hdata
    obtain ⟨c, r, hr, e, he, rfl⟩ := hmove.bears hs hrst hdata
    refine ⟨c, r, hr, ?_, e, he, rfl⟩
    by_contra hnot
    rcases hr with hr | hr
    · exact hdata ((hx.fresh c r hr hnot).queue e he).2.2
    · exact hdata ((hx'.fresh c r hr hnot).queue e he).2.2
  constructor
  case queued => rw [flatten_chunksAfter, ← h.queued]; rfl
  case nonempty =>
    unfold chunksAfter
    split
    · rw [List.append_nil]
      exact h.nonempty
    · next hne =>
      simpa using ⟨h.nonempty, hne⟩
  case short =>
    intro data hdata
    rcases List.mem_append.mp hdata with hdata | hdata
    · exact h.short data hdata
    · split at hdata
      · exact absurd hdata (by simp)
      · next hne =>
        rw [List.mem_singleton.mp hdata]
        exact (hmove.queues hne).1
  case sent =>
    intro n data hn
    have hin : ∀ s ∈ x.net, s ∈ (x.after env ev out).net := fun s hs ↦ List.mem_append_left _ hs
    rcases Nat.lt_or_ge n chunks.length with hlt | hge
    · rw [chunksAfter, List.getElem?_append_left hlt] at hn
      obtain ⟨s, hs, hdata, hchunk⟩ := h.sent n data hn
      exact ⟨s, hin s hs, hdata, hold hchunk⟩
    · rw [chunksAfter, List.getElem?_append_right hge] at hn
      split at hn
      · exact absurd hn (by simp)
      next hne =>
      obtain ⟨heq, rfl⟩ : n - chunks.length = 0 ∧ queuedBy ev out.reply = data := by
        simpa [List.getElem?_cons] using hn
      obtain rfl : n = chunks.length := by omega
      obtain ⟨-, c, r, hr, hstate, hemit⟩ := hmove.queues hne
      exact ⟨_, List.mem_append_right _ (mem_emitted.mpr hemit), rfl, hlast hr hstate hne⟩
  case net =>
    intro s hs hrst hdata
    rcases List.mem_append.mp hs with hs | hs
    · obtain ⟨n, hchunk⟩ := h.net s hs hrst hdata
      exact ⟨n, hold hchunk⟩
    · obtain ⟨c, r, hr, hstarted, e, he, rfl⟩ := hbears s (mem_emitted.mp hs) hrst hdata
      rcases hr with hr | hr
      · obtain ⟨n, hchunk⟩ := h.queue c r hr hstarted e he hdata
        exact ⟨n, hold hchunk⟩
      · exact hqueue c r hr hstarted e he hdata
  case queue => exact hqueue
  case ends =>
    intro s hs hrst hdata d p' hp' hact
    obtain ⟨p, hp, -, hact₀, hlocal, hremote⟩ := hactive d p' hp' hact
    rcases List.mem_append.mp hs with hs | hs
    · rw [hlocal, hremote]
      exact h.ends s hs hrst hdata d p hp hact₀
    · obtain ⟨c, r, hr, hstarted, e, he, rfl⟩ := hbears s (mem_emitted.mp hs) hrst hdata
      rcases hr with hr | hr
      · obtain rfl := hx.unique c d r p hr hp hstarted (hx.started_of_active hp hact₀)
        obtain rfl : r = p := by simpa using hr.symm.trans hp
        exact ⟨hlocal.symm, hremote.symm⟩
      · obtain rfl := hx'.unique c d r p' hr hp' hstarted (hx'.started_of_active hp' hact)
        obtain rfl : r = p' := by simpa using hr.symm.trans hp'
        exact ⟨rfl, rfl⟩
  case syn =>
    intro d p' hp' hact
    obtain ⟨p, hp, hev, hact₀, hlocal, hremote⟩ := hactive d p' hp' hact
    obtain ⟨s, hs, hflg, hdata, hseq, hsrc, hdst⟩ := h.syn d p hp hact₀
    have hiss : p'.iss = p.iss := by
      rw [(hx'.snd d p' hp' (hx'.started_of_active hp' hact)).initial,
        (hx.snd d p hp (hx.started_of_active hp hact₀)).initial]
    exact ⟨s, List.mem_append_left _ hs, hflg, hdata, hseq.trans hiss.symm,
      hsrc.trans hlocal.symm, hdst.trans hremote.symm⟩
  case order =>
    intro d p' hp' hact
    obtain ⟨p, hp, hev, hact₀, -⟩ := hactive d p' hp' hact
    obtain ⟨a, hinv⟩ := hx.sendInv hp
    exact InOrder.evolve hinv (h.order d p hp) hp (fun hb ↦ absurd hb (by simp [hnew])) hev hact
  case balanced =>
    intro d p' hp' hact
    obtain ⟨p, hp, hev, hact₀, -⟩ := hactive d p' hp' hact
    exact hev.balanced hp hnew hact (h.balanced d p hp hact₀)
  case rcvd =>
    intro d q hq hstarted hfin
    obtain ⟨n, hn⟩ := h.rcvd d q hq hstarted hfin
    rw [hn]
    exact Chunks.exists_take_append _ _ _

theorem Trail.begin_self (hx : Link iss iss' x y) (hy : Link iss' iss y x)
    (hnew : begins env x.tcp ev = true) (hidle : Idle x)
    (hnet : ∀ s, ev = .arrive s → s ∈ y.net) (hbegun : x.begun = false)
    (hstep : step env x.tcp ev = .ok out) : Trail env.random32 [] (x.after env ev out) y := by
  have hmove := step_move hstep
  have hx' := hx.begin_self hy hnew hidle hnet hstep
  have hy' := hx.begin_peer hy hnew hidle hbegun hnet hstep
  have hqueued : (x.after env ev out).queued = [] := by
    simp [Side.after, hidle.queued, (hx.begin_logs hidle hmove).1]
  have hnone : ∀ {flg seq data}, Carries env.random32 (x.after env ev out).queued flg seq data →
      data = [] := by
    intro flg seq data hcarries
    rcases hcarries.text with hnil | ⟨k, -, hprefix⟩
    · exact hnil
    · rw [hqueued, List.drop_nil] at hprefix
      exact List.prefix_nil.mp hprefix
  have hfirst : ∀ d p', out.tcp.get d = some p' → p'.state.isActive = true →
      p'.rcv.wnd = recvBufSize ∧ ∃ seg, .emit seg ∈ out.effects ∧
        (seg.flg = flgSyn ∨ seg.flg = flgSyn ||| flgAck) ∧ seg.data = [] ∧
        seg.seq = p'.iss ∧ seg.src = p'.localEndp ∧ seg.dst = p'.remoteEndp :=
    fun d p' hp' hact ↦ hmove.opens hnew (fun d p hp ↦ (hidle.blocks d p hp).1) hp'
      (hx'.started_of_active hp' hact)
  constructor
  case queued => exact hqueued
  case nonempty => exact List.not_mem_nil
  case short => simp
  case sent => exact fun n data hn ↦ absurd hn (by simp)
  case net => exact fun s hs hrst hdata ↦ absurd (hnone (hx'.net s hs hrst)) hdata
  case queue =>
    exact fun d p' hp' hstarted e he hdata ↦
      absurd (hnone ((hx'.snd d p' hp' hstarted).queue e he).1) hdata
  case ends => exact fun s hs hrst hdata ↦ absurd (hnone (hx'.net s hs hrst)) hdata
  case syn =>
    intro d p' hp' hact
    obtain ⟨-, s, hs, hrest⟩ := hfirst d p' hp' hact
    exact ⟨s, List.mem_append_right _ (mem_emitted.mpr hs), hrest⟩
  case order =>
    intro d p' hp' hact
    have hclean : BeginsClean env x.tcp ev := by
      intro _
      split
      · exact fun p hp ↦ (hidle.blocks _ p hp).2
      · exact fun d p _ hp _ ↦ (hidle.blocks d p hp).2
      · trivial
    rcases hmove.evolve hp' with ⟨p, hp, hev⟩ | ⟨-, es, reply, hbirth⟩
    · obtain ⟨a, hinv⟩ := hx.sendInv hp
      refine InOrder.evolve hinv (fun hactive ↦ ?_) hp hclean hev hact
      exact absurd (hx.started_of_active hp hactive) (hidle.blocks d p hp).1
    · exact InOrder.birth hbirth hact
  case balanced =>
    intro d p' hp' hact
    have hrcv := hx'.rcv d p' hp' (hx'.started_of_active hp' hact)
    have hrcvd : p'.hist.rcvd = [] := by
      obtain ⟨c, hblocks⟩ := hx.begin_blocks hy hnew hidle hnet hmove
      rcases hblocks d p' hp' with ⟨-, h⟩ | ⟨hnot, -⟩
      · exact h.rcvd
      · exact absurd (hx'.started_of_active hp' hact) hnot
    refine ⟨[], [], .of_start (hfirst d p' hp' hact).1 ?_ ?_⟩
    · exact (List.append_eq_nil_iff.mp (hrcv.buf.trans hrcvd)).2
    · rintro hs
      exact absurd hact (by simp [hs, TcpState.isActive])
  case rcvd =>
    intro d q hq hstarted _
    have hgot := (hy'.rcv d q hq hstarted).got
    rw [hqueued] at hgot
    exact ⟨0, List.prefix_nil.mp hgot⟩

/-! ## The peer of the mover -/

/-- **A whole number of chunks** is received. -/
theorem Trail.step_peer (h : Trail iss chunks y x) (hx : Link iss' iss x y)
    (hy : Link iss iss' y x) (hnew : begins env x.tcp ev = false)
    (hnet : ∀ s, ev = .arrive s → s ∈ y.net) (hstep : step env x.tcp ev = .ok out) :
    Trail iss chunks y (x.after env ev out) := by
  have hmove := step_move hstep
  refine ⟨h.queued, h.nonempty, h.short, h.sent, h.net, h.queue, h.ends, h.syn,
    h.order, h.balanced, ?_⟩
  intro d p' hp' hstarted hfin
  rcases hx.step_blocks hy hnew hnet hmove hp' with ⟨p, hp, hs, hin⟩ | ⟨hnot, -⟩
  swap
  · exact absurd hstarted hnot
  have hfin₀ : p.hist.fin = false := by
    by_contra hne
    rw [Bool.not_eq_false] at hne
    exact absurd ((hin.fin hne).symm.trans hfin) (by simp)
  obtain ⟨n, hn⟩ := h.rcvd d p hp hs hfin₀
  have hrcv := hx.rcv d p hp hs
  have hkeep : p'.hist.rcvd = p.hist.rcvd → ∃ n, p'.hist.rcvd = (chunks.take n).flatten :=
    fun heq ↦ ⟨n, heq.trans hn⟩
  have hevolve := (hmove.stays hp hp').evolve
  generalize out.reply = reply at hevolve
  cases hevolve with
  | keep backlog mss accepted _ => exact hkeep rfl
  | tick =>
      rcases retransEmit_cases env p with heq | ⟨f, -, heq⟩
      · rw [heq] at hkeep ⊢
        exact hkeep rfl
      · rw [heq] at hkeep ⊢
        exact hkeep rfl
  | block hblock =>
      cases hblock with
      | mss m | bind l _ | listen n _ | connectFails _ | interrupted | take len n wnd _ _ _ _ =>
          exact hkeep rfl
      | syn l r hlocal _ | synFails l r hlocal _ =>
          exact absurd (begins_of_connects hp hlocal) (by simp [hnew])
      | passive s hselect hstate hmode hrst hack hsyn =>
          have hbegins : begins env x.tcp (.arrive s) = true :=
            begins_of_listen hselect hp hstate (.inl hmode) hrst hack hsyn
          exact absurd hbegins (by simp [hnew])
      | synSent s acceptable _ _ _ _ _ =>
          obtain ⟨q, hq, hcases⟩ := synInSynSent_cases env p s.info acceptable
          obtain ⟨snd, queue, heq, -⟩ := takeSyn_eq p s.info acceptable
          subst hq
          rcases hcases with ⟨-, hcase⟩ | ⟨-, hcase⟩
          · rw [hcase, heq]
            exact ⟨0, rfl⟩
          · rw [hcase, heq]
            exact ⟨0, rfl⟩
      | fin state _ =>
          rw [sendFin_eq] at hkeep ⊢
          exact hkeep rfl
      | data data sent n _ _ _ _ =>
          rw [sendData_eq] at hkeep ⊢
          exact hkeep rfl
  | arrived s _ hreach harrived =>
      obtain ⟨snd, queue, tw, backlog, -, hcases⟩ := harrived.eq
      have hnext : SeesText p s → fits p s.info s.data →
          ∃ n, p.hist.rcvd ++ s.data = (chunks.take n).flatten := by
        intro hsees hfits
        have hs' := hnet s rfl
        obtain ⟨m, hchunk⟩ := h.net s hs' hreach.rst hsees.2
        have hsynced := (hx.rcvInv hp).synced ((TcpState.gotSyn_iff _).mpr hreach.state)
        obtain ⟨-, hcount⟩ := hrcv.text_next hsynced hfin₀ hreach.acceptable hsees.2 hfits
          (hy.net s hs' hreach.rst) (hy.room d p hp hs hfin₀)
        -- The chunk begins where the stream that was received ends.
        have hplace : Chunks.offset chunks n = Chunks.offset chunks m := by
          have hlt := (s.seq + BitVec.ofNat 32 s.data.length).isLt
          have hroom := hy.room d p hp hs hfin₀
          have hle := Chunks.offset_mono chunks
            (Nat.le_of_lt (List.getElem?_eq_some_iff.mp hchunk.data).1)
          have hend : Chunks.offset chunks chunks.length = y.queued.length := by
            rw [Chunks.offset, List.take_length, h.queued]
          have hoff : Chunks.offset chunks n = p.hist.rcvd.length := by rw [hn, Chunks.offset]
          rw [hcount, List.length_append] at hlt
          rw [List.length_append, hchunk.seq, BitVec.toNat_add, BitVec.toNat_add (iss + 1),
            BitVec.toNat_ofNat, BitVec.toNat_ofNat] at hcount
          omega
        obtain rfl := Chunks.eq_of_offset_eq h.nonempty hchunk.data hplace
        exact ⟨n + 1, by rw [Chunks.flatten_take_succ hchunk.data, hn]⟩
      rcases hcases with ⟨-, -, rfl⟩ | ⟨hsees, hfits, -, rfl⟩ | ⟨-, -, rfl⟩ | ⟨hsees, hfits, -, rfl⟩
      · exact hkeep rfl
      · exact hnext hsees hfits
      · exact hkeep rfl
      · exact hnext hsees hfits

theorem Trail.begin_peer (h : Trail iss chunks y x) (hx : Link iss' iss x y)
    (hy : Link iss iss' y x) (hnew : begins env x.tcp ev = true) (hidle : Idle x)
    (hnet : ∀ s, ev = .arrive s → s ∈ y.net) (hstep : step env x.tcp ev = .ok out) :
    Trail iss chunks y (x.after env ev out) := by
  obtain ⟨c, hblocks⟩ := hx.begin_blocks hy hnew hidle hnet (step_move hstep)
  refine ⟨h.queued, h.nonempty, h.short, h.sent, h.net, h.queue, h.ends, h.syn,
    h.order, h.balanced, ?_⟩
  intro d p' hp' hstarted _
  rcases hblocks d p' hp' with ⟨-, hbegun⟩ | ⟨hnot, -⟩
  · exact ⟨0, hbegun.rcvd⟩
  · exact absurd hstarted hnot

end

/-! ## Worlds -/

/-- Two sides of which each can still get what the other has queued. -/
def Trails (x y : Side) : Prop :=
  ∃ iss iss' chunks chunks', Link iss iss' x y ∧ Link iss' iss y x ∧
    Trail iss chunks x y ∧ Trail iss' chunks' y x

theorem Trails.symm {x y : Side} (h : Trails x y) : Trails y x := by
  obtain ⟨iss, iss', chunks, chunks', hx, hy, htx, hty⟩ := h
  exact ⟨iss', iss, chunks', chunks, hy, hx, hty, htx⟩

/-- **One step of the world.** -/
theorem Trails.acts {x x' y : Side} {env : Env} {ev : Event} (h : Trails x y)
    (hacts : x.Acts y env ev x') : Trails x' y := by
  obtain ⟨iss, iss', chunks, chunks', hx, hy, htx, hty⟩ := h
  obtain ⟨hnet, hbegins, out, hstep, rfl⟩ := hacts
  cases hnew : begins env x.tcp ev with
  | false =>
      exact ⟨iss, iss', _, chunks', hx.step_self hy hnew hnet hstep,
        hx.step_peer hy hnew hnet hstep, htx.step_self hx hy hnew hnet hstep,
        hty.step_peer hx hy hnew hnet hstep⟩
  | true =>
      have hbegun := hbegins hnew
      have hidle := hx.idle hbegun
      exact ⟨env.random32, iss', [], chunks', hx.begin_self hy hnew hidle hnet hstep,
        hx.begin_peer hy hnew hidle hbegun hnet hstep,
        Trail.begin_self hx hy hnew hidle hnet hbegun hstep,
        hty.begin_peer hx hy hnew hidle hnet hstep⟩

theorem World.Reachable.trails {w : World} (h : w.Reachable) : Trails w.host w.peer := by
  refine Machine.Reach.invariant (fun w : World ↦ Trails w.host w.peer) ?_ ?_ h
  · rintro _ rfl
    exact ⟨0, 0, [], [], .initial, .initial, .initial, .initial⟩
  · rintro w ⟨party, env, ev⟩ w' htrails hstep
    cases party with
    | host =>
        obtain ⟨hsame, hacts⟩ := hstep
        exact hsame ▸ htrails.acts hacts
    | peer =>
        obtain ⟨hsame, hacts⟩ := hstep
        exact hsame ▸ (htrails.symm.acts hacts).symm

end Microps.Tcp
