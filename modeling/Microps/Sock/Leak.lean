import Microps.Sock.Turn
import Microps.Tcp.Orphan

/-!
# No block is lost

A socket that is closed gives up its reference to its block, and from then on the block
has to go by itself.  It does not when it is in CLOSED already, and neither does a block
that falls back to CLOSED later on, or loses its listener.  `sparing` is the condition
under which none of this happens, and under it every block is referred to by a socket,
waits for its listener to hand it out, or is closing.
-/

namespace Microps.Sock

open Tcp (Event Outcome Reply QueueInv KeepsOff Mindful NoOrphans Awaits)

/-! ## The condition -/

/-- The block that a call in progress has in hand, to store or to close it. -/
def Call.inHand : Call → Option TcpDesc
  | .store sock _ => if sock.ty = sockStream then some sock.desc else none
  | .tcp _ _ (.close d) _ => some d
  | _ => none

/-- A call in progress has the block in hand. -/
def inHand (calls : Slots Call) (d : TcpDesc) : Bool :=
  calls.any fun slot ↦ slot.any fun c ↦ c.inHand = some d

theorem inHand_iff {calls : Slots Call} {d : TcpDesc} :
    inHand calls d = true ↔ ∃ i c, calls.peek i = some c ∧ c.inHand = some d := by
  simp only [inHand, Slots.any_any_iff, decide_eq_true_eq]

/-- A socket refers to the block, or a call in progress has it in hand. -/
def Refers (socks : Slots Sock) (calls : Slots Call) (d : TcpDesc) : Prop :=
  live socks d = true ∨ inHand calls d = true

/-- A half-open block will report to the slot. -/
def awaited (tcp : Tcp) (d : TcpDesc) : Bool :=
  tcp.pcbs.any fun slot ↦ slot.any fun q ↦ q.state = .synReceived ∧ q.parentDesc = some d

theorem awaited_iff {tcp : Tcp} {d : TcpDesc} : awaited tcp d = true ↔ Awaits tcp d := by
  simp only [awaited, Slots.any_any_iff, decide_eq_true_eq, Awaits, Tcp.get]

/-- A listener with no children. -/
def childless (tcp : Tcp) (d : TcpDesc) (p : TcpPcb) : Bool :=
  p.state = .listen → p.backlog = [] ∧ awaited tcp d = false

/-- The critical section of `tcp.rs` leaves no block behind. -/
def spares (env : SockEnv) (st : Stack) : Event → Bool
  | .close d => (st.tcp.get d).all fun p ↦
      (p.state = .closed → live st.socks d = true) ∧
        (p.state = .listen → awaited st.tcp d = false)
  | .connectCall d r => (st.tcp.get d).all fun p ↦
      (Tcp.reopens env.toEnv st.tcp d p (.connectCall d r) → p.parentDesc = none) ∧
        (Tcp.connects env.toEnv st.tcp p r → childless st.tcp d p)
  | .connectInterrupted d => (st.tcp.get d).all fun p ↦ childless st.tcp d p
  | .listen d n => (st.tcp.get d).all fun p ↦
      Tcp.reopens env.toEnv st.tcp d p (.listen d n) → p.parentDesc = none
  | .accept l => (st.tcp.get l).all fun p ↦ p.state = .listen → p.backlog.head?.all fun c ↦
      (st.tcp.get c).all fun q ↦ (routeLookup env.routes q.remoteEndp.addr).isSome
  | .timer => (List.range st.tcp.pcbs.length).all fun d ↦ (st.tcp.get d).all fun p ↦
      Tcp.givesUp env.toEnv p → childless st.tcp d p ∧
        (live st.socks d ∨ inHand st.calls d ∨ listed st.tcp d)
  | _ => true

/-- The entry of `SOCKS` that a call in progress relies on. -/
def Call.on : Call → Option (SockDesc × Sock)
  | .clear desc sock => some (desc, sock)
  | .tcp _ _ (.close _) _ => none
  | .tcp desc sock _ _ => some (desc, sock)
  | _ => none

/-- The entry of `SOCKS` that a call in progress is about to take out. -/
def Call.clears : Call → Option SockDesc
  | .clear desc _ => some desc
  | _ => none

/-- The socket that a request closes. -/
def Request.closes : Request → Option SockDesc
  | .close desc => some desc
  | _ => none

/-- The socket that any other request is about. -/
def Request.uses : Request → Option SockDesc
  | .open _ _ | .close _ => none
  | .bind desc _ | .listen desc _ | .accept desc | .connect desc _ | .send desc _ | .recv desc _
  | .sendto desc _ _ | .recvfrom desc _ => some desc

/-- A `close` does not race with another call on the same socket. -/
def calm (calls : Slots Call) (req : Request) : Bool :=
  (req.closes.all fun desc ↦ !calls.any fun slot ↦ slot.any fun c ↦ c.on.any fun e ↦ e.1 = desc) &&
    req.uses.all fun desc ↦ !calls.any fun slot ↦ slot.any fun c ↦ c.clears = some desc

/-- The turn leaves no block behind: it makes no call that races with a `close`, allocates
no slot that a backlog lists, and its critical section of `tcp.rs` spares every block. -/
def sparing (env : SockEnv) (st : Stack) (act : Action) : Bool :=
  (match act with
    | .call req => calm st.calls req
    | _ => true) &&
  (below st act).all fun ev ↦ spares env st ev &&
    (!Tcp.allocates env.toEnv st.tcp ev || st.tcp.pcbAlloc.all fun r ↦ !listed st.tcp r.1)

/-! ## Calls in progress -/

/-- The block that a critical section of a call on a socket is about. -/
def target : Event → Option TcpDesc
  | .bind d _ | .listen d _ | .accept d | .connectCall d _ | .connectPoll d | .connectInterrupted d
  | .openFinish d | .send d _ _ | .receive d _ | .close d => some d
  | _ => none

/-- A call in `tcp.rs` is about the block of its socket, and `close` does not wait. -/
def Call.Sound : Call → Prop
  | .tcp _ sock ev w => sock.ty = sockStream ∧ target ev = some sock.desc ∧
      (w = true → ∀ d, ev ≠ .close d)
  | _ => True

/-- The calls in progress rely on entries that are there, and a `close` is alone with
its entry. -/
structure CallInv (socks : Slots Sock) (calls : Slots Call) : Prop where
  sound : ∀ i c, calls.peek i = some c → c.Sound
  on : ∀ i c desc s, calls.peek i = some c → c.on = some (desc, s) → socks.peek desc = some s
  alone : ∀ i j c c' desc s, calls.peek i = some c → c.clears = some desc →
    calls.peek j = some c' → c'.on = some (desc, s) → j = i

section

variable {env : SockEnv} {st st' : Stack} {socks socks' : Slots Sock} {calls calls' : Slots Call}
  {i : Nat} {c : Call} {c' : Option Call} {desc : SockDesc} {sock : Sock} {ev : Event}
  {out : Outcome}

theorem Call.on_of_clears (h : c.clears = some desc) : ∃ s, c.on = some (desc, s) := by
  cases c with
  | clear desc' s =>
      obtain rfl : desc' = desc := by simpa [Call.clears] using h
      exact ⟨s, rfl⟩
  | _ => exact absurd h (by simp [Call.clears])

/-- The call in slot `i` goes on, and relies on nothing new. -/
theorem CallInv.goes (h : CallInv socks calls) (hi : calls.peek i = some c)
    (hcalls : ∀ j, calls'.peek j = if j = i then c' else calls.peek j)
    (hsound : ∀ x, c' = some x → x.Sound ∧ x.clears = none ∧ ∀ e, x.on = some e → c.on = some e) :
    CallInv socks calls' := by
  have hback : ∀ j x, calls'.peek j = some x → x.Sound ∧
      ∃ y, calls.peek j = some y ∧ (∀ e, x.on = some e → y.on = some e) ∧
        ∀ desc, x.clears = some desc → y.clears = some desc := by
    intro j x hx
    rw [hcalls] at hx
    split at hx
    · next hj =>
      subst hj
      obtain ⟨hs, hclears, hon⟩ := hsound x hx
      exact ⟨hs, c, hi, hon, fun desc hd ↦ absurd (hclears.symm.trans hd) (by simp)⟩
    · exact ⟨h.sound j x hx, x, hx, fun _ ↦ id, fun _ ↦ id⟩
  constructor
  · exact fun j x hx ↦ (hback j x hx).1
  · intro j x desc s hx hon
    obtain ⟨-, y, hy, hony, -⟩ := hback j x hx
    exact h.on j y desc s hy (hony _ hon)
  · intro j k x x' desc s hx hclears hx' hon
    obtain ⟨-, y, hy, -, hcleary⟩ := hback j x hx
    obtain ⟨-, y', hy', hony, -⟩ := hback k x' hx'
    exact h.alone j k y y' desc s hy (hcleary desc hclears) hy' (hony _ hon)

/-- What a call begins with. -/
theorem enter_cases {req : Request} (h : Sock.enter socks req = .call c) :
    ((∃ family ty, c = .open family ty) ∨ ∃ u, c = .udp u) ∨
    (∃ desc s, req.closes = some desc ∧ socks.peek desc = some s ∧ c = .clear desc s) ∨
    ∃ desc s ev, req.uses = some desc ∧ socks.peek desc = some s ∧ s.ty = sockStream ∧
      target ev = some s.desc ∧ (∀ d, ev ≠ .close d) ∧ c = .tcp desc s ev false := by
  have hstream : ∀ {desc : SockDesc} {f : Sock → Event}, streamCall socks desc f = .call c →
      ∃ s, socks.peek desc = some s ∧ s.ty = sockStream ∧ c = .tcp desc s (f s) false := by
    intro desc f h
    simp only [streamCall, withSock, sockGet] at h
    split at h
    · exact absurd h (by simp)
    · next s hs =>
      split at h
      · exact absurd h (by simp)
      · next hty =>
        obtain rfl : c = .tcp desc s (f s) false := by simpa using h.symm
        exact ⟨s, hs, by simpa using hty, rfl⟩
  have hdgram : ∀ {desc : SockDesc} {f : Sock → UdpCall}, dgramCall socks desc f = .call c →
      ∃ u, c = .udp u := by
    intro desc f h
    simp only [dgramCall, withSock] at h
    split at h
    · exact absurd h (by simp)
    · split at h
      · exact absurd h (by simp)
      · exact ⟨_, by simpa using h.symm⟩
  cases req with
  | «open» family ty =>
      simp only [Sock.enter, Sock.open] at h
      split at h
      · exact absurd h (by simp)
      · split at h
        · exact .inl (.inl ⟨family, ty, by simpa using h.symm⟩)
        · exact absurd h (by simp)
  | close desc =>
      simp only [Sock.enter, Sock.close, withSock, sockGet] at h
      split at h
      · exact absurd h (by simp)
      · next s hs => exact .inr (.inl ⟨desc, s, rfl, hs, by simpa using h.symm⟩)
  | bind desc addr =>
      simp only [Sock.enter, Sock.bind, withSock, sockGet] at h
      split at h
      · exact absurd h (by simp)
      · next s hs =>
        split at h
        · exact absurd h (by simp)
        · split at h
          · next hty =>
            exact .inr (.inr ⟨desc, s, .bind s.desc addr, rfl, hs, hty, rfl, by simp,
              by simpa using h.symm⟩)
          · split at h
            · exact .inl (.inr ⟨_, by simpa using h.symm⟩)
            · exact absurd h (by simp)
  | listen desc n | accept desc | connect desc addr | send desc data | recv desc len =>
      obtain ⟨s, hs, hty, rfl⟩ := hstream h
      exact .inr (.inr ⟨desc, s, _, rfl, hs, hty, rfl, by simp, rfl⟩)
  | sendto desc data addr | recvfrom desc len => exact .inl (.inr (hdgram h))

/-- A call begins, which does not race with a `close`. -/
theorem CallInv.enter {req : Request} (h : CallInv socks calls)
    (henter : Sock.enter socks req = .call c) (hcalm : calm calls req = true) {k : Nat}
    (hcalls : ∀ j, calls'.peek j = if j = k then some c else calls.peek j) :
    CallInv socks calls' := by
  rw [calm, Bool.and_eq_true] at hcalm
  -- The new call is sound, its entry is there, and nobody else clears or uses it.
  have hnew : c.Sound ∧ (∀ desc s, c.on = some (desc, s) → socks.peek desc = some s) ∧
      ∀ j x desc s, calls.peek j = some x →
        ¬ (c.clears = some desc ∧ x.on = some (desc, s)) ∧
        ¬ (x.clears = some desc ∧ c.on = some (desc, s)) := by
    rcases enter_cases henter with (⟨family, ty, rfl⟩ | ⟨u, rfl⟩) | ⟨desc, s, hreq, hs, rfl⟩ |
      ⟨desc, s, ev, hreq, hs, hty, htarget, hne, rfl⟩
    · exact ⟨trivial, by simp [Call.on], by simp [Call.on, Call.clears]⟩
    · exact ⟨trivial, by simp [Call.on], by simp [Call.on, Call.clears]⟩
    · have hbusy := hcalm.1
      rw [hreq, Option.all_some, Bool.not_eq_true', ← Bool.not_eq_true, Slots.any_any_iff] at hbusy
      have huses : ∀ j x s', calls.peek j = some x → x.on ≠ some (desc, s') := by
        intro j x s' hx hon
        exact hbusy ⟨j, x, hx, by simp [hon]⟩
      refine ⟨trivial, ?_, fun j x desc' s' hx ↦ ⟨?_, ?_⟩⟩
      · rintro desc' s' ⟨⟩
        exact hs
      · rintro ⟨hclears, hon⟩
        obtain rfl : desc = desc' := by simpa [Call.clears] using hclears
        exact huses j x s' hx hon
      · rintro ⟨hclears, ⟨⟩⟩
        obtain ⟨s₁, hon⟩ := Call.on_of_clears hclears
        exact huses j x s₁ hx hon
    · have hquiet := hcalm.2
      rw [hreq, Option.all_some, Bool.not_eq_true', ← Bool.not_eq_true, Slots.any_any_iff] at hquiet
      have hon : ∀ desc' s', (Call.tcp desc s ev false).on = some (desc', s') →
          desc' = desc ∧ s' = s := by
        intro desc' s' h
        cases ev <;> simp_all [Call.on]
      refine ⟨⟨hty, htarget, by simp⟩, ?_, fun j x desc' s' hx ↦ ⟨by simp [Call.clears], ?_⟩⟩
      · intro desc' s' h
        obtain ⟨rfl, rfl⟩ := hon desc' s' h
        exact hs
      · rintro ⟨hclears, h⟩
        obtain ⟨rfl, -⟩ := hon desc' s' h
        exact hquiet ⟨j, x, hx, by simp [hclears]⟩
  obtain ⟨hsound, hon, halone⟩ := hnew
  constructor
  · intro j x hx
    rw [hcalls] at hx
    split at hx
    · cases hx
      exact hsound
    · exact h.sound j x hx
  · intro j x desc s hx hxon
    rw [hcalls] at hx
    split at hx
    · cases hx
      exact hon desc s hxon
    · exact h.on j x desc s hx hxon
  · intro j j' x x' desc s hx hclears hx' hxon
    rw [hcalls] at hx hx'
    split at hx <;> split at hx'
    · next hj hj' => rw [hj, hj']
    · cases hx
      exact absurd ⟨hclears, hxon⟩ (halone j' x' desc s hx').1
    · cases hx'
      exact absurd ⟨hclears, hxon⟩ (halone j x desc s hx).2
    · exact h.alone j j' x x' desc s hx hclears hx' hxon

/-- How a call goes on in `tcp.rs`. -/
theorem follow_cases {x : Call} (hne : ∀ d, ev ≠ .close d)
    (h : (follow desc sock ev out).call? = some x) :
    (∃ l new remote, ev = .accept l ∧ out.reply = .conn new remote ∧
      x = .store (entry sock.family sock.ty new out.tcp) (some remote)) ∨
    ∃ ev' w, x = .tcp desc sock ev' w ∧ target ev' = target ev ∧ ∀ d, ev' ≠ .close d := by
  unfold follow at h
  split at h <;> simp only [Next.call?, Option.some.injEq, reduceCtorEq] at h
  · exact .inr ⟨_, true, h.symm, rfl, hne⟩
  · exact .inr ⟨_, false, h.symm, rfl, hne⟩
  · exact .inr ⟨_, false, h.symm, rfl, by simp⟩
  · exact .inr ⟨_, false, h.symm, rfl, by simp⟩
  · exact .inr ⟨_, false, h.symm, rfl, by simp⟩
  · next l new remote hreply => exact .inl ⟨l, new, remote, rfl, hreply, h.symm⟩

/-- `close` neither waits nor goes on. -/
theorem follow_close {d : TcpDesc} (hstep : Tcp.step env.toEnv st.tcp (.close d) = .ok out) :
    (follow desc sock (.close d) out).call? = none := by
  have h : Tcp.closeCall env.toEnv st.tcp d = out := Except.ok.inj hstep
  have hreply := h ▸ (Tcp.closeCall_spec env.toEnv st.tcp d).1
  unfold follow
  rcases hreply with h | h <;> rw [h] <;> rfl

/-- The entries that the calls rely on stay. -/
theorem CallInv.keep (h : CallInv socks calls)
    (hkeep : ∀ i c desc s, calls.peek i = some c → c.on = some (desc, s) →
      socks.peek desc = some s → socks'.peek desc = some s) : CallInv socks' calls :=
  ⟨h.sound, fun i c desc s hc hon ↦ hkeep i c desc s hc hon (h.on i c desc s hc hon), h.alone⟩

theorem CallInv.store (h : CallInv socks calls) (hi : calls.peek i = some c)
    (hdesc : socks.peek desc = none)
    (hsocks : ∀ j, socks'.peek j = if j = desc then some sock else socks.peek j)
    (hcalls : ∀ j, calls'.peek j = if j = i then none else calls.peek j) :
    CallInv socks' calls' := by
  refine (h.goes hi hcalls (by simp)).keep fun j x desc' s _ _ hs ↦ ?_
  have hne : desc' ≠ desc := by
    rintro rfl
    exact absurd (hs.symm.trans hdesc) (by simp)
  rw [hsocks, if_neg hne, hs]

theorem CallInv.clear (h : CallInv socks calls) (hi : calls.peek i = some (.clear desc sock))
    (hsocks : ∀ j, socks'.peek j = if j = desc then none else socks.peek j)
    (hcalls : ∀ j, calls'.peek j = if j = i then (closeBelow desc sock).call? else calls.peek j) :
    CallInv socks' calls' := by
  have hnext : ∀ x, (closeBelow desc sock).call? = some x →
      x.Sound ∧ x.clears = none ∧ x.on = none := by
    intro x hx
    unfold closeBelow at hx
    split at hx
    · next hty =>
      cases hx
      exact ⟨⟨hty, rfl, by simp⟩, rfl, rfl⟩
    · split at hx
      · cases hx
        exact ⟨trivial, rfl, rfl⟩
      · exact absurd hx (by simp [Next.call?])
  have hgoes := h.goes hi hcalls fun x hx ↦ by
    obtain ⟨h₁, h₂, h₃⟩ := hnext x hx
    exact ⟨h₁, h₂, by simp [h₃]⟩
  refine hgoes.keep fun j x desc' s hx hon hs ↦ ?_
  -- Nobody else relies on the entry.
  have hne : desc' ≠ desc := by
    rintro rfl
    rw [hcalls] at hx
    split at hx
    · exact absurd ((hnext x hx).2.2.symm.trans hon) (by simp)
    · next hj => exact hj (h.alone i j _ x desc' s hi rfl hx hon)
  rw [hsocks, if_neg hne, hs]

/-! ## References -/

/-- The call in slot `i` goes on, and what it had in hand is still referred to. -/
theorem Refers.goes {d : TcpDesc} (hi : calls.peek i = some c)
    (hcalls : ∀ j, calls'.peek j = if j = i then c' else calls.peek j)
    (hhand : c.inHand = some d → Refers socks' calls' d)
    (hlive : live socks d = true → Refers socks' calls' d)
    (h : Refers socks calls d) : Refers socks' calls' d := by
  rcases h with h | h
  · exact hlive h
  · obtain ⟨j, x, hx, hd⟩ := inHand_iff.mp h
    by_cases hj : j = i
    · subst hj
      obtain rfl : x = c := by simpa using hx.symm.trans hi
      exact hhand hd
    · exact .inr (inHand_iff.mpr ⟨j, x, by rw [hcalls, if_neg hj, hx], hd⟩)

theorem below_cases {act : Action} (h : below st act = some ev) :
    (ev = .socket ∨ ev = .timer ∨ ∃ s, ev = .arrive s) ∨
      ∃ i desc sock w, st.calls.peek i = some (.tcp desc sock ev w) := by
  cases act with
  | arrive s => exact .inl (.inr (.inr ⟨s, by simpa [below] using h.symm⟩))
  | timer => exact .inl (.inr (.inl (by simpa [below] using h.symm)))
  | call req => exact absurd h (by simp [below])
  | interrupt i => exact absurd h (by simp [below])
  | resume i =>
      simp only [below] at h
      split at h
      · split at h
        · exact .inl (.inl (by simpa using h.symm))
        · exact absurd h (by simp)
      · next desc sock ev' w hi =>
        obtain rfl : ev' = ev := by simpa using h
        exact .inr ⟨i, desc, sock, w, hi⟩
      · exact absurd h (by simp)

theorem childless_spec {tcp : Tcp} {d : TcpDesc} {p : TcpPcb} (h : childless tcp d p = true)
    (hs : p.state = .listen) : p.backlog = [] ∧ ¬ Awaits tcp d := by
  obtain ⟨hnil, hnone⟩ := of_decide_eq_true h hs
  exact ⟨hnil, fun ha ↦ absurd (awaited_iff.mpr ha) (by simp [hnone])⟩

/-- A call that is about a block and does not close it relies on a socket that refers to it. -/
theorem CallInv.refers {w : Bool} {d : TcpDesc} (h : CallInv st.socks st.calls)
    (hi : st.calls.peek i = some (.tcp desc sock ev w)) (hd : target ev = some d)
    (hne : ∀ d, ev ≠ .close d) : Refers st.socks st.calls d := by
  obtain ⟨hty, htarget, -⟩ := h.sound i _ hi
  obtain rfl : sock.desc = d := Option.some.inj (htarget.symm.trans hd)
  have hon : (Call.tcp desc sock ev w).on = some (desc, sock) := by
    cases ev with
    | close d => exact absurd rfl (hne d)
    | _ => rfl
  exact .inl (live_iff.mpr ⟨desc, sock, h.on i _ desc sock hi hon, hty, rfl⟩)

/-- What the condition says of the critical section of `tcp.rs`. -/
theorem mindful_of_sparing {act : Action} (h : sparing env st act = true)
    (hcalls : CallInv st.socks st.calls) (hev : below st act = some ev) :
    Mindful (Refers st.socks st.calls) env.toEnv st.tcp ev := by
  unfold sparing at h
  simp only [hev, Option.all_some, Bool.and_eq_true] at h
  obtain ⟨-, hspares, halloc⟩ := h
  constructor
  case off =>
    refine ⟨fun ha d tcp' hd l p hp hmem ↦ ?_, False.elim, fun d p hp hreopens ↦ ?_⟩
    · have hfree : listed st.tcp d = false := by simpa [ha, hd] using halloc
      exact absurd (listed_iff.mpr ⟨l, p, hp, hmem⟩) (by simp [hfree])
    · rcases Tcp.exists_of_reopens hreopens with ⟨n, rfl⟩ | ⟨r, rfl⟩
      · simp only [spares, hp, Option.all_some, decide_eq_true_eq] at hspares
        exact hspares hreopens
      · simp only [spares, hp, Option.all_some, decide_eq_true_eq] at hspares
        exact hspares.1 hreopens
  case «open» =>
    rcases below_cases hev with (rfl | rfl | ⟨s, rfl⟩) | ⟨i, desc, sock, w, hi⟩
    · simp
    · simp
    · simp
    · have htarget := (hcalls.sound i _ hi).2.1
      refine ⟨?_, fun d ↦ ⟨?_, ?_⟩⟩
      · rintro l r active rfl
        simp [target] at htarget
      · rintro rfl
        simp [target] at htarget
      · rintro rfl
        simp [target] at htarget
  case connect =>
    intro d p hp hconnect
    rcases below_cases hev with (rfl | rfl | ⟨s, rfl⟩) | ⟨i, desc, sock, w, hi⟩
    · simp at hconnect
    · simp at hconnect
    · simp at hconnect
    · rcases hconnect with ⟨l, r, hconnects, rfl⟩ | rfl | rfl
      · simp only [spares, hp, Option.all_some, decide_eq_true_eq] at hspares
        have hpasses : Tcp.connects env.toEnv st.tcp p r = true := by
          simpa [Tcp.connects, hconnects.1] using hconnects.2
        exact ⟨hcalls.refers hi rfl (by simp), fun hs _ ↦ childless_spec (hspares.2 hpasses) hs⟩
      · exact ⟨hcalls.refers hi rfl (by simp), fun _ hne ↦ absurd rfl hne⟩
      · simp only [spares, hp, Option.all_some] at hspares
        exact ⟨hcalls.refers hi rfl (by simp), fun hs _ ↦ childless_spec hspares hs⟩
  case close =>
    rintro d p hp rfl hs ha
    simp only [spares, hp, Option.all_some, decide_eq_true_eq] at hspares
    exact absurd (awaited_iff.mpr ha) (by simp [hspares.2 hs])
  case accept =>
    rintro d p c rest q hp rfl hs hbacklog hq hroute
    simp only [spares, hp, Option.all_some, decide_eq_true_eq] at hspares
    have := hspares hs
    rw [hbacklog, List.head?_cons, Option.all_some, hq, Option.all_some, hroute] at this
    exact absurd this (by simp)
  case tick =>
    rintro rfl d p hp hup
    have hlt : d < st.tcp.pcbs.length := Slots.lt_length_of_peek hp
    have hd := List.all_eq_true.mp hspares d (List.mem_range.mpr hlt)
    rw [hp, Option.all_some] at hd
    obtain ⟨hfree, href⟩ := of_decide_eq_true hd hup
    refine ⟨childless_spec hfree, ?_⟩
    rcases href with href | href | href
    · exact .inl (.inl href)
    · exact .inl (.inr href)
    · exact .inr (listed_iff.mp href)

/-- A call in `tcp.rs` other than `close` relies on its entry and has nothing in hand. -/
theorem tcp_of_ne_close (desc : SockDesc) (sock : Sock) (w : Bool) (hne : ∀ d, ev ≠ .close d) :
    (Call.tcp desc sock ev w).inHand = none ∧ (Call.tcp desc sock ev w).on = some (desc, sock) := by
  cases ev with
  | close d => exact absurd rfl (hne d)
  | _ => exact ⟨rfl, rfl⟩

/-! ## The invariant -/

/-- Every block is referred to, waits for its listener, or is closing. -/
structure LeakInv (st : Stack) : Prop where
  queue : QueueInv False st.tcp
  orphans : NoOrphans (Refers st.socks st.calls) st.tcp
  calls : CallInv st.socks st.calls

/-- A critical section of `tcp.rs`, whose caller refers to what it gets. -/
theorem LeakInv.step {act : Action} (h : LeakInv st) (hguard : sparing env st act = true)
    (hev : below st act = some ev) (hstep : Tcp.step env.toEnv st.tcp ev = .ok out)
    (hcalls : CallInv socks' calls')
    (hkeep : ∀ d p, out.tcp.get d = some p → Refers st.socks st.calls d →
      Refers socks' calls' d ∨ p.state.leaving = true)
    (hsocket : ev = .socket → ∀ d, out.reply = .desc d → Refers socks' calls' d)
    (haccept : ∀ l d remote, ev = .accept l → out.reply = .conn d remote → Refers socks' calls' d) :
    LeakInv { tcp := out.tcp, socks := socks', calls := calls' } := by
  have hmove := Tcp.step_move hstep
  have hmindful := mindful_of_sparing hguard h.calls hev
  refine ⟨h.queue.move hmindful.off hmove, ?_, hcalls⟩
  refine (h.orphans.move h.queue hmindful hmove).mono fun d p hp href ↦ ?_
  rcases href with href | ⟨rfl, hreply⟩ | ⟨remote, hreply⟩
  · exact hkeep d p hp href
  · exact .inl (hsocket rfl d hreply)
  · obtain ⟨l, -, -, -, -, hl, -⟩ := hmove.conn hreply
    exact .inl (haccept l d remote hl hreply)

/-- A call goes on without `tcp.rs`. -/
theorem LeakInv.goes (h : LeakInv st) (hcalls : CallInv socks' calls')
    (hkeep : ∀ d, Refers st.socks st.calls d → Refers socks' calls' d) :
    LeakInv { st with socks := socks', calls := calls' } :=
  ⟨h.queue, h.orphans.mono fun d _ _ href ↦ .inl (hkeep d href), hcalls⟩

/-- `close` in `tcp.rs`: its block is gone or closing, unless another socket has it. -/
theorem LeakInv.closes {d : TcpDesc} {w : Bool} (h : LeakInv st)
    (hguard : sparing env st (.resume i) = true)
    (hi : st.calls.peek i = some (.tcp desc sock (.close d) w))
    (hstep : Tcp.step env.toEnv st.tcp (.close d) = .ok out)
    (hcalls : ∀ j, calls'.peek j = if j = i then none else st.calls.peek j) :
    LeakInv { st with tcp := out.tcp, calls := calls' } := by
  have hev : below st (.resume i) = some (.close d) := by simp [below, hi]
  have hout : Tcp.closeCall env.toEnv st.tcp d = out := Except.ok.inj hstep
  refine h.step hguard hev hstep (h.calls.goes hi hcalls (by simp)) (fun d' p hp href ↦ ?_)
    (by simp) (by simp)
  by_cases hd : d' = d
  · subst hd
    have hspec := (Tcp.closeCall_spec env.toEnv st.tcp d').2 p
    rw [hout] at hspec
    rcases hspec hp with hleaving | ⟨hp₀, hs⟩
    · exact .inr hleaving
    · unfold sparing at hguard
      simp only [hev, Option.all_some, spares, hp₀, Bool.and_eq_true, decide_eq_true_eq] at hguard
      exact .inl (.inl (hguard.2.1.1 hs))
  · left
    refine Refers.goes hi hcalls (fun hhand ↦ ?_) .inl href
    exact absurd (by simpa [Call.inHand] using hhand.symm) hd

/-- A call in `tcp.rs` other than `close`: what it accepts is on its way to a socket. -/
theorem LeakInv.follows {w : Bool} (h : LeakInv st) (hguard : sparing env st (.resume i) = true)
    (hne : ∀ d, ev ≠ .close d) (hi : st.calls.peek i = some (.tcp desc sock ev w))
    (hstep : Tcp.step env.toEnv st.tcp ev = .ok out)
    (hcalls : ∀ j, calls'.peek j =
      if j = i then (follow desc sock ev out).call? else st.calls.peek j) :
    LeakInv { st with tcp := out.tcp, calls := calls' } := by
  have hev : below st (.resume i) = some ev := by simp [below, hi]
  obtain ⟨hty, htarget, -⟩ := h.calls.sound i _ hi
  obtain ⟨hhand, hon⟩ := tcp_of_ne_close desc sock w hne
  have hkeep : ∀ d, Refers st.socks st.calls d → Refers st.socks calls' d :=
    fun d ↦ Refers.goes hi hcalls (by simp [hhand]) .inl
  refine h.step hguard hev hstep (h.calls.goes hi hcalls fun x hx ↦ ?_)
    (fun d _ _ href ↦ .inl (hkeep d href)) ?_ ?_
  · rcases follow_cases hne hx with ⟨l, new, remote, -, -, rfl⟩ | ⟨ev', w', rfl, htarget', hne'⟩
    · exact ⟨trivial, rfl, by simp [Call.on]⟩
    · refine ⟨⟨hty, htarget'.trans htarget, fun _ ↦ hne'⟩, rfl, fun e he ↦ ?_⟩
      rw [(tcp_of_ne_close desc sock w' hne').2] at he
      exact hon.trans he
  · rintro rfl
    exact absurd htarget (by simp [target])
  · rintro l d remote rfl hreply
    refine .inr (inHand_iff.mpr
      ⟨i, .store (entry sock.family sock.ty d out.tcp) (some remote), ?_, ?_⟩)
    · rw [hcalls, if_pos rfl]
      simp [follow, hreply, Next.call?]
    · simp [Call.inHand, entry, hty]

/-- **One turn**: no block is lost, provided the turn is sparing. -/
theorem LeakInv.turn {act : Action} (h : LeakInv st) (hguard : sparing env st act = true)
    (hturn : Turn env st act st') : LeakInv st' := by
  cases hturn with
  | idle => exact h
  | @event act ev out hact hstep =>
      have hev : below st act = some ev := by
        rcases hact with ⟨rfl, rfl⟩ | ⟨s, rfl, rfl⟩ <;> rfl
      refine h.step hguard hev hstep h.calls (fun _ _ _ ↦ .inl) ?_ ?_
      · rintro rfl
        rcases hact with ⟨-, hne⟩ | ⟨s, -, hne⟩ <;> exact absurd hne (by simp)
      · rintro l d remote rfl
        rcases hact with ⟨-, hne⟩ | ⟨s, -, hne⟩ <;> exact absurd hne (by simp)
  | @enter req c henter =>
      have hcalm : calm st.calls req = true := by
        unfold sparing at hguard
        simp only [Bool.and_eq_true] at hguard
        exact hguard.1
      obtain ⟨hfree, hcalls⟩ := Slots.insert_spec st.calls c
      refine h.goes (h.calls.enter henter hcalm hcalls) fun d href ↦ href.imp_right fun hd ↦ ?_
      obtain ⟨j, x, hx, hhand⟩ := inHand_iff.mp hd
      have hj : j ≠ (st.calls.insert c).1 := by
        rintro rfl
        exact absurd (hx.symm.trans hfree) (by simp)
      exact inHand_iff.mpr ⟨j, x, by rw [hcalls, if_neg hj, hx], hhand⟩
  | @socket i family out calls c hi hstep hc hcalls =>
      have hev : below st (.resume i) = some .socket := by simp [below, hi]
      have hkeep : ∀ d, Refers st.socks st.calls d → Refers st.socks calls d :=
        fun d ↦ Refers.goes hi hcalls (by simp [Call.inHand]) .inl
      refine h.step hguard hev hstep (h.calls.goes hi hcalls ?_) (fun d _ _ href ↦ .inl (hkeep d href))
        ?_ (by simp)
      · rcases hc with ⟨d, -, rfl⟩ | ⟨-, rfl⟩
        · rintro x ⟨⟩
          exact ⟨trivial, rfl, by simp [Call.on]⟩
        · simp
      · intro _ d hreply
        rcases hc with ⟨d', hreply', rfl⟩ | ⟨hnone, -⟩
        · obtain rfl : d' = d := by simpa using hreply'.symm.trans hreply
          exact .inr (inHand_iff.mpr ⟨i, _, by rw [hcalls, if_pos rfl], by simp [Call.inHand, entry]⟩)
        · exact absurd hreply (hnone d)
  | @udp i c calls c' hi hcall hc hcalls =>
      have hhand : c.inHand = none := by
        rcases hcall with ⟨family, ty, -, rfl⟩ | ⟨u, rfl⟩ <;> rfl
      refine h.goes (h.calls.goes hi hcalls ?_)
        fun d ↦ Refers.goes hi hcalls (by simp [hhand]) .inl
      rcases hc with rfl | ⟨s, r, rfl, -⟩
      · simp
      · rintro x ⟨⟩
        exact ⟨trivial, rfl, by simp [Call.on]⟩
  | @store i sock remote socks calls desc hi hdesc hsocks hcalls =>
      refine h.goes (h.calls.store hi hdesc hsocks hcalls) fun d ↦ Refers.goes hi hcalls ?_ ?_
      · intro hd
        simp only [Call.inHand] at hd
        split at hd
        · next hty =>
          exact .inl (live_iff.mpr ⟨desc, sock, by rw [hsocks, if_pos rfl], hty, by simpa using hd⟩)
        · exact absurd hd (by simp)
      · intro hd
        obtain ⟨j, s, hs, hty, hsd⟩ := live_iff.mp hd
        have hj : j ≠ desc := by
          rintro rfl
          exact absurd (hs.symm.trans hdesc) (by simp)
        exact .inl (live_iff.mpr ⟨j, s, by rw [hsocks, if_neg hj, hs], hty, hsd⟩)
  | @clear i desc sock socks calls hi hsocks hcalls =>
      refine h.goes (h.calls.clear hi hsocks hcalls)
        fun d ↦ Refers.goes hi hcalls (by simp [Call.inHand]) fun hd ↦ ?_
      obtain ⟨j, s, hs, hty, rfl⟩ := live_iff.mp hd
      by_cases hj : j = desc
      · -- The entry it takes out is the one it has read, and its block is now in hand.
        subst hj
        obtain rfl : sock = s := by simpa using (h.calls.on i _ j sock hi rfl).symm.trans hs
        refine .inr (inHand_iff.mpr ⟨i, .tcp j sock (.close sock.desc) false, ?_, rfl⟩)
        rw [hcalls, if_pos rfl, closeBelow, if_pos hty]
        rfl
      · exact .inl (live_iff.mpr ⟨j, s, by rw [hsocks, if_neg hj, hs], hty, rfl⟩)
  | @tcp i desc sock ev w out calls hi hstep hcalls =>
      by_cases hclose : ∃ d, ev = .close d
      · obtain ⟨d, rfl⟩ := hclose
        rw [follow_close hstep] at hcalls
        exact h.closes hguard hi hstep hcalls
      · exact h.follows hguard (fun d hd ↦ hclose ⟨d, hd⟩) hi hstep hcalls
  | @interrupt i desc sock ev calls hi hcalls =>
      obtain ⟨hty, htarget, hwaits⟩ := h.calls.sound i _ hi
      obtain ⟨hhand, hon⟩ := tcp_of_ne_close desc sock true (hwaits rfl)
      refine h.goes (h.calls.goes hi hcalls fun x hx ↦ ?_)
        fun d ↦ Refers.goes hi hcalls (by simp [hhand]) .inl
      obtain ⟨d, rfl, rfl⟩ : ∃ d, ev = .connectPoll d ∧
          x = .tcp desc sock (.connectInterrupted d) false := by
        unfold interrupted at hx
        split at hx
        · next d => exact ⟨d, rfl, by simpa [Next.call?] using hx.symm⟩
        · exact absurd hx (by simp [Next.call?])
        · exact absurd hx (by simp [Next.call?])
      exact ⟨⟨hty, htarget, by simp⟩, rfl, fun e he ↦ hon.trans he⟩

end

/-! ## Runs -/

theorem StackWhen.leakInv {st : Stack}
    (h : StackWhen (fun env st act ↦ sparing env st act = true) st) : LeakInv st := by
  refine Machine.Reach.invariant LeakInv ?_ ?_ h
  · rintro _ rfl
    exact ⟨by constructor <;> simp [Tcp.get], by constructor <;> simp [Tcp.get],
      by constructor <;> simp⟩
  · rintro st ⟨env, act⟩ st' ih ⟨hguard, answer, hturn⟩
    exact ih.turn hguard (turn_spec hturn)

/-- No call is between two of its critical sections with a block in hand. -/
def Stack.Boundary (st : Stack) : Prop := ∀ i c, st.calls.peek i = some c → c.inHand = none

/-- Why a block is not lost: a socket refers to it, it will report to a listener or waits
in the backlog of one, or its connection is closing. -/
def Stack.Keeps (st : Stack) (d : TcpDesc) (p : TcpPcb) : Prop :=
  (∃ i s, st.socks.peek i = some s ∧ s.ty = sockStream ∧ s.desc = d) ∨
    (p.state = .synReceived ∧ ∃ l q, p.parentDesc = some l ∧ st.tcp.get l = some q ∧
      q.state = .listen) ∨
    (∃ l q, st.tcp.get l = some q ∧ q.state = .listen ∧ d ∈ q.backlog) ∨
    p.state ∈ [.finWait1, .finWait2, .closing, .lastAck, .timeWait]

/-- **No block is lost**: in a run whose turns are all sparing, at every boundary of the
calls, every block is kept. -/
theorem no_block_lost {st : Stack}
    (h : StackWhen (fun env st act ↦ sparing env st act = true) st) (hboundary : st.Boundary)
    {d : TcpDesc} {p : TcpPcb} (hp : st.tcp.get d = some p) : st.Keeps d p := by
  have hinv := h.leakInv
  rcases hinv.orphans.tended d p hp with (hlive | hhand) | ⟨hstate, hparent⟩ | ⟨l, q, hq, hmem⟩ |
    hleaving
  · exact .inl (live_iff.mp hlive)
  · obtain ⟨i, c, hc, hd⟩ := inHand_iff.mp hhand
    exact absurd ((hboundary i c hc).symm.trans hd) (by simp)
  · obtain ⟨l, hl⟩ := Option.ne_none_iff_exists'.mp hparent
    obtain ⟨q, hq, hlisten⟩ := hinv.orphans.half d p l hp hstate hl
    exact .inr (.inl ⟨hstate, l, q, hl, hq, hlisten⟩)
  · have hlisten := hinv.orphans.listener l q hq (List.ne_nil_of_mem hmem)
    exact .inr (.inr (.inl ⟨l, q, hq, hlisten, hmem⟩))
  · refine .inr (.inr (.inr ?_))
    cases hs : p.state <;> simp_all [TcpState.leaving]

theorem boundary_of_calls {st : Stack} (h : st.calls.all Option.isNone = true) : st.Boundary := by
  intro i c hc
  have hnone := List.all_eq_true.mp h _ (Slots.mem_of_peek hc)
  exact absurd hnone (by simp)

/-- The accepted connection of `acceptRun` is closed: its block has no socket any more, and
is closing. -/
theorem no_block_lost_closed :
    ∃ st p, StackWhen (fun env st act ↦ sparing env st act = true) st ∧ st.Boundary ∧
      st.tcp.get 1 = some p ∧ p.state = .finWait1 ∧ live st.socks 1 = false ∧ st.Keeps 1 p := by
  obtain ⟨st, hrun, htest⟩ := exists_stackWhen sparing (fun _ _ _ h ↦ h)
    (fun st ↦ st.calls.all Option.isNone && !live st.socks 1 &&
      (st.tcp.get 1).any fun p ↦ p.state = .finWait1)
    (acceptRun ++ [.call (.close 1), .resume 0, .resume 0].map fun act ↦ (sockEnv, act))
    (by decide +kernel)
  simp only [Bool.and_eq_true, Bool.not_eq_true'] at htest
  obtain ⟨⟨hcalls, hlive⟩, htest⟩ := htest
  obtain ⟨p, hp, hstate⟩ := (Option.any_eq_true _ _).mp htest
  have hboundary := boundary_of_calls hcalls
  exact ⟨st, p, hrun, hboundary, hp, of_decide_eq_true hstate, hlive,
    no_block_lost hrun hboundary hp⟩

/-- Without the condition it fails: a socket is opened and closed, and `tcp::close` leaves
the block in CLOSED. -/
theorem block_lost :
    ¬ ∀ st : Stack, StackReachable st → st.Boundary → ∀ d p, st.tcp.get d = some p →
      st.Keeps d p := by
  intro hall
  obtain ⟨st, hreach, htest⟩ := exists_stackWhen (G := fun _ _ _ ↦ True) (fun _ _ _ ↦ true)
    (fun _ _ _ _ ↦ trivial) (fun st ↦ st.calls.all Option.isNone && !live st.socks 0 &&
      !listed st.tcp 0 && (st.tcp.get 0).any fun p ↦ p.state = .closed)
    ([.call (.open afInet sockStream), .resume 0, .resume 0, .call (.close 0), .resume 0,
      .resume 0].map fun act ↦ (sockEnv, act)) (by decide +kernel)
  simp only [Bool.and_eq_true, Bool.not_eq_true'] at htest
  obtain ⟨⟨⟨hcalls, hlive⟩, hlisted⟩, htest⟩ := htest
  obtain ⟨p, hp, hstate⟩ := (Option.any_eq_true _ _).mp htest
  have hstate : p.state = .closed := of_decide_eq_true hstate
  rcases hall st hreach (boundary_of_calls hcalls) 0 p hp with href | ⟨hs, -⟩ |
    ⟨l, q, hq, -, hmem⟩ | hleaving
  · exact absurd (live_iff.mpr href) (by simp [hlive])
  · exact absurd (hstate.symm.trans hs) (by simp)
  · exact absurd (listed_iff.mpr ⟨l, q, hq, hmem⟩) (by simp [hlisted])
  · exact absurd hleaving (by simp [hstate])

end Microps.Sock
