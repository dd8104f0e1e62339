import Microps.Sock.Turn

/-!
# Sockets do not share blocks

An entry of `SOCKS` names its block by a slot, and nothing tells `SOCKS` when the block
is released.  The slot then goes to the next block that is allocated, and the entry
means that one.  The backlog of a listener has the same weakness, and what `accept`
finds there becomes an entry of `SOCKS`.  `keepsOffSocks` is the condition under which
no slot changes hands while somebody still means it, and under it no two sockets share
a block.
-/

namespace Microps.Sock

open Tcp (Event Outcome Reply Move KeepsOff QueueInv)

/-! ## The condition -/

/-- The entry that a call in progress will put into `SOCKS`. -/
def Call.pending : Call → Option Sock
  | .store sock _ => some sock
  | _ => none

/-- A socket means the slot, or a call in progress will make one that does. -/
def claimed (st : Stack) (d : TcpDesc) : Bool :=
  live st.socks d ||
    st.calls.any fun slot ↦ slot.any fun c ↦ c.pending.any fun s ↦ s.ty = sockStream ∧ s.desc = d

/-- The turn allocates no slot that a backlog lists or a socket means, and it neither
connects nor listens on a block that a listener made. -/
def keepsOffSocks (env : SockEnv) (st : Stack) (act : Action) : Bool :=
  (below st act).all fun ev ↦
    (!Tcp.allocates env.toEnv st.tcp ev ||
      st.tcp.pcbAlloc.all fun r ↦ !listed st.tcp r.1 && !claimed st r.1) &&
    match ev with
    | .listen d _ | .connectCall d _ => (st.tcp.get d).all fun p ↦
        Tcp.reopens env.toEnv st.tcp d p ev → p.parentDesc = none
    | _ => true

/-- Who holds an entry: `SOCKS`, or a call in progress that will put it there. -/
inductive Holds (socks : Slots Sock) (calls : Slots Call) : SockDesc ⊕ Nat → Sock → Prop
  | live {i : SockDesc} {s : Sock} (h : socks.peek i = some s) (hty : s.ty = sockStream) :
      Holds socks calls (.inl i) s
  | pending {i : Nat} {s : Sock} {r : Option IpEndp} (h : calls.peek i = some (.store s r))
      (hty : s.ty = sockStream) : Holds socks calls (.inr i) s

section

variable {env : SockEnv} {st st' : Stack} {act : Action} {ev : Event} {out : Outcome}
  {socks : Slots Sock} {calls : Slots Call} {k : SockDesc ⊕ Nat} {s : Sock}

theorem Holds.claimed (h : Holds st.socks st.calls k s) : Sock.claimed st s.desc = true := by
  rw [Sock.claimed, Bool.or_eq_true]
  cases h with
  | live h hty => exact .inl (live_iff.mpr ⟨_, _, h, hty, rfl⟩)
  | pending h hty => exact .inr (Slots.any_any_iff.mpr ⟨_, _, h, by simp [Call.pending, hty]⟩)

/-- What the condition says of the critical section of `tcp.rs`. -/
theorem keepsOff_of_keepsOffSocks (h : keepsOffSocks env st act = true)
    (hev : below st act = some ev) :
    KeepsOff False env.toEnv st.tcp ev ∧ (Tcp.allocates env.toEnv st.tcp ev = true → ∀ d tcp',
      st.tcp.pcbAlloc = some (d, tcp') → ∀ k s, Holds st.socks st.calls k s → s.desc ≠ d) := by
  rw [keepsOffSocks, hev, Option.all_some, Bool.and_eq_true] at h
  obtain ⟨halloc, hopen⟩ := h
  have hfree : Tcp.allocates env.toEnv st.tcp ev = true → ∀ d tcp', st.tcp.pcbAlloc = some (d, tcp') →
      listed st.tcp d = false ∧ claimed st d = false := by
    intro ha d tcp' hd
    simpa [ha, hd] using halloc
  refine ⟨⟨?_, False.elim, ?_⟩, ?_⟩
  · intro ha d tcp' hd l p hp hmem
    exact absurd (listed_iff.mpr ⟨l, p, hp, hmem⟩) (by simp [(hfree ha d tcp' hd).1])
  · intro d p hp hreopens
    rcases Tcp.exists_of_reopens hreopens with ⟨n, rfl⟩ | ⟨r, rfl⟩
    · exact of_decide_eq_true ((Option.all_eq_true _ _).mp hopen p hp) hreopens
    · exact of_decide_eq_true ((Option.all_eq_true _ _).mp hopen p hp) hreopens
  · rintro ha d tcp' hd k s hs rfl
    exact absurd hs.claimed (by simp [(hfree ha s.desc tcp' hd).2])

/-! ## The invariant -/

/-- No two entries mean the same slot, and the block that an entry means, if it is
there, is the one it was made for.  That one is in no backlog and will be in none. -/
structure AliasInv (st : Stack) : Prop where
  queue : QueueInv False st.tcp
  unique : ∀ k k' s s', Holds st.socks st.calls k s → Holds st.socks st.calls k' s' →
    s.desc = s'.desc → k = k'
  block : ∀ k s p, Holds st.socks st.calls k s → st.tcp.get s.desc = some p →
    s.task = some p.task ∧ (p.parentDesc = none ∨ p.hist.accepted = true)

/-- A critical section of `tcp.rs`, when nobody gets a new entry. -/
theorem AliasInv.move (h : AliasInv st) (hguard : keepsOffSocks env st act = true)
    (hev : below st act = some ev) (hstep : Tcp.step env.toEnv st.tcp ev = .ok out) :
    AliasInv { st with tcp := out.tcp } := by
  obtain ⟨hkeeps, hfree⟩ := keepsOff_of_keepsOffSocks hguard hev
  have hmove := Tcp.step_move hstep
  refine ⟨h.queue.move hkeeps hmove, h.unique, fun k s p' hs hp' ↦ ?_⟩
  -- The block was there before: the slot of an entry is not allocated.
  rcases hmove.blocks with ⟨-, hold⟩ | ⟨c, q, tcp', halloc, -, hbirth, hget⟩
  · obtain ⟨p, hp, hevolve⟩ := hold s.desc p' hp'
    obtain ⟨htask, hown⟩ := h.block k s p hs hp
    rw [hevolve.same.1.task, hevolve.same.1.parent]
    exact ⟨htask, hown.imp_right hevolve.same.2⟩
  · have hne := hfree hbirth.allocates c tcp' halloc k s hs
    change out.tcp.get s.desc = some p' at hp'
    rw [hget, if_neg hne] at hp'
    exact h.block k s p' hs hp'

/-- Somebody gets a new entry. -/
theorem AliasInv.add (h : AliasInv st) {o : SockDesc ⊕ Nat} {s₀ : Sock} (htcp : st'.tcp = st.tcp)
    (hholds : ∀ k s, Holds st'.socks st'.calls k s → Holds st.socks st.calls k s ∨ k = o ∧ s = s₀)
    (hfree : ∀ k s, Holds st.socks st.calls k s → s.desc ≠ s₀.desc)
    (hblock : ∀ p, st.tcp.get s₀.desc = some p →
      s₀.task = some p.task ∧ (p.parentDesc = none ∨ p.hist.accepted = true)) :
    AliasInv st' := by
  constructor
  · rw [htcp]
    exact h.queue
  · intro k k' s s' hs hs' hdesc
    rcases hholds k s hs with hs | ⟨rfl, rfl⟩
    · rcases hholds k' s' hs' with hs' | ⟨rfl, rfl⟩
      · exact h.unique k k' s s' hs hs' hdesc
      · exact absurd hdesc (hfree k s hs)
    · rcases hholds k' s' hs' with hs' | ⟨rfl, rfl⟩
      · exact absurd hdesc.symm (hfree k' s' hs')
      · rfl
  · intro k s p hs hp
    rw [htcp] at hp
    rcases hholds k s hs with hs | ⟨rfl, rfl⟩
    · exact h.block k s p hs hp
    · exact hblock p hp

/-- Nobody gets a new entry. -/
theorem AliasInv.less (h : AliasInv st) (htcp : st'.tcp = st.tcp)
    (hholds : ∀ k s, Holds st'.socks st'.calls k s → Holds st.socks st.calls k s) :
    AliasInv st' := by
  constructor
  · rw [htcp]
    exact h.queue
  · exact fun k k' s s' hs hs' ↦ h.unique k k' s s' (hholds k s hs) (hholds k' s' hs')
  · intro k s p hs hp
    rw [htcp] at hp
    exact h.block k s p (hholds k s hs) hp

/-- The entries after the call in slot `i` has gone on. -/
theorem Holds.of_calls {calls' : Slots Call} {i : Nat} {c : Option Call}
    (h : Holds socks calls' k s)
    (hcalls : ∀ j, calls'.peek j = if j = i then c else calls.peek j) :
    Holds socks calls k s ∨ k = .inr i ∧ s.ty = sockStream ∧ ∃ r, c = some (.store s r) := by
  cases h with
  | live h hty => exact .inl (.live h hty)
  | @pending j s r h hty =>
      rw [hcalls] at h
      split at h
      · next hj => exact .inr ⟨by rw [hj], hty, r, h⟩
      · exact .inl (.pending h hty)

/-- `tcp::socket` returns a slot that was free. -/
theorem socket_spec {d : TcpDesc} (hstep : Tcp.step env.toEnv st.tcp .socket = .ok out)
    (hreply : out.reply = .desc d) : (∃ tcp', st.tcp.pcbAlloc = some (d, tcp')) ∧
      out.tcp.get d = some { TcpPcb.empty st.tcp.nextTask with mode := .socket } := by
  have h : Tcp.socketCall st.tcp = .ok out := hstep
  unfold Tcp.socketCall at h
  split at h
  · cases h
    exact absurd hreply (by simp)
  · next d' tcp' halloc =>
    obtain ⟨p, hp, h⟩ := Machine.exists_of_bind_ok h
    obtain rfl : p = _ := by simpa [Tcp.get_pcbAlloc halloc, unwrap] using hp.symm
    cases h
    obtain rfl : d' = d := by simpa using hreply
    exact ⟨⟨tcp', halloc⟩, by rw [Tcp.get_birth halloc, if_pos rfl]⟩

/-- `tcp::accept` returns a block that nobody holds. -/
theorem AliasInv.accepted {l new : TcpDesc} {remote : IpEndp} (h : AliasInv st)
    (hstep : Tcp.step env.toEnv st.tcp (.accept l) = .ok out) (hreply : out.reply = .conn new remote) :
    (∀ k s, Holds st.socks st.calls k s → s.desc ≠ new) ∧
      ∀ p, out.tcp.get new = some p → p.hist.accepted = true := by
  obtain ⟨d, p, q, rest, m, -, hp, hstate, hbacklog, hq, hout⟩ :=
    (Tcp.step_move hstep).conn hreply
  have hmem : new ∈ p.backlog := hbacklog ▸ List.mem_cons_self
  have hne : new ≠ d := by
    rintro rfl
    have hparent := (h.queue.entry new p new p hp hmem hp).1
    exact (h.queue.child new p hp (by simp [hparent])).1 hstate
  have hq₀ : st.tcp.get new = some q := by rwa [Tcp.get_set hp, if_neg hne] at hq
  obtain ⟨hparent, -, haccepted, -⟩ := h.queue.entry d p new q hp hmem hq₀
  refine ⟨?_, ?_⟩
  · rintro k s hs rfl
    rcases (h.block k s q hs hq₀).2 with hnone | htrue
    · exact absurd (hparent.symm.trans hnone) (by simp)
    · exact absurd (haccepted.symm.trans htrue) (by simp)
  · intro p' hp'
    rw [hout, Tcp.get_set hq, if_pos rfl] at hp'
    cases hp'
    rfl

/-- A call goes on without an entry to store. -/
theorem AliasInv.goes {i : Nat} {c : Option Call} (h : AliasInv st)
    (hcalls : ∀ j, calls.peek j = if j = i then c else st.calls.peek j)
    (hc : ∀ s r, c = some (.store s r) → s.ty ≠ sockStream) :
    AliasInv { st with calls := calls } := by
  refine h.less rfl fun k s hs ↦ ?_
  rcases hs.of_calls hcalls with hs | ⟨-, hty, r, hr⟩
  · exact hs
  · exact absurd hty (hc s r hr)

/-- A call goes on with an entry that nobody has. -/
theorem AliasInv.gets {i : Nat} {s₀ : Sock} {r₀ : Option IpEndp} (h : AliasInv st)
    (hcalls : ∀ j, calls.peek j = if j = i then some (.store s₀ r₀) else st.calls.peek j)
    (hfree : ∀ k s, Holds st.socks st.calls k s → s.desc ≠ s₀.desc)
    (hblock : ∀ p, st.tcp.get s₀.desc = some p →
      s₀.task = some p.task ∧ (p.parentDesc = none ∨ p.hist.accepted = true)) :
    AliasInv { st with calls := calls } := by
  refine h.add (o := .inr i) rfl (fun k s hs ↦ ?_) hfree hblock
  rcases hs.of_calls hcalls with hs | ⟨hk, -, r, hr⟩
  · exact .inl hs
  · obtain ⟨rfl, -⟩ : s₀ = s ∧ _ := by simpa using hr
    exact .inr ⟨hk, rfl⟩

/-- An entry moves from a call into `SOCKS`. -/
theorem AliasInv.store {i : Nat} {desc : SockDesc} {s₀ : Sock} {r₀ : Option IpEndp} (h : AliasInv st)
    (hi : st.calls.peek i = some (.store s₀ r₀))
    (hsocks : ∀ j, socks.peek j = if j = desc then some s₀ else st.socks.peek j)
    (hcalls : ∀ j, calls.peek j = if j = i then none else st.calls.peek j) :
    AliasInv { st with socks := socks, calls := calls } := by
  have hback : ∀ k s, Holds socks calls k s →
      k = .inl desc ∧ Holds st.socks st.calls (.inr i) s ∨
      k ≠ .inr i ∧ Holds st.socks st.calls k s := by
    intro k s hs
    cases hs with
    | @live j s hj hty =>
        rw [hsocks] at hj
        split at hj
        · next hd =>
          cases hj
          exact .inl ⟨by rw [hd], .pending hi hty⟩
        · exact .inr ⟨by simp, .live hj hty⟩
    | @pending j s r hj hty =>
        rw [hcalls] at hj
        split at hj
        · exact absurd hj (by simp)
        · next hd => exact .inr ⟨by simpa using hd, .pending hj hty⟩
  refine ⟨h.queue, ?_, ?_⟩
  · intro k k' s s' hs hs' hdesc
    rcases hback k s hs with ⟨hk, hs₁⟩ | ⟨hne, hs₁⟩
    · rcases hback k' s' hs' with ⟨hk', -⟩ | ⟨hne', hs₁'⟩
      · rw [hk, hk']
      · exact absurd (h.unique _ _ _ _ hs₁ hs₁' hdesc).symm hne'
    · rcases hback k' s' hs' with ⟨-, hs₁'⟩ | ⟨-, hs₁'⟩
      · exact absurd (h.unique _ _ _ _ hs₁ hs₁' hdesc) hne
      · exact h.unique _ _ _ _ hs₁ hs₁' hdesc
  · intro k s p hs hp
    rcases hback k s hs with ⟨-, hs⟩ | ⟨-, hs⟩
    · exact h.block _ s p hs hp
    · exact h.block k s p hs hp

/-- **One turn**: no two sockets come to share a block, provided the turn keeps off the
slots that somebody means. -/
theorem AliasInv.turn (h : AliasInv st) (hguard : keepsOffSocks env st act = true)
    (hturn : Turn env st act st') : AliasInv st' := by
  cases hturn with
  | idle => exact h
  | @event act ev out hact hstep =>
      refine h.move hguard ?_ hstep
      rcases hact with ⟨rfl, rfl⟩ | ⟨s, rfl, rfl⟩ <;> rfl
  | @enter req c henter =>
      refine h.goes (Slots.insert_spec st.calls c).2 fun s r hc ↦ ?_
      obtain rfl : c = .store s r := by simpa using hc
      exact absurd henter (enter_ne_store _ _ _ _)
  | @socket i family out calls c hi hstep hc hcalls =>
      have hev : below st (.resume i) = some .socket := by simp [below, hi]
      have hmoved := h.move hguard hev hstep
      rcases hc with ⟨d, hreply, rfl⟩ | ⟨-, rfl⟩
      · obtain ⟨⟨tcp', halloc⟩, hd⟩ := socket_spec hstep hreply
        have hfree := (keepsOff_of_keepsOffSocks hguard hev).2 rfl d tcp' halloc
        refine hmoved.gets hcalls hfree fun p hp ↦ ?_
        obtain rfl : p = _ := by simpa using hp.symm.trans hd
        exact ⟨by simp [entry, hd], .inl rfl⟩
      · exact hmoved.goes hcalls (by simp)
  | udp hi hcall hc hcalls =>
      refine h.goes hcalls ?_
      rcases hc with rfl | ⟨s', r', rfl, hne⟩
      · simp
      · rintro s r ⟨⟩
        exact hne
  | store desc hi hdesc hsocks hcalls => exact h.store hi hsocks hcalls
  | @clear i desc sock socks calls hi hsocks hcalls =>
      refine h.less rfl fun k s hs ↦ ?_
      rcases hs.of_calls hcalls with hs | ⟨-, -, r, hr⟩
      · cases hs with
        | @live j s hj hty =>
            rw [hsocks] at hj
            split at hj
            · exact absurd hj (by simp)
            · exact .live hj hty
        | pending hj hty => exact .pending hj hty
      · exact absurd hr (closeBelow_ne_store _ _ _ _)
  | @tcp i desc sock ev w out calls hi hstep hcalls =>
      have hev : below st (.resume i) = some ev := by simp [below, hi]
      have hmoved := h.move hguard hev hstep
      by_cases hstore : ∃ s r, (follow desc sock ev out).call? = some (.store s r)
      · obtain ⟨s, r, hs⟩ := hstore
        obtain ⟨l, new, remote, rfl, hreply, rfl⟩ := follow_store hs
        obtain ⟨hfree, haccepted⟩ := h.accepted hstep hreply
        rw [hs] at hcalls
        refine hmoved.gets hcalls hfree fun p hp ↦ ?_
        have hp : out.tcp.get new = some p := hp
        exact ⟨by simp [entry, hp], .inr (haccepted p hp)⟩
      · exact hmoved.goes hcalls fun s r hs ↦ absurd ⟨s, r, hs⟩ hstore
  | interrupt hi hcalls =>
      exact h.goes hcalls fun s r hs ↦ absurd hs (interrupted_ne_store _ _ _ _ _)

end

/-! ## Runs -/

theorem StackWhen.aliasInv {st : Stack}
    (h : StackWhen (fun env st act ↦ keepsOffSocks env st act = true) st) : AliasInv st := by
  refine Machine.Reach.invariant AliasInv ?_ ?_ h
  · rintro _ rfl
    refine ⟨by constructor <;> simp [Tcp.get], ?_, ?_⟩
    · rintro k k' s s' (⟨h, -⟩ | ⟨h, -⟩) <;> exact absurd h (by simp)
    · rintro k s p (⟨h, -⟩ | ⟨h, -⟩) <;> exact absurd h (by simp)
  · rintro st ⟨env, act⟩ st' ih ⟨hguard, answer, hturn⟩
    exact ih.turn hguard (turn_spec hturn)

/-- **No two sockets share a block**: in a run that keeps off the slots that somebody
means, two different `SOCK_STREAM` entries of `SOCKS` never mean the same slot, and the
block in the slot that an entry means, if there is one, is the block it was made
for. -/
theorem sockets_disjoint {st : Stack}
    (h : StackWhen (fun env st act ↦ keepsOffSocks env st act = true) st) :
    (∀ i j s s', st.socks.peek i = some s → st.socks.peek j = some s' → s.ty = sockStream →
      s'.ty = sockStream → s.desc = s'.desc → i = j) ∧
    ∀ i s p, st.socks.peek i = some s → s.ty = sockStream → st.tcp.get s.desc = some p →
      s.task = some p.task := by
  have hinv := h.aliasInv
  refine ⟨fun i j s s' hs hs' hty hty' hdesc ↦ ?_, fun i s p hs hty hp ↦ ?_⟩
  · simpa using hinv.unique (.inl i) (.inl j) s s' (.live hs hty) (.live hs' hty') hdesc
  · exact (hinv.block (.inl i) s p (.live hs hty) hp).1

/-- The listener and the connection have a block each. -/
theorem sockets_disjoint_accepted :
    ∃ st s s' p, StackWhen (fun env st act ↦ keepsOffSocks env st act = true) st ∧
      st.socks.peek 0 = some s ∧ st.socks.peek 1 = some s' ∧ s.ty = sockStream ∧
      s'.ty = sockStream ∧ s.desc ≠ s'.desc ∧ st.tcp.get s'.desc = some p ∧
      s'.task = some p.task := by
  obtain ⟨st, hrun, htest⟩ := exists_stackWhen keepsOffSocks (fun _ _ _ h ↦ h)
    (fun st ↦ (st.socks.peek 0).any fun s ↦ (st.socks.peek 1).any fun s' ↦
      s.ty = sockStream && s'.ty = sockStream && (st.tcp.get s'.desc).isSome) acceptRun
    (by decide +kernel)
  obtain ⟨s, hs, htest⟩ := (Option.any_eq_true _ _).mp htest
  obtain ⟨s', hs', htest⟩ := (Option.any_eq_true _ _).mp htest
  simp only [Bool.and_eq_true, decide_eq_true_eq] at htest
  obtain ⟨⟨hty, hty'⟩, hsome⟩ := htest
  obtain ⟨p, hp⟩ := Option.isSome_iff_exists.mp hsome
  obtain ⟨hdisjoint, hblock⟩ := sockets_disjoint hrun
  refine ⟨st, s, s', p, hrun, hs, hs', hty, hty', ?_, hp, hblock 1 s' p hs' hty' hp⟩
  intro hdesc
  exact absurd (hdisjoint 0 1 s s' hs hs' hty hty' hdesc) (by simp)

/-- Without the condition it fails: a peer refuses a connection, its block is released,
and the next socket gets the slot, while the first one still means it. -/
theorem sockets_share_block :
    ¬ ∀ st, StackReachable st → (∀ i j s s', st.socks.peek i = some s → st.socks.peek j = some s' →
        s.ty = sockStream → s'.ty = sockStream → s.desc = s'.desc → i = j) ∧
      ∀ i s p, st.socks.peek i = some s → s.ty = sockStream → st.tcp.get s.desc = some p →
        s.task = some p.task := by
  intro hall
  obtain ⟨st, hreach, htest⟩ := exists_stackWhen (G := fun _ _ _ ↦ True) (fun _ _ _ ↦ true)
    (fun _ _ _ _ ↦ trivial) (fun st ↦ (st.socks.peek 0).any fun s ↦ (st.socks.peek 1).any fun s' ↦
      s.ty = sockStream && s'.ty = sockStream && s.desc = s'.desc)
    ([.call (.open afInet sockStream), .resume 0, .resume 0, .call (.connect 0 Tcp.peerEndp),
      .resume 0, .arrive { src := Tcp.peerEndp, dst := ⟨Tcp.hostEndp.addr, 49152⟩, seq := 0,
                           ack := 101, flg := flgRst ||| flgAck, wnd := 0, data := [] },
      .resume 0, .call (.open afInet sockStream), .resume 0, .resume 0].map fun act ↦
        (sockEnv, act)) (by decide +kernel)
  obtain ⟨s, hs, htest⟩ := (Option.any_eq_true _ _).mp htest
  obtain ⟨s', hs', htest⟩ := (Option.any_eq_true _ _).mp htest
  simp only [Bool.and_eq_true, decide_eq_true_eq] at htest
  obtain ⟨⟨hty, hty'⟩, hdesc⟩ := htest
  exact absurd ((hall st hreach).1 0 1 s s' hs hs' hty hty' hdesc) (by simp)

end Microps.Sock
