import Mathlib.Data.List.Nodup
import Microps.Tcp.Identity

/-!
# The accept queue

A descriptor is an index, and an index outlives the block it names.  The backlog
of a listener and the `parent_desc` of a child are descriptors, and nothing takes
them back when their block is released: a backlog may list a slot that has been
given to somebody else since, and a child may report to a listener that took the
slot of its own.  `keepsOffStale` is the condition under which neither happens,
and under it the accept queue is sound.  If only the former is excluded, the blocks in
a backlog are still nobody else's, but the listener may not be the one that made them.
-/

namespace Microps.Tcp

/-! ## The condition -/

/-- Somebody still means an earlier block by this slot: a backlog lists it, or a
half-open block has it as its parent. -/
def stale (tcp : Tcp) (d : TcpDesc) : Bool :=
  tcp.pcbs.any fun slot ↦ slot.any fun p ↦
    d ∈ p.backlog ∨ p.state = .synReceived ∧ p.parentDesc = some d

/-- The event puts a new block into the slot that `pcb_alloc` takes. -/
def allocates (env : Env) (tcp : Tcp) : Event → Bool
  | .socket => true
  | .openCall l r active => tcp.pcbAlloc.any fun a ↦
      if active then (chooseLocal env a.2 l r).any fun l ↦
        !(pcbSelect a.2.pcbs l r).isSome && env.ipOutput (sendSyn env (.empty tcp.nextTask) l r).2
      else !(pcbSelect a.2.pcbs l r).isSome
  | .arrive s => !flagIsset s.flg flgRst && !flagIsset s.flg flgAck && flagIsset s.flg flgSyn &&
      (pcbSelect tcp.pcbs s.dst s.src).any fun l ↦ (tcp.get l).any fun p ↦
        p.state = .listen ∧ p.mode = .socket ∧ p.backlog.length < p.backlogMax
  | _ => false

/-- The event allocates no stale slot, and it does not open a block anew that was
made by a listener. -/
def keepsOffStale (env : Env) (tcp : Tcp) (ev : Event) : Bool :=
  (!allocates env tcp ev || tcp.pcbAlloc.all fun r ↦ !stale tcp r.1) &&
    match ev with
    | .listen d _ | .connectCall d _ => (tcp.get d).all fun p ↦
        reopens env tcp d p ev → p.parentDesc = none
    | _ => true

/-- An event that allocates no slot that a backlog lists and opens no child anew.  When
the listeners have to be the `own` ones, it allocates no slot of a parent either. -/
structure KeepsOff (own : Prop) (env : Env) (tcp : Tcp) (ev : Event) : Prop where
  listed : allocates env tcp ev = true → ∀ d tcp', tcp.pcbAlloc = some (d, tcp') →
    ∀ l p, tcp.get l = some p → d ∉ p.backlog
  parent : own → allocates env tcp ev = true → ∀ d tcp', tcp.pcbAlloc = some (d, tcp') →
    ∀ c q, tcp.get c = some q → q.state = .synReceived → q.parentDesc ≠ some d
  child : ∀ d p, tcp.get d = some p → reopens env tcp d p ev = true → p.parentDesc = none

/-- Only `listen` and `connect` open a block anew. -/
theorem exists_of_reopens {env : Env} {tcp : Tcp} {d : TcpDesc} {p : TcpPcb} {ev : Event}
    (h : reopens env tcp d p ev = true) :
    (∃ n, ev = .listen d n) ∨ ∃ r, ev = .connectCall d r := by
  cases ev with
  | listen d' n =>
      obtain ⟨rfl, -⟩ := of_decide_eq_true h
      exact .inl ⟨n, rfl⟩
  | connectCall d' r =>
      obtain ⟨rfl, -⟩ := of_decide_eq_true h
      exact .inr ⟨r, rfl⟩
  | _ => exact absurd h (by simp [reopens])

theorem not_mem_of_not_stale {tcp : Tcp} {d l : TcpDesc} {p : TcpPcb} (h : stale tcp d = false)
    (hp : tcp.get l = some p) :
    d ∉ p.backlog ∧ (p.state = .synReceived → p.parentDesc ≠ some d) := by
  have hslot := List.any_eq_false.mp h _ (Slots.mem_of_peek hp)
  simp only [Option.any_some, decide_eq_true_eq, not_or, not_and] at hslot
  exact hslot

theorem keepsOff_of_keepsOffStale {env : Env} {tcp : Tcp} {ev : Event}
    (h : keepsOffStale env tcp ev = true) : KeepsOff True env tcp ev := by
  obtain ⟨halloc, hopen⟩ := (Bool.and_eq_true _ _).mp h
  have hstale : allocates env tcp ev = true → ∀ d tcp', tcp.pcbAlloc = some (d, tcp') →
      stale tcp d = false := by
    intro hev d tcp' hd
    simpa [hev, hd] using halloc
  constructor
  · exact fun hev d tcp' hd l p hp ↦ (not_mem_of_not_stale (hstale hev d tcp' hd) hp).1
  · exact fun _ hev d tcp' hd c q hq ↦ (not_mem_of_not_stale (hstale hev d tcp' hd) hq).2
  · intro d p hp hreopens
    rcases exists_of_reopens hreopens with ⟨n, rfl⟩ | ⟨r, rfl⟩
    · exact of_decide_eq_true ((Option.all_eq_true _ _).mp hopen p hp) hreopens
    · exact of_decide_eq_true ((Option.all_eq_true _ _).mp hopen p hp) hreopens

theorem Birth.allocates {env : Env} {tcp : Tcp} {d : TcpDesc} {ev : Event} {es : List Effect}
    {reply : Reply} {p : TcpPcb} (h : Birth env tcp d tcp.nextTask ev es reply p) :
    Tcp.allocates env tcp ev = true := by
  cases h with
  | socket => rfl
  | listen l r hopens =>
      obtain ⟨c, tcp', halloc, hfree⟩ := hopens
      simpa [Tcp.allocates, halloc] using hfree
  | syn l l' r hopens houtput =>
      obtain ⟨c, tcp', halloc, hchoose, hfree⟩ := hopens
      simpa [Tcp.allocates, halloc, hchoose, houtput] using hfree
  | child s l q child hselect hq hstate hmode hroom hrst hack hsyn _ =>
      simp [Tcp.allocates, hrst, hack, hsyn, hselect, hq, hstate, hmode, hroom]

/-! ## The queue -/

/-- A backlog lists no slot twice, and the blocks it lists are not yet accepted; so
are the half-open blocks that will report to it.  If the listeners have to be the `own`
ones, all of these were made by the listener itself. -/
structure QueueInv (own : Prop) (tcp : Tcp) : Prop where
  nodup : ∀ l p, tcp.get l = some p → p.backlog.Nodup
  self : ∀ d p, tcp.get d = some p → p.parentDesc ≠ some d
  entry : ∀ l p c q, tcp.get l = some p → c ∈ p.backlog → tcp.get c = some q →
    q.parentDesc = some l ∧ (own → q.hist.creator = some p.task) ∧ q.hist.accepted = false ∧
      q.state ≠ .synReceived
  half : ∀ c q l, tcp.get c = some q → q.state = .synReceived → q.parentDesc = some l →
    q.hist.accepted = false ∧ (own → ∀ p, tcp.get l = some p → q.hist.creator = some p.task)
  child : ∀ c q, tcp.get c = some q → q.parentDesc ≠ none →
    q.state ≠ .listen ∧ q.state ≠ .synSent

/-- What the queues see of a block that stays in slot `d` while the table becomes
`tcp'`, when nothing joins a backlog. -/
structure Shadow (tcp' : Tcp) (d : TcpDesc) (p p' : TcpPcb) : Prop where
  same : SameBlock p p'
  backlog : p'.backlog.Sublist p.backlog
  half : p'.state = .synReceived → p.state = .synReceived ∨ p.parentDesc = none
  child : p.parentDesc ≠ none → p'.state ≠ .listen ∧ p'.state ≠ .synSent
  accepted : p'.hist.accepted = p.hist.accepted ∨
    p'.state ≠ .synReceived ∧ ∀ l q, tcp'.get l = some q → d ∉ q.backlog

section

variable {own : Prop} {env : Env} {tcp tcp' : Tcp} {d l : TcpDesc} {ev : Event}
  {p p' parent : TcpPcb}

theorem QueueInv.of_shadow (h : QueueInv own tcp) (hshadow : ∀ d p', tcp'.get d = some p' →
    ∃ p, tcp.get d = some p ∧ Shadow tcp' d p p') : QueueInv own tcp' := by
  constructor
  · intro l p' hp'
    obtain ⟨p, hp, hs⟩ := hshadow l p' hp'
    exact (h.nodup l p hp).sublist hs.backlog
  · intro d p' hp'
    obtain ⟨p, hp, hs⟩ := hshadow d p' hp'
    rw [hs.same.parent]
    exact h.self d p hp
  · intro l p' c q' hp' hc hq'
    obtain ⟨p, hp, hs⟩ := hshadow l p' hp'
    obtain ⟨q, hq, hs'⟩ := hshadow c q' hq'
    obtain ⟨hparent, hcreator, haccepted, hstate⟩ := h.entry l p c q hp (hs.backlog.subset hc) hq
    refine ⟨hs'.same.parent.trans hparent, fun hown ↦ ?_, ?_, ?_⟩
    · rw [hs'.same.creator, hcreator hown, hs.same.task]
    · rcases hs'.accepted with heq | ⟨-, hnot⟩
      · exact heq.trans haccepted
      · exact absurd hc (hnot l p' hp')
    · intro hstate'
      rcases hs'.half hstate' with h' | h'
      · exact hstate h'
      · exact absurd (hparent.symm.trans h') (by simp)
  · intro c q' l hq' hstate' hparent'
    obtain ⟨q, hq, hs⟩ := hshadow c q' hq'
    have hparent := hs.same.parent.symm.trans hparent'
    have hstate : q.state = .synReceived := by
      rcases hs.half hstate' with h' | h'
      · exact h'
      · exact absurd (hparent.symm.trans h') (by simp)
    obtain ⟨haccepted, hcreator⟩ := h.half c q l hq hstate hparent
    refine ⟨?_, fun hown p' hp' ↦ ?_⟩
    · rcases hs.accepted with heq | ⟨hne, -⟩
      · exact heq.trans haccepted
      · exact absurd hstate' hne
    · obtain ⟨p, hp, hs'⟩ := hshadow l p' hp'
      rw [hs.same.creator, hcreator hown p hp, hs'.same.task]
  · intro c q' hq' hparent'
    obtain ⟨q, hq, hs⟩ := hshadow c q' hq'
    exact hs.child (hs.same.parent ▸ hparent')

/-- A block joins the backlog of its parent. -/
theorem QueueInv.push (h : QueueInv own tcp) (hl : tcp.get l = some parent)
    (hp : tcp.get d = some p) (hparent : p.parentDesc = some l)
    (hcreator : own → p.hist.creator = some parent.task) (haccepted : p.hist.accepted = false)
    (hstate : p.state ≠ .synReceived) (hnot : d ∉ parent.backlog)
    (hget : ∀ j, tcp'.get j =
      if j = l then some { parent with backlog := parent.backlog ++ [d] } else tcp.get j) :
    QueueInv own tcp' := by
  -- Only one backlog has changed.
  have hback : ∀ j q', tcp'.get j = some q' → ∃ q, tcp.get j = some q ∧
      q' = { q with backlog := q'.backlog } ∧
      (q'.backlog = q.backlog ∨ j = l ∧ q = parent ∧ q'.backlog = q.backlog ++ [d]) := by
    intro j q' hq'
    rw [hget] at hq'
    split at hq'
    · next hj =>
      subst hj
      cases hq'
      exact ⟨parent, hl, rfl, .inr ⟨rfl, rfl, rfl⟩⟩
    · exact ⟨q', hq', rfl, .inl rfl⟩
  constructor
  · intro j q' hq'
    obtain ⟨q, hq, -, hb | ⟨-, rfl, hb⟩⟩ := hback j q' hq'
    · exact hb ▸ h.nodup j q hq
    · rw [hb]
      refine List.nodup_append.mpr ⟨h.nodup j q hq, by simp, ?_⟩
      rintro c hc _ hd rfl
      exact hnot (List.mem_singleton.mp hd ▸ hc)
  · intro j q' hq'
    obtain ⟨q, hq, heq, -⟩ := hback j q' hq'
    rw [heq]
    exact h.self j q hq
  · intro j q' c r' hq' hc hr'
    obtain ⟨q, hq, heq, hb⟩ := hback j q' hq'
    obtain ⟨r, hr, heq', -⟩ := hback c r' hr'
    rw [heq, heq']
    rcases hb with hb | ⟨rfl, rfl, hb⟩
    · exact h.entry j q c r hq (hb ▸ hc) hr
    · rw [hb] at hc
      rcases List.mem_append.mp hc with hc | hc
      · exact h.entry j q c r hq hc hr
      · obtain rfl := List.mem_singleton.mp hc
        obtain rfl : p = r := by simpa using hp.symm.trans hr
        exact ⟨hparent, hcreator, haccepted, hstate⟩
  · intro c r' j hr' hstate' hparent'
    obtain ⟨r, hr, heq, -⟩ := hback c r' hr'
    rw [heq] at hstate' hparent' ⊢
    obtain ⟨hacc, hcre⟩ := h.half c r j hr hstate' hparent'
    refine ⟨hacc, fun hown q' hq' ↦ ?_⟩
    obtain ⟨q, hq, heq', -⟩ := hback j q' hq'
    rw [heq']
    exact hcre hown q hq
  · intro c r' hr' hparent'
    obtain ⟨r, hr, heq, -⟩ := hback c r' hr'
    rw [heq] at hparent' ⊢
    exact h.child c r hr hparent'

/-- A new block in a slot that nobody means. -/
theorem QueueInv.birth (h : QueueInv own tcp) (hnew : Newborn tcp p) (hempty : tcp.get d = none)
    (hlisted : ∀ l q, tcp.get l = some q → d ∉ q.backlog)
    (hmeant : own → ∀ c q, tcp.get c = some q → q.state = .synReceived → q.parentDesc ≠ some d)
    (hget : ∀ j, tcp'.get j = if j = d then some p else tcp.get j)
    (hchild : p.parentDesc ≠ none → p.state ≠ .listen ∧ p.state ≠ .synSent) :
    QueueInv own tcp' := by
  have hcases : ∀ j q, tcp'.get j = some q → j = d ∧ q = p ∨ j ≠ d ∧ tcp.get j = some q := by
    intro j q hq
    rw [hget] at hq
    split at hq
    · next hj => exact .inl ⟨hj, by simpa using hq.symm⟩
    · next hj => exact .inr ⟨hj, hq⟩
  constructor
  · intro l q hq
    rcases hcases l q hq with ⟨rfl, rfl⟩ | ⟨-, hq⟩
    · rw [hnew.backlog]
      exact List.nodup_nil
    · exact h.nodup l q hq
  · intro j q hq
    rcases hcases j q hq with ⟨rfl, rfl⟩ | ⟨-, hq⟩
    · rcases hnew.origin with ⟨hnone, -⟩ | ⟨l, r, hl, -, -, hparent, -⟩
      · simp [hnone]
      · rw [hparent]
        rintro ⟨⟩
        exact absurd (hempty.symm.trans hl) (by simp)
    · exact h.self j q hq
  · intro l q c r hq hc hr
    rcases hcases l q hq with ⟨rfl, rfl⟩ | ⟨-, hq⟩
    · rw [hnew.backlog] at hc
      exact absurd hc (by simp)
    · rcases hcases c r hr with ⟨rfl, rfl⟩ | ⟨-, hr⟩
      · exact absurd hc (hlisted l q hq)
      · exact h.entry l q c r hq hc hr
  · intro c r l hr hstate hparent
    rcases hcases c r hr with ⟨rfl, rfl⟩ | ⟨-, hr⟩
    · refine ⟨hnew.accepted, fun _ q hq ↦ ?_⟩
      rcases hnew.origin with ⟨-, -, hne⟩ | ⟨l', q', hl', -, -, hparent', hcreator, -⟩
      · exact absurd hstate hne
      · obtain rfl : l = l' := by simpa using hparent.symm.trans hparent'
        rcases hcases l q hq with ⟨rfl, rfl⟩ | ⟨-, hq⟩
        · exact absurd (hempty.symm.trans hl') (by simp)
        · obtain rfl : q = q' := by simpa using hq.symm.trans hl'
          exact hcreator
    · obtain ⟨hacc, hcre⟩ := h.half c r l hr hstate hparent
      refine ⟨hacc, fun hown q hq ↦ ?_⟩
      rcases hcases l q hq with ⟨rfl, rfl⟩ | ⟨-, hq⟩
      · exact absurd hparent (hmeant hown c r hr hstate)
      · exact hcre hown q hq
  · intro c r hr hparent
    rcases hcases c r hr with ⟨rfl, rfl⟩ | ⟨-, hr⟩
    · exact hchild hparent
    · exact h.child c r hr hparent

/-- A step of a block by itself, which opens no child anew. -/
theorem BlockStep.shadow {es : List Effect} {reply : Reply} (h : QueueInv own tcp)
    (hp : tcp.get d = some p) (hguard : KeepsOff own env tcp ev)
    (hblock : BlockStep env tcp d ev p es reply p') : Shadow tcp' d p p' := by
  obtain ⟨hsame, hbacklog, haccepted⟩ := hblock.same
  obtain ⟨hhalf, hlisten, hsyn⟩ := hblock.state
  refine ⟨hsame, hbacklog ▸ List.Sublist.refl _, ?_, ?_, .inl haccepted⟩
  · intro hstate
    rcases hhalf hstate with h' | h' | h'
    · exact .inl h'
    · exact .inr (by_contra fun hne ↦ (h.child d p hp hne).1 h')
    · exact .inr (by_contra fun hne ↦ (h.child d p hp hne).2 h')
  · intro hparent
    refine ⟨fun hstate ↦ ?_, fun hstate ↦ ?_⟩
    · rcases hlisten hstate with h' | hreopens
      · exact (h.child d p hp hparent).1 h'
      · exact hparent (hguard.child d p hp hreopens)
    · rcases hsyn hstate with h' | hreopens
      · exact (h.child d p hp hparent).2 h'
      · exact hparent (hguard.child d p hp hreopens)

/-- A block that does not change. -/
theorem Shadow.refl (h : QueueInv own tcp) (hp : tcp.get d = some p) : Shadow tcp' d p p where
  same := ⟨rfl, rfl, rfl, rfl⟩
  backlog := List.Sublist.refl _
  half := .inl
  child := h.child d p hp
  accepted := .inl rfl

/-- A block that only loses an entry of its backlog. -/
theorem Shadow.pop (h : QueueInv own tcp) (hp : tcp.get d = some p) {new : TcpDesc}
    {rest : List TcpDesc} (hbacklog : p.backlog = new :: rest) :
    Shadow tcp' d p { p with backlog := rest } where
  same := ⟨rfl, rfl, rfl, rfl⟩
  backlog := hbacklog ▸ List.sublist_cons_self _ _
  half := .inl
  child := h.child d p hp
  accepted := .inl rfl

/-- A segment past SYN_SENT. -/
theorem Arrived.shadow {s : TcpSegment} (h : Arrived p s p') (hreach : ReachesAck p s)
    (hbacklog : p'.backlog = p.backlog) : Shadow tcp' d p p' := by
  obtain ⟨hsame, haccepted⟩ := h.same
  obtain ⟨-, hlisten, hsyn, hhalf⟩ := h.state hreach.state
  exact ⟨hsame, hbacklog ▸ List.Sublist.refl _, fun h' ↦ absurd h' hhalf,
    fun _ ↦ ⟨hlisten, hsyn⟩, .inl haccepted⟩

/-- The ACK step and what follows leave the backlog alone. -/
theorem AckStep.backlog {p₁ : TcpPcb} {s : TcpSegment} {es₁ es₂ : List Effect}
    (hreach : ReachesAck p s) (hack : AckStep p s.info p₁ es₁)
    (htext : textAndFin env p₁ s.info s.flg s.data = .ok (p', es₂)) :
    p'.backlog = p.backlog := by
  obtain ⟨snd, queue, tw, -, rfl⟩ := hack.eq
  rw [textAndFin_backlog ?_ htext]
  exact afterAck_ne _ hreach.state.1 hreach.state.2.1

/-- The table after a block has joined the backlog of another one. -/
theorem get_join {p₁ p₂ : TcpPcb} (hp : tcp.get d = some p) (hl : tcp.get l = some parent)
    (hdl : d ≠ l) (parent' : TcpPcb) (j : TcpDesc) :
    (((tcp.set d p₁).set l parent').set d p₂).get j =
      if j = l then some parent' else (tcp.set d p₂).get j := by
  have hl₁ : (tcp.set d p₁).get l = some parent := by rw [get_set hp, if_neg (Ne.symm hdl), hl]
  rw [get_set_set_set hp hl₁, get_set hp]
  by_cases hj : j = d
  · rw [if_pos hj, if_pos hj, if_neg (hj ▸ hdl)]
  · rw [if_neg hj, if_neg hj]

/-- The timer sends a block again, or closes it. -/
theorem Shadow.tick (h : QueueInv own tcp) (hp : tcp.get d = some p) :
    Shadow tcp' d p (retransEmit env p).1 := by
  obtain ⟨hsame, hbacklog, haccepted, hstate⟩ := retransEmit_same env p
  refine ⟨hsame, hbacklog ▸ List.Sublist.refl _, ?_, ?_, .inl haccepted⟩
  · rcases hstate with hs | hs
    · exact fun h' ↦ .inl (hs ▸ h')
    · simp [hs]
  · rcases hstate with hs | hs
    · rw [hs]
      exact h.child d p hp
    · simp [hs]

/-- One block changes, and no backlog gets longer. -/
theorem QueueInv.set (h : QueueInv own tcp) (hp : tcp.get d = some p)
    (hshadow : Shadow (tcp.set d p') d p p') : QueueInv own (tcp.set d p') := by
  refine h.of_shadow fun j q hq ↦ ?_
  rw [get_set hp] at hq
  split at hq
  · next hj =>
    subst hj
    cases hq
    exact ⟨p, hp, hshadow⟩
  · exact ⟨q, hq, .refl h hq⟩

/-- A listener hands out the first block of its backlog. -/
theorem QueueInv.accept (h : QueueInv own tcp) (hp : tcp.get d = some p) {new : TcpDesc}
    {q : TcpPcb} {rest : List TcpDesc} (m : U16) (hstate : p.state = .listen)
    (hbacklog : p.backlog = new :: rest)
    (hq : (tcp.set d { p with backlog := rest }).get new = some q) :
    QueueInv own ((tcp.set d { p with backlog := rest }).set new
      { q with mss := m, hist := { q.hist with accepted := true } }) := by
  have hnew : new ∈ p.backlog := hbacklog ▸ List.mem_cons_self
  have hne : new ≠ d := by
    rintro rfl
    have hparent := (h.entry new p new p hp hnew hp).1
    exact (h.child new p hp (by simp [hparent])).1 hstate
  have hmid : QueueInv own (tcp.set d { p with backlog := rest }) := h.set hp (.pop h hp hbacklog)
  have hq₀ : tcp.get new = some q := by rwa [get_set hp, if_neg hne] at hq
  obtain ⟨hparent, -, -, hhalf⟩ := h.entry d p new q hp hnew hq₀
  -- Nobody lists the block any more.
  have hback : ∀ j r, ((tcp.set d { p with backlog := rest }).set new
      { q with mss := m, hist := { q.hist with accepted := true } }).get j = some r →
      new ∉ r.backlog := by
    intro j r hr hmem
    rw [get_set hq, get_set hp] at hr
    have hother : ∀ r₀, tcp.get j = some r₀ → new ∈ r₀.backlog → j = d := by
      intro r₀ hr₀ hmem₀
      simpa using (h.entry j r₀ new q hr₀ hmem₀ hq₀).1.symm.trans hparent
    split at hr
    · next hj =>
      subst hj
      cases hr
      exact hne (hother q hq₀ hmem)
    · split at hr
      · cases hr
        have hnodup := h.nodup d p hp
        rw [hbacklog] at hnodup
        exact (List.nodup_cons.mp hnodup).1 hmem
      · next hj => exact hj (hother r hr hmem)
  exact hmid.set hq ⟨⟨rfl, rfl, rfl, rfl⟩, List.Sublist.refl _, fun h' ↦ absurd h' hhalf,
    hmid.child new q hq, .inr ⟨hhalf, hback⟩⟩

/-- **One step**: the queue stays sound, provided the event keeps off stale
slots. -/
theorem QueueInv.move {out : Outcome} (h : QueueInv own tcp) (hguard : KeepsOff own env tcp ev)
    (hmove : Move env tcp ev out) : QueueInv own out.tcp := by
  cases hmove with
  | idle _ _ => exact h
  | work hp hblock => exact h.set hp (hblock.shadow h hp hguard)
  | @birth ev reply es d tcp' p' halloc hbirth =>
      have hev := hbirth.allocates
      refine h.birth hbirth.newborn (pcbAlloc_spec halloc).1 (hguard.listed hev d tcp' halloc)
        (fun hown ↦ hguard.parent hown hev d tcp' halloc) (get_birth halloc p') ?_
      intro hparent
      rcases hbirth.newborn.origin with ⟨hnone, -⟩ | ⟨-, -, -, -, -, -, -, hstate, -⟩
      · exact absurd hnone hparent
      · simp [hstate]
  | stillborn hget _ _ =>
      exact h.of_shadow fun j q hq ↦ ⟨q, (hget j).symm.trans hq, .refl h ((hget j).symm.trans hq)⟩
  | drop es _ _ _ _ hdrained _ =>
      refine h.of_shadow fun j q hq ↦ ?_
      have hq := hdrained.drain.some_of_some hq
      exact ⟨q, hq, .refl h hq⟩
  | @pass s d p p₁ p' es₁ es₂ hselect hp hparent hreach hack htext =>
      have harrived := arrived p₁.backlog hreach.state hack htext
      exact h.set hp (harrived.shadow hreach (hack.backlog hreach htext))
  | @join s d l p p₁ p₂ p' parent es₁ es₂ hselect hp hstate hparent hreach hack hl hp₂ htext =>
      have hdl : d ≠ l := by
        rintro rfl
        exact h.self d p hp hparent
      rw [if_neg hdl] at hp₂
      rw [hp₂] at htext
      rw [get_set hp, if_neg (Ne.symm hdl)] at hl
      obtain ⟨haccepted, hcreator⟩ := h.half d p l hp hstate hparent
      have harrived := arrived p₁.backlog hreach.state hack htext
      have hmid : QueueInv own (tcp.set d p') :=
        h.set hp (harrived.shadow hreach (hack.backlog hreach htext))
      have hl' : (tcp.set d p').get l = some parent := by
        rw [get_set hp, if_neg (Ne.symm hdl), hl]
      have hp' : (tcp.set d p').get d = some p' := by rw [get_set hp, if_pos rfl]
      refine hmid.push hl' hp' ?_ ?_ ?_ ?_ ?_ (get_join hp hl hdl _)
      · rw [harrived.same.1.parent, hparent]
      · exact fun hown ↦ by rw [harrived.same.1.creator, hcreator hown parent hl]
      · rw [harrived.same.2, haccepted]
      · exact (harrived.state hreach.state).2.2.2
      · exact fun hmem ↦ (h.entry l parent d p hl hmem hp).2.2.2 hstate
  | pop hp _ hbacklog _ => exact h.set hp (.pop h hp hbacklog)
  | accept m hp hstate hbacklog hq => exact h.accept hp m hstate hbacklog hq
  | tick hnone hsome _ =>
      refine h.of_shadow fun j q hq ↦ ?_
      cases hp : tcp.get j with
      | none => exact absurd (hq.symm.trans (hnone j hp)) (by simp)
      | some p =>
          rcases hsome j p hp with ⟨hj, -⟩ | ⟨hj, -⟩
          · obtain rfl : q = (retransEmit env p).1 := by simpa using hq.symm.trans hj
            exact ⟨p, rfl, .tick h hp⟩
          · exact absurd (hq.symm.trans hj) (by simp)

end

/-! ## Accepted connections -/

/-- A connection that a call of `accept` returned: whose backlog it came from, which
block it is, and who made it. -/
structure Returned where
  listener : TaskId
  conn : TaskId
  creator : Option TaskId
deriving DecidableEq, Repr

/-- What a step returns to a caller of `accept`. -/
def returned (tcp : Tcp) (ev : Event) (out : Outcome) : List Returned :=
  match ev, out.reply with
  | .accept d, .conn new _ => match tcp.get d, out.tcp.get new with
    | some p, some q => [{ listener := p.task, conn := q.task, creator := q.hist.creator }]
    | _, _ => []
  | _, _ => []

/-- The tables reached by the runs that meet `keepsOffStale`, with everything that
`accept` has returned on the way. -/
def AcceptRun : Tcp × List Returned → Prop :=
  Machine.Reach (· = ({}, [])) fun s (label : Env × Event) s' ↦
    keepsOffStale label.1 s.1 label.2 = true ∧ ∃ out, step label.1 s.1 label.2 = .ok out ∧
      s' = (out.tcp, s.2 ++ returned s.1 label.2 out)

/-- What has been returned is marked as accepted. -/
structure ReturnedInv (tcp : Tcp) (log : List Returned) : Prop where
  nodup : (log.map (·.conn)).Nodup
  fresh : ∀ r ∈ log, r.conn < tcp.nextTask
  accepted : ∀ d p, tcp.get d = some p → p.task ∈ log.map (·.conn) → p.hist.accepted = true
  creator : ∀ r ∈ log, r.creator = some r.listener

section

variable {env : Env} {tcp : Tcp} {ev : Event} {out : Outcome} {log : List Returned}

/-- A step that returns nothing. -/
theorem ReturnedInv.move (h : ReturnedInv tcp log) (hmove : Move env tcp ev out) :
    ReturnedInv out.tcp log := by
  rcases hmove.blocks with ⟨hnext, hold⟩ | ⟨c, q, tcp', -, hnext, hbirth, hget⟩
  · refine ⟨h.nodup, fun r hr ↦ Nat.lt_of_lt_of_le (h.fresh r hr) hnext, ?_, h.creator⟩
    intro d p' hp' hmem
    obtain ⟨p, hp, hevolve⟩ := hold d p' hp'
    rw [hevolve.same.1.task] at hmem
    exact hevolve.same.2 (h.accepted d p hp hmem)
  · refine ⟨h.nodup, fun r hr ↦ hnext ▸ Nat.lt_succ_of_lt (h.fresh r hr), ?_, h.creator⟩
    intro d p' hp' hmem
    rw [hget] at hp'
    split at hp'
    · cases hp'
      obtain ⟨r, hr, htask⟩ := List.mem_map.mp hmem
      rw [hbirth.newborn.task] at htask
      exact absurd htask (Nat.ne_of_lt (h.fresh r hr))
    · exact h.accepted d p' hp' hmem

/-- Only `accept` returns a connection. -/
theorem Move.conn {new : TcpDesc} {remote : IpEndp} (h : Move env tcp ev out)
    (hreply : out.reply = .conn new remote) :
    ∃ d p q rest m, ev = .accept d ∧ tcp.get d = some p ∧ p.state = .listen ∧
      p.backlog = new :: rest ∧ (tcp.set d { p with backlog := rest }).get new = some q ∧
      out.tcp = (tcp.set d { p with backlog := rest }).set new
        { q with mss := m, hist := { q.hist with accepted := true } } := by
  cases h with
  | idle hquiet _ =>
      obtain rfl := hreply
      exact absurd hquiet (by simp [Reply.quiet])
  | work hp hblock => cases hblock <;> exact absurd hreply (by simp)
  | birth _ hbirth => cases hbirth <;> exact absurd hreply (by simp)
  | drop es _ _ hquiet _ _ _ =>
      obtain rfl := hreply
      exact absurd hquiet (by simp [Reply.quiet])
  | stillborn _ _ _ | pass _ _ _ _ _ _ | join _ _ _ _ _ _ _ _ _ | tick _ _ _ =>
      exact absurd hreply (by simp)
  | pop _ _ _ hr =>
      rcases hr with ⟨rfl, -⟩ | ⟨rfl, -⟩ <;> exact absurd hreply (by simp)
  | @accept d new' p q rest m hp hstate hbacklog hq =>
      obtain ⟨rfl, rfl⟩ : new' = new ∧ q.remoteEndp = remote := by simpa using hreply
      exact ⟨d, p, q, rest, m, rfl, hp, hstate, hbacklog, hq, rfl⟩

/-- **One step**: what is returned was not returned before. -/
theorem ReturnedInv.step (h : ReturnedInv tcp log) (hqueue : QueueInv True tcp) (htask : TaskInv tcp)
    (hmove : Move env tcp ev out) : ReturnedInv out.tcp (log ++ returned tcp ev out) := by
  have hmoved := h.move hmove
  by_cases hnil : returned tcp ev out = []
  · rwa [hnil, List.append_nil]
  -- Otherwise `accept` has returned the first entry of the backlog.
  obtain ⟨new, remote, hreply⟩ : ∃ new remote, out.reply = .conn new remote := by
    unfold returned at hnil
    split at hnil
    · next new remote heq => exact ⟨new, remote, heq⟩
    · exact absurd rfl hnil
  obtain ⟨d, p, q, rest, m, rfl, hp, hstate, hbacklog, hq, hout⟩ := hmove.conn hreply
  have hmem : new ∈ p.backlog := hbacklog ▸ List.mem_cons_self
  have hne : new ≠ d := by
    rintro rfl
    have hparent := (hqueue.entry new p new p hp hmem hp).1
    exact (hqueue.child new p hp (by simp [hparent])).1 hstate
  have hq₀ : tcp.get new = some q := by rwa [get_set hp, if_neg hne] at hq
  have hnew : out.tcp.get new =
      some { q with mss := m, hist := { q.hist with accepted := true } } := by
    rw [hout, get_set hq, if_pos rfl]
  have hreturned : returned tcp (.accept d) out =
      [{ listener := p.task, conn := q.task, creator := q.hist.creator }] := by
    simp only [returned, hreply, hp, hnew]
  obtain ⟨-, hcreator, haccepted, -⟩ := hqueue.entry d p new q hp hmem hq₀
  have hfirst : q.task ∉ log.map (·.conn) := by
    intro hin
    exact absurd (h.accepted new q hq₀ hin) (by simp [haccepted])
  rw [hreturned]
  constructor
  · rw [List.map_append, List.map_singleton]
    refine List.nodup_append.mpr ⟨h.nodup, by simp, ?_⟩
    rintro t ht _ hin rfl
    have heq : t = q.task := List.mem_singleton.mp hin
    exact hfirst (heq ▸ ht)
  · intro r hr
    rcases List.mem_append.mp hr with hr | hr
    · exact hmoved.fresh r hr
    · rw [List.mem_singleton.mp hr]
      have hlt := (htask.move hmove).fresh new _ hnew
      exact hlt
  · intro j r hr hin
    rw [List.map_append, List.map_singleton] at hin
    rcases List.mem_append.mp hin with hin | hin
    · exact hmoved.accepted j r hr hin
    · obtain rfl : j = new :=
        (htask.move hmove).distinct j new r _ hr hnew (List.mem_singleton.mp hin)
      obtain rfl : r = _ := by simpa using hr.symm.trans hnew
      rfl
  · intro r hr
    rcases List.mem_append.mp hr with hr | hr
    · exact h.creator r hr
    · rw [List.mem_singleton.mp hr]
      exact hcreator trivial

end

theorem AcceptRun.inv {tcp : Tcp} {log : List Returned} (h : AcceptRun (tcp, log)) :
    QueueInv True tcp ∧ TaskInv tcp ∧ ReturnedInv tcp log := by
  refine Machine.Reach.invariant
    (fun s : Tcp × List Returned ↦ QueueInv True s.1 ∧ TaskInv s.1 ∧ ReturnedInv s.1 s.2) ?_ ?_ h
  · rintro _ rfl
    exact ⟨by constructor <;> simp [Tcp.get], by constructor <;> simp [Tcp.get],
      by constructor <;> simp⟩
  · rintro ⟨tcp, log⟩ ⟨env, ev⟩ _ ⟨hqueue, htask, hlog⟩ ⟨hguard, out, hout, rfl⟩
    have hmove := step_move hout
    exact ⟨hqueue.move (keepsOff_of_keepsOffStale hguard) hmove, htask.move hmove,
      hlog.step hqueue htask hmove⟩

/-- **The accept queue**: in a run that keeps off stale slots, every entry of the
backlog of a listener whose slot is allocated names a block that a SYN to this very
listener made and that has not been returned by `accept`, and it is there once.  No
two calls of `accept` have returned the same block, and each has returned one that
was made by the listener it was called on. -/
theorem accept_queue_sound {tcp : Tcp} {log : List Returned} (h : AcceptRun (tcp, log)) :
    (∀ l p, tcp.get l = some p → p.state = .listen → ∀ c ∈ p.backlog, ∀ q,
      tcp.get c = some q → q.parentDesc = some l ∧ q.hist.creator = some p.task ∧
        q.hist.accepted = false ∧ p.backlog.count c = 1) ∧
      (log.map (·.conn)).Nodup ∧ ∀ r ∈ log, r.creator = some r.listener := by
  obtain ⟨hqueue, -, hlog⟩ := h.inv
  refine ⟨?_, hlog.nodup, hlog.creator⟩
  intro l p hp _ c hc q hq
  obtain ⟨hparent, hcreator, haccepted, -⟩ := hqueue.entry l p c q hp hc hq
  exact ⟨hparent, hcreator trivial, haccepted, List.count_eq_one_of_mem (hqueue.nodup l p hp) hc⟩

/-- One step of a fixed run. -/
def acceptStep (s : Tcp × List Returned) (label : Env × Event) : Checked (Tcp × List Returned) :=
  if keepsOffStale label.1 s.1 label.2 then
    (step label.1 s.1 label.2).map fun out ↦ (out.tcp, s.2 ++ returned s.1 label.2 out)
  else .error .unwrap

theorem exists_acceptRun (P : Tcp × List Returned → Bool) (labels : List (Env × Event))
    (h : Machine.execTest acceptStep P ({}, []) labels = true) : ∃ s, AcceptRun s ∧ P s = true := by
  refine Machine.exists_reach_of_execTest ?_ rfl h
  intro s label s' hstep
  unfold acceptStep at hstep
  split at hstep
  · next hguard =>
    obtain ⟨out, hout, rfl⟩ := Machine.exists_of_map_ok hstep
    exact ⟨hguard, out, hout, rfl⟩
  · exact absurd hstep (by simp)

/-- A listening socket and a peer that connects to it. -/
def oneChild : List (Env × Event) :=
  [(calmEnv, .socket), (calmEnv, .bind 0 hostEndp), (calmEnv, .listen 0 2),
    fromPeer 500 0 flgSyn [], fromPeer 501 101 flgAck []]

/-- One connection has been accepted, and another one waits. -/
theorem accept_queue_sound_two_children :
    ∃ tcp log p, AcceptRun (tcp, log) ∧ log.length = 1 ∧ tcp.get 0 = some p ∧
      p.state = .listen ∧ p.backlog = [2] ∧ (∀ q, tcp.get 2 = some q →
        q.parentDesc = some 0 ∧ q.hist.creator = some p.task ∧ q.hist.accepted = false ∧
          p.backlog.count 2 = 1) ∧ ∀ r ∈ log, r.creator = some r.listener := by
  obtain ⟨⟨tcp, log⟩, hrun, htest⟩ := exists_acceptRun
    (fun s ↦ s.2.length = 1 && (s.1.get 0).any fun p ↦ p.state = .listen && p.backlog = [2])
    (oneChild ++ [(routedEnv, .accept 0),
      (calmEnv, .arrive { src := ⟨⟨192, 0, 2, 3⟩, 9⟩, dst := hostEndp, seq := 700, ack := 0,
                          flg := flgSyn, wnd := 1000, data := [] }),
      (calmEnv, .arrive { src := ⟨⟨192, 0, 2, 3⟩, 9⟩, dst := hostEndp, seq := 701, ack := 101,
                          flg := flgAck, wnd := 1000, data := [] })]) (by decide +kernel)
  simp only [Bool.and_eq_true, decide_eq_true_eq] at htest
  obtain ⟨hlog, htest⟩ := htest
  obtain ⟨p, hp, htest⟩ := (Option.any_eq_true _ _).mp htest
  simp only [Bool.and_eq_true, decide_eq_true_eq] at htest
  obtain ⟨hstate, hbacklog⟩ := htest
  obtain ⟨hentry, -, hcreator⟩ := accept_queue_sound hrun
  exact ⟨tcp, log, p, hrun, hlog, hp, hstate, hbacklog,
    hentry 0 p hp hstate 2 (by simp [hbacklog]), hcreator⟩

/-- Without the condition it fails: the child is reset while it waits in the
backlog, and the next socket gets its slot. -/
theorem accept_queue_recycled :
    ¬ ∀ tcp, Reachable tcp → ∀ l p, tcp.get l = some p → p.state = .listen → ∀ c ∈ p.backlog,
      ∀ q, tcp.get c = some q → q.parentDesc = some l ∧ q.hist.creator = some p.task ∧
        q.hist.accepted = false ∧ p.backlog.count c = 1 := by
  intro hall
  obtain ⟨tcp, hreach, htest⟩ := exists_reachableWhen (fun _ _ _ ↦ true) (fun _ _ _ _ ↦ trivial)
    (fun tcp ↦ ((tcp.get 0).any fun p ↦ p.state = .listen && p.backlog = [1]) &&
      (tcp.get 1).any fun q ↦ q.parentDesc = none)
    (oneChild ++ [fromPeer 501 0 flgRst [], (calmEnv, .socket)]) (by decide +kernel)
  simp only [Bool.and_eq_true] at htest
  obtain ⟨p, hp, htest₀⟩ := (Option.any_eq_true _ _).mp htest.1
  obtain ⟨q, hq, hnone⟩ := (Option.any_eq_true _ _).mp htest.2
  simp only [Bool.and_eq_true, decide_eq_true_eq] at htest₀ hnone
  have hparent := (hall tcp hreach 0 p hp htest₀.1 1 (by simp [htest₀.2]) q hq).1
  exact absurd (hnone.symm.trans hparent) (by simp)

end Microps.Tcp
