import Microps.Tcp.Reach
import Microps.Tcp.Select
import Microps.Udp.Basic

/-!
# Demultiplexing

For whom a segment is.  The rule for the local address is the one `udp::pcb_select` follows:
a block takes what is sent to its own address or, if it is bound to the wildcard, to any.
`tcp::pcb_select` compares `local.addr != ANY` where its sibling has `==`, so that a block
bound to one address also takes what is sent to another one, and it looks no further than the
first match.  `demuxes_iff` says for which tables the outcome is right all the same.
-/

namespace Microps.Tcp

/-- The address rule of `udp::pcb_select`, for the local endpoint of a TCP block. -/
def Addressed (p : TcpPcb) (l : IpEndp) : Prop :=
  Udp.selects { localEndp := p.localEndp, task := p.task } l = true

/-- A block that may take a segment from `r` to `l`. -/
def Takes (p : TcpPcb) (l r : IpEndp) : Prop :=
  Addressed p l ∧ (p.remoteEndp = r ∨ p.remoteEndp = .any ∨ r = .any)

/-- The connection between `l` and `r`. -/
def Joins (p : TcpPcb) (l r : IpEndp) : Prop :=
  p.state ≠ .listen ∧ p.localEndp = l ∧ p.remoteEndp = r

/-- A segment from `r` to `l` gets to a block that may take it, and to the connection between
the two if there is one. -/
structure Demuxes (t : Slots TcpPcb) (l r : IpEndp) : Prop where
  takes : ∀ d, pcbSelect t l r = some d → ∃ p, t.peek d = some p ∧ Takes p l r
  joins : (∃ j q, t.peek j = some q ∧ Joins q l r) →
    ∃ d p, pcbSelect t l r = some d ∧ t.peek d = some p ∧ Joins p l r

/-- A block that passes the tests of `pcb_select`: it has the port, and its remote endpoint is the
right one, or one of the two is the wildcard.  The address counts only where the wildcard is looked
for. -/
def Passes (p : TcpPcb) (l r : IpEndp) : Prop :=
  p.localEndp.port = l.port ∧
    (l.addr = .any → p.localEndp.addr = .any) ∧
    (p.remoteEndp = r ∨ p.remoteEndp = .any ∨ r = .any)

/-- The block is bound to an address, and that is another one. -/
def Elsewhere (p : TcpPcb) (l : IpEndp) : Prop :=
  l.addr ≠ .any ∧ p.localEndp.addr ≠ .any ∧ p.localEndp.addr ≠ l.addr

/-- The slots of a table are in an order that suits `pcb_select`, as far as the blocks go that
pass its tests for `l` and `r`. -/
structure Ordered (t : Slots TcpPcb) (l r : IpEndp) : Prop where
  /-- Before a block that is bound elsewhere there is one that is not; neither of them listens. -/
  bound : ∀ i p, t.peek i = some p → Passes p l r → p.state ≠ .listen → Elsewhere p l →
    ∃ j q, j < i ∧ t.peek j = some q ∧ Passes q l r ∧ q.state ≠ .listen ∧ ¬ Elsewhere q l
  /-- After a listener that is bound elsewhere there is one that is not, or there is a block that
  does not listen. -/
  listening : ∀ i p, t.peek i = some p → Passes p l r → p.state = .listen → Elsewhere p l →
    ∃ j q, t.peek j = some q ∧ Passes q l r ∧ (q.state ≠ .listen ∨ i < j ∧ ¬ Elsewhere q l)
  /-- Before any other block comes the connection, unless that block listens or there is no
  connection. -/
  joined : ∀ i p, t.peek i = some p → Passes p l r → p.state ≠ .listen → ¬ Joins p l r →
    (∃ j q, t.peek j = some q ∧ Joins q l r) → ∃ j q, j < i ∧ t.peek j = some q ∧ Joins q l r

section

variable {t : Slots TcpPcb} {l r : IpEndp} {p : TcpPcb}

theorem Joins.passes (h : Joins p l r) : Passes p l r := by
  obtain ⟨-, rfl, rfl⟩ := h
  exact ⟨rfl, id, .inl rfl⟩

theorem endp_eq_iff {e e' : IpEndp} : e = e' ↔ e.addr = e'.addr ∧ e.port = e'.port := by
  obtain ⟨a, n⟩ := e
  obtain ⟨a', n'⟩ := e'
  rw [IpEndp.mk.injEq]

/-- The tests are those of the code. -/
theorem selects_iff_passes : Tcp.selects p l r = true ↔ Passes p l r := by
  have haddr : p.localEndp.addr = l.addr ∨ p.localEndp.addr = .any ∨ l.addr ≠ .any ↔
      (l.addr = .any → p.localEndp.addr = .any) := by
    by_cases hl : l.addr = .any
    · simp [hl]
    · simp [hl]
  simp only [Tcp.selects, decide_eq_true_eq, Passes, haddr, endp_eq_iff]
  rfl

theorem addressed_iff (hpasses : Passes p l r) : Addressed p l ↔ ¬ Elsewhere p l := by
  obtain ⟨hport, -, -⟩ := hpasses
  simp only [Addressed, Udp.selects, decide_eq_true_eq, hport, Elsewhere]
  tauto

/-- A block that passes the tests takes the segment, unless it is bound elsewhere. -/
theorem takes_iff (hpasses : Passes p l r) : Takes p l r ↔ ¬ Elsewhere p l := by
  rw [Takes, addressed_iff hpasses]
  exact and_iff_left hpasses.2.2

/-- Where a block passes the tests, one is selected. -/
theorem exists_chosen {j : TcpDesc} {q : TcpPcb} (hq : t.peek j = some q)
    (hpasses : Passes q l r) : ∃ d, pcbSelect t l r = some d := by
  cases hselect : pcbSelect t l r with
  | none =>
      have hsel := selects_iff_passes.mpr hpasses
      exact absurd hsel (by simp [pcbSelect_none hselect hq])
  | some d => exact ⟨d, rfl⟩

/-- What is selected passes them. -/
theorem passes_of_pcbSelect {d : TcpDesc} (hselect : pcbSelect t l r = some d) :
    ∃ p, t.peek d = some p ∧ Passes p l r := by
  obtain ⟨p, hp, hsel, -⟩ := pcbSelect_chosen hselect
  exact ⟨p, hp, selects_iff_passes.mp hsel⟩

/-- A block that passes the tests and does not listen is preceded by the one selected, or it is
that one. -/
theorem Chosen.le {d i : TcpDesc} {q : TcpPcb} (hchosen : Chosen l r t d)
    (hd : t.peek d = some p) (hq : t.peek i = some q) (hpasses : Passes q l r)
    (hstate : q.state ≠ .listen) : p.state ≠ .listen ∧ d ≤ i := by
  have hsel := selects_iff_passes.mpr hpasses
  obtain ⟨p', hp', -, hrank⟩ := hchosen
  obtain rfl : p = p' := Option.some.inj (hd.symm.trans hp')
  split at hrank
  · exact absurd (hrank i q hq hsel).1 hstate
  · next hs =>
    refine ⟨hs, ?_⟩
    by_contra hlt
    exact hstate (hrank i q (Nat.lt_of_not_le hlt) hq hsel)

/-- A listener that is selected is the last one that passes the tests, and only listeners pass
them. -/
theorem Chosen.last {d i : TcpDesc} {q : TcpPcb} (hchosen : Chosen l r t d)
    (hd : t.peek d = some p) (hs : p.state = .listen) (hq : t.peek i = some q)
    (hpasses : Passes q l r) : q.state = .listen ∧ i ≤ d := by
  have hsel := selects_iff_passes.mpr hpasses
  obtain ⟨p', hp', -, hrank⟩ := hchosen
  obtain rfl : p = p' := Option.some.inj (hd.symm.trans hp')
  rw [if_pos hs] at hrank
  exact hrank i q hq hsel

theorem Demuxes.ordered (h : Demuxes t l r) : Ordered t l r := by
  -- What is selected is not bound elsewhere, so it is not the block that is.
  have hother : ∀ i p, t.peek i = some p → Passes p l r → Elsewhere p l →
      ∃ d q, Chosen l r t d ∧ t.peek d = some q ∧ Passes q l r ∧ ¬ Elsewhere q l ∧ d ≠ i := by
    intro i p hp hpasses helse
    obtain ⟨d, hd⟩ := exists_chosen hp hpasses
    obtain ⟨q, hq, htakes⟩ := h.takes d hd
    obtain ⟨q', hq', hpassq⟩ := passes_of_pcbSelect hd
    obtain rfl : q = q' := Option.some.inj (hq.symm.trans hq')
    have hhere := (takes_iff hpassq).mp htakes
    refine ⟨d, q, pcbSelect_chosen hd, hq, hpassq, hhere, ?_⟩
    rintro rfl
    obtain rfl : p = q := Option.some.inj (hp.symm.trans hq)
    exact hhere helse
  refine ⟨?_, ?_, ?_⟩
  · intro i p hp hpasses hs helse
    obtain ⟨d, q, hchosen, hq, hpassq, hhere, hne⟩ := hother i p hp hpasses helse
    obtain ⟨hqs, hle⟩ := hchosen.le hq hp hpasses hs
    exact ⟨d, q, Nat.lt_of_le_of_ne hle hne, hq, hpassq, hqs, hhere⟩
  · intro i p hp hpasses hs helse
    obtain ⟨d, q, hchosen, hq, hpassq, hhere, hne⟩ := hother i p hp hpasses helse
    refine ⟨d, q, hq, hpassq, ?_⟩
    by_cases hqs : q.state = .listen
    · exact .inr ⟨Nat.lt_of_le_of_ne (hchosen.last hq hqs hp hpasses).2 hne.symm, hhere⟩
    · exact .inl hqs
  · intro i p hp hpasses hs hnot hexists
    obtain ⟨d, q, hd, hq, hjoins⟩ := h.joins hexists
    have hne : d ≠ i := by
      rintro rfl
      obtain rfl : p = q := Option.some.inj (hp.symm.trans hq)
      exact hnot hjoins
    exact ⟨d, q, Nat.lt_of_le_of_ne ((pcbSelect_chosen hd).le hq hp hpasses hs).2 hne, hq, hjoins⟩

theorem Ordered.demuxes (h : Ordered t l r) : Demuxes t l r := by
  refine ⟨?_, ?_⟩
  · intro d hd
    have hchosen := pcbSelect_chosen hd
    obtain ⟨p, hp, hpasses⟩ := passes_of_pcbSelect hd
    refine ⟨p, hp, (takes_iff hpasses).mpr fun helse ↦ ?_⟩
    by_cases hs : p.state = .listen
    · obtain ⟨j, q, hq, hpassq, hcase⟩ := h.listening d p hp hpasses hs helse
      obtain ⟨hqs, hle⟩ := hchosen.last hp hs hq hpassq
      rcases hcase with hother | ⟨hlt, -⟩
      · exact hother hqs
      · exact Nat.not_le_of_lt hlt hle
    · obtain ⟨j, q, hlt, hq, hpassq, hqs, -⟩ := h.bound d p hp hpasses hs helse
      exact Nat.not_le_of_lt hlt (hchosen.le hp hq hpassq hqs).2
  · rintro ⟨j, q, hq, hjoins⟩
    obtain ⟨d, hd⟩ := exists_chosen hq hjoins.passes
    have hchosen := pcbSelect_chosen hd
    obtain ⟨p, hp, hpasses⟩ := passes_of_pcbSelect hd
    have hs := (hchosen.le hp hq hjoins.passes hjoins.1).1
    refine ⟨d, p, hd, hp, ?_⟩
    by_contra hnot
    obtain ⟨i, q', hlt, hq', hjoins'⟩ := h.joined d p hp hpasses hs hnot ⟨j, q, hq, hjoins⟩
    exact Nat.not_le_of_lt hlt (hchosen.le hp hq' hjoins'.passes hjoins'.1).2

/-- **Demultiplexing** is right exactly for the tables whose slots are in order. -/
theorem demuxes_iff (t : Slots TcpPcb) (l r : IpEndp) : Demuxes t l r ↔ Ordered t l r :=
  ⟨Demuxes.ordered, Ordered.demuxes⟩

end

/-- A block bound to one address of the host takes what is sent to another one. -/
theorem demux_ignores_address : ¬ ∀ tcp, Reachable tcp → ∀ l r, Demuxes tcp.pcbs l r := by
  intro hall
  obtain ⟨tcp, hreach, htest⟩ := exists_reachableWhen (fun _ _ _ ↦ true) (fun _ _ _ _ ↦ trivial)
    (fun tcp ↦ pcbSelect tcp.pcbs ⟨⟨192, 0, 2, 9⟩, 7⟩ peerEndp = some 0 &&
      (tcp.get 0).any fun p ↦ p.localEndp = hostEndp)
    [(calmEnv, .socket), (calmEnv, .bind 0 hostEndp)] (by decide +kernel)
  simp only [Bool.and_eq_true, decide_eq_true_eq] at htest
  obtain ⟨p, hp, haddr, -⟩ := (hall tcp hreach ⟨⟨192, 0, 2, 9⟩, 7⟩ peerEndp).takes 0 htest.1
  obtain ⟨q, hq, hlocal⟩ := (Option.any_eq_true _ _).mp htest.2
  obtain rfl : p = q := Option.some.inj (hp.symm.trans hq)
  unfold Addressed at haddr
  rw [of_decide_eq_true hlocal] at haddr
  exact absurd haddr (by simp [Udp.selects, hostEndp, IpAddr.any])

end Microps.Tcp
