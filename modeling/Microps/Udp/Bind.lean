import Microps.Udp.Step

/-!
# Bindings

A block gets its local endpoint from `bind` or, on the first `sendto`, from
`assign_dynamic_port`, and may be bound again at any time.  Either way `pcb_select` must find
no block for the endpoint, the block itself included.  So the bindings of a table never
overlap, and a destination with a port and an address matches one block at most.
-/

namespace Microps.Udp

/-- The tables reached by any run. -/
def Reachable : Udp → Prop :=
  Machine.Reach (· = {}) fun udp (label : Env × Event) udp' ↦
    ∃ out, step label.1 udp label.2 = .ok out ∧ out.udp = udp'

/-- The two endpoints have the same port, and equal or wildcard addresses. -/
def Overlap (l l' : IpEndp) : Prop :=
  l.port = l'.port ∧ (l.addr = l'.addr ∨ l.addr = .any ∨ l'.addr = .any)

/-- `pcb_select` finds the bindings that overlap with its key. -/
theorem selects_iff {p : UdpPcb} {key : IpEndp} :
    selects p key = true ↔ Overlap p.localEndp key := by
  simp [selects, Overlap]

theorem Overlap.symm {l l' : IpEndp} (h : Overlap l l') : Overlap l' l := by
  obtain ⟨hport, haddr⟩ := h
  refine ⟨hport.symm, ?_⟩
  rcases haddr with haddr | haddr | haddr
  · exact .inl haddr.symm
  · exact .inr (.inr haddr)
  · exact .inr (.inl haddr)

/-- A binding that overlaps with a specific endpoint overlaps with all others that do. -/
theorem Overlap.trans {l l' key : IpEndp} (h : Overlap l key) (h' : Overlap l' key)
    (hkey : key.addr ≠ .any) : Overlap l l' := by
  refine ⟨h.1.trans h'.1.symm, ?_⟩
  rcases h.2 with haddr | haddr | haddr
  · rcases h'.2 with haddr' | haddr' | haddr'
    · exact .inl (haddr.trans haddr'.symm)
    · exact .inr (.inr haddr')
    · exact absurd haddr' hkey
  · exact .inr (.inl haddr)
  · exact absurd haddr hkey

/-- No two bindings overlap. -/
def Disjoint (udp : Udp) : Prop :=
  ∀ d d' p p', udp.get d = some p → udp.get d' = some p' → d ≠ d' → p.localEndp.port ≠ 0 →
    ¬ Overlap p.localEndp p'.localEndp

section

variable {env : Env} {udp udp' : Udp} {ev : Event} {out : Outcome}

/-- Bindings that were there before are still disjoint. -/
theorem Disjoint.of_same (h : Disjoint udp)
    (hsame : ∀ d p', udp'.get d = some p' → ∃ p, udp.get d = some p ∧ p.localEndp = p'.localEndp) :
    Disjoint udp' := by
  intro d d' q q' hq hq' hne hport
  obtain ⟨p, hp, hlocal⟩ := hsame d q hq
  obtain ⟨p', hp', hlocal'⟩ := hsame d' q' hq'
  rw [← hlocal, ← hlocal']
  exact h d d' p p' hp hp' hne (by rwa [hlocal])

/-- One block gets a local endpoint with which no other binding overlaps. -/
theorem Disjoint.put (h : Disjoint udp) {c : UdpDesc} {q : UdpPcb}
    (hget : ∀ j, udp'.get j = if j = c then some q else udp.get j)
    (hfree : q.localEndp.port ≠ 0 → ∀ j p, udp.get j = some p →
      ¬ Overlap p.localEndp q.localEndp) : Disjoint udp' := by
  intro d d' p p' hp hp' hne hport
  rw [hget] at hp hp'
  split at hp
  · cases hp
    split at hp'
    · next hd hd' => exact absurd (hd.trans hd'.symm) hne
    · exact fun hover ↦ hfree hport d' p' hp' hover.symm
  · split at hp'
    · cases hp'
      intro hover
      exact hfree (by rwa [← hover.1]) d p hp hover
    · exact h d d' p p' hp hp' hne hport

theorem Disjoint.move (h : Disjoint udp) (hmove : Move env udp ev out) : Disjoint out.udp := by
  cases hmove with
  | idle _ _ _ => exact h
  | opened halloc =>
      refine h.put (pcbAlloc_spec halloc).2.2 fun hport ↦ absurd rfl hport
  | @closed d p hp =>
      refine h.of_same fun j p' hp' ↦ ?_
      rw [get_free] at hp'
      split at hp'
      · exact absurd hp' (by simp)
      · exact ⟨p', hp', rfl⟩
  | @assigned _ _ d p l hp hev hfree _ =>
      refine h.put (get_set hp _) fun _ j p' hp' hover ↦ ?_
      exact absurd ((pcbSelect_none hfree hp').symm.trans (selects_iff.mpr hover)) (by simp)
  | @queued _ g d p haccepts hselect hp =>
      refine h.of_same fun j p' hp' ↦ ?_
      rw [get_set hp] at hp'
      split at hp'
      · next hj =>
        subst hj
        cases hp'
        exact ⟨p, hp, rfl⟩
      · exact ⟨p', hp', rfl⟩
  | @popped d len p entry queue hp hqueue =>
      refine h.of_same fun j p' hp' ↦ ?_
      rw [get_set hp] at hp'
      split at hp'
      · next hj =>
        subst hj
        cases hp'
        exact ⟨p, hp, rfl⟩
      · exact ⟨p', hp', rfl⟩

end

theorem Reachable.disjoint {udp : Udp} (h : Reachable udp) : Disjoint udp := by
  refine Machine.Reach.invariant Disjoint ?_ ?_ h
  · rintro _ rfl d d' p p' hp
    exact absurd hp (by simp [Udp.get])
  · rintro udp ⟨env, ev⟩ _ ih ⟨out, hout, rfl⟩
    exact ih.move (step_move hout)

/-! ## Selection -/

/-- The block that `pcb_select` finds. -/
def selected (t : Slots UdpPcb) (key : IpEndp) : Option UdpPcb := (pcbSelect t key).bind t.peek

/-- Where one block at most matches, `pcb_select` finds the one that does. -/
theorem selected_eq_some_iff {t : Slots UdpPcb} {key : IpEndp}
    (hone : ∀ p p', some p ∈ t → some p' ∈ t → selects p key = true → selects p' key = true →
      p = p') (p : UdpPcb) :
    selected t key = some p ↔ some p ∈ t ∧ selects p key = true := by
  unfold selected
  cases hselect : pcbSelect t key with
  | none =>
      simp only [Option.bind_none, reduceCtorEq, false_iff, not_and, Bool.not_eq_true]
      intro hmem
      obtain ⟨i, hi⟩ := Slots.peek_of_mem hmem
      exact pcbSelect_none hselect hi
  | some d =>
      obtain ⟨q, hq, hsel, -⟩ := pcbSelect_some hselect
      rw [Option.bind_some, hq]
      constructor
      · rintro ⟨⟩
        exact ⟨Slots.mem_of_peek hq, hsel⟩
      · rintro ⟨hmem, hsel'⟩
        rw [hone q p (Slots.mem_of_peek hq) hmem hsel hsel']

/-- **UDP bindings never overlap**: in every table a run reaches, no two blocks with a port
have the same port and equal or wildcard addresses.  So a destination with a port and a
specific address matches one block at most, and the block `pcb_select` finds for it does not
depend on the order of the slots. -/
theorem bindings_never_overlap {udp : Udp} (h : Reachable udp) :
    (∀ d d' p p', udp.get d = some p → udp.get d' = some p' → d ≠ d' →
      p.localEndp.port ≠ 0 → p'.localEndp.port ≠ 0 →
      ¬ (p.localEndp.port = p'.localEndp.port ∧ (p.localEndp.addr = p'.localEndp.addr ∨
        p.localEndp.addr = .any ∨ p'.localEndp.addr = .any))) ∧
    ∀ key : IpEndp, key.port ≠ 0 → key.addr ≠ .any →
      (∀ d d' p p', udp.get d = some p → udp.get d' = some p' → selects p key = true →
        selects p' key = true → d = d') ∧
      ∀ t : Slots UdpPcb, t.Perm udp.pcbs → selected t key = selected udp.pcbs key := by
  have hdisjoint := h.disjoint
  refine ⟨fun d d' p p' hp hp' hne hport _ ↦ hdisjoint d d' p p' hp hp' hne hport, ?_⟩
  intro key hport haddr
  have hone : ∀ d d' p p', udp.get d = some p → udp.get d' = some p' → selects p key = true →
      selects p' key = true → d = d' := by
    intro d d' p p' hp hp' hsel hsel'
    by_contra hne
    have hover := selects_iff.mp hsel
    exact hdisjoint d d' p p' hp hp' hne (by rwa [hover.1])
      (hover.trans (selects_iff.mp hsel') haddr)
  refine ⟨hone, fun t hperm ↦ ?_⟩
  have huniq : ∀ p p', some p ∈ udp.pcbs → some p' ∈ udp.pcbs → selects p key = true →
      selects p' key = true → p = p' := by
    intro p p' hmem hmem' hsel hsel'
    obtain ⟨d, hp⟩ := Slots.peek_of_mem hmem
    obtain ⟨d', hp'⟩ := Slots.peek_of_mem hmem'
    obtain rfl := hone d d' p p' hp hp' hsel hsel'
    exact Option.some.inj (hp.symm.trans hp')
  apply Option.ext
  intro p
  rw [selected_eq_some_iff huniq, selected_eq_some_iff, hperm.mem_iff]
  intro q q' hmem hmem'
  exact huniq q q' (hperm.mem_iff.mp hmem) (hperm.mem_iff.mp hmem')

/-! ## Fixed runs -/

/-- A fixed run that ends well ends in a reachable table. -/
theorem exists_reachable (P : Udp → Bool) (labels : List (Env × Event))
    (h : Machine.execTest (fun udp (label : Env × Event) ↦
      (step label.1 udp label.2).map (·.udp)) P {} labels = true) :
    ∃ udp, Reachable udp ∧ P udp = true := by
  refine Machine.exists_reach_of_execTest ?_ rfl h
  rintro udp ⟨env, ev⟩ udp' hstep
  exact Machine.exists_of_map_ok hstep

/-- A host without routes. -/
def bareEnv : Env := { endian := .little, routes := [] }

/-- Two blocks, one with a port from `bind` and one with a port from `sendto`. -/
theorem bindings_never_overlap_two_blocks :
    ∃ udp p p', Reachable udp ∧ udp.get 0 = some p ∧ udp.get 1 = some p' ∧
      p.localEndp = ⟨.any, 7⟩ ∧ p'.localEndp = ⟨.any, 49152⟩ ∧
      ¬ (p.localEndp.port = p'.localEndp.port ∧ (p.localEndp.addr = p'.localEndp.addr ∨
        p.localEndp.addr = .any ∨ p'.localEndp.addr = .any)) := by
  obtain ⟨udp, hreach, htest⟩ := exists_reachable
    (fun udp ↦ ((udp.get 0).any fun p ↦ p.localEndp = ⟨.any, 7⟩) &&
      (udp.get 1).any fun p ↦ p.localEndp = ⟨.any, 49152⟩)
    [(bareEnv, .open), (bareEnv, .open), (bareEnv, .bind 0 ⟨.any, 7⟩),
      (bareEnv, .sendto 1 [] ⟨⟨192, 0, 2, 2⟩, 9⟩)] (by decide +kernel)
  simp only [Bool.and_eq_true] at htest
  obtain ⟨p, hp, htest₀⟩ := (Option.any_eq_true _ _).mp htest.1
  obtain ⟨p', hp', htest₁⟩ := (Option.any_eq_true _ _).mp htest.2
  simp only [decide_eq_true_eq] at htest₀ htest₁
  refine ⟨udp, p, p', hreach, hp, hp', htest₀, htest₁, ?_⟩
  exact (bindings_never_overlap hreach).1 0 1 p p' hp hp' (by decide) (by rw [htest₀]; decide)
    (by rw [htest₁]; decide)

end Microps.Udp
