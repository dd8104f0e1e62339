import Mathlib.Data.List.Nodup
import Mathlib.Logic.Relation
import Microps.Tcp.Inversion
import Microps.Tcp.Output

/-!
# What a release reaches

`Drain` bounds what `pcb_release` can do from one call to the next.  Here is what a
whole call comes to: the backlogs link the slots of a table into a graph, possibly with
cycles, and a release frees exactly the slots that are reached from its own, and sends one
of their resets for each block among them that was not closed.
-/

namespace Microps.Tcp

/-- The backlog of the block in slot `i` holds slot `j`. -/
def Queues (t : Slots TcpPcb) (i j : TcpDesc) : Prop := ∃ p, t.peek i = some p ∧ j ∈ p.backlog

/-- Slot `j` is reached from slot `d` through backlogs. -/
def Linked (t : Slots TcpPcb) (d j : TcpDesc) : Prop := Relation.ReflTransGen (Queues t) d j

theorem Linked.mono {t t' : Slots TcpPcb} (h : ∀ i j, Queues t i j → Queues t' i j) {d j : TcpDesc}
    (hlinked : Linked t d j) : Linked t' d j :=
  Relation.ReflTransGen.mono h d j hlinked

/-- From a block with an empty backlog nothing else is reached. -/
theorem Linked.eq_of_empty {t : Slots TcpPcb} {d j : TcpDesc}
    (hempty : ∀ p, t.peek d = some p → p.backlog = []) (h : Linked t d j) : j = d := by
  rcases Relation.ReflTransGen.cases_head h with heq | ⟨i, ⟨p, hp, hmem⟩, -⟩
  · exact heq.symm
  · rw [hempty p hp] at hmem
    exact absurd hmem (by simp)

/-- The reset with which `pcb_release` ends a connection. -/
def resetOf (p : TcpPcb) : TcpSegment :=
  outputSegment p.snd.nxt p.rcv.nxt flgRst p.rcv.wnd [] p.localEndp p.remoteEndp

/-- The reset of a block that was not closed. -/
def resetEffect (p : TcpPcb) : List Effect :=
  if p.state ≠ .closed then [.emit (resetOf p)] else []

theorem emit_mem_resetEffect {p : TcpPcb} {seg : TcpSegment} :
    .emit seg ∈ resetEffect p ↔ p.state ≠ .closed ∧ seg = resetOf p := by
  unfold resetEffect
  split
  · next h => simp [h]
  · next h => simp [h]

/-- A drain that goes on until nothing links a freed slot to an occupied one. -/
structure Torn (roots : TcpDesc → Prop) (t t' : Slots TcpPcb) (es : List Effect) : Prop
    extends Drain roots t t' es where
  /-- A freed slot is reached from a root. -/
  linked : ∀ j p, t.peek j = some p → t'.peek j = none → ∃ i, roots i ∧ Linked t i j
  /-- With a block go the blocks in its backlog. -/
  drained : ∀ i p, t.peek i = some p → t'.peek i = none → ∀ j ∈ p.backlog, t'.peek j = none
  /-- A block that was not closed is reset. -/
  reset : ∀ j p, t.peek j = some p → t'.peek j = none → p.state ≠ .closed → .emit (resetOf p) ∈ es
  /-- Nothing else is sent. -/
  sent : ∀ seg, .emit seg ∈ es →
    ∃ j p, t.peek j = some p ∧ t'.peek j = none ∧ p.state ≠ .closed ∧ seg = resetOf p

namespace Torn

variable {roots : TcpDesc → Prop} {t t' t'' : Slots TcpPcb} {es es' : List Effect}

theorem refl (roots : TcpDesc → Prop) (t : Slots TcpPcb) : Torn roots t t [] where
  toDrain := Drain.refl roots t
  linked j p hp hn := absurd (hp.symm.trans hn) (by simp)
  drained j p hp hn := absurd (hp.symm.trans hn) (by simp)
  reset j p hp hn := absurd (hp.symm.trans hn) (by simp)
  sent seg h := absurd h (by simp)

/-- What remains has no more links than there were. -/
theorem queues_of_queues (h : Torn roots t t' es) {i j : TcpDesc} (hqueues : Queues t' i j) :
    Queues t i j := by
  obtain ⟨p, hp, hmem⟩ := hqueues
  exact ⟨p, h.some_of_some hp, hmem⟩

/-- With a slot go all the slots reached from it. -/
theorem none_of_linked (h : Torn roots t t' es) {d j : TcpDesc} (hd : t'.peek d = none)
    (hlinked : Linked t d j) : t'.peek j = none := by
  induction hlinked with
  | refl => exact hd
  | tail _ hqueues ih =>
      obtain ⟨p, hp, hmem⟩ := hqueues
      exact h.drained _ p hp ih _ hmem

/-- Reset and release one of the roots after the rest. -/
theorem then_entry (h : Torn roots t t' es) {d : TcpDesc} {p : TcpPcb} (hp : t'.peek d = some p)
    (hroot : roots d) (h' : Torn (· = d) (t'.put d { p with state := .closed }) t'' es')
    (hfreed : t''.peek d = none) : Torn roots t t'' (es ++ resetEffect p ++ es') := by
  have hput := Slots.peek_put hp { p with state := .closed }
  have hqueues : ∀ i j, Queues (t'.put d { p with state := .closed }) i j → Queues t i j := by
    rintro i j ⟨q, hq, hmem⟩
    rw [hput] at hq
    split at hq
    · next hi =>
      subst hi
      cases hq
      exact h.queues_of_queues ⟨p, hp, hmem⟩
    · exact h.queues_of_queues ⟨q, hq, hmem⟩
  have hnone : ∀ j, t'.peek j = none → t''.peek j = none := by
    intro j hj
    have hjd : j ≠ d := by
      rintro rfl
      exact absurd (hp.symm.trans hj) (by simp)
    exact h'.none_of_none (by simp [hput, hjd, hj])
  -- A block is freed by the earlier releases, or it is the root, or it is freed with it.
  have hcases : ∀ j q, t.peek j = some q → t''.peek j = none → t'.peek j = none ∨
      (j = d ∧ q = p) ∨ (j ≠ d ∧ (t'.put d { p with state := .closed }).peek j = some q) := by
    intro j q hq _
    rcases h.frame j with hf | hf
    · rw [hq] at hf
      by_cases hj : j = d
      · subst hj
        exact .inr (.inl ⟨rfl, by simpa using hf.symm.trans hp⟩)
      · exact .inr (.inr ⟨hj, by rw [hput, if_neg hj, hf]⟩)
    · exact .inl hf
  refine ⟨?_, ?_, ?_, ?_, ?_⟩
  · refine h.toDrain.then_release (q := { p with state := .closed }) hp hroot rfl rfl ?_
      h'.toDrain hfreed
    intro seg hseg
    rw [(emit_mem_resetEffect.mp hseg).2]
    exact outputSegment_rst _ _ _ _ _ _
  · intro j q hq hn
    rcases hcases j q hq hn with hj | ⟨rfl, -⟩ | ⟨-, hj⟩
    · exact h.linked j q hq hj
    · exact ⟨j, hroot, .refl⟩
    · obtain ⟨_, rfl, hlinked⟩ := h'.linked j q hj hn
      exact ⟨_, hroot, hlinked.mono hqueues⟩
  · intro i q hq hn j hmem
    rcases hcases i q hq hn with hi | ⟨rfl, rfl⟩ | ⟨-, hi⟩
    · exact hnone j (h.drained i q hq hi j hmem)
    · exact h'.drained i { q with state := .closed } (by rw [hput, if_pos rfl]) hn j hmem
    · exact h'.drained i q hi hn j hmem
  · intro j q hq hn hstate
    rcases hcases j q hq hn with hj | ⟨rfl, rfl⟩ | ⟨-, hj⟩
    · simp [h.reset j q hq hj hstate]
    · simp [emit_mem_resetEffect.mpr ⟨hstate, rfl⟩]
    · simp [h'.reset j q hj hn hstate]
  · intro seg hseg
    simp only [List.mem_append] at hseg
    rcases hseg with (hseg | hseg) | hseg
    · obtain ⟨j, q, hq, hn, hstate, rfl⟩ := h.sent seg hseg
      exact ⟨j, q, hq, hnone j hn, hstate, rfl⟩
    · obtain ⟨hstate, rfl⟩ := emit_mem_resetEffect.mp hseg
      exact ⟨d, p, h.some_of_some hp, hfreed, hstate, rfl⟩
    · obtain ⟨j, q, hq, hn, hstate, rfl⟩ := h'.sent seg hseg
      rw [hput] at hq
      split at hq
      · cases hq
        exact absurd rfl hstate
      · exact ⟨j, q, h.some_of_some hq, hn, hstate, rfl⟩

/-- The end of `pcb_release`, once the whole backlog is gone. -/
theorem releaseSlot {d : TcpDesc} {p : TcpPcb} (hp : t.peek d = some p) (hstate : p.state = .closed)
    {acc : Slots TcpPcb × List Effect}
    (h : Torn (· ∈ p.backlog) (t.put d { p with backlog := [] }) acc.1 acc.2)
    (hbacklog : ∀ j ∈ p.backlog, acc.1.peek j = none) :
    Torn (· = d) t (Tcp.releaseSlot acc d).pcbs (Tcp.releaseSlot acc d).effects := by
  obtain ⟨hdrained, hnone⟩ := releaseSlot_spec hp h.toDrain
  have hput := Slots.peek_put hp { p with backlog := [] }
  have heffects : ∀ seg, .emit seg ∈ (Tcp.releaseSlot acc d).effects ↔ .emit seg ∈ acc.2 := by
    intro seg
    unfold Tcp.releaseSlot
    split
    · rfl
    · simp
  have hacc : ∀ j q, j ≠ d → (Tcp.releaseSlot acc d).pcbs.peek j = none → t.peek j = some q →
      (t.put d { p with backlog := [] }).peek j = some q ∧ acc.1.peek j = none := by
    intro j q hj hn hq
    refine ⟨by rw [hput, if_neg hj, hq], ?_⟩
    unfold Tcp.releaseSlot at hn
    split at hn
    · exact hn
    · rwa [Slots.peek_free_ne _ hj] at hn
  have hqueues : ∀ i j, Queues (t.put d { p with backlog := [] }) i j → Queues t i j := by
    rintro i j ⟨q, hq, hmem⟩
    rw [hput] at hq
    split at hq
    · cases hq
      exact absurd hmem (by simp)
    · exact ⟨q, hq, hmem⟩
  refine ⟨hdrained.drain, ?_, ?_, ?_, ?_⟩
  · intro j q hq hn
    by_cases hj : j = d
    · exact ⟨d, rfl, hj ▸ .refl⟩
    · obtain ⟨hq', hn'⟩ := hacc j q hj hn hq
      obtain ⟨i, hi, hlinked⟩ := h.linked j q hq' hn'
      exact ⟨d, rfl, .head ⟨p, hp, hi⟩ (hlinked.mono hqueues)⟩
  · intro i q hq hn j hmem
    by_cases hi : i = d
    · subst hi
      obtain rfl : p = q := by simpa using hp.symm.trans hq
      exact hnone j (hbacklog j hmem)
    · obtain ⟨hq', hn'⟩ := hacc i q hi hn hq
      exact hnone j (h.drained i q hq' hn' j hmem)
  · intro j q hq hn hne
    by_cases hj : j = d
    · subst hj
      obtain rfl : p = q := by simpa using hp.symm.trans hq
      exact absurd hstate hne
    · obtain ⟨hq', hn'⟩ := hacc j q hj hn hq
      exact (heffects _).mpr (h.reset j q hq' hn' hne)
  · intro seg hseg
    obtain ⟨j, q, hq, hn, hne, rfl⟩ := h.sent seg ((heffects seg).mp hseg)
    rw [hput] at hq
    split at hq
    · cases hq
      exact absurd hstate hne
    · exact ⟨j, q, hq, hnone j hn, hne, rfl⟩

end Torn

/-- The end of `pcb_release` frees no other slot. -/
theorem releaseSlot_peek_ne (acc : Slots TcpPcb × List Effect) {d j : TcpDesc} (hj : j ≠ d) :
    (releaseSlot acc d).pcbs.peek j = acc.1.peek j := by
  unfold releaseSlot
  split
  · rfl
  · exact Slots.peek_free_ne _ hj

/-- It sends nothing. -/
theorem emitted_releaseSlot (acc : Slots TcpPcb × List Effect) (d : TcpDesc) :
    emitted (releaseSlot acc d).effects = emitted acc.2 := by
  unfold releaseSlot
  split
  · rfl
  · simp [emitted]

/-- One reset is sent for each block that is freed and was not closed, in some order. -/
def ResetsOnce (t t' : Slots TcpPcb) (es : List Effect) : Prop :=
  ∃ js : List TcpDesc, js.Nodup ∧
    (∀ j, j ∈ js ↔ ∃ p, t.peek j = some p ∧ t'.peek j = none ∧ p.state ≠ .closed) ∧
    (emitted es).map some = js.map fun j ↦ (t.peek j).map resetOf

/-- A drain that goes to the end and sends each reset once. -/
structure Swept (roots : TcpDesc → Prop) (t t' : Slots TcpPcb) (es : List Effect) : Prop
    extends Torn roots t t' es where
  once : ResetsOnce t t' es

namespace Swept

variable {roots : TcpDesc → Prop} {t t' t'' : Slots TcpPcb} {es es' : List Effect}

theorem refl (roots : TcpDesc → Prop) (t : Slots TcpPcb) : Swept roots t t [] where
  toTorn := Torn.refl roots t
  once := by
    refine ⟨[], List.nodup_nil, fun j ↦ ?_, rfl⟩
    simp only [List.not_mem_nil, false_iff]
    rintro ⟨p, hp, hn, -⟩
    exact absurd (hp.symm.trans hn) (by simp)

/-- Reset and release one of the roots after the rest. -/
theorem then_entry (h : Swept roots t t' es) {d : TcpDesc} {p : TcpPcb} (hp : t'.peek d = some p)
    (hroot : roots d) (h' : Swept (· = d) (t'.put d { p with state := .closed }) t'' es')
    (hfreed : t''.peek d = none) : Swept roots t t'' (es ++ resetEffect p ++ es') := by
  refine ⟨h.toTorn.then_entry hp hroot h'.toTorn hfreed, ?_⟩
  have hput := Slots.peek_put hp { p with state := .closed }
  obtain ⟨js, hnodup, hmem, hsent⟩ := h.once
  obtain ⟨js', hnodup', hmem', hsent'⟩ := h'.once
  -- What was freed before the root is not there, and what is freed with it is not the root.
  have hnone : ∀ j ∈ js, t'.peek j = none := by
    intro j hj
    obtain ⟨q, -, hn, -⟩ := (hmem j).mp hj
    exact hn
  have hsome : ∀ j ∈ js', j ≠ d ∧ ∃ q, t'.peek j = some q ∧ t.peek j = some q := by
    intro j hj
    obtain ⟨q, hq, -, hstate⟩ := (hmem' j).mp hj
    rw [hput] at hq
    split at hq
    · cases hq
      exact absurd rfl hstate
    · next hjd => exact ⟨hjd, q, hq, h.some_of_some hq⟩
  have hself : ∀ j, j ∈ (if p.state ≠ .closed then [d] else []) ↔ j = d ∧ p.state ≠ .closed := by
    intro j
    split
    · next hs => simp [hs]
    · next hs => simp [hs]
  refine ⟨js ++ (if p.state ≠ .closed then [d] else []) ++ js', ?_, ?_, ?_⟩
  · rw [List.append_assoc]
    refine List.Nodup.append hnodup (List.Nodup.append ?_ hnodup' ?_) ?_
    · split
      · exact List.nodup_singleton d
      · exact List.nodup_nil
    · intro j hj hj'
      exact (hsome j hj').1 ((hself j).mp hj).1
    · intro j hj hj'
      rcases List.mem_append.mp hj' with hj' | hj'
      · obtain ⟨rfl, -⟩ := (hself j).mp hj'
        exact absurd (hp.symm.trans (hnone j hj)) (by simp)
      · obtain ⟨-, q, hq, -⟩ := hsome j hj'
        exact absurd (hq.symm.trans (hnone j hj)) (by simp)
  · intro j
    simp only [List.mem_append, hself, hmem, hmem']
    constructor
    · rintro ((⟨q, hq, hn, hstate⟩ | ⟨rfl, hstate⟩) | ⟨q, hq, hn, hstate⟩)
      · refine ⟨q, hq, ?_, hstate⟩
        have hjd : j ≠ d := by
          rintro rfl
          exact absurd (hp.symm.trans hn) (by simp)
        exact h'.none_of_none (by rw [hput, if_neg hjd, hn])
      · exact ⟨p, h.some_of_some hp, hfreed, hstate⟩
      · rw [hput] at hq
        split at hq
        · cases hq
          exact absurd rfl hstate
        · exact ⟨q, h.some_of_some hq, hn, hstate⟩
    · rintro ⟨q, hq, hn, hstate⟩
      rcases h.frame j with hf | hf
      · rw [hq] at hf
        by_cases hjd : j = d
        · subst hjd
          obtain rfl : p = q := Option.some.inj (hp.symm.trans hf)
          exact .inl (.inr ⟨rfl, hstate⟩)
        · exact .inr ⟨q, by rw [hput, if_neg hjd, hf], hn, hstate⟩
      · exact .inl (.inl ⟨q, hq, hf, hstate⟩)
  · have hmiddle : (emitted (resetEffect p)).map some =
        (if p.state ≠ .closed then [d] else []).map fun j ↦ (t.peek j).map resetOf := by
      unfold resetEffect
      split
      · simp [emitted, h.some_of_some hp]
      · rfl
    have hlast : js'.map (fun j ↦ ((t'.put d { p with state := .closed }).peek j).map resetOf) =
        js'.map fun j ↦ (t.peek j).map resetOf := by
      refine List.map_congr_left fun j hj ↦ ?_
      obtain ⟨hjd, q, hq, hq'⟩ := hsome j hj
      rw [hput, if_neg hjd, hq, hq']
    simp only [emitted_append, List.map_append, hsent, hsent', hmiddle, hlast]

/-- The end of `pcb_release`, once the whole backlog is gone. -/
theorem releaseSlot {d : TcpDesc} {p : TcpPcb} (hp : t.peek d = some p) (hstate : p.state = .closed)
    {acc : Slots TcpPcb × List Effect}
    (h : Swept (· ∈ p.backlog) (t.put d { p with backlog := [] }) acc.1 acc.2)
    (hbacklog : ∀ j ∈ p.backlog, acc.1.peek j = none) :
    Swept (· = d) t (Tcp.releaseSlot acc d).pcbs (Tcp.releaseSlot acc d).effects := by
  refine ⟨Torn.releaseSlot hp hstate h.toTorn hbacklog, ?_⟩
  have hput := Slots.peek_put hp { p with backlog := [] }
  obtain ⟨js, hnodup, hmem, hsent⟩ := h.once
  have hother : ∀ j ∈ js, j ≠ d := by
    rintro j hj rfl
    obtain ⟨q, hq, -, hne⟩ := (hmem j).mp hj
    rw [hput, if_pos rfl] at hq
    cases hq
    exact hne hstate
  refine ⟨js, hnodup, fun j ↦ ?_, ?_⟩
  · rw [hmem]
    by_cases hjd : j = d
    · subst hjd
      rw [hput, if_pos rfl]
      constructor
      · rintro ⟨q, ⟨⟩, -, hne⟩
        exact absurd hstate hne
      · rintro ⟨q, hq, -, hne⟩
        obtain rfl : p = q := Option.some.inj (hp.symm.trans hq)
        exact absurd hstate hne
    · rw [hput, if_neg hjd, releaseSlot_peek_ne acc hjd]
  · rw [emitted_releaseSlot, hsent]
    refine List.map_congr_left fun j hj ↦ ?_
    rw [hput, if_neg (hother j hj)]

end Swept

/-! ## The recursion -/

/-- One round of the loop of `pcb_release`, as a reset and a release of a closed block. -/
theorem releaseEntry_some (env : Env) (release : Slots TcpPcb → TcpDesc → Released)
    {acc : Slots TcpPcb × List Effect} {d : TcpDesc} {p : TcpPcb} (hp : acc.1.peek d = some p) :
    releaseEntry env release acc d =
      ((release (acc.1.put d { p with state := .closed }) d).pcbs,
        acc.2 ++ resetEffect p ++ (release (acc.1.put d { p with state := .closed }) d).effects) := by
  unfold releaseEntry resetEffect
  rw [hp]
  simp only [output_rst]
  split
  · rfl
  · next hstate =>
    have hself : { p with state := .closed } = p := by
      rw [← not_not.mp hstate]
    rw [hself]

/-- The loop of `pcb_release`, with recursive calls that are not cut off. -/
theorem foldl_releaseEntry_swept (env : Env) {release : Slots TcpPcb → TcpDesc → Released}
    {cover : List TcpDesc}
    (ih : ∀ t d p, Covers t cover → t.peek d = some p → p.state = .closed →
      Swept (· = d) t (release t d).pcbs (release t d).effects ∧ (release t d).pcbs.peek d = none)
    {roots : TcpDesc → Prop} {t : Slots TcpPcb} (hcover : Covers t cover) {ds : List TcpDesc}
    (hds : ∀ d ∈ ds, roots d) {acc : Slots TcpPcb × List Effect} (h : Swept roots t acc.1 acc.2) :
    Swept roots t (ds.foldl (releaseEntry env release) acc).1
        (ds.foldl (releaseEntry env release) acc).2 ∧
      ∀ j, j ∈ ds ∨ acc.1.peek j = none →
        (ds.foldl (releaseEntry env release) acc).1.peek j = none := by
  induction ds generalizing acc with
  | nil => exact ⟨h, fun j hj ↦ hj.resolve_left (by simp)⟩
  | cons d ds ihds =>
      rw [List.foldl_cons]
      have hds' : ∀ j ∈ ds, roots j := fun j hj ↦ hds j (by simp [hj])
      cases hp : acc.1.peek d with
      | none =>
          have hentry : releaseEntry env release acc d = acc := by simp only [releaseEntry, hp]
          rw [hentry]
          obtain ⟨hswept, hnone⟩ := ihds hds' h
          refine ⟨hswept, fun j hj ↦ hnone j ?_⟩
          rcases hj with hj | hj
          · rcases List.mem_cons.mp hj with rfl | hj
            · exact .inr hp
            · exact .inl hj
          · exact .inr hj
      | some p =>
          have hput := Slots.peek_put hp { p with state := .closed }
          obtain ⟨hswept, hfreed⟩ := ih (acc.1.put d { p with state := .closed }) d _
            ((hcover.drain h.toDrain).put hp rfl) (by rw [hput, if_pos rfl]) rfl
          have hentry : Swept roots t (releaseEntry env release acc d).1
              (releaseEntry env release acc d).2 := by
            rw [releaseEntry_some env release hp]
            exact h.then_entry hp (hds d (by simp)) hswept hfreed
          have hpcbs : (releaseEntry env release acc d).1 =
              (release (acc.1.put d { p with state := .closed }) d).pcbs := by
            rw [releaseEntry_some env release hp]
          obtain ⟨hswept', hnone⟩ := ihds hds' hentry
          rw [hpcbs] at hnone
          refine ⟨hswept', fun j hj ↦ hnone j ?_⟩
          rcases hj with hj | hj
          · rcases List.mem_cons.mp hj with rfl | hj
            · exact .inr hfreed
            · exact .inl hj
          · right
            by_cases hjd : j = d
            · exact hjd ▸ hfreed
            · exact hswept.none_of_none (by rw [hput, if_neg hjd, hj])

theorem pcbReleaseN_swept (env : Env) (n : Nat) {t : Slots TcpPcb} {cover : List TcpDesc}
    (hcover : Covers t cover) (hlen : cover.length ≤ n) {d : TcpDesc} {p : TcpPcb}
    (hp : t.peek d = some p) (hstate : p.state = .closed) :
    Swept (· = d) t (pcbReleaseN env n t d).pcbs (pcbReleaseN env n t d).effects := by
  induction n generalizing t cover d p with
  | zero =>
      have hempty : p.backlog = [] := by
        by_contra hne
        have hmem := hcover d p hp hne
        rw [List.length_eq_zero_iff.mp (Nat.le_zero.mp hlen)] at hmem
        exact absurd hmem (by simp)
      rw [pcbReleaseN_empty env hp hempty]
      exact Swept.releaseSlot hp hstate (.refl _ _) (by simp [hempty])
  | succ n ih =>
      by_cases hempty : p.backlog = []
      · rw [pcbReleaseN_empty env hp hempty]
        exact Swept.releaseSlot hp hstate (.refl _ _) (by simp [hempty])
      · have hlen' := List.length_erase_of_mem (hcover d p hp hempty)
        rw [pcbReleaseN_succ env hp]
        have hinit : Swept (· ∈ p.backlog) (t.put d { p with backlog := [] })
          (t.put d { p with backlog := [] }, ([] : List Effect)).1 [] := .refl _ _
        obtain ⟨hswept, hnone⟩ := foldl_releaseEntry_swept env
          (fun t' c q hc hq hs ↦ ⟨ih hc (by omega) hq hs, (pcbReleaseN_spec env n t' c).freed⟩)
          (hcover.erase hp) (fun _ hd ↦ hd) hinit
        exact Swept.releaseSlot hp hstate hswept fun j hj ↦ hnone j (.inl hj)

/-- **What `pcb_release` does to a closed block**: it frees the slots that are reached from
it, and sends the resets of the blocks among them that are not closed. -/
theorem pcbRelease_swept (env : Env) {t : Slots TcpPcb} {d : TcpDesc} {p : TcpPcb}
    (hp : t.peek d = some p) (hstate : p.state = .closed) :
    Swept (· = d) t (pcbRelease env t d).pcbs (pcbRelease env t d).effects :=
  pcbReleaseN_swept env _ (covers_range t) (by simp) hp hstate

theorem pcbRelease_torn (env : Env) {t : Slots TcpPcb} {d : TcpDesc} {p : TcpPcb}
    (hp : t.peek d = some p) (hstate : p.state = .closed) :
    Torn (· = d) t (pcbRelease env t d).pcbs (pcbRelease env t d).effects :=
  (pcbRelease_swept env hp hstate).toTorn

/-! ## Closing and releasing -/

section

variable {tcp : Tcp} {d : TcpDesc} {p q : TcpPcb}

/-- Closing a block first leaves the links alone. -/
theorem queues_put (hp : tcp.get d = some p) (hq : q.backlog = p.backlog) (i j : TcpDesc) :
    Queues (tcp.pcbs.put d q) i j ↔ Queues tcp.pcbs i j := by
  have hput := Slots.peek_put hp q
  constructor
  · rintro ⟨r, hr, hmem⟩
    rw [hput] at hr
    split at hr
    · next hi =>
      cases hr
      exact hi ▸ ⟨p, hp, hq ▸ hmem⟩
    · exact ⟨r, hr, hmem⟩
  · rintro ⟨r, hr, hmem⟩
    by_cases hi : i = d
    · subst hi
      obtain rfl : p = r := by simpa using hp.symm.trans hr
      exact ⟨q, by rw [hput, if_pos rfl], hq ▸ hmem⟩
    · exact ⟨r, by rw [hput, if_neg hi, hr], hmem⟩

theorem linked_put (hp : tcp.get d = some p) (hq : q.backlog = p.backlog) {j : TcpDesc} :
    Linked (tcp.pcbs.put d q) d j ↔ Linked tcp.pcbs d j :=
  ⟨.mono fun i j ↦ (queues_put hp hq i j).mp, .mono fun i j ↦ (queues_put hp hq i j).mpr⟩

theorem closeAndRelease_torn (env : Env) (hp : tcp.get d = some p) (q : TcpPcb) :
    Torn (· = d) (tcp.pcbs.put d { q with state := .closed }) (closeAndRelease env tcp d q).1.pcbs
        (closeAndRelease env tcp d q).2 ∧
      (closeAndRelease env tcp d q).1.get d = none :=
  ⟨pcbRelease_torn env (by rw [Slots.peek_put hp, if_pos rfl]) rfl,
    (pcbRelease_spec env (tcp.pcbs.put d { q with state := .closed }) d).1.freed⟩

/-- The slots that are reached from the released one are freed. -/
theorem get_closeAndRelease_of_linked (env : Env) (hp : tcp.get d = some p)
    (hq : q.backlog = p.backlog) {j : TcpDesc} (hlinked : Linked tcp.pcbs d j) :
    (closeAndRelease env tcp d q).1.get j = none := by
  obtain ⟨htorn, hfreed⟩ := closeAndRelease_torn env hp q
  exact htorn.none_of_linked hfreed
    ((linked_put (q := { q with state := .closed }) hp hq).mpr hlinked)

/-- The others are left alone. -/
theorem get_closeAndRelease_of_not_linked (env : Env) (hp : tcp.get d = some p)
    (hq : q.backlog = p.backlog) {j : TcpDesc} (hlinked : ¬ Linked tcp.pcbs d j) :
    (closeAndRelease env tcp d q).1.get j = tcp.get j := by
  obtain ⟨htorn, -⟩ := closeAndRelease_torn env hp q
  have hj : j ≠ d := by
    rintro rfl
    exact hlinked .refl
  have hput : (tcp.pcbs.put d { q with state := .closed }).peek j = tcp.get j :=
    Slots.peek_put_ne _ hj _
  rcases htorn.frame j with hf | hf
  · exact hf.trans hput
  · cases hr : tcp.get j with
    | none => exact hf
    | some r =>
        obtain ⟨_, rfl, hreached⟩ := htorn.linked j r (hput.trans hr) hf
        exact absurd ((linked_put (q := { q with state := .closed }) hp hq).mp hreached) hlinked

/-- What a release sends: the resets of the other blocks that are reached from the
released one and are not closed. -/
theorem emit_mem_closeAndRelease (env : Env) (hp : tcp.get d = some p)
    (hq : q.backlog = p.backlog) (seg : TcpSegment) :
    .emit seg ∈ (closeAndRelease env tcp d q).2 ↔ ∃ j r, j ≠ d ∧ Linked tcp.pcbs d j ∧
      tcp.get j = some r ∧ r.state ≠ .closed ∧ seg = resetOf r := by
  obtain ⟨htorn, hfreed⟩ := closeAndRelease_torn env hp q
  have hput := Slots.peek_put hp { q with state := .closed }
  constructor
  · intro hseg
    obtain ⟨j, r, hr, hn, hstate, rfl⟩ := htorn.sent seg hseg
    obtain ⟨_, rfl, hlinked⟩ := htorn.linked j r hr hn
    rw [hput] at hr
    split at hr
    · cases hr
      exact absurd rfl hstate
    · next hj =>
      exact ⟨j, r, hj, (linked_put (q := { q with state := .closed }) hp hq).mp hlinked, hr,
        hstate, rfl⟩
  · rintro ⟨j, r, hj, hlinked, hr, hstate, rfl⟩
    exact htorn.reset j r (by rw [hput, if_neg hj]; exact hr)
      (get_closeAndRelease_of_linked env hp hq hlinked) hstate

end

end Microps.Tcp
