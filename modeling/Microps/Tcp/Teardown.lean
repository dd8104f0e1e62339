import Microps.Tcp.Drain
import Microps.Tcp.Reach

/-!
# A release from start to end

`pcb_release` on an arbitrary table, from a block in any state: the recursion ends, it frees
what the backlogs lead to and nothing else, and it resets each of those connections once.
The backlogs may hold anything, slots that are empty, that occur twice or that lead back.
-/

namespace Microps.Tcp

/-! ## The recursion ends -/

/-- One round of the loop of `pcb_release`, where the recursive call may not come back. -/
def entryWithin (env : Env) (release : Slots TcpPcb → TcpDesc → Option Released)
    (acc : Slots TcpPcb × List Effect) (desc : TcpDesc) : Option (Slots TcpPcb × List Effect) :=
  match acc.1.peek desc with
  | none => some acc
  | some pcb =>
      let q : TcpPcb × List Effect :=
        if pcb.state ≠ .closed then
          let r := output env pcb flgRst []
          ({ r.1 with state := .closed }, [.emit r.2])
        else (pcb, [])
      (release (acc.1.put desc q.1) desc).map fun r ↦ (r.pcbs, acc.2 ++ q.2 ++ r.effects)

/-- `pcb_release` within a depth of recursion; `none` if it goes deeper. -/
def releaseWithin (env : Env) : Nat → Slots TcpPcb → TcpDesc → Option Released
  | 0, _, _ => none
  | depth + 1, pcbs, desc => match pcbs.peek desc with
    | none => some { pcbs := pcbs, ok := false }
    | some pcb =>
        (pcb.backlog.foldlM (entryWithin env (releaseWithin env depth))
          (pcbs.put desc { pcb with backlog := [] }, [])).map fun acc ↦ releaseSlot acc desc

section

variable {t : Slots TcpPcb} {d : TcpDesc} {p : TcpPcb}

/-- A loop whose recursive calls come back. -/
theorem foldlM_entryWithin (env : Env) {release : Slots TcpPcb → TcpDesc → Option Released}
    {cover : List TcpDesc}
    (hrelease : ∀ t d, Covers t cover → release t d = some (pcbRelease env t d))
    (ds : List TcpDesc) (acc : Slots TcpPcb × List Effect) (hcover : Covers acc.1 cover) :
    ds.foldlM (entryWithin env release) acc =
      some (ds.foldl (releaseEntry env (pcbRelease env)) acc) := by
  induction ds generalizing acc with
  | nil => rfl
  | cons d ds ih =>
      have hentry : entryWithin env release acc d =
          some (releaseEntry env (pcbRelease env) acc d) := by
        cases hp : acc.1.peek d with
        | none => simp only [entryWithin, releaseEntry, hp]
        | some p =>
            simp only [entryWithin, releaseEntry, hp]
            split
            · rw [output_rst]
              simp only
              rw [hrelease _ d (hcover.put (q := { p with state := .closed }) hp rfl)]
              rfl
            · simp only
              rw [hrelease _ d (hcover.put (q := p) hp rfl)]
              rfl
      rw [List.foldlM_cons, hentry, List.foldl_cons]
      exact ih _ (hcover.releaseEntry (fun t d ↦ (pcbRelease_spec env t d).1) d)

/-- **The recursion ends** at a depth of one more than the number of non-empty backlogs. -/
theorem releaseWithin_eq (env : Env) (n : Nat) {cover : List TcpDesc} (hcover : Covers t cover)
    (hlen : cover.length < n) (d : TcpDesc) :
    releaseWithin env n t d = some (pcbRelease env t d) := by
  induction n generalizing t cover d with
  | zero => exact absurd hlen (Nat.not_lt_zero _)
  | succ n ih =>
      rw [pcbRelease_eq, releaseWithin]
      cases hp : t.peek d with
      | none => rfl
      | some p =>
          simp only
          by_cases hempty : p.backlog = []
          · rw [hempty]
            rfl
          · have hlen' := List.length_erase_of_mem (hcover d p hp hempty)
            have hpos := List.length_pos_of_mem (hcover d p hp hempty)
            rw [foldlM_entryWithin env (fun t d hc ↦ ih hc (by omega) d) p.backlog _
              (hcover.erase hp)]
            rfl

/-! ## What is freed -/

/-- What the loop of `pcb_release` leaves behind for its last lines. -/
theorem exists_loop (env : Env) (hp : t.peek d = some p) :
    ∃ acc, pcbRelease env t d = releaseSlot acc d ∧
      Swept (· ∈ p.backlog) (t.put d { p with backlog := [] }) acc.1 acc.2 ∧
      ∀ j ∈ p.backlog, acc.1.peek j = none := by
  have hinit : Swept (· ∈ p.backlog) (t.put d { p with backlog := [] })
    (t.put d { p with backlog := [] }, ([] : List Effect)).1 [] := .refl _ _
  obtain ⟨hswept, hnone⟩ := foldl_releaseEntry_swept env
    (fun t' c q _ hq hs ↦ ⟨pcbRelease_swept env hq hs, (pcbRelease_spec env t' c).1.freed⟩)
    (covers_range _) (fun _ hd ↦ hd) hinit
  refine ⟨_, ?_, hswept, fun j hj ↦ hnone j (.inl hj)⟩
  rw [pcbRelease_eq]
  simp only [hp]

section

variable {acc : Slots TcpPcb × List Effect} (hp : t.peek d = some p)
  (hswept : Swept (· ∈ p.backlog) (t.put d { p with backlog := [] }) acc.1 acc.2)

include hp hswept

/-- The slots that the loop frees are those that are reached from the backlog, its own slot
perhaps among them. -/
theorem loop_none_iff (hbacklog : ∀ j ∈ p.backlog, acc.1.peek j = none) {j : TcpDesc} {q : TcpPcb}
    (hq : t.peek j = some q) : acc.1.peek j = none ↔ Relation.TransGen (Queues t) d j := by
  have hput := Slots.peek_put hp { p with backlog := [] }
  constructor
  · intro hn
    obtain ⟨q', hq'⟩ : ∃ q', (t.put d { p with backlog := [] }).peek j = some q' := by
      rw [hput]
      split
      · exact ⟨_, rfl⟩
      · exact ⟨q, hq⟩
    obtain ⟨i, hi, hlinked⟩ := hswept.linked j q' hq' hn
    refine .head' ⟨p, hp, hi⟩ (hlinked.mono ?_)
    rintro i k ⟨r, hr, hmem⟩
    rw [hput] at hr
    split at hr
    · cases hr
      exact absurd hmem (by simp)
    · exact ⟨r, hr, hmem⟩
  · intro htrans
    clear hq
    induction htrans with
    | single hqueues =>
        obtain ⟨r, hr, hmem⟩ := hqueues
        obtain rfl : p = r := Option.some.inj (hp.symm.trans hr)
        exact hbacklog _ hmem
    | @tail i k _ hqueues ih =>
        obtain ⟨r, hr, hmem⟩ := hqueues
        by_cases hid : i = d
        · subst hid
          obtain rfl : p = r := Option.some.inj (hp.symm.trans hr)
          exact hbacklog k hmem
        · exact hswept.drained i r (by rw [hput, if_neg hid, hr]) ih k hmem

end

/-- `pcb_release` reports success unless the backlogs lead back to where it began. -/
theorem pcbRelease_ok_iff (env : Env) (hp : t.peek d = some p) :
    (pcbRelease env t d).ok = true ↔ ¬ Relation.TransGen (Queues t) d d := by
  obtain ⟨acc, heq, hswept, hbacklog⟩ := exists_loop env hp
  rw [heq, ← loop_none_iff hp hswept hbacklog hp]
  unfold releaseSlot
  split
  · next hd => simp [hd]
  · next q hq => simp [hq]

/-- **`pcb_release` frees exactly what it should**, and it comes back.  A reset is sent once
for each other block that is reached and was not closed; the block itself is reset only where
the backlogs lead back to it. -/
theorem pcbRelease_exact (env : Env) (hp : t.peek d = some p) :
    (∀ n, t.length < n → releaseWithin env n t d = some (pcbRelease env t d)) ∧
      (∀ j, Linked t d j → (pcbRelease env t d).pcbs.peek j = none) ∧
      (∀ j, ¬ Linked t d j → (pcbRelease env t d).pcbs.peek j = t.peek j) ∧
      ∃ js : List TcpDesc, js.Nodup ∧
        (∀ j, j ≠ d → (j ∈ js ↔ Linked t d j ∧ ∃ q, t.peek j = some q ∧ q.state ≠ .closed)) ∧
        (d ∈ js ↔ Relation.TransGen (Queues t) d d ∧ p.state ≠ .closed) ∧
        (emitted (pcbRelease env t d).effects).map some = js.map fun j ↦ (t.peek j).map resetOf := by
  obtain ⟨acc, heq, hswept, hbacklog⟩ := exists_loop env hp
  have hput := Slots.peek_put hp { p with backlog := [] }
  have hiff := fun {j q} ↦ @loop_none_iff t d p acc hp hswept hbacklog j q
  have hlinked : ∀ {j}, j ≠ d → (Linked t d j ↔ Relation.TransGen (Queues t) d j) := by
    intro j hj
    refine ⟨fun h ↦ ?_, fun h ↦ h.to_reflTransGen⟩
    rcases Relation.reflTransGen_iff_eq_or_transGen.mp h with rfl | h
    · exact absurd rfl hj
    · exact h
  have hfreed := (pcbRelease_spec env t d).1.freed
  refine ⟨fun n hn ↦ releaseWithin_eq env n (covers_range t) (by simpa using hn) d, ?_, ?_, ?_⟩
  · intro j hj
    by_cases hjd : j = d
    · exact hjd ▸ hfreed
    rw [heq, releaseSlot_peek_ne acc hjd]
    cases hq : t.peek j with
    | none => exact hswept.none_of_none (by rw [hput, if_neg hjd, hq])
    | some q => exact (hiff hq).mpr ((hlinked hjd).mp hj)
  · intro j hj
    have hjd : j ≠ d := by
      rintro rfl
      exact hj .refl
    rw [heq, releaseSlot_peek_ne acc hjd]
    cases hq : t.peek j with
    | none => exact hswept.none_of_none (by rw [hput, if_neg hjd, hq])
    | some q =>
        rcases hswept.frame j with hf | hf
        · rw [hf, hput, if_neg hjd, hq]
        · exact absurd ((hlinked hjd).mpr ((hiff hq).mp hf)) hj
  · obtain ⟨js, hnodup, hmem, hsent⟩ := hswept.once
    refine ⟨js, hnodup, fun j hjd ↦ ?_, ?_, ?_⟩
    · rw [hmem, hput, if_neg hjd, hlinked hjd]
      constructor
      · rintro ⟨q, hq, hn, hstate⟩
        exact ⟨(hiff hq).mp hn, q, hq, hstate⟩
      · rintro ⟨htrans, q, hq, hstate⟩
        exact ⟨q, hq, (hiff hq).mpr htrans, hstate⟩
    · rw [hmem, hput, if_pos rfl, ← hiff hp]
      constructor
      · rintro ⟨q, ⟨⟩, hn, hstate⟩
        exact ⟨hn, hstate⟩
      · rintro ⟨hn, hstate⟩
        exact ⟨_, rfl, hn, hstate⟩
    · rw [heq, emitted_releaseSlot, hsent]
      refine List.map_congr_left fun j _ ↦ ?_
      rw [hput]
      split
      · next hjd =>
        rw [hjd, hp]
        rfl
      · rfl

end

/-- A listener whose backlog names a connection twice, and an empty slot; the backlog of the
connection leads back. -/
def tangle : Slots TcpPcb :=
  [some { state := .listen, backlog := [1, 5, 1], task := 0 },
    some { state := .established, localEndp := hostEndp, remoteEndp := peerEndp, backlog := [0],
           task := 1 }]

/-- Both blocks go. -/
theorem pcbRelease_exact_tangle :
    (∀ n, 2 < n → releaseWithin calmEnv n tangle 0 = some (pcbRelease calmEnv tangle 0)) ∧
      (pcbRelease calmEnv tangle 0).pcbs.peek 1 = none := by
  have hp : tangle.peek 0 = some { state := .listen, backlog := [1, 5, 1], task := 0 } := rfl
  obtain ⟨hends, hfreed, -⟩ := pcbRelease_exact calmEnv hp
  exact ⟨hends, hfreed 1 (.single ⟨_, hp, by simp⟩)⟩

end Microps.Tcp
