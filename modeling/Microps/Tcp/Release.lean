import Microps.Tcp.Table

/-!
# What a release frees

`pcb_release` is recursive: it resets and releases every block its backlog names
before it frees its own slot.  `Drain` says what such a call can do to a table,
relative to a set of roots: blocks disappear and nothing else changes, each one
that disappears is a root or stood in the backlog of another one that does, and
its task is notified.
-/

namespace Microps.Tcp

/-- A table `t'` is what remains of `t` when blocks are released from `roots`,
with the effects `es`. -/
structure Drain (roots : TcpDesc → Prop) (t t' : Slots TcpPcb) (es : List Effect) : Prop where
  /-- A slot is left alone or emptied. -/
  frame : ∀ j, t'.peek j = t.peek j ∨ t'.peek j = none
  /-- The task of a released block is notified. -/
  notified : ∀ j p, t.peek j = some p → t'.peek j = none → .notify p.task ∈ es
  /-- A released block is a root, or stood in the backlog of a released one. -/
  caused : ∀ j p, t.peek j = some p → t'.peek j = none →
    roots j ∨ ∃ i q, t.peek i = some q ∧ j ∈ q.backlog ∧ t'.peek i = none
  /-- Only resets are sent. -/
  resets : ∀ seg, .emit seg ∈ es → flagIsset seg.flg flgRst

namespace Drain

variable {roots : TcpDesc → Prop} {t t' : Slots TcpPcb} {es : List Effect}

theorem refl (roots : TcpDesc → Prop) (t : Slots TcpPcb) : Drain roots t t [] where
  frame j := .inl rfl
  notified j p hp hn := absurd (hp.symm.trans hn) (by simp)
  caused j p hp hn := absurd (hp.symm.trans hn) (by simp)
  resets seg h := absurd h (by simp)

/-- What was empty stays empty. -/
theorem none_of_none (h : Drain roots t t' es) {j : TcpDesc} (hj : t.peek j = none) :
    t'.peek j = none := by
  rcases h.frame j with hf | hf
  · exact hf.trans hj
  · exact hf

/-- What is still there was there before. -/
theorem some_of_some (h : Drain roots t t' es) {j : TcpDesc} {p : TcpPcb}
    (hj : t'.peek j = some p) : t.peek j = some p := by
  rcases h.frame j with hf | hf
  · exact hf.symm.trans hj
  · exact absurd (hj.symm.trans hf) (by simp)

/-- Release one of the roots after the rest: the block may be altered first, as
long as it keeps its task and its backlog. -/
theorem then_release (h : Drain roots t t' es) {d : TcpDesc} {p q : TcpPcb}
    {t'' : Slots TcpPcb} {es₁ es₂ : List Effect} (hp : t'.peek d = some p) (hroot : roots d)
    (htask : q.task = p.task) (hbacklog : q.backlog = p.backlog)
    (hreset : ∀ seg, .emit seg ∈ es₁ → flagIsset seg.flg flgRst)
    (h' : Drain (· = d) (t'.put d q) t'' es₂) (hfreed : t''.peek d = none) :
    Drain roots t t'' (es ++ es₁ ++ es₂) := by
  have hput : ∀ j, (t'.put d q).peek j = if j = d then some q else t'.peek j :=
    Slots.peek_put hp q
  -- A block of `t'` that the second release frees, as a block of the altered table.
  have hblock : ∀ j r, t'.peek j = some r →
      ∃ r', (t'.put d q).peek j = some r' ∧ r'.task = r.task ∧ r'.backlog = r.backlog := by
    intro j r hr
    by_cases hj : j = d
    · subst hj
      obtain rfl : p = r := by simpa using hp.symm.trans hr
      exact ⟨q, by simp [hput], htask, hbacklog⟩
    · exact ⟨r, by simp [hput, hj, hr], rfl, rfl⟩
  have hcases : ∀ j r, t.peek j = some r → t''.peek j = none →
      t'.peek j = none ∨ t'.peek j = some r := by
    intro j r hr _
    rcases h.frame j with hf | hf
    · exact .inr (hf.trans hr)
    · exact .inl hf
  have hnone : ∀ j, t'.peek j = none → t''.peek j = none := by
    intro j hj
    have hjd : j ≠ d := by
      rintro rfl
      exact absurd (hp.symm.trans hj) (by simp)
    exact h'.none_of_none (by simp [hput, hjd, hj])
  constructor
  · intro j
    by_cases hj : j = d
    · exact .inr (hj ▸ hfreed)
    · rcases h'.frame j with hf | hf
      · rw [hput, if_neg hj] at hf
        rw [hf]
        exact h.frame j
      · exact .inr hf
  · intro j r hr hn
    rcases hcases j r hr hn with hj | hj
    · simp [h.notified j r hr hj]
    · obtain ⟨r', hr', ht, -⟩ := hblock j r hj
      have := h'.notified j r' hr' hn
      simp [← ht, this]
  · intro j r hr hn
    rcases hcases j r hr hn with hj | hj
    · rcases h.caused j r hr hj with hj | ⟨i, r', hi, hmem, hi'⟩
      · exact .inl hj
      · exact .inr ⟨i, r', hi, hmem, hnone i hi'⟩
    · obtain ⟨r', hr', -, -⟩ := hblock j r hj
      rcases h'.caused j r' hr' hn with rfl | ⟨i, s, hi, hmem, hi'⟩
      · exact .inl hroot
      · right
        rw [hput] at hi
        split at hi
        · next hid =>
          subst hid
          obtain rfl : q = s := by simpa using hi
          exact ⟨i, p, h.some_of_some hp, hbacklog ▸ hmem, hi'⟩
        · exact ⟨i, s, h.some_of_some hi, hmem, hi'⟩
  · intro seg hseg
    simp only [List.mem_append] at hseg
    rcases hseg with (hseg | hseg) | hseg
    · exact h.resets seg hseg
    · exact hreset seg hseg
    · exact h'.resets seg hseg

end Drain

/-- A release from slot `d`, which it empties. -/
structure Drained (t : Slots TcpPcb) (d : TcpDesc) (r : Released) : Prop where
  drain : Drain (· = d) t r.pcbs r.effects
  freed : r.pcbs.peek d = none

/-- The block may be altered just before it is released. -/
theorem Drained.of_put {t : Slots TcpPcb} {d : TcpDesc} {p q : TcpPcb} {r : Released}
    (hp : t.peek d = some p) (htask : q.task = p.task) (hbacklog : q.backlog = p.backlog)
    (h : Drained (t.put d q) d r) : Drained t d r where
  drain := by
    have hnil : ∀ seg, .emit seg ∈ ([] : List Effect) → flagIsset seg.flg flgRst := by simp
    have := (Drain.refl (· = d) t).then_release hp rfl htask hbacklog hnil h.drain h.freed
    simpa using this
  freed := h.freed

/-- The end of `pcb_release`, after its backlog has been drained. -/
theorem releaseSlot_spec {t : Slots TcpPcb} {d : TcpDesc} {p : TcpPcb} (hp : t.peek d = some p)
    {acc : Slots TcpPcb × List Effect}
    (h : Drain (· ∈ p.backlog) (t.put d { p with backlog := [] }) acc.1 acc.2) :
    Drained t d (releaseSlot acc d) ∧
      ∀ j, acc.1.peek j = none → (releaseSlot acc d).pcbs.peek j = none := by
  have hput := Slots.peek_put hp { p with backlog := [] }
  -- Whichever way the slot was freed, this is what is known of the result.
  suffices hsuff : ∀ t' es', (∀ j, t'.peek j = if j = d then none else acc.1.peek j) →
      (∀ e, e ∈ acc.2 → e ∈ es') → .notify p.task ∈ es' →
      (∀ seg, .emit seg ∈ es' → flagIsset seg.flg flgRst) → Drain (· = d) t t' es' by
    unfold releaseSlot
    split
    · next hd =>
      have ht' : ∀ j, acc.1.peek j = if j = d then none else acc.1.peek j := by
        intro j
        split
        · next hj => rw [hj, hd]
        · rfl
      refine ⟨⟨hsuff _ _ ht' (fun e he ↦ he) ?_ h.resets, hd⟩, fun j hj ↦ hj⟩
      exact h.notified d { p with backlog := [] } (by rw [hput, if_pos rfl]) hd
    · next q hq =>
      have hpq := h.some_of_some hq
      rw [hput, if_pos rfl] at hpq
      have hfree := Slots.peek_free acc.1 d
      refine ⟨⟨hsuff _ _ hfree (by simp +contextual) ?_ ?_, by simp⟩, fun j hj ↦ ?_⟩
      · cases hpq
        simp
      · intro seg hseg
        exact h.resets seg (by simpa using hseg)
      · simp [hfree, hj]
  intro t' es' ht' hsub hnotify hresets
  have hcases : ∀ j r, t.peek j = some r → t'.peek j = none → j ≠ d →
      (t.put d { p with backlog := [] }).peek j = some r ∧ acc.1.peek j = none := by
    intro j r hr hn hj
    rw [ht', if_neg hj] at hn
    exact ⟨by rw [hput, if_neg hj, hr], hn⟩
  constructor
  · intro j
    rw [ht']
    split
    · exact .inr rfl
    · next hj =>
      have := h.frame j
      rwa [hput, if_neg hj] at this
  · intro j r hr hn
    by_cases hj : j = d
    · subst hj
      obtain rfl : p = r := by simpa using hp.symm.trans hr
      exact hnotify
    · obtain ⟨hr', hn'⟩ := hcases j r hr hn hj
      exact hsub _ (h.notified j r hr' hn')
  · intro j r hr hn
    by_cases hj : j = d
    · exact .inl hj
    · obtain ⟨hr', hn'⟩ := hcases j r hr hn hj
      right
      rcases h.caused j r hr' hn' with hmem | ⟨i, s, hi, hmem, hi'⟩
      · exact ⟨d, p, hp, hmem, by simp [ht']⟩
      · rw [hput] at hi
        split at hi
        · obtain rfl : { p with backlog := [] } = s := by simpa using hi
          exact absurd hmem (by simp)
        · next hid => exact ⟨i, s, hi, hmem, by simp [ht', hid, hi']⟩
  · exact hresets

/-! ## The recursion -/

/-- One round of the loop of `pcb_release`, with a recursive call that does what
it should. -/
theorem releaseEntry_spec (env : Env) {release : Slots TcpPcb → TcpDesc → Released}
    (ih : ∀ t d, Drained t d (release t d)) {roots : TcpDesc → Prop} {t : Slots TcpPcb}
    {acc : Slots TcpPcb × List Effect} (h : Drain roots t acc.1 acc.2) {d : TcpDesc}
    (hd : roots d) :
    Drain roots t (releaseEntry env release acc d).1 (releaseEntry env release acc d).2 ∧
      (releaseEntry env release acc d).1.peek d = none ∧
      ∀ j, acc.1.peek j = none → (releaseEntry env release acc d).1.peek j = none := by
  unfold releaseEntry
  split
  · next hp => exact ⟨h, hp, fun j hj ↦ hj⟩
  · next p hp =>
    have hnone : ∀ (q : TcpPcb) (j : TcpDesc), acc.1.peek j = none →
        (release (acc.1.put d q) d).pcbs.peek j = none := by
      intro q j hj
      have hjd : j ≠ d := by
        rintro rfl
        exact absurd (hp.symm.trans hj) (by simp)
      exact (ih _ d).drain.none_of_none (by rw [Slots.peek_put_ne _ hjd, hj])
    split
    · rw [output_rst]
      refine ⟨?_, (ih _ d).freed, fun j hj ↦ hnone _ j hj⟩
      refine h.then_release (q := { p with state := .closed }) hp hd rfl rfl ?_ (ih _ d).drain
        (ih _ d).freed
      intro seg hseg
      obtain rfl : seg = outputSegment p.snd.nxt p.rcv.nxt flgRst p.rcv.wnd []
        p.localEndp p.remoteEndp := by simpa using hseg
      exact outputSegment_rst _ _ _ _ _ _
    · refine ⟨?_, (ih _ d).freed, fun j hj ↦ hnone _ j hj⟩
      exact h.then_release hp hd rfl rfl (by simp) (ih _ d).drain (ih _ d).freed

/-- The loop of `pcb_release`. -/
theorem foldl_releaseEntry_spec (env : Env) {release : Slots TcpPcb → TcpDesc → Released}
    (ih : ∀ t d, Drained t d (release t d)) {roots : TcpDesc → Prop} {t : Slots TcpPcb}
    {ds : List TcpDesc} (hds : ∀ d ∈ ds, roots d) {acc : Slots TcpPcb × List Effect}
    (h : Drain roots t acc.1 acc.2) :
    Drain roots t (ds.foldl (releaseEntry env release) acc).1
        (ds.foldl (releaseEntry env release) acc).2 ∧
      ∀ j, j ∈ ds ∨ acc.1.peek j = none →
        (ds.foldl (releaseEntry env release) acc).1.peek j = none := by
  induction ds generalizing acc with
  | nil => exact ⟨h, fun j hj ↦ hj.resolve_left (by simp)⟩
  | cons d ds ihds =>
      obtain ⟨hdrain, hfreed, hnone⟩ := releaseEntry_spec env ih h (hds d (by simp))
      obtain ⟨hdrain', hnone'⟩ := ihds (fun j hj ↦ hds j (by simp [hj])) hdrain
      refine ⟨hdrain', fun j hj ↦ hnone' j ?_⟩
      rcases hj with hj | hj
      · rcases List.mem_cons.mp hj with rfl | hj
        · exact .inr hfreed
        · exact .inl hj
      · exact .inr (hnone j hj)

theorem pcbReleaseN_spec (env : Env) (depth : Nat) (t : Slots TcpPcb) (d : TcpDesc) :
    Drained t d (pcbReleaseN env depth t d) := by
  induction depth generalizing t d with
  | zero =>
      unfold pcbReleaseN
      split
      · next hp => exact ⟨.refl _ _, hp⟩
      · next p hp => exact (releaseSlot_spec hp (.refl _ _)).1
  | succ depth ih =>
      unfold pcbReleaseN
      split
      · next hp => exact ⟨.refl _ _, hp⟩
      · next p hp =>
        exact (releaseSlot_spec hp (foldl_releaseEntry_spec env ih (fun d hd ↦ hd) (.refl _ _)).1).1

/-- **What `pcb_release` does**: the slot is emptied, and so are the slots in its
backlog. -/
theorem pcbRelease_spec (env : Env) (t : Slots TcpPcb) (d : TcpDesc) :
    Drained t d (pcbRelease env t d) ∧
      ∀ p, t.peek d = some p → ∀ j ∈ p.backlog, (pcbRelease env t d).pcbs.peek j = none := by
  refine ⟨pcbReleaseN_spec env _ t d, fun p hp j hj ↦ ?_⟩
  have hinit : Drain (· ∈ p.backlog) (t.put d { p with backlog := [] })
    (t.put d { p with backlog := [] }, ([] : List Effect)).1 [] := .refl _ _
  obtain ⟨hdrain, hnone⟩ := foldl_releaseEntry_spec env (pcbReleaseN_spec env t.length)
    (fun d hd ↦ hd) hinit
  simp only [pcbRelease, pcbReleaseN, hp]
  exact (releaseSlot_spec hp hdrain).2 j (hnone j (.inl hj))

/-- `transition(pcb, desc, CLOSED)` followed by `pcb_release`. -/
theorem pcbRelease_closed_spec (env : Env) {t : Slots TcpPcb} {d : TcpDesc} {p : TcpPcb}
    (hp : t.peek d = some p) :
    Drained t d (pcbRelease env (t.put d { p with state := .closed }) d) ∧
      ∀ j ∈ p.backlog,
        (pcbRelease env (t.put d { p with state := .closed }) d).pcbs.peek j = none := by
  obtain ⟨h, hbacklog⟩ := pcbRelease_spec env (t.put d { p with state := .closed }) d
  exact ⟨.of_put (q := { p with state := .closed }) hp rfl rfl h,
    hbacklog { p with state := .closed } (by rw [Slots.peek_put hp, if_pos rfl])⟩

/-! ## The depth of the recursion -/

/-- Every block with a non-empty backlog is in one of the slots `ds`. -/
def Covers (t : Slots TcpPcb) (ds : List TcpDesc) : Prop :=
  ∀ i p, t.peek i = some p → p.backlog ≠ [] → i ∈ ds

/-- Draining a backlog leaves one slot fewer to cover. -/
theorem Covers.erase {t : Slots TcpPcb} {ds : List TcpDesc} (h : Covers t ds) {d : TcpDesc}
    {p : TcpPcb} (hp : t.peek d = some p) :
    Covers (t.put d { p with backlog := [] }) (ds.erase d) := by
  intro i q hq hne
  rw [Slots.peek_put hp] at hq
  split at hq
  · cases hq
    exact absurd rfl hne
  · next hid => exact (List.mem_erase_of_ne hid).mpr (h i q hq hne)

theorem Covers.drain {roots : TcpDesc → Prop} {t t' : Slots TcpPcb} {es : List Effect}
    {ds : List TcpDesc} (h : Covers t ds) (hdrain : Drain roots t t' es) : Covers t' ds :=
  fun i p hp ↦ h i p (hdrain.some_of_some hp)

theorem Covers.put {t : Slots TcpPcb} {ds : List TcpDesc} (h : Covers t ds) {d : TcpDesc}
    {p q : TcpPcb} (hp : t.peek d = some p) (hq : q.backlog = p.backlog) :
    Covers (t.put d q) ds := by
  intro i r hr hne
  rw [Slots.peek_put hp] at hr
  split at hr
  · next hid =>
    cases hr
    exact hid ▸ h d p hp (hq ▸ hne)
  · exact h i r hr hne

theorem Covers.releaseEntry {env : Env} {release : Slots TcpPcb → TcpDesc → Released}
    (hspec : ∀ t d, Drained t d (release t d)) {ds : List TcpDesc}
    {acc : Slots TcpPcb × List Effect} (h : Covers acc.1 ds) (d : TcpDesc) :
    Covers (Tcp.releaseEntry env release acc d).1 ds := by
  unfold Tcp.releaseEntry
  split
  · exact h
  · next p hp =>
    refine Covers.drain (h.put hp ?_) (hspec _ d).drain
    split
    · rw [output_rst]
    · rfl

/-- The loop does not depend on how the recursive calls are cut off, as long as
they agree on the tables it meets. -/
theorem foldl_releaseEntry_congr (env : Env) {release release' : Slots TcpPcb → TcpDesc → Released}
    (hspec : ∀ t d, Drained t d (release t d)) {ds₁ ds₂ : List TcpDesc}
    (hagree : ∀ t, Covers t ds₁ → Covers t ds₂ → ∀ d, release t d = release' t d)
    (ds : List TcpDesc) (acc : Slots TcpPcb × List Effect) (h₁ : Covers acc.1 ds₁)
    (h₂ : Covers acc.1 ds₂) :
    ds.foldl (releaseEntry env release) acc = ds.foldl (releaseEntry env release') acc := by
  induction ds generalizing acc with
  | nil => rfl
  | cons d ds ih =>
      have hentry : releaseEntry env release acc d = releaseEntry env release' acc d := by
        unfold releaseEntry
        split
        · rfl
        · next p hp =>
          have hput : ∀ q : TcpPcb, q.backlog = p.backlog →
              release (acc.1.put d q) d = release' (acc.1.put d q) d :=
            fun q hq ↦ hagree _ (h₁.put hp hq) (h₂.put hp hq) d
          split
          · rw [output_rst]
            simp only
            rw [hput { p with state := .closed } rfl]
          · simp only
            rw [hput p rfl]
      rw [List.foldl_cons, List.foldl_cons, ← hentry]
      exact ih _ (h₁.releaseEntry hspec d) (h₂.releaseEntry hspec d)

theorem pcbReleaseN_none (env : Env) {t : Slots TcpPcb} {d : TcpDesc} (hp : t.peek d = none)
    (n : Nat) : pcbReleaseN env n t d = { pcbs := t, ok := false } := by
  cases n with
  | zero => simp only [pcbReleaseN, hp]
  | succ n => simp only [pcbReleaseN, hp]

theorem pcbReleaseN_empty (env : Env) {t : Slots TcpPcb} {d : TcpDesc} {p : TcpPcb}
    (hp : t.peek d = some p) (hempty : p.backlog = []) (n : Nat) :
    pcbReleaseN env n t d = releaseSlot (t.put d { p with backlog := [] }, []) d := by
  cases n with
  | zero => simp only [pcbReleaseN, hp]
  | succ n => simp only [pcbReleaseN, hp, hempty, List.foldl_nil]

theorem pcbReleaseN_succ (env : Env) {t : Slots TcpPcb} {d : TcpDesc} {p : TcpPcb}
    (hp : t.peek d = some p) (n : Nat) :
    pcbReleaseN env (n + 1) t d = releaseSlot (p.backlog.foldl
      (releaseEntry env (pcbReleaseN env n)) (t.put d { p with backlog := [] }, [])) d := by
  simp only [pcbReleaseN, hp]

/-- A depth that is at least the number of slots with a non-empty backlog is as
good as any other such depth. -/
theorem pcbReleaseN_congr (env : Env) {n₁ n₂ : Nat} {t : Slots TcpPcb} {ds₁ ds₂ : List TcpDesc}
    (h₁ : Covers t ds₁) (hn₁ : ds₁.length ≤ n₁) (h₂ : Covers t ds₂) (hn₂ : ds₂.length ≤ n₂)
    (d : TcpDesc) : pcbReleaseN env n₁ t d = pcbReleaseN env n₂ t d := by
  induction n₁ generalizing n₂ t ds₁ ds₂ d with
  | zero =>
      cases hp : t.peek d with
      | none => rw [pcbReleaseN_none env hp, pcbReleaseN_none env hp]
      | some p =>
          have hempty : p.backlog = [] := by
            by_contra hne
            have hmem := h₁ d p hp hne
            rw [List.length_eq_zero_iff.mp (Nat.le_zero.mp hn₁)] at hmem
            exact absurd hmem (by simp)
          rw [pcbReleaseN_empty env hp hempty, pcbReleaseN_empty env hp hempty]
  | succ n₁ ih =>
      cases hp : t.peek d with
      | none => rw [pcbReleaseN_none env hp, pcbReleaseN_none env hp]
      | some p =>
          by_cases hne : p.backlog = []
          · rw [pcbReleaseN_empty env hp hne, pcbReleaseN_empty env hp hne]
          · have hlen₁ := List.length_erase_of_mem (h₁ d p hp hne)
            have hlen₂ := List.length_erase_of_mem (h₂ d p hp hne)
            obtain ⟨n₂, rfl⟩ : ∃ m, n₂ = m + 1 := by
              have hpos := List.length_pos_of_mem (h₂ d p hp hne)
              exact ⟨n₂ - 1, by omega⟩
            have hagree : ∀ t, Covers t (ds₁.erase d) → Covers t (ds₂.erase d) → ∀ d,
                pcbReleaseN env n₁ t d = pcbReleaseN env n₂ t d :=
              fun t ht₁ ht₂ d ↦ ih ht₁ (by omega) ht₂ (by omega) d
            rw [pcbReleaseN_succ env hp, pcbReleaseN_succ env hp,
              foldl_releaseEntry_congr env (pcbReleaseN_spec env n₁) hagree p.backlog _
                (h₁.erase hp) (h₂.erase hp)]

/-- A block with an empty backlog is released alone. -/
theorem pcbRelease_empty (env : Env) {t : Slots TcpPcb} {d : TcpDesc} {p : TcpPcb}
    (hp : t.peek d = some p) (hempty : p.backlog = []) :
    pcbRelease env t d = { pcbs := t.free d, effects := [.notify p.task] } := by
  have hself : { p with backlog := [] } = p := by rw [← hempty]
  rw [pcbRelease, pcbReleaseN_empty env hp hempty, hself, Slots.put_peek hp, releaseSlot, hp]
  rfl

theorem covers_range (t : Slots TcpPcb) : Covers t (List.range t.length) :=
  fun _ _ hp _ ↦ List.mem_range.mpr (Slots.lt_length_of_peek hp)

/-- **`pcb_release` is the recursion of the source**: the depth at which the
model cuts it off is never reached. -/
theorem pcbRelease_eq (env : Env) (t : Slots TcpPcb) (d : TcpDesc) :
    pcbRelease env t d = match t.peek d with
      | none => { pcbs := t, ok := false }
      | some p => releaseSlot (p.backlog.foldl (releaseEntry env (pcbRelease env))
          (t.put d { p with backlog := [] }, [])) d := by
  cases hp : t.peek d with
  | none => exact pcbReleaseN_none env hp _
  | some p =>
      have hcover : Covers (t.put d { p with backlog := [] }) (List.range t.length) := by
        have := covers_range (t.put d { p with backlog := [] })
        rwa [Slots.length_put] at this
      have hagree : ∀ t', Covers t' (List.range t.length) → Covers t' (List.range t.length) →
          ∀ d, pcbReleaseN env t.length t' d = pcbRelease env t' d :=
        fun t' h _ d ↦ pcbReleaseN_congr env h (by simp) (covers_range t') (by simp) d
      rw [pcbRelease, pcbReleaseN_succ env hp, foldl_releaseEntry_congr env
        (pcbReleaseN_spec env t.length) hagree p.backlog _ hcover hcover]

end Microps.Tcp
