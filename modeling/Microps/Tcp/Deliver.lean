import Microps.Tcp.Window

/-!
# Octets by block

A `Journal` is the TCP module with a record of its past: for every block, by its task, the
octets that segments have put into its buffer and those that `receive` has returned from it.
Where an `Account` follows one connection, a journal follows all blocks at once, from the
allocation of each to its release.
-/

namespace Microps.Tcp

/-- The TCP module with its past. -/
structure Journal where
  tcp : Tcp := {}
  /-- The payloads that `segment_arrives` has accepted for the block. -/
  delivered : TaskId → List U8 := fun _ ↦ []
  /-- The octets that `receive` has returned from it. -/
  returned : TaskId → List U8 := fun _ ↦ []

/-- What a segment brings for whom. -/
def delivery (tcp : Tcp) (ev : Event) : Option (TaskId × List U8) :=
  match ev with
  | .arrive s => do
      let d ← pcbSelect tcp.pcbs s.dst s.src
      let p ← tcp.get d
      return (p.task, acceptedBy tcp d ev)
  | _ => none

/-- What `receive` returns from whom. -/
def removal (tcp : Tcp) (ev : Event) (reply : Reply) : Option (TaskId × List U8) :=
  match ev with
  | .receive d _ => (tcp.get d).map fun p ↦ (p.task, returnedBy d ev reply)
  | _ => none

/-- The journal after an event. -/
def Journal.after (j : Journal) (ev : Event) (out : Outcome) : Journal where
  tcp := out.tcp
  delivered := Machine.record j.delivered (delivery j.tcp ev)
  returned := Machine.record j.returned (removal j.tcp ev out.reply)

/-- The journals of any run. -/
def Journaled : Journal → Prop :=
  Machine.Reach (· = {}) fun j (label : Env × Event) j' ↦
    ∃ out, step label.1 j.tcp label.2 = .ok out ∧ j' = j.after label.2 out

/-! ## One block -/

section

variable {env : Env} {tcp : Tcp} {d : TcpDesc} {ev : Event} {out : Outcome} {p p' : TcpPcb}

/-- A step of the block by itself, other than a `receive`, leaves the buffer alone. -/
theorem BlockStep.buf {es : List Effect} {reply : Reply} (h : BlockStep env tcp d ev p es reply p')
    (hev : ∀ len, ev ≠ .receive d len) : p'.buf = p.buf := by
  cases h with
  | mss m => rfl
  | bind l _ => rfl
  | listen n _ => rfl
  | connectFails _ => rfl
  | interrupted => rfl
  | syn l r _ _ =>
      rw [sendSyn_eq]
      rfl
  | synFails l r _ _ => rw [sendSyn_eq]
  | passive s _ _ _ _ _ _ => rw [passiveOpen_eq]
  | synSent s acceptable _ _ _ _ _ =>
      obtain ⟨q, rfl, hcases⟩ := synInSynSent_cases env p s.info acceptable
      obtain ⟨snd, queue, heq, -⟩ := takeSyn_eq p s.info acceptable
      rcases hcases with ⟨-, hcase⟩ | ⟨-, hcase⟩
      · rw [hcase, heq]
      · rw [hcase, heq]
  | fin state _ => rw [sendFin_eq]
  | data data sent n _ _ _ _ => rw [sendData_eq]
  | take len n wnd _ _ _ _ => exact absurd rfl (hev len)

theorem retransEmit_buf (env : Env) (p : TcpPcb) : (retransEmit env p).1.buf = p.buf := by
  rcases retransEmit_cases env p with heq | ⟨f, -, heq⟩
  · rw [heq]
  · rw [heq]

/-- A segment past the ACK step puts its text into the buffer if it is accepted. -/
theorem Arrived.buf {s : TcpSegment} (hreach : ReachesAck p s) (h : Arrived p s p') :
    p'.buf = p.buf ++ if Accepts p s then s.data else [] := by
  obtain ⟨snd, queue, tw, backlog, -, hcases⟩ := h.eq
  rcases hcases with ⟨hno, -, rfl⟩ | ⟨htext, hfits, -, rfl⟩ | ⟨hno, -, rfl⟩ | ⟨htext, hfits, -, rfl⟩
  · rw [if_neg fun hacc ↦ hno hacc.2.2, List.append_nil]
  · rw [if_pos ⟨hreach, h.passes, htext, hfits⟩]
    rfl
  · rw [if_neg fun hacc ↦ hno hacc.2.2.1, List.append_nil]
    rfl
  · rw [if_pos ⟨hreach, h.passes, htext, hfits⟩]
    rfl

/-- The text that the block in slot `d` accepts from a segment for it. -/
theorem acceptedBy_arrive {s : TcpSegment} (hselect : pcbSelect tcp.pcbs s.dst s.src = some d)
    (hp : tcp.get d = some p) :
    acceptedBy tcp d (.arrive s) = if Accepts p s then s.data else [] := by
  simp [acceptedBy, hselect, hp]

/-- The buffer of a block, against what a segment puts in and what `receive` takes out. -/
theorem buf_step (hout : step env tcp ev = .ok out) (hp : tcp.get d = some p)
    (hp' : out.tcp.get d = some p') :
    returnedBy d ev out.reply ++ p'.buf = p.buf ++ acceptedBy tcp d ev := by
  by_cases hrecv : ∃ len, ev = .receive d len
  · obtain ⟨len, rfl⟩ := hrecv
    have hout : receiveCall tcp d len = .ok out := hout
    rw [show acceptedBy tcp d (.receive d len) = [] from rfl, List.append_nil]
    rcases receiveCall_cases hp len with ⟨-, -, heq⟩ | ⟨reply, hquiet, heq, -⟩
    · obtain ⟨wnd, -, hout⟩ := Machine.exists_of_bind_ok (heq.symm.trans hout)
      cases hout
      rw [get_set hp, if_pos rfl] at hp'
      cases hp'
      simp [returnedBy]
    · cases heq.symm.trans hout
      cases hp.symm.trans hp'
      cases reply <;> simp_all [returnedBy, Reply.quiet]
  have hev : ∀ len, ev ≠ .receive d len := fun len heq ↦ hrecv ⟨len, heq⟩
  have hreturned : returnedBy d ev out.reply = [] := by
    unfold returnedBy
    split
    · next c len _ _ => rw [if_neg fun hc ↦ hev len (by rw [hc])]
    · rfl
  rw [hreturned, List.nil_append]
  by_cases hnone : acceptedBy tcp d ev = []
  · rcases (step_move hout).evolve hp' with ⟨q, hq, hevolve⟩ | ⟨hfree, -⟩
    · cases hp.symm.trans hq
      cases hevolve with
      | keep backlog mss accepted _ => rw [hnone, List.append_nil]
      | block hblock => rw [hnone, List.append_nil, hblock.buf hev]
      | arrived s hselect hreach harrived =>
          rw [acceptedBy_arrive hselect hp]
          exact harrived.buf hreach
      | tick => rw [hnone, List.append_nil, retransEmit_buf]
    · exact absurd (hp.symm.trans hfree) (by simp)
  -- Text for the block: the segment passes the ACK step.
  cases ev with
  | arrive s =>
      have hsome : pcbSelect tcp.pcbs s.dst s.src = some d ∧ Accepts p s := by
        by_contra hnot
        exact hnone (by simp [acceptedBy, hp]; tauto)
      obtain ⟨r, q, hr, hq, harrived⟩ :=
        segmentArrives_arrived env hsome.1 hp hsome.2.1 hsome.2.2.1
      obtain rfl : out = { tcp := r.1, effects := r.2 } := by
        simp only [Tcp.step, hr] at hout
        cases hout
        rfl
      cases hq.symm.trans hp'
      rw [acceptedBy_arrive hsome.1 hp]
      exact harrived.buf hsome.2.1
  | _ => exact absurd rfl hnone

end

/-! ## All blocks -/

/-- Every block has a task of its own, and its records account for its buffer. -/
structure JournalInv (j : Journal) : Prop where
  tasks : TaskInv j.tcp
  /-- Nothing is recorded for tasks to come. -/
  fresh : ∀ task, j.tcp.nextTask ≤ task → j.delivered task = [] ∧ j.returned task = []
  octets : ∀ d p, j.tcp.get d = some p → j.returned p.task ++ p.buf = j.delivered p.task

section

variable {env : Env} {j : Journal} {ev : Event} {out : Outcome} {d : TcpDesc} {p : TcpPcb}

/-- What is recorded for the task of the block in slot `d`. -/
theorem JournalInv.delivered_after (h : JournalInv j) (hp : j.tcp.get d = some p) :
    (j.after ev out).delivered p.task = j.delivered p.task ++ acceptedBy j.tcp d ev := by
  have hskip : acceptedBy j.tcp d ev = [] → (∀ task octets, delivery j.tcp ev = some (task, octets) →
      task ≠ p.task) →
      (j.after ev out).delivered p.task = j.delivered p.task ++ acceptedBy j.tcp d ev := by
    intro hnone hother
    rw [hnone, List.append_nil]
    exact Machine.record_of_ne _ hother
  cases ev with
  | arrive s =>
      cases hselect : pcbSelect j.tcp.pcbs s.dst s.src with
      | none => exact hskip (by simp [acceptedBy, hselect]) (by simp [delivery, hselect])
      | some c =>
          obtain ⟨q, hq, -, -⟩ := pcbSelect_some hselect
          have hq : j.tcp.get c = some q := hq
          by_cases hd : c = d
          · subst hd
            cases hq.symm.trans hp
            simp [Journal.after, delivery, hselect, hq]
          · refine hskip (by simp [acceptedBy, hselect, hd]) fun task octets hnew heq ↦ ?_
            simp only [delivery, hselect, hq, Option.bind_eq_bind, Option.bind_some,
              Option.pure_def, Option.some.injEq, Prod.mk.injEq] at hnew
            exact hd (h.tasks.distinct c d q p hq hp (hnew.1.trans heq))
  | _ => exact hskip rfl (by simp [delivery])

theorem JournalInv.returned_after (h : JournalInv j) (hp : j.tcp.get d = some p) :
    (j.after ev out).returned p.task = j.returned p.task ++ returnedBy d ev out.reply := by
  have hskip : returnedBy d ev out.reply = [] → (∀ task octets,
      removal j.tcp ev out.reply = some (task, octets) → task ≠ p.task) →
      (j.after ev out).returned p.task = j.returned p.task ++ returnedBy d ev out.reply := by
    intro hnone hother
    rw [hnone, List.append_nil]
    exact Machine.record_of_ne _ hother
  cases ev with
  | receive c len =>
      by_cases hd : c = d
      · subst hd
        simp [Journal.after, removal, hp]
      · refine hskip ?_ fun task octets hnew heq ↦ ?_
        · cases out.reply <;> simp [returnedBy, hd]
        · obtain ⟨q, hq, hnew⟩ := Option.map_eq_some_iff.mp hnew
          cases hnew
          exact hd (h.tasks.distinct c d q p hq hp heq)
  | _ => exact hskip rfl (by simp [removal])

/-- Nothing is recorded for tasks to come. -/
theorem JournalInv.fresh_after (h : JournalInv j) (ev : Event) (out : Outcome) {task : TaskId}
    (htask : j.tcp.nextTask ≤ task) :
    (j.after ev out).delivered task = [] ∧ (j.after ev out).returned task = [] := by
  have hunused : ∀ d p, j.tcp.get d = some p → p.task ≠ task := by
    intro d p hp heq
    exact absurd (h.tasks.fresh d p hp) (Nat.not_lt.mpr (heq ▸ htask))
  obtain ⟨hdelivered, hreturned⟩ := h.fresh task htask
  constructor
  · rw [← hdelivered]
    refine Machine.record_of_ne _ fun task' octets hnew ↦ ?_
    unfold delivery at hnew
    split at hnew
    · simp only [Option.bind_eq_bind, Option.pure_def, Option.bind_eq_some_iff, Option.some.injEq,
        Prod.mk.injEq] at hnew
      obtain ⟨c, -, q, hq, rfl, -⟩ := hnew
      exact hunused c q hq
    · exact absurd hnew (by simp)
  · rw [← hreturned]
    refine Machine.record_of_ne _ fun task' octets hnew ↦ ?_
    unfold removal at hnew
    split at hnew
    · obtain ⟨q, hq, hnew⟩ := Option.map_eq_some_iff.mp hnew
      cases hnew
      exact hunused _ q hq
    · exact absurd hnew (by simp)

/-- **One event keeps the records exact.** -/
theorem JournalInv.step (h : JournalInv j) (hout : Tcp.step env j.tcp ev = .ok out) :
    JournalInv (j.after ev out) := by
  have hmove := step_move hout
  refine ⟨h.tasks.move hmove, fun task hle ↦ ?_, fun d p' hp' ↦ ?_⟩
  · exact h.fresh_after ev out (Nat.le_trans hmove.nextTask_le hle)
  rcases hmove.evolve hp' with ⟨p, hp, hevolve⟩ | ⟨hfree, es, reply, hbirth⟩
  · rw [hevolve.same.1.task, h.delivered_after hp, h.returned_after hp, List.append_assoc,
      buf_step hout hp hp', ← List.append_assoc, h.octets d p hp]
  · obtain ⟨hdelivered, hreturned⟩ := h.fresh_after ev out (Nat.le_refl _)
    have hbuf : p'.buf = [] := by
      cases hbirth with
      | socket => rfl
      | listen l r => rfl
      | syn l l' r _ _ =>
          rw [sendSyn_eq]
          rfl
      | child s l q child _ _ _ _ _ _ _ _ hchild =>
          rw [passiveOpen_eq, hchild]
          rfl
    rw [hbirth.newborn.task, hdelivered, hreturned, hbuf]
    rfl

end

theorem Journaled.inv {j : Journal} (h : Journaled j) : JournalInv j := by
  refine Machine.Reach.invariant JournalInv ?_ ?_ h
  · rintro _ rfl
    have hnone : ∀ d, ({} : Tcp).get d = none := fun d ↦ by simp [Tcp.get]
    exact ⟨⟨by simp [hnone], by simp [hnone]⟩, fun _ _ ↦ ⟨rfl, rfl⟩, by simp [hnone]⟩
  · rintro j ⟨env, ev⟩ _ ih ⟨out, hout, rfl⟩
    exact ih.step hout

end Microps.Tcp
