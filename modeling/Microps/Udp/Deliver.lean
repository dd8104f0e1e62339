import Microps.Udp.Bind

/-!
# Delivery

A `Journal` is the UDP module with a record of its past: for every block, by its task, the
datagrams that arrived for it and those that `recvfrom` has popped, and whether it ever got its
port from `bind` or from a `sendto`.  The records are written beside the events and no event
reads them.
-/

namespace Microps.Udp

/-- The UDP module with its past. -/
structure Journal where
  udp : Udp := {}
  /-- The accepted datagrams whose destination selected the block, in their order. -/
  arrived : TaskId → List UdpQueueEntry := fun _ ↦ []
  /-- The datagrams `recvfrom` has popped, in their order. -/
  popped : TaskId → List UdpQueueEntry := fun _ ↦ []
  /-- The block has been given a local port. -/
  bound : TaskId → Bool := fun _ ↦ false

/-- What an event brings for whom: an accepted datagram, for the block that `pcb_select`
finds. -/
def delivery (env : Env) (udp : Udp) (ev : Event) : Option (TaskId × List UdpQueueEntry) := do
  let g ← accepts env ev
  let pcb ← selected udp.pcbs g.dst
  return (pcb.task, [⟨g.src, g.payload⟩])

/-- What `recvfrom` pops from whom. -/
def removal (udp : Udp) : Event → Option (TaskId × List UdpQueueEntry)
  | .recvfrom desc _ => do
      let pcb ← udp.get desc
      let entry ← pcb.queue.head?
      return (pcb.task, [entry])
  | _ => none

/-- The journal after an event. -/
def Journal.after (j : Journal) (env : Env) (ev : Event) (out : Outcome) : Journal where
  udp := out.udp
  arrived := Machine.record j.arrived (delivery env j.udp ev)
  popped := Machine.record j.popped (removal j.udp ev)
  bound := fun task ↦ j.bound task || binding j.udp ev out.reply == some task

/-- The journals of any run. -/
def Journaled : Journal → Prop :=
  Machine.Reach (· = {}) fun j (label : Env × Event) j' ↦
    ∃ out, step label.1 j.udp label.2 = .ok out ∧ j' = j.after label.1 label.2 out

/-! ## The invariant -/

/-- Every block has a task of its own, the records of an open block account for its queue, and
a block with a local endpoint has been given one. -/
structure JournalInv (j : Journal) : Prop where
  old : ∀ d p, j.udp.get d = some p → p.task < j.udp.nextTask
  own : ∀ d d' p p', j.udp.get d = some p → j.udp.get d' = some p' → p.task = p'.task → d = d'
  /-- Nothing is recorded for tasks to come. -/
  fresh : ∀ task, j.udp.nextTask ≤ task →
    j.arrived task = [] ∧ j.popped task = [] ∧ j.bound task = false
  exact : ∀ d p, j.udp.get d = some p → j.popped p.task ++ p.queue = j.arrived p.task
  unbound : ∀ d p, j.udp.get d = some p → j.bound p.task = false → p.localEndp = .any

section

variable {env : Env} {j : Journal} {ev : Event} {out : Outcome}

theorem selected_of_none {t : Slots UdpPcb} {key : IpEndp} (h : pcbSelect t key = none) :
    selected t key = none := by
  rw [selected, h, Option.bind_none]

/-- An event that is no accepted datagram for a block brings nothing. -/
theorem delivery_none {udp : Udp}
    (h : ∀ g, accepts env ev = some g → pcbSelect udp.pcbs g.dst = none) :
    delivery env udp ev = none := by
  unfold delivery
  cases haccepts : accepts env ev with
  | none => rfl
  | some g => simp [selected_of_none (h g haccepts)]

/-- Ports are given to blocks that are there. -/
theorem exists_of_binding {udp : Udp} {reply : Reply} {task : TaskId}
    (h : binding udp ev reply = some task) : ∃ d p, udp.get d = some p ∧ p.task = task := by
  unfold binding at h
  split at h
  · next d l =>
    split at h
    · obtain ⟨p, hp, htask⟩ := Option.map_eq_some_iff.mp h
      exact ⟨d, p, hp, htask⟩
    · exact absurd h (by simp)
  · next d data remote =>
    cases hp : udp.get d with
    | none => simp [hp] at h
    | some p =>
        simp only [hp, Option.bind_eq_bind, Option.bind_some, Option.ite_none_right_eq_some,
          Option.some.injEq] at h
        exact ⟨d, p, hp, h.2⟩
  · exact absurd h (by simp)

/-- Datagrams arrive for blocks that are there. -/
theorem exists_of_delivery {udp : Udp} {task : TaskId} {entries : List UdpQueueEntry}
    (h : delivery env udp ev = some (task, entries)) : ∃ d p, udp.get d = some p ∧ p.task = task := by
  simp only [delivery, selected, Option.bind_eq_bind, Option.pure_def, Option.bind_eq_some_iff,
    Option.some.injEq, Prod.mk.injEq] at h
  obtain ⟨g, -, p, ⟨d, -, hp⟩, htask, -⟩ := h
  exact ⟨d, p, hp, htask⟩

/-- They are popped from blocks that are there. -/
theorem exists_of_removal {udp : Udp} {task : TaskId} {entries : List UdpQueueEntry}
    (h : removal udp ev = some (task, entries)) : ∃ d p, udp.get d = some p ∧ p.task = task := by
  unfold removal at h
  split at h
  · simp only [Option.bind_eq_bind, Option.pure_def, Option.bind_eq_some_iff, Option.some.injEq,
      Prod.mk.injEq] at h
    obtain ⟨p, hp, e, -, htask, -⟩ := h
    exact ⟨_, p, hp, htask⟩
  · exact absurd h (by simp)

/-- Nothing is recorded for tasks to come. -/
theorem JournalInv.fresh_after (h : JournalInv j) (env : Env) (ev : Event) (out : Outcome)
    {task : TaskId} (htask : j.udp.nextTask ≤ task) :
    (j.after env ev out).arrived task = [] ∧ (j.after env ev out).popped task = [] ∧
      (j.after env ev out).bound task = false := by
  have hunused : ∀ d p, j.udp.get d = some p → p.task ≠ task := by
    intro d p hp heq
    exact absurd (h.old d p hp) (Nat.not_lt.mpr (heq ▸ htask))
  obtain ⟨harrived, hpopped, hbound⟩ := h.fresh task htask
  refine ⟨?_, ?_, ?_⟩
  · rw [← harrived]
    refine Machine.record_of_ne _ fun task' entries hnew ↦ ?_
    obtain ⟨d, p, hp, rfl⟩ := exists_of_delivery hnew
    exact hunused d p hp
  · rw [← hpopped]
    refine Machine.record_of_ne _ fun task' entries hnew ↦ ?_
    obtain ⟨d, p, hp, rfl⟩ := exists_of_removal hnew
    exact hunused d p hp
  · have hno : binding j.udp ev out.reply ≠ some task := by
      intro hbinding
      obtain ⟨d, p, hp, heq⟩ := exists_of_binding hbinding
      exact hunused d p hp heq
    simp [Journal.after, hbound, hno]

/-- What the records of a task become when nothing arrives for it and nothing is popped. -/
theorem JournalInv.same (h : JournalInv j) {j' : Journal}
    (hnext : j.udp.nextTask ≤ j'.udp.nextTask)
    (hget : ∀ d p', j'.udp.get d = some p' → ∃ p, j.udp.get d = some p ∧ p'.task = p.task ∧
      j'.popped p.task ++ p'.queue = j'.arrived p.task ∧
      (j'.bound p.task = false → p'.localEndp = .any))
    (hfresh : ∀ task, j.udp.nextTask ≤ task →
      j'.arrived task = [] ∧ j'.popped task = [] ∧ j'.bound task = false) : JournalInv j' where
  old d p' hp' := by
    obtain ⟨p, hp, htask, -⟩ := hget d p' hp'
    rw [htask]
    exact Nat.lt_of_lt_of_le (h.old d p hp) hnext
  own d d' q q' hq hq' heq := by
    obtain ⟨p, hp, htask, -⟩ := hget d q hq
    obtain ⟨p', hp', htask', -⟩ := hget d' q' hq'
    exact h.own d d' p p' hp hp' (by rw [← htask, ← htask', heq])
  fresh task hle := hfresh task (Nat.le_trans hnext hle)
  exact d p' hp' := by
    obtain ⟨p, -, htask, hexact, -⟩ := hget d p' hp'
    rw [htask]
    exact hexact
  unbound d p' hp' hbound := by
    obtain ⟨p, -, htask, -, hlocal⟩ := hget d p' hp'
    exact hlocal (by rwa [← htask])

/-- Who was bound stays bound. -/
theorem Journal.unbound_of_after {task : TaskId} (h : (j.after env ev out).bound task = false) :
    j.bound task = false ∧ binding j.udp ev out.reply ≠ some task := by
  simpa [Journal.after] using h

/-- What an event does to the records of the blocks it leaves alone. -/
theorem JournalInv.quiet (h : JournalInv j) (hdelivery : delivery env j.udp ev = none)
    (hremoval : removal j.udp ev = none) {d : UdpDesc} {p : UdpPcb} (hp : j.udp.get d = some p) :
    (j.after env ev out).popped p.task ++ p.queue = (j.after env ev out).arrived p.task ∧
      ((j.after env ev out).bound p.task = false → p.localEndp = .any) := by
  refine ⟨?_, fun hbound ↦ h.unbound d p hp (Journal.unbound_of_after hbound).1⟩
  simp only [Journal.after, hdelivery, hremoval, Machine.record_none]
  exact h.exact d p hp

/-- An event changes the queue of one block and the records of its task. -/
theorem JournalInv.requeue (h : JournalInv j) {c : UdpDesc} {p : UdpPcb}
    (hp : j.udp.get c = some p) {queue : List UdpQueueEntry}
    (hudp : out.udp = j.udp.set c { p with queue := queue })
    (hexact : (j.after env ev out).popped p.task ++ queue = (j.after env ev out).arrived p.task)
    (hothers : ∀ task, task ≠ p.task → (j.after env ev out).popped task = j.popped task ∧
      (j.after env ev out).arrived task = j.arrived task) : JournalInv (j.after env ev out) := by
  have hget : ∀ d, (j.after env ev out).udp.get d =
      if d = c then some { p with queue := queue } else j.udp.get d := by
    intro d
    rw [← get_set hp, ← hudp]
    rfl
  have hnext : j.udp.nextTask ≤ (j.after env ev out).udp.nextTask := by
    change _ ≤ out.udp.nextTask
    rw [hudp]
    exact Nat.le_refl _
  refine h.same hnext (fun d p' hp' ↦ ?_) fun task hle ↦ h.fresh_after env ev out hle
  rw [hget] at hp'
  split at hp'
  · next hd =>
    subst hd
    cases hp'
    exact ⟨p, hp, rfl, hexact, fun hno ↦ h.unbound d p hp (Journal.unbound_of_after hno).1⟩
  · next hd =>
    obtain ⟨hpopped, harrived⟩ := hothers p'.task fun heq ↦ hd (h.own d c p' p hp' hp heq)
    refine ⟨p', hp', rfl, ?_, fun hno ↦ h.unbound d p' hp' (Journal.unbound_of_after hno).1⟩
    rw [hpopped, harrived]
    exact h.exact d p' hp'

/-- A new block takes the next task, for which nothing is recorded. -/
theorem JournalInv.opened (h : JournalInv j) {c : UdpDesc} {udp' : Udp} {reply : Reply}
    (halloc : j.udp.pcbAlloc = some (c, udp')) :
    JournalInv (j.after env .open { udp := udp', reply := reply }) := by
  have hfresh := fun (task : TaskId) (hle : j.udp.nextTask ≤ task) ↦
    h.fresh_after env .open { udp := udp', reply := reply } hle
  obtain ⟨-, hnext, hget⟩ := pcbAlloc_spec halloc
  obtain ⟨harrived, hpopped, -⟩ := hfresh _ (Nat.le_refl _)
  have hcases : ∀ d p, udp'.get d = some p → (d = c ∧ p = .empty j.udp.nextTask) ∨
      (d ≠ c ∧ j.udp.get d = some p) := by
    intro d p hp
    rw [hget] at hp
    split at hp
    · next hd =>
      cases hp
      exact .inl ⟨hd, rfl⟩
    · next hd => exact .inr ⟨hd, hp⟩
  constructor
  · intro d p hp
    change p.task < udp'.nextTask
    rw [hnext]
    rcases hcases d p hp with ⟨-, rfl⟩ | ⟨-, hp⟩
    · exact Nat.lt_succ_self _
    · exact Nat.lt_succ_of_lt (h.old d p hp)
  · intro d d' p p' hp hp' heq
    rcases hcases d p hp with ⟨hd, rfl⟩ | ⟨-, hp⟩
    · rcases hcases d' p' hp' with ⟨hd', -⟩ | ⟨-, hp'⟩
      · exact hd.trans hd'.symm
      · exact absurd heq (Nat.ne_of_gt (h.old d' p' hp'))
    · rcases hcases d' p' hp' with ⟨-, rfl⟩ | ⟨-, hp'⟩
      · exact absurd heq (Nat.ne_of_lt (h.old d p hp))
      · exact h.own d d' p p' hp hp' heq
  · intro task hle
    have hle : udp'.nextTask ≤ task := hle
    rw [hnext] at hle
    exact hfresh task (Nat.le_of_succ_le hle)
  · intro d p hp
    rcases hcases d p hp with ⟨-, rfl⟩ | ⟨-, hp⟩
    · change _ ++ [] = _
      rw [List.append_nil]
      exact hpopped.trans harrived.symm
    · exact (h.quiet rfl rfl hp).1
  · intro d p hp hunbound
    rcases hcases d p hp with ⟨-, rfl⟩ | ⟨-, hp⟩
    · rfl
    · exact (h.quiet rfl rfl hp).2 hunbound

/-- **One event keeps the records exact.** -/
theorem JournalInv.move (h : JournalInv j) (hmove : Move env j.udp ev out) :
    JournalInv (j.after env ev out) := by
  have hfresh := fun (task : TaskId) (hle : j.udp.nextTask ≤ task) ↦ h.fresh_after env ev out hle
  cases hmove with
  | @idle ev reply es haccepts hreply hrecv =>
      have hremoval : removal j.udp ev = none := by
        cases ev with
        | recvfrom d len =>
            cases hp : j.udp.get d with
            | none => simp [removal, hp]
            | some p => simp [removal, hp, hrecv d len p rfl hp]
        | _ => rfl
      exact h.same (Nat.le_refl _)
        (fun d p hp ↦ ⟨p, hp, rfl, h.quiet (delivery_none haccepts) hremoval hp⟩) hfresh
  | opened halloc => exact h.opened halloc
  | @closed c p hp =>
      refine h.same (Nat.le_refl _) (fun d p' hp' ↦ ?_) hfresh
      change ({ j.udp with pcbs := j.udp.pcbs.free c } : Udp).get d = some p' at hp'
      rw [get_free] at hp'
      split at hp'
      · exact absurd hp' (by simp)
      · exact ⟨p', hp', rfl, h.quiet rfl rfl hp'⟩
  | @assigned ev reply c p l hp hev hfree hbinding =>
      have hquiet : delivery env j.udp ev = none ∧ removal j.udp ev = none := by
        cases ev with
        | bind d l => exact ⟨rfl, rfl⟩
        | sendto d data remote => exact ⟨rfl, rfl⟩
        | _ => exact hev.elim
      refine h.same (Nat.le_refl _) (fun d p' hp' ↦ ?_) hfresh
      change (j.udp.set c _).get d = some p' at hp'
      rw [get_set hp] at hp'
      split at hp'
      · next hd =>
        subst hd
        cases hp'
        refine ⟨p, hp, rfl, (h.quiet hquiet.1 hquiet.2 hp).1, fun hunbound ↦ ?_⟩
        exact absurd hbinding (Journal.unbound_of_after hunbound).2
      · exact ⟨p', hp', rfl, h.quiet hquiet.1 hquiet.2 hp'⟩
  | @queued ev g c p haccepts hselect hp =>
      have hremoval : removal j.udp ev = none := by
        cases ev with
        | arrive hdr iface data => rfl
        | _ => exact absurd haccepts (by simp [accepts])
      have hdelivery : delivery env j.udp ev = some (p.task, [⟨g.src, g.payload⟩]) := by
        have hp' : j.udp.pcbs.peek c = some p := hp
        simp [delivery, haccepts, selected, hselect, hp']
      refine h.requeue hp rfl ?_ fun task hne ↦ ?_
      · simp only [Journal.after, hdelivery, hremoval, Machine.record_none, Machine.record_self]
        rw [← List.append_assoc, h.exact c p hp]
      · simp only [Journal.after, hdelivery, hremoval, Machine.record_none, Machine.record_ne _ hne, and_self]
  | @popped c len p entry queue hp hqueue =>
      have hremoval : removal j.udp (.recvfrom c len) = some (p.task, [entry]) := by
        simp [removal, hp, hqueue]
      have hdelivery : delivery env j.udp (.recvfrom c len) = none := rfl
      refine h.requeue hp rfl ?_ fun task hne ↦ ?_
      · simp only [Journal.after, hdelivery, hremoval, Machine.record_none, Machine.record_self]
        rw [List.append_assoc, List.singleton_append, ← hqueue, h.exact c p hp]
      · simp only [Journal.after, hdelivery, hremoval, Machine.record_none, Machine.record_ne _ hne, and_self]

end

theorem Journaled.inv {j : Journal} (h : Journaled j) : JournalInv j := by
  refine Machine.Reach.invariant JournalInv ?_ ?_ h
  · rintro _ rfl
    have hnone : ∀ d, ({} : Udp).get d = none := fun d ↦ by simp [Udp.get]
    exact ⟨by simp [hnone], by simp [hnone], fun _ _ ↦ ⟨rfl, rfl, rfl⟩, by simp [hnone],
      by simp [hnone]⟩
  · rintro j ⟨env, ev⟩ _ ih ⟨out, hout, rfl⟩
    exact ih.move (step_move hout)

/-! ## Delivery is exact -/

/-- A round of `recvfrom` on a block that is there. -/
theorem recvfrom_spec (env : Env) (j : Journal) {d : UdpDesc} {p : UdpPcb}
    (hp : j.udp.get d = some p) (len : Nat) :
    ∃ out, step env j.udp (.recvfrom d len) = .ok out ∧
      match p.queue with
      | [] => out.reply = .wait p.task ∧ out.udp = j.udp
      | entry :: _ => out.reply = .datagram entry.remote
            (entry.data.take (min len entry.data.length)) ∧
          (j.after env (.recvfrom d len) out).popped p.task = j.popped p.task ++ [entry] := by
  refine ⟨Udp.recvfrom j.udp d len, rfl, ?_⟩
  cases hqueue : p.queue with
  | nil => simp [Udp.recvfrom, hp, hqueue]
  | cons entry queue =>
      simp [Udp.recvfrom, Journal.after, removal, hp, hqueue]

/-- **UDP delivery is exact**, in every interleaving of arrivals and calls.  The blocks have
records of their own, which start with their `open`; as long as a block is there, what
`recvfrom` has popped from it, followed by its queue, is what arrived for it, in this order;
and `recvfrom` returns the sender of the datagram it pops and as much of its octets as the
buffer holds. -/
theorem delivery_exact {j : Journal} (h : Journaled j) :
    (∀ d d' p p', j.udp.get d = some p → j.udp.get d' = some p' → p.task = p'.task → d = d') ∧
    (∀ env out d, step env j.udp .open = .ok out → out.reply = .desc d →
      ∃ p, out.udp.get d = some p ∧ (j.after env .open out).arrived p.task = [] ∧
        (j.after env .open out).popped p.task = []) ∧
    (∀ d p, j.udp.get d = some p → j.popped p.task ++ p.queue = j.arrived p.task) ∧
    ∀ env d len p, j.udp.get d = some p → ∃ out, step env j.udp (.recvfrom d len) = .ok out ∧
      match p.queue with
      | [] => out.reply = .wait p.task ∧ out.udp = j.udp
      | entry :: _ => out.reply = .datagram entry.remote
            (entry.data.take (min len entry.data.length)) ∧
          (j.after env (.recvfrom d len) out).popped p.task = j.popped p.task ++ [entry] := by
  refine ⟨h.inv.own, ?_, h.inv.exact, fun env d len p hp ↦ recvfrom_spec env j hp len⟩
  intro env out d hout hreply
  have hout : openCall j.udp = out := by simpa [step, pure, Except.pure] using hout
  unfold openCall at hout
  split at hout
  · subst hout
    exact absurd hreply (by simp)
  next c udp' halloc =>
  subst hout
  obtain rfl : c = d := by simpa using hreply
  obtain ⟨harrived, hpopped, -⟩ := h.inv.fresh_after env .open { udp := udp', reply := .desc c }
    (Nat.le_refl _)
  refine ⟨.empty j.udp.nextTask, ?_, harrived, hpopped⟩
  rw [(pcbAlloc_spec halloc).2.2, if_pos rfl]

/-! ## Who gets what arrives -/

/-- A datagram that is accepted goes to bound blocks only: the queue of no other grows, and if
no bound block matches, a datagram for this host is answered with an ICMP error. -/
structure Spares (env : Env) (j : Journal) (hdr : Ip.IpHdr) (iface : IpIface) (data : List U8)
    (dst : IpEndp) (out : Outcome) : Prop where
  grows : ∀ d p p', j.udp.get d = some p → out.udp.get d = some p' → p'.queue ≠ p.queue →
    j.bound p.task = true
  unbound : ∀ d p, j.udp.get d = some p → j.bound p.task = false → out.udp.get d = some p
  unreachable : hdr.dst = iface.unicast →
    (∀ d p, j.udp.get d = some p → j.bound p.task = true → selects p dst = false) →
    ∃ message, icmpOutput env.endian icmpTypeDestUnreach icmpCodePortUnreach 0
      (hdr.asBytes ++ data.take 8) iface.unicast hdr.src = .ok message ∧
      out.effects = [.icmp message]

/-- A block without a local endpoint matches every destination with port 0, and no other. -/
theorem selects_any (p : UdpPcb) (hany : p.localEndp = .any) (key : IpEndp) :
    selects p key = true ↔ key.port = 0 := by
  rw [selects_iff, hany]
  constructor
  · rintro ⟨hport, -⟩
    exact hport.symm
  · intro hport
    exact ⟨hport.symm, .inr (.inl rfl)⟩

/-- The first block that matches is found. -/
theorem pcbSelect_of_first {udp : Udp} {d : UdpDesc} {p : UdpPcb} {key : IpEndp}
    (hp : udp.get d = some p) (hsel : selects p key = true)
    (hfirst : ∀ d' p', d' < d → udp.get d' = some p' → selects p' key ≠ true) :
    pcbSelect udp.pcbs key = some d := by
  cases hsome : pcbSelect udp.pcbs key with
  | none => exact absurd ((pcbSelect_none hsome hp).symm.trans hsel) (by simp)
  | some c =>
      obtain ⟨q, hq, hq', hbefore⟩ := pcbSelect_some hsome
      rcases Nat.lt_trichotomy c d with hlt | rfl | hlt
      · exact absurd hq' (hfirst c q hlt hq)
      · rfl
      · exact absurd ((hbefore d p hlt hp).symm.trans hsel) (by simp)

section

variable {j : Journal} {env : Env} {hdr : Ip.IpHdr} {iface : IpIface} {data : List U8}
  {dst : IpEndp} {es : List Effect}

/-- No queue changes. -/
theorem Spares.idle (hreply : hdr.dst = iface.unicast → ∃ message,
      icmpOutput env.endian icmpTypeDestUnreach icmpCodePortUnreach 0
        (hdr.asBytes ++ data.take 8) iface.unicast hdr.src = .ok message ∧ es = [.icmp message]) :
    Spares env j hdr iface data dst { udp := j.udp, effects := es } where
  grows d p p' hp hp' hne := by
    cases hp.symm.trans hp'
    exact absurd rfl hne
  unbound d p hp _ := hp
  unreachable hdst _ := hreply hdst

/-- The queue of a bound block that matches changes. -/
theorem Spares.queued {c : UdpDesc} {q : UdpPcb} (hq : j.udp.get c = some q)
    (hbound : j.bound q.task = true) (hsel : selects q dst = true) (queue : List UdpQueueEntry) :
    Spares env j hdr iface data dst
      { udp := j.udp.set c { q with queue := queue }, effects := es } where
  grows d p p' hp hp' hne := by
    change (j.udp.set c _).get d = some p' at hp'
    rw [get_set hq] at hp'
    split at hp'
    · next hd =>
      subst hd
      cases hq.symm.trans hp
      exact hbound
    · cases hp.symm.trans hp'
      exact absurd rfl hne
  unbound d p hp hunbound := by
    change (j.udp.set c _).get d = some p
    rw [get_set hq]
    split
    · next hd =>
      subst hd
      cases hq.symm.trans hp
      exact absurd (hbound.symm.trans hunbound) (by simp)
    · exact hp
  unreachable _ hnone := absurd ((hnone c q hq hbound).symm.trans hsel) (by simp)

end

/-- **Who gets what arrives**: an accepted datagram goes to bound blocks only, exactly when it
is not for port 0 or `pcb_select` finds another match before it comes to a block that was never
bound. -/
theorem spares_unbound_iff {j : Journal} (h : Journaled j) {env : Env} {hdr : Ip.IpHdr}
    {iface : IpIface} {data : List U8} {g : Datagram}
    (haccepts : accepts env (.arrive hdr iface data) = some g) :
    (∃ out, step env j.udp (.arrive hdr iface data) = .ok out ∧
      Spares env j hdr iface data g.dst out) ↔
    (g.dst.port ≠ 0 ∨ ∀ d p, j.udp.get d = some p → j.bound p.task = false →
      ∃ d' p', d' < d ∧ j.udp.get d' = some p' ∧ selects p' g.dst = true) := by
  constructor
  · rintro ⟨out, hout, hspares⟩
    by_contra hcond
    push Not at hcond
    obtain ⟨hport, d, p, hp, hbound, hfirst⟩ := hcond
    -- Slot `d` is the first that matches, and its block was never bound.
    have hsel := (selects_any p (h.inv.unbound d p hp hbound) g.dst).mpr hport
    have hselect := pcbSelect_of_first hp hsel hfirst
    have hqueued : input env.endian j.udp hdr iface data = .ok out := hout
    rw [input_queued env haccepts hselect hp] at hqueued
    cases hqueued
    have hsame := hspares.unbound d p hp hbound
    change (j.udp.set d _).get d = some p at hsame
    rw [get_set hp, if_pos rfl] at hsame
    have hqueue := congrArg UdpPcb.queue (Option.some.inj hsame)
    simp at hqueue
  · intro hcond
    cases hselect : pcbSelect j.udp.pcbs g.dst with
    | none =>
        obtain ⟨hunicast, hother⟩ := input_unreachable env haccepts hselect
        by_cases hdst : hdr.dst = iface.unicast
        · obtain ⟨message, hmessage, heq⟩ := hunicast hdst
          exact ⟨_, heq, .idle fun _ ↦ ⟨message, hmessage, rfl⟩⟩
        · exact ⟨_, hother hdst, .idle fun hno ↦ absurd hno hdst⟩
    | some c =>
        obtain ⟨q, hq, hsel, hbefore⟩ := pcbSelect_some hselect
        have hq : j.udp.get c = some q := hq
        -- A block that was never bound would match port 0 only, and not be the first.
        have hbound : j.bound q.task = true := by
          by_contra hno
          have hno : j.bound q.task = false := by simpa using hno
          have hzero := (selects_any q (h.inv.unbound c q hq hno) g.dst).mp hsel
          obtain ⟨d', p', hlt, hp', hsel'⟩ := (hcond.resolve_left (not_not.mpr hzero)) c q hq hno
          exact absurd ((hbefore d' p' hlt hp').symm.trans hsel') (by simp)
        exact ⟨_, input_queued env haccepts hselect hq, .queued hq hbound hsel _⟩

/-! ## Fixed runs -/

/-- A fixed run that ends well ends in a journal that a run reaches. -/
theorem exists_journaled (P : Journal → Bool) (labels : List (Env × Event))
    (h : Machine.execTest (fun j (label : Env × Event) ↦
      (step label.1 j.udp label.2).map (j.after label.1 label.2)) P {} labels = true) :
    ∃ j, Journaled j ∧ P j = true := by
  refine Machine.exists_reach_of_execTest ?_ rfl h
  rintro j ⟨env, ev⟩ j' hstep
  obtain ⟨out, hout, rfl⟩ := Machine.exists_of_map_ok hstep
  exact ⟨out, hout, rfl⟩

/-- The host of the fixed runs. -/
def hostIface : IpIface := ⟨⟨192, 0, 2, 1⟩, ⟨255, 255, 255, 0⟩, ⟨192, 0, 2, 255⟩, 1500⟩

/-- A datagram of three octets from port 9 of the peer to `port`. -/
def peerDatagram (port : U8) : List U8 := [0, 9, 0, port, 0, 11, 0, 0, 1, 2, 3]

/-- The packet it comes in. -/
def peerHdr (port : U8) : Ip.IpHdr where
  data := [0x45, 0, 0, 31, 0, 0, 0, 0, 255, 17, 0x37, 0xca, 192, 0, 2, 2, 192, 0, 2, 1] ++
    peerDatagram port
  len := by
    simp [peerDatagram, Ip.hdrSizeMin]

/-- The datagram arrives. -/
def fromPeer (port : U8) : Env × Event :=
  (bareEnv, .arrive (peerHdr port) hostIface (peerDatagram port))

/-- Two datagrams arrive for a block, and one of them is popped. -/
theorem delivery_exact_two_datagrams :
    ∃ j p, Journaled j ∧ j.udp.get 0 = some p ∧
      j.arrived p.task = [⟨⟨⟨192, 0, 2, 2⟩, 9⟩, [1, 2, 3]⟩, ⟨⟨⟨192, 0, 2, 2⟩, 9⟩, [1, 2, 3]⟩] ∧
      j.popped p.task ++ p.queue = j.arrived p.task := by
  obtain ⟨j, hreach, htest⟩ := exists_journaled
    (fun j ↦ (j.udp.get 0).any fun p ↦ j.arrived p.task =
      [⟨⟨⟨192, 0, 2, 2⟩, 9⟩, [1, 2, 3]⟩, ⟨⟨⟨192, 0, 2, 2⟩, 9⟩, [1, 2, 3]⟩])
    [(bareEnv, .open), (bareEnv, .bind 0 ⟨.any, 7⟩), fromPeer 7, fromPeer 7,
      (bareEnv, .recvfrom 0 2)] (by decide +kernel)
  obtain ⟨p, hp, htest⟩ := (Option.any_eq_true _ _).mp htest
  exact ⟨j, p, hreach, hp, by simpa using htest, (delivery_exact hreach).2.2.1 0 p hp⟩

/-- A datagram for port 7 passes by a block that was never bound. -/
theorem spares_unbound_iff_port :
    ∃ j p, Journaled j ∧ j.udp.get 0 = some p ∧ j.bound p.task = false ∧
      ∃ out, step bareEnv j.udp (fromPeer 7).2 = .ok out ∧
        Spares bareEnv j (peerHdr 7) hostIface (peerDatagram 7) ⟨⟨192, 0, 2, 1⟩, 7⟩ out := by
  obtain ⟨j, hreach, htest⟩ := exists_journaled
    (fun j ↦ (j.udp.get 0).any fun p ↦ !j.bound p.task) [(bareEnv, .open)] (by decide +kernel)
  obtain ⟨p, hp, htest⟩ := (Option.any_eq_true _ _).mp htest
  have haccepts : accepts bareEnv (fromPeer 7).2 =
      some ⟨⟨⟨192, 0, 2, 2⟩, 9⟩, ⟨⟨192, 0, 2, 1⟩, 7⟩, [1, 2, 3]⟩ := by decide +kernel
  exact ⟨j, p, hreach, hp, by simpa using htest,
    (spares_unbound_iff hreach haccepts).mpr (.inl (by decide))⟩

/-- One for port 0 is queued on it. -/
theorem unbound_receives :
    ¬ ∀ j, Journaled j → ∀ env hdr iface data g,
      accepts env (.arrive hdr iface data) = some g →
      ∃ out, step env j.udp (.arrive hdr iface data) = .ok out ∧
        Spares env j hdr iface data g.dst out := by
  intro hall
  obtain ⟨j, hreach, htest⟩ := exists_journaled
    (fun j ↦ (j.udp.get 0).any (fun p ↦ !j.bound p.task && p.queue = []) &&
      (step bareEnv j.udp (fromPeer 0).2).toOption.any fun out ↦
        (out.udp.get 0).any fun p ↦ p.queue ≠ []) [(bareEnv, .open)] (by decide +kernel)
  simp only [Bool.and_eq_true] at htest
  obtain ⟨p, hp, htest₀⟩ := (Option.any_eq_true _ _).mp htest.1
  have haccepts : accepts bareEnv (fromPeer 0).2 =
      some ⟨⟨⟨192, 0, 2, 2⟩, 9⟩, ⟨⟨192, 0, 2, 1⟩, 0⟩, [1, 2, 3]⟩ := by decide +kernel
  obtain ⟨out, hout, hspares⟩ := hall j hreach _ _ _ _ _ haccepts
  change step bareEnv j.udp (fromPeer 0).2 = .ok out at hout
  simp only [Bool.and_eq_true, Bool.not_eq_true', decide_eq_true_eq] at htest₀
  have hsame := hspares.unbound 0 p hp htest₀.1
  have hgrows := htest.2
  rw [hout] at hgrows
  simp [Except.toOption, hsame, htest₀.2] at hgrows

end Microps.Udp
