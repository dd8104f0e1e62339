import Microps.Tcp.Arrive
import Microps.Tcp.Inversion

/-!
# Runs

A run starts with the empty table and makes any number of steps.  What the code
always does is stated of all runs; when the code is right is stated of the runs
whose steps meet a guard.

Most invariants are about one block.  `Stays` is the view of a move from a slot
that is occupied before and after it, `Evolve` what most of them need of it, and
`ReachableWhen.blocks` turns what every block keeps into what every run keeps.
-/

namespace Microps.Tcp

/-- The tables reached by the runs whose steps all meet the guard `G`. -/
def ReachableWhen (G : Env → Tcp → Event → Prop) : Tcp → Prop :=
  Machine.Reach (· = {}) fun tcp (label : Env × Event) tcp' ↦
    G label.1 tcp label.2 ∧ ∃ out, step label.1 tcp label.2 = .ok out ∧ out.tcp = tcp'

/-- The tables reached by any run. -/
def Reachable : Tcp → Prop := ReachableWhen fun _ _ _ ↦ True

/-- What an event does to a block that stays in slot `d`, in detail. -/
inductive Stays (env : Env) (tcp : Tcp) (d : TcpDesc) (reply : Reply) :
    Event → TcpPcb → TcpPcb → Prop
  /-- The event is not about this block. -/
  | same {ev : Event} {p : TcpPcb} : Stays env tcp d reply ev p p
  /-- A step of the block by itself. -/
  | block {ev : Event} {p p' : TcpPcb} {es : List Effect}
      (hblock : BlockStep env tcp d ev p es reply p') : Stays env tcp d reply ev p p'
  /-- A segment past SYN_SENT passes the ACK step. -/
  | arrived {p p' : TcpPcb} (s : TcpSegment) (hselect : pcbSelect tcp.pcbs s.dst s.src = some d)
      (hreach : ReachesAck p s) (harrived : Arrived p s p') : Stays env tcp d reply (.arrive s) p p'
  /-- A child of the block joins its backlog. -/
  | joins {p q : TcpPcb} (s : TcpSegment) (c : TcpDesc)
      (hselect : pcbSelect tcp.pcbs s.dst s.src = some c) (hq : tcp.get c = some q)
      (hstate : q.state = .synReceived) (hreach : ReachesAck q s) (hpasses : passesAck q s.info)
      (hparent : q.parentDesc = some d) :
      Stays env tcp d reply (.arrive s) p { p with backlog := p.backlog ++ [c] }
  /-- `accept` takes a descriptor out of the backlog of the block. -/
  | pops {p : TcpPcb} {new : TcpDesc} {rest : List TcpDesc} (hbacklog : p.backlog = new :: rest) :
      Stays env tcp d reply (.accept d) p { p with backlog := rest }
  /-- `accept` returns the block, perhaps from its own backlog. -/
  | handed {p : TcpPcb} {remote : IpEndp} (l : TcpDesc) (m : U16) (backlog : List TcpDesc)
      (hbacklog : backlog <:+ p.backlog) (hreply : reply = .conn d remote) :
      Stays env tcp d reply (.accept l) p
        { p with backlog := backlog, mss := m, hist := { p.hist with accepted := true } }
  /-- The block is sent again as far as it is due. -/
  | tick {p : TcpPcb} : Stays env tcp d reply .timer p (retransEmit env p).1

/-- What an event does to a block that stays in slot `d`. -/
inductive Evolve (env : Env) (tcp : Tcp) (d : TcpDesc) (reply : Reply) :
    Event → TcpPcb → TcpPcb → Prop
  /-- Nothing that belongs to the connection changes. -/
  | keep {ev : Event} {p : TcpPcb} (backlog : List TcpDesc) (mss : U16) (accepted : Bool)
      (haccepted : p.hist.accepted = true → accepted = true) :
      Evolve env tcp d reply ev p
        { p with backlog := backlog, mss := mss, hist := { p.hist with accepted := accepted } }
  /-- A step of the block by itself. -/
  | block {ev : Event} {p p' : TcpPcb} {es : List Effect}
      (hblock : BlockStep env tcp d ev p es reply p') : Evolve env tcp d reply ev p p'
  /-- A segment past SYN_SENT passes the ACK step. -/
  | arrived {p p' : TcpPcb} (s : TcpSegment) (hselect : pcbSelect tcp.pcbs s.dst s.src = some d)
      (hreach : ReachesAck p s) (harrived : Arrived p s p') : Evolve env tcp d reply (.arrive s) p p'
  /-- The block is sent again as far as it is due. -/
  | tick {p : TcpPcb} : Evolve env tcp d reply .timer p (retransEmit env p).1

theorem Evolve.refl (env : Env) (tcp : Tcp) (d : TcpDesc) (reply : Reply) (ev : Event)
    (p : TcpPcb) : Evolve env tcp d reply ev p p :=
  .keep p.backlog p.mss p.hist.accepted id

theorem Stays.evolve {env : Env} {tcp : Tcp} {d : TcpDesc} {reply : Reply} {ev : Event}
    {p p' : TcpPcb} (h : Stays env tcp d reply ev p p') : Evolve env tcp d reply ev p p' := by
  cases h with
  | same => exact .refl env tcp d reply ev p
  | block hblock => exact .block hblock
  | arrived s hselect hreach harrived => exact .arrived s hselect hreach harrived
  | joins s c _ _ _ _ _ _ => exact .keep _ p.mss p.hist.accepted id
  | pops _ => exact .keep _ p.mss p.hist.accepted id
  | handed l m backlog _ _ => exact .keep backlog m true fun _ ↦ rfl
  | tick => exact .tick

/-- **One table**: a move makes one new block, or none, and every other block
that is there after it was there before. -/
theorem Move.slots {env : Env} {tcp : Tcp} {ev : Event} {out : Outcome}
    (h : Move env tcp ev out) :
    (tcp.nextTask ≤ out.tcp.nextTask ∧ ∀ d p', out.tcp.get d = some p' →
      ∃ p, tcp.get d = some p ∧ Stays env tcp d out.reply ev p p') ∨
    ∃ c q tcp', tcp.pcbAlloc = some (c, tcp') ∧ out.tcp.nextTask = tcp.nextTask + 1 ∧
      Birth env tcp c tcp.nextTask ev out.effects out.reply q ∧
      ∀ d, out.tcp.get d = if d = c then some q else tcp.get d := by
  have hsame : ∀ d p', tcp.get d = some p' →
      ∃ p, tcp.get d = some p ∧ Stays env tcp d out.reply ev p p' :=
    fun d p' hp ↦ ⟨p', hp, .same⟩
  cases h with
  | idle _ _ => exact .inl ⟨Nat.le_refl _, hsame⟩
  | work hp hblock =>
      refine .inl ⟨Nat.le_refl _, fun d p' hp' ↦ ?_⟩
      rw [get_set hp] at hp'
      split at hp'
      · next hd =>
        subst hd
        cases hp'
        exact ⟨_, hp, .block hblock⟩
      · exact hsame d p' hp'
  | birth halloc hbirth =>
      exact .inr ⟨_, _, _, halloc, (pcbAlloc_spec halloc).2.1, hbirth, get_birth halloc _⟩
  | stillborn hget htask _ =>
      refine .inl ⟨?_, fun d p' hp' ↦ hsame d p' ((hget d).symm.trans hp')⟩
      exact Nat.le_of_lt (htask ▸ Nat.lt_succ_self _)
  | drop es _ _ _ _ hdrained _ =>
      exact .inl ⟨Nat.le_refl _, fun d p' hp' ↦ hsame d p' (hdrained.drain.some_of_some hp')⟩
  | @pass s c p p₁ q es₁ es₂ hselect hp hparent hreach hack htext =>
      refine .inl ⟨Nat.le_refl _, fun d p' hp' ↦ ?_⟩
      rw [get_set hp] at hp'
      split at hp'
      · next hd =>
        subst hd
        cases hp'
        exact ⟨p, hp, .arrived s hselect hreach (arrived p₁.backlog hreach.state hack htext)⟩
      · exact hsame d p' hp'
  | @join s c l p p₁ p₂ q parent es₁ es₂ hselect hp hstate hparent hreach hack hl hp₂ htext =>
      refine .inl ⟨Nat.le_refl _, fun d p' hp' ↦ ?_⟩
      rw [get_set_set_set hp hl] at hp'
      split at hp'
      · next hd =>
        subst hd
        cases hp'
        exact ⟨p, hp, .arrived s hselect hreach (arrived_of_join hreach.state hack hp₂ htext)⟩
      next hdc =>
      split at hp'
      · next hdl =>
        subst hdl
        rw [get_set hp, if_neg hdc] at hl
        cases hp'
        exact ⟨parent, hl, .joins s c hselect hp hstate hreach hack.passes hparent⟩
      · exact hsame d p' hp'
  | @pop l new p rest reply hp hstate hbacklog hreply =>
      refine .inl ⟨Nat.le_refl _, fun d p' hp' ↦ ?_⟩
      rw [get_set hp] at hp'
      split at hp'
      · next hd =>
        subst hd
        cases hp'
        exact ⟨p, hp, .pops hbacklog⟩
      · exact hsame d p' hp'
  | @accept l new p q rest m hp hstate hbacklog hq =>
      refine .inl ⟨Nat.le_refl _, fun d p' hp' ↦ ?_⟩
      rw [get_set hq] at hp'
      rw [get_set hp] at hq
      split at hp'
      · next hd =>
        subst hd
        cases hp'
        split at hq
        · next hdl =>
          subst hdl
          cases hq
          exact ⟨p, hp, .handed d m rest (hbacklog ▸ List.suffix_cons _ _) rfl⟩
        · exact ⟨q, hq, .handed l m q.backlog List.suffix_rfl rfl⟩
      · rw [get_set hp] at hp'
        split at hp'
        · next hd =>
          subst hd
          cases hp'
          exact ⟨p, hp, .pops hbacklog⟩
        · exact hsame d p' hp'
  | tick hnone hsome _ =>
      refine .inl ⟨Nat.le_refl _, fun d p' hp' ↦ ?_⟩
      cases hp : tcp.get d with
      | none => exact absurd (hp'.symm.trans (hnone d hp)) (by simp)
      | some p =>
          rcases hsome d p hp with ⟨hd, -⟩ | ⟨hd, -⟩
          · obtain rfl : p' = (retransEmit env p).1 := by simpa using hp'.symm.trans hd
            exact ⟨p, rfl, .tick⟩
          · exact absurd (hp'.symm.trans hd) (by simp)

/-- A block that is there before and after a move. -/
theorem Move.stays {env : Env} {tcp : Tcp} {ev : Event} {out : Outcome} (h : Move env tcp ev out)
    {d : TcpDesc} {p p' : TcpPcb} (hp : tcp.get d = some p) (hp' : out.tcp.get d = some p') :
    Stays env tcp d out.reply ev p p' := by
  rcases h.slots with ⟨-, hold⟩ | ⟨c, q, tcp', halloc, -, -, hget⟩
  · obtain ⟨q, hq, hstays⟩ := hold d p' hp'
    obtain rfl : p = q := by simpa using hp.symm.trans hq
    exact hstays
  · have hne : d ≠ c := by
      rintro rfl
      exact absurd (hp.symm.trans (pcbAlloc_spec halloc).1) (by simp)
    rw [hget, if_neg hne] at hp'
    obtain rfl : p = p' := by simpa using hp.symm.trans hp'
    exact .same

/-- The same, where the details do not matter. -/
theorem Move.blocks {env : Env} {tcp : Tcp} {ev : Event} {out : Outcome}
    (h : Move env tcp ev out) :
    (tcp.nextTask ≤ out.tcp.nextTask ∧ ∀ d p', out.tcp.get d = some p' →
      ∃ p, tcp.get d = some p ∧ Evolve env tcp d out.reply ev p p') ∨
    ∃ c q tcp', tcp.pcbAlloc = some (c, tcp') ∧ out.tcp.nextTask = tcp.nextTask + 1 ∧
      Birth env tcp c tcp.nextTask ev out.effects out.reply q ∧
      ∀ d, out.tcp.get d = if d = c then some q else tcp.get d := by
  rcases h.slots with ⟨hle, hold⟩ | hbirth
  · refine .inl ⟨hle, fun d p' hp' ↦ ?_⟩
    obtain ⟨p, hp, hstays⟩ := hold d p' hp'
    exact ⟨p, hp, hstays.evolve⟩
  · exact .inr hbirth

/-- Task ids are never used again. -/
theorem Move.nextTask_le {env : Env} {tcp : Tcp} {ev : Event} {out : Outcome}
    (h : Move env tcp ev out) : tcp.nextTask ≤ out.tcp.nextTask := by
  rcases h.blocks with ⟨hle, -⟩ | ⟨c, q, tcp', -, heq, -, -⟩
  · exact hle
  · rw [heq]
    exact Nat.le_succ _

/-- One slot: a block that is there after a move was there before it and has
evolved, or the slot was empty and the block is new. -/
theorem Move.evolve {env : Env} {tcp : Tcp} {ev : Event} {out : Outcome}
    (h : Move env tcp ev out) {d : TcpDesc} {p' : TcpPcb} (hp' : out.tcp.get d = some p') :
    (∃ p, tcp.get d = some p ∧ Evolve env tcp d out.reply ev p p') ∨
      (tcp.get d = none ∧ ∃ es reply, Birth env tcp d tcp.nextTask ev es reply p') := by
  rcases h.blocks with ⟨-, hold⟩ | ⟨c, q, tcp', halloc, -, hbirth, hget⟩
  · exact .inl (hold d p' hp')
  · rw [hget] at hp'
    split at hp'
    · next hd =>
      subst hd
      cases hp'
      exact .inr ⟨(pcbAlloc_spec halloc).1, _, _, hbirth⟩
    · exact .inl ⟨p', hp', .refl env tcp d out.reply ev p'⟩

/-- What new blocks have and every block keeps holds of every block in every
table a run reaches. -/
theorem ReachableWhen.blocks_of_step {G : Env → Tcp → Event → Prop} {P : TcpPcb → Prop}
    (hbirth : ∀ {env tcp d ev task es reply p}, Birth env tcp d task ev es reply p → P p)
    (hevolve : ∀ {env tcp d ev out p p'}, G env tcp ev → step env tcp ev = .ok out →
      tcp.get d = some p → P p → out.tcp.get d = some p' → Evolve env tcp d out.reply ev p p' → P p')
    {tcp : Tcp} (h : ReachableWhen G tcp) {d : TcpDesc} {p : TcpPcb} (hp : tcp.get d = some p) :
    P p := by
  suffices hall : ∀ d p, tcp.get d = some p → P p from hall d p hp
  refine Machine.Reach.invariant (fun tcp : Tcp ↦ ∀ d p, tcp.get d = some p → P p) ?_ ?_ h
  · rintro _ rfl d p hp
    exact absurd hp (by simp [Tcp.get])
  · rintro tcp ⟨env, ev⟩ tcp' ih ⟨hguard, out, hout, rfl⟩ d p' hp'
    rcases (step_move hout).evolve hp' with ⟨p, hp, hev⟩ | ⟨-, es, reply, hb⟩
    · exact hevolve hguard hout hp (ih d p hp) hp' hev
    · exact hbirth hb

/-- The same where the rest of the step does not matter. -/
theorem ReachableWhen.blocks {G : Env → Tcp → Event → Prop} {P : TcpPcb → Prop}
    (hbirth : ∀ {env tcp d ev task es reply p}, Birth env tcp d task ev es reply p → P p)
    (hevolve : ∀ {env tcp d reply ev p p'}, G env tcp ev → tcp.get d = some p → P p →
      Evolve env tcp d reply ev p p' → P p')
    {tcp : Tcp} (h : ReachableWhen G tcp) {d : TcpDesc} {p : TcpPcb} (hp : tcp.get d = some p) :
    P p :=
  h.blocks_of_step hbirth (fun hguard _ hp hold _ hev ↦ hevolve hguard hp hold hev) hp

/-! ## Fixed runs

A run on given inputs is evaluated by `Machine.execTest`; the tests below end in a
table that such a run reaches.
-/

/-- One step of a run that stops where the test `g` fails. -/
def stepWhen (g : Env → Tcp → Event → Bool) (tcp : Tcp) (label : Env × Event) : Checked Tcp :=
  if g label.1 tcp label.2 then (step label.1 tcp label.2).map (·.tcp) else .error .unwrap

/-- A fixed run that ends well ends in a reachable table. -/
theorem exists_reachableWhen {G : Env → Tcp → Event → Prop} (g : Env → Tcp → Event → Bool)
    (hg : ∀ env tcp ev, g env tcp ev = true → G env tcp ev) (P : Tcp → Bool)
    (labels : List (Env × Event)) (h : Machine.execTest (stepWhen g) P {} labels = true) :
    ∃ tcp, ReachableWhen G tcp ∧ P tcp = true := by
  refine Machine.exists_reach_of_execTest ?_ rfl h
  rintro tcp ⟨env, ev⟩ tcp' hstep
  unfold stepWhen at hstep
  split at hstep
  · next hok =>
    exact ⟨hg env tcp ev hok, Machine.exists_of_map_ok hstep⟩
  · exact absurd hstep (by simp)

/-- The endpoint of the fixed runs. -/
def hostEndp : IpEndp := ⟨⟨192, 0, 2, 1⟩, 7⟩

/-- Its peer. -/
def peerEndp : IpEndp := ⟨⟨192, 0, 2, 2⟩, 9⟩

/-- A quiet environment: nothing fails, and the initial sequence number is 100. -/
def calmEnv : Env := { now := 0, random32 := 100, ipOutput := fun _ ↦ true, routes := [] }

/-- The same with a route to the peer. -/
def routedEnv : Env :=
  { calmEnv with
    routes := [{ network := ⟨192, 0, 2, 0⟩, netmask := ⟨255, 255, 255, 0⟩, nexthop := .any,
                 iface := { unicast := ⟨192, 0, 2, 1⟩, netmask := ⟨255, 255, 255, 0⟩,
                            broadcast := ⟨192, 0, 2, 255⟩, mtu := 1500 } }] }

/-- A segment from the peer. -/
def fromPeer (seq ack : U32) (flg : U8) (data : List U8) : Env × Event :=
  (calmEnv, .arrive { src := peerEndp, dst := hostEndp, seq := seq, ack := ack, flg := flg,
                      wnd := 1000, data := data })

end Microps.Tcp
