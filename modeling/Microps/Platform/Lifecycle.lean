import Microps.Lib.FirstFree
import Microps.Lib.Machine
import Microps.Net

/-!
# Opening and closing the devices

`Device::open` and `Device::close` with their two drivers, and `net::run` and `net::shutdown`, which
go through all devices.  Each system call of the TAP driver may fail.  Of the descriptors that they
return nothing is known but that they are not in use.

Every descriptor that is opened is closed again unless it is stored, so that the descriptors of the
process are those of the devices that are up.
-/

namespace Microps.Platform

/-! ## Descriptors -/

/-- The descriptors of the process, as its system calls leave them. -/
structure Process where
  fds : List Nat
  /-- What `close` was called with although it was not open. -/
  stray : List Nat := []
deriving DecidableEq, Repr

/-- How a system call answers that opens something, given the descriptors in use: it fails, or it
returns one that is not among them. -/
structure NewFd where
  answer : List Nat → Option Nat
  fresh : ∀ fds fd, answer fds = some fd → fd ∉ fds

namespace Process

def opened (k : Process) (fd : Nat) : Process := { k with fds := fd :: k.fds }

/-- `close(2)` frees the descriptor, whatever it returns, which no caller looks at. -/
def close (k : Process) (fd : Nat) : Process :=
  if fd ∈ k.fds then { k with fds := k.fds.erase fd } else { k with stray := fd :: k.stray }

/-- A descriptor that is closed at once leaves nothing behind. -/
@[simp] theorem opened_close (k : Process) (fd : Nat) : (k.opened fd).close fd = k := by
  rw [close, opened, if_pos List.mem_cons_self, List.erase_cons_head]

end Process

/-! ## The TAP driver -/

/-- How the system calls of one call of `open` go; `configured` is not asked for. -/
structure Answers where
  open' : NewFd
  tunsetiff : Bool
  socket : NewFd
  /-- `ioctl(SIOCGIFHWADDR)`. -/
  hwaddr : Option EtherAddr
  setown : Bool
  getfl : Bool
  setfl : Bool
  setsig : Bool

/-- A device with what its driver keeps; the loopback driver keeps nothing. -/
structure Node where
  dev : Device
  /-- `configured_addr`. -/
  configured : Option EtherAddr := none
  /-- `fd`, which is none while it is −1. -/
  fd : Option Nat := none
deriving DecidableEq, Repr

namespace EtherTap

/-- `query_mac`. -/
def queryMac (k : Process) (a : Answers) : Process × Option EtherAddr :=
  match a.socket.answer k.fds with
  | none => (k, none)
  | some soc =>
      let k := (k.opened soc).close soc
      (k, a.hwaddr)

/-- `open`. -/
def openCall (k : Process) (a : Answers) (node : Node) : Process × Node × Except Unit Unit :=
  match a.open'.answer k.fds with
  | none => (k, node, .error ())
  | some fd =>
      let k := k.opened fd
      if ¬ a.tunsetiff then (k.close fd, node, .error ())
      else
        let r := match node.configured with
          | some addr => (k, some addr)
          | none => queryMac k a
        match r with
        | (k, none) => (k.close fd, node, .error ())
        | (k, some mac) =>
            let node := { node with dev := { node.dev with addr := mac } }
            if ¬ a.setown then (k.close fd, node, .error ())
            else if ¬ a.getfl then (k.close fd, node, .error ())
            else if ¬ a.setfl then (k.close fd, node, .error ())
            else if ¬ a.setsig then (k.close fd, node, .error ())
            else (k, { node with fd := some fd }, .ok ())

/-- `close`. -/
def closeCall (k : Process) (node : Node) : Process × Node :=
  match node.fd with
  | none => (k, node)
  | some fd => (k.close fd, { node with fd := none })

end EtherTap

/-! ## Devices -/

namespace Node

/-- `Device::open`. -/
def openCall (k : Process) (a : Answers) (node : Node) : Process × Node × Except Unit Unit :=
  if node.dev.up then (k, node, .error ())
  else
    let r : Process × Node × Except Unit Unit := match node.dev.ops with
      | .loopback => (k, node, .ok ())
      | .etherTap => EtherTap.openCall k a node
    match r with
    | (k, node, .error ()) => (k, node, .error ())
    | (k, node, .ok ()) => (k, { node with dev := { node.dev with up := true } }, .ok ())

/-- `Device::close`. -/
def closeCall (k : Process) (node : Node) : Process × Node × Except Unit Unit :=
  if ¬ node.dev.up then (k, node, .error ())
  else
    let r := match node.dev.ops with
      | .loopback => (k, node)
      | .etherTap => EtherTap.closeCall k node
    (r.1, { r.2 with dev := { r.2.dev with up := false } }, .ok ())

end Node

/-- The devices and the process. -/
structure Nodes where
  process : Process
  nodes : List Node
deriving DecidableEq, Repr

namespace Nodes

/-- `try_foreach(|dev| dev.open())`; `answers` says how the calls for the device `i` go. -/
def openAll (answers : Nat → Answers) : Nat → Process → List Node →
    Process × List Node × Except Unit Unit
  | _, k, [] => (k, [], .ok ())
  | i, k, node :: nodes => match node.openCall k (answers i) with
    | (k, node, .error ()) => (k, node :: nodes, .error ())
    | (k, node, .ok ()) =>
        let r := openAll answers (i + 1) k nodes
        (r.1, node :: r.2.1, r.2.2)

/-- `foreach(|dev| let _ = dev.close())`. -/
def closeAll : Process → List Node → Process × List Node
  | k, [] => (k, [])
  | k, node :: nodes =>
      let r := node.closeCall k
      let rest := closeAll r.1 nodes
      (rest.1, r.2.1 :: rest.2)

/-- A call from outside. -/
inductive Call where
  /-- `dev.open()`. -/
  | openCall (i : Nat) (a : Answers)
  /-- `dev.close()`. -/
  | closeCall (i : Nat)
  /-- `net::run`; `platform` says whether `platform::run` succeeds. -/
  | run (platform : Bool) (answers : Nat → Answers)
  /-- `net::shutdown`. -/
  | shutdown

/-- What a call does, and what it returns. -/
def step (s : Nodes) : Call → Nodes × Except Unit Unit
  | .openCall i a => match s.nodes[i]? with
    | none => (s, .error ())
    | some node =>
        let r := node.openCall s.process a
        ({ process := r.1, nodes := s.nodes.set i r.2.1 }, r.2.2)
  | .closeCall i => match s.nodes[i]? with
    | none => (s, .error ())
    | some node =>
        let r := node.closeCall s.process
        ({ process := r.1, nodes := s.nodes.set i r.2.1 }, r.2.2)
  | .run platform answers =>
      if ¬ platform then (s, .error ())
      else
        let r := openAll answers 0 s.process s.nodes
        ({ process := r.1, nodes := r.2.1 }, r.2.2)
  | .shutdown =>
      let r := closeAll s.process s.nodes
      ({ process := r.1, nodes := r.2 }, .ok ())

/-- The states that are reached from devices that are down, in a process with the descriptors
`base`. -/
def Reachable (base : List Nat) : Nodes → Prop :=
  Machine.Reach (fun s ↦ s.process = { fds := base } ∧ ∀ node ∈ s.nodes, node.dev.up = false ∧
    node.fd = none) fun s call s' ↦ (s.step call).1 = s'

end Nodes

/-! ## What a call leaves of one device -/

/-- A device that is up holds a descriptor, if it is a TAP device. -/
def Node.Sound (node : Node) : Prop :=
  match node.dev.ops with
  | .loopback => node.fd = none
  | .etherTap => node.dev.up = node.fd.isSome

/-- Whatever else the process holds, the descriptors are accounted for. -/
def Accounts (k : Process) (held : List Nat) (k' : Process) (held' : List Nat) : Prop :=
  ∀ others, k.fds.Perm (held ++ others) →
    k'.fds.Perm (held' ++ others) ∧ k'.stray = k.stray ∧ (k.fds.Nodup → k'.fds.Nodup)

section

variable {k k' k'' : Process} {held held' held'' : List Nat} {node : Node} {a : Answers}

theorem Accounts.refl (k : Process) (held : List Nat) : Accounts k held k held :=
  fun _ h ↦ ⟨h, rfl, id⟩

theorem Accounts.trans (h : Accounts k held k' held') (h' : Accounts k' held' k'' held'') :
    Accounts k held k'' held'' := by
  intro others hperm
  obtain ⟨hperm', hstray, hnodup⟩ := h others hperm
  obtain ⟨hperm'', hstray', hnodup'⟩ := h' others hperm'
  exact ⟨hperm'', hstray'.trans hstray, hnodup' ∘ hnodup⟩

/-- What a call does not look at stays as it is. -/
theorem Accounts.frame (h : Accounts k held k' held') (rest : List Nat) :
    Accounts k (held ++ rest) k' (held' ++ rest) := by
  intro others hperm
  rw [List.append_assoc] at hperm ⊢
  exact h _ hperm

theorem Accounts.perm {held₁ held₁' : List Nat} (h : Accounts k held k' held')
    (hheld : held₁.Perm held) (hheld' : held'.Perm held₁') : Accounts k held₁ k' held₁' := by
  intro others hperm
  obtain ⟨hperm', hstray, hnodup⟩ := h others (hperm.trans (hheld.append_right others))
  exact ⟨hperm'.trans (hheld'.append_right others), hstray, hnodup⟩

theorem Process.accounts_opened {fd : Nat} (hfresh : fd ∉ k.fds) :
    Accounts k [] (k.opened fd) [fd] :=
  fun _ hperm ↦ ⟨hperm.cons fd, rfl, fun hnodup ↦ List.nodup_cons.mpr ⟨hfresh, hnodup⟩⟩

theorem Process.accounts_close (k : Process) (fd : Nat) : Accounts k [fd] (k.close fd) [] := by
  intro others hperm
  have hmem : fd ∈ k.fds := hperm.mem_iff.mpr List.mem_cons_self
  rw [close, if_pos hmem]
  refine ⟨?_, rfl, fun hnodup ↦ hnodup.erase fd⟩
  have herase := hperm.erase fd
  rwa [List.singleton_append, List.erase_cons_head] at herase

/-- `query_mac` closes its socket. -/
theorem EtherTap.queryMac_process (k : Process) (a : Answers) :
    (EtherTap.queryMac k a).1 = k := by
  unfold EtherTap.queryMac
  split
  · rfl
  · exact k.opened_close _

/-- What `open` of the TAP driver does: it fails and leaves the process alone, or it stores the
descriptor. -/
theorem EtherTap.openCall_cases (k : Process) (a : Answers) (node : Node) :
    (∃ addr, EtherTap.openCall k a node =
      (k, { node with dev := { node.dev with addr := addr } }, .error ())) ∨
    ∃ addr fd, fd ∉ k.fds ∧ EtherTap.openCall k a node = (k.opened fd,
      { node with dev := { node.dev with addr := addr }, fd := some fd }, .ok ()) := by
  unfold EtherTap.openCall
  split
  · exact .inl ⟨node.dev.addr, rfl⟩
  next fd hanswer =>
  have hfresh := a.open'.fresh _ _ hanswer
  have hprocess : ∀ mac, (match node.configured with
      | some addr => (k.opened fd, some addr)
      | none => EtherTap.queryMac (k.opened fd) a) = mac → mac.1 = k.opened fd := by
    rintro _ rfl
    split
    · rfl
    · exact EtherTap.queryMac_process _ _
  dsimp only
  split
  · rw [k.opened_close]
    exact .inl ⟨node.dev.addr, rfl⟩
  · split
    · next k₁ hmac =>
      obtain rfl : k₁ = k.opened fd := hprocess _ hmac
      rw [k.opened_close]
      exact .inl ⟨node.dev.addr, rfl⟩
    · next k₁ mac hmac =>
      obtain rfl : k₁ = k.opened fd := hprocess _ hmac
      rw [k.opened_close]
      split
      · exact .inl ⟨mac, rfl⟩
      · split
        · exact .inl ⟨mac, rfl⟩
        · split
          · exact .inl ⟨mac, rfl⟩
          · split
            · exact .inl ⟨mac, rfl⟩
            · exact .inr ⟨mac, fd, hfresh, rfl⟩

/-- What a call leaves of a device. -/
structure Node.Keeps (k : Process) (node : Node) (k' : Process) (node' : Node) : Prop where
  sound : node'.Sound
  accounts : Accounts k node.fd.toList k' node'.fd.toList

/-- **`Device::open`** accounts for the descriptors, and a device that it has opened is up. -/
theorem Node.openCall_keeps (h : node.Sound) (k : Process) (a : Answers) :
    Node.Keeps k node (node.openCall k a).1 (node.openCall k a).2.1 ∧
      ((node.openCall k a).2.2 = .ok () → (node.openCall k a).2.1.dev.up = true) := by
  unfold Node.openCall
  split
  · exact ⟨⟨h, .refl _ _⟩, fun hok ↦ absurd hok (by simp)⟩
  · next hdown =>
    rw [Bool.not_eq_true] at hdown
    unfold Node.Sound at h
    cases hops : node.dev.ops with
    | loopback =>
        rw [hops] at h
        refine ⟨⟨?_, .refl _ _⟩, fun _ ↦ rfl⟩
        unfold Node.Sound
        simp only [hops]
        exact h
    | etherTap =>
        rw [hops] at h
        have hfd : node.fd = none := by
          rw [← Option.isNone_iff_eq_none, ← Option.not_isSome, ← h, hdown]
          rfl
        rcases EtherTap.openCall_cases k a node with ⟨addr, heq⟩ | ⟨addr, fd, hfresh, heq⟩
        · dsimp only
          rw [heq]
          refine ⟨⟨?_, .refl _ _⟩, fun hok ↦ absurd hok (by simp)⟩
          unfold Node.Sound
          simp only [hops]
          exact h
        · dsimp only
          rw [heq]
          refine ⟨⟨?_, ?_⟩, fun _ ↦ rfl⟩
          · unfold Node.Sound
            rw [hops]
            exact rfl
          · rw [hfd]
            exact Process.accounts_opened hfresh

/-- **`Device::close`** accounts for the descriptors, and leaves the device down. -/
theorem Node.closeCall_keeps (h : node.Sound) (k : Process) :
    Node.Keeps k node (node.closeCall k).1 (node.closeCall k).2.1 ∧
      (node.closeCall k).2.1.dev.up = false ∧ (node.closeCall k).2.1.fd = none := by
  unfold Node.closeCall
  unfold Node.Sound at h
  cases hops : node.dev.ops with
  | loopback =>
      rw [hops] at h
      have hsound : ∀ up, Node.Sound { node with dev := { node.dev with up := up } } := by
        intro up
        unfold Node.Sound
        simp only [hops]
        exact h
      split
      · next hdown =>
        rw [Bool.not_eq_true] at hdown
        exact ⟨⟨hsound node.dev.up, .refl _ _⟩, hdown, h⟩
      · exact ⟨⟨hsound false, .refl _ _⟩, rfl, h⟩
  | etherTap =>
      rw [hops] at h
      dsimp only at h
      cases hfd : node.fd with
      | none =>
          rw [hfd] at h
          rw [if_pos (by simp [h])]
          refine ⟨⟨?_, .refl _ _⟩, h, hfd⟩
          unfold Node.Sound
          simp only [hops, hfd]
          exact h
      | some fd =>
          rw [hfd] at h
          rw [if_neg (by simp [h])]
          have hclose : EtherTap.closeCall k node = (k.close fd, { node with fd := none }) := by
            rw [EtherTap.closeCall, hfd]
          rw [hclose]
          refine ⟨⟨?_, ?_⟩, rfl, rfl⟩
          · unfold Node.Sound
            rw [hops]
            exact rfl
          · rw [hfd]
            exact k.accounts_close fd

end

/-! ## What a call leaves of all devices -/

/-- The descriptors that the devices hold. -/
def held (nodes : List Node) : List Nat := nodes.flatMap (·.fd.toList)

namespace Nodes

section

variable {k : Process} {base : List Nat} {s : Nodes}

theorem openAll_keeps (answers : Nat → Answers) (i : Nat) (k : Process) {nodes : List Node}
    (h : ∀ node ∈ nodes, node.Sound) :
    (∀ node ∈ (openAll answers i k nodes).2.1, node.Sound) ∧
      Accounts k (held nodes) (openAll answers i k nodes).1
        (held (openAll answers i k nodes).2.1) ∧
      ((openAll answers i k nodes).2.2 = .ok () →
        ∀ node ∈ (openAll answers i k nodes).2.1, node.dev.up = true) := by
  induction nodes generalizing i k with
  | nil => exact ⟨h, .refl _ _, fun _ node hnode ↦ absurd hnode List.not_mem_nil⟩
  | cons node nodes ih =>
      obtain ⟨hkeeps, hup⟩ := Node.openCall_keeps (h node (.head _)) k (answers i)
      have hrest : ∀ node ∈ nodes, node.Sound := fun node hnode ↦ h node (.tail _ hnode)
      unfold openAll
      split
      · next k₁ node₁ heq =>
        rw [heq] at hkeeps
        refine ⟨?_, hkeeps.accounts.frame (held nodes), fun hok ↦ absurd hok (by simp)⟩
        rintro n (_ | ⟨_, hn⟩)
        · exact hkeeps.sound
        · exact hrest n hn
      · next k₁ node₁ heq =>
        rw [heq] at hkeeps hup
        obtain ⟨hsound, haccounts, hall⟩ := ih (i + 1) k₁ hrest
        refine ⟨?_, (hkeeps.accounts.frame (held nodes)).trans ?_, fun hok ↦ ?_⟩
        · rintro n (_ | ⟨_, hn⟩)
          · exact hkeeps.sound
          · exact hsound n hn
        · exact (haccounts.frame node₁.fd.toList).perm List.perm_append_comm List.perm_append_comm
        · rintro n (_ | ⟨_, hn⟩)
          · exact hup rfl
          · exact hall hok n hn

theorem closeAll_keeps (k : Process) {nodes : List Node} (h : ∀ node ∈ nodes, node.Sound) :
    (∀ node ∈ (closeAll k nodes).2, node.Sound ∧ node.dev.up = false) ∧
      held (closeAll k nodes).2 = [] ∧
      Accounts k (held nodes) (closeAll k nodes).1 (held (closeAll k nodes).2) := by
  induction nodes generalizing k with
  | nil => exact ⟨fun node hnode ↦ absurd hnode List.not_mem_nil, rfl, .refl _ _⟩
  | cons node nodes ih =>
      obtain ⟨hkeeps, hdown, hnone⟩ := Node.closeCall_keeps (h node (.head _)) k
      obtain ⟨hsound, hheld, haccounts⟩ :=
        ih (node.closeCall k).1 fun node hnode ↦ h node (.tail _ hnode)
      unfold closeAll
      refine ⟨?_, ?_, (hkeeps.accounts.frame (held nodes)).trans ?_⟩
      · rintro n (_ | ⟨_, hn⟩)
        · exact ⟨hkeeps.sound, hdown⟩
        · exact hsound n hn
      · change (node.closeCall k).2.1.fd.toList ++ held _ = []
        rw [hnone, hheld]
        rfl
      · exact (haccounts.frame _).perm List.perm_append_comm List.perm_append_comm

/-- What holds of the devices and the process. -/
structure Inv (base : List Nat) (s : Nodes) : Prop where
  sound : ∀ node ∈ s.nodes, node.Sound
  fds : s.process.fds.Perm (held s.nodes ++ base)
  nodup : s.process.fds.Nodup
  stray : s.process.stray = []

theorem Inv.accounts (h : Inv base s) {k : Process} {nodes : List Node}
    (hsound : ∀ node ∈ nodes, node.Sound)
    (haccounts : Accounts s.process (held s.nodes) k (held nodes)) :
    Inv base { process := k, nodes := nodes } := by
  obtain ⟨hperm, hstray, hnodup⟩ := haccounts base h.fds
  exact ⟨hsound, hperm, hnodup h.nodup, hstray.trans h.stray⟩

/-- One device changes. -/
theorem Inv.set (h : Inv base s) {i : Nat} {node node' : Node} {k : Process}
    (hnode : s.nodes[i]? = some node) (hkeeps : Node.Keeps s.process node k node') :
    Inv base { process := k, nodes := s.nodes.set i node' } := by
  obtain ⟨hlt, rfl⟩ := List.getElem?_eq_some_iff.mp hnode
  refine h.accounts (fun n hn ↦ ?_) ?_
  · rcases List.mem_or_eq_of_mem_set hn with hn | rfl
    · exact h.sound n hn
    · exact hkeeps.sound
  · have hsplit : ∀ n : Node, (held (s.nodes.set i n)).Perm
        (n.fd.toList ++ (held (s.nodes.take i) ++ held (s.nodes.drop (i + 1)))) := by
      intro n
      rw [List.set_eq_take_append_cons_drop, if_pos hlt, held, List.flatMap_append,
        List.flatMap_cons]
      exact List.perm_append_comm_assoc _ _ _
    refine (hkeeps.accounts.frame _).perm ?_ (hsplit node').symm
    have hself := hsplit s.nodes[i]
    rwa [List.set_getElem_self] at hself

theorem Inv.step (h : Inv base s) (call : Call) : Inv base (s.step call).1 := by
  cases call with
  | openCall i a =>
      unfold Nodes.step
      dsimp only
      split
      · exact h
      · next node hnode =>
        exact h.set hnode
          (Node.openCall_keeps (h.sound node (List.mem_of_getElem? hnode)) s.process a).1
  | closeCall i =>
      unfold Nodes.step
      dsimp only
      split
      · exact h
      · next node hnode =>
        exact h.set hnode
          (Node.closeCall_keeps (h.sound node (List.mem_of_getElem? hnode)) s.process).1
  | run platform answers =>
      unfold Nodes.step
      dsimp only
      split
      · exact h
      · obtain ⟨hsound, haccounts, -⟩ := openAll_keeps answers 0 s.process h.sound
        exact h.accounts hsound haccounts
  | shutdown =>
      obtain ⟨hsound, -, haccounts⟩ := closeAll_keeps s.process h.sound
      exact h.accounts (fun node hnode ↦ (hsound node hnode).1) haccounts

theorem Reachable.inv (hbase : base.Nodup) (h : Reachable base s) : Inv base s := by
  refine Machine.Reach.invariant (Inv base) ?_ ?_ h
  · rintro s ⟨hprocess, hdown⟩
    have hheld : held s.nodes = [] := by
      rw [held, List.flatMap_eq_nil_iff]
      intro node hnode
      rw [(hdown node hnode).2]
      rfl
    refine ⟨fun node hnode ↦ ?_, ?_, ?_, ?_⟩
    · obtain ⟨hup, hfd⟩ := hdown node hnode
      unfold Node.Sound
      split
      · exact hfd
      · rw [hup, hfd]
        rfl
    · rw [hprocess, hheld]
      exact .refl _
    · rw [hprocess]
      exact hbase
    · rw [hprocess]
  · rintro s call _ h rfl
    exact h.step call

/-- **The descriptors are accounted for**: whatever was opened and closed and whichever system calls
failed, the process holds one descriptor for each TAP device that is up and what it had before, no
two of them are the same, and `close` was never called with one that was not open.  After
`net::run` has succeeded all devices are up; after `net::shutdown` none is, and the process holds
what it had before.  The loopback driver opens nothing. -/
theorem descriptors_accounted (hbase : base.Nodup) (h : Reachable base s) :
    (∀ node ∈ s.nodes, node.dev.ops = .etherTap →
      (node.dev.up = true ↔ ∃ fd, node.fd = some fd)) ∧
    (∀ node ∈ s.nodes, node.dev.ops = .loopback → node.fd = none) ∧
    s.process.fds.Perm (held s.nodes ++ base) ∧ (held s.nodes ++ base).Nodup ∧
    s.process.stray = [] ∧
    (∀ platform answers, (s.step (.run platform answers)).2 = .ok () →
      ∀ node ∈ (s.step (.run platform answers)).1.nodes, node.dev.up = true) ∧
    (s.step .shutdown).1.process.fds.Perm base ∧
    ∀ node ∈ (s.step .shutdown).1.nodes, node.dev.up = false := by
  have hinv := h.inv hbase
  obtain ⟨hdown, hnone, haccounts⟩ := closeAll_keeps s.process hinv.sound
  refine ⟨fun node hnode hops ↦ ?_, fun node hnode hops ↦ ?_, hinv.fds,
    hinv.fds.nodup_iff.mp hinv.nodup, hinv.stray, ?_, ?_, fun node hnode ↦ (hdown node hnode).2⟩
  · have hsound := hinv.sound node hnode
    unfold Node.Sound at hsound
    rw [hops] at hsound
    rw [← Option.isSome_iff_exists]
    exact ⟨fun hup ↦ hsound ▸ hup, fun hfd ↦ hsound.trans hfd⟩
  · have hsound := hinv.sound node hnode
    unfold Node.Sound at hsound
    rwa [hops] at hsound
  · intro platform answers hok
    unfold step at hok ⊢
    dsimp only at hok ⊢
    split at hok
    · exact absurd hok (by simp)
    · next hplatform =>
      rw [if_neg hplatform]
      exact (openAll_keeps answers 0 s.process hinv.sound).2.2 hok
  · have hperm := (haccounts base hinv.fds).1
    rwa [hnone, List.nil_append] at hperm

/-- The lowest descriptor that is not in use. -/
def lowest (fds : List Nat) : Nat :=
  ((List.range' 0 (fds.length + 1)).find? fun fd ↦ fd ∉ fds).getD 0

theorem lowest_notMem (fds : List Nat) : lowest fds ∉ fds := by
  obtain ⟨n, -, hn, hfree⟩ := FirstFree.exists_notMem fds 0
  obtain ⟨m, hfind, -, -, hm, -⟩ := FirstFree.find?_range' (Nat.zero_le n)
    (by omega : n < 0 + (fds.length + 1)) (p := fun fd ↦ decide (fd ∉ fds)) (decide_eq_true hfree)
  rw [lowest, hfind]
  exact of_decide_eq_true hm

/-- A system call that succeeds, and returns the lowest one. -/
def lowestFd : NewFd where
  answer fds := some (lowest fds)
  fresh fds fd h := by
    obtain rfl := Option.some.inj h
    exact lowest_notMem fds

/-- A device that is down. -/
def sampleNode (n : U8) : Node :=
  { dev := { up := false, mtu := 1500, addr := ⟨0, 0, 0, 0, 0, 0⟩, broadcast := .broadcast,
             iface := none }
    configured := some ⟨2, 0, 0, 0, 0, n⟩ }

/-- The last system call for the second device fails. -/
def sampleAnswers (i : Nat) : Answers :=
  { open' := lowestFd, tunsetiff := true, socket := lowestFd, hwaddr := none, setown := true,
    getfl := true, setfl := true, setsig := i ≠ 1 }

/-- `net::run` fails at the second of two devices, and leaves the first one up; `net::shutdown`
still closes it. -/
theorem descriptors_accounted_failed : ∃ s, Reachable [0, 1, 2] s ∧ s.process.fds = [3, 0, 1, 2] ∧
    s.nodes.map (·.fd) = [some 3, none] ∧
    (s.step .shutdown).1.process.fds.Perm [0, 1, 2] := by
  have hstart : Reachable [0, 1, 2]
      { process := { fds := [0, 1, 2] }, nodes := [sampleNode 1, sampleNode 2] } :=
    .start ⟨rfl, by decide⟩
  have hrun := hstart.next (e := .run true sampleAnswers) rfl
  obtain ⟨-, -, -, -, -, -, hdown, -⟩ := descriptors_accounted (by decide) hrun
  exact ⟨_, hrun, by decide, by decide, hdown⟩

end

end Nodes

end Microps.Platform
