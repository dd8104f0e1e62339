import Mathlib.Data.List.Nodup
import Microps.Lib.Machine
import Microps.Word

/-!
# Tasks

`platform/linux/task.rs`: a generation that `notify` advances, a flag that `interrupt`
sets, and a condition variable.  A caller takes a snapshot of the generation, looks at its
own data, and waits in `wait_after` until the generation has moved on or the flag is set.

Every method runs under the mutex of the task, so that a critical section is a step.
`wait_after` gives the mutex up where the condition variable puts it to sleep; a thread
that was woken up, for whatever reason, still has to take it again.
-/

namespace Microps.Task

/-! ## The methods -/

/-- `TaskState`. -/
structure TaskState where
  generation : U64 := 0
  interrupted : Bool := false
  wc : U32 := 0
deriving DecidableEq, Repr

/-- `WaitResult`. -/
inductive WaitResult where
  | notified
  | interrupted
deriving DecidableEq, Repr

/-- `if s.wc == 0 { s.interrupted = false; }`. -/
def TaskState.lower (s : TaskState) : TaskState :=
  if s.wc = 0 then { s with interrupted := false } else s

/-- `wait_after` at the test of `wait_while`: the thread sleeps, which is `none`, or leaves
the loop and returns. -/
def waitWhile (s : TaskState) (snapshot : U64) : Checked (TaskState × Option WaitResult) :=
  if s.generation = snapshot ∧ s.interrupted = false then return (s, none)
  else do
    let wc ← wsub s.wc 1
    let s := { s with wc := wc }
    if s.interrupted then return (s.lower, some .interrupted) else return (s, some .notified)

/-- `wait_after`, until it sleeps or returns. -/
def waitAfter (s : TaskState) (snapshot : U64) : Checked (TaskState × Option WaitResult) :=
  if s.interrupted then return (s.lower, some .interrupted)
  else do
    let wc ← wadd s.wc 1
    waitWhile { s with wc := wc } snapshot

/-- `notify`, which also calls `notify_all`. -/
def notify (s : TaskState) : TaskState := { s with generation := s.generation + 1 }

/-- `interrupt`, and whether it calls `notify_all`. -/
def interrupt (s : TaskState) : TaskState × Bool :=
  if s.interrupted = false then ({ s with interrupted := true }, true) else (s, false)

/-! ## Threads -/

/-- A snapshot, with the number of calls of `notify` that came before it. -/
structure Snapshot where
  generation : U64
  taken : Nat
deriving DecidableEq, Repr

/-- A thread inside `wait_after` that does not hold the mutex. -/
structure Waiter where
  thread : Nat
  snapshot : Snapshot
  /-- It was woken up and waits for the mutex. -/
  awake : Bool
deriving DecidableEq, Repr

/-- A task and the threads that use it. -/
structure World where
  task : TaskState := {}
  waiters : List Waiter := []
  /-- How often `notify` was called. -/
  notifies : Nat := 0
  /-- The snapshots that were taken. -/
  snapshots : List Snapshot := []
  /-- What calls of `wait_after` have returned, and to which thread. -/
  returned : List (Nat × WaitResult) := []
deriving DecidableEq, Repr

/-- What may happen next. -/
inductive Act where
  /-- Some thread calls `snapshot`. -/
  | snapshot
  /-- A thread calls `wait_after`. -/
  | waitAfter (thread : Nat) (snapshot : Snapshot)
  /-- The condition variable wakes a thread up for no reason. -/
  | spurious (thread : Nat)
  /-- A thread that is awake takes the mutex. -/
  | resume (thread : Nat)
  /-- Some thread calls `notify`. -/
  | notify
  /-- Some thread calls `interrupt`. -/
  | interrupt
deriving DecidableEq, Repr

/-- `notify_all`. -/
def notifyAll (ws : List Waiter) : List Waiter := ws.map fun x ↦ { x with awake := true }

/-- One thread falls asleep or wakes up. -/
def setAwake (ws : List Waiter) (thread : Nat) (awake : Bool) : List Waiter :=
  ws.map fun x ↦ if x.thread = thread then { x with awake := awake } else x

/-- One step. -/
def World.step (w : World) : Act → Checked World
  | .snapshot => return { w with snapshots := ⟨w.task.generation, w.notifies⟩ :: w.snapshots }
  | .waitAfter thread snapshot => do
      let r ← Task.waitAfter w.task snapshot.generation
      match r.2 with
      | none => return { w with task := r.1, waiters := w.waiters ++ [⟨thread, snapshot, false⟩] }
      | some result => return { w with task := r.1, returned := w.returned ++ [(thread, result)] }
  | .spurious thread => return { w with waiters := setAwake w.waiters thread true }
  | .resume thread => match w.waiters.find? (·.thread = thread) with
    | none => .error .unwrap
    | some x => do
        let r ← waitWhile w.task x.snapshot.generation
        match r.2 with
        | none => return { w with task := r.1, waiters := setAwake w.waiters thread false }
        | some result => return { w with
            task := r.1, waiters := w.waiters.eraseP (·.thread = thread)
            returned := w.returned ++ [(thread, result)] }
  | .notify => return { w with
      task := Task.notify w.task, waiters := notifyAll w.waiters, notifies := w.notifies + 1 }
  | .interrupt =>
      let r := Task.interrupt w.task
      return { w with task := r.1, waiters := if r.2 then notifyAll w.waiters else w.waiters }

/-- The steps that may be made: a thread is in one call at a time and waits for a snapshot
that was taken, it takes the mutex only when it is awake, and `notify` is not called so often
that the generation wraps around. -/
def World.allows (w : World) : Act → Prop
  | .waitAfter thread snapshot =>
      snapshot ∈ w.snapshots ∧ ∀ x ∈ w.waiters, x.thread ≠ thread
  | .resume thread => ∃ x ∈ w.waiters, x.thread = thread ∧ x.awake = true
  | .notify => w.notifies + 1 < 2 ^ 64
  | _ => True

/-- The worlds that are reached from one. -/
def ReachesFrom (start : World) : World → Prop :=
  Machine.Reach (· = start) fun w act w' ↦ w.allows act ∧ w.step act = .ok w'

/-- The worlds that are reached from a new task. -/
def Reachable : World → Prop := ReachesFrom {}

/-! ## What a step can do -/

/-- A thread leaves `wait_after`. -/
def World.leave (w : World) (task : TaskState) (thread : Nat) (result : WaitResult) : World :=
  { w with
    task := task, waiters := w.waiters.eraseP (·.thread = thread)
    returned := w.returned ++ [(thread, result)] }

/-- What a step can do. -/
inductive Move (w : World) : Act → World → Prop
  | snapshot : Move w .snapshot
      { w with snapshots := ⟨w.task.generation, w.notifies⟩ :: w.snapshots }
  /-- A thread that comes while the flag is set returns at once. -/
  | refused (thread : Nat) (snapshot : Snapshot) (hflag : w.task.interrupted = true) :
      Move w (.waitAfter thread snapshot)
        { w with task := w.task.lower, returned := w.returned ++ [(thread, .interrupted)] }
  /-- A thread that comes too late to sleep returns at once. -/
  | passes (thread : Nat) (snapshot : Snapshot) (hflag : w.task.interrupted = false)
      (hgen : w.task.generation ≠ snapshot.generation) :
      Move w (.waitAfter thread snapshot)
        { w with returned := w.returned ++ [(thread, .notified)] }
  | sleeps (thread : Nat) (snapshot : Snapshot) (hflag : w.task.interrupted = false)
      (hgen : w.task.generation = snapshot.generation) (hwc : w.task.wc.toNat + 1 < 2 ^ 32) :
      Move w (.waitAfter thread snapshot)
        { w with
          task := { w.task with wc := w.task.wc + 1 }
          waiters := w.waiters ++ [⟨thread, snapshot, false⟩] }
  | spurious (thread : Nat) :
      Move w (.spurious thread) { w with waiters := setAwake w.waiters thread true }
  /-- A thread was woken up in vain. -/
  | again (thread : Nat) (x : Waiter) (hx : w.waiters.find? (·.thread = thread) = some x)
      (hflag : w.task.interrupted = false) (hgen : w.task.generation = x.snapshot.generation) :
      Move w (.resume thread) { w with waiters := setAwake w.waiters thread false }
  | interrupted (thread : Nat) (x : Waiter)
      (hx : w.waiters.find? (·.thread = thread) = some x) (hflag : w.task.interrupted = true)
      (hwc : 1 ≤ w.task.wc.toNat) :
      Move w (.resume thread)
        (w.leave { w.task with wc := w.task.wc - 1 }.lower thread .interrupted)
  | notified (thread : Nat) (x : Waiter)
      (hx : w.waiters.find? (·.thread = thread) = some x) (hflag : w.task.interrupted = false)
      (hgen : w.task.generation ≠ x.snapshot.generation) (hwc : 1 ≤ w.task.wc.toNat) :
      Move w (.resume thread) (w.leave { w.task with wc := w.task.wc - 1 } thread .notified)
  | notify : Move w .notify { w with
      task := notify w.task, waiters := notifyAll w.waiters, notifies := w.notifies + 1 }
  | raise (hflag : w.task.interrupted = false) : Move w .interrupt
      { w with task := { w.task with interrupted := true }, waiters := notifyAll w.waiters }
  /-- The flag is set already. -/
  | raised (hflag : w.task.interrupted = true) : Move w .interrupt w

section

variable {s : TaskState} {snapshot : U64} {r : TaskState × Option WaitResult}

/-- How a round of the loop of `wait_while` ends. -/
theorem waitWhile_cases (h : waitWhile s snapshot = .ok r) :
    (s.generation = snapshot ∧ s.interrupted = false ∧ r = (s, none)) ∨
      (s.interrupted = true ∧ 1 ≤ s.wc.toNat ∧
        r = ({ s with wc := s.wc - 1 }.lower, some .interrupted)) ∨
      (s.generation ≠ snapshot ∧ s.interrupted = false ∧ 1 ≤ s.wc.toNat ∧
        r = ({ s with wc := s.wc - 1 }, some .notified)) := by
  unfold waitWhile wsub at h
  split at h
  · next hsleep =>
    cases h
    exact .inl ⟨hsleep.1, hsleep.2, rfl⟩
  · next hleave =>
    split at h
    · next hwc =>
      have hone : 1 ≤ s.wc.toNat := hwc
      simp only [bind, Except.bind] at h
      split at h
      · next hflag =>
        cases h
        exact .inr (.inl ⟨hflag, hone, rfl⟩)
      · next hflag =>
        rw [Bool.not_eq_true] at hflag
        cases h
        exact .inr (.inr ⟨fun hgen ↦ hleave ⟨hgen, hflag⟩, hflag, hone, rfl⟩)
    · exact absurd h (by simp [bind, Except.bind])

/-- How the first part of `wait_after` ends. -/
theorem waitAfter_cases (h : waitAfter s snapshot = .ok r) :
    (s.interrupted = true ∧ r = (s.lower, some .interrupted)) ∨
      (s.interrupted = false ∧ s.generation ≠ snapshot ∧ r = (s, some .notified)) ∨
      (s.interrupted = false ∧ s.generation = snapshot ∧ s.wc.toNat + 1 < 2 ^ 32 ∧
        r = ({ s with wc := s.wc + 1 }, none)) := by
  unfold waitAfter wadd at h
  split at h
  · next hflag =>
    cases h
    exact .inl ⟨hflag, rfl⟩
  · next hflag =>
    rw [Bool.not_eq_true] at hflag
    split at h
    · next hwc =>
      have hsub : s.wc + 1 - 1 = s.wc := BitVec.add_sub_cancel _ _
      rcases waitWhile_cases h with ⟨hgen, -, rfl⟩ | ⟨hflag', -⟩ | ⟨hgen, -, -, rfl⟩
      · exact .inr (.inr ⟨hflag, hgen, hwc, rfl⟩)
      · exact absurd (hflag.symm.trans hflag') (by simp)
      · refine .inr (.inl ⟨hflag, hgen, ?_⟩)
        simp only [hsub]
    · exact absurd h (by simp [bind, Except.bind])

end

theorem step_move {w w' : World} {act : Act} (h : w.step act = .ok w') : Move w act w' := by
  cases act with
  | snapshot =>
      cases h
      exact .snapshot
  | waitAfter thread snapshot =>
      obtain ⟨r, hr, h⟩ := Machine.exists_of_bind_ok h
      rcases waitAfter_cases hr with ⟨hflag, rfl⟩ | ⟨hflag, hgen, rfl⟩ | ⟨hflag, hgen, hwc, rfl⟩
      · cases h
        exact .refused thread snapshot hflag
      · cases h
        exact .passes thread snapshot hflag hgen
      · cases h
        exact .sleeps thread snapshot hflag hgen hwc
  | spurious thread =>
      cases h
      exact .spurious thread
  | resume thread =>
      cases hx : w.waiters.find? (·.thread = thread) with
      | none =>
          simp only [World.step, hx] at h
          exact absurd h (by simp)
      | some x =>
          simp only [World.step, hx] at h
          obtain ⟨r, hr, h⟩ := Machine.exists_of_bind_ok h
          rcases waitWhile_cases hr with ⟨hgen, hflag, rfl⟩ | ⟨hflag, hwc, rfl⟩ |
            ⟨hgen, hflag, hwc, rfl⟩
          · cases h
            exact .again thread x hx hflag hgen
          · cases h
            exact .interrupted thread x hx hflag hwc
          · cases h
            exact .notified thread x hx hflag hgen hwc
  | notify =>
      cases h
      exact .notify
  | interrupt =>
      cases hflag : w.task.interrupted with
      | false =>
          simp only [World.step, interrupt, hflag] at h
          cases h
          exact .raise hflag
      | true =>
          simp only [World.step, interrupt, hflag] at h
          cases h
          exact .raised hflag

/-! ## The invariant -/

theorem mem_notifyAll {ws : List Waiter} {x : Waiter} (hx : x ∈ notifyAll ws) :
    x.awake = true ∧ ∃ y ∈ ws, x.thread = y.thread ∧ x.snapshot = y.snapshot := by
  obtain ⟨y, hy, rfl⟩ := List.mem_map.mp hx
  exact ⟨rfl, y, hy, rfl, rfl⟩

theorem mem_setAwake {ws : List Waiter} {thread : Nat} {awake : Bool} {x : Waiter}
    (hx : x ∈ setAwake ws thread awake) :
    x ∈ ws ∨ ∃ y ∈ ws, y.thread = thread ∧ x = { y with awake := awake } := by
  obtain ⟨y, hy, rfl⟩ := List.mem_map.mp hx
  split
  · next hthread => exact .inr ⟨y, hy, hthread, rfl⟩
  · exact .inl hy

@[simp] theorem map_thread_notifyAll (ws : List Waiter) :
    (notifyAll ws).map (·.thread) = ws.map (·.thread) := by
  simp [notifyAll]

@[simp] theorem map_thread_setAwake (ws : List Waiter) (thread : Nat) (awake : Bool) :
    (setAwake ws thread awake).map (·.thread) = ws.map (·.thread) := by
  rw [setAwake, List.map_map]
  refine List.map_congr_left fun x _ ↦ ?_
  simp only [Function.comp]
  split
  · rfl
  · rfl

@[simp] theorem length_notifyAll (ws : List Waiter) : (notifyAll ws).length = ws.length := by
  simp [notifyAll]

@[simp] theorem length_setAwake (ws : List Waiter) (thread : Nat) (awake : Bool) :
    (setAwake ws thread awake).length = ws.length := by
  simp [setAwake]

/-- A thread that was found is one of the waiters. -/
theorem mem_of_find {ws : List Waiter} {thread : Nat} {x : Waiter}
    (hx : ws.find? (·.thread = thread) = some x) : x ∈ ws ∧ x.thread = thread :=
  ⟨List.mem_of_find?_eq_some hx, by simpa using List.find?_some hx⟩

/-- A snapshot is of the generation that the task had when it was taken. -/
def Snapshot.Right (n : Nat) (s : Snapshot) : Prop :=
  s.generation = BitVec.ofNat 64 s.taken ∧ s.taken ≤ n

/-- What holds of a task and its threads. -/
structure Inv (w : World) : Prop where
  wc : w.task.wc.toNat = w.waiters.length
  threads : (w.waiters.map (·.thread)).Nodup
  generation : w.task.generation = BitVec.ofNat 64 w.notifies
  bound : w.notifies < 2 ^ 64
  snapshots : ∀ s ∈ w.snapshots, s.Right w.notifies
  waiting : ∀ x ∈ w.waiters, x.snapshot.Right w.notifies
  asleep : ∀ x ∈ w.waiters, x.awake = false →
    x.snapshot.taken = w.notifies ∧ w.task.interrupted = false

namespace Inv

variable {w : World}

/-- The generation tells the snapshots apart. -/
theorem generation_eq_iff (h : Inv w) {s : Snapshot} (hs : s.Right w.notifies) :
    w.task.generation = s.generation ↔ s.taken = w.notifies := by
  have hbound := h.bound
  have hle := hs.2
  rw [h.generation, hs.1]
  constructor
  · intro heq
    have := congrArg BitVec.toNat heq
    rw [BitVec.toNat_ofNat, BitVec.toNat_ofNat, Nat.mod_eq_of_lt hbound,
      Nat.mod_eq_of_lt (Nat.lt_of_le_of_lt hle hbound)] at this
    exact this.symm
  · intro heq
    rw [heq]

/-- The last one to leave finds the count at zero. -/
theorem wc_sub (h : Inv w) {thread : Nat} {x : Waiter}
    (hx : w.waiters.find? (·.thread = thread) = some x) :
    (w.task.wc - 1).toNat = (w.waiters.eraseP (·.thread = thread)).length := by
  obtain ⟨hmem, hthread⟩ := mem_of_find hx
  have hpos := List.length_pos_of_mem hmem
  have hwc := h.wc
  have hone : (1 : U32) ≤ w.task.wc := by
    rw [BitVec.le_def, hwc]
    exact hpos
  rw [List.length_eraseP_of_mem hmem (by simpa using hthread), BitVec.toNat_sub_of_le hone, hwc]
  rfl

/-- A thread leaves, and the flag goes down after the last one. -/
theorem leave (h : Inv w) {thread : Nat} {x : Waiter}
    (hx : w.waiters.find? (·.thread = thread) = some x) {task : TaskState} (result : WaitResult)
    (hwc : task.wc = w.task.wc - 1) (hgen : task.generation = w.task.generation)
    (hflag : task.interrupted = true → w.task.interrupted = true) :
    Inv (w.leave task thread result) where
  wc := (congrArg BitVec.toNat hwc).trans (h.wc_sub hx)
  threads := h.threads.sublist (List.eraseP_sublist.map _)
  generation := hgen.trans h.generation
  bound := h.bound
  snapshots := h.snapshots
  waiting y hy := h.waiting y (List.mem_of_mem_eraseP hy)
  asleep y hy hasleep := by
    obtain ⟨htaken, hdown⟩ := h.asleep y (List.mem_of_mem_eraseP hy) hasleep
    refine ⟨htaken, ?_⟩
    change task.interrupted = false
    rw [← Bool.not_eq_true] at hdown ⊢
    exact mt hflag hdown

end Inv

theorem lower_wc (s : TaskState) : s.lower.wc = s.wc := by
  unfold TaskState.lower
  split
  · rfl
  · rfl

theorem lower_generation (s : TaskState) : s.lower.generation = s.generation := by
  unfold TaskState.lower
  split
  · rfl
  · rfl

theorem lower_interrupted (s : TaskState) :
    s.lower.interrupted = true ↔ s.interrupted = true ∧ s.wc ≠ 0 := by
  unfold TaskState.lower
  split
  · next hwc => simp [hwc]
  · next hwc => exact ⟨fun hflag ↦ ⟨hflag, hwc⟩, And.left⟩

theorem Inv.init : Inv {} where
  wc := rfl
  threads := List.nodup_nil
  generation := rfl
  bound := by decide
  snapshots _ hs := absurd hs List.not_mem_nil
  waiting _ hx := absurd hx List.not_mem_nil
  asleep _ hx := absurd hx List.not_mem_nil

/-- A right snapshot stays so. -/
theorem Snapshot.Right.mono {s : Snapshot} {n m : Nat} (h : s.Right n) (hnm : n ≤ m) :
    s.Right m :=
  ⟨h.1, Nat.le_trans h.2 hnm⟩

/-- **One step keeps the invariant.** -/
theorem Inv.move {w w' : World} {act : Act} (h : Inv w) (hallows : w.allows act)
    (hmove : Move w act w') : Inv w' := by
  cases hmove with
  | snapshot =>
      refine { h with snapshots := fun s hs ↦ ?_ }
      rcases List.mem_cons.mp hs with rfl | hs
      · exact ⟨h.generation, Nat.le_refl _⟩
      · exact h.snapshots s hs
  | refused thread snapshot hflag =>
      refine { h with
        wc := by rw [lower_wc]; exact h.wc
        generation := by rw [lower_generation]; exact h.generation
        asleep := fun x hx hasleep ↦ ?_ }
      -- No waiter sleeps while the flag is set.
      exact absurd ((h.asleep x hx hasleep).2.symm.trans hflag) (by simp)
  | passes thread snapshot hflag hgen => exact { h with }
  | sleeps thread snapshot hflag hgen hwc =>
      obtain ⟨hsnapshot, hnew⟩ := hallows
      have hright := h.snapshots snapshot hsnapshot
      refine { h with wc := ?_, threads := ?_, waiting := fun x hx ↦ ?_, asleep := fun x hx ha ↦ ?_ }
      · have hone : (1 : U32).toNat = 1 := rfl
        rw [BitVec.toNat_add_of_lt (by rw [hone]; exact hwc), hone, h.wc, List.length_append]
        rfl
      · rw [List.map_append, List.map_singleton, List.nodup_append]
        refine ⟨h.threads, List.nodup_singleton _, fun a ha b hb hab ↦ ?_⟩
        obtain ⟨x, hx, rfl⟩ := List.mem_map.mp ha
        exact hnew x hx (hab.trans (List.mem_singleton.mp hb))
      · rcases List.mem_append.mp hx with hx | hx
        · exact h.waiting x hx
        · rw [List.mem_singleton.mp hx]
          exact hright
      · rcases List.mem_append.mp hx with hx | hx
        · exact h.asleep x hx ha
        · rw [List.mem_singleton.mp hx]
          exact ⟨(h.generation_eq_iff hright).mp hgen, hflag⟩
  | spurious thread =>
      refine { h with wc := by simpa using h.wc, threads := by simpa using h.threads,
                      waiting := fun x hx ↦ ?_, asleep := fun x hx ha ↦ ?_ }
      · rcases mem_setAwake hx with hx | ⟨y, hy, -, rfl⟩
        · exact h.waiting x hx
        · exact h.waiting y hy
      · rcases mem_setAwake hx with hx | ⟨y, hy, -, rfl⟩
        · exact h.asleep x hx ha
        · exact absurd ha (by simp)
  | again thread x hx hflag hgen =>
      obtain ⟨hmem, hthread⟩ := mem_of_find hx
      refine { h with wc := by simpa using h.wc, threads := by simpa using h.threads,
                      waiting := fun y hy ↦ ?_, asleep := fun y hy ha ↦ ?_ }
      · rcases mem_setAwake hy with hy | ⟨z, hz, -, rfl⟩
        · exact h.waiting y hy
        · exact h.waiting z hz
      · rcases mem_setAwake hy with hy | ⟨z, hz, hzt, rfl⟩
        · exact h.asleep y hy ha
        · -- It is the thread that was found, and its snapshot is of this generation.
          obtain rfl : z = x := List.inj_on_of_nodup_map h.threads hz hmem (hzt.trans hthread.symm)
          exact ⟨(h.generation_eq_iff (h.waiting z hz)).mp hgen, hflag⟩
  | interrupted thread x hx hflag hwc =>
      refine h.leave hx .interrupted (lower_wc _) (lower_generation _) fun _ ↦ hflag
  | notified thread x hx hflag hgen hwc => exact h.leave hx .notified rfl rfl id
  | notify =>
      refine ⟨by simpa [Task.notify] using h.wc, by simpa using h.threads, ?_, hallows, ?_, ?_, ?_⟩
      · change w.task.generation + 1 = BitVec.ofNat 64 (w.notifies + 1)
        rw [h.generation, BitVec.ofNat_add]
        rfl
      · exact fun s hs ↦ (h.snapshots s hs).mono (Nat.le_succ _)
      · intro x hx
        obtain ⟨-, y, hy, -, hsnapshot⟩ := mem_notifyAll hx
        rw [hsnapshot]
        exact (h.waiting y hy).mono (Nat.le_succ _)
      · intro x hx ha
        exact absurd (ha.symm.trans (mem_notifyAll hx).1) (by simp)
  | raise hflag =>
      refine { h with wc := by simpa using h.wc, threads := by simpa using h.threads,
                      waiting := fun x hx ↦ ?_, asleep := fun x hx ha ↦ ?_ }
      · obtain ⟨-, y, hy, -, hsnapshot⟩ := mem_notifyAll hx
        rw [hsnapshot]
        exact h.waiting y hy
      · exact absurd (ha.symm.trans (mem_notifyAll hx).1) (by simp)
  | raised hflag => exact h

theorem Reachable.inv {w : World} (h : Reachable w) : Inv w := by
  refine Machine.Reach.invariant Inv ?_ ?_ h
  · rintro _ rfl
    exact .init
  · exact fun w act w' ih hstep ↦ ih.move hstep.1 (step_move hstep.2)

/-! ## The flag -/

/-- While a thread waits the count is not zero. -/
theorem Inv.wc_ne_zero {w : World} (h : Inv w) {x : Waiter} (hx : x ∈ w.waiters) :
    w.task.wc ≠ 0 := by
  intro hzero
  have hpos := List.length_pos_of_mem hx
  rw [← h.wc, hzero] at hpos
  exact absurd hpos (by decide)

/-- **The flag goes down** only when no thread waits. -/
theorem Move.flag_down {w w' : World} {act : Act} (hmove : Move w act w') (h : Inv w)
    (hup : w.task.interrupted = true) (hdown : w'.task.interrupted = false) : w'.waiters = [] := by
  have hstays : ∀ {P : Prop}, w.task.interrupted = false → P := fun hflag ↦
    absurd (hflag.symm.trans hup) (by simp)
  rw [← Bool.not_eq_true] at hdown
  cases hmove with
  | snapshot | spurious | notify | raised => exact absurd hup hdown
  | passes | sleeps | again | notified | raise => exact hstays (by assumption)
  | refused thread snapshot hflag =>
      have hzero : w.task.wc = 0 := by
        by_contra hwc
        exact hdown ((lower_interrupted _).mpr ⟨hup, hwc⟩)
      rw [← List.length_eq_zero_iff, ← h.wc, hzero]
      rfl
  | interrupted thread x hx hflag hwc =>
      have hzero : w.task.wc - 1 = 0 := by
        by_contra hwc'
        exact hdown ((lower_interrupted _).mpr ⟨hup, hwc'⟩)
      rw [← List.length_eq_zero_iff]
      exact (h.wc_sub hx).symm.trans (by rw [hzero]; rfl)

/-- A thread waits while the flag is set, and has not returned since `start`. -/
structure Hit (start w : World) (thread : Nat) : Prop where
  flag : w.task.interrupted = true
  waits : ∃ x ∈ w.waiters, x.thread = thread
  since : ∃ more, w.returned = start.returned ++ more ∧ ∀ r ∈ more, r.1 ≠ thread

/-- The call of a thread that was blocked at `start` has returned `Interrupted`. -/
def Left (start w : World) (thread : Nat) : Prop :=
  ∃ before after, w.returned = start.returned ++ before ++ (thread, .interrupted) :: after ∧
    ∀ r ∈ before, r.1 ≠ thread

/-- What has returned stays so. -/
theorem Move.returned {w w' : World} {act : Act} (hmove : Move w act w') :
    ∃ more, w'.returned = w.returned ++ more := by
  cases hmove with
  | snapshot | sleeps | spurious | again | notify | raise | raised =>
      exact ⟨[], (List.append_nil _).symm⟩
  | refused | passes | interrupted | notified => exact ⟨_, rfl⟩

theorem Left.move {start w w' : World} {thread : Nat} {act : Act} (h : Left start w thread)
    (hmove : Move w act w') : Left start w' thread := by
  obtain ⟨before, after, heq, hbefore⟩ := h
  obtain ⟨more, hmore⟩ := hmove.returned
  refine ⟨before, after ++ more, ?_, hbefore⟩
  rw [hmore, heq, List.append_assoc, List.cons_append]

/-- **One step** of a thread that was interrupted: it goes on to wait with the flag set, or
returns `Interrupted`. -/
theorem Hit.move {start w w' : World} {thread : Nat} {act : Act} (h : Hit start w thread)
    (hinv : Inv w) (hallows : w.allows act) (hmove : Move w act w') :
    Hit start w' thread ∨ Left start w' thread := by
  obtain ⟨hflag, ⟨x, hx, hthread⟩, more, hmore, hothers⟩ := h
  have hno : ∀ {P : Prop}, w.task.interrupted = false → P := fun hdown ↦
    absurd (hdown.symm.trans hflag) (by simp)
  -- Waiters that are changed keep their threads.
  have hkeep : ∀ ws : List Waiter, ws.map (·.thread) = w.waiters.map (·.thread) →
      ∃ y ∈ ws, y.thread = thread := fun ws hws ↦ by
    have hmem : thread ∈ ws.map (·.thread) := hws ▸ List.mem_map.mpr ⟨x, hx, hthread⟩
    exact List.mem_map.mp hmem
  have hreturn : ∀ t result, t ≠ thread → ∃ more', w.returned ++ [(t, result)] =
      start.returned ++ more' ∧ ∀ r ∈ more', r.1 ≠ thread := fun t result ht ↦ by
    refine ⟨more ++ [(t, result)], by rw [hmore, List.append_assoc], fun r hr ↦ ?_⟩
    rcases List.mem_append.mp hr with hr | hr
    · exact hothers r hr
    · rw [List.mem_singleton.mp hr]
      exact ht
  cases hmove with
  | passes | sleeps | again | notified | raise => exact hno (by assumption)
  | snapshot | raised => exact .inl ⟨hflag, ⟨x, hx, hthread⟩, more, hmore, hothers⟩
  | spurious t =>
      exact .inl ⟨hflag, hkeep _ (map_thread_setAwake _ _ _), more, hmore, hothers⟩
  | notify => exact .inl ⟨hflag, hkeep _ (map_thread_notifyAll _), more, hmore, hothers⟩
  | refused t snapshot =>
      have ht : t ≠ thread := fun heq ↦ hallows.2 x hx (hthread.trans heq.symm)
      exact .inl ⟨(lower_interrupted _).mpr ⟨hflag, hinv.wc_ne_zero hx⟩, ⟨x, hx, hthread⟩,
        hreturn t .interrupted ht⟩
  | interrupted t y hy hup hwc =>
      by_cases ht : t = thread
      · subst ht
        refine .inr ⟨more, [], ?_, hothers⟩
        rw [World.leave, hmore]
      · have hx' : x ∈ w.waiters.eraseP (·.thread = t) := by
          refine (List.mem_eraseP_of_neg ?_).mpr hx
          simpa [hthread] using Ne.symm ht
        refine .inl ⟨(lower_interrupted _).mpr ⟨hflag, ?_⟩, ⟨x, hx', hthread⟩,
          hreturn t .interrupted ht⟩
        have hleave : Inv (w.leave { w.task with wc := w.task.wc - 1 } t .interrupted) :=
          hinv.leave hy .interrupted rfl rfl id
        exact hleave.wc_ne_zero hx'

/-- A thread that waits while the flag is set is awake, and its next step returns
`Interrupted`. -/
theorem Inv.resume {w : World} (h : Inv w) (hflag : w.task.interrupted = true) {x : Waiter}
    (hx : x ∈ w.waiters) :
    x.awake = true ∧ ∃ w', w.step (.resume x.thread) = .ok w' ∧
      w'.returned = w.returned ++ [(x.thread, .interrupted)] := by
  constructor
  · by_contra hasleep
    rw [Bool.not_eq_true] at hasleep
    exact absurd ((h.asleep x hx hasleep).2.symm.trans hflag) (by simp)
  · obtain ⟨y, hy⟩ : ∃ y, w.waiters.find? (·.thread = x.thread) = some y := by
      rw [← Option.isSome_iff_exists, List.find?_isSome]
      exact ⟨x, hx, by simp⟩
    have hone : (1 : U32) ≤ w.task.wc := by
      rw [BitVec.le_def, h.wc]
      exact List.length_pos_of_mem hx
    have hwait : waitWhile w.task y.snapshot.generation =
        .ok ({ w.task with wc := w.task.wc - 1 }.lower, some .interrupted) := by
      unfold waitWhile wsub
      rw [if_neg (by simp [hflag]), if_pos hone]
      simp only [bind, Except.bind, hflag, if_true]
      rfl
    refine ⟨w.leave { w.task with wc := w.task.wc - 1 }.lower x.thread .interrupted, ?_, rfl⟩
    simp only [World.step, hy, hwait, bind, Except.bind]
    rfl

/-- A thread that was blocked at `start`, when the task was interrupted: it is awake and its
next step returns `Interrupted`, or it has returned `Interrupted`. -/
def ReturnsInterrupted (start w : World) (thread : Nat) : Prop :=
  (∃ x ∈ w.waiters, x.thread = thread ∧ x.awake = true ∧
    ∃ w', w.step (.resume thread) = .ok w' ∧
      w'.returned = w.returned ++ [(thread, .interrupted)]) ∨
  Left start w thread

/-- **Every run after an interrupt.** -/
theorem ReachesFrom.returnsInterrupted {w start w' : World} (h : Inv w)
    (hstart : w.step .interrupt = .ok start) {x : Waiter} (hx : x ∈ w.waiters)
    (hrun : ReachesFrom start w') : ReturnsInterrupted start w' x.thread := by
  have hallows : w.allows .interrupt := trivial
  have hinv : Inv start := h.move hallows (step_move hstart)
  have hhit : Hit start start x.thread := by
    have hmore : ∃ more : List (Nat × WaitResult), start.returned = start.returned ++ more ∧
        ∀ r ∈ more, r.1 ≠ x.thread := ⟨[], (List.append_nil _).symm, by simp⟩
    cases step_move hstart with
    | raise hflag =>
        have hmem : x.thread ∈ (notifyAll w.waiters).map (·.thread) := by
          rw [map_thread_notifyAll]
          exact List.mem_map.mpr ⟨x, hx, rfl⟩
        exact ⟨rfl, List.mem_map.mp hmem, hmore⟩
    | raised hflag => exact ⟨hflag, ⟨x, hx, rfl⟩, hmore⟩
  have hrun : Inv w' ∧ (Hit start w' x.thread ∨ Left start w' x.thread) := by
    refine Machine.Reach.invariant
      (fun w' ↦ Inv w' ∧ (Hit start w' x.thread ∨ Left start w' x.thread)) ?_ ?_ hrun
    · rintro _ rfl
      exact ⟨hinv, .inl hhit⟩
    · rintro u act u' ⟨hu, hcase⟩ ⟨hallows, hstep⟩
      refine ⟨hu.move hallows (step_move hstep), ?_⟩
      rcases hcase with hhit | hleft
      · exact hhit.move hu hallows (step_move hstep)
      · exact .inr (hleft.move (step_move hstep))
  rcases hrun with ⟨hinv', hhit | hleft⟩
  · obtain ⟨y, hy, hthread⟩ := hhit.waits
    obtain ⟨hawake, hreturns⟩ := hinv'.resume hhit.flag hy
    exact .inl ⟨y, hy, hthread, hawake, hthread ▸ hreturns⟩
  · exact .inr hleft

/-- **The protocol of a task**: in every reachable state `wc` counts the threads blocked in
`wait_after`; a thread whose snapshot is older than the generation, or that is blocked while
the flag is set, is awake; every thread blocked at an interrupt returns `Interrupted`; and the
flag goes down only when no thread is blocked. -/
theorem wait_protocol {w : World} (h : Reachable w) :
    (w.task.wc.toNat = w.waiters.length ∧ (w.waiters.map (·.thread)).Nodup) ∧
    (∀ x ∈ w.waiters, x.snapshot.taken < w.notifies ∨
      x.snapshot.generation ≠ w.task.generation ∨ w.task.interrupted = true → x.awake = true) ∧
    (∀ start, w.step .interrupt = .ok start → ∀ x ∈ w.waiters, ∀ w', ReachesFrom start w' →
      ReturnsInterrupted start w' x.thread) ∧
    ∀ act w', w.allows act → w.step act = .ok w' → w.task.interrupted = true →
      w'.task.interrupted = false → w'.waiters = [] := by
  have hinv := h.inv
  refine ⟨⟨hinv.wc, hinv.threads⟩, fun x hx hold ↦ ?_, fun start hstart x hx w' hrun ↦ ?_,
    fun act w' _ hstep hup hdown ↦ ?_⟩
  · by_contra hasleep
    rw [Bool.not_eq_true] at hasleep
    obtain ⟨htaken, hflag⟩ := hinv.asleep x hx hasleep
    rcases hold with hlt | hgen | hup
    · exact absurd hlt (by rw [htaken]; exact Nat.lt_irrefl _)
    · exact hgen ((hinv.generation_eq_iff (hinv.waiting x hx)).mpr htaken).symm
    · exact absurd (hflag.symm.trans hup) (by simp)
  · exact hrun.returnsInterrupted hinv hstart hx
  · exact (step_move hstep).flag_down hinv hup hdown

instance (w : World) (act : Act) : Decidable (w.allows act) :=
  match act with
  | .waitAfter thread snapshot =>
      inferInstanceAs (Decidable (snapshot ∈ w.snapshots ∧ ∀ x ∈ w.waiters, x.thread ≠ thread))
  | .resume thread =>
      inferInstanceAs (Decidable (∃ x ∈ w.waiters, x.thread = thread ∧ x.awake = true))
  | .notify => inferInstanceAs (Decidable (w.notifies + 1 < 2 ^ 64))
  | .snapshot | .spurious _ | .interrupt => inferInstanceAs (Decidable True)

/-- A fixed run that may be made ends in a reachable world. -/
theorem exists_reachable (P : World → Bool) (acts : List Act)
    (h : Machine.execTest (fun (w : World) act ↦
      if w.allows act then w.step act else .error .unwrap) P {} acts = true) :
    ∃ w, Reachable w ∧ P w = true := by
  refine Machine.exists_reach_of_execTest ?_ rfl h
  intro w act w' hstep
  split at hstep
  · next hallows => exact ⟨hallows, hstep⟩
  · exact absurd hstep (by simp)

/-- Two threads wait, one of them wakes up for no reason, and the other one returns after an
interrupt. -/
theorem wait_protocol_two : ∃ w, Reachable w ∧ w.task.interrupted = true ∧
    w.returned = [(1, .interrupted)] ∧ w.task.wc.toNat = w.waiters.length ∧
    ∀ x ∈ w.waiters, x.awake = true := by
  obtain ⟨w, hw, htest⟩ := exists_reachable
    (fun w ↦ w.task.interrupted && w.returned = [(1, .interrupted)])
    [.snapshot, .waitAfter 0 ⟨0, 0⟩, .waitAfter 1 ⟨0, 0⟩, .spurious 0, .resume 0, .interrupt,
      .resume 1] (by decide +kernel)
  simp only [Bool.and_eq_true, decide_eq_true_eq] at htest
  obtain ⟨⟨hwc, -⟩, hawake, -⟩ := wait_protocol hw
  exact ⟨w, hw, htest.1, htest.2, hwc, fun x hx ↦ hawake x hx (.inr (.inr htest.1))⟩

end Microps.Task
