import Microps.Tcp.Transfer

/-!
# Partial transfers

What `send` says about the octets it has queued when it cannot go on.  A wait that is
interrupted reports them with `Ok`; a round that finds no block, or a block that no longer
sends, returns `Err` and does not look at what the rounds before it have queued.
-/

namespace Microps.Tcp

/-- The call hides no partial transfer: if it returns `Err`, it has queued nothing. -/
def HidesNothing (s : Sending) : Prop :=
  ∀ interrupted, s.phase = .returned (.error ()) interrupted → s.queued = []

/-- Once octets are queued, each round finds the block in its slot and in a state that
sends. -/
def KeepsSending (d : TcpDesc) (s : Sending) : Prop :=
  ∀ m ∈ s.met, m.2 ≠ 0 → sendable m.1 d = true

/-- What the rounds of a call have found. -/
structure Found (d : TcpDesc) (s : Sending) : Prop where
  le : ∀ m ∈ s.met, m.2 ≤ s.sent
  sendable : s.phase ≠ .returned (.error ()) false → ∀ m ∈ s.met, sendable m.1 d = true
  failed : s.phase = .returned (.error ()) false → ∃ m ∈ s.met, m.2 = s.sent ∧
    Tcp.sendable m.1 d = false
  interrupted : s.phase = .returned (.error ()) true → s.sent = 0

section

variable {env : Env} {d : TcpDesc} {data : List U8} {s s' : Sending}

theorem Found.le_meet (h : Found d s) (phase : Phase) :
    ∀ m ∈ (s.meet phase).met, m.2 ≤ s.sent := by
  intro m hm
  rcases List.mem_append.mp hm with hm | hm
  · exact h.le m hm
  · rw [List.mem_singleton.mp hm]

/-- A round that finds a block that sends, and leaves `sent` where it is. -/
theorem Found.meet (h : Found d s) (hrun : s.phase.running = true) (phase : Phase)
    (hsendable : Tcp.sendable s.tcp d = true)
    (hphase : ∀ interrupted, phase ≠ .returned (.error ()) interrupted) :
    Found d (s.meet phase) := by
  have hold := h.sendable (Phase.running_returned hrun _ _)
  refine ⟨h.le_meet phase, ?_, fun h' ↦ absurd h' (hphase false),
    fun h' ↦ absurd h' (hphase true)⟩
  intro _ m hm
  rcases List.mem_append.mp hm with hm | hm
  · exact hold m hm
  · rw [List.mem_singleton.mp hm]
    exact hsendable

theorem Found.round (h : Found d s) (hrun : s.phase.running = true) :
    Found d (s.round env d data) := by
  rcases s.round_cases env d data with ⟨hnot, heq⟩ | ⟨p, hp, hstate, hcases⟩
  · rw [heq]
    refine ⟨h.le_meet _, fun h' ↦ absurd rfl h', fun _ ↦ ?_, by simp [Sending.meet]⟩
    exact ⟨(s.tcp, s.sent), by simp [Sending.meet], rfl, hnot⟩
  · have hmeet := fun phase ↦ h.meet hrun phase (sendable_iff.mpr ⟨p, hp, hstate⟩)
    rcases hcases with ⟨-, heq⟩ | heq | ⟨n, -, -, heq⟩
    · rw [heq]
      exact hmeet _ (by simp)
    · rw [heq]
      exact hmeet _ (by simp)
    · rw [heq]
      obtain ⟨hle, hsendable, -, -⟩ := hmeet .between (by simp)
      refine ⟨fun m hm ↦ (hle m hm).trans (Nat.le_add_right _ _), hsendable, ?_, ?_⟩
      · simp [Sending.meet]
      · simp [Sending.meet]

theorem Found.next {label : SendLabel} (h : Found d s) (hnext : s.next d data label = .ok s') :
    Found d s' := by
  rcases Sending.next_cases hnext with rfl | ⟨hrun, env, rfl⟩ | ⟨hrun, -, env, ev, out, -, -, rfl⟩ |
    ⟨hrun, rfl⟩
  · exact h
  · exact h.round hrun
  · have hhear := Phase.running_returned (Phase.hear_running out.effects hrun)
    exact ⟨h.le, fun _ ↦ h.sendable (Phase.running_returned hrun _ _),
      fun h' ↦ absurd h' (hhear _ _), fun h' ↦ absurd h' (hhear _ _)⟩
  · refine ⟨h.le, fun _ ↦ h.sendable (Phase.running_returned hrun _ _), by simp, ?_⟩
    intro h'
    by_contra hsent
    simp [hsent] at h'

theorem SendRun.found {G : Env → Tcp → Event → Prop} {tcp₀ : Tcp}
    (h : SendRun G d data tcp₀ s) : Found d s := by
  refine Machine.Reach.invariant (Found d) ?_ (fun _ _ _ hs hnext ↦ hs.next hnext.2) h
  rintro _ rfl
  exact ⟨by simp, by simp, by simp, by simp⟩

end

/-- Whether the call has returned `Err` from a round. -/
def Sending.returnsErr (s : Sending) : Bool :=
  match s.phase with
  | .returned (.error ()) false => true
  | _ => false

theorem Sending.phase_of_returnsErr {s : Sending} (h : s.returnsErr = true) :
    s.phase = .returned (.error ()) false := by
  unfold returnsErr at h
  split at h
  · next hphase => exact hphase
  · exact absurd h (by simp)

/-- **Partial transfers**: whatever runs between the critical sections of a call of `send`,
it hides no partial transfer just when each of its rounds that comes after octets were queued
still finds the block, in ESTABLISHED or CLOSE_WAIT. -/
theorem hidesNothing_iff {d : TcpDesc} {data : List U8} {tcp₀ : Tcp} {s : Sending}
    (h : SendRun (fun _ _ _ ↦ True) d data tcp₀ s) : HidesNothing s ↔ KeepsSending d s := by
  have hqueued := (SendRun.progress h).queued_eq_nil
  have hfound := SendRun.found h
  constructor
  · intro hhides m hm hsent
    by_cases hphase : s.phase = .returned (.error ()) false
    · have hzero := hqueued.mp (hhides false hphase)
      have hle := hfound.le m hm
      omega
    · exact hfound.sendable hphase m hm
  · intro hkeeps interrupted hphase
    rw [hqueued]
    cases interrupted with
    | true => exact hfound.interrupted hphase
    | false =>
        obtain ⟨m, hm, hsent, hnot⟩ := hfound.failed hphase
        by_contra hne
        exact absurd (hkeeps m hm (hsent ▸ hne)) (by simp [hnot])

/-- A wait that is interrupted reports the two octets that were queued. -/
theorem hidesNothing_interrupted :
    ∃ tcp₀, Reachable tcp₀ ∧ ∃ s, SendRun (fun _ _ _ ↦ True) 0 [1, 2, 3] tcp₀ s ∧
      s.phase = .returned (.ok 2) true ∧ HidesNothing s ∧ KeepsSending 0 s := by
  obtain ⟨tcp₀, hreach, htest⟩ := exists_reachableWhen (fun _ _ _ ↦ true) (fun _ _ _ _ ↦ trivial)
    (fun tcp ↦ Machine.execTest (Sending.nextWhen (fun _ _ _ ↦ true) 0 [1, 2, 3])
      (Sending.returnsOk 2 true) { tcp := tcp } [.round calmEnv, .round calmEnv, .interrupt])
    smallWindow (by decide +kernel)
  obtain ⟨s, hrun, htest⟩ := exists_sendRun (fun _ _ _ ↦ true) (fun _ _ _ _ ↦ trivial) htest
  have hphase := Sending.phase_of_returnsOk htest
  have hhides : HidesNothing s := by
    intro interrupted herr
    exact absurd (hphase.symm.trans herr) (by simp)
  exact ⟨tcp₀, hreach, s, hrun, hphase, hhides, (hidesNothing_iff hrun).mp hhides⟩

/-- Two of three octets are queued and the call waits for the window; a reset wakes it up, it
finds no block, and it returns `Err`. -/
theorem partial_transfer_hidden :
    ∃ tcp₀, Reachable tcp₀ ∧ ∃ s, SendRun (fun _ _ _ ↦ True) 0 [1, 2, 3] tcp₀ s ∧
      s.phase = .returned (.error ()) false ∧ payload s.queued = [1, 2] ∧ ¬ HidesNothing s := by
  obtain ⟨tcp₀, hreach, htest⟩ := exists_reachableWhen (fun _ _ _ ↦ true) (fun _ _ _ _ ↦ trivial)
    (fun tcp ↦ Machine.execTest (Sending.nextWhen (fun _ _ _ ↦ true) 0 [1, 2, 3])
      (fun s ↦ s.returnsErr && payload s.queued = [1, 2]) { tcp := tcp }
      [.round calmEnv, .round calmEnv, .other calmEnv (fromPeer 501 103 flgRst []).2,
        .round calmEnv])
    smallWindow (by decide +kernel)
  obtain ⟨s, hrun, htest⟩ := exists_sendRun (fun _ _ _ ↦ true) (fun _ _ _ _ ↦ trivial) htest
  rw [Bool.and_eq_true, decide_eq_true_eq] at htest
  have hphase := Sending.phase_of_returnsErr htest.1
  refine ⟨tcp₀, hreach, s, hrun, hphase, htest.2, fun hhides ↦ ?_⟩
  have hpayload := htest.2
  rw [hhides false hphase] at hpayload
  exact absurd hpayload (by decide)

end Microps.Tcp
