import Mathlib.Logic.Function.Basic
import Microps.Lib.Machine

/-!
# Parties and a network

Any number of parties run one machine each and exchange messages over a network that may lose,
duplicate, delay and reorder them, but neither alters nor invents any: what a party hears is
something that a party has sent at some time.

Two rules cover the invariants of such a system.  `Reaches.honest` is for what the parties say:
if a party that has heard nothing but sound messages sends nothing but sound ones, then every
message is sound.  `Reaches.informed` is for what the parties know: a party may rely on the
messages that it has heard being in the network, from which nothing is ever removed.
`Reaches.origin` gives the step that has sent a message, and `Reaches.arises` the one at which
something has become true of a party.  `Leads` says that one world may become
another; `Leads.exec` lets a party run several events in a row.
-/

universe u

namespace Network

/-- What the parties do. -/
structure Protocol (ι σ ε μ κ : Type u) where
  /-- The message that an event hears. -/
  hears : ε → Option μ
  /-- Run an event at a party: its next state, and what it sends. -/
  act : ι → σ → ε → Except κ (σ × List μ)

/-- The parties, and what has been sent. -/
structure World (ι σ μ : Type u) where
  party : ι → σ
  net : List μ := []

variable {ι σ ε μ κ : Type u} [DecidableEq ι] (P : Protocol ι σ ε μ κ)

/-- The world after a party has moved to a state and sent messages. -/
def World.after (w : World ι σ μ) (i : ι) (out : σ × List μ) : World ι σ μ where
  party := Function.update w.party i out.1
  net := w.net ++ out.2

@[simp] theorem World.net_after (w : World ι σ μ) (i : ι) (out : σ × List μ) :
    (w.after i out).net = w.net ++ out.2 :=
  rfl

@[simp] theorem World.party_after_self (w : World ι σ μ) (i : ι) (out : σ × List μ) :
    (w.after i out).party i = out.1 := by
  simp only [after, Function.update_self]

theorem World.party_after_ne (w : World ι σ μ) {i j : ι} (h : j ≠ i) (out : σ × List μ) :
    (w.after i out).party j = w.party j := by
  simp only [after, Function.update_of_ne h]

/-- What an event hears is in the network. -/
def World.Hears (w : World ι σ μ) (e : ε) : Prop := ∀ m, P.hears e = some m → m ∈ w.net

/-- A party runs an event. -/
def World.Acts (w : World ι σ μ) (label : ι × ε) (w' : World ι σ μ) : Prop :=
  w.Hears P label.2 ∧
    ∃ out, P.act label.1 (w.party label.1) label.2 = .ok out ∧ w' = w.after label.1 out

/-- One world may become another. -/
def Leads : World ι σ μ → World ι σ μ → Prop := Machine.Leads (World.Acts P)

/-- Run events in a row, with all that they send. -/
def exec (act : σ → ε → Except κ (σ × List μ)) : σ → List ε → Except κ (σ × List μ)
  | s, [] => .ok (s, [])
  | s, e :: es => do
      let out ← act s e
      let rest ← exec act out.1 es
      return (rest.1, out.2 ++ rest.2)

/-- The worlds that are reached from parties that meet `Init`, with nothing sent. -/
def Reaches (Init : (ι → σ) → Prop) : World ι σ μ → Prop :=
  Machine.Reach (fun w ↦ Init w.party ∧ w.net = []) (World.Acts P)

variable {P} {Init : (ι → σ) → Prop} {w : World ι σ μ}

theorem World.after_after (w : World ι σ μ) (i : ι) (out out' : σ × List μ) :
    (w.after i out).after i out' = w.after i (out'.1, out.2 ++ out'.2) := by
  simp only [after, Function.update_idem, List.append_assoc]

theorem World.Hears.after {e : ε} (h : w.Hears P e) (i : ι) (out : σ × List μ) :
    (w.after i out).Hears P e :=
  fun m hm ↦ List.mem_append_left _ (h m hm)

theorem Leads.act {i : ι} {e : ε} {out : σ × List μ} (hhears : w.Hears P e)
    (hact : P.act i (w.party i) e = .ok out) : Leads P w (w.after i out) :=
  Machine.Leads.step (e := (i, e)) ⟨hhears, out, hact, rfl⟩

/-- A party may run several events in a row, if it can hear what they hear beforehand. -/
theorem Leads.exec {i : ι} {es : List ε} {out : σ × List μ} (hhears : ∀ e ∈ es, w.Hears P e)
    (hexec : exec (P.act i) (w.party i) es = .ok out) : Leads P w (w.after i out) := by
  induction es generalizing w out with
  | nil =>
      obtain rfl := Except.ok.inj hexec
      have hsame : w.after i (w.party i, []) = w := by
        simp only [World.after, Function.update_eq_self, List.append_nil]
      rw [hsame]
      exact Machine.Leads.refl
  | cons e es ih =>
      obtain ⟨out₁, hact, hexec⟩ := Machine.exists_of_bind_ok hexec
      obtain ⟨out₂, hrest, hout⟩ := Machine.exists_of_bind_ok hexec
      obtain rfl := Except.ok.inj hout
      have hfirst : Leads P w (w.after i out₁) := Leads.act (hhears e List.mem_cons_self) hact
      have hsecond : Leads P (w.after i out₁) ((w.after i out₁).after i out₂) :=
        ih (fun e' he' ↦ (hhears e' (List.mem_cons_of_mem e he')).after i out₁)
          (by rwa [World.party_after_self])
      rw [World.after_after] at hsecond
      exact hfirst.trans hsecond

/-- **What the parties know**: a property of every party that a larger network does not spoil, and
that every event keeps. -/
theorem Reaches.informed (Good : List μ → ι → σ → Prop)
    (hinit : ∀ party, Init party → ∀ i, Good [] i (party i))
    (hmono : ∀ net out i s, Good net i s → Good (net ++ out) i s)
    (hact : ∀ net i s e out, Good net i s → (∀ m, P.hears e = some m → m ∈ net) →
      P.act i s e = .ok out → Good (net ++ out.2) i out.1)
    (h : Reaches P Init w) (i : ι) : Good w.net i (w.party i) := by
  revert i
  refine Machine.Reach.invariant (fun w ↦ ∀ i, Good w.net i (w.party i)) ?_ ?_ h
  · rintro w ⟨hparty, hnet⟩ i
    exact hnet ▸ hinit w.party hparty i
  · rintro w ⟨j, e⟩ _ ih ⟨hhears, out, hout, rfl⟩ i
    by_cases hij : i = j
    · subst hij
      rw [World.party_after_self]
      exact hact w.net i (w.party i) e out (ih i) hhears hout
    · rw [World.party_after_ne w hij]
      exact hmono w.net out.2 i (w.party i) (ih i)

/-- **What the parties say**: every party stays good and every message is sound, if no party
becomes bad or unsound by sound messages. -/
theorem Reaches.honest {Good : ι → σ → Prop} {Sound : μ → Prop}
    (hinit : ∀ party, Init party → ∀ i, Good i (party i))
    (hact : ∀ i s e out, Good i s → (∀ m, P.hears e = some m → Sound m) →
      P.act i s e = .ok out → Good i out.1 ∧ ∀ m ∈ out.2, Sound m)
    (h : Reaches P Init w) : (∀ i, Good i (w.party i)) ∧ ∀ m ∈ w.net, Sound m := by
  refine Machine.Reach.invariant
    (fun w ↦ (∀ i, Good i (w.party i)) ∧ ∀ m ∈ w.net, Sound m) ?_ ?_ h
  · rintro w ⟨hparty, hnet⟩
    exact ⟨hinit w.party hparty, by simp [hnet]⟩
  · rintro w ⟨j, e⟩ _ ⟨hgood, hsound⟩ ⟨hhears, out, hout, rfl⟩
    obtain ⟨hgood', hsound'⟩ := hact j (w.party j) e out (hgood j)
      (fun m hm ↦ hsound m (hhears m hm)) hout
    refine ⟨fun i ↦ ?_, fun m hm ↦ ?_⟩
    · by_cases hij : i = j
      · subst hij
        rw [World.party_after_self]
        exact hgood'
      · rw [World.party_after_ne w hij]
        exact hgood i
    · rcases List.mem_append.mp hm with hm | hm
      · exact hsound m hm
      · exact hsound' m hm

/-- **Nothing is invented**: a message was sent by a step of some party, earlier in the run. -/
theorem Reaches.origin (h : Reaches P Init w) {m : μ} (hm : m ∈ w.net) :
    ∃ w₀ i e out, Reaches P Init w₀ ∧ w₀.Hears P e ∧ P.act i (w₀.party i) e = .ok out ∧
      Leads P (w₀.after i out) w ∧ m ∈ out.2 := by
  induction h with
  | start hs =>
      rw [hs.2] at hm
      exact absurd hm (by simp)
  | @next w₀ label _ hreach hstep ih =>
      obtain ⟨hhears, out, hout, rfl⟩ := hstep
      rcases List.mem_append.mp hm with hold | hnew
      · obtain ⟨w₁, i, e, out₁, hreach₁, hhears₁, hout₁, hleads, hmem⟩ := ih hold
        exact ⟨w₁, i, e, out₁, hreach₁, hhears₁, hout₁,
          hleads.trans (Leads.act hhears hout), hmem⟩
      · exact ⟨w₀, label.1, label.2, out, hreach, hhears, hout, Machine.Leads.refl, hnew⟩

/-- **Nothing is there from nowhere**: what is true of a party, but of none that has just started,
became true at some step of that party. -/
theorem Reaches.arises {Q : σ → Prop} {i : ι} (hinit : ∀ party, Init party → ¬ Q (party i))
    (h : Reaches P Init w) (hq : Q (w.party i)) :
    ∃ w₀ e out, Reaches P Init w₀ ∧ w₀.Hears P e ∧ P.act i (w₀.party i) e = .ok out ∧
      ¬ Q (w₀.party i) ∧ Q out.1 ∧ Leads P (w₀.after i out) w := by
  induction h with
  | start hs => exact absurd hq (hinit _ hs.1)
  | @next w₀ label _ hreach hstep ih =>
      obtain ⟨j, e⟩ := label
      obtain ⟨hhears, out, hout, rfl⟩ := hstep
      have hlast : Leads P w₀ (w₀.after j out) := Leads.act hhears hout
      by_cases hold : Q (w₀.party i)
      · obtain ⟨w₁, e₁, out₁, hreach₁, hhears₁, hout₁, hbefore, hafter, hleads⟩ := ih hold
        exact ⟨w₁, e₁, out₁, hreach₁, hhears₁, hout₁, hbefore, hafter, hleads.trans hlast⟩
      · by_cases hij : i = j
        · subst hij
          rw [World.party_after_self] at hq
          exact ⟨w₀, e, out, hreach, hhears, hout, hold, hq, Machine.Leads.refl⟩
        · rw [World.party_after_ne w₀ hij] at hq
          exact absurd hq hold

end Network
