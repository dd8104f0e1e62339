import Microps.Port
import Microps.Tcp.Demux
import Microps.Tcp.Output

/-!
# When `connect` goes ahead

`connect` neither looks at the state of its block nor leaves the block out when it asks
`pcb_select` for a conflict.  The two make up for each other where the block is in its own way
exactly if it is not closed.
-/

namespace Microps.Tcp

/-- A SYN has been passed to `output_segment`. -/
def SendsSyn (out : Outcome) : Prop :=
  ∃ seg, .emit seg ∈ out.effects ∧ flagIsset seg.flg flgSyn = true

/-- A block in another slot matches the two endpoints. -/
def Taken (tcp : Tcp) (d : TcpDesc) (l r : IpEndp) : Prop :=
  ∃ j q, j ≠ d ∧ tcp.get j = some q ∧ selects q l r = true

/-- `connect` on the block `p` in slot `d` goes ahead if it should, also if the block is bound,
and leaves a block alone that is not closed. -/
structure ConnectsRight (env : Env) (tcp : Tcp) (d : TcpDesc) (p : TcpPcb) (r : IpEndp) : Prop where
  syn : SendsSyn (connectCall env tcp d r) ↔ p.state = .closed ∧
    ∃ l, chooseLocal env tcp p.localEndp r = some l ∧ ¬ Taken tcp d l r
  refuses : p.state ≠ .closed → connectCall env tcp d r = { tcp := tcp, reply := .err }

/-- There is a local endpoint for the block `p` at which no other block is in the way: at the
address of the block or, where it has none, that of the interface towards `r`, and at its port
or, where it has none, at some dynamic port. -/
def FreeLocal (env : Env) (tcp : Tcp) (d : TcpDesc) (p : TcpPcb) (r : IpEndp) : Prop :=
  ∃ l : IpEndp, ¬ Taken tcp d l r ∧
    (if p.localEndp.addr = .any then
      ∃ route, routeLookup env.routes r.addr = some route ∧ l.addr = route.iface.unicast
    else l.addr = p.localEndp.addr) ∧
    (if p.localEndp.port = 0 then dynamicPortMin ≤ l.port.toNat else l.port = p.localEndp.port)

/-- A block that is bound to a port, and whose remote endpoint or the other one is the
wildcard, or both are the same. -/
def InOwnWay (p : TcpPcb) (r : IpEndp) : Prop :=
  p.localEndp.port ≠ 0 ∧ (p.remoteEndp = r ∨ p.remoteEndp = .any ∨ r = .any)

section

variable {env : Env} {tcp : Tcp} {d : TcpDesc} {p : TcpPcb} {l r : IpEndp}

theorem localAddr_eq_some_iff {addr : IpAddr} : localAddr env l r = some addr ↔
    if l.addr = .any then
      ∃ route, routeLookup env.routes r.addr = some route ∧ addr = route.iface.unicast
    else addr = l.addr := by
  unfold localAddr
  split
  · rw [Option.map_eq_some_iff]
    simp only [eq_comm]
  · rw [Option.some.injEq, eq_comm]

/-- The two choices of `connect`. -/
theorem chooseLocal_eq_some_iff {l' : IpEndp} : chooseLocal env tcp l r = some l' ↔
    localAddr env l r = some l'.addr ∧
      if l.port = 0 then dynamicPort tcp l'.addr r = some l'.port else l'.port = l.port := by
  have hchoose : chooseLocal env tcp l r = (localAddr env l r).bind fun addr ↦
      (if l.port = 0 then dynamicPort tcp addr r else some l.port).map fun port ↦ ⟨addr, port⟩ := by
    unfold chooseLocal localAddr
    by_cases hzero : l.port = 0
    · by_cases hany : l.addr = .any <;>
        simp [hany, hzero, Option.map_eq_bind]
    · have hport : ¬ l.port = 0#16 := hzero
      by_cases hany : l.addr = .any <;> simp [hany, hport]
  rw [hchoose, Option.bind_eq_some_iff]
  constructor
  · rintro ⟨addr, haddr, hmap⟩
    obtain ⟨port, hport, rfl⟩ := Option.map_eq_some_iff.mp hmap
    refine ⟨haddr, ?_⟩
    by_cases hzero : l.port = 0
    · rwa [if_pos hzero] at hport ⊢
    · rw [if_neg hzero] at hport ⊢
      exact (Option.some.inj hport).symm
  · rintro ⟨haddr, hport⟩
    refine ⟨l'.addr, haddr, Option.map_eq_some_iff.mpr ⟨l'.port, ?_, rfl⟩⟩
    split at hport
    · next hzero => rwa [if_pos hzero]
    · next hzero => rw [if_neg hzero, hport]

/-- The port loop finds a dynamic port that no block is in the way of. -/
theorem dynamicPort_found {addr : IpAddr} {port : U16} (h : dynamicPort tcp addr r = some port) :
    dynamicPortMin ≤ port.toNat ∧ pcbSelect tcp.pcbs ⟨addr, port⟩ r = none := by
  have hfree : (pcbSelect tcp.pcbs ⟨addr, port⟩ r).isNone = true := by
    have hfound := List.find?_some h
    exact hfound
  obtain ⟨n, hn, rfl⟩ := List.mem_map.mp (List.mem_of_find?_eq_some h)
  rw [List.mem_range'_1] at hn
  simp only [dynamicPortMin, dynamicPortMax] at hn ⊢
  refine ⟨?_, Option.isNone_iff_eq_none.mp hfree⟩
  rw [BitVec.toNat_ofNat, Nat.mod_eq_of_lt (by omega)]
  exact hn.1

/-- If there is such a port, it finds one. -/
theorem exists_dynamicPort {addr : IpAddr} {port : U16} (hmin : dynamicPortMin ≤ port.toNat)
    (hfree : pcbSelect tcp.pcbs ⟨addr, port⟩ r = none) :
    ∃ port', dynamicPort tcp addr r = some port' := by
  have hlt := port.isLt
  have hmem : port ∈ (List.range' dynamicPortMin (dynamicPortMax + 1 - dynamicPortMin)).map
      (BitVec.ofNat 16) := by
    refine List.mem_map.mpr ⟨port.toNat, ?_, by rw [BitVec.ofNat_toNat, BitVec.setWidth_eq]⟩
    rw [List.mem_range'_1]
    simp only [dynamicPortMin, dynamicPortMax] at hmin ⊢
    omega
  refine Option.isSome_iff_exists.mp (List.find?_isSome.mpr ⟨port, hmem, ?_⟩)
  rw [hfree]
  rfl

/-- A block without a port is not in the way of a dynamic one. -/
theorem selects_of_noPort (hzero : p.localEndp.port = 0) (hmin : dynamicPortMin ≤ l.port.toNat) :
    selects p l r = false := by
  refine selects_of_port_ne fun hport ↦ ?_
  rw [← hport, hzero] at hmin
  exact absurd hmin (by decide)

/-- Where the block is in its own way. -/
theorem selects_iff_inOwnWay (hchoose : chooseLocal env tcp p.localEndp r = some l) :
    selects p l r = true ↔ InOwnWay p r := by
  obtain ⟨haddr, hport⟩ := chooseLocal_eq_some_iff.mp hchoose
  rw [localAddr_eq_some_iff] at haddr
  unfold InOwnWay
  by_cases hzero : p.localEndp.port = 0
  · rw [if_pos hzero] at hport
    rw [selects_of_noPort hzero (dynamicPort_found hport).1]
    exact iff_of_false (by simp) fun h ↦ h.1 hzero
  · rw [if_neg hzero] at hport
    -- The address is that of the block, or the block has none.
    have haddr : p.localEndp.addr = l.addr ∨ p.localEndp.addr = .any := by
      split at haddr
      · next hany => exact .inr hany
      · exact .inl haddr.symm
    simp only [selects, hport, true_and, decide_eq_true_eq, endp_eq_iff, IpEndp.any, ne_eq, hzero,
      not_false_eq_true]
    tauto

/-- `connect` finds a local endpoint that no other block is in the way of exactly when there is
one. -/
theorem freeLocal_iff (hp : tcp.get d = some p) : FreeLocal env tcp d p r ↔
    ∃ l, chooseLocal env tcp p.localEndp r = some l ∧ ¬ Taken tcp d l r := by
  constructor
  · rintro ⟨l, hfree, haddr, hport⟩
    rw [← localAddr_eq_some_iff] at haddr
    by_cases hzero : p.localEndp.port = 0
    · rw [if_pos hzero] at hport
      have hnone : pcbSelect tcp.pcbs l r = none := by
        refine pcbSelect_eq_none_iff.mpr fun j q hq ↦ ?_
        by_cases hj : j = d
        · subst hj
          obtain rfl : p = q := Option.some.inj (hp.symm.trans hq)
          exact selects_of_noPort hzero hport
        · by_contra hsel
          exact hfree ⟨j, q, hj, hq, by simpa using hsel⟩
      obtain ⟨port, hfound⟩ := exists_dynamicPort hport hnone
      refine ⟨⟨l.addr, port⟩, chooseLocal_eq_some_iff.mpr ⟨haddr, by rwa [if_pos hzero]⟩, ?_⟩
      rintro ⟨j, q, -, hq, hsel⟩
      exact absurd hsel (by simp [pcbSelect_none (dynamicPort_found hfound).2 hq])
    · exact ⟨l, chooseLocal_eq_some_iff.mpr ⟨haddr, by rwa [if_neg hzero] at hport ⊢⟩, hfree⟩
  · rintro ⟨l, hchoose, hfree⟩
    obtain ⟨haddr, hport⟩ := chooseLocal_eq_some_iff.mp hchoose
    refine ⟨l, hfree, localAddr_eq_some_iff.mp haddr, ?_⟩
    split at hport
    · next hzero =>
      rw [if_pos hzero]
      exact (dynamicPort_found hport).1
    · next hzero => rwa [if_neg hzero]

/-- The set-up part of `connect`, by its two checks. -/
theorem connectCall_cases (env : Env) (r : IpEndp) (hp : tcp.get d = some p) :
    (chooseLocal env tcp p.localEndp r = none ∧
      connectCall env tcp d r = { tcp := tcp, reply := .err }) ∨
    ∃ l, chooseLocal env tcp p.localEndp r = some l ∧
      ((∃ j q, tcp.get j = some q ∧ selects q l r = true) ∧
          connectCall env tcp d r = { tcp := tcp, reply := .err } ∨
        (∀ j q, tcp.get j = some q → selects q l r = false) ∧
          (connectCall env tcp d r).effects = [.emit (sendSyn env p l r).2]) := by
  unfold connectCall
  cases hchoose : chooseLocal env tcp p.localEndp r with
  | none => exact .inl ⟨rfl, by simp only [hp, hchoose]⟩
  | some l =>
      refine .inr ⟨l, rfl, ?_⟩
      cases hselect : pcbSelect tcp.pcbs l r with
      | none =>
          refine .inr ⟨fun j q hq ↦ pcbSelect_none hselect hq, ?_⟩
          simp only [hp, hchoose, hselect, Option.isSome_none, Bool.false_eq_true, if_false]
          split
          · rfl
          · rfl
      | some j =>
          obtain ⟨q, hq, hsel, -⟩ := pcbSelect_chosen hselect
          refine .inl ⟨⟨j, q, hq, hsel⟩, ?_⟩
          simp only [hp, hchoose, hselect, Option.isSome_some, if_true]

theorem not_sendsSyn_err (tcp : Tcp) : ¬ SendsSyn { tcp := tcp, reply := .err } := by
  rintro ⟨seg, hseg, -⟩
  exact absurd hseg (by simp)

theorem sendsSyn_of_effects {out : Outcome} (h : out.effects = [.emit (sendSyn env p l r).2]) :
    SendsSyn out := by
  refine ⟨_, by rw [h]; exact List.mem_singleton_self _, ?_⟩
  rw [sendSyn_eq]
  have hflg : flagIsset flgSyn flgSyn = true := by decide
  exact hflg

/-- `connect` does what it should exactly if, for a pair of endpoints that no other block
matches, its own block matches them where it is not closed and only there. -/
theorem connectsRight_iff_selects (env : Env) (r : IpEndp) (hp : tcp.get d = some p) :
    ConnectsRight env tcp d p r ↔ ∀ l, chooseLocal env tcp p.localEndp r = some l →
      ¬ Taken tcp d l r → (selects p l r = true ↔ p.state ≠ .closed) := by
  rcases connectCall_cases env r hp with ⟨hnone, hcall⟩ | ⟨l, hchoose, hcase⟩
  · have hsyn : ¬ SendsSyn (connectCall env tcp d r) := hcall ▸ not_sendsSyn_err tcp
    refine ⟨fun _ l hl ↦ absurd (hnone.symm.trans hl) (by simp), fun _ ↦ ⟨?_, fun _ ↦ hcall⟩⟩
    refine ⟨fun h ↦ absurd h hsyn, ?_⟩
    rintro ⟨-, l, hl, -⟩
    exact absurd (hnone.symm.trans hl) (by simp)
  have hl : ∀ l', chooseLocal env tcp p.localEndp r = some l' → l = l' :=
    fun l' h ↦ Option.some.inj (hchoose.symm.trans h)
  rcases hcase with ⟨⟨j, q, hq, hsel⟩, hcall⟩ | ⟨hno, heffects⟩
  · -- Some block matches: `connect` refuses, which is right if that is another one.
    have hsyn : ¬ SendsSyn (connectCall env tcp d r) := hcall ▸ not_sendsSyn_err tcp
    have hself : ¬ Taken tcp d l r → selects p l r = true := by
      intro hfree
      by_cases hj : j = d
      · subst hj
        obtain rfl : p = q := Option.some.inj (hp.symm.trans hq)
        exact hsel
      · exact absurd ⟨j, q, hj, hq, hsel⟩ hfree
    constructor
    · rintro ⟨hright, -⟩ l' hl' hfree
      obtain rfl := hl l' hl'
      refine ⟨fun _ hclosed ↦ ?_, fun _ ↦ hself hfree⟩
      exact hsyn (hright.mpr ⟨hclosed, l, hchoose, hfree⟩)
    · intro hcond
      refine ⟨⟨fun h ↦ absurd h hsyn, ?_⟩, fun _ ↦ hcall⟩
      rintro ⟨hclosed, l', hl', hfree⟩
      obtain rfl := hl l' hl'
      exact absurd hclosed ((hcond l hchoose hfree).mp (hself hfree))
  · -- No block matches: `connect` goes ahead, which is right if the block is closed.
    have hsyn := sendsSyn_of_effects heffects
    have hfree : ¬ Taken tcp d l r := by
      rintro ⟨j, q, -, hq, hsel⟩
      exact absurd hsel (by simp [hno j q hq])
    have hself : ¬ selects p l r = true := by simp [hno d p hp]
    constructor
    · rintro ⟨hright, -⟩ l' hl' -
      obtain rfl := hl l' hl'
      exact ⟨fun h ↦ absurd h hself, fun hne ↦ absurd (hright.mp hsyn).1 hne⟩
    · intro hcond
      have hclosed : p.state = .closed := by
        by_contra hne
        exact hself ((hcond l hchoose hfree).mpr hne)
      exact ⟨⟨fun _ ↦ ⟨hclosed, l, hchoose, hfree⟩, fun _ ↦ hsyn⟩, fun hne ↦ absurd hclosed hne⟩

/-- **When `connect` is allowed**: where a local endpoint is free, it does what it should
exactly if the block is in its own way where it is not closed and only there. -/
theorem connectsRight_iff (env : Env) (r : IpEndp) (hp : tcp.get d = some p) :
    ConnectsRight env tcp d p r ↔
      (FreeLocal env tcp d p r → (InOwnWay p r ↔ p.state ≠ .closed)) := by
  rw [connectsRight_iff_selects env r hp, freeLocal_iff hp]
  constructor
  · rintro hcond ⟨l, hchoose, hfree⟩
    rw [← selects_iff_inOwnWay hchoose]
    exact hcond l hchoose hfree
  · intro hcond l hchoose hfree
    rw [selects_iff_inOwnWay hchoose]
    exact hcond ⟨l, hchoose, hfree⟩

end

/-- A socket that is not bound connects. -/
theorem connectsRight_iff_unbound : ∃ tcp p, Reachable tcp ∧ tcp.get 0 = some p ∧
    p.state = .closed ∧ FreeLocal routedEnv tcp 0 p peerEndp ∧
      ConnectsRight routedEnv tcp 0 p peerEndp := by
  obtain ⟨tcp, hreach, htest⟩ := exists_reachableWhen (fun _ _ _ ↦ true) (fun _ _ _ _ ↦ trivial)
    (fun tcp ↦ decide (tcp.pcbs.length = 1) && (tcp.get 0).any fun p : TcpPcb ↦
      decide (p.state = .closed) && decide (p.localEndp.port = 0) &&
        (chooseLocal routedEnv tcp p.localEndp peerEndp).isSome)
    [(calmEnv, .socket)] (by decide +kernel)
  simp only [Bool.and_eq_true, decide_eq_true_eq] at htest
  obtain ⟨hlen, hany⟩ := htest
  obtain ⟨p, hp, hcond⟩ := (Option.any_eq_true _ _).mp hany
  simp only [Bool.and_eq_true, decide_eq_true_eq] at hcond
  obtain ⟨⟨hclosed, hport⟩, hsome⟩ := hcond
  obtain ⟨l, hchoose⟩ := Option.isSome_iff_exists.mp hsome
  have hfree : ¬ Taken tcp 0 l peerEndp := by
    rintro ⟨j, q, hj, hq, -⟩
    have hlt := Slots.lt_length_of_peek hq
    rw [hlen] at hlt
    exact hj (Nat.lt_one_iff.mp hlt)
  exact ⟨tcp, p, hreach, hp, hclosed, (freeLocal_iff hp).mpr ⟨l, hchoose, hfree⟩,
    (connectsRight_iff routedEnv peerEndp hp).mpr fun _ ↦
      iff_of_false (fun h ↦ h.1 hport) fun hne ↦ hne hclosed⟩

/-- A socket that is bound is in its own way. -/
theorem bound_not_connected : ¬ ∀ env tcp d p r, Reachable tcp → tcp.get d = some p →
    (routeLookup env.routes r.addr).isSome = true → ConnectsRight env tcp d p r := by
  intro hall
  obtain ⟨tcp, hreach, htest⟩ := exists_reachableWhen (fun _ _ _ ↦ true) (fun _ _ _ _ ↦ trivial)
    (fun tcp ↦ decide (tcp.pcbs.length = 1) && (tcp.get 0).any fun p : TcpPcb ↦
      decide (p.state = .closed) && decide (p.localEndp = hostEndp) &&
        decide ((connectCall routedEnv tcp 0 peerEndp).effects = []))
    [(calmEnv, .socket), (calmEnv, .bind 0 hostEndp)] (by decide +kernel)
  simp only [Bool.and_eq_true, decide_eq_true_eq] at htest
  obtain ⟨hlen, hany⟩ := htest
  obtain ⟨p, hp, hcond⟩ := (Option.any_eq_true _ _).mp hany
  simp only [Bool.and_eq_true, decide_eq_true_eq] at hcond
  obtain ⟨⟨hclosed, hlocal⟩, hnothing⟩ := hcond
  have hright := hall routedEnv tcp 0 p peerEndp hreach hp (by decide)
  have hchoose : chooseLocal routedEnv tcp p.localEndp peerEndp = some hostEndp := by
    rw [hlocal]
    rfl
  have hfree : ¬ Taken tcp 0 hostEndp peerEndp := by
    rintro ⟨j, q, hj, hq, -⟩
    have hlt := Slots.lt_length_of_peek hq
    rw [hlen] at hlt
    exact hj (Nat.lt_one_iff.mp hlt)
  obtain ⟨seg, hseg, -⟩ := hright.syn.mpr ⟨hclosed, hostEndp, hchoose, hfree⟩
  exact absurd hseg (by simp [hnothing])

end Microps.Tcp
