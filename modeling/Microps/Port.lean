import Microps.Lib.FirstFree
import Microps.Tcp.Bound
import Microps.Tcp.Select
import Microps.Udp.Bind

/-!
# Dynamic ports

`tcp::open`, `tcp::connect` and `udp::assign_dynamic_port` look for a local port from
`DYNAMIC_PORT_MIN` on.  A block has one local port and so blocks one candidate at most, and a
table has at most sixteen blocks: the loops find a port among the first seventeen.
-/

namespace Microps

/-- The port that the loops are after: the smallest dynamic port that is free, which is near the
first one. -/
structure LeastFreePort (Free : U16 → Prop) (port : U16) : Prop where
  min : 49152 ≤ port.toNat
  near : port.toNat ≤ 49152 + 16
  free : Free port
  least : ∀ q : U16, 49152 ≤ q.toNat → q.toNat < port.toNat → ¬ Free q

/-- **A port is found** where each of at most sixteen holders takes one port. -/
theorem exists_leastFreePort {Free : U16 → Prop} {free : U16 → Bool}
    (hfree : ∀ q, free q = true ↔ Free q) {taken : List Nat} (hlen : taken.length ≤ 16)
    (htaken : ∀ q : U16, q.toNat ∉ taken → Free q) :
    ∃ port, ((List.range' 49152 (65535 + 1 - 49152)).map (BitVec.ofNat 16)).find? free = some port ∧
      LeastFreePort Free port := by
  obtain ⟨n, hlo, hhi, hn⟩ := FirstFree.exists_notMem taken 49152
  have htoNat : ∀ {k : Nat}, k ≤ 65535 → (BitVec.ofNat 16 k).toNat = k := by
    intro k hk
    rw [BitVec.toNat_ofNat, Nat.mod_eq_of_lt (by omega)]
  have hfirst : (free ∘ BitVec.ofNat 16) n = true := by
    refine (hfree _).mpr (htaken _ ?_)
    rwa [htoNat (by omega)]
  obtain ⟨m, hfind, hm, hmn, hmfree, hbefore⟩ :=
    FirstFree.find?_range' hlo (show n < 49152 + (65535 + 1 - 49152) by omega) hfirst
  refine ⟨BitVec.ofNat 16 m, ?_, ?_⟩
  · rw [List.find?_map, hfind]
    rfl
  · have hmNat : (BitVec.ofNat 16 m).toNat = m := htoNat (by omega)
    refine ⟨by omega, by omega, (hfree _).mp hmfree, ?_⟩
    intro q hq hlt hqfree
    have hno : free (BitVec.ofNat 16 q.toNat) = false := hbefore q.toNat hq (by omega)
    rw [BitVec.ofNat_toNat, BitVec.setWidth_eq] at hno
    exact absurd ((hfree q).mpr hqfree) (by simp [hno])

/-- The ports that the blocks of a table take. -/
def takenPorts {α : Type} (port : α → U16) (t : Slots α) : List Nat :=
  t.filterMap fun slot ↦ slot.map fun p ↦ (port p).toNat

theorem length_takenPorts {α : Type} (port : α → U16) (t : Slots α) :
    (takenPorts port t).length ≤ t.length :=
  List.length_filterMap_le _ _

theorem mem_takenPorts {α : Type} {port : α → U16} {t : Slots α} {d : Nat} {p : α}
    (h : t.peek d = some p) : (port p).toNat ∈ takenPorts port t :=
  List.mem_filterMap.mpr ⟨some p, Slots.mem_of_peek h, rfl⟩

/-! ## TCP -/

namespace Tcp

/-- No block matches the endpoints. -/
def Unmatched (tcp : Tcp) (localEndp remoteEndp : IpEndp) : Prop :=
  ∀ d p, tcp.get d = some p → selects p localEndp remoteEndp = false

theorem pcbSelect_eq_none_iff {tcp : Tcp} {l r : IpEndp} :
    pcbSelect tcp.pcbs l r = none ↔ Unmatched tcp l r := by
  constructor
  · intro hnone d p hp
    exact pcbSelect_none hnone hp
  · intro hno
    cases hselect : pcbSelect tcp.pcbs l r with
    | none => rfl
    | some d =>
        obtain ⟨p, hp, hsel, -⟩ := pcbSelect_chosen hselect
        exact absurd hsel (by simp [hno d p hp])

/-- A block with another local port does not match. -/
theorem selects_of_port_ne {p : TcpPcb} {l r : IpEndp} (h : p.localEndp.port ≠ l.port) :
    selects p l r = false := by
  simp [selects, h]

/-- The port loop of `open` and `connect`. -/
theorem dynamicPort_spec {tcp : Tcp} (h : Bounded tcp) (addr : IpAddr) (remoteEndp : IpEndp) :
    ∃ port, dynamicPort tcp addr remoteEndp = some port ∧
      LeastFreePort (fun q ↦ Unmatched tcp ⟨addr, q⟩ remoteEndp) port := by
  refine exists_leastFreePort ?_ (Nat.le_trans (length_takenPorts (·.localEndp.port) tcp.pcbs) h) ?_
  · intro q
    rw [Option.isNone_iff_eq_none, pcbSelect_eq_none_iff]
  · intro q hq d p hp
    refine selects_of_port_ne fun hport ↦ hq ?_
    have hmem : p.localEndp.port.toNat ∈ takenPorts (·.localEndp.port) tcp.pcbs :=
      mem_takenPorts hp
    rwa [hport] at hmem

/-- The address that `open` and `connect` use. -/
def localAddr (env : Env) (localEndp remoteEndp : IpEndp) : Option IpAddr :=
  if localEndp.addr = .any then (routeLookup env.routes remoteEndp.addr).map (·.iface.unicast)
  else some localEndp.addr

theorem chooseLocal_of_zero {env : Env} {tcp : Tcp} {l r : IpEndp} {addr : IpAddr} {port : U16}
    (hzero : l.port = 0) (haddr : localAddr env l r = some addr)
    (hport : dynamicPort tcp addr r = some port) : chooseLocal env tcp l r = some ⟨addr, port⟩ := by
  unfold localAddr at haddr
  unfold chooseLocal
  split at haddr
  · next hany => simp [hany, haddr, hzero, hport]
  · next hany =>
    cases haddr
    simp [hany, hzero, hport]

end Tcp

/-! ## UDP -/

namespace Udp

theorem Reachable.length_le {udp : Udp} (h : Reachable udp) : udp.pcbs.length ≤ pcbSizeMax := by
  refine Machine.Reach.invariant (fun udp ↦ udp.pcbs.length ≤ pcbSizeMax) ?_ ?_ h
  · rintro _ rfl
    exact Nat.zero_le _
  · rintro udp ⟨env, ev⟩ _ ih ⟨out, hout, rfl⟩
    cases step_move hout with
    | idle => exact ih
    | opened halloc =>
        obtain ⟨⟨i, t⟩, hslots, heq⟩ := Option.map_eq_some_iff.mp halloc
        cases heq
        exact Slots.length_le_of_alloc ih hslots
    | closed hp => exact (Slots.length_free _ _).trans_le ih
    | assigned hp hev hfree hbinding => exact (Slots.length_put _ _ _).trans_le ih
    | queued haccepts hselect hp => exact (Slots.length_put _ _ _).trans_le ih
    | popped hp hqueue => exact (Slots.length_put _ _ _).trans_le ih

/-- No block matches the endpoint. -/
def Unmatched (udp : Udp) (key : IpEndp) : Prop :=
  ∀ d p, udp.get d = some p → selects p key = false

theorem pcbSelect_eq_none_iff {udp : Udp} {key : IpEndp} :
    pcbSelect udp.pcbs key = none ↔ Unmatched udp key := by
  constructor
  · intro hnone d p hp
    exact pcbSelect_none hnone hp
  · intro hno
    cases hselect : pcbSelect udp.pcbs key with
    | none => rfl
    | some d =>
        obtain ⟨p, hp, hsel, -⟩ := pcbSelect_some hselect
        exact absurd hsel (by simp [hno d p hp])

/-- The loop of `assign_dynamic_port`. -/
theorem assignDynamicPort_total {udp : Udp} (h : udp.pcbs.length ≤ pcbSizeMax) (d : UdpDesc)
    (p : UdpPcb) :
    ∃ port, assignDynamicPort udp d p =
        some (port, udp.set d { p with localEndp := ⟨p.localEndp.addr, port⟩ }) ∧
      LeastFreePort (fun q ↦ Unmatched udp ⟨p.localEndp.addr, q⟩) port := by
  obtain ⟨port, hfind, hleast⟩ := exists_leastFreePort
    (fun q ↦ by rw [Option.isNone_iff_eq_none, pcbSelect_eq_none_iff])
    (Nat.le_trans (length_takenPorts (·.localEndp.port) udp.pcbs) h)
    (show ∀ q : U16, _ → Unmatched udp ⟨p.localEndp.addr, q⟩ from fun q hq j r hr ↦ by
      have hne : r.localEndp.port ≠ q := fun hport ↦ hq (hport ▸ mem_takenPorts hr)
      simp [selects, hne])
  exact ⟨port, Option.map_eq_some_iff.mpr ⟨port, hfind, rfl⟩, hleast⟩

end Udp

/-- **Dynamic port assignment cannot fail.**  In every table that is reached, the loops find the
smallest dynamic port that no block matches, the test for a conflict in `open` and `connect`
passes, and what `open` and `connect` do next depends on `ip::output` only. -/
theorem dynamic_port_found {tcp : Tcp} {udp : Udp} (htcp : Tcp.Reachable tcp)
    (hudp : Udp.Reachable udp) :
    (∀ d tcp', tcp.pcbAlloc = some (d, tcp') → ∀ env l r addr, l.port = 0 →
      Tcp.localAddr env l r = some addr →
      ∃ port pcb, Tcp.dynamicPort tcp' addr r = some port ∧
        LeastFreePort (fun q ↦ Tcp.Unmatched tcp' ⟨addr, q⟩ r) port ∧
        Tcp.chooseLocal env tcp' l r = some ⟨addr, port⟩ ∧
        Tcp.pcbSelect tcp'.pcbs ⟨addr, port⟩ r = none ∧
        Tcp.openCall env tcp l r true = .ok (
          let sent := Tcp.sendSyn env pcb ⟨addr, port⟩ r
          if env.ipOutput sent.2 then
            { tcp := tcp'.set d (Tcp.synSent sent.1), reply := .desc d, effects := [.emit sent.2] }
          else Tcp.openFail env (tcp'.set d { sent.1 with state := .closed }) d [.emit sent.2])) ∧
    (∀ d pcb, tcp.get d = some pcb → ∀ env r addr, pcb.localEndp.port = 0 →
      Tcp.localAddr env pcb.localEndp r = some addr →
      ∃ port, Tcp.dynamicPort tcp addr r = some port ∧
        LeastFreePort (fun q ↦ Tcp.Unmatched tcp ⟨addr, q⟩ r) port ∧
        Tcp.chooseLocal env tcp pcb.localEndp r = some ⟨addr, port⟩ ∧
        Tcp.pcbSelect tcp.pcbs ⟨addr, port⟩ r = none ∧
        Tcp.connectCall env tcp d r = (
          let sent := Tcp.sendSyn env pcb ⟨addr, port⟩ r
          if env.ipOutput sent.2 then
            { tcp := tcp.set d (Tcp.synSent sent.1), reply := .desc d, effects := [.emit sent.2] }
          else
            { tcp := tcp.set d { sent.1 with state := .closed }, reply := .err,
              effects := [.emit sent.2] })) ∧
    ∀ d p, ∃ port,
      Udp.assignDynamicPort udp d p =
        some (port, udp.set d { p with localEndp := ⟨p.localEndp.addr, port⟩ }) ∧
      LeastFreePort (fun q ↦ Udp.Unmatched udp ⟨p.localEndp.addr, q⟩) port := by
  have hbounded : Tcp.Bounded tcp := Tcp.ReachableWhen.bounded htcp
  refine ⟨?_, ?_, fun d p ↦ Udp.assignDynamicPort_total hudp.length_le d p⟩
  · intro d tcp' halloc env l r addr hzero haddr
    obtain ⟨port, hport, hleast⟩ := Tcp.dynamicPort_spec (hbounded.pcbAlloc halloc) addr r
    have hchoose := Tcp.chooseLocal_of_zero hzero haddr hport
    have hnone := Tcp.pcbSelect_eq_none_iff.mpr hleast.free
    have hd := Tcp.get_pcbAlloc halloc
    refine ⟨port, .empty tcp.nextTask, hport, hleast, hchoose, hnone, ?_⟩
    simp only [Tcp.openCall, halloc, if_true, hchoose, hnone, Option.isSome_none,
      Bool.false_eq_true, if_false, hd, unwrap, bind, Except.bind]
    split
    · rfl
    · rfl
  · intro d pcb hp env r addr hzero haddr
    obtain ⟨port, hport, hleast⟩ := Tcp.dynamicPort_spec hbounded addr r
    have hchoose := Tcp.chooseLocal_of_zero hzero haddr hport
    have hnone := Tcp.pcbSelect_eq_none_iff.mpr hleast.free
    refine ⟨port, hport, hleast, hchoose, hnone, ?_⟩
    simp only [Tcp.connectCall, hp, hchoose, hnone, Option.isSome_none, Bool.false_eq_true,
      if_false]

/-- A connection and a UDP block hold the first dynamic port when a socket is connected and
another UDP block sends. -/
theorem dynamic_port_found_second :
    ∃ (tcp : Tcp) (udp : Udp) (p : TcpPcb) (port port' : U16),
      Tcp.Reachable tcp ∧ Udp.Reachable udp ∧ tcp.get 0 = some p ∧
      p.localEndp = ⟨Tcp.hostEndp.addr, 49152⟩ ∧
      Tcp.dynamicPort tcp Tcp.hostEndp.addr Tcp.peerEndp = some port ∧
      LeastFreePort (fun q ↦ Tcp.Unmatched tcp ⟨Tcp.hostEndp.addr, q⟩ Tcp.peerEndp) port ∧
      LeastFreePort (fun q ↦ Udp.Unmatched udp ⟨.any, q⟩) port' := by
  obtain ⟨tcp, htcp, htest⟩ := Tcp.exists_reachableWhen (fun _ _ _ ↦ true) (fun _ _ _ _ ↦ trivial)
    (fun tcp ↦ ((tcp.get 0).any fun p ↦ p.localEndp = ⟨Tcp.hostEndp.addr, 49152⟩) &&
      (tcp.get 1).any fun p ↦ p.localEndp = ⟨.any, 0⟩)
    [(Tcp.calmEnv, .openCall ⟨Tcp.hostEndp.addr, 0⟩ Tcp.peerEndp true), (Tcp.calmEnv, .socket)]
    (by decide +kernel)
  simp only [Bool.and_eq_true, Option.any_eq_true, decide_eq_true_eq] at htest
  obtain ⟨⟨p, hp, hlocal⟩, q, hq, hany⟩ := htest
  obtain ⟨udp, hudp, -⟩ := Udp.exists_reachable (fun _ ↦ true)
    [(Udp.bareEnv, .open), (Udp.bareEnv, .sendto 0 [] ⟨⟨192, 0, 2, 2⟩, 9⟩)] (by decide +kernel)
  obtain ⟨-, hconnect, hassign⟩ := dynamic_port_found htcp hudp
  obtain ⟨port, hport, hleast, -⟩ := hconnect 1 q hq Tcp.routedEnv Tcp.peerEndp Tcp.hostEndp.addr
    (by rw [hany]) (by rw [hany]; decide)
  obtain ⟨port', -, hleast'⟩ := hassign 1 (.empty 0)
  exact ⟨tcp, udp, p, port, port', htcp, hudp, hp, hlocal, hport, hleast, hleast'⟩

end Microps
