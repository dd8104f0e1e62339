import Mathlib.Data.List.Nodup
import Microps.Addr

/-!
# The routing table

`iface_register`, `route_add` and `set_default_gateway` append to the table, and `route_lookup`
goes through it once with the best route so far.  It finds the first of the matching routes with
the longest mask.
-/

namespace Microps

/-! ## Building a table -/

/-- `route_add`. -/
def routeAdd (routes : List IpRoute) (network netmask nexthop : IpAddr) (iface : IpIface) :
    List IpRoute :=
  routes ++ [{ network := network, netmask := netmask, nexthop := nexthop, iface := iface }]

/-- `set_default_gateway`. -/
def setDefaultGateway (routes : List IpRoute) (iface : IpIface) (gw : IpAddr) : List IpRoute :=
  routeAdd routes .any .any gw iface

/-- The broadcast address that `iface_register` computes: octet-wise `unicast | !netmask`. -/
def IpAddr.broadcastOf (unicast netmask : IpAddr) : IpAddr :=
  ⟨unicast.o₀ ||| ~~~ netmask.o₀, unicast.o₁ ||| ~~~ netmask.o₁, unicast.o₂ ||| ~~~ netmask.o₂,
    unicast.o₃ ||| ~~~ netmask.o₃⟩

/-- `iface_register`: the interface and the table with its route.  `add_iface` refuses a device
that has an interface. -/
def ifaceRegister (routes : List IpRoute) (dev : Device) (unicast netmask : List Char) :
    Option (IpIface × List IpRoute) := do
  let unicast ← IpAddr.fromStr unicast
  let netmask ← IpAddr.fromStr netmask
  let iface : IpIface :=
    { unicast := unicast, netmask := netmask, broadcast := unicast.broadcastOf netmask,
      mtu := dev.mtu }
  guard dev.iface.isNone
  return (iface, routeAdd routes (unicast.mask netmask) netmask .any iface)

/-- The calls that change the table. -/
inductive RouteCall where
  | ifaceRegister (dev : Device) (unicast netmask : List Char)
  | routeAdd (network netmask nexthop : IpAddr) (iface : IpIface)
  | setDefaultGateway (iface : IpIface) (gw : IpAddr)

/-- The table after a call. -/
def RouteCall.perform (routes : List IpRoute) : RouteCall → List IpRoute
  | .ifaceRegister dev unicast netmask =>
      ((Microps.ifaceRegister routes dev unicast netmask).map Prod.snd).getD routes
  | .routeAdd network netmask nexthop iface =>
      Microps.routeAdd routes network netmask nexthop iface
  | .setDefaultGateway iface gw => Microps.setDefaultGateway routes iface gw

/-- The table that a sequence of calls builds. -/
def builtRoutes (calls : List RouteCall) : List IpRoute := calls.foldl RouteCall.perform []

/-! ## Looking up -/

/-- `r`, at index `i`, is the first of the routes to `dst` with the longest mask. -/
structure LongestMatch (routes : List IpRoute) (dst : IpAddr) (i : Nat) (r : IpRoute) : Prop where
  at_index : routes[i]? = some r
  hits : r.hits dst = true
  longest : ∀ (j : Nat) (r' : IpRoute), routes[j]? = some r' → r'.hits dst = true → r'.plen ≤ r.plen
  earliest : ∀ (j : Nat) (r' : IpRoute), routes[j]? = some r' → r'.hits dst = true → r'.plen = r.plen → i ≤ j

theorem IpRoute.plen_nonneg (r : IpRoute) : 0 ≤ r.plen := by
  unfold IpRoute.plen
  exact Int.natCast_nonneg _

theorem LongestMatch.cons {routes : List IpRoute} {dst : IpAddr} {i : Nat} {r first : IpRoute}
    (h : LongestMatch routes dst i r) (hfirst : first.hits dst = true → first.plen < r.plen) :
    LongestMatch (first :: routes) dst (i + 1) r where
  at_index := h.at_index
  hits := h.hits
  longest j r' hj hhits := by
    cases j with
    | zero =>
        obtain rfl : first = r' := Option.some.inj hj
        exact Int.le_of_lt (hfirst hhits)
    | succ j => exact h.longest j r' hj hhits
  earliest j r' hj hhits heq := by
    cases j with
    | zero =>
        obtain rfl : first = r' := Option.some.inj hj
        exact absurd heq (Int.ne_of_lt (hfirst hhits))
    | succ j => exact Nat.succ_le_succ (h.earliest j r' hj hhits heq)

/-- No route to `dst` has a mask longer than `bound`. -/
def NoLonger (routes : List IpRoute) (dst : IpAddr) (bound : Int) : Prop :=
  ∀ r ∈ routes, r.hits dst = true → r.plen ≤ bound

/-- The loop, from any point on: the best route so far stays, or a longer one is found. -/
theorem routeLoop_spec (dst : IpAddr) (routes : List IpRoute) (best : Option IpRoute)
    (bound : Int) :
    (NoLonger routes dst bound ∧ routeLoop dst routes best bound = best) ∨
      ∃ i r, LongestMatch routes dst i r ∧ bound < r.plen ∧
        routeLoop dst routes best bound = some r := by
  induction routes generalizing best bound with
  | nil => exact .inl ⟨by simp [NoLonger], rfl⟩
  | cons first rest ih =>
      unfold routeLoop
      by_cases hhits : first.hits dst = true
      · rw [if_pos hhits]
        by_cases hlonger : first.plen > bound
        · rw [if_pos hlonger]
          rcases ih (some first) first.plen with ⟨hno, heq⟩ | ⟨i, r, hr, hlt, heq⟩
          · refine .inr ⟨0, first, ⟨rfl, hhits, ?_, fun j _ _ _ _ ↦ Nat.zero_le j⟩, hlonger, heq⟩
            intro j r' hj hhits'
            rcases List.mem_cons.mp (List.mem_of_getElem? hj) with rfl | hmem
            · exact Int.le_refl _
            · exact hno r' hmem hhits'
          · exact .inr ⟨i + 1, r, hr.cons fun _ ↦ hlt, Int.lt_trans hlonger hlt, heq⟩
        · rw [if_neg hlonger]
          have hle : first.plen ≤ bound := Int.not_lt.mp hlonger
          rcases ih best bound with ⟨hno, heq⟩ | ⟨i, r, hr, hlt, heq⟩
          · refine .inl ⟨List.forall_mem_cons.mpr ⟨fun _ ↦ hle, hno⟩, heq⟩
          · exact .inr ⟨i + 1, r, hr.cons fun _ ↦ Int.lt_of_le_of_lt hle hlt, hlt, heq⟩
      · rw [if_neg hhits]
        rcases ih best bound with ⟨hno, heq⟩ | ⟨i, r, hr, hlt, heq⟩
        · exact .inl ⟨List.forall_mem_cons.mpr ⟨fun h ↦ absurd h hhits, hno⟩, heq⟩
        · exact .inr ⟨i + 1, r, hr.cons fun h ↦ absurd h hhits, hlt, heq⟩

/-- What `route_lookup` finds. -/
theorem routeLookup_spec (routes : List IpRoute) (dst : IpAddr) :
    ((∀ r ∈ routes, r.hits dst = false) ∧ routeLookup routes dst = none) ∨
      ∃ i r, LongestMatch routes dst i r ∧ routeLookup routes dst = some r := by
  rcases routeLoop_spec dst routes none (-1) with ⟨hno, heq⟩ | ⟨i, r, hr, -, heq⟩
  · refine .inl ⟨fun r hr ↦ ?_, heq⟩
    by_contra hhits
    have hle := hno r hr (by simpa using hhits)
    have hnonneg := r.plen_nonneg
    omega
  · exact .inr ⟨i, r, hr, heq⟩

/-- No two routes to `dst` have masks of one length. -/
def NoTies (routes : List IpRoute) (dst : IpAddr) : Prop :=
  ((routes.filter fun r ↦ r.hits dst).map IpRoute.plen).Nodup

/-- Without ties, the longest match is the one route with the longest mask, wherever it stands. -/
theorem LongestMatch.unique_of_perm {routes routes' : List IpRoute} {dst : IpAddr} {i j : Nat}
    {r r' : IpRoute} (hperm : routes.Perm routes') (hties : NoTies routes dst)
    (h : LongestMatch routes dst i r) (h' : LongestMatch routes' dst j r') : r = r' := by
  have hmem : r ∈ routes := List.mem_of_getElem? h.at_index
  have hmem' : r' ∈ routes := hperm.mem_iff.mpr (List.mem_of_getElem? h'.at_index)
  obtain ⟨k, hk⟩ := List.getElem?_of_mem hmem'
  obtain ⟨k', hk'⟩ := List.getElem?_of_mem (hperm.mem_iff.mp hmem)
  have hlen : r.plen = r'.plen :=
    Int.le_antisymm (h'.longest k' r hk' h.hits) (h.longest k r' hk h'.hits)
  exact List.inj_on_of_nodup_map hties (List.mem_filter.mpr ⟨hmem, h.hits⟩)
    (List.mem_filter.mpr ⟨hmem', h'.hits⟩) hlen

/-- **`route_lookup` is longest-prefix match.** -/
theorem routeLookup_longest (calls : List RouteCall) (dst : IpAddr) :
    (routeLookup (builtRoutes calls) dst = none ↔
      ∀ r ∈ builtRoutes calls, dst.mask r.netmask ≠ r.network) ∧
    (∀ r, routeLookup (builtRoutes calls) dst = some r ↔
      ∃ i, LongestMatch (builtRoutes calls) dst i r) ∧
    ∀ calls', (builtRoutes calls).Perm (builtRoutes calls') → NoTies (builtRoutes calls) dst →
      routeLookup (builtRoutes calls') dst = routeLookup (builtRoutes calls) dst := by
  have hhits : ∀ r : IpRoute, r.hits dst = false ↔ dst.mask r.netmask ≠ r.network := by
    intro r
    rw [IpRoute.hits, decide_eq_false_iff_not]
  refine ⟨?_, ?_, ?_⟩
  · rcases routeLookup_spec (builtRoutes calls) dst with ⟨hno, heq⟩ | ⟨i, r, hr, heq⟩
    · exact ⟨fun _ r hr ↦ (hhits r).mp (hno r hr), fun _ ↦ heq⟩
    · refine ⟨fun h ↦ absurd (h.symm.trans heq) (by simp), fun h ↦ ?_⟩
      have hno := (hhits r).mpr (h r (List.mem_of_getElem? hr.at_index))
      exact absurd hr.hits (by simp [hno])
  · intro r
    rcases routeLookup_spec (builtRoutes calls) dst with ⟨hno, heq⟩ | ⟨i, best, hbest, heq⟩
    · refine ⟨fun h ↦ absurd (heq.symm.trans h) (by simp), fun ⟨i, hr⟩ ↦ ?_⟩
      exact absurd hr.hits (by simp [hno r (List.mem_of_getElem? hr.at_index)])
    · constructor
      · intro h
        obtain rfl : best = r := Option.some.inj (heq.symm.trans h)
        exact ⟨i, hbest⟩
      · rintro ⟨j, hr⟩
        -- Both are longest and both come first.
        have hlen : best.plen = r.plen := Int.le_antisymm
          (hr.longest i best hbest.at_index hbest.hits) (hbest.longest j r hr.at_index hr.hits)
        have hij : i = j := Nat.le_antisymm (hbest.earliest j r hr.at_index hr.hits hlen.symm)
          (hr.earliest i best hbest.at_index hbest.hits hlen)
        rw [heq, ← hbest.at_index, hij, hr.at_index]
  · intro calls' hperm hties
    rcases routeLookup_spec (builtRoutes calls) dst with ⟨hno, heq⟩ | ⟨i, r, hr, heq⟩
    · rcases routeLookup_spec (builtRoutes calls') dst with ⟨-, heq'⟩ | ⟨j, r', hr', -⟩
      · rw [heq, heq']
      · have hmem := hperm.mem_iff.mpr (List.mem_of_getElem? hr'.at_index)
        exact absurd hr'.hits (by simp [hno r' hmem])
    · rcases routeLookup_spec (builtRoutes calls') dst with ⟨hno', -⟩ | ⟨j, r', hr', heq'⟩
      · have hmem := hperm.mem_iff.mp (List.mem_of_getElem? hr.at_index)
        exact absurd hr.hits (by simp [hno' r hmem])
      · rw [heq, heq', hr.unique_of_perm hperm hties hr']

/-- A call that registers an interface of the subnet 192.0.2.0/24. -/
def registerSubnet : RouteCall :=
  .ifaceRegister { up := true, mtu := 1500, addr := .any, broadcast := .broadcast, iface := none }
    "192.0.2.1".toList "255.255.255.0".toList

/-- A call that sets a default gateway there. -/
def setGateway : RouteCall :=
  .setDefaultGateway ⟨⟨192, 0, 2, 1⟩, ⟨255, 255, 255, 0⟩, ⟨192, 0, 2, 255⟩, 1500⟩ ⟨192, 0, 2, 254⟩

/-- In either order, the route of the interface is found for an address of its subnet. -/
theorem routeLookup_longest_gateway :
    (routeLookup (builtRoutes [registerSubnet, setGateway]) ⟨192, 0, 2, 7⟩).map IpRoute.nexthop =
      some .any ∧
    routeLookup (builtRoutes [setGateway, registerSubnet]) ⟨192, 0, 2, 7⟩ =
      routeLookup (builtRoutes [registerSubnet, setGateway]) ⟨192, 0, 2, 7⟩ := by
  have hperm : (builtRoutes [registerSubnet, setGateway]).Perm
      (builtRoutes [setGateway, registerSubnet]) := by
    decide +kernel
  have hties : NoTies (builtRoutes [registerSubnet, setGateway]) ⟨192, 0, 2, 7⟩ := by
    unfold NoTies
    decide +kernel
  exact ⟨by decide +kernel, (routeLookup_longest _ _).2.2 _ hperm hties⟩

end Microps
