import Microps.Arp.Cache
import Microps.Net

/-!
# Requests that could not be sent

`resolve` inserts its incomplete entry before it sends the request, and returns at once if
`Device::output` refuses it.  The entry stays: another one may have been evicted for it, and
until it expires the address counts as pending although no request is under way.
-/

namespace Microps.Arp

section

variable {takes : Packet → Bool} {now : Nat} {dev : Device} {iface : IpIface} {cache : Cache}
  {pa : IpAddr}

/-- If `resolve` fails, the cache is as before, and the next `resolve` for the address sends a
request. -/
def LeavesNoTrace (takes : Packet → Bool) (now : Nat) (dev : Device) (iface : IpIface)
    (cache : Cache) (pa : IpAddr) : Prop :=
  (resolve takes now dev iface cache pa).reply = .error () →
    (resolve takes now dev iface cache pa).cache = cache ∧
      ∀ takes' now' dev' iface',
        (resolve takes' now' dev' iface' (resolve takes now dev iface cache pa).cache pa).sent =
          [request dev' iface' pa]

/-- The cache has no room and nothing to evict. -/
def Stuck (cache : Cache) : Prop :=
  cacheSize ≤ cache.length ∧ ∀ entry ∈ cache, entry.state = .static

/-- There is no entry to evict exactly where all are static. -/
theorem oldest_eq_none_iff : oldest cache = none ↔ ∀ entry ∈ cache, entry.state = .static := by
  have hheld := oldest_held cache
  cases hold : oldest cache with
  | none =>
      rw [hold] at hheld
      refine ⟨fun _ entry hentry ↦ ?_, fun _ ↦ rfl⟩
      obtain ⟨j, hj⟩ := List.getElem?_of_mem hentry
      obtain ⟨hlt, -⟩ := List.getElem?_eq_some_iff.mp hj
      simpa using hheld j entry hlt hj
  | some i =>
      rw [hold] at hheld
      obtain ⟨entry, hleast⟩ := hheld
      refine ⟨fun h ↦ absurd h (by simp), fun hall ↦ ?_⟩
      have hstatic := hall entry (List.mem_of_getElem? hleast.at_index)
      exact absurd hleast.kept (by simp [hstatic])

/-- An insertion leaves the new entry, or finds no place for it. -/
theorem cacheInsert_eq_or (now : Nat) (cache : Cache) (pa : IpAddr) (ha : EtherAddr)
    (state : CacheState) :
    (Stuck cache ∧ cacheInsert now cache pa ha state = cache) ∨
      (¬ Stuck cache ∧ ⟨state, pa, ha, now⟩ ∈ cacheInsert now cache pa ha state) := by
  unfold cacheInsert Stuck
  by_cases hroom : cache.length < cacheSize
  · refine .inr ⟨fun h ↦ absurd hroom (Nat.not_lt.mpr h.1), ?_⟩
    rw [if_pos hroom]
    exact List.mem_append_right _ List.mem_cons_self
  · rw [if_neg hroom]
    cases hold : oldest cache with
    | none => exact .inl ⟨⟨Nat.not_lt.mp hroom, oldest_eq_none_iff.mp hold⟩, rfl⟩
    | some i =>
        have hheld := oldest_held cache
        rw [hold] at hheld
        obtain ⟨entry, hleast⟩ := hheld
        refine .inr ⟨fun h ↦ ?_, List.mem_set hleast.lt _⟩
        exact absurd (oldest_eq_none_iff.mpr h.2) (by simp [hold])

/-- `resolve` sends a request where there is no entry. -/
theorem resolve_of_lacks (h : cacheSelect cache pa = none) (takes : Packet → Bool) (now : Nat)
    (dev : Device) (iface : IpIface) :
    resolve takes now dev iface cache pa =
      { cache := cacheInsert now cache pa .any .incomplete
        sent := [request dev iface pa]
        reply := if takes (request dev iface pa) then .ok none else .error () } := by
  unfold resolve
  rw [h]

/-- `resolve` fails only where there is no entry and the device refuses the request. -/
theorem resolve_error_iff :
    (resolve takes now dev iface cache pa).reply = .error () ↔
      cacheSelect cache pa = none ∧ takes (request dev iface pa) = false := by
  cases hselect : cacheSelect cache pa with
  | none =>
      rw [resolve_of_lacks hselect]
      simp
  | some found =>
      obtain ⟨state, ha⟩ := found
      simp only [resolve, hselect]
      cases state <;> simp

/-- **When a failed resolution leaves no trace**: exactly if it does not fail, or the cache is full
of static entries. -/
theorem leavesNoTrace_iff (takes : Packet → Bool) (now : Nat) (dev : Device) (iface : IpIface)
    (cache : Cache) (pa : IpAddr) :
    LeavesNoTrace takes now dev iface cache pa ↔
      (cacheSelect cache pa).isSome ∨ takes (request dev iface pa) = true ∨
        (cacheSize ≤ cache.length ∧ ∀ entry ∈ cache, entry.state = .static) := by
  by_cases hfails : (resolve takes now dev iface cache pa).reply = .error ()
  · obtain ⟨hselect, hrefuses⟩ := resolve_error_iff.mp hfails
    have hlacks := cacheSelect_none hselect
    have hcache : (resolve takes now dev iface cache pa).cache =
        cacheInsert now cache pa .any .incomplete := by
      rw [resolve_of_lacks hselect]
    rcases cacheInsert_eq_or now cache pa .any .incomplete with ⟨hstuck, heq⟩ | ⟨hroom, hmem⟩
    · refine ⟨fun _ ↦ .inr (.inr hstuck), fun _ _ ↦ ?_⟩
      rw [hcache, heq]
      refine ⟨rfl, fun takes' now' dev' iface' ↦ ?_⟩
      rw [resolve_of_lacks hselect]
    · constructor
      · intro htrace
        -- The new entry is for an address that had none.
        obtain ⟨hsame, -⟩ := htrace hfails
        rw [hcache] at hsame
        exact absurd rfl (hlacks _ (hsame ▸ hmem))
      · rintro (hsome | htakes | hstuck)
        · exact absurd hsome (by simp [hselect])
        · exact absurd htakes (by simp [hrefuses])
        · exact absurd hstuck hroom
  · refine ⟨fun _ ↦ ?_, fun _ hfails' ↦ absurd hfails' hfails⟩
    rw [resolve_error_iff, not_and, Bool.not_eq_false] at hfails
    cases hselect : cacheSelect cache pa with
    | none => exact .inr (.inl (hfails hselect))
    | some found => exact .inl rfl

end

/-- A device that is down. -/
def downDevice : Device :=
  { up := false, mtu := 1500, addr := ⟨2, 0, 0, 0, 0, 1⟩, broadcast := .broadcast, iface := none }

/-- Whether `Device::output` takes a packet. -/
def outputTakes (dev : Device) (packet : Packet) : Bool :=
  (dev.output packet.ty packet.data packet.dst.octets).toOption.isSome

/-- On a device that is down, `resolve` fails once; after that the address is pending, and nothing
is sent for it even when the device is up. -/
theorem unsent_leaves_trace :
    (resolve (outputTakes downDevice) 0 downDevice
      ⟨⟨192, 0, 2, 1⟩, ⟨255, 255, 255, 0⟩, ⟨192, 0, 2, 255⟩, 1500⟩ [] ⟨192, 0, 2, 2⟩).cache =
        [⟨.incomplete, ⟨192, 0, 2, 2⟩, .any, 0⟩] ∧
    (resolve (outputTakes { downDevice with up := true }) 1 { downDevice with up := true }
      ⟨⟨192, 0, 2, 1⟩, ⟨255, 255, 255, 0⟩, ⟨192, 0, 2, 255⟩, 1500⟩
      [⟨.incomplete, ⟨192, 0, 2, 2⟩, .any, 0⟩] ⟨192, 0, 2, 2⟩).sent = [] ∧
    ¬ LeavesNoTrace (outputTakes downDevice) 0 downDevice
      ⟨⟨192, 0, 2, 1⟩, ⟨255, 255, 255, 0⟩, ⟨192, 0, 2, 255⟩, 1500⟩ [] ⟨192, 0, 2, 2⟩ := by
  refine ⟨by decide +kernel, by decide +kernel, fun htrace ↦ ?_⟩
  obtain ⟨hsame, -⟩ := htrace (by decide +kernel)
  exact absurd hsame (by decide +kernel)

end Microps.Arp
