import Mathlib.Data.List.Nodup
import Microps.Arp.Basic

/-!
# What the ARP cache holds

One spec for each critical section of the cache, and from them what a cache holds after any
sequence of calls that run one at a time: `cache_correct`.
-/

namespace Microps.Arp

/-! ## The critical sections -/

section

variable {now : Nat} {pa : IpAddr} {ha : EtherAddr} {cache : Cache}

/-- There is no entry for `pa`. -/
def Lacks (cache : Cache) (pa : IpAddr) : Prop := ∀ entry ∈ cache, entry.pa ≠ pa

/-- No two entries are for one address. -/
def Unique (cache : Cache) : Prop := (cache.map (·.pa)).Nodup

theorem cacheSelect_none (h : cacheSelect cache pa = none) : Lacks cache pa := by
  intro entry hentry
  simpa using List.find?_eq_none.mp (Option.map_eq_none_iff.mp h) entry hentry

theorem cacheSelect_some {state : CacheState} (h : cacheSelect cache pa = some (state, ha)) :
    ∃ entry ∈ cache, entry.pa = pa ∧ entry.state = state ∧ entry.ha = ha := by
  obtain ⟨entry, hentry, heq⟩ := Option.map_eq_some_iff.mp h
  cases heq
  exact ⟨entry, List.mem_of_find?_eq_some hentry,
    by simpa using List.find?_some hentry, rfl, rfl⟩

/-- `cache_update` leaves the addresses alone. -/
theorem map_pa_cacheUpdate (now : Nat) (pa : IpAddr) (ha : EtherAddr) (cache : Cache) :
    (cacheUpdate now pa ha cache).2.map (·.pa) = cache.map (·.pa) := by
  induction cache with
  | nil => rfl
  | cons entry rest ih =>
      unfold cacheUpdate
      split
      · rfl
      · simp only [List.map_cons, ih]

/-- It fails where there is no entry, and then does nothing. -/
theorem cacheUpdate_false (h : (cacheUpdate now pa ha cache).1 = false) :
    Lacks cache pa ∧ (cacheUpdate now pa ha cache).2 = cache := by
  induction cache with
  | nil => exact ⟨by simp [Lacks], rfl⟩
  | cons entry rest ih =>
      unfold cacheUpdate at h ⊢
      by_cases hpa : entry.pa = pa
      · simp [hpa] at h
      · simp only [if_neg hpa] at h ⊢
        obtain ⟨hlacks, heq⟩ := ih h
        refine ⟨?_, by rw [heq]⟩
        intro entry' hmem
        rcases List.mem_cons.mp hmem with rfl | hmem
        · exact hpa
        · exact hlacks entry' hmem

/-- An entry after `cache_update` is the new one or an old one, and if there were no two for
one address, then an old one for another address. -/
theorem mem_cacheUpdate {entry : CacheEntry} (h : entry ∈ (cacheUpdate now pa ha cache).2) :
    entry = ⟨.resolved, pa, ha, now⟩ ∨ (entry ∈ cache ∧ (Unique cache → entry.pa ≠ pa)) := by
  induction cache with
  | nil => simp [cacheUpdate] at h
  | cons first rest ih =>
      unfold cacheUpdate at h
      by_cases hpa : first.pa = pa
      · simp only [if_pos hpa, List.mem_cons] at h
        rcases h with rfl | h
        · exact .inl (by rw [hpa])
        · refine .inr ⟨List.mem_cons_of_mem _ h, ?_⟩
          rintro hunique rfl
          exact (List.nodup_cons.mp hunique).1 (List.mem_map.mpr ⟨entry, h, hpa.symm⟩)
      · simp only [if_neg hpa, List.mem_cons] at h
        rcases h with rfl | h
        · exact .inr ⟨List.mem_cons_self, fun _ ↦ hpa⟩
        · rcases ih h with heq | ⟨hmem, hne⟩
          · exact .inl heq
          · exact .inr ⟨List.mem_cons_of_mem _ hmem, fun hunique ↦
              hne (List.nodup_cons.mp hunique).2⟩

/-- What the loop of `cache_insert` finds. -/
theorem oldest_held (cache : Cache) :
    Scan.Held (fun entry : CacheEntry ↦ decide (entry.state = .static))
      (fun entry ↦ entry.timestamp) cache cache.length (oldest cache) :=
  Scan.firstLeast_held _ _ cache

/-- Where no entry is static, `cache_insert` appends to a cache with room, and in a full one
overwrites the first of the oldest. -/
theorem cacheInsert_cases (hdynamic : ∀ entry ∈ cache, entry.state ≠ .static) (now : Nat)
    (pa : IpAddr) (ha : EtherAddr) (state : CacheState) :
    (cache.length < cacheSize ∧
      cacheInsert now cache pa ha state = cache ++ [⟨state, pa, ha, now⟩]) ∨
    ∃ i entry, cacheSize ≤ cache.length ∧ oldest cache = some i ∧ cache[i]? = some entry ∧
      (∀ j other, cache[j]? = some other → entry.timestamp ≤ other.timestamp ∧
        (j < i → entry.timestamp < other.timestamp)) ∧
      cacheInsert now cache pa ha state = cache.set i ⟨state, pa, ha, now⟩ := by
  unfold cacheInsert
  by_cases hroom : cache.length < cacheSize
  · exact .inl ⟨hroom, if_pos hroom⟩
  refine .inr ?_
  rw [if_neg hroom]
  have hkept : ∀ {j : Nat} {other : CacheEntry}, cache[j]? = some other →
      decide (other.state = .static) = false := by
    intro j other hother
    simpa using hdynamic other (List.mem_of_getElem? hother)
  have hheld := oldest_held cache
  cases hold : oldest cache with
  | none =>
      -- The first entry of a full cache is not static.
      rw [hold] at hheld
      have hlt : 0 < cache.length := by
        have hsize : (0 : Nat) < cacheSize := by decide
        omega
      have hget : cache[0]? = some (cache.get ⟨0, hlt⟩) := by simp [List.getElem?_eq_getElem hlt]
      exact absurd ((hheld 0 _ hlt hget).symm.trans (hkept hget)) (by simp)
  | some i =>
      rw [hold] at hheld
      obtain ⟨entry, hleast⟩ := hheld
      refine ⟨i, entry, Nat.le_of_not_lt hroom, rfl, hleast.at_index, fun j other hother ↦ ?_, rfl⟩
      obtain ⟨hlt, -⟩ := List.getElem?_eq_some_iff.mp hother
      exact hleast.least j other hlt hother (hkept hother)

theorem mem_cacheInsert {state : CacheState} {entry : CacheEntry}
    (h : entry ∈ cacheInsert now cache pa ha state) :
    entry = ⟨state, pa, ha, now⟩ ∨ entry ∈ cache := by
  unfold cacheInsert at h
  split at h
  · rcases List.mem_append.mp h with h | h
    · exact .inr h
    · exact .inl (List.mem_singleton.mp h)
  · split at h
    · exact (List.mem_or_eq_of_mem_set h).symm
    · exact .inr h

theorem length_cacheInsert_le (h : cache.length ≤ cacheSize) (state : CacheState) :
    (cacheInsert now cache pa ha state).length ≤ cacheSize := by
  unfold cacheInsert
  split
  · next hroom => simpa using Nat.succ_le_of_lt hroom
  · split
    · simpa using h
    · exact h

/-- `on_timer` keeps what has not expired, in order. -/
theorem onTimer_eq (now : Nat) (cache : Cache) :
    onTimer now cache = cache.filter fun entry ↦ !entry.expired now :=
  Scan.removeFrom_zero _ _

/-- `cache_insert` finds no entry for `pa` but the one it evicts. -/
def Clear (cache : Cache) (pa : IpAddr) : Prop :=
  ∀ i entry, cache[i]? = some entry → entry.pa = pa →
    cacheSize ≤ cache.length ∧ oldest cache = some i

theorem Lacks.clear (h : Lacks cache pa) : Clear cache pa :=
  fun _ entry hi hpa ↦ absurd hpa (h entry (List.mem_of_getElem? hi))

/-- Overwriting one of several different elements leaves them different if the new one is
not among the others. -/
theorem nodup_set_iff {α : Type} {l : List α} {i : Nat} {a : α} (h : l.Nodup) (hi : i < l.length) :
    (l.set i a).Nodup ↔ ∀ j, l[j]? = some a → j = i := by
  constructor
  · intro hnodup j hj
    by_contra hne
    obtain ⟨hlt, hget⟩ := List.getElem?_eq_some_iff.mp hj
    have hi' : i < (l.set i a).length := by simpa using hi
    have hj' : j < (l.set i a).length := by simpa using hlt
    have heq : (l.set i a)[j] = (l.set i a)[i] := by
      rw [List.getElem_set_self, List.getElem_set_ne (Ne.symm hne), hget]
    exact hne (hnodup.getElem_inj_iff.mp heq)
  · intro hother
    rw [List.nodup_iff_injective_get]
    rintro ⟨j, hj⟩ ⟨k, hk⟩ heq
    have hj' : j < l.length := by simpa using hj
    have hk' : k < l.length := by simpa using hk
    simp only [List.get_eq_getElem, List.getElem_set] at heq
    rw [Fin.mk.injEq]
    split at heq
    · next hij =>
      subst hij
      split at heq
      · assumption
      · exact (hother k (List.getElem?_eq_some_iff.mpr ⟨hk', heq.symm⟩)).symm
    · split at heq
      · next hik =>
        subst hik
        exact hother j (List.getElem?_eq_some_iff.mpr ⟨hj', heq⟩)
      · exact h.getElem_inj_iff.mp heq

/-- **When an insertion keeps the addresses different.** -/
theorem unique_cacheInsert_iff (hdynamic : ∀ entry ∈ cache, entry.state ≠ .static)
    (hunique : Unique cache) {state : CacheState} :
    Unique (cacheInsert now cache pa ha state) ↔ Clear cache pa := by
  rcases cacheInsert_cases hdynamic now pa ha state with ⟨hroom, heq⟩ | ⟨i, entry, hfull, hold, hi, -, heq⟩
  · rw [heq, Unique, List.map_append, List.map_singleton, List.nodup_append]
    constructor
    · rintro ⟨-, -, hdisjoint⟩ j other hj rfl
      exact absurd rfl (hdisjoint _ (List.mem_map_of_mem (List.mem_of_getElem? hj)) other.pa
        List.mem_cons_self)
    · intro hclear
      refine ⟨hunique, by simp, ?_⟩
      rintro a ha b hb rfl
      obtain ⟨other, hother, rfl⟩ := List.mem_map.mp ha
      obtain ⟨j, hj⟩ := List.getElem?_of_mem hother
      have := (hclear j other hj (List.mem_singleton.mp hb)).1
      omega
  · obtain ⟨hlt, -⟩ := List.getElem?_eq_some_iff.mp hi
    rw [heq, Unique, List.map_set, nodup_set_iff hunique (by simpa using hlt)]
    constructor
    · rintro hother j other hj rfl
      have hj : j = i := hother j (by simp [hj])
      exact ⟨hfull, hj ▸ hold⟩
    · intro hclear j hj
      rw [List.getElem?_map] at hj
      obtain ⟨other, hother, hpa⟩ := Option.map_eq_some_iff.mp hj
      exact Option.some.inj ((hclear j other hother hpa).2.symm.trans hold)

end

/-! ## Calls that run one at a time -/

/-- The calls of the module. -/
inductive Call where
  | resolve (dev : Device) (iface : IpIface) (pa : IpAddr)
  | input (dev : Device) (data : List U8)
  | onTimer

/-- A call, with the time at which it runs and what its device takes. -/
structure Stamped where
  now : Nat
  takes : Packet → Bool
  call : Call

namespace Stamped

/-- The cache after a call. -/
def perform (s : Stamped) (cache : Cache) : Cache :=
  match s.call with
  | .resolve dev iface pa => (Arp.resolve s.takes s.now dev iface cache pa).cache
  | .input dev data => (Arp.input s.now dev cache data).cache
  | .onTimer => Arp.onTimer s.now cache

/-- The sender of a valid packet. -/
def sender (s : Stamped) : Option (IpAddr × EtherAddr) :=
  match s.call with
  | .input _ data => (parse data).map fun r ↦ (r.2.spa, r.2.sha)
  | _ => none

end Stamped

/-- The cache after a sequence of calls, the last of which comes first. -/
def run (past : List Stamped) : Cache := past.foldr Stamped.perform []

/-- The last valid packet from `pa` was sent by `ha`, and it came at time `t`, less than
thirty seconds before every run of `on_timer` since. -/
def Freshest (past : List Stamped) (pa : IpAddr) (ha : EtherAddr) (t : Nat) : Prop :=
  ∃ later s earlier, past = later ++ s :: earlier ∧ s.sender = some (pa, ha) ∧ s.now = t ∧
    (∀ s' ∈ later, ∀ ha', s'.sender ≠ some (pa, ha')) ∧
    ∀ s' ∈ later, s'.call = .onTimer → s'.now < t + cacheTimeout

section

variable {past : List Stamped} {s : Stamped} {pa : IpAddr} {ha : EtherAddr} {t : Nat}

theorem Freshest.now (h : s.sender = some (pa, ha)) : Freshest (s :: past) pa ha s.now :=
  ⟨[], s, past, rfl, h, rfl, by simp, by simp⟩

theorem Freshest.cons (h : Freshest past pa ha t) (hsender : ∀ ha', s.sender ≠ some (pa, ha'))
    (htimer : s.call = .onTimer → s.now < t + cacheTimeout) : Freshest (s :: past) pa ha t := by
  obtain ⟨later, s₀, earlier, rfl, hs₀, rfl, hlast, hyoung⟩ := h
  refine ⟨s :: later, s₀, earlier, rfl, hs₀, rfl, ?_, ?_⟩
  · exact List.forall_mem_cons.mpr ⟨hsender, hlast⟩
  · exact List.forall_mem_cons.mpr ⟨htimer, hyoung⟩

end

/-- What holds of the cache after the calls `past`. -/
structure CacheInv (past : List Stamped) (cache : Cache) : Prop where
  size : cache.length ≤ cacheSize
  dynamic : ∀ entry ∈ cache, entry.state ≠ .static
  unique : Unique cache
  fresh : ∀ entry ∈ cache, entry.state = .resolved →
    Freshest past entry.pa entry.ha entry.timestamp

namespace CacheInv

variable {past : List Stamped} {s : Stamped} {cache : Cache}

/-- A call that does not touch the cache. -/
theorem idle (h : CacheInv past cache) (hsender : s.sender = none) (hcall : s.call ≠ .onTimer) :
    CacheInv (s :: past) cache where
  size := h.size
  dynamic := h.dynamic
  unique := h.unique
  fresh entry hentry hstate := (h.fresh entry hentry hstate).cons (by simp [hsender])
    fun hev ↦ absurd hev hcall

/-- `cache_insert`, where there is no entry for the address. -/
theorem insert (h : CacheInv past cache) {pa : IpAddr} (hlacks : Lacks cache pa) {now : Nat}
    {ha : EtherAddr} {state : CacheState} (hstate : state ≠ .static)
    (hfresh : state = .resolved → Freshest past pa ha now) :
    CacheInv past (cacheInsert now cache pa ha state) where
  size := length_cacheInsert_le h.size state
  dynamic entry hentry := by
    rcases mem_cacheInsert hentry with rfl | hold
    · exact hstate
    · exact h.dynamic entry hold
  unique := (unique_cacheInsert_iff h.dynamic h.unique).mpr hlacks.clear
  fresh entry hentry hresolved := by
    rcases mem_cacheInsert hentry with rfl | hold
    · exact hfresh hresolved
    · exact h.fresh entry hold hresolved

/-- `cache_update` on a valid packet. -/
theorem update (h : CacheInv past cache) {pa : IpAddr} {ha : EtherAddr}
    (hsender : s.sender = some (pa, ha)) (hcall : s.call ≠ .onTimer) :
    CacheInv (s :: past) (cacheUpdate s.now pa ha cache).2 where
  size := by
    have hlen := congrArg List.length (map_pa_cacheUpdate s.now pa ha cache)
    simp only [List.length_map] at hlen
    exact hlen ▸ h.size
  dynamic entry hentry := by
    rcases mem_cacheUpdate hentry with rfl | ⟨hold, -⟩
    · simp
    · exact h.dynamic entry hold
  unique := by
    rw [Unique, map_pa_cacheUpdate]
    exact h.unique
  fresh entry hentry hresolved := by
    rcases mem_cacheUpdate hentry with rfl | ⟨hold, hne⟩
    · exact .now hsender
    · refine (h.fresh entry hold hresolved).cons (fun ha' heq ↦ hne h.unique ?_) fun hev ↦
        absurd hev hcall
      rw [hsender] at heq
      cases heq
      rfl

theorem timer (h : CacheInv past cache) (hcall : s.call = .onTimer) :
    CacheInv (s :: past) (onTimer s.now cache) := by
  rw [onTimer_eq]
  have hmem : ∀ entry ∈ cache.filter fun entry ↦ !entry.expired s.now,
      entry ∈ cache ∧ entry.expired s.now = false := by
    intro entry hentry
    simpa using List.mem_filter.mp hentry
  refine ⟨?_, ?_, ?_, ?_⟩
  · exact Nat.le_trans (List.length_filter_le _ _) h.size
  · intro entry hentry
    exact h.dynamic entry (hmem entry hentry).1
  · exact List.Nodup.sublist (List.filter_sublist.map _) h.unique
  · intro entry hentry hresolved
    obtain ⟨hold, hyoung⟩ := hmem entry hentry
    refine (h.fresh entry hold hresolved).cons (by simp [Stamped.sender, hcall]) fun _ ↦ ?_
    simp only [CacheEntry.expired, hresolved, decide_eq_false_iff_not] at hyoung
    simp only [ne_eq, reduceCtorEq, not_false_eq_true, true_and, Nat.not_le] at hyoung
    omega

/-- **One call.** -/
theorem perform (h : CacheInv past cache) (s : Stamped) :
    CacheInv (s :: past) (s.perform cache) := by
  obtain ⟨now, takes, call⟩ := s
  cases call with
  | resolve dev iface pa =>
      have hidle : CacheInv (⟨now, takes, .resolve dev iface pa⟩ :: past) cache :=
        h.idle rfl (by simp)
      simp only [Stamped.perform, Arp.resolve]
      split
      · exact hidle
      · exact hidle
      · exact hidle
      · next hnone => exact hidle.insert (cacheSelect_none hnone) (by simp) (by simp)
  | input dev data =>
      simp only [Stamped.perform, Arp.input]
      cases hparse : parse data with
      | none => exact h.idle (by simp [Stamped.sender, hparse]) (by simp)
      | some r =>
          obtain ⟨hdr, arp⟩ := r
          have hsender : (⟨now, takes, .input dev data⟩ : Stamped).sender =
              some (arp.spa, arp.sha) := by
            simp [Stamped.sender, hparse]
          have hupdate := h.update hsender (by simp)
          dsimp only
          split
          · exact hupdate
          split
          · split
            · exact hupdate
            · next hmerge =>
              obtain ⟨hlacks, heq⟩ := cacheUpdate_false (by simpa using hmerge)
              rw [heq] at hupdate ⊢
              exact hupdate.insert hlacks (by simp) fun _ ↦ .now hsender
          · exact hupdate
  | onTimer => exact h.timer rfl

/-- **Any sequence of calls.** -/
theorem run (past : List Stamped) : CacheInv past (Arp.run past) := by
  induction past with
  | nil => exact ⟨by decide, by simp [Arp.run], by simp [Arp.run, Unique], by simp [Arp.run]⟩
  | cons s past ih => exact ih.perform s

end CacheInv

/-- A host of the fixed runs, at its interface. -/
def hostIface : IpIface := ⟨⟨192, 0, 2, 1⟩, ⟨255, 255, 255, 0⟩, ⟨192, 0, 2, 255⟩, 1500⟩

def hostDev : Device where
  up := true
  mtu := 1500
  addr := ⟨0, 0, 0, 0, 0, 1⟩
  broadcast := .broadcast
  iface := some hostIface

/-- A request of the peer for the host. -/
def peerRequest : List U8 :=
  encode opRequest ⟨0, 0, 0, 0, 0, 2⟩ ⟨192, 0, 2, 2⟩ .any ⟨192, 0, 2, 1⟩

/-- The host is asked by the peer, and then looks for as many others as there is room for. -/
def fullPast : List Stamped :=
  ((List.range' 1 31).map fun i ↦ (⟨i, fun _ ↦ true,
    .resolve hostDev hostIface ⟨192, 0, 2, BitVec.ofNat 8 (2 + i)⟩⟩ : Stamped)).reverse ++
    [⟨0, fun _ ↦ true, .input hostDev peerRequest⟩]

/-- **The cache is correct** after any sequence of calls: it is never too long; what `resolve`
returns is the sender of the last valid packet from the address, which is not older than the
last `on_timer` allows; an insertion into a full cache replaces the first of the oldest
entries; and `on_timer` keeps those that are younger than thirty seconds.  Nothing of this
needs the clock to be monotonic. -/
theorem cache_correct (past : List Stamped) :
    (run past).length ≤ cacheSize ∧
    (∀ takes now dev iface pa ha,
      (resolve takes now dev iface (run past) pa).reply = .ok (some ha) →
        ∃ t, Freshest past pa ha t) ∧
    (∀ now pa ha state, (run past).length = cacheSize →
      ∃ i entry, (run past)[i]? = some entry ∧
        (∀ j other, (run past)[j]? = some other → entry.timestamp ≤ other.timestamp ∧
          (j < i → entry.timestamp < other.timestamp)) ∧
        cacheInsert now (run past) pa ha state = (run past).set i ⟨state, pa, ha, now⟩) ∧
    ∀ now, onTimer now (run past) =
      (run past).filter fun entry ↦ now - entry.timestamp < cacheTimeout := by
  have hinv := CacheInv.run past
  refine ⟨hinv.size, ?_, ?_, ?_⟩
  · intro takes now dev iface pa ha hreply
    unfold resolve at hreply
    split at hreply
    · next ha' hselect =>
      cases hreply
      obtain ⟨entry, hentry, rfl, hstate, rfl⟩ := cacheSelect_some hselect
      exact ⟨_, hinv.fresh entry hentry hstate⟩
    · next ha' hselect =>
      obtain ⟨entry, hentry, -, hstate, -⟩ := cacheSelect_some hselect
      exact absurd hstate (hinv.dynamic entry hentry)
    · exact absurd hreply (by simp)
    · dsimp only at hreply
      split at hreply
      · exact absurd hreply (by simp)
      · exact absurd hreply (by simp)
  · intro now pa ha state hfull
    rcases cacheInsert_cases hinv.dynamic now pa ha state with
      ⟨hroom, -⟩ | ⟨i, entry, -, -, hi, hleast, heq⟩
    · exact absurd hroom (by omega)
    · exact ⟨i, entry, hi, hleast, heq⟩
  · intro now
    rw [onTimer_eq]
    refine List.filter_congr fun entry hentry ↦ ?_
    have hdynamic := hinv.dynamic entry hentry
    by_cases hyoung : now - entry.timestamp < cacheTimeout
    · simp [CacheEntry.expired, hyoung]
    · simp [CacheEntry.expired, hdynamic, hyoung, Nat.le_of_not_lt hyoung]

/-- In a full cache the peer is found, and it is the peer that the next one replaces. -/
theorem cache_correct_full : (run fullPast).length = cacheSize ∧
    (∃ t, Freshest fullPast ⟨192, 0, 2, 2⟩ ⟨0, 0, 0, 0, 0, 2⟩ t) ∧
    ∃ entry, (run fullPast)[0]? = some entry ∧ entry.pa = ⟨192, 0, 2, 2⟩ ∧
      cacheInsert 40 (run fullPast) ⟨192, 0, 2, 99⟩ .any .incomplete =
        (run fullPast).set 0 ⟨.incomplete, ⟨192, 0, 2, 99⟩, .any, 40⟩ := by
  have hlen : (run fullPast).length = cacheSize := by decide +kernel
  have hreply : (resolve (fun _ ↦ true) 40 hostDev hostIface (run fullPast) ⟨192, 0, 2, 2⟩).reply =
      .ok (some ⟨0, 0, 0, 0, 0, 2⟩) := by decide +kernel
  have hpeer : (run fullPast)[0]? = some ⟨.resolved, ⟨192, 0, 2, 2⟩, ⟨0, 0, 0, 0, 0, 2⟩, 0⟩ := by
    decide +kernel
  obtain ⟨-, hresolve, hfull, -⟩ := cache_correct fullPast
  obtain ⟨i, entry, hi, hleast, hinsert⟩ := hfull 40 ⟨192, 0, 2, 99⟩ .any .incomplete hlen
  -- Nothing is older than the entry of the peer, which comes first.
  obtain rfl : i = 0 := by
    obtain ⟨-, hfirst⟩ := hleast 0 _ hpeer
    by_contra hne
    exact absurd (hfirst (Nat.pos_of_ne_zero hne)) (Nat.not_lt_zero _)
  exact ⟨hlen, hresolve _ _ _ _ _ _ hreply, _, hpeer, rfl, hinsert⟩

/-- The peer is known for thirty seconds after its request. -/
example : (run [⟨29999999999, fun _ ↦ true, .onTimer⟩,
      ⟨0, fun _ ↦ true, .input hostDev peerRequest⟩]).map (·.ha) = [⟨0, 0, 0, 0, 0, 2⟩] ∧
    run [⟨30000000000, fun _ ↦ true, .onTimer⟩,
      ⟨0, fun _ ↦ true, .input hostDev peerRequest⟩] = [] := by
  decide +kernel

end Microps.Arp
