import Microps.Arp.Cache

/-!
# Static entries

`cache_insert` does not evict a static entry and `on_timer` does not delete one.  `cache_update`
has no such test: a packet from the address of a static entry overwrites it.  That is the one way
in which a static entry is lost.
-/

namespace Microps.Arp

/-- The static entries: their protocol and hardware addresses, in order. -/
def statics (cache : Cache) : List (IpAddr × EtherAddr) :=
  (cache.filter fun entry ↦ entry.state = .static).map fun entry ↦ (entry.pa, entry.ha)

/-- Every static entry keeps its state, protocol address and hardware address. -/
def KeepsStatic (cache cache' : Cache) : Prop := (statics cache).Sublist (statics cache')

/-- What changes the cache: the calls of the module, and an insertion by itself. -/
inductive Change where
  | call (s : Stamped)
  | insert (now : Nat) (pa : IpAddr) (ha : EtherAddr) (state : CacheState)

namespace Change

/-- The cache after a change. -/
def apply (cache : Cache) : Change → Cache
  | .call s => s.perform cache
  | .insert now pa ha state => cacheInsert now cache pa ha state

/-- A valid packet comes from an address whose entry, the first one for it, is static. -/
def Overwrites (cache : Cache) : Change → Prop
  | .call s => ∃ pa ha, s.sender = some (pa, ha) ∧
      ((cacheSelect cache pa).map Prod.fst) = some .static
  | .insert _ _ _ _ => False

end Change

/-- The cache after a sequence of changes. -/
def after (cache : Cache) (changes : List Change) : Cache := changes.foldl Change.apply cache

/-! ## The critical sections -/

section

variable {now : Nat} {pa : IpAddr} {ha : EtherAddr} {cache : Cache}

/-- Overwriting an element that fails a test loses none that pass it. -/
theorem filter_sublist_set {α : Type} {p : α → Bool} {l : List α} {i : Nat} {a b : α}
    (hi : l[i]? = some a) (hp : p a = false) : (l.filter p).Sublist ((l.set i b).filter p) := by
  induction l generalizing i with
  | nil => exact absurd hi (by simp)
  | cons first rest ih =>
      cases i with
      | zero =>
          obtain rfl : first = a := Option.some.inj hi
          rw [List.set_cons_zero, List.filter_cons_of_neg (by simp [hp])]
          exact (List.sublist_cons_self b rest).filter p
      | succ i =>
          rw [List.set_cons_succ, List.filter_cons, List.filter_cons]
          split
          · exact (ih hi).cons_cons first
          · exact ih hi

/-- `cache_insert` evicts no static entry. -/
theorem keepsStatic_cacheInsert (now : Nat) (cache : Cache) (pa : IpAddr) (ha : EtherAddr)
    (state : CacheState) : KeepsStatic cache (cacheInsert now cache pa ha state) := by
  unfold cacheInsert
  split
  · refine List.Sublist.map _ ?_
    rw [List.filter_append]
    exact List.sublist_append_left _ _
  · have hheld := oldest_held cache
    split
    · next i hold =>
      rw [hold] at hheld
      obtain ⟨entry, hleast⟩ := hheld
      exact List.Sublist.map _ (filter_sublist_set hleast.at_index hleast.kept)
    · exact List.Sublist.refl _

/-- `on_timer` deletes no static entry. -/
theorem statics_onTimer (now : Nat) (cache : Cache) : statics (onTimer now cache) = statics cache := by
  have hkept : ∀ entry : CacheEntry,
      (decide (entry.state = .static) && !entry.expired now) = decide (entry.state = .static) := by
    intro entry
    by_cases hstatic : entry.state = .static
    · simp [CacheEntry.expired, hstatic]
    · simp [hstatic]
  rw [statics, onTimer_eq, List.filter_filter, statics]
  simp only [hkept]

/-- `cache_update` leaves the static entries alone if the entry that it overwrites is not one. -/
theorem statics_cacheUpdate (h : (cacheSelect cache pa).map Prod.fst ≠ some .static) :
    statics (cacheUpdate now pa ha cache).2 = statics cache := by
  induction cache with
  | nil => rfl
  | cons entry rest ih =>
      unfold cacheUpdate
      by_cases hpa : entry.pa = pa
      · have hstate : entry.state ≠ .static := by
          simpa [cacheSelect, hpa] using h
        simp [hpa, statics, hstate]
      · have hrest : (cacheSelect rest pa).map Prod.fst ≠ some .static := by
          simpa [cacheSelect, hpa] using h
        have := ih hrest
        simp only [statics] at this
        by_cases hstatic : entry.state = .static
        · simp [hpa, statics, hstatic, this]
        · simp [hpa, statics, hstatic, this]

/-- Otherwise there is one less. -/
theorem length_statics_cacheUpdate (h : (cacheSelect cache pa).map Prod.fst = some .static) :
    (statics (cacheUpdate now pa ha cache).2).length + 1 = (statics cache).length := by
  induction cache with
  | nil => exact absurd h (by simp [cacheSelect])
  | cons entry rest ih =>
      unfold cacheUpdate
      by_cases hpa : entry.pa = pa
      · have hstate : entry.state = .static := by
          simpa [cacheSelect, hpa] using h
        simp [hpa, statics, hstate]
      · have hrest : (cacheSelect rest pa).map Prod.fst = some .static := by
          simpa [cacheSelect, hpa] using h
        have := ih hrest
        simp only [statics, List.length_map] at this
        by_cases hstatic : entry.state = .static
        · simp [hpa, statics, hstatic, this]
        · simp [hpa, statics, hstatic, this]

end

/-! ## Changes -/

section

variable {cache : Cache}

/-- `input` is `cache_update` with the sender of a valid packet, and perhaps an insertion where
there was no entry. -/
theorem input_cases (now : Nat) (dev : Device) (cache : Cache) (data : List U8) :
    (parse data = none ∧ (input now dev cache data).cache = cache) ∨
      ∃ hdr arp, parse data = some (hdr, arp) ∧
        ((input now dev cache data).cache = (cacheUpdate now arp.spa arp.sha cache).2 ∨
          (cacheUpdate now arp.spa arp.sha cache).1 = false ∧
            (input now dev cache data).cache = cacheInsert now
              (cacheUpdate now arp.spa arp.sha cache).2 arp.spa arp.sha .resolved) := by
  unfold input
  cases hparse : parse data with
  | none => exact .inl ⟨rfl, rfl⟩
  | some r =>
      obtain ⟨hdr, arp⟩ := r
      refine .inr ⟨hdr, arp, rfl, ?_⟩
      dsimp only
      split
      · exact .inl rfl
      split
      · by_cases hmerge : (cacheUpdate now arp.spa arp.sha cache).1 = true
        · exact .inl (if_pos hmerge)
        · exact .inr ⟨by simpa using hmerge, if_neg hmerge⟩
      · exact .inl rfl

/-- A change that overwrites no static entry keeps them all. -/
theorem Change.keepsStatic {change : Change} (h : ¬ change.Overwrites cache) :
    KeepsStatic cache (change.apply cache) := by
  cases change with
  | insert now pa ha state => exact keepsStatic_cacheInsert now cache pa ha state
  | call s =>
      obtain ⟨now, takes, call⟩ := s
      cases call with
      | onTimer =>
          rw [KeepsStatic]
          exact (statics_onTimer now cache).symm ▸ List.Sublist.refl _
      | resolve dev iface pa =>
          change KeepsStatic cache (resolve takes now dev iface cache pa).cache
          unfold resolve
          split
          · exact List.Sublist.refl _
          · exact List.Sublist.refl _
          · exact List.Sublist.refl _
          · exact keepsStatic_cacheInsert now cache pa .any .incomplete
      | input dev data =>
          change KeepsStatic cache (input now dev cache data).cache
          rcases input_cases now dev cache data with ⟨-, heq⟩ | ⟨hdr, arp, hparse, hcases⟩
          · rw [heq]
            exact List.Sublist.refl _
          have hselect : (cacheSelect cache arp.spa).map Prod.fst ≠ some .static := by
            intro hstatic
            exact h ⟨arp.spa, arp.sha, by simp [Stamped.sender, hparse], hstatic⟩
          have hupdate : statics (cacheUpdate now arp.spa arp.sha cache).2 = statics cache :=
            statics_cacheUpdate hselect
          rcases hcases with heq | ⟨-, heq⟩
          · rw [heq, KeepsStatic, hupdate]
          · rw [heq, KeepsStatic, ← hupdate]
            exact keepsStatic_cacheInsert _ _ _ _ _

/-- A change that overwrites one loses it. -/
theorem Change.not_keepsStatic {change : Change} (h : change.Overwrites cache) :
    ¬ KeepsStatic cache (change.apply cache) := by
  cases change with
  | insert now pa ha state => exact absurd h id
  | call s =>
      obtain ⟨now, takes, call⟩ := s
      cases call with
      | onTimer =>
          obtain ⟨pa, ha, hsender, -⟩ := h
          exact absurd hsender (by simp [Stamped.sender])
      | resolve dev iface pa =>
          obtain ⟨pa, ha, hsender, -⟩ := h
          exact absurd hsender (by simp [Stamped.sender])
      | input dev data =>
          intro hkeeps
          change KeepsStatic cache (input now dev cache data).cache at hkeeps
          obtain ⟨pa, ha, hsender, hstatic⟩ := h
          rcases input_cases now dev cache data with ⟨hparse, -⟩ | ⟨hdr, arp, hparse, hcases⟩
          · exact absurd hsender (by simp [Stamped.sender, hparse])
          obtain ⟨rfl, rfl⟩ : arp.spa = pa ∧ arp.sha = ha := by
            simpa [Stamped.sender, hparse] using hsender
          have hlen : (statics (cacheUpdate now arp.spa arp.sha cache).2).length + 1 =
              (statics cache).length := length_statics_cacheUpdate hstatic
          rcases hcases with heq | ⟨hfalse, -⟩
          · rw [heq] at hkeeps
            have := hkeeps.length_le
            omega
          · -- There was an entry, so it has been updated.
            have hlacks := (cacheUpdate_false hfalse).1
            cases hselect : cacheSelect cache arp.spa with
            | none => exact absurd hstatic (by simp [hselect])
            | some found =>
                obtain ⟨state, ha⟩ := found
                obtain ⟨entry, hmem, hpa, -⟩ := cacheSelect_some hselect
                exact hlacks entry hmem hpa

end

/-! ## Runs -/

theorem after_take_succ (cache : Cache) {changes : List Change} {i : Nat} {change : Change}
    (h : changes[i]? = some change) :
    after cache (changes.take (i + 1)) = change.apply (after cache (changes.take i)) := by
  rw [after, List.take_add_one, h, Option.toList_some, List.foldl_append]
  rfl

/-- **When static entries are permanent**: exactly in the runs in which no valid packet comes from
the address of a static entry. -/
theorem static_permanent_iff (cache : Cache) (changes : List Change) :
    (∀ i j : Nat, i ≤ j → KeepsStatic (after cache (changes.take i)) (after cache (changes.take j))) ↔
      ∀ (i : Nat) (change : Change), changes[i]? = some change →
        ¬ change.Overwrites (after cache (changes.take i)) := by
  constructor
  · intro hkeeps i change hchange hover
    have hstep := hkeeps i (i + 1) (Nat.le_succ i)
    rw [after_take_succ cache hchange] at hstep
    exact Change.not_keepsStatic hover hstep
  · intro hno i j hij
    induction j, hij using Nat.le_induction with
    | base => exact List.Sublist.refl _
    | succ j hij ih =>
        cases hchange : changes[j]? with
        | none =>
            -- The run is over.
            have hlen : changes.length ≤ j := List.getElem?_eq_none_iff.mp hchange
            rw [List.take_of_length_le (Nat.le_succ_of_le hlen)]
            rwa [List.take_of_length_le hlen] at ih
        | some change =>
            rw [after_take_succ cache hchange]
            exact ih.trans (Change.keepsStatic (hno j change hchange))

/-- A cache with one static entry. -/
def staticCache : Cache := [⟨.static, ⟨192, 0, 2, 2⟩, ⟨2, 0, 0, 0, 0, 2⟩, 0⟩]

/-- A packet from the address of that entry, with another hardware address. -/
def forgedPacket : Change :=
  .call {
    now := 5
    takes := fun _ ↦ true
    call := .input { up := true, mtu := 1500, addr := .any, broadcast := .broadcast, iface := none }
      (encode opReply ⟨2, 0, 0, 0, 0, 0x66⟩ ⟨192, 0, 2, 2⟩ .any ⟨192, 0, 2, 1⟩) }

/-- The packet takes it over. -/
theorem static_not_permanent :
    after staticCache [forgedPacket] =
        [⟨.resolved, ⟨192, 0, 2, 2⟩, ⟨2, 0, 0, 0, 0, 0x66⟩, 5⟩] ∧
      ¬ KeepsStatic staticCache (after staticCache [forgedPacket]) := by
  have hafter : after staticCache [forgedPacket] =
      [⟨.resolved, ⟨192, 0, 2, 2⟩, ⟨2, 0, 0, 0, 0, 0x66⟩, 5⟩] := by
    decide +kernel
  refine ⟨hafter, fun hkeeps ↦ ?_⟩
  rw [hafter] at hkeeps
  exact absurd hkeeps.length_le (by decide)

end Microps.Arp
