import Microps.Arp.Cache

/-!
# Calls that overlap

`resolve` and `input` look for an entry in one critical section and insert one in another, and
the calls of other threads may come between.  A `Race` is the cache with the insertions that
calls are about to make, and `Race.step` runs one critical section of one of them.
-/

namespace Microps.Arp

/-- A call of `cache_insert` that is still to come. -/
structure Insertion where
  pa : IpAddr
  ha : EtherAddr
  state : CacheState
deriving DecidableEq, Repr

/-- The cache and the calls that have looked in vain. -/
structure Race where
  cache : Cache := []
  pending : List Insertion := []
deriving DecidableEq, Repr

/-- The critical sections. -/
inductive Section where
  /-- `resolve` looks for an entry. -/
  | select (pa : IpAddr)
  /-- `input` looks for an entry and overwrites it. -/
  | update (now : Nat) (dev : Device) (data : List U8)
  /-- A call that has looked in vain inserts one. -/
  | insert (now : Nat) (i : Nat)
  /-- `on_timer`. -/
  | timer (now : Nat)

/-- The packet is for the interface of the device. -/
def isForUs (dev : Device) (arp : ArpEtherIP) : Bool :=
  dev.iface.any fun iface ↦ arp.tpa = iface.unicast

/-- Run one critical section. -/
def Race.step (r : Race) : Section → Race
  | .select pa => match cacheSelect r.cache pa with
    | none => { r with pending := r.pending ++ [⟨pa, .any, .incomplete⟩] }
    | some _ => r
  | .update now dev data => match parse data with
    | none => r
    | some (_, arp) =>
        let (merge, cache) := cacheUpdate now arp.spa arp.sha r.cache
        { cache := cache
          pending := if isForUs dev arp && !merge then
              r.pending ++ [⟨arp.spa, arp.sha, .resolved⟩]
            else r.pending }
  | .insert now i => match r.pending[i]? with
    | none => r
    | some ins =>
        { cache := cacheInsert now r.cache ins.pa ins.ha ins.state
          pending := r.pending.eraseIdx i }
  | .timer now => { r with cache := onTimer now r.cache }

/-- Run critical sections, of any calls and in any order. -/
def Race.run (r : Race) (sections : List Section) : Race := sections.foldl Race.step r

/-! ## One call on its own -/

/-- The critical sections of a call, where `i` insertions are pending before it. -/
def Stamped.sections (s : Stamped) (i : Nat) : List Section :=
  match s.call with
  | .resolve _ _ pa => [.select pa, .insert s.now i]
  | .input dev data => [.update s.now dev data, .insert s.now i]
  | .onTimer => [.timer s.now]

theorem Race.step_insert_of_le {r : Race} {i : Nat} (h : r.pending.length ≤ i) (now : Nat) :
    r.step (.insert now i) = r := by
  simp [step, List.getElem?_eq_none h]

theorem Race.step_insert_last (cache : Cache) (pending : List Insertion) (ins : Insertion)
    (now : Nat) :
    step ⟨cache, pending ++ [ins]⟩ (.insert now pending.length) =
      ⟨cacheInsert now cache ins.pa ins.ha ins.state, pending⟩ := by
  simp only [step, List.getElem?_concat_length]
  rw [List.eraseIdx_append_of_length_le (Nat.le_refl _)]
  simp

/-- The sections of a call with no other in between are the call. -/
theorem Race.run_sections (r : Race) (s : Stamped) :
    r.run (s.sections r.pending.length) = { r with cache := s.perform r.cache } := by
  obtain ⟨cache, pending⟩ := r
  obtain ⟨now, takes, call⟩ := s
  cases call with
  | resolve dev iface pa =>
      change ((⟨cache, pending⟩ : Race).step (.select pa)).step (.insert now pending.length) =
        ⟨(resolve takes now dev iface cache pa).cache, pending⟩
      cases hselect : cacheSelect cache pa with
      | none =>
          have hstep : (⟨cache, pending⟩ : Race).step (.select pa) =
              ⟨cache, pending ++ [⟨pa, .any, .incomplete⟩]⟩ := by
            simp [Race.step, hselect]
          rw [hstep, Race.step_insert_last]
          simp [resolve, hselect]
      | some r =>
          obtain ⟨state, ha⟩ := r
          have hsame : (resolve takes now dev iface cache pa).cache = cache := by
            cases state <;> simp [resolve, hselect]
          have hstep : (⟨cache, pending⟩ : Race).step (.select pa) = ⟨cache, pending⟩ := by
            simp [Race.step, hselect]
          rw [hstep, hsame, Race.step_insert_of_le (Nat.le_refl _)]
  | input dev data =>
      change ((⟨cache, pending⟩ : Race).step (.update now dev data)).step
        (.insert now pending.length) = ⟨(input now dev cache data).cache, pending⟩
      cases hparse : parse data with
      | none =>
          have hstep : (⟨cache, pending⟩ : Race).step (.update now dev data) =
              ⟨cache, pending⟩ := by
            simp [Race.step, hparse]
          rw [hstep, Race.step_insert_of_le (Nat.le_refl _)]
          simp [input, hparse]
      | some p =>
          obtain ⟨hdr, arp⟩ := p
          have hidle : (⟨(cacheUpdate now arp.spa arp.sha cache).2, pending⟩ : Race).step
              (.insert now pending.length) =
                ⟨(cacheUpdate now arp.spa arp.sha cache).2, pending⟩ :=
            Race.step_insert_of_le (Nat.le_refl _) now
          have hlast := Race.step_insert_last (cacheUpdate now arp.spa arp.sha cache).2 pending
            ⟨arp.spa, arp.sha, .resolved⟩ now
          simp only [Race.step.eq_2, hparse, input]
          cases hiface : dev.iface with
          | none => simpa [isForUs, hiface] using hidle
          | some iface =>
              by_cases htpa : arp.tpa = iface.unicast
              · cases hmerge : (cacheUpdate now arp.spa arp.sha cache).1 with
                | true => simpa [isForUs, hiface, htpa] using hidle
                | false => simpa [isForUs, hiface, htpa] using hlast
              · simpa [isForUs, hiface, htpa] using hidle
  | onTimer => rfl

/-! ## When the addresses stay different -/

/-- An insertion finds no entry for its address but the one it evicts. -/
def Permits (r : Race) : Section → Prop
  | .insert _ i => ∀ ins, r.pending[i]? = some ins → Clear r.cache ins.pa
  | _ => True

/-- Where `resolve` is about to insert an entry, it has found none. -/
theorem Race.clear_of_select {r : Race} {pa : IpAddr} {ins : Insertion}
    (h : (r.step (.select pa)).pending[r.pending.length]? = some ins) :
    Clear (r.step (.select pa)).cache ins.pa := by
  obtain ⟨cache, pending⟩ := r
  simp only [Race.step] at h ⊢
  split at h
  · next hselect =>
    rw [List.getElem?_concat_length] at h
    cases h
    exact (cacheSelect_none hselect).clear
  · exact absurd ((List.getElem?_eq_none (Nat.le_refl _)).symm.trans h) (by simp)

/-- Where `input` is about to insert an entry, it has found none to update. -/
theorem Race.clear_of_update {r : Race} {now : Nat} {dev : Device} {data : List U8}
    {ins : Insertion}
    (h : (r.step (.update now dev data)).pending[r.pending.length]? = some ins) :
    Clear (r.step (.update now dev data)).cache ins.pa := by
  obtain ⟨cache, pending⟩ := r
  have hnone : pending[pending.length]? = none := List.getElem?_eq_none (Nat.le_refl _)
  simp only [Race.step] at h ⊢
  split at h
  · exact absurd (hnone.symm.trans h) (by simp)
  · next hdr arp hparse =>
    dsimp only at h ⊢
    split at h
    · next hmerge =>
      rw [List.getElem?_concat_length] at h
      cases h
      have hmissed : (cacheUpdate now arp.spa arp.sha cache).1 = false := by
        simpa using (Bool.and_eq_true_iff.mp hmerge).2
      obtain ⟨hlacks, hsame⟩ := cacheUpdate_false hmissed
      rw [hsame]
      exact hlacks.clear
    · exact absurd (hnone.symm.trans h) (by simp)

/-- The sections of a call with no other in between: what the call inserts it has just looked for
in vain. -/
theorem permits_sections {r : Race} {s : Stamped} {n : Nat} {sec : Section}
    (h : (s.sections r.pending.length)[n]? = some sec) :
    Permits (r.run ((s.sections r.pending.length).take n)) sec := by
  obtain ⟨now, takes, call⟩ := s
  cases call with
  | resolve dev iface pa =>
      rcases n with _ | _ | n
      · cases h
        trivial
      · cases h
        exact fun ins hins ↦ Race.clear_of_select hins
      · exact absurd h (by simp [Stamped.sections])
  | input dev data =>
      rcases n with _ | _ | n
      · cases h
        trivial
      · cases h
        exact fun ins hins ↦ Race.clear_of_update hins
      · exact absurd h (by simp [Stamped.sections])
  | onTimer =>
      rcases n with _ | n
      · cases h
        trivial
      · exact absurd h (by simp [Stamped.sections])

/-- **Calls that do not overlap** never insert what is there. -/
theorem permits_calls (calls : List Stamped) {r : Race} (hpending : r.pending = []) {n : Nat}
    {sec : Section} (h : (calls.flatMap (·.sections 0))[n]? = some sec) :
    Permits (r.run ((calls.flatMap (·.sections 0)).take n)) sec := by
  induction calls generalizing r n with
  | nil => exact absurd h (by simp)
  | cons s calls ih =>
      have hzero : r.pending.length = 0 := by rw [hpending]; rfl
      rw [List.flatMap_cons] at h ⊢
      by_cases hn : n < (s.sections 0).length
      · rw [List.getElem?_append_left hn] at h
        rw [List.take_append_of_le_length (Nat.le_of_lt hn)]
        rw [← hzero] at h ⊢
        exact permits_sections h
      · rw [Nat.not_lt] at hn
        rw [List.getElem?_append_right hn] at h
        have hfirst := Race.run_sections r s
        rw [hzero] at hfirst
        rw [List.take_append, List.take_of_length_le hn, Race.run, List.foldl_append]
        change Permits (Race.run (Race.run r (s.sections 0)) _) sec
        rw [hfirst]
        exact ih (r := { r with cache := s.perform r.cache }) hpending h

/-- Nothing is static, in the cache or on its way there. -/
structure Dynamic (r : Race) : Prop where
  cache : ∀ entry ∈ r.cache, entry.state ≠ .static
  pending : ∀ ins ∈ r.pending, ins.state ≠ .static

theorem Dynamic.step {r : Race} (h : Dynamic r) (sec : Section) : Dynamic (r.step sec) := by
  have hpush : ∀ ins : Insertion, ins.state ≠ .static → ∀ ins' ∈ r.pending ++ [ins],
      ins'.state ≠ .static := by
    intro ins hins ins' hmem
    rcases List.mem_append.mp hmem with hold | hnew
    · exact h.pending ins' hold
    · exact List.mem_singleton.mp hnew ▸ hins
  cases sec with
  | select pa =>
      simp only [Race.step]
      split
      · exact ⟨h.cache, hpush _ (by simp)⟩
      · exact h
  | update now dev data =>
      simp only [Race.step]
      split
      · exact h
      · refine ⟨fun entry hentry ↦ ?_, ?_⟩
        · rcases mem_cacheUpdate hentry with rfl | ⟨hold, -⟩
          · simp
          · exact h.cache entry hold
        · dsimp only
          split
          · exact hpush _ (by simp)
          · exact h.pending
  | insert now i =>
      simp only [Race.step]
      split
      · exact h
      · next ins hins =>
        refine ⟨fun entry hentry ↦ ?_, fun ins' hmem ↦ h.pending ins' (List.mem_of_mem_eraseIdx hmem)⟩
        rcases mem_cacheInsert hentry with rfl | hold
        · exact h.pending ins (List.mem_of_getElem? hins)
        · exact h.cache entry hold
  | timer now =>
      refine ⟨fun entry hentry ↦ h.cache entry ?_, h.pending⟩
      simp only [Race.step, onTimer_eq] at hentry
      exact List.mem_of_mem_filter hentry

/-- **One critical section** keeps the addresses different just where it is permitted. -/
theorem Race.unique_step_iff {r : Race} (hdynamic : Dynamic r) (hunique : Unique r.cache)
    (sec : Section) : Unique (r.step sec).cache ↔ Permits r sec := by
  cases sec with
  | select pa =>
      refine iff_of_true ?_ trivial
      simp only [Race.step]
      split
      · exact hunique
      · exact hunique
  | update now dev data =>
      refine iff_of_true ?_ trivial
      simp only [Race.step]
      split
      · exact hunique
      · dsimp only
        rw [Unique, map_pa_cacheUpdate]
        exact hunique
  | insert now i =>
      simp only [Race.step, Permits]
      cases hins : r.pending[i]? with
      | none => exact iff_of_true hunique (by simp)
      | some ins =>
          simp only [Option.some.injEq, forall_eq']
          exact unique_cacheInsert_iff hdynamic.cache hunique
  | timer now =>
      refine iff_of_true ?_ trivial
      simp only [Race.step, onTimer_eq]
      exact List.Nodup.sublist (List.filter_sublist.map _) hunique

theorem Race.run_take_succ {r : Race} {sections : List Section} {n : Nat} {sec : Section}
    (h : sections[n]? = some sec) :
    r.run (sections.take (n + 1)) = (r.run (sections.take n)).step sec := by
  rw [List.take_add_one, h, run, List.foldl_append]
  rfl

theorem Dynamic.run {r : Race} (h : Dynamic r) (sections : List Section) :
    Dynamic (r.run sections) := by
  induction sections generalizing r with
  | nil => exact h
  | cons sec sections ih => exact ih (h.step sec)

/-- **The addresses stay different** throughout a run, in which the critical sections of any
calls come in any order, if and only if every insertion finds no entry for its address but the
one it evicts. -/
theorem unique_throughout_iff (sections : List Section) :
    (∀ n, Unique (Race.run {} (sections.take n)).cache) ↔
      ∀ n sec, sections[n]? = some sec → Permits (Race.run {} (sections.take n)) sec := by
  have hdynamic : ∀ n, Dynamic (Race.run {} (sections.take n)) := fun n ↦
    Dynamic.run ⟨by simp, by simp⟩ _
  constructor
  · intro hunique n sec hsec
    refine (Race.unique_step_iff (hdynamic n) (hunique n) sec).mp ?_
    rw [← Race.run_take_succ hsec]
    exact hunique (n + 1)
  · intro hpermits n
    induction n with
    | zero => simp [Race.run, Unique]
    | succ n ih =>
        cases hsec : sections[n]? with
        | none =>
            have hle : sections.length ≤ n := List.getElem?_eq_none_iff.mp hsec
            rw [List.take_of_length_le (Nat.le_succ_of_le hle), ← List.take_of_length_le hle]
            exact ih
        | some sec =>
            rw [Race.run_take_succ hsec]
            exact (Race.unique_step_iff (hdynamic n) ih sec).mpr (hpermits n sec hsec)

/-- Two calls of `resolve` for one address look in vain before either inserts. -/
theorem resolve_twice_not_unique :
    ¬ ∀ sections : List Section, Unique (Race.run {} sections).cache := by
  intro hall
  have hunique := hall [.select ⟨192, 0, 2, 2⟩, .select ⟨192, 0, 2, 2⟩, .insert 0 0, .insert 0 0]
  exact absurd hunique (by unfold Unique; decide +kernel)

end Microps.Arp
