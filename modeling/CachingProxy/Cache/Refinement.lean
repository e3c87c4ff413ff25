import CachingProxy.Cache.Invariant

/-! The cache refines a store ordered by last write.
The abstract list is read off the access order and the map, and every public call answers
as the abstract store does; evictions agree too, so the history laws carry over. -/
namespace CachingProxy.Cache
open Cpp Recency

structure Shows (c : Cache) (s : List (Bytes × CacheEntry)) : Prop where
  rep : Rep c
  keys : s.map Prod.fst = c.order
  entries : ∀ p ∈ s, c.cache_map_.lookup p.1 = some p.2

theorem shows_new (max_entries : Nat) : Shows (new max_entries) [] :=
  ⟨rep_new max_entries, rfl, fun _ hp => absurd hp List.not_mem_nil⟩

theorem Shows.distinct {c : Cache} {s : List (Bytes × CacheEntry)} (h : Shows c s) :
    (s.map Prod.fst).Nodup := h.keys ▸ h.rep.distinct

theorem Shows.get_eq {c : Cache} {s : List (Bytes × CacheEntry)} (h : Shows c s) (k : Bytes) :
    c.get k = Recency.get k s := by
  by_cases hk : k ∈ c.order
  · rw [← h.keys] at hk
    obtain ⟨p, hp, rfl⟩ := List.mem_map.mp hk
    have found := (Recency.get_eq_some s h.distinct p.1 p.2).mpr hp
    rw [found]
    exact h.entries p hp
  · have out : c.get k = none := by
      rw [Cache.get, Finmap.lookup_eq_none, h.rep.resident]
      exact hk
    rw [out]
    cases hg : Recency.get k s with
    | none => rfl
    | some v =>
      have hm := (Recency.get_eq_some s h.distinct k v).mp hg
      rw [← h.keys] at hk
      exact absurd (List.mem_map_of_mem (f := Prod.fst) hm) hk

theorem Shows.size_eq {c : Cache} {s : List (Bytes × CacheEntry)} (h : Shows c s) :
    c.size = s.length := by
  rw [h.rep.size_eq, ← h.keys, List.length_map]

/-- The code evicts the key the abstract store drops. -/
theorem Shows.evicted_eq {c : Cache} {s : List (Bytes × CacheEntry)} (h : Shows c s) :
    c.evicted = victim c.max_entries_ s := by
  have back : c.oldest_key = s.getLast?.map Prod.fst := by
    rw [oldest_key, Linked.back_eq, ← List.getLast?_map, h.keys]
    rfl
  rw [evicted, victim, h.size_eq, back]

theorem lookup_makeRoom {c : Cache} {k : Bytes} (spared : c.evicted ≠ some k) :
    c.makeRoom.cache_map_.lookup k = c.cache_map_.lookup k := by
  unfold makeRoom
  unfold evicted at spared
  split
  · rename_i full
    rw [if_pos full] at spared
    unfold evictOldest
    split
    · rfl
    · rename_i k₀ hk
      have other : k ≠ k₀ := fun e => spared (hk.trans (congrArg some e.symm))
      exact Finmap.lookup_erase_ne other
  · rfl

/-- Making room loses the evicted key and nothing else. -/
theorem mem_makeRoom (c : Cache) (k : Bytes) :
    k ∈ c.makeRoom.cache_map_ ↔ k ∈ c.cache_map_ ∧ c.evicted ≠ some k := by
  unfold makeRoom evicted
  split
  · unfold evictOldest
    split
    · rename_i h
      simp [h]
    · rename_i k₀ hk
      simp only [Finmap.mem_erase, hk, ne_eq, Option.some.injEq]
      rw [eq_comm (a := k₀)]
      exact And.comm
  · simp

theorem Shows.makeRoom {c : Cache} {s : List (Bytes × CacheEntry)} (h : Shows c s) :
    Shows c.makeRoom (trim c.max_entries_ s) := by
  have spec := makeRoom_spec h.rep
  have len : s.length = c.order.length := by rw [← h.keys, List.length_map]
  refine ⟨spec.1, ?_, ?_⟩
  · rw [spec.2.1, trim, len, ← h.keys]
    split <;> simp
  · intro p hp
    obtain ⟨hm, spared⟩ := (mem_trim _ s h.distinct p).mp hp
    rw [lookup_makeRoom (h.evicted_eq ▸ spared)]
    exact h.entries p hm

theorem map_drop (k : Bytes) (s : List (Bytes × CacheEntry)) :
    (drop k s).map Prod.fst = (s.map Prod.fst).filter (fun k' => k' ≠ k) := by
  rw [drop, List.filter_map]
  rfl

theorem shows_put {c : Cache} {s : List (Bytes × CacheEntry)} (h : Shows c s) (k : Bytes)
    (v : CacheEntry) : ∃ c', c.put k v = some c' ∧ c'.max_entries_ = c.max_entries_ ∧
      Shows c' (Recency.put c.max_entries_ k v s) := by
  obtain ⟨c', hp, rep, horder, hmap, hmax⟩ := put_spec h.rep k v
  have room := h.makeRoom
  refine ⟨c', hp, hmax, rep, ?_, ?_⟩
  · rw [horder, Recency.put, List.map_cons, map_drop, room.keys]
  · intro p hp
    rw [hmap]
    rcases List.mem_cons.mp hp with rfl | hp
    · exact Finmap.lookup_insert _
    · obtain ⟨hm, hne⟩ := (mem_drop k _ p).mp hp
      rw [Finmap.lookup_insert_of_ne _ hne]
      exact room.entries p hm

theorem shows_remove {c : Cache} {s : List (Bytes × CacheEntry)} (h : Shows c s) (k : Bytes) :
    ∃ c', c.remove k = some c' ∧ c'.max_entries_ = c.max_entries_ ∧ Shows c' (drop k s) := by
  obtain ⟨c', hp, rep, horder, hmap, hmax⟩ := remove_spec h.rep k
  refine ⟨c', hp, hmax, rep, ?_, ?_⟩
  · rw [horder, map_drop, h.keys]
  · intro p hp
    obtain ⟨hm, hne⟩ := (mem_drop k s p).mp hp
    rw [hmap, Finmap.lookup_erase_ne hne]
    exact h.entries p hm

theorem shows_call {c : Cache} {s : List (Bytes × CacheEntry)} (h : Shows c s)
    (x : Call Bytes CacheEntry) : ∃ c', c.call x = some (c', (step c.max_entries_ s x).2) ∧
      c'.max_entries_ = c.max_entries_ ∧ Shows c' (step c.max_entries_ s x).1 := by
  cases x with
  | put k v =>
    obtain ⟨c', hp, hmax, hs⟩ := shows_put h k v
    exact ⟨c', by simp [call, hp, step], hmax, hs⟩
  | get k => exact ⟨c, by simp [call, step, h.get_eq], rfl, h⟩
  | remove k =>
    obtain ⟨c', hp, hmax, hs⟩ := shows_remove h k
    exact ⟨c', by simp [call, hp, step], hmax, hs⟩
  | clear =>
    exact ⟨c.clear, rfl, rfl, rep_clear c, rfl, fun _ hp => absurd hp List.not_mem_nil⟩
  | size => exact ⟨c, by simp [call, step, h.size_eq], rfl, h⟩

theorem shows_run (calls : List (Call Bytes CacheEntry)) {c : Cache}
    {s : List (Bytes × CacheEntry)} (h : Shows c s) :
    ∃ c', c.run calls = some (c', (Recency.run c.max_entries_ s calls).2) ∧
      c'.max_entries_ = c.max_entries_ ∧ Shows c' (Recency.run c.max_entries_ s calls).1 := by
  induction calls generalizing c s with
  | nil => exact ⟨c, rfl, rfl, h⟩
  | cons x xs ih =>
    obtain ⟨c₁, hx, hmax, h₁⟩ := shows_call h x
    obtain ⟨c₂, hxs, hmax₂, h₂⟩ := ih h₁
    rw [hmax] at hxs hmax₂ h₂
    exact ⟨c₂, by simp [Cache.run, Recency.run, hx, hxs], hmax₂, h₂⟩

/-- Every run of the cache answers as the store ordered by last put. So a get returns exactly what
the last put of its key wrote, unless a removal, clear or eviction took it away, and what a put
evicts is the resident key whose last put is oldest. -/
theorem cache_refines_recency_list (max_entries : Nat) (calls : List (Call Bytes CacheEntry)) :
    ∃ c answers, (new max_entries).run calls = some (c, answers) ∧
      answers = (Recency.run max_entries [] calls).2 ∧
      (∀ k v, c.get k = some v ↔ ∃ before after, calls = before ++ Call.put k v :: after ∧
        Untouched max_entries k (state max_entries (before ++ [Call.put k v])) after) ∧
      (∀ k, c.evicted = some k → k ∈ c.cache_map_ ∧ sincePut k calls < calls.length ∧
        ∀ k' ∈ c.cache_map_, k' ≠ k → sincePut k' calls < sincePut k calls) ∧
      (∀ k v, ∃ c', c.put k v = some c' ∧ ∀ k' ≠ k,
        (k' ∈ c'.cache_map_ ↔ k' ∈ c.cache_map_ ∧ c.evicted ≠ some k')) := by
  obtain ⟨c, hrun, hmax, h⟩ := shows_run calls (shows_new max_entries)
  have listed : ∀ k, k ∈ c.cache_map_ ↔ k ∈ (state max_entries calls).map Prod.fst := by
    intro k
    rw [h.rep.resident, ← h.keys]
    rfl
  refine ⟨c, _, hrun, rfl, ?_, ?_, ?_⟩
  · intro k v
    rw [h.get_eq]
    exact get_state_iff max_entries calls k v
  · intro k he
    rw [h.evicted_eq, hmax] at he
    have oldest := victim_oldest max_entries calls k he
    simp only [listed]
    exact oldest
  · intro k v
    obtain ⟨c', hp, -, -, hmap, -⟩ := put_spec h.rep k v
    refine ⟨c', hp, ?_⟩
    intro k' hne
    rw [hmap, Finmap.mem_insert, ← mem_makeRoom]
    simp [hne]

end CachingProxy.Cache
