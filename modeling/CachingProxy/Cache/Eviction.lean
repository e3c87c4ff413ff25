import CachingProxy.Cache.Refinement

/-! What a put costs. A full cache evicts the key written longest ago, whether or not that key has
been read since and whether or not the key of the put is a new one. -/
namespace CachingProxy.Cache
open Cpp Recency

/-- To make room, a put takes `k` out. -/
def Evicts (c : Cache) (k : Bytes) : Prop := k ∈ c.cache_map_ ∧ k ∉ c.makeRoom.cache_map_

theorem evicts_iff {c : Cache} (h : Rep c) (k : Bytes) : c.Evicts k ↔ c.evicted = some k := by
  unfold Evicts
  rw [mem_makeRoom]
  constructor
  · rintro ⟨cached, lost⟩
    by_contra spared
    exact lost ⟨cached, spared⟩
  · intro e
    refine ⟨?_, fun kept => kept.2 e⟩
    rw [evicted] at e
    split at e
    · rw [h.resident, order]
      rw [oldest_key, Linked.back_eq] at e
      exact List.mem_of_getLast? e
    · cases e

/-- The cached key whose last use in this history is oldest. -/
def LeastRecentlyUsed (c : Cache) (history : List (Call Bytes CacheEntry × Answer CacheEntry))
    (k : Bytes) : Prop :=
  k ∈ c.cache_map_ ∧ ∀ k' ∈ c.cache_map_, k' ≠ k → sinceUse k' history < sinceUse k history

/-- The evicted key is the least recently used one exactly when every other cached key has been
used after the last get that found it. -/
theorem evicts_least_recently_used_iff (max_entries : Nat) (calls : List (Call Bytes CacheEntry))
    (c : Cache) (answers : List (Answer CacheEntry))
    (ran : (new max_entries).run calls = some (c, answers)) (k : Bytes) (evicts : c.Evicts k) :
    LeastRecentlyUsed c (calls.zip answers) k ↔
      ∀ k' ∈ c.cache_map_, k' ≠ k →
        sinceUse k' (calls.zip answers) < sinceHit k (calls.zip answers) := by
  obtain ⟨c', hrun, hmax, h⟩ := shows_run calls (shows_new max_entries)
  obtain ⟨rfl, rfl⟩ := Prod.mk.inj (Option.some.inj (ran.symm.trans hrun))
  have listed : ∀ k, k ∈ c.cache_map_ ↔ k ∈ (state max_entries calls).map Prod.fst := by
    intro k
    rw [h.rep.resident, ← h.keys]
    rfl
  have dropped : victim max_entries (state max_entries calls) = some k := by
    have victim_eq := h.evicted_eq
    rw [hmax] at victim_eq
    exact victim_eq.symm.trans ((evicts_iff h.rep k).mp evicts)
  have first := victim_used_first_iff max_entries calls k dropped
  unfold LeastRecentlyUsed
  simp only [listed] at first ⊢
  exact (and_iff_right ((listed k).mp evicts.1)).trans first

/-! Two entries in a cache for two, the older one read since. -/

def twoPuts : List (Call Bytes CacheEntry) :=
  [.put (bytes "a") CacheEntry.default, .put (bytes "b") CacheEntry.default]

theorem evicts_after (calls : List (Call Bytes CacheEntry)) {k : Bytes}
    (first : victim 2 (state 2 calls) = some k) : ∃ c,
    (new 2).run calls = some (c, (Recency.run 2 [] calls).2) ∧ c.Evicts k ∧
      ∀ k', k' ∈ c.cache_map_ ↔ k' ∈ (state 2 calls).map Prod.fst := by
  obtain ⟨c, ran, hmax, h⟩ := shows_run calls (shows_new 2)
  have victim_eq := h.evicted_eq
  rw [hmax] at victim_eq
  refine ⟨c, ran, (evicts_iff h.rep k).mpr (victim_eq.trans first), ?_⟩
  intro k'
  rw [h.rep.resident, ← h.keys]
  rfl

theorem evicts_least_recently_used_iff_unread : ∃ c answers,
    LeastRecentlyUsed c (twoPuts.zip answers) (bytes "a") ↔
      ∀ k' ∈ c.cache_map_, k' ≠ bytes "a" →
        sinceUse k' (twoPuts.zip answers) < sinceHit (bytes "a") (twoPuts.zip answers) := by
  obtain ⟨c, ran, evicts, -⟩ := evicts_after twoPuts (k := bytes "a") (by decide)
  exact ⟨c, _, evicts_least_recently_used_iff 2 twoPuts c _ ran (bytes "a") evicts⟩

/-- A get of the older entry does not save it. -/
theorem not_always_least_recently_used : ¬ ∀ (max_entries : Nat)
    (calls : List (Call Bytes CacheEntry)) (c : Cache) (answers : List (Answer CacheEntry)),
    1 ≤ max_entries → (new max_entries).run calls = some (c, answers) →
    ∀ k, c.Evicts k → LeastRecentlyUsed c (calls.zip answers) k := by
  intro all
  let calls := twoPuts ++ [.get (bytes "a")]
  obtain ⟨c, ran, evicts, listed⟩ := evicts_after calls (k := bytes "a") (by decide)
  obtain ⟨-, first⟩ := all 2 calls c _ (by decide) ran (bytes "a") evicts
  have older := first (bytes "b") ((listed _).mpr (by decide)) (by decide)
  revert older
  decide

/-! ## Writing a cached key again -/

theorem size_put {c c' : Cache} (h : Rep c) {k : Bytes} {v : CacheEntry}
    (put : c.put k v = some c') :
    c'.size = (c.makeRoom.order.filter (fun k' => k' ≠ k)).length + 1 := by
  obtain ⟨c₁, hput, rep, horder, -⟩ := put_spec h k v
  cases put.symm.trans hput
  rw [rep.size_eq, horder, List.length_cons]

/-- What a put leaves of the other keys is what makeRoom leaves of them. -/
theorem get_put_of_ne {c c' : Cache} (h : Rep c) {k k' : Bytes} {v : CacheEntry}
    (put : c.put k v = some c') (other : k' ≠ k) : c'.get k' = c.makeRoom.get k' := by
  obtain ⟨c₁, hput, -, -, map, -⟩ := put_spec h k v
  cases put.symm.trans hput
  rw [get, get, map, Finmap.lookup_insert_of_ne _ other]

theorem get_put_self {c c' : Cache} (h : Rep c) {k : Bytes} {v : CacheEntry}
    (put : c.put k v = some c') : c'.get k = some v := by
  obtain ⟨c₁, hput, -, -, map, -⟩ := put_spec h k v
  cases put.symm.trans hput
  rw [get, map, Finmap.lookup_insert]

theorem length_filter_ne {l : List Bytes} (distinct : l.Nodup) {k : Bytes} (listed : k ∈ l) :
    (l.filter (fun k' => k' ≠ k)).length + 1 = l.length := by
  have erased : l.filter (fun k' => k' ≠ k) = l.erase k := by
    rw [distinct.erase_eq_filter]
    apply List.filter_congr
    intro k' _
    by_cases same : k' = k <;> simp [same]
  rw [erased, List.length_erase_of_mem listed]
  have := List.length_pos_of_mem listed
  omega

/-- Nothing is lost, and the number of entries stays. -/
def Refreshes (c : Cache) (k : Bytes) (v : CacheEntry) : Prop :=
  ∃ c', c.put k v = some c' ∧
    (∀ k' ≠ k, ∀ entry, c.get k' = some entry → c'.get k' = some entry) ∧
    c'.get k = some v ∧ c'.size = c.size

/-- As long as no other key is evicted, a put of a cached key changes nothing but its entry. -/
theorem refreshes_of_spared {c : Cache} (h : Rep c) {k : Bytes} (cached : k ∈ c.cache_map_)
    (v : CacheEntry) (spared : c.evicted = none ∨ c.evicted = some k) : c.Refreshes k v := by
  obtain ⟨c', put, -⟩ := put_spec h k v
  refine ⟨c', put, ?_, get_put_self h put, ?_⟩
  · intro k' other entry found
    have kept : c.evicted ≠ some k' := by
      rcases spared with e | e
      · simp [e]
      · simpa [e] using Ne.symm other
    rw [get_put_of_ne h put other, get, lookup_makeRoom kept]
    exact found
  · have listed : k ∈ c.order := (h.resident k).mp cached
    have room := (makeRoom_spec h).2.1
    rw [size_put h put, h.size_eq]
    unfold evicted at spared
    rw [h.size_eq] at spared
    split at room
    · rename_i full
      rw [if_pos full] at spared
      -- the last key of the order is the key of the put
      rcases List.eq_nil_or_concat c.order with empty | ⟨init, last, split⟩
      · rw [empty] at listed
        cases listed
      · rw [List.concat_eq_append] at split
        have back : c.oldest_key = some last := by
          rw [oldest_key, Linked.back_eq]
          change c.order.getLast? = some last
          rw [split, List.getLast?_concat]
        have same : last = k := by simpa [back] using spared
        have distinct := h.distinct
        rw [split, same] at distinct
        have apart : init.filter (fun k' => k' ≠ k) = init := by
          apply List.filter_eq_self.mpr
          intro k' mem
          have other := (List.nodup_append.mp distinct).2.2 k' mem k (List.mem_singleton_self k)
          simpa using other
        rw [room, split, List.dropLast_concat, apart, List.length_append]
        rfl
    · rw [room]
      exact length_filter_ne h.distinct listed

/-- A put of a cached key costs no other entry exactly below capacity, or when the key itself is
the one written longest ago. -/
theorem refreshes_iff (max_entries : Nat) (calls : List (Call Bytes CacheEntry)) (c : Cache)
    (answers : List (Answer CacheEntry)) (ran : (new max_entries).run calls = some (c, answers))
    (k : Bytes) (cached : k ∈ c.cache_map_) (v : CacheEntry) :
    c.Refreshes k v ↔ c.size < max_entries ∨ c.access_order_.back = some k := by
  obtain ⟨c', hrun, hmax, h⟩ := shows_run calls (shows_new max_entries)
  obtain ⟨rfl, -⟩ := Prod.mk.inj (Option.some.inj (ran.symm.trans hrun))
  have capacity : c.max_entries_ = max_entries := hmax
  rw [← capacity]
  constructor
  · rintro ⟨c', put, others, -, -⟩
    by_contra failed
    obtain ⟨full, not_oldest⟩ := not_or.mp failed
    have evicted_eq : c.evicted = c.oldest_key := if_pos (Nat.not_lt.mp full)
    cases oldest : c.oldest_key with
    | none =>
      have filled := List.ne_nil_of_mem ((h.rep.resident k).mp cached)
      rw [oldest_key, Linked.back_eq, List.getLast?_eq_none_iff] at oldest
      exact filled oldest
    | some k' =>
      have other : k' ≠ k := by
        intro e
        exact not_oldest (e ▸ oldest)
      obtain ⟨cached', lost⟩ := (evicts_iff h.rep k').mpr (evicted_eq.trans oldest)
      obtain ⟨entry, found⟩ := Finmap.mem_iff.mp cached'
      have kept := others k' other entry found
      rw [get_put_of_ne h.rep put other] at kept
      exact lost (Finmap.mem_iff.mpr ⟨entry, kept⟩)
  · intro room
    apply refreshes_of_spared h.rep cached
    unfold evicted
    rcases room with below | oldest
    · exact Or.inl (if_neg (Nat.not_le.mpr below))
    · split
      · exact Or.inr oldest
      · exact Or.inl rfl

theorem refreshes_iff_newer : ∃ c : Cache,
    c.Refreshes (bytes "b") CacheEntry.default ↔
      c.size < 2 ∨ c.access_order_.back = some (bytes "b") := by
  obtain ⟨c, ran, -, listed⟩ := evicts_after twoPuts (k := bytes "a") (by decide)
  exact ⟨c, refreshes_iff 2 twoPuts c _ ran (bytes "b") ((listed _).mpr (by decide)) _⟩

/-- At capacity, writing the newer of two entries again loses the older one. -/
theorem not_always_refreshes : ¬ ∀ (max_entries : Nat) (calls : List (Call Bytes CacheEntry))
    (c : Cache) (answers : List (Answer CacheEntry)), 1 ≤ max_entries →
    (new max_entries).run calls = some (c, answers) →
    ∀ k ∈ c.cache_map_, ∀ v, c.Refreshes k v := by
  intro all
  obtain ⟨c, ran, evicts, listed⟩ := evicts_after twoPuts (k := bytes "a") (by decide)
  obtain ⟨c', put, others, -, -⟩ :=
    all 2 twoPuts c _ (by decide) ran (bytes "b") ((listed _).mpr (by decide)) CacheEntry.default
  obtain ⟨entry, found⟩ := Finmap.mem_iff.mp evicts.1
  have kept := others (bytes "a") (by decide) entry found
  obtain ⟨c₁, ran₁, -, h⟩ := shows_run twoPuts (shows_new 2)
  obtain ⟨rfl, -⟩ := Prod.mk.inj (Option.some.inj (ran.symm.trans ran₁))
  rw [get_put_of_ne h.rep put (by decide)] at kept
  exact evicts.2 (Finmap.mem_iff.mpr ⟨entry, kept⟩)

/-! ## How long an entry stays -/

/-- The call that does to the cache what this operation does. -/
def Op.asCall : Op → Call Bytes CacheEntry
  | .call x => x
  | .isValid key _ => .get key

theorem exec_eq (c : Cache) (op : Op) : c.exec op = (c.call op.asCall).map Prod.fst := by
  cases op <;> rfl

theorem shows_execAll (ops : List Op) {c : Cache} {s : List (Bytes × CacheEntry)} (h : Shows c s) :
    ∃ c', c.execAll ops = some c' ∧ c'.max_entries_ = c.max_entries_ ∧
      Shows c' (Recency.run c.max_entries_ s (ops.map Op.asCall)).1 := by
  induction ops generalizing c s with
  | nil => exact ⟨c, rfl, rfl, h⟩
  | cons op ops ih =>
    obtain ⟨c₁, hcall, hmax, h₁⟩ := shows_call h op.asCall
    obtain ⟨c₂, hrest, hmax₂, h₂⟩ := ih h₁
    rw [hmax] at hmax₂ h₂
    refine ⟨c₂, ?_, hmax₂, h₂⟩
    rw [execAll, Runs.run_cons, exec_eq, hcall]
    exact hrest

def Op.isPut (op : Op) : Bool := Recency.writes op.asCall

/-- A get, isValid, size or put, or a remove of another key than `k`. -/
def Op.Spares (k : Bytes) (op : Op) : Prop := Recency.Spares k op.asCall

/-- The last put of `k` among these operations put `v`. -/
def LastPut (k : Bytes) (v : CacheEntry) (ops : List Op) : Prop :=
  Recency.LastPut k v (ops.map Op.asCall)

/-- An entry outlives any reads, any removals of other keys, and fewer further puts than the cache
has places. -/
theorem put_retained (max_entries : Nat) (positive : 1 ≤ max_entries) (before : List Op) (c : Cache)
    (reached : (new max_entries).execAll before = some c) (k : Bytes) (v : CacheEntry)
    (ops : List Op) (sparing : ∀ op ∈ ops, op.Spares k)
    (few : ops.countP Op.isPut ≤ max_entries - 1) :
    ∃ c', c.execAll (.call (.put k v) :: ops) = some c' ∧ k ∈ c'.cache_map_ ∧
      ∃ w, LastPut k w (.call (.put k v) :: ops) ∧ c'.get k = some w := by
  obtain ⟨c₁, ran, hmax, h⟩ := shows_execAll before (shows_new max_entries)
  cases reached.symm.trans ran
  obtain ⟨c', ran', -, h'⟩ := shows_execAll (.call (.put k v) :: ops) h
  have puts : (ops.map Op.asCall).countP Recency.writes = ops.countP Op.isPut := List.countP_map
  have mild : ∀ x ∈ ops.map Op.asCall, Recency.Spares k x := by
    intro x listed
    obtain ⟨op, hop, rfl⟩ := List.mem_map.mp listed
    exact sparing op hop
  have capacity : c.max_entries_ = max_entries := hmax
  rw [capacity] at h'
  obtain ⟨w, m, last, near⟩ := Recency.near_run max_entries k v 0 _
    (Recency.near_put_self max_entries k v _) (ops.map Op.asCall) mild (by omega)
  have found : c'.get k = some w := (h'.get_eq k).trans (near.get_eq h'.distinct)
  exact ⟨c', ran', Finmap.mem_iff.mpr ⟨w, found⟩, w, last, found⟩

/-- Reads of `c`, one put and one removal of others. -/
def readsAndOnePut : List Op :=
  [.call (.get (bytes "c")), .call (.put (bytes "a") CacheEntry.default), .isValid (bytes "c") 0,
    .call (.remove (bytes "b"))]

theorem put_retained_one_more : ∃ c c' w, (new 2).execAll (twoPuts.map Op.call) = some c ∧
    c.execAll (.call (.put (bytes "c") CacheEntry.default) :: readsAndOnePut) = some c' ∧
    LastPut (bytes "c") w (.call (.put (bytes "c") CacheEntry.default) :: readsAndOnePut) ∧
    c'.get (bytes "c") = some w := by
  obtain ⟨c, ran, -⟩ := shows_execAll (twoPuts.map Op.call) (shows_new 2)
  have other : bytes "b" ≠ bytes "c" := by decide
  obtain ⟨c', ran', -, w, last, found⟩ := put_retained 2 (by decide) (twoPuts.map Op.call) c ran
    (bytes "c") CacheEntry.default readsAndOnePut
    (by simp [readsAndOnePut, Op.Spares, Op.asCall, Recency.Spares, other]) (by decide)
  exact ⟨c, c', w, ran, ran', last, found⟩

/-! ## Two capacities -/

/-- After the same calls the access order of a smaller cache is the front part of that of a larger
one. What the smaller one finds the larger one finds too. -/
theorem larger_cache_finds_more (small large : Nat) (le : small ≤ large)
    (calls : List (Call Bytes CacheEntry)) : ∃ c c' answers answers',
    (new small).run calls = some (c, answers) ∧ (new large).run calls = some (c', answers') ∧
      c.order <+: c'.order ∧ (∀ k entry, c.get k = some entry → c'.get k = some entry) ∧
      List.Forall₂ Recency.Within answers answers' := by
  obtain ⟨c, ran, -, h⟩ := shows_run calls (shows_new small)
  obtain ⟨c', ran', -, h'⟩ := shows_run calls (shows_new large)
  obtain ⟨front, within⟩ := Recency.run_front le calls (List.prefix_rfl (l := []))
  refine ⟨c, c', _, _, ran, ran', ?_, ?_, within⟩
  · rw [← h.keys, ← h'.keys]
    exact front.map Prod.fst
  · intro k entry found
    rw [h.get_eq] at found
    rw [h'.get_eq]
    exact Recency.get_front front found

theorem larger_cache_finds_more_one_two : ∃ c c' answers answers',
    (new 1).run twoPuts = some (c, answers) ∧ (new 2).run twoPuts = some (c', answers') ∧
      c.order <+: c'.order ∧ (∀ k entry, c.get k = some entry → c'.get k = some entry) ∧
      List.Forall₂ Recency.Within answers answers' :=
  larger_cache_finds_more 1 2 (by decide) twoPuts

end CachingProxy.Cache
