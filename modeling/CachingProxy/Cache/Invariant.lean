import CachingProxy.Cache.Basic

/-! The three containers of the cache agree after every call.
One specification lemma a private helper says what it leaves behind; the public calls
are then argued on the key list alone. -/
namespace CachingProxy.Cache
open Cpp Recency

/-- The keys in access order. -/
def order (c : Cache) : List Bytes := c.access_order_.toList

structure Rep (c : Cache) : Prop where
  distinct : c.order.Nodup
  resident : ∀ k, k ∈ c.cache_map_ ↔ k ∈ c.order
  iterators : ∀ k it, c.key_to_iterator_.lookup k = some it ↔ (it, k) ∈ c.access_order_.nodes

theorem rep_new (max_entries : Nat) : Rep (new max_entries) where
  distinct := List.nodup_nil
  resident k := by simp [new, order, Finmap.notMem_empty]
  iterators := by simp [new]

theorem mem_order (c : Cache) (k : Bytes) : k ∈ c.order ↔ ∃ it, (it, k) ∈ c.access_order_.nodes := by
  simp [order, Linked.toList]

theorem Rep.node_of_key {c : Cache} (h : Rep c) {i j : Nat} {k : Bytes}
    (hi : (i, k) ∈ c.access_order_.nodes) (hj : (j, k) ∈ c.access_order_.nodes) : i = j := by
  have si := (h.iterators k i).mpr hi
  have sj := (h.iterators k j).mpr hj
  exact Option.some.inj (si.symm.trans sj)

theorem Rep.keys_eq {c : Cache} (h : Rep c) : c.order.toFinset = c.cache_map_.keys := by
  ext k
  rw [Finmap.mem_keys, h.resident, List.mem_toFinset]

theorem Rep.size_eq {c : Cache} (h : Rep c) : c.size = c.order.length := by
  rw [size, ← h.keys_eq, List.toFinset_card_of_nodup h.distinct]

/-! ## Helpers -/

theorem order_evictOldest (c : Cache) : c.evictOldest.order = c.order.dropLast := by
  unfold evictOldest oldest_key
  split
  · rename_i h
    rw [Linked.back_eq, List.getLast?_eq_none_iff] at h
    simp [order, h]
  · exact Linked.toList_pop_back _

theorem rep_evictOldest {c : Cache} (h : Rep c) : Rep c.evictOldest := by
  unfold evictOldest
  split
  · exact h
  · rename_i k₀ hk
    rcases List.eq_nil_or_concat c.access_order_.nodes with hn | ⟨init, ⟨i₀, k⟩, hn⟩
    · simp [oldest_key, Linked.back, hn] at hk
    · rw [List.concat_eq_append] at hn
      have same : k = k₀ := by simpa [oldest_key, Linked.back, hn] using hk
      subst same
      have horder : c.order = init.map Prod.snd ++ [k] := by simp [order, Linked.toList, hn]
      have hd := h.distinct
      rw [horder] at hd
      have gone : k ∉ init.map Prod.snd := by
        intro hm
        exact (List.nodup_append.mp hd).2.2 k hm k (List.mem_singleton_self k) rfl
      have hpop : c.access_order_.pop_back.nodes = init := by simp [Linked.pop_back, hn]
      constructor
      · simpa [order, Linked.toList, hpop] using (List.nodup_append.mp hd).1
      · intro k'
        have hr := h.resident k'
        rw [horder, List.mem_append, List.mem_singleton] at hr
        simp only [Finmap.mem_erase, hr, order, Linked.toList, hpop]
        constructor
        · rintro ⟨hne, hm | he⟩
          · exact hm
          · exact absurd he hne
        · intro hm
          exact ⟨fun e => gone (e ▸ hm), .inl hm⟩
      · intro k' it
        have hi := h.iterators k' it
        rw [hn, List.mem_append, List.mem_singleton] at hi
        simp only [hpop]
        by_cases he : k' = k
        · subst he
          rw [Finmap.lookup_erase]
          constructor
          · intro e
            cases e
          · intro hm
            exact absurd (List.mem_map_of_mem (f := Prod.snd) hm) gone
        · rw [Finmap.lookup_erase_ne he, hi]
          constructor
          · rintro (hm | e)
            · exact hm
            · exact absurd (congrArg Prod.snd e) he
          · exact .inl

/-- pushFront files a key that is in neither the list nor the iterator map's live part. -/
theorem rep_pushFront {c : Cache} (k : Bytes) (distinct : c.order.Nodup) (absent : k ∉ c.order)
    (resident : ∀ k', k' ∈ c.cache_map_ ↔ k' = k ∨ k' ∈ c.order)
    (iterators : ∀ k' it, k' ≠ k →
      (c.key_to_iterator_.lookup k' = some it ↔ (it, k') ∈ c.access_order_.nodes)) :
    Rep (c.pushFront k) where
  distinct := List.nodup_cons.mpr ⟨absent, distinct⟩
  resident := by
    intro k'
    simpa [pushFront, order] using resident k'
  iterators := by
    intro k' it
    by_cases he : k' = k
    · subst he
      have nowhere : ∀ it, (it, k') ∉ c.access_order_.nodes :=
        fun it hm => absent ((mem_order c k').mpr ⟨it, hm⟩)
      simp [pushFront, nowhere, eq_comm]
    · simp only [pushFront, Linked.begin_push_front, Finmap.lookup_insert_of_ne _ he,
        iterators k' it he, Linked.nodes_push_front, List.mem_cons, Prod.mk.injEq, he, and_false,
        false_or]

/-- What the second half of put does: the key moves to the front or arrives there. -/
theorem updateAccessOrder_spec {c : Cache} (h : Rep c) (k : Bytes) (v : CacheEntry) :
    ∃ c', (c.assign k v).updateAccessOrder k = some c' ∧ Rep c' ∧
      c'.order = k :: c.order.filter (fun k' => k' ≠ k) ∧
      c'.cache_map_ = c.cache_map_.insert k v ∧ c'.max_entries_ = c.max_entries_ := by
  cases hit : c.key_to_iterator_.lookup k with
  | none =>
    have absent : k ∉ c.order := by
      intro hm
      obtain ⟨it, hn⟩ := (mem_order c k).mp hm
      rw [(h.iterators k it).mpr hn] at hit
      cases hit
    refine ⟨(c.assign k v).pushFront k, by simp [updateAccessOrder, assign, hit], ?_, ?_, rfl, rfl⟩
    · apply rep_pushFront (c := c.assign k v) k h.distinct absent
      · intro k'
        simp only [assign, Finmap.mem_insert, h.resident]
        rfl
      · exact fun k' it _ => h.iterators k' it
    · have keep : c.order.filter (fun k' => k' ≠ k) = c.order := by
        apply List.filter_eq_self.mpr
        intro k' hm
        simpa using ne_of_mem_of_not_mem hm absent
      rw [keep]
      rfl
  | some it =>
    have live := (h.iterators k it).mp hit
    let erased : Cache := { c.assign k v with access_order_ := c.access_order_.erase it }
    have horder : erased.order = c.order.filter (fun k' => k' ≠ k) :=
      Linked.toList_erase c.access_order_ h.distinct live
    have node : (c.assign k v).eraseNode k it = some erased :=
      if_pos ((Linked.deref_eq_some _ it k).mpr live)
    have lookup : (c.assign k v).key_to_iterator_.lookup k = some it := hit
    refine ⟨erased.pushFront k, by simp [updateAccessOrder, lookup, node], ?_, ?_, rfl, rfl⟩
    · apply rep_pushFront k
      · rw [horder]
        exact h.distinct.filter _
      · simp [horder]
      · intro k'
        rw [horder]
        simp only [erased, assign, Finmap.mem_insert, h.resident, List.mem_filter, decide_eq_true_eq]
        tauto
      · intro k' j hne
        have away : (j, k') ∈ c.access_order_.nodes → j ≠ it := by
          intro hm e
          subst e
          exact hne (c.access_order_.node_unique hm live)
        have hm := Linked.mem_nodes_erase c.access_order_ it (j, k')
        simp only [erased, assign, h.iterators k' j, hm]
        exact ⟨fun hm => ⟨hm, away hm⟩, And.left⟩
    · exact congrArg (k :: ·) horder

/-! ## Public calls -/

theorem makeRoom_spec {c : Cache} (h : Rep c) : Rep c.makeRoom ∧
    c.makeRoom.order = (if c.max_entries_ ≤ c.order.length then c.order.dropLast else c.order) ∧
    c.makeRoom.max_entries_ = c.max_entries_ := by
  unfold makeRoom
  rw [h.size_eq]
  split
  · refine ⟨rep_evictOldest h, order_evictOldest c, ?_⟩
    unfold evictOldest
    split <;> rfl
  · exact ⟨h, rfl, rfl⟩

theorem put_spec {c : Cache} (h : Rep c) (k : Bytes) (v : CacheEntry) :
    ∃ c', c.put k v = some c' ∧ Rep c' ∧
      c'.order = k :: c.makeRoom.order.filter (fun k' => k' ≠ k) ∧
      c'.cache_map_ = c.makeRoom.cache_map_.insert k v ∧ c'.max_entries_ = c.max_entries_ := by
  have room := makeRoom_spec h
  obtain ⟨c', hp, rep, horder, hmap, hmax⟩ := updateAccessOrder_spec room.1 k v
  exact ⟨c', hp, rep, horder, hmap, hmax.trans room.2.2⟩

theorem remove_spec {c : Cache} (h : Rep c) (k : Bytes) :
    ∃ c', c.remove k = some c' ∧ Rep c' ∧ c'.order = c.order.filter (fun k' => k' ≠ k) ∧
      c'.cache_map_ = c.cache_map_.erase k ∧ c'.max_entries_ = c.max_entries_ := by
  by_cases hk : k ∈ c.cache_map_
  · obtain ⟨it, live⟩ := (mem_order c k).mp ((h.resident k).mp hk)
    have hit := (h.iterators k it).mpr live
    have hd := (Linked.deref_eq_some _ it k).mpr live
    have horder : (c.access_order_.erase it).toList = c.order.filter (fun k' => k' ≠ k) :=
      Linked.toList_erase c.access_order_ h.distinct live
    refine ⟨{ c with
        cache_map_ := c.cache_map_.erase k
        access_order_ := c.access_order_.erase it
        key_to_iterator_ := c.key_to_iterator_.erase k },
      by simp [remove, eraseNode, hk, hit, hd], ?_, horder, rfl, rfl⟩
    constructor
    · simpa only [order, horder] using h.distinct.filter _
    · intro k'
      simp only [Finmap.mem_erase, h.resident, order, horder, List.mem_filter, decide_eq_true_eq]
      exact And.comm
    · intro k' j
      simp only [Linked.mem_nodes_erase]
      by_cases he : k' = k
      · subst he
        rw [Finmap.lookup_erase]
        constructor
        · intro e
          cases e
        · rintro ⟨hm, hne⟩
          exact absurd (h.node_of_key hm live) hne
      · rw [Finmap.lookup_erase_ne he, h.iterators k' j]
        constructor
        · intro hm
          refine ⟨hm, ?_⟩
          intro e
          subst e
          exact he (c.access_order_.node_unique hm live)
        · exact And.left
  · have absent : k ∉ c.order := fun hm => hk ((h.resident k).mpr hm)
    refine ⟨c, by simp [remove, hk], h, ?_, ?_, rfl⟩
    · refine (List.filter_eq_self.mpr ?_).symm
      intro k' hm
      simpa using ne_of_mem_of_not_mem hm absent
    · apply Finmap.ext_lookup
      intro k'
      by_cases he : k' = k
      · subst he
        rw [Finmap.lookup_erase, Finmap.lookup_eq_none.mpr hk]
      · rw [Finmap.lookup_erase_ne he]

theorem rep_clear (c : Cache) : Rep c.clear where
  distinct := List.nodup_nil
  resident k := by simp [clear, order, Finmap.notMem_empty]
  iterators := by simp [clear]

theorem length_le_of_put (c : Cache) (positive : 1 ≤ c.max_entries_)
    (bounded : c.order.length ≤ c.max_entries_) (k : Bytes) (h : Rep c) :
    (k :: c.makeRoom.order.filter (fun k' => k' ≠ k)).length ≤ c.max_entries_ := by
  have kept := List.length_filter_le (fun k' => decide (k' ≠ k)) c.makeRoom.order
  rw [List.length_cons]
  rw [(makeRoom_spec h).2.1] at kept ⊢
  split at kept
  · rename_i full
    simp only [if_pos full, List.length_dropLast] at kept ⊢
    omega
  · rename_i room
    simp only [if_neg room] at kept ⊢
    omega

/-- No public call meets undefined behaviour, and each one keeps the three containers in step. -/
theorem call_rep {c : Cache} (h : Rep c) (x : Call Bytes CacheEntry) :
    ∃ c' a, c.call x = some (c', a) ∧ Rep c' ∧ c'.max_entries_ = c.max_entries_ ∧
      (1 ≤ c.max_entries_ → c.order.length ≤ c.max_entries_ →
        c'.order.length ≤ c.max_entries_) := by
  cases x with
  | put k v =>
    obtain ⟨c', hp, rep, horder, -, hmax⟩ := put_spec h k v
    refine ⟨c', .done, by simp [call, hp], rep, hmax, ?_⟩
    intro positive bounded
    rw [horder]
    exact length_le_of_put c positive bounded k h
  | get k => exact ⟨c, _, rfl, h, rfl, fun _ bounded => bounded⟩
  | remove k =>
    obtain ⟨c', hp, rep, horder, -, hmax⟩ := remove_spec h k
    refine ⟨c', .done, by simp [call, hp], rep, hmax, ?_⟩
    intro _ bounded
    rw [horder]
    exact Nat.le_trans (List.length_filter_le _ _) bounded
  | clear => exact ⟨c.clear, .done, rfl, rep_clear c, rfl, fun _ _ => Nat.zero_le _⟩
  | size => exact ⟨c, _, rfl, h, rfl, fun _ bounded => bounded⟩

structure Sound (max_entries : Nat) (c : Cache) : Prop where
  rep : Rep c
  capacity : c.max_entries_ = max_entries
  bounded : c.order.length ≤ max_entries

theorem exec_sound {max_entries : Nat} (positive : 1 ≤ max_entries) {c : Cache}
    (h : Sound max_entries c) (op : Op) : ∃ c', c.exec op = some c' ∧ Sound max_entries c' := by
  cases op with
  | call x =>
    obtain ⟨c', a, hc, rep, hmax, bound⟩ := call_rep h.rep x
    rw [h.capacity] at hmax bound
    exact ⟨c', by simp [exec, hc], rep, hmax, bound positive h.bounded⟩
  | isValid key now => exact ⟨c, rfl, h⟩

theorem execAll_sound {max_entries : Nat} (positive : 1 ≤ max_entries) (ops : List Op) {c : Cache}
    (h : Sound max_entries c) : ∃ c', c.execAll ops = some c' ∧ Sound max_entries c' := by
  induction ops generalizing c with
  | nil => exact ⟨c, rfl, h⟩
  | cons op ops ih =>
    obtain ⟨c₁, hop, h₁⟩ := exec_sound positive h op
    obtain ⟨c₂, hops, h₂⟩ := ih h₁
    refine ⟨c₂, ?_, h₂⟩
    rw [execAll, Runs.run_cons, hop]
    exact hops

theorem Rep.iterator_keys_eq {c : Cache} (h : Rep c) :
    c.order.toFinset = c.key_to_iterator_.keys := by
  ext k
  rw [List.mem_toFinset, mem_order, Finmap.mem_keys, Finmap.mem_iff]
  simp only [h.iterators]

/-- Whatever the calls, the list has no key twice, the three containers hold the same keys, every
stored iterator designates the node of its own key, and the capacity is respected. That the run
has a result says that no erase ever met a dangling iterator or another key's node. -/
theorem representation_invariant (max_entries : Nat) (positive : 1 ≤ max_entries)
    (ops : List Op) : ∃ c, (new max_entries).execAll ops = some c ∧
      c.access_order_.toList.Nodup ∧
      c.access_order_.toList.toFinset = c.cache_map_.keys ∧
      c.access_order_.toList.toFinset = c.key_to_iterator_.keys ∧
      (∀ k it, c.key_to_iterator_.lookup k = some it → c.access_order_.deref it = some k) ∧
      c.size ≤ max_entries := by
  have start : Sound max_entries (new max_entries) := ⟨rep_new max_entries, rfl, Nat.zero_le _⟩
  obtain ⟨c, hrun, h⟩ := execAll_sound positive ops start
  refine ⟨c, hrun, h.rep.distinct, h.rep.keys_eq, h.rep.iterator_keys_eq, ?_, ?_⟩
  · intro k it hit
    exact (Linked.deref_eq_some _ it k).mpr ((h.rep.iterators k it).mp hit)
  · rw [h.rep.size_eq]
    exact h.bounded

theorem representation_invariant_at_capacity_one : ∃ c, (new 1).execAll
    [.call (.put (bytes "a") CacheEntry.default), .call (.put (bytes "a") CacheEntry.default),
      .call (.put (bytes "b") CacheEntry.default), .isValid (bytes "b") 0,
      .call (.remove (bytes "b"))] = some c ∧
      c.access_order_.toList.Nodup ∧
      c.access_order_.toList.toFinset = c.cache_map_.keys ∧
      c.access_order_.toList.toFinset = c.key_to_iterator_.keys ∧
      (∀ k it, c.key_to_iterator_.lookup k = some it → c.access_order_.deref it = some k) ∧
      c.size ≤ 1 :=
  representation_invariant 1 (by decide) _

end CachingProxy.Cache
