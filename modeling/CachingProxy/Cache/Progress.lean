import CachingProxy.Cache.Concurrent
import CachingProxy.Cpp.Progress

/-! Every call of the cache returns, however the threads are scheduled. -/
namespace CachingProxy.Cache
open Cpp Recency SharedMutex

/-- The calls of any threads at any point of any interleaving: while one is in progress some thread
can go on, and if no new ones begin all of them return. Then the lock is free, the containers are
those that the calls leave one after the other, and each call has had its answer. -/
theorem calls_return {τ : Type} [DecidableEq τ] (max_entries : Nat)
    {c : Config τ Cache (Answer CacheEntry) (Call Bytes CacheEntry)}
    (reach : Relation.ReflTransGen (Step underLock) (Config.start (new max_entries)) c) :
    (∀ t, c.threads t ≠ .idle → ∃ c', Work underLock c c') ∧
      Acc (fun c' c => Work underLock c c') c ∧
      ∀ c', Relation.ReflTransGen (Work underLock) c c' → (∀ c'', ¬ Work underLock c' c'') →
        (∀ t, c'.threads t = .idle) ∧ (c'.writer = none ∧ c'.readers = ∅) ∧
        ∃ answers, (new max_entries).run c'.ops = some (c'.state, answers) ∧
          ∀ i t op, c'.log[i]? = some (t, op) → ∃ r, answers[i]? = some r ∧
            (⟨i, t, op, r⟩ : Completed τ (Call Bytes CacheEntry) (Answer CacheEntry)) ∈
              c'.returned := by
  have total := replay_total max_entries
  obtain ⟨cache, answers, inv⟩ := inv_reachable total readOnly_body reach
  obtain ⟨finite, ending⟩ := calls_end total readOnly_body reach
  refine ⟨fun t busy => work_of_busy inv (held_reachable reach) busy, finite, ?_⟩
  intro c' works stuck
  obtain ⟨idle, free, back⟩ := ending c' works stuck
  have reach' : Relation.ReflTransGen (Step underLock) (Config.start (new max_entries)) c' :=
    reach.trans (Relation.ReflTransGen.mono (fun _ _ work => work.1) _ _ works)
  obtain ⟨cache', answers', inv'⟩ := inv_reachable total readOnly_body reach'
  have ran := inv'.replayed
  rw [replay_eq_run] at ran
  refine ⟨idle, free, answers', inv'.quiet free.1 ▸ ran, fun i t op logged => ?_⟩
  obtain ⟨r, mem⟩ := back i t op logged
  exact ⟨r, (inv'.finished _ mem).2, mem⟩

/-- From the put that is half-way with a get that waits. -/
theorem calls_return_put_and_get :
    ∃ c : Config Bool Cache (Answer CacheEntry) (Call Bytes CacheEntry), HalfPut c ∧
      (∀ t, c.threads t ≠ .idle → ∃ c', Work underLock c c') ∧
      Acc (fun c' c => Work underLock c c') c ∧
      ∀ c', Relation.ReflTransGen (Work underLock) c c' → (∀ c'', ¬ Work underLock c' c'') →
        (∀ t, c'.threads t = .idle) ∧ (c'.writer = none ∧ c'.readers = ∅) ∧
        ∃ answers, (new 1).run c'.ops = some (c'.state, answers) ∧
          ∀ i t op, c'.log[i]? = some (t, op) → ∃ r, answers[i]? = some r ∧
            (⟨i, t, op, r⟩ : Completed Bool (Call Bytes CacheEntry) (Answer CacheEntry)) ∈
              c'.returned := by
  obtain ⟨c, half, -, -⟩ := halfPut
  exact ⟨c, half, calls_return 1 half.reach⟩

end CachingProxy.Cache
