import CachingProxy.Cache.Refinement
import CachingProxy.Cpp.SharedMutex

/-! The bodies of the public calls, access by access, under the reader and writer locks.
An assignment to an entry is the insertion of a default entry followed by one copy a field;
a get copies the entry field by field. Run alone, each body is the call of the sequential
model, and the lock makes every interleaving answer like a sequence of such calls. -/
namespace CachingProxy.Cache
open Cpp Recency SharedMutex

abbrev CallBody := Body Cache (Answer CacheEntry)

/-- it->second for an iterator it to `key`. -/
def entryAt (c : Cache) (key : Bytes) : CacheEntry :=
  (c.cache_map_.lookup key).getD CacheEntry.default

def copyBody (key : Bytes) : CallBody :=
  .read (fun c => (c.entryAt key).data) fun data =>
  .read (fun c => (c.entryAt key).response_line) fun response_line =>
  .read (fun c => (c.entryAt key).headers) fun headers =>
  .read (fun c => (c.entryAt key).creation_time) fun creation_time =>
  .read (fun c => (c.entryAt key).expires_time) fun expires_time =>
  .read (fun c => (c.entryAt key).requires_validation) fun requires_validation =>
  .read (fun c => (c.entryAt key).etag) fun etag =>
  .read (fun c => (c.entryAt key).last_modified) fun last_modified =>
  .done (.found (some ⟨data, response_line, headers, creation_time, expires_time,
    requires_validation, etag, last_modified⟩))

def getBody (key : Bytes) : CallBody :=
  .read (fun c => decide (key ∈ c.cache_map_)) fun hit =>
  if hit then copyBody key else .done (.found none)

def evictBody (k : CallBody) : CallBody :=
  .read oldest_key fun
  | none => k
  | some oldest_key =>
    .write (fun c => { c with access_order_ := c.access_order_.pop_back }) <|
    .write (fun c => { c with cache_map_ := c.cache_map_.erase oldest_key }) <|
    .write (fun c => { c with key_to_iterator_ := c.key_to_iterator_.erase oldest_key }) k

/-- operator[] before the assignment. -/
def insertDefault (key : Bytes) (c : Cache) : Cache :=
  if key ∈ c.cache_map_ then c else c.assign key CacheEntry.default

def setField (key : Bytes) (f : CacheEntry → CacheEntry) (c : Cache) : Cache :=
  c.assign key (f (c.entryAt key))

def assignBody (key : Bytes) (value : CacheEntry) (k : CallBody) : CallBody :=
  .write (insertDefault key) <|
  .write (setField key fun e => { e with data := value.data }) <|
  .write (setField key fun e => { e with response_line := value.response_line }) <|
  .write (setField key fun e => { e with headers := value.headers }) <|
  .write (setField key fun e => { e with creation_time := value.creation_time }) <|
  .write (setField key fun e => { e with expires_time := value.expires_time }) <|
  .write (setField key fun e => { e with requires_validation := value.requires_validation }) <|
  .write (setField key fun e => { e with etag := value.etag }) <|
  .write (setField key fun e => { e with last_modified := value.last_modified }) k

def pushBody (key : Bytes) : CallBody :=
  .write (fun c => { c with access_order_ := c.access_order_.push_front key }) <|
  .write (fun c =>
    { c with key_to_iterator_ := c.key_to_iterator_.insert key c.access_order_.begin }) <|
  .done .done

def updateBody (key : Bytes) : CallBody :=
  .read (fun c => c.key_to_iterator_.lookup key) fun
  | some it => .act (fun c => c.eraseNode key it) (fun _ => pushBody key)
  | none => pushBody key

def putBody (key : Bytes) (value : CacheEntry) : CallBody :=
  .read (fun c => decide (c.size ≥ c.max_entries_)) fun full =>
  if full then evictBody (assignBody key value (updateBody key))
  else assignBody key value (updateBody key)

def removeBody (key : Bytes) : CallBody :=
  .read (fun c => decide (key ∈ c.cache_map_)) fun hit =>
  if hit then
    .write (fun c => { c with cache_map_ := c.cache_map_.erase key }) <|
    .read (fun c => c.key_to_iterator_.lookup key) fun
    | some order_it =>
      .act (fun c => c.eraseNode key order_it) fun _ =>
      .write (fun c => { c with key_to_iterator_ := c.key_to_iterator_.erase key }) <|
      .done .done
    | none => .done .done
  else .done .done

def clearBody : CallBody :=
  .write (fun c => { c with cache_map_ := ∅ }) <|
  .write (fun c => { c with access_order_ := c.access_order_.clear }) <|
  .write (fun c => { c with key_to_iterator_ := ∅ }) <|
  .done .done

/-- get and size take a ReaderLock, the other calls a WriterLock. -/
def underLock : Object Cache (Answer CacheEntry) (Call Bytes CacheEntry) where
  shared
    | .get _ | .size => true
    | .put .. | .remove _ | .clear => false
  body
    | .put key value => putBody key value
    | .get key => getBody key
    | .remove key => removeBody key
    | .clear => clearBody
    | .size => .read size fun n => .done (.count n)

/-! ## Run alone, a body is its call -/

theorem run_copyBody {c : Cache} {key : Bytes} {e : CacheEntry}
    (h : c.cache_map_.lookup key = some e) : (copyBody key).run c = some (c, .found (some e)) := by
  have at_key : c.entryAt key = e := by simp [entryAt, h]
  simp [copyBody, Body.read, Body.run, at_key]

theorem run_getBody (c : Cache) (key : Bytes) :
    (getBody key).run c = some (c, .found (c.get key)) := by
  cases h : c.cache_map_.lookup key with
  | none =>
    have out : key ∉ c.cache_map_ := Finmap.lookup_eq_none.mp h
    simp [getBody, Body.read, Body.run, out, get, h]
  | some e =>
    have hit : key ∈ c.cache_map_ := Finmap.mem_of_lookup_eq_some h
    simp [getBody, Body.read, Body.run, hit, get, h, run_copyBody h]

theorem run_evictBody (k : CallBody) (c : Cache) : (evictBody k).run c = k.run c.evictOldest := by
  unfold evictOldest
  cases h : c.oldest_key <;> simp [evictBody, Body.read, Body.write, Body.run, h]

theorem setField_assign (c : Cache) (key : Bytes) (e : CacheEntry) (f : CacheEntry → CacheEntry) :
    setField key f (c.assign key e) = c.assign key (f e) := by
  simp [setField, entryAt, assign]

/-- After operator[] there is some entry under the key, and nothing else has changed. -/
theorem insertDefault_eq (c : Cache) (key : Bytes) : ∃ e, insertDefault key c = c.assign key e := by
  by_cases h : key ∈ c.cache_map_
  · obtain ⟨e, he⟩ := Finmap.mem_iff.mp h
    refine ⟨e, ?_⟩
    have same : c.cache_map_.insert key e = c.cache_map_ := by
      apply Finmap.ext_lookup
      intro k
      by_cases hk : k = key
      · subst hk
        rw [Finmap.lookup_insert, he]
      · rw [Finmap.lookup_insert_of_ne _ hk]
    simp [insertDefault, h, assign, same]
  · exact ⟨CacheEntry.default, by simp [insertDefault, h]⟩

theorem run_assignBody (k : CallBody) (c : Cache) (key : Bytes) (value : CacheEntry) :
    (assignBody key value k).run c = k.run (c.assign key value) := by
  obtain ⟨e, he⟩ := insertDefault_eq c key
  simp [assignBody, Body.write, Body.run, he, setField_assign]

theorem run_updateBody (c : Cache) (key : Bytes) :
    (updateBody key).run c = (c.updateAccessOrder key).map (·, .done) := by
  unfold updateAccessOrder
  cases h : c.key_to_iterator_.lookup key with
  | none => simp [updateBody, pushBody, Body.read, Body.write, Body.run, h, pushFront]
  | some it =>
    cases hn : c.eraseNode key it <;>
      simp [updateBody, pushBody, Body.read, Body.write, Body.run, h, hn, pushFront]

theorem run_putBody (c : Cache) (key : Bytes) (value : CacheEntry) :
    (putBody key value).run c = (c.put key value).map (·, .done) := by
  by_cases full : c.size ≥ c.max_entries_
  · simp only [putBody, Body.read, Body.run, Option.bind_some, full, decide_true, if_true,
      run_evictBody, run_assignBody, run_updateBody, put, makeRoom]
  · simp only [putBody, Body.read, Body.run, Option.bind_some, full, decide_false,
      Bool.false_eq_true, if_false, run_assignBody, run_updateBody, put, makeRoom]

theorem run_removeBody (c : Cache) (key : Bytes) :
    (removeBody key).run c = (c.remove key).map (·, .done) := by
  by_cases hit : key ∈ c.cache_map_
  · cases h : c.key_to_iterator_.lookup key with
    | none => simp [removeBody, Body.read, Body.write, Body.run, remove, hit, h]
    | some it =>
      by_cases live : c.access_order_.deref it = some key <;>
        simp [removeBody, Body.read, Body.write, Body.run, remove, hit, h, eraseNode, live]
  · simp [removeBody, Body.read, Body.run, remove, hit]

theorem run_body (c : Cache) (x : Call Bytes CacheEntry) : (underLock.body x).run c = c.call x := by
  cases x with
  | put key value => exact run_putBody c key value
  | get key => exact run_getBody c key
  | remove key => exact run_removeBody c key
  | clear => rfl
  | size => rfl

theorem replay_eq_run (c : Cache) (calls : List (Call Bytes CacheEntry)) :
    replay underLock c calls = c.run calls := by
  induction calls generalizing c with
  | nil => rfl
  | cons x xs ih => simp only [replay, Cache.run, run_body, ih]

/-- No call faults, whatever calls came before it. -/
theorem replay_total (max_entries : Nat) (calls : List (Call Bytes CacheEntry)) :
    (replay underLock (new max_entries) calls).isSome := by
  obtain ⟨c', ran, -⟩ := shows_run calls (shows_new max_entries)
  rw [replay_eq_run, ran]
  rfl

theorem readOnly_body (x : Call Bytes CacheEntry) (h : underLock.shared x = true) :
    (underLock.body x).ReadOnly := by
  cases x with
  | get key =>
    intro c
    refine ⟨rfl, ?_⟩
    by_cases hit : key ∈ c.cache_map_ <;>
      simp [hit, copyBody, Body.read, Body.ReadOnly]
  | size => exact fun c => ⟨rfl, trivial⟩
  | put key value => cases h
  | remove key => cases h
  | clear => cases h

/-- In every interleaving of any threads' calls, a finished call returned what it returns when
whole calls run in the order in which they took the lock. Whenever a get or size is inside, the
containers agree and are those that whole calls leave, and no access inside is undefined. -/
theorem calls_linearizable {τ : Type} [DecidableEq τ] (max_entries : Nat)
    {c : Config τ Cache (Answer CacheEntry) (Call Bytes CacheEntry)}
    (reach : Relation.ReflTransGen (Step underLock) (Config.start (new max_entries)) c) :
    ∃ cache answers, (new max_entries).run c.ops = some (cache, answers) ∧
      (∀ d ∈ c.returned, c.log[d.ticket]? = some (d.thread, d.op) ∧
        answers[d.ticket]? = some d.result) ∧
      (∀ t op i rest, c.threads t = .inside op i rest → underLock.shared op = true →
        c.state = cache ∧ Rep c.state) ∧
      (∀ t op i update next, c.threads t = .inside op i (.act update next) →
        (update c.state).isSome) := by
  obtain ⟨cache, answers, h⟩ := inv_reachable (replay_total max_entries) readOnly_body reach
  have hrun := h.replayed
  rw [replay_eq_run] at hrun
  obtain ⟨c', hshow, -, shows⟩ := shows_run c.ops (shows_new max_entries)
  have same : c' = cache := congrArg Prod.fst (Option.some.inj (hshow.symm.trans hrun))
  refine ⟨cache, answers, hrun, h.finished, ?_, ?_⟩
  · intro t op i rest hin mode
    have hs := h.shared_state hin mode
    exact ⟨hs, hs ▸ same ▸ shows.rep⟩
  · exact fun t op i update next hin => h.defined hin

/-! One thread is in its put and has copied the body of the new entry, another waits with a get of
the same key. -/

def tagged : CacheEntry := { CacheEntry.default with data := bytes "x", etag := bytes "y" }

abbrev puts : Call Bytes CacheEntry := .put (bytes "a") tagged

abbrev gets : Call Bytes CacheEntry := .get (bytes "a")

/-- What the put does after the body of the entry. -/
def afterData : CallBody :=
  .write (setField (bytes "a") fun e => { e with response_line := [] }) <|
  .write (setField (bytes "a") fun e => { e with headers := ∅ }) <|
  .write (setField (bytes "a") fun e => { e with creation_time := 0 }) <|
  .write (setField (bytes "a") fun e => { e with expires_time := 0 }) <|
  .write (setField (bytes "a") fun e => { e with requires_validation := false }) <|
  .write (setField (bytes "a") fun e => { e with etag := bytes "y" }) <|
  .write (setField (bytes "a") fun e => { e with last_modified := [] }) (updateBody (bytes "a"))

/-- The entry in the cache is not yet the one that is put, and the get is outside the lock. -/
structure HalfPut (c : Config Bool Cache (Answer CacheEntry) (Call Bytes CacheEntry)) : Prop where
  reach : Relation.ReflTransGen (Step underLock) (Config.start (new 1)) c
  putting : c.threads false = .inside puts 0 afterData
  getting : c.threads true = .waiting gets
  torn : c.state.get (bytes "a") = some { tagged with etag := [] }

theorem halfPut : ∃ c, HalfPut c ∧ c.log = [(false, puts)] ∧ c.returned = [] := by
  have called := (Relation.ReflTransGen.refl (r := Step underLock)
    (a := Config.start (τ := Bool) (new 1))).tail (.call false puts rfl)
    |>.tail (.call true gets rfl)
  have locked := called.tail (.lock false puts rfl rfl rfl rfl)
  have looked := locked.tail (.act false puts 0 _ _ _ rfl rfl)
  have inserted := looked.tail (.act false puts 0 (fun c => some (insertDefault (bytes "a") c))
    (fun _ => .write (setField (bytes "a") fun e => { e with data := bytes "x" }) afterData) _
    rfl rfl)
  have copied := inserted.tail (.act false puts 0
    (fun c => some (setField (bytes "a") (fun e => { e with data := bytes "x" }) c))
    (fun _ => afterData) _ rfl rfl)
  exact ⟨_, ⟨copied, rfl, rfl, rfl⟩, rfl, rfl⟩

/-- The get that has waited is about to return the whole entry. -/
theorem calls_linearizable_put_and_get :
    ∃ half c : Config Bool Cache (Answer CacheEntry) (Call Bytes CacheEntry),
      HalfPut half ∧ Relation.ReflTransGen (Step underLock) half c ∧
      c.returned = [⟨0, false, puts, .done⟩] ∧
      c.threads true = .inside gets 1 (.done (.found (some tagged))) ∧
      ∃ cache answers, (new 1).run c.ops = some (cache, answers) ∧
        (∀ d ∈ c.returned, c.log[d.ticket]? = some (d.thread, d.op) ∧
          answers[d.ticket]? = some d.result) ∧
        (∀ t op i rest, c.threads t = .inside op i rest → underLock.shared op = true →
          c.state = cache ∧ Rep c.state) ∧
        (∀ t op i update next, c.threads t = .inside op i (.act update next) →
          (update c.state).isSome) := by
  obtain ⟨half, h, log, returned⟩ := halfPut
  obtain ⟨cache, answers, inv⟩ := inv_reachable (replay_total 1) readOnly_body h.reach
  obtain ⟨stored, ran, -, shows⟩ := shows_run [puts] (shows_new 1)
  have replayed := inv.replayed
  rw [replay_eq_run, Config.ops, log] at replayed
  cases ran.symm.trans replayed
  obtain ⟨r, answered, rest⟩ := (inv.inside false puts 0 afterData h.putting).outcome
  obtain rfl : r = .done := (Option.some.inj answered).symm
  have put := (steps_body (o := underLock) false puts h.putting rest).tail
    (.unlock false puts 0 .done (by simp [Config.set]) rfl)
  have found : (getBody (bytes "a")).run cache = some (cache, .found (some tagged)) := by
    rw [run_getBody, shows.get_eq]
    rfl
  have locked := put.tail (.lockShared true gets h.getting rfl rfl)
  have copied := locked.trans (steps_body (i := 1) (p := underLock.body gets) true gets
    (by simp [Config.set, log]) found)
  refine ⟨half, _, h, copied, ?_, ?_, calls_linearizable 1 (h.reach.trans copied)⟩
  · simp [Config.set, returned]
  · simp [Config.set, log]

end CachingProxy.Cache
