import CachingProxy.Cache.Concurrent
import CachingProxy.Cpp.Clients
import CachingProxy.Provenance

/-! The handlers of all connections at the accesses that they make inside the locks of the cache.
Every interleaving of these is a run of the proxy in which a handler meets the cache at two points
only, so what holds of the runs of the proxy holds of the threads. -/
namespace CachingProxy
open Cpp Recency SharedMutex

abbrev CacheClient := Client (Answer CacheEntry) (Call Bytes CacheEntry)

abbrev CacheSystem := System Nat Cache (Answer CacheEntry) (Call Bytes CacheEntry)

abbrev CacheServed := SharedMutex.Served Nat Cache (Answer CacheEntry) (Call Bytes CacheEntry)

/-- The entry that a get returns, if any. -/
def found_in : Answer CacheEntry → Option CacheEntry
  | .found entry => entry
  | _ => none

theorem stored_one (env : Environment) (request : Request) (h body : Bytes) :
    stored env request h body = [] ∨ ∃ entry, stored env request h body = [(request.url, entry)] := by
  cases all : stored env request h body with
  | nil => exact Or.inl rfl
  | cons p rest =>
    unfold stored at all
    split at all
    · split at all
      · cases all
      · split at all
        · cases all
        · cases all
          exact Or.inr ⟨_, rfl⟩
    · cases all

theorem forwardRequest_stores {env : Environment} {request : Request} {w w' : World}
    (run : (forwardRequest env request).run w = .ok true w') :
    ∃ h body, w'.puts = w.puts ++ stored env request h body := by
  have exit := forwardRequest_exit env request w
  rw [run] at exit
  cases exit with
  | answered answers ends => rcases ends with ends | ends <;> cases ends
  | relayed relayed =>
    cases relayed with
    | broken pre relays ends => rcases ends with ends | ends <;> cases ends
    | finished opened framing body relays => exact ⟨_, _, by rw [relays.puts]⟩

namespace Job

/-- A handler stores one entry at most. -/
theorem puts_cases (job : Job) : job.outcome.puts = [] ∨ ∃ request entry,
    job.get_request = some request ∧ job.outcome.puts = [(request.url, entry)] := by
  cases all : job.outcome.puts with
  | nil => exact Or.inl rfl
  | cons p rest =>
    have mem : (p.1, p.2) ∈ job.outcome.puts := by
      rw [all]
      exact List.mem_cons_self
    obtain ⟨request, read, get, -, -, -, -, -, -, -, run⟩ := job.mem_puts mem
    have asked : job.get_request = some request := by simp [get_request, read, get]
    obtain ⟨h, body, puts⟩ := forwardRequest_stores run
    rw [job.opening_clean.1, List.nil_append, all] at puts
    rcases stored_one job.env request h body with none_put | ⟨entry, one⟩
    · cases puts.trans none_put
    · exact Or.inr ⟨request, entry, asked, puts.trans one⟩

/-- What a handler that has had its answer still does with the cache. -/
def storing (job : Job) : CacheClient :=
  .script (job.outcome.puts.map (fun p => .put p.1 p.2))

/-- The calls of one handler: a GET asks the cache first. -/
def client (job : Job) : CacheClient :=
  match job.get_request with
  | some request => .call (.get request.url) (fun answer => (job.answered (found_in answer)).storing)
  | none => (job.answered none).storing

/-- A handler that goes on with the cache is at the get of its GET, -/
theorem client_call {job : Job} {op : Call Bytes CacheEntry}
    {next : Answer CacheEntry → CacheClient} (at_call : job.client = .call op next) :
    ∃ request, job.get_request = some request ∧ op = .get request.url ∧
      next = fun answer => (job.answered (found_in answer)).storing := by
  unfold client at at_call
  split at at_call
  · rename_i request asked
    cases at_call
    exact ⟨request, asked, rfl, rfl⟩
  · rename_i unasked
    rcases (job.answered none).puts_cases with none_put | ⟨request, entry, asked, -⟩
    · rw [storing, none_put] at at_call
      cases at_call
    · cases unasked.symm.trans asked

/-- or at its only put. -/
theorem storing_call {job : Job} {op : Call Bytes CacheEntry}
    {next : Answer CacheEntry → CacheClient} (at_call : job.storing = .call op next) :
    ∃ key entry, job.outcome.puts = [(key, entry)] ∧ op = .put key entry ∧
      next = fun _ => .done := by
  rcases job.puts_cases with none_put | ⟨request, entry, -, one⟩
  · rw [storing, none_put] at at_call
    cases at_call
  · rw [storing, one] at at_call
    cases at_call
    exact ⟨request.url, entry, one, rfl, rfl⟩

end Job

/-! ## Call by call, the threads are the handlers of a proxy -/

/-- Where a thread is among its calls and where its handler is in the proxy. -/
inductive At (job : Job) : CacheClient → Thread → Prop where
  | fresh : At job job.client .idle
  | looked (found : Option CacheEntry) :
      At job (job.answered found).storing (.looked (job.answered found))
  | finished : At job .done .idle

/-- The event of the proxy that a served call is. -/
inductive Matches (jobs : Nat → Job) :
    Event → (Nat × Call Bytes CacheEntry) × Answer CacheEntry → Prop where
  | look (i : Nat) (key : Bytes) (answer : Answer CacheEntry) :
      Matches jobs (.look ((jobs i).answered (found_in answer))) ((i, .get key), answer)
  | put (i : Nat) (found : Option CacheEntry) (key : Bytes) (entry : CacheEntry)
      (answer : Answer CacheEntry) :
      Matches jobs (.put ((jobs i).answered found) key entry) ((i, .put key entry), answer)

structure Follows (jobs : Nat → Job) (a : CacheServed) (p : Proxy) : Prop where
  cache : p.cache = a.state
  places : ∀ i, At (jobs i) (a.clients i) (p.threads i)
  log : List.Forall₂ (Matches jobs) p.log (a.calls.zip a.answers)
  lengths : a.calls.length = a.answers.length

theorem follows_start (max_entries : Nat) (jobs : Nat → Job) :
    Follows jobs (.start (.new max_entries) (fun i => (jobs i).client)) (.start max_entries) where
  cache := rfl
  places _ := .fresh
  log := .nil
  lengths := rfl

/-- One more call and its event; the other threads stay where they are. -/
theorem Follows.more {jobs : Nat → Job} {a : CacheServed} {p : Proxy} (h : Follows jobs a p)
    {i : Nat} {op : Call Bytes CacheEntry} {answer : Answer CacheEntry} {client : CacheClient}
    {thread : Thread} {cache : Cache} {event : Event} (now : At (jobs i) client thread)
    (matched : Matches jobs event ((i, op), answer)) :
    Follows jobs
      ⟨cache, Function.update a.clients i client, a.calls ++ [(i, op)], a.answers ++ [answer]⟩
      ⟨cache, Function.update p.threads i thread, p.log ++ [event]⟩ where
  cache := rfl
  places j := by
    change At (jobs j) (Function.update a.clients i client j) (Function.update p.threads i thread j)
    by_cases own : j = i
    · subst own
      rwa [Function.update_self, Function.update_self]
    · rw [Function.update_of_ne own, Function.update_of_ne own]
      exact h.places j
  log := by
    rw [List.zip_append h.lengths]
    exact List.rel_append h.log (.cons matched .nil)
  lengths := by simp [h.lengths]

theorem follows_serve {jobs : Nat → Job} {a a' : CacheServed} {p : Proxy} (h : Follows jobs a p)
    {i : Nat} (served : SharedMutex.serve Cache.underLock a i = some a') :
    ∃ moves p', p.run moves = some p' ∧ Follows jobs a' p' := by
  obtain ⟨op, next, cache, answer, at_call, ran, rfl⟩ := serve_eq_some served
  have place := h.places i
  rw [at_call] at place
  generalize client : Client.call op next = rest at place
  generalize here : p.threads i = thread at place
  cases place with
  | finished => cases client
  | fresh =>
    obtain ⟨request, asked, rfl, rfl⟩ := Job.client_call client.symm
    rw [Cache.run_body] at ran
    cases ran
    have looks : p.run [.start i (jobs i), .look i] = some
        ⟨a.state, Function.update p.threads i (.looked ((jobs i).answered (a.state.get request.url))),
          p.log ++ [.look ((jobs i).answered (a.state.get request.url))]⟩ := by
      simp only [Proxy.run, Runs.run_cons, Runs.run_nil, Proxy.step, here]
      simp [asked, Proxy.setThread, h.cache]
    exact ⟨_, _, looks, h.more (.looked _) (.look i request.url (.found (a.state.get request.url)))⟩
  | looked found =>
    obtain ⟨key, entry, puts, rfl, rfl⟩ := Job.storing_call client.symm
    rw [Cache.run_body] at ran
    obtain ⟨cache', put, same⟩ := Option.map_eq_some_iff.mp ran
    cases same
    have stores : p.run [.store i] = some ⟨cache, Function.update p.threads i .idle,
        p.log ++ [.put ((jobs i).answered found) key entry]⟩ := by
      simp only [Proxy.run, Runs.run_cons, Runs.run_nil, Proxy.step, here, puts]
      simp [Proxy.putAll, h.cache, put, Proxy.setThread]
    exact ⟨_, _, stores, h.more .finished (.put i found key entry .done)⟩

theorem follows_run {max_entries : Nat} {jobs : Nat → Job} {schedule : List Nat} {a : CacheServed}
    (ran : Runs.run (SharedMutex.serve Cache.underLock)
      (.start (.new max_entries) (fun i => (jobs i).client)) schedule = some a) :
    ∃ moves p, (Proxy.start max_entries).run moves = some p ∧ Follows jobs a p := by
  refine Runs.always (P := fun a => ∃ moves p,
    (Proxy.start max_entries).run moves = some p ∧ Follows jobs a p) ?_
    ⟨[], _, rfl, follows_start max_entries jobs⟩ ran
  rintro a i a' ⟨moves, p, moved, follows⟩ served
  obtain ⟨more, p', moved', follows'⟩ := follows_serve follows served
  have both : (Proxy.start max_entries).run (moves ++ more) =
      ((Proxy.start max_entries).run moves).bind (fun p => p.run more) :=
    Runs.run_append (Proxy.start max_entries) moves more
  exact ⟨moves ++ more, p', by rw [both, moved, Option.bind_some, moved'], follows'⟩

/-- However the accesses of the handlers interleave inside the locks of the cache, there is a run of
the proxy whose events are their calls, with the answers they get, in the order of the lock. While
no one writes, the cache is that of the proxy; a handler outside the lock is where it is there. -/
theorem threads_run_proxy (max_entries : Nat) (jobs : Nat → Job) (s : CacheSystem)
    (reach : Relation.ReflTransGen (Advance Cache.underLock)
      (.start (.new max_entries) (fun i => (jobs i).client)) s) :
    ∃ moves p answers, (Proxy.start max_entries).run moves = some p ∧
      (s.config.writer = none → s.config.state = p.cache) ∧
      (∀ i, s.config.threads i = .idle → At (jobs i) (s.clients i) (p.threads i)) ∧
      List.Forall₂ (Matches jobs) p.log (s.config.log.zip answers) ∧
      (∀ d ∈ s.config.returned, s.config.log[d.ticket]? = some (d.thread, d.op) ∧
        answers[d.ticket]? = some d.result) := by
  obtain ⟨schedule, a, ran, explains⟩ :=
    linearize (Cache.replay_total max_entries) Cache.readOnly_body reach
  obtain ⟨moves, p, moved, follows⟩ := follows_run ran
  refine ⟨moves, p, a.answers, moved, fun free => ?_, fun i idle => ?_, ?_, explains.inv.finished⟩
  · rw [follows.cache, explains.inv.quiet free]
  · have place := explains.places i
    rw [idle] at place
    exact place ▸ follows.places i
  · rw [← explains.calls]
    exact follows.log

/-- Two handlers have looked into the empty cache. One of them is in its put, where its entry is not
filled in yet; the other waits with a put of its own. -/
theorem threads_run_proxy_two_puts : ∃ (jobs : Nat → Job) (s : CacheSystem) (entry : CacheEntry),
    ((∃ ticket rest, s.config.threads 0 = .inside (.put plain.url entry) ticket rest) ∧
      s.config.threads 1 = .waiting (.put plain.url entry) ∧
      s.config.state.get plain.url = some CacheEntry.default) ∧
    s.config.log = [(0, .get plain.url), (1, .get plain.url), (0, .put plain.url entry)] ∧
    ∃ moves p answers,
      (Proxy.start 1).run moves = some p ∧ (s.config.writer = none → s.config.state = p.cache) ∧
      (∀ i, s.config.threads i = .idle → At (jobs i) (s.clients i) (p.threads i)) ∧
      List.Forall₂ (Matches jobs) p.log (s.config.log.zip answers) ∧
      (∀ d ∈ s.config.returned, s.config.log[d.ticket]? = some (d.thread, d.op) ∧
        answers[d.ticket]? = some d.result) := by
  obtain ⟨iteration⟩ := nonempty_iteration
  let job := plainJob iteration bare
  obtain ⟨entry, stored⟩ : ∃ entry, (job.answered none).outcome.puts = [(plain.url, entry)] := by
    have one : (job.answered none).outcome.puts.map Prod.fst = [plain.url] := rfl
    obtain ⟨⟨key, entry⟩, all, rfl⟩ := List.map_eq_singleton_iff.mp one
    exact ⟨entry, all⟩
  have storing : (job.answered none).storing = .call (.put plain.url entry) (fun _ => .done) := by
    rw [Job.storing, stored]
    rfl
  -- both look
  obtain ⟨s₁, reach₁, clients₁, state₁, threads₁, writer₁, readers₁, log₁⟩ :=
    call_alone (o := Cache.underLock) (s := .start (.new 1) (fun _ => job.client)) (t := 0)
      rfl rfl rfl rfl (Cache.run_getBody (.new 1) plain.url)
  have found₁ : (Cache.getBody plain.url).run s₁.config.state = some (.new 1, .found none) := by
    rw [state₁]
    exact Cache.run_getBody (.new 1) plain.url
  have at_call₁ : s₁.clients 1 = job.client := by
    rw [clients₁]
    rfl
  obtain ⟨s₂, reach₂, clients₂, state₂, threads₂, writer₂, readers₂, log₂⟩ :=
    call_alone (o := Cache.underLock) at_call₁ (by rw [threads₁]; rfl) writer₁ readers₁ found₁
  have idle (i : Nat) : s₂.config.threads i = .idle := by
    rw [threads₂, threads₁]
    rfl
  have next₀ : s₂.clients 0 = .call (.put plain.url entry) (fun _ => .done) := by
    rw [clients₂, clients₁, ← storing]
    rfl
  have next₁ : s₂.clients 1 = .call (.put plain.url entry) (fun _ => .done) := by
    rw [clients₂, ← storing]
    exact Function.update_self ..
  -- both call, and one has the lock and begins
  let put : Call Bytes CacheEntry := .put plain.url entry
  let fill : Cache.CallBody := Cache.assignBody plain.url entry (Cache.updateBody plain.url)
  let decided (c : Cache) : Cache.CallBody :=
    if decide (c.size ≥ c.max_entries_) then Cache.evictBody fill else fill
  obtain ⟨rest, writes⟩ : ∃ rest, fill =
    .act (fun c => some (Cache.insertDefault plain.url c)) (fun _ => rest) := ⟨_, rfl⟩
  have body : Cache.underLock.body put = .act some decided := rfl
  have room : decided s₂.config.state = .act (fun c => some (Cache.insertDefault plain.url c))
      (fun _ => rest) := by
    rw [state₂, ← writes]
    rfl
  have called := (reach₁.trans reach₂).tail (.call 0 _ _ next₀ (idle 0))
  have waits := called.tail (.call 1 _ _ next₁ (by simp [Config.set, idle]))
  have locked := waits.tail (.go _ (.lock 0 put (by simp [Config.set, put]) rfl writer₂ readers₂)
    (idle_update (by simp [Config.set]) (inside_ne_idle _ _ _)))
  have looked := locked.tail (.go _ (.act 0 put s₂.config.log.length some decided s₂.config.state
    (by simp [Config.set, body]) rfl) (idle_update (by simp [Config.set]) (inside_ne_idle _ _ _)))
  have inserted := looked.tail (.go _ (.act 0 put s₂.config.log.length
    (fun c => some (Cache.insertDefault plain.url c)) (fun _ => rest) _
    (by simp [Config.set, room]) rfl) (idle_update (by simp [Config.set]) (inside_ne_idle _ _ _)))
  refine ⟨fun _ => job, _, entry, ⟨⟨s₂.config.log.length, rest, ?_⟩, ?_, ?_⟩, ?_,
    threads_run_proxy 1 (fun _ => job) _ inserted⟩
  · simp [Config.set, put]
  · simp [Config.set]
  · rw [state₂]
    rfl
  · change s₂.config.log ++ [(0, put)] = _
    rw [log₂, log₁]
    rfl

end CachingProxy
