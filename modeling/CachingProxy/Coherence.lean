import CachingProxy.Provenance

/-! What the handlers find in the cache that they share. In every run the answer of a get is that of
a store ordered by last write after the puts before it, so an entry stays for as many puts as there
is room, and until then its page is served without the origin. -/
namespace CachingProxy
open Cpp Recency

/-- What an event does to the cache. -/
def Event.call : Event → Option (Call Bytes CacheEntry)
  | .look _ => none
  | .put _ key entry => some (.put key entry)

/-- The puts of a log, in order. -/
def stores (log : List Event) : List (Call Bytes CacheEntry) := log.filterMap Event.call

@[simp] theorem stores_append (log log' : List Event) :
    stores (log ++ log') = stores log ++ stores log' := List.filterMap_append

@[simp] theorem stores_look (log : List Event) (job : Job) : stores (log ++ [.look job]) = stores log := by
  simp [stores, Event.call]

theorem stores_puts (job : Job) (puts : List (Bytes × CacheEntry)) :
    stores (puts.map (fun p => .put job p.1 p.2)) = puts.map (fun p => Call.put p.1 p.2) := by
  simp [stores, List.filterMap_map, Function.comp_def, Event.call]

/-- Nothing else is done to it. -/
theorem countP_writes_stores (log : List Event) : (stores log).countP writes = (stores log).length := by
  rw [List.countP_eq_length]
  intro call mem
  obtain ⟨e, -, same⟩ := List.mem_filterMap.mp mem
  cases e with
  | look job => cases same
  | put job key entry =>
    cases same
    rfl

theorem sparing_stores (key : Bytes) (log : List Event) : ∀ call ∈ stores log, Spares key call := by
  intro call mem
  obtain ⟨e, -, same⟩ := List.mem_filterMap.mp mem
  cases e with
  | look job => cases same
  | put job key' entry =>
    cases same
    trivial

namespace Proxy

/-- The cache shows the puts of the log, and each get was answered as the puts before it say. -/
structure Coherent (max_entries : Nat) (s : Proxy) : Prop where
  bound : s.cache.max_entries_ = max_entries
  shows : Cache.Shows s.cache (Recency.state max_entries (stores s.log))
  looks : ∀ before job after, s.log = before ++ .look job :: after → ∀ request,
    job.get_request = some request → job.env.lookup request.url =
      Recency.get request.url (Recency.state max_entries (stores before))

theorem coherent_start (max_entries : Nat) : Coherent max_entries (start max_entries) where
  bound := rfl
  shows := Cache.shows_new max_entries
  looks := by
    intro before job after log
    exact absurd log (by simp [start])

theorem putAll_shows (puts : List (Bytes × CacheEntry)) {c c' : Cache}
    {l : List (Bytes × CacheEntry)} (h : Cache.Shows c l) (all : putAll c puts = some c') :
    c'.max_entries_ = c.max_entries_ ∧ Cache.Shows c'
      (Recency.run c.max_entries_ l (puts.map (fun p => Call.put p.1 p.2))).1 := by
  induction puts generalizing c l with
  | nil =>
    cases all
    exact ⟨rfl, h⟩
  | cons p puts ih =>
    obtain ⟨c₁, put, same, shows⟩ := Cache.shows_put h p.1 p.2
    rw [putAll, List.foldlM_cons, put] at all
    obtain ⟨same', shows'⟩ := ih shows all
    rw [same] at same' shows'
    exact ⟨same', shows'⟩

theorem coherent_look {max_entries : Nat} {s : Proxy} (h : Coherent max_entries s) (i : Nat)
    (job : Job) : Coherent max_entries { s.setThread i (.looked (job.answered
      (job.get_request.bind (fun request => s.cache.get request.url)))) with
    log := s.log ++ [.look (job.answered
      (job.get_request.bind (fun request => s.cache.get request.url)))] } where
  bound := h.bound
  shows := by
    rw [stores_look]
    exact h.shows
  looks := by
    intro before job' after log request get
    rcases event_cases log with ⟨rest, old⟩ | ⟨new, part, rfl⟩
    · exact h.looks before job' rest old request get
    · cases List.mem_singleton.mp new
      have last : part = [] := by
        have lengths := congrArg List.length log
        simp only [List.length_append, List.length_cons, List.length_nil] at lengths
        exact List.eq_nil_of_length_eq_zero (by omega)
      subst last
      have asked : job.get_request = some request := get
      change job.get_request.bind (fun request => s.cache.get request.url) = _
      rw [asked, Option.bind_some, h.shows.get_eq, List.append_nil]

theorem coherent_store {max_entries : Nat} {s : Proxy} (h : Coherent max_entries s) (i : Nat)
    (job : Job) {cache : Cache} (all : putAll s.cache job.outcome.puts = some cache) :
    Coherent max_entries { s.setThread i .idle with
      cache := cache
      log := s.log ++ job.outcome.puts.map (fun p => .put job p.1 p.2) } := by
  obtain ⟨same, shows⟩ := putAll_shows job.outcome.puts h.shows all
  rw [h.bound] at same shows
  refine ⟨same, ?_, ?_⟩
  · rw [stores_append, stores_puts, Recency.state, Recency.run_append]
    exact shows
  · intro before job' after log request get
    rcases event_cases log with ⟨rest, old⟩ | ⟨new, -⟩
    · exact h.looks before job' rest old request get
    · obtain ⟨p, -, e⟩ := List.mem_map.mp new
      cases e

theorem coherent_step {max_entries : Nat} {s s' : Proxy} (h : Coherent max_entries s) (m : Move)
    (moved : s.step m = some s') : Coherent max_entries s' := by
  cases m with
  | start i job =>
    simp only [step] at moved
    split at moved
    · cases moved
      exact ⟨h.bound, h.shows, h.looks⟩
    · cases moved
  | look i =>
    simp only [step] at moved
    split at moved
    · cases moved
      exact coherent_look h i _
    · cases moved
  | store i =>
    simp only [step] at moved
    split at moved
    · obtain ⟨cache, all, rfl⟩ := Option.map_eq_some_iff.mp moved
      exact coherent_store h i _ all
    · cases moved

theorem coherent_run {max_entries : Nat} {moves : List Move} {s : Proxy}
    (ran : (start max_entries).run moves = some s) : Coherent max_entries s :=
  Runs.always (fun _ m _ h moved => coherent_step h m moved) (coherent_start max_entries) ran

/-- Whatever the order of the handlers, a get finds exactly the entry that was put last under its
key, unless that was evicted since. -/
theorem looks_coherent (max_entries : Nat) (moves : List Move) (s : Proxy)
    (ran : (start max_entries).run moves = some s) (before after : List Event) (job : Job)
    (log : s.log = before ++ .look job :: after) (request : Request)
    (get : job.get_request = some request) (entry : CacheEntry) :
    job.env.lookup request.url = some entry ↔ ∃ earlier later,
      stores before = earlier ++ Call.put request.url entry :: later ∧
      Untouched max_entries request.url
        (Recency.state max_entries (earlier ++ [Call.put request.url entry])) later := by
  rw [(coherent_run ran).looks before job after log request get]
  exact get_state_iff max_entries (stores before) request.url entry

end Proxy

/-! ## Pages that are served from the cache -/

namespace Job

/-- A hit does not concern the origin, and the client gets no other bytes than the page's. -/
theorem outcome_of_hit {job : Job} {request : Request} {entry : CacheEntry}
    (hit : Hit job request entry) : job.outcome.dialled = [] ∧ job.outcome.server.written = [] ∧
      job.outcome.puts = [] ∧ job.outcome.client.bytes <+: hit_message job.env entry := by
  obtain ⟨read, method⟩ := Option.filter_eq_some_iff.mp hit.get
  have serves := dispatch_hit (of_decide_eq_true method) hit.found hit.valid
  have whole := outcome_of_request read
  rw [serves] at whole
  obtain ⟨w', answers, ends⟩ := serve_ends job.env entry job.opening
  have outcome : job.outcome = w' := by
    rw [whole]
    rcases ends with ⟨run, -⟩ | run | run
    · exact guarded_after (Or.inl ⟨true, run⟩)
    · exact guarded_after (Or.inl ⟨false, run⟩)
    · exact guarded_after (Or.inr run)
  have untouched : (job.outcome.dialled, job.outcome.server.written) =
      (job.opening.dialled, job.opening.server.written) := by
    rw [whole]
    have unsent : Unsent (fun w : World => (w.dialled, w.server.written)) .client :=
      fun _ _ _ _ => rfl
    exact (guarded_frame unsent _ _).trans (keeps_serve unsent job.env entry job.opening)
  have quiet : job.opening.dialled = [] ∧ job.opening.server.written = [] := by
    unfold opening
    split <;> exact ⟨rfl, rfl⟩
  rw [quiet.1, quiet.2, Prod.mk.injEq] at untouched
  obtain ⟨accepted, pre, bytes⟩ := answers.bytes
  have before : job.opening.client.bytes = [] := by
    rw [Peer.bytes, job.opening_clean.2.1]
    rfl
  refine ⟨untouched.1, untouched.2, ?_, ?_⟩
  · rw [outcome, answers.puts, job.opening_clean.1]
  · rw [outcome, bytes, before, List.nil_append]
    exact pre

end Job

/-- After a page has been stored, a GET for its key finds it, or what was stored there since, if
fewer entries than there is room for came after it. While that entry is valid the client gets the
bytes of the page and the origin hears nothing. -/
theorem stored_page_is_served (max_entries : Nat) (moves : List Move) (s : Proxy)
    (ran : (Proxy.start max_entries).run moves = some s) (before between after : List Event)
    (job₀ job : Job) (request : Request) (entry₀ : CacheEntry)
    (log : s.log = (before ++ .put job₀ request.url entry₀ :: between) ++ .look job :: after)
    (get : job.get_request = some request) (few : (stores between).length < max_entries) :
    ∃ entry, LastPut request.url entry (.put request.url entry₀ :: stores between) ∧
      job.env.lookup request.url = some entry ∧ (entry.isExpired job.env.now = false →
        job.outcome.dialled = [] ∧ job.outcome.server.written = [] ∧ job.outcome.puts = [] ∧
          job.outcome.client.bytes <+: hit_message job.env entry) := by
  have coherent := Proxy.coherent_run ran
  have found := coherent.looks _ job after log request get
  have put : stores (before ++ .put job₀ request.url entry₀ :: between) =
      (stores before ++ [.put request.url entry₀]) ++ stores between := by
    simp [stores, Event.call]
  have near := near_put_self max_entries request.url entry₀ (Recency.state max_entries (stores before))
  have first : Recency.state max_entries (stores before ++ [.put request.url entry₀]) =
      Recency.put max_entries request.url entry₀ (Recency.state max_entries (stores before)) :=
    state_append max_entries (stores before) (.put request.url entry₀)
  have room : 0 + (stores between).countP writes < max_entries := by
    rw [countP_writes_stores]
    omega
  obtain ⟨entry, n, last, still⟩ := near_run max_entries request.url entry₀ 0 _ near
    (stores between) (sparing_stores request.url between) room
  have state : Recency.state max_entries (stores (before ++ .put job₀ request.url entry₀ :: between)) =
      (Recency.run max_entries (Recency.put max_entries request.url entry₀
        (Recency.state max_entries (stores before))) (stores between)).1 := by
    rw [put, Recency.state, Recency.run_append, ← first]
    rfl
  have holds : job.env.lookup request.url = some entry := by
    rw [found, state]
    refine still.get_eq ?_
    rw [← state]
    exact state_nodup max_entries _
  exact ⟨entry, last, holds, fun valid => Job.outcome_of_hit ⟨get, holds, valid⟩⟩

/-! Two equal requests, one after the other. -/

theorem bare_inTurn (iteration : Iteration) : ∃ s entry,
    (Proxy.start 1).run (Proxy.inTurn (plainJob iteration bare) (plainJob iteration bare)) = some s ∧
      s.log = [.look ((plainJob iteration bare).answered none),
        .put ((plainJob iteration bare).answered none) plain.url entry,
        .look ((plainJob iteration bare).answered (some entry))] := by
  have stored : ((plainJob iteration bare).answered none).outcome.puts.map Prod.fst = [plain.url] :=
    rfl
  obtain ⟨s, entry, ran, log, -⟩ := Proxy.hit_inTurn (plainJob_get iteration bare)
    (plainJob_get iteration bare) rfl rfl stored (by decide) (by decide)
  exact ⟨s, entry, ran, log⟩

theorem looks_coherent_bare : ∃ (before : List Event) (job : Job) (entry : CacheEntry),
    job.env.lookup plain.url = some entry ∧
      (job.env.lookup plain.url = some entry ↔ ∃ earlier later,
        stores before = earlier ++ Call.put plain.url entry :: later ∧
        Untouched 1 plain.url
          (Recency.state 1 (earlier ++ [Call.put plain.url entry])) later) := by
  obtain ⟨iteration⟩ := nonempty_iteration
  obtain ⟨s, entry, ran, log⟩ := bare_inTurn iteration
  exact ⟨_, _, entry, rfl, Proxy.looks_coherent 1 _ s ran [_, _] [] _ log plain rfl entry⟩

theorem stored_page_is_served_bare : ∃ (entry₀ : CacheEntry) (job : Job) (entry : CacheEntry),
    LastPut plain.url entry [.put plain.url entry₀] ∧
      job.env.lookup plain.url = some entry ∧ (entry.isExpired job.env.now = false →
        job.outcome.dialled = [] ∧ job.outcome.server.written = [] ∧ job.outcome.puts = [] ∧
          job.outcome.client.bytes <+: hit_message job.env entry) := by
  obtain ⟨iteration⟩ := nonempty_iteration
  obtain ⟨s, entry, ran, log⟩ := bare_inTurn iteration
  exact ⟨entry, _, stored_page_is_served 1 _ s ran [_] [] [] _ _ plain entry log rfl (by decide)⟩

end CachingProxy
