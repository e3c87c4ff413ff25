import CachingProxy.Cache.Refinement
import CachingProxy.Frame
import CachingProxy.Runs
import CachingProxy.Stored

/-! The running proxy: any number of handlers and the one cache between them. A handler meets the
cache at two points, the get of processGetRequest and the put of forwardRequest, and the actions
of the handlers come in any order. The log keeps what happened at these points. -/
namespace CachingProxy
open Cpp Action

/-! ## What never stores -/

theorem unsent_puts (fd : Side) : Unsent World.puts fd := by
  intro w source accepted left
  cases fd <;> rfl

theorem ungot_puts (fd : Side) : Ungot World.puts fd := by
  intro w data left
  cases fd <;> rfl

theorem keeps_puts_error : ∀ e : Exception, Keeps World.puts
    ((fun _ => sendErrorResponse 500 (bytes "Internal Server Error")) e) :=
  fun _ => keeps_sendErrorResponse (unsent_puts .client) _ _

/-- What neither a GET nor a POST does. -/
theorem keeps_puts_dispatch {env : Environment} {request : Request}
    (method : ¬ (request.method = bytes "GET" ∨ request.method = bytes "POST")) :
    Keeps World.puts (dispatch env request) := by
  obtain ⟨not_get, not_post⟩ := not_or.mp method
  unfold dispatch
  rw [if_neg not_get, if_neg not_post]
  apply keeps_ite
  · exact keeps_processConnectRequest ungot_puts unsent_puts (fun _ _ => rfl) (fun _ _ => rfl) _ _
  · exact keeps_refuse (unsent_puts .client) _ _

/-! ## One handler -/

structure Job where
  env : Environment
  kernel : Kernel

namespace Job

/-- The request of the connection, once its first bytes are parsed. -/
def request (job : Job) : Option Request :=
  match job.kernel.client_recvs with
  | .data segment :: _ => (Request.parse job.env.put (Request.new segment.data)).toOption
  | _ => none

/-- A GET among the requests; the others never ask the cache. -/
def get_request (job : Job) : Option Request :=
  job.request.filter (fun request => request.method = bytes "GET")

/-- The job with the answer that its get has had. -/
def answered (job : Job) (found : Option CacheEntry) : Job :=
  { job with env := { job.env with lookup := fun _ => found } }

def outcome (job : Job) : World := (handle_connection job.env).after (World.start job.kernel)

/-- The request has been read, nothing else has happened. -/
def opening (job : Job) : World :=
  match job.kernel.client_recvs with
  | .data segment :: rest => (World.start job.kernel).got .client segment.data rest
  | _ => World.start job.kernel

theorem opening_clean (job : Job) : job.opening.puts = [] ∧ job.opening.client.written = [] ∧
    job.opening.server.received = [] := by
  unfold opening
  split <;> exact ⟨rfl, rfl, rfl⟩

theorem request_eq_some {job : Job} {request : Request} (read : job.request = some request) :
    ∃ segment rest, job.kernel.client_recvs = .data segment :: rest ∧
      Request.parse job.env.put (Request.new segment.data) = .ok request := by
  unfold Job.request at read
  split at read
  · rename_i segment rest first
    refine ⟨segment, rest, first, ?_⟩
    cases parsed : Request.parse job.env.put (Request.new segment.data) with
    | error e => simp [parsed, Except.toOption] at read
    | ok r =>
      simp only [parsed, Except.toOption, Option.some.injEq] at read
      rw [read]
  · cases read

theorem outcome_of_request {job : Job} {request : Request} (read : job.request = some request) :
    job.outcome = (guarded (dispatch job.env request)).after job.opening := by
  obtain ⟨segment, rest, first, accepted⟩ := request_eq_some read
  rw [outcome, handle_connection_after first accepted, opening]
  simp only [first]

theorem puts_of_no_request {job : Job} (unread : job.request = none) : job.outcome.puts = [] := by
  change World.puts ((catching _ _).after _) = []
  rw [keeps_catching _ keeps_puts_error]
  unfold Job.request at unread
  cases first : job.kernel.client_recvs with
  | nil =>
    have waits : (recv .client).run (World.start job.kernel) =
        .error .waiting (World.start job.kernel) := by
      unfold recv
      rw [bind_of_ok (run_get _)]
      simp only [World.start, World.peer, first]
      rfl
    rw [after_of_error (bind_of_error waits _)]
    rfl
  | cons outcome rest =>
    rw [after_congr (bind_of_ok (recv_start first) _)]
    cases outcome with
    | data segment =>
      dsimp only
      cases parsed : Request.parse job.env.put (Request.new segment.data) with
      | error e => exact keeps_sendErrorResponse (unsent_puts .client) _ _ _
      | ok request =>
        simp only [first, parsed, Except.toOption] at unread
        cases unread
    | closed => rfl
    | failed errno => rfl

/-- Every entry a handler puts into the cache comes from a GET that it has forwarded. -/
theorem mem_puts {job : Job} {key : Bytes} {entry : CacheEntry}
    (mem : (key, entry) ∈ job.outcome.puts) :
    ∃ request, job.request = some request ∧ request.method = bytes "GET" ∧ key = request.url ∧
      ∃ h left f segments response, Put job.env request job.opening entry h left f segments response ∧
        (forwardRequest job.env request).run job.opening = .ok true job.outcome := by
  cases read : job.request with
  | none =>
    rw [puts_of_no_request read] at mem
    cases mem
  | some request =>
    have whole := outcome_of_request read
    rw [whole, guarded_frame (unsent_puts .client)] at mem
    have nothing (kept : Keeps World.puts (dispatch job.env request)) : False := by
      rw [kept job.opening, job.opening_clean.1] at mem
      cases mem
    by_cases method : request.method = bytes "GET" ∨ request.method = bytes "POST"
    · rcases dispatch_cases job.env method with ⟨cached_entry, -, -, -, serves⟩ | ⟨-, forwards⟩
      · exact (nothing (serves ▸ keeps_serve (unsent_puts .client) _ _)).elim
      · rw [forwards] at mem whole
        obtain ⟨rfl, h, left, f, segments, response, put⟩ := put_cases job.opening_clean.1 mem
        obtain ⟨w', run, -⟩ := put.relayed
        rw [guarded_after (Or.inl ⟨true, run⟩)] at whole
        have get := put.cacheable
        simp only [is_cacheable, Bool.and_eq_true, decide_eq_true_eq] at get
        exact ⟨request, rfl, get.1, rfl, h, left, f, segments, response, put, whole ▸ run⟩
    · exact (nothing (keeps_puts_dispatch method)).elim

end Job

/-- The request is answered from the cache with this entry. -/
structure Hit (job : Job) (request : Request) (entry : CacheEntry) : Prop where
  get : job.get_request = some request
  found : job.env.lookup request.url = some entry
  valid : entry.isExpired job.env.now = false

/-! ## All handlers -/

inductive Thread where
  | idle
  | started (job : Job)
  | looked (job : Job)

/-- `look` is a handler with the answer of its get, `put` one that has stored this entry. -/
inductive Event where
  | look (job : Job)
  | put (job : Job) (key : Bytes) (entry : CacheEntry)

structure Proxy where
  cache : Cache
  threads : Nat → Thread
  log : List Event

inductive Move where
  | start (i : Nat) (job : Job)
  | look (i : Nat)
  | store (i : Nat)

namespace Proxy

def start (max_entries : Nat) : Proxy := ⟨Cache.new max_entries, fun _ => .idle, []⟩

def setThread (s : Proxy) (i : Nat) (t : Thread) : Proxy :=
  { s with threads := Function.update s.threads i t }

/-- The puts of one handler, in order. -/
def putAll (c : Cache) (puts : List (Bytes × CacheEntry)) : Option Cache :=
  puts.foldlM (fun c p => c.put p.1 p.2) c

def step (s : Proxy) : Move → Option Proxy
  | .start i job =>
    match s.threads i with
    | .idle => some (s.setThread i (.started job))
    | _ => none
  | .look i =>
    match s.threads i with
    | .started job =>
      let job := job.answered (job.get_request.bind (fun request => s.cache.get request.url))
      some { s.setThread i (.looked job) with log := s.log ++ [.look job] }
    | _ => none
  | .store i =>
    match s.threads i with
    | .looked job =>
      (putAll s.cache job.outcome.puts).map (fun cache =>
        { s.setThread i .idle with
          cache := cache
          log := s.log ++ job.outcome.puts.map (fun p => .put job p.1 p.2) })
    | _ => none

def run (s : Proxy) (moves : List Move) : Option Proxy := Runs.run step s moves

/-! ## What is in the cache has been put there -/

theorem get_put {c c' : Cache} (h : Cache.Rep c) {k key : Bytes} {v entry : CacheEntry}
    (put : c.put k v = some c') (found : c'.get key = some entry) :
    (key, entry) = (k, v) ∨ c.get key = some entry := by
  obtain ⟨c₁, hput, -, -, map, -⟩ := Cache.put_spec h k v
  cases put.symm.trans hput
  rw [Cache.get, map] at found
  by_cases same : key = k
  · subst same
    rw [Finmap.lookup_insert] at found
    cases found
    exact Or.inl rfl
  · rw [Finmap.lookup_insert_of_ne _ same] at found
    have resident : key ∈ c.makeRoom.cache_map_ := by
      rw [← Finmap.lookup_isSome, found]
      rfl
    rw [Cache.lookup_makeRoom ((Cache.mem_makeRoom c key).mp resident).2] at found
    exact Or.inr found

theorem putAll_spec (puts : List (Bytes × CacheEntry)) {c : Cache} (h : Cache.Rep c) :
    ∃ c', putAll c puts = some c' ∧ Cache.Rep c' ∧ ∀ key entry, c'.get key = some entry →
      (key, entry) ∈ puts ∨ c.get key = some entry := by
  induction puts generalizing c with
  | nil => exact ⟨c, rfl, h, fun key entry found => Or.inr found⟩
  | cons p puts ih =>
    obtain ⟨c₁, put, rep, -⟩ := Cache.put_spec h p.1 p.2
    obtain ⟨c', all, rep', origin⟩ := ih rep
    refine ⟨c', ?_, rep', ?_⟩
    · rw [putAll, List.foldlM_cons, put]
      exact all
    · intro key entry found
      rcases origin key entry found with mem | earlier
      · exact Or.inl (List.mem_cons_of_mem _ mem)
      · rcases get_put h put earlier with same | earlier
        · exact Or.inl (List.mem_cons.mpr (Or.inl same))
        · exact Or.inr earlier

/-- An event of a longer log was there before, or is new and comes after all that was. -/
theorem event_cases {old new before after : List Event} {e : Event}
    (log : old ++ new = before ++ e :: after) :
    (∃ rest, old = before ++ e :: rest) ∨ e ∈ new ∧ ∃ part, before = old ++ part := by
  rcases List.append_eq_append_iff.mp log with ⟨part, rfl, rfl⟩ | ⟨rest, rfl, tail⟩
  · exact Or.inr ⟨List.mem_append_right _ List.mem_cons_self, part, rfl⟩
  · cases rest with
    | nil =>
      obtain rfl : new = e :: after := tail.symm
      exact Or.inr ⟨List.mem_cons_self, [], by simp⟩
    | cons e' rest =>
      cases (List.cons.inj tail).1
      exact Or.inl ⟨rest, rfl⟩

/-- The log accounts for the cache and for every answer of a get. -/
structure Recorded (s : Proxy) : Prop where
  rep : Cache.Rep s.cache
  cached : ∀ key entry, s.cache.get key = some entry → ∃ job, .put job key entry ∈ s.log
  puts : ∀ job key entry, .put job key entry ∈ s.log → (key, entry) ∈ job.outcome.puts
  looks : ∀ before job after, s.log = before ++ .look job :: after → ∀ request entry,
    job.get_request = some request → job.env.lookup request.url = some entry →
      ∃ job', .put job' request.url entry ∈ before

theorem recorded_start (max_entries : Nat) : Recorded (start max_entries) where
  rep := Cache.rep_new max_entries
  cached := by
    intro key entry found
    cases found
  puts := by
    intro job key entry mem
    cases mem
  looks := by
    intro before job after log
    exact absurd log (by simp [start])

theorem recorded_setThread {s : Proxy} (h : Recorded s) (i : Nat) (t : Thread) :
    Recorded (s.setThread i t) := ⟨h.rep, h.cached, h.puts, h.looks⟩

theorem recorded_look {s : Proxy} (h : Recorded s) (job : Job) : Recorded { s with
    log := s.log ++ [.look (job.answered
      (job.get_request.bind (fun request => s.cache.get request.url)))] } where
  rep := h.rep
  cached := by
    intro key entry found
    obtain ⟨job', mem⟩ := h.cached key entry found
    exact ⟨job', List.mem_append_left _ mem⟩
  puts := by
    intro job' key entry mem
    rcases List.mem_append.mp mem with mem | mem
    · exact h.puts job' key entry mem
    · cases List.mem_singleton.mp mem
  looks := by
    intro before job' after log request entry get found
    rcases event_cases log with ⟨rest, old⟩ | ⟨new, part, rfl⟩
    · exact h.looks before job' rest old request entry get found
    · -- the answer to this get is what the cache holds now
      cases List.mem_singleton.mp new
      have asked : job.get_request = some request := get
      change job.get_request.bind (fun request => s.cache.get request.url) = some entry at found
      rw [asked] at found
      obtain ⟨job', mem⟩ := h.cached _ _ found
      exact ⟨job', List.mem_append_left _ mem⟩

theorem recorded_store {s : Proxy} (h : Recorded s) (job : Job) {cache : Cache}
    (all : putAll s.cache job.outcome.puts = some cache) : Recorded { s with
    cache := cache
    log := s.log ++ job.outcome.puts.map (fun p => .put job p.1 p.2) } := by
  obtain ⟨c', put, rep, origin⟩ := putAll_spec job.outcome.puts h.rep
  cases all.symm.trans put
  constructor
  · exact rep
  · intro key entry found
    rcases origin key entry found with mem | earlier
    · exact ⟨job, List.mem_append_right _ (List.mem_map.mpr ⟨(key, entry), mem, rfl⟩)⟩
    · obtain ⟨job', mem⟩ := h.cached key entry earlier
      exact ⟨job', List.mem_append_left _ mem⟩
  · intro job' key entry mem
    rcases List.mem_append.mp mem with mem | mem
    · exact h.puts job' key entry mem
    · obtain ⟨p, stored, e⟩ := List.mem_map.mp mem
      cases e
      exact stored
  · intro before job' after log request entry get found
    rcases event_cases log with ⟨rest, old⟩ | ⟨new, -⟩
    · exact h.looks before job' rest old request entry get found
    · obtain ⟨p, -, e⟩ := List.mem_map.mp new
      cases e

theorem recorded_step {s s' : Proxy} (h : Recorded s) (m : Move) (moved : s.step m = some s') :
    Recorded s' := by
  cases m with
  | start i job =>
    simp only [step] at moved
    split at moved
    · cases moved
      exact recorded_setThread h i _
    · cases moved
  | look i =>
    simp only [step] at moved
    split at moved
    · cases moved
      exact recorded_setThread (recorded_look h _) i _
    · cases moved
  | store i =>
    simp only [step] at moved
    split at moved
    · obtain ⟨cache, all, rfl⟩ := Option.map_eq_some_iff.mp moved
      exact recorded_setThread (recorded_store h _ all) i _
    · cases moved

theorem recorded_run {s s' : Proxy} (h : Recorded s) (moves : List Move)
    (ran : s.run moves = some s') : Recorded s' :=
  Runs.always (fun _ m _ h moved => recorded_step h m moved) h ran

/-- No handler is ever stuck at the cache. -/
theorem store_succeeds {s : Proxy} (h : Recorded s) {i : Nat} {job : Job}
    (thread : s.threads i = .looked job) : (s.step (.store i)).isSome := by
  obtain ⟨c', all, -⟩ := putAll_spec job.outcome.puts h.rep
  simp only [step, thread, all]
  rfl

/-- What a get gives out was put before. -/
theorem hit_was_put {max_entries : Nat} {moves : List Move} {s : Proxy}
    (ran : (start max_entries).run moves = some s) {before after : List Event} {job : Job}
    (log : s.log = before ++ .look job :: after) {request : Request} {entry : CacheEntry}
    (hit : Hit job request entry) :
    ∃ job', .put job' request.url entry ∈ before ∧
      (request.url, entry) ∈ job'.outcome.puts := by
  have recorded := recorded_run (recorded_start max_entries) moves ran
  obtain ⟨job', mem⟩ := recorded.looks before job after log request entry hit.get hit.found
  refine ⟨job', mem, recorded.puts job' _ _ ?_⟩
  rw [log]
  exact List.mem_append_left _ mem

/-- One handler to its end, then a second one up to its get. -/
def inTurn (first second : Job) : List Move :=
  [.start 0 first, .look 0, .store 0, .start 1 second, .look 1]

/-- The second of two equal requests is given what the first has stored. -/
theorem run_inTurn {first second : Job} {request request' : Request} {entry : CacheEntry}
    (get : first.get_request = some request) (get' : second.get_request = some request')
    (same : request'.url = request.url)
    (stored : (first.answered none).outcome.puts = [(request.url, entry)]) :
    ∃ s, (start 1).run (inTurn first second) = some s ∧ s.log = [.look (first.answered none),
      .put (first.answered none) request.url entry, .look (second.answered (some entry))] := by
  obtain ⟨c, put, -, -, map, -⟩ := Cache.put_spec (Cache.rep_new 1) request.url entry
  have found : c.get request'.url = some entry := by
    rw [Cache.get, map, same, Finmap.lookup_insert]
  have empty : (Cache.new 1).get request.url = none := rfl
  have all : putAll (Cache.new 1) [(request.url, entry)] = some c := by
    simp only [putAll, List.foldlM_cons, List.foldlM_nil, put]
    rfl
  simp [inTurn, run, Runs.run, step, start, setThread, get, get', empty, stored, all, found]

/-- A response without header fields, once stored, is given out to the next such request. -/
theorem hit_inTurn {first second : Job} {request request' : Request} {answer : Segment}
    (get : first.get_request = some request) (get' : second.get_request = some request')
    (same : request'.url = request.url)
    (answers : first.opening.server.recvs = [.data answer, .closed])
    (stored : (first.answered none).outcome.puts.map Prod.fst = [request.url])
    (whole : (find CRLFCRLF answer.data).isSome) (fields : header_fields answer.data = []) :
    ∃ s entry, (start 1).run (inTurn first second) = some s ∧
      s.log = [.look (first.answered none), .put (first.answered none) request.url entry,
        .look (second.answered (some entry))] ∧
      Hit (second.answered (some entry)) request' entry := by
  obtain ⟨⟨key, entry⟩, put, rfl⟩ := List.map_eq_singleton_iff.mp stored
  obtain ⟨s, ran, log⟩ := run_inTurn get get' same put
  refine ⟨s, entry, ran, log, get', rfl, ?_⟩
  have mem : (request.url, entry) ∈ (first.answered none).outcome.puts := by
    rw [put]
    exact List.mem_singleton_self _
  obtain ⟨_, -, -, -, h, left, f, segments, response, made, -⟩ := Job.mem_puts mem
  obtain ⟨sends, opened⟩ := made.opened
  have arrived : HeaderRead [] first.opening.server.recvs h left := opened.read
  have read : HeaderRead [] first.opening.server.recvs answer.data [.closed] := by
    rw [answers]
    exact .whole whole
  obtain ⟨rfl, -⟩ := arrived.deterministic read
  apply made.never_expires <;> rw [fields] <;> rfl

end Proxy

end CachingProxy
