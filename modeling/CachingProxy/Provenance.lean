import CachingProxy.Proxy

/-! Where the entry of a hit comes from. A header line has the name in front of its first colon,
while Response::parse knows a header by the colon and a space after it, and stops at an empty
line; what it does not see it does not obey. -/
namespace CachingProxy
open Cpp Action

/-- `line` is the last header line of that name, `above` are the header lines in front of it. -/
def LastNamed (name : Bytes) (stream : Bytes) (above : List Bytes) (line : Bytes) : Prop :=
  ∃ below, head_lines stream = above ++ line :: below ∧ name ++ [58] <+: line ∧
    ∀ l ∈ below, ¬ name ++ [58] <+: l

/-- What forbids to answer from the cache without asking the origin. -/
def forbidding : List Bytes := [bytes "no-store", bytes "no-cache", bytes "must-revalidate"]

/-- The last Cache-Control line, if any, forbids nothing. -/
def Permitted (stream : Bytes) : Prop :=
  ∀ above line, LastNamed Response.CacheControl stream above line →
    ∀ directive ∈ forbidding, contains line directive = false

/-- Response::parse sees the last Cache-Control line, if that forbids anything: it has a space
after its colon and no empty line in front of it. -/
def Visible (stream : Bytes) : Prop :=
  ∀ above line, LastNamed Response.CacheControl stream above line →
    (∃ directive ∈ forbidding, contains line directive = true) →
      [] ∉ above ∧ bytes "Cache-Control: " <+: line

/-- `job` has forwarded its GET and relayed the response that the entry was made of. -/
structure Fetched (job : Job) (request : Request) (entry : CacheEntry) : Prop where
  get : job.get_request = some request
  forwarded : (forwardRequest job.env request).run job.opening = .ok true job.outcome
  ok_line : bytes "HTTP/1.1 200" <+: job.outcome.server.received
  relayed : job.outcome.client.bytes = job.outcome.server.received
  data : ∃ pos, find CRLFCRLF job.outcome.server.received = some pos ∧
    entry.data = job.outcome.client.bytes.drop (pos + 4)

/-! ## The line that is seen -/

/-- The name of the line holds none of the directives. -/
theorem contains_value {value directive : Bytes} (known : directive ∈ forbidding)
    (h : contains (Response.CacheControl ++ 58 :: 32 :: value) directive = true) :
    contains value directive = true := by
  have clean : ∀ directive ∈ forbidding, (32 : UInt8) ∉ directive := by decide
  have unnamed : ∀ directive ∈ forbidding,
      contains (Response.CacheControl ++ [58]) directive = false := by decide
  have form : Response.CacheControl ++ 58 :: 32 :: value =
      (Response.CacheControl ++ [58]) ++ 32 :: value := by simp
  rw [form] at h
  rcases contains_separated (clean directive known) h with name | here
  · rw [unnamed directive known] at name
    cases name
  · exact here

theorem last_value_of_visible {stream line : Bytes} {above : List Bytes}
    (last : LastNamed Response.CacheControl stream above line) (filled : [] ∉ above)
    (value : Bytes) (form : line = Response.CacheControl ++ 58 :: 32 :: value) :
    Response.last_value Response.CacheControl (header_fields stream) = some value := by
  obtain ⟨below, lines, -, unnamed⟩ := last
  subst form
  have own : Response.field (Response.CacheControl ++ 58 :: 32 :: value) =
      some (Response.CacheControl, value) := Response.field_line (by decide) value
  have unseen : ∀ l ∈ below.takeWhile (fun l => l != []), ¬ Response.CacheControl ++ [58] <+: l :=
    fun l mem => unnamed l (List.takeWhile_subset _ mem)
  have others := values_unnamed unseen
  rw [Response.last_value, header_fields_around lines filled (by simp), List.filterMap_cons_some own]
  unfold Response.values at others ⊢
  simp only [List.filterMap_nil, List.filter_append, List.map_append, others]
  simp

/-! ## Entries and hits -/

/-- The job that put an entry has fetched it, and what the header fields of its stream say about
Cache-Control holds while the entry is valid. -/
theorem fetched_of_put {job : Job} {key : Bytes} {entry : CacheEntry}
    (mem : (key, entry) ∈ job.outcome.puts) :
    ∃ request, request.url = key ∧ Fetched job request entry ∧
      ∀ now, entry.isExpired now = false → ∀ directive ∈ forbidding,
        Response.controls (header_fields job.outcome.server.received) directive = false := by
  obtain ⟨request, read, get, rfl, h, left, f, segments, response, put, run⟩ := job.mem_puts mem
  obtain ⟨pos, hpos, -⟩ := Response.parse_judged put.parsed
  obtain ⟨w', run', relays⟩ := put.relayed
  obtain ⟨-, rfl⟩ := EStateM.Result.ok.inj (run.symm.trans run')
  obtain ⟨-, unwritten, unread⟩ := job.opening_clean
  have received : job.outcome.server.received = h ++ flat segments := by
    have arrived := relays.received
    rwa [unread, List.nil_append] at arrived
  have relayed : job.outcome.client.bytes = h ++ flat segments := by
    have before : job.opening.client.bytes = [] := by
      rw [Peer.bytes, unwritten]
      rfl
    have given := relays.bytes
    rwa [before, List.nil_append] at given
  have inside := find_le hpos
  have four : CRLFCRLF.length = 4 := rfl
  have cacheable := put.cacheable
  simp only [is_cacheable, Bool.and_eq_true, decide_eq_true_eq, find_zero_iff] at cacheable
  refine ⟨request, rfl, ⟨?_, run, ?_, relayed.trans received.symm, pos, ?_, ?_⟩, ?_⟩
  · simp [Job.get_request, read, get]
  · rw [received]
    exact cacheable.2.trans (List.prefix_append _ _)
  · rw [received]
    exact find_append hpos _
  · rw [relayed, List.drop_append_of_le_length (by omega), put.entry_eq]
    simp only [new_entry, initial_body, hpos]
  · intro now valid directive known
    rw [received, header_fields_append hpos]
    rw [put.isExpired_eq] at valid
    simp only [Bool.or_eq_false_iff] at valid
    obtain ⟨⟨⟨-, revalidate⟩, no_cache⟩, -⟩ := valid
    simp only [forbidding, List.mem_cons, List.not_mem_nil, or_false] at known
    rcases known with rfl | rfl | rfl
    · exact put.judged.no_store.symm.trans put.storable
    · exact no_cache
    · exact revalidate

/-- What Response::parse sees of Cache-Control is obeyed by every valid entry. -/
theorem permitted_of_controls {stream : Bytes} (visible : Visible stream)
    (controls : ∀ directive ∈ forbidding,
      Response.controls (header_fields stream) directive = false) : Permitted stream := by
  intro above line last directive known
  by_contra named
  simp only [Bool.not_eq_false] at named
  obtain ⟨filled, value, form⟩ := visible above line last ⟨directive, known, named⟩
  have split : line = Response.CacheControl ++ 58 :: 32 :: value := by
    rw [← form]
    rfl
  have seen := last_value_of_visible last filled value split
  have clear := controls directive known
  rw [Response.controls, seen, Option.any_some] at clear
  rw [contains_value known (split ▸ named)] at clear
  cases clear

/-- In a run where every stored response shows its last Cache-Control line to Response::parse, a
hit gives out what an earlier GET for the same key has fetched, and nothing forbids it. -/
theorem hits_have_provenance (max_entries : Nat) (moves : List Move) (s : Proxy)
    (ran : (Proxy.start max_entries).run moves = some s)
    (visible : ∀ job key entry, .put job key entry ∈ s.log →
      Visible job.outcome.server.received)
    (before after : List Event) (job : Job) (log : s.log = before ++ .look job :: after)
    (request : Request) (entry : CacheEntry) (hit : Hit job request entry) :
    ∃ job' request', .put job' request.url entry ∈ before ∧ request'.url = request.url ∧
      Fetched job' request' entry ∧ Permitted job'.outcome.server.received := by
  obtain ⟨job', put, mem⟩ := Proxy.hit_was_put ran log hit
  obtain ⟨request', same, fetched, controls⟩ := fetched_of_put mem
  have shown := visible job' request.url entry (log ▸ List.mem_append_left _ put)
  exact ⟨job', request', put, same, fetched,
    permitted_of_controls shown (controls job.env.now hit.valid)⟩

/-! Two equal requests, one after the other. -/

def plainJob (iteration : Iteration) (answer : Segment) : Job :=
  ⟨plainEnvironment iteration, plainKernel [.data answer, .closed]⟩

theorem plainJob_get (iteration : Iteration) (answer : Segment) :
    (plainJob iteration answer).get_request = some plain := rfl

def bare : Segment := ⟨bytes "HTTP/1.1 200 OK\r\n\r\n", by decide, by decide⟩

theorem hits_have_provenance_bare : ∃ (before : List Event) (entry : CacheEntry),
    ∃ job' request', .put job' plain.url entry ∈ before ∧ request'.url = plain.url ∧
      Fetched job' request' entry ∧ Permitted job'.outcome.server.received := by
  obtain ⟨iteration⟩ := nonempty_iteration
  have stored : ((plainJob iteration bare).answered none).outcome.puts.map Prod.fst = [plain.url] :=
    rfl
  obtain ⟨s, entry, ran, log, hit⟩ := Proxy.hit_inTurn (plainJob_get iteration bare)
    (plainJob_get iteration bare) rfl rfl stored (by decide) (by decide)
  have visible : ∀ job key entry, .put job key entry ∈ s.log →
      Visible job.outcome.server.received := by
    intro job key entry mem
    simp only [log, List.mem_cons, List.not_mem_nil, reduceCtorEq, Event.put.injEq, or_false,
      false_or] at mem
    obtain ⟨rfl, -, -⟩ := mem
    rintro above line ⟨below, lines, -⟩
    have none_there : head_lines bare.data = [] := by decide
    exact absurd (none_there.symm.trans lines) (by simp)
  exact ⟨_, entry, hits_have_provenance 1 _ s ran visible [_, _] [] _ log plain entry hit⟩

def noStore : Segment :=
  ⟨bytes "HTTP/1.1 200 OK\r\nCache-Control:no-store\r\n\r\n", by decide +kernel, by decide +kernel⟩

/-- Without a space after its colon no-store is not seen, and the entry is given out. -/
theorem hits_not_always_permitted : ¬ ∀ (max_entries : Nat) (moves : List Move) (s : Proxy),
    (Proxy.start max_entries).run moves = some s →
    ∀ (before after : List Event) (job : Job), s.log = before ++ .look job :: after →
    ∀ (request : Request) (entry : CacheEntry), Hit job request entry →
    ∃ job' request', .put job' request.url entry ∈ before ∧ request'.url = request.url ∧
      Fetched job' request' entry ∧ Permitted job'.outcome.server.received := by
  intro all
  obtain ⟨iteration⟩ := nonempty_iteration
  have stored : ((plainJob iteration noStore).answered none).outcome.puts.map Prod.fst =
      [plain.url] := rfl
  obtain ⟨s, entry, ran, log, hit⟩ := Proxy.hit_inTurn (plainJob_get iteration noStore)
    (plainJob_get iteration noStore) rfl rfl stored (by decide +kernel) (by decide +kernel)
  obtain ⟨job', request', put, -, -, permitted⟩ := all 1 _ s ran [_, _] [] _ log plain entry hit
  simp only [List.mem_cons, List.not_mem_nil, reduceCtorEq, Event.put.injEq, or_false,
    false_or] at put
  obtain ⟨rfl, -, -⟩ := put
  have lines : head_lines noStore.data = [bytes "Cache-Control:no-store"] := by decide +kernel
  have last : LastNamed Response.CacheControl noStore.data [] (bytes "Cache-Control:no-store") :=
    ⟨[], lines, by decide, by simp⟩
  have clear := permitted [] _ last (bytes "no-store") (by decide)
  have named : contains (bytes "Cache-Control:no-store") (bytes "no-store") = true := by decide
  cases named.symm.trans clear

end CachingProxy
