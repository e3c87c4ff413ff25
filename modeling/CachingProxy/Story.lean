import CachingProxy.Delivery
import CachingProxy.Proxy
import CachingProxy.Records

/-! The story of a connection that its log tells. An automaton reads the records in the order in
which they are written; each of its states says something about the sockets and the cache, and this
is so whenever the handler is there. -/
namespace CachingProxy.Logging
open Cpp Action

/-! ## Tales -/

/-- What the log says about storing a relayed response. -/
inductive Kept where
  | unsaid
  | never
  | for_validation
  | until_time
  | failed

/-- One entry has been stored, for the GET of the connection and out of these bytes. -/
def StoredAs (job : Job) (received : Bytes) (validation : Bool)
    (puts : List (Bytes × CacheEntry)) : Prop :=
  ∃ request entry, job.get_request = some request ∧ puts = [(request.url, entry)] ∧
    MadeOf entry received ∧ entry.requires_validation = validation

def Kept.Holds (job : Job) (received : Bytes) : Kept → List (Bytes × CacheEntry) → Prop
  | .never, puts => puts = []
  | .for_validation, puts => StoredAs job received true puts
  | .until_time, puts => StoredAs job received false puts
  | .unsaid, puts | .failed, puts => puts = [] ∨ StoredAs job received false puts

/-- How a connection went: no request, a page of the cache and whether all of it was sent, a
response of the origin and what became of it, a relay that the client broke off, an error response,
one that came after the header bytes of the origin, a tunnel and whether it was opened. -/
inductive Tale where
  | unread
  | page (line : Bytes) (whole : Bool)
  | relayed (line : Bytes) (kept : Kept)
  | broken (line : Bytes)
  | refused (status_code : Nat) (message : Bytes)
  | late (line : Bytes)
  | tunnel (opened : Bool)

def established : Bytes := bytes "HTTP/1.1 200 Connection Established"

def late_response : Bytes := error_response 500 (bytes "Internal Server Error")

/-- Nobody has been sent anything. -/
structure Alone (w : World) : Prop where
  client : w.client.bytes = []
  server : w.server.bytes = []
  received : w.server.received = []
  dialled : w.dialled = []
  puts : w.puts = []

/-- The client has been sent nothing. -/
structure Untold (w : World) : Prop where
  client : w.client.bytes = []
  puts : w.puts = []

theorem Alone.untold {w : World} (h : Alone w) : Untold w := ⟨h.client, h.puts⟩

/-- The client has got a part of a hit with this status line, or all of it, and nobody was asked. -/
structure Paged (job : Job) (line : Bytes) (whole : Bool) (w : World) : Prop where
  dialled : w.dialled = []
  server : w.server.bytes = []
  puts : w.puts = []
  client : ∃ request entry, Hit job request entry ∧ entry.response_line = line ∧
    w.client.bytes <+: hit_message job.env entry ∧
    (whole = true → w.client.bytes = hit_message job.env entry)

/-- After its 200 the client has got a part of what the other side of the tunnel has sent. -/
structure Bridged (w : World) : Prop where
  puts : w.puts = []
  client : ∃ passed, passed <+: w.server.received ∧ w.client.bytes = ok_response ++ passed

def Tale.Holds (job : Job) : Tale → World → Prop
  | .unread, w => Alone w
  | .page line whole, w => Paged job line whole w
  | .relayed line kept, w => w.client.bytes = w.server.received ∧ line <+: w.client.bytes ∧
    kept.Holds job w.server.received w.puts
  | .broken line, w =>
    w.client.bytes <+: w.server.received ∧ line <+: w.server.received ∧ w.puts = []
  | .refused status_code message, w =>
    w.puts = [] ∧ w.client.bytes <+: error_response status_code message
  | .late line, w => w.puts = [] ∧ line <+: w.server.received ∧ ∃ sent, sent <+: late_response ∧
    w.client.bytes = w.server.received ++ sent
  | .tunnel false, w => w.puts = [] ∧ w.client.bytes <+: ok_response
  | .tunnel true, w => Bridged w

/-- What holds before the error response of a tale is sent. -/
def Tale.Pending (job : Job) : Tale → World → Prop
  | .refused _ _, w => Untold w
  | .late line, w =>
    w.puts = [] ∧ line <+: w.server.received ∧ w.client.bytes = w.server.received
  | tale, w => tale.Holds job w

/-! ## The automaton -/

inductive Stage where
  | opened
  | asked
  | stale
  | forwarding
  | hit
  | connecting
  | requested
  | dialling
  | listening
  | unheard
  | relaying (line : Bytes)
  | stored (line : Bytes) (kept : Kept)
  | serving (line : Bytes)
  | opening
  | tunnelling
  | tunnel_broken
  | tunnel_ended
  | refusing (line : Bytes) (tale : Tale) (failed : Bool)
  | failing (tale : Tale)
  | complete (tale : Tale)

/-- After the last record but one: a failure is still to be logged, or nothing. -/
def Stage.told (tale : Tale) (failed : Bool) : Stage := if failed then .failing tale else .complete tale

/-- An error response is to come. -/
def Stage.refuse (status_code : Nat) (message : Bytes) (failed : Bool) : Stage :=
  .refusing (status_line status_code message) (.refused status_code message) failed

def Stage.error : Stage := .refuse 500 (bytes "Internal Server Error") false

def Stage.gateway : Stage := .refuse 502 (bytes "Bad Gateway") true

def expecting (line : Bytes) (stage : Stage) (line' : Bytes) : Option Stage :=
  if line' = line then some stage else none

theorem expecting_self (line : Bytes) (stage : Stage) : expecting line stage line = some stage :=
  if_pos rfl

/-- What forwardRequest logs first. -/
def forward : Record → Option Stage
  | .empty_hostname => some (.refuse 400 (bytes "Bad Request") true)
  | .failed_server_socket => some (.refuse 500 (bytes "Internal Server Error") true)
  | .requesting _ _ => some .requested
  | .exception _ => some .error
  | _ => none

def relay (line : Bytes) : Record → Option Stage
  | .failed_to_forward | .failed_to_forward_body => some (.failing (.broken line))
  | .exception _ => some (.refusing (status_line 500 (bytes "Internal Server Error")) (.late line) false)
  | .not_cacheable => some (.stored line .never)
  | .cached_for_validation => some (.stored line .for_validation)
  | .cached_until _ => some (.stored line .until_time)
  | .not_cached _ => some (.stored line .failed)
  | .responding line' => expecting line (.complete (.relayed line .unsaid)) line'
  | _ => none

def next : Stage → Record → Option Stage
  | .opened, r =>
    match r with
    | .failed_to_read | .client_closed => some (.complete .unread)
    | .invalid_request => some (.refuse 400 (bytes "Bad Request") false)
    | .request _ _ _ => some .asked
    | .exception _ => some .error
    | _ => none
  | .asked, r =>
    match r with
    | .not_in_cache | .processing_post => some .forwarding
    | .expired_at _ => some .stale
    | .valid => some .hit
    | .processing_connect _ _ => some .connecting
    | .unsupported_method _ => some (.refuse 501 (bytes "Not Implemented") true)
    | .exception _ => some .error
    | _ => none
  | .stale, r =>
    match r with
    | .requires_validation => some .forwarding
    | r => forward r
  | .forwarding, r => forward r
  | .hit, r =>
    match r with
    | .responding line => some (.serving line)
    | _ => none
  | .serving line, r =>
    match r with
    | .failed_cache_headers | .failed_cache_body => some (.failing (.page line false))
    | .sent_cache _ => some (.complete (.page line true))
    | _ => none
  | .requested, r =>
    match r with
    | .failed_to_connect _ _ | .failed_to_send_request => some .gateway
    | .beginning_to_receive => some .listening
    | .exception _ => some .error
    | _ => none
  | .listening, r =>
    match r with
    | .failed_to_read_origin _ | .origin_closed => some .unheard
    | .received line _ => some (.relaying line)
    | _ => none
  | .unheard, r =>
    match r with
    | .no_response => some .gateway
    | .received line _ => some (.relaying line)
    | _ => none
  | .relaying line, r => relay line r
  | .stored line kept, r =>
    match r with
    | .responding line' => expecting line (.complete (.relayed line kept)) line'
    | _ => none
  | .connecting, r =>
    match r with
    | .requesting _ _ => some .dialling
    | _ => none
  | .dialling, r =>
    match r with
    | .failed_to_connect _ _ => some .gateway
    | .responding line => expecting established .opening line
    | .exception _ => some .error
    | _ => none
  | .opening, r =>
    match r with
    | .failed_200 => some (.failing (.tunnel false))
    | .tunnel_established => some .tunnelling
    | _ => none
  | .tunnelling, r =>
    match r with
    | .poll_failed => some .tunnel_broken
    | .tunnel_terminated => some .tunnel_ended
    | .tunnel_closed => some (.complete (.tunnel true))
    | _ => none
  | .tunnel_broken, r =>
    match r with
    | .tunnel_closed => some (.failing (.tunnel true))
    | _ => none
  | .tunnel_ended, r =>
    match r with
    | .tunnel_closed => some (.complete (.tunnel true))
    | _ => none
  | .refusing line tale failed, r =>
    match r with
    | .responding line' => expecting line (.told tale failed) line'
    | _ => none
  | .failing tale, r =>
    match r with
    | .handling_failed => some (.complete tale)
    | _ => none
  | .complete _, _ => none

/-- What a state of the automaton says about the world. -/
def Tells (job : Job) : Stage → World → Prop
  | .opened, w | .asked, w | .stale, w | .forwarding, w | .hit, w | .connecting, w => Alone w
  | .requested, w | .dialling, w => Untold w ∧ w.server.received = []
  | .listening, w | .unheard, w => Untold w
  | .relaying line, w => w.client.bytes <+: w.server.received ∧ line <+: w.server.received
  | .stored line kept, w => (Tale.relayed line kept).Holds job w
  | .serving line, w => Paged job line false w
  | .opening, w => (Tale.tunnel false).Holds job w
  | .tunnelling, w | .tunnel_broken, w | .tunnel_ended, w => Bridged w
  | .refusing _ tale _, w => tale.Pending job w
  | .failing tale, w | .complete tale, w => tale.Holds job w

/-- The log has been read up to this state, and it is true. -/
structure Stand (job : Job) (stage : Stage) (s : Traced World Record) : Prop where
  read : Runs.run next .opened s.trace = some stage
  tells : Tells job stage s.state

theorem Stand.emit {job : Job} {stage stage' : Stage} {s : Traced World Record} {r : Record}
    (h : Stand job stage s) (moves : next stage r = some stage')
    (tells : Tells job stage' s.state) : Stand job stage' { s with trace := s.trace ++ [r] } where
  read := by
    rw [Runs.run_append, h.read, Option.bind_some, Runs.run_single, moves]
  tells := tells

/-- The sockets or the cache change, and what is told stays true. -/
theorem Stand.within {job : Job} {stage : Stage} {s : Traced World Record} (h : Stand job stage s)
    {w : World} (tells : Tells job stage w) : Stand job stage { s with state := w } :=
  ⟨h.read, tells⟩

def Somewhere (job : Job) (s : Traced World Record) : Prop := ∃ stage, Stand job stage s

/-- An exception can be logged here, and an error 500 follows. -/
def Raised (job : Job) (s : Traced World Record) : Prop := ∃ stage tale, Stand job stage s ∧
  tale.Pending job s.state ∧
  (tale = .refused 500 (bytes "Internal Server Error") ∨ ∃ line, tale = .late line) ∧
  ∀ what, next stage (.exception what) =
    some (.refusing (status_line 500 (bytes "Internal Server Error")) tale false)

/-- What holds after a function of the handler. -/
def stood {α : Type} (job : Job) (returns : α → Traced World Record → Prop) :
    Post (Traced World Record) α := ⟨returns, fun _ => Raised job, Somewhere job⟩

/-- The result false is what the handler logs as a failure. -/
def handled (job : Job) : Post (Traced World Record) Bool :=
  stood job (fun ok s => ∃ tale, Stand job (.told tale !ok) s)

/-! ## The sockets -/

section sockets

variable {job : Job} {w : World} {source : Source} {accepted data : Bytes} {left : List SendOutcome}

/-- A sendAll, what follows when it fails, and what follows when it does not. -/
theorem wp_sendAll_bind {α : Type} {fd : Side} {stop go : Logging α}
    {post : Post (Traced World Record) α} {s : Traced World Record}
    (all : ∀ left, wp go post { s with state := s.state.sent fd source data left })
    (part : ∀ accepted left, accepted <+: data →
      wp stop post { s with state := s.state.sent fd source accepted left })
    (waits : ∀ accepted left, accepted <+: data →
      post.waits { s with state := s.state.sent fd source accepted left }) :
    wp (within (sendAll fd source data) >>= fun ok => if (!ok) = true then stop else go) post s :=
  wp_within_bind (wp_sendAll all part waits)

theorem wp_recvd_bind {α : Type} {fd : Side} {outcome : RecvOutcome} {left : List RecvOutcome}
    {f : Unit → Logging α} {post : Post (Traced World Record) α} {s : Traced World Record}
    (next : wp (f ()) post { s with state := s.state.got fd outcome.bytes left }) :
    wp (within (recvd fd outcome left) >>= f) post s := next

theorem Tale.Pending.holds {tale : Tale} (h : tale.Pending job w) : tale.Holds job w := by
  cases tale with
  | refused status_code message =>
    refine ⟨h.puts, ?_⟩
    rw [h.client]
    exact List.nil_prefix
  | late line => exact ⟨h.1, h.2.1, [], List.nil_prefix, by rw [h.2.2, List.append_nil]⟩
  | unread | page line whole | relayed line kept | broken line | tunnel opened => exact h

theorem Tale.Pending.refused {status_code : Nat} {message : Bytes} (h : Untold w)
    (pre : accepted <+: error_response status_code message) :
    (Tale.refused status_code message).Holds job (w.sent .client source accepted left) := by
  refine ⟨h.puts, ?_⟩
  rw [bytes_sent, h.client, List.nil_append]
  exact pre

theorem Tale.Pending.late {line : Bytes} (h : (Tale.late line).Pending job w)
    (pre : accepted <+: late_response) :
    (Tale.late line).Holds job (w.sent .client source accepted left) := by
  obtain ⟨puts, first, even⟩ := h
  exact ⟨puts, first, accepted, pre, by rw [bytes_sent, even]; rfl⟩

end sockets

/-! ## Error responses -/

section refusals

variable {job : Job} {s : Traced World Record} {tale : Tale} {status_code : Nat} {message : Bytes}
  {failed : Bool}

theorem Stand.somewhere {stage : Stage} (h : Stand job stage s) : Somewhere job s := ⟨stage, h⟩

/-- An error response ends a tale that it belongs to. -/
theorem stand_sendErrorResponse
    (stand : Stand job (.refusing (status_line status_code message) tale failed) s)
    (tells : ∀ source accepted left, accepted <+: error_response status_code message →
      tale.Holds job (s.state.sent .client source accepted left)) :
    wp (sendErrorResponse status_code message)
      ⟨fun _ => Stand job (.told tale failed), fun _ _ => False, Somewhere job⟩ s := by
  have held : ∀ w : World, tale.Holds job w → Tells job (.told tale failed) w := by
    intro w h
    cases failed <;> exact h
  have logged := stand.emit (r := .responding (status_line status_code message))
    (expecting_self _ _) (held _ stand.tells.holds)
  unfold sendErrorResponse
  apply wp_emit_bind
  rw [wp_within]
  unfold CachingProxy.sendErrorResponse
  refine (wp_bind _ _ _ _).mpr (wp_sendAll ?_ ?_ ?_)
  · intro left
    exact logged.within (held _ (tells _ _ left (List.prefix_refl _)))
  · intro accepted left pre
    exact logged.within (held _ (tells _ accepted left pre))
  · intro accepted left pre
    exact (logged.within (held _ (tells _ accepted left pre))).somewhere

/-- A record of an error, the error response, and return false. -/
theorem stand_refuse {stage : Stage} {r : Record} (stand : Stand job stage s)
    (moves : next stage r = some (.refuse status_code message true)) (untold : Untold s.state)
    {returns : Bool → Traced World Record → Prop}
    (ends : ∀ s tale, Stand job (.failing tale) s → returns false s) :
    wp (do emit r; sendErrorResponse status_code message; return false : Logging Bool)
      (stood job returns) s := by
  apply wp_emit_bind
  have logged := stand.emit moves (show Tells job _ s.state from untold)
  refine wp_seq (stand_sendErrorResponse logged ?_) ?_ ?_ ?_
  · exact fun _ _ _ pre => Tale.Pending.refused untold pre
  · exact fun _ s h => ends s _ h
  · exact fun _ _ h => h.elim
  · exact fun _ h => h

end refusals

end CachingProxy.Logging
