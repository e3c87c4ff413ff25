import CachingProxy.Records

/-! The log changes nothing. Without its records the handler is the one without a log, as long as
the times that it writes can be written, so what holds of that one holds of it. -/
namespace CachingProxy.Logging
open Cpp Action

/-- A time point is a signed 64-bit number of nanoseconds. -/
def Representable (t : Int) : Prop := -2 ^ 63 ≤ t ∧ t < 2 ^ 63

/-- gmtime and asctime manage every second of such a time point, and the text ends its line. -/
def Dates (o : Observer) : Prop := ∀ t : Int64, -9223372036 ≤ t.toInt → t.toInt ≤ 9223372036 →
  ∃ text, o.asctime t = some (text ++ [10])

theorem to_time_t_bounds {t : Int} (h : Representable t) :
    -9223372036 ≤ (to_time_t t).toInt ∧ (to_time_t t).toInt ≤ 9223372036 := by
  obtain ⟨low, high⟩ := h
  have size : (t.tdiv 1000000000).natAbs = t.natAbs / 1000000000 := Int.natAbs_tdiv t 1000000000
  have exact : (to_time_t t).toInt = t.tdiv 1000000000 :=
    Int64.toInt_ofInt_of_le (by omega) (by omega)
  rw [exact]
  omega

theorem time_str_ok {o : Observer} (dates : Dates o) {t : Int} (h : Representable t) :
    ∃ text, o.time_str (to_time_t t) = .ok text := by
  obtain ⟨low, high⟩ := to_time_t_bounds h
  obtain ⟨text, written⟩ := dates _ low high
  unfold Observer.time_str
  rw [written]
  dsimp only
  cases found : find [10] (text ++ [10]) with
  | some pos => exact ⟨_, rfl⟩
  | none => exact absurd (List.suffix_append text [10]).isInfix ((find_eq_none_iff _ _).mp found)

/-- A text that can be made does not count. -/
theorem erases_text {α β : Type} {x : Except Exception β} {b : β} (made : x = .ok b)
    {f : β → Logging α} {y : Handling α} (next : Erases (f b) y) :
    Erases (ofExcept x >>= f) y := by
  subst made
  exact next

theorem erases_sendErrorResponse (status_code : Nat) (message : Bytes) :
    Erases (sendErrorResponse status_code message)
      (CachingProxy.sendErrorResponse status_code message) :=
  erases_emit _ (erases_within _)

theorem erases_emit_pure {α : Type} (r : Record) (a : α) :
    Erases (do emit r; return a : Logging α) (pure a) := fun _ => rfl

/-- An error record, an error response and return false. -/
theorem erases_refuse (r : Record) (status_code : Nat) (message : Bytes) :
    Erases (do emit r; sendErrorResponse status_code message; return false : Logging Bool)
      (do CachingProxy.sendErrorResponse status_code message; return false : Handling Bool) :=
  erases_emit _ (erases_bind (erases_sendErrorResponse _ _) (fun _ => erases_pure _))

theorem erases_contactOrigin (env : Environment) (request : Request) :
    Erases (contactOrigin env request) (CachingProxy.contactOrigin env request) := by
  unfold contactOrigin CachingProxy.contactOrigin
  apply erases_ite (erases_refuse _ _ _)
  apply erases_bind (erases_ofExcept _)
  intro server_fd
  apply erases_ite (erases_refuse _ _ _)
  apply erases_emit
  apply erases_bind (erases_ofExcept _)
  intro port
  apply erases_bind (erases_within _)
  intro connected
  apply erases_ite (erases_refuse _ _ _)
  apply erases_bind (erases_within _)
  intro asked
  exact erases_ite (erases_refuse _ _ _) (erases_pure _)

theorem erases_headerLoop (o : Observer) (response_str : Bytes) (recvs : List RecvOutcome) :
    Erases (headerLoop o response_str recvs) (CachingProxy.headerLoop response_str recvs) := by
  induction recvs generalizing response_str with
  | nil => exact erases_wait
  | cons outcome left ih =>
    unfold headerLoop CachingProxy.headerLoop
    apply erases_bind (erases_within _)
    intro _
    cases outcome with
    | data segment => exact erases_ite (erases_pure _) (ih _)
    | closed => exact erases_emit_pure _ _
    | failed errno => exact erases_emit_pure _ _

theorem erases_bodyLoop (f : Framing) (is_cacheable : Bool) (response_buffer : Bytes)
    (body_received : Nat) (recvs : List RecvOutcome) :
    Erases (bodyLoop f is_cacheable response_buffer body_received recvs)
      (CachingProxy.bodyLoop f is_cacheable response_buffer body_received recvs) := by
  induction recvs generalizing response_buffer body_received with
  | nil => exact erases_wait
  | cons outcome left ih =>
    unfold bodyLoop CachingProxy.bodyLoop
    apply erases_bind (erases_within _)
    intro _
    cases outcome with
    | data segment =>
      apply erases_bind (erases_within _)
      intro ok
      apply erases_ite (erases_emit_pure _ _)
      exact erases_ite (erases_pure _) (ih _ _)
    | closed => exact erases_pure _
    | failed errno => exact erases_pure _

/-- What cannot be said about an entry does not undo its put. -/
theorem erases_logEntry (o : Observer) (response : Response) (handle : Exception → Record) :
    Erases (catching (logEntry o response) (fun e => emit (handle e))) (pure ()) := by
  intro s
  unfold logEntry
  split
  · rfl
  · split
    · cases o.time_str response.expire_time_ <;> rfl
    · rfl

theorem erases_store (env : Environment) (o : Observer) (request : Request)
    (response_str response_line response_buffer : Bytes) :
    Erases (store env o request response_str response_line response_buffer)
      (CachingProxy.store env request response_str response_line response_buffer) := by
  unfold store CachingProxy.store
  cases Response.parse env.calendar env.time_now response_str with
  | error e => exact fun _ => rfl
  | ok response =>
    change Erases (catching (storeResponse env o request response response_line response_buffer) _) _
    unfold storeResponse
    by_cases no_store : response.is_no_store_ = true
    · simp only [if_pos no_store]
      exact fun _ => rfl
    · simp only [if_neg no_store]
      intro s
      exact erases_logEntry o response (fun e => .not_cached (o.what e)) { s with state := { s.state with
        puts := s.state.puts ++
          [(request.url, new_entry env response response_line response_buffer)] } }

theorem erases_relayBody (env : Environment) (o : Observer) (request : Request)
    (response_str : Bytes) : Erases (relayBody env o request response_str)
      (CachingProxy.relayBody env request response_str) := by
  unfold relayBody CachingProxy.relayBody
  apply erases_bind (erases_ofExcept _)
  intro framing
  apply erases_bind (erases_within _)
  intro w
  apply erases_bind (erases_bodyLoop _ _ _ _ _)
  intro read
  cases read with
  | none => exact erases_pure _
  | some response_buffer =>
    exact erases_ite
      (erases_bind (erases_store _ _ _ _ _ _) (fun _ => erases_emit_pure _ _))
      (erases_emit_pure _ _)

theorem erases_forwardRequest (env : Environment) (o : Observer) (request : Request) :
    Erases (forwardRequest env o request) (CachingProxy.forwardRequest env request) := by
  unfold forwardRequest CachingProxy.forwardRequest
  apply erases_bind (erases_contactOrigin _ _)
  intro asked
  apply erases_ite (erases_pure _)
  apply erases_emit
  apply erases_bind (erases_within _)
  intro w
  apply erases_bind (erases_headerLoop _ _ _)
  intro response_str
  apply erases_ite (erases_refuse _ _ _)
  apply erases_emit
  apply erases_bind (erases_within _)
  intro ok
  exact erases_ite (erases_emit_pure _ _) (erases_relayBody _ _ _ _)

theorem erases_serve (env : Environment) (cached_entry : CacheEntry) :
    Erases (serve env cached_entry) (CachingProxy.serve env cached_entry) := by
  unfold serve CachingProxy.serve
  apply erases_emit
  apply erases_emit
  apply erases_bind (erases_within _)
  intro ok
  apply erases_ite (erases_emit_pure _ _)
  apply erases_ite
  · apply erases_bind (erases_within _)
    intro ok
    exact erases_ite (erases_emit_pure _ _) (erases_emit_pure _ _)
  · exact erases_emit_pure _ _

theorem erases_processGetRequest {env : Environment} {o : Observer} (dates : Dates o)
    (request : Request) (stored : ∀ cached_entry, env.lookup request.url = some cached_entry →
      Representable cached_entry.expires_time) :
    Erases (processGetRequest env o request) (CachingProxy.processGetRequest env request) := by
  unfold processGetRequest CachingProxy.processGetRequest
  cases found : env.lookup request.url with
  | none => exact erases_emit _ (erases_forwardRequest _ _ _)
  | some cached_entry =>
    obtain ⟨text, made⟩ := time_str_ok dates (stored cached_entry found)
    refine erases_ite ?_ (erases_serve _ _)
    apply erases_text made
    apply erases_emit
    exact erases_ite (erases_emit _ (erases_forwardRequest _ _ _)) (erases_forwardRequest _ _ _)

theorem erases_tunnelLoop (client_closed server_closed : Bool) (polls : List Poll) :
    Erases (tunnelLoop client_closed server_closed polls)
      (CachingProxy.tunnelLoop client_closed server_closed polls) := by
  induction polls generalizing client_closed server_closed with
  | nil =>
    unfold tunnelLoop CachingProxy.tunnelLoop
    exact erases_ite (erases_pure _) erases_wait
  | cons poll polls ih =>
    unfold tunnelLoop CachingProxy.tunnelLoop
    dsimp only
    apply erases_ite (erases_pure _)
    refine erases_bind (erases_within _) (fun _ => ?_)
    cases poll with
    | failed => exact erases_emit_pure _ _
    | timeout => exact ih false false
    | ready client server =>
      have turn (src dst : Side) {p : Prop} [Decidable p] {next : Bool × Bool → Logging Bool}
          {next' : Bool × Bool → Handling Bool} (rest : ∀ r, Erases (next r) (next' r)) :
          Erases (if p then within (tunnelStep src dst) >>= next else pure (false, false) >>= next)
            (if p then tunnelStep src dst >>= next' else pure (false, false) >>= next') :=
        erases_ite (erases_bind (erases_within _) rest) (erases_bind (erases_pure _) rest)
      apply turn
      intro r
      apply turn
      intro r'
      exact erases_ite (erases_emit_pure _ _) (ih _ _)

theorem erases_processConnectRequest (env : Environment) (request : Request) :
    Erases (processConnectRequest env request)
      (CachingProxy.processConnectRequest env request) := by
  unfold processConnectRequest CachingProxy.processConnectRequest
  apply erases_emit
  apply erases_emit
  apply erases_bind (erases_ofExcept _)
  intro _
  apply erases_bind (erases_ofExcept _)
  intro port
  apply erases_bind (erases_within _)
  intro connected
  apply erases_ite (erases_refuse _ _ _)
  apply erases_emit
  apply erases_bind (erases_within _)
  intro ok
  apply erases_ite (erases_emit_pure _ _)
  apply erases_emit
  have tunnel : Erases (tunnelTraffic) (CachingProxy.tunnelTraffic) :=
    erases_bind (erases_within _) (fun w => erases_tunnelLoop false false w.polls)
  intro s
  rcases tunnel.cases s with ⟨a, s', run, run'⟩ | ⟨e, s', run, run'⟩
  · rw [bind_of_ok run, run']
    rfl
  · rw [bind_of_error run, run']
    rfl

theorem erases_dispatch {env : Environment} {o : Observer} (dates : Dates o) (request : Request)
    (stored : ∀ cached_entry, env.lookup request.url = some cached_entry →
      Representable cached_entry.expires_time) :
    Erases (dispatch env o request) (CachingProxy.dispatch env request) := by
  unfold dispatch CachingProxy.dispatch
  apply erases_ite (erases_processGetRequest dates request stored)
  apply erases_ite (erases_emit _ (erases_forwardRequest _ _ _))
  exact erases_ite (erases_processConnectRequest _ _) (erases_refuse _ _ _)

/-- The handler that logs does to its sockets, to the network and to the cache exactly what the
handler without a log does, and it ends in the same way. -/
theorem log_is_transparent (env : Environment) (o : Observer) (dates : Dates o)
    (asked : Representable o.asked)
    (stored : ∀ key cached_entry, env.lookup key = some cached_entry →
      Representable cached_entry.expires_time) :
    Erases (handle_connection env o) (CachingProxy.handle_connection env) := by
  unfold handle_connection CachingProxy.handle_connection
  refine erases_catching ?_ (fun e => erases_emit _ (erases_sendErrorResponse _ _))
  apply erases_bind (erases_within _)
  intro outcome
  cases outcome with
  | closed => exact fun _ => rfl
  | failed errno => exact fun _ => rfl
  | data segment =>
    dsimp only
    cases Request.parse env.put (Request.new segment.data) with
    | error e => exact erases_emit _ (erases_sendErrorResponse _ _)
    | ok request =>
      obtain ⟨text, made⟩ := time_str_ok dates asked
      apply erases_text made
      apply erases_emit
      apply erases_bind (erases_dispatch dates request (stored request.url))
      intro success
      cases success <;> exact fun _ => rfl

/-- Everything happens at the epoch. -/
def epochObserver : Observer where
  remote_address := bytes "127.0.0.1"
  asked := 0
  asctime := fun _ => some (bytes "Thu Jan  1 00:00:00 1970\n")
  strerror := fun _ => bytes "Connection reset by peer"
  what := fun _ => bytes "stoi"

theorem epoch_dates : Dates epochObserver :=
  fun _ _ _ => ⟨bytes "Thu Jan  1 00:00:00 1970", congrArg some (by decide)⟩

/-- A page in the cache that expires at the epoch. -/
theorem log_is_transparent_epoch : ∃ env : Environment,
    env.lookup plain.url = some .default ∧
      Erases (handle_connection env epochObserver) (CachingProxy.handle_connection env) := by
  obtain ⟨iteration⟩ := nonempty_iteration
  refine ⟨{ plainEnvironment iteration with lookup := fun _ => some .default }, rfl, ?_⟩
  have epoch : Representable 0 := ⟨by decide, by decide⟩
  refine log_is_transparent _ epochObserver epoch_dates epoch ?_
  intro key cached_entry found
  obtain rfl := Option.some.inj found
  exact epoch

end CachingProxy.Logging
