import CachingProxy.Relay

/-! The handler of one connection: cache hits, CONNECT tunnels and the dispatch on the method
with its catch-all. -/
namespace CachingProxy
open Cpp Action

/-- What the kernel will answer on one connection, from its first recv on. -/
structure Kernel where
  client_sends : List SendOutcome
  client_recvs : List RecvOutcome
  server_sends : List SendOutcome
  server_recvs : List RecvOutcome
  polls : List Poll

def World.start (k : Kernel) : World where
  client := ⟨k.client_sends, k.client_recvs, [], []⟩
  server := ⟨k.server_sends, k.server_recvs, [], []⟩
  polls := k.polls
  dialled := []
  puts := []

/-! ## A request for a cached page -/

def hit_headers (env : Environment) (cached_entry : CacheEntry) : Bytes :=
  cached_entry.response_line ++ CRLF ++
    (env.iteration.order cached_entry.headers).flatMap
      (fun header => header.1 ++ bytes ": " ++ header.2 ++ CRLF) ++ CRLF

/-- All that a hit sends. -/
def hit_message (env : Environment) (cached_entry : CacheEntry) : Bytes :=
  hit_headers env cached_entry ++ cached_entry.data

def serve (env : Environment) (cached_entry : CacheEntry) : Handling Bool := do
  let message := hit_message env cached_entry
  if !(← sendAll .client (.own message) (hit_headers env cached_entry)) then return false
  if cached_entry.data ≠ [] then
    if !(← sendAll .client (.own message) cached_entry.data) then return false
  return true

def processGetRequest (env : Environment) (request : Request) : Handling Bool :=
  match env.lookup request.url with
  | none => forwardRequest env request
  | some cached_entry =>
    if cached_entry.isExpired env.now then
      -- the source tells the two apart in its log only
      if cached_entry.etag ≠ [] ∨ cached_entry.last_modified ≠ [] then forwardRequest env request
      else forwardRequest env request
    else serve env cached_entry

def processPostRequest (env : Environment) (request : Request) : Handling Bool :=
  forwardRequest env request

/-! ## Tunnels -/

def Revents.hangup (r : Revents) : Bool := r.pollerr || r.pollhup || r.pollnval

/-- Passes on what one side has sent; the result says which of the two sides is closed now. -/
def tunnelStep (src dst : Side) : Handling (Bool × Bool) := do
  match ← recv src with
  | .data segment =>
    let ok ← sendAll dst .peer segment.data
    return (false, !ok)
  | _ => return (true, false)

def tunnelLoop (client_closed server_closed : Bool) (polls : List Poll) : Handling Bool :=
  if client_closed || server_closed then return true
  else match polls with
  | [] => Action.wait
  | poll :: polls => do
    modify (fun w => { w with polls := polls })
    match poll with
    | .failed => return false
    | .timeout => tunnelLoop false false polls
    | .ready client server =>
      let (client_closed, server_gone) ←
        if client.pollin then tunnelStep .client .server else pure (false, false)
      let (server_closed, client_gone) ←
        if server.pollin then tunnelStep .server .client else pure (false, false)
      if client.hangup || server.hangup then return true
      tunnelLoop (client_closed || client_gone) (server_closed || server_gone) polls

def tunnelTraffic : Handling Bool := do
  tunnelLoop false false (← get).polls

def ok_response : Bytes := bytes "HTTP/1.1 200 Connection Established\r\n\r\n"

def processConnectRequest (env : Environment) (request : Request) : Handling Bool := do
  let _ ← ofExcept env.network.socket
  let port ← ofExcept (stoi request.get_port)
  if !(← TcpSocket.connect env.network request.hostname port) then
    sendErrorResponse 502 (bytes "Bad Gateway")
    return false
  if !(← sendAll .client (.own ok_response) ok_response) then return false
  tunnelTraffic

/-! ## handle_connection -/

/-- The dispatch on the method; false makes the source log a failure. -/
def dispatch (env : Environment) (request : Request) : Handling Bool := do
  if request.method = bytes "GET" then processGetRequest env request
  else if request.method = bytes "POST" then processPostRequest env request
  else if request.method = bytes "CONNECT" then processConnectRequest env request
  else
    sendErrorResponse 501 (bytes "Not Implemented")
    return false

/-- handle_connection up to its cleanup. -/
def handle_connection (env : Environment) : Handling Unit :=
  catching (do
    match ← recv .client with
    | .data segment =>
      match Request.parse env.put (Request.new segment.data) with
      | .error _ => sendErrorResponse 400 (bytes "Bad Request")
      | .ok request =>
        let _ ← dispatch env request
    | _ => return ()) (fun _ => sendErrorResponse 500 (bytes "Internal Server Error"))

/-! ## One response for each connection -/

/-- The messages that are made here: the valid entry that the cache has, or an error response. -/
inductive OwnMessage (env : Environment) (request : Request) : Bytes → Prop where
  | hit {cached_entry : CacheEntry} (found : env.lookup request.url = some cached_entry)
      (valid : cached_entry.isExpired env.now = false) :
      OwnMessage env request (hit_message env cached_entry)
  | error (status_code : Nat) (message : Bytes) :
      OwnMessage env request (error_response status_code message)

/-- What reached the client is a part of the origin's bytes or of one message made here. -/
def OneResponse (env : Environment) (request : Request) (w : World) : Prop :=
  (∀ piece ∈ w.client.written, piece.2 ≠ [] → piece.1 = .peer) ∧
      w.client.bytes <+: w.server.received ∨
    ∃ message, OwnMessage env request message ∧
      (∀ piece ∈ w.client.written, piece.2 ≠ [] → piece.1 = .own message) ∧
      w.client.bytes <+: message

/-- The origin's header bytes are through, their Content-Length is not a number, and the client
takes something of the error response that follows. -/
structure LateError (env : Environment) (k : Kernel) (request : Request) : Prop where
  forwarded : request.method = bytes "GET" → ∀ cached_entry,
    env.lookup request.url = some cached_entry → cached_entry.isExpired env.now = true
  late : ∃ h left sends text e, Opened env request (World.start k) h left sends ∧
    content_length_text h = some text ∧ stoi text = .error e ∧
    (sendLoop (error_response 500 (bytes "Internal Server Error")) 0 sends).accepted ≠ []

theorem bytes_sent (w : World) (source : Source) (accepted : Bytes) (left : List SendOutcome) :
    (w.sent .client source accepted left).client.bytes = w.client.bytes ++ accepted := by
  simp [Peer.bytes, World.sent, World.setPeer, World.peer]

theorem bytes_got (w : World) (fd : Side) (data : Bytes) (left : List RecvOutcome) :
    (w.got fd data left).client.bytes = w.client.bytes := by
  cases fd <;> rfl

theorem serve_ends (env : Environment) (cached_entry : CacheEntry) (w : World) :
    ∃ w', Answers w w' (hit_message env cached_entry) ∧
      ((serve env cached_entry).run w = .ok true w' ∧
          w'.client.bytes = w.client.bytes ++ hit_message env cached_entry ∨
        (serve env cached_entry).run w = .ok false w' ∨
        (serve env cached_entry).run w = .error .waiting w') := by
  unfold serve
  dsimp only
  have fits : hit_headers env cached_entry <+: hit_message env cached_entry :=
    List.prefix_append _ _
  rcases sendAll_ends .client (.own (hit_message env cached_entry)) (hit_headers env cached_entry)
      w with ⟨left, all⟩ | ⟨-, accepted, left, pre, run⟩
  · rw [bind_of_ok (sendAll_of_sent all _), if_neg (by decide)]
    generalize hw₁ : w.sent .client (.own (hit_message env cached_entry))
      (hit_headers env cached_entry) left = w₁
    have headers : Answers w w₁ (hit_message env cached_entry) := hw₁ ▸ answers_sent w fits left
    have through : w₁.client.bytes = w.client.bytes ++ hit_headers env cached_entry :=
      hw₁ ▸ bytes_sent w _ _ left
    by_cases empty : cached_entry.data = []
    · rw [if_neg (by simpa using empty)]
      refine ⟨w₁, headers, Or.inl ⟨rfl, ?_⟩⟩
      rw [through, hit_message, empty, List.append_nil]
    · rw [if_pos empty]
      have both : ∀ accepted left, accepted <+: cached_entry.data →
          Answers w (w₁.sent .client (.own (hit_message env cached_entry)) accepted left)
            (hit_message env cached_entry) := by
        intro accepted left pre
        subst hw₁
        refine ⟨rfl, [hit_headers env cached_entry, accepted], ?_,
          by simp [World.sent, World.setPeer, World.peer]⟩
        simpa [hit_message] using
          (List.prefix_append_right_inj (hit_headers env cached_entry)).mpr pre
      rcases sendAll_ends .client (.own (hit_message env cached_entry)) cached_entry.data w₁ with
        ⟨left', all'⟩ | ⟨-, accepted, left', pre, run | run⟩
      · refine ⟨_, both _ left' (List.prefix_refl _),
          Or.inl ⟨bind_of_ok (sendAll_of_sent all' _) _, ?_⟩⟩
        rw [bytes_sent, through, hit_message, List.append_assoc]
      · exact ⟨_, both _ left' pre, Or.inr (Or.inl (bind_of_ok run _))⟩
      · exact ⟨_, both _ left' pre, Or.inr (Or.inr (bind_of_error run _))⟩
  · have part : Answers w (w.sent .client (.own (hit_message env cached_entry)) accepted left)
        (hit_message env cached_entry) := answers_sent w (pre.trans fits) left
    rcases run with run | run
    · exact ⟨_, part, Or.inr (Or.inl (bind_of_ok run _))⟩
    · exact ⟨_, part, Or.inr (Or.inr (bind_of_error run _))⟩

theorem processGetRequest_hit {env : Environment} {request : Request} {cached_entry : CacheEntry}
    (hit : env.lookup request.url = some cached_entry)
    (valid : cached_entry.isExpired env.now = false) :
    processGetRequest env request = serve env cached_entry := by
  unfold processGetRequest
  simp only [hit, valid, Bool.false_eq_true, if_false]

theorem dispatch_forward {env : Environment} {request : Request}
    (method : request.method = bytes "GET" ∨ request.method = bytes "POST")
    (miss : request.method = bytes "GET" → ∀ cached_entry,
      env.lookup request.url = some cached_entry → cached_entry.isExpired env.now = true) :
    dispatch env request = forwardRequest env request := by
  unfold dispatch
  by_cases get : request.method = bytes "GET"
  · rw [if_pos get]
    unfold processGetRequest
    cases h : env.lookup request.url with
    | none => rfl
    | some cached_entry => simp only [miss get cached_entry h, if_true, ite_self]
  · rw [if_neg get, if_pos (method.resolve_left get)]
    rfl

theorem dispatch_hit {env : Environment} {request : Request} {cached_entry : CacheEntry}
    (method : request.method = bytes "GET") (hit : env.lookup request.url = some cached_entry)
    (valid : cached_entry.isExpired env.now = false) :
    dispatch env request = serve env cached_entry := by
  unfold dispatch
  rw [if_pos method, processGetRequest_hit hit valid]

/-- A GET or POST is answered from the cache or forwarded. -/
theorem dispatch_cases (env : Environment) {request : Request}
    (method : request.method = bytes "GET" ∨ request.method = bytes "POST") :
    (∃ cached_entry, request.method = bytes "GET" ∧
        env.lookup request.url = some cached_entry ∧ cached_entry.isExpired env.now = false ∧
        dispatch env request = serve env cached_entry) ∨
      (request.method = bytes "GET" → ∀ cached_entry, env.lookup request.url = some cached_entry →
        cached_entry.isExpired env.now = true) ∧ dispatch env request = forwardRequest env request := by
  by_cases hit : request.method = bytes "GET" ∧ ∃ cached_entry,
      env.lookup request.url = some cached_entry ∧ cached_entry.isExpired env.now = false
  · obtain ⟨get, cached_entry, found, valid⟩ := hit
    exact Or.inl ⟨cached_entry, get, found, valid, dispatch_hit get found valid⟩
  · have forwarded : request.method = bytes "GET" → ∀ cached_entry,
        env.lookup request.url = some cached_entry → cached_entry.isExpired env.now = true := by
      intro get cached_entry found
      by_contra valid
      exact hit ⟨get, cached_entry, found, by simpa using valid⟩
    exact Or.inr ⟨forwarded, dispatch_forward method forwarded⟩

/-- What the catch-all of handle_connection makes of a function. -/
def guarded (x : Handling Bool) : Handling Unit :=
  catching (do let _ ← x) (fun _ => sendErrorResponse 500 (bytes "Internal Server Error"))

theorem guarded_after {x : Handling Bool} {w v : World}
    (h : (∃ ok, x.run w = .ok ok v) ∨ x.run w = .error .waiting v) : (guarded x).after w = v := by
  rcases h with ⟨ok, h⟩ | h
  · have run := bind_of_ok h (fun _ => (pure () : Handling Unit))
    exact after_of_ok (catching_of_ok run _)
  · have run := bind_of_error h (fun _ => (pure () : Handling Unit))
    exact after_of_error (catching_of_waiting run _)

theorem guarded_after_threw {x : Handling Bool} {w w' : World} {e : Exception}
    (h : x.run w = .error (.threw e) w') :
    (guarded x).after w = (sendErrorResponse 500 (bytes "Internal Server Error")).after w' := by
  have run := bind_of_error h (fun _ => (pure () : Handling Unit))
  exact after_congr (catching_of_threw run _)

theorem recv_start {k : Kernel} {outcome : RecvOutcome} {rest : List RecvOutcome}
    (first : k.client_recvs = outcome :: rest) : (recv .client).run (World.start k) =
      .ok outcome ((World.start k).got .client outcome.bytes rest) := by
  unfold recv
  rw [bind_of_ok (run_get _)]
  simp only [World.start, World.peer, first]
  rfl

/-- handle_connection from the point where the request is parsed. -/
theorem handle_connection_after {env : Environment} {k : Kernel} {segment : Segment}
    {rest : List RecvOutcome} {request : Request} (first : k.client_recvs = .data segment :: rest)
    (accepted : Request.parse env.put (Request.new segment.data) = .ok request) :
    (handle_connection env).after (World.start k) =
      (guarded (dispatch env request)).after ((World.start k).got .client segment.data rest) := by
  apply after_congr
  apply catching_congr
  rw [bind_of_ok (recv_start first)]
  dsimp only
  rw [accepted]
  rfl

/-- A first segment that is no request is answered with a 400. -/
theorem handle_connection_refused {env : Environment} {k : Kernel} {segment : Segment}
    {rest : List RecvOutcome} {e : Exception} (first : k.client_recvs = .data segment :: rest)
    (refused : Request.parse env.put (Request.new segment.data) = .error e) :
    (handle_connection env).after (World.start k) =
      (catching (sendErrorResponse 400 (bytes "Bad Request"))
        (fun _ => sendErrorResponse 500 (bytes "Internal Server Error"))).after
          ((World.start k).got .client segment.data rest) := by
  apply after_congr
  apply catching_congr
  rw [bind_of_ok (recv_start first)]
  dsimp only
  rw [refused]
  rfl

section responses

variable {env : Environment} {request : Request}

theorem oneResponse_of_answers {w w' : World} {message : Bytes} (start : w.client.written = [])
    (own : OwnMessage env request message) (answers : Answers w w' message) :
    OneResponse env request w' := by
  obtain ⟨pieces, pre, written⟩ := answers.client
  rw [start, List.nil_append] at written
  right
  refine ⟨message, own, ?_, ?_⟩
  · rw [written]
    intro piece mem _
    obtain ⟨p, -, rfl⟩ := List.mem_map.mp mem
    rfl
  · simpa [Peer.bytes, written] using pre

theorem oneResponse_of_relays {w w' : World} {delivered received : Bytes}
    (start : w.client.written = []) (unread : w.server.received = [])
    (relays : Relays w w' delivered received) (pre : delivered <+: received) :
    OneResponse env request w' := by
  obtain ⟨pieces, written, all⟩ := relays.client
  rw [start, List.nil_append] at written
  left
  refine ⟨?_, ?_⟩
  · rw [written]
    intro piece mem _
    obtain ⟨p, -, rfl⟩ := List.mem_map.mp mem
    rfl
  · rw [relays.received, unread, List.nil_append]
    simpa [Peer.bytes, written, all] using pre

theorem sendErrorResponse_after (status_code : Nat) (message : Bytes) (w : World) :
    (sendErrorResponse status_code message).after w =
      w.sent .client (.own (error_response status_code message))
        (sendLoop (error_response status_code message) 0 w.client.sends).accepted
        (sendLoop (error_response status_code message) 0 w.client.sends).sends := by
  unfold sendErrorResponse Action.after
  simp only [EStateM.run, bind, EStateM.bind, sendAll, World.peer]
  generalize sendLoop (error_response status_code message) 0 w.client.sends = r
  obtain ⟨result, accepted, left⟩ := r
  cases result <;> rfl

theorem oneResponse_of_nothing {w : World} (h : w.client.written = []) :
    OneResponse env request w := by
  left
  simp [h, Peer.bytes]

/-- An error response of which nothing gets through changes nothing. -/
theorem oneResponse_sent_nothing {w : World} {source : Source} {sends : List SendOutcome}
    (h : OneResponse env request w) : OneResponse env request (w.sent .client source [] sends) := by
  have bytes_same : (w.sent .client source [] sends).client.bytes = w.client.bytes := by
    simp [Peer.bytes, World.sent, World.setPeer, World.peer]
  have pieces : ∀ piece ∈ (w.sent .client source [] sends).client.written, piece.2 ≠ [] →
      piece ∈ w.client.written := by
    intro piece mem filled
    rcases List.mem_append.mp mem with mem | mem
    · exact mem
    · rw [List.mem_singleton.mp mem] at filled
      exact absurd rfl filled
  rcases h with ⟨all, pre⟩ | ⟨message, own, all, pre⟩
  · exact Or.inl ⟨fun p mem filled => all p (pieces p mem filled) filled, bytes_same ▸ pre⟩
  · exact Or.inr ⟨message, own, fun p mem filled => all p (pieces p mem filled) filled,
      bytes_same ▸ pre⟩

/-- Relayed bytes and then bytes of an error response are not one response. -/
theorem not_oneResponse {w : World} {pieces : List Bytes} {message accepted : Bytes}
    {sends : List SendOutcome} (written : w.client.written = pieces.map (fun p => (.peer, p)))
    (relayed : pieces.flatten ≠ []) (late : accepted ≠ []) :
    ¬ OneResponse env request (w.sent .client (.own message) accepted sends) := by
  obtain ⟨p, mem, some_bytes⟩ : ∃ p ∈ pieces, p ≠ [] := by
    by_contra none_filled
    simp only [not_exists, not_and, not_not] at none_filled
    exact relayed (List.flatten_eq_nil_iff.mpr none_filled)
  have peer_piece : (Source.peer, p) ∈ w.client.written ++ [(.own message, accepted)] := by
    rw [written]
    exact List.mem_append_left _ (List.mem_map.mpr ⟨p, mem, rfl⟩)
  have own_piece : (Source.own message, accepted) ∈
      w.client.written ++ [(.own message, accepted)] :=
    List.mem_append_right _ List.mem_cons_self
  rintro (⟨all, -⟩ | ⟨m, -, all, -⟩)
  · cases all _ own_piece late
  · cases all _ peer_piece some_bytes

theorem oneResponse_after_error {w : World} (start : w.client.written = []) :
    OneResponse env request
      ((sendErrorResponse 500 (bytes "Internal Server Error")).after w) := by
  obtain ⟨w', answers, run | run⟩ := sendErrorResponse_ends 500 (bytes "Internal Server Error") w
  · rw [after_of_ok run]
    exact oneResponse_of_answers start (.error _ _) answers
  · rw [after_of_error run]
    exact oneResponse_of_answers start (.error _ _) answers

theorem oneResponse_of_serve {cached_entry : CacheEntry}
    (found : env.lookup request.url = some cached_entry)
    (valid : cached_entry.isExpired env.now = false) {w : World} (start : w.client.written = []) :
    OneResponse env request ((guarded (serve env cached_entry)).after w) := by
  obtain ⟨w', answers, ends⟩ := serve_ends env cached_entry w
  rw [guarded_after (v := w')]
  · exact oneResponse_of_answers start (.hit found valid) answers
  · rcases ends with ⟨run, -⟩ | run | run
    · exact Or.inl ⟨true, run⟩
    · exact Or.inl ⟨false, run⟩
    · exact Or.inr run

/-- However forwardRequest ends, the client has one response, as long as nothing of an error
response gets through behind header bytes whose Content-Length is rejected. -/
theorem oneResponse_of_exit {w : World} {r : EStateM.Result Stop World Bool}
    (exit : Exit env request w r) (run : (forwardRequest env request).run w = r)
    (written : w.client.written = []) (unread : w.server.received = [])
    (in_time : ∀ h left sends text e, Opened env request w h left sends →
      content_length_text h = some text → stoi text = .error e →
      (sendLoop (error_response 500 (bytes "Internal Server Error")) 0 sends).accepted = []) :
    OneResponse env request ((guarded (forwardRequest env request)).after w) := by
  cases exit with
  | @silent e w' nothing =>
    have start : w'.client.written = [] := by rw [nothing.client, written]
    cases e with
    | waiting =>
      rw [guarded_after (Or.inr run)]
      exact oneResponse_of_nothing start
    | threw e =>
      rw [guarded_after_threw run]
      exact oneResponse_after_error start
  | @answered status_code message w' r answers ends =>
    rw [guarded_after (v := w')]
    · exact oneResponse_of_answers written (.error _ _) answers
    · rcases ends with rfl | rfl
      · exact Or.inl ⟨false, run⟩
      · exact Or.inr run
  | relayed relayed =>
    cases relayed with
    | @broken delivered received w' r pre relays ends =>
      rw [guarded_after (v := w')]
      · exact oneResponse_of_relays written unread relays pre
      · rcases ends with rfl | rfl
        · exact Or.inl ⟨false, run⟩
        · exact Or.inr run
    | @rejected h text left sends e w' opened declared number relays next =>
      have taken := in_time h left sends text e opened declared number
      rw [guarded_after_threw run, sendErrorResponse_after, next, taken]
      exact oneResponse_sent_nothing
        (oneResponse_of_relays written unread relays (List.prefix_refl _))
    | @finished h left left' sends f segments w₁ opened framing body relays =>
      rw [guarded_after (Or.inl ⟨true, run⟩)]
      have one : OneResponse env request w₁ :=
        oneResponse_of_relays written unread relays (List.prefix_refl _)
      exact one

/-- The error response that the catch-all sends behind the header bytes is a second message. -/
theorem not_oneResponse_of_late {w : World} {h text : Bytes} {left : List RecvOutcome}
    {sends : List SendOutcome} {e : Exception} (opened : Opened env request w h left sends)
    (written : w.client.written = []) (declared : content_length_text h = some text)
    (number : stoi text = .error e)
    (some_sent : (sendLoop (error_response 500 (bytes "Internal Server Error")) 0 sends).accepted
      ≠ []) :
    ¬ OneResponse env request ((guarded (forwardRequest env request)).after w) := by
  obtain ⟨w₁, relays, next, -, forward⟩ := opened_run opened
  have throws : (forwardRequest env request).run w = .error (.threw e) w₁ := by
    rw [forward]
    unfold relayBody
    exact bind_of_error (run_ofExcept_error (scan_framing_of_text declared number) w₁) _
  obtain ⟨pieces, hpieces, all⟩ := relays.client
  rw [written, List.nil_append] at hpieces
  rw [guarded_after_threw throws, sendErrorResponse_after, next]
  exact not_oneResponse hpieces (all ▸ opened.answered) some_sent

end responses

/-- The bytes a client gets are one response exactly when no error response comes late. -/
theorem one_response_iff (env : Environment) (k : Kernel) (segment : Segment)
    (rest : List RecvOutcome) (request : Request) (first : k.client_recvs = .data segment :: rest)
    (accepted : Request.parse env.put (Request.new segment.data) = .ok request)
    (method : request.method = bytes "GET" ∨ request.method = bytes "POST") :
    OneResponse env request ((handle_connection env).after (World.start k)) ↔
      ¬ LateError env k request := by
  rw [handle_connection_after first accepted]
  generalize hw : (World.start k).got .client segment.data rest = w
  have written : w.client.written = [] := by
    subst hw
    rfl
  have unread : w.server.received = [] := by
    subst hw
    rfl
  have same : ∀ h left sends, Opened env request (World.start k) h left sends ↔
      Opened env request w h left sends := by
    subst hw
    intro h left sends
    constructor <;> intro o <;> exact ⟨o.contacted, o.read, o.answered, o.sent⟩
  constructor
  · rintro one ⟨forwarded, h, left, sends, text, e, opened, declared, number, some_sent⟩
    rw [dispatch_forward method forwarded] at one
    exact not_oneResponse_of_late ((same h left sends).mp opened) written declared number
      some_sent one
  · intro no_late
    rcases dispatch_cases env method with
      ⟨cached_entry, -, found, valid, serves⟩ | ⟨forwarded, forwards⟩
    · rw [serves]
      exact oneResponse_of_serve found valid written
    · rw [forwards]
      apply oneResponse_of_exit (forwardRequest_exit env request w) rfl written unread
      intro h left sends text e opened declared number
      by_contra some_sent
      exact no_late ⟨forwarded, h, left, sends, text, e, (same h left sends).mpr opened,
        declared, number, some_sent⟩

/-! A concrete connection: a client asks for http://a/ and the origin answers `answer`. -/

def plainRequest : Segment := ⟨bytes "GET / HTTP/1.1\r\nHost: a\r\n\r\n", by decide, by decide⟩

def plainMessage : Message := ⟨bytes "GET", bytes "/", 11, some (bytes "a"), []⟩

def loopback : Network := ⟨.ok 3, fun _ => some 2130706433, fun _ _ => true⟩

def plainCalendar : Calendar := ⟨fun _ _ tm => tm, fun _ => 0⟩

def plainEnvironment (iteration : Iteration) : Environment where
  network := loopback
  calendar := plainCalendar
  put := fun raw => if raw = plainRequest.data then some plainMessage else none
  iteration := iteration
  lookup := fun _ => none
  time_now := 0
  created := 0
  now := 0

theorem nonempty_iteration : Nonempty Iteration :=
  ⟨fun m => m.entries.toList, fun m => m.entries.coe_toList⟩

def plain : Request := (Request.new plainRequest.data).fill plainMessage

def plainKernel (answer : List RecvOutcome) : Kernel where
  client_sends := List.replicate 3 ⟨1000, .other⟩
  client_recvs := [.data plainRequest]
  server_sends := [⟨1000, .other⟩]
  server_recvs := answer
  polls := []

def badLength : Segment := ⟨bytes "HTTP/1.1 200 OK\r\nContent-Length: x\r\n\r\n", by decide, by decide⟩

theorem one_response_iff_bad_length : ∃ iteration : Iteration,
    OneResponse (plainEnvironment iteration) plain
        ((handle_connection (plainEnvironment iteration)).after
          (World.start (plainKernel [.data badLength]))) ↔
      ¬ LateError (plainEnvironment iteration) (plainKernel [.data badLength])
        plain := by
  obtain ⟨iteration⟩ := nonempty_iteration
  exact ⟨iteration, one_response_iff (plainEnvironment iteration) (plainKernel [.data badLength])
    plainRequest [] _ rfl rfl (Or.inl rfl)⟩

/-- A Content-Length that is no number: the whole error response follows the header bytes. -/
theorem not_always_one_response : ¬ ∀ (env : Environment) (k : Kernel) (segment : Segment)
    (rest : List RecvOutcome) (request : Request), k.client_recvs = .data segment :: rest →
    Request.parse env.put (Request.new segment.data) = .ok request →
    (request.method = bytes "GET" ∨ request.method = bytes "POST") →
    OneResponse env request ((handle_connection env).after (World.start k)) := by
  intro all
  obtain ⟨iteration⟩ := nonempty_iteration
  have one := all (plainEnvironment iteration) (plainKernel [.data badLength]) plainRequest [] _
    rfl rfl (Or.inl rfl)
  have written : ((handle_connection (plainEnvironment iteration)).after
      (World.start (plainKernel [.data badLength]))).client.written =
      [(.peer, badLength.data),
        (.own (error_response 500 (bytes "Internal Server Error")),
          error_response 500 (bytes "Internal Server Error"))] := rfl
  unfold OneResponse at one
  rw [written] at one
  rcases one with ⟨relayed, -⟩ | ⟨message, -, own, -⟩
  · have := relayed _ (List.mem_cons_of_mem _ List.mem_cons_self) (by decide)
    cases this
  · have := own _ List.mem_cons_self (by decide)
    cases this

end CachingProxy
