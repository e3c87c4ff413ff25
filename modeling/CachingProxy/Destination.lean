import CachingProxy.Frame
import CachingProxy.Http.Message

/-! Where a request goes. The target of a request may name a server; the handlers connect to the
one that the Host field names, with port 80 where that has none. -/
namespace CachingProxy
open Cpp Action

/-! ## What a target names -/

/-- A host without colons, or an address in brackets. -/
def HostText (host : Bytes) : Prop :=
  host ≠ [] ∧ (∀ c ∈ host, c ≠ 47 ∧ c ≠ 64) ∧
    ((58 : UInt8) ∉ host ∨ ∃ address, host = 91 :: address ++ [93])

/-- The host and port that the target of such a request names. -/
inductive Designates : Bytes → Bytes → Bytes → Nat → Prop where
  | connect {host digits : Bytes} {port : Nat} (text : HostText host)
      (number : Http.number digits = some port) :
      Designates (bytes "CONNECT") (host ++ 58 :: digits) host port
  | absolute {method host path : Bytes} (text : HostText host)
      (forwarded : method ≠ bytes "CONNECT") :
      Designates method (bytes "http://" ++ host ++ 47 :: path) host 80
  | absolute_port {method host digits path : Bytes} {port : Nat} (text : HostText host)
      (forwarded : method ≠ bytes "CONNECT") (number : Http.number digits = some port) :
      Designates method (bytes "http://" ++ host ++ 58 :: digits ++ 47 :: path) host port

/-! ## The connection of a request -/

def Refused (w : World) : Prop :=
  ∃ status_code message accepted,
    (Source.own (error_response status_code message), accepted) ∈ w.client.written

def AnsweredFromCache (env : Environment) (request : Request) : Prop :=
  request.method = bytes "GET" ∧ ∃ cached_entry, env.lookup request.url = some cached_entry ∧
    cached_entry.isExpired env.now = false

/-- A server accepts the connection that the request needs. -/
structure Reachable (env : Environment) (request : Request) (port : Int32) (address : Address) :
    Prop where
  hostname : request.method ≠ bytes "CONNECT" → request.hostname ≠ []
  socket : ∃ fd, env.network.socket = .ok fd ∧ (request.method ≠ bytes "CONNECT" → fd ≠ 0)
  number : stoi request.get_port = .ok port
  resolved : env.network.gethostbyname (c_str request.hostname) = some address
  accepted : env.network.connect address (htons port) = true

/-- The request has a method that the proxy supports, no answer in the cache, and a server. -/
structure Connected (env : Environment) (request : Request) (port : Int32) (address : Address) :
    Prop extends Reachable env request port address where
  method : request.method ∈ [bytes "GET", bytes "POST", bytes "CONNECT"]
  uncached : ¬ AnsweredFromCache env request

/-- What a handler has done about a connection: it made the one that the request needs, or none
and there is an error response unless the answer came from the cache. -/
inductive Contact (env : Environment) (request : Request) (w w' : World) : Prop where
  | connected {port : Int32} {address : Address} (c : Connected env request port address)
      (dialled : w'.dialled = w.dialled ++ [(address, htons port)])
  | unconnected (never : ∀ port address, ¬ Connected env request port address)
      (dialled : ∃ tried, w'.dialled = w.dialled ++ tried ∧
        ∀ d ∈ tried, env.network.connect d.1 d.2 = false)
      (answered : AnsweredFromCache env request ∨ Refused w')

/-! ## Errors -/

theorem refused_sendErrorResponse (status_code : Nat) (message : Bytes) (w : World) :
    Refused ((sendErrorResponse status_code message).after w) := by
  rw [sendErrorResponse_after]
  exact ⟨status_code, message, _, List.mem_append_right _ (List.mem_singleton_self _)⟩

theorem refuse_after (status_code : Nat) (message : Bytes) (w : World) :
    (do sendErrorResponse status_code message; return false : Handling Bool).after w =
      (sendErrorResponse status_code message).after w :=
  after_bind_of_keeps (f := id) (fun _ => keeps_pure _) w

/-- From `w` a function gets as far as `w₁`, where it throws, or sends an error and returns. -/
def Stops (x : Handling Bool) (w w₁ : World) : Prop :=
  (∃ e, x.run w = .error (.threw e) w₁) ∨ ∃ status_code message, x.run w =
    (do sendErrorResponse status_code message; return false : Handling Bool).run w₁

theorem stops_congr {x y : Handling Bool} {w w₁ : World} (same : x.run w = y.run w)
    (stops : Stops y w w₁) : Stops x w w₁ := by
  unfold Stops at stops ⊢
  rwa [same]

theorem stops_guarded {x : Handling Bool} {w w₁ : World} (stops : Stops x w w₁) :
    ∃ status_code message,
      (guarded x).after w = (sendErrorResponse status_code message).after w₁ := by
  rcases stops with ⟨e, run⟩ | ⟨status_code, message, h⟩
  · exact ⟨_, _, guarded_after_threw run⟩
  · refine ⟨status_code, message, ?_⟩
    rw [← refuse_after]
    obtain ⟨w', -, run | run⟩ := refuse_ends status_code message w₁
    · rw [guarded_after (Or.inl ⟨false, h.trans run⟩), after_of_ok run]
    · rw [guarded_after (Or.inr (h.trans run)), after_of_error run]

theorem stops_forward {env : Environment} {request : Request} {w w₁ : World}
    (stops : Stops (contactOrigin env request) w w₁) :
    Stops (forwardRequest env request) w w₁ := by
  unfold forwardRequest
  rcases stops with ⟨e, run⟩ | ⟨status_code, message, h⟩
  · exact Or.inl ⟨e, bind_of_error run _⟩
  · refine Or.inr ⟨status_code, message, ?_⟩
    obtain ⟨w', -, run | run⟩ := refuse_ends status_code message w₁
    · rw [bind_of_ok (h.trans run), if_pos (by decide), run]
      rfl
    · rw [bind_of_error (h.trans run), run]

/-! ## Connections -/

/-- There is no server for the request; all that was dialled up to `w₁` has refused. -/
structure Unreached (env : Environment) (request : Request) (w w₁ : World) : Prop where
  never : ∀ port address, ¬ Reachable env request port address
  dialled : ∃ tried, w₁.dialled = w.dialled ++ tried ∧
    ∀ d ∈ tried, env.network.connect d.1 d.2 = false

theorem unreached_undialled {env : Environment} {request : Request} {w : World}
    (never : ∀ port address, ¬ Reachable env request port address) :
    Unreached env request w w := ⟨never, [], by simp, by simp⟩

theorem contact_of_stops {env : Environment} {request : Request} {x : Handling Bool} {w w₁ : World}
    (stops : Stops x w w₁) (unreached : Unreached env request w w₁) :
    Contact env request w ((guarded x).after w) := by
  obtain ⟨status_code, message, last⟩ := stops_guarded stops
  rw [last]
  refine .unconnected (fun _ _ c => unreached.never _ _ c.toReachable) ?_
    (Or.inr (refused_sendErrorResponse status_code message w₁))
  rw [sendErrorResponse_after]
  exact unreached.dialled

theorem unsent_dialled (fd : Side) : Unsent World.dialled fd := by
  intro w source accepted left
  cases fd <;> rfl

theorem ungot_dialled (fd : Side) : Ungot World.dialled fd := by
  intro w data left
  cases fd <;> rfl

/-- The two functions that connect to a server. -/
inductive Route where
  | forward
  | tunnel
  deriving DecidableEq

def Route.handler (env : Environment) (request : Request) : Route → Handling Bool
  | .forward => forwardRequest env request
  | .tunnel => processConnectRequest env request

/-- What the connect system call needs apart from the port. -/
structure Reaches (env : Environment) (request : Request) (route : Route) (address : Address) :
    Prop where
  hostname : route = .forward → request.hostname ≠ []
  socket : ∃ fd, env.network.socket = .ok fd ∧ (route = .forward → fd ≠ 0)
  resolved : env.network.gethostbyname (c_str request.hostname) = some address

structure Dials (env : Environment) (request : Request) (route : Route) (port : Int32)
    (address : Address) : Prop extends Reaches env request route address where
  number : stoi request.get_port = .ok port

/-- The one connect that a function makes from `w` on; if it is refused so is the request. -/
structure Dialled (network : Network) (x : Handling Bool) (w : World) (port : Int32)
    (address : Address) : Prop where
  dialled : (x.after w).dialled = w.dialled ++ [(address, htons port)]
  refused : network.connect address (htons port) = false →
    Stops x w { w with dialled := w.dialled ++ [(address, htons port)] }

/-- The step that both handlers make: connect, and go on or refuse. -/
theorem connect_dials (network : Network) (host : Bytes) (port : Int32) (w : World)
    {next : Handling Bool} (keeps : Keeps World.dialled next) :
    (∃ address, network.gethostbyname (c_str host) = some address ∧ Dialled network (do
        if !(← TcpSocket.connect network host port) then
          sendErrorResponse 502 (bytes "Bad Gateway")
          return false
        next) w port address) ∨
    network.gethostbyname (c_str host) = none ∧ Stops (do
        if !(← TcpSocket.connect network host port) then
          sendErrorResponse 502 (bytes "Bad Gateway")
          return false
        next) w w := by
  cases resolved : network.gethostbyname (c_str host) with
  | none =>
    have run := connect_unresolved resolved port w
    refine Or.inr ⟨rfl, Or.inr ⟨502, bytes "Bad Gateway", ?_⟩⟩
    rw [bind_of_ok run]
    rfl
  | some address =>
    have run := connect_resolved resolved port w
    refine Or.inl ⟨address, rfl, ?_, fun refused => Or.inr ⟨502, bytes "Bad Gateway", ?_⟩⟩
    · rw [after_congr (bind_of_ok run _)]
      exact keeps_ite (keeps_refuse (unsent_dialled .client) _ _) keeps _
    · rw [bind_of_ok run, refused]
      rfl

theorem contactOrigin_dials (env : Environment) (request : Request) (w : World) :
    (∃ port address, Dials env request .forward port address ∧
      Dialled env.network (contactOrigin env request) w port address) ∨
    (∀ port address, ¬ Dials env request .forward port address) ∧
      Stops (contactOrigin env request) w w := by
  by_cases hostname : request.hostname = []
  · refine Or.inr ⟨fun _ _ c => c.hostname rfl hostname, Or.inr ⟨400, bytes "Bad Request", ?_⟩⟩
    unfold contactOrigin
    rw [if_pos hostname]
  cases socket : env.network.socket with
  | error e =>
    refine Or.inr ⟨fun _ _ c => ?_, Or.inl ⟨e, ?_⟩⟩
    · obtain ⟨fd, open_socket, -⟩ := c.socket
      cases socket.symm.trans open_socket
    · unfold contactOrigin
      rw [if_neg hostname, socket]
      rfl
  | ok fd =>
    by_cases zero : fd = 0
    · refine Or.inr ⟨fun _ _ c => ?_, Or.inr ⟨500, bytes "Internal Server Error", ?_⟩⟩
      · obtain ⟨fd', open_socket, nonzero⟩ := c.socket
        cases socket.symm.trans open_socket
        exact nonzero rfl zero
      · unfold contactOrigin
        rw [if_neg hostname, socket, bind_of_ok (run_ofExcept_ok rfl w), if_pos zero]
    cases number : stoi request.get_port with
    | error e =>
      refine Or.inr ⟨fun _ _ c => (by cases number.symm.trans c.number), Or.inl ⟨e, ?_⟩⟩
      unfold contactOrigin
      rw [if_neg hostname, socket, bind_of_ok (run_ofExcept_ok rfl w), if_neg zero, number]
      rfl
    | ok port =>
      let next : Handling Bool := do
        if !(← sendAll .server .peer request.request) then
          sendErrorResponse 502 (bytes "Bad Gateway")
          return false
        return true
      have keeps : Keeps World.dialled next :=
        keeps_bind (keeps_sendAll (unsent_dialled .server) _ _)
          (fun _ => keeps_ite (keeps_refuse (unsent_dialled .client) _ _) (keeps_pure _))
      have whole : (contactOrigin env request).run w = (do
          if !(← TcpSocket.connect env.network request.hostname port) then
            sendErrorResponse 502 (bytes "Bad Gateway")
            return false
          next : Handling Bool).run w := by
        unfold contactOrigin
        rw [if_neg hostname, socket, bind_of_ok (run_ofExcept_ok rfl w), if_neg zero, number]
        rfl
      rcases connect_dials env.network request.hostname port w keeps with
        ⟨address, resolved, dialled, refused⟩ | ⟨unresolved, stops⟩
      · refine Or.inl ⟨port, address, ⟨⟨fun _ => hostname, ⟨fd, socket, fun _ => zero⟩, resolved⟩,
          number⟩, ?_, fun no => stops_congr whole (refused no)⟩
        rw [after_congr whole, dialled]
      · refine Or.inr ⟨fun _ _ c => ?_, stops_congr whole stops⟩
        cases unresolved.symm.trans c.resolved

theorem processConnectRequest_dials (env : Environment) (request : Request) (w : World) :
    (∃ port address, Dials env request .tunnel port address ∧
      Dialled env.network (processConnectRequest env request) w port address) ∨
    (∀ port address, ¬ Dials env request .tunnel port address) ∧
      Stops (processConnectRequest env request) w w := by
  have forwards : Route.tunnel ≠ .forward := by decide
  cases socket : env.network.socket with
  | error e =>
    refine Or.inr ⟨fun _ _ c => ?_, Or.inl ⟨e, ?_⟩⟩
    · obtain ⟨fd, open_socket, -⟩ := c.socket
      cases socket.symm.trans open_socket
    · unfold processConnectRequest
      rw [socket]
      rfl
  | ok fd =>
    cases number : stoi request.get_port with
    | error e =>
      refine Or.inr ⟨fun _ _ c => (by cases number.symm.trans c.number), Or.inl ⟨e, ?_⟩⟩
      unfold processConnectRequest
      rw [socket, number]
      rfl
    | ok port =>
      let next : Handling Bool := do
        if !(← sendAll .client (.own ok_response) ok_response) then return false
        tunnelTraffic
      have keeps : Keeps World.dialled next :=
        keeps_bind (keeps_sendAll (unsent_dialled .client) _ _) (fun _ => keeps_ite (keeps_pure _)
          (keeps_tunnelTraffic ungot_dialled unsent_dialled (fun _ _ => rfl)))
      have whole : (processConnectRequest env request).run w = (do
          if !(← TcpSocket.connect env.network request.hostname port) then
            sendErrorResponse 502 (bytes "Bad Gateway")
            return false
          next : Handling Bool).run w := by
        unfold processConnectRequest
        rw [socket, number]
        rfl
      rcases connect_dials env.network request.hostname port w keeps with
        ⟨address, resolved, dialled, refused⟩ | ⟨unresolved, stops⟩
      · refine Or.inl ⟨port, address, ⟨⟨fun e => absurd e forwards,
          ⟨fd, socket, fun e => absurd e forwards⟩, resolved⟩, number⟩, ?_,
          fun no => stops_congr whole (refused no)⟩
        rw [after_congr whole, dialled]
      · refine Or.inr ⟨fun _ _ c => ?_, stops_congr whole stops⟩
        cases unresolved.symm.trans c.resolved

/-- A function connects to the server of the request, or stops before it has dialled anything. -/
theorem route_dials (env : Environment) (request : Request) (route : Route) (w : World) :
    (∃ port address, Dials env request route port address ∧
      Dialled env.network (route.handler env request) w port address) ∨
    (∀ port address, ¬ Dials env request route port address) ∧
      Stops (route.handler env request) w w := by
  cases route with
  | tunnel => exact processConnectRequest_dials env request w
  | forward =>
    rcases contactOrigin_dials env request w with ⟨port, address, dials, made⟩ | ⟨never, stops⟩
    · refine Or.inl ⟨port, address, dials, ?_, fun no => stops_forward (made.refused no)⟩
      exact (forwardRequest_frame (ungot_dialled .server) (unsent_dialled .client)
        (fun _ _ => rfl) env request w).trans made.dialled
    · exact Or.inr ⟨never, stops_forward stops⟩

theorem route_contact {env : Environment} {request : Request} (route : Route)
    (known : request.method ∈ [bytes "GET", bytes "POST", bytes "CONNECT"])
    (own : request.method ≠ bytes "CONNECT" ↔ route = .forward)
    (uncached : ¬ AnsweredFromCache env request) (w : World) :
    Contact env request w ((guarded (route.handler env request)).after w) := by
  rcases route_dials env request route w with ⟨port, address, dials, made⟩ | ⟨never, stops⟩
  · obtain ⟨fd, socket, nonzero⟩ := dials.socket
    cases accepted : env.network.connect address (htons port) with
    | true =>
      refine .connected ⟨⟨dials.hostname ∘ own.mp, ⟨fd, socket, nonzero ∘ own.mp⟩, dials.number,
        dials.resolved, accepted⟩, known, uncached⟩ ?_
      rw [guarded_frame (unsent_dialled .client), made.dialled]
    | false =>
      refine contact_of_stops (made.refused accepted) ⟨fun _ _ c => ?_, _, rfl, ?_⟩
      · cases dials.resolved.symm.trans c.resolved
        cases dials.number.symm.trans c.number
        cases accepted.symm.trans c.accepted
      · intro d mem
        rw [List.mem_singleton.mp mem]
        exact accepted
  · refine contact_of_stops stops (unreached_undialled fun port address c => never port address ?_)
    obtain ⟨fd, socket, nonzero⟩ := c.socket
    exact ⟨⟨c.hostname ∘ own.mpr, ⟨fd, socket, nonzero ∘ own.mpr⟩, c.resolved⟩, c.number⟩

theorem forwardRequest_contact {env : Environment} {request : Request}
    (method : request.method = bytes "GET" ∨ request.method = bytes "POST")
    (uncached : ¬ AnsweredFromCache env request) (w : World) :
    Contact env request w ((guarded (forwardRequest env request)).after w) := by
  refine route_contact .forward ?_ (iff_of_true ?_ rfl) uncached w
  · rcases method with e | e <;> rw [e] <;> decide
  · rcases method with e | e <;> rw [e] <;> decide

theorem processConnectRequest_contact {env : Environment} {request : Request}
    (method : request.method = bytes "CONNECT") (w : World) :
    Contact env request w ((guarded (processConnectRequest env request)).after w) := by
  refine route_contact .tunnel ?_ (iff_of_false (fun other => other method) (by decide)) ?_ w
  · rw [method]
    decide
  · rintro ⟨get, -⟩
    rw [method] at get
    exact absurd get (by decide)

theorem dispatch_contact (env : Environment) (request : Request) (w : World) :
    Contact env request w ((guarded (dispatch env request)).after w) := by
  by_cases method : request.method = bytes "GET" ∨ request.method = bytes "POST"
  · rcases dispatch_cases env method with
      ⟨cached_entry, get, found, valid, serves⟩ | ⟨miss, forwards⟩
    · have cached : AnsweredFromCache env request := ⟨get, cached_entry, found, valid⟩
      rw [serves]
      refine .unconnected (fun _ _ c => c.uncached cached) ⟨[], ?_, by simp⟩ (Or.inl cached)
      rw [guarded_frame (unsent_dialled .client), keeps_serve (unsent_dialled .client),
        List.append_nil]
    · rw [forwards]
      refine forwardRequest_contact method ?_ w
      rintro ⟨get, cached_entry, found, valid⟩
      rw [miss get cached_entry found] at valid
      cases valid
  · obtain ⟨not_get, not_post⟩ := not_or.mp method
    unfold dispatch
    rw [if_neg not_get, if_neg not_post]
    by_cases connect : request.method = bytes "CONNECT"
    · rw [if_pos connect]
      exact processConnectRequest_contact connect w
    · rw [if_neg connect]
      obtain ⟨status_code, message, last⟩ := stops_guarded (w := w) (Or.inr ⟨501,
        bytes "Not Implemented", rfl⟩ : Stops (do
          sendErrorResponse 501 (bytes "Not Implemented")
          return false) w w)
      rw [last]
      refine .unconnected ?_ ⟨[], ?_, by simp⟩
        (Or.inr (refused_sendErrorResponse status_code message w))
      · intro _ _ c
        have known := c.method
        simp only [List.mem_cons, List.not_mem_nil, or_false] at known
        rcases known with e | e | e
        · exact not_get e
        · exact not_post e
        · exact connect e
      · rw [sendErrorResponse_after, List.append_nil]
        rfl

/-! ## The server of the target -/

/-- Every connection that was made goes to this host and port; when there is none the request is
answered with an error, unless the answer came from the cache. -/
structure Directed (env : Environment) (request : Request) (host : Bytes) (port : Nat) (w : World) :
    Prop where
  right : ∀ d ∈ w.dialled, env.network.connect d.1 d.2 = true →
    env.network.gethostbyname host = some d.1 ∧ d.2.toNat = port
  refused : (∀ d ∈ w.dialled, env.network.connect d.1 d.2 = false) →
    AnsweredFromCache env request ∨ Refused w

/-- The bytes are accepted as this message, and its target names this host and port. -/
structure Targets (env : Environment) (segment : Segment) (message : Message) (host : Bytes)
    (port : Nat) : Prop where
  accepted : env.put segment.data = some message
  names : Designates message.method_string message.target host port

/-- The server that a Host value names has the address of this host and, in 16 bits, this port. -/
structure SameServer (network : Network) (value host : Bytes) (port : Nat) : Prop where
  address : network.gethostbyname (c_str (Request.hostPart value)) = network.gethostbyname host
  port : ∃ number, strtol (Request.portPart value) = some number ∧ number % 2 ^ 16 = port

/-- Why nothing is connected for a message with this Host value: its method is not supported, the
cache answers it, the value names no host, there is no socket, the text behind the colon is no
number, the name is unknown, or the server refuses. -/
inductive Idle (env : Environment) (message : Message) (value : Bytes) : Prop where
  | unsupported
      (other : message.method_string ∉ [bytes "GET", bytes "POST", bytes "CONNECT"])
  | cached {cached_entry : CacheEntry} (get : message.method_string = bytes "GET")
      (found : env.lookup (Request.hostPart value ++ message.target) = some cached_entry)
      (valid : cached_entry.isExpired env.now = false)
  | hostless (forwarded : message.method_string ≠ bytes "CONNECT")
      (empty : Request.hostPart value = [])
  | socketless (closed : ∀ fd, env.network.socket = .ok fd →
      message.method_string ≠ bytes "CONNECT" ∧ fd = 0)
  | unnumbered {e : Exception} (rejected : stoi (Request.portPart value) = .error e)
  | unresolved (unknown : env.network.gethostbyname (c_str (Request.hostPart value)) = none)
  | refused {number : Int32} {address : Address}
      (read : stoi (Request.portPart value) = .ok number)
      (resolved : env.network.gethostbyname (c_str (Request.hostPart value)) = some address)
      (closed : env.network.connect address (htons number) = false)

/-- These are all reasons. -/
theorem idle_iff (env : Environment) (raw : Bytes) (message : Message) :
    Idle env message (message.host.getD []) ↔
      ∀ number address, ¬ Connected env ((Request.new raw).fill message) number address := by
  obtain ⟨hostname, port⟩ := Request.fill_host raw message
  have url := Request.fill_url raw message
  have method : ((Request.new raw).fill message).method = message.method_string := rfl
  generalize (Request.new raw).fill message = request at hostname port url method ⊢
  generalize message.host.getD [] = value at hostname port url ⊢
  constructor
  · rintro idle number address c
    have read := port ▸ c.number
    have resolved := hostname ▸ c.resolved
    cases idle with
    | unsupported other => exact other (method ▸ c.method)
    | cached get found valid => exact c.uncached ⟨method.trans get, _, url ▸ found, valid⟩
    | hostless forwarded empty => exact c.hostname (method ▸ forwarded) (hostname.trans empty)
    | socketless closed =>
      obtain ⟨fd, socket, nonzero⟩ := c.socket
      obtain ⟨forwarded, zero⟩ := closed fd socket
      exact nonzero (method ▸ forwarded) zero
    | unnumbered rejected => cases read.symm.trans rejected
    | unresolved unknown => cases resolved.symm.trans unknown
    | refused read' resolved' closed =>
      cases read.symm.trans read'
      cases resolved.symm.trans resolved'
      cases c.accepted.symm.trans closed
  · intro never
    by_contra busy
    have known : request.method ∈ [bytes "GET", bytes "POST", bytes "CONNECT"] := by
      by_contra other
      exact busy (.unsupported (method ▸ other))
    have uncached : ¬ AnsweredFromCache env request := by
      rintro ⟨get, cached_entry, found, valid⟩
      exact busy (.cached (method ▸ get) (url ▸ found) valid)
    have filled : request.method ≠ bytes "CONNECT" → request.hostname ≠ [] :=
      fun forwarded empty => busy (.hostless (method ▸ forwarded) (hostname ▸ empty))
    have socket : ∃ fd, env.network.socket = .ok fd ∧
        (request.method ≠ bytes "CONNECT" → fd ≠ 0) := by
      by_contra closed
      refine busy (.socketless (fun fd opened => ?_))
      have zero : ¬ (request.method ≠ bytes "CONNECT" → fd ≠ 0) :=
        fun nonzero => closed ⟨fd, opened, nonzero⟩
      rw [method] at zero
      obtain ⟨forwarded, zero⟩ := Classical.not_imp.mp zero
      exact ⟨forwarded, not_not.mp zero⟩
    cases read : stoi (Request.portPart value) with
    | error e => exact busy (.unnumbered read)
    | ok number =>
      cases resolved : env.network.gethostbyname (c_str (Request.hostPart value)) with
      | none => exact busy (.unresolved resolved)
      | some address =>
        cases accepted : env.network.connect address (htons number) with
        | false => exact busy (.refused read resolved accepted)
        | true =>
          exact never number address ⟨⟨filled, socket, port ▸ read, hostname ▸ resolved, accepted⟩,
            known, uncached⟩

theorem directed_of_contact {env : Environment} {request : Request} {w w' : World}
    (start : w.dialled = []) (contact : Contact env request w w') (host : Bytes) (port : Nat) :
    Directed env request host port w' ↔ ∀ number address, Connected env request number address →
      env.network.gethostbyname host = some address ∧ (htons number).toNat = port := by
  cases contact with
  | @connected number address c dialled =>
    rw [start, List.nil_append] at dialled
    constructor
    · intro directed number' address' c'
      cases c.number.symm.trans c'.number
      cases c.resolved.symm.trans c'.resolved
      exact directed.right (address, htons number) (by simp [dialled]) c.accepted
    · intro agree
      constructor
      · intro d mem _
        rw [dialled, List.mem_singleton] at mem
        subst mem
        exact agree number address c
      · intro none_made
        have refused := none_made (address, htons number) (by simp [dialled])
        cases c.accepted.symm.trans refused
  | unconnected never dialled answered =>
    obtain ⟨tried, same, refused⟩ := dialled
    rw [start, List.nil_append] at same
    refine iff_of_true ⟨?_, fun _ => answered⟩ (fun _ _ c => absurd c (never _ _))
    intro d mem made
    cases made.symm.trans (refused d (same ▸ mem))

/-- A request goes where its target says exactly when its Host field names the same server, or
nothing is connected for it. -/
theorem directed_iff (env : Environment) (k : Kernel) (segment : Segment) (rest : List RecvOutcome)
    (message : Message) (host : Bytes) (port : Nat)
    (first : k.client_recvs = .data segment :: rest)
    (targets : Targets env segment message host port) :
    Directed env ((Request.new segment.data).fill message) host port
        ((handle_connection env).after (World.start k)) ↔
      SameServer env.network (message.host.getD []) host port ∨
        Idle env message (message.host.getD []) := by
  have accepted : Request.parse env.put (Request.new segment.data) =
      .ok ((Request.new segment.data).fill message) :=
    (Request.parse_eq_ok_iff _ _ _).mpr ⟨message, targets.accepted, rfl⟩
  obtain ⟨hostname, text⟩ := Request.fill_host segment.data message
  rw [handle_connection_after first accepted, directed_of_contact rfl (dispatch_contact env _ _),
    idle_iff env segment.data]
  have kept {number : Int32} (read : strtol (Request.portPart (message.host.getD [])) =
      some number.toInt) : (htons number).toNat = port ↔ number.toInt % 2 ^ 16 = port := by
    rw [← htons_toNat, Int.natCast_inj]
  constructor
  · intro agree
    by_cases idle : ∀ number address,
        ¬ Connected env ((Request.new segment.data).fill message) number address
    · exact Or.inr idle
    · simp only [not_forall, not_not] at idle
      obtain ⟨number, address, c⟩ := idle
      obtain ⟨same, sixteen⟩ := agree number address c
      have read := stoi_ok (text ▸ c.number)
      exact Or.inl ⟨(hostname ▸ c.resolved).trans same.symm, _, read, (kept read).mp sixteen⟩
  · rintro (⟨same, number', read', sixteen⟩ | idle) number address c
    · have read := stoi_ok (text ▸ c.number)
      cases read.symm.trans read'
      exact ⟨same.symm.trans (hostname ▸ c.resolved), (kept read).mpr sixteen⟩
    · exact absurd c (idle number address)

/-! A tunnel to port 443 whose Host field has no port. -/

def connectRequest : Segment :=
  ⟨bytes "CONNECT a:443 HTTP/1.1\r\nHost: a\r\n\r\n", by decide +kernel, by decide +kernel⟩

def connectMessage : Message := ⟨bytes "CONNECT", bytes "a:443", 11, some (bytes "a"), []⟩

def tunnelled : Request := (Request.new connectRequest.data).fill connectMessage

def connectEnvironment (iteration : Iteration) : Environment :=
  { plainEnvironment iteration with put := fun _ => some connectMessage }

def connectKernel : Kernel := { plainKernel [] with client_recvs := [.data connectRequest] }

theorem tunnelled_targets (iteration : Iteration) :
    Targets (connectEnvironment iteration) connectRequest connectMessage (bytes "a") 443 where
  accepted := rfl
  names := by
    have named : Designates (bytes "CONNECT") (bytes "a" ++ 58 :: bytes "443") (bytes "a") 443 :=
      .connect ⟨by decide, by decide +kernel, Or.inl (by decide)⟩ (by decide)
    exact named

theorem tunnelled_connected (iteration : Iteration) :
    Connected (connectEnvironment iteration) tunnelled 80 2130706433 where
  hostname := by decide +kernel
  socket := ⟨3, rfl, by decide⟩
  number := by decide +kernel
  resolved := rfl
  accepted := rfl
  method := by decide +kernel
  uncached := by
    rintro ⟨get, -⟩
    cases get

theorem directed_iff_tunnelled : ∃ iteration : Iteration,
    Directed (connectEnvironment iteration) tunnelled (bytes "a") 443
        ((handle_connection (connectEnvironment iteration)).after (World.start connectKernel)) ↔
      SameServer (connectEnvironment iteration).network (bytes "a") (bytes "a") 443 ∨
        Idle (connectEnvironment iteration) connectMessage (bytes "a") := by
  obtain ⟨iteration⟩ := nonempty_iteration
  exact ⟨iteration, directed_iff (connectEnvironment iteration) connectKernel connectRequest []
    connectMessage (bytes "a") 443 rfl (tunnelled_targets iteration)⟩

/-- The tunnel is built to port 80. -/
theorem not_always_directed : ¬ ∀ (env : Environment) (k : Kernel) (segment : Segment)
    (rest : List RecvOutcome) (message : Message) (host : Bytes) (port : Nat),
    k.client_recvs = .data segment :: rest → Targets env segment message host port →
    Directed env ((Request.new segment.data).fill message) host port
      ((handle_connection env).after (World.start k)) := by
  intro all
  obtain ⟨iteration⟩ := nonempty_iteration
  have directed := all (connectEnvironment iteration) connectKernel connectRequest [] connectMessage
    (bytes "a") 443 rfl (tunnelled_targets iteration)
  have recvs : connectKernel.client_recvs = [.data connectRequest] := rfl
  have accepted : Request.parse (connectEnvironment iteration).put
      (Request.new connectRequest.data) = .ok tunnelled := rfl
  rw [handle_connection_after recvs accepted] at directed
  obtain ⟨-, port⟩ := (directed_of_contact rfl (dispatch_contact _ tunnelled _) _ _).mp directed
    80 2130706433 (tunnelled_connected iteration)
  exact absurd port (by decide +kernel)

end CachingProxy
