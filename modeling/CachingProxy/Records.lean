import CachingProxy.Cpp.Traced
import CachingProxy.Handler

/-! What the handler of a connection writes to the log. A record is one call of Log::write; its
text follows the id of the connection and ": ". -/
namespace CachingProxy
open Cpp

inductive Record where
  | failed_to_read
  | client_closed
  | invalid_request
  | request (line client_ip time : Bytes)
  | unsupported_method (method : Bytes)
  | handling_failed
  | exception (what : Bytes)
  | not_in_cache
  | expired_at (time : Bytes)
  | requires_validation
  | valid
  | responding (line : Bytes)
  | failed_cache_headers
  | failed_cache_body
  | sent_cache (size : Nat)
  | processing_post
  | processing_connect (hostname port : Bytes)
  | requesting (line hostname : Bytes)
  | failed_to_connect (hostname port : Bytes)
  | failed_200
  | tunnel_established
  | tunnel_closed
  | empty_hostname
  | failed_server_socket
  | failed_to_send_request
  | beginning_to_receive
  | failed_to_read_origin (error : Bytes)
  | origin_closed
  | no_response
  | received (line hostname : Bytes)
  | failed_to_forward
  | failed_to_forward_body
  | not_cacheable
  | cached_for_validation
  | cached_until (time : Bytes)
  | not_cached (what : Bytes)
  | poll_failed
  | tunnel_terminated
  deriving DecidableEq

/-- The literal that the text of a record begins with; it tells the kind of the record. -/
def Record.head : Record → Bytes
  | .failed_to_read => bytes "ERROR Failed to read from client"
  | .client_closed => bytes "Client closed connection"
  | .invalid_request => bytes "ERROR Invalid request format"
  | .request _ _ _ => bytes "\""
  | .unsupported_method _ => bytes "WARNING Unsupported method: "
  | .handling_failed => bytes "ERROR Request handling failed"
  | .exception _ => bytes "ERROR Exception: "
  | .not_in_cache => bytes "not in cache"
  | .expired_at _ => bytes "in cache, but expired at "
  | .requires_validation => bytes "in cache, requires validation"
  | .valid => bytes "in cache, valid"
  | .responding _ => bytes "Responding \""
  | .failed_cache_headers => bytes "ERROR Failed to send cache response headers"
  | .failed_cache_body => bytes "ERROR Failed to send cache response body"
  | .sent_cache _ => bytes "DEBUG Sent "
  | .processing_post => bytes "NOTE Processing POST request"
  | .processing_connect _ _ => bytes "NOTE Processing CONNECT to "
  | .requesting _ _ => bytes "Requesting \""
  | .failed_to_connect _ _ => bytes "ERROR Failed to connect to "
  | .failed_200 => bytes "ERROR Failed to send 200 OK for CONNECT"
  | .tunnel_established => bytes "NOTE Tunnel established, beginning data transfer"
  | .tunnel_closed => bytes "Tunnel closed"
  | .empty_hostname => bytes "ERROR Empty hostname in request"
  | .failed_server_socket => bytes "ERROR Failed to create server socket"
  | .failed_to_send_request => bytes "ERROR Failed to send request to origin server"
  | .beginning_to_receive => bytes "NOTE Beginning to receive response from origin server"
  | .failed_to_read_origin _ => bytes "ERROR Failed to read from origin server: "
  | .origin_closed => bytes "NOTE Origin server closed connection during header read"
  | .no_response => bytes "ERROR No response from origin server"
  | .received _ _ => bytes "Received \""
  | .failed_to_forward => bytes "ERROR Failed to forward response to client"
  | .failed_to_forward_body => bytes "ERROR Failed to forward response body to client"
  | .not_cacheable => bytes "not cacheable because Cache-Control: no-store"
  | .cached_for_validation => bytes "cached, but requires re-validation"
  | .cached_until _ => bytes "cached, expires at "
  | .not_cached _ => bytes "WARNING Failed to process response for caching: "
  | .poll_failed => bytes "ERROR Poll failed in tunnel"
  | .tunnel_terminated => bytes "NOTE Tunnel connection terminated by peer"

/-- What is written behind the literal. -/
def Record.tail : Record → Bytes
  | .request line client_ip time =>
    line ++ bytes "\" from " ++ client_ip ++ bytes " @ " ++ time
  | .unsupported_method method => method
  | .exception what | .not_cached what => what
  | .expired_at time | .cached_until time => time
  | .responding line => line ++ bytes "\""
  | .sent_cache size => Request.to_string size ++ bytes " bytes of cache data before closing"
  | .processing_connect hostname port | .failed_to_connect hostname port =>
    hostname ++ bytes ":" ++ port
  | .requesting line hostname | .received line hostname => line ++ bytes "\" from " ++ hostname
  | .failed_to_read_origin error => error
  | _ => []

def Record.text (r : Record) : Bytes := r.head ++ r.tail

/-- What a handler is given for its log: the address of its client, the clock where the request is
logged, asctime of gmtime (none for a null pointer), strerror and what(). -/
structure Observer where
  remote_address : Bytes
  asked : Int
  asctime : Int64 → Option Bytes
  strerror : Errno → Bytes
  what : Exception → Bytes

/-- system_clock::to_time_t -/
def to_time_t (t : Int) : Int64 := Int64.ofInt (t.tdiv 1000000000)

/-- The text of a time without its line feed; a null pointer or a text without one throws. -/
def Observer.time_str (o : Observer) (t : Int64) : Except Exception Bytes :=
  match o.asctime t with
  | none => .error (.other "basic_string: construction from null is not valid")
  | some time_str =>
    match find [10] time_str with
    | some pos => .ok (time_str.take pos)
    | none => .error .out_of_range

def Observer.getCurrentTimeStr (o : Observer) : Except Exception Bytes := o.time_str (to_time_t o.asked)

abbrev Logging := Action (Traced World Record)

/-! ## The handler with its log -/

namespace Logging
open Action

def status_line (status_code : Nat) (message : Bytes) : Bytes :=
  bytes "HTTP/1.1 " ++ Request.to_string status_code ++ bytes " " ++ message

def sendErrorResponse (status_code : Nat) (message : Bytes) : Logging Unit := do
  emit (.responding (status_line status_code message))
  within (CachingProxy.sendErrorResponse status_code message)

def contactOrigin (env : Environment) (request : Request) : Logging Bool := do
  if request.hostname = [] then
    emit .empty_hostname
    sendErrorResponse 400 (bytes "Bad Request")
    return false
  let server_fd ← ofExcept env.network.socket
  if server_fd = 0 then
    emit .failed_server_socket
    sendErrorResponse 500 (bytes "Internal Server Error")
    return false
  emit (.requesting request.line request.hostname)
  let port ← ofExcept (stoi request.get_port)
  if !(← within (TcpSocket.connect env.network request.hostname port)) then
    emit (.failed_to_connect request.hostname request.get_port)
    sendErrorResponse 502 (bytes "Bad Gateway")
    return false
  if !(← within (sendAll .server .peer request.request)) then
    emit .failed_to_send_request
    sendErrorResponse 502 (bytes "Bad Gateway")
    return false
  return true

def headerLoop (o : Observer) (response_str : Bytes) : List RecvOutcome → Logging Bytes
  | [] => wait
  | outcome :: left => do
    within (recvd .server outcome left)
    match outcome with
    | .data segment =>
      if (find CRLFCRLF (response_str ++ segment.data)).isSome then
        return response_str ++ segment.data
      else headerLoop o (response_str ++ segment.data) left
    | .failed errno =>
      emit (.failed_to_read_origin (o.strerror errno))
      return response_str
    | .closed =>
      emit .origin_closed
      return response_str

def bodyLoop (f : Framing) (is_cacheable : Bool) (response_buffer : Bytes) (body_received : Nat) :
    List RecvOutcome → Logging (Option Bytes)
  | [] => wait
  | outcome :: left => do
    within (recvd .server outcome left)
    match outcome with
    | .data segment =>
      if !(← within (sendAll .client .peer segment.data)) then
        emit .failed_to_forward_body
        return none
      let response_buffer :=
        if is_cacheable then response_buffer ++ segment.data else response_buffer
      let body_received := body_received + segment.data.length
      if f.complete body_received segment.data then return some response_buffer
      else bodyLoop f is_cacheable response_buffer body_received left
    | _ => return some response_buffer

/-- What is logged about an entry, after the put. -/
def logEntry (o : Observer) (response : Response) : Logging Unit := do
  if response.need_validate_ then emit .cached_for_validation
  else if response.expire_time_ > 0 then
    let expire_time_str ← ofExcept (o.time_str response.expire_time_)
    emit (.cached_until expire_time_str)

def storeResponse (env : Environment) (o : Observer) (request : Request) (response : Response)
    (response_line response_buffer : Bytes) : Logging Unit := do
  if response.is_no_store_ then emit .not_cacheable
  else
    within (modify (fun w => { w with
      puts := w.puts ++ [(request.url, new_entry env response response_line response_buffer)] }))
    logEntry o response

def store (env : Environment) (o : Observer) (request : Request)
    (response_str response_line response_buffer : Bytes) : Logging Unit :=
  catching (do
    let response ← ofExcept (Response.parse env.calendar env.time_now response_str)
    storeResponse env o request response response_line response_buffer)
    (fun e => emit (.not_cached (o.what e)))

def relayBody (env : Environment) (o : Observer) (request : Request) (response_str : Bytes) :
    Logging Bool := do
  let framing ← ofExcept (scan_framing response_str)
  let is_cacheable := is_cacheable request response_str
  let body := initial_body response_str
  let response_buffer := if is_cacheable then body else []
  match ← bodyLoop framing is_cacheable response_buffer body.length (← within get).server.recvs with
  | none => return false
  | some response_buffer =>
    if is_cacheable then
      store env o request response_str (response_line response_str) response_buffer
    emit (.responding (response_line response_str))
    return true

def forwardRequest (env : Environment) (o : Observer) (request : Request) : Logging Bool := do
  if !(← contactOrigin env request) then return false
  emit .beginning_to_receive
  let response_str ← headerLoop o [] (← within get).server.recvs
  if response_str.length = 0 then
    emit .no_response
    sendErrorResponse 502 (bytes "Bad Gateway")
    return false
  emit (.received (response_line response_str) request.hostname)
  if !(← within (sendAll .client .peer response_str)) then
    emit .failed_to_forward
    return false
  relayBody env o request response_str

/-- The branch of processGetRequest for a valid entry. -/
def serve (env : Environment) (cached_entry : CacheEntry) : Logging Bool := do
  let message := hit_message env cached_entry
  emit .valid
  emit (.responding cached_entry.response_line)
  if !(← within (sendAll .client (.own message) (hit_headers env cached_entry))) then
    emit .failed_cache_headers
    return false
  if cached_entry.data ≠ [] then
    if !(← within (sendAll .client (.own message) cached_entry.data)) then
      emit .failed_cache_body
      return false
  emit (.sent_cache cached_entry.data.length)
  return true

def processGetRequest (env : Environment) (o : Observer) (request : Request) : Logging Bool :=
  match env.lookup request.url with
  | none => do
    emit .not_in_cache
    forwardRequest env o request
  | some cached_entry =>
    if cached_entry.isExpired env.now then do
      let expired_time_str ← ofExcept (o.time_str (to_time_t cached_entry.expires_time))
      emit (.expired_at expired_time_str)
      if cached_entry.etag ≠ [] ∨ cached_entry.last_modified ≠ [] then
        emit .requires_validation
        forwardRequest env o request
      else forwardRequest env o request
    else serve env cached_entry

def processPostRequest (env : Environment) (o : Observer) (request : Request) : Logging Bool := do
  emit .processing_post
  forwardRequest env o request

def tunnelLoop (client_closed server_closed : Bool) (polls : List Poll) : Logging Bool :=
  if client_closed || server_closed then return true
  else match polls with
  | [] => wait
  | poll :: polls => do
    within (modify (fun w => { w with polls := polls }))
    match poll with
    | .failed =>
      emit .poll_failed
      return false
    | .timeout => tunnelLoop false false polls
    | .ready client server =>
      let (client_closed, server_gone) ←
        if client.pollin then within (tunnelStep .client .server) else pure (false, false)
      let (server_closed, client_gone) ←
        if server.pollin then within (tunnelStep .server .client) else pure (false, false)
      if client.hangup || server.hangup then
        emit .tunnel_terminated
        return true
      tunnelLoop (client_closed || client_gone) (server_closed || server_gone) polls

def tunnelTraffic : Logging Bool := do
  tunnelLoop false false (← within get).polls

def processConnectRequest (env : Environment) (request : Request) : Logging Bool := do
  emit (.processing_connect request.hostname request.get_port)
  emit (.requesting request.line request.hostname)
  let _ ← ofExcept env.network.socket
  let port ← ofExcept (stoi request.get_port)
  if !(← within (TcpSocket.connect env.network request.hostname port)) then
    emit (.failed_to_connect request.hostname request.get_port)
    sendErrorResponse 502 (bytes "Bad Gateway")
    return false
  emit (.responding (bytes "HTTP/1.1 200 Connection Established"))
  if !(← within (sendAll .client (.own ok_response) ok_response)) then
    emit .failed_200
    return false
  emit .tunnel_established
  let tunnel_result ← tunnelTraffic
  emit .tunnel_closed
  return tunnel_result

def dispatch (env : Environment) (o : Observer) (request : Request) : Logging Bool := do
  if request.method = bytes "GET" then processGetRequest env o request
  else if request.method = bytes "POST" then processPostRequest env o request
  else if request.method = bytes "CONNECT" then processConnectRequest env request
  else
    emit (.unsupported_method request.method)
    sendErrorResponse 501 (bytes "Not Implemented")
    return false

/-- handle_connection up to its cleanup. -/
def handle_connection (env : Environment) (o : Observer) : Logging Unit :=
  catching (do
    match ← within (recv .client) with
    | .data segment =>
      match Request.parse env.put (Request.new segment.data) with
      | .error _ =>
        emit .invalid_request
        sendErrorResponse 400 (bytes "Bad Request")
      | .ok request =>
        let time ← ofExcept o.getCurrentTimeStr
        emit (.request request.line o.remote_address time)
        let success ← dispatch env o request
        if !success then emit .handling_failed
    | .failed _ => emit .failed_to_read
    | .closed => emit .client_closed) (fun e => do
      emit (.exception (o.what e))
      sendErrorResponse 500 (bytes "Internal Server Error"))

end Logging

end CachingProxy
