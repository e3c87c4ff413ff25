import CachingProxy.Request
import CachingProxy.Response
import CachingProxy.Socket

/-! Handler::forwardRequest: contact the origin, relay its answer while it arrives, store it.
The two receive loops recurse over the answers that recv will give. -/
namespace CachingProxy
open Cpp

/-- The order in which a range-based for visits an unordered_map. -/
structure Iteration where
  order : Finmap (fun _ : Bytes => Bytes) → List ((_ : Bytes) × Bytes)
  complete : ∀ m, (order m : Multiset ((_ : Bytes) × Bytes)) = m.entries

/-- What a handler is given apart from its sockets: `lookup` is proxy_cache->get, `time_now` is
time(NULL), `created` and `now` are the clock where the entry is built and where it is tested. -/
structure Environment where
  network : Network
  calendar : Calendar
  put : Parser
  iteration : Iteration
  lookup : Bytes → Option CacheEntry
  time_now : Int64
  created : Int
  now : Int

def error_response (status_code : Nat) (message : Bytes) : Bytes :=
  bytes "HTTP/1.1 " ++ Request.to_string status_code ++ bytes " " ++ message ++ CRLF ++
    bytes "Content-Type: text/plain\r\n" ++ bytes "Connection: close\r\n" ++ CRLF ++
    bytes "Error: " ++ message

def sendErrorResponse (status_code : Nat) (message : Bytes) : Handling Unit := do
  let response := error_response status_code message
  let _ ← sendAll .client (.own response) response

/-- The part of forwardRequest before the response; false after an error response. -/
def contactOrigin (env : Environment) (request : Request) : Handling Bool := do
  if request.hostname = [] then
    sendErrorResponse 400 (bytes "Bad Request")
    return false
  let server_fd ← Action.ofExcept env.network.socket
  if server_fd = 0 then
    sendErrorResponse 500 (bytes "Internal Server Error")
    return false
  let port ← Action.ofExcept (stoi request.get_port)
  if !(← TcpSocket.connect env.network request.hostname port) then
    sendErrorResponse 502 (bytes "Bad Gateway")
    return false
  if !(← sendAll .server .peer request.request) then
    sendErrorResponse 502 (bytes "Bad Gateway")
    return false
  return true

/-- Reads until the header block is whole, or recv returns no data. -/
def headerLoop (response_str : Bytes) : List RecvOutcome → Handling Bytes
  | [] => Action.wait
  | outcome :: left => do
    recvd .server outcome left
    match outcome with
    | .data segment =>
      if (find CRLFCRLF (response_str ++ segment.data)).isSome then
        return response_str ++ segment.data
      else headerLoop (response_str ++ segment.data) left
    | _ => return response_str

structure Framing where
  content_length : Nat
  is_chunked : Bool
  deriving DecidableEq

/-- What stoi is given: the text after the first "Content-Length: ", up to the end of its line. -/
def content_length_text (response_str : Bytes) : Option Bytes :=
  (find (bytes "Content-Length: ") response_str).map (fun content_length_pos =>
    let start := content_length_pos + 16
    match findFrom CRLF response_str start with
    | some e => (response_str.drop start).take (e - start)
    | none => response_str.drop start)

def scan_content_length (response_str : Bytes) : Except Exception Nat :=
  match content_length_text response_str with
  | none => .ok 0
  | some text => (stoi text).map size_t

def scan_framing (response_str : Bytes) : Except Exception Framing := do
  let content_length ← scan_content_length response_str
  return { content_length,
           is_chunked := contains response_str (bytes "Transfer-Encoding: chunked") }

/-- keep_reading becomes false after `buf` made it `body_received` bytes. -/
def Framing.complete (f : Framing) (body_received : Nat) (buf : Bytes) : Bool :=
  (decide (f.content_length > 0) && !f.is_chunked && decide (body_received ≥ f.content_length)) ||
    (f.is_chunked && decide (buf.length ≥ 5) && buf.drop (buf.length - 5) == bytes "0\r\n\r\n")

/-- The second loop; it returns response_buffer, or none when the client is gone. -/
def bodyLoop (f : Framing) (is_cacheable : Bool) (response_buffer : Bytes) (body_received : Nat) :
    List RecvOutcome → Handling (Option Bytes)
  | [] => Action.wait
  | outcome :: left => do
    recvd .server outcome left
    match outcome with
    | .data segment =>
      if !(← sendAll .client .peer segment.data) then return none
      let response_buffer :=
        if is_cacheable then response_buffer ++ segment.data else response_buffer
      let body_received := body_received + segment.data.length
      if f.complete body_received segment.data then return some response_buffer
      else bodyLoop f is_cacheable response_buffer body_received left
    | _ => return some response_buffer

def header_names : List Bytes :=
  [bytes "Content-Type", bytes "Content-Length", bytes "ETag", bytes "Last-Modified",
    bytes "Expires", bytes "Cache-Control", bytes "Date"]

def copy_headers (response : Response) : Finmap (fun _ : Bytes => Bytes) :=
  header_names.foldl (fun headers header_name =>
    let value := response.get_header header_name
    if value = [] then headers else headers.insert header_name value) ∅

def new_entry (env : Environment) (response : Response) (response_line response_buffer : Bytes) :
    CacheEntry where
  data := response_buffer
  response_line := response_line
  headers := copy_headers response
  creation_time := env.created
  expires_time := from_time_t response.expire_time_
  requires_validation := response.need_validate_
  etag := response.etag_
  last_modified := response.get_header (bytes "Last-Modified")

/-- The caching block; what it throws is caught there. -/
def store (env : Environment) (request : Request) (response_str response_line response_buffer : Bytes) :
    Handling Unit :=
  match Response.parse env.calendar env.time_now response_str with
  | .error _ => pure ()
  | .ok response =>
    if response.is_no_store_ then pure ()
    else modify (fun w => { w with
      puts := w.puts ++ [(request.url, new_entry env response response_line response_buffer)] })

def response_line (response_str : Bytes) : Bytes :=
  match find CRLF response_str with
  | some line_end => response_str.take line_end
  | none => response_str

def is_cacheable (request : Request) (response_str : Bytes) : Bool :=
  decide (request.method = bytes "GET") &&
    decide (find (bytes "HTTP/1.1 200") response_str = some 0)

/-- The body bytes that came with the header block. -/
def initial_body (response_str : Bytes) : Bytes :=
  match find CRLFCRLF response_str with
  | some header_end => response_str.drop (header_end + 4)
  | none => []

/-- What follows once the header bytes are relayed. -/
def relayBody (env : Environment) (request : Request) (response_str : Bytes) : Handling Bool := do
  let framing ← Action.ofExcept (scan_framing response_str)
  let is_cacheable := is_cacheable request response_str
  let body := initial_body response_str
  let response_buffer := if is_cacheable then body else []
  match ← bodyLoop framing is_cacheable response_buffer body.length (← get).server.recvs with
  | none => return false
  | some response_buffer =>
    if is_cacheable then
      store env request response_str (response_line response_str) response_buffer
    return true

def forwardRequest (env : Environment) (request : Request) : Handling Bool := do
  if !(← contactOrigin env request) then return false
  let response_str ← headerLoop [] (← get).server.recvs
  if response_str.length = 0 then
    sendErrorResponse 502 (bytes "Bad Gateway")
    return false
  if !(← sendAll .client .peer response_str) then return false
  relayBody env request response_str

end CachingProxy
