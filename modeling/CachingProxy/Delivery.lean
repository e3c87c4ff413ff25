import CachingProxy.Frame
import CachingProxy.Stored

/-! What forwardRequest passes on: the answer of the origin to the client and to the cache, and
the request of the client to the origin. -/
namespace CachingProxy
open Cpp Action Http

/-! ## The answer of the origin -/

/-- The origin is asked, and the header loop gets some bytes of an answer. -/
def Heard (env : Environment) (request : Request) (w : World) : Prop :=
  Contacted env request w.server.sends ∧
    ∃ h left, HeaderRead [] w.server.recvs h left ∧ h ≠ []

theorem keeps_received_contactOrigin (env : Environment) (request : Request) :
    Keeps (fun w => w.server.received) (contactOrigin env request) := by
  apply keeps_contactOrigin
  · intro fd w source accepted left
    cases fd <;> rfl
  · exact fun _ _ => rfl

/-- Unheard, the origin has sent nothing, or its header block is still not whole. -/
theorem unheard_cases {env : Environment} {request : Request} {w : World}
    (unheard : ¬ Heard env request w) :
    ((forwardRequest env request).after w).server.received = w.server.received ∨
      ∃ w' received, (forwardRequest env request).run w = .error .waiting w' ∧ Silent w w' ∧
        w'.server.received = w.server.received ++ received := by
  by_cases contacted : Contacted env request w.server.sends
  · obtain ⟨w₁, contact, asked⟩ := contactOrigin_of_contacted contacted
    rcases headerLoop_ends [] w₁.server.recvs w₁ with
      ⟨h, left, read⟩ | ⟨-, w', received, run, silent, grown⟩
    · have nothing : h = [] := by
        by_contra answered
        exact unheard ⟨contacted, h, left, asked.recvs ▸ read, answered⟩
      subst nothing
      left
      have refused : (forwardRequest env request).run w = (do
          sendErrorResponse 502 (bytes "Bad Gateway")
          return false : Handling Bool).run (w₁.got .server [] left) := by
        unfold forwardRequest
        rw [bind_of_ok contact, if_neg (by decide), bind_of_ok (run_get w₁),
          bind_of_ok (headerLoop_of_read read w₁)]
        rfl
      rw [after_congr refused]
      refine (keeps_refuse (f := fun w => w.server.received) (fun _ _ _ _ => rfl) 502
        (bytes "Bad Gateway") (w₁.got .server [] left)).trans ?_
      simp [World.got, World.setPeer, World.peer, asked.received]
    · right
      refine ⟨w', received, ?_, asked.toSilent.trans silent, asked.received ▸ grown⟩
      unfold forwardRequest
      rw [bind_of_ok contact, if_neg (by decide), bind_of_ok (run_get w₁)]
      exact bind_of_error run _
  · left
    have kept := keeps_received_contactOrigin env request w
    obtain ⟨w', ⟨e, run, -⟩ | ⟨-, -, -, run | run⟩⟩ := contactOrigin_ends contacted
    · rw [after_of_error run] at kept
      rw [forwardRequest, after_of_error (bind_of_error run _)]
      exact kept
    · rw [after_of_ok run] at kept
      rw [forwardRequest, after_congr (bind_of_ok run _), if_pos (by decide)]
      exact kept
    · rw [after_of_error run] at kept
      rw [forwardRequest, after_of_error (bind_of_error run _)]
      exact kept

/-- What the client is given and what is stored comes after what there was before. -/
theorem exit_grows {env : Environment} {request : Request} {w : World}
    {r : EStateM.Result Cpp.Stop World Bool} (exit : Exit env request w r) :
    ∃ w' delivered puts, ((∃ ok, r = .ok ok w') ∨ ∃ e, r = .error e w') ∧
      w'.client.bytes = w.client.bytes ++ delivered ∧ w'.puts = w.puts ++ puts := by
  cases exit with
  | @silent e w' nothing =>
    exact ⟨w', [], [], Or.inr ⟨e, rfl⟩, by simp [nothing.client], by simp [nothing.puts]⟩
  | @answered status_code message w' r answers ends =>
    obtain ⟨accepted, -, bytes⟩ := answers.bytes
    refine ⟨w', accepted, [], ?_, bytes, by simp [answers.puts]⟩
    rcases ends with rfl | rfl
    · exact Or.inl ⟨false, rfl⟩
    · exact Or.inr ⟨.waiting, rfl⟩
  | relayed relayed =>
    cases relayed with
    | @broken delivered received w' r pre relays ends =>
      refine ⟨w', delivered, [], ?_, relays.bytes, by simp [relays.puts]⟩
      rcases ends with rfl | rfl
      · exact Or.inl ⟨false, rfl⟩
      · exact Or.inr ⟨.waiting, rfl⟩
    | rejected opened declared number relays next =>
      exact ⟨_, _, [], Or.inr ⟨_, rfl⟩, relays.bytes, by simp [relays.puts]⟩
    | finished opened framing body relays =>
      exact ⟨_, _, _, Or.inl ⟨true, rfl⟩, relays.bytes, by rw [relays.puts]⟩

/-- Body and status line of an entry, as parts of the stream it was made of. -/
structure MadeOf (entry : CacheEntry) (stream : Bytes) : Prop where
  data : ∃ pos, find CRLFCRLF stream = some pos ∧ entry.data = stream.drop (pos + 4)
  response_line : ∃ pos, find CRLF stream = some pos ∧ entry.response_line = stream.take pos

theorem madeOf_new_entry {env : Environment} {h : Bytes} {response : Response}
    (parsed : Response.parse env.calendar env.time_now h = .ok response) (rest : Bytes) :
    MadeOf (new_entry env response (response_line h) (initial_body h ++ rest)) (h ++ rest) := by
  obtain ⟨pos, found, -⟩ := Response.parse_judged parsed
  have inside := find_le found
  have four : CRLFCRLF.length = 4 := rfl
  constructor
  · refine ⟨pos, find_append found rest, ?_⟩
    simp only [new_entry, initial_body, found]
    rw [List.drop_append_of_le_length (by omega)]
  · have line : (find CRLF h).isSome := by
      change contains h CRLF = true
      rw [contains_iff, find_split found]
      exact ⟨h.take pos, CRLF ++ h.drop (pos + CRLFCRLF.length), by simp [CRLF_eq, CRLFCRLF_eq]⟩
    obtain ⟨line_end, ends⟩ := Option.isSome_iff_exists.mp line
    have within := find_le ends
    refine ⟨line_end, find_append ends rest, ?_⟩
    simp only [new_entry, response_line, ends]
    rw [List.take_append_of_le_length (by omega)]

theorem madeOf_stored {env : Environment} {request : Request} {h rest : Bytes}
    {p : Bytes × CacheEntry} (mem : p ∈ stored env request h (initial_body h ++ rest)) :
    MadeOf p.2 (h ++ rest) := by
  obtain ⟨key, entry⟩ := p
  obtain ⟨-, -, response, parsed, -, rfl⟩ := mem_stored mem
  exact madeOf_new_entry parsed rest

/-- Where the origin has sent something, the client has a prefix of it, all of it when
forwardRequest returns true, and an entry is cut out of the same bytes. -/
theorem relay_equality (env : Environment) (request : Request) (w : World) :
    ∃ received delivered puts,
      ((forwardRequest env request).after w).server.received = w.server.received ++ received ∧
      ((forwardRequest env request).after w).client.bytes = w.client.bytes ++ delivered ∧
      ((forwardRequest env request).after w).puts = w.puts ++ puts ∧
      (received ≠ [] → delivered <+: received ∧
        (∀ w', (forwardRequest env request).run w = .ok true w' → delivered = received) ∧
        ∀ p ∈ puts, MadeOf p.2 received) := by
  generalize hr : (forwardRequest env request).run w = r
  by_cases heard : Heard env request w
  · obtain ⟨contacted, h, left, read, answered⟩ := heard
    have ends := heard_relayed contacted read answered
    rw [hr] at ends
    cases ends with
    | @broken delivered received w' r pre relays ends =>
      have last : (forwardRequest env request).after w = w' := by
        rcases ends with rfl | rfl
        · exact after_of_ok hr
        · exact after_of_error hr
      rw [last]
      refine ⟨received, delivered, [], relays.received, relays.bytes, by simp [relays.puts], ?_⟩
      refine fun _ => ⟨pre, ?_, by simp⟩
      rintro w'' rfl
      rcases ends with e | e <;> cases e
    | @rejected h text left sends e w' opened declared number relays next =>
      rw [after_of_error hr]
      refine ⟨h, h, [], relays.received, relays.bytes, by simp [relays.puts], ?_⟩
      exact fun _ => ⟨List.prefix_refl _, fun _ _ => rfl, by simp⟩
    | @finished h left left' sends f segments w₁ opened framing body relays =>
      rw [after_of_ok hr]
      refine ⟨_, _, _, relays.received, relays.bytes, by rw [relays.puts], ?_⟩
      exact fun _ => ⟨List.prefix_refl _, fun _ _ => rfl, fun p mem => madeOf_stored mem⟩
  · rcases unheard_cases heard with nothing | ⟨w', received, waits, silent, grown⟩
    · have exit := forwardRequest_exit env request w
      rw [hr] at exit
      obtain ⟨w', delivered, puts, ends, given, stored⟩ := exit_grows exit
      have last : (forwardRequest env request).after w = w' := by
        rcases ends with ⟨ok, rfl⟩ | ⟨e, rfl⟩
        · exact after_of_ok hr
        · exact after_of_error hr
      rw [last] at nothing ⊢
      exact ⟨[], delivered, puts, by simp [nothing], given, stored, by simp⟩
    · rw [after_of_error waits]
      refine ⟨received, [], [], grown, by simp [silent.client], by simp [silent.puts], ?_⟩
      refine fun _ => ⟨List.nil_prefix, ?_, by simp⟩
      rintro w'' rfl
      cases hr.symm.trans waits

/-! ## The request of the client -/

/-- A complete request: a header block and a body of the length that the block declares. -/
structure Upload where
  head : Bytes
  body : Bytes
  block : find CRLFCRLF (head ++ CRLFCRLF ++ body) = some head.length
  uncoded : valuesOf TransferEncoding (fieldsOf head) = []
  length : ∀ value ∈ valuesOf ContentLength (fieldsOf head), number value = some body.length
  bodiless : valuesOf ContentLength (fieldsOf head) = [] → body = []

def Upload.bytes (m : Upload) : Bytes := m.head ++ CRLFCRLF ++ m.body

/-- The request that is made of the first bytes `raw` of a message. -/
def Message.request (req : Message) (raw : Bytes) : Request := (Request.new raw).fill req

/-- The parser is not eager: it succeeds as soon as the header block is complete. The request is
a GET or POST, it is not answered from the cache, and the origin accepts the connection and takes
whatever part of the message it is sent. -/
structure Forwardable (env : Environment) (k : Kernel) (m : Upload) (req : Message) : Prop where
  parses : ∀ raw, raw <+: m.bytes →
    env.put raw = if (find CRLFCRLF raw).isSome then some req else none
  method : req.method_string = bytes "GET" ∨ req.method_string = bytes "POST"
  uncached : req.method_string = bytes "GET" → ∀ cached_entry,
    env.lookup (req.request m.bytes).url = some cached_entry →
      cached_entry.isExpired env.now = true
  accepted : ∀ raw, raw <+: m.bytes → Contacted env (req.request raw) k.server_sends

theorem bytes_of_contacted {env : Environment} {request : Request} {w : World}
    (contacted : Contacted env request w.server.sends) :
    ((forwardRequest env request).after w).server.bytes =
      w.server.bytes ++ request.request := by
  obtain ⟨port, address, left, -, -, contact⟩ := contactOrigin_run contacted
  refine (forwardRequest_frame (f := fun w => w.server.bytes) (fun _ _ _ => rfl)
    (fun _ _ _ _ => rfl) (fun _ _ => rfl) env request w).trans ?_
  rw [after_of_ok contact]
  simp [Peer.bytes, World.sent, World.setPeer, World.peer]

/-- What the origin is sent is the first recv result, if that holds the header block. -/
theorem server_bytes_of_first {env : Environment} {k : Kernel} {m : Upload} {req : Message}
    (forwardable : Forwardable env k m req) {first : Segment} {rest : List RecvOutcome}
    (recvs : k.client_recvs = .data first :: rest) (part : first.data <+: m.bytes)
    (whole : (find CRLFCRLF first.data).isSome) :
    ((handle_connection env).after (World.start k)).server.bytes = first.data := by
  have parsed : Request.parse env.put (Request.new first.data) = .ok (req.request first.data) := by
    have put := forwardable.parses first.data part
    rw [if_pos whole] at put
    exact (Request.parse_eq_ok_iff env.put first.data _).mpr ⟨req, put, rfl⟩
  rw [handle_connection_after recvs parsed]
  have same := guarded_frame (f := fun w => w.server.bytes) (fun _ _ _ _ => rfl)
    (dispatch env (req.request first.data)) ((World.start k).got .client first.data rest)
  refine same.trans ?_
  have forwards : dispatch env (req.request first.data) = forwardRequest env (req.request first.data) :=
    dispatch_forward forwardable.method forwardable.uncached
  rw [forwards]
  exact bytes_of_contacted (forwardable.accepted first.data part)

theorem server_bytes_of_refused {env : Environment} {k : Kernel} {first : Segment}
    {rest : List RecvOutcome} (recvs : k.client_recvs = .data first :: rest)
    (refused : env.put first.data = none) :
    ((handle_connection env).after (World.start k)).server.bytes = [] := by
  have parsed : Request.parse env.put (Request.new first.data) = .error Request.InvalidRequest :=
    Request.parse_of_none refused
  rw [handle_connection_refused recvs parsed]
  have quiet (status_code : Nat) (message : Bytes) :
      Keeps (fun w => w.server.bytes) (sendErrorResponse status_code message) :=
    keeps_sendErrorResponse (fun _ _ _ _ => rfl) status_code message
  exact (keeps_catching _ (fun _ => quiet _ _)).trans (quiet _ _ _)

/-- The origin is sent the whole message exactly when the first recv returns all of it. -/
theorem whole_request_iff (env : Environment) (k : Kernel) (m : Upload) (req : Message)
    (first : Segment) (segments : List Segment) (later : List RecvOutcome)
    (recvs : k.client_recvs = (first :: segments).map .data ++ later)
    (split : flat (first :: segments) = m.bytes) (forwardable : Forwardable env k m req) :
    ((handle_connection env).after (World.start k)).server.bytes = m.bytes ↔
      first.data = m.bytes := by
  have part : first.data <+: m.bytes := ⟨flat segments, split⟩
  by_cases whole : (find CRLFCRLF first.data).isSome
  · rw [server_bytes_of_first forwardable recvs part whole]
  · have refused := forwardable.parses first.data part
    rw [if_neg whole] at refused
    rw [server_bytes_of_refused recvs refused]
    have block : (find CRLFCRLF m.bytes).isSome := by
      rw [Upload.bytes, m.block]
      rfl
    constructor
    · intro empty
      rw [← empty] at block
      cases block
    · intro all
      exact absurd (all ▸ block) whole

/-! A POST whose body comes in a segment of its own. -/

def uploadHead : Segment :=
  ⟨bytes "POST / HTTP/1.1\r\nHost: a\r\nContent-Length: 2\r\n\r\n", by decide +kernel,
    by decide +kernel⟩

def upload : Upload where
  head := bytes "POST / HTTP/1.1\r\nHost: a\r\nContent-Length: 2"
  body := bytes "ab"
  block := by decide +kernel
  uncoded := by decide +kernel
  length := by decide +kernel
  bodiless := by decide +kernel

def uploadMessage : Message := ⟨bytes "POST", bytes "/", 11, some (bytes "a"), []⟩

def uploadEnvironment (iteration : Iteration) : Environment :=
  { plainEnvironment iteration with
    put := fun raw => if (find CRLFCRLF raw).isSome then some uploadMessage else none }

def uploadKernel : Kernel :=
  { plainKernel [] with client_recvs := [uploadHead, twoBytes].map .data }

theorem sentAll_room {data : Bytes} {outcome : SendOutcome}
    (room : (data.length : Int) ≤ outcome.sent) (sends : List SendOutcome) :
    ∃ left, SentAll (outcome :: sends) data left := by
  refine ⟨_, ?_, rfl⟩
  rcases Nat.eq_zero_or_pos data.length with nothing | more
  · rw [sendLoop_done (by omega)]
  · rw [sendLoop_took (m := data.length) more more (by omega), sendLoop_done (by omega)]

theorem upload_forwardable (iteration : Iteration) :
    Forwardable (uploadEnvironment iteration) uploadKernel upload uploadMessage where
  parses _ _ := rfl
  method := Or.inr rfl
  uncached get := by cases get
  accepted raw part := by
    have host : (uploadMessage.request raw).hostname ≠ [] := by
      rw [Message.request, (Request.fill_host raw uploadMessage).1]
      decide
    have port : stoi (uploadMessage.request raw).get_port = .ok 80 := by
      rw [Message.request, (Request.fill_host raw uploadMessage).2]
      decide +kernel
    refine ⟨host, ⟨3, rfl, by decide⟩, ⟨80, 2130706433, port, rfl, rfl⟩, ?_⟩
    apply sentAll_room
    have size : upload.bytes.length ≤ 1000 := by decide +kernel
    have fits := part.length_le
    change (raw.length : Int) ≤ 1000
    omega

theorem whole_request_iff_split : ∃ iteration : Iteration,
    ((handle_connection (uploadEnvironment iteration)).after
        (World.start uploadKernel)).server.bytes = upload.bytes ↔
      uploadHead.data = upload.bytes := by
  obtain ⟨iteration⟩ := nonempty_iteration
  exact ⟨iteration, whole_request_iff _ _ upload uploadMessage uploadHead [twoBytes] [] rfl
    (by decide +kernel) (upload_forwardable iteration)⟩

/-- The body that comes in the second recv result is not sent on. -/
theorem not_always_whole_request : ¬ ∀ (env : Environment) (k : Kernel) (m : Upload) (req : Message)
    (segments : List Segment) (later : List RecvOutcome),
    k.client_recvs = segments.map .data ++ later → flat segments = m.bytes →
    Forwardable env k m req →
    ((handle_connection env).after (World.start k)).server.bytes = m.bytes := by
  intro all
  obtain ⟨iteration⟩ := nonempty_iteration
  have whole := all _ uploadKernel upload uploadMessage [uploadHead, twoBytes] [] rfl
    (by decide +kernel) (upload_forwardable iteration)
  have recvs : uploadKernel.client_recvs = [.data uploadHead, .data twoBytes] := rfl
  have sent := server_bytes_of_first (upload_forwardable iteration) recvs
    ⟨bytes "ab", by decide +kernel⟩ (by decide +kernel)
  have different : uploadHead.data ≠ upload.bytes := by decide +kernel
  exact different (sent.symm.trans whole)

end CachingProxy
