import CachingProxy.Cpp.Wp
import CachingProxy.Forward

/-! How forwardRequest ends. Each stage has a rule for its success and a lemma that lists its
ends; they are put together in the cases of forwardRequest. -/
namespace CachingProxy
open Cpp Action

def flat (segments : List Segment) : Bytes := (segments.map Segment.data).flatten

@[simp] theorem flat_nil : flat [] = [] := rfl
@[simp] theorem flat_cons (segment : Segment) (segments : List Segment) :
    flat (segment :: segments) = segment.data ++ flat segments := rfl

/-- Given these answers of recv, the header loop adds `added` to `s` and leaves `left`. -/
inductive HeaderRead : Bytes → List RecvOutcome → Bytes → List RecvOutcome → Prop where
  | ended {s : Bytes} {outcome : RecvOutcome} {left : List RecvOutcome}
      (no_data : outcome.bytes = []) : HeaderRead s (outcome :: left) [] left
  | whole {s : Bytes} {segment : Segment} {left : List RecvOutcome}
      (found : (find CRLFCRLF (s ++ segment.data)).isSome) :
      HeaderRead s (.data segment :: left) segment.data left
  | more {s : Bytes} {segment : Segment} {rest : List RecvOutcome} {added : Bytes}
      {left : List RecvOutcome} (missing : find CRLFCRLF (s ++ segment.data) = none)
      (later : HeaderRead (s ++ segment.data) rest added left) :
      HeaderRead s (.data segment :: rest) (segment.data ++ added) left

/-- Given these answers of recv, the body loop reads `segments` and leaves `left`. -/
inductive BodyRead (f : Framing) : Nat → List RecvOutcome → List Segment → List RecvOutcome → Prop where
  | ended {n : Nat} {outcome : RecvOutcome} {left : List RecvOutcome}
      (no_data : outcome.bytes = []) : BodyRead f n (outcome :: left) [] left
  | whole {n : Nat} {segment : Segment} {left : List RecvOutcome}
      (stop : f.complete (n + segment.data.length) segment.data = true) :
      BodyRead f n (.data segment :: left) [segment] left
  | more {n : Nat} {segment : Segment} {rest : List RecvOutcome} {segments : List Segment}
      {left : List RecvOutcome} (go : f.complete (n + segment.data.length) segment.data = false)
      (later : BodyRead f (n + segment.data.length) rest segments left) :
      BodyRead f n (.data segment :: rest) (segment :: segments) left

/-- Every byte of `data` is taken, and `left` is what is still to be answered. -/
def SentAll (sends : List SendOutcome) (data : Bytes) (left : List SendOutcome) : Prop :=
  (sendLoop data 0 sends).result = some true ∧ (sendLoop data 0 sends).sends = left

/-- The inputs for which the origin is asked. -/
structure Contacted (env : Environment) (request : Request) (sends : List SendOutcome) : Prop where
  hostname : request.hostname ≠ []
  socket : ∃ fd, env.network.socket = .ok fd ∧ fd ≠ 0
  connected : ∃ port address, stoi request.get_port = .ok port ∧
    env.network.gethostbyname (c_str request.hostname) = some address ∧
    env.network.connect address (htons port) = true
  asked : ∃ left, SentAll sends request.request left

/-! ## What happens to the state -/

/-- Nothing reaches the client or the cache. -/
structure Silent (w w' : World) : Prop where
  client : w'.client = w.client
  puts : w'.puts = w.puts

/-- Nothing but a message of the proxy's own reaches the client, and nothing the cache. -/
structure Answers (w w' : World) (message : Bytes) : Prop where
  puts : w'.puts = w.puts
  client : ∃ pieces : List Bytes, pieces.flatten <+: message ∧
    w'.client.written = w.client.written ++ pieces.map (fun p => (.own message, p))

/-- `received` arrives from the origin, `delivered` reaches the client, nothing the cache. -/
structure Relays (w w' : World) (delivered received : Bytes) : Prop where
  puts : w'.puts = w.puts
  received : w'.server.received = w.server.received ++ received
  client : ∃ pieces : List Bytes, w'.client.written = w.client.written ++ pieces.map (fun p => (.peer, p)) ∧
    pieces.flatten = delivered

/-- The origin has been asked and has not answered yet. -/
structure Asked (w w' : World) : Prop extends Silent w w' where
  recvs : w'.server.recvs = w.server.recvs
  received : w'.server.received = w.server.received

theorem Silent.refl (w : World) : Silent w w := ⟨rfl, rfl⟩

theorem Silent.trans {a b c : World} (h : Silent a b) (h' : Silent b c) : Silent a c :=
  ⟨h'.client.trans h.client, h'.puts.trans h.puts⟩

theorem Answers.after_silent {a b c : World} {message : Bytes} (h : Silent a b)
    (h' : Answers b c message) : Answers a c message := by
  obtain ⟨pieces, pre, hw⟩ := h'.client
  exact ⟨h'.puts.trans h.puts, pieces, pre, h.client ▸ hw⟩

theorem Relays.trans {a b c : World} {d d' r r' : Bytes} (h : Relays a b d r)
    (h' : Relays b c d' r') : Relays a c (d ++ d') (r ++ r') := by
  obtain ⟨ps, hw, hd⟩ := h.client
  obtain ⟨ps', hw', hd'⟩ := h'.client
  refine ⟨h'.puts.trans h.puts, ?_, ps ++ ps', ?_, ?_⟩
  · rw [h'.received, h.received, List.append_assoc]
  · rw [hw', hw, List.map_append, List.append_assoc]
  · rw [List.flatten_append, hd, hd']

theorem Relays.bytes {w w' : World} {d r : Bytes} (h : Relays w w' d r) :
    w'.client.bytes = w.client.bytes ++ d := by
  obtain ⟨pieces, written, all⟩ := h.client
  rw [Peer.bytes, written, ← all]
  simp [Peer.bytes, List.map_map, Function.comp_def]

theorem Answers.bytes {w w' : World} {message : Bytes} (h : Answers w w' message) :
    ∃ accepted, accepted <+: message ∧ w'.client.bytes = w.client.bytes ++ accepted := by
  obtain ⟨pieces, pre, written⟩ := h.client
  refine ⟨pieces.flatten, pre, ?_⟩
  rw [Peer.bytes, written]
  simp [Peer.bytes, List.map_map, Function.comp_def]

theorem relays_end (w : World) (left : List RecvOutcome) :
    Relays w (w.got .server [] left) [] [] :=
  ⟨rfl, rfl, [], by simp [World.got, World.setPeer], rfl⟩

/-! ## The calls of the kernel -/

theorem sendAll_of_sent {fd : Side} {data : Bytes} {w : World} {left : List SendOutcome}
    (h : SentAll (w.peer fd).sends data left) (source : Source) :
    (sendAll fd source data).run w = .ok true (w.sent fd source data left) := by
  have all := (sendLoop_spec data 0 (w.peer fd).sends (Nat.zero_le _)).2.mp h.1
  rw [List.drop_zero] at all
  unfold sendAll EStateM.run
  simp only [h.1, h.2, all]

/-- A sendAll either gets everything through or leaves a proper prefix. -/
theorem sendAll_ends (fd : Side) (source : Source) (data : Bytes) (w : World) :
    (∃ left, SentAll (w.peer fd).sends data left) ∨
      (∀ left, ¬ SentAll (w.peer fd).sends data left) ∧ ∃ accepted left, accepted <+: data ∧
        ((sendAll fd source data).run w = .ok false (w.sent fd source accepted left) ∨
          (sendAll fd source data).run w = .error .waiting (w.sent fd source accepted left)) := by
  have spec := sendLoop_spec data 0 (w.peer fd).sends (Nat.zero_le _)
  rw [List.drop_zero] at spec
  unfold SentAll sendAll EStateM.run
  dsimp only
  generalize sendLoop data 0 (w.peer fd).sends = r at spec ⊢
  obtain ⟨result, accepted, left⟩ := r
  cases result with
  | none => exact Or.inr ⟨by simp, accepted, left, spec.1, Or.inr rfl⟩
  | some ok =>
    cases ok with
    | true => exact Or.inl ⟨left, rfl, rfl⟩
    | false => exact Or.inr ⟨by simp, accepted, left, spec.1, Or.inl rfl⟩

theorem got_got (w : World) (fd : Side) (a b : Bytes) (l l' : List RecvOutcome) :
    (w.got fd a l).got fd b l' = w.got fd (a ++ b) l' := by
  cases fd <;> simp [World.got, World.setPeer, World.peer]

theorem silent_got (w : World) (data : Bytes) (left : List RecvOutcome) :
    Silent w (w.got .server data left) := ⟨rfl, rfl⟩

theorem relays_sent {w : World} {data : Bytes} (accepted : Bytes) (left : List SendOutcome)
    (recvs : List RecvOutcome) :
    Relays w ((w.got .server data recvs).sent .client .peer accepted left) accepted data :=
  ⟨rfl, rfl, [accepted], rfl, by simp⟩

theorem answers_sent (w : World) {accepted message : Bytes} (pre : accepted <+: message)
    (left : List SendOutcome) : Answers w (w.sent .client (.own message) accepted left) message :=
  ⟨rfl, [accepted], by simpa using pre, rfl⟩

theorem sendErrorResponse_ends (status_code : Nat) (message : Bytes) (w : World) :
    ∃ w', Answers w w' (error_response status_code message) ∧
      ((sendErrorResponse status_code message).run w = .ok () w' ∨
        (sendErrorResponse status_code message).run w = .error .waiting w') := by
  unfold sendErrorResponse
  dsimp only
  rcases sendAll_ends .client (.own (error_response status_code message))
      (error_response status_code message) w with ⟨left, all⟩ | ⟨-, accepted, left, pre, run | run⟩
  · exact ⟨w.sent .client _ _ left, answers_sent w (List.prefix_refl _) left,
      Or.inl (bind_of_ok (sendAll_of_sent all _) _)⟩
  · exact ⟨w.sent .client _ accepted left, answers_sent w pre left, Or.inl (bind_of_ok run _)⟩
  · exact ⟨w.sent .client _ accepted left, answers_sent w pre left, Or.inr (bind_of_error run _)⟩

/-- An error response followed by return false. -/
theorem refuse_ends (status_code : Nat) (message : Bytes) (w : World) :
    ∃ w', Answers w w' (error_response status_code message) ∧
      ((do sendErrorResponse status_code message; return false : Handling Bool).run w =
          .ok false w' ∨
        (do sendErrorResponse status_code message; return false : Handling Bool).run w =
          .error .waiting w') := by
  obtain ⟨w', answers, run | run⟩ := sendErrorResponse_ends status_code message w
  · exact ⟨w', answers, Or.inl (bind_of_ok run _)⟩
  · exact ⟨w', answers, Or.inr (bind_of_error run _)⟩

theorem run_ofExcept_ok {α : Type} {x : Except Exception α} {a : α} (h : x = .ok a) (w : World) :
    (ofExcept x : Handling α).run w = .ok a w := by
  subst h
  rfl

theorem run_ofExcept_error {α : Type} {x : Except Exception α} {e : Exception} (h : x = .error e)
    (w : World) : (ofExcept x : Handling α).run w = .error (.threw e) w := by
  subst h
  rfl

/-! ## contactOrigin -/

theorem connect_unresolved {network : Network} {host : Bytes}
    (resolved : network.gethostbyname (c_str host) = none) (port : Int32) (w : World) :
    (TcpSocket.connect network host port).run w = .ok false w := by
  unfold TcpSocket.connect
  rw [resolved]
  rfl

theorem connect_resolved {network : Network} {host : Bytes} {address : Address}
    (resolved : network.gethostbyname (c_str host) = some address) (port : Int32) (w : World) :
    (TcpSocket.connect network host port).run w = .ok (network.connect address (htons port))
      { w with dialled := w.dialled ++ [(address, htons port)] } := by
  unfold TcpSocket.connect
  rw [resolved]
  rfl

theorem connect_ends (network : Network) (host : Bytes) (port : Int32) (w : World) :
    ∃ ok w', (TcpSocket.connect network host port).run w = .ok ok w' ∧ Silent w w' ∧
      w'.server.sends = w.server.sends ∧ (ok = true → ∃ address,
        network.gethostbyname (c_str host) = some address ∧
        network.connect address (htons port) = true) := by
  cases h : network.gethostbyname (c_str host) with
  | none => exact ⟨false, w, connect_unresolved h port w, .refl w, rfl, by simp⟩
  | some address =>
    exact ⟨_, _, connect_resolved h port w, ⟨rfl, rfl⟩, rfl, fun ok => ⟨address, rfl, ok⟩⟩

/-! What has to hold before a call. -/

section calls

variable {w : World}

theorem wp_sendAll {fd : Side} {source : Source} {data : Bytes} {post : Post World Bool}
    (all : ∀ left, post.returns true (w.sent fd source data left))
    (part : ∀ accepted left, accepted <+: data →
      post.returns false (w.sent fd source accepted left))
    (waits : ∀ accepted left, accepted <+: data → post.waits (w.sent fd source accepted left)) :
    wp (sendAll fd source data) post w := by
  rcases sendAll_ends fd source data w with ⟨left, h⟩ | ⟨-, accepted, left, pre, run | run⟩
  · exact (wp_of_ok (sendAll_of_sent h source)).mpr (all left)
  · exact (wp_of_ok run).mpr (part accepted left pre)
  · exact (wp_of_waiting run).mpr (waits accepted left pre)

theorem wp_recv {fd : Side} {post : Post World RecvOutcome} (waits : post.waits w)
    (got : ∀ outcome left, (w.peer fd).recvs = outcome :: left →
      post.returns outcome (w.got fd outcome.bytes left)) : wp (recv fd) post w := by
  unfold recv
  refine (wp_bind _ _ _ _).mpr ?_
  rw [wp_get]
  dsimp only
  cases answers : (w.peer fd).recvs with
  | nil => exact waits
  | cons outcome left => exact got outcome left answers

theorem wp_connect {network : Network} {host : Bytes} {port : Int32} {post : Post World Bool}
    (ends : ∀ ok dialled, post.returns ok { w with dialled := dialled }) :
    wp (TcpSocket.connect network host port) post w := by
  cases resolved : network.gethostbyname (c_str host) with
  | none => exact (wp_of_ok (connect_unresolved resolved port w)).mpr (ends false w.dialled)
  | some address => exact (wp_of_ok (connect_resolved resolved port w)).mpr (ends _ _)

end calls

/-- The state in which the origin is connected and has been asked. -/
theorem contactOrigin_run {env : Environment} {request : Request} {w : World}
    (h : Contacted env request w.server.sends) : ∃ port address left,
      stoi request.get_port = .ok port ∧
      env.network.gethostbyname (c_str request.hostname) = some address ∧
      (contactOrigin env request).run w =
        .ok true (World.sent { w with dialled := w.dialled ++ [(address, htons port)] }
          .server .peer request.request left) := by
  obtain ⟨hostname, ⟨fd, hfd, nonzero⟩, ⟨port, address, hport, haddress, hconnect⟩, left, all⟩ := h
  refine ⟨port, address, left, hport, haddress, ?_⟩
  let w₁ : World := { w with dialled := w.dialled ++ [(address, htons port)] }
  unfold contactOrigin
  rw [if_neg hostname, bind_of_ok (run_ofExcept_ok hfd w), if_neg nonzero,
    bind_of_ok (run_ofExcept_ok hport w)]
  have connect := connect_resolved haddress port w
  rw [hconnect] at connect
  have taken : SentAll (w₁.peer .server).sends request.request left := all
  rw [bind_of_ok connect, if_neg (by decide), bind_of_ok (sendAll_of_sent taken .peer),
    if_neg (by decide)]
  rfl

theorem contactOrigin_of_contacted {env : Environment} {request : Request} {w : World}
    (h : Contacted env request w.server.sends) :
    ∃ w', (contactOrigin env request).run w = .ok true w' ∧ Asked w w' := by
  obtain ⟨port, address, left, -, -, run⟩ := contactOrigin_run h
  exact ⟨_, run, ⟨rfl, rfl⟩, rfl, rfl⟩

/-- Without contact nothing is relayed: the client gets one error response or nothing. -/
theorem contactOrigin_ends {env : Environment} {request : Request} {w : World}
    (h : ¬ Contacted env request w.server.sends) :
    ∃ w', (∃ e, (contactOrigin env request).run w = .error e w' ∧ Silent w w') ∨
      ∃ status_code message, Answers w w' (error_response status_code message) ∧
        ((contactOrigin env request).run w = .ok false w' ∨
          (contactOrigin env request).run w = .error .waiting w') := by
  unfold contactOrigin
  by_cases hostname : request.hostname = []
  · rw [if_pos hostname]
    obtain ⟨w', answers, run⟩ := refuse_ends 400 (bytes "Bad Request") w
    exact ⟨w', Or.inr ⟨_, _, answers, run⟩⟩
  rw [if_neg hostname]
  cases hfd : env.network.socket with
  | error e =>
    exact ⟨w, Or.inl ⟨_, bind_of_error (run_ofExcept_error rfl w) _, .refl w⟩⟩
  | ok fd =>
    rw [bind_of_ok (run_ofExcept_ok rfl w)]
    by_cases nonzero : fd = 0
    · rw [if_pos nonzero]
      obtain ⟨w', answers, run⟩ := refuse_ends 500 (bytes "Internal Server Error") w
      exact ⟨w', Or.inr ⟨_, _, answers, run⟩⟩
    rw [if_neg nonzero]
    cases hport : stoi request.get_port with
    | error e =>
      exact ⟨w, Or.inl ⟨_, bind_of_error (run_ofExcept_error rfl w) _, .refl w⟩⟩
    | ok port =>
      rw [bind_of_ok (run_ofExcept_ok rfl w)]
      obtain ⟨ok, w₁, connect, silent, sends, reason⟩ := connect_ends env.network request.hostname port w
      rw [bind_of_ok connect]
      cases ok with
      | false =>
        rw [if_pos (by decide)]
        obtain ⟨w', answers, run⟩ := refuse_ends 502 (bytes "Bad Gateway") w₁
        exact ⟨w', Or.inr ⟨_, _, answers.after_silent silent, run⟩⟩
      | true =>
        rw [if_neg (by decide)]
        obtain ⟨address, haddress, hconnect⟩ := reason rfl
        rcases sendAll_ends .server .peer request.request w₁ with
          ⟨left, all⟩ | ⟨-, accepted, left, pre, run | run⟩
        · refine absurd ⟨hostname, ⟨fd, hfd, nonzero⟩, ⟨port, address, hport, haddress, hconnect⟩,
            left, ?_⟩ h
          rwa [← sends]
        · rw [bind_of_ok run, if_pos (by decide)]
          have asking : Silent w₁ (w₁.sent .server .peer accepted left) := ⟨rfl, rfl⟩
          obtain ⟨w', answers, run⟩ := refuse_ends 502 (bytes "Bad Gateway")
            (w₁.sent .server .peer accepted left)
          exact ⟨w', Or.inr ⟨_, _, answers.after_silent (silent.trans asking), run⟩⟩
        · have asking : Silent w₁ (w₁.sent .server .peer accepted left) := ⟨rfl, rfl⟩
          exact ⟨_, Or.inl ⟨_, bind_of_error run _, silent.trans asking⟩⟩

/-! ## The header loop -/

theorem run_recvd (outcome : RecvOutcome) (left : List RecvOutcome) (w : World) :
    (recvd .server outcome left).run w = .ok () (w.got .server outcome.bytes left) := rfl

theorem headerLoop_of_read {s added : Bytes} {recvs left : List RecvOutcome}
    (h : HeaderRead s recvs added left) (w : World) :
    (headerLoop s recvs).run w = .ok (s ++ added) (w.got .server added left) := by
  induction h generalizing w with
  | @ended s outcome left no_data =>
    unfold headerLoop
    rw [bind_of_ok (run_recvd outcome left w), no_data, List.append_nil]
    cases outcome with
    | data segment => exact absurd no_data segment.some_bytes
    | closed => rfl
    | failed errno => rfl
  | @whole s segment left found =>
    unfold headerLoop
    rw [bind_of_ok (run_recvd _ left w)]
    dsimp only
    rw [if_pos found]
    rfl
  | @more s segment rest added left missing later ih =>
    unfold headerLoop
    rw [bind_of_ok (run_recvd _ rest w)]
    dsimp only
    rw [if_neg (by simp [missing]), ih, got_got, List.append_assoc]
    rfl

/-- The header loop waits only while nothing ends it. -/
theorem headerLoop_ends (s : Bytes) (recvs : List RecvOutcome) (w : World) :
    (∃ added left, HeaderRead s recvs added left) ∨
      (∀ added left, ¬ HeaderRead s recvs added left) ∧ ∃ w' received,
        (headerLoop s recvs).run w = .error .waiting w' ∧ Silent w w' ∧
        w'.server.received = w.server.received ++ received := by
  induction recvs generalizing s w with
  | nil =>
    right
    refine ⟨?_, w, [], rfl, .refl w, by simp⟩
    intro added left h
    cases h
  | cons outcome rest ih =>
    cases outcome with
    | closed => exact Or.inl ⟨[], rest, .ended rfl⟩
    | failed errno => exact Or.inl ⟨[], rest, .ended rfl⟩
    | data segment =>
      cases found : find CRLFCRLF (s ++ segment.data) with
      | some pos => exact Or.inl ⟨segment.data, rest, .whole (by simp [found])⟩
      | none =>
        rcases ih (s ++ segment.data) (w.got .server segment.data rest) with
          ⟨added, left, later⟩ | ⟨never, w', received, run, silent, grown⟩
        · exact Or.inl ⟨_, left, .more found later⟩
        · right
          refine ⟨?_, w', segment.data ++ received, ?_,
            (silent_got w segment.data rest).trans silent, ?_⟩
          · intro added left h
            cases h with
            | ended no_data => exact segment.some_bytes no_data
            | whole found' => simp [found] at found'
            | more missing later => exact never _ left later
          · unfold headerLoop
            rw [bind_of_ok (run_recvd _ rest w)]
            dsimp only
            rw [if_neg (by simp [found])]
            exact run
          · rw [grown, ← List.append_assoc]
            rfl

theorem HeaderRead.deterministic {s a a' : Bytes} {recvs l l' : List RecvOutcome}
    (h : HeaderRead s recvs a l) (h' : HeaderRead s recvs a' l') : a = a' ∧ l = l' := by
  have w : World := ⟨⟨[], [], [], []⟩, ⟨[], [], [], []⟩, [], [], []⟩
  have same := (headerLoop_of_read h w).symm.trans (headerLoop_of_read h' w)
  simp only [EStateM.Result.ok.injEq, List.append_cancel_left_eq] at same
  refine ⟨same.1, ?_⟩
  have := congrArg (fun w => w.server.recvs) same.2
  exact this

/-! ## The body loop -/

/-- A recv without data ends the body loop. -/
theorem bodyLoop_ended {outcome : RecvOutcome} (no_data : outcome.bytes = []) (f : Framing)
    (is_cacheable : Bool) (buffer : Bytes) (n : Nat) (rest : List RecvOutcome) (w : World) :
    (bodyLoop f is_cacheable buffer n (outcome :: rest)).run w =
      .ok (some buffer) (w.got .server [] rest) := by
  unfold bodyLoop
  rw [bind_of_ok (run_recvd outcome rest w)]
  cases outcome with
  | closed => rfl
  | failed errno => rfl
  | data segment => exact absurd no_data segment.some_bytes

/-- One turn of the body loop: the segment goes through and the test decides, or it does not. -/
theorem bodyLoop_data (f : Framing) (is_cacheable : Bool) (buffer : Bytes) (n : Nat)
    (segment : Segment) (rest : List RecvOutcome) (w : World) :
    (∃ left, SentAll w.client.sends segment.data left ∧
      (bodyLoop f is_cacheable buffer n (.data segment :: rest)).run w =
        if f.complete (n + segment.data.length) segment.data then
          .ok (some (if is_cacheable then buffer ++ segment.data else buffer))
            ((w.got .server segment.data rest).sent .client .peer segment.data left)
        else (bodyLoop f is_cacheable (if is_cacheable then buffer ++ segment.data else buffer)
            (n + segment.data.length) rest).run
          ((w.got .server segment.data rest).sent .client .peer segment.data left)) ∨
    (∀ left, ¬ SentAll w.client.sends segment.data left) ∧ ∃ accepted left,
      accepted <+: segment.data ∧
      ((bodyLoop f is_cacheable buffer n (.data segment :: rest)).run w =
          .ok none ((w.got .server segment.data rest).sent .client .peer accepted left) ∨
        (bodyLoop f is_cacheable buffer n (.data segment :: rest)).run w =
          .error .waiting ((w.got .server segment.data rest).sent .client .peer accepted left)) := by
  rw [bodyLoop, bind_of_ok (run_recvd _ rest w)]
  dsimp only [RecvOutcome.bytes]
  rcases sendAll_ends .client .peer segment.data (w.got .server segment.data rest) with
    ⟨left, all⟩ | ⟨never, accepted, left, pre, run⟩
  · refine Or.inl ⟨left, all, ?_⟩
    rw [bind_of_ok (sendAll_of_sent all .peer), if_neg (by decide)]
    cases f.complete (n + segment.data.length) segment.data <;> rfl
  · refine Or.inr ⟨never, accepted, left, pre, ?_⟩
    rcases run with run | run
    · left
      rw [bind_of_ok run]
      rfl
    · exact Or.inr (bind_of_error run _)

theorem bodyLoop_ends (f : Framing) (is_cacheable : Bool) (buffer : Bytes) (n : Nat)
    (recvs : List RecvOutcome) (w : World) :
    (∃ segments left w', BodyRead f n recvs segments left ∧
      (bodyLoop f is_cacheable buffer n recvs).run w =
        .ok (some (if is_cacheable then buffer ++ flat segments else buffer)) w' ∧
      Relays w w' (flat segments) (flat segments)) ∨
    ∃ w' delivered received, delivered <+: received ∧ Relays w w' delivered received ∧
      ((bodyLoop f is_cacheable buffer n recvs).run w = .ok none w' ∨
        (bodyLoop f is_cacheable buffer n recvs).run w = .error .waiting w') := by
  induction recvs generalizing buffer n w with
  | nil =>
    right
    exact ⟨w, [], [], List.prefix_refl _, ⟨rfl, by simp, [], by simp, rfl⟩, Or.inr rfl⟩
  | cons outcome rest ih =>
    have ended (no_data : outcome.bytes = []) : ∃ segments left w',
        BodyRead f n (outcome :: rest) segments left ∧
        (bodyLoop f is_cacheable buffer n (outcome :: rest)).run w =
          .ok (some (if is_cacheable then buffer ++ flat segments else buffer)) w' ∧
        Relays w w' (flat segments) (flat segments) := by
      refine ⟨[], rest, _, .ended no_data, ?_, relays_end w rest⟩
      rw [bodyLoop_ended no_data]
      simp
    cases outcome with
    | closed => exact Or.inl (ended rfl)
    | failed errno => exact Or.inl (ended rfl)
    | data segment =>
      rcases bodyLoop_data f is_cacheable buffer n segment rest w with
        ⟨left, all, turn⟩ | ⟨-, accepted, left, pre, run⟩
      · have arrived : Relays w ((w.got .server segment.data rest).sent .client .peer segment.data
            left) segment.data segment.data := relays_sent segment.data left rest
        rw [turn]
        cases stop : f.complete (n + segment.data.length) segment.data with
        | true =>
          left
          refine ⟨[segment], rest, _, .whole stop, ?_, by simpa using arrived⟩
          rw [if_pos rfl]
          simp
        | false =>
          rw [if_neg (by decide)]
          rcases ih (if is_cacheable then buffer ++ segment.data else buffer)
              (n + segment.data.length)
              ((w.got .server segment.data rest).sent .client .peer segment.data left) with
            ⟨segments, left', w', later, run, relays⟩ | ⟨w', delivered, received, pre, relays, run⟩
          · left
            refine ⟨segment :: segments, left', w', .more stop later, ?_, ?_⟩
            · rw [run]
              cases is_cacheable <;> simp
            · simpa using arrived.trans relays
          · right
            refine ⟨w', segment.data ++ delivered, segment.data ++ received, ?_,
              arrived.trans relays, run⟩
            exact (List.prefix_append_right_inj _).mpr pre
      · right
        exact ⟨_, accepted, segment.data, pre, relays_sent accepted left rest, run⟩

/-! ## forwardRequest -/

/-- What a run puts into the cache after it relayed the header bytes `h` and then all of `body`. -/
def stored (env : Environment) (request : Request) (h body : Bytes) : List (Bytes × CacheEntry) :=
  if is_cacheable request h then
    match Response.parse env.calendar env.time_now h with
    | .error _ => []
    | .ok response =>
      if response.is_no_store_ then []
      else [(request.url, new_entry env response (response_line h) body)]
  else []

/-- The header bytes `h` were read and relayed, up to the answers `left` and `sends`. -/
structure Opened (env : Environment) (request : Request) (w : World) (h : Bytes)
    (left : List RecvOutcome) (sends : List SendOutcome) : Prop where
  contacted : Contacted env request w.server.sends
  read : HeaderRead [] w.server.recvs h left
  answered : h ≠ []
  sent : SentAll w.client.sends h sends

/-- The ends of a run in which the origin has answered. -/
inductive Relayed (env : Environment) (request : Request) (w : World) :
    EStateM.Result Stop World Bool → Prop where
  | broken {delivered received : Bytes} {w' : World} {r : EStateM.Result Stop World Bool}
      (pre : delivered <+: received) (relays : Relays w w' delivered received)
      (ends : r = .ok false w' ∨ r = .error .waiting w') : Relayed env request w r
  | rejected {h text : Bytes} {left : List RecvOutcome} {sends : List SendOutcome} {e : Exception}
      {w' : World} (opened : Opened env request w h left sends)
      (declared : content_length_text h = some text) (number : stoi text = .error e)
      (relays : Relays w w' h h) (next : w'.client.sends = sends) :
      Relayed env request w (.error (.threw e) w')
  | finished {h : Bytes} {left left' : List RecvOutcome} {sends : List SendOutcome} {f : Framing}
      {segments : List Segment} {w₁ : World} (opened : Opened env request w h left sends)
      (framing : scan_framing h = .ok f)
      (body : BodyRead f (initial_body h).length left segments left')
      (relays : Relays w w₁ (h ++ flat segments) (h ++ flat segments)) :
      Relayed env request w (.ok true
        { w₁ with puts := w₁.puts ++ stored env request h (initial_body h ++ flat segments) })

/-- The ends of forwardRequest. -/
inductive Exit (env : Environment) (request : Request) (w : World) :
    EStateM.Result Stop World Bool → Prop where
  | silent {e : Stop} {w' : World} (nothing : Silent w w') : Exit env request w (.error e w')
  | answered {status_code : Nat} {message : Bytes} {w' : World}
      {r : EStateM.Result Stop World Bool}
      (answers : Answers w w' (error_response status_code message))
      (ends : r = .ok false w' ∨ r = .error .waiting w') : Exit env request w r
  | relayed {r : EStateM.Result Stop World Bool} (ends : Relayed env request w r) :
      Exit env request w r

theorem scan_framing_error {h : Bytes} {e : Exception} (err : scan_framing h = .error e) :
    ∃ text, content_length_text h = some text ∧ stoi text = .error e := by
  unfold scan_framing scan_content_length at err
  cases ht : content_length_text h with
  | none =>
    rw [ht] at err
    cases err
  | some text =>
    rw [ht] at err
    dsimp only at err
    refine ⟨text, rfl, ?_⟩
    cases hn : stoi text with
    | error e' =>
      rw [hn] at err
      cases err
      rfl
    | ok n =>
      rw [hn] at err
      cases err

theorem scan_framing_of_text {h text : Bytes} {e : Exception}
    (declared : content_length_text h = some text) (number : stoi text = .error e) :
    scan_framing h = .error e := by
  unfold scan_framing scan_content_length
  rw [declared]
  dsimp only
  rw [number]
  rfl

theorem store_run (env : Environment) (request : Request) (h body : Bytes) (w : World) :
    (do
      if is_cacheable request h then store env request h (response_line h) body
      return true : Handling Bool).run w =
      .ok true { w with puts := w.puts ++ stored env request h body } := by
  unfold stored
  cases is_cacheable request h with
  | false => simp
  | true =>
    simp only [if_true]
    unfold store
    cases Response.parse env.calendar env.time_now h with
    | error e => simp
    | ok response =>
      dsimp only
      cases response.is_no_store_ with
      | true => simp
      | false => rfl

theorem relays_after_asked {a b c : World} {d r : Bytes} (asked : Asked a b)
    (relays : Relays b c d r) : Relays a c d r := by
  obtain ⟨puts, received, pieces, client, hd⟩ := relays
  exact ⟨puts.trans asked.puts, asked.received ▸ received, pieces, asked.client ▸ client, hd⟩

/-- The state after the header bytes were relayed. -/
theorem opened_run {env : Environment} {request : Request} {w : World} {h : Bytes}
    {left : List RecvOutcome} {sends : List SendOutcome}
    (opened : Opened env request w h left sends) :
    ∃ w', Relays w w' h h ∧ w'.client.sends = sends ∧ w'.server.recvs = left ∧
      (forwardRequest env request).run w = (relayBody env request h).run w' := by
  obtain ⟨w₁, contact, asked⟩ := contactOrigin_of_contacted opened.contacted
  have read : HeaderRead [] w₁.server.recvs h left := asked.recvs ▸ opened.read
  let w₂ := w₁.got .server h left
  have sent : SentAll (w₂.peer .client).sends h sends := by
    change SentAll w₁.client.sends h sends
    rw [asked.client]
    exact opened.sent
  refine ⟨w₂.sent .client .peer h sends, ?_, rfl, rfl, ?_⟩
  · exact relays_after_asked asked (relays_sent h sends left)
  · unfold forwardRequest
    rw [bind_of_ok contact, if_neg (by decide), bind_of_ok (run_get w₁),
      bind_of_ok (headerLoop_of_read read w₁)]
    rw [List.nil_append, if_neg (by simpa using opened.answered),
      bind_of_ok (sendAll_of_sent (w := w₂) sent .peer), if_neg (by decide)]

/-- The ends of a run that relayed the header bytes. -/
theorem opened_relayed {env : Environment} {request : Request} {w : World} {h : Bytes}
    {left : List RecvOutcome} {sends : List SendOutcome}
    (opened : Opened env request w h left sends) :
    Relayed env request w ((forwardRequest env request).run w) := by
  obtain ⟨w₁, relays, next, recvs, run⟩ := opened_run opened
  rw [run]
  unfold relayBody
  cases hf : scan_framing h with
  | error e =>
    obtain ⟨text, declared, number⟩ := scan_framing_error hf
    rw [bind_of_error (run_ofExcept_error rfl w₁)]
    exact .rejected opened declared number relays next
  | ok f =>
    rw [bind_of_ok (run_ofExcept_ok rfl w₁), bind_of_ok (run_get w₁), recvs]
    rcases bodyLoop_ends f (is_cacheable request h)
        (if is_cacheable request h then initial_body h else []) (initial_body h).length left w₁ with
      ⟨segments, left', w₂, body, loop, more⟩ | ⟨w₂, delivered, received, pre, more, loop⟩
    · rw [bind_of_ok loop]
      dsimp only
      have all := relays.trans more
      have last := store_run env request h (initial_body h ++ flat segments) w₂
      have exit := Relayed.finished opened hf body all
      rw [← last] at exit
      cases hc : is_cacheable request h with
      | true => simpa only [hc, if_true] using exit
      | false => simpa only [hc, Bool.false_eq_true, if_false] using exit
    · have all := relays.trans more
      refine .broken ((List.prefix_append_right_inj h).mpr pre) all ?_
      rcases loop with loop | loop
      · left
        rw [bind_of_ok loop]
        rfl
      · exact Or.inr (bind_of_error loop _)

/-- The ends of a run in which the header loop reads something. -/
theorem heard_relayed {env : Environment} {request : Request} {w : World} {h : Bytes}
    {left : List RecvOutcome} (contacted : Contacted env request w.server.sends)
    (read : HeaderRead [] w.server.recvs h left) (answered : h ≠ []) :
    Relayed env request w ((forwardRequest env request).run w) := by
  obtain ⟨w₁, contact, asked⟩ := contactOrigin_of_contacted contacted
  rcases sendAll_ends .client .peer h (w₁.got .server h left) with
    ⟨sends, all⟩ | ⟨-, accepted, sends, pre, run⟩
  · have taken : SentAll w₁.client.sends h sends := all
    exact opened_relayed ⟨contacted, read, answered, asked.client ▸ taken⟩
  · have relays : Relays w ((w₁.got .server h left).sent .client .peer accepted sends)
        accepted h := relays_after_asked asked (relays_sent accepted sends left)
    refine .broken pre relays ?_
    have read' : HeaderRead [] w₁.server.recvs h left := asked.recvs ▸ read
    unfold forwardRequest
    rw [bind_of_ok contact, if_neg (by decide), bind_of_ok (run_get w₁),
      bind_of_ok (headerLoop_of_read read' w₁)]
    rw [List.nil_append, if_neg (by simpa using answered)]
    rcases run with run | run
    · left
      rw [bind_of_ok run]
      rfl
    · exact Or.inr (bind_of_error run _)

/-- forwardRequest has no other ends than those of Exit. -/
theorem forwardRequest_exit (env : Environment) (request : Request) (w : World) :
    Exit env request w ((forwardRequest env request).run w) := by
  by_cases contacted : Contacted env request w.server.sends
  · obtain ⟨w₁, contact, asked⟩ := contactOrigin_of_contacted contacted
    rcases headerLoop_ends [] w₁.server.recvs w₁ with
      ⟨h, left, read⟩ | ⟨-, w', -, run, silent, -⟩
    · by_cases answered : h = []
      · subst answered
        obtain ⟨w', answers, run⟩ := refuse_ends 502 (bytes "Bad Gateway") (w₁.got .server [] left)
        have silent := asked.toSilent.trans (silent_got w₁ [] left)
        refine .answered (answers.after_silent silent) ?_
        unfold forwardRequest
        rw [bind_of_ok contact, if_neg (by decide), bind_of_ok (run_get w₁),
          bind_of_ok (headerLoop_of_read read w₁)]
        exact run
      · exact .relayed (heard_relayed contacted (asked.recvs ▸ read) answered)
    · have waits : (forwardRequest env request).run w = .error .waiting w' := by
        unfold forwardRequest
        rw [bind_of_ok contact, if_neg (by decide), bind_of_ok (run_get w₁)]
        exact bind_of_error run _
      rw [waits]
      exact .silent (asked.toSilent.trans silent)
  · obtain ⟨w', ⟨e, run, silent⟩ | ⟨_, _, answers, run | run⟩⟩ := contactOrigin_ends contacted
    · unfold forwardRequest
      rw [bind_of_error run]
      exact .silent silent
    · unfold forwardRequest
      rw [bind_of_ok run, if_pos (by decide)]
      exact .answered answers (Or.inl rfl)
    · unfold forwardRequest
      rw [bind_of_error run]
      exact .answered answers (Or.inr rfl)

end CachingProxy
