import CachingProxy.Story

/-! The log of a connection tells its story. Function by function the handler keeps to the
automaton, and at most one response is logged. -/
namespace CachingProxy.Logging
open Cpp Action

/-! ## The origin -/

/-- After contactOrigin. -/
def contacted (job : Job) : Bool → Traced World Record → Prop
  | true, s => Stand job .requested s
  | false, s => ∃ tale, Stand job (.failing tale) s

section forwarding

variable {job : Job} {s : Traced World Record}

/-- Where nothing has been sent, an exception is answered with the error 500. -/
theorem raised_untold {stage : Stage} (stand : Stand job stage s) (untold : Untold s.state)
    (moves : ∀ what, next stage (.exception what) = some .error) : Raised job s :=
  ⟨stage, .refused _ _, stand, untold, Or.inl rfl, moves⟩

theorem stand_contactOrigin (env : Environment) (request : Request) {stage : Stage}
    (stand : Stand job stage s) (alone : Alone s.state)
    (begins : ∀ r stage', forward r = some stage' → next stage r = some stage') :
    wp (contactOrigin env request) (stood job (contacted job)) s := by
  unfold contactOrigin
  apply wp_ite
  · exact fun _ => stand_refuse stand (begins _ _ rfl) alone.untold (fun s tale h => ⟨tale, h⟩)
  intro _
  apply wp_ofExcept_bind ?_ (fun _ _ => raised_untold stand alone.untold (fun _ => begins _ _ rfl))
  intro server_fd _
  apply wp_ite
  · exact fun _ => stand_refuse stand (begins _ _ rfl) alone.untold (fun s tale h => ⟨tale, h⟩)
  intro _
  apply wp_emit_bind
  have requested := stand.emit (r := .requesting request.line request.hostname)
    (begins _ _ rfl) (show Tells job .requested s.state from ⟨alone.untold, alone.received⟩)
  apply wp_ofExcept_bind ?_ (fun _ _ => raised_untold requested alone.untold (fun _ => rfl))
  intro port _
  apply wp_within_bind (wp_connect ?_)
  intro ok dialled
  have untold : Untold { s.state with dialled := dialled } := ⟨alone.client, alone.puts⟩
  have asking := requested.within (w := { s.state with dialled := dialled })
    ⟨untold, alone.received⟩
  apply wp_ite
  · exact fun _ => stand_refuse asking rfl untold (fun s tale h => ⟨tale, h⟩)
  intro _
  have sent (accepted : Bytes) (left : List SendOutcome) := asking.within
    (w := World.sent { s.state with dialled := dialled } .server .peer accepted left)
    ⟨⟨alone.client, alone.puts⟩, alone.received⟩
  apply wp_sendAll_bind
  · exact fun left => sent request.request left
  · exact fun accepted left _ => stand_refuse (sent accepted left) rfl ⟨alone.client, alone.puts⟩
      (fun s tale h => ⟨tale, h⟩)
  · exact fun accepted left _ => (sent accepted left).somewhere

/-- After the header loop: the bytes that it returns are all that the origin has sent. -/
structure Heard (job : Job) (response_str : Bytes) (s : Traced World Record) : Prop where
  untold : Untold s.state
  received : s.state.server.received = response_str
  stand : Stand job .listening s ∧ response_str ≠ [] ∨ Stand job .unheard s

theorem stand_headerLoop (o : Observer) (response_str : Bytes) (recvs : List RecvOutcome)
    (stand : Stand job .listening s) (received : s.state.server.received = response_str) :
    wp (headerLoop o response_str recvs) (stood job (Heard job)) s := by
  induction recvs generalizing response_str s with
  | nil => exact stand.somewhere
  | cons outcome left ih =>
    have untold : Untold s.state := stand.tells
    unfold headerLoop
    apply wp_recvd_bind
    have read := stand.within (w := s.state.got .server outcome.bytes left)
      ⟨untold.client, untold.puts⟩
    have all : (s.state.got .server outcome.bytes left).server.received =
        response_str ++ outcome.bytes := by
      rw [← received]
      rfl
    cases outcome with
    | data segment =>
      apply wp_ite
      · intro _
        refine ⟨read.tells, all, Or.inl ⟨read, ?_⟩⟩
        exact List.append_ne_nil_of_right_ne_nil _ segment.some_bytes
      · exact fun _ => ih _ read all
    | failed errno =>
      apply wp_emit_bind
      exact ⟨read.tells, all.trans (List.append_nil _), Or.inr (read.emit rfl read.tells)⟩
    | closed =>
      apply wp_emit_bind
      exact ⟨read.tells, all.trans (List.append_nil _), Or.inr (read.emit rfl read.tells)⟩

/-! ## The response -/

/-- All that the origin has sent is passed on, and of the cache nothing is said yet. -/
structure Passed (job : Job) (line : Bytes) (s : Traced World Record) : Prop where
  stand : Stand job (.relaying line) s
  even : s.state.client.bytes = s.state.server.received

theorem Passed.first {line : Bytes} (h : Passed job line s) : line <+: s.state.client.bytes := by
  rw [h.even]
  exact h.stand.tells.2

/-- The last record is to be logged. -/
def Closing (job : Job) (line : Bytes) (s : Traced World Record) : Prop :=
  ∃ stage kept, Stand job stage s ∧
    next stage (.responding line) = some (.complete (.relayed line kept)) ∧
    (Tale.relayed line kept).Holds job s.state

theorem Passed.closing {line : Bytes} (h : Passed job line s)
    (kept : Kept.unsaid.Holds job s.state.server.received s.state.puts) : Closing job line s :=
  ⟨_, .unsaid, h.stand, expecting_self _ _, h.even, h.first, kept⟩

/-- What became of the entry is logged. -/
theorem Passed.stored {line : Bytes} {kept : Kept} {r : Record} (h : Passed job line s)
    (moves : next (.relaying line) r = some (.stored line kept))
    (holds : kept.Holds job s.state.server.received s.state.puts) :
    Closing job line { s with trace := s.trace ++ [r] } := by
  have told : (Tale.relayed line kept).Holds job s.state := ⟨h.even, h.first, holds⟩
  exact ⟨_, kept, h.stand.emit moves told, expecting_self _ _, told⟩

/-- The buffer of a response that may be stored is the part behind the header block. -/
def Buffered (is_cacheable : Bool) (h response_buffer : Bytes) (w : World) : Prop :=
  is_cacheable = true →
    ∃ rest, w.server.received = h ++ rest ∧ response_buffer = initial_body h ++ rest

theorem Buffered.got {is_cacheable : Bool} {h response_buffer data : Bytes} {w w' : World}
    (buffered : Buffered is_cacheable h response_buffer w)
    (received : w'.server.received = w.server.received ++ data) :
    Buffered is_cacheable h (if is_cacheable then response_buffer ++ data else response_buffer)
      w' := by
  intro cacheable
  obtain ⟨rest, all, body⟩ := buffered cacheable
  refine ⟨rest ++ data, ?_, ?_⟩
  · rw [received, all, List.append_assoc]
  · rw [if_pos cacheable, body, List.append_assoc]

/-- After bodyLoop. -/
def broken_or_passed (job : Job) (line : Bytes) (is_cacheable : Bool) (h : Bytes) :
    Option Bytes → Traced World Record → Prop
  | none, s => Stand job (.failing (.broken line)) s
  | some response_buffer, s =>
    Passed job line s ∧ s.state.puts = [] ∧ Buffered is_cacheable h response_buffer s.state

theorem stand_bodyLoop (f : Framing) (is_cacheable : Bool) (response_buffer : Bytes)
    (body_received : Nat) (recvs : List RecvOutcome) {line h : Bytes} (passed : Passed job line s)
    (puts : s.state.puts = []) (buffered : Buffered is_cacheable h response_buffer s.state) :
    wp (bodyLoop f is_cacheable response_buffer body_received recvs)
      (stood job (broken_or_passed job line is_cacheable h)) s := by
  induction recvs generalizing response_buffer body_received s with
  | nil => exact passed.stand.somewhere
  | cons outcome left ih =>
    unfold bodyLoop
    apply wp_recvd_bind
    have first : line <+: s.state.server.received ++ outcome.bytes :=
      passed.stand.tells.2.trans (List.prefix_append _ _)
    have sent (accepted : Bytes) (left' : List SendOutcome) (pre : accepted <+: outcome.bytes) :
        Tells job (.relaying line)
          ((s.state.got .server outcome.bytes left).sent .client .peer accepted left') := by
      refine ⟨?_, first⟩
      rw [bytes_sent, bytes_got, passed.even]
      exact (List.prefix_append_right_inj _).mpr pre
    cases outcome with
    | data segment =>
      apply wp_sendAll_bind
      · intro left'
        have passed' : Passed job line { s with
            state := (s.state.got .server segment.data left).sent .client .peer segment.data left' } := by
          refine ⟨passed.stand.within (sent _ left' (List.prefix_refl _)), ?_⟩
          rw [bytes_sent, bytes_got, passed.even]
          rfl
        have buffered' : Buffered is_cacheable h
            (if is_cacheable then response_buffer ++ segment.data else response_buffer)
            ((s.state.got .server segment.data left).sent .client .peer segment.data left') :=
          buffered.got rfl
        apply wp_ite
        · exact fun _ => ⟨passed', puts, buffered'⟩
        · exact fun _ => ih _ _ passed' puts buffered'
      · intro accepted left' pre
        apply wp_emit_bind
        obtain ⟨part, begun⟩ := sent accepted left' pre
        exact (passed.stand.within ⟨part, begun⟩).emit rfl ⟨part, begun, puts⟩
      · exact fun accepted left' pre => (passed.stand.within (sent accepted left' pre)).somewhere
    | failed errno | closed =>
      have nothing : s.state.server.received ++ [] = s.state.server.received := List.append_nil _
      refine ⟨⟨passed.stand.within ⟨?_, first⟩, ?_⟩, puts, ?_⟩
      · rw [bytes_got, passed.even]
        exact List.prefix_append _ _
      · rw [bytes_got, passed.even]
        exact nothing.symm
      · intro cacheable
        obtain ⟨rest, all, body⟩ := buffered cacheable
        exact ⟨rest, nothing.trans all, body⟩

/-- The records about an entry that is in the cache now. -/
theorem stand_logEntry (o : Observer) (response : Response) {line : Bytes}
    (passed : Passed job line s)
    (put : StoredAs job s.state.server.received response.need_validate_ s.state.puts) :
    wp (logEntry o response) ⟨fun _ => Closing job line, fun _ s => Passed job line s ∧
      Kept.failed.Holds job s.state.server.received s.state.puts, fun _ => False⟩ s := by
  unfold logEntry
  apply wp_ite
  · intro validate
    have validated : StoredAs job s.state.server.received true s.state.puts := validate ▸ put
    exact passed.stored rfl validated
  intro validate
  have unvalidated : StoredAs job s.state.server.received false s.state.puts :=
    Bool.eq_false_of_not_eq_true validate ▸ put
  apply wp_ite
  · intro _
    apply wp_ofExcept_bind
    · exact fun text _ => passed.stored rfl unvalidated
    · exact fun _ _ => ⟨passed, Or.inr unvalidated⟩
  · exact fun _ => passed.closing (Or.inr unvalidated)

theorem stand_store (o : Observer) {request : Request} (named : job.get_request = some request)
    {response_str rest line : Bytes} (passed : Passed job line s) (puts : s.state.puts = [])
    (received : s.state.server.received = response_str ++ rest) :
    wp (store job.env o request response_str (response_line response_str)
        (initial_body response_str ++ rest))
      ⟨fun _ => Closing job line, fun _ _ => False, fun _ => False⟩ s := by
  unfold store
  refine (wp_catching _ _ _ _).mpr ?_
  apply wp_ofExcept_bind
  · intro response parsed
    unfold storeResponse
    apply wp_ite
    · exact fun _ => passed.stored rfl puts
    intro _
    let entry := new_entry job.env response (response_line response_str)
      (initial_body response_str ++ rest)
    have passed' : Passed job line { s with
        state := { s.state with puts := s.state.puts ++ [(request.url, entry)] } } :=
      ⟨passed.stand.within passed.stand.tells, passed.even⟩
    have put : StoredAs job s.state.server.received response.need_validate_
        (s.state.puts ++ [(request.url, entry)]) := by
      refine ⟨request, entry, named, by rw [puts]; rfl, ?_, rfl⟩
      rw [received]
      exact madeOf_new_entry parsed rest
    have logged := stand_logEntry o response passed' put
    apply wp_modify_bind
    exact wp_mono logged (fun _ _ h => h) (fun _ _ h => h.1.stored rfl h.2) (fun _ h => h.elim)
  · exact fun _ _ => passed.stored rfl (Or.inl puts)

theorem Closing.end {line : Bytes} (h : Closing job line s) :
    wp (do emit (.responding line); return true : Logging Bool) (handled job) s := by
  obtain ⟨stage, kept, stand, moves, holds⟩ := h
  exact ⟨.relayed line kept, stand.emit moves holds⟩

theorem get_of_method {request : Request} (named : job.request = some request)
    (get : request.method = bytes "GET") : job.get_request = some request := by
  simp [Job.get_request, named, get]

theorem request_of_get {request : Request} (named : job.get_request = some request) :
    job.request = some request := (Option.filter_eq_some_iff.mp named).1

theorem get_of_cacheable {request : Request} {response_str : Bytes}
    (named : job.request = some request) (cacheable : is_cacheable request response_str = true) :
    job.get_request = some request := by
  simp only [is_cacheable, Bool.and_eq_true, decide_eq_true_eq] at cacheable
  exact get_of_method named cacheable.1

theorem stand_relayBody (o : Observer) {request : Request} (named : job.request = some request)
    (response_str : Bytes) (passed : Passed job (response_line response_str) s)
    (puts : s.state.puts = []) (received : s.state.server.received = response_str) :
    wp (relayBody job.env o request response_str) (handled job) s := by
  unfold relayBody
  apply wp_ofExcept_bind
  · intro framing _
    apply wp_get_bind
    have buffered : Buffered (is_cacheable request response_str) response_str
        (if is_cacheable request response_str then initial_body response_str else []) s.state := by
      intro cacheable
      refine ⟨[], received.trans (List.append_nil _).symm, ?_⟩
      rw [if_pos cacheable, List.append_nil]
    refine wp_seq (stand_bodyLoop _ _ _ _ _ passed puts buffered) ?_ (fun _ _ h => h)
      (fun _ h => h)
    intro read s h
    cases read with
    | none => exact ⟨_, h⟩
    | some response_buffer =>
      obtain ⟨passed, puts, buffered⟩ := h
      apply wp_ite
      · intro cacheable
        obtain ⟨rest, received, rfl⟩ := buffered cacheable
        have get := get_of_cacheable named cacheable
        refine wp_seq (stand_store o get passed puts received) (fun _ _ h => h.end) ?_ ?_
        · exact fun _ _ h => h.elim
        · exact fun _ h => h.elim
      · exact fun _ => (passed.closing (Or.inl puts)).end
  · intro e _
    exact ⟨_, .late _, passed.stand, ⟨puts, passed.stand.tells.2, passed.even⟩, Or.inr ⟨_, rfl⟩,
      fun _ => rfl⟩

theorem stand_forwardRequest (o : Observer) {request : Request} (named : job.request = some request)
    {stage : Stage} (stand : Stand job stage s) (alone : Alone s.state)
    (begins : ∀ r stage', forward r = some stage' → next stage r = some stage') :
    wp (forwardRequest job.env o request) (handled job) s := by
  unfold forwardRequest
  refine wp_seq (stand_contactOrigin job.env request stand alone begins) ?_ (fun _ _ h => h)
    (fun _ h => h)
  intro asked s contact
  cases asked with
  | false => exact contact
  | true =>
    have requested : Stand job .requested s := contact
    apply wp_ite (fun h => nomatch h)
    intro _
    apply wp_emit_bind
    have listening := requested.emit (r := .beginning_to_receive) rfl requested.tells.1
    apply wp_get_bind
    refine wp_seq (stand_headerLoop o [] _ listening requested.tells.2) ?_ (fun _ _ h => h)
      (fun _ h => h)
    intro response_str s heard
    have untold := heard.untold
    apply wp_ite
    · intro empty
      rcases heard.stand with ⟨-, some_bytes⟩ | stand
      · exact absurd (List.length_eq_zero_iff.mp empty) some_bytes
      · exact stand_refuse stand rfl untold (fun s tale h => ⟨tale, h⟩)
    intro _
    apply wp_emit_bind
    have first : response_line response_str <+: response_str := by
      unfold response_line
      split
      · exact List.take_prefix _ _
      · exact List.prefix_refl _
    have begun (accepted : Bytes) (left : List SendOutcome) (pre : accepted <+: response_str) :
        Tells job (.relaying (response_line response_str))
          (s.state.sent .client .peer accepted left) := by
      refine ⟨?_, ?_⟩
      · rw [bytes_sent, untold.client, List.nil_append]
        exact pre.trans (heard.received ▸ List.prefix_refl _)
      · exact first.trans (heard.received ▸ List.prefix_refl _)
    have received : Stand job (.relaying (response_line response_str)) { s with
        trace := s.trace ++ [.received (response_line response_str) request.hostname] } := by
      have tells : Tells job (.relaying (response_line response_str)) s.state :=
        ⟨untold.client ▸ List.nil_prefix, first.trans (heard.received ▸ List.prefix_refl _)⟩
      rcases heard.stand with ⟨stand, -⟩ | stand
      · exact stand.emit rfl tells
      · exact stand.emit rfl tells
    apply wp_sendAll_bind
    · intro left
      apply stand_relayBody o named _ ⟨received.within (begun _ left (List.prefix_refl _)), ?_⟩
      · exact untold.puts
      · exact heard.received
      · rw [bytes_sent, untold.client, List.nil_append]
        exact heard.received.symm
    · intro accepted left pre
      apply wp_emit_bind
      obtain ⟨part, line⟩ := begun accepted left pre
      exact ⟨_, (received.within ⟨part, line⟩).emit rfl ⟨part, line, untold.puts⟩⟩
    · exact fun accepted left pre => (received.within (begun accepted left pre)).somewhere

/-! ## The cache -/

theorem stand_serve {request : Request} {cached_entry : CacheEntry}
    (hit : Hit job request cached_entry) (stand : Stand job .asked s) :
    wp (serve job.env cached_entry) (handled job) s := by
  have alone : Alone s.state := stand.tells
  let line := cached_entry.response_line
  let message := hit_message job.env cached_entry
  have part {w : World} (dialled : w.dialled = []) (server : w.server.bytes = [])
      (puts : w.puts = []) (pre : w.client.bytes <+: message) : Paged job line false w :=
    ⟨dialled, server, puts, request, cached_entry, hit, rfl, pre, fun h => nomatch h⟩
  have all {w : World} (dialled : w.dialled = []) (server : w.server.bytes = [])
      (puts : w.puts = []) (whole : w.client.bytes = message) : Paged job line true w :=
    ⟨dialled, server, puts, request, cached_entry, hit, rfl, whole ▸ List.prefix_refl _,
      fun _ => whole⟩
  have begun : Paged job line false s.state :=
    part alone.dialled alone.server alone.puts (alone.client ▸ List.nil_prefix)
  have page {accepted : Bytes} (source : Source) (left : List SendOutcome)
      (pre : accepted <+: message) :
      Paged job line false (s.state.sent .client source accepted left) := by
    refine part alone.dialled alone.server alone.puts ?_
    rw [bytes_sent, alone.client]
    exact pre
  unfold serve
  dsimp only
  apply wp_emit_bind
  apply wp_emit_bind
  have serving := (stand.emit (r := .valid) rfl alone).emit (r := .responding line) rfl begun
  have fits : hit_headers job.env cached_entry <+: message := List.prefix_append _ _
  apply wp_sendAll_bind
  · intro left
    have headers := serving.within (page (.own message) left fits)
    let given (accepted : Bytes) (left' : List SendOutcome) : World :=
      (s.state.sent .client (.own message) (hit_headers job.env cached_entry) left).sent
        .client (.own message) accepted left'
    have sent (accepted : Bytes) (left' : List SendOutcome) :
        (given accepted left').client.bytes = hit_headers job.env cached_entry ++ accepted := by
      rw [bytes_sent, bytes_sent, alone.client, List.nil_append]
    apply wp_ite
    · intro _
      have both (accepted : Bytes) (left' : List SendOutcome)
          (pre : accepted <+: cached_entry.data) : Paged job line false (given accepted left') := by
        refine part alone.dialled alone.server alone.puts ?_
        rw [sent]
        exact (List.prefix_append_right_inj _).mpr pre
      apply wp_sendAll_bind
      · intro left'
        have whole : Paged job line true (given cached_entry.data left') :=
          all alone.dialled alone.server alone.puts (sent cached_entry.data left')
        exact ⟨.page line true, (serving.within (both _ left' (List.prefix_refl _))).emit rfl whole⟩
      · intro accepted left' pre
        have stopped := both accepted left' pre
        exact ⟨.page line false, (serving.within stopped).emit rfl stopped⟩
      · exact fun accepted left' pre => (serving.within (both accepted left' pre)).somewhere
    · intro bodiless
      have empty : cached_entry.data = [] := not_not.mp bodiless
      have whole : Paged job line true
          (s.state.sent .client (.own message) (hit_headers job.env cached_entry) left) := by
        refine all alone.dialled alone.server alone.puts ?_
        change _ = hit_headers job.env cached_entry ++ cached_entry.data
        rw [bytes_sent, alone.client, empty, List.append_nil, List.nil_append]
      exact ⟨.page line true, headers.emit rfl whole⟩
  · intro accepted left pre
    have stopped := page (.own message) left (pre.trans fits)
    exact ⟨.page line false, (serving.within stopped).emit rfl stopped⟩
  · exact fun accepted left pre => (serving.within (page _ left (pre.trans fits))).somewhere

theorem stale_forward {r : Record} {stage : Stage} (h : forward r = some stage) :
    next .stale r = some stage := by
  cases r with
  | requires_validation => cases h
  | _ => exact h

theorem stand_processGetRequest (o : Observer) {request : Request}
    (named : job.get_request = some request) (stand : Stand job .asked s) :
    wp (processGetRequest job.env o request) (handled job) s := by
  have alone : Alone s.state := stand.tells
  have asked := request_of_get named
  unfold processGetRequest
  cases found : job.env.lookup request.url with
  | none =>
    exact wp_emit_bind (stand_forwardRequest o asked (stand.emit rfl alone) alone (fun _ _ h => h))
  | some cached_entry =>
    dsimp only
    apply wp_ite
    · intro _
      apply wp_ofExcept_bind ?_ (fun _ _ => raised_untold stand alone.untold (fun _ => rfl))
      intro expired_time_str _
      apply wp_emit_bind
      have stale := stand.emit (r := .expired_at expired_time_str) rfl alone
      apply wp_ite
      · exact fun _ => wp_emit_bind (stand_forwardRequest o asked (stale.emit rfl alone) alone
          (fun _ _ h => h))
      · exact fun _ => stand_forwardRequest o asked stale alone (fun _ _ => stale_forward)
    · exact fun valid => stand_serve ⟨named, found, Bool.eq_false_of_not_eq_true valid⟩ stand

/-! ## Tunnels -/

/-- The client has got all that the other side of the tunnel has sent. -/
structure Even (w : World) : Prop where
  puts : w.puts = []
  client : w.client.bytes = ok_response ++ w.server.received

theorem Even.bridged {w : World} (h : Even w) : Bridged w :=
  ⟨h.puts, w.server.received, List.prefix_refl _, h.client⟩

theorem stand_upstream (upstream : Stand job .tunnelling s) (even : Even s.state) :
    wp (within (tunnelStep .client .server))
      (stood job (fun _ s => Stand job .tunnelling s ∧ Even s.state)) s := by
  rw [wp_within]
  unfold tunnelStep
  refine (wp_bind _ _ _ _).mpr (wp_recv upstream.somewhere (fun outcome left _ => ?_))
  have read : Even (s.state.got .client outcome.bytes left) := ⟨even.puts, even.client⟩
  cases outcome with
  | closed | failed errno => exact ⟨upstream.within read.bridged, read⟩
  | data segment =>
    have passed (accepted : Bytes) (left' : List SendOutcome) :
        Even ((s.state.got .client segment.data left).sent .server .peer accepted left') :=
      ⟨even.puts, even.client⟩
    refine (wp_bind _ _ _ _).mpr (wp_sendAll ?_ ?_ ?_)
    · exact fun left' => ⟨upstream.within (passed _ left').bridged, passed _ left'⟩
    · exact fun accepted left' _ => ⟨upstream.within (passed _ left').bridged, passed _ left'⟩
    · exact fun accepted left' _ => (upstream.within (passed _ left').bridged).somewhere

/-- A client that does not take all of it is gone. -/
theorem stand_downstream (downstream : Stand job .tunnelling s) (even : Even s.state) :
    wp (within (tunnelStep .server .client))
      (stood job (fun r s => Stand job .tunnelling s ∧ (r.2 = false → Even s.state))) s := by
  rw [wp_within]
  unfold tunnelStep
  refine (wp_bind _ _ _ _).mpr (wp_recv downstream.somewhere (fun outcome left _ => ?_))
  have given (data : Bytes) : (s.state.got .server data left).client.bytes =
      ok_response ++ s.state.server.received := (bytes_got _ _ _ _).trans even.client
  cases outcome with
  | closed | failed errno =>
    have read : Even (s.state.got .server [] left) :=
      ⟨even.puts, (given []).trans (congrArg _ (List.append_nil _).symm)⟩
    exact ⟨downstream.within read.bridged, fun _ => read⟩
  | data segment =>
    have all (left' : List SendOutcome) :
        Even ((s.state.got .server segment.data left).sent .client .peer segment.data left') := by
      refine ⟨even.puts, ?_⟩
      rw [bytes_sent, given, List.append_assoc]
      rfl
    have part (accepted : Bytes) (left' : List SendOutcome) (pre : accepted <+: segment.data) :
        Bridged ((s.state.got .server segment.data left).sent .client .peer accepted left') := by
      refine ⟨even.puts, s.state.server.received ++ accepted,
        (List.prefix_append_right_inj _).mpr pre, ?_⟩
      rw [bytes_sent, given, List.append_assoc]
    refine (wp_bind _ _ _ _).mpr (wp_sendAll ?_ ?_ ?_)
    · exact fun left' => ⟨downstream.within (all left').bridged, fun _ => all left'⟩
    · exact fun accepted left' pre => ⟨downstream.within (part _ left' pre), fun h => nomatch h⟩
    · exact fun accepted left' pre => (downstream.within (part _ left' pre)).somewhere

/-- After the loop of the tunnel. -/
def tunnelled (job : Job) : Bool → Traced World Record → Prop
  | true, s => Stand job .tunnelling s ∨ Stand job .tunnel_ended s
  | false, s => Stand job .tunnel_broken s

/-- One direction, if it is ready, and what comes after it. -/
theorem stand_turn {x : Logging (Bool × Bool)} {next : Bool × Bool → Logging Bool}
    {mid : Bool × Bool → Traced World Record → Prop} {p : Prop} [Decidable p]
    (step : wp x (stood job mid) s) (skipped : mid (false, false) s)
    (rest : ∀ r s, mid r s → wp (next r) (stood job (tunnelled job)) s) :
    wp (if p then x >>= next else pure (false, false) >>= next) (stood job (tunnelled job)) s :=
  wp_ite (fun _ => wp_seq step rest (fun _ _ h => h) (fun _ h => h)) (fun _ => rest _ _ skipped)

theorem stand_tunnelLoop (client_closed server_closed : Bool) (polls : List Poll)
    (stand : Stand job .tunnelling s)
    (even : (client_closed || server_closed) = false → Even s.state) :
    wp (tunnelLoop client_closed server_closed polls) (stood job (tunnelled job)) s := by
  induction polls generalizing client_closed server_closed s with
  | nil =>
    unfold tunnelLoop
    exact wp_ite (fun _ => Or.inl stand) (fun _ => stand.somewhere)
  | cons poll polls ih =>
    unfold tunnelLoop
    dsimp only
    apply wp_ite
    · exact fun _ => Or.inl stand
    intro opened
    apply wp_modify_bind
    have even : Even { s.state with polls := polls } :=
      ⟨(even (Bool.eq_false_of_not_eq_true opened)).puts,
        (even (Bool.eq_false_of_not_eq_true opened)).client⟩
    have polled := stand.within even.bridged
    cases poll with
    | failed =>
      apply wp_emit_bind
      have broken : Stand job .tunnel_broken _ := polled.emit (r := .poll_failed) rfl even.bridged
      exact broken
    | timeout => exact ih false false polled (fun _ => even)
    | ready client server =>
      refine stand_turn (stand_upstream polled even) ⟨polled, even⟩ ?_
      rintro r s ⟨stand, even⟩
      refine stand_turn (stand_downstream stand even) ⟨stand, fun _ => even⟩ ?_
      rintro r' s ⟨stand, even⟩
      apply wp_ite
      · intro _
        apply wp_emit_bind
        exact Or.inr (stand.emit rfl stand.tells)
      · refine fun _ => ih _ _ stand (fun flags => even ?_)
        simp only [Bool.or_eq_false_iff] at flags
        exact flags.1.2

theorem stand_tunnelTraffic (stand : Stand job .tunnelling s) (even : Even s.state) :
    wp tunnelTraffic (stood job (tunnelled job)) s := by
  unfold tunnelTraffic
  apply wp_get_bind
  exact stand_tunnelLoop false false _ stand (fun _ => even)

theorem stand_processConnectRequest (request : Request) (stand : Stand job .asked s) :
    wp (processConnectRequest job.env request) (handled job) s := by
  have alone : Alone s.state := stand.tells
  unfold processConnectRequest
  apply wp_emit_bind
  apply wp_emit_bind
  have dialling := (stand.emit (r := .processing_connect request.hostname request.get_port) rfl
    alone).emit (r := .requesting request.line request.hostname) rfl ⟨alone.untold, alone.received⟩
  apply wp_ofExcept_bind ?_ (fun _ _ => raised_untold dialling alone.untold (fun _ => rfl))
  intro server_fd _
  apply wp_ofExcept_bind ?_ (fun _ _ => raised_untold dialling alone.untold (fun _ => rfl))
  intro port _
  apply wp_within_bind (wp_connect ?_)
  intro ok dialled
  have untold : Untold { s.state with dialled := dialled } := ⟨alone.client, alone.puts⟩
  have dialling' := dialling.within (w := { s.state with dialled := dialled })
    ⟨untold, alone.received⟩
  apply wp_ite
  · exact fun _ => stand_refuse dialling' rfl untold (fun s tale h => ⟨tale, h⟩)
  intro _
  apply wp_emit_bind
  have begun {accepted : Bytes} (left : List SendOutcome) (pre : accepted <+: ok_response) :
      Tells job .opening (World.sent { s.state with dialled := dialled } .client (.own ok_response)
        accepted left) := by
    refine ⟨alone.puts, ?_⟩
    rw [bytes_sent, untold.client]
    exact pre
  have opening := dialling'.emit (r := .responding established) (expecting_self _ .opening)
    ⟨alone.puts, untold.client ▸ List.nil_prefix⟩
  apply wp_sendAll_bind
  · intro left
    apply wp_emit_bind
    have even : Even (World.sent { s.state with dialled := dialled } .client (.own ok_response)
        ok_response left) := by
      refine ⟨alone.puts, ?_⟩
      rw [bytes_sent, untold.client, List.nil_append]
      change _ = ok_response ++ s.state.server.received
      rw [alone.received, List.append_nil]
    have tunnelling := (opening.within (begun left (List.prefix_refl _))).emit
      (r := .tunnel_established) rfl even.bridged
    refine wp_seq (stand_tunnelTraffic tunnelling even) ?_ (fun _ _ h => h) (fun _ h => h)
    intro ok s h
    apply wp_emit_bind
    cases ok with
    | true =>
      rcases h with h | h
      · exact ⟨.tunnel true, h.emit rfl h.tells⟩
      · exact ⟨.tunnel true, h.emit rfl h.tells⟩
    | false =>
      have broken : Stand job .tunnel_broken s := h
      exact ⟨.tunnel true, broken.emit rfl broken.tells⟩
  · intro accepted left pre
    apply wp_emit_bind
    exact ⟨.tunnel false, (opening.within (begun left pre)).emit rfl (begun left pre)⟩
  · exact fun accepted left pre => (opening.within (begun left pre)).somewhere

/-! ## The handler -/

theorem stand_dispatch (o : Observer) {request : Request} (named : job.request = some request)
    (stand : Stand job .asked s) : wp (dispatch job.env o request) (handled job) s := by
  have alone : Alone s.state := stand.tells
  unfold dispatch
  apply wp_ite
  · exact fun get => stand_processGetRequest o (get_of_method named get) stand
  intro _
  apply wp_ite
  · exact fun _ => wp_emit_bind (stand_forwardRequest o named (stand.emit rfl alone) alone
      (fun _ _ h => h))
  intro _
  apply wp_ite (fun _ => stand_processConnectRequest request stand)
  exact fun _ => stand_refuse stand rfl alone.untold (fun s tale h => ⟨tale, h⟩)

/-- After handle_connection. -/
def finished (job : Job) : Post (Traced World Record) Unit :=
  ⟨fun _ s => ∃ tale, Stand job (.complete tale) s, fun _ _ => False, Somewhere job⟩

theorem stand_handle_connection (o : Observer) (stand : Stand job .opened s)
    (start : s.state.client.recvs = job.kernel.client_recvs) :
    wp (handle_connection job.env o) (finished job) s := by
  have alone : Alone s.state := stand.tells
  unfold handle_connection
  rw [wp_catching]
  suffices body : wp _ (stood job (fun (_ : Unit) s => ∃ tale, Stand job (.complete tale) s)) s by
    refine wp_mono body (fun _ _ h => h) ?_ (fun _ h => h)
    rintro e s ⟨stage, tale, stand, pending, which, moves⟩
    apply wp_emit_bind
    refine wp_mono (stand_sendErrorResponse (stand.emit (moves _) pending) ?_) ?_ ?_ ?_
    · intro source accepted left pre
      rcases which with rfl | ⟨line, rfl⟩
      · exact Tale.Pending.refused pending pre
      · exact Tale.Pending.late pending pre
    · exact fun _ _ h => ⟨tale, h⟩
    · exact fun _ _ h => h
    · exact fun _ h => h
  apply wp_within_bind
  apply wp_recv stand.somewhere
  intro outcome left first
  have read := stand.within (w := s.state.got .client outcome.bytes left)
    ⟨alone.client, alone.server, alone.received, alone.dialled, alone.puts⟩
  have alone : Alone (s.state.got .client outcome.bytes left) := read.tells
  cases outcome with
  | failed errno => exact ⟨.unread, read.emit rfl alone⟩
  | closed => exact ⟨.unread, read.emit rfl alone⟩
  | data segment =>
    dsimp only
    cases parsed : Request.parse job.env.put (Request.new segment.data) with
    | error e =>
      apply wp_emit_bind
      refine wp_mono (stand_sendErrorResponse (read.emit rfl alone.untold) ?_) ?_ ?_ ?_
      · exact fun _ _ _ pre => Tale.Pending.refused alone.untold pre
      · exact fun _ _ h => ⟨_, h⟩
      · exact fun _ _ h => h.elim
      · exact fun _ h => h
    | ok request =>
      have recvs : job.kernel.client_recvs = .data segment :: left := start.symm.trans first
      have named : job.request = some request := by
        simp only [Job.request, recvs, parsed]
        rfl
      dsimp only
      apply wp_ofExcept_bind ?_ (fun _ _ => raised_untold read alone.untold (fun _ => rfl))
      intro time _
      apply wp_emit_bind
      have asked := read.emit (r := .request request.line o.remote_address time) rfl alone
      refine wp_seq (stand_dispatch o named asked) ?_ (fun _ _ h => h) (fun _ h => h)
      rintro success s ⟨tale, told⟩
      cases success with
      | true => exact ⟨tale, told⟩
      | false =>
        have failing : Stand job (.failing tale) s := told
        exact ⟨tale, failing.emit rfl failing.tells⟩

end forwarding

theorem stand_start (job : Job) : Stand job .opened ⟨World.start job.kernel, []⟩ where
  read := rfl
  tells := ⟨rfl, rfl, rfl, rfl, rfl⟩

/-- Where the handler of a connection ends or waits for ever. -/
def ended (env : Environment) (o : Observer) (k : Kernel) : Traced World Record :=
  (handle_connection env o).after ⟨World.start k, []⟩

theorem ended_somewhere (env : Environment) (o : Observer) (k : Kernel) :
    Somewhere ⟨env, k⟩ (ended env o k) := by
  have spec := stand_handle_connection o (stand_start ⟨env, k⟩) rfl
  unfold ended
  cases run : (handle_connection env o).run ⟨World.start k, []⟩ with
  | ok _ s =>
    obtain ⟨tale, stand⟩ := (wp_of_ok run).mp spec
    rw [after_of_ok run]
    exact stand.somewhere
  | error e s =>
    rw [after_of_error run]
    cases e with
    | threw e => exact ((wp_of_threw run).mp spec).elim
    | waiting => exact (wp_of_waiting run).mp spec

/-- Wherever the handler of a connection is, its log is one that the automaton reads, and what the
automaton makes of it is true of the sockets and the cache. If the handler ends, the log has told
its tale to the end; it ends without an exception or waits for ever. -/
theorem log_tells_the_tale (env : Environment) (o : Observer) (k : Kernel) :
    Somewhere ⟨env, k⟩ (ended env o k) ∧
      ((∃ s tale, (handle_connection env o).run ⟨World.start k, []⟩ = .ok () s ∧
          Runs.run next .opened s.trace = some (.complete tale) ∧ tale.Holds ⟨env, k⟩ s.state) ∨
        ∃ s, (handle_connection env o).run ⟨World.start k, []⟩ = .error .waiting s) := by
  refine ⟨ended_somewhere env o k, ?_⟩
  have spec := stand_handle_connection o (stand_start ⟨env, k⟩) rfl
  cases run : (handle_connection env o).run ⟨World.start k, []⟩ with
  | ok _ s =>
    obtain ⟨tale, stand⟩ := (wp_of_ok run).mp spec
    exact Or.inl ⟨s, tale, rfl, stand.read, stand.tells⟩
  | error e s =>
    cases e with
    | threw e => exact ((wp_of_threw run).mp spec).elim
    | waiting => exact Or.inr ⟨s, rfl⟩

/-! ## One response -/

def responses (log : List Record) : List Bytes :=
  log.filterMap (fun r => match r with | .responding line => some line | _ => none)

/-- The responses that a tale has logged. -/
def Tale.responses : Tale → List Bytes
  | .unread | .broken _ => []
  | .page line _ | .relayed line _ => [line]
  | .refused status_code message => [status_line status_code message]
  | .late _ => [status_line 500 (bytes "Internal Server Error")]
  | .tunnel _ => [established]

/-- The responses that are logged when the automaton is here. -/
def Stage.responses : Stage → List Bytes
  | .serving line => [line]
  | .opening | .tunnelling | .tunnel_broken | .tunnel_ended => [established]
  | .failing tale | .complete tale => tale.responses
  | _ => []

/-- An error response is the one of its tale. -/
def Stage.Fitting : Stage → Prop
  | .refusing line tale _ => tale.responses = [line]
  | _ => True

theorem forward_responses {r : Record} {stage : Stage} (h : forward r = some stage) :
    stage.responses = responses [r] ∧ stage.Fitting := by
  cases r with
  | empty_hostname | failed_server_socket | exception _ =>
    cases h
    exact ⟨rfl, rfl⟩
  | requesting _ _ =>
    cases h
    exact ⟨rfl, True.intro⟩
  | _ => cases h

theorem expecting_eq_some {line line' : Bytes} {stage stage' : Stage}
    (h : expecting line stage line' = some stage') : line' = line ∧ stage' = stage := by
  unfold expecting at h
  split at h
  · exact ⟨‹_›, (Option.some.inj h).symm⟩
  · cases h

/-- One record more. -/
theorem next_responses {stage stage' : Stage} {r : Record} (fits : stage.Fitting)
    (h : next stage r = some stage') :
    stage'.responses = stage.responses ++ responses [r] ∧ stage'.Fitting := by
  cases stage with
  | forwarding => exact forward_responses h
  | stale =>
    simp only [next] at h
    split at h
    · cases h
      exact ⟨rfl, True.intro⟩
    · exact forward_responses h
  | relaying line =>
    cases r with
    | responding line' =>
      obtain ⟨rfl, rfl⟩ := expecting_eq_some h
      exact ⟨rfl, True.intro⟩
    | exception _ =>
      cases h
      exact ⟨rfl, rfl⟩
    | failed_to_forward | failed_to_forward_body | not_cacheable | cached_for_validation
    | cached_until _ | not_cached _ =>
      cases h
      exact ⟨rfl, True.intro⟩
    | _ => cases h
  | stored line kept =>
    simp only [next] at h
    split at h
    · obtain ⟨rfl, rfl⟩ := expecting_eq_some h
      exact ⟨rfl, True.intro⟩
    · cases h
  | refusing line tale failed =>
    simp only [next] at h
    split at h
    · obtain ⟨rfl, rfl⟩ := expecting_eq_some h
      cases failed with
      | true => exact ⟨fits, True.intro⟩
      | false => exact ⟨fits, True.intro⟩
    · cases h
  | dialling =>
    simp only [next] at h
    split at h
    · cases h
      exact ⟨rfl, rfl⟩
    · obtain ⟨rfl, rfl⟩ := expecting_eq_some h
      exact ⟨rfl, True.intro⟩
    · cases h
      exact ⟨rfl, rfl⟩
    · cases h
  | complete tale => cases h
  | opened | asked | hit | serving line | requested | listening | unheard | connecting | opening
  | tunnelling | tunnel_broken | tunnel_ended | failing tale =>
    simp only [next] at h
    split at h
    all_goals cases h
    all_goals first
      | exact ⟨rfl, True.intro⟩
      | exact ⟨rfl, rfl⟩
      | exact ⟨(List.append_nil _).symm, True.intro⟩

theorem responses_of_run {stage : Stage} {log : List Record}
    (read : Runs.run next .opened log = some stage) : responses log = stage.responses := by
  have both : responses log = stage.responses ∧ stage.Fitting := by
    refine Runs.history (P := fun log stage => responses log = stage.responses ∧ stage.Fitting)
      ?_ ⟨rfl, True.intro⟩ read
    rintro past stage r stage' ⟨same, fits⟩ moves
    obtain ⟨more, fits'⟩ := next_responses fits moves
    refine ⟨?_, fits'⟩
    rw [more, ← same]
    exact List.filterMap_append
  exact both.1

theorem Tale.responses_length (tale : Tale) : tale.responses.length ≤ 1 := by
  cases tale with
  | unread | broken _ => exact Nat.zero_le 1
  | page _ _ | relayed _ _ | refused _ _ | late _ | tunnel _ => exact Nat.le_refl 1

/-- What the client has got is the beginning of a message with this first line. -/
def Begins (line sent : Bytes) : Prop := sent <+: line ∨ line <+: sent

/-- Two beginnings of one message. -/
theorem begins_alike {line sent message : Bytes} (first : line <+: message)
    (part : sent <+: message) : Begins line sent := List.prefix_or_prefix_of_prefix part first

theorem status_line_begins (status_code : Nat) (message : Bytes) :
    status_line status_code message <+: error_response status_code message := by
  refine ⟨CRLF ++ (bytes "Content-Type: text/plain\r\n" ++ (bytes "Connection: close\r\n" ++
    (CRLF ++ (bytes "Error: " ++ message)))), ?_⟩
  simp only [error_response, status_line, List.append_assoc]

theorem response_line_begins (env : Environment) (cached_entry : CacheEntry) :
    cached_entry.response_line <+: hit_message env cached_entry := by
  refine ⟨CRLF ++ ((env.iteration.order cached_entry.headers).flatMap
    (fun header => header.1 ++ bytes ": " ++ header.2 ++ CRLF) ++
      (CRLF ++ cached_entry.data)), ?_⟩
  simp only [hit_message, hit_headers, List.append_assoc]

theorem established_begins : established <+: ok_response := ⟨CRLFCRLF, by decide⟩

section answers

variable {job : Job} {w : World} {line : Bytes}

theorem Paged.begins {whole : Bool} (h : Paged job line whole w) : Begins line w.client.bytes := by
  obtain ⟨request, entry, -, rfl, pre, -⟩ := h.client
  exact begins_alike (response_line_begins job.env entry) pre

theorem Bridged.begins (h : Bridged w) : Begins established w.client.bytes := by
  obtain ⟨passed, -, given⟩ := h.client
  rw [given]
  exact Or.inr (established_begins.trans (List.prefix_append _ _))

/-- A response that is logged is the one that the client gets, but for the error 500 that comes
after a response of the origin. -/
theorem Tale.answered {tale : Tale} (h : tale.Holds job w) (logged : line ∈ tale.responses) :
    Begins line w.client.bytes ∨ line = status_line 500 (bytes "Internal Server Error") ∧
      ∃ line', (Tale.late line').Holds job w := by
  cases tale with
  | unread | broken _ => cases logged
  | page line' whole =>
    cases List.mem_singleton.mp logged
    exact Or.inl (Paged.begins h)
  | relayed line' kept =>
    cases List.mem_singleton.mp logged
    exact Or.inl (Or.inr h.2.1)
  | refused status_code message =>
    cases List.mem_singleton.mp logged
    exact Or.inl (begins_alike (status_line_begins status_code message) h.2)
  | late line' => exact Or.inr ⟨List.mem_singleton.mp logged, line', h⟩
  | tunnel opened =>
    cases List.mem_singleton.mp logged
    cases opened with
    | false => exact Or.inl (begins_alike established_begins h.2)
    | true => exact Or.inl (Bridged.begins h)

end answers

/-- The log of a connection names one response at most, and that is what the client gets. -/
theorem one_response_logged (env : Environment) (o : Observer) (k : Kernel) :
    (responses (ended env o k).trace).length ≤ 1 ∧ ∀ line ∈ responses (ended env o k).trace,
      Begins line (ended env o k).state.client.bytes ∨
        line = status_line 500 (bytes "Internal Server Error") ∧
          ∃ line', (Tale.late line').Holds ⟨env, k⟩ (ended env o k).state := by
  obtain ⟨stage, stand⟩ := ended_somewhere env o k
  generalize ended env o k = s at stand
  rw [responses_of_run stand.read]
  have tells := stand.tells
  cases stage with
  | complete tale | failing tale => exact ⟨tale.responses_length, fun _ => Tale.answered tells⟩
  | serving line =>
    refine ⟨Nat.le_refl 1, fun _ logged => ?_⟩
    obtain rfl := List.mem_singleton.mp logged
    exact Or.inl (Paged.begins tells)
  | opening =>
    refine ⟨Nat.le_refl 1, fun _ logged => ?_⟩
    obtain rfl := List.mem_singleton.mp logged
    exact Or.inl (begins_alike established_begins tells.2)
  | tunnelling | tunnel_broken | tunnel_ended =>
    refine ⟨Nat.le_refl 1, fun _ logged => ?_⟩
    obtain rfl := List.mem_singleton.mp logged
    exact Or.inl (Bridged.begins tells)
  | _ => exact ⟨Nat.zero_le 1, fun _ logged => nomatch logged⟩

end CachingProxy.Logging
