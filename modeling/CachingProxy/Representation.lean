import CachingProxy.Stored

/-! A cache hit against the response that filled the cache: what a recipient makes of each. -/
namespace CachingProxy
open Cpp Action Http

/-! ## What is copied from the header block -/

theorem lookup_copied (response : Response) (names : List Bytes)
    (headers : Finmap (fun _ : Bytes => Bytes)) (key : Bytes) :
    (names.foldl (fun headers header_name =>
      let value := response.get_header header_name
      if value = [] then headers else headers.insert header_name value) headers).lookup key =
        if key ∈ names ∧ response.get_header key ≠ [] then some (response.get_header key)
        else headers.lookup key := by
  induction names generalizing headers with
  | nil => simp
  | cons name names ih =>
    rw [List.foldl_cons, ih]
    dsimp only
    by_cases same : key = name
    · subst same
      by_cases filled : response.get_header key = []
      · simp [filled]
      · simp [filled, Finmap.lookup_insert]
    · by_cases filled : response.get_header name = []
      · simp [filled, same]
      · simp [filled, same, Finmap.lookup_insert_of_ne]

theorem copy_headers_lookup (response : Response) (key value : Bytes) :
    (copy_headers response).lookup key = some value ↔
      key ∈ header_names ∧ value = response.get_header key ∧ value ≠ [] := by
  rw [copy_headers, lookup_copied]
  split
  · rename_i copied
    simp only [Option.some.injEq]
    constructor
    · rintro rfl
      exact ⟨copied.1, rfl, copied.2⟩
    · rintro ⟨-, rfl, -⟩
      rfl
  · rename_i left_out
    refine iff_of_false (by simp) ?_
    rintro ⟨known, rfl, filled⟩
    exact left_out ⟨known, filled⟩

theorem last_value_mem {key value : Bytes} {fs : List (Bytes × Bytes)}
    (h : Response.last_value key fs = some value) : (key, value) ∈ fs := by
  have mem := List.mem_of_getLast? h
  obtain ⟨f, hf, rfl⟩ := List.mem_map.mp mem
  obtain ⟨hf, name⟩ := List.mem_filter.mp hf
  have : f.1 = key := by simpa using name
  exact this ▸ hf

theorem mem_crLines {l x : Bytes} {ls : List Bytes} (h : x ∈ (crLines l ls).tail) :
    ∃ m ∈ ls, x = m ∨ x = m ++ [13] := by
  induction ls generalizing l with
  | nil => simp [crLines] at h
  | cons m ls ih =>
    simp only [crLines, List.tail_cons] at h
    cases ls with
    | nil =>
      simp only [crLines, List.mem_singleton] at h
      exact ⟨m, List.mem_cons_self, Or.inl h⟩
    | cons m' ls =>
      rw [crLines] at h
      rcases List.mem_cons.mp h with h | h
      · exact ⟨m, List.mem_cons_self, Or.inr h⟩
      · obtain ⟨y, hy, hx⟩ := ih (l := m) (by simpa [crLines] using h)
        exact ⟨y, List.mem_cons_of_mem _ hy, hx⟩

/-- A key without colons comes from the field of that name, whose value it keeps but for white
space. -/
theorem fields_of_wire {m : Wire} {key value : Bytes} (colonless : (58 : UInt8) ∉ key)
    (h : (key, value) ∈ Response.fields m.head) :
    ∃ f ∈ m.fields, f.1 = key ∧ trim f.2 = trim value ∧ (10 : UInt8) ∉ value := by
  obtain ⟨l, hl, hf⟩ := List.mem_filterMap.mp h
  have mem := (List.takeWhile_subset _) hl
  rw [m.getlines_head] at mem
  obtain ⟨x, hx, form⟩ := mem_crLines mem
  obtain ⟨f, hf', rfl⟩ := List.mem_map.mp hx
  have name := (m.names f hf').2.1
  have clean := m.values f hf'
  rcases form with rfl | rfl
  · obtain ⟨same, rest⟩ := Response.field_of_line name colonless hf
    refine ⟨f, hf', same, by rw [rest, trim_space], ?_⟩
    rw [rest] at clean
    exact List.not_mem_of_not_mem_cons clean
  · have form : Wire.line f ++ [13] = f.1 ++ 58 :: (f.2 ++ [13]) := by simp [Wire.line]
    rw [form] at hf
    obtain ⟨same, rest⟩ := Response.field_of_line name colonless hf
    refine ⟨f, hf', same, by rw [← trim_append_cr, rest, trim_space], ?_⟩
    have clean' : (10 : UInt8) ∉ f.2 ++ [13] := by simp [clean]
    rw [rest] at clean'
    exact List.not_mem_of_not_mem_cons clean'

/-! ## What a hit sends -/

theorem header_names_clean : ∀ key ∈ header_names,
    key ≠ [] ∧ (58 : UInt8) ∉ key ∧ ∀ c ∈ key, c ≠ 10 ∧ c ≠ 13 := by decide +kernel

/-- Of the fields that describe a body only Content-Length is copied. -/
theorem header_names_framing : ∀ key ∈ header_names, sameText key TransferEncoding = false ∧
    sameText key ContentEncoding = false ∧
    (sameText key ContentLength = true → key = ContentLength) := by decide

/-- An entry that can be sent as a message. -/
structure Sendable (entry : CacheEntry) : Prop where
  status : entry.response_line ≠ [] ∧ (10 : UInt8) ∉ entry.response_line
  headers : ∀ key value, entry.headers.lookup key = some value →
    key ∈ header_names ∧ (10 : UInt8) ∉ value

theorem mem_order {env : Environment} {entry : CacheEntry} {header : (_ : Bytes) × Bytes}
    (h : header ∈ env.iteration.order entry.headers) :
    entry.headers.lookup header.1 = some header.2 := by
  have mem : header ∈ (env.iteration.order entry.headers : Multiset ((_ : Bytes) × Bytes)) := h
  rw [env.iteration.complete] at mem
  exact Finmap.mem_lookup_iff.mpr mem

/-- The message of a hit, field by field. -/
def hitWire (env : Environment) (entry : CacheEntry) (sendable : Sendable entry) : Wire where
  status := entry.response_line
  fields := (env.iteration.order entry.headers).map (fun header => (header.1, 32 :: header.2))
  body := entry.data
  status_line := sendable.status
  names := by
    intro f hf
    obtain ⟨header, mem, rfl⟩ := List.mem_map.mp hf
    exact header_names_clean _ (sendable.headers _ _ (mem_order mem)).1
  values := by
    intro f hf
    obtain ⟨header, mem, rfl⟩ := List.mem_map.mp hf
    have clean := (sendable.headers _ _ (mem_order mem)).2
    simpa using clean

theorem hitWire_render (env : Environment) (entry : CacheEntry) (sendable : Sendable entry) :
    (hitWire env entry sendable).render = hit_message env entry := by
  have lines : (env.iteration.order entry.headers).flatMap
      (fun header => header.1 ++ bytes ": " ++ header.2 ++ CRLF) =
      ((hitWire env entry sendable).fields.map Wire.line).flatMap (fun l => l ++ CRLF) := by
    simp [hitWire, Wire.line, List.flatMap_map, bytes]
  have ends : CRLFCRLF = CRLF ++ CRLF := rfl
  have status : (hitWire env entry sendable).status = entry.response_line := rfl
  have body : (hitWire env entry sendable).body = entry.data := rfl
  unfold hit_message hit_headers Wire.render Wire.head
  rw [lines, ends, status, body]
  generalize (hitWire env entry sendable).fields.map Wire.line = ls
  calc entry.response_line ++ ls.flatMap (fun l => CRLF ++ l) ++ (CRLF ++ CRLF) ++ entry.data
      = entry.response_line ++ (ls.flatMap (fun l => CRLF ++ l) ++ CRLF) ++ CRLF ++ entry.data := by
        simp only [List.append_assoc]
    _ = entry.response_line ++ (CRLF ++ ls.flatMap (fun l => l ++ CRLF)) ++ CRLF ++ entry.data := by
        rw [rotate_ends]
    _ = entry.response_line ++ CRLF ++ ls.flatMap (fun l => l ++ CRLF) ++ CRLF ++ entry.data := by
        simp only [List.append_assoc]

theorem valuesOf_hit {env : Environment} {entry : CacheEntry} (sendable : Sendable entry)
    {name value : Bytes} (h : value ∈ valuesOf name (hitWire env entry sendable).trimmed) :
    ∃ key v, entry.headers.lookup key = some v ∧ sameText key name = true ∧ value = trim v := by
  obtain ⟨f, hf, rfl⟩ := List.mem_map.mp h
  obtain ⟨hf, same⟩ := List.mem_filter.mp hf
  simp only [Wire.trimmed, hitWire, List.map_map, List.mem_map] at hf
  obtain ⟨header, mem, rfl⟩ := hf
  exact ⟨header.1, header.2, mem_order mem, same, trim_space header.2⟩

/-- A recipient reads a hit as its stored bytes, without codings. -/
theorem decode_hit {env : Environment} {entry : CacheEntry} (sendable : Sendable entry)
    (length : ∀ value, entry.headers.lookup ContentLength = some value →
      number (trim value) = some entry.data.length) :
    decode (hit_message env entry) = some ⟨entry.data, []⟩ := by
  have unframed : ∀ name, (∀ key ∈ header_names, sameText key name = false) →
      valuesOf name (hitWire env entry sendable).trimmed = [] := by
    intro name other
    rw [List.eq_nil_iff_forall_not_mem]
    intro value mem
    obtain ⟨key, v, found, same, -⟩ := valuesOf_hit sendable mem
    rw [other key (sendable.headers key v found).1] at same
    cases same
  have coding := unframed TransferEncoding (fun key hk => (header_names_framing key hk).1)
  have encoding := unframed ContentEncoding (fun key hk => (header_names_framing key hk).2.1)
  have whole : bodyOf (hitWire env entry sendable).trimmed entry.data = some entry.data := by
    apply bodyOf_whole coding
    intro value mem
    obtain ⟨key, v, found, same, rfl⟩ := valuesOf_hit sendable mem
    have key_eq := (header_names_framing key (sendable.headers key v found).1).2.2 same
    exact length v (key_eq ▸ found)
  have body : (hitWire env entry sendable).body = entry.data := rfl
  rw [← hitWire_render env entry sendable, Wire.decode_render, encoding, body, whole]
  rfl

/-! ## What was relayed -/

/-- The message is whole: all of its declared length is there, or all of its chunks. -/
structure Complete (m : Wire) : Prop where
  length : ∀ value ∈ valuesOf ContentLength m.trimmed, number value = some m.body.length
  coding : valuesOf TransferEncoding m.trimmed = [] ∨
    valuesOf ContentLength m.trimmed = [] ∧ ∃ value,
      valuesOf TransferEncoding m.trimmed = [value] ∧ sameText value (bytes "chunked") = true ∧
      (dechunk m.body).isSome

theorem find_crlf {l : Bytes} (clean : (10 : UInt8) ∉ l) (t : Bytes) :
    find CRLF (l ++ CRLF ++ t) = some l.length := by
  induction l with
  | nil =>
    rw [List.nil_append]
    exact (find_zero_iff _ _).mpr (List.prefix_append _ _)
  | cons c l ih =>
    have skip : ¬ CRLF <+: c :: (l ++ CRLF ++ t) := by
      rw [CRLF_eq]
      intro h
      have second := (List.cons_prefix_cons.mp h).2
      cases l with
      | nil =>
        have := (List.cons_prefix_cons.mp second).1
        cases this
      | cons d l =>
        have := (List.cons_prefix_cons.mp second).1
        subst this
        simp at clean
    rw [List.cons_append, List.cons_append, find_cons_skip skip,
      ih (List.not_mem_of_not_mem_cons clean)]
    rfl

theorem head_start (m : Wire) (t : Bytes) :
    ∃ t', m.head ++ CRLFCRLF ++ t = m.status ++ CRLF ++ t' := by
  have ends : CRLFCRLF = CRLF ++ CRLF := rfl
  unfold Wire.head
  cases m.fields with
  | nil => exact ⟨CRLF ++ t, by simp [ends]⟩
  | cons f fs =>
    refine ⟨Wire.line f ++ ((fs.map Wire.line).flatMap (fun l => CRLF ++ l) ++ (CRLFCRLF ++ t)), ?_⟩
    simp only [List.map_cons, List.flatMap_cons, List.append_assoc]

/-- The entry of a run that relayed the message `m`. -/
theorem put_of_wire {env : Environment} {request : Request} {w : World} {entry : CacheEntry}
    {h : Bytes} {left : List RecvOutcome} {f : Framing} {segments : List Segment}
    {response : Response} (put : Put env request w entry h left f segments response) {m : Wire}
    (stream : h ++ flat segments = m.render) :
    entry.response_line = m.status ∧ entry.data = m.body ∧
      ∀ key value, entry.headers.lookup key = some value ↔ key ∈ header_names ∧
        Response.last_value key (Response.fields m.head) = some value ∧ value ≠ [] := by
  obtain ⟨pos, hpos, judged⟩ := Response.parse_judged put.parsed
  have same_pos := (find_append hpos (flat segments)).symm.trans (stream ▸ m.find_render)
  obtain rfl := Option.some.inj same_pos
  have fits := find_le hpos
  have four : CRLFCRLF.length = 4 := rfl
  rw [four] at fits
  have head : h.take m.head.length = m.head := by
    have := congrArg (List.take m.head.length) stream
    rw [List.take_append_of_le_length (by omega)] at this
    rw [this]
    simp [Wire.render, List.append_assoc]
  have rest : h.drop (m.head.length + 4) ++ flat segments = m.body := by
    have := congrArg (List.drop (m.head.length + 4)) stream
    rw [List.drop_append_of_le_length (by omega)] at this
    rw [this]
    have width : (m.head ++ CRLFCRLF).length = m.head.length + 4 := by rw [List.length_append, four]
    rw [Wire.render, ← width, List.drop_left]
  have split := find_split hpos
  rw [head] at split
  have line : find CRLF h = some m.status.length := by
    obtain ⟨t, ht⟩ := head_start m (h.drop (m.head.length + CRLFCRLF.length))
    rw [split, ht]
    exact find_crlf m.status_line.2 t
  have status : h.take m.status.length = m.status := by
    rw [split, Wire.head]
    simp [List.append_assoc]
  rw [put.entry_eq]
  refine ⟨?_, ?_, ?_⟩
  · simp only [new_entry, response_line, line, status]
  · simp only [new_entry, initial_body, hpos, rest]
  · intro key value
    rw [new_entry, copy_headers_lookup, judged.headers, head]
    cases last : Response.last_value key (Response.fields m.head) with
    | none => simp
    | some v => simp [eq_comm]

/-- A stored entry of a whole message is sent as one that recipients read as its stored bytes. -/
theorem decode_hit_of_put {env env' : Environment} {request : Request} {w : World}
    {entry : CacheEntry} {h : Bytes} {left : List RecvOutcome} {f : Framing}
    {segments : List Segment} {response : Response}
    (put : Put env request w entry h left f segments response) {m : Wire}
    (stream : h ++ flat segments = m.render) (complete : Complete m) :
    decode (hit_message env' entry) = some ⟨m.body, []⟩ := by
  obtain ⟨status, body, headers⟩ := put_of_wire put stream
  have copied : ∀ key value, entry.headers.lookup key = some value →
      ∃ f ∈ m.fields, f.1 = key ∧ trim f.2 = trim value ∧ (10 : UInt8) ∉ value := by
    intro key value found
    obtain ⟨known, last, -⟩ := (headers key value).mp found
    exact fields_of_wire (header_names_clean key known).2.1 (last_value_mem last)
  have sendable : Sendable entry := by
    refine ⟨status ▸ m.status_line, ?_⟩
    intro key value found
    obtain ⟨f, -, -, -, clean⟩ := copied key value found
    exact ⟨((headers key value).mp found).1, clean⟩
  rw [← body]
  apply decode_hit sendable
  intro value found
  obtain ⟨f, hf, name, same, -⟩ := copied ContentLength value found
  rw [body, ← same]
  apply complete.length
  refine List.mem_map.mpr ⟨(f.1, trim f.2), List.mem_filter.mpr ⟨?_, ?_⟩, rfl⟩
  · exact List.mem_map.mpr ⟨f, hf, rfl⟩
  · rw [name]
    decide

theorem decode_complete {m : Wire} (complete : Complete m) :
    decode m.render = some ⟨m.body, []⟩ ↔
      valuesOf TransferEncoding m.trimmed = [] ∧ valuesOf ContentEncoding m.trimmed = [] := by
  rw [Wire.decode_render]
  rcases complete.coding with plain | ⟨-, value, coded, chunked, -⟩
  · simp [bodyOf_whole plain complete.length, plain]
  · have body : bodyOf m.trimmed m.body = dechunk m.body := by
      unfold bodyOf
      rw [coded]
      simp only [chunked, if_true]
    rw [body, coded]
    constructor
    · intro same
      obtain ⟨body, hbody, e⟩ := Option.map_eq_some_iff.mp same
      have shorter := dechunk_shorter hbody
      have := congrArg (fun r => r.body.length) e
      simp only at this
      omega
    · rintro ⟨none_coded, -⟩
      cases none_coded

/-- A hit that is sent completely is sent as its message. -/
theorem served_bytes {env : Environment} {entry : CacheEntry} {w w' : World}
    (start : w.client.written = []) (served : (serve env entry).run w = .ok true w') :
    w'.client.bytes = hit_message env entry := by
  obtain ⟨w₂, -, ends⟩ := serve_ends env entry w
  rcases ends with ⟨done, all⟩ | failed | waiting
  · cases served.symm.trans done
    rw [all]
    simp [Peer.bytes, start]
  · cases served.symm.trans failed
  · cases served.symm.trans waiting

/-- Of a run that stored something the client has the whole stream. -/
theorem stream_of_put {env : Environment} {request : Request} {k : Kernel} {entry : CacheEntry}
    {h : Bytes} {left : List RecvOutcome} {f : Framing} {segments : List Segment}
    {response : Response} (put : Put env request (World.start k) entry h left f segments response)
    {stream : Bytes}
    (relayed : ((forwardRequest env request).after (World.start k)).client.bytes = stream) :
    h ++ flat segments = stream := by
  obtain ⟨w', run, relays⟩ := put.relayed
  have all := relays.bytes
  rw [← relayed, after_of_ok run]
  exact all.symm

/-- The bytes of a hit and the relayed response decode alike exactly when the response has neither
a Transfer-Encoding nor a Content-Encoding. The reader takes a bare CR in a field for a space, which
is one of the two things that the standard lets it do; a hit has a CR behind most of its values, and
a reader that rejects it decodes no such hit at all. -/
theorem hit_representation_iff (env env' : Environment) (request request' : Request) (k : Kernel)
    (entry : CacheEntry) (m : Wire) (w w' : World)
    (put : (request.url, entry) ∈ ((forwardRequest env request).after (World.start k)).puts)
    (relayed : ((forwardRequest env request).after (World.start k)).client.bytes = m.render)
    (complete : Complete m) (hit : env'.lookup request'.url = some entry)
    (valid : entry.isExpired env'.now = false) (start : w.client.written = [])
    (served : (processGetRequest env' request').run w = .ok true w') :
    decode w'.client.bytes = decode m.render ↔
      valuesOf TransferEncoding m.trimmed = [] ∧ valuesOf ContentEncoding m.trimmed = [] := by
  obtain ⟨-, h, left, f, segments, response, put⟩ := put_cases rfl put
  have stream := stream_of_put put relayed
  rw [processGetRequest_hit hit valid] at served
  rw [served_bytes start served, decode_hit_of_put put stream complete]
  exact Iff.trans eq_comm (decode_complete complete)

/-! A chunked response of two bytes, and a hit on it. -/

def chunkedHead : Segment :=
  ⟨bytes "HTTP/1.1 200 OK\r\nTransfer-Encoding: chunked\r\n\r\n", by decide +kernel,
    by decide +kernel⟩

def chunkedBody : Segment := ⟨bytes "2\r\nab\r\n0\r\n\r\n", by decide, by decide⟩

def chunkedWire : Wire :=
  ⟨bytes "HTTP/1.1 200 OK", [(TransferEncoding, bytes " chunked")], chunkedBody.data,
    by decide +kernel, by decide +kernel, by decide +kernel⟩

def chunkedKernel : Kernel := plainKernel [.data chunkedHead, .data chunkedBody]

theorem chunked_complete : Complete chunkedWire :=
  ⟨by decide, Or.inr ⟨by decide, bytes "chunked", by decide, by decide, by decide⟩⟩

/-- The two segments are stored as an entry that never expires. -/
theorem chunked_put (iteration : Iteration) : ∃ entry : CacheEntry,
    (plain.url, entry) ∈ ((forwardRequest (plainEnvironment iteration) plain).after
      (World.start chunkedKernel)).puts ∧
    entry.data = chunkedBody.data ∧ entry.response_line = bytes "HTTP/1.1 200 OK" ∧
    entry.headers = ∅ ∧ entry.isExpired 0 = false := by
  have fields : header_fields chunkedHead.data = [(TransferEncoding, bytes "chunked")] := by
    decide +kernel
  have read : HeaderRead [] chunkedKernel.server_recvs chunkedHead.data [.data chunkedBody] :=
    .whole (by decide)
  exact lasting_of_puts rfl read (by rw [fields]; decide) (by rw [fields]; decide) 0

theorem chunked_relayed (iteration : Iteration) :
    ((forwardRequest (plainEnvironment iteration) plain).after
      (World.start chunkedKernel)).client.bytes = chunkedWire.render := rfl

def cachedEnvironment (iteration : Iteration) (entry : CacheEntry) : Environment :=
  { plainEnvironment iteration with lookup := fun _ => some entry }

theorem chunked_hit {entry : CacheEntry} (iteration : Iteration)
    (line : entry.response_line = bytes "HTTP/1.1 200 OK") (headers : entry.headers = ∅) :
    hit_headers (cachedEnvironment iteration entry) entry = bytes "HTTP/1.1 200 OK\r\n\r\n" := by
  have order : iteration.order ∅ = [] := Multiset.coe_eq_zero _ |>.mp (iteration.complete ∅)
  change entry.response_line ++ CRLF ++ (iteration.order entry.headers).flatMap _ ++ CRLF = _
  rw [line, headers, order]
  rfl

theorem cached_get {entry : CacheEntry} (iteration : Iteration)
    (valid : entry.isExpired 0 = false) :
    processGetRequest (cachedEnvironment iteration entry) plain =
      serve (cachedEnvironment iteration entry) entry := processGetRequest_hit rfl valid

/-- The client takes the whole hit. -/
theorem chunked_served {entry : CacheEntry} (iteration : Iteration)
    (line : entry.response_line = bytes "HTTP/1.1 200 OK") (headers : entry.headers = ∅)
    (data : entry.data = chunkedBody.data) (valid : entry.isExpired 0 = false) : ∃ w',
    (processGetRequest (cachedEnvironment iteration entry) plain).run
      (World.start chunkedKernel) = .ok true w' := by
  rw [cached_get iteration valid]
  unfold serve hit_message
  rw [chunked_hit iteration line headers, data]
  exact ⟨_, rfl⟩

theorem hit_representation_iff_chunked : ∃ w' : World,
    decode w'.client.bytes = decode chunkedWire.render ↔
      valuesOf TransferEncoding chunkedWire.trimmed = [] ∧
        valuesOf ContentEncoding chunkedWire.trimmed = [] := by
  obtain ⟨iteration⟩ := nonempty_iteration
  obtain ⟨entry, put, data, line, headers, valid⟩ := chunked_put iteration
  obtain ⟨w', served⟩ := chunked_served iteration line headers data valid
  exact ⟨w', hit_representation_iff (plainEnvironment iteration)
    (cachedEnvironment iteration entry) plain plain chunkedKernel entry chunkedWire
    (World.start chunkedKernel) w' put (chunked_relayed iteration) chunked_complete rfl valid rfl
    served⟩

/-- A hit on a chunked response hands out its chunks as the body. -/
theorem hit_not_always_alike : ¬ ∀ (env env' : Environment) (request request' : Request) (k : Kernel)
    (entry : CacheEntry) (m : Wire) (w w' : World),
    (request.url, entry) ∈ ((forwardRequest env request).after (World.start k)).puts →
    ((forwardRequest env request).after (World.start k)).client.bytes = m.render → Complete m →
    env'.lookup request'.url = some entry → entry.isExpired env'.now = false →
    w.client.written = [] → (processGetRequest env' request').run w = .ok true w' →
    decode w'.client.bytes = decode m.render := by
  intro all
  obtain ⟨iteration⟩ := nonempty_iteration
  obtain ⟨entry, put, data, line, headers, valid⟩ := chunked_put iteration
  obtain ⟨w', served⟩ := chunked_served iteration line headers data valid
  have alike := all (plainEnvironment iteration) (cachedEnvironment iteration entry) plain
    plain chunkedKernel entry chunkedWire (World.start chunkedKernel) w' put
    (chunked_relayed iteration) chunked_complete rfl valid rfl served
  rw [cached_get iteration valid] at served
  rw [served_bytes rfl served, hit_message, chunked_hit iteration line headers, data] at alike
  have different : decode (bytes "HTTP/1.1 200 OK\r\n\r\n" ++ chunkedBody.data) ≠
      decode chunkedWire.render := by decide +kernel
  exact different alike

end CachingProxy
