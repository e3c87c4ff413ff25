import CachingProxy.Representation
import CachingProxy.Admission

/-! Where a relayed message ends. The header loop looks for the framing in all that it has read,
the body loop looks at the end of each recv. -/
namespace CachingProxy
open Cpp Action Http

/-! ## What the body does to the framing -/

theorem content_length_text_eq (s : Bytes) : content_length_text s =
    (find (bytes "Content-Length: ") s).map (fun pos => response_line (s.drop (pos + 16))) := by
  unfold content_length_text
  congr 1
  funext pos
  dsimp only
  rw [findFrom, response_line]
  cases find CRLF (s.drop (pos + 16)) with
  | none => rfl
  | some e => simp

/-- The first line does not depend on what follows it. -/
theorem response_line_append (s t : Bytes) : response_line (s ++ CRLF ++ t) = response_line (s ++ CRLF) := by
  have ends : contains (s ++ CRLF) CRLF = true := by
    rw [contains_iff]
    exact List.suffix_append s CRLF |>.isInfix
  obtain ⟨e, found⟩ := Option.isSome_iff_exists.mp ends
  have fits := find_le found
  rw [response_line, response_line, find_append found t, found]
  exact List.take_append_of_le_length (by omega)

theorem announced_declared {h : Bytes} (declares : contains h (bytes "Content-Length: ") = true)
    (b : Bytes) : announced (h ++ CRLFCRLF ++ b) = announced (h ++ CRLF) := by
  obtain ⟨pos, found⟩ := Option.isSome_iff_exists.mp declares
  have fits := find_le found
  have sixteen : (bytes "Content-Length: ").length = 16 := rfl
  rw [sixteen] at fits
  have split : h ++ CRLFCRLF ++ b = h ++ (CRLF ++ (CRLF ++ b)) := by
    simp [CRLF_eq, CRLFCRLF_eq]
  have same : content_length_text (h ++ CRLFCRLF ++ b) = content_length_text (h ++ CRLF) := by
    rw [content_length_text_eq, content_length_text_eq, split, find_append found, find_append found]
    rw [Option.map_some, Option.map_some, List.drop_append_of_le_length fits,
      List.drop_append_of_le_length fits, ← List.append_assoc, response_line_append]
  rw [announced, announced, same]

theorem announced_undeclared {h : Bytes} (silent : contains h (bytes "Content-Length: ") = false)
    (b : Bytes) : announced (h ++ CRLFCRLF ++ b) = announced b := by
  have absent : find (bytes "Content-Length: ") h = none := by
    simpa [contains] using silent
  have same : content_length_text (h ++ CRLFCRLF ++ b) = content_length_text b := by
    rw [content_length_text_eq, content_length_text_eq,
      find_after_end (by decide) (by decide +kernel) absent, Option.map_map]
    congr 1
    funext pos
    have width : (h ++ CRLFCRLF).length = h.length + 4 := by simp [CRLFCRLF_eq]
    have behind : pos + (h.length + 4) + 16 = (h ++ CRLFCRLF).length + (pos + 16) := by omega
    rw [Function.comp_apply, behind, List.drop_length_add_append]
  rw [announced, announced, same]

theorem announces_chunks_over (h b : Bytes) :
    announces_chunks (h ++ CRLFCRLF ++ b) = (announces_chunks h || announces_chunks b) := by
  unfold announces_chunks contains
  cases found : find (bytes "Transfer-Encoding: chunked") h with
  | some pos =>
    rw [List.append_assoc, find_append found]
    rfl
  | none =>
    rw [find_after_end (by decide) (by decide +kernel) found]
    simp

/-- What is announced before the body, or in it when nothing is. -/
def announced_over (h b : Bytes) : Option Nat :=
  if contains h (bytes "Content-Length: ") then announced (h ++ CRLF) else announced b

theorem announced_eq (h b : Bytes) : announced (h ++ CRLFCRLF ++ b) = announced_over h b := by
  unfold announced_over
  split
  · rename_i declares
    exact announced_declared declares b
  · rename_i silent
    exact announced_undeclared (by simpa using silent) b

/-- Two bodies get one framing exactly when the header block or both alike announce the length,
and, if it is a number, the header block or both alike announce chunks. -/
theorem framing_unaffected_iff (h b₁ b₂ : Bytes) :
    (scan_framing (h ++ CRLFCRLF ++ b₁)).toOption = (scan_framing (h ++ CRLFCRLF ++ b₂)).toOption ↔
      (contains h (bytes "Content-Length: ") = true ∨ announced b₁ = announced b₂) ∧
      (announced_over h b₁ = none ∨ announces_chunks h = true ∨
        announces_chunks b₁ = announces_chunks b₂) := by
  rw [scan_framing_eq, scan_framing_eq, announced_eq, announced_eq, announces_chunks_over,
    announces_chunks_over]
  have lengths : announced_over h b₁ = announced_over h b₂ ↔
      contains h (bytes "Content-Length: ") = true ∨ announced b₁ = announced b₂ := by
    unfold announced_over
    split <;> simp [*]
  have chunks : (announces_chunks h || announces_chunks b₁) =
      (announces_chunks h || announces_chunks b₂) ↔
      announces_chunks h = true ∨ announces_chunks b₁ = announces_chunks b₂ := by
    cases announces_chunks h <;> simp
  rw [← lengths, ← chunks]
  cases announced_over h b₁ with
  | none => cases announced_over h b₂ <;> simp
  | some n => cases announced_over h b₂ <;> simp

/-- A page that mentions a length sets one. -/
theorem framing_not_unaffected : ¬ ∀ h b₁ b₂ : Bytes, find CRLFCRLF h = none →
    (scan_framing (h ++ CRLFCRLF ++ b₁)).toOption =
      (scan_framing (h ++ CRLFCRLF ++ b₂)).toOption := by
  intro all
  have same := all (bytes "HTTP/1.1 200 OK") [] (bytes "Content-Length: 5") (by decide)
  have different : (scan_framing (bytes "HTTP/1.1 200 OK" ++ CRLFCRLF ++ [])).toOption ≠
      (scan_framing (bytes "HTTP/1.1 200 OK" ++ CRLFCRLF ++ bytes "Content-Length: 5")).toOption := by
    decide
  exact different same

/-! ## The segments of a message -/

/-- What the header loop returns when these segments arrive after `s`, and those it leaves. -/
def header_split (s : Bytes) : List Segment → Bytes × List Segment
  | [] => (s, [])
  | segment :: rest =>
    if (find CRLFCRLF (s ++ segment.data)).isSome then (s ++ segment.data, rest)
    else header_split (s ++ segment.data) rest

theorem header_split_flat (s : Bytes) (segments : List Segment) :
    (header_split s segments).1 ++ flat (header_split s segments).2 = s ++ flat segments := by
  induction segments generalizing s with
  | nil => rfl
  | cons segment rest ih =>
    unfold header_split
    split
    · simp
    · rw [ih]
      simp

/-- Segments with a whole header block are read as header_split says, whatever comes later. -/
theorem header_split_read {s : Bytes} {segments : List Segment} (missing : find CRLFCRLF s = none)
    (whole : (find CRLFCRLF (s ++ flat segments)).isSome) (later : List RecvOutcome) :
    (find CRLFCRLF (header_split s segments).1).isSome ∧ ∃ added,
      (header_split s segments).1 = s ++ added ∧
      HeaderRead s (segments.map .data ++ later) added
        ((header_split s segments).2.map .data ++ later) := by
  induction segments generalizing s with
  | nil => simp [missing] at whole
  | cons segment rest ih =>
    unfold header_split
    split
    · rename_i found
      exact ⟨found, segment.data, rfl, .whole found⟩
    · rename_i not_yet
      have none_yet : find CRLFCRLF (s ++ segment.data) = none := by simpa using not_yet
      rw [flat_cons, ← List.append_assoc] at whole
      obtain ⟨found, added, split, read⟩ := ih none_yet whole
      exact ⟨found, segment.data ++ added, by rw [split, List.append_assoc], .more none_yet read⟩

/-- The origin is asked, and the client takes all segments, those of the header block as one. -/
structure Through (env : Environment) (request : Request) (w : World) (segments : List Segment) :
    Prop where
  contacted : Contacted env request w.server.sends
  taken : ∃ next left, SentAll w.client.sends (header_split [] segments).1 next ∧
    SentEach next (header_split [] segments).2 left

/-! ## The body loop on its own -/

/-- The test holds after some segment, the body being `b` bytes and those of the segments. -/
theorem stops_iff (f : Framing) (b : Nat) (segments : List Segment) :
    (∃ j, Stop f b segments j) ↔
      if f.is_chunked then ∃ segment ∈ segments, bytes "0\r\n\r\n" <:+ segment.data
      else segments ≠ [] ∧ 0 < f.content_length ∧ f.content_length ≤ b + (flat segments).length := by
  split
  · rename_i chunked
    constructor
    · rintro ⟨j, segment, here, stop⟩
      exact ⟨segment, List.mem_of_getElem? here, (complete_chunked chunked _ _).mp stop⟩
    · rintro ⟨segment, mem, ends⟩
      obtain ⟨j, here⟩ := List.getElem?_of_mem mem
      exact ⟨j, segment, here, (complete_chunked chunked _ _).mpr ends⟩
  · rename_i other
    have unchunked : f.is_chunked = false := by simpa using other
    constructor
    · rintro ⟨j, segment, here, stop⟩
      obtain ⟨positive, reached⟩ := (complete_declared unchunked _ _).mp stop
      have inside : count b segments (j + 1) ≤ b + (flat segments).length := by
        have part : flat (segments.take (j + 1)) <+: flat segments := by
          refine ⟨flat (segments.drop (j + 1)), ?_⟩
          rw [flat, flat, flat, ← List.flatten_append, ← List.map_append, List.take_append_drop]
        exact Nat.add_le_add_left part.length_le b
      refine ⟨?_, positive, by omega⟩
      rintro rfl
      cases here
    · rintro ⟨filled, positive, reached⟩
      have some_segment := List.length_pos_iff.mpr filled
      refine ⟨segments.length - 1, segments.getLast filled, ?_, ?_⟩
      · rw [← List.getLast?_eq_getElem?, List.getLast?_eq_some_getLast filled]
      · rw [complete_declared unchunked, count, Nat.sub_add_cancel some_segment, List.take_length]
        exact ⟨positive, reached⟩

/-- One turn of the body loop: the segment goes through and the test decides, or it does not. -/
theorem bodyLoop_turn (f : Framing) (is_cacheable : Bool) (buffer : Bytes) (n : Nat)
    (segment : Segment) (rest : List RecvOutcome) (w : World) :
    (∃ left, SentAll w.client.sends segment.data left ∧
      (bodyLoop f is_cacheable buffer n (.data segment :: rest)).after w =
        if f.complete (n + segment.data.length) segment.data then
          (w.got .server segment.data rest).sent .client .peer segment.data left
        else (bodyLoop f is_cacheable (if is_cacheable then buffer ++ segment.data else buffer)
            (n + segment.data.length) rest).after
          ((w.got .server segment.data rest).sent .client .peer segment.data left)) ∨
    (∀ left, ¬ SentAll w.client.sends segment.data left) ∧ ∃ accepted left,
      (bodyLoop f is_cacheable buffer n (.data segment :: rest)).after w =
        (w.got .server segment.data rest).sent .client .peer accepted left := by
  rcases bodyLoop_data f is_cacheable buffer n segment rest w with
    ⟨left, all, turn⟩ | ⟨never, accepted, left, -, run⟩
  · refine Or.inl ⟨left, all, ?_⟩
    cases stop : f.complete (n + segment.data.length) segment.data with
    | true =>
      rw [stop] at turn
      exact after_of_ok turn
    | false =>
      rw [stop] at turn
      exact after_congr turn
  · refine Or.inr ⟨never, accepted, left, ?_⟩
    rcases run with run | run
    · exact after_of_ok run
    · exact after_of_error run

/-- `m` has arrived from the origin and has been passed on to the client. -/
structure Delivers (w w' : World) (m : Bytes) : Prop where
  received : w.server.received ++ m <+: w'.server.received
  forwarded : w.client.bytes ++ m <+: w'.client.bytes

theorem delivers_relayed {w w' : World} {m received delivered : Bytes}
    (relays : Relays w w' delivered received) :
    Delivers w w' m ↔ m <+: received ∧ m <+: delivered := by
  have parts : Delivers w w' m ↔ w.server.received ++ m <+: w'.server.received ∧
      w.client.bytes ++ m <+: w'.client.bytes := ⟨fun h => ⟨h.1, h.2⟩, fun h => ⟨h.1, h.2⟩⟩
  rw [parts, relays.received, relays.bytes, List.prefix_append_right_inj,
    List.prefix_append_right_inj]

theorem delivers_after {w w₁ w' : World} {d m : Bytes} (relays : Relays w w₁ d d) :
    Delivers w w' (d ++ m) ↔ Delivers w₁ w' m := by
  constructor
  · rintro ⟨received, forwarded⟩
    refine ⟨?_, ?_⟩
    · rw [relays.received, List.append_assoc]
      exact received
    · rw [relays.bytes, List.append_assoc]
      exact forwarded
  · rintro ⟨received, forwarded⟩
    rw [relays.received, List.append_assoc] at received
    rw [relays.bytes, List.append_assoc] at forwarded
    exact ⟨received, forwarded⟩

theorem bodyLoop_grows (f : Framing) (is_cacheable : Bool) (buffer : Bytes) (n : Nat)
    (recvs : List RecvOutcome) (w : World) :
    Delivers w ((bodyLoop f is_cacheable buffer n recvs).after w) [] := by
  rcases bodyLoop_ends f is_cacheable buffer n recvs w with
    ⟨segments, left, w', -, run, relays⟩ | ⟨w', delivered, received, -, relays, run⟩
  · rw [after_of_ok run]
    exact (delivers_relayed relays).mpr ⟨List.nil_prefix, List.nil_prefix⟩
  · have last : (bodyLoop f is_cacheable buffer n recvs).after w = w' := by
      rcases run with run | run
      · exact after_of_ok run
      · exact after_of_error run
    rw [last]
    exact (delivers_relayed relays).mpr ⟨List.nil_prefix, List.nil_prefix⟩

theorem flat_eq_nil {segments : List Segment} (h : flat segments = []) : segments = [] := by
  cases segments with
  | nil => rfl
  | cons segment segments =>
    rw [flat_cons, List.append_eq_nil_iff] at h
    exact absurd h.1 segment.some_bytes

/-- Where every segment gets through, all of them do exactly when no test holds too early. -/
theorem bodyLoop_delivers_iff (f : Framing) (is_cacheable : Bool) (buffer : Bytes) (n : Nat)
    (segments : List Segment) (later : List RecvOutcome) (w : World) (left : List SendOutcome)
    (taken : SentEach w.client.sends segments left) :
    Delivers w ((bodyLoop f is_cacheable buffer n (segments.map .data ++ later)).after w)
        (flat segments) ↔ ∀ j, j + 1 < segments.length → ¬ Stop f n segments j := by
  induction segments generalizing buffer n w with
  | nil => exact iff_of_true (bodyLoop_grows _ _ _ _ _ w) (by simp)
  | cons segment segments ih =>
    cases taken with
    | @cons _ next _ _ _ first rest =>
      rcases bodyLoop_turn f is_cacheable buffer n segment (segments.map .data ++ later) w with
        ⟨next', all, turn⟩ | ⟨never, -⟩
      · obtain rfl := first.2.symm.trans all.2
        have relays : Relays w ((w.got .server segment.data (segments.map .data ++ later)).sent
            .client .peer segment.data next) segment.data segment.data :=
          relays_sent segment.data next _
        rw [List.map_cons, List.cons_append, turn, flat_cons]
        split
        · rename_i stop
          rw [delivers_relayed relays]
          constructor
          · rintro ⟨inside, -⟩ j less
            have nothing : segments = [] := by
              apply flat_eq_nil
              have := inside.length_le
              rw [List.length_append] at this
              exact List.eq_nil_of_length_eq_zero (by omega)
            rw [nothing] at less
            simp only [List.length_singleton] at less
            omega
          · intro late
            have alone : segments = [] := by
              by_contra more
              have some_more := List.length_pos_iff.mpr more
              exact late 0 (by simpa using some_more) ((stop_first f n segment segments).mpr stop)
            simp [alone]
        · rename_i go
          rw [delivers_after relays, ih _ _ _ rest]
          constructor
          · intro late j less
            cases j with
            | zero => rw [stop_first]; exact go
            | succ j =>
              rw [stop_cons]
              exact late j (by simpa using less)
          · intro late j less
            rw [← stop_cons f n segment]
            exact late (j + 1) (by simpa using less)
      · exact absurd first (never _)

/-! ## The whole run -/

/-- After the framing is found, the sockets end as the body loop leaves them. -/
theorem relayBody_after (env : Environment) (request : Request) {h : Bytes} {f : Framing}
    (framing : scan_framing h = .ok f) (w : World) : ∃ is_cacheable buffer,
      (((relayBody env request h).after w).client, ((relayBody env request h).after w).server) =
        (((bodyLoop f is_cacheable buffer (initial_body h).length w.server.recvs).after w).client,
          ((bodyLoop f is_cacheable buffer (initial_body h).length w.server.recvs).after w).server) := by
  refine ⟨is_cacheable request h, if is_cacheable request h then initial_body h else [], ?_⟩
  let sockets : World → Peer × Peer := fun w => (w.client, w.server)
  change sockets _ = sockets _
  unfold relayBody
  rw [after_congr (bind_of_ok (run_ofExcept_ok framing w) _),
    after_congr (bind_of_ok (run_get w) _)]
  apply after_bind_of_keeps
  intro read
  cases read with
  | none => exact keeps_pure _
  | some body =>
    exact keeps_ite (keeps_bind (keeps_store (fun _ _ => rfl) _ _ _ _ _) (fun _ => keeps_pure _))
      (keeps_bind (keeps_pure _) (fun _ => keeps_pure _))

theorem relayBody_rejected (env : Environment) (request : Request) {h : Bytes} {e : Exception}
    (framing : scan_framing h = .error e) (w : World) : (relayBody env request h).after w = w :=
  after_of_error (bind_of_error (run_ofExcept_error framing w) _)

theorem framing_of_unannounced {h : Bytes} (refused : announced h = none) :
    ∃ e, scan_framing h = .error e := by
  have scanned := scan_framing_eq h
  rw [refused] at scanned
  cases framing : scan_framing h with
  | error e => exact ⟨e, rfl⟩
  | ok f =>
    rw [framing] at scanned
    cases scanned

theorem Through.opened {env : Environment} {request : Request} {w : World}
    {segments : List Segment} (through : Through env request w segments)
    {later : List RecvOutcome} (recvs : w.server.recvs = segments.map .data ++ later)
    (whole : (find CRLFCRLF (flat segments)).isSome) : ∃ next left,
      Opened env request w (header_split [] segments).1
        ((header_split [] segments).2.map .data ++ later) next ∧
      SentEach next (header_split [] segments).2 left := by
  obtain ⟨next, left, first, rest⟩ := through.taken
  obtain ⟨found, added, split, read⟩ := header_split_read (s := []) (by decide) whole later
  rw [List.nil_append] at split
  refine ⟨next, left, ⟨through.contacted, ?_, ?_, first⟩, rest⟩
  · rw [recvs, split]
    exact read
  · intro empty
    rw [empty] at found
    cases found

/-! ## Chunked responses -/

/-- A response with the line and a whole body in chunks. -/
structure Chunked (message : Bytes) : Prop where
  block : ∃ pos, find CRLFCRLF message = some pos ∧ (dechunk (message.drop (pos + 4))).isSome
  line : bytes "Transfer-Encoding: chunked" ∈ headLines message

theorem announces_chunks_of_line {message h rest : Bytes} (chunked : Chunked message)
    (split : h ++ rest = message) (found : (find CRLFCRLF h).isSome) :
    announces_chunks h = true := by
  obtain ⟨pos, at_pos⟩ := Option.isSome_iff_exists.mp found
  have inside := find_le at_pos
  have four : CRLFCRLF.length = 4 := rfl
  have line := (linesOf_inside _).2 _ chunked.line
  rw [← split, find_append at_pos, Option.getD_some, List.take_append_of_le_length (by omega)] at line
  exact (contains_iff _ _).mpr (line.trans (List.take_prefix _ h).isInfix)

theorem Chunked.whole {message : Bytes} (chunked : Chunked message) :
    (find CRLFCRLF message).isSome := by
  obtain ⟨pos, found, -⟩ := chunked.block
  rw [found]
  rfl

theorem mem_dropLast_iff {segments : List Segment} {segment : Segment} :
    segment ∈ segments.dropLast ↔ ∃ j, j + 1 < segments.length ∧ segments[j]? = some segment := by
  rw [List.mem_iff_getElem?]
  refine exists_congr (fun j => ?_)
  rw [List.getElem?_dropLast]
  split
  · rename_i inside
    exact ⟨fun h => ⟨by omega, h⟩, fun h => h.2⟩
  · rename_i outside
    exact ⟨fun h => (by cases h), fun h => absurd h.1 (by omega)⟩

/-- A chunked response gets through whole exactly when it comes with its header block, or no recv
of the body but the last one ends like a last chunk. -/
theorem chunked_whole_iff (env : Environment) (request : Request) (w : World)
    (segments : List Segment) (later : List RecvOutcome)
    (recvs : w.server.recvs = segments.map .data ++ later) (chunked : Chunked (flat segments))
    (through : Through env request w segments) :
    Delivers w ((forwardRequest env request).after w) (flat segments) ↔
      (header_split [] segments).2 = [] ∨ announced (header_split [] segments).1 ≠ none ∧
        ∀ segment ∈ (header_split [] segments).2.dropLast,
          ¬ bytes "0\r\n\r\n" <:+ segment.data := by
  obtain ⟨found, -⟩ := header_split_read (s := []) (by decide) chunked.whole later
  have split : (header_split [] segments).1 ++ flat (header_split [] segments).2 = flat segments :=
    header_split_flat [] segments
  have chunks := announces_chunks_of_line chunked split found
  obtain ⟨next, left, opened, rest⟩ := through.opened recvs chunked.whole
  generalize header_split [] segments = parts at split chunks opened rest ⊢
  obtain ⟨h, back⟩ := parts
  dsimp only at split chunks opened rest ⊢
  obtain ⟨w₁, relays, sends, recvs₁, run⟩ := opened_run opened
  rw [after_congr run, ← split, delivers_after relays]
  cases announces : announced h with
  | none =>
    obtain ⟨e, framing⟩ := framing_of_unannounced announces
    rw [relayBody_rejected env request framing]
    constructor
    · intro delivers
      refine .inl (flat_eq_nil ?_)
      have := delivers.received.length_le
      rw [List.length_append] at this
      exact List.eq_nil_of_length_eq_zero (by omega)
    · rintro (rfl | ⟨number, -⟩)
      · exact ⟨by simp, by simp⟩
      · exact absurd rfl number
  | some n =>
    obtain ⟨is_cacheable, buffer, same⟩ :=
      relayBody_after env request (framing_of_announced announces) w₁
    have ends : Delivers w₁ ((relayBody env request h).after w₁) (flat back) ↔
        Delivers w₁ ((bodyLoop ⟨n, announces_chunks h⟩ is_cacheable buffer (initial_body h).length
          w₁.server.recvs).after w₁) (flat back) := by
      constructor
      · rintro ⟨received, forwarded⟩
        exact ⟨(Prod.mk.inj same).2 ▸ received, (Prod.mk.inj same).1 ▸ forwarded⟩
      · rintro ⟨received, forwarded⟩
        exact ⟨(Prod.mk.inj same).2 ▸ received, (Prod.mk.inj same).1 ▸ forwarded⟩
    rw [ends, recvs₁, bodyLoop_delivers_iff _ _ _ _ back later w₁ left (sends ▸ rest)]
    constructor
    · intro late
      refine .inr ⟨by simp, ?_⟩
      intro segment mem early
      obtain ⟨j, less, here⟩ := mem_dropLast_iff.mp mem
      exact late j less ⟨segment, here, (complete_chunked chunks _ _).mpr early⟩
    · rintro (rfl | ⟨-, late⟩) j less
      · simp at less
      · rintro ⟨segment, here, stop⟩
        exact late segment (mem_dropLast_iff.mpr ⟨j, less, here⟩)
          ((complete_chunked chunks _ _).mp stop)

/-! A chunk whose five bytes look like the end, at the end of a recv. -/

def misleadingChunk : Segment := ⟨bytes "5\r\n0\r\n\r\n", by decide, by decide⟩
def lastChunk : Segment := ⟨bytes "\r\n0\r\n\r\n", by decide, by decide⟩

def misleading : List Segment := [chunkedHead, misleadingChunk, lastChunk]

theorem plain_contacted (iteration : Iteration) (answer : List RecvOutcome) :
    Contacted (plainEnvironment iteration) plain (World.start (plainKernel answer)).server.sends := by
  refine ⟨by decide, ⟨3, rfl, by decide⟩, ⟨80, 2130706433, by decide +kernel, rfl, rfl⟩, ?_⟩
  exact sentAll_room (by decide +kernel) []

theorem misleading_chunked : Chunked (flat misleading) :=
  ⟨⟨43, by decide +kernel, by decide +kernel⟩, by decide +kernel⟩

theorem sentAll_took {data : Bytes} {outcome : SendOutcome} (filled : data ≠ [])
    (room : (data.length : Int) ≤ outcome.sent) (sends : List SendOutcome) :
    SentAll (outcome :: sends) data sends := by
  have more := List.length_pos_iff.mpr filled
  have took := @sendLoop_took data 0 outcome sends more data.length more (by omega)
  rw [Nat.zero_add, sendLoop_done (Nat.le_refl _)] at took
  exact ⟨by rw [took], by rw [took]⟩

theorem misleading_through (iteration : Iteration) (later : List RecvOutcome) :
    Through (plainEnvironment iteration) plain
      (World.start (plainKernel (misleading.map .data ++ later))) misleading := by
  have split : header_split [] misleading = (chunkedHead.data, [misleadingChunk, lastChunk]) := by
    decide +kernel
  refine ⟨plain_contacted iteration _, ?_⟩
  rw [split]
  exact ⟨_, _, sentAll_took chunkedHead.some_bytes (by decide +kernel) _,
    .cons (sentAll_took misleadingChunk.some_bytes (by decide) _)
      (.cons (sentAll_took lastChunk.some_bytes (by decide) _) .nil)⟩

theorem chunked_whole_iff_misleading : ∃ iteration : Iteration,
    Delivers (World.start (plainKernel (misleading.map .data)))
        ((forwardRequest (plainEnvironment iteration) plain).after
          (World.start (plainKernel (misleading.map .data)))) (flat misleading) ↔
      (header_split [] misleading).2 = [] ∨ announced (header_split [] misleading).1 ≠ none ∧
        ∀ segment ∈ (header_split [] misleading).2.dropLast,
          ¬ bytes "0\r\n\r\n" <:+ segment.data := by
  obtain ⟨iteration⟩ := nonempty_iteration
  exact ⟨iteration, chunked_whole_iff _ _ _ misleading [] rfl misleading_chunked
    (misleading_through iteration [])⟩

theorem chunked_cut_short : ¬ ∀ (env : Environment) (request : Request) (w : World)
    (segments : List Segment) (later : List RecvOutcome),
    w.server.recvs = segments.map .data ++ later → Chunked (flat segments) →
    Through env request w segments →
    Delivers w ((forwardRequest env request).after w) (flat segments) := by
  intro all
  obtain ⟨iteration⟩ := nonempty_iteration
  have delivers := all (plainEnvironment iteration) plain
    (World.start (plainKernel (misleading.map .data))) misleading [] rfl misleading_chunked
    (misleading_through iteration [])
  have received : ((forwardRequest (plainEnvironment iteration) plain).after
      (World.start (plainKernel (misleading.map .data)))).server.received =
      flat [chunkedHead, misleadingChunk] := rfl
  have short := delivers.received.length_le
  rw [received] at short
  revert short
  decide +kernel

/-! ## Responses with a length -/

/-- By the time the whole message is here, a test of the body loop has held. -/
def Recognised (segments : List Segment) (n : Nat) : Prop :=
  if announces_chunks (header_split [] segments).1 then
    ∃ segment ∈ (header_split [] segments).2, bytes "0\r\n\r\n" <:+ segment.data
  else (header_split [] segments).2 ≠ [] ∧
    ∃ k, announced (header_split [] segments).1 = some k ∧ 0 < k ∧ k ≤ n

/-- The body loop always makes a recv. -/
theorem bodyLoop_recvs (f : Framing) (is_cacheable : Bool) (buffer : Bytes) (n : Nat)
    (outcome : RecvOutcome) (rest : List RecvOutcome) (w : World) :
    ((bodyLoop f is_cacheable buffer n (outcome :: rest)).after w).server.recvs <:+ rest := by
  induction rest generalizing buffer n outcome w with
  | nil =>
    cases outcome with
    | closed => exact List.suffix_refl _
    | failed errno => exact List.suffix_refl _
    | data segment =>
      rcases bodyLoop_turn f is_cacheable buffer n segment [] w with
        ⟨left, -, turn⟩ | ⟨-, accepted, left, turn⟩
      · rw [turn]
        split <;> exact List.suffix_refl _
      · rw [turn]
        exact List.suffix_refl _
  | cons next rest ih =>
    cases outcome with
    | closed => exact List.suffix_refl _
    | failed errno => exact List.suffix_refl _
    | data segment =>
      rcases bodyLoop_turn f is_cacheable buffer n segment (next :: rest) w with
        ⟨left, -, turn⟩ | ⟨-, accepted, left, turn⟩
      · rw [turn]
        split
        · exact List.suffix_refl _
        · exact (ih _ _ _ _).trans (List.suffix_cons next rest)
      · rw [turn]
        exact List.suffix_refl _

/-- What comes after the segments is left unread exactly when a test holds or a send fails. -/
theorem bodyLoop_leaves_iff (f : Framing) (is_cacheable : Bool) (buffer : Bytes) (n : Nat)
    (segments : List Segment) (next : RecvOutcome) (later : List RecvOutcome) (w : World) :
    next :: later <:+ ((bodyLoop f is_cacheable buffer n
        (segments.map .data ++ next :: later)).after w).server.recvs ↔
      ((∃ left, SentEach w.client.sends segments left) → ∃ j, Stop f n segments j) := by
  induction segments generalizing buffer n w with
  | nil =>
    refine iff_of_false ?_ ?_
    · intro unread
      have less := (unread.trans (bodyLoop_recvs f is_cacheable buffer n next later w)).length_le
      rw [List.length_cons] at less
      omega
    · intro stops
      obtain ⟨j, segment, here, -⟩ := stops ⟨_, .nil⟩
      cases here
  | cons segment segments ih =>
    have unread : next :: later <:+ segments.map .data ++ next :: later := List.suffix_append _ _
    rcases bodyLoop_turn f is_cacheable buffer n segment (segments.map .data ++ next :: later) w with
      ⟨left, all, turn⟩ | ⟨never, accepted, left, turn⟩
    · rw [List.map_cons, List.cons_append, turn]
      split
      · rename_i stop
        exact iff_of_true unread (fun _ => ⟨0, (stop_first f n segment segments).mpr stop⟩)
      · rename_i go
        rw [ih]
        constructor
        · rintro stops ⟨left', each⟩
          cases each with
          | cons first rest =>
            obtain rfl := first.2.symm.trans all.2
            obtain ⟨j, stop⟩ := stops ⟨left', rest⟩
            exact ⟨j + 1, (stop_cons f n segment segments j).mpr stop⟩
        · rintro stops ⟨left', each⟩
          obtain ⟨j, stop⟩ := stops ⟨left', .cons all each⟩
          cases j with
          | zero => exact absurd ((stop_first f n segment segments).mp stop) go
          | succ j => exact ⟨j, (stop_cons f n segment segments j).mp stop⟩
    · rw [List.map_cons, List.cons_append, turn]
      refine iff_of_true unread ?_
      rintro ⟨left', each⟩
      cases each with
      | cons first rest => exact absurd first (never _)

theorem keeps_recvs_contactOrigin (env : Environment) (request : Request) :
    Keeps (fun w => w.server.recvs) (contactOrigin env request) := by
  apply keeps_contactOrigin
  · intro fd w source accepted left
    cases fd <;> rfl
  · exact fun _ _ => rfl

theorem headerRead_suffix {s added : Bytes} {recvs left : List RecvOutcome}
    (read : HeaderRead s recvs added left) : left <:+ recvs := by
  induction read with
  | @ended s outcome left no_data => exact List.suffix_cons outcome left
  | @whole s segment left found => exact List.suffix_cons _ left
  | @more s segment rest added left missing later ih => exact ih.trans (List.suffix_cons _ rest)

/-- Unless the header bytes are relayed, no recv is made but those of the header loop. -/
theorem unopened_leaves {env : Environment} {request : Request} {w : World} {h : Bytes}
    {left : List RecvOutcome} (read : HeaderRead [] w.server.recvs h left) (answered : h ≠ [])
    (unopened : ¬ ∃ next, Opened env request w h left next) :
    left <:+ ((forwardRequest env request).after w).server.recvs := by
  by_cases contacted : Contacted env request w.server.sends
  · obtain ⟨w₁, contact, asked⟩ := contactOrigin_of_contacted contacted
    have read₁ : HeaderRead [] w₁.server.recvs h left := asked.recvs ▸ read
    have start : (forwardRequest env request).run w =
        (do
          if !(← sendAll .client .peer h) then return false
          relayBody env request h : Handling Bool).run (w₁.got .server h left) := by
      unfold forwardRequest
      rw [bind_of_ok contact, if_neg (by decide), bind_of_ok (run_get w₁),
        bind_of_ok (headerLoop_of_read read₁ w₁), List.nil_append,
        if_neg (by simpa using answered)]
    rw [after_congr start]
    rcases sendAll_ends .client .peer h (w₁.got .server h left) with
      ⟨next, all⟩ | ⟨-, accepted, next, -, run | run⟩
    · have taken : SentAll w₁.client.sends h next := all
      exact absurd ⟨next, contacted, read, answered, asked.client ▸ taken⟩ unopened
    · rw [after_congr (bind_of_ok run _)]
      exact List.suffix_refl left
    · rw [after_of_error (bind_of_error run _)]
      exact List.suffix_refl left
  · have kept := keeps_recvs_contactOrigin env request w
    dsimp only at kept
    have unread : ((forwardRequest env request).after w).server.recvs = w.server.recvs := by
      obtain ⟨w', ⟨e, run, -⟩ | ⟨-, -, -, run | run⟩⟩ := contactOrigin_ends contacted
      · rw [after_of_error run] at kept
        rw [forwardRequest, after_of_error (bind_of_error run _), kept]
      · rw [after_of_ok run] at kept
        rw [forwardRequest, after_congr (bind_of_ok run _), if_pos (by decide)]
        exact kept
      · rw [after_of_error run] at kept
        rw [forwardRequest, after_of_error (bind_of_error run _), kept]
    rw [unread]
    exact headerRead_suffix read

theorem initial_body_append {h : Bytes} (found : (find CRLFCRLF h).isSome) (t : Bytes) :
    initial_body (h ++ t) = initial_body h ++ t := by
  obtain ⟨pos, at_pos⟩ := Option.isSome_iff_exists.mp found
  have inside := find_le at_pos
  have four : CRLFCRLF.length = 4 := rfl
  simp only [initial_body, find_append at_pos, at_pos]
  exact List.drop_append_of_le_length (by omega)

/-- What comes after a message with a length is left unread exactly when the relaying breaks off
before, stoi throws, or a test of the body loop holds. -/
theorem no_read_past_iff (env : Environment) (request : Request) (w : World)
    (segments : List Segment) (next : RecvOutcome) (later : List RecvOutcome) (n : Nat)
    (recvs : w.server.recvs = segments.map .data ++ next :: later)
    (declares : Declares (flat segments) n) (length : (initial_body (flat segments)).length = n) :
    next :: later <:+ ((forwardRequest env request).after w).server.recvs ↔
      ¬ Through env request w segments ∨ announced (header_split [] segments).1 = none ∨
        Recognised segments n := by
  have whole : (find CRLFCRLF (flat segments)).isSome := by
    obtain ⟨pos, found, -⟩ := declares
    rw [found]
    rfl
  obtain ⟨found, added, same, read⟩ := header_split_read (s := []) (by decide) whole (next :: later)
  have split : (header_split [] segments).1 ++ flat (header_split [] segments).2 = flat segments :=
    header_split_flat [] segments
  rw [List.nil_append] at same
  subst same
  rw [← recvs] at read
  unfold Recognised
  have through_iff : Through env request w segments ↔ ∃ sends,
      Opened env request w (header_split [] segments).1
        ((header_split [] segments).2.map .data ++ next :: later) sends ∧
      ∃ left, SentEach sends (header_split [] segments).2 left := by
    constructor
    · intro through
      obtain ⟨sends, left, opened, rest⟩ := through.opened recvs whole
      exact ⟨sends, opened, left, rest⟩
    · rintro ⟨sends, opened, left, rest⟩
      exact ⟨opened.contacted, sends, left, opened.sent, rest⟩
  rw [through_iff]
  generalize header_split [] segments = parts at found split read ⊢
  obtain ⟨h, back⟩ := parts
  dsimp only at found split read ⊢
  have answered : h ≠ [] := by
    rintro rfl
    cases found
  have body : (initial_body h).length + (flat back).length = n := by
    rw [← length, ← split, initial_body_append found, List.length_append]
  by_cases opening : ∃ sends, Opened env request w h (back.map .data ++ next :: later) sends
  · obtain ⟨sends, opened⟩ := opening
    obtain ⟨w₁, -, sends₁, recvs₁, run⟩ := opened_run opened
    rw [after_congr run]
    cases announces : announced h with
    | none =>
      obtain ⟨e, framing⟩ := framing_of_unannounced announces
      rw [relayBody_rejected env request framing, recvs₁]
      exact iff_of_true (List.suffix_append _ _) (.inr (.inl rfl))
    | some k =>
      obtain ⟨is_cacheable, buffer, same⟩ :=
        relayBody_after env request (framing_of_announced announces) w₁
      rw [(Prod.mk.inj same).2, recvs₁, bodyLoop_leaves_iff, stops_iff, sends₁, body]
      have gets_through : (∃ sends', Opened env request w h (back.map .data ++ next :: later) sends' ∧
          ∃ left, SentEach sends' back left) ↔ ∃ left, SentEach sends back left := by
        constructor
        · rintro ⟨sends', opened', each⟩
          rwa [opened'.sent.2.symm.trans opened.sent.2] at each
        · exact fun each => ⟨sends, opened, each⟩
      rw [gets_through, imp_iff_not_or]
      simp
  · refine iff_of_true ?_ (.inl ?_)
    · exact (List.suffix_append _ _).trans (unopened_leaves read answered opening)
    · rintro ⟨sends, opened, -⟩
      exact opening ⟨sends, opened⟩

/-! A message that the header loop reads to its end. -/

def inOneRecv : Segment :=
  ⟨bytes "HTTP/1.1 200 OK\r\nContent-Length: 2\r\n\r\nab", by decide +kernel, by decide +kernel⟩

theorem inOneRecv_declares : Declares (flat [inOneRecv]) 2 :=
  ⟨34, by decide +kernel, ⟨bytes "2", by decide +kernel, by decide⟩, by decide +kernel⟩

theorem no_read_past_iff_one_recv : ∃ iteration : Iteration,
    [.closed] <:+ ((forwardRequest (plainEnvironment iteration) plain).after
        (World.start (plainKernel [.data inOneRecv, .closed]))).server.recvs ↔
      ¬ Through (plainEnvironment iteration) plain
          (World.start (plainKernel [.data inOneRecv, .closed])) [inOneRecv] ∨
        announced (header_split [] [inOneRecv]).1 = none ∨ Recognised [inOneRecv] 2 := by
  obtain ⟨iteration⟩ := nonempty_iteration
  exact ⟨iteration, no_read_past_iff _ _ _ [inOneRecv] .closed [] 2 rfl inOneRecv_declares
    (by decide +kernel)⟩

theorem reads_past : ¬ ∀ (env : Environment) (request : Request) (w : World)
    (segments : List Segment) (next : RecvOutcome) (later : List RecvOutcome) (n : Nat),
    w.server.recvs = segments.map .data ++ next :: later → Declares (flat segments) n →
    (initial_body (flat segments)).length = n →
    next :: later <:+ ((forwardRequest env request).after w).server.recvs := by
  intro all
  obtain ⟨iteration⟩ := nonempty_iteration
  have unread := all (plainEnvironment iteration) plain
    (World.start (plainKernel [.data inOneRecv, .closed])) [inOneRecv] .closed [] 2 rfl
    inOneRecv_declares (by decide +kernel)
  have nothing : ((forwardRequest (plainEnvironment iteration) plain).after
      (World.start (plainKernel [.data inOneRecv, .closed]))).server.recvs = [] := rfl
  rw [nothing] at unread
  exact absurd (List.suffix_nil.mp unread) (List.cons_ne_nil _ _)

end CachingProxy
