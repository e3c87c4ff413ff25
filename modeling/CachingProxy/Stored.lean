import CachingProxy.Handler
import CachingProxy.Http.Message

/-! What forwardRequest puts into the cache, and when its body is whole. -/
namespace CachingProxy
open Cpp Action Http

/-- A run from `w` that stored `entry`: it read the header bytes `h`, before the answers `left`,
and then `segments`, and relayed all of it. -/
structure Put (env : Environment) (request : Request) (w : World) (entry : CacheEntry) (h : Bytes)
    (left : List RecvOutcome) (f : Framing) (segments : List Segment) (response : Response) :
    Prop where
  opened : ∃ sends, Opened env request w h left sends
  framing : scan_framing h = .ok f
  body : ∃ left', BodyRead f (initial_body h).length left segments left'
  cacheable : is_cacheable request h = true
  parsed : Response.parse env.calendar env.time_now h = .ok response
  storable : response.is_no_store_ = false
  entry_eq : entry = new_entry env response (response_line h) (initial_body h ++ flat segments)
  relayed : ∃ w', (forwardRequest env request).run w = .ok true w' ∧
    Relays w { w' with puts := w.puts } (h ++ flat segments) (h ++ flat segments)

theorem mem_stored {env : Environment} {request : Request} {h body : Bytes} {key : Bytes}
    {entry : CacheEntry} (mem : (key, entry) ∈ stored env request h body) :
    key = request.url ∧ is_cacheable request h = true ∧ ∃ response,
      Response.parse env.calendar env.time_now h = .ok response ∧
      response.is_no_store_ = false ∧ entry = new_entry env response (response_line h) body := by
  unfold stored at mem
  split at mem
  · rename_i cacheable
    split at mem
    · cases mem
    · rename_i response parsed
      split at mem
      · cases mem
      · rename_i storable
        simp only [List.mem_singleton, Prod.mk.injEq] at mem
        exact ⟨mem.1, cacheable, response, parsed, by simpa using storable, mem.2⟩
  · cases mem

/-- What is in the cache after a run and was not before has one source. -/
theorem put_cases {env : Environment} {request : Request} {w : World} {key : Bytes}
    {entry : CacheEntry} (start : w.puts = [])
    (mem : (key, entry) ∈ ((forwardRequest env request).after w).puts) :
    key = request.url ∧ ∃ h left f segments response,
      Put env request w entry h left f segments response := by
  have exit := forwardRequest_exit env request w
  generalize hr : (forwardRequest env request).run w = r at exit
  have kept : ∀ w', (∃ e, r = .error e w') ∨ (∃ ok, r = .ok ok w') → w'.puts = w.puts →
      False := by
    intro w' ends same
    have last : (forwardRequest env request).after w = w' := by
      rcases ends with ⟨e, rfl⟩ | ⟨ok, rfl⟩
      · exact after_of_error hr
      · exact after_of_ok hr
    rw [last, same, start] at mem
    cases mem
  cases exit with
  | silent nothing => exact (kept _ (Or.inl ⟨_, rfl⟩) nothing.puts).elim
  | answered answers ends =>
    rcases ends with rfl | rfl
    · exact (kept _ (Or.inr ⟨_, rfl⟩) answers.puts).elim
    · exact (kept _ (Or.inl ⟨_, rfl⟩) answers.puts).elim
  | relayed relayed =>
    cases relayed with
    | broken pre relays ends =>
      rcases ends with rfl | rfl
      · exact (kept _ (Or.inr ⟨_, rfl⟩) relays.puts).elim
      · exact (kept _ (Or.inl ⟨_, rfl⟩) relays.puts).elim
    | rejected opened declared number relays next =>
      exact (kept _ (Or.inl ⟨_, rfl⟩) relays.puts).elim
    | @finished h left left' sends f segments w₁ opened framing body relays =>
      rw [after_of_ok hr] at mem
      simp only [relays.puts, start, List.nil_append] at mem
      obtain ⟨rfl, cacheable, response, parsed, storable, rfl⟩ := mem_stored mem
      refine ⟨rfl, h, left, f, segments, response, ⟨sends, opened⟩, framing, ⟨left', body⟩,
        cacheable, parsed, storable, rfl, _, hr, rfl, relays.received, relays.client⟩

/-! ## Whole bodies -/

/-- The number behind the first "Content-Length: ", 0 where there is none; no number where stoi
throws. -/
def announced (s : Bytes) : Option Nat :=
  match content_length_text s with
  | none => some 0
  | some text => (stoi text).toOption.map size_t

def announces_chunks (s : Bytes) : Bool := contains s (bytes "Transfer-Encoding: chunked")

theorem scan_framing_eq (s : Bytes) :
    (scan_framing s).toOption = (announced s).map (fun n => ⟨n, announces_chunks s⟩) := by
  unfold scan_framing scan_content_length announced
  cases content_length_text s with
  | none => rfl
  | some text =>
    dsimp only
    cases stoi text <;> rfl

theorem framing_of_announced {h : Bytes} {n : Nat} (announces : announced h = some n) :
    scan_framing h = .ok ⟨n, announces_chunks h⟩ := by
  have scanned := scan_framing_eq h
  rw [announces] at scanned
  cases framing : scan_framing h with
  | error e =>
    rw [framing] at scanned
    cases scanned
  | ok f =>
    rw [framing] at scanned
    exact congrArg Except.ok (Option.some.inj scanned)

theorem complete_chunked {f : Framing} (chunked : f.is_chunked = true) (n : Nat) (buf : Bytes) :
    f.complete n buf = true ↔ bytes "0\r\n\r\n" <:+ buf := by
  have five : (bytes "0\r\n\r\n").length = 5 := rfl
  rw [List.suffix_iff_eq_drop, five]
  simp only [Framing.complete, chunked, Bool.not_true, Bool.and_false, Bool.false_and,
    Bool.false_or, Bool.true_and, Bool.and_eq_true, decide_eq_true_eq, beq_iff_eq]
  constructor
  · exact fun h => h.2.symm
  · intro h
    refine ⟨?_, h.symm⟩
    have := congrArg List.length h
    rw [five, List.length_drop] at this
    omega

theorem complete_declared {f : Framing} (unchunked : f.is_chunked = false) (n : Nat) (buf : Bytes) :
    f.complete n buf = true ↔ 0 < f.content_length ∧ f.content_length ≤ n := by
  simp [Framing.complete, unchunked]

/-- The segments that arrive before the stream ends or fails. -/
def arrivals : List RecvOutcome → List Segment
  | .data segment :: rest => segment :: arrivals rest
  | _ => []

/-- How many body bytes there are after `j` segments, `b` of them from the header loop. -/
def count (b : Nat) (segments : List Segment) (j : Nat) : Nat := b + (flat (segments.take j)).length

/-- The test that ends the body loop holds after segment `j`, counted from 0. -/
def Stop (f : Framing) (b : Nat) (segments : List Segment) (j : Nat) : Prop :=
  ∃ segment, segments[j]? = some segment ∧
    f.complete (count b segments (j + 1)) segment.data = true

/-- The number of segments after which reading ends: at the first stop, or with the stream. -/
def EndsAfter (f : Framing) (b : Nat) (segments : List Segment) (j : Nat) : Prop :=
  j ≤ segments.length ∧ (∀ i, i + 1 < j → ¬ Stop f b segments i) ∧
    (j = segments.length ∨ ∃ i, j = i + 1 ∧ Stop f b segments i)

theorem count_cons (b : Nat) (segment : Segment) (segments : List Segment) (j : Nat) :
    count b (segment :: segments) (j + 1) = count (b + segment.data.length) segments j := by
  simp only [count, List.take_succ_cons, flat_cons, List.length_append]
  omega

theorem stop_cons (f : Framing) (b : Nat) (segment : Segment) (segments : List Segment) (j : Nat) :
    Stop f b (segment :: segments) (j + 1) ↔
      Stop f (b + segment.data.length) segments j := by
  simp only [Stop, List.getElem?_cons_succ, count_cons]

theorem stop_first (f : Framing) (b : Nat) (segment : Segment) (segments : List Segment) :
    Stop f b (segment :: segments) 0 ↔
      f.complete (b + segment.data.length) segment.data = true := by
  simp [Stop, count]

/-- What the body loop reads ends where EndsAfter says. -/
theorem bodyRead_endsAfter {f : Framing} {b : Nat} {recvs left : List RecvOutcome}
    {segments : List Segment} (h : BodyRead f b recvs segments left) :
    EndsAfter f b (arrivals recvs) segments.length ∧
      segments = (arrivals recvs).take segments.length := by
  induction h with
  | @ended b outcome left no_data =>
    have nothing : arrivals (outcome :: left) = [] := by
      cases outcome with
      | data segment => exact absurd no_data segment.some_bytes
      | closed => rfl
      | failed errno => rfl
    rw [nothing]
    exact ⟨⟨Nat.le_refl 0, by simp, Or.inl rfl⟩, rfl⟩
  | @whole b segment left stop =>
    refine ⟨⟨by simp [arrivals], by simp, Or.inr ⟨0, rfl, ?_⟩⟩, by simp [arrivals]⟩
    exact (stop_first f b segment _).mpr stop
  | @more b segment rest segments left go later ih =>
    obtain ⟨⟨inside, before, last⟩, taken⟩ := ih
    refine ⟨⟨by simpa [arrivals] using inside, ?_, ?_⟩, ?_⟩
    · intro i hi
      cases i with
      | zero =>
        rw [arrivals, stop_first, go]
        decide
      | succ i =>
        rw [arrivals, stop_cons]
        exact before i (by simpa using hi)
    · rcases last with all | ⟨i, hi, stop⟩
      · exact Or.inl (by simp [arrivals, all])
      · refine Or.inr ⟨i + 1, by simp [hi], ?_⟩
        rw [arrivals, stop_cons]
        exact stop
    · rw [arrivals, List.length_cons, List.take_succ_cons, ← taken]

theorem endsAfter_unique {f : Framing} {b : Nat} {segments : List Segment} {i j : Nat}
    (hi : EndsAfter f b segments i) (hj : EndsAfter f b segments j) : i = j := by
  have not_less : ∀ i j, EndsAfter f b segments i → EndsAfter f b segments j → ¬ i < j := by
    intro i j hi hj less
    rcases hi.2.2 with all | ⟨m, rfl, stop⟩
    · have := hj.1
      omega
    · exact hj.2.1 m less stop
  have h₁ := not_less i j hi hj
  have h₂ := not_less j i hj hi
  omega

theorem count_lt {b : Nat} {segments : List Segment} {i j : Nat} (less : i < j)
    (inside : j ≤ segments.length) : count b segments i < count b segments j := by
  induction segments generalizing b i j with
  | nil =>
    simp only [List.length_nil] at inside
    omega
  | cons segment segments ih =>
    cases j with
    | zero => omega
    | succ j =>
      cases i with
      | zero =>
        have some_bytes := List.length_pos_iff.mpr segment.some_bytes
        simp only [count, List.take_zero, flat_nil, List.take_succ_cons, flat_cons,
          List.length_append, List.length_nil]
        omega
      | succ i =>
        rw [count_cons, count_cons]
        exact ih (by omega) (by simpa using inside)

theorem count_le {b : Nat} {segments : List Segment} {i j : Nat} (le : i ≤ j)
    (inside : j ≤ segments.length) : count b segments i ≤ count b segments j := by
  rcases Nat.lt_or_eq_of_le le with less | rfl
  · exact Nat.le_of_lt (count_lt less inside)
  · exact Nat.le_refl _

/-- Some recv result behind the header loop ends with byte m of the body, `b` bytes of which came
before. -/
def EndsAt (b : Nat) (segments : List Segment) (m : Nat) : Prop :=
  ∃ j segment, segments[j]? = some segment ∧ count b segments (j + 1) = m

/-- Such a recv result has the end of a chunked body as its last five bytes. -/
def MarkedAt (b : Nat) (segments : List Segment) (m : Nat) : Prop :=
  ∃ j segment, segments[j]? = some segment ∧ bytes "0\r\n\r\n" <:+ segment.data ∧
    count b segments (j + 1) = m

/-- The stream ends or fails with byte m of the body. -/
def StreamEndsAt (b : Nat) (segments : List Segment) (m : Nat) : Prop :=
  count b segments segments.length = m

def StopsAt (f : Framing) (b : Nat) (segments : List Segment) (m : Nat) : Prop :=
  ∃ j, Stop f b segments j ∧ count b segments (j + 1) = m

/-- Reading ends with byte n: the first recv result at which the test holds ends there, or there is
none and the stream does. -/
theorem endsAfter_count_iff {f : Framing} {b : Nat} {segments : List Segment} {n : Nat} :
    (∃ j, EndsAfter f b segments j ∧ count b segments j = n) ↔
      (StopsAt f b segments n ∨ StreamEndsAt b segments n) ∧
        ∀ m, StopsAt f b segments m → n ≤ m := by
  have inside {j : Nat} (stop : Stop f b segments j) : j + 1 ≤ segments.length := by
    obtain ⟨segment, here, -⟩ := stop
    exact (List.getElem?_eq_some_iff.mp here).1
  constructor
  · rintro ⟨j, ⟨-, before, last⟩, total⟩
    refine ⟨?_, ?_⟩
    · rcases last with rfl | ⟨i, rfl, stop⟩
      · exact Or.inr total
      · exact Or.inl ⟨i, stop, total⟩
    · rintro m ⟨i, stop, rfl⟩
      have late : j ≤ i + 1 := by
        by_contra early
        exact before i (by omega) stop
      rw [← total]
      exact count_le late (inside stop)
  · rintro ⟨⟨i, stop, total⟩ | total, first⟩
    · refine ⟨i + 1, ⟨inside stop, ?_, Or.inr ⟨i, rfl, stop⟩⟩, total⟩
      intro i' less stop'
      have least := first _ ⟨i', stop', rfl⟩
      have fewer := count_lt (b := b) less (inside stop)
      omega
    · refine ⟨segments.length, ⟨Nat.le_refl _, ?_, Or.inl rfl⟩, total⟩
      intro i' less stop'
      have least := first _ ⟨i', stop', rfl⟩
      have fewer := count_lt (b := b) less (Nat.le_refl _)
      unfold StreamEndsAt at total
      omega

/-- What makes the n-th byte the last one that is read, with the length c that the code finds in the
header bytes and whether it finds chunks there. -/
inductive ReadTo (c : Nat) (chunked : Bool) (b : Nat) (segments : List Segment) (n : Nat) :
    Prop where
  | declared (plain : chunked = false) (same : c = n)
      (ends : EndsAt b segments n ∨ StreamEndsAt b segments n)
  | understated (plain : chunked = false) (announced : 0 < c) (fewer : c < n)
      (ends : EndsAt b segments n ∨ StreamEndsAt b segments n)
      (first : ∀ m, EndsAt b segments m → c ≤ m → n ≤ m)
  | overstated (plain : chunked = false) (more : c = 0 ∨ n < c) (ends : StreamEndsAt b segments n)
  | coded (chunks : chunked = true) (ends : MarkedAt b segments n ∨ StreamEndsAt b segments n)
      (first : ∀ m, MarkedAt b segments m → n ≤ m)

theorem stopsAt_plain (c b : Nat) (segments : List Segment) (m : Nat) :
    StopsAt ⟨c, false⟩ b segments m ↔ EndsAt b segments m ∧ 0 < c ∧ c ≤ m := by
  constructor
  · rintro ⟨j, ⟨segment, here, stop⟩, rfl⟩
    exact ⟨⟨j, segment, here, rfl⟩, (complete_declared rfl _ _).mp stop⟩
  · rintro ⟨⟨j, segment, here, rfl⟩, reached⟩
    exact ⟨j, ⟨segment, here, (complete_declared rfl _ _).mpr reached⟩, rfl⟩

theorem stopsAt_chunked (c b : Nat) (segments : List Segment) (m : Nat) :
    StopsAt ⟨c, true⟩ b segments m ↔ MarkedAt b segments m := by
  constructor
  · rintro ⟨j, ⟨segment, here, stop⟩, rfl⟩
    exact ⟨j, segment, here, (complete_chunked rfl _ _).mp stop, rfl⟩
  · rintro ⟨j, segment, here, ends, rfl⟩
    exact ⟨j, ⟨segment, here, (complete_chunked rfl _ _).mpr ends⟩, rfl⟩

theorem not_endsAt_zero {b : Nat} {segments : List Segment} : ¬ EndsAt b segments 0 := by
  rintro ⟨j, segment, here, nothing⟩
  have some_bytes := count_lt (b := b) (Nat.succ_pos j) (List.getElem?_eq_some_iff.mp here).1
  rw [nothing] at some_bytes
  exact Nat.not_lt_zero _ some_bytes

theorem readTo_iff {c b : Nat} {chunked : Bool} {segments : List Segment} {n : Nat} :
    ReadTo c chunked b segments n ↔
      ∃ j, EndsAfter ⟨c, chunked⟩ b segments j ∧ count b segments j = n := by
  rw [endsAfter_count_iff]
  cases chunked with
  | true =>
    simp only [stopsAt_chunked]
    constructor
    · intro read
      cases read with
      | coded _ ends first => exact ⟨ends, first⟩
      | declared plain | understated plain | overstated plain => cases plain
    · exact fun ⟨ends, first⟩ => .coded rfl ends first
  | false =>
    simp only [stopsAt_plain]
    constructor
    · intro read
      cases read with
      | declared _ same ends =>
        subst same
        refine ⟨ends.imp_left (fun here => ⟨here, ?_, Nat.le_refl c⟩), fun m stop => stop.2.2⟩
        rcases Nat.eq_zero_or_pos c with rfl | positive
        · exact absurd here not_endsAt_zero
        · exact positive
      | understated _ announced fewer ends first =>
        exact ⟨ends.imp_left (fun here => ⟨here, announced, Nat.le_of_lt fewer⟩),
          fun m stop => first m stop.1 stop.2.2⟩
      | overstated _ more ends =>
        refine ⟨Or.inr ends, fun m stop => ?_⟩
        omega
      | coded chunks => cases chunks
    · rintro ⟨ends, first⟩
      have here : EndsAt b segments n ∨ StreamEndsAt b segments n := ends.imp_left (·.1)
      by_cases zero : c = 0
      · refine .overstated rfl (.inl zero) (ends.resolve_left (fun stop => ?_))
        omega
      rcases Nat.lt_trichotomy c n with fewer | same | more
      · exact .understated rfl (Nat.pos_of_ne_zero zero) fewer here
          (fun m ends reached => first m ⟨ends, Nat.pos_of_ne_zero zero, reached⟩)
      · exact .declared rfl same here
      · refine .overstated rfl (.inr more) (ends.resolve_left (fun stop => ?_))
        omega

/-- The header block of `h` declares a body of `n` bytes, not in chunks. -/
def Declares (h : Bytes) (n : Nat) : Prop :=
  ∃ header_end, find CRLFCRLF h = some header_end ∧
    (∃ value ∈ valuesOf ContentLength (fieldsOf (h.take header_end)), number value = some n) ∧
    ∀ value ∈ valuesOf TransferEncoding (fieldsOf (h.take header_end)),
      sameText value (bytes "chunked") = false

theorem put_data_length {env : Environment} {request : Request} {w : World} {entry : CacheEntry}
    {h : Bytes} {left : List RecvOutcome} {f : Framing} {segments : List Segment}
    {response : Response} (put : Put env request w entry h left f segments response) :
    EndsAfter f (initial_body h).length (arrivals left) segments.length ∧
      entry.data.length = count (initial_body h).length (arrivals left) segments.length := by
  obtain ⟨left', body⟩ := put.body
  obtain ⟨ends, taken⟩ := bodyRead_endsAfter body
  refine ⟨ends, ?_⟩
  rw [put.entry_eq, count, ← taken]
  simp [new_entry]

theorem put_of_read {env : Environment} {request : Request} {k : Kernel} {key : Bytes}
    {entry : CacheEntry} {h : Bytes} {left : List RecvOutcome}
    (mem : (key, entry) ∈ ((forwardRequest env request).after (World.start k)).puts)
    (read : HeaderRead [] k.server_recvs h left) :
    key = request.url ∧ ∃ f segments response,
      Put env request (World.start k) entry h left f segments response := by
  obtain ⟨same, h', left', f, segments, response, put⟩ := put_cases rfl mem
  obtain ⟨sends, opened⟩ := put.opened
  obtain ⟨rfl, rfl⟩ := opened.read.deterministic read
  exact ⟨same, f, segments, response, put⟩

/-- The lines between the status line and the first CRLFCRLF. -/
def head_lines (h : Bytes) : List Bytes :=
  (getlines (h.take ((find CRLFCRLF h).getD 0))).tail

/-- The header fields that Response::parse finds there. -/
def header_fields (h : Bytes) : List (Bytes × Bytes) :=
  Response.fields (h.take ((find CRLFCRLF h).getD 0))

theorem header_fields_eq (h : Bytes) : header_fields h =
    ((head_lines h).takeWhile (fun l => l != [])).filterMap Response.field := rfl

theorem header_fields_append {h : Bytes} {pos : Nat} (found : find CRLFCRLF h = some pos)
    (t : Bytes) : header_fields (h ++ t) = header_fields h := by
  have inside := find_le found
  have four : CRLFCRLF.length = 4 := rfl
  rw [header_fields, header_fields, find_append found, found]
  rw [Option.getD_some, List.take_append_of_le_length (by omega)]

/-- The fields around a line that no empty line cuts off. -/
theorem header_fields_around {h line : Bytes} {above below : List Bytes}
    (lines : head_lines h = above ++ line :: below) (filled : [] ∉ above) (solid : line ≠ []) :
    header_fields h = above.filterMap Response.field ++ ([line].filterMap Response.field ++
      (below.takeWhile (fun l => l != [])).filterMap Response.field) := by
  have shown : ∀ l ∈ above, (l != []) = true := by
    intro l mem
    simp only [bne_iff_ne]
    exact fun e => filled (e ▸ mem)
  rw [header_fields_eq, lines, List.takeWhile_append_of_pos shown,
    List.takeWhile_cons_of_pos (by simpa using solid), List.filterMap_append]
  have tail (rest : List Bytes) : (line :: rest).filterMap Response.field =
      [line].filterMap Response.field ++ rest.filterMap Response.field :=
    List.filterMap_append (l := [line])
  rw [tail]

theorem values_unnamed {name : Bytes} {lines : List Bytes}
    (unnamed : ∀ l ∈ lines, ¬ name ++ [58] <+: l) :
    Response.values name (lines.filterMap Response.field) = [] := by
  simp only [Response.values, List.map_eq_nil_iff, List.filter_eq_nil_iff, decide_eq_true_eq]
  intro f mem same
  obtain ⟨l, hl, field⟩ := List.mem_filterMap.mp mem
  exact unnamed l hl (same ▸ Response.field_named field)

theorem values_append (key : Bytes) (fs gs : List (Bytes × Bytes)) :
    Response.values key (fs ++ gs) = Response.values key fs ++ Response.values key gs := by
  simp [Response.values]

/-- What `key` gets from a line cut at its first colon. -/
def own_value (key name value : Bytes) : List Bytes :=
  match value with
  | 32 :: rest => if name = key then [rest] else []
  | _ => []

theorem values_own {key name : Bytes} (clean : (58 : UInt8) ∉ name) (colonless : (58 : UInt8) ∉ key)
    (value : Bytes) : Response.values key ([name ++ 58 :: value].filterMap Response.field) =
      own_value key name value := by
  cases own : Response.field (name ++ 58 :: value) with
  | none =>
    rw [List.filterMap_cons_none own]
    unfold own_value
    split
    · rename_i rest
      rw [Response.field_line clean rest] at own
      cases own
    · rfl
  | some f =>
    rw [List.filterMap_cons_some own]
    by_cases same : f.1 = key
    · obtain ⟨rfl, rfl⟩ := Response.field_of_line clean (same ▸ colonless) own
      simp [Response.values, own_value, same]
    · have other : own_value key name value = [] := by
        unfold own_value
        split
        · rename_i rest
          rw [Response.field_line clean rest] at own
          cases own
          exact if_neg same
        · rfl
      simp [Response.values, same, other]

/-- The values of `key` come from the lines above, from the line and from those below; an empty
line above cuts off the rest. -/
theorem values_around {h name value : Bytes} {above below : List Bytes} {key : Bytes}
    (lines : head_lines h = above ++ (name ++ 58 :: value) :: below)
    (clean : (58 : UInt8) ∉ name) (colonless : (58 : UInt8) ∉ key) :
    Response.values key (header_fields h) =
      if [] ∈ above then
        Response.values key ((above.takeWhile (fun l => l != [])).filterMap Response.field)
      else
        Response.values key (above.filterMap Response.field) ++ (own_value key name value ++
          Response.values key ((below.takeWhile (fun l => l != [])).filterMap Response.field)) := by
  split
  · rename_i cut
    obtain ⟨a, b, rfl, filled⟩ := List.eq_append_cons_of_mem cut
    have shown : ∀ l ∈ a, (l != []) = true := by
      intro l mem
      simp only [bne_iff_ne]
      exact fun e => filled (e ▸ mem)
    rw [header_fields_eq, lines, List.append_assoc, List.takeWhile_append_of_pos shown,
      List.takeWhile_append_of_pos shown, List.cons_append, List.takeWhile_cons_of_neg (by simp),
      List.takeWhile_cons_of_neg (by simp)]
  · rename_i filled
    rw [header_fields_around lines filled (by simp), values_append, values_append, values_own clean
      colonless]

theorem Put.judged {env : Environment} {request : Request} {w : World} {entry : CacheEntry}
    {h : Bytes} {left : List RecvOutcome} {f : Framing} {segments : List Segment}
    {response : Response} (put : Put env request w entry h left f segments response) :
    Response.Judged env.calendar env.time_now (header_fields h) response := by
  obtain ⟨pos, hpos, judged⟩ := Response.parse_judged put.parsed
  rw [header_fields, hpos]
  exact judged

/-- When the entry is given out as expired, read off the header fields. -/
theorem Put.isExpired_eq {env : Environment} {request : Request} {w : World} {entry : CacheEntry}
    {h : Bytes} {left : List RecvOutcome} {f : Framing} {segments : List Segment}
    {response : Response} (put : Put env request w entry h left f segments response) (now : Int) :
    entry.isExpired now =
      ((!Response.fresh env.calendar env.time_now (header_fields h) ||
        Response.controls (header_fields h) (bytes "must-revalidate") ||
        Response.controls (header_fields h) (bytes "no-cache")) ||
      (from_time_t (Response.expiry env.calendar (header_fields h)) != 0 &&
        decide (now > from_time_t (Response.expiry env.calendar (header_fields h))))) := by
  rw [put.entry_eq]
  simp only [CacheEntry.isExpired, new_entry, put.judged.need_validate, put.judged.expire_time]

theorem lifetime_none {fs : List (Bytes × Bytes)}
    (uncontrolled : Response.values Response.CacheControl fs = []) : Response.lifetime fs = none := by
  simp only [Response.lifetime, Response.age_of, uncontrolled, List.foldl_nil]
  decide

theorem controls_none {fs : List (Bytes × Bytes)}
    (uncontrolled : Response.values Response.CacheControl fs = []) (directive : Bytes) :
    Response.controls fs directive = false := by
  simp only [Response.controls, Response.last_value, uncontrolled]
  rfl

/-- Without Cache-Control and Expires an entry is given out for ever. -/
theorem Put.never_expires {env : Environment} {request : Request} {w : World} {entry : CacheEntry}
    {h : Bytes} {left : List RecvOutcome} {f : Framing} {segments : List Segment}
    {response : Response} (put : Put env request w entry h left f segments response)
    (uncontrolled : Response.values Response.CacheControl (header_fields h) = [])
    (undated : Response.values (bytes "Expires") (header_fields h) = []) (now : Int) :
    entry.isExpired now = false := by
  have expires : Response.time_of env.calendar (bytes "Expires") (header_fields h) = 0 := by
    simp only [Response.time_of, Response.last_value, undated]
    rfl
  have never : from_time_t 0 = 0 := by decide
  rw [put.isExpired_eq]
  simp [Response.fresh, Response.expiry, lifetime_none uncontrolled, expires,
    controls_none uncontrolled, never]

/-- The one entry of a run whose header block has neither of them. -/
theorem lasting_of_puts {env : Environment} {request : Request} {k : Kernel} {h : Bytes}
    {left : List RecvOutcome} {data line : Bytes} {headers : Finmap (fun _ : Bytes => Bytes)}
    (puts : ((forwardRequest env request).after (World.start k)).puts.map
      (fun p => (p.1, p.2.data, p.2.response_line, p.2.headers)) =
        [(request.url, data, line, headers)])
    (read : HeaderRead [] k.server_recvs h left)
    (uncontrolled : Response.values Response.CacheControl (header_fields h) = [])
    (undated : Response.values (bytes "Expires") (header_fields h) = []) (now : Int) :
    ∃ entry, (request.url, entry) ∈ ((forwardRequest env request).after (World.start k)).puts ∧
      entry.data = data ∧ entry.response_line = line ∧ entry.headers = headers ∧
      entry.isExpired now = false := by
  obtain ⟨⟨key, entry⟩, stored, same⟩ := List.map_eq_singleton_iff.mp puts
  have mem := stored ▸ List.mem_singleton_self (key, entry)
  simp only [Prod.mk.injEq] at same
  obtain ⟨rfl, data, line, headers⟩ := same
  obtain ⟨-, f, segments, response, put⟩ := put_of_read mem read
  exact ⟨entry, mem, data, line, headers, put.never_expires uncontrolled undated now⟩

/-- A stored body has the declared length n exactly when the n-th byte is the last one that is read:
a recv result ends there at which reading stops, or the stream does. -/
theorem stored_length_iff (env : Environment) (request : Request) (k : Kernel) (entry : CacheEntry)
    (h : Bytes) (left : List RecvOutcome) (c : Nat)
    (put : (request.url, entry) ∈ ((forwardRequest env request).after (World.start k)).puts)
    (read : HeaderRead [] k.server_recvs h left) (announces : announced h = some c) :
    (∀ n, Declares h n → entry.data.length = n) ↔ ∀ n, Declares h n →
      ReadTo c (announces_chunks h) (initial_body h).length (arrivals left) n := by
  obtain ⟨-, f, segments, response, put⟩ := put_of_read put read
  obtain rfl := Except.ok.inj (put.framing.symm.trans (framing_of_announced announces))
  obtain ⟨ends, length⟩ := put_data_length put
  refine forall₂_congr (fun n _ => ?_)
  rw [readTo_iff, length]
  constructor
  · exact fun total => ⟨segments.length, ends, total⟩
  · rintro ⟨j, ends', total⟩
    rw [endsAfter_unique ends ends', total]

def fiveBytes : Segment :=
  ⟨bytes "HTTP/1.1 200 OK\r\nContent-Length: 5\r\n\r\n", by decide, by decide⟩

def twoBytes : Segment := ⟨bytes "ab", by decide, by decide⟩

theorem cut_short_stored (iteration : Iteration) : ∃ entry,
    (plain.url, entry) ∈ ((forwardRequest (plainEnvironment iteration) plain).after
      (World.start (plainKernel [.data fiveBytes, .data twoBytes, .closed]))).puts ∧
    entry.data = bytes "ab" := by
  have puts : ((forwardRequest (plainEnvironment iteration) plain).after
      (World.start (plainKernel [.data fiveBytes, .data twoBytes, .closed]))).puts.map
      (fun p => (p.1, p.2.data)) = [(plain.url, bytes "ab")] := rfl
  obtain ⟨⟨key, entry⟩, put, same⟩ := List.map_eq_singleton_iff.mp puts
  obtain ⟨rfl, data⟩ := Prod.mk.inj same
  exact ⟨entry, put ▸ List.mem_singleton_self _, data⟩

theorem stored_length_iff_cut_short : ∃ entry : CacheEntry,
    (∀ n, Declares fiveBytes.data n → entry.data.length = n) ↔
      ∀ n, Declares fiveBytes.data n → ReadTo 5 false 0 [twoBytes] n := by
  obtain ⟨iteration⟩ := nonempty_iteration
  obtain ⟨entry, put, -⟩ := cut_short_stored iteration
  exact ⟨entry, stored_length_iff (plainEnvironment iteration) plain _ entry fiveBytes.data _ 5 put
    (.whole (by decide)) (by decide)⟩

/-- The origin closes after two bytes of five; the two are stored. -/
theorem not_always_whole : ¬ ∀ (env : Environment) (request : Request) (k : Kernel)
    (entry : CacheEntry) (h : Bytes) (left : List RecvOutcome),
    (request.url, entry) ∈ ((forwardRequest env request).after (World.start k)).puts →
    HeaderRead [] k.server_recvs h left → ∀ n, Declares h n → entry.data.length = n := by
  intro all
  obtain ⟨iteration⟩ := nonempty_iteration
  obtain ⟨entry, put, data⟩ := cut_short_stored iteration
  have declared : Declares fiveBytes.data 5 := ⟨34, by decide, ⟨bytes "5", by decide, by decide⟩, by decide⟩
  have five := all _ _ _ entry fiveBytes.data _ put (.whole (by decide)) 5 declared
  rw [data] at five
  cases five

end CachingProxy
