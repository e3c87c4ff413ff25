import CachingProxy.Spelling

/-! Pages that are sent again. What a hit sends may be stored like any other page, by a cache
further on, and be sent by that one too. Each time most header values get one more CR, and each time
Response::parse makes the same of them. -/
namespace CachingProxy
open Cpp Action Http

/-- A page that was sent again: `lines` are its header lines. They are among the original
ones, those of the seven names are all there, and each value may have CRs behind it. -/
structure Copy (original : Tidy) (m : Wire) (lines : List (Bytes × Bytes)) : Prop where
  status : m.status = original.status
  body : m.body = original.body
  fields : m.fields = lines.map spaced
  distinct : (lines.map Prod.fst).Nodup
  old : ∀ f ∈ lines, ∃ value n, f.2 = worn value n ∧ (f.1, value) ∈ original.headers
  kept : ∀ key ∈ header_names, ∀ value, (key, value) ∈ original.headers →
    ∃ n, (key, worn value n) ∈ lines
  ends : ∀ f, lines.getLast? = some f → f.2 ≠ []

theorem copy_original {original : Tidy} (ends : ∀ f, original.headers.getLast? = some f → f.2 ≠ []) :
    Copy original original.wire original.headers where
  status := rfl
  body := rfl
  fields := rfl
  distinct := original.distinct
  old f mem := ⟨f.2, 0, (worn_zero f.2).symm, mem⟩
  kept _ _ value mem := ⟨0, by rwa [worn_zero]⟩
  ends := ends

/-! ## CRs behind a value -/

theorem scan_age_worn {directive : Bytes} (filled : directive ≠ []) (clean : (13 : UInt8) ∉ directive)
    (value : Bytes) (old : Int64) (n : Nat) :
    Response.scan_age directive (worn value n) old = Response.scan_age directive value old := by
  induction n with
  | zero => rw [worn_zero]
  | succ n ih => rw [← worn_cr, scan_age_append_cr filled clean, ih]

theorem contains_worn {directive : Bytes} (filled : directive ≠ []) (clean : (13 : UInt8) ∉ directive)
    (value : Bytes) (n : Nat) : contains (worn value n) directive = contains value directive := by
  induction n with
  | zero => rw [worn_zero]
  | succ n ih => rw [← worn_cr, contains_append_cr filled clean, ih]

theorem converts_worn (name value : Bytes) (n : Nat) :
    Response.Converts (name, worn value n) ↔ Response.Converts (name, value) := by
  induction n with
  | zero => rw [worn_zero]
  | succ n ih => rw [← worn_cr, converts_append_cr, ih]

section copies

variable {original : Tidy} {m : Wire} {lines : List (Bytes × Bytes)} (copy : Copy original m lines)
include copy

/-! ## What the parser sees of a copy -/

theorem Copy.fields_head : Response.fields m.head = seen lines := by
  have colonless : ∀ f ∈ lines, (58 : UInt8) ∉ f.1 := by
    intro f mem
    obtain ⟨value, -, -, old⟩ := copy.old f mem
    exact (original.names _ old).2.1
  have wire : m.fields.map Wire.line = lines.map (fun f => Wire.line (spaced f)) := by
    rw [copy.fields, List.map_map]
    rfl
  rw [Response.fields, Response.header_lines, m.getlines_head, wire]
  exact fields_crLines lines colonless _

/-- A line that is seen is one of the original lines, with CRs. -/
theorem Copy.seen_old {key v : Bytes} (mem : (key, v) ∈ seen lines) :
    ∃ value n, v = worn value n ∧ (key, value) ∈ original.headers := by
  rcases mem_seen.mp mem with ⟨v, front, rfl⟩ | last
  · obtain ⟨value, n, rfl, old⟩ := copy.old _ (List.dropLast_subset _ front)
    exact ⟨value, n + 1, worn_cr value n, old⟩
  · exact copy.old _ (List.mem_of_getLast? last)

theorem Copy.seen_kept {key value : Bytes} (known : key ∈ header_names)
    (old : (key, value) ∈ original.headers) : ∃ n, (key, worn value n) ∈ seen lines := by
  obtain ⟨n, mem⟩ := copy.kept key known value old
  by_cases last : lines.getLast? = some (key, worn value n)
  · exact ⟨n, mem_seen.mpr (Or.inr last)⟩
  · refine ⟨n + 1, mem_seen.mpr (Or.inl ⟨worn value n, ?_, (worn_cr value n).symm⟩)⟩
    have filled : lines ≠ [] := List.ne_nil_of_mem mem
    rw [← List.dropLast_append_getLast filled] at mem
    rcases List.mem_append.mp mem with front | here
    · exact front
    · rw [List.mem_singleton.mp here] at last
      exact absurd (List.getLast?_eq_getLast_of_ne_nil filled) last

/-- Of a known name the parser sees the original value, with CRs, or none if there is none. -/
theorem Copy.values_seen {key : Bytes} (known : key ∈ header_names) :
    (∃ value n, Response.values key original.headers = [value] ∧
      (key, value) ∈ original.headers ∧ Response.values key (seen lines) = [worn value n]) ∨
    Response.values key original.headers = [] ∧ Response.values key (seen lines) = [] := by
  have names : ((seen lines).map Prod.fst).Nodup := by
    rw [seen_names]
    exact copy.distinct
  have single {fs : List (Bytes × Bytes)} (distinct : (fs.map Prod.fst).Nodup) {v : Bytes}
      (mem : (key, v) ∈ fs) : Response.values key fs = [v] := by
    rw [Response.values, filter_key distinct mem]
    rfl
  by_cases there : ∃ value, (key, value) ∈ original.headers
  · obtain ⟨value, old⟩ := there
    obtain ⟨n, mem⟩ := copy.seen_kept known old
    exact Or.inl ⟨value, n, single original.distinct old, old, single names mem⟩
  · refine Or.inr ⟨?_, ?_⟩
    · rw [List.eq_nil_iff_forall_not_mem]
      exact fun value mem => there ⟨value, mem_values.mp mem⟩
    · rw [List.eq_nil_iff_forall_not_mem]
      intro v mem
      obtain ⟨value, -, -, old⟩ := copy.seen_old (mem_values.mp mem)
      exact there ⟨value, old⟩

/-- The values that the parser sees of a known name, judged by what CRs do not matter to. -/
theorem Copy.map_values {β : Type} {g : Bytes → β} {key : Bytes} (known : key ∈ header_names)
    (ignores : ∀ value n, (∀ c ∈ value, c ≠ 10 ∧ c ≠ 13) → g (worn value n) = g value) :
    (Response.values key (seen lines)).map g = (Response.values key original.headers).map g := by
  rcases copy.values_seen known with ⟨value, n, one, mem, one'⟩ | ⟨none, none'⟩
  · rw [one, one', List.map_singleton, List.map_singleton, ignores value n (original.values _ mem)]
  · rw [none, none']

theorem Copy.age_of {directive : Bytes} (filled : directive ≠ []) (clean : (13 : UInt8) ∉ directive) :
    Response.age_of directive (seen lines) = Response.age_of directive original.headers := by
  have steps (fs : List (Bytes × Bytes)) : Response.age_of directive fs =
      ((Response.values Response.CacheControl fs).map
        (fun value old => Response.scanned directive old value)).foldl (fun old f => f old) (-1) := by
    rw [Response.age_of, List.foldl_map]
  rw [steps, steps, copy.map_values (by decide)]
  intro value n _
  funext old
  rw [Response.scanned, Response.scanned, scan_age_worn filled clean]

theorem Copy.controls {directive : Bytes} (filled : directive ≠ [])
    (clean : (13 : UInt8) ∉ directive) :
    Response.controls (seen lines) directive = Response.controls original.headers directive := by
  have last (fs : List (Bytes × Bytes)) : Response.controls fs directive =
      (((Response.values Response.CacheControl fs).map
        (fun value => contains value directive)).getLast?).getD false := by
    rw [List.getLast?_map, Response.controls, Response.last_value]
    cases (Response.values Response.CacheControl fs).getLast? <;> rfl
  rw [last, last, copy.map_values (by decide)]
  exact fun value n _ => contains_worn filled clean value n

theorem Copy.time_of {calendar : Calendar} (ignores : ∀ n, calendar.IgnoresCrs n)
    {key : Bytes} (known : key ∈ header_names) :
    Response.time_of calendar key (seen lines) = Response.time_of calendar key original.headers := by
  rw [Response.time_of, Response.time_of, Response.last_value, Response.last_value,
    ← List.getLast?_map, ← List.getLast?_map,
    copy.map_values known (fun value n clean => ignores n value clean)]

theorem Copy.summary {calendar : Calendar} (ignores : ∀ n, calendar.IgnoresCrs n)
    (now : Int64) :
    Response.summary calendar now (seen lines) = Response.summary calendar now original.headers := by
  apply Response.summary_congr
  · apply Response.lifetime_congr
    intro directive known
    have shape : ∀ d ∈ [bytes "s-maxage=", bytes "max-age="], d ≠ [] ∧ (13 : UInt8) ∉ d := by decide
    exact copy.age_of (shape directive known).1 (shape directive known).2
  · exact copy.time_of ignores (by decide)
  · exact copy.time_of ignores (by decide)
  · exact copy.controls (by decide) (by decide)
  · rw [copy.controls (by decide) (by decide), copy.controls (by decide) (by decide)]

/-- Where the parser throws on none of the copy's lines, it throws on none of the original's. -/
theorem Copy.converts_iff : (∀ f ∈ seen lines, Response.Converts f) ↔
    ∀ f ∈ original.headers, Response.Converts f := by
  constructor
  · rintro all ⟨key, value⟩ old
    by_cases known : key ∈ header_names
    · obtain ⟨n, mem⟩ := copy.seen_kept known old
      exact (converts_worn key value n).mp (all _ mem)
    · refine ⟨fun own => ?_, fun own => ?_⟩
      · obtain rfl : key = bytes "Content-Length" := own
        exact absurd (by decide) known
      · obtain rfl : key = Response.CacheControl := own
        exact absurd (by decide) known
  · rintro all ⟨key, v⟩ mem
    obtain ⟨value, n, rfl, old⟩ := copy.seen_old mem
    exact (converts_worn key value n).mpr (all _ old)

theorem Copy.reads (calendar : Calendar) (now : Int64) :
    Response.Reads calendar now m.render (seen lines) := by
  have reads := Response.reads_fields calendar now m.find_render
  have head : m.render.take m.head.length = m.head := by
    rw [Wire.render, List.append_assoc, List.take_left]
  rwa [head, copy.fields_head] at reads

/-! ## From a page to the next -/

theorem Copy.seen_filled {key v : Bytes} (mem : (key, v) ∈ seen lines) : v ≠ [] := by
  rcases mem_seen.mp mem with ⟨value, -, rfl⟩ | last
  · exact List.concat_ne_nil 13 value
  · exact copy.ends _ last

theorem Copy.seen_clean {key v : Bytes} (mem : (key, v) ∈ seen lines) : (10 : UInt8) ∉ v := by
  obtain ⟨value, n, rfl, old⟩ := copy.seen_old mem
  exact worn_clean (fun lf => (original.values _ old 10 lf).1 rfl) n

/-- An entry with the copy's status line, its body and its lines of the seven names is sent as a copy
again. -/
theorem Copy.of_stored {entry : CacheEntry} (line : entry.response_line = m.status)
    (data : entry.data = m.body)
    (stored : ∀ key value, entry.headers.lookup key = some value ↔
      key ∈ header_names ∧ (key, value) ∈ seen lines) (env : Environment) :
    ∃ m' lines', hit_message env entry = m'.render ∧ Copy original m' lines' := by
  have sendable : Sendable entry := by
    refine ⟨line ▸ m.status_line, fun key value found => ?_⟩
    obtain ⟨known, mem⟩ := (stored key value).mp found
    exact ⟨known, copy.seen_clean mem⟩
  have sent {f : Bytes × Bytes}
      (mem : f ∈ (env.iteration.order entry.headers).map (fun header => (header.1, header.2))) :
      f ∈ seen lines := by
    obtain ⟨header, order, rfl⟩ := List.mem_map.mp mem
    exact ((stored _ _).mp (mem_order order)).2
  refine ⟨hitWire env entry sendable,
    (env.iteration.order entry.headers).map (fun header => (header.1, header.2)),
    (hitWire_render env entry sendable).symm, ?_⟩
  constructor
  case status => exact line.trans copy.status
  case body => exact data.trans copy.body
  case fields =>
    rw [List.map_map]
    rfl
  case distinct =>
    rw [List.map_map]
    exact order_distinct env.iteration entry.headers
  case old => exact fun f mem => copy.seen_old (sent mem)
  case kept =>
    intro key known value old
    obtain ⟨n, mem⟩ := copy.seen_kept known old
    have found := Finmap.mem_lookup_iff.mp ((stored _ _).mpr ⟨known, mem⟩)
    rw [← env.iteration.complete, Multiset.mem_coe] at found
    exact ⟨n, List.mem_map.mpr ⟨_, found, rfl⟩⟩
  case ends => exact fun f last => copy.seen_filled (sent (List.mem_of_getLast? last))

end copies

/-- The parser throws at no field of a page that was relayed and stored. -/
theorem converts_of_put {env : Environment} {request : Request} {w : World} {entry : CacheEntry}
    {h : Bytes} {left : List RecvOutcome} {f : Framing} {segments : List Segment}
    {response : Response} (put : Put env request w entry h left f segments response) {m : Wire}
    (stream : h ++ flat segments = m.render) :
    ∀ f ∈ Response.fields m.head, Response.Converts f := by
  obtain ⟨pos, found, converts⟩ :=
    (Response.parse_ok_iff env.calendar env.time_now h).mp ⟨response, put.parsed⟩
  have same := (find_append found (flat segments)).symm.trans (stream ▸ m.find_render)
  obtain rfl := Option.some.inj same
  have inside := find_le found
  have head : h.take m.head.length = m.head := by
    have start := congrArg (List.take m.head.length) stream
    rw [List.take_append_of_le_length (by omega)] at start
    rw [start, Wire.render, List.append_assoc, List.take_left]
  rwa [head] at converts

/-- The first page was relayed and stored; the second is what a hit on that entry sends. -/
inductive Resent : Bytes → Bytes → Prop where
  | hit {env env' : Environment} {request request' : Request} {k : Kernel} {entry : CacheEntry}
    {w w' : World}
    (put : (request.url, entry) ∈ ((forwardRequest env request).after (World.start k)).puts)
    (hit : env'.lookup request'.url = some entry) (valid : entry.isExpired env'.now = false)
    (start : w.client.written = [])
    (served : (processGetRequest env' request').run w = .ok true w') :
    Resent ((forwardRequest env request).after (World.start k)).client.bytes w'.client.bytes

theorem Copy.resent {original : Tidy} {m : Wire} {lines : List (Bytes × Bytes)}
    (copy : Copy original m lines) {raw : Bytes} (again : Resent m.render raw) :
    (∀ f ∈ original.headers, Response.Converts f) ∧
      ∃ m' lines', raw = m'.render ∧ Copy original m' lines' := by
  generalize sent : m.render = page at again
  cases again with
  | @hit env env' request request' k entry w w' put hit valid start served =>
    obtain ⟨-, h, left, f, segments, response, put⟩ := put_cases rfl put
    have stream := stream_of_put put sent.symm
    obtain ⟨line, data, headers⟩ := put_of_wire put stream
    have names : ((seen lines).map Prod.fst).Nodup := by
      rw [seen_names]
      exact copy.distinct
    have stored (key value : Bytes) : entry.headers.lookup key = some value ↔
        key ∈ header_names ∧ (key, value) ∈ seen lines := by
      rw [headers, copy.fields_head, last_value_of_distinct names]
      constructor
      · exact fun h => ⟨h.1, h.2.1⟩
      · exact fun h => ⟨h.1, h.2, copy.seen_filled h.2⟩
    have converts := converts_of_put put stream
    rw [copy.fields_head, copy.converts_iff] at converts
    rw [processGetRequest_hit hit valid] at served
    rw [served_bytes start served]
    exact ⟨converts, copy.of_stored line data stored env'⟩

/-- However often a page whose header has each name once is stored and sent again, it keeps its
status line and its body, and its header says to the parser what it said the first time. -/
theorem resent_alike (original : Tidy) (calendar : Calendar) (raw : Bytes)
    (ends : ∀ f, original.headers.getLast? = some f → f.2 ≠ [])
    (ignores : ∀ n, calendar.IgnoresCrs n)
    (chain : Relation.ReflTransGen Resent original.wire.render raw) :
    ∃ m lines, raw = m.render ∧ Copy original m lines ∧ ∀ now,
      Response.verdict calendar now raw = Response.verdict calendar now original.wire.render := by
  have first := copy_original ends
  have run : (∃ m lines, raw = m.render ∧ Copy original m lines) ∧
      (raw = original.wire.render ∨ ∀ f ∈ original.headers, Response.Converts f) := by
    induction chain with
    | refl => exact ⟨⟨_, _, rfl, first⟩, Or.inl rfl⟩
    | tail _ again ih =>
      obtain ⟨⟨m, lines, rfl, copy⟩, -⟩ := ih
      obtain ⟨converts, copied⟩ := copy.resent again
      exact ⟨copied, Or.inr converts⟩
  obtain ⟨⟨m, lines, rfl, copy⟩, converts⟩ := run
  refine ⟨m, lines, rfl, copy, fun now => ?_⟩
  rcases converts with same | converts
  · rw [same]
  · apply ((copy.reads calendar now).verdict_eq_iff (first.reads calendar now)).mpr
    rw [copy.converts_iff, first.converts_iff, copy.summary ignores, first.summary ignores]
    exact ⟨Iff.rfl, fun _ => rfl⟩

theorem resent_alike_typed : ∃ raw m lines, raw ≠ typed.wire.render ∧ raw = Wire.render m ∧
    Copy typed m lines ∧ ∀ now,
      Response.verdict plainCalendar now raw =
        Response.verdict plainCalendar now typed.wire.render := by
  obtain ⟨iteration⟩ := nonempty_iteration
  obtain ⟨entry, put, data, line, headers, valid⟩ := typed_put iteration
  obtain ⟨w', served⟩ := typed_served iteration line headers data valid
  have again := Resent.hit put rfl valid rfl served
  rw [typed_relayed] at again
  obtain ⟨m, lines, sent, copy, same⟩ := resent_alike typed plainCalendar w'.client.bytes
    (by decide +kernel) (fun _ _ _ => rfl) (.single again)
  refine ⟨w'.client.bytes, m, lines, ?_, sent, copy, same⟩
  rw [cached_get iteration valid] at served
  rw [served_bytes rfl served, hit_message, typed_hit iteration line headers, data]
  decide +kernel

end CachingProxy
