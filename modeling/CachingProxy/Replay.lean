import CachingProxy.Representation

/-! The header lines of a cache hit against those of the response that filled the cache. The
parser cuts lines at LF, so the value of every line but the last keeps the CR of its line end. -/
namespace CachingProxy
open Cpp Action Http

/-- A response whose header lines are name, ": " and value, without CR or LF in any line. -/
structure Tidy where
  status : Bytes
  headers : List (Bytes × Bytes)
  body : Bytes
  status_line : status ≠ [] ∧ ∀ c ∈ status, c ≠ 10 ∧ c ≠ 13
  names : ∀ f ∈ headers, f.1 ≠ [] ∧ (58 : UInt8) ∉ f.1 ∧ ∀ c ∈ f.1, c ≠ 10 ∧ c ≠ 13
  values : ∀ f ∈ headers, ∀ c ∈ f.2, c ≠ 10 ∧ c ≠ 13
  distinct : (headers.map Prod.fst).Nodup

def spaced (f : Bytes × Bytes) : Bytes × Bytes := (f.1, 32 :: f.2)

def Tidy.wire (m : Tidy) : Wire where
  status := m.status
  fields := m.headers.map spaced
  body := m.body
  status_line := ⟨m.status_line.1, fun mem => (m.status_line.2 10 mem).1 rfl⟩
  names := by
    intro f hf
    obtain ⟨g, hg, rfl⟩ := List.mem_map.mp hf
    exact m.names g hg
  values := by
    intro f hf
    obtain ⟨g, hg, rfl⟩ := List.mem_map.mp hf
    have clean : (10 : UInt8) ∉ g.2 := fun mem => (m.values g hg 10 mem).1 rfl
    simpa [spaced] using clean

/-! ## What the parser sees -/

/-- The header fields as the parser sees them. -/
def seen : List (Bytes × Bytes) → List (Bytes × Bytes)
  | [] => []
  | [f] => [f]
  | f :: g :: fs => (f.1, f.2 ++ [13]) :: seen (g :: fs)

theorem seen_names (fs : List (Bytes × Bytes)) : (seen fs).map Prod.fst = fs.map Prod.fst := by
  induction fs with
  | nil => rfl
  | cons f fs ih =>
    cases fs with
    | nil => rfl
    | cons g fs => simpa [seen] using ih

theorem mem_seen {fs : List (Bytes × Bytes)} {name v : Bytes} : (name, v) ∈ seen fs ↔
    (∃ value, (name, value) ∈ fs.dropLast ∧ v = value ++ [13]) ∨
      fs.getLast? = some (name, v) := by
  induction fs with
  | nil => simp [seen]
  | cons f fs ih =>
    cases fs with
    | nil => simp [seen, eq_comm]
    | cons g fs =>
      rw [seen, List.mem_cons, ih, List.dropLast_cons_cons, List.getLast?_cons_cons]
      constructor
      · rintro (e | ⟨value, mem, rfl⟩ | last)
        · cases e
          exact Or.inl ⟨f.2, List.mem_cons_self, rfl⟩
        · exact Or.inl ⟨value, List.mem_cons_of_mem _ mem, rfl⟩
        · exact Or.inr last
      · rintro (⟨value, mem, rfl⟩ | last)
        · rcases List.mem_cons.mp mem with rfl | mem
          · exact Or.inl rfl
          · exact Or.inr (Or.inl ⟨value, mem, rfl⟩)
        · exact Or.inr (Or.inr last)

theorem fields_crLines (fs : List (Bytes × Bytes))
    (names : ∀ f ∈ fs, (58 : UInt8) ∉ f.1) (l : Bytes) :
    ((crLines l (fs.map (fun f => Wire.line (spaced f)))).tail.takeWhile
      (fun l => l != [])).filterMap Response.field = seen fs := by
  have filled (f : Bytes × Bytes) (t : Bytes) : (Wire.line (spaced f) ++ t != []) = true := by
    simp [Wire.line]
  induction fs generalizing l with
  | nil => rfl
  | cons f fs ih =>
    have rest := ih (fun g hg => names g (List.mem_cons_of_mem _ hg)) (Wire.line (spaced f))
    have name := names f List.mem_cons_self
    cases fs with
    | nil =>
      have solid := filled f []
      rw [List.append_nil] at solid
      simp only [List.map_cons, List.map_nil, crLines, List.tail_cons, seen]
      rw [List.takeWhile_cons_of_pos (p := fun l => l != []) solid]
      simp [Wire.line, spaced, Response.field_line name]
    | cons g fs =>
      simp only [List.map_cons, crLines, List.tail_cons, seen] at rest ⊢
      rw [List.takeWhile_cons_of_pos (p := fun l => l != []) (filled f [13])]
      have own : Response.field (Wire.line (spaced f) ++ [13]) = some (f.1, f.2 ++ [13]) := by
        simpa [Wire.line, spaced] using Response.field_line name (f.2 ++ [13])
      rw [List.filterMap_cons_some own, rest]

theorem Tidy.fields_head (m : Tidy) : Response.fields m.wire.head = seen m.headers := by
  have lines : m.wire.fields.map Wire.line = m.headers.map (fun f => Wire.line (spaced f)) := by
    simp [Tidy.wire]
  rw [Response.fields, Response.header_lines, m.wire.getlines_head, lines]
  exact fields_crLines m.headers (fun f hf => (m.names f hf).2.1) _

theorem last_value_of_distinct {fs : List (Bytes × Bytes)} (distinct : (fs.map Prod.fst).Nodup)
    (key value : Bytes) : Response.last_value key fs = some value ↔ (key, value) ∈ fs := by
  refine ⟨last_value_mem, fun mem => ?_⟩
  have own : value ∈ Response.values key fs :=
    List.mem_map.mpr ⟨(key, value), List.mem_filter.mpr ⟨mem, by simp⟩, rfl⟩
  cases last : Response.last_value key fs with
  | none =>
    rw [Response.last_value, List.getLast?_eq_none_iff] at last
    rw [last] at own
    cases own
  | some v =>
    have same := List.inj_on_of_nodup_map distinct (last_value_mem last) mem rfl
    rw [(Prod.mk.inj same).2]

/-- The header fields that are stored: those of the seven names, if the parser sees a value. -/
theorem stored_headers {m : Tidy} {entry : CacheEntry}
    (headers : ∀ key value, entry.headers.lookup key = some value ↔ key ∈ header_names ∧
      Response.last_value key (Response.fields m.wire.head) = some value ∧ value ≠ [])
    (key value : Bytes) : entry.headers.lookup key = some value ↔
      key ∈ header_names ∧ (key, value) ∈ seen m.headers ∧ value ≠ [] := by
  rw [headers, m.fields_head, last_value_of_distinct (by rw [seen_names]; exact m.distinct)]

/-! ## What a hit sends -/

/-- Among `lines`, of which the first is the status line, each header of the seven names has one
line, with its value, and there is no CR left in any line. -/
structure Replays (headers : List (Bytes × Bytes)) (lines : List Bytes) : Prop where
  once : ∀ f ∈ headers, f.1 ∈ header_names →
    lines.tail.filter (fun l => (f.1 ++ [58]).isPrefixOf l) = [f.1 ++ 58 :: 32 :: f.2]
  no_cr : ∀ l ∈ lines, (13 : UInt8) ∉ l

theorem filter_key {α β : Type} [DecidableEq β] {l : List α} {key : α → β}
    (distinct : (l.map key).Nodup) {x : α} (mem : x ∈ l) :
    l.filter (fun y => key y = key x) = [x] := by
  by_contra other
  rcases ((distinct.of_map _).filter _).ne_singleton_iff x |>.mp other with nothing | ⟨y, hy, ne⟩
  · have own : x ∈ l.filter (fun y => key y = key x) := List.mem_filter.mpr ⟨mem, by simp⟩
    rw [nothing] at own
    cases own
  · obtain ⟨hy, same⟩ := List.mem_filter.mp hy
    exact ne (List.inj_on_of_nodup_map distinct hy mem (by simpa using same))

theorem order_distinct (iteration : Iteration) (m : Finmap (fun _ : Bytes => Bytes)) :
    ((iteration.order m).map Sigma.fst).Nodup := by
  have keys := m.nodupKeys
  rw [← iteration.complete m] at keys
  exact Multiset.coe_nodupKeys.mp keys

theorem named_line {key name rest : Bytes} (colonless : (58 : UInt8) ∉ key)
    (clean : (58 : UInt8) ∉ name) :
    (key ++ [58]).isPrefixOf (name ++ 58 :: rest) = decide (name = key) := by
  rw [Bool.eq_iff_iff, List.isPrefixOf_iff_prefix, decide_eq_true_eq]
  constructor
  · rintro ⟨t, same⟩
    rw [List.append_assoc] at same
    exact (byte_split colonless clean same).1.symm
  · rintro rfl
    exact ⟨rest, by simp⟩

theorem hit_lines_of_key {env : Environment} {entry : CacheEntry} (sendable : Sendable entry)
    {key : Bytes} (known : key ∈ header_names) (value : Bytes) :
    ((hitWire env entry sendable).fields.map Wire.line).filter
        (fun l => (key ++ [58]).isPrefixOf l) = [key ++ 58 :: 32 :: value] ↔
      entry.headers.lookup key = some value := by
  have colonless := (header_names_clean key known).2.1
  have own : ((env.iteration.order entry.headers).filter (fun header =>
      (key ++ [58]).isPrefixOf (header.1 ++ 58 :: 32 :: header.2))) =
      (env.iteration.order entry.headers).filter (fun header => header.1 = key) := by
    apply List.filter_congr
    intro header mem
    have stored := (sendable.headers _ _ (mem_order mem)).1
    exact named_line colonless (header_names_clean _ stored).2.1
  have lines : ((hitWire env entry sendable).fields.map Wire.line).filter
      (fun l => (key ++ [58]).isPrefixOf l) =
      ((env.iteration.order entry.headers).filter (fun header => header.1 = key)).map
        (fun header => header.1 ++ 58 :: 32 :: header.2) := by
    rw [← own, hitWire, List.map_map, List.filter_map]
    rfl
  rw [lines, List.map_eq_singleton_iff]
  constructor
  · rintro ⟨⟨name, v⟩, one, line⟩
    obtain ⟨mem, same⟩ := List.mem_filter.mp (one ▸ List.mem_singleton_self _)
    obtain rfl : name = key := by simpa using same
    obtain ⟨-, tails⟩ := byte_split colonless colonless line
    obtain rfl : v = value := by simpa using tails
    exact mem_order mem
  · intro found
    have mem : (⟨key, value⟩ : (_ : Bytes) × Bytes) ∈ env.iteration.order entry.headers := by
      rw [← Multiset.mem_coe, env.iteration.complete]
      exact Finmap.mem_lookup_iff.mp found
    exact ⟨⟨key, value⟩, filter_key (order_distinct env.iteration entry.headers) mem, rfl⟩

/-- The last header is not among those in front of it. -/
theorem not_in_front {fs : List (Bytes × Bytes)} (distinct : (fs.map Prod.fst).Nodup)
    {f g : Bytes × Bytes} (last : fs.getLast? = some f) (front : g ∈ fs.dropLast) : g.1 ≠ f.1 := by
  have split : fs = fs.dropLast ++ [f] := (List.dropLast_append_getLast? f last).symm
  rw [split, List.map_append] at distinct
  intro same
  exact List.disjoint_of_nodup_append distinct (List.mem_map.mpr ⟨g, front, rfl⟩)
    (List.mem_map.mpr ⟨f, List.mem_singleton_self f, same.symm⟩)

theorem replays_of_stored_iff {m : Tidy} {entry : CacheEntry} (env : Environment)
    (line : entry.response_line = m.status)
    (stored : ∀ key value, entry.headers.lookup key = some value ↔
      key ∈ header_names ∧ (key, value) ∈ seen m.headers ∧ value ≠ []) :
    Replays m.headers (headLines (hit_message env entry)) ↔
      ∀ f ∈ m.headers, f.1 ∈ header_names → m.headers.getLast? = some f ∧ f.2 ≠ [] := by
  have clean : ∀ f ∈ m.headers, (10 : UInt8) ∉ f.2 ∧ (13 : UInt8) ∉ f.2 := fun f hf =>
    ⟨fun mem => (m.values f hf 10 mem).1 rfl, fun mem => (m.values f hf 13 mem).2 rfl⟩
  have sendable : Sendable entry := by
    refine ⟨line ▸ m.wire.status_line, ?_⟩
    intro key value found
    obtain ⟨known, mem, -⟩ := (stored key value).mp found
    refine ⟨known, ?_⟩
    rcases mem_seen.mp mem with ⟨v, front, rfl⟩ | last
    · simpa using (clean _ (List.dropLast_subset _ front)).1
    · exact (clean _ (List.mem_of_getLast? last)).1
  have lines : headLines (hit_message env entry) =
      m.status :: (hitWire env entry sendable).fields.map Wire.line := by
    rw [← hitWire_render env entry sendable, Wire.headLines_render, ← line]
    rfl
  rw [lines]
  constructor
  · intro replays f hf known
    have found := (hit_lines_of_key sendable known f.2).mp (replays.once f hf known)
    obtain ⟨-, mem, filled⟩ := (stored _ _).mp found
    refine ⟨?_, filled⟩
    rcases mem_seen.mp mem with ⟨v, -, same⟩ | last
    · exact absurd (same ▸ (by simp)) (clean f hf).2
    · exact last
  · intro only
    refine ⟨fun f hf known => ?_, ?_⟩
    · obtain ⟨last, filled⟩ := only f hf known
      exact (hit_lines_of_key sendable known f.2).mpr
        ((stored _ _).mpr ⟨known, mem_seen.mpr (Or.inr last), filled⟩)
    · intro l mem
      rcases List.mem_cons.mp mem with rfl | mem
      · exact fun cr => (m.status_line.2 13 cr).2 rfl
      · obtain ⟨f, hf, rfl⟩ := List.mem_map.mp mem
        obtain ⟨header, order, rfl⟩ := List.mem_map.mp hf
        obtain ⟨known, shown, -⟩ := (stored _ _).mp (mem_order order)
        have name : (13 : UInt8) ∉ header.1 :=
          fun cr => ((header_names_clean _ known).2.2 13 cr).2 rfl
        have value : (13 : UInt8) ∉ header.2 := by
          rcases mem_seen.mp shown with ⟨v, front, same⟩ | last
          · -- it would be the last header too
            obtain ⟨last, -⟩ := only _ (List.dropLast_subset _ front) known
            exact absurd rfl (not_in_front m.distinct last front)
          · exact (clean _ (List.mem_of_getLast? last)).2
        simp [Wire.line, name, value]

/-- The header block of a hit gives the origin's headers again exactly when those of the seven
names are at most one, which is the last header line and has a value. -/
theorem replayed_headers_iff (env env' : Environment) (request request' : Request) (k : Kernel)
    (entry : CacheEntry) (m : Tidy) (w w' : World)
    (put : (request.url, entry) ∈ ((forwardRequest env request).after (World.start k)).puts)
    (relayed : ((forwardRequest env request).after (World.start k)).client.bytes = m.wire.render)
    (hit : env'.lookup request'.url = some entry) (valid : entry.isExpired env'.now = false)
    (start : w.client.written = [])
    (served : (processGetRequest env' request').run w = .ok true w') :
    Replays m.headers (headLines w'.client.bytes) ↔
      ∀ f ∈ m.headers, f.1 ∈ header_names → m.headers.getLast? = some f ∧ f.2 ≠ [] := by
  obtain ⟨-, h, left, f, segments, response, put⟩ := put_cases rfl put
  obtain ⟨line, -, headers⟩ := put_of_wire put (stream_of_put put relayed)
  rw [processGetRequest_hit hit valid] at served
  rw [served_bytes start served]
  exact replays_of_stored_iff env' line (stored_headers headers)

/-! A response with a Content-Type that is not its last header, and a hit on it. -/

def typedAnswer : Segment :=
  ⟨bytes "HTTP/1.1 200 OK\r\nContent-Type: a\r\nServer: b\r\n\r\n", by decide +kernel,
    by decide +kernel⟩

def typed : Tidy where
  status := bytes "HTTP/1.1 200 OK"
  headers := [(bytes "Content-Type", bytes "a"), (bytes "Server", bytes "b")]
  body := []
  status_line := by decide +kernel
  names := by decide +kernel
  values := by decide +kernel
  distinct := by decide +kernel

def typedKernel : Kernel := plainKernel [.data typedAnswer, .closed]

theorem typed_put (iteration : Iteration) : ∃ entry : CacheEntry,
    (plain.url, entry) ∈ ((forwardRequest (plainEnvironment iteration) plain).after
      (World.start typedKernel)).puts ∧
    entry.data = [] ∧ entry.response_line = bytes "HTTP/1.1 200 OK" ∧
    entry.headers = Finmap.singleton (bytes "Content-Type") (bytes "a\r") ∧
    entry.isExpired 0 = false := by
  have fields : header_fields typedAnswer.data =
      [(bytes "Content-Type", bytes "a\r"), (bytes "Server", bytes "b")] := by decide +kernel
  have read : HeaderRead [] typedKernel.server_recvs typedAnswer.data [.closed] :=
    .whole (by decide +kernel)
  exact lasting_of_puts rfl read (by rw [fields]; decide) (by rw [fields]; decide) 0

theorem typed_relayed (iteration : Iteration) :
    ((forwardRequest (plainEnvironment iteration) plain).after
      (World.start typedKernel)).client.bytes = typed.wire.render := rfl

theorem order_singleton (iteration : Iteration) (key value : Bytes) :
    iteration.order (Finmap.singleton key value) = [⟨key, value⟩] :=
  Multiset.coe_eq_singleton.mp (iteration.complete (Finmap.singleton key value))

theorem typed_hit {entry : CacheEntry} (iteration : Iteration)
    (line : entry.response_line = bytes "HTTP/1.1 200 OK")
    (headers : entry.headers = Finmap.singleton (bytes "Content-Type") (bytes "a\r")) :
    hit_headers (cachedEnvironment iteration entry) entry =
      bytes "HTTP/1.1 200 OK\r\nContent-Type: a\r\r\n\r\n" := by
  change entry.response_line ++ CRLF ++ (iteration.order entry.headers).flatMap _ ++ CRLF = _
  rw [line, headers, order_singleton]
  rfl

theorem typed_served {entry : CacheEntry} (iteration : Iteration)
    (line : entry.response_line = bytes "HTTP/1.1 200 OK")
    (headers : entry.headers = Finmap.singleton (bytes "Content-Type") (bytes "a\r"))
    (data : entry.data = []) (valid : entry.isExpired 0 = false) : ∃ w',
    (processGetRequest (cachedEnvironment iteration entry) plain).run
      (World.start typedKernel) = .ok true w' := by
  rw [cached_get iteration valid]
  unfold serve hit_message
  rw [typed_hit iteration line headers, data]
  exact ⟨_, rfl⟩

theorem replayed_headers_iff_typed : ∃ w' : World,
    Replays typed.headers (headLines w'.client.bytes) ↔
      ∀ f ∈ typed.headers, f.1 ∈ header_names → typed.headers.getLast? = some f ∧ f.2 ≠ [] := by
  obtain ⟨iteration⟩ := nonempty_iteration
  obtain ⟨entry, put, data, line, headers, valid⟩ := typed_put iteration
  obtain ⟨w', served⟩ := typed_served iteration line headers data valid
  exact ⟨w', replayed_headers_iff (plainEnvironment iteration) (cachedEnvironment iteration entry)
    plain plain typedKernel entry typed (World.start typedKernel) w' put (typed_relayed iteration)
    rfl valid rfl served⟩

/-- A hit sends "a" and a CR for the Content-Type "a". -/
theorem not_always_replayed : ¬ ∀ (env env' : Environment) (request request' : Request) (k : Kernel)
    (entry : CacheEntry) (m : Tidy) (w w' : World),
    (request.url, entry) ∈ ((forwardRequest env request).after (World.start k)).puts →
    ((forwardRequest env request).after (World.start k)).client.bytes = m.wire.render →
    env'.lookup request'.url = some entry → entry.isExpired env'.now = false →
    w.client.written = [] → (processGetRequest env' request').run w = .ok true w' →
    Replays m.headers (headLines w'.client.bytes) := by
  intro all
  obtain ⟨iteration⟩ := nonempty_iteration
  obtain ⟨entry, put, data, line, headers, valid⟩ := typed_put iteration
  obtain ⟨w', served⟩ := typed_served iteration line headers data valid
  have replays := all (plainEnvironment iteration) (cachedEnvironment iteration entry) plain plain
    typedKernel entry typed (World.start typedKernel) w' put (typed_relayed iteration) rfl valid
    rfl served
  rw [cached_get iteration valid] at served
  have lines : headLines w'.client.bytes =
      [bytes "HTTP/1.1 200 OK", bytes "Content-Type: a\r"] := by
    rw [served_bytes rfl served, hit_message, typed_hit iteration line headers, data]
    decide +kernel
  exact replays.no_cr (bytes "Content-Type: a\r") (by rw [lines]; decide) (by decide)

end CachingProxy
