import CachingProxy.Delivery
import CachingProxy.Provenance

/-! Which responses forwardRequest stores. A run stores at most once, and only when it returns
true; of the header block it obeys the last Cache-Control line that Response::parse sees. -/
namespace CachingProxy
open Cpp Action

/-! ## The runs that return true -/

/-- Each segment is taken whole by a sendAll of its own. -/
inductive SentEach : List SendOutcome → List Segment → List SendOutcome → Prop where
  | nil {sends : List SendOutcome} : SentEach sends [] sends
  | cons {sends next left : List SendOutcome} {segment : Segment} {segments : List Segment}
      (first : SentAll sends segment.data next) (later : SentEach next segments left) :
      SentEach sends (segment :: segments) left

/-- The origin is asked, what the header loop reads is `h`, and all of the answer is relayed. -/
def Completes (env : Environment) (request : Request) (w : World) (h : Bytes) : Prop :=
  ∃ left sends, Opened env request w h left sends ∧ ∃ f, scan_framing h = .ok f ∧
    ∃ segments left' sends', BodyRead f (initial_body h).length left segments left' ∧
      SentEach sends segments sends'

theorem bodyLoop_returns_iff (f : Framing) (is_cacheable : Bool) (buffer : Bytes) (n : Nat)
    (recvs : List RecvOutcome) (w : World) :
    (∃ b w', (bodyLoop f is_cacheable buffer n recvs).run w = .ok (some b) w') ↔
      ∃ segments left sends, BodyRead f n recvs segments left ∧
        SentEach w.client.sends segments sends := by
  induction recvs generalizing buffer n w with
  | nil =>
    refine iff_of_false ?_ ?_
    · rintro ⟨b, w', h⟩
      cases h
    · rintro ⟨segments, left, sends, body, -⟩
      cases body
  | cons outcome rest ih =>
    cases outcome with
    | closed =>
      exact iff_of_true ⟨_, _, bodyLoop_ended rfl _ _ _ _ _ _⟩ ⟨[], rest, _, .ended rfl, .nil⟩
    | failed errno =>
      exact iff_of_true ⟨_, _, bodyLoop_ended rfl _ _ _ _ _ _⟩ ⟨[], rest, _, .ended rfl, .nil⟩
    | data segment =>
      rcases bodyLoop_data f is_cacheable buffer n segment rest w with
        ⟨next, all, turn⟩ | ⟨never, accepted, next, -, run⟩
      · rw [turn]
        cases stop : f.complete (n + segment.data.length) segment.data with
        | true => exact iff_of_true ⟨_, _, rfl⟩ ⟨[segment], rest, next, .whole stop, .cons all .nil⟩
        | false =>
          rw [if_neg (by decide), ih]
          constructor
          · rintro ⟨segments, left, sends, later, each⟩
            exact ⟨segment :: segments, left, sends, .more stop later, .cons all each⟩
          · rintro ⟨segments, left, sends, body, each⟩
            cases body with
            | ended no_data => exact absurd no_data segment.some_bytes
            | whole stop' => cases stop.symm.trans stop'
            | more go later =>
              cases each with
              | cons first each =>
                obtain rfl := first.2.symm.trans all.2
                exact ⟨_, left, sends, later, each⟩
      · refine iff_of_false ?_ ?_
        · rintro ⟨b, w', h⟩
          rcases run with run | run
          · cases h.symm.trans run
          · cases h.symm.trans run
        · rintro ⟨segments, left, sends, body, each⟩
          cases body with
          | ended no_data => exact segment.some_bytes no_data
          | whole stop =>
            cases each with
            | cons first each => exact never _ first
          | more go later =>
            cases each with
            | cons first each => exact never _ first

theorem relayBody_returns_iff (env : Environment) (request : Request) (h : Bytes) (w : World) :
    (∃ w', (relayBody env request h).run w = .ok true w') ↔ ∃ f, scan_framing h = .ok f ∧
      ∃ segments left sends, BodyRead f (initial_body h).length w.server.recvs segments left ∧
        SentEach w.client.sends segments sends := by
  unfold relayBody
  cases framing : scan_framing h with
  | error e =>
    rw [bind_of_error (run_ofExcept_error rfl w)]
    simp
  | ok f =>
    rw [bind_of_ok (run_ofExcept_ok rfl w), bind_of_ok (run_get w)]
    simp only [Except.ok.injEq, exists_eq_left']
    rw [← bodyLoop_returns_iff f (is_cacheable request h)
      (if is_cacheable request h then initial_body h else [])]
    cases loop : (bodyLoop f (is_cacheable request h)
        (if is_cacheable request h then initial_body h else []) (initial_body h).length
        w.server.recvs).run w with
    | error e w' =>
      rw [bind_of_error loop]
      simp
    | ok read w' =>
      rw [bind_of_ok loop]
      cases read with
      | none => simp
      | some body => exact iff_of_true ⟨_, store_run env request h body w'⟩ ⟨body, w', rfl⟩

theorem opened_returns_iff {env : Environment} {request : Request} {w : World} {h : Bytes}
    {left : List RecvOutcome} {sends : List SendOutcome}
    (opened : Opened env request w h left sends) :
    (∃ w', (forwardRequest env request).run w = .ok true w') ↔ ∃ f, scan_framing h = .ok f ∧
      ∃ segments left' sends', BodyRead f (initial_body h).length left segments left' ∧
        SentEach sends segments sends' := by
  obtain ⟨w₁, -, next, recvs, run⟩ := opened_run opened
  rw [run, relayBody_returns_iff, next, recvs]

theorem returns_of_completes {env : Environment} {request : Request} {w : World} {h : Bytes}
    (completes : Completes env request w h) :
    ∃ w', (forwardRequest env request).run w = .ok true w' := by
  obtain ⟨left, sends, opened, rest⟩ := completes
  exact (opened_returns_iff opened).mpr rest

theorem Completes.unique {env : Environment} {request : Request} {w : World} {h h' : Bytes}
    (c : Completes env request w h) (c' : Completes env request w h') : h = h' := by
  obtain ⟨left, sends, opened, -⟩ := c
  obtain ⟨left', sends', opened', -⟩ := c'
  exact (opened.read.deterministic opened'.read).1

/-- A run stores what `stored` says if it completes, and nothing else. -/
theorem forwardRequest_puts (env : Environment) (request : Request) (w : World) :
    (∃ h body, Completes env request w h ∧ ((forwardRequest env request).after w).puts =
        w.puts ++ stored env request h body) ∨
      (∀ h, ¬ Completes env request w h) ∧
        ((forwardRequest env request).after w).puts = w.puts := by
  have exit := forwardRequest_exit env request w
  generalize hr : (forwardRequest env request).run w = r at exit
  have incomplete (ends : ∀ w', r ≠ .ok true w') : ∀ h, ¬ Completes env request w h := by
    intro h completes
    obtain ⟨w', run⟩ := returns_of_completes completes
    exact ends w' (hr.symm.trans run)
  cases exit with
  | silent nothing =>
    rw [after_of_error hr]
    exact Or.inr ⟨incomplete (by simp), nothing.puts⟩
  | answered answers ends =>
    rcases ends with rfl | rfl
    · rw [after_of_ok hr]
      exact Or.inr ⟨incomplete (by simp), answers.puts⟩
    · rw [after_of_error hr]
      exact Or.inr ⟨incomplete (by simp), answers.puts⟩
  | relayed relayed =>
    cases relayed with
    | broken pre relays ends =>
      rcases ends with rfl | rfl
      · rw [after_of_ok hr]
        exact Or.inr ⟨incomplete (by simp), relays.puts⟩
      · rw [after_of_error hr]
        exact Or.inr ⟨incomplete (by simp), relays.puts⟩
    | rejected opened declared number relays next =>
      rw [after_of_error hr]
      exact Or.inr ⟨incomplete (by simp), relays.puts⟩
    | @finished h left left' sends f segments w₁ opened framing body relays =>
      rw [after_of_ok hr]
      have completes : Completes env request w h :=
        ⟨left, sends, opened, (opened_returns_iff opened).mp ⟨_, hr⟩⟩
      exact Or.inl ⟨h, initial_body h ++ flat segments, completes, by rw [relays.puts]⟩

/-! ## The line that is obeyed -/

/-- `line` is the last of `lines` that begins with `start`. -/
def LastWith (start : Bytes) (lines : List Bytes) (line : Bytes) : Prop :=
  ∃ above below, lines = above ++ line :: below ∧ start <+: line ∧ ∀ l ∈ below, ¬ start <+: l

/-- The last header line named Cache-Control contains no-store. -/
def NoStore (h : Bytes) : Prop :=
  ∃ line, LastWith (bytes "Cache-Control:") (head_lines h) line ∧
    contains line (bytes "no-store") = true

/-- The last line in front of an empty one that has the name, the colon and a space contains
no-store. -/
def SeenNoStore (h : Bytes) : Prop :=
  ∃ line, LastWith (bytes "Cache-Control: ") ((head_lines h).takeWhile (fun l => l != [])) line ∧
    contains line (bytes "no-store") = true

/-- The value of a header line of that name, as Response::parse finds it. -/
def valueOf (name header_line : Bytes) : Option Bytes :=
  (Response.field header_line).bind (fun f => if f.1 = name then some f.2 else none)

theorem valueOf_eq_some_iff {name : Bytes} (clean : (58 : UInt8) ∉ name) (l value : Bytes) :
    valueOf name l = some value ↔ l = name ++ 58 :: 32 :: value := by
  constructor
  · intro h
    obtain ⟨f, hf, same⟩ := Option.bind_eq_some_iff.mp h
    split at same
    · rename_i e
      cases same
      exact e ▸ Response.line_of_field hf
    · cases same
  · rintro rfl
    simp [valueOf, Response.field_line clean]

theorem valueOf_eq_none_iff {name : Bytes} (clean : (58 : UInt8) ∉ name) (l : Bytes) :
    valueOf name l = none ↔ ¬ name ++ [58, 32] <+: l := by
  rw [Option.eq_none_iff_forall_ne_some]
  constructor
  · rintro unnamed ⟨value, rfl⟩
    exact unnamed value ((valueOf_eq_some_iff clean _ value).mpr (by simp))
  · intro other value h
    rw [valueOf_eq_some_iff clean] at h
    exact other ⟨value, by simp [h]⟩

theorem last_value_eq_some_iff {name : Bytes} (clean : (58 : UInt8) ∉ name) (lines : List Bytes)
    (value : Bytes) : Response.last_value name (lines.filterMap Response.field) = some value ↔
      LastWith (name ++ [58, 32]) lines (name ++ 58 :: 32 :: value) := by
  have last : Response.last_value name (lines.filterMap Response.field) =
      lines.reverse.findSome? (valueOf name) := by
    rw [Response.last_value, Response.values, ← List.filterMap_eq_map, List.filterMap_filter,
      List.filterMap_filterMap, ← List.getLast?_filterMap]
    congr 2
    funext l
    simp [valueOf]
  rw [last, List.findSome?_eq_some_iff]
  simp only [valueOf_eq_some_iff clean, valueOf_eq_none_iff clean]
  constructor
  · rintro ⟨below, line, above, order, rfl, unnamed⟩
    have order' := congrArg List.reverse order
    refine ⟨above.reverse, below.reverse, ?_, ⟨value, by simp⟩, ?_⟩
    · simpa using order'
    · simpa using unnamed
  · rintro ⟨above, below, rfl, -, unnamed⟩
    exact ⟨below.reverse, _, above.reverse, by simp, rfl, by simpa using unnamed⟩

theorem seenNoStore_iff (h : Bytes) :
    SeenNoStore h ↔ Response.controls (header_fields h) (bytes "no-store") = true := by
  have colonless : (58 : UInt8) ∉ Response.CacheControl := by decide
  have start : Response.CacheControl ++ [58, 32] = bytes "Cache-Control: " := rfl
  have known : bytes "no-store" ∈ forbidding := List.mem_cons_self
  rw [Response.controls, header_fields_eq, Option.any_eq_true]
  simp only [last_value_eq_some_iff colonless, start]
  constructor
  · rintro ⟨line, last, named⟩
    obtain ⟨value, rfl⟩ : bytes "Cache-Control: " <+: line := by
      obtain ⟨above, below, -, front, -⟩ := last
      exact front
    have form : Response.CacheControl ++ 58 :: 32 :: value = bytes "Cache-Control: " ++ value := by
      rw [← start, List.append_assoc]
      rfl
    refine ⟨value, ?_, contains_value known ?_⟩
    · rw [form]
      exact last
    · rw [form]
      exact named
  · rintro ⟨value, last, named⟩
    refine ⟨_, last, ?_⟩
    rw [contains_iff] at named ⊢
    exact named.trans ⟨bytes "Cache-Control: ", [], by simp [← start]⟩

/-! ## The effect on the cache -/

/-- All that the decision to store asks for, apart from Cache-Control. -/
structure Storable (env : Environment) (request : Request) (w : World) (h : Bytes) : Prop where
  get : request.method = bytes "GET"
  completes : Completes env request w h
  ok_line : bytes "HTTP/1.1 200" <+: h
  whole : (find CRLFCRLF h).isSome
  converts : ∀ f ∈ header_fields h, Response.Converts f

theorem Storable.unique {env : Environment} {request : Request} {w : World} {h h' : Bytes}
    (s : Storable env request w h) (s' : Storable env request w h') : h = h' :=
  s.completes.unique s'.completes

theorem stored_cases {env : Environment} {request : Request} {w : World} {h : Bytes}
    (completes : Completes env request w h) (body : Bytes) :
    stored env request h body = [] ∧ ¬ (Storable env request w h ∧ ¬ SeenNoStore h) ∨
      (∃ entry, stored env request h body = [(request.url, entry)]) ∧
        Storable env request w h ∧ ¬ SeenNoStore h := by
  unfold stored
  rw [seenNoStore_iff]
  by_cases cacheable : is_cacheable request h = true
  · rw [if_pos cacheable]
    simp only [is_cacheable, Bool.and_eq_true, decide_eq_true_eq, find_zero_iff] at cacheable
    cases parsed : Response.parse env.calendar env.time_now h with
    | error e =>
      refine Or.inl ⟨rfl, ?_⟩
      rintro ⟨storable, -⟩
      obtain ⟨pos, found⟩ := Option.isSome_iff_exists.mp storable.whole
      have converts := storable.converts
      rw [header_fields, found] at converts
      obtain ⟨r, ok⟩ := (Response.parse_ok_iff env.calendar env.time_now h).mpr
        ⟨pos, found, converts⟩
      cases parsed.symm.trans ok
    | ok response =>
      obtain ⟨pos, found, converts⟩ := (Response.parse_ok_iff _ _ _).mp ⟨response, parsed⟩
      obtain ⟨pos', found', judged⟩ := Response.parse_judged parsed
      have fields : header_fields h = Response.fields (h.take pos) := by
        rw [header_fields, found]
        rfl
      have no_store : response.is_no_store_ =
          Response.controls (header_fields h) (bytes "no-store") := by
        rw [judged.no_store, fields, Option.some.inj (found.symm.trans found')]
      rw [← no_store]
      cases forbidden : response.is_no_store_ with
      | true => exact Or.inl ⟨by simp [forbidden], by simp⟩
      | false =>
        have storable : Storable env request w h :=
          ⟨cacheable.1, completes, cacheable.2, by rw [found]; rfl, fields ▸ converts⟩
        exact Or.inr ⟨⟨_, by simp [forbidden]; rfl⟩, storable, by simp⟩
  · rw [if_neg cacheable]
    refine Or.inl ⟨rfl, ?_⟩
    rintro ⟨storable, -⟩
    apply cacheable
    simp only [is_cacheable, Bool.and_eq_true, decide_eq_true_eq, find_zero_iff]
    exact ⟨storable.get, storable.ok_line⟩

/-- `puts` is at most one put under the key of the request, made exactly when all is well and the
header block does not forbid it. -/
structure CacheEffect (env : Environment) (request : Request) (w : World)
    (forbids : Bytes → Prop) (puts : List (Bytes × CacheEntry)) : Prop where
  once : (puts = [] ∧ ∀ c, Proxy.putAll c puts = some c) ∨
    ∃ entry, puts = [(request.url, entry)] ∧ ∀ c, Proxy.putAll c puts = c.put request.url entry
  stores : puts ≠ [] ↔ ∃ h, Storable env request w h ∧ ¬ forbids h
  failed : (∀ w', (forwardRequest env request).run w ≠ .ok true w') → puts = []

theorem putAll_one (c : Cache) (key : Bytes) (entry : CacheEntry) :
    Proxy.putAll c [(key, entry)] = c.put key entry := by
  simp only [Proxy.putAll, List.foldlM_cons, List.foldlM_nil]
  cases c.put key entry <;> rfl

/-- A run obeys the last Cache-Control line that Response::parse sees. -/
theorem effect_seen (env : Environment) (request : Request) (w : World) :
    ∃ puts, ((forwardRequest env request).after w).puts = w.puts ++ puts ∧
      CacheEffect env request w SeenNoStore puts := by
  rcases forwardRequest_puts env request w with ⟨h, body, completes, same⟩ | ⟨incomplete, same⟩
  · refine ⟨_, same, ?_⟩
    have returned := returns_of_completes completes
    rcases stored_cases completes body with ⟨nothing, refused⟩ | ⟨⟨entry, one⟩, storable, allowed⟩
    · rw [nothing]
      refine ⟨Or.inl ⟨rfl, fun c => rfl⟩, ?_, fun _ => rfl⟩
      refine iff_of_false (by simp) ?_
      rintro ⟨h', storable, allowed⟩
      obtain rfl := completes.unique storable.completes
      exact refused ⟨storable, allowed⟩
    · rw [one]
      refine ⟨Or.inr ⟨entry, rfl, fun c => putAll_one c _ _⟩, ?_, ?_⟩
      · exact iff_of_true (by simp) ⟨h, storable, allowed⟩
      · intro failed
        obtain ⟨w', run⟩ := returned
        exact absurd run (failed w')
  · refine ⟨[], by simpa using same, Or.inl ⟨rfl, fun c => rfl⟩, ?_, fun _ => rfl⟩
    refine iff_of_false (by simp) ?_
    rintro ⟨h, storable, -⟩
    exact incomplete h storable.completes

/-- Another rule describes the same effect exactly when it agrees on what is storable. -/
theorem effect_iff {env : Environment} {request : Request} {w : World}
    {forbids forbids' : Bytes → Prop} {puts : List (Bytes × CacheEntry)}
    (effect : CacheEffect env request w forbids puts) :
    CacheEffect env request w forbids' puts ↔
      ∀ h, Storable env request w h → (forbids' h ↔ forbids h) := by
  have at_most (f : Bytes → Prop) {h : Bytes} (storable : Storable env request w h) :
      (∃ h', Storable env request w h' ∧ ¬ f h') ↔ ¬ f h := by
    constructor
    · rintro ⟨h', storable', allowed⟩
      obtain rfl := storable.unique storable'
      exact allowed
    · exact fun allowed => ⟨h, storable, allowed⟩
  constructor
  · intro effect' h storable
    have same := effect'.stores.symm.trans effect.stores
    rw [at_most forbids' storable, at_most forbids storable] at same
    exact not_iff_not.mp same
  · intro agree
    refine ⟨effect.once, effect.stores.trans ?_, effect.failed⟩
    refine exists_congr (fun h => and_congr_right (fun storable => ?_))
    exact not_congr (agree h storable).symm

/-- The effect of a run on the cache, with the lines that Response::parse sees; it is the same
with the header lines by name exactly when the two agree about no-store. -/
theorem exact_effect_iff (env : Environment) (request : Request) (w : World) :
    ∃ puts, ((forwardRequest env request).after w).puts = w.puts ++ puts ∧
      CacheEffect env request w SeenNoStore puts ∧
      (CacheEffect env request w NoStore puts ↔
        ∀ h, Storable env request w h → (NoStore h ↔ SeenNoStore h)) := by
  obtain ⟨puts, grown, effect⟩ := effect_seen env request w
  exact ⟨puts, grown, effect, effect_iff effect⟩

theorem noStore_line : NoStore noStore.data :=
  ⟨bytes "Cache-Control:no-store", ⟨[], [], by decide +kernel, by decide, by simp⟩, by decide⟩

/-- Without a space after its colon no-store is not seen, and the response is stored. -/
theorem not_always_exact_effect : ¬ ∀ (env : Environment) (request : Request) (w : World),
    ∃ puts, ((forwardRequest env request).after w).puts = w.puts ++ puts ∧
      CacheEffect env request w NoStore puts := by
  intro all
  obtain ⟨iteration⟩ := nonempty_iteration
  let w := World.start (plainKernel [.data noStore, .closed])
  obtain ⟨puts, grown, effect⟩ := all (plainEnvironment iteration) plain w
  have stored : ((forwardRequest (plainEnvironment iteration) plain).after w).puts.map Prod.fst =
      [plain.url] := rfl
  have some_put : puts ≠ [] := by
    rintro rfl
    rw [grown] at stored
    cases stored
  obtain ⟨h, storable, allowed⟩ := effect.stores.mp some_put
  obtain ⟨left, sends, opened, -⟩ := storable.completes
  have read : HeaderRead [] w.server.recvs noStore.data [.closed] := .whole (by decide +kernel)
  obtain ⟨rfl, -⟩ := read.deterministic opened.read
  exact allowed noStore_line

/-! ## Responses that a shared cache must not keep -/

/-- The answer to a GET begins with `h`, and a Cache-Control line in its header block lists a
directive that forbids a shared cache to keep it. -/
structure Unshared (request : Request) (w : World) (h : Bytes) : Prop where
  get : request.method = bytes "GET"
  read : ∃ left, HeaderRead [] w.server.recvs h left
  line : ∃ value, bytes "Cache-Control: " ++ value ∈ head_lines h ∧
    (Http.lists value (bytes "no-store") ∨ Http.lists value (bytes "private"))

/-- Such an answer stays out of the cache exactly when it is not stored for another reason, or
the last Cache-Control line that is seen contains no-store. -/
theorem unshared_not_kept_iff (env : Environment) (request : Request) (w : World) (h : Bytes)
    (unshared : Unshared request w h) :
    ((forwardRequest env request).after w).puts = w.puts ↔
      ¬ Storable env request w h ∨ SeenNoStore h := by
  obtain ⟨puts, grown, effect⟩ := effect_seen env request w
  obtain ⟨left, read⟩ := unshared.read
  have nothing : ((forwardRequest env request).after w).puts = w.puts ↔ puts = [] := by
    rw [grown]
    simp
  rw [nothing, ← not_iff_not]
  refine effect.stores.trans ?_
  constructor
  · rintro ⟨h', storable, allowed⟩ forbidden
    obtain ⟨left', sends, opened, -⟩ := storable.completes
    obtain ⟨rfl, -⟩ := read.deterministic opened.read
    exact forbidden.elim (fun e => e storable) allowed
  · intro stored
    obtain ⟨storable, allowed⟩ := not_or.mp stored
    exact ⟨h, not_not.mp storable, allowed⟩

def privateAnswer : Segment :=
  ⟨bytes "HTTP/1.1 200 OK\r\nCache-Control: private\r\n\r\n", by decide +kernel,
    by decide +kernel⟩

theorem unshared_privateAnswer :
    Unshared plain (World.start (plainKernel [.data privateAnswer, .closed])) privateAnswer.data where
  get := rfl
  read := ⟨_, .whole (by decide +kernel)⟩
  line := ⟨bytes "private", by decide +kernel, Or.inr (by decide)⟩

theorem unshared_not_kept_iff_private : ∃ iteration : Iteration,
    ((forwardRequest (plainEnvironment iteration) plain).after
        (World.start (plainKernel [.data privateAnswer, .closed]))).puts = [] ↔
      ¬ Storable (plainEnvironment iteration) plain
          (World.start (plainKernel [.data privateAnswer, .closed])) privateAnswer.data ∨
        SeenNoStore privateAnswer.data := by
  obtain ⟨iteration⟩ := nonempty_iteration
  exact ⟨iteration, unshared_not_kept_iff _ _ _ _ unshared_privateAnswer⟩

/-- A response for one user alone is stored for all of them. -/
theorem unshared_kept : ¬ ∀ (env : Environment) (request : Request) (w : World) (h : Bytes),
    Unshared request w h → ((forwardRequest env request).after w).puts = w.puts := by
  intro all
  obtain ⟨iteration⟩ := nonempty_iteration
  have nothing := all (plainEnvironment iteration) plain _ _ unshared_privateAnswer
  have stored : ((forwardRequest (plainEnvironment iteration) plain).after
      (World.start (plainKernel [.data privateAnswer, .closed]))).puts.map Prod.fst =
      [plain.url] := rfl
  rw [nothing] at stored
  cases stored

end CachingProxy
