import CachingProxy.Erasure
import CachingProxy.LogFile
import CachingProxy.Telling

/-! What can be read from the log file. The handlers of all connections and main write to it at
once; the lines of one connection can still be told from the others, and they tell its tale. -/
namespace CachingProxy.Logging
open Cpp Action SharedMutex LogFile

/-! ## The kind of a record -/

/-- One record of each kind, in the order of the constructors. -/
def kinds : List Record :=
  [.failed_to_read, .client_closed, .invalid_request, .request [] [] [], .unsupported_method [],
    .handling_failed, .exception [], .not_in_cache, .expired_at [], .requires_validation, .valid,
    .responding [], .failed_cache_headers, .failed_cache_body, .sent_cache 0, .processing_post,
    .processing_connect [] [], .requesting [] [], .failed_to_connect [] [], .failed_200,
    .tunnel_established, .tunnel_closed, .empty_hostname, .failed_server_socket,
    .failed_to_send_request, .beginning_to_receive, .failed_to_read_origin [], .origin_closed,
    .no_response, .received [] [], .failed_to_forward, .failed_to_forward_body, .not_cacheable,
    .cached_for_validation, .cached_until [], .not_cached [], .poll_failed, .tunnel_terminated]

theorem kinds_incomparable :
    ∀ r ∈ kinds, ∀ r' ∈ kinds, r.head <+: r'.head → r.ctorIdx = r'.ctorIdx := by
  decide +kernel

theorem kind_listed (r : Record) :
    ∃ kind ∈ kinds, kind.head = r.head ∧ kind.ctorIdx = r.ctorIdx := by
  have found : kinds[r.ctorIdx]?.map (fun kind => (kind.head, kind.ctorIdx)) =
      some (r.head, r.ctorIdx) := by cases r <;> rfl
  obtain ⟨kind, there, same⟩ := Option.map_eq_some_iff.mp found
  obtain ⟨head, ctor⟩ := Prod.mk.inj same
  exact ⟨kind, List.mem_of_getElem? there, head, ctor⟩

theorem heads_incomparable {r r' : Record} (first : r.head <+: r'.head) :
    r.ctorIdx = r'.ctorIdx := by
  obtain ⟨kind, listed, head, ctor⟩ := kind_listed r
  obtain ⟨kind', listed', head', ctor'⟩ := kind_listed r'
  rw [← ctor, ← ctor']
  exact kinds_incomparable kind listed kind' listed' (by rwa [head, head'])

/-- A text in the log is that of one kind of record only. -/
theorem kind_of_text {r r' : Record} (same : r.text = r'.text) : r.ctorIdx = r'.ctorIdx := by
  have here : r.head <+: r.text := List.prefix_append _ _
  have there : r'.head <+: r.text := same ▸ List.prefix_append _ _
  rcases List.prefix_or_prefix_of_prefix here there with first | first
  · exact heads_incomparable first
  · exact (heads_incomparable first).symm

/-! ## The lines of main -/

/-- What becomes of one turn of the accept loop. -/
inductive Turn where
  | failed
  | unthreaded
  | threaded

/-- What main logs, under "(no-id)". -/
inductive Notice where
  | server_started
  | pool_created (hardware_concurrency : Nat)
  | failed_to_accept
  | failed_to_create_thread

def Notice.text : Notice → Bytes
  | .server_started => bytes "NOTE Proxy server started"
  | .pool_created hardware_concurrency => bytes "NOTE Thread pool created with " ++
    Request.to_string hardware_concurrency ++ bytes " threads"
  | .failed_to_accept => bytes "ERROR Failed to accept connection"
  | .failed_to_create_thread => bytes "ERROR failed to create thread"

def Turn.notices : Turn → List Notice
  | .failed => [.failed_to_accept]
  | .unthreaded => [.failed_to_create_thread]
  | .threaded => []

def main (hardware_concurrency : Nat) (turns : List Turn) : List Notice :=
  .server_started :: .pool_created hardware_concurrency :: turns.flatMap Turn.notices

theorem to_string_clean (n : Nat) : (10 : UInt8) ∉ Request.to_string n := by
  intro mem
  obtain ⟨c, listed, code⟩ := List.mem_map.mp mem
  have digits : (toString n).toList = Nat.toDigits 10 n := Nat.toList_repr
  rw [digits] at listed
  obtain ⟨low, high⟩ := Char.isDigit_iff_toNat.mp
    (Nat.isDigit_of_mem_toDigits (by decide) (by decide) listed)
  have value : c.toNat % 256 = 10 := congrArg UInt8.toNat code
  have low : 48 ≤ c.toNat := low
  have high : c.toNat ≤ 57 := high
  omega

theorem notice_clean (notice : Notice) : (10 : UInt8) ∉ notice.text := by
  cases notice with
  | server_started => decide
  | pool_created hardware_concurrency =>
    simp only [Notice.text, List.mem_append, not_or]
    exact ⟨⟨by decide, to_string_clean _⟩, by decide⟩
  | failed_to_accept => decide
  | failed_to_create_thread => decide

def no_id : Bytes := bytes "(no-id)"

/-! ## The file -/

section connections

variable {τ : Type} [DecidableEq τ] (id : τ → Bytes) (env : τ → Environment) (o : τ → Observer)
  (k : τ → Kernel)

/-- The id of main is no id of a connection, and neither has a colon or a line feed. -/
structure Ids : Prop where
  distinct : Function.Injective id
  own : ∀ t, id t ≠ no_id
  plain : ∀ t, (58 : UInt8) ∉ id t ∧ (10 : UInt8) ∉ id t

def ids : Option τ → Bytes
  | none => no_id
  | some t => id t

/-- The lines of main, and those of the handler of each connection. -/
def logged (hardware_concurrency : Nat) (turns : List Turn) : Option τ → List Bytes
  | none => (main hardware_concurrency turns).map (fun notice => mark no_id ++ notice.text)
  | some t => (ended (env t) (o t) (k t)).trace.map (fun r => mark (id t) ++ r.text)

variable {id env o k}

omit [DecidableEq τ] in
theorem Ids.injective (h : Ids id) : Function.Injective (ids id) := by
  intro t u same
  cases t with
  | none =>
    cases u with
    | none => rfl
    | some u => exact absurd same.symm (h.own u)
  | some t =>
    cases u with
    | none => exact absurd same (h.own t)
    | some u => exact congrArg some (h.distinct same)

omit [DecidableEq τ] in
theorem Ids.colonless (h : Ids id) (t : Option τ) : (58 : UInt8) ∉ ids id t := by
  cases t with
  | none =>
    change (58 : UInt8) ∉ no_id
    decide
  | some t => exact (h.plain t).1

omit [DecidableEq τ] in
theorem mark_clean {name text : Bytes} (name_clean : (10 : UInt8) ∉ name)
    (text_clean : (10 : UInt8) ∉ text) : (10 : UInt8) ∉ mark name ++ text := by
  have colon : (10 : UInt8) ∉ bytes ": " := by decide
  simp only [mark, List.mem_append, not_or]
  exact ⟨⟨name_clean, colon⟩, text_clean⟩

omit [DecidableEq τ] in
theorem logged_marked (h : Ids id) (hardware_concurrency : Nat) (turns : List Turn)
    (texts : ∀ t, ∀ r ∈ (ended (env t) (o t) (k t)).trace, (10 : UInt8) ∉ r.text) (t : Option τ) :
    ∀ message ∈ logged id env o k hardware_concurrency turns t,
      mark (ids id t) <+: message ∧ (10 : UInt8) ∉ message := by
  intro message mem
  cases t with
  | none =>
    obtain ⟨notice, -, rfl⟩ := List.mem_map.mp mem
    exact ⟨List.prefix_append _ _, mark_clean (by decide) (notice_clean notice)⟩
  | some t =>
    obtain ⟨r, listed, rfl⟩ := List.mem_map.mp mem
    exact ⟨List.prefix_append _ _, mark_clean (h.plain t).2 (texts t r listed)⟩

/-- Lines that are those of two lists of records. -/
theorem kinds_of_lines {front : Bytes} {records records' : List Record}
    (same : records.map (fun r => front ++ r.text) = records'.map (fun r => front ++ r.text)) :
    records.map Record.ctorIdx = records'.map Record.ctorIdx := by
  induction records generalizing records' with
  | nil =>
    obtain rfl := List.map_eq_nil_iff.mp same.symm
    rfl
  | cons r records ih =>
    cases records' with
    | nil => cases same
    | cons r' records' =>
      obtain ⟨here, rest⟩ := List.cons.inj same
      rw [List.map_cons, List.map_cons, ih rest, kind_of_text (List.append_cancel_left here)]

/-- Main and the handlers of any number of connections write to the log at once. Whenever no line
is being written, the file holds for each connection the texts of what its handler has logged so
far, the handler has the rest of its records still to log, the automaton reads those in the file,
and the file leaves no doubt of which kinds they are. When the handler has logged all that it does,
what the automaton makes of them is true. -/
theorem file_tells_the_tales (named : Ids id) {hardware_concurrency : Nat} {turns : List Turn}
    {old : List Bytes}
    (older : ∀ line ∈ old, (10 : UInt8) ∉ line)
    (texts : ∀ t, ∀ r ∈ (ended (env t) (o t) (k t)).trace, (10 : UInt8) ∉ r.text)
    {s : System (Option τ) Bytes Unit Bytes}
    (reach : Relation.ReflTransGen (Advance underLock)
      (System.start (lines old)
        (fun t => .script (logged id env o k hardware_concurrency turns t))) s)
    (free : s.config.writer = none) (t : τ) (unmarked : ∀ line ∈ old, ¬ mark (id t) <+: line) :
    ∃ records later stage, records ++ later = (ended (env t) (o t) (k t)).trace ∧
      linesOf (id t) s.config.state = records.map (fun r => mark (id t) ++ r.text) ∧
      s.clients (some t) = .script (later.map (fun r => mark (id t) ++ r.text)) ∧
      Runs.run next .opened records = some stage ∧
      (∀ records' : List Record,
        linesOf (id t) s.config.state = records'.map (fun r => mark (id t) ++ r.text) →
        records'.map Record.ctorIdx = records.map Record.ctorIdx) ∧
      (s.clients (some t) = .done → records = (ended (env t) (o t) (k t)).trace ∧
        Tells ⟨env t, k t⟩ stage (ended (env t) (o t) (k t)).state) := by
  obtain ⟨left, client, all⟩ := lines_of_connection named.injective named.colonless
    (logged_marked named hardware_concurrency turns texts) older reach free (t := some t) unmarked
  obtain ⟨records, later, parts, read, rest⟩ := List.map_eq_append_iff.mp all.symm
  subst rest
  obtain ⟨stage, stand⟩ := ended_somewhere (env t) (o t) (k t)
  have reads := stand.read
  rw [parts, Runs.run_append] at reads
  obtain ⟨stage₁, first, last⟩ := Option.bind_eq_some_iff.mp reads
  refine ⟨records, later, stage₁, parts.symm, read.symm, client, first, ?_, ?_⟩
  · intro records' read'
    exact kinds_of_lines (read'.symm.trans read.symm)
  · intro done
    have nothing : later = [] := by
      cases later with
      | nil => rfl
      | cons r later => cases client.symm.trans done
    subst nothing
    rw [List.append_nil] at parts
    obtain rfl := Option.some.inj last
    exact ⟨parts.symm, stand.tells⟩

end connections

/-- A client that closes its connection at once. -/
def closedKernel : Kernel := ⟨[], [.closed], [], [], []⟩

/-- A client that sends what is no request. -/
def refusedKernel : Kernel :=
  ⟨[⟨1000, .other⟩], [.data ⟨bytes "?", by decide, by decide⟩], [], [], []⟩

/-- Connection 2 is there for what is no request, connection 1 for nothing. -/
def twoKernels (first : Bool) : Kernel := if first then closedKernel else refusedKernel

def twoIds (first : Bool) : Bytes := if first then bytes "1" else bytes "2"

/-- The line of connection 1 is in the file between the first line of connection 2 and its last,
which is still to come. -/
theorem file_tells_the_tales_two_connections : ∃ (env : Environment)
    (s : System (Option Bool) Bytes Unit Bytes),
    s.config.state = bytes "2: ERROR Invalid request format\n1: Client closed connection\n" ∧
      s.clients (some true) = .done ∧
      s.clients (some false) = .script [bytes "2: Responding \"HTTP/1.1 400 Bad Request\""] ∧
      ∀ t, ∃ records later stage, records ++ later = (ended env epochObserver (twoKernels t)).trace ∧
        linesOf (twoIds t) s.config.state = records.map (fun r => mark (twoIds t) ++ r.text) ∧
        s.clients (some t) = .script (later.map (fun r => mark (twoIds t) ++ r.text)) ∧
        Runs.run next .opened records = some stage ∧
        (∀ records' : List Record,
          linesOf (twoIds t) s.config.state = records'.map (fun r => mark (twoIds t) ++ r.text) →
          records'.map Record.ctorIdx = records.map Record.ctorIdx) ∧
        (s.clients (some t) = .done → records = (ended env epochObserver (twoKernels t)).trace ∧
          Tells ⟨env, twoKernels t⟩ stage (ended env epochObserver (twoKernels t)).state) := by
  obtain ⟨iteration⟩ := nonempty_iteration
  let env := plainEnvironment iteration
  have named : Ids twoIds := ⟨by decide, by decide, by decide⟩
  have refused : (ended env epochObserver refusedKernel).trace =
      [.invalid_request, .responding (bytes "HTTP/1.1 400 Bad Request")] := rfl
  let script (t : Option Bool) : List Bytes := logged twoIds (fun _ => env) (fun _ => epochObserver)
    twoKernels 8 [.threaded, .threaded] t
  obtain ⟨s₁, reach₁, clients₁, state₁, threads₁, free₁, empty₁, -⟩ := call_alone (o := underLock)
    (s := System.start (lines []) (fun t => .script (script t))) (t := some false) rfl rfl rfl rfl
    (run_write (bytes "2: ERROR Invalid request format") [])
  have at_call : s₁.clients (some true) = .script [bytes "1: Client closed connection"] := by
    rw [clients₁]
    rfl
  obtain ⟨s, reach, clients, state, -, free, -⟩ := call_alone (o := underLock) at_call
    (by rw [threads₁]; rfl) free₁ empty₁ (run_write (bytes "1: Client closed connection") _)
  refine ⟨env, s, ?_, ?_, ?_,
    fun t => file_tells_the_tales named ?_ ?_ (reach₁.trans reach) free t ?_⟩
  · rw [state, state₁]
    decide
  · rw [clients]
    exact Function.update_self ..
  · rw [clients, clients₁]
    rfl
  · exact fun _ mem => nomatch mem
  · intro t r mem
    cases t with
    | true =>
      obtain rfl : r = .client_closed := List.mem_singleton.mp mem
      decide
    | false =>
      change r ∈ (ended env epochObserver refusedKernel).trace at mem
      rw [refused] at mem
      rcases List.mem_pair.mp mem with rfl | rfl
      · decide
      · decide
  · exact fun _ mem => nomatch mem

end CachingProxy.Logging
