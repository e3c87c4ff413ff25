import CachingProxy.Admission
import CachingProxy.Runs

/-! Handlers that fetch the same page at the same time. Each of them builds its entry, with the
time of that moment, and puts it into the cache later; nothing compares the times of two entries,
so the last put wins. -/
namespace CachingProxy
open Cpp Action

/-! ## One handler in two steps -/

/-- The job when it builds its entry at this time. -/
def Job.at (job : Job) (clock : Int) : Job :=
  { job with env := { job.env with created := clock } }

theorem Job.creation_time {job : Job} {clock : Int} {p : Bytes × CacheEntry}
    (mem : p ∈ (job.at clock).outcome.puts) : p.2.creation_time = clock := by
  obtain ⟨key, entry⟩ := p
  obtain ⟨_, -, -, -, _, _, _, _, _, put, -⟩ := Job.mem_puts mem
  rw [put.entry_eq]
  rfl

/-- A handler puts at most one entry. -/
theorem Job.puts_eq (job : Job) : job.outcome.puts = job.outcome.puts.head?.toList := by
  cases h : job.outcome.puts with
  | nil => rfl
  | cons p rest =>
    obtain ⟨key, entry⟩ := p
    obtain ⟨request, -, -, -, _, _, _, _, _, -, run⟩ := Job.mem_puts (h ▸ List.mem_cons_self)
    obtain ⟨puts, grown, effect⟩ := effect_seen job.env request job.opening
    rw [after_of_ok run, job.opening_clean.1, List.nil_append, h] at grown
    rcases effect.once with ⟨nothing, -⟩ | ⟨entry, one, -⟩
    · cases grown.trans nothing
    · rw [(List.cons.inj (grown.trans one)).2]
      rfl

/-- Entries are numbered in the order in which they are built. -/
structure Race where
  clock : Int
  cache : Cache
  built : List CacheEntry
  inFlight : List Nat

inductive RaceMove where
  | tick (d : Nat)
  | build (job : Job)
  | put (n : Nat)

namespace Race

def start (max_entries : Nat) (clock : Int) : Race := ⟨clock, Cache.new max_entries, [], []⟩

/-- All handlers forward a GET for `key`; one that has nothing to store changes nothing. -/
def step (key : Bytes) (s : Race) : RaceMove → Option Race
  | .tick d => some { s with clock := s.clock + d }
  | .build job =>
    if job.get_request.map Request.url = some key then
      match (job.at s.clock).outcome.puts.head? with
      | none => some s
      | some (_, entry) =>
        some { s with
          built := s.built ++ [entry]
          inFlight := s.inFlight ++ [s.built.length] }
    else none
  | .put n =>
    if n ∈ s.inFlight then
      s.built[n]?.bind (fun entry => (s.cache.put key entry).map (fun cache =>
        { s with
          cache := cache
          inFlight := s.inFlight.erase n }))
    else none

abbrev run (key : Bytes) (s : Race) (moves : List RaceMove) : Option Race :=
  Runs.run (step key) s moves

/-- The numbers of the entries that were put, in the order of the puts. -/
def puts (moves : List RaceMove) : List Nat :=
  moves.filterMap (fun
    | .put n => some n
    | _ => none)

theorem puts_concat (past : List RaceMove) (m : RaceMove) : puts (past ++ [m]) = puts past ++ puts [m] :=
  List.filterMap_append

/-- A handler that puts as soon as it has built does what it does in one step of the proxy. -/
theorem cache_of_build_put {key : Bytes} {s s₁ s₂ : Race} {job : Job}
    (build : step key s (.build job) = some s₁)
    (put : step key s₁ (.put s.built.length) = some s₂) :
    Proxy.putAll s.cache (job.at s.clock).outcome.puts = some s₂.cache := by
  simp only [step] at build put
  split at build
  · rename_i asked
    split at put
    · obtain ⟨entry, number, rest⟩ := Option.bind_eq_some_iff.mp put
      obtain ⟨cache, put, rfl⟩ := Option.map_eq_some_iff.mp rest
      split at build
      · cases build
        rw [List.getElem?_eq_none (Nat.le_refl _)] at number
        cases number
      · rename_i stored made first
        cases build
        obtain rfl : made = entry := by simpa using number
        obtain ⟨request, read, get, own, -⟩ := Job.mem_puts (List.mem_of_head? first)
        have same : stored = key := by
          have requested : job.get_request = some request := by
            have read' : job.request = some request := read
            simp [Job.get_request, read', get]
          rw [requested] at asked
          exact own.trans (Option.some.inj asked)
        rw [Job.puts_eq, first, Option.toList_some, putAll_one, same]
        exact put
    · cases put
  · cases build

/-- What a run leaves behind. -/
structure Raced (key : Bytes) (past : List RaceMove) (s : Race) : Prop where
  rep : Cache.Rep s.cache
  sorted : s.built.Pairwise (fun e e' => e.creation_time ≤ e'.creation_time)
  clock : ∀ e ∈ s.built, e.creation_time ≤ s.clock
  numbers : ∀ n, n < s.built.length → n ∈ s.inFlight ∨ n ∈ puts past
  known : ∀ n ∈ puts past, n < s.built.length
  cached : s.cache.get key = (puts past).getLast?.bind (fun n => s.built[n]?)

theorem raced_start (key : Bytes) (max_entries : Nat) (clock : Int) :
    Raced key [] (start max_entries clock) where
  rep := Cache.rep_new max_entries
  sorted := List.Pairwise.nil
  clock := by simp [start]
  numbers := by simp [start]
  known := by simp [puts]
  cached := rfl

theorem raced_tick {key : Bytes} {past : List RaceMove} {s : Race} (h : Raced key past s) (d : Nat) :
    Raced key (past ++ [.tick d]) { s with clock := s.clock + d } := by
  have same : puts (past ++ [.tick d]) = puts past := by
    rw [puts_concat]
    exact List.append_nil _
  refine ⟨h.rep, h.sorted, ?_, same ▸ h.numbers, same ▸ h.known, same ▸ h.cached⟩
  intro e he
  have := h.clock e he
  change e.creation_time ≤ s.clock + d
  omega

theorem raced_build {key : Bytes} {past : List RaceMove} {s : Race} (h : Raced key past s)
    (job : Job) {entry : CacheEntry} (now : entry.creation_time = s.clock) :
    Raced key (past ++ [.build job]) { s with
      built := s.built ++ [entry]
      inFlight := s.inFlight ++ [s.built.length] } := by
  have same : puts (past ++ [.build job]) = puts past := by
    rw [puts_concat]
    exact List.append_nil _
  constructor
  · exact h.rep
  · refine List.pairwise_append.mpr ⟨h.sorted, List.pairwise_singleton _ _, ?_⟩
    intro e he e' he'
    rw [List.mem_singleton.mp he', now]
    exact h.clock e he
  · intro e he
    rcases List.mem_append.mp he with he | he
    · exact h.clock e he
    · rw [List.mem_singleton.mp he, now]
  · intro n inside
    rw [List.length_append, List.length_singleton] at inside
    rcases Nat.lt_succ_iff_lt_or_eq.mp inside with old | rfl
    · rcases h.numbers n old with flying | done
      · exact Or.inl (List.mem_append_left _ flying)
      · exact Or.inr (same ▸ done)
    · exact Or.inl (List.mem_append_right _ (List.mem_singleton_self _))
  · intro n mem
    have := h.known n (same ▸ mem)
    rw [List.length_append]
    omega
  · rw [same]
    refine h.cached.trans ?_
    cases last : (puts past).getLast? with
    | none => rfl
    | some n => exact (List.getElem?_append_left (h.known n (List.mem_of_getLast? last))).symm

theorem raced_put {key : Bytes} {past : List RaceMove} {s : Race} (h : Raced key past s) {n : Nat}
    {entry : CacheEntry} {cache : Cache} (number : s.built[n]? = some entry)
    (put : s.cache.put key entry = some cache) : Raced key (past ++ [.put n]) { s with
      cache := cache
      inFlight := s.inFlight.erase n } := by
  have more : puts (past ++ [.put n]) = puts past ++ [n] := puts_concat past (.put n)
  obtain ⟨c, hput, rep, -, map, -⟩ := Cache.put_spec h.rep key entry
  cases put.symm.trans hput
  refine ⟨rep, h.sorted, h.clock, ?_, ?_, ?_⟩
  · intro m inside
    rw [more]
    by_cases own : m = n
    · exact Or.inr (List.mem_append_right _ (own ▸ List.mem_singleton_self _))
    · rcases h.numbers m inside with flying | done
      · exact Or.inl ((List.mem_erase_of_ne own).mpr flying)
      · exact Or.inr (List.mem_append_left _ done)
  · intro m mem
    rw [more] at mem
    rcases List.mem_append.mp mem with mem | mem
    · exact h.known m mem
    · rw [List.mem_singleton.mp mem]
      exact (List.getElem?_eq_some_iff.mp number).1
  · rw [more, List.getLast?_concat, Option.bind_some, number]
    change cache.get key = some entry
    rw [Cache.get, map, Finmap.lookup_insert]

theorem raced_step {key : Bytes} (past : List RaceMove) (s : Race) (m : RaceMove) (s' : Race)
    (h : Raced key past s) (moved : step key s m = some s') : Raced key (past ++ [m]) s' := by
  cases m with
  | tick d =>
    cases moved
    exact raced_tick h d
  | build job =>
    simp only [step] at moved
    split at moved
    · split at moved
      · -- nothing to store
        cases moved
        have same : puts (past ++ [.build job]) = puts past := by
          rw [puts_concat]
          exact List.append_nil _
        exact ⟨h.rep, h.sorted, h.clock, same ▸ h.numbers, same ▸ h.known, same ▸ h.cached⟩
      · rename_i stored entry first
        cases moved
        exact raced_build h job (Job.creation_time (List.mem_of_head? first))
    · cases moved
  | put n =>
    simp only [step] at moved
    split at moved
    · obtain ⟨entry, number, rest⟩ := Option.bind_eq_some_iff.mp moved
      obtain ⟨cache, put, rfl⟩ := Option.map_eq_some_iff.mp rest
      exact raced_put h number put
    · cases moved

theorem raced_run {key : Bytes} {max_entries : Nat} {clock : Int} {moves : List RaceMove} {s : Race}
    (ran : run key (start max_entries clock) moves = some s) : Raced key moves s :=
  Runs.history raced_step (raced_start key max_entries clock) ran

/-- Of two entries the one that was built later is the newer one. -/
theorem Raced.newer {key : Bytes} {past : List RaceMove} {s : Race} (h : Raced key past s)
    {m n : Nat} {e e' : CacheEntry} (order : m ≤ n) (he : s.built[m]? = some e)
    (he' : s.built[n]? = some e') : e.creation_time ≤ e'.creation_time := by
  obtain ⟨hm, rfl⟩ := List.getElem?_eq_some_iff.mp he
  obtain ⟨hn, rfl⟩ := List.getElem?_eq_some_iff.mp he'
  rcases Nat.lt_or_eq_of_le order with less | rfl
  · exact List.pairwise_iff_getElem.mp h.sorted m n hm hn less
  · exact Int.le_refl _

/-! ## Puts that replace -/

/-- In state `s` after `before` the entry `old` is cached, and the next move puts the entry with
number `n`, which is `new`. -/
structure Replacement (key : Bytes) (start : Race) (moves before : List RaceMove) (s : Race) (n : Nat)
    (old new : CacheEntry) : Prop where
  next : ∃ after, moves = before ++ .put n :: after
  ran : run key start before = some s
  old : s.cache.get key = some old
  new : s.built[n]? = some new

/-- A newer entry is replaced only by a handler that was overtaken. -/
theorem overtaken_of_replacement {key : Bytes} {max_entries : Nat} {clock : Int}
    {moves before : List RaceMove} {s : Race} {n : Nat} {old new : CacheEntry}
    (r : Replacement key (start max_entries clock) moves before s n old new)
    (newer : new.creation_time < old.creation_time) :
    ∃ m, n < m ∧ m ∈ puts before ∧ s.built[m]? = some old := by
  have raced := raced_run r.ran
  obtain ⟨m, last, number⟩ := Option.bind_eq_some_iff.mp (raced.cached.symm.trans r.old)
  refine ⟨m, ?_, List.mem_of_getLast? last, number⟩
  by_contra late
  have := raced.newer (Nat.le_of_not_lt late) number r.new
  omega

theorem newest_of_ordered {key : Bytes} {max_entries : Nat} {clock : Int} {moves : List RaceMove}
    {s : Race} (ran : run key (start max_entries clock) moves = some s)
    (ordered : (puts moves).Pairwise (· < ·)) (landed : s.inFlight = []) {entry other : CacheEntry}
    (cached : s.cache.get key = some entry) (mem : other ∈ s.built) :
    other.creation_time ≤ entry.creation_time := by
  have raced := raced_run ran
  obtain ⟨m, last, number⟩ := Option.bind_eq_some_iff.mp (raced.cached.symm.trans cached)
  obtain ⟨n, inside, rfl⟩ := List.mem_iff_getElem.mp mem
  have done : n ∈ puts moves := by
    rcases raced.numbers n inside with flying | done
    · rw [landed] at flying
      cases flying
    · exact done
  have order : n ≤ m := by
    obtain ⟨front, split⟩ := List.getLast?_eq_some_iff.mp last
    rw [split] at done ordered
    rcases List.mem_append.mp done with earlier | own
    · exact Nat.le_of_lt ((List.pairwise_append.mp ordered).2.2 n earlier m
        (List.mem_singleton_self m))
    · exact Nat.le_of_eq (List.mem_singleton.mp own)
  exact raced.newer order (List.getElem?_eq_getElem inside) number

/-- The cache has the entry that was put last. A put replaces a newer entry only if that one was
built later and put earlier; when handlers put in the order in which they built, no put does, and
once none is in flight the cached entry is the newest. -/
theorem overtaken_or_newest (key : Bytes) (max_entries : Nat) (clock : Int) (moves : List RaceMove)
    (s : Race) (ran : run key (start max_entries clock) moves = some s) :
    s.cache.get key = (puts moves).getLast?.bind (fun n => s.built[n]?) ∧
      (∀ before s₁ n old new,
        Replacement key (start max_entries clock) moves before s₁ n old new →
        new.creation_time < old.creation_time →
        ∃ m, n < m ∧ m ∈ puts before ∧ s₁.built[m]? = some old) ∧
      ((puts moves).Pairwise (· < ·) →
        (∀ before s₁ n old new,
          Replacement key (start max_entries clock) moves before s₁ n old new →
          old.creation_time ≤ new.creation_time) ∧
        (s.inFlight = [] → ∀ entry, s.cache.get key = some entry → ∀ other ∈ s.built,
          other.creation_time ≤ entry.creation_time)) := by
  refine ⟨(raced_run ran).cached, fun _ _ _ _ _ r => overtaken_of_replacement r, ?_⟩
  intro ordered
  refine ⟨?_, fun landed _ cached _ => newest_of_ordered ran ordered landed cached⟩
  intro before s₁ n old new r
  by_contra newer
  obtain ⟨m, later, put, -⟩ := overtaken_of_replacement r (by omega)
  obtain ⟨after, rfl⟩ := r.next
  have split : puts (before ++ .put n :: after) = puts before ++ (n :: puts after) :=
    List.filterMap_append
  rw [split] at ordered
  have := (List.pairwise_append.mp ordered).2.2 m put n List.mem_cons_self
  omega

/-! Two handlers for the page of `plain`; the second builds later and puts earlier. -/

def overtaking (job : Job) : List RaceMove := [.build job, .tick 1, .build job, .put 1]

theorem plainJob_built (iteration : Iteration) (clock : Int) : ∃ entry,
    ((plainJob iteration bare).at clock).outcome.puts.head? = some (plain.url, entry) ∧
      entry.creation_time = clock := by
  have stored : ((plainJob iteration bare).at clock).outcome.puts.map Prod.fst = [plain.url] := rfl
  obtain ⟨⟨key, entry⟩, one, rfl⟩ := List.map_eq_singleton_iff.mp stored
  exact ⟨entry, by rw [one]; rfl, Job.creation_time (one ▸ List.mem_singleton_self _)⟩

theorem run_overtaking (iteration : Iteration) : ∃ s s' old new,
    run plain.url (start 1 0) (overtaking (plainJob iteration bare)) = some s ∧
    step plain.url s (.put 0) = some s' ∧ s.cache.get plain.url = some old ∧
    s.built[0]? = some new ∧ new.creation_time < old.creation_time := by
  obtain ⟨first, build, early⟩ := plainJob_built iteration 0
  obtain ⟨second, build', late⟩ := plainJob_built iteration 1
  obtain ⟨c, put, rep, -, map, -⟩ := Cache.put_spec (Cache.rep_new 1) plain.url second
  obtain ⟨c', put', -⟩ := Cache.put_spec rep plain.url first
  refine ⟨⟨1, c, [first, second], [0]⟩, ⟨1, c', [first, second], []⟩, second, first, ?_, ?_, ?_, rfl,
    by omega⟩
  · simp [run, Runs.run, overtaking, step, start, plainJob_get, build, build', put]
  · simp [step, put']
  · rw [Cache.get, map, Finmap.lookup_insert]

theorem overtaken_or_newest_overtaking : ∃ (moves : List RaceMove) (s : Race),
    s.cache.get plain.url = (puts moves).getLast?.bind (fun n => s.built[n]?) ∧
      (∀ before s₁ n old new, Replacement plain.url (start 1 0) moves before s₁ n old new →
        new.creation_time < old.creation_time →
        ∃ m, n < m ∧ m ∈ puts before ∧ s₁.built[m]? = some old) ∧
      ((puts moves).Pairwise (· < ·) →
        (∀ before s₁ n old new, Replacement plain.url (start 1 0) moves before s₁ n old new →
          old.creation_time ≤ new.creation_time) ∧
        (s.inFlight = [] → ∀ entry, s.cache.get plain.url = some entry → ∀ other ∈ s.built,
          other.creation_time ≤ entry.creation_time)) := by
  obtain ⟨iteration⟩ := nonempty_iteration
  obtain ⟨s, -, -, -, ran, -⟩ := run_overtaking iteration
  exact ⟨_, s, overtaken_or_newest plain.url 1 0 _ s ran⟩

/-- The entry of the first handler replaces the newer one of the second. -/
theorem not_always_newest : ¬ ∀ (key : Bytes) (max_entries : Nat) (clock : Int)
    (moves : List RaceMove) (s : Race), run key (start max_entries clock) moves = some s →
    (∀ before s₁ n old new,
      Replacement key (start max_entries clock) moves before s₁ n old new →
      old.creation_time ≤ new.creation_time) ∧
    (s.inFlight = [] → ∀ entry, s.cache.get key = some entry → ∀ other ∈ s.built,
      other.creation_time ≤ entry.creation_time) := by
  intro all
  obtain ⟨iteration⟩ := nonempty_iteration
  obtain ⟨s, s', old, new, ran, moved, cached, number, newer⟩ := run_overtaking iteration
  have started : Runs.run (step plain.url) (start 1 0) (overtaking (plainJob iteration bare)) =
      some s := ran
  have whole : run plain.url (start 1 0) (overtaking (plainJob iteration bare) ++ [.put 0]) =
      some s' := by
    rw [run, Runs.run_append, started, Option.bind_some, Runs.run_single, moved]
  have kept := (all _ _ _ _ s' whole).1 _ s 0 old new ⟨⟨[], rfl⟩, ran, cached, number⟩
  omega

end Race

end CachingProxy
