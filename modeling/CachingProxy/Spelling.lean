import CachingProxy.Arrangement
import CachingProxy.Serving

/-! The caching block of forwardRequest, when header names change case and header values move away
from the colon. Response::parse knows each name in one spelling, with a space behind the colon. -/
namespace CachingProxy
open Cpp Action Http

/-- The flag and the time of the first of these entries, if there is one. -/
def first_entry (puts : List (Bytes × CacheEntry)) : Option (Bool × Int) :=
  puts.head?.map (fun p => (p.2.requires_validation, p.2.expires_time))

/-- What the caching block makes of a response with the header bytes `h`. -/
def cached (env : Environment) (request : Request) (h body : Bytes) : Option (Bool × Int) :=
  first_entry (stored env request h body)

/-- What a run from `w` has put into the cache. -/
def decision (env : Environment) (request : Request) (w : World) : Option (Bool × Int) :=
  first_entry (((forwardRequest env request).after w).puts.drop w.puts.length)

/-- A run that comes to the caching block decides as the block does. -/
theorem decision_eq {env : Environment} {request : Request} {w : World} {h : Bytes}
    (completes : Completes env request w h) :
    ∃ body, decision env request w = cached env request h body := by
  rcases forwardRequest_puts env request w with ⟨h', body, done, puts⟩ | ⟨never, -⟩
  · obtain rfl := done.unique completes
    exact ⟨body, by rw [decision, puts, List.drop_left, cached]⟩
  · exact absurd completes (never h)

/-- A header line: the name, how many spaces follow its colon, the value. -/
structure SpelledLine where
  name : Bytes
  spaces : Nat
  value : Bytes

def SpelledLine.text (l : SpelledLine) : Bytes :=
  l.name ++ 58 :: (List.replicate l.spaces 32 ++ l.value)

/-- The same header in another spelling. -/
structure Respelled (l l' : SpelledLine) : Prop where
  name : sameText l'.name l.name = true
  value : l'.value = l.value

/-- Header lines that can be told apart and cut at their colons. -/
structure WellFormed (status : Bytes) (lines : List SpelledLine) : Prop where
  status_line : ∀ c ∈ status, c ≠ 10 ∧ c ≠ 13
  names : ∀ l ∈ lines, ∀ c ∈ l.name, c ≠ 10 ∧ c ≠ 13 ∧ c ≠ 58
  values : ∀ l ∈ lines, (∀ c ∈ l.value, c ≠ 10 ∧ c ≠ 13) ∧ ¬ [32] <+: l.value

/-- No respelling of the header lines changes what the caching block makes of them, nor what two
runs that come to it decide. -/
structure SpellingFree (calendar : Calendar) (status : Bytes) (lines : List SpelledLine) : Prop where
  alike : ∀ (env : Environment) (request : Request) (lines' : List SpelledLine)
    (rest rest' body body' : Bytes), env.calendar = calendar → List.Forall₂ Respelled lines lines' →
    cached env request (block status (lines'.map SpelledLine.text) rest') body' =
      cached env request (block status (lines.map SpelledLine.text) rest) body
  runs : ∀ (env : Environment) (request : Request) (lines' : List SpelledLine) (rest rest' : Bytes)
    (w w' : World), env.calendar = calendar → List.Forall₂ Respelled lines lines' →
    Completes env request w (block status (lines.map SpelledLine.text) rest) →
    Completes env request w' (block status (lines'.map SpelledLine.text) rest') →
    decision env request w' = decision env request w

/-- The runs follow the caching block. -/
theorem spelling_free_of_alike {calendar : Calendar} {status : Bytes} {lines : List SpelledLine}
    (alike : ∀ (env : Environment) (request : Request) (lines' : List SpelledLine)
      (rest rest' body body' : Bytes), env.calendar = calendar → List.Forall₂ Respelled lines lines' →
      cached env request (block status (lines'.map SpelledLine.text) rest') body' =
        cached env request (block status (lines.map SpelledLine.text) rest) body) :
    SpellingFree calendar status lines := by
  refine ⟨alike, ?_⟩
  intro env request lines' rest rest' w w' same respelled completes completes'
  obtain ⟨body, decided⟩ := decision_eq completes
  obtain ⟨body', decided'⟩ := decision_eq completes'
  rw [decided, decided', alike env request lines' rest rest' body body' same respelled]

/-- The CR of a line, which the last line of a header block has not. -/
def line_end (below : List SpelledLine) : Bytes := if below = [] then [] else [13]

/-- No header line has anything to say about caching, in any spelling. -/
structure Mute (calendar : Calendar) (lines : List SpelledLine) : Prop where
  directives : ∀ l ∈ lines, sameText l.name Response.CacheControl = true →
    ∀ directive ∈ [bytes "no-store", bytes "no-cache", bytes "must-revalidate"],
      contains l.value directive = false
  ages : ∀ l ∈ lines, sameText l.name Response.CacheControl = true →
    ∀ directive ∈ [bytes "s-maxage=", bytes "max-age="], contains l.value directive = true →
      ∃ n, number_in directive l.value = some n ∧ ¬ n > 0
  lengths : ∀ l ∈ lines, sameText l.name ContentLength = true → ∃ n, stoi l.value = .ok n
  dates : ∀ above l below, lines = above ++ l :: below → sameText l.name (bytes "Expires") = true →
    ∀ j, ¬ calendar.parse_time (List.replicate j 32 ++ l.value ++ line_end below) > 0 ∧
      from_time_t (calendar.parse_time (List.replicate j 32 ++ l.value ++ line_end below)) = 0

/-! ## Respellings -/

theorem forall₂_mem_right {α β : Type} {R : α → β → Prop} {as : List α} {bs : List β}
    (related : List.Forall₂ R as bs) {b : β} (mem : b ∈ bs) : ∃ a ∈ as, R a b := by
  induction related with
  | nil => cases mem
  | @cons a b' as bs first rest ih =>
    rcases List.mem_cons.mp mem with rfl | later
    · exact ⟨a, List.mem_cons_self, first⟩
    · obtain ⟨a', mem', related'⟩ := ih later
      exact ⟨a', List.mem_cons_of_mem _ mem', related'⟩

theorem WellFormed.respelled {status : Bytes} {lines lines' : List SpelledLine}
    (formed : WellFormed status lines) (respelled : List.Forall₂ Respelled lines lines') :
    WellFormed status lines' where
  status_line := formed.status_line
  names := by
    intro l' mem c inside
    obtain ⟨l, hl, same⟩ := forall₂_mem_right respelled mem
    have old (d : UInt8) (low : d.toNat < 65) (clean : ∀ c ∈ l.name, c ≠ d) : c ≠ d := by
      rintro rfl
      exact clean c (mem_of_sameText same.name low inside) rfl
    have clean := formed.names l hl
    exact ⟨old 10 (by decide) (fun c h => (clean c h).1), old 13 (by decide) (fun c h => (clean c h).2.1),
      old 58 (by decide) (fun c h => (clean c h).2.2)⟩
  values := by
    intro l' mem
    obtain ⟨l, hl, same⟩ := forall₂_mem_right respelled mem
    rw [same.value]
    exact formed.values l hl

theorem WellFormed.colonless {status : Bytes} {lines : List SpelledLine}
    (formed : WellFormed status lines) : ∀ l ∈ lines, (58 : UInt8) ∉ l.name :=
  fun l mem inside => (formed.names l mem 58 inside).2.2 rfl

theorem WellFormed.header_lines {status : Bytes} {lines : List SpelledLine}
    (formed : WellFormed status lines) : ∀ t ∈ lines.map SpelledLine.text, HeaderLine t := by
  intro t mem
  obtain ⟨l, hl, rfl⟩ := List.mem_map.mp mem
  refine ⟨by simp [SpelledLine.text], ?_⟩
  intro c inside
  simp only [SpelledLine.text, List.mem_append, List.mem_cons, List.mem_replicate] at inside
  rcases inside with name | rfl | ⟨-, rfl⟩ | value
  · exact ⟨(formed.names l hl c name).1, (formed.names l hl c name).2.1⟩
  · decide
  · decide
  · exact (formed.values l hl).1 c value

/-! ## What the header loop sees -/

/-- The values that the header loop gets for `key`. -/
def seen_values (key : Bytes) : List SpelledLine → List Bytes
  | [] => []
  | l :: below =>
    own_value key l.name (List.replicate l.spaces 32 ++ l.value ++ line_end below) ++
      seen_values key below

theorem values_spelled {key : Bytes} (colonless : (58 : UInt8) ∉ key) {lines : List SpelledLine}
    (clean : ∀ l ∈ lines, (58 : UInt8) ∉ l.name) (status : Bytes) :
    Response.values key ((crLines status (lines.map SpelledLine.text)).tail.filterMap Response.field) =
      seen_values key lines := by
  induction lines generalizing status with
  | nil => rfl
  | cons l below ih =>
    obtain ⟨first, rest⟩ := List.forall_mem_cons.mp clean
    have later := ih rest l.text
    cases below with
    | nil =>
      have own := values_own first colonless (List.replicate l.spaces 32 ++ l.value)
      change Response.values key ([l.text].filterMap Response.field) = _
      simpa [seen_values, line_end, SpelledLine.text] using own
    | cons m below =>
      have ended : l.text ++ [13] =
          l.name ++ 58 :: (List.replicate l.spaces 32 ++ l.value ++ [13]) := by
        simp [SpelledLine.text]
      have own := values_own first colonless (List.replicate l.spaces 32 ++ l.value ++ [13])
      rw [← ended] at own
      change Response.values key (((l.text ++ [13]) ::
        crLines m.text (below.map SpelledLine.text)).filterMap Response.field) = _
      rw [← List.singleton_append, List.filterMap_append, values_append, own]
      exact congrArg _ later

/-- What is seen is the rest of a line spelled as `key` with a space after its colon. -/
theorem own_value_spelled {key name v value : Bytes} {spaces : Nat} {e : Bytes}
    (starts : ¬ [32] <+: value ++ e)
    (mem : v ∈ own_value key name (List.replicate spaces 32 ++ value ++ e)) :
    name = key ∧ ∃ j, v = List.replicate j 32 ++ value ++ e := by
  cases spaces with
  | zero =>
    rw [List.replicate_zero, List.nil_append] at mem
    unfold own_value at mem
    split at mem
    · rename_i rest text
      exact absurd ⟨rest, text.symm⟩ starts
    · cases mem
  | succ j =>
    rw [List.replicate_succ, List.cons_append, List.cons_append] at mem
    simp only [own_value] at mem
    split at mem
    · rename_i own
      exact ⟨own, j, List.mem_singleton.mp mem⟩
    · cases mem

theorem starts_line_end {value : Bytes} (starts : ¬ [32] <+: value) (below : List SpelledLine) :
    ¬ [32] <+: value ++ line_end below := by
  unfold line_end
  cases value with
  | nil => split <;> simp
  | cons c value => simpa using starts

theorem mem_seen_values {key v : Bytes} {lines : List SpelledLine}
    (starts : ∀ l ∈ lines, ¬ [32] <+: l.value) (mem : v ∈ seen_values key lines) :
    ∃ above l below, lines = above ++ l :: below ∧ l.name = key ∧
      ∃ j, v = List.replicate j 32 ++ l.value ++ line_end below := by
  induction lines with
  | nil => cases mem
  | cons l below ih =>
    obtain ⟨first, rest⟩ := List.forall_mem_cons.mp starts
    rcases List.mem_append.mp mem with here | later
    · obtain ⟨own, j, text⟩ := own_value_spelled (starts_line_end first below) here
      exact ⟨[], l, below, rfl, own, j, text⟩
    · obtain ⟨above, m, below', rfl, own, j, text⟩ := ih rest later
      exact ⟨l :: above, m, below', rfl, own, j, text⟩

/-- Lines of other names are passed over. -/
theorem seen_values_append {key : Bytes} {above : List SpelledLine} (others : ∀ l ∈ above, l.name ≠ key)
    (below : List SpelledLine) : seen_values key (above ++ below) = seen_values key below := by
  induction above with
  | nil => rfl
  | cons l above ih =>
    obtain ⟨first, rest⟩ := List.forall_mem_cons.mp others
    rw [List.cons_append, seen_values, own_value_other first, ih rest, List.nil_append]

theorem seen_values_others {key : Bytes} {lines : List SpelledLine}
    (others : ∀ l ∈ lines, l.name ≠ key) : seen_values key lines = [] := by
  have passed := seen_values_append others []
  rwa [List.append_nil] at passed

/-! ## What the caching block makes of it -/

theorem cached_eq_some_iff {env : Environment} {request : Request} {h : Bytes}
    {fs : List (Bytes × Bytes)} (reads : Response.Reads env.calendar env.time_now h fs)
    (body : Bytes) (x : Bool × Int) :
    cached env request h body = some x ↔ is_cacheable request h = true ∧
      (∀ f ∈ fs, Response.Converts f) ∧
      (Response.summary env.calendar env.time_now fs).1 = false ∧
      x = ((Response.summary env.calendar env.time_now fs).2.1,
        from_time_t (Response.summary env.calendar env.time_now fs).2.2) := by
  unfold cached first_entry stored
  by_cases cacheable : is_cacheable request h = true
  · rw [if_pos cacheable]
    cases parsed : Response.parse env.calendar env.time_now h with
    | error e =>
      refine iff_of_false (by simp) ?_
      rintro ⟨-, all, -⟩
      have told := (reads _).mpr ⟨all, rfl⟩
      rw [Response.verdict, parsed] at told
      cases told
    | ok r =>
      have told : Response.verdict env.calendar env.time_now h =
          some (r.is_no_store_, r.need_validate_, r.expire_time_) := by
        rw [Response.verdict, parsed]
        rfl
      obtain ⟨all, members⟩ := (reads _).mp told
      rw [← members]
      simp only [cacheable, true_and]
      rw [and_iff_right all]
      cases kept : r.is_no_store_ with
      | true => simp
      | false => simp [new_entry, eq_comm]
  · rw [if_neg cacheable]
    simp [cacheable]

theorem mem_values {key value : Bytes} {fs : List (Bytes × Bytes)} :
    value ∈ Response.values key fs ↔ (key, value) ∈ fs := by
  simp only [Response.values, List.mem_map, List.mem_filter, decide_eq_true_eq]
  constructor
  · rintro ⟨f, ⟨mem, rfl⟩, rfl⟩
    exact mem
  · exact fun mem => ⟨(key, value), ⟨mem, rfl⟩, rfl⟩

theorem converts_iff_values (fs : List (Bytes × Bytes)) :
    (∀ f ∈ fs, Response.Converts f) ↔
      (∀ value ∈ Response.values ContentLength fs, ∃ n, stoi value = .ok n) ∧
      ∀ value ∈ Response.values Response.CacheControl fs,
        Response.Converts (Response.CacheControl, value) := by
  constructor
  · intro all
    refine ⟨fun value mem => ?_, fun value mem => all _ (mem_values.mp mem)⟩
    exact (all _ (mem_values.mp mem)).length rfl
  · rintro ⟨lengths, ages⟩ ⟨key, value⟩ mem
    refine ⟨?_, ?_⟩
    · rintro rfl
      exact lengths value (mem_values.mpr mem)
    · rintro rfl
      exact (ages value (mem_values.mpr mem)).ages rfl

/-! ## Spaces and line ends make no difference -/

section Padded

variable {directive : Bytes} (filled : directive ≠ [])
  (clean : (32 : UInt8) ∉ directive ∧ (13 : UInt8) ∉ directive)
include filled clean

theorem contains_padded (j : Nat) (value : Bytes) (below : List SpelledLine) :
    contains (List.replicate j 32 ++ value ++ line_end below) directive =
      contains value directive := by
  induction j with
  | zero =>
    unfold line_end
    split
    · simp
    · exact contains_append_cr filled clean.2 value
  | succ j ih => rw [List.replicate_succ, List.cons_append, List.cons_append,
      contains_space filled clean.1, ih]

theorem number_in_space (value : Bytes) : number_in directive (32 :: value) = number_in directive value := by
  unfold number_in
  rw [find_space filled clean.1]
  cases find directive value with
  | none => rfl
  | some pos =>
    have behind : pos + 1 + directive.length = (pos + directive.length) + 1 := by omega
    simp only [Option.map_some, Option.bind_some]
    rw [behind, List.drop_succ_cons]

theorem number_in_append_cr (value : Bytes) :
    number_in directive (value ++ [13]) = number_in directive value := by
  unfold number_in
  rw [find_append_byte filled clean.2]
  cases found : find directive value with
  | none => rfl
  | some pos =>
    simp only [Option.bind_some]
    rw [List.drop_append_of_le_length (find_le found), stol_congr (strtol_append_cr _)]

theorem number_in_padded (j : Nat) (value : Bytes) (below : List SpelledLine) :
    number_in directive (List.replicate j 32 ++ value ++ line_end below) =
      number_in directive value := by
  induction j with
  | zero =>
    unfold line_end
    split
    · simp
    · exact number_in_append_cr filled clean value
  | succ j ih => rw [List.replicate_succ, List.cons_append, List.cons_append,
      number_in_space filled clean, ih]

end Padded

theorem strtol_padded (j : Nat) (value : Bytes) (below : List SpelledLine) :
    strtol (List.replicate j 32 ++ value ++ line_end below) = strtol value := by
  induction j with
  | zero =>
    unfold line_end
    split
    · simp
    · exact strtol_append_cr value
  | succ j ih =>
    rw [← ih, List.replicate_succ, List.cons_append, List.cons_append]
    unfold strtol
    rw [List.dropWhile_cons_of_pos (by decide)]

theorem directives_shape : ∀ d ∈ [bytes "no-store", bytes "no-cache", bytes "must-revalidate",
    bytes "s-maxage=", bytes "max-age="], d ≠ [] ∧ ((32 : UInt8) ∉ d ∧ (13 : UInt8) ∉ d) := by
  decide +kernel

theorem converts_padded (j : Nat) (value : Bytes) (below : List SpelledLine) :
    Response.Converts (Response.CacheControl, List.replicate j 32 ++ value ++ line_end below) ↔
      Response.Converts (Response.CacheControl, value) := by
  rw [converts_control_iff, converts_control_iff]
  refine forall_congr' (fun directive => forall_congr' (fun known => ?_))
  obtain ⟨filled, clean⟩ := directives_shape directive
    (List.mem_cons_of_mem _ (List.mem_cons_of_mem _ (List.mem_cons_of_mem _ known)))
  rw [contains_padded filled clean, number_in_padded filled clean]

/-! ## Mute responses -/

theorem Mute.respelled {calendar : Calendar} {lines lines' : List SpelledLine}
    (mute : Mute calendar lines) (respelled : List.Forall₂ Respelled lines lines') :
    Mute calendar lines' where
  directives := by
    intro l' mem named
    obtain ⟨l, hl, same⟩ := forall₂_mem_right respelled mem
    rw [same.value]
    exact mute.directives l hl (sameText_trans (sameText_symm same.name) named)
  ages := by
    intro l' mem named
    obtain ⟨l, hl, same⟩ := forall₂_mem_right respelled mem
    rw [same.value]
    exact mute.ages l hl (sameText_trans (sameText_symm same.name) named)
  lengths := by
    intro l' mem named
    obtain ⟨l, hl, same⟩ := forall₂_mem_right respelled mem
    rw [same.value]
    exact mute.lengths l hl (sameText_trans (sameText_symm same.name) named)
  dates := by
    rintro above' l' below' rfl named j
    have upper := List.forall₂_take_append _ _ _ respelled
    have lower := List.forall₂_drop_append _ _ _ respelled
    obtain ⟨l, below, same, later, split⟩ := List.forall₂_cons_right_iff.mp lower
    have whole : lines = lines.take above'.length ++ l :: below := by
      rw [← split, List.take_append_drop]
    have ends : line_end below' = line_end below := by
      unfold line_end
      cases later <;> rfl
    rw [same.value, ends]
    exact mute.dates _ l below whole (sameText_trans (sameText_symm same.name) named) j

section Mute

variable {calendar : Calendar} {lines : List SpelledLine} (mute : Mute calendar lines)
  (starts : ∀ l ∈ lines, ¬ [32] <+: l.value) {fs : List (Bytes × Bytes)}
  (seen : ∀ key, (58 : UInt8) ∉ key → Response.values key fs = seen_values key lines)
include mute starts seen

theorem Mute.controls {directive : Bytes}
    (known : directive ∈ [bytes "no-store", bytes "no-cache", bytes "must-revalidate"]) :
    Response.controls fs directive = false := by
  rw [Response.controls, Response.last_value, seen _ (by decide)]
  cases last : (seen_values Response.CacheControl lines).getLast? with
  | none => rfl
  | some value =>
    obtain ⟨above, l, below, rfl, own, j, rfl⟩ := mem_seen_values starts (List.mem_of_getLast? last)
    obtain ⟨filled, clean⟩ := directives_shape directive
      (List.mem_append_left [bytes "s-maxage=", bytes "max-age="] known)
    rw [Option.any_some, contains_padded filled clean]
    exact mute.directives l (by simp) (by rw [own]; exact sameText_self _) directive known

theorem Mute.lifetime : Response.lifetime fs = none := by
  have young (directive : Bytes) (known : directive ∈ [bytes "s-maxage=", bytes "max-age="]) :
      ¬ Response.age_of directive fs > 0 := by
    rw [age_of_last, seen _ (by decide)]
    cases last : ((seen_values Response.CacheControl lines).filterMap
        (number_in directive)).getLast? with
    | none => decide
    | some n =>
      obtain ⟨value, mem, number⟩ := List.mem_filterMap.mp (List.mem_of_getLast? last)
      obtain ⟨above, l, below, rfl, own, j, rfl⟩ := mem_seen_values starts mem
      obtain ⟨filled, clean⟩ := directives_shape directive
        (List.mem_append_right [bytes "no-store", bytes "no-cache", bytes "must-revalidate"] known)
      rw [number_in_padded filled clean] at number
      have named : contains l.value directive = true := by
        rw [contains, Option.isSome_iff_exists]
        unfold number_in at number
        obtain ⟨pos, found, -⟩ := Option.bind_eq_some_iff.mp number
        exact ⟨pos, found⟩
      obtain ⟨m, same, small⟩ := mute.ages l (by simp) (by rw [own]; exact sameText_self _) directive
        known named
      obtain rfl := Option.some.inj (same.symm.trans number)
      exact small
  unfold Response.lifetime
  rw [if_neg (young _ List.mem_cons_self),
    if_neg (young _ (List.mem_cons_of_mem _ List.mem_cons_self))]

theorem Mute.converts : ∀ f ∈ fs, Response.Converts f := by
  rw [converts_iff_values, seen _ (by decide), seen _ (by decide)]
  constructor
  · intro value mem
    obtain ⟨above, l, below, rfl, own, j, rfl⟩ := mem_seen_values starts mem
    rw [stoi_congr (strtol_padded j l.value below)]
    exact mute.lengths l (by simp) (by rw [own]; exact sameText_self _)
  · intro value mem
    obtain ⟨above, l, below, rfl, own, j, rfl⟩ := mem_seen_values starts mem
    rw [converts_padded, converts_control_iff]
    intro directive known named
    obtain ⟨n, number, -⟩ := mute.ages l (by simp) (by rw [own]; exact sameText_self _) directive
      known named
    rw [number]
    rfl

theorem Mute.expires : ¬ Response.time_of calendar (bytes "Expires") fs > 0 ∧
    from_time_t (Response.time_of calendar (bytes "Expires") fs) = 0 := by
  rw [Response.time_of, Response.last_value, seen _ (by decide)]
  cases last : (seen_values (bytes "Expires") lines).getLast? with
  | none => exact (by decide : ¬ (0 : Int64) > 0 ∧ from_time_t 0 = 0)
  | some value =>
    obtain ⟨above, l, below, rfl, own, j, rfl⟩ := mem_seen_values starts (List.mem_of_getLast? last)
    exact mute.dates above l below rfl (by rw [own]; exact sameText_self _) j

end Mute

theorem is_cacheable_block (request : Request) (status : Bytes) (lines : List Bytes) (rest : Bytes) :
    is_cacheable request (block status lines rest) = true ↔
      request.method = bytes "GET" ∧ bytes "HTTP/1.1 200" <+: status := by
  simp only [is_cacheable, Bool.and_eq_true, decide_eq_true_eq, find_zero_iff]
  refine and_congr_right (fun _ => ⟨fun starts => ?_, fun starts => ?_⟩)
  · have split : ∃ t, block status lines rest = status ++ 13 :: t := by
      unfold block
      cases lines with
      | nil => exact ⟨10 :: 13 :: 10 :: rest, by simp [joined, CRLFCRLF_eq]⟩
      | cons l lines => exact ⟨_, by simp [joined, CRLF_eq]; rfl⟩
    obtain ⟨t, split⟩ := split
    exact prefix_before (by decide : (13 : UInt8) ∉ bytes "HTTP/1.1 200") (split ▸ starts)
  · refine starts.trans ?_
    simp only [block, joined, List.append_assoc]
    exact List.prefix_append _ _

theorem WellFormed.reads {status : Bytes} {lines : List SpelledLine} (formed : WellFormed status lines)
    (calendar : Calendar) (now : Int64) (rest : Bytes) :
    ∃ fs, Response.Reads calendar now (block status (lines.map SpelledLine.text) rest) fs ∧
      ∀ key, (58 : UInt8) ∉ key → Response.values key fs = seen_values key lines := by
  have clean : (10 : UInt8) ∉ status := fun mem => (formed.status_line 10 mem).1 rfl
  exact ⟨_, reads_lines calendar now clean formed.header_lines rest,
    fun key colonless => values_spelled colonless formed.colonless status⟩

/-- What is stored where nothing counts: an entry without validation that never expires. -/
theorem cached_plainly {env : Environment} {request : Request} {h : Bytes} {fs : List (Bytes × Bytes)}
    (reads : Response.Reads env.calendar env.time_now h fs) (cacheable : is_cacheable request h = true)
    (converts : ∀ f ∈ fs, Response.Converts f)
    (directives : ∀ directive ∈ [bytes "no-store", bytes "no-cache", bytes "must-revalidate"],
      Response.controls fs directive = false)
    (unaged : Response.lifetime fs = none)
    (dates : ¬ Response.time_of env.calendar (bytes "Expires") fs > 0 ∧
      from_time_t (Response.time_of env.calendar (bytes "Expires") fs) = 0) (body : Bytes) :
    cached env request h body = some (false, 0) := by
  rw [cached_eq_some_iff reads]
  refine ⟨cacheable, converts, directives _ (by simp), ?_⟩
  simp only [Response.summary, Response.fresh, Response.expiry, unaged, dates.1, dates.2,
    directives (bytes "no-cache") (by simp), directives (bytes "must-revalidate") (by simp)]
  rfl

theorem cached_unless_cacheable {env : Environment} {request : Request} {h : Bytes}
    (uncacheable : ¬ is_cacheable request h = true) (body : Bytes) :
    cached env request h body = none := by
  rw [cached, first_entry, stored, if_neg uncacheable]
  rfl

theorem spelling_free_of_status {calendar : Calendar} {status : Bytes} {lines : List SpelledLine}
    (other : ¬ bytes "HTTP/1.1 200" <+: status) : SpellingFree calendar status lines := by
  apply spelling_free_of_alike
  intro env request lines' rest rest' body body' _ _
  rw [cached_unless_cacheable (fun h => other ((is_cacheable_block _ _ _ _).mp h).2),
    cached_unless_cacheable (fun h => other ((is_cacheable_block _ _ _ _).mp h).2)]

theorem spelling_free_of_mute {calendar : Calendar} {status : Bytes} {lines : List SpelledLine}
    (formed : WellFormed status lines) (mute : Mute calendar lines) :
    SpellingFree calendar status lines := by
  apply spelling_free_of_alike
  rintro env request lines' rest rest' body body' rfl respelled
  have plainly (ls : List SpelledLine) (formed : WellFormed status ls) (mute : Mute env.calendar ls)
      (tail body : Bytes) (get : request.method = bytes "GET" ∧ bytes "HTTP/1.1 200" <+: status) :
      cached env request (block status (ls.map SpelledLine.text) tail) body = some (false, 0) := by
    obtain ⟨fs, reads, seen⟩ := formed.reads env.calendar env.time_now tail
    have starts : ∀ l ∈ ls, ¬ [32] <+: l.value := fun l mem => (formed.values l mem).2
    exact cached_plainly reads ((is_cacheable_block _ _ _ _).mpr get) (mute.converts starts seen)
      (fun directive known => mute.controls starts seen known) (mute.lifetime starts seen)
      (mute.expires starts seen) body
  by_cases get : request.method = bytes "GET" ∧ bytes "HTTP/1.1 200" <+: status
  · rw [plainly lines formed mute rest body get,
      plainly lines' (formed.respelled respelled) (mute.respelled respelled) rest' body' get]
  · rw [cached_unless_cacheable (fun h => get ((is_cacheable_block _ _ _ _).mp h)),
      cached_unless_cacheable (fun h => get ((is_cacheable_block _ _ _ _).mp h))]

/-! ## Responses that are not mute -/

/-- A spelling that Response::parse does not know. -/
def SpelledLine.hide (l : SpelledLine) : SpelledLine := { l with name := l.name.map lower }

/-- A name with a capital letter. -/
def Capital (key : Bytes) : Prop := key.map lower ≠ key

theorem respelled_hide (l : SpelledLine) : Respelled l l.hide := by
  refine ⟨?_, rfl⟩
  simp [sameText, SpelledLine.hide, Function.comp_def, lower_lower]

theorem hide_name {key : Bytes} (capital : Capital key) (l : SpelledLine) : l.hide.name ≠ key := by
  intro own
  apply capital
  rw [← own]
  simp [SpelledLine.hide, Function.comp_def, lower_lower]

theorem respelled_hidden (lines : List SpelledLine) :
    List.Forall₂ Respelled lines (lines.map SpelledLine.hide) := by
  rw [List.forall₂_map_right_iff, List.forall₂_same]
  exact fun l _ => respelled_hide l

/-- Only the line `l` is spelled as Response::parse knows it. -/
def alone (above : List SpelledLine) (l : SpelledLine) (below : List SpelledLine) (key : Bytes)
    (j : Nat) : List SpelledLine :=
  above.map SpelledLine.hide ++ ⟨key, j + 1, l.value⟩ :: below.map SpelledLine.hide

theorem respelled_alone {l : SpelledLine} {key : Bytes} (named : sameText l.name key = true)
    (above below : List SpelledLine) (j : Nat) :
    List.Forall₂ Respelled (above ++ l :: below) (alone above l below key j) :=
  List.rel_append (respelled_hidden above)
    (.cons ⟨sameText_symm named, rfl⟩ (respelled_hidden below))

theorem hidden_others {key : Bytes} (capital : Capital key) (lines : List SpelledLine) :
    ∀ l ∈ lines.map SpelledLine.hide, l.name ≠ key := by
  intro l mem
  obtain ⟨m, -, rfl⟩ := List.mem_map.mp mem
  exact hide_name capital m

theorem seen_values_alone {key : Bytes} (capital : Capital key) (above : List SpelledLine)
    (l : SpelledLine) (below : List SpelledLine) (j : Nat) :
    seen_values key (alone above l below key j) =
      [List.replicate j 32 ++ l.value ++ line_end below] := by
  have ends : line_end (below.map SpelledLine.hide) = line_end below := by
    simp [line_end]
  rw [alone, seen_values_append (hidden_others capital above), seen_values,
    seen_values_others (hidden_others capital below), ends, List.append_nil, List.replicate_succ,
    List.cons_append, List.cons_append]
  exact if_pos rfl

theorem seen_values_alone_other {key other : Bytes} (capital : Capital other) (different : key ≠ other)
    (above : List SpelledLine) (l : SpelledLine) (below : List SpelledLine) (j : Nat) :
    seen_values other (alone above l below key j) = [] := by
  rw [alone, seen_values_append (hidden_others capital above), seen_values,
    seen_values_others (hidden_others capital below), own_value_other different]
  rfl

theorem known_names : ∀ key ∈ [Response.CacheControl, ContentLength, bytes "Expires", bytes "Date"],
    (58 : UInt8) ∉ key ∧ Capital key := by
  unfold Capital
  decide +kernel

theorem cached_hidden {status : Bytes} {lines : List SpelledLine} (formed : WellFormed status lines)
    (env : Environment) (request : Request) (rest body : Bytes)
    (cacheable : request.method = bytes "GET" ∧ bytes "HTTP/1.1 200" <+: status) :
    cached env request (block status ((lines.map SpelledLine.hide).map SpelledLine.text) rest) body =
      some (false, 0) := by
  obtain ⟨fs, reads, seen⟩ :=
    (formed.respelled (respelled_hidden lines)).reads env.calendar env.time_now rest
  have nothing (key : Bytes) (known : key ∈
      [Response.CacheControl, ContentLength, bytes "Expires", bytes "Date"]) :
      Response.values key fs = [] := by
    obtain ⟨colonless, capital⟩ := known_names key known
    rw [seen key colonless, seen_values_others (hidden_others capital _)]
  have uncontrolled := nothing Response.CacheControl (by simp)
  have undated : Response.time_of env.calendar (bytes "Expires") fs = 0 := by
    rw [Response.time_of, Response.last_value, nothing _ (by simp)]
    rfl
  refine cached_plainly reads ((is_cacheable_block _ _ _ _).mpr cacheable) ?_
    (fun d _ => controls_none uncontrolled d) (lifetime_none uncontrolled) ?_ body
  · rw [converts_iff_values, uncontrolled, nothing ContentLength (by simp)]
    simp
  · rw [undated]
    decide

theorem lifetime_eq_none_iff {fs : List (Bytes × Bytes)} : Response.lifetime fs = none ↔
    ¬ Response.age_of (bytes "s-maxage=") fs > 0 ∧ ¬ Response.age_of (bytes "max-age=") fs > 0 := by
  unfold Response.lifetime
  split_ifs <;> simp_all

section Free

variable {calendar : Calendar} {status : Bytes} {above below : List SpelledLine} {l : SpelledLine}
  (free : SpellingFree calendar status (above ++ l :: below))
  (formed : WellFormed status (above ++ l :: below)) (ok : bytes "HTTP/1.1 200" <+: status)
include free formed ok

theorem SpellingFree.cached_alone {key : Bytes} (named : sameText l.name key = true) (j : Nat)
    {env : Environment} (same : env.calendar = calendar) :
    cached env plain (block status ((alone above l below key j).map SpelledLine.text) []) [] =
      some (false, 0) := by
  rw [← cached_hidden formed env plain [] [] ⟨rfl, ok⟩,
    free.alike env plain _ [] [] [] [] same (respelled_alone named above below j),
    free.alike env plain _ [] [] [] [] same (respelled_hidden _)]

/-- In a spelling that shows one line only, this line has no say either. -/
theorem SpellingFree.shown {key : Bytes} (named : sameText l.name key = true) (j : Nat) :
    ∃ fs : List (Bytes × Bytes),
      (∀ other, (58 : UInt8) ∉ other →
        Response.values other fs = seen_values other (alone above l below key j)) ∧
      (∀ f ∈ fs, Response.Converts f) ∧
      ∀ now, (Response.summary calendar now fs).1 = false ∧
        (Response.summary calendar now fs).2.1 = false ∧
        from_time_t (Response.summary calendar now fs).2.2 = 0 := by
  obtain ⟨iteration⟩ := nonempty_iteration
  have formed' := formed.respelled (respelled_alone named above below j)
  have clean : (10 : UInt8) ∉ status := fun mem => (formed.status_line 10 mem).1 rfl
  have told (env : Environment) (same : env.calendar = calendar) :=
    (cached_eq_some_iff (reads_lines env.calendar env.time_now clean formed'.header_lines []) []
      (false, 0)).mp (free.cached_alone formed ok named j same)
  let env (now : Int64) : Environment :=
    { plainEnvironment iteration with calendar := calendar, time_now := now }
  refine ⟨_, fun other colonless => values_spelled colonless formed'.colonless status,
    (told (env 0) rfl).2.1, fun now => ?_⟩
  obtain ⟨-, -, no_store, members⟩ := told (env now) rfl
  obtain ⟨validation, expires⟩ := Prod.mk.inj members
  exact ⟨no_store, validation.symm, expires.symm⟩

/-- The fields of a spelling that shows one line only have its value under its name. -/
theorem SpellingFree.shown_values {key : Bytes}
    (known : key ∈ [Response.CacheControl, ContentLength, bytes "Expires", bytes "Date"])
    (named : sameText l.name key = true) (j : Nat) :
    ∃ fs : List (Bytes × Bytes),
      Response.values key fs = [List.replicate j 32 ++ l.value ++ line_end below] ∧
      (∀ other ∈ [Response.CacheControl, ContentLength, bytes "Expires", bytes "Date"],
        key ≠ other → Response.values other fs = []) ∧
      (∀ f ∈ fs, Response.Converts f) ∧
      ∀ now, (Response.summary calendar now fs).1 = false ∧
        (Response.summary calendar now fs).2.1 = false ∧
        from_time_t (Response.summary calendar now fs).2.2 = 0 := by
  obtain ⟨fs, seen, converts, plainly⟩ := free.shown formed ok named j
  refine ⟨fs, ?_, fun other known' different => ?_, converts, plainly⟩
  · rw [seen key (known_names key known).1, seen_values_alone (known_names key known).2]
  · rw [seen other (known_names other known').1,
      seen_values_alone_other (known_names other known').2 different]

theorem SpellingFree.directives (named : sameText l.name Response.CacheControl = true) :
    ∀ directive ∈ [bytes "no-store", bytes "no-cache", bytes "must-revalidate"],
      contains l.value directive = false := by
  obtain ⟨fs, shown, -, -, plainly⟩ := free.shown_values formed ok (by simp) named 0
  obtain ⟨no_store, validation, -⟩ := plainly 0
  have said (directive : Bytes) (known : directive ∈ [bytes "no-store", bytes "no-cache",
      bytes "must-revalidate"]) : Response.controls fs directive = contains l.value directive := by
    obtain ⟨filled, clean⟩ := directives_shape directive
      (List.mem_append_left [bytes "s-maxage=", bytes "max-age="] known)
    rw [controls_single shown, contains_padded filled clean]
  simp only [Response.summary, Bool.or_eq_false_iff] at no_store validation
  intro directive known
  rw [← said directive known]
  simp only [List.mem_cons, List.not_mem_nil, or_false] at known
  rcases known with rfl | rfl | rfl
  · exact no_store
  · exact validation.2
  · exact validation.1.2

theorem SpellingFree.ages (named : sameText l.name Response.CacheControl = true) :
    ∀ directive ∈ [bytes "s-maxage=", bytes "max-age="], contains l.value directive = true →
      ∃ n, number_in directive l.value = some n ∧ ¬ n > 0 := by
  obtain ⟨fs, shown, others, converts, plainly⟩ := free.shown_values formed ok (by simp) named 0
  have undated : Response.time_of calendar (bytes "Date") fs = 0 := by
    rw [Response.time_of, Response.last_value, others (bytes "Date") (by simp) (by decide)]
    rfl
  -- a lifetime n would make the response stale when it is parsed at the time n
  have unaged : Response.lifetime fs = none := by
    cases counts : Response.lifetime fs with
    | none => rfl
    | some n =>
      have fresh := (plainly n).2.1
      simp only [Response.summary, Response.fresh, counts, undated, Bool.or_eq_false_iff,
        Bool.not_eq_false'] at fresh
      have stale : exceeds n (difftime n 0) = false := by
        simp [exceeds, difftime]
      exact absurd (stale.symm.trans fresh.1.1) (by decide)
  obtain ⟨shared, plain⟩ := lifetime_eq_none_iff.mp unaged
  intro directive known contained
  have whole := ((converts_iff_values fs).mp converts).2 _ (shown ▸ List.mem_singleton_self _)
  rw [converts_padded, converts_control_iff] at whole
  obtain ⟨n, number⟩ := Option.isSome_iff_exists.mp (whole directive known contained)
  refine ⟨n, number, ?_⟩
  have age : Response.age_of directive fs = n := by
    obtain ⟨filled, clean⟩ := directives_shape directive
      (List.mem_append_right [bytes "no-store", bytes "no-cache", bytes "must-revalidate"] known)
    rw [age_of_single shown, scanned_eq, number_in_padded filled clean, number]
    rfl
  rw [← age]
  simp only [List.mem_cons, List.not_mem_nil, or_false] at known
  rcases known with rfl | rfl
  · exact shared
  · exact plain

theorem SpellingFree.lengths (named : sameText l.name ContentLength = true) :
    ∃ n, stoi l.value = .ok n := by
  obtain ⟨fs, shown, -, converts, -⟩ := free.shown_values formed ok (by simp) named 0
  have number := ((converts_iff_values fs).mp converts).1 _ (shown ▸ List.mem_singleton_self _)
  rwa [stoi_congr (strtol_padded 0 l.value below)] at number

theorem SpellingFree.dates (named : sameText l.name (bytes "Expires") = true) (j : Nat) :
    ¬ calendar.parse_time (List.replicate j 32 ++ l.value ++ line_end below) > 0 ∧
      from_time_t (calendar.parse_time (List.replicate j 32 ++ l.value ++ line_end below)) = 0 := by
  have known : bytes "Expires" ∈
      [Response.CacheControl, ContentLength, bytes "Expires", bytes "Date"] := by simp
  obtain ⟨fs, shown, others, -, plainly⟩ := free.shown_values formed ok known named j
  have unaged := lifetime_none (others Response.CacheControl (by simp) (by decide))
  have date : Response.time_of calendar (bytes "Expires") fs =
      calendar.parse_time (List.replicate j 32 ++ l.value ++ line_end below) := by
    rw [Response.time_of, Response.last_value, shown]
    rfl
  rw [← date]
  -- a positive date would be over when the response is parsed at that time
  obtain ⟨-, fresh, never⟩ := plainly (Response.time_of calendar (bytes "Expires") fs)
  simp only [Response.summary, Response.fresh, Response.expiry, unaged] at fresh never
  refine ⟨fun filled => ?_, never⟩
  simp [filled] at fresh

end Free

/-- Spelling makes no difference for the cache exactly where the response is not stored at all or
has nothing to say. -/
theorem spelling_free_iff (calendar : Calendar) (status : Bytes) (lines : List SpelledLine)
    (formed : WellFormed status lines) : SpellingFree calendar status lines ↔
      ¬ bytes "HTTP/1.1 200" <+: status ∨ Mute calendar lines := by
  constructor
  · intro free
    by_cases ok : bytes "HTTP/1.1 200" <+: status
    · refine .inr ⟨?_, ?_, ?_, ?_⟩
      · intro l mem named
        obtain ⟨above, below, rfl⟩ := List.append_of_mem mem
        exact free.directives formed ok named
      · intro l mem named
        obtain ⟨above, below, rfl⟩ := List.append_of_mem mem
        exact free.ages formed ok named
      · intro l mem named
        obtain ⟨above, below, rfl⟩ := List.append_of_mem mem
        exact free.lengths formed ok named
      · rintro above l below rfl named j
        exact free.dates formed ok named j
    · exact .inl ok
  · rintro (other | mute)
    · exact spelling_free_of_status other
    · exact spelling_free_of_mute formed mute

/-! One line that forbids to store the page. -/

def forbidden : SpelledLine := ⟨bytes "Cache-Control", 1, bytes "no-store"⟩

theorem forbidden_formed : WellFormed (bytes "HTTP/1.1 200 OK") [forbidden] where
  status_line := by decide +kernel
  names := by decide +kernel
  values := by decide +kernel

theorem spelling_free_iff_no_store :
    SpellingFree plainCalendar (bytes "HTTP/1.1 200 OK") [forbidden] ↔
      ¬ bytes "HTTP/1.1 200" <+: bytes "HTTP/1.1 200 OK" ∨ Mute plainCalendar [forbidden] :=
  spelling_free_iff plainCalendar _ _ forbidden_formed

/-- A no-store under another spelling is not seen. -/
theorem not_spelling_free : ¬ SpellingFree plainCalendar (bytes "HTTP/1.1 200 OK") [forbidden] := by
  intro free
  have unsaid := @SpellingFree.directives _ _ [] [] forbidden free forbidden_formed (by decide +kernel)
    (by decide) (bytes "no-store") (by simp)
  exact absurd unsaid (by decide)

end CachingProxy
