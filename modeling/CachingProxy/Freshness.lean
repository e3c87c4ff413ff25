import CachingProxy.Http.Directives
import CachingProxy.Stored

/-! How long a stored entry is given out, against the lifetime its Cache-Control line names.
Response::parse sees the line under one spelling only, and takes the number behind the first text
that looks like a directive. A zero stands for "no age" in the scanned ages and for "no expiry" in
the entry, so a lifetime of zero is passed over. -/
namespace CachingProxy
open Cpp Action Http

/-- A header line of that name, in any case. -/
def Names (name line : Bytes) : Prop :=
  ∃ spelled value, line = spelled ++ 58 :: value ∧ sameText spelled name = true

theorem names_take {name line : Bytes} (h : Names name line) :
    sameText (line.take name.length) name = true := by
  obtain ⟨spelled, value, rfl, same⟩ := h
  have width : spelled.length = name.length := by
    have maps : spelled.map lower = name.map lower := by simpa [sameText] using same
    simpa using congrArg List.length maps
  rwa [← width, List.take_left]

/-- The only header line of a response with the name `key`, cut at its colon, and the lines above
it. -/
structure Sole (key h : Bytes) (above : List Bytes) (name value : Bytes) : Prop where
  named : sameText name key = true
  only : ∃ below, head_lines h = above ++ (name ++ 58 :: value) :: below ∧
    ∀ l, l ∈ above ∨ l ∈ below → ¬ Names key l

/-- Response::parse sees the line of `key`: it is spelled so, has a space after its colon and no
empty line above it. -/
def SeenAs (key : Bytes) (above : List Bytes) (name value : Bytes) : Prop :=
  name = key ∧ [] ∉ above ∧ ∃ rest, value = 32 :: rest

/-- The only Cache-Control line of a response, with the lifetime n in it. -/
structure Aged (h : Bytes) (above : List Bytes) (name value : Bytes) (n : Nat) : Prop
    extends Sole Response.CacheControl h above name value where
  lifetime : Http.lifetime value = some n

def second : Int := 1000000000

/-- From here on a request comes after the store at s and after the end of the lifetime. -/
def first_late (s d : Int64) (n : Nat) : Int :=
  max (s.toInt * second) ((d.toInt + n) * second + 1)

/-- No request that is late in this sense is answered from the entry. -/
def Respected (s d : Int64) (n : Nat) (entry : CacheEntry) : Prop :=
  ∀ (env : Environment) (request : Request), env.lookup request.url = some entry →
    s.toInt * second ≤ env.now → (d.toInt + n) * second < env.now → env.now < 2 ^ 63 →
    entry.isExpired env.now = true ∧ processGetRequest env request = forwardRequest env request

/-- The expiry e is not taken for none, and it is over for every late request. -/
def Over (s d : Int64) (n : Nat) (e : Int64) : Prop :=
  from_time_t e ≠ 0 ∧ from_time_t e < first_late s d n

/-- The age that Response::parse counts when it sees a line: the number behind the first s-maxage=
in it, if that is positive, or else the number behind the first max-age=. -/
def counted (value : Bytes) : Option Int64 :=
  let s_max_age := Response.scanned (bytes "s-maxage=") (-1) value
  let max_age := Response.scanned (bytes "max-age=") (-1) value
  if s_max_age > 0 then some s_max_age else if max_age > 0 then some max_age else none

/-- The two directives are written so that the scan comes to them and to nothing else. -/
def Legible (value : Bytes) : Prop := Plain (bytes "s-maxage") value ∧ Plain (bytes "max-age") value

/-- What keeps an entry with the lifetime n from being given out late. A line that is seen does,
with a positive lifetime that is written legibly or a directive that asks for validation. Otherwise
the age that is counted must be over by then, and where none is counted, Expires. -/
inductive Honoured (s d expires : Int64) (seen : Prop) (value : Bytes) (n : Nat) : Prop where
  | legible (line : seen) (filled : 0 < n) (written : Legible value)
  | no_cache (line : seen) (named : contains value (bytes "no-cache") = true)
  | must_revalidate (line : seen) (named : contains value (bytes "must-revalidate") = true)
  | old_age {age : Int64} (line : seen) (aged : counted value = some age)
      (old : exceeds age (difftime s d) = false)
  | over_age {age : Int64} (line : seen) (aged : counted value = some age)
      (past : Over s d n (d + age))
  | old_expires (unaged : ¬ (seen ∧ (counted value).isSome)) (named : expires > 0)
      (old : ¬ expires > s)
  | over_expires (unaged : ¬ (seen ∧ (counted value).isSome)) (past : Over s d n expires)
  | out_of_clock (beyond : 2 ^ 63 ≤ first_late s d n)

/-! ## The line that is seen -/

theorem unnamed_of_not_names {key l : Bytes} (h : ¬ Names key l) : ¬ key ++ [58] <+: l := by
  rintro ⟨value, rfl⟩
  exact h ⟨key, value, by simp, by simp [sameText]⟩

theorem colonless_of_sameText {name key : Bytes} (colonless : (58 : UInt8) ∉ key)
    (same : sameText name key = true) : (58 : UInt8) ∉ name :=
  fun mem => colonless (mem_of_sameText same (by decide) mem)

/-- The only line of a name gives its value where no empty line cuts it off. -/
theorem Sole.values {key h name value : Bytes} {above : List Bytes}
    (line : Sole key h above name value) (colonless : (58 : UInt8) ∉ key) :
    Response.values key (header_fields h) = if [] ∈ above then [] else own_value key name value := by
  obtain ⟨below, lines, others⟩ := line.only
  rw [values_around lines (colonless_of_sameText colonless line.named) colonless]
  split
  · apply values_unnamed
    intro l mem
    exact unnamed_of_not_names (others l (.inl (List.takeWhile_subset _ mem)))
  · rw [values_unnamed (fun l mem => unnamed_of_not_names (others l (.inl mem))),
      values_unnamed, List.nil_append, List.append_nil]
    intro l mem
    exact unnamed_of_not_names (others l (.inr (List.takeWhile_subset _ mem)))

theorem Sole.values_seen {key h name rest : Bytes} {above : List Bytes}
    (line : Sole key h above name (32 :: rest)) (colonless : (58 : UInt8) ∉ key)
    (seen : SeenAs key above name (32 :: rest)) :
    Response.values key (header_fields h) = [rest] := by
  rw [line.values colonless, if_neg seen.2.1]
  exact if_pos seen.1

theorem Sole.values_unseen {key h name value : Bytes} {above : List Bytes}
    (line : Sole key h above name value) (colonless : (58 : UInt8) ∉ key)
    (unseen : ¬ SeenAs key above name value) : Response.values key (header_fields h) = [] := by
  rw [line.values colonless]
  split
  · rfl
  · rename_i filled
    unfold own_value
    split
    · rename_i rest
      exact if_neg (fun own => unseen ⟨own, filled, rest, rfl⟩)
    · rfl

/-! ## The space after the colon -/

section Space

variable {directive rest : Bytes}

theorem find_space (filled : directive ≠ []) (solid : (32 : UInt8) ∉ directive) :
    find directive (32 :: rest) = (find directive rest).map (· + 1) := by
  apply find_cons_skip
  intro start
  rcases List.prefix_cons_iff.mp start with rfl | ⟨t, rfl, -⟩
  · exact filled rfl
  · exact solid List.mem_cons_self

theorem contains_space (filled : directive ≠ []) (solid : (32 : UInt8) ∉ directive) :
    contains (32 :: rest) directive = contains rest directive := by
  rw [contains, contains, find_space filled solid, Option.isSome_map]

theorem scanned_space (filled : directive ≠ []) (solid : (32 : UInt8) ∉ directive) (old : Int64) :
    Response.scanned directive old (32 :: rest) = Response.scanned directive old rest := by
  have scan : Response.scan_age directive (32 :: rest) old =
      Response.scan_age directive rest old := by
    unfold Response.scan_age
    rw [find_space filled solid]
    cases found : find directive rest with
    | none => rfl
    | some pos =>
      have inside := find_le found
      simp only [Option.map_some]
      rw [substrFrom_ok inside, substrFrom_ok (by simp; omega), Nat.add_right_comm]
      rfl
  simp only [Response.scanned, scan]

end Space

/-! ## The ages that are scanned -/

theorem scanned_absent {directive value : Bytes} (absent : find directive value = none)
    (old : Int64) : Response.scanned directive old value = old := by
  simp only [Response.scanned, Response.scan_age, absent]

/-- In a line that is written plainly the age that is scanned is the one that is listed. -/
theorem scanned_plain {directive value : Bytes} {n : Nat} (known : Searchable directive)
    (plain : Plain directive value) (own : seconds value directive = some n) (small : n < 2 ^ 63)
    (old : Int64) : (Response.scanned (directive ++ [61]) old value).toInt = n := by
  obtain ⟨pos, found, read⟩ := plain.read known own
  have range : -2 ^ 63 ≤ (n : Int) ∧ (n : Int) < 2 ^ 63 := by omega
  have scan : Response.scan_age (directive ++ [61]) value old = .ok (Int64.ofInt n) := by
    simp only [Response.scan_age, found, substrFrom_ok (find_le found)]
    simp only [bind, Except.bind, stol, read, range, and_self, if_true]
  simp only [Response.scanned, scan]
  exact Int64.toInt_ofInt_of_le (by omega) (by omega)

theorem age_of_single {fs : List (Bytes × Bytes)} {value : Bytes}
    (single : Response.values Response.CacheControl fs = [value]) (directive : Bytes) :
    Response.age_of directive fs = Response.scanned directive (-1) value := by
  simp only [Response.age_of, single, List.foldl_cons, List.foldl_nil]

theorem controls_single {fs : List (Bytes × Bytes)} {value : Bytes}
    (single : Response.values Response.CacheControl fs = [value]) (directive : Bytes) :
    Response.controls fs directive = contains value directive := by
  simp only [Response.controls, Response.last_value, single, List.getLast?_singleton,
    Option.any_some]

theorem lifetime_filled {fs : List (Bytes × Bytes)} {n : Int64}
    (counts : Response.lifetime fs = some n) : 0 < n.toInt := by
  unfold Response.lifetime at counts
  split at counts
  · rename_i filled
    rw [← Option.some.inj counts]
    exact Int64.lt_iff_toInt_lt.mp filled
  · split at counts
    · rename_i filled
      rw [← Option.some.inj counts]
      exact Int64.lt_iff_toInt_lt.mp filled
    · cases counts

theorem positive_of_toInt {a : Int64} {n : Nat} (same : a.toInt = n) (filled : 0 < n) : a > 0 := by
  apply Int64.lt_iff_toInt_lt.mpr
  rw [same]
  exact Int.natCast_pos.mpr filled

/-- A positive lifetime that is written legibly is the one that counts. -/
theorem counted_legible {value : Bytes} {n : Nat} (written : Legible value)
    (carries : Http.lifetime value = some n) (filled : 0 < n) (small : n < 2 ^ 63) :
    ∃ age : Int64, counted value = some age ∧ age.toInt = n := by
  have known : Searchable (bytes "s-maxage") ∧ Searchable (bytes "max-age") :=
    ⟨⟨by decide, by decide +kernel, by decide⟩, ⟨by decide, by decide +kernel, by decide⟩⟩
  have equals : bytes "s-maxage" ++ [61] = bytes "s-maxage=" ∧
      bytes "max-age" ++ [61] = bytes "max-age=" := by decide
  unfold Http.lifetime at carries
  unfold counted
  split at carries
  · have same := scanned_plain known.1 written.1 carries small (-1)
    rw [equals.1] at same
    exact ⟨_, if_pos (positive_of_toInt same filled), same⟩
  · rename_i unlisted
    have absent := written.1.absent known.1 (Bool.eq_false_of_not_eq_true unlisted)
    rw [equals.1] at absent
    have same := scanned_plain known.2 written.2 carries small (-1)
    rw [equals.2] at same
    simp only [scanned_absent absent]
    exact ⟨_, (if_neg (by decide)).trans (if_pos (positive_of_toInt same filled)), same⟩

example : Legible (bytes " public, max-age=60\r") :=
  ⟨⟨by decide, by unfold Begun; decide⟩, ⟨by decide, by unfold Begun; decide⟩⟩

/-- A directive whose name ends in max-age hides the one that follows. -/
example : Http.lifetime (bytes " x-max-age=1000, max-age=5") = some 5 ∧
    counted (bytes " x-max-age=1000, max-age=5") = some 1000 := by decide

theorem lifetime_single {fs : List (Bytes × Bytes)} {rest : Bytes}
    (single : Response.values Response.CacheControl fs = [rest]) :
    Response.lifetime fs = counted (32 :: rest) := by
  unfold Response.lifetime counted
  rw [age_of_single single, age_of_single single, scanned_space (by decide) (by decide),
    scanned_space (by decide) (by decide)]

/-! ## The expiry of an entry -/

/-- A positive expiry date that the clock can pass is kept as it is. -/
theorem from_time_t_exact {e : Int64} {due : Int} (date : e.toInt = due) (filled : 0 < due)
    (small : due * second < 2 ^ 63) : from_time_t e = due * second := by
  unfold second at small ⊢
  rw [from_time_t, date]
  apply Int.bmod_eq_of_le <;> omega

theorem late_iff {s d : Int64} {n : Nat} {now : Int} :
    first_late s d n ≤ now ↔ s.toInt * second ≤ now ∧ (d.toInt + n) * second < now := by
  unfold first_late
  omega

/-- What is given out late: nothing that wants validation, or whose expiry is over by then. -/
theorem expired_late_iff {s d e : Int64} {n : Nat} {validation : Bool} :
    (∀ now : Int, first_late s d n ≤ now → now < 2 ^ 63 →
        (validation || (from_time_t e != 0 && decide (now > from_time_t e))) = true) ↔
      validation = true ∨ 2 ^ 63 ≤ first_late s d n ∨ Over s d n e := by
  simp only [Bool.or_eq_true, Bool.and_eq_true, bne_iff_ne, ne_eq, decide_eq_true_eq]
  constructor
  · intro all
    by_cases beyond : 2 ^ 63 ≤ first_late s d n
    · exact Or.inr (Or.inl beyond)
    · rcases all _ (Int.le_refl _) (by omega) with asked | ⟨some_expiry, past⟩
      · exact Or.inl asked
      · exact Or.inr (Or.inr ⟨some_expiry, past⟩)
  · rintro (asked | beyond | ⟨some_expiry, past⟩) now late inside
    · exact Or.inl asked
    · omega
    · exact Or.inr ⟨some_expiry, by omega⟩

theorem respected_iff {s d : Int64} {n : Nat} {entry : CacheEntry} (env : Environment) :
    Respected s d n entry ↔
      ∀ now : Int, first_late s d n ≤ now → now < 2 ^ 63 → entry.isExpired now = true := by
  constructor
  · intro respected now late inside
    obtain ⟨not_before, after⟩ := late_iff.mp late
    exact (respected { env with lookup := fun _ => some entry, now := now }
      (Request.new []) rfl not_before after inside).1
  · intro expired env request found not_before after inside
    have old := expired env.now (late_iff.mpr ⟨not_before, after⟩) inside
    refine ⟨old, ?_⟩
    simp only [processGetRequest, found, old, if_true, ite_self]

/-- The expiry of the lifetime itself is over for every late request. -/
theorem over_of_lifetime {s d age : Int64} {n : Nat} (date : d > 0) (own : age.toInt = n)
    (inside : first_late s d n < 2 ^ 63) : Over s d n (d + age) := by
  have positive : 0 < d.toInt := Int64.lt_iff_toInt_lt.mp date
  have ⟨not_before, after⟩ := late_iff.mp (Int.le_refl (first_late s d n))
  have small : (d.toInt + n) * second < 2 ^ 63 := by omega
  have fits : d.toInt + n < 2 ^ 63 := by
    unfold second at small
    omega
  have sum : (d + age).toInt = d.toInt + n := by
    rw [Int64.toInt_add, own]
    apply Int.bmod_eq_of_le <;> omega
  have exact := from_time_t_exact sum (by omega) small
  rw [Over, exact]
  refine ⟨?_, after⟩
  unfold second
  omega

/-- A legible line keeps its entry, or the clock ends before. -/
theorem legible_over {s d : Int64} {n : Nat} {value : Bytes} (written : Legible value)
    (carries : Http.lifetime value = some n) (filled : 0 < n) (date : d > 0) :
    2 ^ 63 ≤ first_late s d n ∨ ∃ age, counted value = some age ∧ Over s d n (d + age) := by
  by_cases beyond : 2 ^ 63 ≤ first_late s d n
  · exact Or.inl beyond
  · have positive : 0 < d.toInt := Int64.lt_iff_toInt_lt.mp date
    have small : n < 2 ^ 63 := by
      have := late_iff.mp (Int.le_refl (first_late s d n))
      unfold second at this
      omega
    obtain ⟨age, counts, own⟩ := counted_legible written carries filled small
    exact Or.inr ⟨age, counts, over_of_lifetime date own (by omega)⟩

/-- With a line that is seen the age that is counted decides, and without one Expires. -/
theorem honoured_seen_iff {calendar : Calendar} {fs : List (Bytes × Bytes)} {seen : Prop}
    {rest : Bytes} {s : Int64} {n : Nat}
    (single : Response.values Response.CacheControl fs = [rest]) (line : seen)
    (carries : Http.lifetime (32 :: rest) = some n)
    (date : Response.time_of calendar (bytes "Date") fs > 0) :
    Honoured s (Response.time_of calendar (bytes "Date") fs)
        (Response.time_of calendar (bytes "Expires") fs) seen (32 :: rest) n ↔
      ((Response.fresh calendar s fs = false ∨ contains rest (bytes "must-revalidate") = true) ∨
          contains rest (bytes "no-cache") = true) ∨
        2 ^ 63 ≤ first_late s (Response.time_of calendar (bytes "Date") fs) n ∨
        Over s (Response.time_of calendar (bytes "Date") fs) n (Response.expiry calendar fs) := by
  have counts := lifetime_single single
  rw [← contains_space (by decide : bytes "must-revalidate" ≠ []) (by decide),
    ← contains_space (by decide : bytes "no-cache" ≠ []) (by decide)]
  unfold Response.fresh Response.expiry
  constructor
  · intro honoured
    cases honoured with
    | legible _ filled written =>
      rcases legible_over written carries filled date with beyond | ⟨age, aged, past⟩
      · exact Or.inr (Or.inl beyond)
      · rw [aged] at counts
        simp only [counts, past, or_true]
    | no_cache _ named => exact Or.inl (Or.inr named)
    | must_revalidate _ named => exact Or.inl (Or.inl (Or.inr named))
    | old_age _ aged old =>
      rw [aged] at counts
      simp only [counts, old, true_or]
    | over_age _ aged past =>
      rw [aged] at counts
      simp only [counts, past, or_true]
    | old_expires unaged named old =>
      have none_counted : counted (32 :: rest) = none := by simpa [line] using unaged
      rw [none_counted] at counts
      simp [counts, named, old]
    | over_expires unaged past =>
      have none_counted : counted (32 :: rest) = none := by simpa [line] using unaged
      rw [none_counted] at counts
      simp only [counts, past, or_true]
    | out_of_clock beyond => exact Or.inr (Or.inl beyond)
  · rintro (((old | named) | named) | beyond | past)
    · cases aged : counted (32 :: rest) with
      | some age =>
        rw [aged] at counts
        simp only [counts] at old
        exact .old_age line aged old
      | none =>
        rw [aged] at counts
        simp only [counts, Bool.or_eq_false_iff, Bool.not_eq_false', decide_eq_true_eq,
          decide_eq_false_iff_not] at old
        exact .old_expires (by simp [aged]) old.1 old.2
    · exact .must_revalidate line named
    · exact .no_cache line named
    · exact .out_of_clock beyond
    · cases aged : counted (32 :: rest) with
      | some age =>
        rw [aged] at counts
        simp only [counts] at past
        exact .over_age line aged past
      | none =>
        rw [aged] at counts
        simp only [counts] at past
        exact .over_expires (by simp [aged]) past

/-- With a line that is not seen only Expires decides. -/
theorem honoured_unseen_iff {calendar : Calendar} {fs : List (Bytes × Bytes)} {seen : Prop}
    {value : Bytes} {s d : Int64} {n : Nat}
    (uncontrolled : Response.values Response.CacheControl fs = []) (unseen : ¬ seen) :
    Honoured s d (Response.time_of calendar (bytes "Expires") fs) seen value n ↔
      Response.fresh calendar s fs = false ∨ 2 ^ 63 ≤ first_late s d n ∨
        Over s d n (Response.expiry calendar fs) := by
  simp only [Response.fresh, Response.expiry, lifetime_none uncontrolled]
  constructor
  · intro honoured
    cases honoured with
    | legible line _ _ => exact absurd line unseen
    | no_cache line _ => exact absurd line unseen
    | must_revalidate line _ => exact absurd line unseen
    | old_age line _ _ => exact absurd line unseen
    | over_age line _ _ => exact absurd line unseen
    | old_expires _ named old => simp [named, old]
    | over_expires _ past => exact Or.inr (Or.inr past)
    | out_of_clock beyond => exact Or.inr (Or.inl beyond)
  · rintro (old | beyond | past)
    · simp only [Bool.or_eq_false_iff, Bool.not_eq_false', decide_eq_true_eq,
        decide_eq_false_iff_not] at old
      exact .old_expires (fun both => unseen both.1) old.1 old.2
    · exact .out_of_clock beyond
    · exact .over_expires (fun both => unseen both.1) past

/-- A stored lifetime is respected exactly when its line is seen, it is not zero and it is written
legibly, or something else keeps it. -/
theorem lifetime_respected_iff (env : Environment) (request : Request) (k : Kernel)
    (entry : CacheEntry) (h : Bytes) (left : List RecvOutcome) (above : List Bytes)
    (name value : Bytes) (n : Nat)
    (put : (request.url, entry) ∈ ((forwardRequest env request).after (World.start k)).puts)
    (read : HeaderRead [] k.server_recvs h left) (line : Aged h above name value n)
    (date : Response.time_of env.calendar (bytes "Date") (header_fields h) > 0) :
    Respected env.time_now (Response.time_of env.calendar (bytes "Date") (header_fields h)) n entry ↔
      Honoured env.time_now (Response.time_of env.calendar (bytes "Date") (header_fields h))
        (Response.time_of env.calendar (bytes "Expires") (header_fields h))
        (SeenAs Response.CacheControl above name value) value n := by
  obtain ⟨-, f, segments, response, put⟩ := put_of_read put read
  rw [respected_iff env]
  simp only [put.isExpired_eq]
  rw [expired_late_iff]
  by_cases seen : SeenAs Response.CacheControl above name value
  · obtain ⟨-, -, rest, rfl⟩ := id seen
    have single := line.toSole.values_seen (by decide) seen
    simp only [controls_single single, Bool.or_eq_true, Bool.not_eq_true']
    exact (honoured_seen_iff single seen line.lifetime date).symm
  · have uncontrolled := line.toSole.values_unseen (by decide) seen
    simp only [controls_none uncontrolled, Bool.or_false, Bool.not_eq_true']
    exact (honoured_unseen_iff uncontrolled seen).symm

/-! A page of the first second after the epoch with a lifetime of zero. -/

def epoch_second : Bytes := bytes "Thu, 01 Jan 1970 00:00:01 GMT"

def epochCalendar : Calendar where
  strptime := fun buf _ tm => if epoch_second <+: buf then
    { tm with tm_sec := 1, tm_mday := 1, tm_year := 70, tm_wday := 4 } else tm
  timegm := fun tm => tm.tm_sec.toInt64

def zeroAge : Segment :=
  ⟨bytes "HTTP/1.1 200 OK\r\nDate: Thu, 01 Jan 1970 00:00:01 GMT\r\nCache-Control: max-age=0\r\n\r\n",
    by decide +kernel, by decide +kernel⟩

def epochEnvironment (iteration : Iteration) : Environment :=
  { plainEnvironment iteration with calendar := epochCalendar, time_now := 1 }

theorem zeroAge_put (iteration : Iteration) : ∃ entry,
    (plain.url, entry) ∈ ((forwardRequest (epochEnvironment iteration) plain).after
      (World.start (plainKernel [.data zeroAge, .closed]))).puts := by
  have puts : ((forwardRequest (epochEnvironment iteration) plain).after
      (World.start (plainKernel [.data zeroAge, .closed]))).puts.map Prod.fst = [plain.url] := rfl
  obtain ⟨⟨key, entry⟩, put, rfl⟩ := List.map_eq_singleton_iff.mp puts
  exact ⟨entry, put ▸ List.mem_singleton_self _⟩

/-- What stands in front of the Cache-Control line. -/
def zeroAge_above : List Bytes := [bytes "Date: Thu, 01 Jan 1970 00:00:01 GMT\r"]

theorem zeroAge_line : Aged zeroAge.data zeroAge_above Response.CacheControl
    (bytes " max-age=0") 0 := by
  refine ⟨⟨by decide, [], by decide +kernel, ?_⟩, by decide⟩
  rintro l (mem | mem) names
  · cases List.mem_singleton.mp mem
    exact absurd (names_take names) (by decide +kernel)
  · cases mem

theorem zeroAge_date :
    Response.time_of epochCalendar (bytes "Date") (header_fields zeroAge.data) = 1 := by
  decide +kernel

theorem lifetime_respected_iff_zero : ∃ entry : CacheEntry,
    Respected 1 (Response.time_of epochCalendar (bytes "Date") (header_fields zeroAge.data)) 0 entry ↔
      Honoured 1 (Response.time_of epochCalendar (bytes "Date") (header_fields zeroAge.data))
        (Response.time_of epochCalendar (bytes "Expires") (header_fields zeroAge.data))
        (SeenAs Response.CacheControl zeroAge_above Response.CacheControl (bytes " max-age=0"))
        (bytes " max-age=0") 0 := by
  obtain ⟨iteration⟩ := nonempty_iteration
  obtain ⟨entry, put⟩ := zeroAge_put iteration
  have date : Response.time_of (epochEnvironment iteration).calendar (bytes "Date")
      (header_fields zeroAge.data) = 1 := zeroAge_date
  exact ⟨entry, lifetime_respected_iff (epochEnvironment iteration) plain _ entry zeroAge.data _
    zeroAge_above Response.CacheControl (bytes " max-age=0") 0 put (.whole (by decide +kernel))
    zeroAge_line (by rw [date]; decide)⟩

/-- A response with max-age=0 is given out for ever. -/
theorem lifetime_not_always_respected : ¬ ∀ (env : Environment) (request : Request) (k : Kernel)
    (entry : CacheEntry) (h : Bytes) (left : List RecvOutcome) (above : List Bytes)
    (name value : Bytes) (n : Nat),
    (request.url, entry) ∈ ((forwardRequest env request).after (World.start k)).puts →
    HeaderRead [] k.server_recvs h left → Aged h above name value n →
    Response.time_of env.calendar (bytes "Date") (header_fields h) > 0 →
    Respected env.time_now (Response.time_of env.calendar (bytes "Date") (header_fields h)) n
      entry := by
  intro all
  obtain ⟨iteration⟩ := nonempty_iteration
  obtain ⟨entry, put⟩ := zeroAge_put iteration
  have read : HeaderRead [] (plainKernel [.data zeroAge, .closed]).server_recvs zeroAge.data
      [.closed] := .whole (by decide +kernel)
  have date : Response.time_of (epochEnvironment iteration).calendar (bytes "Date")
      (header_fields zeroAge.data) = 1 := zeroAge_date
  have respected := all _ plain _ entry _ _ _ _ _ 0 put read zeroAge_line
    (by rw [date]; decide)
  rw [date] at respected
  obtain ⟨-, f, segments, response, put⟩ := put_of_read put read
  have late := (respected_iff (epochEnvironment iteration)).mp respected 5000000000
    (by change first_late 1 1 0 ≤ _; decide) (by decide)
  have fresh : Response.fresh epochCalendar 1 (header_fields zeroAge.data) = true := by
    decide +kernel
  have never : from_time_t (Response.expiry epochCalendar (header_fields zeroAge.data)) = 0 := by
    decide +kernel
  have uncontrolled : ∀ directive ∈ [bytes "must-revalidate", bytes "no-cache"],
      Response.controls (header_fields zeroAge.data) directive = false := by decide +kernel
  rw [put.isExpired_eq, uncontrolled _ (by simp), uncontrolled _ (by simp)] at late
  change ((!Response.fresh epochCalendar 1 _ || false || false) ||
    (from_time_t (Response.expiry epochCalendar _) != 0 && _)) = true at late
  rw [fresh, never] at late
  cases late

end CachingProxy
