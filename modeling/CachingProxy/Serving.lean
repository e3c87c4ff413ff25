import CachingProxy.Arrangement
import CachingProxy.Boundary

/-! The times at which a stored entry is given out. -/
namespace CachingProxy
open Cpp Action Http

/-- A request at `t` that finds the entry is answered from it. -/
def Served (entry : CacheEntry) (t : Int) : Prop :=
  ∀ (env : Environment) (request : Request), env.lookup request.url = some entry → env.now = t →
    processGetRequest env request = serve env entry

/-- A request at `t` that finds the entry goes to the origin. -/
def Forwarded (entry : CacheEntry) (t : Int) : Prop :=
  ∀ (env : Environment) (request : Request), env.lookup request.url = some entry → env.now = t →
    processGetRequest env request = forwardRequest env request

theorem forwarded_of_expired {entry : CacheEntry} {t : Int} (old : entry.isExpired t = true) :
    Forwarded entry t := by
  rintro env request found rfl
  simp only [processGetRequest, found, old, if_true, ite_self]

/-- Where no socket can be had, forwarding throws and a hit does not. -/
theorem forward_throws {env : Environment} {e : Exception} (none_left : env.network.socket = .error e)
    {request : Request} (named : request.hostname ≠ []) (w : World) :
    (forwardRequest env request).run w = .error (.threw e) w := by
  unfold forwardRequest contactOrigin
  rw [if_neg named, none_left]
  rfl

theorem served_iff {entry : CacheEntry} {t : Int} : Served entry t ↔ entry.isExpired t = false := by
  constructor
  · intro served
    by_contra old
    rw [Bool.not_eq_false] at old
    obtain ⟨iteration⟩ := nonempty_iteration
    let env : Environment := { plainEnvironment iteration with
      network := { loopback with socket := .error (.other "socket") }
      lookup := fun _ => some entry
      now := t }
    have same := (forwarded_of_expired old env plain rfl rfl).symm.trans (served env plain rfl rfl)
    have throws : (forwardRequest env plain).run (World.start ⟨[], [], [], [], []⟩) = _ :=
      forward_throws rfl (by decide) _
    rw [same] at throws
    obtain ⟨w', -, ends⟩ := serve_ends env entry (World.start ⟨[], [], [], [], []⟩)
    rcases ends with ⟨ended, -⟩ | ended | ended <;> · rw [ended] at throws; cases throws
  · rintro valid env request found rfl
    exact processGetRequest_hit found valid

theorem Put.served_iff {env : Environment} {request : Request} {w : World} {entry : CacheEntry}
    {h : Bytes} {left : List RecvOutcome} {f : Framing} {segments : List Segment}
    {response : Response} (put : Put env request w entry h left f segments response) (t : Int) :
    Served entry t ↔ Response.fresh env.calendar env.time_now (header_fields h) = true ∧
      Response.controls (header_fields h) (bytes "must-revalidate") = false ∧
      Response.controls (header_fields h) (bytes "no-cache") = false ∧
      (from_time_t (Response.expiry env.calendar (header_fields h)) = 0 ∨
        t ≤ from_time_t (Response.expiry env.calendar (header_fields h))) := by
  rw [CachingProxy.served_iff, put.isExpired_eq]
  simp only [Bool.or_eq_false_iff, Bool.not_eq_false', Bool.and_eq_false_iff, bne_eq_false_iff_eq,
    decide_eq_false_iff_not, Int.not_lt, gt_iff_lt, and_assoc]

/-! ## The window of a positive lifetime -/

/-- A response is younger than its lifetime as doubles exactly when it is as integers. -/
theorem exceeds_iff {n s d : Int64} (filled : 0 < n.toInt) (small : n.toInt < 2 ^ 53) :
    exceeds n (difftime s d) = true ↔ s.toInt < d.toInt + n.toInt := by
  rw [exceeds, decide_eq_true_eq, difftime, gt_iff_lt, binary64_lt_iff filled small]
  omega

/-- A stored page with a positive lifetime is given out from the store to the end of the lifetime,
if it was not over at the store and nothing asks for validation. -/
theorem serving_window (env : Environment) (request : Request) (k : Kernel) (entry : CacheEntry)
    (h : Bytes) (left : List RecvOutcome) (value : Bytes) (n d : Int64)
    (put : (request.url, entry) ∈ ((forwardRequest env request).after (World.start k)).puts)
    (read : HeaderRead [] k.server_recvs h left)
    (one : Response.values Response.CacheControl (header_fields h) = [value])
    (counts : Response.lifetime (header_fields h) = some n)
    (date : Response.time_of env.calendar (bytes "Date") (header_fields h) = d)
    (dated : 0 < d.toInt) (inside : (d.toInt + n.toInt) * second < 2 ^ 63) (t : Int) :
    (Served entry t ↔ env.time_now.toInt < d.toInt + n.toInt ∧ t ≤ (d.toInt + n.toInt) * second ∧
      contains value (bytes "no-cache") = false ∧ contains value (bytes "must-revalidate") = false) ∧
    (¬ Served entry t → Forwarded entry t) := by
  obtain ⟨-, f, segments, response, put⟩ := put_of_read put read
  have filled := lifetime_filled counts
  have small : d.toInt + n.toInt < 2 ^ 53 := by
    unfold second at inside
    omega
  have sum : (d + n).toInt = d.toInt + n.toInt := by
    rw [Int64.toInt_add]
    apply Int.bmod_eq_of_le <;> omega
  have due := from_time_t_exact sum (by omega) inside
  have later : 0 < (d.toInt + n.toInt) * second := Int.mul_pos (by omega) (by decide)
  have expiry : Response.expiry env.calendar (header_fields h) = d + n := by
    simp only [Response.expiry, counts, date]
  have fresh : Response.fresh env.calendar env.time_now (header_fields h) = true ↔
      env.time_now.toInt < d.toInt + n.toInt := by
    simp only [Response.fresh, counts, date]
    exact exceeds_iff filled (by omega)
  refine ⟨?_, fun stale => ?_⟩
  · rw [put.served_iff, fresh, controls_single one, controls_single one, expiry, due]
    constructor
    · rintro ⟨young, validation, cached, never | before⟩
      · omega
      · exact ⟨young, before, cached, validation⟩
    · rintro ⟨young, before, cached, validation⟩
      exact ⟨young, validation, cached, .inr before⟩
  · rw [CachingProxy.served_iff, Bool.not_eq_false] at stale
    exact forwarded_of_expired stale

/-! A page of the first second after the epoch with a lifetime of five seconds. -/

def fiveSeconds : Segment :=
  ⟨bytes "HTTP/1.1 200 OK\r\nDate: Thu, 01 Jan 1970 00:00:01 GMT\r\nCache-Control: max-age=5\r\n\r\n",
    by decide +kernel, by decide +kernel⟩

theorem stored_of_storable {env : Environment} {request : Request} {h : Bytes}
    (cacheable : is_cacheable request h = true)
    (storable : (Response.parse env.calendar env.time_now h).toOption.map Response.is_no_store_ =
      some false) (body : Bytes) : ∃ entry, stored env request h body = [(request.url, entry)] := by
  unfold stored
  rw [if_pos cacheable]
  cases parsed : Response.parse env.calendar env.time_now h with
  | error e =>
    rw [parsed] at storable
    cases storable
  | ok response =>
    rw [parsed] at storable
    have kept : response.is_no_store_ = false := Option.some.inj storable
    simp [kept]

/-- A page that comes in one recv and is kept in the first second after the epoch. -/
structure Keepable (page : Segment) : Prop where
  ends : (find CRLFCRLF page.data).isSome
  short : page.data.length ≤ 1000
  framing : scan_framing page.data = .ok ⟨0, false⟩
  cacheable : is_cacheable plain page.data = true
  storable : (Response.parse epochCalendar 1 page.data).toOption.map Response.is_no_store_ = some false

theorem keepable_iff (page : Segment) : Keepable page ↔ (find CRLFCRLF page.data).isSome ∧
    page.data.length ≤ 1000 ∧ scan_framing page.data = .ok ⟨0, false⟩ ∧
    is_cacheable plain page.data = true ∧
    (Response.parse epochCalendar 1 page.data).toOption.map Response.is_no_store_ = some false :=
  ⟨fun k => ⟨k.ends, k.short, k.framing, k.cacheable, k.storable⟩,
    fun ⟨ends, short, framing, cacheable, storable⟩ => ⟨ends, short, framing, cacheable, storable⟩⟩

theorem Keepable.read {page : Segment} (keepable : Keepable page) :
    HeaderRead [] (plainKernel [.data page, .closed]).server_recvs page.data [.closed] :=
  .whole keepable.ends

theorem Keepable.completes {page : Segment} (keepable : Keepable page) (iteration : Iteration) :
    Completes (epochEnvironment iteration) plain (World.start (plainKernel [.data page, .closed]))
      page.data := by
  have contacted := plain_contacted iteration [.data page, .closed]
  have room : (page.data.length : Int) ≤ 1000 := Int.ofNat_le.mpr keepable.short
  have opened : Opened (epochEnvironment iteration) plain
      (World.start (plainKernel [.data page, .closed])) page.data [.closed] _ :=
    ⟨⟨contacted.hostname, contacted.socket, contacted.connected, contacted.asked⟩,
      .whole keepable.ends, page.some_bytes, sentAll_took page.some_bytes room _⟩
  exact ⟨_, _, opened, _, keepable.framing, [], _, _, .ended rfl, .nil⟩

theorem Keepable.put {page : Segment} (keepable : Keepable page) (iteration : Iteration) :
    ∃ entry, (plain.url, entry) ∈ ((forwardRequest (epochEnvironment iteration) plain).after
      (World.start (plainKernel [.data page, .closed]))).puts := by
  have completes := keepable.completes iteration
  rcases forwardRequest_puts (epochEnvironment iteration) plain
    (World.start (plainKernel [.data page, .closed])) with ⟨h, body, done, puts⟩ | ⟨never, -⟩
  · obtain rfl := done.unique completes
    obtain ⟨entry, one⟩ := @stored_of_storable (epochEnvironment iteration) plain page.data
      keepable.cacheable keepable.storable body
    exact ⟨entry, by rw [puts, one]; exact List.mem_cons_self⟩
  · exact absurd completes (never _)

theorem fiveSeconds_keepable : Keepable fiveSeconds := by
  rw [keepable_iff]
  decide +kernel

theorem fiveSeconds_fields : header_fields fiveSeconds.data =
    [(bytes "Date", epoch_second ++ [13]), (Response.CacheControl, bytes "max-age=5")] := by
  decide +kernel

theorem fiveSeconds_date (iteration : Iteration) :
    Response.time_of (epochEnvironment iteration).calendar (bytes "Date")
      (header_fields fiveSeconds.data) = 1 := by
  change Response.time_of epochCalendar _ _ = 1
  rw [fiveSeconds_fields]
  decide +kernel

theorem serving_window_five : ∃ entry : CacheEntry,
    (Served entry 6000000000 ↔ (1 : Int) < 1 + 5 ∧ (6000000000 : Int) ≤ (1 + 5) * second ∧
      contains (bytes "max-age=5") (bytes "no-cache") = false ∧
      contains (bytes "max-age=5") (bytes "must-revalidate") = false) ∧
    (¬ Served entry 6000000000 → Forwarded entry 6000000000) := by
  obtain ⟨iteration⟩ := nonempty_iteration
  obtain ⟨entry, put⟩ := fiveSeconds_keepable.put iteration
  exact ⟨entry, serving_window (epochEnvironment iteration) plain _ entry fiveSeconds.data _
    (bytes "max-age=5") 5 1 put fiveSeconds_keepable.read (by rw [fiveSeconds_fields]; rfl)
    (by rw [fiveSeconds_fields]; decide +kernel) (fiveSeconds_date iteration) (by decide)
    (by decide) _⟩

/-! ## Expires -/

/-- The text of a field: what follows the colon and one space. -/
def field_text : Bytes → Bytes
  | 32 :: rest => rest
  | value => value

/-- What keeps an entry from being given out after its Expires date e. A line that is seen does
where no age stands above it, unless e stands for no expiry or is out of the clock's range. -/
inductive ExpiresKept (calendar : Calendar) (s e : Int64) (fs : List (Bytes × Bytes)) (seen : Prop) :
    Prop where
  | positive (line : seen) (unaged : Response.lifetime fs = none) (filled : e > 0)
  | past_date (line : seen) (unaged : Response.lifetime fs = none) (past : Over s e 0 e)
  | no_cache (named : Response.controls fs (bytes "no-cache") = true)
  | must_revalidate (named : Response.controls fs (bytes "must-revalidate") = true)
  | old_age {n : Int64} (aged : Response.lifetime fs = some n)
      (old : exceeds n (difftime s (Response.time_of calendar (bytes "Date") fs)) = false)
  | over_age {n : Int64} (aged : Response.lifetime fs = some n)
      (past : Over s e 0 (Response.time_of calendar (bytes "Date") fs + n))
  | out_of_clock (beyond : 2 ^ 63 ≤ first_late s e 0)

theorem time_of_visible {calendar : Calendar} {key h name value : Bytes} {above : List Bytes}
    (line : Sole key h above name value) (colonless : (58 : UInt8) ∉ key)
    (seen : SeenAs key above name value) :
    Response.time_of calendar key (header_fields h) = calendar.parse_time (field_text value) := by
  obtain ⟨-, -, rest, rfl⟩ := id seen
  simp [Response.time_of, Response.last_value, line.values_seen colonless seen, field_text]

theorem time_of_invisible {calendar : Calendar} {key h name value : Bytes} {above : List Bytes}
    (line : Sole key h above name value) (colonless : (58 : UInt8) ∉ key)
    (unseen : ¬ SeenAs key above name value) :
    Response.time_of calendar key (header_fields h) = 0 := by
  simp [Response.time_of, Response.last_value, line.values_unseen colonless unseen]

theorem seen_of_time {calendar : Calendar} {key h name value : Bytes} {above : List Bytes}
    (line : Sole key h above name value) (colonless : (58 : UInt8) ∉ key)
    (some_time : Response.time_of calendar key (header_fields h) ≠ 0) :
    SeenAs key above name value := by
  by_contra unseen
  exact some_time (time_of_invisible line colonless unseen)

/-- A positive date is over at the first late moment. -/
theorem over_of_date {s e : Int64} (filled : e > 0) (inside : first_late s e 0 < 2 ^ 63) :
    Over s e 0 e := by
  have positive : 0 < e.toInt := Int64.lt_iff_toInt_lt.mp filled
  obtain ⟨-, after⟩ := late_iff.mp (Int.le_refl (first_late s e 0))
  rw [Int.natCast_zero, Int.add_zero] at after
  have exact := from_time_t_exact rfl positive (Int.lt_trans after inside)
  rw [Over, exact]
  refine ⟨?_, after⟩
  unfold second
  omega

/-- Where no age counts, a response that is stale when it is parsed has a date that is over. -/
theorem not_fresh {e now : Int64} (old : (!decide (e > 0) || decide (e > now)) = false) :
    e > 0 ∧ ¬ e > now := by
  simpa only [Bool.or_eq_false_iff, Bool.not_eq_false', decide_eq_true_eq, decide_eq_false_iff_not]
    using old

/-- An Expires date is respected exactly when its line is seen and the date is not passed over, or
something else keeps it. -/
theorem expires_respected_iff (env : Environment) (request : Request) (k : Kernel)
    (entry : CacheEntry) (h : Bytes) (left : List RecvOutcome) (above : List Bytes)
    (name value : Bytes) (e : Int64)
    (put : (request.url, entry) ∈ ((forwardRequest env request).after (World.start k)).puts)
    (read : HeaderRead [] k.server_recvs h left) (line : Sole (bytes "Expires") h above name value)
    (date : env.calendar.parse_time (field_text value) = e) :
    Respected env.time_now e 0 entry ↔ ExpiresKept env.calendar env.time_now e (header_fields h)
      (SeenAs (bytes "Expires") above name value) := by
  obtain ⟨-, f, segments, response, put⟩ := put_of_read put read
  have colonless : (58 : UInt8) ∉ bytes "Expires" := by decide
  rw [respected_iff env]
  simp only [put.isExpired_eq]
  rw [expired_late_iff]
  simp only [Bool.or_eq_true, Bool.not_eq_true']
  cases counts : Response.lifetime (header_fields h) with
  | some n =>
    simp only [Response.fresh, Response.expiry, counts]
    constructor
    · rintro (((old | named) | named) | beyond | past)
      · exact .old_age counts old
      · exact .must_revalidate named
      · exact .no_cache named
      · exact .out_of_clock beyond
      · exact .over_age counts past
    · intro kept
      cases kept with
      | positive _ unaged _ => exact absurd (unaged.symm.trans counts) (by simp)
      | past_date _ unaged _ => exact absurd (unaged.symm.trans counts) (by simp)
      | no_cache named => exact .inl (.inr named)
      | must_revalidate named => exact .inl (.inl (.inr named))
      | old_age aged old =>
        obtain rfl := Option.some.inj (counts.symm.trans aged)
        exact .inl (.inl (.inl old))
      | over_age aged past =>
        obtain rfl := Option.some.inj (counts.symm.trans aged)
        exact .inr (.inr past)
      | out_of_clock beyond => exact .inr (.inl beyond)
  | none =>
    simp only [Response.fresh, Response.expiry, counts]
    constructor
    · rintro (((old | named) | named) | beyond | past)
      · obtain ⟨filled, -⟩ := not_fresh old
        have seen := seen_of_time line colonless fun zero => absurd (zero ▸ filled) (by decide)
        rw [time_of_visible line colonless seen, date] at filled
        exact .positive seen counts filled
      · exact .must_revalidate named
      · exact .no_cache named
      · exact .out_of_clock beyond
      · have seen := seen_of_time line colonless fun zero => (zero ▸ past).1 (by decide)
        rw [time_of_visible line colonless seen, date] at past
        exact .past_date seen counts past
    · intro kept
      cases kept with
      | positive seen _ filled =>
        rw [time_of_visible line colonless seen, date]
        by_cases inside : first_late env.time_now e 0 < 2 ^ 63
        · exact .inr (.inr (over_of_date filled inside))
        · exact .inr (.inl (Int.not_lt.mp inside))
      | past_date seen _ past =>
        rw [time_of_visible line colonless seen, date]
        exact .inr (.inr past)
      | no_cache named => exact .inl (.inr named)
      | must_revalidate named => exact .inl (.inl (.inr named))
      | old_age aged _ => exact absurd (counts.symm.trans aged) (by simp)
      | over_age aged _ => exact absurd (counts.symm.trans aged) (by simp)
      | out_of_clock beyond => exact .inr (.inl beyond)

/-! A page whose only header says that it expired at the epoch. -/

def zeroExpires : Segment :=
  ⟨bytes "HTTP/1.1 200 OK\r\nExpires: Thu, 01 Jan 1970 00:00:00 GMT\r\n\r\n", by decide +kernel,
    by decide +kernel⟩

theorem zeroExpires_keepable : Keepable zeroExpires := by
  rw [keepable_iff]
  decide +kernel

def zeroExpires_text : Bytes := bytes " Thu, 01 Jan 1970 00:00:00 GMT"

theorem zeroExpires_line : Sole (bytes "Expires") zeroExpires.data [] (bytes "Expires")
    zeroExpires_text := by
  refine ⟨by decide, [], by decide +kernel, ?_⟩
  rintro l (mem | mem) <;> cases mem

theorem zeroExpires_fields : header_fields zeroExpires.data =
    [(bytes "Expires", field_text zeroExpires_text)] := by
  decide +kernel

theorem zeroExpires_date : epochCalendar.parse_time (field_text zeroExpires_text) = 0 := by
  decide +kernel

theorem expires_respected_iff_zero : ∃ entry : CacheEntry,
    Respected 1 0 0 entry ↔ ExpiresKept epochCalendar 1 0 (header_fields zeroExpires.data)
      (SeenAs (bytes "Expires") [] (bytes "Expires") zeroExpires_text) := by
  obtain ⟨iteration⟩ := nonempty_iteration
  obtain ⟨entry, put⟩ := zeroExpires_keepable.put iteration
  exact ⟨entry, expires_respected_iff (epochEnvironment iteration) plain _ entry zeroExpires.data _
    [] (bytes "Expires") zeroExpires_text 0 put zeroExpires_keepable.read zeroExpires_line
    zeroExpires_date⟩

/-- A page that expired at the epoch is given out for ever. -/
theorem expires_not_always_respected : ¬ ∀ (env : Environment) (request : Request) (k : Kernel)
    (entry : CacheEntry) (h : Bytes) (left : List RecvOutcome) (above : List Bytes)
    (name value : Bytes) (e : Int64),
    (request.url, entry) ∈ ((forwardRequest env request).after (World.start k)).puts →
    HeaderRead [] k.server_recvs h left → Sole (bytes "Expires") h above name value →
    Response.values Response.CacheControl (header_fields h) = [] →
    env.calendar.parse_time (field_text value) = e → Respected env.time_now e 0 entry := by
  intro all
  obtain ⟨iteration⟩ := nonempty_iteration
  obtain ⟨entry, put⟩ := zeroExpires_keepable.put iteration
  have read := zeroExpires_keepable.read
  have uncontrolled : Response.values Response.CacheControl (header_fields zeroExpires.data) = [] := by
    rw [zeroExpires_fields]
    rfl
  have respected := all _ plain _ entry _ _ _ _ _ 0 put read zeroExpires_line uncontrolled
    zeroExpires_date
  obtain ⟨-, f, segments, response, put⟩ := put_of_read put read
  have served : Response.fresh epochCalendar 1 (header_fields zeroExpires.data) = true ∧
      Response.controls (header_fields zeroExpires.data) (bytes "must-revalidate") = false ∧
      Response.controls (header_fields zeroExpires.data) (bytes "no-cache") = false ∧
      (from_time_t (Response.expiry epochCalendar (header_fields zeroExpires.data)) = 0 ∨
        5000000000 ≤ from_time_t (Response.expiry epochCalendar (header_fields zeroExpires.data))) := by
    rw [zeroExpires_fields]
    decide +kernel
  have valid := CachingProxy.served_iff.mp ((put.served_iff 5000000000).mpr served)
  have late := (respected_iff (epochEnvironment iteration)).mp respected 5000000000
    (by change first_late 1 0 0 ≤ _; decide) (by decide)
  rw [valid] at late
  cases late

/-! ## A longer max-age -/

/-- The text of a value around its max-age. -/
def aged (front digits back : Bytes) : Bytes := front ++ bytes "max-age=" ++ digits ++ back

/-- Between `above` and `below` the header lines have a line of Cache-Control, in any spelling, that
says max-age=n between `front` and `back`. -/
structure AgeLine (h : Bytes) (above below : List Bytes) (name front back : Bytes) (n : Int64) :
    Prop where
  named : sameText name Response.CacheControl = true
  line : ∃ digits, head_lines h = above ++ (name ++ 58 :: aged front digits back) :: below ∧
    digits ≠ [] ∧ (∀ c ∈ digits, isdigit c = true) ∧ (decimal digits : Int) = n.toInt
  first : find (bytes "max-age=") front = none
  ended : ∀ c ∈ back.head?, isdigit c = false

/-- The last moment at which an entry with the expiry e is given out. -/
def last_served (e : Int64) : Int :=
  if from_time_t e = 0 then 2 ^ 63 - 1 else from_time_t e

theorem last_served_iff (e : Int64) {t : Int} (inside : t < 2 ^ 63) :
    from_time_t e = 0 ∨ t ≤ from_time_t e ↔ t ≤ last_served e := by
  unfold last_served
  split
  · rename_i never
    simp only [never, true_or, true_iff]
    omega
  · rename_i some_expiry
    simp only [some_expiry, false_or]

theorem last_served_lt (e : Int64) : last_served e < 2 ^ 63 := by
  unfold last_served
  split
  · decide
  · exact (Int.bmod_lt (by decide)).trans_le (by decide)

section Aged

variable {front digits back : Bytes} (first : find (bytes "max-age=") front = none)
  (ended : ∀ c ∈ back.head?, isdigit c = false) (filled : digits ≠ [])
  (numeric : ∀ c ∈ digits, isdigit c = true)

theorem contains_aged {directive : Bytes} (some_text : directive ≠ [])
    (clean : (61 : UInt8) ∉ directive ∧ ∀ c ∈ directive, isdigit c = false)
    (numeric : ∀ c ∈ digits, isdigit c = true) (front back : Bytes) :
    contains (aged front digits back) directive =
      (contains (front ++ bytes "max-age") directive || contains back directive) := by
  have split : aged front digits back = (front ++ bytes "max-age") ++ 61 :: (digits ++ back) := by
    simp [aged, bytes]
  rw [split, contains_around some_text clean.1, contains_digits some_text clean.2 numeric]

include first ended filled numeric in
theorem number_in_aged {n : Int64} (value : (decimal digits : Int) = n.toInt) :
    number_in (bytes "max-age=") (aged front digits back) = some n := by
  have found : find (bytes "max-age=") (aged front digits back) = some front.length := by
    have split : aged front digits back = front ++ (bytes "max-age" ++ [61]) ++ (digits ++ back) := by
      simp [aged, bytes]
    rw [split]
    exact find_ended (by decide : (61 : UInt8) ∉ bytes "max-age") first (digits ++ back)
  have behind : (aged front digits back).drop (front.length + (bytes "max-age=").length) =
      digits ++ back := by
    have split : aged front digits back = front ++ (bytes "max-age=" ++ (digits ++ back)) := by
      simp [aged]
    rw [split, List.drop_length_add_append, List.drop_left]
  have read := strtol_of_numeral (numeral_digits filled numeric ended)
  have range : -2 ^ 63 ≤ n.toInt ∧ n.toInt < 2 ^ 63 := ⟨n.le_toInt, n.toInt_lt⟩
  rw [number_in, found, Option.bind_some, behind]
  simp only [stol, read, value, Int64.ofInt_toInt]
  rw [if_pos range]
  rfl

end Aged

/-! The number that counts is the last one. -/

theorem foldl_scanned (directive : Bytes) (values : List Bytes) (old : Int64) :
    values.foldl (Response.scanned directive) old =
      ((values.filterMap (number_in directive)).getLast?).getD old := by
  induction values generalizing old with
  | nil => rfl
  | cons value values ih =>
    rw [List.foldl_cons, ih, scanned_eq]
    cases number : number_in directive value with
    | none => rw [List.filterMap_cons_none number, Option.getD_none]
    | some n =>
      rw [List.filterMap_cons_some number, List.getLast?_cons, Option.getD_some, Option.getD_some]

theorem age_of_last (directive : Bytes) (fs : List (Bytes × Bytes)) :
    Response.age_of directive fs =
      (((Response.values Response.CacheControl fs).filterMap (number_in directive)).getLast?).getD
        (-1) :=
  foldl_scanned directive _ _

/-- Where no s-maxage is seen, max-age is the lifetime. -/
theorem lifetime_unshared {fs : List (Bytes × Bytes)}
    (unshared : ∀ value ∈ Response.values Response.CacheControl fs,
      contains value (bytes "s-maxage=") = false) :
    Response.lifetime fs = if Response.age_of (bytes "max-age=") fs > 0
      then some (Response.age_of (bytes "max-age=") fs) else none := by
  have nothing : (Response.values Response.CacheControl fs).filterMap
      (number_in (bytes "s-maxage=")) = [] := by
    rw [List.filterMap_eq_nil_iff]
    intro value mem
    have absent : find (bytes "s-maxage=") value = none := by
      simpa [contains] using unshared value mem
    rw [number_in, absent]
    rfl
  have none_shared : Response.age_of (bytes "s-maxage=") fs = -1 := by
    rw [age_of_last, nothing]
    rfl
  unfold Response.lifetime
  rw [none_shared, if_neg (by decide)]

/-- What Cache-Control says in the lines below. -/
def later_values (below : List Bytes) : List Bytes :=
  Response.values Response.CacheControl
    ((below.takeWhile (fun l => l != [])).filterMap Response.field)

/-- The line is seen and no line below it gives another max-age. -/
def LastAge (above below : List Bytes) (name front : Bytes) : Prop :=
  SeenAs Response.CacheControl above name front ∧
    ∀ value ∈ later_values below, number_in (bytes "max-age=") value = none

theorem own_value_other {key name : Bytes} (other : name ≠ key) (value : Bytes) :
    own_value key name value = [] := by
  unfold own_value
  split
  · exact if_neg other
  · rfl

theorem own_value_unseen {key name front : Bytes} {above : List Bytes} (filled : [] ∉ above)
    (unseen : ¬ SeenAs key above name front) (digits back : Bytes) :
    own_value key name (aged front digits back) = [] := by
  by_cases own : name = key
  · cases front with
    | nil => rfl
    | cons c front =>
      have text : c ≠ 32 := by
        rintro rfl
        exact unseen ⟨own, filled, front, rfl⟩
      unfold own_value
      split
      · rename_i space
        exact absurd (List.cons.inj space).1 text
      · rfl
  · exact own_value_other own _

section AgeLine

variable {h : Bytes} {above below : List Bytes} {name front back : Bytes} {n : Int64}

theorem AgeLine.values_seen (line : AgeLine h above below name front back n)
    (seen : SeenAs Response.CacheControl above name front) : ∃ front' digits,
      Response.values Response.CacheControl (header_fields h) =
        Response.values Response.CacheControl (above.filterMap Response.field) ++
          aged front' digits back :: later_values below ∧
      front = 32 :: front' ∧ (∀ c ∈ digits, isdigit c = true) ∧
      number_in (bytes "max-age=") (aged front' digits back) = some n := by
  obtain ⟨digits, lines, filled, numeric, value⟩ := line.line
  obtain ⟨rfl, uncut, front', rfl⟩ := seen
  have first : find (bytes "max-age=") front' = none := by
    have absent := line.first
    rwa [find_space (by decide) (by decide), Option.map_eq_none_iff] at absent
  have own : own_value Response.CacheControl Response.CacheControl (aged (32 :: front') digits back) =
      [aged front' digits back] := by
    simp [own_value, aged]
  refine ⟨front', digits, ?_, rfl, numeric, number_in_aged first line.ended filled numeric value⟩
  rw [values_around lines (by decide) (by decide), if_neg uncut, own]
  rfl

theorem AgeLine.values_same {h' : Bytes} {n' : Int64} (line : AgeLine h above below name front back n)
    (line' : AgeLine h' above below name front back n') {key : Bytes} (colonless : (58 : UInt8) ∉ key)
    (unseen : ¬ SeenAs key above name front) :
    Response.values key (header_fields h) = Response.values key (header_fields h') := by
  obtain ⟨digits, lines, -⟩ := line.line
  obtain ⟨digits', lines', -⟩ := line'.line
  have clean := colonless_of_sameText (by decide) line.named
  rw [values_around lines clean colonless, values_around lines' clean colonless]
  split
  · rfl
  · rename_i uncut
    rw [own_value_unseen uncut unseen, own_value_unseen uncut unseen]

variable {h' : Bytes} {n' : Int64} (line : AgeLine h above below name front back n)
  (line' : AgeLine h' above below name front back n')
include line line'

theorem AgeLine.time_of_same (calendar : Calendar) {key : Bytes} (colonless : (58 : UInt8) ∉ key)
    (other : sameText key Response.CacheControl = false) :
    Response.time_of calendar key (header_fields h) =
      Response.time_of calendar key (header_fields h') := by
  have unseen : ¬ SeenAs key above name front := by
    rintro ⟨rfl, -⟩
    rw [line.named] at other
    cases other
  rw [Response.time_of, Response.time_of, Response.last_value, Response.last_value,
    line.values_same line' colonless unseen]

theorem AgeLine.controls_same {directive : Bytes} (some_text : directive ≠ [])
    (clean : (61 : UInt8) ∉ directive ∧ ∀ c ∈ directive, isdigit c = false) :
    Response.controls (header_fields h) directive = Response.controls (header_fields h') directive := by
  rw [Response.controls, Response.controls, Response.last_value, Response.last_value]
  by_cases seen : SeenAs Response.CacheControl above name front
  · obtain ⟨front₁, digits, values, rfl, numeric, -⟩ := line.values_seen seen
    obtain ⟨front₂, digits', values', same, numeric', -⟩ := line'.values_seen seen
    obtain rfl := (List.cons.inj same).2
    rw [values, values', List.getLast?_append, List.getLast?_append, List.getLast?_cons,
      List.getLast?_cons]
    cases (later_values below).getLast? with
    | none =>
      simp only [Option.getD_none, Option.some_or, Option.any_some]
      rw [contains_aged some_text clean numeric, contains_aged some_text clean numeric']
    | some value => rfl
  · rw [line.values_same line' (by decide) seen]

/-- Where the line does not count, the number in it makes no difference for the age. -/
theorem AgeLine.age_same (uncounted : ¬ LastAge above below name front) :
    Response.age_of (bytes "max-age=") (header_fields h) =
      Response.age_of (bytes "max-age=") (header_fields h') := by
  by_cases seen : SeenAs Response.CacheControl above name front
  · obtain ⟨front₁, digits, values, -, -, number⟩ := line.values_seen seen
    obtain ⟨front₂, digits', values', -, -, number'⟩ := line'.values_seen seen
    rw [age_of_last, age_of_last, values, values', List.filterMap_append, List.filterMap_append,
      List.filterMap_cons_some number, List.filterMap_cons_some number', List.getLast?_append,
      List.getLast?_append, List.getLast?_cons, List.getLast?_cons]
    cases later : ((later_values below).filterMap (number_in (bytes "max-age="))).getLast? with
    | none =>
      rw [List.getLast?_eq_none_iff, List.filterMap_eq_nil_iff] at later
      exact absurd ⟨seen, later⟩ uncounted
    | some age => rfl
  · rw [Response.age_of, Response.age_of, line.values_same line' (by decide) seen]

omit line' in
theorem AgeLine.age_counted (counts : LastAge above below name front) :
    Response.age_of (bytes "max-age=") (header_fields h) = n := by
  obtain ⟨seen, later⟩ := counts
  obtain ⟨front', digits, values, -, -, number⟩ := line.values_seen seen
  rw [age_of_last, values, List.filterMap_append, List.filterMap_cons_some number,
    List.filterMap_eq_nil_iff.mpr later, List.getLast?_append]
  rfl

end AgeLine

/-- What keeps the longer lifetime n₂ from ending before n₁ does: the line does not count, the first
response is never given out, or not after the store, or the last moments are in order. -/
inductive Outlives (s d : Int64) (fs : List (Bytes × Bytes)) (counts : Prop) (n₁ n₂ : Int64) :
    Prop where
  | uncounted (other : ¬ counts)
  | stale (old : exceeds n₁ (difftime s d) = false)
  | no_cache (named : Response.controls fs (bytes "no-cache") = true)
  | must_revalidate (named : Response.controls fs (bytes "must-revalidate") = true)
  | ended (past : last_served (d + n₁) < s.toInt * second)
  | longer (later : last_served (d + n₁) ≤ last_served (d + n₂))

/-- A response that is young enough for n₁ is young enough for a longer n₂. -/
theorem exceeds_mono {n₁ n₂ : Int64} (longer : n₁.toInt ≤ n₂.toInt) {age : Int}
    (young : exceeds n₁ age = true) : exceeds n₂ age = true := by
  simp only [exceeds, decide_eq_true_eq] at young ⊢
  exact Int.lt_of_lt_of_le young (binary64_mono longer)

theorem served_longer_iff {s d n₁ n₂ : Int64} {validation cached : Bool}
    (longer : n₁.toInt ≤ n₂.toInt) :
    (∀ t : Int, s.toInt * second ≤ t → t < 2 ^ 63 →
      exceeds n₁ (difftime s d) = true ∧ validation = false ∧ cached = false ∧
        (from_time_t (d + n₁) = 0 ∨ t ≤ from_time_t (d + n₁)) →
      exceeds n₂ (difftime s d) = true ∧ validation = false ∧ cached = false ∧
        (from_time_t (d + n₂) = 0 ∨ t ≤ from_time_t (d + n₂))) ↔
      exceeds n₁ (difftime s d) = false ∨ validation = true ∨ cached = true ∨
        last_served (d + n₁) < s.toInt * second ∨ last_served (d + n₁) ≤ last_served (d + n₂) := by
  constructor
  · intro all
    by_contra none_holds
    simp only [not_or, Bool.not_eq_false, Bool.not_eq_true, Int.not_lt, Int.not_le] at none_holds
    obtain ⟨young, no_validation, no_cache, reached, shorter⟩ := none_holds
    have inside := last_served_lt (d + n₁)
    have last := (last_served_iff (d + n₁) inside).mpr (Int.le_refl _)
    have second_too := all _ reached inside ⟨young, no_validation, no_cache, last⟩
    have before := (last_served_iff (d + n₂) inside).mp second_too.2.2.2
    omega
  · rintro holds t later inside ⟨young, no_validation, no_cache, before⟩
    refine ⟨exceeds_mono longer young, no_validation, no_cache, ?_⟩
    rw [last_served_iff (d + n₁) inside] at before
    rw [last_served_iff (d + n₂) inside]
    rcases holds with old | asked | asked | ended | order
    · exact absurd (young.symm.trans old) (by decide)
    · exact absurd (asked.symm.trans no_validation) (by decide)
    · exact absurd (asked.symm.trans no_cache) (by decide)
    · omega
    · omega

/-- For two responses that differ in their max-age only, the longer one is given out wherever the
shorter one is exactly when the sums with the Date are in order, or the shorter one does not get
that far. -/
theorem longer_max_age_iff (env₁ env₂ : Environment) (request₁ request₂ : Request) (k₁ k₂ : Kernel)
    (entry₁ entry₂ : CacheEntry) (h₁ h₂ : Bytes) (left₁ left₂ : List RecvOutcome)
    (above below : List Bytes) (name front back : Bytes) (n₁ n₂ d : Int64)
    (calendar : env₁.calendar = env₂.calendar) (time : env₁.time_now = env₂.time_now)
    (put₁ : (request₁.url, entry₁) ∈ ((forwardRequest env₁ request₁).after (World.start k₁)).puts)
    (put₂ : (request₂.url, entry₂) ∈ ((forwardRequest env₂ request₂).after (World.start k₂)).puts)
    (read₁ : HeaderRead [] k₁.server_recvs h₁ left₁) (read₂ : HeaderRead [] k₂.server_recvs h₂ left₂)
    (line₁ : AgeLine h₁ above below name front back n₁)
    (line₂ : AgeLine h₂ above below name front back n₂)
    (unshared₁ : ∀ value ∈ Response.values Response.CacheControl (header_fields h₁),
      contains value (bytes "s-maxage=") = false)
    (unshared₂ : ∀ value ∈ Response.values Response.CacheControl (header_fields h₂),
      contains value (bytes "s-maxage=") = false)
    (date : Response.time_of env₁.calendar (bytes "Date") (header_fields h₁) = d)
    (filled : 0 < n₁.toInt) (longer : n₁.toInt ≤ n₂.toInt) :
    (∀ t : Int, env₁.time_now.toInt * second ≤ t → t < 2 ^ 63 → Served entry₁ t → Served entry₂ t) ↔
      Outlives env₁.time_now d (header_fields h₁) (LastAge above below name front) n₁ n₂ := by
  obtain ⟨-, f₁, segments₁, response₁, put₁⟩ := put_of_read put₁ read₁
  obtain ⟨-, f₂, segments₂, response₂, put₂⟩ := put_of_read put₂ read₂
  have times (key : Bytes) (colonless : (58 : UInt8) ∉ key)
      (other : sameText key Response.CacheControl = false) :=
    line₁.time_of_same line₂ env₁.calendar colonless other
  have validation : Response.controls (header_fields h₁) (bytes "must-revalidate") =
      Response.controls (header_fields h₂) (bytes "must-revalidate") :=
    line₁.controls_same line₂ (by decide) (by decide +kernel)
  have cached : Response.controls (header_fields h₁) (bytes "no-cache") =
      Response.controls (header_fields h₂) (bytes "no-cache") :=
    line₁.controls_same line₂ (by decide) (by decide +kernel)
  have dates := times (bytes "Date") (by decide) (by decide +kernel)
  have expires := times (bytes "Expires") (by decide) (by decide +kernel)
  simp only [put₁.served_iff, put₂.served_iff, ← validation, ← cached, ← calendar, ← time]
  by_cases counts : LastAge above below name front
  · have lifetime₁ : Response.lifetime (header_fields h₁) = some n₁ := by
      rw [lifetime_unshared unshared₁, line₁.age_counted counts]
      exact if_pos (show n₁ > 0 from Int64.lt_iff_toInt_lt.mpr filled)
    have lifetime₂ : Response.lifetime (header_fields h₂) = some n₂ := by
      rw [lifetime_unshared unshared₂, line₂.age_counted counts]
      exact if_pos (show n₂ > 0 from Int64.lt_iff_toInt_lt.mpr (Int.lt_of_lt_of_le filled longer))
    simp only [Response.fresh, Response.expiry, lifetime₁, lifetime₂, ← dates, date]
    rw [served_longer_iff longer]
    constructor
    · rintro (old | named | named | past | order)
      · exact .stale old
      · exact .must_revalidate named
      · exact .no_cache named
      · exact .ended past
      · exact .longer order
    · intro outlives
      cases outlives with
      | uncounted other => exact absurd counts other
      | stale old => exact .inl old
      | no_cache named => exact .inr (.inr (.inl named))
      | must_revalidate named => exact .inr (.inl named)
      | ended past => exact .inr (.inr (.inr (.inl past)))
      | longer order => exact .inr (.inr (.inr (.inr order)))
  · have ages := line₁.age_same line₂ counts
    have lifetimes : Response.lifetime (header_fields h₁) = Response.lifetime (header_fields h₂) := by
      rw [lifetime_unshared unshared₁, lifetime_unshared unshared₂, ages]
    simp only [Response.fresh, Response.expiry, ← lifetimes, ← dates, ← expires]
    exact iff_of_true (fun _ _ _ served => served) (.uncounted counts)

/-! The page of five seconds and one whose lifetime ends beyond the clock. -/

def longAge : Segment :=
  ⟨bytes "HTTP/1.1 200 OK\r\nDate: Thu, 01 Jan 1970 00:00:01 GMT\r\nCache-Control: max-age=9223372036\r\n\r\n",
    by decide +kernel, by decide +kernel⟩

theorem longAge_keepable : Keepable longAge := by
  rw [keepable_iff]
  decide +kernel

theorem fiveSeconds_line :
    AgeLine fiveSeconds.data zeroAge_above [] Response.CacheControl [32] [] 5 where
  named := by decide
  line := ⟨bytes "5", by decide +kernel, by decide, by decide +kernel, by decide⟩
  first := by decide +kernel
  ended := by simp

theorem longAge_line : AgeLine longAge.data zeroAge_above [] Response.CacheControl [32] [] 9223372036 where
  named := by decide
  line := ⟨bytes "9223372036", by decide +kernel, by decide, by decide +kernel, by decide +kernel⟩
  first := by decide +kernel
  ended := by simp

theorem longAge_fields : header_fields longAge.data =
    [(bytes "Date", epoch_second ++ [13]), (Response.CacheControl, bytes "max-age=9223372036")] := by
  decide +kernel

theorem fiveSeconds_unshared :
    ∀ value ∈ Response.values Response.CacheControl (header_fields fiveSeconds.data),
      contains value (bytes "s-maxage=") = false := by
  rw [fiveSeconds_fields]
  decide

theorem longAge_unshared :
    ∀ value ∈ Response.values Response.CacheControl (header_fields longAge.data),
      contains value (bytes "s-maxage=") = false := by
  rw [longAge_fields]
  decide +kernel

theorem longer_max_age_iff_beyond : ∃ entry₁ entry₂ : CacheEntry,
    (∀ t : Int, (1 : Int64).toInt * second ≤ t → t < 2 ^ 63 → Served entry₁ t → Served entry₂ t) ↔
      Outlives 1 1 (header_fields fiveSeconds.data)
        (LastAge zeroAge_above [] Response.CacheControl [32]) 5 9223372036 := by
  obtain ⟨iteration⟩ := nonempty_iteration
  obtain ⟨entry₁, put₁⟩ := fiveSeconds_keepable.put iteration
  obtain ⟨entry₂, put₂⟩ := longAge_keepable.put iteration
  exact ⟨entry₁, entry₂, longer_max_age_iff (epochEnvironment iteration) (epochEnvironment iteration)
    plain plain _ _ entry₁ entry₂ fiveSeconds.data longAge.data _ _ zeroAge_above []
    Response.CacheControl [32] [] 5 9223372036 1 rfl rfl put₁ put₂ fiveSeconds_keepable.read
    longAge_keepable.read fiveSeconds_line longAge_line fiveSeconds_unshared longAge_unshared
    (fiveSeconds_date iteration) (by decide) (by decide)⟩

/-- A lifetime of 9223372036 seconds is over at once where five seconds are not. -/
theorem longer_not_always_longer : ¬ ∀ (env : Environment) (request : Request) (k₁ k₂ : Kernel)
    (entry₁ entry₂ : CacheEntry) (h₁ h₂ : Bytes) (left₁ left₂ : List RecvOutcome)
    (above below : List Bytes) (name front back : Bytes) (n₁ n₂ d : Int64),
    (request.url, entry₁) ∈ ((forwardRequest env request).after (World.start k₁)).puts →
    (request.url, entry₂) ∈ ((forwardRequest env request).after (World.start k₂)).puts →
    HeaderRead [] k₁.server_recvs h₁ left₁ → HeaderRead [] k₂.server_recvs h₂ left₂ →
    AgeLine h₁ above below name front back n₁ → AgeLine h₂ above below name front back n₂ →
    (∀ value ∈ Response.values Response.CacheControl (header_fields h₁),
      contains value (bytes "s-maxage=") = false) →
    (∀ value ∈ Response.values Response.CacheControl (header_fields h₂),
      contains value (bytes "s-maxage=") = false) →
    Response.time_of env.calendar (bytes "Date") (header_fields h₁) = d → 0 < d.toInt →
    0 < n₁.toInt → n₁.toInt ≤ n₂.toInt →
    ∀ t : Int, env.time_now.toInt * second ≤ t → t < 2 ^ 63 → Served entry₁ t → Served entry₂ t := by
  intro all
  obtain ⟨iteration⟩ := nonempty_iteration
  obtain ⟨entry₁, put₁⟩ := fiveSeconds_keepable.put iteration
  obtain ⟨entry₂, put₂⟩ := longAge_keepable.put iteration
  have read₁ := fiveSeconds_keepable.read
  have read₂ := longAge_keepable.read
  have always := all (epochEnvironment iteration) plain _ _ entry₁ entry₂ _ _ _ _ _ _ _ _ _ _ _ 1
    put₁ put₂ read₁ read₂ fiveSeconds_line longAge_line fiveSeconds_unshared longAge_unshared
    (fiveSeconds_date iteration)
    (by decide) (by decide) (by decide) 1000000000
    (by change (1 : Int64).toInt * second ≤ _; decide) (by decide)
  obtain ⟨-, f₁, segments₁, response₁, put₁⟩ := put_of_read put₁ read₁
  obtain ⟨-, f₂, segments₂, response₂, put₂⟩ := put_of_read put₂ read₂
  rw [put₁.served_iff, put₂.served_iff] at always
  have served : Response.fresh epochCalendar 1 (header_fields fiveSeconds.data) = true ∧
      Response.controls (header_fields fiveSeconds.data) (bytes "must-revalidate") = false ∧
      Response.controls (header_fields fiveSeconds.data) (bytes "no-cache") = false ∧
      (from_time_t (Response.expiry epochCalendar (header_fields fiveSeconds.data)) = 0 ∨
        1000000000 ≤ from_time_t (Response.expiry epochCalendar (header_fields fiveSeconds.data))) := by
    rw [fiveSeconds_fields]
    decide +kernel
  have late : ¬ (from_time_t (Response.expiry epochCalendar (header_fields longAge.data)) = 0 ∨
      1000000000 ≤ from_time_t (Response.expiry epochCalendar (header_fields longAge.data))) := by
    rw [longAge_fields]
    decide +kernel
  exact late (always served).2.2.2

end CachingProxy
