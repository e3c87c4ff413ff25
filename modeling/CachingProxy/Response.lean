import CachingProxy.Cpp.Number
import Mathlib.Data.Finmap
import Mathlib.Tactic.SplitIfs

/-! Response::parse: the header lines, the directives of Cache-Control, dates and freshness.
strptime and timegm are the C library's, so a Calendar stands for them. -/
namespace CachingProxy
open Cpp

structure Tm where
  tm_sec : Int32 := 0
  tm_min : Int32 := 0
  tm_hour : Int32 := 0
  tm_mday : Int32 := 0
  tm_mon : Int32 := 0
  tm_year : Int32 := 0
  tm_wday : Int32 := 0
  tm_yday : Int32 := 0
  tm_isdst : Int32 := 0

/-- strptime leaves in the broken-down time what it has read when it gives up. -/
structure Calendar where
  strptime : Bytes → Bytes → Tm → Tm
  timegm : Tm → Int64

def Calendar.parse_time (calendar : Calendar) (time_str : Bytes) : Int64 :=
  calendar.timegm (calendar.strptime (c_str time_str) (bytes "%a, %d %b %Y %H:%M:%S %Z") {})

structure Response where
  version_ : Bytes := []
  status_code_ : Bytes := []
  status_phrase_ : Bytes := []
  body_ : Bytes := []
  raw_response_ : Bytes := []
  headers_map : Finmap (fun _ : Bytes => Bytes) := ∅
  etag_ : Bytes := []
  cache_control_ : Bytes := []
  content_type_ : Bytes := []
  content_length_ : Int32 := -1
  max_age_ : Int64 := -1
  s_max_age_ : Int64 := -1
  is_private_ : Bool := false
  is_revalidate_ : Bool := false
  is_no_cache_ : Bool := false
  is_no_store_ : Bool := false
  is_chunked_ : Bool := false
  is_fresh_ : Bool := true
  need_validate_ : Bool := true
  date_ : Int64 := 0
  expire_time_ : Int64 := 0
  current_age_ : Int64 := 0
  last_modified_ : Int64 := 0

def InvalidResponse : Exception := .other "Invalid response"

namespace Response

/-- The number after the first occurrence of `directive`, or `old` when there is none. -/
def scan_age (directive value : Bytes) (old : Int64) : Except Exception Int64 :=
  match find directive value with
  | none => .ok old
  | some pos => do stol (← substrFrom value (pos + directive.length))

def process_cache_control (r : Response) (cache_control_str : Bytes) :
    Except Exception Response := do
  let r := { r with
    is_private_ := contains cache_control_str (bytes "private")
    is_no_store_ := contains cache_control_str (bytes "no-store")
    is_no_cache_ := contains cache_control_str (bytes "no-cache")
    is_revalidate_ := contains cache_control_str (bytes "must-revalidate") }
  let s_max_age_ ← scan_age (bytes "s-maxage=") cache_control_str r.s_max_age_
  let max_age_ ← scan_age (bytes "max-age=") cache_control_str r.max_age_
  return { r with s_max_age_, max_age_ }

/-- key and value of a header line, split at its first ": " -/
def field (header_line : Bytes) : Option (Bytes × Bytes) :=
  (find (bytes ": ") header_line).map
    (fun colon_pos => (header_line.take colon_pos, header_line.drop (colon_pos + 2)))

def set_header (calendar : Calendar) (r : Response) (key value : Bytes) :
    Except Exception Response :=
  let r := { r with headers_map := r.headers_map.insert key value }
  if key = bytes "Content-Type" then .ok { r with content_type_ := value }
  else if key = bytes "Content-Length" then do
    let n ← stoi value
    return { r with content_length_ := n }
  else if key = bytes "ETag" then .ok { r with etag_ := value }
  else if key = bytes "Cache-Control" then
    process_cache_control { r with cache_control_ := value } value
  else if key = bytes "Transfer-Encoding" ∧ value = bytes "chunked" then
    .ok { r with is_chunked_ := true }
  else if key = bytes "Date" then .ok { r with date_ := calendar.parse_time value }
  else if key = bytes "Last-Modified" then
    .ok { r with last_modified_ := calendar.parse_time value, need_validate_ := true }
  else if key = bytes "Expires" then .ok { r with expire_time_ := calendar.parse_time value }
  else .ok r

def parse_line (calendar : Calendar) (r : Response) (header_line : Bytes) :
    Except Exception Response :=
  match field header_line with
  | none => .ok r
  | some (key, value) => set_header calendar r key value

/-- status_stream >> version_ >> status_code_ >> std::ws, and getline for the rest -/
def parse_status (r : Response) (status_line : Bytes) : Response :=
  let version := status_line.dropWhile isspace
  let code := (version.dropWhile (fun c => !isspace c)).dropWhile isspace
  { r with
    version_ := version.takeWhile (fun c => !isspace c)
    status_code_ := code.takeWhile (fun c => !isspace c)
    status_phrase_ := (code.dropWhile (fun c => !isspace c)).dropWhile isspace }

/-- The lines the header loop sees: all after the status line up to the first empty one. -/
def header_lines (headers_str : Bytes) : List Bytes :=
  (getlines headers_str).tail.takeWhile (fun l => l != [])

/-- `now` is what time(NULL) returns. -/
def manage_cache_time (now : Int64) (r : Response) : Response :=
  let age := difftime now r.date_
  let r :=
    if r.s_max_age_ > 0 then
      { r with expire_time_ := r.date_ + r.s_max_age_, is_fresh_ := exceeds r.s_max_age_ age }
    else if r.max_age_ > 0 then
      { r with expire_time_ := r.date_ + r.max_age_, is_fresh_ := exceeds r.max_age_ age }
    else if r.expire_time_ > 0 then { r with is_fresh_ := decide (r.expire_time_ > now) }
    else { r with is_fresh_ := true }
  { r with current_age_ := now - r.date_ }

def get_header (r : Response) (key : Bytes) : Bytes := (r.headers_map.lookup key).getD []

def validate_freshness (r : Response) : Response :=
  let r := { r with need_validate_ := !r.is_fresh_ }
  match r.headers_map.lookup (bytes "Cache-Control") with
  | some cache_control =>
    if !r.need_validate_ && (contains cache_control (bytes "must-revalidate") ||
        contains cache_control (bytes "no-cache")) then { r with need_validate_ := true }
    else r
  | none => r

def parse (calendar : Calendar) (now : Int64) (raw : Bytes) : Except Exception Response := do
  match find CRLFCRLF raw with
  | none => .error InvalidResponse
  | some body_pos =>
    let headers_str := raw.take body_pos
    let start : Response := { body_ := raw.drop (body_pos + 4), raw_response_ := raw }
    let r := start.parse_status ((getlines headers_str).headD [])
    let r ← (header_lines headers_str).foldlM (parse_line calendar) r
    return (r.manage_cache_time now).validate_freshness

/-! ## The header loop

What the loop leaves in a member depends on the lines of one header name only. -/

/-- The header fields of a header block, in order. -/
def fields (headers_str : Bytes) : List (Bytes × Bytes) := (header_lines headers_str).filterMap field

def values (key : Bytes) (fs : List (Bytes × Bytes)) : List Bytes :=
  (fs.filter (fun f => f.1 = key)).map Prod.snd

/-- A line with a space after its name's colon is a field. -/
theorem field_line {name : Bytes} (clean : (58 : UInt8) ∉ name) (value : Bytes) :
    field (name ++ 58 :: 32 :: value) = some (name, value) := by
  have start : bytes ": " <+: 58 :: 32 :: value := ⟨value, rfl⟩
  have first : find (bytes ": ") (name ++ 58 :: 32 :: value) = some name.length := by
    apply (find_eq_some_iff _ _ _).mpr
    refine ⟨by simp, by rwa [List.drop_left], ?_⟩
    intro j inside here
    have colon : (name ++ 58 :: 32 :: value)[j]? = some 58 := by
      obtain ⟨t, ht⟩ := here
      have head := congrArg (fun l => l[0]?) ht
      simpa [bytes] using head.symm
    rw [List.getElem?_append_left inside] at colon
    exact clean (List.mem_of_getElem? colon)
  simp only [field, first, Option.map_some, List.take_left]
  rw [← List.drop_drop, List.drop_left]
  rfl

theorem line_of_field {l name value : Bytes} (h : field l = some (name, value)) :
    l = name ++ 58 :: 32 :: value := by
  simp only [field, Option.map_eq_some_iff, Prod.mk.injEq] at h
  obtain ⟨i, hi, rfl, rfl⟩ := h
  have split := find_split hi
  rw [List.append_assoc] at split
  exact split

theorem field_named {l : Bytes} {f : Bytes × Bytes} (h : field l = some f) : f.1 ++ [58] <+: l := by
  rw [line_of_field h]
  exact ⟨32 :: f.2, by simp⟩

theorem field_of_line {name rest key value : Bytes} (clean : (58 : UInt8) ∉ name)
    (colonless : (58 : UInt8) ∉ key) (h : field (name ++ 58 :: rest) = some (key, value)) :
    name = key ∧ rest = 32 :: value := byte_split clean colonless (line_of_field h)

theorem foldlM_parse_line (calendar : Calendar) (lines : List Bytes) (r : Response) :
    lines.foldlM (parse_line calendar) r =
      (lines.filterMap field).foldlM (fun r f => set_header calendar r f.1 f.2) r := by
  induction lines generalizing r with
  | nil => rfl
  | cons l lines ih =>
    cases h : field l with
    | none =>
      simp only [List.foldlM_cons, parse_line, h, List.filterMap_cons_none h]
      exact ih r
    | some f =>
      simp only [List.foldlM_cons, parse_line, h, List.filterMap_cons_some h]
      cases set_header calendar r f.1 f.2 with
      | error e => rfl
      | ok r => exact ih r

/-- A member that one header name writes, as a fold over the values of that name. -/
theorem member_of_values {β : Type} (calendar : Calendar) (member : Response → β) (name : Bytes)
    (write : β → Bytes → β)
    (other : ∀ r key value r', key ≠ name → set_header calendar r key value = .ok r' →
      member r' = member r)
    (own : ∀ r value r', set_header calendar r name value = .ok r' →
      member r' = write (member r) value)
    (fs : List (Bytes × Bytes)) (r r' : Response)
    (h : fs.foldlM (fun r f => set_header calendar r f.1 f.2) r = .ok r') :
    member r' = (values name fs).foldl write (member r) := by
  induction fs generalizing r with
  | nil =>
    cases h
    rfl
  | cons f fs ih =>
    rw [List.foldlM_cons] at h
    cases hs : set_header calendar r f.1 f.2 with
    | error e =>
      rw [hs] at h
      cases h
    | ok r₁ =>
      rw [hs] at h
      rw [ih r₁ h]
      by_cases e : f.1 = name
      · simp only [values, e, decide_true, List.filter_cons_of_pos, List.map_cons,
          List.foldl_cons]
        rw [own r f.2 r₁ (e ▸ hs)]
      · rw [other r f.1 f.2 r₁ e hs]
        simp [values, e]

/-- The members that decide about caching, after one header field. -/
structure Written (calendar : Calendar) (r : Response) (key value : Bytes) (r' : Response) : Prop where
  headers_map : r'.headers_map = r.headers_map.insert key value
  etag : r'.etag_ = if key = bytes "ETag" then value else r.etag_
  date : r'.date_ = if key = bytes "Date" then calendar.parse_time value else r.date_
  expires : r'.expire_time_ =
    if key = bytes "Expires" then calendar.parse_time value else r.expire_time_
  no_store : r'.is_no_store_ =
    if key = bytes "Cache-Control" then contains value (bytes "no-store") else r.is_no_store_
  s_max_age : if key = bytes "Cache-Control" then
      scan_age (bytes "s-maxage=") value r.s_max_age_ = .ok r'.s_max_age_
    else r'.s_max_age_ = r.s_max_age_
  max_age : if key = bytes "Cache-Control" then
      scan_age (bytes "max-age=") value r.max_age_ = .ok r'.max_age_
    else r'.max_age_ = r.max_age_

theorem process_cache_control_ok {r r' : Response} {value : Bytes}
    (h : process_cache_control r value = .ok r') :
    ∃ s m, scan_age (bytes "s-maxage=") value r.s_max_age_ = .ok s ∧
      scan_age (bytes "max-age=") value r.max_age_ = .ok m ∧
      r' = { r with
        is_private_ := contains value (bytes "private")
        is_no_store_ := contains value (bytes "no-store")
        is_no_cache_ := contains value (bytes "no-cache")
        is_revalidate_ := contains value (bytes "must-revalidate")
        s_max_age_ := s
        max_age_ := m } := by
  unfold process_cache_control at h
  dsimp only at h
  cases hs : scan_age (bytes "s-maxage=") value r.s_max_age_ with
  | error e =>
    rw [hs] at h
    cases h
  | ok s =>
    cases hm : scan_age (bytes "max-age=") value r.max_age_ with
    | error e =>
      rw [hs, hm] at h
      cases h
    | ok m =>
      rw [hs, hm] at h
      cases h
      exact ⟨s, m, rfl, rfl, rfl⟩

/-- A field of another name leaves these members alone. -/
theorem Written.of_unnamed {calendar : Calendar} {r r' : Response} {key value : Bytes}
    (unnamed : key ∉ [bytes "ETag", bytes "Date", bytes "Expires", bytes "Cache-Control"])
    (map : r'.headers_map = r.headers_map.insert key value)
    (kept : r'.etag_ = r.etag_ ∧ r'.date_ = r.date_ ∧ r'.expire_time_ = r.expire_time_ ∧
      r'.is_no_store_ = r.is_no_store_ ∧ r'.s_max_age_ = r.s_max_age_ ∧ r'.max_age_ = r.max_age_) :
    Written calendar r key value r' := by
  simp only [List.mem_cons, List.not_mem_nil, or_false, not_or] at unnamed
  obtain ⟨no_etag, no_date, no_expires, uncontrolled⟩ := unnamed
  obtain ⟨etag, date, expires, no_store, s_max_age, max_age⟩ := kept
  constructor
  · exact map
  · rw [etag, if_neg no_etag]
  · rw [date, if_neg no_date]
  · rw [expires, if_neg no_expires]
  · rw [no_store, if_neg uncontrolled]
  · rw [if_neg uncontrolled, s_max_age]
  · rw [if_neg uncontrolled, max_age]

/-- Content-Length and Cache-Control are read as numbers. A field of another name cannot fail. -/
theorem set_header_cases (calendar : Calendar) (r : Response) (key value : Bytes) :
    let r₀ := { r with headers_map := r.headers_map.insert key value }
    (key = bytes "Content-Length" ∧ set_header calendar r key value =
        (stoi value).bind (fun n => .ok { r₀ with content_length_ := n })) ∨
      (key = bytes "Cache-Control" ∧ set_header calendar r key value =
        process_cache_control { r₀ with cache_control_ := value } value) ∨
      (key ≠ bytes "Content-Length" ∧ key ≠ bytes "Cache-Control" ∧
        ∃ r', set_header calendar r key value = .ok r' ∧ Written calendar r key value r') := by
  intro r₀
  unfold set_header
  by_cases h₁ : key = bytes "Content-Type"
  · subst h₁
    rw [if_pos rfl]
    refine Or.inr (Or.inr ⟨by decide, by decide, _, rfl, ?_⟩)
    exact .of_unnamed (by decide) rfl ⟨rfl, rfl, rfl, rfl, rfl, rfl⟩
  rw [if_neg h₁]
  by_cases h₂ : key = bytes "Content-Length"
  · rw [if_pos h₂]
    exact Or.inl ⟨h₂, rfl⟩
  rw [if_neg h₂]
  by_cases h₃ : key = bytes "ETag"
  · subst h₃
    rw [if_pos rfl]
    refine Or.inr (Or.inr ⟨by decide, by decide, _, rfl, ?_⟩)
    constructor
    · rfl
    · exact (if_pos rfl).symm
    · rw [if_neg (by decide)]
    · rw [if_neg (by decide)]
    · rw [if_neg (by decide)]
    · rw [if_neg (by decide)]
    · rw [if_neg (by decide)]
  rw [if_neg h₃]
  by_cases h₄ : key = bytes "Cache-Control"
  · rw [if_pos h₄]
    exact Or.inr (Or.inl ⟨h₄, rfl⟩)
  rw [if_neg h₄]
  refine Or.inr (Or.inr ⟨h₂, h₄, ?_⟩)
  by_cases h₅ : key = bytes "Transfer-Encoding" ∧ value = bytes "chunked"
  · obtain ⟨rfl, rfl⟩ := h₅
    rw [if_pos ⟨rfl, rfl⟩]
    exact ⟨_, rfl, .of_unnamed (by decide) rfl ⟨rfl, rfl, rfl, rfl, rfl, rfl⟩⟩
  rw [if_neg h₅]
  by_cases h₆ : key = bytes "Date"
  · subst h₆
    rw [if_pos rfl]
    refine ⟨_, rfl, ?_⟩
    constructor
    · rfl
    · rw [if_neg (by decide)]
    · exact (if_pos rfl).symm
    · rw [if_neg (by decide)]
    · rw [if_neg (by decide)]
    · rw [if_neg (by decide)]
    · rw [if_neg (by decide)]
  rw [if_neg h₆]
  by_cases h₇ : key = bytes "Last-Modified"
  · subst h₇
    rw [if_pos rfl]
    exact ⟨_, rfl, .of_unnamed (by decide) rfl ⟨rfl, rfl, rfl, rfl, rfl, rfl⟩⟩
  rw [if_neg h₇]
  by_cases h₈ : key = bytes "Expires"
  · subst h₈
    rw [if_pos rfl]
    refine ⟨_, rfl, ?_⟩
    constructor
    · rfl
    · rw [if_neg (by decide)]
    · rw [if_neg (by decide)]
    · exact (if_pos rfl).symm
    · rw [if_neg (by decide)]
    · rw [if_neg (by decide)]
    · rw [if_neg (by decide)]
  rw [if_neg h₈]
  exact ⟨_, rfl, .of_unnamed (by simp [h₃, h₄, h₆, h₈]) rfl ⟨rfl, rfl, rfl, rfl, rfl, rfl⟩⟩

theorem set_header_written {calendar : Calendar} {r r' : Response} {key value : Bytes}
    (h : set_header calendar r key value = .ok r') : Written calendar r key value r' := by
  rcases set_header_cases calendar r key value with ⟨rfl, same⟩ | ⟨rfl, same⟩ | ⟨-, -, _, same, written⟩
  · rw [same] at h
    cases hn : stoi value with
    | error e =>
      rw [hn] at h
      cases h
    | ok n =>
      rw [hn] at h
      cases h
      exact .of_unnamed (by decide) rfl ⟨rfl, rfl, rfl, rfl, rfl, rfl⟩
  · obtain ⟨s, m, hs, hm, rfl⟩ := process_cache_control_ok (same.symm.trans h)
    constructor
    · rfl
    · rw [if_neg (by decide)]
    · rw [if_neg (by decide)]
    · rw [if_neg (by decide)]
    · exact (if_pos rfl).symm
    · rw [if_pos rfl, hs]
    · rw [if_pos rfl, hm]
  · cases same.symm.trans h
    exact written

/-! ## What a parsed response says

Each member is a function of the header fields alone. -/

def CacheControl : Bytes := bytes "Cache-Control"

def last_value (key : Bytes) (fs : List (Bytes × Bytes)) : Option Bytes := (values key fs).getLast?

/-- scan_age where it does not throw. -/
def scanned (directive : Bytes) (old : Int64) (value : Bytes) : Int64 :=
  match scan_age directive value old with
  | .ok n => n
  | .error _ => old

/-- The age the directive gives over all lines of Cache-Control, -1 when it is absent. -/
def age_of (directive : Bytes) (fs : List (Bytes × Bytes)) : Int64 :=
  (values CacheControl fs).foldl (scanned directive) (-1)

def time_of (calendar : Calendar) (key : Bytes) (fs : List (Bytes × Bytes)) : Int64 :=
  ((last_value key fs).map calendar.parse_time).getD 0

/-- The last Cache-Control line, where there is one, holds `directive`. -/
def controls (fs : List (Bytes × Bytes)) (directive : Bytes) : Bool :=
  (last_value CacheControl fs).any (fun value => contains value directive)

structure Parsed (calendar : Calendar) (fs : List (Bytes × Bytes)) (r : Response) : Prop where
  headers : ∀ key, r.headers_map.lookup key = last_value key fs
  etag : r.etag_ = (last_value (bytes "ETag") fs).getD []
  date : r.date_ = time_of calendar (bytes "Date") fs
  expires : r.expire_time_ = time_of calendar (bytes "Expires") fs
  no_store : r.is_no_store_ = controls fs (bytes "no-store")
  s_max_age : r.s_max_age_ = age_of (bytes "s-maxage=") fs
  max_age : r.max_age_ = age_of (bytes "max-age=") fs

theorem foldl_last {α β : Type} (g : α → β) (l : List α) (init : β) :
    l.foldl (fun _ a => g a) init = (l.getLast?.map g).getD init := by
  induction l generalizing init with
  | nil => rfl
  | cons a l ih =>
    rw [List.foldl_cons, ih]
    cases l with
    | nil => rfl
    | cons b l => simp [List.getLast?_cons]

/-- The members after the header loop. -/
theorem parsed_of_foldlM {calendar : Calendar} {fs : List (Bytes × Bytes)} {r r' : Response}
    (start : r.headers_map = ∅ ∧ r.etag_ = [] ∧ r.date_ = 0 ∧ r.expire_time_ = 0 ∧
      r.is_no_store_ = false ∧ r.s_max_age_ = -1 ∧ r.max_age_ = -1)
    (h : fs.foldlM (fun r f => set_header calendar r f.1 f.2) r = .ok r') :
    Parsed calendar fs r' := by
  obtain ⟨s₁, s₂, s₃, s₄, s₅, s₆, s₇⟩ := start
  constructor
  · intro key
    have := member_of_values calendar (fun r => r.headers_map.lookup key) key (fun _ v => some v)
      (fun r k v r' ne h => by
        rw [(set_header_written h).headers_map]
        exact Finmap.lookup_insert_of_ne _ (Ne.symm ne))
      (fun r v r' h => by
        rw [(set_header_written h).headers_map]
        exact Finmap.lookup_insert _) fs r r' h
    simp only [this, s₁, Finmap.lookup_empty, foldl_last]
    rw [last_value]
    cases (values key fs).getLast? <;> rfl
  · have := member_of_values calendar etag_ (bytes "ETag") (fun _ v => v)
      (fun r k v r' ne h => by simp only [(set_header_written h).etag, ne, if_false])
      (fun r v r' h => by simp only [(set_header_written h).etag, if_true]) fs r r' h
    rw [this, s₂, foldl_last (fun v => v)]
    simp [last_value]
  · have := member_of_values calendar date_ (bytes "Date") (fun _ v => calendar.parse_time v)
      (fun r k v r' ne h => by simp only [(set_header_written h).date, ne, if_false])
      (fun r v r' h => by simp only [(set_header_written h).date, if_true]) fs r r' h
    rw [this, s₃, foldl_last]
    rfl
  · have := member_of_values calendar expire_time_ (bytes "Expires")
      (fun _ v => calendar.parse_time v)
      (fun r k v r' ne h => by simp only [(set_header_written h).expires, ne, if_false])
      (fun r v r' h => by simp only [(set_header_written h).expires, if_true]) fs r r' h
    rw [this, s₄, foldl_last]
    rfl
  · have := member_of_values calendar is_no_store_ (bytes "Cache-Control")
      (fun _ v => contains v (bytes "no-store"))
      (fun r k v r' ne h => by simp only [(set_header_written h).no_store, ne, if_false])
      (fun r v r' h => by simp only [(set_header_written h).no_store, if_true]) fs r r' h
    rw [this, s₅, foldl_last]
    rw [controls, last_value, CacheControl]
    cases (values (bytes "Cache-Control") fs).getLast? <;> rfl
  · have := member_of_values calendar s_max_age_ (bytes "Cache-Control")
      (scanned (bytes "s-maxage="))
      (fun r k v r' ne h => by simpa only [ne, if_false] using (set_header_written h).s_max_age)
      (fun r v r' h => by
        have scan := (set_header_written h).s_max_age
        simp only [if_true] at scan
        simp only [scanned, scan]) fs r r' h
    rw [this, s₆]
    rfl
  · have := member_of_values calendar max_age_ (bytes "Cache-Control")
      (scanned (bytes "max-age="))
      (fun r k v r' ne h => by simpa only [ne, if_false] using (set_header_written h).max_age)
      (fun r v r' h => by
        have scan := (set_header_written h).max_age
        simp only [if_true] at scan
        simp only [scanned, scan]) fs r r' h
    rw [this, s₇]
    rfl

/-- A Response that was constructed comes from a whole header block. -/
theorem parse_ok {calendar : Calendar} {now : Int64} {raw : Bytes} {r : Response}
    (h : parse calendar now raw = .ok r) : ∃ body_pos r₀, find CRLFCRLF raw = some body_pos ∧
      Parsed calendar (fields (raw.take body_pos)) r₀ ∧
      r = (r₀.manage_cache_time now).validate_freshness := by
  unfold parse at h
  split at h
  · cases h
  · rename_i body_pos hpos
    dsimp only at h
    rw [foldlM_parse_line] at h
    cases hf : List.foldlM (fun r f => set_header calendar r f.1 f.2)
        (parse_status { body_ := raw.drop (body_pos + 4), raw_response_ := raw }
          ((getlines (raw.take body_pos)).headD []))
        ((header_lines (raw.take body_pos)).filterMap field) with
    | error e =>
      rw [hf] at h
      cases h
    | ok r₀ =>
      rw [hf] at h
      cases h
      exact ⟨body_pos, r₀, hpos, parsed_of_foldlM ⟨rfl, rfl, rfl, rfl, rfl, rfl, rfl⟩ hf, rfl⟩

/-- The age that counts: s-maxage when it is positive, else max-age when that is. -/
def lifetime (fs : List (Bytes × Bytes)) : Option Int64 :=
  if age_of (bytes "s-maxage=") fs > 0 then some (age_of (bytes "s-maxage=") fs)
  else if age_of (bytes "max-age=") fs > 0 then some (age_of (bytes "max-age=") fs)
  else none

def expiry (calendar : Calendar) (fs : List (Bytes × Bytes)) : Int64 :=
  match lifetime fs with
  | some n => time_of calendar (bytes "Date") fs + n
  | none => time_of calendar (bytes "Expires") fs

def fresh (calendar : Calendar) (now : Int64) (fs : List (Bytes × Bytes)) : Bool :=
  match lifetime fs with
  | some n => exceeds n (difftime now (time_of calendar (bytes "Date") fs))
  | none =>
    let expires := time_of calendar (bytes "Expires") fs
    !decide (expires > 0) || decide (expires > now)

/-- What forwardRequest reads off a response with the header fields `fs`, parsed at `now`. -/
structure Judged (calendar : Calendar) (now : Int64) (fs : List (Bytes × Bytes)) (r : Response) :
    Prop where
  headers : ∀ key, r.get_header key = (last_value key fs).getD []
  etag : r.etag_ = (last_value (bytes "ETag") fs).getD []
  no_store : r.is_no_store_ = controls fs (bytes "no-store")
  expire_time : r.expire_time_ = expiry calendar fs
  need_validate : r.need_validate_ = (!fresh calendar now fs ||
    controls fs (bytes "must-revalidate") || controls fs (bytes "no-cache"))

theorem validate_freshness_members (r : Response) :
    r.validate_freshness.headers_map = r.headers_map ∧ r.validate_freshness.etag_ = r.etag_ ∧
      r.validate_freshness.is_no_store_ = r.is_no_store_ ∧
      r.validate_freshness.expire_time_ = r.expire_time_ := by
  unfold validate_freshness
  dsimp only
  split
  · split <;> exact ⟨rfl, rfl, rfl, rfl⟩
  · exact ⟨rfl, rfl, rfl, rfl⟩

theorem validate_freshness_need (r : Response) :
    r.validate_freshness.need_validate_ = (!r.is_fresh_ ||
      (r.headers_map.lookup CacheControl).any (fun v =>
        contains v (bytes "must-revalidate") || contains v (bytes "no-cache"))) := by
  unfold validate_freshness CacheControl
  dsimp only
  generalize r.headers_map.lookup (bytes "Cache-Control") = last
  cases last with
  | none => simp
  | some v =>
    simp only [Option.any_some]
    generalize contains v (bytes "must-revalidate") = revalidate
    generalize contains v (bytes "no-cache") = no_cache
    cases r.is_fresh_ <;> cases revalidate <;> cases no_cache <;> rfl

theorem manage_cache_time_members (now : Int64) (r : Response) :
    (r.manage_cache_time now).headers_map = r.headers_map ∧
      (r.manage_cache_time now).etag_ = r.etag_ ∧
      (r.manage_cache_time now).is_no_store_ = r.is_no_store_ := by
  unfold manage_cache_time
  dsimp only
  split_ifs <;> exact ⟨rfl, rfl, rfl⟩

theorem manage_cache_time_expiry {calendar : Calendar} {fs : List (Bytes × Bytes)} {r : Response}
    (h : Parsed calendar fs r) (now : Int64) :
    (r.manage_cache_time now).expire_time_ = expiry calendar fs ∧
      (r.manage_cache_time now).is_fresh_ = fresh calendar now fs := by
  unfold manage_cache_time expiry fresh lifetime
  simp only [h.s_max_age, h.max_age, h.expires, h.date]
  split_ifs with hs hm he
  · exact ⟨rfl, rfl⟩
  · exact ⟨rfl, rfl⟩
  · exact ⟨rfl, by simp [he]⟩
  · exact ⟨rfl, by simp [he]⟩

/-- A Response that was constructed comes from a whole header block and says what its fields say. -/
theorem parse_judged {calendar : Calendar} {now : Int64} {raw : Bytes} {r : Response}
    (h : parse calendar now raw = .ok r) : ∃ body_pos, find CRLFCRLF raw = some body_pos ∧
      Judged calendar now (fields (raw.take body_pos)) r := by
  obtain ⟨body_pos, r₀, hpos, parsed, rfl⟩ := parse_ok h
  obtain ⟨map₁, etag₁, store₁, expire₁⟩ := validate_freshness_members (r₀.manage_cache_time now)
  obtain ⟨map₂, etag₂, store₂⟩ := manage_cache_time_members now r₀
  obtain ⟨expire₂, fresh₂⟩ := manage_cache_time_expiry parsed now
  refine ⟨body_pos, hpos, ?_, ?_, ?_, ?_, ?_⟩
  · intro key
    rw [get_header, map₁, map₂, parsed.headers]
  · rw [etag₁, etag₂, parsed.etag]
  · rw [store₁, store₂, parsed.no_store]
  · rw [expire₁, expire₂]
  · rw [validate_freshness_need, fresh₂, map₂, parsed.headers]
    unfold controls
    cases last_value CacheControl (fields (raw.take body_pos)) with
    | none => simp
    | some v => simp [Bool.or_assoc]

/-! ## When a Response is constructed -/

/-- The numbers that the constructor reads in a header field are numbers. -/
structure Converts (f : Bytes × Bytes) : Prop where
  length : f.1 = bytes "Content-Length" → ∃ n, stoi f.2 = .ok n
  ages : f.1 = CacheControl → ∀ directive ∈ [bytes "s-maxage=", bytes "max-age="],
    ∀ pos, find directive f.2 = some pos → ∃ n, stol (f.2.drop (pos + directive.length)) = .ok n

theorem scan_age_ok_iff (directive value : Bytes) (old : Int64) :
    (∃ n, scan_age directive value old = .ok n) ↔ ∀ pos, find directive value = some pos →
      ∃ n, stol (value.drop (pos + directive.length)) = .ok n := by
  unfold scan_age
  cases h : find directive value with
  | none => simp
  | some pos =>
    have inside : pos + directive.length ≤ value.length := find_le h
    have cut : (do stol (← substrFrom value (pos + directive.length)) : Except Exception Int64) =
        stol (value.drop (pos + directive.length)) := by
      rw [substrFrom_ok inside]
      rfl
    simp only [cut, Option.some.injEq]
    constructor
    · rintro read _ rfl
      exact read
    · intro read
      exact read pos rfl

theorem process_cache_control_ok_iff (r : Response) (value : Bytes) :
    (∃ r', process_cache_control r value = .ok r') ↔
      (∃ s, scan_age (bytes "s-maxage=") value r.s_max_age_ = .ok s) ∧
        ∃ m, scan_age (bytes "max-age=") value r.max_age_ = .ok m := by
  constructor
  · rintro ⟨r', h⟩
    obtain ⟨s, m, hs, hm, -⟩ := process_cache_control_ok h
    exact ⟨⟨s, hs⟩, m, hm⟩
  · rintro ⟨⟨s, hs⟩, m, hm⟩
    unfold process_cache_control
    dsimp only
    rw [hs, hm]
    exact ⟨_, rfl⟩

theorem set_header_ok_iff (calendar : Calendar) (r : Response) (f : Bytes × Bytes) :
    (∃ r', set_header calendar r f.1 f.2 = .ok r') ↔ Converts f := by
  rcases set_header_cases calendar r f.1 f.2 with ⟨own, same⟩ | ⟨own, same⟩ | ⟨ne, ne', r', same, -⟩
  · rw [same]
    constructor
    · rintro ⟨r', h⟩
      refine ⟨fun _ => ?_, fun e => absurd (own.symm.trans e) (by decide)⟩
      cases hn : stoi f.2 with
      | error e =>
        rw [hn] at h
        cases h
      | ok n => exact ⟨n, rfl⟩
    · intro h
      obtain ⟨n, hn⟩ := h.length own
      rw [hn]
      exact ⟨_, rfl⟩
  · rw [same, process_cache_control_ok_iff, scan_age_ok_iff, scan_age_ok_iff]
    constructor
    · rintro ⟨shared, own_age⟩
      refine ⟨fun e => absurd (own.symm.trans e) (by decide), fun _ directive mem => ?_⟩
      rcases List.mem_pair.mp mem with rfl | rfl
      · exact shared
      · exact own_age
    · intro h
      exact ⟨h.ages own _ List.mem_cons_self, h.ages own _ (List.mem_cons_of_mem _ List.mem_cons_self)⟩
  · exact iff_of_true ⟨r', same⟩ ⟨fun e => absurd e ne, fun e => absurd e ne'⟩

theorem set_headers_ok_iff (calendar : Calendar) (fs : List (Bytes × Bytes)) (r : Response) :
    (∃ r', fs.foldlM (fun r f => set_header calendar r f.1 f.2) r = .ok r') ↔
      ∀ f ∈ fs, Converts f := by
  induction fs generalizing r with
  | nil => exact iff_of_true ⟨r, rfl⟩ (by simp)
  | cons f fs ih =>
    rw [List.foldlM_cons, List.forall_mem_cons, ← set_header_ok_iff calendar r f]
    cases hf : set_header calendar r f.1 f.2 with
    | error e =>
      refine iff_of_false ?_ ?_
      · rintro ⟨r', h⟩
        cases h
      · rintro ⟨⟨r', h⟩, -⟩
        cases h
    | ok r₁ =>
      rw [← ih r₁]
      exact ⟨fun rest => ⟨⟨r₁, rfl⟩, rest⟩, And.right⟩

/-- A Response is constructed of a whole header block in which all numbers are numbers. -/
theorem parse_ok_iff (calendar : Calendar) (now : Int64) (raw : Bytes) :
    (∃ r, parse calendar now raw = .ok r) ↔
      ∃ body_pos, find CRLFCRLF raw = some body_pos ∧
        ∀ f ∈ fields (raw.take body_pos), Converts f := by
  unfold parse
  cases found : find CRLFCRLF raw with
  | none => simp
  | some body_pos =>
    simp only [Option.some.injEq, exists_eq_left', foldlM_parse_line]
    rw [← set_headers_ok_iff calendar (fields (raw.take body_pos))
      (parse_status { body_ := raw.drop (body_pos + 4), raw_response_ := raw }
        ((getlines (raw.take body_pos)).headD [])), fields]
    cases List.foldlM (fun r f => set_header calendar r f.1 f.2)
        (parse_status { body_ := raw.drop (body_pos + 4), raw_response_ := raw }
          ((getlines (raw.take body_pos)).headD []))
        ((header_lines (raw.take body_pos)).filterMap field) with
    | error e =>
      refine iff_of_false ?_ ?_
      · rintro ⟨r, h⟩
        cases h
      · rintro ⟨r, h⟩
        cases h
    | ok r => exact iff_of_true ⟨_, rfl⟩ ⟨r, rfl⟩

/-- A header line with a number in it that the constructor reads and that is none. -/
inductive Unreadable (line : Bytes) : Prop where
  | length {value : Bytes} (cut : CutAt (bytes ": ") line (bytes "Content-Length") value)
      (rejected : ∃ e, stoi value = .error e)
  | age {value directive front number : Bytes}
      (cut : CutAt (bytes ": ") line (bytes "Cache-Control") value)
      (known : directive ∈ [bytes "s-maxage=", bytes "max-age="])
      (found : CutAt directive value front number) (rejected : ∃ e, stol number = .error e)

theorem field_eq_some_iff (line key value : Bytes) :
    field line = some (key, value) ↔ CutAt (bytes ": ") line key value := by
  rw [cutAt_iff]
  simp only [field, Option.map_eq_some_iff, Prod.mk.injEq]
  constructor
  · rintro ⟨pos, found, rfl, rfl⟩
    exact ⟨pos, found, rfl, rfl⟩
  · rintro ⟨pos, found, rfl, rfl⟩
    exact ⟨pos, found, rfl, rfl⟩

theorem not_converts_iff (f : Bytes × Bytes) : ¬ Converts f ↔
    (f.1 = bytes "Content-Length" ∧ ∃ e, stoi f.2 = .error e) ∨
      f.1 = CacheControl ∧ ∃ directive ∈ [bytes "s-maxage=", bytes "max-age="],
        ∃ front number, CutAt directive f.2 front number ∧ ∃ e, stol number = .error e := by
  constructor
  · intro fails
    by_contra readable
    rw [not_or] at readable
    apply fails
    constructor
    · intro named
      by_contra none_read
      exact readable.1 ⟨named, (not_ok_iff _).mp none_read⟩
    · intro named directive known pos found
      by_contra none_read
      exact readable.2 ⟨named, directive, known, _, _,
        (cutAt_iff _ _ _ _).mpr ⟨pos, found, rfl, rfl⟩, (not_ok_iff _).mp none_read⟩
  · rintro (⟨named, rejected⟩ | ⟨named, directive, known, front, number, cut, rejected⟩) h
    · exact (not_ok_iff _).mpr rejected (h.length named)
    · obtain ⟨pos, found, -, rfl⟩ := (cutAt_iff _ _ _ _).mp cut
      exact (not_ok_iff _).mpr rejected (h.ages named directive known pos found)

theorem unreadable_iff (line : Bytes) :
    Unreadable line ↔ ∃ f, field line = some f ∧ ¬ Converts f := by
  constructor
  · rintro (⟨cut, rejected⟩ | ⟨cut, known, found, rejected⟩)
    · exact ⟨_, (field_eq_some_iff _ _ _).mpr cut, (not_converts_iff _).mpr (Or.inl ⟨rfl, rejected⟩)⟩
    · exact ⟨_, (field_eq_some_iff _ _ _).mpr cut,
        (not_converts_iff _).mpr (Or.inr ⟨rfl, _, known, _, _, found, rejected⟩)⟩
  · rintro ⟨⟨key, value⟩, cut, fails⟩
    rw [field_eq_some_iff] at cut
    rcases (not_converts_iff _).mp fails with
      ⟨rfl, rejected⟩ | ⟨rfl, directive, known, front, number, found, rejected⟩
    · exact .length cut rejected
    · exact .age cut known found rejected

/-- The constructor throws exactly where there is no whole header block, or one of its lines,
below the first and above the first empty one, has a number in it that is none. -/
theorem parse_throws_iff (calendar : Calendar) (now : Int64) (raw : Bytes) :
    (∃ e, parse calendar now raw = .error e) ↔
      ¬ CRLFCRLF <:+: raw ∨ ∃ headers body, CutAt CRLFCRLF raw headers body ∧
        ∃ line ∈ (headers.splitOn 10).tail.takeWhile (fun l => l != []), Unreadable line := by
  rw [← not_ok_iff, parse_ok_iff, ← find_eq_none_iff]
  cases found : find CRLFCRLF raw with
  | none => simp
  | some body_pos =>
    have cut : CutAt CRLFCRLF raw (raw.take body_pos) (raw.drop (body_pos + CRLFCRLF.length)) :=
      (cutAt_iff _ _ _ _).mpr ⟨body_pos, found, rfl, rfl⟩
    constructor
    · intro fails
      refine Or.inr ⟨_, _, cut, ?_⟩
      by_contra readable
      apply fails
      refine ⟨body_pos, rfl, fun f mem => ?_⟩
      obtain ⟨line, inside, own⟩ := List.mem_filterMap.mp mem
      by_contra none_read
      refine readable ⟨line, ?_, (unreadable_iff line).mpr ⟨f, own, none_read⟩⟩
      rw [← getlines_tail]
      exact inside
    · rintro (absent | ⟨headers, body, cut', line, inside, unreadable⟩)
      · cases absent
      · obtain ⟨pos, found', rfl, -⟩ := (cutAt_iff _ _ _ _).mp cut'
        cases found.symm.trans found'
        obtain ⟨f, own, none_read⟩ := (unreadable_iff line).mp unreadable
        rintro ⟨pos, same, all⟩
        cases same
        rw [← getlines_tail] at inside
        exact none_read (all f (List.mem_filterMap.mpr ⟨line, inside, own⟩))

end Response

end CachingProxy
