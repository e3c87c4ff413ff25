import CachingProxy.Cpp.Rounding
import CachingProxy.Freshness
import CachingProxy.Replay

/-! What becomes of a response whose header lines are arranged differently: in another order, or
with Cache-Control spread over two lines. -/
namespace CachingProxy
open Cpp Action Http

/-- A value with CRs behind it. -/
def worn (value : Bytes) (n : Nat) : Bytes := value ++ List.replicate n 13

theorem worn_zero (value : Bytes) : worn value 0 = value := List.append_nil value

theorem worn_cr (value : Bytes) (n : Nat) : worn value n ++ [13] = worn value (n + 1) := by
  rw [worn, worn, List.append_assoc, ← List.replicate_succ']

theorem worn_clean {value : Bytes} (clean : (10 : UInt8) ∉ value) (n : Nat) :
    (10 : UInt8) ∉ worn value n := by
  rw [worn, List.mem_append, not_or]
  refine ⟨clean, fun mem => ?_⟩
  cases (List.mem_replicate.mp mem).2

/-- strptime does not mind that many CRs behind the date. -/
def Calendar.IgnoresCrs (calendar : Calendar) (n : Nat) : Prop := ∀ value,
  (∀ c ∈ value, c ≠ 10 ∧ c ≠ 13) → calendar.parse_time (worn value n) = calendar.parse_time value

namespace Response

/-- is_no_store, needs_validation and get_expire_time; none where the constructor throws. -/
def verdict (calendar : Calendar) (now : Int64) (raw : Bytes) : Option (Bool × Bool × Int64) :=
  (parse calendar now raw).toOption.map
    (fun r => (r.is_no_store_, r.need_validate_, r.expire_time_))

/-- The same, read off the header fields. -/
def summary (calendar : Calendar) (now : Int64) (fs : List (Bytes × Bytes)) : Bool × Bool × Int64 :=
  (controls fs (bytes "no-store"),
    !fresh calendar now fs || controls fs (bytes "must-revalidate") || controls fs (bytes "no-cache"),
    expiry calendar fs)

/-- To parse `raw` is to read off the header fields `fs`. -/
def Reads (calendar : Calendar) (now : Int64) (raw : Bytes) (fs : List (Bytes × Bytes)) : Prop :=
  ∀ v, verdict calendar now raw = some v ↔
    (∀ f ∈ fs, Converts f) ∧ v = summary calendar now fs

theorem reads_fields (calendar : Calendar) (now : Int64) {raw : Bytes} {pos : Nat}
    (found : find CRLFCRLF raw = some pos) :
    Reads calendar now raw (fields (raw.take pos)) := by
  intro v
  have constructed : (∃ r, parse calendar now raw = .ok r) ↔
      ∀ f ∈ fields (raw.take pos), Converts f := by
    rw [parse_ok_iff, found]
    simp
  unfold verdict
  cases parsed : parse calendar now raw with
  | error e =>
    refine iff_of_false (by simp [Except.toOption]) ?_
    rintro ⟨converts, -⟩
    obtain ⟨r, ok⟩ := constructed.mpr converts
    cases parsed.symm.trans ok
  | ok r =>
    obtain ⟨pos', found', judged⟩ := parse_judged parsed
    obtain rfl := Option.some.inj (found.symm.trans found')
    have told : (r.is_no_store_, r.need_validate_, r.expire_time_) =
        summary calendar now (fields (raw.take pos)) := by
      rw [summary, judged.no_store, judged.need_validate, judged.expire_time]
    simp only [Except.toOption, Option.map_some, Option.some.injEq, told]
    constructor
    · rintro rfl
      exact ⟨constructed.mp ⟨r, parsed⟩, rfl⟩
    · exact fun h => h.2.symm

/-- Two responses have one verdict exactly when both throw, or none does and they say the same. -/
theorem Reads.verdict_eq_iff {calendar : Calendar} {now : Int64} {raw raw' : Bytes}
    {fs gs : List (Bytes × Bytes)} (h : Reads calendar now raw fs) (h' : Reads calendar now raw' gs) :
    verdict calendar now raw = verdict calendar now raw' ↔
      ((∀ f ∈ fs, Converts f) ↔ ∀ f ∈ gs, Converts f) ∧
        ((∀ f ∈ fs, Converts f) → summary calendar now fs = summary calendar now gs) := by
  constructor
  · intro same
    refine ⟨⟨fun all => ?_, fun all => ?_⟩, fun all => ?_⟩
    · exact ((h' _).mp (same.symm.trans ((h _).mpr ⟨all, rfl⟩))).1
    · exact ((h _).mp (same.trans ((h' _).mpr ⟨all, rfl⟩))).1
    · exact ((h' _).mp (same.symm.trans ((h _).mpr ⟨all, rfl⟩))).2
  · rintro ⟨constructed, told⟩
    apply Option.ext
    intro v
    rw [h v, h' v, ← constructed]
    constructor
    · rintro ⟨all, rfl⟩
      exact ⟨all, told all⟩
    · rintro ⟨all, rfl⟩
      exact ⟨all, (told all).symm⟩

/-- What counts among the fields: the lifetime, two dates, and the directives that are seen. -/
theorem summary_congr {calendar : Calendar} {fs gs : List (Bytes × Bytes)}
    (ages : lifetime fs = lifetime gs)
    (date : time_of calendar (bytes "Date") fs = time_of calendar (bytes "Date") gs)
    (expires : time_of calendar (bytes "Expires") fs = time_of calendar (bytes "Expires") gs)
    (no_store : controls fs (bytes "no-store") = controls gs (bytes "no-store"))
    (validation : (controls fs (bytes "must-revalidate") || controls fs (bytes "no-cache")) =
      (controls gs (bytes "must-revalidate") || controls gs (bytes "no-cache"))) (now : Int64) :
    summary calendar now fs = summary calendar now gs := by
  simp only [summary, fresh, expiry, ages, date, expires, no_store, Bool.or_assoc, validation]

theorem lifetime_congr {fs gs : List (Bytes × Bytes)}
    (ages : ∀ directive ∈ [bytes "s-maxage=", bytes "max-age="],
      age_of directive fs = age_of directive gs) : lifetime fs = lifetime gs := by
  unfold lifetime
  rw [ages _ List.mem_cons_self, ages _ (List.mem_cons_of_mem _ List.mem_cons_self)]

theorem summary_of_values {fs gs : List (Bytes × Bytes)} (same : ∀ key, values key fs = values key gs)
    (calendar : Calendar) (now : Int64) : summary calendar now fs = summary calendar now gs := by
  apply summary_congr
  · exact lifetime_congr (fun directive _ => by rw [age_of, age_of, same])
  · rw [time_of, time_of, last_value, last_value, same]
  · rw [time_of, time_of, last_value, last_value, same]
  · rw [controls, controls, last_value, last_value, same]
  · simp only [controls, last_value, same]

end Response

/-! ## The CR at the end of a line -/

/-- The same field; `g` may have the CR of its line end. -/
structure CrAlike (f g : Bytes × Bytes) : Prop where
  name : g.1 = f.1
  clean : ∀ c ∈ f.2, c ≠ 10 ∧ c ≠ 13
  value : g.2 = f.2 ∨ g.2 = f.2 ++ [13]

theorem map_values_alike {β : Type} {g : Bytes → β}
    (ignores : ∀ s, (∀ c ∈ s, c ≠ 10 ∧ c ≠ 13) → g (s ++ [13]) = g s) {fs gs : List (Bytes × Bytes)}
    (alike : List.Forall₂ CrAlike fs gs) (key : Bytes) :
    (Response.values key gs).map g = (Response.values key fs).map g := by
  induction alike with
  | nil => rfl
  | @cons f f' fs gs first rest ih =>
    unfold Response.values at ih ⊢
    by_cases own : f.1 = key
    · have own' : f'.1 = key := first.name.trans own
      have same : g f'.2 = g f.2 := by
        rcases first.value with e | e
        · rw [e]
        · rw [e, ignores _ first.clean]
      simp only [own, own', decide_true, List.filter_cons_of_pos, List.map_cons, same, ih]
    · have other : f'.1 ≠ key := by rwa [first.name]
      simp only [own, other, decide_false, Bool.false_eq_true, not_false_eq_true,
        List.filter_cons_of_neg, ih]

section CarriageReturn

variable {directive : Bytes} (filled : directive ≠ []) (clean : (13 : UInt8) ∉ directive)
include filled clean

theorem contains_append_cr (value : Bytes) :
    contains (value ++ [13]) directive = contains value directive := by
  rw [contains, contains, find_append_byte filled clean]

theorem scan_age_append_cr (value : Bytes) (old : Int64) :
    Response.scan_age directive (value ++ [13]) old = Response.scan_age directive value old := by
  unfold Response.scan_age
  rw [find_append_byte filled clean]
  cases found : find directive value with
  | none => rfl
  | some pos =>
    have inside := find_le found
    dsimp only
    rw [substrFrom_ok inside, substrFrom_ok (by rw [List.length_append]; omega),
      List.drop_append_of_le_length inside]
    exact stol_congr (strtol_append_cr _)

end CarriageReturn

/-- Directives are found in the value of a line with its CR as in the value without it. -/
theorem age_of_alike {fs gs : List (Bytes × Bytes)} (alike : List.Forall₂ CrAlike fs gs)
    {directive : Bytes} (filled : directive ≠ []) (clean : (13 : UInt8) ∉ directive) :
    Response.age_of directive gs = Response.age_of directive fs := by
  have steps (hs : List (Bytes × Bytes)) : Response.age_of directive hs =
      ((Response.values Response.CacheControl hs).map
        (fun value old => Response.scanned directive old value)).foldl (fun old f => f old) (-1) := by
    rw [Response.age_of, List.foldl_map]
  rw [steps, steps, map_values_alike _ alike]
  intro value _
  funext old
  rw [Response.scanned, Response.scanned, scan_age_append_cr filled clean]

theorem controls_alike {fs gs : List (Bytes × Bytes)} (alike : List.Forall₂ CrAlike fs gs)
    {directive : Bytes} (filled : directive ≠ []) (clean : (13 : UInt8) ∉ directive) :
    Response.controls gs directive = Response.controls fs directive := by
  have last (hs : List (Bytes × Bytes)) : Response.controls hs directive =
      (((Response.values Response.CacheControl hs).map
        (fun value => contains value directive)).getLast?).getD false := by
    rw [List.getLast?_map, Response.controls, Response.last_value]
    cases (Response.values Response.CacheControl hs).getLast? <;> rfl
  rw [last, last, map_values_alike (fun value _ => contains_append_cr filled clean value) alike]

theorem time_of_alike {calendar : Calendar} (ignores : calendar.IgnoresCrs 1)
    {fs gs : List (Bytes × Bytes)} (alike : List.Forall₂ CrAlike fs gs) (key : Bytes) :
    Response.time_of calendar key gs = Response.time_of calendar key fs := by
  rw [Response.time_of, Response.time_of, Response.last_value, Response.last_value,
    ← List.getLast?_map, ← List.getLast?_map, map_values_alike ignores alike]

theorem lifetime_alike {fs gs : List (Bytes × Bytes)} (alike : List.Forall₂ CrAlike fs gs) :
    Response.lifetime gs = Response.lifetime fs := by
  apply Response.lifetime_congr
  intro directive known
  have shape : ∀ d ∈ [bytes "s-maxage=", bytes "max-age="], d ≠ [] ∧ (13 : UInt8) ∉ d := by decide
  exact age_of_alike alike (shape directive known).1 (shape directive known).2

theorem summary_alike {calendar : Calendar} (ignores : calendar.IgnoresCrs 1)
    {fs gs : List (Bytes × Bytes)} (alike : List.Forall₂ CrAlike fs gs) (now : Int64) :
    Response.summary calendar now gs = Response.summary calendar now fs := by
  apply Response.summary_congr
  · exact lifetime_alike alike
  · exact time_of_alike ignores alike _
  · exact time_of_alike ignores alike _
  · exact controls_alike alike (by decide) (by decide)
  · rw [controls_alike alike (by decide) (by decide), controls_alike alike (by decide) (by decide)]

theorem converts_append_cr (name value : Bytes) :
    Response.Converts (name, value ++ [13]) ↔ Response.Converts (name, value) := by
  have number (directive : Bytes) (known : directive ∈ [bytes "s-maxage=", bytes "max-age="]) :
      (∀ pos, find directive (value ++ [13]) = some pos →
        ∃ n, stol ((value ++ [13]).drop (pos + directive.length)) = .ok n) ↔
      ∀ pos, find directive value = some pos →
        ∃ n, stol (value.drop (pos + directive.length)) = .ok n := by
    have shape : ∀ d ∈ [bytes "s-maxage=", bytes "max-age="], d ≠ [] ∧ (13 : UInt8) ∉ d := by decide
    obtain ⟨filled, clean⟩ := shape directive known
    rw [← Response.scan_age_ok_iff directive _ 0, ← Response.scan_age_ok_iff directive _ 0,
      scan_age_append_cr filled clean]
  constructor
  · rintro ⟨length, ages⟩
    refine ⟨fun own => ?_, fun own directive known => ?_⟩
    · rw [← stoi_congr (strtol_append_cr value)]
      exact length own
    · exact (number directive known).mp (ages own directive known)
  · rintro ⟨length, ages⟩
    refine ⟨fun own => ?_, fun own directive known => ?_⟩
    · rw [stoi_congr (strtol_append_cr value)]
      exact length own
    · exact (number directive known).mpr (ages own directive known)

theorem converts_alike {fs gs : List (Bytes × Bytes)} (alike : List.Forall₂ CrAlike fs gs) :
    (∀ g ∈ gs, Response.Converts g) ↔ ∀ f ∈ fs, Response.Converts f := by
  induction alike with
  | nil => exact Iff.rfl
  | @cons f g fs gs first rest ih =>
    have same : Response.Converts g ↔ Response.Converts f := by
      obtain ⟨name, value⟩ := f
      obtain ⟨name', value'⟩ := g
      obtain rfl : name' = name := first.name
      rcases first.value with e | e
      · obtain rfl : value' = value := e
        exact Iff.rfl
      · obtain rfl : value' = value ++ [13] := e
        exact converts_append_cr name' value
    rw [List.forall_mem_cons, List.forall_mem_cons, same, ih]

/-! ## Blocks of header lines -/

/-- A header line: it is not empty and has neither CR nor LF. -/
def HeaderLine (l : Bytes) : Prop := l ≠ [] ∧ ∀ c ∈ l, c ≠ 10 ∧ c ≠ 13

def block (status : Bytes) (lines : List Bytes) (body : Bytes) : Bytes :=
  joined status lines ++ CRLFCRLF ++ body

theorem field_append_cr (l : Bytes) :
    Response.field (l ++ [13]) = (Response.field l).map (fun f => (f.1, f.2 ++ [13])) := by
  unfold Response.field
  rw [find_append_byte (by decide) (by decide)]
  cases found : find (bytes ": ") l with
  | none => rfl
  | some pos =>
    have inside := find_le found
    have two : (bytes ": ").length = 2 := rfl
    simp only [Option.map_some]
    rw [List.take_append_of_le_length (by omega), List.drop_append_of_le_length (by omega)]

theorem value_clean {l : Bytes} {f : Bytes × Bytes} (clean : ∀ c ∈ l, c ≠ 10 ∧ c ≠ 13)
    (h : Response.field l = some f) : ∀ c ∈ f.2, c ≠ 10 ∧ c ≠ 13 := by
  intro c mem
  apply clean
  rw [Response.line_of_field h]
  exact List.mem_append_right _ (List.mem_cons_of_mem _ (List.mem_cons_of_mem _ mem))

theorem fields_alike {lines : List Bytes} (clean : ∀ l ∈ lines, HeaderLine l) (status : Bytes) :
    List.Forall₂ CrAlike (lines.filterMap Response.field)
      ((crLines status lines).tail.filterMap Response.field) := by
  induction lines generalizing status with
  | nil => exact .nil
  | cons l lines ih =>
    obtain ⟨line, rest⟩ := List.forall_mem_cons.mp clean
    have later := ih rest l
    cases lines with
    | nil =>
      cases own : Response.field l with
      | none => simp [crLines, own]
      | some f =>
        have same : CrAlike f f := ⟨rfl, value_clean line.2 own, .inl rfl⟩
        simp [crLines, own, same]
    | cons m lines =>
      simp only [crLines, List.tail_cons] at later ⊢
      cases own : Response.field l with
      | none =>
        have own' : Response.field (l ++ [13]) = none := by
          rw [field_append_cr, own]
          rfl
        rw [List.filterMap_cons_none own, List.filterMap_cons_none own']
        exact later
      | some f =>
        have own' : Response.field (l ++ [13]) = some (f.1, f.2 ++ [13]) := by
          rw [field_append_cr, own]
          rfl
        rw [List.filterMap_cons_some own, List.filterMap_cons_some own']
        exact .cons ⟨rfl, value_clean line.2 own, .inr rfl⟩ later

theorem joined_lines {status : Bytes} (clean : (10 : UInt8) ∉ status) {lines : List Bytes}
    (others : ∀ l ∈ lines, HeaderLine l) :
    (getlines (joined status lines)).tail = (crLines status lines).tail := by
  cases lines with
  | nil =>
    simp only [joined, List.flatMap_nil, List.append_nil, crLines, List.tail_cons]
    by_cases filled : status = []
    · rw [filled]
      rfl
    · rw [getlines_last clean filled]
      rfl
  | cons l lines =>
    have ended : (10 : UInt8) ∉ status ++ [13] := by simp [clean]
    have split : joined status (l :: lines) = (status ++ [13]) ++ 10 :: joined l lines := by
      rw [joined_cons]
      simp [CRLF_eq]
    have solid : ∀ m ∈ l :: lines, m ≠ [] ∧ (10 : UInt8) ∉ m :=
      fun m mem => ⟨(others m mem).1, fun lf => ((others m mem).2 10 lf).1 rfl⟩
    obtain ⟨first, rest⟩ := List.forall_mem_cons.mp solid
    rw [split, getlines_line ended, getlines_joined first rest]
    rfl

theorem fields_joined {status : Bytes} (clean : (10 : UInt8) ∉ status) {lines : List Bytes}
    (others : ∀ l ∈ lines, HeaderLine l) :
    Response.fields (joined status lines) = (crLines status lines).tail.filterMap Response.field := by
  have filled : ∀ l ∈ (crLines status lines).tail, (l != []) = true := by
    intro l mem
    obtain ⟨m, hm, form⟩ := mem_crLines mem
    rcases form with rfl | rfl
    · simpa using (others l hm).1
    · simp
  rw [Response.fields, Response.header_lines, joined_lines clean others,
    List.takeWhile_eq_self_iff.mpr filled]

theorem find_block {status : Bytes} (clean : (10 : UInt8) ∉ status) {lines : List Bytes}
    (others : ∀ l ∈ lines, HeaderLine l) (body : Bytes) :
    find CRLFCRLF (block status lines body) = some (joined status lines).length := by
  apply find_joined clean
  intro l mem
  obtain ⟨filled, solid⟩ := others l mem
  obtain ⟨c, l', rfl⟩ := List.exists_cons_of_ne_nil filled
  exact ⟨fun lf => (solid 10 lf).1 rfl, c, l', rfl, (solid c List.mem_cons_self).2⟩

theorem reads_lines (calendar : Calendar) (now : Int64) {status : Bytes}
    (clean : (10 : UInt8) ∉ status) {lines : List Bytes} (others : ∀ l ∈ lines, HeaderLine l)
    (body : Bytes) : Response.Reads calendar now (block status lines body)
      ((crLines status lines).tail.filterMap Response.field) := by
  have reads := Response.reads_fields calendar now (find_block clean others body)
  have head : (block status lines body).take (joined status lines).length = joined status lines := by
    rw [block, List.append_assoc, List.take_left]
  rwa [head, fields_joined clean others] at reads

/-- What a response says is what its header lines say, each without its CR. -/
theorem reads_block {calendar : Calendar} (ignores : calendar.IgnoresCrs 1) (now : Int64)
    {status : Bytes} (clean : (10 : UInt8) ∉ status) {lines : List Bytes}
    (others : ∀ l ∈ lines, HeaderLine l) (body : Bytes) :
    Response.Reads calendar now (block status lines body) (lines.filterMap Response.field) := by
  intro v
  have alike := fields_alike others status
  rw [reads_lines calendar now clean others body v, converts_alike alike,
    summary_alike ignores alike]

/-! ## Another order -/

/-- A header line of the form name, ": " and value. -/
def header_line (f : Bytes × Bytes) : Bytes := f.1 ++ 58 :: 32 :: f.2

/-- Headers without CR or LF, with names of their own that have no colon. -/
structure Named (headers : List (Bytes × Bytes)) : Prop where
  names : ∀ f ∈ headers, (58 : UInt8) ∉ f.1
  clean : ∀ f ∈ headers, ∀ c, c ∈ f.1 ∨ c ∈ f.2 → c ≠ 10 ∧ c ≠ 13
  distinct : (headers.map Prod.fst).Nodup

theorem Named.perm {headers headers' : List (Bytes × Bytes)} (named : Named headers)
    (order : headers.Perm headers') : Named headers' where
  names f mem := named.names f (order.mem_iff.mpr mem)
  clean f mem := named.clean f (order.mem_iff.mpr mem)
  distinct := (order.map Prod.fst).nodup_iff.mp named.distinct

theorem Named.lines {headers : List (Bytes × Bytes)} (named : Named headers) :
    ∀ l ∈ headers.map header_line, HeaderLine l := by
  intro l mem
  obtain ⟨f, hf, rfl⟩ := List.mem_map.mp mem
  refine ⟨by simp [header_line], ?_⟩
  intro c inside
  rcases List.mem_append.mp inside with name | rest
  · exact named.clean f hf c (.inl name)
  · simp only [List.mem_cons] at rest
    rcases rest with rfl | rfl | value
    · decide
    · decide
    · exact named.clean f hf c (.inr value)

theorem Named.fields {headers : List (Bytes × Bytes)} (named : Named headers) :
    (headers.map header_line).filterMap Response.field = headers := by
  rw [List.filterMap_map]
  have own : ∀ f ∈ headers, (Response.field ∘ header_line) f = some f :=
    fun f mem => Response.field_line (named.names f mem) f.2
  rw [List.filterMap_congr own, List.filterMap_some]

/-- A name that occurs once has the same values in any order. -/
theorem values_perm {fs gs : List (Bytes × Bytes)} (distinct : (fs.map Prod.fst).Nodup)
    (order : fs.Perm gs) (key : Bytes) : Response.values key fs = Response.values key gs := by
  have reordered : (Response.values key fs).Perm (Response.values key gs) :=
    (order.filter _).map Prod.snd
  by_cases own : ∃ f ∈ fs, f.1 = key
  · obtain ⟨f, mem, rfl⟩ := own
    have one : Response.values f.1 fs = [f.2] := by
      rw [Response.values, filter_key distinct mem]
      rfl
    rw [one] at reordered ⊢
    exact (List.perm_singleton.mp reordered.symm).symm
  · have nothing : Response.values key fs = [] := by
      rw [Response.values, List.map_eq_nil_iff, List.filter_eq_nil_iff]
      intro f mem same
      exact own ⟨f, mem, by simpa using same⟩
    rw [nothing] at reordered ⊢
    exact (List.nil_perm.mp reordered).symm

/-- The order of the header lines makes no difference. -/
theorem verdict_perm (calendar : Calendar) (ignores : calendar.IgnoresCrs 1) (now : Int64)
    (status body : Bytes) (status_line : (10 : UInt8) ∉ status)
    (headers headers' : List (Bytes × Bytes)) (named : Named headers)
    (order : headers.Perm headers') :
    Response.verdict calendar now (block status (headers.map header_line) body) =
      Response.verdict calendar now (block status (headers'.map header_line) body) := by
  have named' := named.perm order
  have reads := reads_block ignores now status_line named.lines body
  have reads' := reads_block ignores now status_line named'.lines body
  rw [named.fields] at reads
  rw [named'.fields] at reads'
  refine (reads.verdict_eq_iff reads').mpr ⟨?_, fun _ => ?_⟩
  · exact forall_congr' (fun f => imp_congr_left order.mem_iff)
  · exact Response.summary_of_values (values_perm named.distinct order) calendar now

theorem c_str_append_cr (s : Bytes) :
    c_str (s ++ [13]) = c_str s ∨ c_str (s ++ [13]) = c_str s ++ [13] := by
  unfold c_str
  rw [List.takeWhile_append]
  split
  · rename_i whole
    rw [(List.takeWhile_prefix _).eq_of_length whole]
    exact .inr rfl
  · exact .inl rfl

theorem epoch_ignores : epochCalendar.IgnoresCrs 1 := by
  intro s _
  have cut : c_str (worn s 1) = c_str s ∨ c_str (worn s 1) = c_str s ++ [13] := c_str_append_cr s
  have same : epoch_second <+: c_str (worn s 1) ↔ epoch_second <+: c_str s := by
    rcases cut with e | e
    · rw [e]
    · rw [e]
      exact ⟨prefix_before (by decide), fun h => h.trans (List.prefix_append _ _)⟩
  simp only [Calendar.parse_time, epochCalendar, same]

theorem dated_named : Named [(bytes "Date", epoch_second), (Response.CacheControl, bytes "max-age=5")]
    where
  names := by decide
  clean := by
    have all : ∀ f ∈ [(bytes "Date", epoch_second), (Response.CacheControl, bytes "max-age=5")],
        ∀ c ∈ f.1 ++ f.2, c ≠ 10 ∧ c ≠ 13 := by decide +kernel
    exact fun f mem c inside => all f mem c (List.mem_append.mpr inside)
  distinct := by decide

theorem verdict_perm_date :
    Response.verdict epochCalendar 1 (block (bytes "HTTP/1.1 200 OK") ([(bytes "Date", epoch_second),
        (Response.CacheControl, bytes "max-age=5")].map header_line) []) =
      Response.verdict epochCalendar 1 (block (bytes "HTTP/1.1 200 OK")
        ([(Response.CacheControl, bytes "max-age=5"), (bytes "Date", epoch_second)].map header_line)
        []) :=
  verdict_perm epochCalendar epoch_ignores 1 _ [] (by decide) _ _
    dated_named (.swap _ _ _)

/-! ## One line of Cache-Control or two -/

/-- The number behind the first occurrence of `directive`, if it converts. -/
def number_in (directive value : Bytes) : Option Int64 :=
  (find directive value).bind (fun pos => (stol (value.drop (pos + directive.length))).toOption)

/-- s-maxage when it is positive, else max-age when that is -/
def effective (s_maxage max_age : Option Int64) : Option Int64 :=
  (s_maxage.filter (fun n => n > 0)).or (max_age.filter (fun n => n > 0))

def separator : Bytes := bytes ", "

theorem scan_age_found {directive value : Bytes} {pos : Nat} (found : find directive value = some pos)
    (old : Int64) :
    Response.scan_age directive value old = stol (value.drop (pos + directive.length)) := by
  unfold Response.scan_age
  rw [found]
  dsimp only
  rw [substrFrom_ok (find_le found)]
  rfl

theorem scanned_eq (directive value : Bytes) (old : Int64) :
    Response.scanned directive old value = (number_in directive value).getD old := by
  unfold Response.scanned number_in
  cases found : find directive value with
  | none => simp only [Response.scan_age, found, Option.bind_none, Option.getD_none]
  | some pos =>
    rw [scan_age_found found, Option.bind_some]
    cases stol (value.drop (pos + directive.length)) <;> rfl

theorem converts_control_iff (value : Bytes) :
    Response.Converts (Response.CacheControl, value) ↔
      ∀ directive ∈ [bytes "s-maxage=", bytes "max-age="],
        contains value directive = true → (number_in directive value).isSome := by
  have number (directive : Bytes) : (∀ pos, find directive value = some pos →
      ∃ n, stol (value.drop (pos + directive.length)) = .ok n) ↔
      (contains value directive = true → (number_in directive value).isSome) := by
    unfold contains number_in
    cases find directive value with
    | none => simp
    | some pos =>
      simp only [Option.some.injEq, forall_eq', Option.isSome_some, Option.bind_some, forall_const]
      cases stol (value.drop (pos + directive.length)) <;> simp [Except.toOption]
  constructor
  · intro converts directive known
    exact (number directive).mp (converts.ages rfl directive known)
  · intro numbers
    have other : Response.CacheControl ≠ bytes "Content-Length" := by decide
    refine ⟨fun own => absurd own other, fun _ directive known => ?_⟩
    exact (number directive).mpr (numbers directive known)

section Joined

variable {directive : Bytes} (filled : directive ≠ [])
  (clean : (44 : UInt8) ∉ directive ∧ (32 : UInt8) ∉ directive) (v₁ v₂ : Bytes)
include filled clean

theorem contains_joined : contains (v₁ ++ separator ++ v₂) directive =
    (contains v₁ directive || contains v₂ directive) := by
  have split : v₁ ++ separator ++ v₂ = v₁ ++ 44 :: 32 :: v₂ := by simp [separator, bytes]
  rw [split, contains_around filled clean.1, contains_space filled clean.2]

/-- In a joined line the number of the first part counts. -/
theorem number_in_joined : number_in directive (v₁ ++ separator ++ v₂) =
    if contains v₁ directive then number_in directive v₁ else number_in directive v₂ := by
  have split : v₁ ++ separator ++ v₂ = v₁ ++ 44 :: 32 :: v₂ := by simp [separator, bytes]
  unfold number_in contains
  rw [split]
  cases found : find directive v₁ with
  | some pos =>
    have inside := find_le found
    rw [find_append found]
    simp only [Option.bind_some, Option.isSome_some, if_true]
    rw [List.drop_append_of_le_length inside, stol_congr (strtol_append_comma _ _)]
  | none =>
    rw [find_after filled clean.1 found, find_space filled clean.2, Option.map_map]
    simp only [Option.isSome_none, Bool.false_eq_true, if_false]
    cases find directive v₂ with
    | none => rfl
    | some pos =>
      have behind : pos + 1 + (v₁.length + 1) + directive.length =
          v₁.length + (pos + directive.length + 2) := by omega
      simp only [Option.map_some, Function.comp_apply, Option.bind_some]
      rw [behind, List.drop_length_add_append]
      rfl

end Joined

theorem ages_shape : ∀ d ∈ [bytes "s-maxage=", bytes "max-age="],
    d ≠ [] ∧ ((44 : UInt8) ∉ d ∧ (32 : UInt8) ∉ d) := by decide

/-- If the joined line converts, so does its first part. -/
theorem converts_first {v₁ v₂ : Bytes}
    (joined : Response.Converts (Response.CacheControl, v₁ ++ separator ++ v₂)) :
    Response.Converts (Response.CacheControl, v₁) := by
  rw [converts_control_iff] at joined ⊢
  intro directive known named
  obtain ⟨filled, clean⟩ := ages_shape directive known
  have number := joined directive known (by rw [contains_joined filled clean, named]; rfl)
  rwa [number_in_joined filled clean, if_pos named] at number

theorem converts_joined {v₁ v₂ : Bytes} (first : Response.Converts (Response.CacheControl, v₁))
    (second : Response.Converts (Response.CacheControl, v₂)) :
    Response.Converts (Response.CacheControl, v₁ ++ separator ++ v₂) := by
  rw [converts_control_iff] at first second ⊢
  intro directive known named
  obtain ⟨filled, clean⟩ := ages_shape directive known
  rw [contains_joined filled clean, Bool.or_eq_true] at named
  rw [number_in_joined filled clean]
  split
  · rename_i own
    exact first directive known own
  · rename_i other
    exact second directive known (named.resolve_left other)

theorem lifetime_eq (fs : List (Bytes × Bytes)) {s m : Option Int64}
    (s_maxage : Response.age_of (bytes "s-maxage=") fs = s.getD (-1))
    (max_age : Response.age_of (bytes "max-age=") fs = m.getD (-1)) :
    Response.lifetime fs = effective s m := by
  have positive (a : Option Int64) : (if a.getD (-1) > 0 then some (a.getD (-1)) else none) =
      a.filter (fun n => n > 0) := by
    cases a with
    | none => rfl
    | some n => simp [Option.filter]
  rw [effective, ← positive s, ← positive m, Response.lifetime, s_maxage, max_age]
  split <;> rfl

theorem lifetime_two {fs : List (Bytes × Bytes)} {v₁ v₂ : Bytes}
    (two : Response.values Response.CacheControl fs = [v₁, v₂]) :
    Response.lifetime fs =
      effective ((number_in (bytes "s-maxage=") v₂).or (number_in (bytes "s-maxage=") v₁))
        ((number_in (bytes "max-age=") v₂).or (number_in (bytes "max-age=") v₁)) := by
  have age (directive : Bytes) : Response.age_of directive fs =
      ((number_in directive v₂).or (number_in directive v₁)).getD (-1) := by
    rw [Response.age_of, two, List.foldl_cons, List.foldl_cons, List.foldl_nil, scanned_eq, scanned_eq]
    cases number_in directive v₂ <;> rfl
  exact lifetime_eq fs (age _) (age _)

theorem lifetime_joined {fs : List (Bytes × Bytes)} {v₁ v₂ : Bytes}
    (one : Response.values Response.CacheControl fs = [v₁ ++ separator ++ v₂])
    (first : Response.Converts (Response.CacheControl, v₁)) :
    Response.lifetime fs =
      effective ((number_in (bytes "s-maxage=") v₁).or (number_in (bytes "s-maxage=") v₂))
        ((number_in (bytes "max-age=") v₁).or (number_in (bytes "max-age=") v₂)) := by
  rw [converts_control_iff] at first
  have age (directive : Bytes) (known : directive ∈ [bytes "s-maxage=", bytes "max-age="]) :
      Response.age_of directive fs =
        ((number_in directive v₁).or (number_in directive v₂)).getD (-1) := by
    obtain ⟨filled, clean⟩ := ages_shape directive known
    rw [age_of_single one, scanned_eq, number_in_joined filled clean]
    split
    · rename_i own
      obtain ⟨n, number⟩ := Option.isSome_iff_exists.mp (first directive known own)
      rw [number]
      rfl
    · rename_i other
      have nothing : number_in directive v₁ = none := by
        have absent : find directive v₁ = none := by simpa [contains] using other
        rw [number_in, absent]
        rfl
      rw [nothing]
      rfl
  exact lifetime_eq fs (age _ List.mem_cons_self) (age _ (List.mem_cons_of_mem _ List.mem_cons_self))

/-- A line of Cache-Control. -/
def cache_control (value : Bytes) : Bytes := header_line (Response.CacheControl, value)

/-- The other header lines of a response. -/
structure Others (lines : List Bytes) : Prop where
  solid : ∀ l ∈ lines, HeaderLine l
  uncontrolled : ∀ l ∈ lines, ¬ bytes "Cache-Control: " <+: l

/-- Among whatever other lines, in whatever response, two lines of Cache-Control say the same as
one line that joins them. The one line stands in the place of the second, or anywhere if strptime
ignores a CR. -/
def SameJoined (v₁ v₂ : Bytes) : Prop :=
  ∀ (calendar : Calendar) (now : Int64) (status body : Bytes)
    (above between below above' below' : List Bytes),
    (10 : UInt8) ∉ status → Others (above ++ between ++ below) →
    above' ++ below' = above ++ between ++ below →
    above' = above ++ between ∨ calendar.IgnoresCrs 1 →
    Response.verdict calendar now (block status
        (above ++ cache_control v₁ :: (between ++ cache_control v₂ :: below)) body) =
      Response.verdict calendar now (block status
        (above' ++ cache_control (v₁ ++ separator ++ v₂) :: below') body)

/-- If the joined line is constructed, then the second line converts, repeats no-store and a call
for validation where the first has them, and it makes no difference for the lifetime whether the
first or the last occurrence of an age counts. -/
def Harmless (v₁ v₂ : Bytes) : Prop :=
  Response.Converts (Response.CacheControl, v₁ ++ separator ++ v₂) →
    Response.Converts (Response.CacheControl, v₂) ∧
    (contains v₁ (bytes "no-store") = true → contains v₂ (bytes "no-store") = true) ∧
    (contains v₁ (bytes "must-revalidate") = true ∨ contains v₁ (bytes "no-cache") = true →
      contains v₂ (bytes "must-revalidate") = true ∨ contains v₂ (bytes "no-cache") = true) ∧
    effective ((number_in (bytes "s-maxage=") v₂).or (number_in (bytes "s-maxage=") v₁))
        ((number_in (bytes "max-age=") v₂).or (number_in (bytes "max-age=") v₁)) =
      effective ((number_in (bytes "s-maxage=") v₁).or (number_in (bytes "s-maxage=") v₂))
        ((number_in (bytes "max-age=") v₁).or (number_in (bytes "max-age=") v₂))

theorem field_cache_control (value : Bytes) :
    Response.field (cache_control value) = some (Response.CacheControl, value) :=
  Response.field_line (by decide : (58 : UInt8) ∉ Response.CacheControl) value

theorem line_cache_control {value : Bytes} (clean : ∀ c ∈ value, c ≠ 10 ∧ c ≠ 13) :
    HeaderLine (cache_control value) := by
  refine ⟨by simp [cache_control, header_line], ?_⟩
  intro c mem
  have name : ∀ c ∈ Response.CacheControl ++ [58, 32], c ≠ 10 ∧ c ≠ 13 := by decide +kernel
  have split : cache_control value = (Response.CacheControl ++ [58, 32]) ++ value := by
    simp [cache_control, header_line]
  rcases List.mem_append.mp (split ▸ mem) with inside | inside
  · exact name c inside
  · exact clean c inside

theorem Others.values {lines : List Bytes} (others : Others lines) :
    Response.values Response.CacheControl (lines.filterMap Response.field) = [] := by
  simp only [Response.values, List.map_eq_nil_iff, List.filter_eq_nil_iff, decide_eq_true_eq]
  rintro ⟨key, value⟩ mem rfl
  obtain ⟨l, hl, field⟩ := List.mem_filterMap.mp mem
  apply others.uncontrolled l hl
  rw [Response.line_of_field field]
  exact ⟨value, by simp [Response.CacheControl, bytes]⟩

/-- The values of Cache-Control and of the other names, where lines of Cache-Control are put in. -/
theorem values_cache_control (key value : Bytes) (lines : List Bytes) :
    Response.values key ((cache_control value :: lines).filterMap Response.field) =
      (if key = Response.CacheControl then [value] else []) ++
        Response.values key (lines.filterMap Response.field) := by
  rw [List.filterMap_cons_some (field_cache_control value), ← List.singleton_append, values_append]
  congr 1
  split
  · rename_i own
    simp [Response.values, own]
  · rename_i other
    simp [Response.values, Ne.symm other]

theorem values_between (key value : Bytes) (above below : List Bytes) :
    Response.values key ((above ++ cache_control value :: below).filterMap Response.field) =
      Response.values key (above.filterMap Response.field) ++
        ((if key = Response.CacheControl then [value] else []) ++
          Response.values key (below.filterMap Response.field)) := by
  rw [List.filterMap_append, values_append, values_cache_control]

theorem crLines_tail (l : Bytes) {ls : List Bytes} (more : ls ≠ []) :
    crLines l ls = (l ++ [13]) :: (crLines l ls).tail := by
  obtain ⟨m, ms, rfl⟩ := List.exists_cons_of_ne_nil more
  rfl

theorem crLines_append (status : Bytes) (above : List Bytes) (l : Bytes) (below : List Bytes) :
    (crLines status (above ++ l :: below)).tail =
      above.map (fun l => l ++ [13]) ++ (crLines status (l :: below)).tail := by
  induction above generalizing status with
  | nil => rfl
  | cons m above ih =>
    have more : above ++ l :: below ≠ [] := by simp
    change crLines m (above ++ l :: below) = _
    rw [crLines_tail m more, ih m]
    rfl

/-- A line of Cache-Control does not touch the values of another name. -/
theorem values_skip {key : Bytes} (other : key ≠ Response.CacheControl) (status value : Bytes)
    (lines : List Bytes) :
    Response.values key
        ((crLines status (cache_control value :: lines)).tail.filterMap Response.field) =
      Response.values key ((crLines status lines).tail.filterMap Response.field) := by
  cases lines with
  | nil =>
    change Response.values key ((cache_control value :: []).filterMap Response.field) = _
    rw [values_cache_control, if_neg other]
    rfl
  | cons l lines =>
    have ended : cache_control value ++ [13] = cache_control (value ++ [13]) := by
      simp [cache_control, header_line]
    change Response.values key
      (((cache_control value ++ [13]) :: crLines l lines).filterMap Response.field) = _
    rw [ended, values_cache_control, if_neg other]
    rfl

theorem values_in_place {key : Bytes} (other : key ≠ Response.CacheControl) (status v₁ v₂ v : Bytes)
    (above between below : List Bytes) :
    Response.values key ((crLines status (above ++ cache_control v₁ ::
        (between ++ cache_control v₂ :: below))).tail.filterMap Response.field) =
      Response.values key ((crLines status (above ++ between ++
        cache_control v :: below)).tail.filterMap Response.field) := by
  rw [crLines_append, crLines_append, List.filterMap_append, List.filterMap_append, values_append,
    values_append, values_skip other, values_skip other, crLines_append, List.filterMap_append,
    values_append, values_skip other, List.map_append, List.filterMap_append, values_append,
    List.append_assoc]

/-- The times of a response are the same with two lines of Cache-Control and with one. -/
theorem time_of_joined {calendar : Calendar} {key : Bytes} (other : key ≠ Response.CacheControl)
    (status v₁ v₂ v : Bytes) {above between below above' below' : List Bytes}
    (two : ∀ l ∈ above ++ cache_control v₁ :: (between ++ cache_control v₂ :: below), HeaderLine l)
    (one : ∀ l ∈ above' ++ cache_control v :: below', HeaderLine l)
    (same : above' ++ below' = above ++ between ++ below)
    (place : above' = above ++ between ∨ calendar.IgnoresCrs 1) :
    Response.time_of calendar key ((crLines status (above ++ cache_control v₁ ::
        (between ++ cache_control v₂ :: below))).tail.filterMap Response.field) =
      Response.time_of calendar key ((crLines status
        (above' ++ cache_control v :: below')).tail.filterMap Response.field) := by
  rcases place with rfl | ignores
  · obtain rfl := List.append_cancel_left same
    rw [Response.time_of, Response.time_of, Response.last_value, Response.last_value,
      values_in_place other]
  · rw [time_of_alike ignores (fields_alike two status),
      time_of_alike ignores (fields_alike one status), Response.time_of, Response.time_of,
      Response.last_value, Response.last_value, values_between, values_between, values_between]
    simp only [if_neg other, List.nil_append]
    rw [← values_append, ← values_append, ← values_append, ← List.filterMap_append,
      ← List.filterMap_append, ← List.filterMap_append, ← List.append_assoc, same]

theorem converts_between (value : Bytes) (above below : List Bytes) :
    (∀ f ∈ (above ++ cache_control value :: below).filterMap Response.field, Response.Converts f) ↔
      (∀ f ∈ above.filterMap Response.field, Response.Converts f) ∧
        Response.Converts (Response.CacheControl, value) ∧
        ∀ f ∈ below.filterMap Response.field, Response.Converts f := by
  rw [List.filterMap_append, List.forall_mem_append,
    List.filterMap_cons_some (field_cache_control value), List.forall_mem_cons]

theorem forall_mem_split {p : Bytes × Bytes → Prop} {above between below above' below' : List Bytes}
    (same : above' ++ below' = above ++ between ++ below) :
    ((∀ f ∈ above'.filterMap Response.field, p f) ∧ ∀ f ∈ below'.filterMap Response.field, p f) ↔
      (∀ f ∈ above.filterMap Response.field, p f) ∧ (∀ f ∈ between.filterMap Response.field, p f) ∧
        ∀ f ∈ below.filterMap Response.field, p f := by
  rw [← List.forall_mem_append, ← List.filterMap_append, same, List.filterMap_append,
    List.filterMap_append, List.forall_mem_append, List.forall_mem_append, and_assoc]

theorem lines_around {value : Bytes} (clean : ∀ c ∈ value, c ≠ 10 ∧ c ≠ 13)
    {above below : List Bytes} (rest : ∀ l, l ∈ above ∨ l ∈ below → HeaderLine l) :
    ∀ l ∈ above ++ cache_control value :: below, HeaderLine l := by
  intro l mem
  rcases List.mem_append.mp mem with before | here
  · exact rest l (.inl before)
  · rcases List.mem_cons.mp here with rfl | behind
    · exact line_cache_control clean
    · exact rest l (.inr behind)

/-- What the header lines hold of Cache-Control, with two lines of it and with one. -/
theorem Others.values_two {above between below : List Bytes}
    (others : Others (above ++ between ++ below)) (v₁ v₂ : Bytes) :
    Response.values Response.CacheControl ((above ++ cache_control v₁ ::
      (between ++ cache_control v₂ :: below)).filterMap Response.field) = [v₁, v₂] := by
  have nothing := others.values
  rw [List.filterMap_append, List.filterMap_append, values_append, values_append] at nothing
  obtain ⟨front, last⟩ := List.append_eq_nil_iff.mp nothing
  obtain ⟨first, middle⟩ := List.append_eq_nil_iff.mp front
  rw [values_between, values_between, first, middle, last]
  rfl

theorem Others.values_one {above below : List Bytes} (others : Others (above ++ below))
    (v : Bytes) :
    Response.values Response.CacheControl
      ((above ++ cache_control v :: below).filterMap Response.field) = [v] := by
  have nothing := others.values
  rw [List.filterMap_append, values_append] at nothing
  obtain ⟨first, last⟩ := List.append_eq_nil_iff.mp nothing
  rw [values_between, first, last]
  rfl

theorem Others.one_solid {above below : List Bytes} (others : Others (above ++ below)) {v : Bytes}
    (clean : ∀ c ∈ v, c ≠ 10 ∧ c ≠ 13) :
    ∀ l ∈ above ++ cache_control v :: below, HeaderLine l :=
  lines_around clean fun l mem => others.solid l (List.mem_append.mpr mem)

theorem Others.two_solid {above between below : List Bytes}
    (others : Others (above ++ between ++ below)) {v₁ v₂ : Bytes}
    (clean₁ : ∀ c ∈ v₁, c ≠ 10 ∧ c ≠ 13) (clean₂ : ∀ c ∈ v₂, c ≠ 10 ∧ c ≠ 13) :
    ∀ l ∈ above ++ cache_control v₁ :: (between ++ cache_control v₂ :: below), HeaderLine l := by
  apply lines_around clean₁
  rintro l (before | behind)
  · exact others.solid l (by simp [before])
  · refine lines_around clean₂ ?_ l behind
    rintro l (mem | mem) <;> exact others.solid l (by simp [mem])

/-- Of two lines the second decides; a joined line holds the directives of both. -/
theorem controls_two {fs : List (Bytes × Bytes)} {v₁ v₂ : Bytes}
    (two : Response.values Response.CacheControl fs = [v₁, v₂]) (directive : Bytes) :
    Response.controls fs directive = contains v₂ directive := by
  rw [Response.controls, Response.last_value, two]
  rfl

theorem controls_joined {fs : List (Bytes × Bytes)} {v₁ v₂ : Bytes}
    (one : Response.values Response.CacheControl fs = [v₁ ++ separator ++ v₂]) {directive : Bytes}
    (filled : directive ≠ []) (solid : (44 : UInt8) ∉ directive ∧ (32 : UInt8) ∉ directive) :
    Response.controls fs directive = (contains v₁ directive || contains v₂ directive) := by
  rw [controls_single one, contains_joined filled solid]

/-! A response with no time in it, parsed at the epoch. -/

theorem plain_ignores : plainCalendar.IgnoresCrs 1 := fun _ _ => rfl

theorem time_of_plain (key : Bytes) (fs : List (Bytes × Bytes)) :
    Response.time_of plainCalendar key fs = 0 := by
  unfold Response.time_of
  cases Response.last_value key fs <;> rfl

theorem fresh_plain (fs : List (Bytes × Bytes)) : Response.fresh plainCalendar 0 fs = true := by
  unfold Response.fresh
  cases counts : Response.lifetime fs with
  | none =>
    simp only [time_of_plain]
    decide
  | some n =>
    have filled := lifetime_filled counts
    have zero : difftime 0 0 = 0 := by decide
    simp only [time_of_plain, zero, exceeds, decide_eq_true_eq]
    exact binary64_positive filled

theorem expiry_plain (fs : List (Bytes × Bytes)) :
    Response.expiry plainCalendar fs = (Response.lifetime fs).getD 0 := by
  unfold Response.expiry
  cases Response.lifetime fs with
  | none => exact time_of_plain _ fs
  | some n => simp [time_of_plain]

theorem summary_plain (fs gs : List (Bytes × Bytes)) :
    Response.summary plainCalendar 0 fs = Response.summary plainCalendar 0 gs ↔
      Response.controls fs (bytes "no-store") = Response.controls gs (bytes "no-store") ∧
      (Response.controls fs (bytes "must-revalidate") || Response.controls fs (bytes "no-cache")) =
        (Response.controls gs (bytes "must-revalidate") || Response.controls gs (bytes "no-cache")) ∧
      Response.lifetime fs = Response.lifetime gs := by
  have ages : (Response.lifetime fs).getD 0 = (Response.lifetime gs).getD 0 ↔
      Response.lifetime fs = Response.lifetime gs := by
    refine ⟨fun same => ?_, fun same => by rw [same]⟩
    cases a : Response.lifetime fs with
    | none =>
      cases b : Response.lifetime gs with
      | none => rfl
      | some n =>
        rw [a, b] at same
        exact absurd (lifetime_filled b) (by rw [← show 0 = n from same]; decide)
    | some m =>
      cases b : Response.lifetime gs with
      | none =>
        rw [a, b] at same
        exact absurd (lifetime_filled a) (by rw [show m = 0 from same]; decide)
      | some n =>
        rw [a, b] at same
        exact congrArg some same
  simp only [Response.summary, fresh_plain, expiry_plain, Prod.mk.injEq, Bool.not_true,
    Bool.false_or, ages]

section Split

variable {v₁ v₂ : Bytes} (clean₁ : ∀ c ∈ v₁, c ≠ 10 ∧ c ≠ 13) (clean₂ : ∀ c ∈ v₂, c ≠ 10 ∧ c ≠ 13)
include clean₁ clean₂

theorem clean_joined : ∀ c ∈ v₁ ++ separator ++ v₂, c ≠ 10 ∧ c ≠ 13 := by
  intro c mem
  have between : ∀ c ∈ separator, c ≠ 10 ∧ c ≠ 13 := by decide +kernel
  simp only [List.mem_append] at mem
  rcases mem with (first | middle) | second
  · exact clean₁ c first
  · exact between c middle
  · exact clean₂ c second

theorem same_of_harmless (harmless : Harmless v₁ v₂) : SameJoined v₁ v₂ := by
  intro calendar now status body above between below above' below' status_line others same place
  have two := others.two_solid clean₁ clean₂
  have elsewhere : Others (above' ++ below') := same ▸ others
  have one := elsewhere.one_solid (clean_joined clean₁ clean₂)
  have alike₂ := fields_alike two status
  have alike₁ := fields_alike one status
  have values₂ := others.values_two v₁ v₂
  have values₁ := elsewhere.values_one (v₁ ++ separator ++ v₂)
  have reads₂ := reads_lines calendar now status_line two body
  have reads₁ := reads_lines calendar now status_line one body
  refine (reads₂.verdict_eq_iff reads₁).mpr ⟨?_, ?_⟩
  · rw [converts_alike alike₂, converts_alike alike₁, converts_between, converts_between,
      converts_between]
    have rest := forall_mem_split (p := Response.Converts) same
    constructor
    · rintro ⟨a, first, b, second, c⟩
      obtain ⟨a', c'⟩ := rest.mpr ⟨a, b, c⟩
      exact ⟨a', converts_joined first second, c'⟩
    · rintro ⟨a', joined, c'⟩
      obtain ⟨a, b, c⟩ := rest.mp ⟨a', c'⟩
      exact ⟨a, converts_first joined, b, (harmless joined).1, c⟩
  · intro all
    rw [converts_alike alike₂, converts_between, converts_between] at all
    obtain ⟨-, first, -, second, -⟩ := all
    obtain ⟨-, no_store, validation, ages⟩ := harmless (converts_joined first second)
    have told (directive : Bytes) (filled : directive ≠ [])
        (solid : (44 : UInt8) ∉ directive ∧ (32 : UInt8) ∉ directive)
        (no_cr : (13 : UInt8) ∉ directive) :
        Response.controls ((crLines status (above ++ cache_control v₁ ::
          (between ++ cache_control v₂ :: below))).tail.filterMap Response.field) directive =
            contains v₂ directive ∧
        Response.controls ((crLines status (above' ++
          cache_control (v₁ ++ separator ++ v₂) :: below')).tail.filterMap Response.field) directive =
            (contains v₁ directive || contains v₂ directive) := by
      rw [controls_alike alike₂ filled no_cr, controls_alike alike₁ filled no_cr]
      exact ⟨controls_two values₂ directive, controls_joined values₁ filled solid⟩
    apply Response.summary_congr
    · rw [lifetime_alike alike₂, lifetime_alike alike₁, lifetime_two values₂,
        lifetime_joined values₁ first, ages]
    · exact time_of_joined (by decide) status v₁ v₂ _ two one same place
    · exact time_of_joined (by decide) status v₁ v₂ _ two one same place
    · obtain ⟨a, b⟩ := told (bytes "no-store") (by decide) (by decide) (by decide)
      rw [a, b]
      cases h₁ : contains v₁ (bytes "no-store") with
      | false => rfl
      | true => rw [no_store h₁]; rfl
    · obtain ⟨a, b⟩ := told (bytes "must-revalidate") (by decide) (by decide) (by decide)
      obtain ⟨c, d⟩ := told (bytes "no-cache") (by decide) (by decide) (by decide)
      rw [a, b, c, d, Bool.eq_iff_iff]
      simp only [Bool.or_eq_true]
      constructor
      · rintro (h | h)
        · exact .inl (.inr h)
        · exact .inr (.inr h)
      · rintro ((h | h) | (h | h))
        · exact validation (.inl h)
        · exact .inl h
        · exact validation (.inr h)
        · exact .inr h

theorem harmless_of_same (same : SameJoined v₁ v₂) : Harmless v₁ v₂ := by
  intro joined
  have clean := clean_joined clean₁ clean₂
  have nobody : Others ([] ++ [] ++ []) := ⟨by simp, by simp⟩
  have alike := same plainCalendar 0 [] [] [] [] [] [] [] (by simp) nobody rfl (.inl rfl)
  have two : ∀ l ∈ [cache_control v₁, cache_control v₂], HeaderLine l := by
    simp [line_cache_control clean₁, line_cache_control clean₂]
  have one : ∀ l ∈ [cache_control (v₁ ++ separator ++ v₂)], HeaderLine l := by
    intro l mem
    rw [List.mem_singleton.mp mem]
    exact line_cache_control clean
  have no_status : (10 : UInt8) ∉ ([] : Bytes) := by simp
  have reads₂ := reads_block plain_ignores 0 no_status two []
  have reads₁ := reads_block plain_ignores 0 no_status one []
  rw [List.filterMap_cons_some (field_cache_control _), List.filterMap_cons_some
    (field_cache_control _), List.filterMap_nil] at reads₂
  rw [List.filterMap_cons_some (field_cache_control _), List.filterMap_nil] at reads₁
  obtain ⟨constructed, told⟩ := (reads₂.verdict_eq_iff reads₁).mp alike
  have all := constructed.mpr (by simpa using joined)
  obtain ⟨no_store, validation, ages⟩ := (summary_plain _ _).mp (told all)
  have values₂ : Response.values Response.CacheControl
      [(Response.CacheControl, v₁), (Response.CacheControl, v₂)] = [v₁, v₂] := rfl
  have values₁ : Response.values Response.CacheControl
      [(Response.CacheControl, v₁ ++ separator ++ v₂)] = [v₁ ++ separator ++ v₂] := rfl
  rw [controls_two values₂, controls_joined values₁ (by decide) (by decide)] at no_store
  rw [controls_two values₂, controls_two values₂, controls_joined values₁ (by decide) (by decide),
    controls_joined values₁ (by decide) (by decide)] at validation
  rw [lifetime_two values₂, lifetime_joined values₁ (converts_first joined)] at ages
  refine ⟨all _ (by simp), ?_, ?_, ages⟩
  · intro first
    rw [no_store, first]
    rfl
  · intro first
    rw [← Bool.or_eq_true, validation]
    rcases first with h | h <;> simp [h]

end Split

/-- Two lines of Cache-Control say the same as the joined line exactly when the second repeats what
the first asks for. -/
theorem same_joined_iff (v₁ v₂ : Bytes) (clean₁ : ∀ c ∈ v₁, c ≠ 10 ∧ c ≠ 13)
    (clean₂ : ∀ c ∈ v₂, c ≠ 10 ∧ c ≠ 13) : SameJoined v₁ v₂ ↔ Harmless v₁ v₂ :=
  ⟨harmless_of_same clean₁ clean₂, same_of_harmless clean₁ clean₂⟩

theorem same_joined_iff_no_store : SameJoined (bytes "no-store") (bytes "max-age=5") ↔
    Harmless (bytes "no-store") (bytes "max-age=5") :=
  same_joined_iff _ _ (by decide +kernel) (by decide +kernel)

/-- A no-store on a line of its own is forgotten at the next line. -/
theorem no_store_forgotten : ¬ SameJoined (bytes "no-store") (bytes "max-age=5") := by
  intro same
  have converts : Response.Converts
      (Response.CacheControl, bytes "no-store" ++ separator ++ bytes "max-age=5") := by
    rw [converts_control_iff]
    decide
  have harmless := harmless_of_same (by decide +kernel) (by decide +kernel) same converts
  exact absurd (harmless.2.1 (by decide)) (by decide)

end CachingProxy
