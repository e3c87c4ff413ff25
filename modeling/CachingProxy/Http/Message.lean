import CachingProxy.Cpp.Number

/-! HTTP/1.1 responses on the wire: the fields of a header block, what they say about the body,
and what a recipient makes of a message. A bare CR in a field counts as a space, as the standard
allows, and field names have no case. -/
namespace Http
open Cpp

def lower (c : UInt8) : UInt8 := if 65 ≤ c && c ≤ 90 then c + 32 else c

def sameText (a b : Bytes) : Bool := a.map lower == b.map lower

theorem lower_letter {c : UInt8} (letter : (65 ≤ c && c ≤ 90) = true) :
    65 ≤ c.toNat ∧ c.toNat ≤ 90 ∧ (c + 32).toNat = c.toNat + 32 := by
  simp only [Bool.and_eq_true, decide_eq_true_eq, UInt8.le_iff_toNat_le] at letter
  have most : c.toNat ≤ 90 := letter.2
  refine ⟨letter.1, most, ?_⟩
  rw [UInt8.toNat_add]
  exact Nat.mod_eq_of_lt (by change c.toNat + 32 < 256; omega)

/-- Only letters have another case. -/
theorem lower_eq_iff {c d : UInt8} (low : d.toNat < 65) : lower c = d ↔ c = d := by
  unfold lower
  split
  · rename_i letter
    obtain ⟨least, most, raised⟩ := lower_letter letter
    refine iff_of_false ?_ ?_
    · rintro rfl
      omega
    · rintro rfl
      omega
  · exact Iff.rfl

theorem lower_lower (c : UInt8) : lower (lower c) = lower c := by
  by_cases letter : (65 ≤ c && c ≤ 90) = true
  · obtain ⟨least, most, raised⟩ := lower_letter letter
    have small : lower c = c + 32 := if_pos letter
    have settled : ¬ (65 ≤ c + 32 && c + 32 ≤ 90) = true := by
      intro again
      have bound := (lower_letter again).2.1
      omega
    rw [small]
    exact if_neg settled
  · have same : lower c = c := if_neg letter
    rw [same, same]

theorem sameText_self (a : Bytes) : sameText a a = true := beq_self_eq_true _

theorem sameText_symm {a b : Bytes} (h : sameText a b = true) : sameText b a = true := by
  simp only [sameText, beq_iff_eq] at *
  exact h.symm

theorem sameText_trans {a b c : Bytes} (h : sameText a b = true) (h' : sameText b c = true) :
    sameText a c = true := by
  simp only [sameText, beq_iff_eq] at *
  exact h.trans h'

theorem mem_of_sameText {a b : Bytes} (same : sameText a b = true) {d : UInt8} (low : d.toNat < 65)
    (mem : d ∈ a) : d ∈ b := by
  have maps : a.map lower = b.map lower := by simpa [sameText] using same
  have inside : d ∈ b.map lower := maps ▸ List.mem_map.mpr ⟨d, mem, (lower_eq_iff low).mpr rfl⟩
  obtain ⟨c, hc, e⟩ := List.mem_map.mp inside
  exact (lower_eq_iff low).mp e ▸ hc

/-- Space, tab and the bare CR. -/
def blank (c : UInt8) : Bool := c == 32 || c == 9 || c == 13

def trim (s : Bytes) : Bytes := ((s.dropWhile blank).reverse.dropWhile blank).reverse

/-- name and value of a field line -/
def fieldLine (line : Bytes) : Option (Bytes × Bytes) :=
  (find (bytes ":") line).map (fun colon => (line.take colon, trim (line.drop (colon + 1))))

/-- The items of a field value, which are between commas outside of quoted strings. -/
def items : Bool → Bytes → List Bytes
  | _, [] => [[]]
  | true, 92 :: c :: s =>
    match items true s with
    | [] => [[92, c]]
    | item :: more => (92 :: c :: item) :: more
  | quoted, c :: s =>
    if c = 44 ∧ quoted = false then [] :: items false s
    else match items (if c = 34 then !quoted else quoted) s with
      | [] => [[c]]
      | item :: more => (c :: item) :: more

/-- A value of Cache-Control lists this directive, with an argument or without. -/
def lists (value directive : Bytes) : Bool :=
  (items false value).any (fun item => sameText (trim (item.takeWhile (fun c => c != 61))) directive)

/-- The lines of a text, cut at each CRLF. -/
def linesOf : Bytes → List Bytes
  | [] => []
  | 13 :: 10 :: s => [] :: linesOf s
  | c :: s =>
    match linesOf s with
    | [] => [[c]]
    | l :: ls => (c :: l) :: ls

/-- The first line of a message and its header lines. -/
def headLines (message : Bytes) : List Bytes :=
  linesOf (message.take ((find CRLFCRLF message).getD 0 + 2))

/-- The fields of a header block, which has its first line before them. -/
def fieldsOf (head : Bytes) : List (Bytes × Bytes) := (getlines head).tail.filterMap fieldLine

def valuesOf (name : Bytes) (fs : List (Bytes × Bytes)) : List Bytes :=
  (fs.filter (fun f => sameText f.1 name)).map Prod.snd

def ContentLength : Bytes := bytes "Content-Length"
def TransferEncoding : Bytes := bytes "Transfer-Encoding"
def ContentEncoding : Bytes := bytes "Content-Encoding"

/-- The value of a text of digits. -/
def number (s : Bytes) : Option Nat := if s ≠ [] ∧ s.all isdigit then some (decimal s) else none

def hexdigit (c : UInt8) : Option Nat :=
  if 48 ≤ c && c ≤ 57 then some (c.toNat - 48)
  else if 97 ≤ lower c && lower c ≤ 102 then some ((lower c).toNat - 87)
  else none

/-- The size at the start of a chunk, up to its extensions. -/
def chunkSize (line : Bytes) : Option Nat :=
  match line.takeWhile (fun c => (hexdigit c).isSome) with
  | [] => none
  | ds =>
    if (line.drop ds.length).takeWhile (fun c => c != 59) |>.all blank then
      some (ds.foldl (fun n c => 16 * n + (hexdigit c).getD 0) 0)
    else none

/-- The data of a chunked body that ends where the text ends; fuel bounds the chunks. -/
def dechunkLoop : Nat → Bytes → Option Bytes
  | 0, _ => none
  | fuel + 1, s => do
    let eol ← find CRLF s
    let size ← chunkSize (s.take eol)
    let rest := s.drop (eol + 2)
    if size = 0 then
      if rest = CRLF ∨ find CRLFCRLF rest = some (rest.length - 4) then some [] else none
    else if (rest.drop size).take 2 = CRLF then
      (dechunkLoop fuel (rest.drop (size + 2))).map (fun more => rest.take size ++ more)
    else none

def dechunk (s : Bytes) : Option Bytes := dechunkLoop s.length s

/-- The body that the fields describe in the bytes after the header block. -/
def bodyOf (fs : List (Bytes × Bytes)) (rest : Bytes) : Option Bytes :=
  match valuesOf TransferEncoding fs with
  | [] =>
    match valuesOf ContentLength fs with
    | [] => some rest
    | value :: _ => do
      let n ← number value
      if n ≤ rest.length then some (rest.take n) else none
  | [value] => if sameText value (bytes "chunked") then dechunk rest else none
  | _ => none

/-- A body and the codings it is labelled with. -/
structure Representation where
  body : Bytes
  encodings : List Bytes
  deriving DecidableEq

def decode (message : Bytes) : Option Representation := do
  let head_end ← find CRLFCRLF message
  let fs := fieldsOf (message.take head_end)
  let body ← bodyOf fs (message.drop (head_end + 4))
  return ⟨body, valuesOf ContentEncoding fs⟩

example : decode (bytes "HTTP/1.1 200 OK\r\ntransfer-encoding: chunked\r\n\r\n2\r\nab\r\n0\r\n\r\n") =
    some ⟨bytes "ab", []⟩ := by decide

/-! ## Rendered messages -/

/-- A status line, field lines as names with what follows the colon, and the bytes of the body. -/
structure Wire where
  status : Bytes
  fields : List (Bytes × Bytes)
  body : Bytes
  status_line : status ≠ [] ∧ (10 : UInt8) ∉ status
  names : ∀ f ∈ fields, f.1 ≠ [] ∧ (58 : UInt8) ∉ f.1 ∧ ∀ c ∈ f.1, c ≠ 10 ∧ c ≠ 13
  values : ∀ f ∈ fields, (10 : UInt8) ∉ f.2

namespace Wire

def line (f : Bytes × Bytes) : Bytes := f.1 ++ 58 :: f.2

/-- The header block without the empty line that ends it. -/
def head (m : Wire) : Bytes := m.status ++ (m.fields.map line).flatMap (fun l => CRLF ++ l)

def render (m : Wire) : Bytes := m.head ++ CRLFCRLF ++ m.body

/-- The fields as a recipient sees them. -/
def trimmed (m : Wire) : List (Bytes × Bytes) := m.fields.map (fun f => (f.1, trim f.2))

end Wire

/-! ## White space and field lines -/

theorem trim_append_cr (s : Bytes) : trim (s ++ [13]) = trim s := by
  unfold trim
  by_cases h : s.dropWhile blank = []
  · have all : (s ++ [13]).dropWhile blank = [] := by
      rw [List.dropWhile_eq_nil_iff] at h ⊢
      intro c hc
      rcases List.mem_append.mp hc with hc | hc
      · exact h c hc
      · rw [List.mem_singleton.mp hc]
        rfl
    rw [h, all]
  · have keep : (s ++ [13]).dropWhile blank = s.dropWhile blank ++ [13] := by
      rw [List.dropWhile_append]
      simp [h]
    rw [keep, List.reverse_append]
    rfl

theorem trim_space (s : Bytes) : trim (32 :: s) = trim s := rfl

theorem fieldLine_line {f : Bytes × Bytes} (name : (58 : UInt8) ∉ f.1) :
    fieldLine (Wire.line f) = some (f.1, trim f.2) := by
  have colon : find (bytes ":") (f.1 ++ 58 :: f.2) = some f.1.length := find_byte name f.2
  unfold fieldLine Wire.line
  rw [colon]
  simp

theorem fieldLine_line_cr {f : Bytes × Bytes} (name : (58 : UInt8) ∉ f.1) :
    fieldLine (Wire.line f ++ [13]) = some (f.1, trim f.2) := by
  have h := fieldLine_line (f := (f.1, f.2 ++ [13])) name
  rw [trim_append_cr] at h
  simpa [Wire.line] using h

/-! ## Numbers -/

/-- strtol reads a number up to the first byte that is no digit. -/
theorem strtol_number {s t : Bytes} {n : Nat} (h : number s = some n)
    (ended : ∀ c ∈ t.head?, isdigit c = false) : strtol (s ++ t) = some (n : Int) := by
  unfold number at h
  split at h
  · rename_i digits
    rw [← Option.some.inj h]
    exact strtol_of_numeral (numeral_digits digits.1 (List.all_eq_true.mp digits.2) ended)
  · cases h

/-! ## Lines joined by CRLF -/

def joined (l : Bytes) (ls : List Bytes) : Bytes := l ++ ls.flatMap (fun l => CRLF ++ l)

/-- Lines that getline reads where the ends are CRLF and the last line has none. -/
def crLines (l : Bytes) : List Bytes → List Bytes
  | [] => [l]
  | m :: ls => (l ++ [13]) :: crLines m ls

theorem joined_cons (l m : Bytes) (ls : List Bytes) :
    joined l (m :: ls) = l ++ CRLF ++ joined m ls := by
  simp [joined]

theorem getlines_joined {l : Bytes} {ls : List Bytes} (first : l ≠ [] ∧ (10 : UInt8) ∉ l)
    (others : ∀ m ∈ ls, m ≠ [] ∧ (10 : UInt8) ∉ m) : getlines (joined l ls) = crLines l ls := by
  induction ls generalizing l with
  | nil =>
    simp only [joined, List.flatMap_nil, List.append_nil, crLines]
    exact getlines_last first.2 first.1
  | cons m ls ih =>
    have clean : (10 : UInt8) ∉ l ++ [13] := by simp [first.2]
    have split : joined l (m :: ls) = (l ++ [13]) ++ 10 :: joined m ls := by
      rw [joined_cons]
      simp [CRLF_eq]
    rw [split, getlines_line clean, crLines,
      ih (others m List.mem_cons_self) (fun x hx => others x (List.mem_cons_of_mem _ hx))]

/-- CRLFCRLF does not start inside a line. -/
theorem not_prefix_of_line {c : UInt8} {l t : Bytes} (clean : (10 : UInt8) ∉ c :: l) :
    ¬ CRLFCRLF <+: c :: (l ++ CRLF ++ t) := by
  rw [CRLFCRLF_eq, CRLF_eq]
  intro h
  have second := (List.cons_prefix_cons.mp h).2
  cases l with
  | nil =>
    have := (List.cons_prefix_cons.mp second).1
    cases this
  | cons d l =>
    have := (List.cons_prefix_cons.mp second).1
    subst this
    simp at clean

theorem find_over_line {l t : Bytes} (clean : (10 : UInt8) ∉ l)
    (start : ∃ c t', t = c :: t' ∧ c ≠ 13) :
    find CRLFCRLF (l ++ CRLF ++ t) = (find CRLFCRLF t).map (· + (l.length + 2)) := by
  induction l with
  | nil =>
    obtain ⟨c, t', rfl, hc⟩ := start
    have skip₁ : ¬ CRLFCRLF <+: 13 :: 10 :: c :: t' := by
      rw [CRLFCRLF_eq]
      intro h
      have := (List.cons_prefix_cons.mp (List.cons_prefix_cons.mp
        (List.cons_prefix_cons.mp h).2).2).1
      exact hc this.symm
    have skip₂ : ¬ CRLFCRLF <+: 10 :: c :: t' := by
      rw [CRLFCRLF_eq]
      intro h
      have := (List.cons_prefix_cons.mp h).1
      cases this
    change find CRLFCRLF (13 :: 10 :: c :: t') = _
    rw [find_cons_skip skip₁, find_cons_skip skip₂]
    cases find CRLFCRLF (c :: t') <;> rfl
  | cons d l ih =>
    have rest := ih (List.not_mem_of_not_mem_cons clean)
    rw [List.cons_append, List.cons_append, find_cons_skip (not_prefix_of_line clean), rest]
    cases find CRLFCRLF t with
    | none => rfl
    | some i => simp; omega

theorem find_end_of_line {l : Bytes} (clean : (10 : UInt8) ∉ l) (t : Bytes) :
    find CRLFCRLF (l ++ CRLFCRLF ++ t) = some l.length := by
  induction l with
  | nil =>
    rw [List.nil_append]
    exact (find_zero_iff _ _).mpr (List.prefix_append _ _)
  | cons d l ih =>
    have split : l ++ CRLFCRLF ++ t = l ++ CRLF ++ (CRLF ++ t) := by
      simp [CRLF_eq, CRLFCRLF_eq]
    have skip : ¬ CRLFCRLF <+: d :: (l ++ CRLFCRLF ++ t) := split ▸ not_prefix_of_line clean
    rw [List.cons_append, List.cons_append, find_cons_skip skip,
      ih (List.not_mem_of_not_mem_cons clean)]
    rfl

theorem find_joined {l : Bytes} {ls : List Bytes} (first : (10 : UInt8) ∉ l)
    (others : ∀ m ∈ ls, (10 : UInt8) ∉ m ∧ ∃ c m', m = c :: m' ∧ c ≠ 13) (t : Bytes) :
    find CRLFCRLF (joined l ls ++ CRLFCRLF ++ t) = some (joined l ls).length := by
  induction ls generalizing l with
  | nil => simpa [joined] using find_end_of_line first t
  | cons m ls ih =>
    obtain ⟨clean, c, m', rfl, hc⟩ := others m List.mem_cons_self
    have rest := ih clean (fun x hx => others x (List.mem_cons_of_mem _ hx))
    have split : joined l ((c :: m') :: ls) ++ CRLFCRLF ++ t =
        l ++ CRLF ++ (joined (c :: m') ls ++ CRLFCRLF ++ t) := by
      simp [joined_cons]
    have start : ∃ d t', joined (c :: m') ls ++ CRLFCRLF ++ t = d :: t' ∧ d ≠ 13 :=
      ⟨c, _, rfl, hc⟩
    rw [split, find_over_line first start, rest, joined_cons]
    simp [CRLF_eq]
    omega

theorem rotate_ends (ls : List Bytes) :
    CRLF ++ ls.flatMap (fun l => l ++ CRLF) = ls.flatMap (fun l => CRLF ++ l) ++ CRLF := by
  induction ls with
  | nil => simp
  | cons l ls ih =>
    simp only [List.flatMap_cons, List.append_assoc]
    rw [ih]

theorem linesOf_line {l : Bytes} (clean : (10 : UInt8) ∉ l) (s : Bytes) :
    linesOf (l ++ CRLF ++ s) = l :: linesOf s := by
  induction l with
  | nil => rfl
  | cons c l ih =>
    have rest := ih (List.not_mem_of_not_mem_cons clean)
    rw [List.cons_append, List.cons_append, linesOf, rest]
    -- a CR of the line has no LF behind it
    rintro t - next
    cases l with
    | nil => cases next
    | cons d l =>
      obtain ⟨rfl, -⟩ := List.cons.inj next
      simp at clean

theorem linesOf_lines {ls : List Bytes} (clean : ∀ l ∈ ls, (10 : UInt8) ∉ l) :
    linesOf (ls.flatMap (fun l => l ++ CRLF)) = ls := by
  induction ls with
  | nil => rfl
  | cons l ls ih =>
    rw [List.flatMap_cons, linesOf_line (clean l List.mem_cons_self),
      ih (fun m mem => clean m (List.mem_cons_of_mem _ mem))]

/-- The first line begins the text, and the others are inside. -/
theorem linesOf_inside (s : Bytes) :
    (∀ l ls, linesOf s = l :: ls → l <+: s) ∧ ∀ l ∈ linesOf s, l <:+: s := by
  induction s using linesOf.induct with
  | case1 => simp [linesOf]
  | case2 s ih =>
    rw [linesOf]
    refine ⟨?_, ?_⟩
    · intro l ls first
      rw [← (List.cons.inj first).1]
      exact List.nil_prefix
    · intro l mem
      rcases List.mem_cons.mp mem with rfl | later
      · exact List.nil_infix
      · exact (ih.2 l later).trans (List.suffix_append [13, 10] s).isInfix
  | case3 c s other empty ih =>
    rw [linesOf, empty]
    · have alone : [c] <+: c :: s := ⟨s, rfl⟩
      refine ⟨?_, ?_⟩
      · intro l ls first
        rw [← (List.cons.inj first).1]
        exact alone
      · intro l mem
        rw [List.mem_singleton.mp mem]
        exact alone.isInfix
    · exact other
  | case4 c s other l ls lines ih =>
    rw [linesOf, lines]
    · have longer : c :: l <+: c :: s := List.cons_prefix_cons.mpr ⟨rfl, ih.1 l ls lines⟩
      refine ⟨?_, ?_⟩
      · intro m ms first
        rw [← (List.cons.inj first).1]
        exact longer
      · intro m mem
        rcases List.mem_cons.mp mem with rfl | later
        · exact longer.isInfix
        · have inside := ih.2 m (lines ▸ List.mem_cons_of_mem l later)
          exact inside.trans (List.suffix_cons c s).isInfix
    · exact other

/-! ## What a recipient makes of a rendered message -/

namespace Wire

theorem line_clean (m : Wire) : ∀ l ∈ m.fields.map line,
    (10 : UInt8) ∉ l ∧ ∃ c l', l = c :: l' ∧ c ≠ 13 := by
  intro l hl
  obtain ⟨f, hf, rfl⟩ := List.mem_map.mp hl
  obtain ⟨filled, -, clean⟩ := m.names f hf
  constructor
  · simp only [line, List.mem_append, List.mem_cons, not_or]
    exact ⟨fun h => (clean 10 h).1 rfl, by decide, m.values f hf⟩
  · obtain ⟨c, name, hc⟩ := List.exists_cons_of_ne_nil filled
    refine ⟨c, name ++ 58 :: f.2, by simp [line, hc], ?_⟩
    exact (clean c (hc ▸ List.mem_cons_self)).2

theorem find_render (m : Wire) : find CRLFCRLF m.render = some m.head.length :=
  find_joined m.status_line.2 m.line_clean m.body

theorem getlines_head (m : Wire) : getlines m.head = crLines m.status (m.fields.map line) := by
  apply getlines_joined m.status_line
  intro l hl
  obtain ⟨clean, c, l', rfl, -⟩ := m.line_clean l hl
  exact ⟨List.cons_ne_nil c l', clean⟩

theorem filterMap_crLines (fs : List (Bytes × Bytes)) (names : ∀ f ∈ fs, (58 : UInt8) ∉ f.1)
    (l : Bytes) : (crLines l (fs.map line)).tail.filterMap fieldLine =
      fs.map (fun f => (f.1, trim f.2)) := by
  induction fs generalizing l with
  | nil => rfl
  | cons f fs ih =>
    have rest := ih (fun g hg => names g (List.mem_cons_of_mem _ hg)) (line f)
    have name := names f List.mem_cons_self
    cases fs with
    | nil => simp [crLines, fieldLine_line name]
    | cons g fs =>
      simp only [List.map_cons, crLines, List.tail_cons] at rest ⊢
      rw [List.filterMap_cons_some (fieldLine_line_cr name), rest]

theorem fieldsOf_head (m : Wire) : fieldsOf m.head = m.trimmed := by
  rw [fieldsOf, getlines_head]
  exact filterMap_crLines m.fields (fun f hf => (m.names f hf).2.1) m.status

theorem headLines_render (m : Wire) : headLines m.render = m.status :: m.fields.map line := by
  have clean : ∀ l ∈ m.status :: m.fields.map line, (10 : UInt8) ∉ l := by
    intro l mem
    rcases List.mem_cons.mp mem with rfl | mem
    · exact m.status_line.2
    · exact (m.line_clean l mem).1
  have ends : CRLFCRLF = CRLF ++ CRLF := rfl
  have two : (m.head ++ CRLF).length = m.head.length + 2 := by simp [CRLF_eq]
  have head : m.head ++ CRLF = (m.status :: m.fields.map line).flatMap (fun l => l ++ CRLF) := by
    rw [Wire.head, List.append_assoc, ← rotate_ends, List.flatMap_cons, List.append_assoc]
  rw [headLines, find_render, Option.getD_some, ← two, render, ends]
  rw [← List.append_assoc, List.append_assoc (m.head ++ CRLF), List.take_left, head]
  exact linesOf_lines clean

theorem decode_render (m : Wire) : decode m.render =
    (bodyOf m.trimmed m.body).map (fun body => ⟨body, valuesOf ContentEncoding m.trimmed⟩) := by
  have take : m.render.take m.head.length = m.head := by
    simp [render, List.append_assoc]
  have drop : m.render.drop (m.head.length + 4) = m.body := by
    have : (m.head ++ CRLFCRLF).length = m.head.length + 4 := by simp [CRLFCRLF_eq]
    rw [render, ← this, List.drop_left]
  unfold decode
  rw [find_render]
  simp only [Option.bind_eq_bind, Option.bind_some, take, drop, fieldsOf_head]
  cases bodyOf m.trimmed m.body <;> rfl

end Wire

/-- A body that is not in chunks and has its declared length, if any, is all there is. -/
theorem bodyOf_whole {fs : List (Bytes × Bytes)} {rest : Bytes}
    (plain : valuesOf TransferEncoding fs = [])
    (length : ∀ value ∈ valuesOf ContentLength fs, number value = some rest.length) :
    bodyOf fs rest = some rest := by
  unfold bodyOf
  rw [plain]
  cases hv : valuesOf ContentLength fs with
  | nil => rfl
  | cons value values =>
    have total := length value (hv ▸ List.mem_cons_self)
    simp [total]

/-! ## Chunks take more room than their data -/

theorem dechunkLoop_shorter (fuel : Nat) (s body : Bytes) (h : dechunkLoop fuel s = some body) :
    body.length < s.length := by
  induction fuel generalizing s body with
  | zero => cases h
  | succ fuel ih =>
    simp only [dechunkLoop, Option.bind_eq_bind, Option.bind_eq_some_iff] at h
    obtain ⟨eol, heol, size, hsize, h⟩ := h
    have fits := find_le heol
    have crlf : CRLF.length = 2 := rfl
    split_ifs at h with zero last next
    · cases h
      simp only [List.length_nil]
      omega
    · simp only [Option.map_eq_some_iff] at h
      obtain ⟨more, hmore, rfl⟩ := h
      have shorter := ih _ _ hmore
      simp only [List.length_append, List.length_take, List.length_drop] at shorter ⊢
      omega

theorem dechunk_shorter {s body : Bytes} (h : dechunk s = some body) : body.length < s.length :=
  dechunkLoop_shorter _ s body h

end Http
