import Mathlib.Data.List.Infix
import Mathlib.Data.List.TakeWhile

/-! Byte strings with the searches and cuts of std::string and std::getline.
Positions are naturals and npos is none. A cut that starts past the end throws. -/
namespace Cpp

abbrev Bytes := List UInt8

/-- The bytes of a literal of the source; all of them are ASCII. -/
def bytes (s : String) : Bytes := s.toList.map (fun c => c.toNat.toUInt8)

def CRLF : Bytes := bytes "\r\n"
def CRLFCRLF : Bytes := bytes "\r\n\r\n"

theorem CRLF_eq : CRLF = [13, 10] := rfl
theorem CRLFCRLF_eq : CRLFCRLF = [13, 10, 13, 10] := rfl

/-- The exceptions of the standard library, and a program's own by their what(). -/
inductive Exception where
  | invalid_argument
  | out_of_range
  | runtime_error
  | other (what : String)
  deriving DecidableEq

theorem not_ok_iff {α : Type} (x : Except Exception α) : (¬ ∃ a, x = .ok a) ↔ ∃ e, x = .error e := by
  cases x <;> simp

def find (pat : Bytes) : Bytes → Option Nat
  | [] => if pat = [] then some 0 else none
  | c :: s => if pat.isPrefixOf (c :: s) then some 0 else (find pat s).map (· + 1)

def findFrom (pat s : Bytes) (pos : Nat) : Option Nat := (find pat (s.drop pos)).map (· + pos)

def contains (s pat : Bytes) : Bool := (find pat s).isSome

def substrFrom (s : Bytes) (pos : Nat) : Except Exception Bytes :=
  if pos ≤ s.length then .ok (s.drop pos) else .error .out_of_range

/-- What a function that takes c_str() sees of a string. -/
def c_str (s : Bytes) : Bytes := s.takeWhile (fun c => c != 0)

/-- The lines repeated calls of getline extract until the first one that fails. -/
def getlines : Bytes → List Bytes
  | [] => []
  | c :: s =>
    if c = 10 then [] :: getlines s
    else match getlines s with
      | [] => [[c]]
      | l :: ls => (c :: l) :: ls

theorem find_eq_some_iff (pat s : Bytes) (i : Nat) :
    find pat s = some i ↔ i ≤ s.length ∧ pat <+: s.drop i ∧ ∀ j < i, ¬ pat <+: s.drop j := by
  induction s generalizing i with
  | nil =>
    by_cases h : pat = []
    · subst h
      constructor
      · intro e
        cases e
        simp
      · rintro ⟨hi, -, -⟩
        cases Nat.le_zero.mp hi
        rfl
    · simp [find, h]
  | cons c s ih =>
    by_cases h : pat <+: c :: s
    · simp only [find, List.isPrefixOf_iff_prefix.mpr h, if_true]
      constructor
      · intro e
        cases e
        exact ⟨Nat.zero_le _, h, fun j hj => absurd hj (Nat.not_lt_zero j)⟩
      · rintro ⟨-, -, first⟩
        cases i with
        | zero => rfl
        | succ i => exact absurd h (first 0 (Nat.succ_pos i))
    · have hp : pat.isPrefixOf (c :: s) = false := by
        simpa [← List.isPrefixOf_iff_prefix] using h
      simp only [find, hp, Bool.false_eq_true, if_false]
      cases i with
      | zero =>
        constructor
        · intro e
          simp at e
        · rintro ⟨-, hz, -⟩
          exact absurd hz h
      | succ i =>
        simp only [Option.map_eq_some_iff, Nat.add_right_cancel_iff, exists_eq_right, ih,
          List.length_cons, Nat.add_le_add_iff_right, List.drop_succ_cons]
        constructor
        · rintro ⟨hi, hd, first⟩
          refine ⟨hi, hd, ?_⟩
          intro j hj
          cases j with
          | zero => exact h
          | succ j => exact first j (Nat.lt_of_succ_lt_succ hj)
        · rintro ⟨hi, hd, first⟩
          exact ⟨hi, hd, fun j hj => first (j + 1) (Nat.succ_lt_succ hj)⟩

theorem find_le {pat s : Bytes} {i : Nat} (h : find pat s = some i) : i + pat.length ≤ s.length := by
  obtain ⟨hi, hd, -⟩ := (find_eq_some_iff pat s i).mp h
  have := hd.length_le
  rw [List.length_drop] at this
  omega

/-- A found pattern cuts the string in three. -/
theorem find_split {pat s : Bytes} {i : Nat} (h : find pat s = some i) :
    s = s.take i ++ pat ++ s.drop (i + pat.length) := by
  obtain ⟨-, hd, -⟩ := (find_eq_some_iff pat s i).mp h
  obtain ⟨t, ht⟩ := hd
  have hdrop : s.drop (i + pat.length) = t := by
    rw [← List.drop_drop, ← ht, List.drop_left]
  rw [hdrop, List.append_assoc, ht, List.take_append_drop]

/-- The first `pat` in a string stands between these two parts. -/
structure CutAt (pat s front back : Bytes) : Prop where
  whole : s = front ++ pat ++ back
  first : ∀ front' back', s = front' ++ pat ++ back' → front.length ≤ front'.length

theorem cutAt_iff (pat s front back : Bytes) : CutAt pat s front back ↔
    ∃ pos, find pat s = some pos ∧ front = s.take pos ∧ back = s.drop (pos + pat.length) := by
  constructor
  · rintro ⟨rfl, first⟩
    refine ⟨front.length, (find_eq_some_iff _ _ _).mpr ⟨by simp, ?_, ?_⟩, ?_, ?_⟩
    · rw [List.append_assoc, List.drop_left]
      exact List.prefix_append _ _
    · rintro j inside ⟨t, here⟩
      have parts := first ((front ++ pat ++ back).take j) t (by
        rw [List.append_assoc (List.take _ _), here, List.take_append_drop])
      rw [List.length_take] at parts
      omega
    · rw [List.append_assoc, List.take_left]
    · rw [← List.length_append, List.drop_left]
  · rintro ⟨pos, found, rfl, rfl⟩
    obtain ⟨inside, -, first⟩ := (find_eq_some_iff _ _ _).mp found
    refine ⟨find_split found, fun front' back' parts => ?_⟩
    by_contra shorter
    rw [List.length_take, Nat.min_eq_left inside] at shorter
    apply first front'.length (by omega)
    rw [parts, List.append_assoc, List.drop_left]
    exact List.prefix_append _ _

theorem contains_iff (s pat : Bytes) : contains s pat = true ↔ pat <:+: s := by
  induction s with
  | nil =>
    rw [List.infix_nil]
    by_cases h : pat = [] <;> simp [contains, find, h]
  | cons c s ih =>
    rw [List.infix_cons_iff, ← ih]
    by_cases h : pat <+: c :: s
    · simp [contains, find, List.isPrefixOf_iff_prefix.mpr h, h]
    · have hp : pat.isPrefixOf (c :: s) = false := by
        simpa [← List.isPrefixOf_iff_prefix] using h
      simp [contains, find, hp, h]

theorem find_eq_none_iff (pat s : Bytes) : find pat s = none ↔ ¬ pat <:+: s := by
  rw [← contains_iff, contains]
  cases find pat s <;> simp

/-- What is found in a string is found at the same place after more bytes have arrived. -/
theorem find_append {pat s : Bytes} {i : Nat} (h : find pat s = some i) (t : Bytes) :
    find pat (s ++ t) = some i := by
  have fits := find_le h
  obtain ⟨hi, hd, first⟩ := (find_eq_some_iff pat s i).mp h
  refine (find_eq_some_iff pat (s ++ t) i).mpr ⟨by simp; omega, ?_, ?_⟩
  · rw [List.drop_append_of_le_length hi]
    exact hd.trans (List.prefix_append _ _)
  · intro j hj hp
    rw [List.drop_append_of_le_length (by omega)] at hp
    refine first j hj (List.prefix_of_prefix_length_le hp (List.prefix_append _ _) ?_)
    rw [List.length_drop]
    omega

/-- The first occurrence of a string that is a prefix is at position 0. -/
theorem find_zero_iff (pat s : Bytes) : find pat s = some 0 ↔ pat <+: s := by
  rw [find_eq_some_iff]
  simp

theorem find_cons_skip {pat : Bytes} {c : UInt8} {s : Bytes} (h : ¬ pat <+: c :: s) :
    find pat (c :: s) = (find pat s).map (· + 1) := by
  have hp : pat.isPrefixOf (c :: s) = false := by
    simpa [← List.isPrefixOf_iff_prefix] using h
  simp only [find, hp, Bool.false_eq_true, if_false]

theorem find_byte {c : UInt8} {s : Bytes} (clean : c ∉ s) (t : Bytes) :
    find [c] (s ++ c :: t) = some s.length := by
  induction s with
  | nil => simp [find]
  | cons d s ih =>
    obtain ⟨hd, hs⟩ := List.ne_and_not_mem_of_not_mem_cons clean
    have skip : ¬ [c] <+: d :: (s ++ c :: t) := by
      rw [List.cons_prefix_cons]
      exact fun e => hd e.1
    rw [List.cons_append, find_cons_skip skip, ih hs]
    rfl

theorem find_byte_none {c : UInt8} {s : Bytes} (clean : c ∉ s) : find [c] s = none := by
  rw [find_eq_none_iff, List.singleton_infix_iff]
  exact clean

/-- The first of these bytes cuts a string in one way only. -/
theorem byte_split {c : UInt8} {a b s t : Bytes} (ha : c ∉ a) (hb : c ∉ b)
    (same : a ++ c :: s = b ++ c :: t) : a = b ∧ s = t := by
  have lengths := (find_byte ha s).symm.trans (same ▸ find_byte hb t)
  obtain ⟨rfl, tails⟩ := List.append_inj same (Option.some.inj lengths)
  exact ⟨rfl, (List.cons.inj tails).2⟩

/-- A byte that the pattern has not separates where it can be found. -/
theorem contains_separated {c : UInt8} {pat : Bytes} (clean : c ∉ pat) {t s : Bytes}
    (h : contains (t ++ c :: s) pat = true) : contains t pat = true ∨ contains s pat = true := by
  simp only [contains_iff] at h ⊢
  obtain ⟨a, b, whole⟩ := h
  rcases List.append_eq_append_iff.mp whole with ⟨x, rfl, -⟩ | ⟨x, start, tail⟩
  · exact Or.inl ⟨a, x, rfl⟩
  · cases x with
    | nil => exact Or.inl ⟨a, [], by simpa using start⟩
    | cons d x =>
      obtain ⟨rfl, rest⟩ := List.cons.inj tail
      rcases List.append_eq_append_iff.mp start with ⟨y, -, inside⟩ | ⟨z, -, after⟩
      · exact absurd (inside ▸ List.mem_append_right y List.mem_cons_self) clean
      · cases z with
        | nil =>
          have begins : pat = c :: x := after.symm
          exact absurd (begins ▸ List.mem_cons_self) clean
        | cons e z =>
          obtain ⟨-, rfl⟩ := List.cons.inj after
          exact Or.inr ⟨z, b, rest.symm⟩

theorem prefix_before {c : UInt8} {pat s t : Bytes} (clean : c ∉ pat)
    (h : pat <+: s ++ c :: t) : pat <+: s := by
  rcases List.prefix_or_prefix_of_prefix h (List.prefix_append s (c :: t)) with inside | ⟨u, rfl⟩
  · exact inside
  · rw [List.prefix_append_right_inj] at h
    cases u with
    | nil => simp
    | cons e u =>
      obtain rfl := (List.cons_prefix_cons.mp h).1
      simp at clean

/-- What is not found before a byte that the pattern has not is looked for behind it. -/
theorem find_after {c : UInt8} {pat s : Bytes} (filled : pat ≠ []) (clean : c ∉ pat)
    (absent : find pat s = none) (t : Bytes) :
    find pat (s ++ c :: t) = (find pat t).map (· + (s.length + 1)) := by
  induction s with
  | nil =>
    have skip : ¬ pat <+: c :: t := by
      intro h
      exact filled (List.prefix_nil.mp (prefix_before (s := []) clean h))
    exact find_cons_skip skip
  | cons d s ih =>
    have skip : ¬ pat <+: d :: (s ++ c :: t) := by
      intro h
      rw [(find_zero_iff pat (d :: s)).mpr (prefix_before (s := d :: s) clean h)] at absent
      cases absent
    have rest : find pat s = none := by
      rw [find_eq_none_iff] at absent ⊢
      exact fun h => absent (h.trans (List.suffix_cons d s).isInfix)
    rw [List.cons_append, find_cons_skip skip, ih rest]
    cases find pat t with
    | none => rfl
    | some i => simp; omega

theorem find_after_end {pat s : Bytes} (filled : pat ≠ []) (clean : ∀ c ∈ CRLFCRLF, c ∉ pat)
    (absent : find pat s = none) (t : Bytes) :
    find pat (s ++ CRLFCRLF ++ t) = (find pat t).map (· + (s.length + 4)) := by
  have cr : (13 : UInt8) ∉ pat := clean 13 (by decide)
  have lf : (10 : UInt8) ∉ pat := clean 10 (by decide)
  have nothing : find pat [] = none := by simp [find, filled]
  rw [List.append_assoc, CRLFCRLF_eq]
  rw [List.cons_append, find_after filled cr absent]
  rw [List.cons_append, ← List.nil_append (10 :: _), find_after filled lf nothing]
  rw [List.cons_append, ← List.nil_append (13 :: _), find_after filled cr nothing]
  rw [List.cons_append, ← List.nil_append (10 :: _), find_after filled lf nothing]
  rw [List.nil_append]
  cases find pat t with
  | none => rfl
  | some i => simp; omega

theorem find_append_byte {c : UInt8} {pat : Bytes} (filled : pat ≠ []) (clean : c ∉ pat)
    (s : Bytes) : find pat (s ++ [c]) = find pat s := by
  cases found : find pat s with
  | some i => exact find_append found [c]
  | none =>
    rw [find_after filled clean found]
    simp [find, filled]

theorem contains_around {c : UInt8} {pat : Bytes} (filled : pat ≠ []) (clean : c ∉ pat)
    (s t : Bytes) : contains (s ++ c :: t) pat = (contains s pat || contains t pat) := by
  unfold contains
  cases found : find pat s with
  | some i => simp [find_append found]
  | none => simp [find_after filled clean found]

/-- A pattern whose last byte is nowhere else in it is found first where it is put behind a text
without it. -/
theorem find_ended {c : UInt8} {front s : Bytes} (clean : c ∉ front)
    (absent : find (front ++ [c]) s = none) (t : Bytes) :
    find (front ++ [c]) (s ++ (front ++ [c]) ++ t) = some s.length := by
  rw [find_eq_some_iff]
  refine ⟨by simp, ?_, ?_⟩
  · rw [List.append_assoc, List.drop_left]
    exact List.prefix_append _ _
  · rintro j inside ⟨u, split⟩
    rw [List.append_assoc s, List.drop_append_of_le_length (Nat.le_of_lt inside)] at split
    have rest := List.drop_suffix j s
    generalize hx : s.drop j = x at split rest
    have filled : x ≠ [] := by
      rw [← hx]
      simpa using inside
    by_cases mem : c ∈ x
    · obtain ⟨a, b, rfl, before⟩ := List.eq_append_cons_of_mem mem
      have same : front ++ c :: u = a ++ c :: (b ++ (front ++ [c] ++ t)) := by
        simpa using split
      obtain ⟨rfl, -⟩ := byte_split clean before same
      rw [find_eq_none_iff] at absent
      apply absent
      exact (List.infix_append [] (front ++ [c]) b).trans (by simpa using rest.isInfix)
    · have same : front ++ c :: u = (x ++ front) ++ c :: t := by simpa using split
      obtain ⟨longer, -⟩ := byte_split clean (by simp [mem, clean]) same
      exact filled (List.self_eq_append_left.mp longer)

theorem substrFrom_ok {s : Bytes} {pos : Nat} (h : pos ≤ s.length) :
    substrFrom s pos = .ok (s.drop pos) := if_pos h

theorem getlines_line {l : Bytes} (clean : (10 : UInt8) ∉ l) (s : Bytes) :
    getlines (l ++ 10 :: s) = l :: getlines s := by
  induction l with
  | nil => simp [getlines]
  | cons c l ih =>
    obtain ⟨hc, hl⟩ := List.ne_and_not_mem_of_not_mem_cons clean
    simp [getlines, Ne.symm hc, ih hl]

theorem getlines_last {l : Bytes} (clean : (10 : UInt8) ∉ l) (filled : l ≠ []) :
    getlines l = [l] := by
  induction l with
  | nil => exact absurd rfl filled
  | cons c l ih =>
    obtain ⟨hc, hl⟩ := List.ne_and_not_mem_of_not_mem_cons clean
    cases l with
    | nil => simp [getlines, Ne.symm hc]
    | cons d l =>
      have h := ih hl (List.cons_ne_nil d l)
      rw [getlines, if_neg (Ne.symm hc), h]

/-- Cut at each LF, a text that is empty or ends in one has an empty piece behind its lines. -/
theorem splitOn_getlines (s : Bytes) :
    s.splitOn 10 = getlines s ∨ s.splitOn 10 = getlines s ++ [[]] := by
  induction s with
  | nil => exact Or.inr rfl
  | cons c s ih =>
    rw [List.splitOn_cons_eq_if_modifyHead, getlines]
    by_cases lf : c = 10
    · rw [if_pos (beq_iff_eq.mpr lf), if_pos lf]
      rcases ih with same | more
      · exact Or.inl (by rw [same])
      · exact Or.inr (by rw [more]; rfl)
    · rw [if_neg (mt beq_iff_eq.mp lf), if_neg lf]
      cases lines : getlines s with
      | nil =>
        rw [lines] at ih
        rcases ih with same | more
        · exact absurd same (List.splitOn_ne_nil 10 s)
        · exact Or.inl (by rw [more]; rfl)
      | cons l ls =>
        rw [lines] at ih
        rcases ih with same | more
        · exact Or.inl (by rw [same]; rfl)
        · exact Or.inr (by rw [more]; rfl)

/-- Up to the first empty line it makes no difference. -/
theorem getlines_tail (s : Bytes) : (getlines s).tail.takeWhile (fun l => l != []) =
    (s.splitOn 10).tail.takeWhile (fun l => l != []) := by
  rcases splitOn_getlines s with same | more
  · rw [same]
  · rw [more]
    cases getlines s with
    | nil => rfl
    | cons l ls =>
      rw [List.cons_append, List.tail_cons, List.tail_cons, List.takeWhile_append]
      split
      · rename_i all
        have whole : ls.takeWhile (fun l => l != []) = ls :=
          (List.takeWhile_prefix _).eq_of_length all
        rw [whole]
        exact (List.append_nil ls).symm
      · rfl

end Cpp
