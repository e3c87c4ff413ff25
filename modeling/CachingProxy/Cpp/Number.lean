import CachingProxy.Cpp.Text
import Mathlib.Algebra.Order.Ring.Int

/-! Numerals and fixed-width numbers as strtol, stoi, stol and system_clock have them.
`int` is Int32; `long` and time_t are Int64; time points are integers that wrap at 64 bits. -/
namespace Cpp

/-- isspace in the C locale -/
def isspace (c : UInt8) : Bool := c == 32 || (9 ≤ c && c ≤ 13)

def isdigit (c : UInt8) : Bool := 48 ≤ c && c ≤ 57

def decimal (ds : Bytes) : Nat := ds.foldl (fun n c => 10 * n + (c.toNat - 48)) 0

/-- The digits in front of a string. -/
def numeral (s : Bytes) : Option Nat :=
  match s.takeWhile isdigit with
  | [] => none
  | ds => some (decimal ds)

/-- strtol in base 10 before its range check; none is a string without a number. -/
def strtol (s : Bytes) : Option Int :=
  match s.dropWhile isspace with
  | 45 :: s => (numeral s).map (fun n => -(n : Int))
  | 43 :: s => (numeral s).map (fun n => (n : Int))
  | s => (numeral s).map (fun n => (n : Int))

def stol (s : Bytes) : Except Exception Int64 :=
  match strtol s with
  | none => .error .invalid_argument
  | some n => if -2 ^ 63 ≤ n ∧ n < 2 ^ 63 then .ok (Int64.ofInt n) else .error .out_of_range

def stoi (s : Bytes) : Except Exception Int32 :=
  match strtol s with
  | none => .error .invalid_argument
  | some n => if -2 ^ 31 ≤ n ∧ n < 2 ^ 31 then .ok (Int32.ofInt n) else .error .out_of_range

/-- The conversion of an int to size_t. -/
def size_t (n : Int32) : Nat := (n.toInt % 2 ^ 64).toNat

/-- system_clock::from_time_t: nanoseconds in 64 bits. -/
def from_time_t (t : Int64) : Int := (t.toInt * 1000000000).bmod (2 ^ 64)

/-- The double nearest to an integer, halfway cases to the even one. -/
def binary64 (n : Int) : Int :=
  let a := n.natAbs
  let k := Nat.log2 a - 52
  let q := a / 2 ^ k
  let r := a % 2 ^ k
  let q' := if 2 * r > 2 ^ k ∨ (2 * r = 2 ^ k ∧ q % 2 = 1) then q + 1 else q
  n.sign * (q' * 2 ^ k)

/-- difftime(t1, t0) -/
def difftime (t1 t0 : Int64) : Int := binary64 (t1.toInt - t0.toInt)

/-- `long > double` -/
def exceeds (n : Int64) (d : Int) : Bool := decide (binary64 n.toInt > d)

theorem stoi_ok {s : Bytes} {n : Int32} (read : stoi s = .ok n) : strtol s = some n.toInt := by
  unfold stoi at read
  cases number : strtol s with
  | none =>
    rw [number] at read
    cases read
  | some m =>
    rw [number] at read
    dsimp only at read
    split at read
    · rename_i inside
      cases read
      rw [Int32.toInt_ofInt_of_le inside.1 inside.2]
    · cases read

theorem isdigit_range {c : UInt8} (h : isdigit c = true) : 48 ≤ c.toNat ∧ c.toNat ≤ 57 := by
  simp only [isdigit, Bool.and_eq_true, decide_eq_true_eq, UInt8.le_iff_toNat_le] at h
  exact h

theorem strtol_of_digit {c : UInt8} (h : isdigit c = true) (s : Bytes) :
    strtol (c :: s) = (numeral (c :: s)).map (fun n => (n : Int)) := by
  have range := isdigit_range h
  have nonspace : isspace c = false := by
    simp only [isspace, Bool.or_eq_false_iff, Bool.and_eq_false_iff, beq_eq_false_iff_ne,
      decide_eq_false_iff_not, UInt8.le_iff_toNat_le, ne_eq, ← UInt8.toNat_inj, UInt8.reduceToNat]
    omega
  have minus : c ≠ 45 := by
    intro e
    subst e
    simp at range
  have plus : c ≠ 43 := by
    intro e
    subst e
    simp at range
  unfold strtol
  rw [List.dropWhile_cons_of_neg (by simp [nonspace])]
  split
  · rename_i e
    exact absurd (List.cons.inj e).1 minus
  · rename_i e
    exact absurd (List.cons.inj e).1 plus
  · rfl

/-- Digits in front are read as their decimal value, whatever follows them. -/
theorem strtol_of_numeral {s : Bytes} {n : Nat} (h : numeral s = some n) :
    strtol s = some (n : Int) := by
  cases s with
  | nil => cases h
  | cons c s =>
    cases digit : isdigit c with
    | true =>
      rw [strtol_of_digit digit, h]
      rfl
    | false => simp [numeral, digit] at h

/-! ## What ends a number -/

theorem numeral_append {c : UInt8} (nondigit : isdigit c = false) (s t : Bytes) :
    numeral (s ++ c :: t) = numeral s := by
  have digits : (s ++ c :: t).takeWhile isdigit = s.takeWhile isdigit := by
    rw [List.takeWhile_append]
    split
    · rename_i all
      have whole : s.takeWhile isdigit = s :=
        (List.takeWhile_prefix isdigit).eq_of_length all
      rw [List.takeWhile_cons_of_neg (by simp [nondigit]), List.append_nil, whole]
    · rfl
  unfold numeral
  rw [digits]

theorem strtol_unsigned {s x : Bytes} (rest : s.dropWhile isspace = x)
    (unsigned : ∀ t, x ≠ 45 :: t ∧ x ≠ 43 :: t) :
    strtol s = (numeral x).map (fun n => (n : Int)) := by
  unfold strtol
  rw [rest]
  split
  · exact absurd rfl (unsigned _).1
  · exact absurd rfl (unsigned _).2
  · rfl

/-- Behind its first byte that is no space, a number ends before any byte that is no digit. -/
theorem strtol_append {c d : UInt8} (nondigit : isdigit c = false) {s rest : Bytes}
    (start : s.dropWhile isspace = d :: rest) (t : Bytes) : strtol (s ++ c :: t) = strtol s := by
  have start' : (s ++ c :: t).dropWhile isspace = d :: rest ++ c :: t := by
    rw [List.dropWhile_append, start]
    rfl
  by_cases minus : d = 45
  · subst minus
    unfold strtol
    rw [start, start', List.cons_append]
    simp only [numeral_append nondigit]
  · by_cases plus : d = 43
    · subst plus
      unfold strtol
      rw [start, start', List.cons_append]
      simp only [numeral_append nondigit]
    · have unsigned (x : Bytes) : ∀ t, d :: x ≠ 45 :: t ∧ d :: x ≠ 43 :: t :=
        fun t => ⟨fun e => minus (List.cons.inj e).1, fun e => plus (List.cons.inj e).1⟩
      rw [strtol_unsigned start (unsigned rest), strtol_unsigned start' (unsigned _),
        numeral_append nondigit]

theorem strtol_append_cr (s : Bytes) : strtol (s ++ [13]) = strtol s := by
  cases start : s.dropWhile isspace with
  | nil =>
    have start' : (s ++ [13]).dropWhile isspace = [] := by
      rw [List.dropWhile_append, start]
      rfl
    rw [strtol_unsigned start (by simp), strtol_unsigned start' (by simp)]
  | cons d rest => exact strtol_append (by decide) start []

/-- A byte that cannot be a part of a number ends it, or keeps it from starting. -/
theorem strtol_append_solid {c : UInt8} (nondigit : isdigit c = false) (solid : isspace c = false)
    (unsigned : c ≠ 45 ∧ c ≠ 43) (s t : Bytes) : strtol (s ++ c :: t) = strtol s := by
  cases start : s.dropWhile isspace with
  | nil =>
    have start' : (s ++ c :: t).dropWhile isspace = c :: t := by
      rw [List.dropWhile_append, start]
      exact List.dropWhile_cons_of_neg (by simp [solid])
    have no_number : numeral (c :: t) = numeral [] := by
      unfold numeral
      rw [List.takeWhile_cons_of_neg (by simp [nondigit])]
      rfl
    rw [strtol_unsigned start (by simp), strtol_unsigned start' (fun t => ⟨?_, ?_⟩), no_number]
    · exact fun e => unsigned.1 (List.cons.inj e).1
    · exact fun e => unsigned.2 (List.cons.inj e).1
  | cons d rest => exact strtol_append nondigit start t

theorem strtol_append_comma (s t : Bytes) : strtol (s ++ 44 :: t) = strtol s :=
  strtol_append_solid (by decide) (by decide) (by decide) s t

/-- Digits do not hide or make a pattern that has none. -/
theorem contains_digits {pat : Bytes} (filled : pat ≠ []) (clean : ∀ c ∈ pat, isdigit c = false)
    {digits : Bytes} (numeric : ∀ c ∈ digits, isdigit c = true) (t : Bytes) :
    contains (digits ++ t) pat = contains t pat := by
  induction digits with
  | nil => rfl
  | cons d digits ih =>
    obtain ⟨digit, rest⟩ := List.forall_mem_cons.mp numeric
    have outside : d ∉ pat := fun mem => absurd (digit.symm.trans (clean d mem)) (by decide)
    have nothing : contains [] pat = false := by
      rw [← Bool.not_eq_true, contains_iff]
      exact fun inside => filled (List.infix_nil.mp inside)
    have around := contains_around filled outside [] (digits ++ t)
    rw [List.nil_append, nothing, Bool.false_or] at around
    rw [List.cons_append, around, ih rest]

theorem numeral_digits {digits t : Bytes} (filled : digits ≠ [])
    (numeric : ∀ c ∈ digits, isdigit c = true) (ended : ∀ c ∈ t.head?, isdigit c = false) :
    numeral (digits ++ t) = some (decimal digits) := by
  have own : (digits ++ t).takeWhile isdigit = digits := by
    rw [List.takeWhile_append_of_pos numeric]
    cases t with
    | nil => simp
    | cons c t =>
      rw [List.takeWhile_cons_of_neg (by simp [ended c rfl]), List.append_nil]
  unfold numeral
  rw [own]
  obtain ⟨d, digits, rfl⟩ := List.exists_cons_of_ne_nil filled
  rfl

theorem stol_congr {s t : Bytes} (same : strtol s = strtol t) : stol s = stol t := by
  rw [stol, stol, same]

theorem stoi_congr {s t : Bytes} (same : strtol s = strtol t) : stoi s = stoi t := by
  rw [stoi, stoi, same]

end Cpp
