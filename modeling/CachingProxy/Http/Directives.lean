import CachingProxy.Http.Message

/-! Directives of Cache-Control that have an argument. A directive is an item of the list, its name
has no case, and its argument is what follows the equals sign. In a list that is written plainly it
is also what a search for the name and the equals sign comes to. -/
namespace Http
open Cpp

/-- What an item names. -/
def itemName (item : Bytes) : Bytes := trim (item.takeWhile (fun c => c != 61))

/-- What follows the first equals sign of an item. -/
def itemArgument (item : Bytes) : Bytes := trim ((item.dropWhile (fun c => c != 61)).drop 1)

def isNamed (directive item : Bytes) : Bool := sameText (itemName item) directive

/-- The argument of the first directive of that name. -/
def argument (value directive : Bytes) : Option Bytes :=
  ((items false value).find? (isNamed directive)).map itemArgument

/-- An argument that is a number of seconds. -/
def seconds (value directive : Bytes) : Option Nat := (argument value directive).bind number

/-- The freshness lifetime in a shared cache: s-maxage where the value lists it, else max-age. -/
def lifetime (value : Bytes) : Option Nat :=
  if lists value (bytes "s-maxage") then seconds value (bytes "s-maxage")
  else seconds value (bytes "max-age")

example : lifetime (bytes " x-max-age=1000, note=\"max-age=7\", Max-Age=5\r") = some 5 := by decide

/-- Wherever the name and its equals sign are found in the item, or the item names it, it begins
with them. -/
def Begun (directive item : Bytes) : Prop :=
  contains item (directive ++ [61]) = true ∨ isNamed directive item = true →
    directive ++ [61] <+: item.dropWhile blank

/-- A list without quoted strings in which the directive is written as it is searched for. -/
structure Plain (directive value : Bytes) : Prop where
  unquoted : (34 : UInt8) ∉ value
  begun : ∀ item ∈ items false value, Begun directive item

theorem lists_eq (value directive : Bytes) : lists value directive =
    (items false value).any (isNamed directive) := rfl

/-! ## Blanks -/

theorem isspace_of_blank {c : UInt8} (h : blank c = true) : isspace c = true := by
  simp only [blank, Bool.or_eq_true, beq_iff_eq] at h
  rcases h with (rfl | rfl) | rfl <;> decide

/-- What trim leaves stands between blanks. -/
theorem trim_between (s : Bytes) : ∃ front back, s = front ++ (trim s ++ back) ∧
    (∀ c ∈ front, blank c = true) ∧ ∀ c ∈ back, blank c = true := by
  have cut := List.takeWhile_append_dropWhile (p := blank) (l := (s.dropWhile blank).reverse)
  refine ⟨s.takeWhile blank, ((s.dropWhile blank).reverse.takeWhile blank).reverse, ?_, ?_, ?_⟩
  · have rest := congrArg List.reverse cut
    rw [List.reverse_append, List.reverse_reverse] at rest
    rw [trim, rest, List.takeWhile_append_dropWhile]
  · exact fun c mem => List.mem_takeWhile_imp mem
  · exact fun c mem => List.mem_takeWhile_imp (List.mem_reverse.mp mem)

theorem trim_front {front s : Bytes} (blanks : ∀ c ∈ front, blank c = true)
    (solid : ∀ c ∈ s, blank c = false) : trim (front ++ s) = s := by
  have bare (t : Bytes) (solid : ∀ c ∈ t, blank c = false) : t.dropWhile blank = t := by
    cases t with
    | nil => rfl
    | cons c t => exact List.dropWhile_cons_of_neg (by simp [solid c List.mem_cons_self])
  rw [trim, List.dropWhile_append_of_pos blanks, bare s solid, bare s.reverse,
    List.reverse_reverse]
  exact fun c mem => solid c (List.mem_reverse.mp mem)

theorem find_blanks {pat front : Bytes} {c : UInt8} (solid : blank c = false)
    (blanks : ∀ b ∈ front, blank b = true) (s : Bytes) :
    find (c :: pat) (front ++ s) = (find (c :: pat) s).map (· + front.length) := by
  induction front with
  | nil => simp
  | cons b front ih =>
    obtain ⟨here, rest⟩ := List.forall_mem_cons.mp blanks
    have skip : ¬ c :: pat <+: b :: (front ++ s) := by
      intro start
      rw [(List.cons_prefix_cons.mp start).1, here] at solid
      cases solid
    rw [List.cons_append, find_cons_skip skip, ih rest]
    cases find (c :: pat) s with
    | none => rfl
    | some i => simp; omega

/-- strtol reads a number with blanks around it, whatever follows. -/
theorem strtol_of_number {s : Bytes} {n : Nat} (h : number (trim s) = some n) :
    strtol s = some (n : Int) := by
  obtain ⟨front, back, split, blanks, blanks'⟩ := trim_between s
  have ended : ∀ c ∈ back.head?, isdigit c = false := by
    intro c mem
    have space := isspace_of_blank (blanks' c (List.mem_of_mem_head? mem))
    simp only [isspace, Bool.or_eq_true, Bool.and_eq_true, beq_iff_eq, decide_eq_true_eq,
      UInt8.le_iff_toNat_le, UInt8.reduceToNat, ← UInt8.toNat_inj] at space
    rw [← Bool.not_eq_true]
    intro digit
    have range := isdigit_range digit
    omega
  have behind : strtol s = strtol (trim s ++ back) := by
    conv_lhs => rw [split]
    unfold strtol
    rw [List.dropWhile_append_of_pos (fun c mem => isspace_of_blank (blanks c mem))]
  rw [behind, strtol_number h ended]

/-! ## Lists without quoted strings -/

theorem items_unquoted {value : Bytes} (unquoted : (34 : UInt8) ∉ value) :
    items false value = value.splitOn 44 := by
  induction value with
  | nil => rfl
  | cons c value ih =>
    obtain ⟨other, rest⟩ := List.ne_and_not_mem_of_not_mem_cons unquoted
    rw [List.splitOn_cons_eq_if_modifyHead, items]
    · by_cases comma : c = 44
      · simp [comma, ih rest]
      · simp only [comma, false_and, if_false, beq_iff_eq, Ne.symm other, ih rest]
        cases pieces : value.splitOn 44 with
        | nil => exact absurd pieces (List.splitOn_ne_nil 44 value)
        | cons item more => rfl
    · simp

/-- A name that can be searched for: no blank, no comma, no equals sign. -/
structure Searchable (directive : Bytes) : Prop where
  filled : directive ≠ []
  solid : ∀ c ∈ directive, blank c = false
  clean : (44 : UInt8) ∉ directive ∧ (61 : UInt8) ∉ directive

section search

variable {directive : Bytes} (known : Searchable directive)
include known

/-- An item that begins with the name. -/
theorem item_parts {item : Bytes} (front : directive ++ [61] <+: item.dropWhile blank) :
    itemName item = directive ∧ ∃ tail, itemArgument item = trim tail ∧
      ∃ pos, find (directive ++ [61]) item = some pos ∧
        item.drop (pos + (directive ++ [61]).length) = tail := by
  obtain ⟨tail, behind⟩ := front
  have split := (List.takeWhile_append_dropWhile (p := blank) (l := item)).symm
  have blanks : ∀ c ∈ item.takeWhile blank, blank c = true :=
    fun c mem => List.mem_takeWhile_imp mem
  generalize item.takeWhile blank = front at split blanks
  rw [← behind] at split
  subst split
  have unequal : ∀ c ∈ front ++ directive, (c != 61) = true := by
    intro c mem
    simp only [bne_iff_ne]
    rintro rfl
    rcases List.mem_append.mp mem with mem | mem
    · cases blanks 61 mem
    · exact known.clean.2 mem
  have form : front ++ (directive ++ [61] ++ tail) = (front ++ directive) ++ 61 :: tail := by simp
  refine ⟨?_, tail, ?_, front.length, ?_, ?_⟩
  · rw [itemName, form, List.takeWhile_append_of_pos unequal, List.takeWhile_cons_of_neg (by simp),
      List.append_nil]
    exact trim_front blanks known.solid
  · rw [itemArgument, form, List.dropWhile_append_of_pos unequal,
      List.dropWhile_cons_of_neg (by simp), List.drop_one, List.tail_cons]
  · obtain ⟨c, name, rfl⟩ := List.exists_cons_of_ne_nil known.filled
    have start : find (c :: (name ++ [61])) (c :: (name ++ [61] ++ tail)) = some 0 :=
      (find_zero_iff _ _).mpr ⟨tail, rfl⟩
    rw [List.cons_append, List.cons_append, find_blanks (known.solid c List.mem_cons_self) blanks,
      start, Option.map_some, Nat.zero_add]
  · rw [← List.append_assoc, ← List.length_append, List.drop_left]

/-- In such an item the name is found exactly where the item names it. -/
theorem found_iff {item : Bytes} (begun : Begun directive item) :
    contains item (directive ++ [61]) = true ↔ isNamed directive item = true := by
  constructor
  · intro inside
    rw [isNamed, (item_parts known (begun (.inl inside))).1]
    exact sameText_self directive
  · intro named
    obtain ⟨-, tail, -, pos, found, -⟩ := item_parts known (begun (.inr named))
    rw [contains, found]
    rfl

/-- The first item that has the name is the one that is found, and strtol reads its number. -/
theorem search_items {list : List Bytes} (begun : ∀ item ∈ list, Begun directive item) :
    match list.find? (isNamed directive) with
    | none => find (directive ++ [61]) ([44].intercalate list) = none
    | some item => ∃ pos, find (directive ++ [61]) ([44].intercalate list) = some pos ∧
        ∀ n, number (itemArgument item) = some n →
          strtol (([44].intercalate list).drop (pos + (directive ++ [61]).length)) =
            some (n : Int) := by
  have solid : directive ++ [61] ≠ [] := by simp
  have clean : (44 : UInt8) ∉ directive ++ [61] := by simp [known.clean.1]
  induction list with
  | nil => simp [find]
  | cons item list ih =>
    obtain ⟨here, rest⟩ := List.forall_mem_cons.mp begun
    have ih := ih rest
    by_cases named : isNamed directive item = true
    · rw [List.find?_cons_of_pos named]
      obtain ⟨-, tail, argument, pos, found, behind⟩ := item_parts known (here (.inr named))
      have inside := find_le found
      cases list with
      | nil =>
        rw [List.intercalate_singleton]
        refine ⟨pos, found, fun n number => ?_⟩
        rw [behind]
        exact strtol_of_number (argument ▸ number)
      | cons next list =>
        rw [List.intercalate_cons_cons, List.append_assoc]
        refine ⟨pos, find_append found _, fun n number => ?_⟩
        rw [List.drop_append_of_le_length inside, behind, List.singleton_append,
          strtol_append_comma]
        exact strtol_of_number (argument ▸ number)
    · have absent : find (directive ++ [61]) item = none := by
        rw [← found_iff known here, contains] at named
        simpa using named
      rw [List.find?_cons_of_neg named]
      cases list with
      | nil => simpa using absent
      | cons next list =>
        rw [List.intercalate_cons_cons, List.append_assoc, List.singleton_append,
          find_after solid clean absent]
        split
        · rename_i none_left
          rw [none_left] at ih
          rw [ih]
          rfl
        · rename_i other some_item
          rw [some_item] at ih
          obtain ⟨pos, found, read⟩ := ih
          refine ⟨pos + (item.length + 1), by rw [found]; rfl, fun n number => ?_⟩
          have behind : pos + (item.length + 1) + (directive ++ [61]).length =
              item.length + (pos + (directive ++ [61]).length + 1) := by omega
          rw [behind, List.drop_length_add_append, List.drop_succ_cons]
          exact read n number

/-- In a plain list a directive that is not listed is not found. -/
theorem Plain.absent {value : Bytes} (plain : Plain directive value)
    (unlisted : lists value directive = false) : find (directive ++ [61]) value = none := by
  have search := search_items known plain.begun
  rw [items_unquoted plain.unquoted, List.intercalate_splitOn] at search
  rw [lists_eq, items_unquoted plain.unquoted, List.any_eq_false] at unlisted
  rw [List.find?_eq_none.mpr unlisted] at search
  exact search

/-- In a plain list the number behind the first place where a directive is found is its own. -/
theorem Plain.read {value : Bytes} (plain : Plain directive value) {n : Nat}
    (own : seconds value directive = some n) :
    ∃ pos, find (directive ++ [61]) value = some pos ∧
      strtol (value.drop (pos + (directive ++ [61]).length)) = some (n : Int) := by
  obtain ⟨text, first, digits⟩ := Option.bind_eq_some_iff.mp own
  obtain ⟨item, listed, rfl⟩ := Option.map_eq_some_iff.mp first
  have search := search_items known plain.begun
  rw [listed, items_unquoted plain.unquoted, List.intercalate_splitOn] at search
  obtain ⟨pos, found, read⟩ := search
  exact ⟨pos, found, read n digits⟩

end search

end Http
