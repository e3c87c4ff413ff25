import Mathlib.Data.List.Basic

/-! The table of open descriptors of a process, as POSIX hands numbers out:
a new descriptor takes the lowest number that is free, and closing frees a number at once. -/
namespace Posix

/-- Entry n tells what descriptor n designates. -/
abbrev Table (α : Type) := List (Option α)

variable {α : Type}

def designates (t : Table α) (fd : Nat) : Option α := t.getD fd none

def lowest (t : Table α) : Nat := t.findIdx Option.isNone

def install : Table α → α → Table α
  | [], x => [some x]
  | none :: t, x => some x :: t
  | some y :: t, x => some y :: install t x

def close (t : Table α) (fd : Nat) : Table α := t.set fd none

theorem designates_lowest (t : Table α) : designates t (lowest t) = none := by
  induction t with
  | nil => rfl
  | cons e t ih =>
    cases e with
    | none => rfl
    | some y => simpa [designates, lowest, List.findIdx_cons] using ih

theorem designates_install (t : Table α) (x : α) (fd : Nat) :
    designates (install t x) fd = if fd = lowest t then some x else designates t fd := by
  induction t generalizing fd with
  | nil => cases fd <;> simp [designates, install, lowest]
  | cons e t ih =>
    cases e with
    | none => cases fd <;> simp [designates, install, lowest, List.findIdx_cons]
    | some y =>
      cases fd with
      | zero => simp [designates, install, lowest, List.findIdx_cons]
      | succ fd => simpa [designates, install, lowest, List.findIdx_cons] using ih fd

theorem designates_close (t : Table α) (fd n : Nat) :
    designates (close t n) fd = if fd = n then none else designates t fd := by
  by_cases h : fd = n
  · subst h
    simp only [designates, close, List.getD_eq_getElem?_getD, List.getElem?_set_self', if_true]
    cases t[fd]? <;> rfl
  · simp [designates, close, List.getD_eq_getElem?_getD, List.getElem?_set_ne (Ne.symm h), h]

/-- A number in use survives an installation. -/
theorem designates_install_of_some {t : Table α} {fd : Nat} {y : α}
    (h : designates t fd = some y) (x : α) : designates (install t x) fd = some y := by
  have used : fd ≠ lowest t := by
    intro e
    rw [e, designates_lowest] at h
    cases h
  simp only [designates_install, if_neg used, h]

theorem designates_install_lowest (t : Table α) (x : α) :
    designates (install t x) (lowest t) = some x := by
  simp only [designates_install, if_true]

/-- Closing one owner's number leaves every other owner's numbers alone. -/
theorem designates_close_of_ne {t : Table α} {fd n : Nat} {x y : α} (h : designates t fd = some y)
    (hn : designates t n = some x) (ne : x ≠ y) : designates (close t n) fd = some y := by
  have other : fd ≠ n := by
    intro e
    rw [e, hn] at h
    exact ne (Option.some.inj h)
  simp only [designates_close, if_neg other, h]

end Posix
