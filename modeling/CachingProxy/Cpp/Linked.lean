import Mathlib.Data.Finmap
import Mathlib.Data.List.Nodup

/-! Linked lists whose nodes keep their identity, as std::list promises.
An iterator is the identity of a node. Identities are never handed out twice, so
an iterator that outlived its node designates nothing, also after later insertions. -/
namespace Cpp

structure Linked (α : Type) where
  nodes : List (Nat × α)
  next : Nat
  nodup : (nodes.map Prod.fst).Nodup
  below : ∀ n ∈ nodes, n.1 < next

namespace Linked

variable {α : Type}

def empty : Linked α := ⟨[], 0, List.nodup_nil, by simp⟩

def toList (l : Linked α) : List α := l.nodes.map Prod.snd

/-- The element an iterator designates, none once its node is gone. -/
def deref (l : Linked α) (it : Nat) : Option α := (l.nodes.find? (fun n => n.1 == it)).map Prod.snd

def push_front (l : Linked α) (x : α) : Linked α where
  nodes := (l.next, x) :: l.nodes
  next := l.next + 1
  nodup := by
    refine List.nodup_cons.mpr ⟨?_, l.nodup⟩
    intro h
    obtain ⟨n, hn, he⟩ := List.mem_map.mp h
    exact absurd (l.below n hn) (by omega)
  below := by
    intro n hn
    rcases List.mem_cons.mp hn with rfl | hn
    · exact Nat.lt_succ_self _
    · exact Nat.lt_succ_of_lt (l.below n hn)

/-- The iterator to the first node; past the end of an empty list. -/
def begin (l : Linked α) : Nat :=
  match l.nodes with
  | [] => l.next
  | n :: _ => n.1

def back (l : Linked α) : Option α := l.nodes.getLast?.map Prod.snd

def pop_back (l : Linked α) : Linked α where
  nodes := l.nodes.dropLast
  next := l.next
  nodup := l.nodup.sublist ((List.dropLast_sublist _).map _)
  below := fun n hn => l.below n (List.dropLast_subset _ hn)

def erase (l : Linked α) (it : Nat) : Linked α where
  nodes := l.nodes.filter (fun n => n.1 != it)
  next := l.next
  nodup := l.nodup.sublist (List.filter_sublist.map _)
  below := fun n hn => l.below n (List.mem_of_mem_filter hn)

def clear (l : Linked α) : Linked α := ⟨[], l.next, List.nodup_nil, by simp⟩

@[simp] theorem toList_empty : (empty : Linked α).toList = [] := rfl
@[simp] theorem toList_clear (l : Linked α) : l.clear.toList = [] := rfl
@[simp] theorem nodes_empty : (empty : Linked α).nodes = [] := rfl
@[simp] theorem nodes_clear (l : Linked α) : l.clear.nodes = [] := rfl

@[simp] theorem toList_push_front (l : Linked α) (x : α) :
    (l.push_front x).toList = x :: l.toList := rfl

@[simp] theorem begin_push_front (l : Linked α) (x : α) : (l.push_front x).begin = l.next := rfl

@[simp] theorem nodes_push_front (l : Linked α) (x : α) :
    (l.push_front x).nodes = (l.next, x) :: l.nodes := rfl

@[simp] theorem toList_pop_back (l : Linked α) : l.pop_back.toList = l.toList.dropLast :=
  List.map_dropLast ..

theorem back_eq (l : Linked α) : l.back = l.toList.getLast? := by
  simp [back, toList, List.getLast?_map]

theorem mem_nodes_erase (l : Linked α) (it : Nat) (n : Nat × α) :
    n ∈ (l.erase it).nodes ↔ n ∈ l.nodes ∧ n.1 ≠ it := by
  simp [erase]

/-- Two nodes with one identity are the same node. -/
theorem node_unique (l : Linked α) {it : Nat} {x y : α} (hx : (it, x) ∈ l.nodes)
    (hy : (it, y) ∈ l.nodes) : x = y := by
  have h := List.inj_on_of_nodup_map l.nodup hx hy rfl
  exact congrArg Prod.snd h

theorem deref_eq_some (l : Linked α) (it : Nat) (x : α) :
    l.deref it = some x ↔ (it, x) ∈ l.nodes := by
  constructor
  · intro h
    obtain ⟨⟨i, y⟩, hf, hy⟩ := Option.map_eq_some_iff.mp h
    have hi : i = it := by simpa using List.find?_some hf
    have hm := List.mem_of_find?_eq_some hf
    subst hi
    cases hy
    exact hm
  · intro h
    cases hf : l.nodes.find? (fun n => n.1 == it) with
    | none =>
      have := List.find?_eq_none.mp hf _ h
      simp at this
    | some n =>
      obtain ⟨i, y⟩ := n
      have hi : i = it := by simpa using List.find?_some hf
      subst hi
      have hy := l.node_unique (List.mem_of_find?_eq_some hf) h
      simp [deref, hf, hy]

/-- In a list without repeated elements, erasing a live node removes its element. -/
theorem toList_erase [DecidableEq α] (l : Linked α) (distinct : l.toList.Nodup) {it : Nat} {x : α}
    (live : (it, x) ∈ l.nodes) : (l.erase it).toList = l.toList.filter (fun y => y ≠ x) := by
  simp only [toList, erase, List.filter_map]
  congr 1
  apply List.filter_congr
  intro n hn
  have same : n.1 = it ↔ n.2 = x := by
    constructor
    · intro h
      exact l.node_unique (h ▸ hn) live
    · intro h
      have he : n = (it, x) := List.inj_on_of_nodup_map distinct hn live h
      rw [he]
  rw [Function.comp, Bool.eq_iff_iff]
  simp only [bne_iff_ne, ne_eq, same, decide_eq_true_eq]

end Linked

end Cpp
