import Mathlib.Data.List.Nodup
import Mathlib.Data.List.Induction

/-! Bounded stores ordered by their last write.
The state is one list of pairs, the most recently written first. A write to a full
list first drops the last pair. Nothing here knows how such a store is implemented. -/
namespace Recency

variable {κ ν : Type} [DecidableEq κ]

inductive Call (κ ν : Type) where
  | put (key : κ) (value : ν)
  | get (key : κ)
  | remove (key : κ)
  | clear
  | size

inductive Answer (ν : Type) where
  | done
  | found (entry : Option ν)
  | count (n : Nat)
  deriving DecidableEq

/-- The key a write drops to make room, if the list is full. -/
def victim (max : Nat) (s : List (κ × ν)) : Option κ :=
  if max ≤ s.length then s.getLast?.map Prod.fst else none

def trim (max : Nat) (s : List (κ × ν)) : List (κ × ν) :=
  if max ≤ s.length then s.dropLast else s

def drop (k : κ) (s : List (κ × ν)) : List (κ × ν) := s.filter (fun p => p.1 ≠ k)

def put (max : Nat) (k : κ) (v : ν) (s : List (κ × ν)) : List (κ × ν) :=
  (k, v) :: drop k (trim max s)

def get (k : κ) (s : List (κ × ν)) : Option ν := (s.find? (fun p => p.1 = k)).map Prod.snd

def step (max : Nat) (s : List (κ × ν)) : Call κ ν → List (κ × ν) × Answer ν
  | .put k v => (put max k v s, .done)
  | .get k => (s, .found (get k s))
  | .remove k => (drop k s, .done)
  | .clear => ([], .done)
  | .size => (s, .count s.length)

def run (max : Nat) (s : List (κ × ν)) : List (Call κ ν) → List (κ × ν) × List (Answer ν)
  | [] => (s, [])
  | c :: cs =>
    let rest := run max (step max s c).1 cs
    (rest.1, (step max s c).2 :: rest.2)

def state (max : Nat) (calls : List (Call κ ν)) : List (κ × ν) := (run max [] calls).1

/-- Whether a call takes the pair of `k` away or overwrites it. -/
def Takes (max : Nat) (s : List (κ × ν)) (k : κ) : Call κ ν → Prop
  | .put k' _ => k' = k ∨ victim max s = some k
  | .get _ => False
  | .remove k' => k' = k
  | .clear => True
  | .size => False

def Untouched (max : Nat) (k : κ) : List (κ × ν) → List (Call κ ν) → Prop
  | _, [] => True
  | s, c :: cs => ¬ Takes max s k c ∧ Untouched max k (step max s c).1 cs

def isPut (k : κ) : Call κ ν → Bool
  | .put k' _ => k' = k
  | _ => false

/-- How many calls came after the last write of `k`; all of them when there was none. -/
def sincePut (k : κ) (calls : List (Call κ ν)) : Nat := calls.reverse.findIdx (isPut k)

theorem run_append (max : Nat) (s : List (κ × ν)) (cs ds : List (Call κ ν)) :
    (run max s (cs ++ ds)).1 = (run max (run max s cs).1 ds).1 := by
  induction cs generalizing s with
  | nil => rfl
  | cons c cs ih => exact ih _

theorem state_append (max : Nat) (cs : List (Call κ ν)) (c : Call κ ν) :
    state max (cs ++ [c]) = (step max (state max cs) c).1 := run_append max [] cs [c]

/-! ## Keys -/

theorem mem_drop (k : κ) (s : List (κ × ν)) (p : κ × ν) : p ∈ drop k s ↔ p ∈ s ∧ p.1 ≠ k := by
  simp [drop]

theorem drop_sublist (k : κ) (s : List (κ × ν)) : List.Sublist (drop k s) s := List.filter_sublist

omit [DecidableEq κ] in
theorem trim_sublist (max : Nat) (s : List (κ × ν)) : List.Sublist (trim max s) s := by
  unfold trim
  split
  · exact List.dropLast_sublist s
  · exact List.Sublist.refl s

omit [DecidableEq κ] in
/-- Trimming loses the victim and nothing else. -/
theorem mem_trim (max : Nat) (s : List (κ × ν)) (distinct : (s.map Prod.fst).Nodup) (p : κ × ν) :
    p ∈ trim max s ↔ p ∈ s ∧ victim max s ≠ some p.1 := by
  unfold trim victim
  split
  · rcases List.eq_nil_or_concat s with rfl | ⟨init, last, rfl⟩
    · simp
    · simp only [List.concat_eq_append, List.map_append, List.map_cons, List.map_nil] at distinct
      have fresh : last.1 ∉ init.map Prod.fst := by
        intro h
        exact (List.nodup_append.mp distinct).2.2 _ h _ (List.mem_singleton_self _) rfl
      simp only [List.concat_eq_append, List.dropLast_concat, List.getLast?_concat, Option.map_some,
        ne_eq, Option.some.injEq, List.mem_append, List.mem_singleton]
      constructor
      · intro h
        refine ⟨.inl h, ?_⟩
        intro e
        exact fresh (e ▸ List.mem_map_of_mem h)
      · rintro ⟨h | h, hn⟩
        · exact h
        · exact absurd (congrArg Prod.fst h).symm hn
  · simp

theorem step_nodup (max : Nat) (s : List (κ × ν)) (h : (s.map Prod.fst).Nodup) (c : Call κ ν) :
    ((step max s c).1.map Prod.fst).Nodup := by
  cases c with
  | put k v =>
    have sub := (drop_sublist k (trim max s)).trans (trim_sublist max s)
    refine List.nodup_cons.mpr ⟨?_, h.sublist (sub.map _)⟩
    intro hm
    obtain ⟨p, hp, he⟩ := List.mem_map.mp hm
    exact ((mem_drop k _ p).mp hp).2 he
  | get k => exact h
  | remove k => exact h.sublist ((drop_sublist k s).map _)
  | clear => exact List.nodup_nil
  | size => exact h

theorem state_nodup (max : Nat) (calls : List (Call κ ν)) :
    ((state max calls).map Prod.fst).Nodup := by
  induction calls using List.reverseRecOn with
  | nil => exact List.nodup_nil
  | append_singleton cs c ih =>
    rw [state_append]
    exact step_nodup max _ ih c

theorem get_eq_some (s : List (κ × ν)) (h : (s.map Prod.fst).Nodup) (k : κ) (v : ν) :
    get k s = some v ↔ (k, v) ∈ s := by
  constructor
  · intro e
    obtain ⟨p, hf, hv⟩ := Option.map_eq_some_iff.mp e
    have hk : p.1 = k := by simpa using List.find?_some hf
    have hp : p = (k, v) := Prod.ext hk hv
    exact hp ▸ List.mem_of_find?_eq_some hf
  · intro hm
    cases hf : s.find? (fun p => p.1 = k) with
    | none =>
      have := List.find?_eq_none.mp hf _ hm
      simp at this
    | some p =>
      have hk : p.1 = k := by simpa using List.find?_some hf
      have hp : p = (k, v) := List.inj_on_of_nodup_map h (List.mem_of_find?_eq_some hf) hm hk
      simp [get, hf, hp]

/-! ## A read returns the last write that nothing took away -/

theorem get_step_of_not_takes (max : Nat) (s : List (κ × ν)) (h : (s.map Prod.fst).Nodup) (k : κ)
    (c : Call κ ν) (free : ¬ Takes max s k c) (v : ν) :
    get k (step max s c).1 = some v ↔ get k s = some v := by
  rw [get_eq_some _ (step_nodup max s h c), get_eq_some s h]
  cases c with
  | put k' v' =>
    simp only [Takes, not_or] at free
    have other : k ≠ k' := Ne.symm free.1
    simp [step, put, mem_drop, mem_trim max s h, other, free.2]
  | get k' => rfl
  | remove k' => simpa [step, mem_drop] using fun _ => Ne.symm free
  | clear => exact absurd trivial free
  | size => rfl

theorem get_step_of_takes (max : Nat) (s : List (κ × ν)) (h : (s.map Prod.fst).Nodup) (k : κ)
    (c : Call κ ν) (taken : Takes max s k c) (v : ν) (found : get k (step max s c).1 = some v) :
    c = .put k v := by
  rw [get_eq_some _ (step_nodup max s h c)] at found
  cases c with
  | put k' v' =>
    rcases List.mem_cons.mp found with e | hm
    · cases e
      rfl
    · have hd := (mem_drop k' _ _).mp hm
      have ht := (mem_trim max s h _).mp hd.1
      rcases taken with e | e
      · exact absurd e.symm hd.2
      · exact absurd e ht.2
  | get k' => exact taken.elim
  | remove k' => exact absurd taken.symm ((mem_drop k' s _).mp found).2
  | clear => cases found
  | size => exact taken.elim

theorem untouched_append (max : Nat) (k : κ) (s : List (κ × ν)) (cs : List (Call κ ν))
    (c : Call κ ν) : Untouched max k s (cs ++ [c]) ↔
      Untouched max k s cs ∧ ¬ Takes max (run max s cs).1 k c := by
  induction cs generalizing s with
  | nil => simp [Untouched, run]
  | cons d cs ih => simp only [List.cons_append, Untouched, ih, run, and_assoc]

theorem get_run_of_untouched (max : Nat) (k : κ) (v : ν) (s : List (κ × ν))
    (h : (s.map Prod.fst).Nodup) (cs : List (Call κ ν)) (free : Untouched max k s cs)
    (found : get k s = some v) : get k (run max s cs).1 = some v := by
  induction cs generalizing s with
  | nil => exact found
  | cons c cs ih =>
    have hc := (get_step_of_not_takes max s h k c free.1 v).mpr found
    exact ih _ (step_nodup max s h c) free.2 hc

theorem get_put_self (max : Nat) (k : κ) (v : ν) (s : List (κ × ν)) :
    get k (step max s (.put k v)).1 = some v := by
  simp [step, put, get]

/-- A read finds exactly the value of the last write of its key, unless a later removal, clear
or eviction took it away. -/
theorem get_state_iff (max : Nat) (calls : List (Call κ ν)) (k : κ) (v : ν) :
    get k (state max calls) = some v ↔ ∃ before after,
      calls = before ++ Call.put k v :: after ∧
      Untouched max k (state max (before ++ [Call.put k v])) after := by
  constructor
  · intro found
    induction calls using List.reverseRecOn with
    | nil => cases found
    | append_singleton cs c ih =>
      rw [state_append] at found
      by_cases taken : Takes max (state max cs) k c
      · have hc := get_step_of_takes max _ (state_nodup max cs) k c taken v found
        exact ⟨cs, [], by rw [hc], trivial⟩
      · have older := (get_step_of_not_takes max _ (state_nodup max cs) k c taken v).mp found
        obtain ⟨before, after, hcs, free⟩ := ih older
        refine ⟨before, after ++ [c], by simp [hcs], ?_⟩
        rw [untouched_append]
        refine ⟨free, ?_⟩
        have hs : (run max (state max (before ++ [Call.put k v])) after).1 = state max cs := by
          rw [hcs, state, ← run_append, List.append_assoc]
          rfl
        rwa [hs]
  · rintro ⟨before, after, rfl, free⟩
    have start : get k (state max (before ++ [Call.put k v])) = some v := by
      rw [state_append]
      exact get_put_self max k v _
    have hrun := get_run_of_untouched max k v _ (state_nodup max _) after free start
    rwa [state, ← run_append, List.append_assoc] at hrun

/-! ## The victim is the key written longest ago -/

theorem sincePut_append (k : κ) (cs : List (Call κ ν)) (c : Call κ ν) :
    sincePut k (cs ++ [c]) = if isPut k c then 0 else sincePut k cs + 1 := by
  simp only [sincePut, List.reverse_append, List.reverse_singleton, List.singleton_append,
    List.findIdx_cons]
  cases isPut k c <;> simp

/-- The order of the list is the order of the last writes. -/
structure Ordered (calls : List (Call κ ν)) (s : List (κ × ν)) : Prop where
  recent : s.Pairwise (fun p q => sincePut p.1 calls < sincePut q.1 calls)
  written : ∀ p ∈ s, sincePut p.1 calls < calls.length

/-- A call that is no write of a listed key ages every listed key alike. -/
theorem Ordered.age {calls : List (Call κ ν)} {s t : List (κ × ν)} (h : Ordered calls s)
    (sub : List.Sublist t s) (c : Call κ ν) (other : ∀ p ∈ t, isPut p.1 c = false) :
    Ordered (calls ++ [c]) t := by
  have age : ∀ p ∈ t, sincePut p.1 (calls ++ [c]) = sincePut p.1 calls + 1 := by
    intro p hp
    rw [sincePut_append, other p hp]
    rfl
  constructor
  · refine (h.recent.sublist sub).imp_of_mem ?_
    intro p q hp hq hlt
    rw [age p hp, age q hq]
    exact Nat.succ_lt_succ hlt
  · intro p hp
    rw [age p hp, List.length_append]
    exact Nat.succ_lt_succ (h.written p (sub.subset hp))

theorem step_ordered (max : Nat) (calls : List (Call κ ν)) (s : List (κ × ν))
    (h : Ordered calls s) (c : Call κ ν) : Ordered (calls ++ [c]) (step max s c).1 := by
  cases c with
  | put k v =>
    have sub := (drop_sublist k (trim max s)).trans (trim_sublist max s)
    have tail : Ordered (calls ++ [.put k v]) (drop k (trim max s)) := by
      apply h.age sub
      intro p hp
      simpa [isPut] using Ne.symm ((mem_drop k _ p).mp hp).2
    have head : sincePut k (calls ++ [.put k v]) = 0 := by
      simp [sincePut_append, isPut]
    constructor
    · refine List.pairwise_cons.mpr ⟨?_, tail.recent⟩
      intro p hp
      have hk : k ≠ p.1 := Ne.symm ((mem_drop k _ p).mp hp).2
      rw [head, sincePut_append]
      simp [isPut, hk]
    · intro p hp
      rcases List.mem_cons.mp hp with rfl | hp
      · rw [head]
        simp
      · exact tail.written p hp
  | get k => exact h.age (List.Sublist.refl s) _ (fun _ _ => rfl)
  | remove k => exact h.age (drop_sublist k s) _ (fun _ _ => rfl)
  | clear => exact ⟨List.Pairwise.nil, fun p hp => absurd hp List.not_mem_nil⟩
  | size => exact h.age (List.Sublist.refl s) _ (fun _ _ => rfl)

theorem state_ordered (max : Nat) (calls : List (Call κ ν)) : Ordered calls (state max calls) := by
  induction calls using List.reverseRecOn with
  | nil => exact ⟨List.Pairwise.nil, fun p hp => absurd hp List.not_mem_nil⟩
  | append_singleton cs c ih =>
    rw [state_append]
    exact step_ordered max cs _ ih c

/-- What a write drops is the listed key whose own last write is oldest. -/
theorem victim_oldest (max : Nat) (calls : List (Call κ ν)) (k : κ)
    (h : victim max (state max calls) = some k) :
    k ∈ (state max calls).map Prod.fst ∧ sincePut k calls < calls.length ∧
    ∀ k' ∈ (state max calls).map Prod.fst, k' ≠ k → sincePut k' calls < sincePut k calls := by
  have ordered := state_ordered max calls
  unfold victim at h
  split at h
  · rcases List.eq_nil_or_concat (state max calls) with hs | ⟨init, last, hs⟩
    · simp [hs] at h
    · rw [List.concat_eq_append] at hs
      rw [hs, List.getLast?_concat, Option.map_some, Option.some.injEq] at h
      subst h
      rw [hs] at ordered ⊢
      refine ⟨by simp, ordered.written last (by simp), ?_⟩
      intro k' hk' hne
      obtain ⟨p, hp, rfl⟩ := List.mem_map.mp hk'
      rcases List.mem_append.mp hp with hp | hp
      · exact (List.pairwise_append.mp ordered.recent).2.2 p hp last (by simp)
      · have he : p = last := by simpa using hp
        exact absurd (congrArg Prod.fst he) hne
  · cases h

/-! ## Uses

A use of a key is a write of it, or a read that found it. -/

def isHit (k : κ) : Call κ ν × Answer ν → Bool
  | (.get k', .found (some _)) => k' = k
  | _ => false

/-- How many calls came after the last read that found `k`; all of them when there was none. -/
def sinceHit (k : κ) (history : List (Call κ ν × Answer ν)) : Nat :=
  history.reverse.findIdx (isHit k)

def sinceUse (k : κ) (history : List (Call κ ν × Answer ν)) : Nat :=
  history.reverse.findIdx (fun e => isPut k e.1 || isHit k e)

theorem findIdx_or {α : Type} (p q : α → Bool) (l : List α) :
    l.findIdx (fun a => p a || q a) = min (l.findIdx p) (l.findIdx q) := by
  induction l with
  | nil => rfl
  | cons a l ih =>
    simp only [List.findIdx_cons, ih]
    cases p a <;> cases q a <;> simp

/-- The last use is the last write or the last hit, whichever is later. -/
theorem sinceUse_eq (k : κ) (calls : List (Call κ ν)) (answers : List (Answer ν))
    (all : calls.length ≤ answers.length) :
    sinceUse k (calls.zip answers) = min (sincePut k calls) (sinceHit k (calls.zip answers)) := by
  have write : sincePut k calls =
      (calls.zip answers).reverse.findIdx (fun e => isPut k e.1) := by
    conv_lhs => rw [← List.map_fst_zip all]
    rw [sincePut, ← List.map_reverse, List.findIdx_map]
    rfl
  rw [sinceUse, findIdx_or, write, sinceHit]

theorem run_length (max : Nat) (s : List (κ × ν)) (calls : List (Call κ ν)) :
    (run max s calls).2.length = calls.length := by
  induction calls generalizing s with
  | nil => rfl
  | cons c calls ih => simp [run, ih]

/-- What a write drops was used before every other listed key exactly when each of them has been
used since the last hit on it. -/
theorem victim_used_first_iff (max : Nat) (calls : List (Call κ ν)) (k : κ)
    (h : victim max (state max calls) = some k) :
    (∀ k' ∈ (state max calls).map Prod.fst, k' ≠ k →
        sinceUse k' (calls.zip (run max [] calls).2) < sinceUse k (calls.zip (run max [] calls).2)) ↔
      ∀ k' ∈ (state max calls).map Prod.fst, k' ≠ k →
        sinceUse k' (calls.zip (run max [] calls).2) < sinceHit k (calls.zip (run max [] calls).2) := by
  obtain ⟨-, -, oldest⟩ := victim_oldest max calls k h
  have all : calls.length ≤ (run max [] calls).2.length := Nat.le_of_eq (run_length _ _ _).symm
  rw [sinceUse_eq k calls _ all]
  constructor
  · intro first k' listed other
    exact Nat.lt_of_lt_of_le (first k' listed other) (Nat.min_le_right _ _)
  · intro used k' listed other
    have written := oldest k' listed other
    have newer : sinceUse k' (calls.zip (run max [] calls).2) ≤ sincePut k' calls := by
      rw [sinceUse_eq k' calls _ all]
      exact Nat.min_le_left _ _
    exact Nat.lt_min.mpr ⟨Nat.lt_of_le_of_lt newer written, used k' listed other⟩

/-! ## Retention

A pair leaves by a write only from the far end of a full list, so it outlives as many writes as
there is room behind it. -/

/-- `k` holds `v`, and at most `n` keys were written after it. -/
def Near (k : κ) (v : ν) (n : Nat) (s : List (κ × ν)) : Prop :=
  ∃ newer older, s = newer ++ (k, v) :: older ∧ newer.length ≤ n

/-- Neither a removal of `k` nor a clear. -/
def Spares (k : κ) : Call κ ν → Prop
  | .remove k' => k' ≠ k
  | .clear => False
  | _ => True

def writes : Call κ ν → Bool
  | .put _ _ => true
  | _ => false

/-- The last write of `k` wrote `v`. -/
def LastPut (k : κ) (v : ν) (calls : List (Call κ ν)) : Prop :=
  ∃ before after, calls = before ++ .put k v :: after ∧ ∀ w, Call.put k w ∉ after

theorem near_drop {k k' : κ} {v : ν} {n : Nat} {s : List (κ × ν)} (other : k' ≠ k)
    (h : Near k v n s) : Near k v n (drop k' s) := by
  obtain ⟨newer, older, rfl, close⟩ := h
  have kept : k ≠ k' := Ne.symm other
  refine ⟨drop k' newer, drop k' older, ?_, ?_⟩
  · simp [drop, kept]
  · exact Nat.le_trans (drop_sublist k' newer).length_le close

omit [DecidableEq κ] in
/-- What trimming loses lies behind as many pairs as the list may hold. -/
theorem near_trim {max : Nat} {k : κ} {v : ν} {n : Nat} {s : List (κ × ν)} (room : n + 1 < max)
    (h : Near k v n s) : Near k v n (trim max s) := by
  unfold trim
  split
  · rename_i full
    obtain ⟨newer, older, rfl, close⟩ := h
    cases older with
    | nil =>
      simp only [List.length_append, List.length_singleton] at full
      omega
    | cons p older =>
      refine ⟨newer, (p :: older).dropLast, ?_, close⟩
      rw [List.dropLast_append_cons, List.dropLast_cons_cons]
  · exact h

theorem near_put_other {max : Nat} {k k' : κ} {v v' : ν} {n : Nat} {s : List (κ × ν)}
    (room : n + 1 < max) (other : k' ≠ k) (h : Near k v n s) :
    Near k v (n + 1) (put max k' v' s) := by
  obtain ⟨newer, older, split, close⟩ := near_drop other (near_trim room h)
  refine ⟨(k', v') :: newer, older, ?_, Nat.succ_le_succ close⟩
  rw [put, split]
  rfl

theorem near_put_self (max : Nat) (k : κ) (v : ν) (s : List (κ × ν)) : Near k v 0 (put max k v s) :=
  ⟨[], drop k (trim max s), rfl, Nat.le_refl 0⟩

omit [DecidableEq κ] in
theorem lastPut_cons (k : κ) (v : ν) (c : Call κ ν) (calls : List (Call κ ν)) :
    LastPut k v (c :: calls) ↔ LastPut k v calls ∨ c = .put k v ∧ ∀ w, Call.put k w ∉ calls := by
  constructor
  · rintro ⟨before, after, split, last⟩
    cases before with
    | nil =>
      obtain ⟨rfl, rfl⟩ := List.cons.inj split
      exact .inr ⟨rfl, last⟩
    | cons d before =>
      obtain ⟨-, rfl⟩ := List.cons.inj split
      exact .inl ⟨before, after, rfl, last⟩
  · rintro (⟨before, after, rfl, last⟩ | ⟨rfl, last⟩)
    · exact ⟨c :: before, after, rfl, last⟩
    · exact ⟨[], calls, rfl, last⟩

omit [DecidableEq κ] in
theorem LastPut.insert {k : κ} {v w : ν} {c : Call κ ν} {calls : List (Call κ ν)}
    (other : ∀ u, c ≠ .put k u) (h : LastPut k w (.put k v :: calls)) :
    LastPut k w (.put k v :: c :: calls) := by
  rw [lastPut_cons, lastPut_cons]
  rcases (lastPut_cons k w _ calls).mp h with later | ⟨same, last⟩
  · exact .inl (.inl later)
  · refine .inr ⟨same, ?_⟩
    intro u listed
    rcases List.mem_cons.mp listed with here | there
    · exact other u here.symm
    · exact last u there

/-- With fewer writes than places left behind it, `k` stays, with what was written last. -/
theorem near_run (max : Nat) (k : κ) (v : ν) (n : Nat) (s : List (κ × ν)) (h : Near k v n s)
    (calls : List (Call κ ν)) (sparing : ∀ c ∈ calls, Spares k c)
    (few : n + calls.countP writes < max) :
    ∃ w m, LastPut k w (.put k v :: calls) ∧ Near k w m (run max s calls).1 := by
  induction calls generalizing v n s with
  | nil => exact ⟨v, n, ⟨[], [], rfl, fun _ => List.not_mem_nil⟩, h⟩
  | cons c calls ih =>
    obtain ⟨spared, rest⟩ := List.forall_mem_cons.mp sparing
    rw [List.countP_cons] at few
    cases c with
    | put k' v' =>
      simp only [writes, if_true] at few
      by_cases same : k' = k
      · subst same
        obtain ⟨w, m, last, near⟩ := ih v' 0 _ (near_put_self max k' v' s) rest (by omega)
        exact ⟨w, m, (lastPut_cons k' w _ _).mpr (.inl last), near⟩
      · have next : Near k v (n + 1) (put max k' v' s) := near_put_other (by omega) same h
        obtain ⟨w, m, last, near⟩ := ih v (n + 1) _ next rest (by omega)
        exact ⟨w, m, last.insert (fun u e => same (Call.put.inj e).1), near⟩
    | get k' =>
      obtain ⟨w, m, last, near⟩ := ih v n s h rest few
      exact ⟨w, m, last.insert (fun u e => by cases e), near⟩
    | remove k' =>
      obtain ⟨w, m, last, near⟩ := ih v n _ (near_drop spared h) rest few
      exact ⟨w, m, last.insert (fun u e => by cases e), near⟩
    | clear => exact spared.elim
    | size =>
      obtain ⟨w, m, last, near⟩ := ih v n s h rest few
      exact ⟨w, m, last.insert (fun u e => by cases e), near⟩

theorem Near.get_eq {k : κ} {v : ν} {n : Nat} {s : List (κ × ν)} (h : Near k v n s)
    (distinct : (s.map Prod.fst).Nodup) : get k s = some v := by
  obtain ⟨newer, older, rfl, -⟩ := h
  exact (get_eq_some _ distinct k v).mpr (List.mem_append_right newer List.mem_cons_self)

/-! ## Capacity

Of two stores with the same calls the smaller one is always the front part of the larger one. -/

/-- What the smaller store answers, and what the larger one does. -/
inductive Within : Answer ν → Answer ν → Prop where
  | done : Within .done .done
  | missed (entry : Option ν) : Within (.found none) (.found entry)
  | found (v : ν) : Within (.found (some v)) (.found (some v))
  | count {m n : Nat} (le : m ≤ n) : Within (.count m) (.count n)

omit [DecidableEq κ] in
theorem trim_front {m n : Nat} (le : m ≤ n) {s t : List (κ × ν)} (front : s <+: t) :
    trim m s <+: trim n t := by
  have kept : trim m s <+: s := by
    unfold trim
    split
    · exact List.dropLast_prefix s
    · exact List.prefix_rfl
  by_cases full : n ≤ t.length
  · have cut : trim n t = t.dropLast := if_pos full
    rw [cut]
    by_cases whole : s.length = t.length
    · obtain rfl := front.eq_of_length whole
      have cut' : trim m s = s.dropLast := if_pos (Nat.le_trans le full)
      exact ⟨[], by rw [cut', List.append_nil]⟩
    · have shorter : s.length ≤ t.dropLast.length := by
        have := front.length_le
        rw [List.length_dropLast]
        omega
      exact kept.trans (List.prefix_of_prefix_length_le front (List.dropLast_prefix t) shorter)
  · have uncut : trim n t = t := if_neg full
    rw [uncut]
    exact kept.trans front

theorem get_front {s t : List (κ × ν)} (front : s <+: t) {k : κ} {v : ν} (found : get k s = some v) :
    get k t = some v := by
  obtain ⟨rest, rfl⟩ := front
  obtain ⟨p, first, value⟩ := Option.map_eq_some_iff.mp found
  rw [get, List.find?_append, first]
  exact congrArg some value

theorem step_front {m n : Nat} (le : m ≤ n) {s t : List (κ × ν)} (front : s <+: t)
    (c : Call κ ν) :
    (step m s c).1 <+: (step n t c).1 ∧ Within (step m s c).2 (step n t c).2 := by
  cases c with
  | put k v => exact ⟨(List.prefix_cons_inj (k, v)).mpr ((trim_front le front).filter _), .done⟩
  | get k =>
    refine ⟨front, ?_⟩
    cases own : get k s with
    | none =>
      simp only [step, own]
      exact .missed _
    | some v =>
      simp only [step, own, get_front front own]
      exact .found v
  | remove k => exact ⟨front.filter _, .done⟩
  | clear => exact ⟨List.prefix_rfl, .done⟩
  | size => exact ⟨front, .count front.length_le⟩

theorem run_front {m n : Nat} (le : m ≤ n) (calls : List (Call κ ν)) {s t : List (κ × ν)}
    (front : s <+: t) :
    (run m s calls).1 <+: (run n t calls).1 ∧
      List.Forall₂ Within (run m s calls).2 (run n t calls).2 := by
  induction calls generalizing s t with
  | nil => exact ⟨front, .nil⟩
  | cons c calls ih =>
    obtain ⟨next, within⟩ := step_front le front c
    obtain ⟨last, rest⟩ := ih next
    exact ⟨last, .cons within rest⟩

end Recency
