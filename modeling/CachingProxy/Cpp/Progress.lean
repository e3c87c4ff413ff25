import CachingProxy.Cpp.SharedMutex
import Mathlib.Logic.Hydra

/-! Calls under a std::shared_mutex come to an end. While a call is in progress some thread can go
on, and without new calls every run is finite, whichever thread goes on each time. -/
namespace SharedMutex

open Relation

variable {σ ρ ι τ : Type}

/-! ## One call -/

/-- Less is left to do of a call. -/
inductive Less : Thread σ ρ ι → Thread σ ρ ι → Prop where
  | locked (op : ι) (i : Nat) (body : Body σ ρ) : Less (.inside op i body) (.waiting op)
  | acted (op : ι) (i : Nat) (update : σ → Option σ) (next : σ → Body σ ρ) (s : σ) :
      Less (.inside op i (next s)) (.inside op i (.act update next))
  | returned (op : ι) (i : Nat) (r : ρ) : Less .idle (.inside op i (.done r))

theorem acc_idle : Acc Less (.idle : Thread σ ρ ι) := by
  refine Acc.intro _ (fun p less => ?_)
  cases less

theorem acc_inside (op : ι) (i : Nat) (p : Body σ ρ) : Acc Less (.inside op i p) := by
  induction p with
  | done r =>
    refine Acc.intro _ (fun p less => ?_)
    cases less
    exact acc_idle
  | act update next ih =>
    refine Acc.intro _ (fun p less => ?_)
    cases less with
    | acted _ _ _ _ s => exact ih s

theorem less_wf : WellFounded (Less : Thread σ ρ ι → Thread σ ρ ι → Prop) := by
  refine ⟨fun p => ?_⟩
  cases p with
  | idle => exact acc_idle
  | inside op i rest => exact acc_inside op i rest
  | waiting op =>
    refine Acc.intro _ (fun p less => ?_)
    cases less with
    | locked _ i body => exact acc_inside op i body

/-! ## All calls -/

section work

variable [DecidableEq τ] {o : Object σ ρ ι} {s₀ : σ} {c c' : Config τ σ ρ ι} {s : σ} {rs : List ρ}

/-- A step that begins no call. -/
def Work (o : Object σ ρ ι) (c c' : Config τ σ ρ ι) : Prop :=
  Step o c c' ∧ ∀ t, c.threads t = .idle → c'.threads t = .idle

/-- It brings one call nearer to its end. -/
theorem Work.less (h : Work o c c') :
    ∃ t p, Less p (c.threads t) ∧ c'.threads = Function.update c.threads t p := by
  obtain ⟨step, quiet⟩ := h
  cases step with
  | call t op idle =>
    have waits := quiet t idle
    simp [Config.set] at waits
  | lockShared t op waits mode free => exact ⟨t, _, waits ▸ .locked op _ _, rfl⟩
  | lock t op waits mode free empty => exact ⟨t, _, waits ▸ .locked op _ _, rfl⟩
  | act t op i update next s' inside updated =>
    exact ⟨t, _, inside ▸ .acted op i update next c.state, rfl⟩
  | unlockShared t op i r inside mode => exact ⟨t, _, inside ▸ .returned op i r, rfl⟩
  | unlock t op i r inside mode => exact ⟨t, _, inside ▸ .returned op i r, rfl⟩

/-- What the threads of `busy` have left to do. -/
def Config.load (c : Config τ σ ρ ι) (busy : Finset τ) : Multiset (Thread σ ρ ι) :=
  busy.val.map c.threads

theorem Work.load {busy : Finset τ} (all : ∀ t, c.threads t ≠ .idle → t ∈ busy)
    (h : Work o c c') : CutExpand Less (c'.load busy) (c.load busy) := by
  obtain ⟨t, p, less, same⟩ := h.less
  have listed : t ∈ busy := by
    refine all t (fun idle => ?_)
    rw [idle] at less
    cases less
  have split (d : Config τ σ ρ ι) :
      d.load busy = (busy.erase t).val.map d.threads + {d.threads t} := by
    unfold Config.load
    conv_lhs => rw [← Finset.insert_erase listed, Finset.insert_val_of_notMem (by simp)]
    rw [Multiset.map_cons, ← Multiset.singleton_add, add_comm]
  have others : (busy.erase t).val.map c'.threads = (busy.erase t).val.map c.threads := by
    refine Multiset.map_congr rfl (fun u other => ?_)
    rw [same, Function.update_of_ne (Finset.ne_of_mem_erase other)]
  rw [split c', split c, others]
  refine cutExpand_add_single _ ?_
  rw [same, Function.update_self]
  exact less

/-- Without new calls every run from here is finite. -/
theorem acc_work {busy : Finset τ} (all : ∀ t, c.threads t ≠ .idle → t ∈ busy) :
    Acc (fun c' c => Work o c c') c := by
  generalize own : c.load busy = load
  induction less_wf.cutExpand.apply load generalizing c with
  | intro load _ ih =>
    refine Acc.intro _ (fun c' work => ?_)
    refine ih _ (own ▸ work.load all) (fun t active => all t (fun idle => ?_)) rfl
    exact active (work.2 t idle)

theorem Step.one_thread (step : Step o c c') :
    ∃ t p, c'.threads = Function.update c.threads t p := by
  cases step with
  | call t op _ => exact ⟨t, _, rfl⟩
  | lockShared t op _ _ _ => exact ⟨t, _, rfl⟩
  | lock t op _ _ _ _ => exact ⟨t, _, rfl⟩
  | act t op i update next s' _ _ => exact ⟨t, _, rfl⟩
  | unlockShared t op i r _ _ => exact ⟨t, _, rfl⟩
  | unlock t op i r _ _ => exact ⟨t, _, rfl⟩

/-- What holds of every body and of what follows each of its accesses holds inside the lock. -/
theorem rest_reachable {P : Body σ ρ → Prop} (begins : ∀ op, P (o.body op))
    (goes_on : ∀ update next, P (.act update next) → ∀ s, P (next s))
    (reach : ReflTransGen (Step o) (Config.start s₀) c) {t : τ} {op : ι} {i : Nat}
    {rest : Body σ ρ} (here : c.threads t = .inside op i rest) : P rest := by
  induction reach generalizing t op i rest with
  | refl => cases here
  | tail _ step ih =>
    have frame {u : τ} {p : Thread σ ρ ι} {threads : τ → Thread σ ρ ι}
        (old : ∀ {t op i rest}, threads t = .inside op i rest → P rest)
        (own : ∀ op i rest, p = .inside op i rest → P rest)
        (inside : Function.update threads u p t = .inside op i rest) : P rest := by
      by_cases e : t = u
      · rw [e, Function.update_self] at inside
        exact own op i rest inside
      · rw [Function.update_of_ne e] at inside
        exact old inside
    cases step with
    | call u op' _ => exact frame ih (by simp) here
    | lockShared u op' _ _ _ =>
      refine frame ih (fun op i rest e => ?_) here
      cases e
      exact begins op'
    | lock u op' _ _ _ _ =>
      refine frame ih (fun op i rest e => ?_) here
      cases e
      exact begins op'
    | act u op' j update next s' inside _ =>
      refine frame ih (fun op i rest e => ?_) here
      cases e
      exact goes_on update next (ih inside) _
    | unlockShared u op' j r _ _ => exact frame ih (by simp) here
    | unlock u op' j r _ _ => exact frame ih (by simp) here

/-- Only finitely many threads have called. -/
theorem busy_reachable (reach : ReflTransGen (Step o) (Config.start s₀) c) :
    ∃ busy : Finset τ, ∀ t, c.threads t ≠ .idle → t ∈ busy := by
  induction reach with
  | refl => exact ⟨∅, fun t active => absurd rfl active⟩
  | tail _ step ih =>
    obtain ⟨busy, all⟩ := ih
    obtain ⟨t, p, same⟩ := step.one_thread
    refine ⟨insert t busy, fun u active => ?_⟩
    by_cases own : u = t
    · exact Finset.mem_insert.mpr (Or.inl own)
    · rw [same, Function.update_of_ne own] at active
      exact Finset.mem_insert_of_mem (all u active)

/-! ## Some thread can go on -/

/-- The thread is in a call that holds the lock in this mode. -/
def Inside (o : Object σ ρ ι) (threads : τ → Thread σ ρ ι) (t : τ) (mode : Bool) : Prop :=
  ∃ op i rest, threads t = .inside op i rest ∧ o.shared op = mode

theorem Inside.frame {threads : τ → Thread σ ρ ι} {t u : τ} {mode : Bool}
    (h : Inside o threads u mode) (other : u ≠ t) (p : Thread σ ρ ι) :
    Inside o (Function.update threads t p) u mode := by
  obtain ⟨op, i, rest, inside, own⟩ := h
  exact ⟨op, i, rest, by rw [Function.update_of_ne other, inside], own⟩

theorem inside_update (threads : τ → Thread σ ρ ι) (t : τ) {op : ι} (i : Nat) (rest : Body σ ρ)
    {mode : Bool} (own : o.shared op = mode) :
    Inside o (Function.update threads t (.inside op i rest)) t mode :=
  ⟨op, i, rest, Function.update_self .., own⟩

omit [DecidableEq τ] in
/-- Two threads are not the same if one holds the lock otherwise or not at all. -/
theorem Inside.ne {threads : τ → Thread σ ρ ι} {t u : τ} {mode : Bool}
    (h : Inside o threads u mode) (out : ¬ Inside o threads t mode) : u ≠ t := by
  rintro rfl
  exact out h

/-- Whoever holds the lock is inside it. -/
structure Held (o : Object σ ρ ι) (c : Config τ σ ρ ι) : Prop where
  writer : ∀ t, c.writer = some t → Inside o c.threads t false
  readers : ∀ t ∈ c.readers, Inside o c.threads t true

omit [DecidableEq τ] in
theorem held_start (o : Object σ ρ ι) (s : σ) : Held o (Config.start (τ := τ) s) where
  writer _ h := by cases h
  readers _ h := absurd h (Finset.notMem_empty _)

theorem held_step (h : Held o c) (step : Step o c c') : Held o c' := by
  cases step with
  | call t op idle =>
    have out (mode : Bool) : ¬ Inside o c.threads t mode := by
      rintro ⟨op', i, rest, inside, -⟩
      cases idle.symm.trans inside
    refine ⟨fun u hu => ?_, fun u hu => ?_⟩
    · exact (h.writer u hu).frame ((h.writer u hu).ne (out _)) _
    · exact (h.readers u hu).frame ((h.readers u hu).ne (out _)) _
  | lockShared t op waits mode free =>
    refine ⟨fun u hu => ?_, fun u hu => ?_⟩
    · cases free.symm.trans hu
    · by_cases own : u = t
      · exact own ▸ inside_update c.threads t _ _ mode
      · exact (h.readers u (Finset.mem_of_mem_insert_of_ne hu own)).frame own _
  | lock t op waits mode free empty =>
    refine ⟨fun u hu => ?_, fun u hu => ?_⟩
    · cases hu
      exact inside_update c.threads t _ _ mode
    · change u ∈ c.readers at hu
      rw [empty] at hu
      exact absurd hu (Finset.notMem_empty u)
  | act t op i update next s' here updated =>
    have kept {u : τ} {mode : Bool} (held : Inside o c.threads u mode) :
        Inside o (Function.update c.threads t (.inside op i (next c.state))) u mode := by
      by_cases own : u = t
      · subst own
        obtain ⟨op', j, rest, inside, own_mode⟩ := held
        cases here.symm.trans inside
        exact inside_update c.threads u _ _ own_mode
      · exact held.frame own _
    exact ⟨fun u hu => kept (h.writer u hu), fun u hu => kept (h.readers u hu)⟩
  | unlockShared t op i r here mode =>
    have out : ¬ Inside o c.threads t false := by
      rintro ⟨op', j, rest, inside, exclusive⟩
      cases here.symm.trans inside
      cases mode.symm.trans exclusive
    refine ⟨fun u hu => ?_, fun u hu => ?_⟩
    · exact (h.writer u hu).frame ((h.writer u hu).ne out) _
    · obtain ⟨other, reading⟩ := Finset.mem_erase.mp hu
      exact (h.readers u reading).frame other _
  | unlock t op i r here mode =>
    have out : ¬ Inside o c.threads t true := by
      rintro ⟨op', j, rest, inside, shared⟩
      cases here.symm.trans inside
      cases mode.symm.trans shared
    refine ⟨fun u hu => ?_, fun u hu => ?_⟩
    · cases hu
    · exact (h.readers u hu).frame ((h.readers u hu).ne out) _

theorem held_reachable (reach : ReflTransGen (Step o) (Config.start s₀) c) : Held o c := by
  induction reach with
  | refl => exact held_start o s₀
  | tail _ step ih => exact held_step ih step

/-! ## No answer gets lost -/

/-- A call that has had the lock is still inside or has returned. -/
def Accounted (c : Config τ σ ρ ι) : Prop := ∀ i t op, c.log[i]? = some (t, op) →
  (∃ rest, c.threads t = .inside op i rest) ∨ ∃ r, (⟨i, t, op, r⟩ : Completed τ ι ρ) ∈ c.returned

/-- The calls inside other threads stay where they are. -/
theorem Accounted.frame (h : Accounted c) {t : τ} (p : Thread σ ρ ι) {i : Nat} {u : τ} {op : ι}
    (logged : c.log[i]? = some (u, op)) (other : u ≠ t ∨ ∀ rest, c.threads t ≠ .inside op i rest) :
    (∃ rest, Function.update c.threads t p u = .inside op i rest) ∨
      ∃ r, (⟨i, u, op, r⟩ : Completed τ ι ρ) ∈ c.returned := by
  rcases h i u op logged with ⟨rest, here⟩ | back
  · have apart : u ≠ t := by
      rcases other with apart | out
      · exact apart
      · rintro rfl
        exact out rest here
    exact Or.inl ⟨rest, by rw [Function.update_of_ne apart, here]⟩
  · exact Or.inr back

/-- A call that gets the lock is the last of the log. -/
theorem Accounted.enter (h : Accounted c) {t : τ} {op : ι} (waits : c.threads t = .waiting op)
    (body : Body σ ρ) {i : Nat} {u : τ} {op' : ι} (logged : (c.log ++ [(t, op)])[i]? = some (u, op')) :
    (∃ rest, Function.update c.threads t (.inside op c.log.length body) u = .inside op' i rest) ∨
      ∃ r, (⟨i, u, op', r⟩ : Completed τ ι ρ) ∈ c.returned := by
  by_cases earlier : i < c.log.length
  · rw [List.getElem?_append_left earlier] at logged
    refine h.frame _ logged (Or.inr (fun rest inside => ?_))
    cases waits.symm.trans inside
  · have last : i = c.log.length := by
      have bound := (List.getElem?_eq_some_iff.mp logged).1
      simp only [List.length_append, List.length_singleton] at bound
      omega
    subst last
    rw [List.getElem?_concat_length] at logged
    cases logged
    exact Or.inl ⟨body, Function.update_self ..⟩

/-- A call that returns leaves its answer behind. -/
theorem Accounted.leave (h : Accounted c) {t : τ} {op : ι} {i : Nat} {rest : Body σ ρ}
    (here : c.threads t = .inside op i rest) (r : ρ) {j : Nat} {u : τ} {op' : ι}
    (logged : c.log[j]? = some (u, op')) :
    (∃ rest, Function.update c.threads t .idle u = .inside op' j rest) ∨
      ∃ r', (⟨j, u, op', r'⟩ : Completed τ ι ρ) ∈ (⟨i, t, op, r⟩ : Completed τ ι ρ) :: c.returned := by
  by_cases own : u = t ∧ ∃ rest', c.threads t = .inside op' j rest'
  · obtain ⟨rfl, rest', inside⟩ := own
    cases here.symm.trans inside
    exact Or.inr ⟨r, List.mem_cons_self⟩
  · have other : u ≠ t ∨ ∀ rest', c.threads t ≠ .inside op' j rest' := by
      rcases not_and_or.mp own with apart | out
      · exact Or.inl apart
      · exact Or.inr (not_exists.mp out)
    rcases h.frame (.idle : Thread σ ρ ι) logged other with stays | ⟨r', back⟩
    · exact Or.inl stays
    · exact Or.inr ⟨r', List.mem_cons_of_mem _ back⟩

theorem accounted_step (h : Accounted c) (step : Step o c c') : Accounted c' := by
  intro j u op' logged
  cases step with
  | call t op idle =>
    refine h.frame _ logged (Or.inr (fun rest inside => ?_))
    cases idle.symm.trans inside
  | lockShared t op waits _ _ => exact h.enter waits _ logged
  | lock t op waits _ _ _ => exact h.enter waits _ logged
  | act t op i update next s' here _ =>
    by_cases own : u = t
    · subst own
      rcases h j u op' logged with ⟨rest, inside⟩ | back
      · cases here.symm.trans inside
        exact Or.inl ⟨_, Function.update_self ..⟩
      · exact Or.inr back
    · exact h.frame _ logged (Or.inl own)
  | unlockShared t op i r here _ => exact h.leave here r logged
  | unlock t op i r here _ => exact h.leave here r logged

theorem accounted_reachable (reach : ReflTransGen (Step o) (Config.start s₀) c) : Accounted c := by
  induction reach with
  | refl =>
    intro i t op logged
    cases logged
  | tail _ step ih => exact accounted_step ih step

/-! ## Every call returns -/

/-- Without the call of an idle thread. -/
theorem Step.work {t : τ} {p : Thread σ ρ ι} (step : Step o c c') (active : c.threads t ≠ .idle)
    (same : c'.threads = Function.update c.threads t p) : Work o c c' := by
  refine ⟨step, fun u idle => ?_⟩
  rw [same, Function.update_of_ne, idle]
  rintro rfl
  exact active idle

/-- A thread inside can always make its next access or leave. -/
theorem work_inside (inv : Inv o s₀ c s rs) {t : τ} {mode : Bool}
    (inside : Inside o c.threads t mode) : ∃ c', Work o c c' := by
  obtain ⟨op, i, rest, here, own⟩ := inside
  have active : c.threads t ≠ .idle := by
    rw [here]
    exact nofun
  cases rest with
  | act update next =>
    obtain ⟨s', updated⟩ := Option.isSome_iff_exists.mp (inv.defined here)
    exact ⟨_, Step.work (.act t op i update next s' here updated) active rfl⟩
  | done r =>
    cases mode with
    | true => exact ⟨_, Step.work (.unlockShared t op i r here own) active rfl⟩
    | false => exact ⟨_, Step.work (.unlock t op i r here own) active rfl⟩

/-- While a call is in progress, some thread can go on. -/
theorem work_of_busy (inv : Inv o s₀ c s rs) (held : Held o c) {t : τ}
    (busy : c.threads t ≠ .idle) : ∃ c', Work o c c' := by
  by_cases free : c.writer = none
  · by_cases empty : c.readers = ∅
    · cases here : c.threads t with
      | idle => exact absurd here busy
      | inside op i rest => exact work_inside inv ⟨op, i, rest, here, rfl⟩
      | waiting op =>
        cases mode : o.shared op with
        | true => exact ⟨_, Step.work (.lockShared t op here mode free) busy rfl⟩
        | false => exact ⟨_, Step.work (.lock t op here mode free empty) busy rfl⟩
    · obtain ⟨u, reading⟩ := Finset.nonempty_iff_ne_empty.mpr empty
      exact work_inside inv (held.readers u reading)
  · obtain ⟨u, writing⟩ := Option.ne_none_iff_exists'.mp free
    exact work_inside inv (held.writer u writing)

theorem Held.free (held : Held o c) (idle : ∀ t, c.threads t = .idle) :
    c.writer = none ∧ c.readers = ∅ := by
  have out {t : τ} {mode : Bool} (inside : Inside o c.threads t mode) : False := by
    obtain ⟨op, i, rest, here, -⟩ := inside
    cases (idle t).symm.trans here
  constructor
  · by_contra taken
    obtain ⟨t, writing⟩ := Option.ne_none_iff_exists'.mp taken
    exact out (held.writer t writing)
  · by_contra taken
    obtain ⟨t, reading⟩ := Finset.nonempty_iff_ne_empty.mpr taken
    exact out (held.readers t reading)

/-- Whatever the schedule, the calls in progress return if no new ones are made: a run without new
calls is finite, and where it cannot go on every thread is idle, the lock is free and every call
that has had the lock has its answer. -/
theorem calls_end (total : ∀ ops, (replay o s₀ ops).isSome)
    (readOnly : ∀ op, o.shared op = true → (o.body op).ReadOnly)
    (reach : ReflTransGen (Step o) (Config.start s₀) c) :
    Acc (fun c' c => Work o c c') c ∧ ∀ c', ReflTransGen (Work o) c c' →
      (∀ c'', ¬ Work o c' c'') → (∀ t, c'.threads t = .idle) ∧ (c'.writer = none ∧ c'.readers = ∅) ∧
        ∀ i t op, c'.log[i]? = some (t, op) →
          ∃ r, (⟨i, t, op, r⟩ : Completed τ ι ρ) ∈ c'.returned := by
  obtain ⟨busy, all⟩ := busy_reachable reach
  refine ⟨acc_work all, fun c' works stuck => ?_⟩
  have reach' : ReflTransGen (Step o) (Config.start s₀) c' :=
    reach.trans (ReflTransGen.mono (fun _ _ work => work.1) _ _ works)
  obtain ⟨s, rs, inv⟩ := inv_reachable total readOnly reach'
  have idle (t : τ) : c'.threads t = .idle := by
    by_contra active
    obtain ⟨c'', work⟩ := work_of_busy inv (held_reachable reach') active
    exact stuck c'' work
  refine ⟨idle, (held_reachable reach').free idle, fun i t op logged => ?_⟩
  rcases accounted_reachable reach' i t op logged with ⟨rest, inside⟩ | back
  · cases (idle t).symm.trans inside
  · exact back

end work

end SharedMutex
