import Mathlib.Data.Finset.Erase
import Mathlib.Data.Finset.Insert
import Mathlib.Logic.Function.Basic
import Mathlib.Logic.Relation

/-! An object under one std::shared_mutex, with the accesses of a call made one at a time.
Any number of threads call in any order; a step of one thread is one access. If exclusive
bodies never fault when run one after the other and shared bodies do not write, every
interleaving answers as the calls do in the order in which they acquired the lock. -/
namespace SharedMutex

variable {σ ρ ι τ : Type}

/-- What a call does while it holds the lock. `next` sees the state before the update; an
update none is undefined behaviour. -/
inductive Body (σ ρ : Type) where
  | done (result : ρ)
  | act (update : σ → Option σ) (next : σ → Body σ ρ)

def Body.run : Body σ ρ → σ → Option (σ × ρ)
  | .done r, s => some (s, r)
  | .act update next, s => (update s).bind (next s).run

def Body.ReadOnly : Body σ ρ → Prop
  | .done _ => True
  | .act update next => ∀ s, update s = some s ∧ (next s).ReadOnly

/-- A read of the state. -/
def Body.read {α : Type} (f : σ → α) (k : α → Body σ ρ) : Body σ ρ := .act some (fun s => k (f s))

/-- A write that cannot fault. -/
def Body.write (f : σ → σ) (k : Body σ ρ) : Body σ ρ := .act (fun s => some (f s)) (fun _ => k)

structure Object (σ ρ ι : Type) where
  shared : ι → Bool
  body : ι → Body σ ρ

inductive Thread (σ ρ ι : Type) where
  | idle
  | waiting (op : ι)
  | inside (op : ι) (ticket : Nat) (rest : Body σ ρ)

/-- A finished call: its place in the order of acquisition, its thread and what it returned. -/
structure Completed (τ ι ρ : Type) where
  ticket : Nat
  thread : τ
  op : ι
  result : ρ

structure Config (τ σ ρ ι : Type) where
  state : σ
  threads : τ → Thread σ ρ ι
  readers : Finset τ
  writer : Option τ
  log : List (τ × ι)
  returned : List (Completed τ ι ρ)

def Config.start (s : σ) : Config τ σ ρ ι := ⟨s, fun _ => .idle, ∅, none, [], []⟩

/-- The calls so far, in the order in which they acquired the lock. -/
def Config.ops (c : Config τ σ ρ ι) : List ι := c.log.map Prod.snd

def Config.set [DecidableEq τ] (c : Config τ σ ρ ι) (t : τ) (p : Thread σ ρ ι) : Config τ σ ρ ι :=
  { c with threads := Function.update c.threads t p }

inductive Step [DecidableEq τ] (o : Object σ ρ ι) : Config τ σ ρ ι → Config τ σ ρ ι → Prop where
  | call {c} (t : τ) (op : ι) : c.threads t = .idle → Step o c (c.set t (.waiting op))
  | lockShared {c} (t : τ) (op : ι) : c.threads t = .waiting op → o.shared op = true →
      c.writer = none → Step o c
        { c.set t (.inside op c.log.length (o.body op)) with
          readers := insert t c.readers, log := c.log ++ [(t, op)] }
  | lock {c} (t : τ) (op : ι) : c.threads t = .waiting op → o.shared op = false →
      c.writer = none → c.readers = ∅ → Step o c
        { c.set t (.inside op c.log.length (o.body op)) with
          writer := some t, log := c.log ++ [(t, op)] }
  | act {c} (t : τ) (op : ι) (i : Nat) (update : σ → Option σ) (next : σ → Body σ ρ) (s : σ) :
      c.threads t = .inside op i (.act update next) → update c.state = some s → Step o c
        { c.set t (.inside op i (next c.state)) with state := s }
  | unlockShared {c} (t : τ) (op : ι) (i : Nat) (r : ρ) : c.threads t = .inside op i (.done r) →
      o.shared op = true → Step o c
        { c.set t .idle with
          readers := c.readers.erase t, returned := ⟨i, t, op, r⟩ :: c.returned }
  | unlock {c} (t : τ) (op : ι) (i : Nat) (r : ρ) : c.threads t = .inside op i (.done r) →
      o.shared op = false → Step o c
        { c.set t .idle with writer := none, returned := ⟨i, t, op, r⟩ :: c.returned }

/-- Whole calls, one after the other. -/
def replay (o : Object σ ρ ι) (s : σ) : List ι → Option (σ × List ρ)
  | [] => some (s, [])
  | op :: ops => do
    let (s, r) ← (o.body op).run s
    let (s, rs) ← replay o s ops
    some (s, r :: rs)

theorem Body.ReadOnly.run_eq {p : Body σ ρ} (h : p.ReadOnly) (s : σ) :
    ∃ r, p.run s = some (s, r) := by
  induction p generalizing s with
  | done r => exact ⟨r, rfl⟩
  | act update next ih =>
    obtain ⟨r, hr⟩ := ih s (h s).2 s
    exact ⟨r, by rw [Body.run, (h s).1, Option.bind_some, hr]⟩

theorem replay_append (o : Object σ ρ ι) {s s₁ : σ} {ops : List ι} {rs : List ρ}
    (h : replay o s ops = some (s₁, rs)) (op : ι) :
    replay o s (ops ++ [op]) = ((o.body op).run s₁).map (fun q => (q.1, rs ++ [q.2])) := by
  induction ops generalizing s rs with
  | nil =>
    cases h
    cases hb : (o.body op).run s₁ <;> simp [replay, hb]
  | cons x ops ih =>
    simp only [replay, Option.bind_eq_bind, Option.bind_eq_some_iff] at h
    obtain ⟨⟨s', r⟩, hx, ⟨s'', rs'⟩, hrest, he⟩ := h
    cases he
    simp only [List.cons_append, replay, hx, Option.bind_eq_bind, Option.bind_some, ih hrest]
    cases (o.body op).run s'' <;> rfl

theorem replay_length (o : Object σ ρ ι) {s s₁ : σ} {ops : List ι} {rs : List ρ}
    (h : replay o s ops = some (s₁, rs)) : rs.length = ops.length := by
  induction ops generalizing s rs with
  | nil =>
    cases h
    rfl
  | cons x ops ih =>
    simp only [replay, Option.bind_eq_bind, Option.bind_eq_some_iff] at h
    obtain ⟨⟨s', r⟩, -, ⟨s'', rs'⟩, hrest, he⟩ := h
    cases he
    simp [ih hrest]

/-- What the lock guarantees to a thread inside: a reader sees the state all logged calls leave,
a writer alone brings that state about. -/
structure Holds (o : Object σ ρ ι) (c : Config τ σ ρ ι) (s : σ) (rs : List ρ) (t : τ) (op : ι)
    (i : Nat) (rest : Body σ ρ) : Prop where
  logged : c.log[i]? = some (t, op)
  reader : o.shared op = true → t ∈ c.readers ∧ rest.ReadOnly
  writer : o.shared op = false → c.writer = some t
  outcome : ∃ r, rs[i]? = some r ∧ rest.run c.state = some (s, r)

structure Inv (o : Object σ ρ ι) (s₀ : σ) (c : Config τ σ ρ ι) (s : σ) (rs : List ρ) : Prop where
  replayed : replay o s₀ c.ops = some (s, rs)
  quiet : c.writer = none → c.state = s
  alone : ∀ t, c.writer = some t → c.readers = ∅
  inside : ∀ t op i rest, c.threads t = .inside op i rest → Holds o c s rs t op i rest
  finished : ∀ d ∈ c.returned, c.log[d.ticket]? = some (d.thread, d.op) ∧
    rs[d.ticket]? = some d.result

theorem inv_start (o : Object σ ρ ι) (s₀ : σ) : Inv o s₀ (Config.start (τ := τ) s₀) s₀ [] where
  replayed := rfl
  quiet _ := rfl
  alone _ _ := rfl
  inside _ _ _ _ h := by cases h
  finished _ h := absurd h List.not_mem_nil

section steps

variable {o : Object σ ρ ι} {s₀ : σ} {c : Config τ σ ρ ι} {s : σ} {rs : List ρ}

theorem Inv.log_length (h : Inv o s₀ c s rs) : c.log.length = rs.length := by
  rw [replay_length o h.replayed, Config.ops, List.length_map]

theorem Inv.logged_append (h : Inv o s₀ c s rs) {i : Nat} {t : τ} {op : ι} {r : ρ}
    (hl : c.log[i]? = some (t, op)) (hr : rs[i]? = some r) (q : τ × ι) (x : ρ) :
    (c.log ++ [q])[i]? = some (t, op) ∧ (rs ++ [x])[i]? = some r := by
  have bound : i < rs.length := (List.getElem?_eq_some_iff.mp hr).1
  rw [List.getElem?_append_left (h.log_length ▸ bound), List.getElem?_append_left bound]
  exact ⟨hl, hr⟩

theorem Inv.logged_last (h : Inv o s₀ c s rs) (q : τ × ι) (x : ρ) :
    (c.log ++ [q])[c.log.length]? = some q ∧ (rs ++ [x])[c.log.length]? = some x := by
  constructor
  · simp
  · rw [h.log_length]
    simp

/-- A shared holder sees the state that the logged calls leave, and nothing in between. -/
theorem Inv.shared_state (h : Inv o s₀ c s rs) {t : τ} {op : ι} {i : Nat} {rest : Body σ ρ}
    (hin : c.threads t = .inside op i rest) (mode : o.shared op = true) : c.state = s := by
  obtain ⟨mem, readOnly⟩ := (h.inside t op i rest hin).reader mode
  obtain ⟨r, hr⟩ := readOnly.run_eq c.state
  obtain ⟨r', -, hrun⟩ := (h.inside t op i rest hin).outcome
  exact congrArg Prod.fst (Option.some.inj (hr.symm.trans hrun))

/-- No access of a thread inside the lock is undefined. -/
theorem Inv.defined (h : Inv o s₀ c s rs) {t : τ} {op : ι} {i : Nat} {update : σ → Option σ}
    {next : σ → Body σ ρ} (hin : c.threads t = .inside op i (.act update next)) :
    (update c.state).isSome := by
  obtain ⟨r, -, hrun⟩ := (h.inside t op i _ hin).outcome
  cases hu : update c.state with
  | none =>
    rw [Body.run, hu] at hrun
    cases hrun
  | some s' => rfl

variable [DecidableEq τ]

/-- Setting a thread outside the lock disturbs no one inside. -/
theorem inside_set {t : τ} {p : Thread σ ρ ι} (out : ∀ op i rest, p ≠ .inside op i rest)
    {u : τ} {op : ι} {i : Nat} {rest : Body σ ρ}
    (h : (c.set t p).threads u = .inside op i rest) : u ≠ t ∧ c.threads u = .inside op i rest := by
  by_cases e : u = t
  · subst e
    simp only [Config.set, Function.update_self] at h
    exact absurd h (out op i rest)
  · simp only [Config.set, Function.update_of_ne e] at h
    exact ⟨e, h⟩

theorem inv_call (h : Inv o s₀ c s rs) (t : τ) (op : ι) : Inv o s₀ (c.set t (.waiting op)) s rs where
  replayed := h.replayed
  quiet := h.quiet
  alone := h.alone
  inside u op' i rest hu := by
    obtain ⟨-, hu⟩ := inside_set (by simp) hu
    exact ⟨(h.inside u op' i rest hu).logged, (h.inside u op' i rest hu).reader,
      (h.inside u op' i rest hu).writer, (h.inside u op' i rest hu).outcome⟩
  finished := h.finished

theorem inv_lockShared (readOnly : ∀ op, o.shared op = true → (o.body op).ReadOnly)
    (h : Inv o s₀ c s rs) (t : τ) (op : ι) (mode : o.shared op = true)
    (free : c.writer = none) : ∃ s' rs', Inv o s₀
      { c.set t (.inside op c.log.length (o.body op)) with
        readers := insert t c.readers, log := c.log ++ [(t, op)] } s' rs' := by
  have hs := h.quiet free
  obtain ⟨r, hr⟩ := (readOnly op mode).run_eq s
  refine ⟨s, rs ++ [r], ?_, fun _ => hs, ?_, ?_, ?_⟩
  · simp only [Config.ops, List.map_append, List.map_cons, List.map_nil]
    exact (replay_append o h.replayed op).trans (by rw [hr]; rfl)
  · intro u hu
    exact absurd (free.symm.trans hu) (by simp)
  · intro u op' i rest hu
    by_cases e : u = t
    · subst e
      simp only [Config.set, Function.update_self, Thread.inside.injEq] at hu
      obtain ⟨rfl, rfl, rfl⟩ := hu
      have last := h.logged_last (u, op) r
      refine ⟨last.1, fun _ => ⟨Finset.mem_insert_self _ _, readOnly op mode⟩, ?_, r, last.2, ?_⟩
      · intro exclusive
        rw [mode] at exclusive
        cases exclusive
      · exact (congrArg _ hs).trans hr
    · simp only [Config.set, Function.update_of_ne e] at hu
      obtain ⟨logged, reader, writer, r', hr', hrun⟩ := h.inside u op' i rest hu
      have kept := h.logged_append logged hr' (t, op) r
      refine ⟨kept.1, ?_, writer, r', kept.2, hrun⟩
      intro m
      exact ⟨Finset.mem_insert_of_mem (reader m).1, (reader m).2⟩
  · intro d hd
    have old := h.finished d hd
    exact h.logged_append old.1 old.2 (t, op) r

theorem inv_lock (total : ∀ ops, (replay o s₀ ops).isSome)
    (h : Inv o s₀ c s rs) (t : τ) (op : ι) (mode : o.shared op = false)
    (free : c.writer = none) (empty : c.readers = ∅) : ∃ s' rs', Inv o s₀
      { c.set t (.inside op c.log.length (o.body op)) with
        writer := some t, log := c.log ++ [(t, op)] } s' rs' := by
  have hs := h.quiet free
  have next := replay_append o h.replayed op
  have some_next := total (c.ops ++ [op])
  rw [next, Option.isSome_map] at some_next
  obtain ⟨⟨s', r⟩, hr⟩ := Option.isSome_iff_exists.mp some_next
  refine ⟨s', rs ++ [r], ?_, ?_, fun _ _ => empty, ?_, ?_⟩
  · simp only [Config.ops, List.map_append, List.map_cons, List.map_nil]
    exact next.trans (by rw [hr]; rfl)
  · intro hw
    cases hw
  · intro u op' i rest hu
    by_cases e : u = t
    · subst e
      simp only [Config.set, Function.update_self, Thread.inside.injEq] at hu
      obtain ⟨rfl, rfl, rfl⟩ := hu
      have last := h.logged_last (u, op) r
      refine ⟨last.1, ?_, fun _ => rfl, r, last.2, (congrArg _ hs).trans hr⟩
      intro shared
      rw [mode] at shared
      cases shared
    · -- no one else can be inside: there was neither a writer nor a reader
      simp only [Config.set, Function.update_of_ne e] at hu
      have hin := h.inside u op' i rest hu
      cases m : o.shared op' with
      | true =>
        have mem := (hin.reader m).1
        rw [empty] at mem
        exact absurd mem (Finset.notMem_empty u)
      | false =>
        have own := hin.writer m
        rw [free] at own
        cases own
  · intro d hd
    have old := h.finished d hd
    exact h.logged_append old.1 old.2 (t, op) r

theorem inv_act (h : Inv o s₀ c s rs) (t : τ) (op : ι) (i : Nat) (update : σ → Option σ)
    (next : σ → Body σ ρ) (s' : σ) (at_act : c.threads t = .inside op i (.act update next))
    (updated : update c.state = some s') :
    Inv o s₀ { c.set t (.inside op i (next c.state)) with state := s' } s rs := by
  have hin := h.inside t op i _ at_act
  obtain ⟨r, hr, hrun⟩ := hin.outcome
  rw [Body.run, updated, Option.bind_some] at hrun
  cases mode : o.shared op with
  | true =>
    -- a reader leaves the state alone
    have still : s' = c.state := by
      have := (hin.reader mode).2 c.state
      exact Option.some.inj (updated.symm.trans this.1)
    subst still
    refine ⟨h.replayed, h.quiet, h.alone, ?_, h.finished⟩
    intro u op' j rest hu
    by_cases e : u = t
    · subst e
      simp only [Config.set, Function.update_self, Thread.inside.injEq] at hu
      obtain ⟨rfl, rfl, rfl⟩ := hu
      refine ⟨hin.logged, ?_, hin.writer, r, hr, hrun⟩
      intro m
      exact ⟨(hin.reader m).1, ((hin.reader m).2 c.state).2⟩
    · simp only [Config.set, Function.update_of_ne e] at hu
      have other := h.inside u op' j rest hu
      exact ⟨other.logged, other.reader, other.writer, other.outcome⟩
  | false =>
    -- a writer is the only thread inside
    have own := hin.writer mode
    refine ⟨h.replayed, ?_, h.alone, ?_, h.finished⟩
    · intro hw
      exact absurd (own.symm.trans hw) (by simp)
    · intro u op' j rest hu
      by_cases e : u = t
      · subst e
        simp only [Config.set, Function.update_self, Thread.inside.injEq] at hu
        obtain ⟨rfl, rfl, rfl⟩ := hu
        refine ⟨hin.logged, ?_, hin.writer, r, hr, hrun⟩
        intro m
        rw [mode] at m
        cases m
      · simp only [Config.set, Function.update_of_ne e] at hu
        have other := h.inside u op' j rest hu
        cases m : o.shared op' with
        | true =>
          have mem := (other.reader m).1
          rw [h.alone t own] at mem
          exact absurd mem (Finset.notMem_empty u)
        | false => exact absurd (Option.some.inj ((other.writer m).symm.trans own)) e

theorem inv_unlockShared (h : Inv o s₀ c s rs) (t : τ) (op : ι) (i : Nat) (r : ρ)
    (at_done : c.threads t = .inside op i (.done r)) : Inv o s₀
      { c.set t .idle with
        readers := c.readers.erase t, returned := ⟨i, t, op, r⟩ :: c.returned } s rs := by
  have hin := h.inside t op i _ at_done
  obtain ⟨r', hr, hrun⟩ := hin.outcome
  cases hrun
  refine ⟨h.replayed, h.quiet, ?_, ?_, ?_⟩
  · intro u hu
    rw [h.alone u hu]
    rfl
  · intro u op' j rest hu
    obtain ⟨e, hu⟩ := inside_set (by simp) hu
    have other := h.inside u op' j rest hu
    refine ⟨other.logged, ?_, other.writer, other.outcome⟩
    intro m
    exact ⟨Finset.mem_erase.mpr ⟨e, (other.reader m).1⟩, (other.reader m).2⟩
  · intro d hd
    rcases List.mem_cons.mp hd with rfl | hd
    · exact ⟨hin.logged, hr⟩
    · exact h.finished d hd

theorem inv_unlock (h : Inv o s₀ c s rs) (t : τ) (op : ι) (i : Nat) (r : ρ)
    (at_done : c.threads t = .inside op i (.done r)) (mode : o.shared op = false) : Inv o s₀
      { c.set t .idle with writer := none, returned := ⟨i, t, op, r⟩ :: c.returned } s rs := by
  have hin := h.inside t op i _ at_done
  obtain ⟨r', hr, hrun⟩ := hin.outcome
  cases hrun
  have own := hin.writer mode
  refine ⟨h.replayed, fun _ => rfl, ?_, ?_, ?_⟩
  · intro u hu
    cases hu
  · intro u op' j rest hu
    obtain ⟨e, hu⟩ := inside_set (by simp) hu
    have other := h.inside u op' j rest hu
    refine ⟨other.logged, other.reader, ?_, other.outcome⟩
    intro m
    exact absurd (Option.some.inj ((other.writer m).symm.trans own)) e
  · intro d hd
    rcases List.mem_cons.mp hd with rfl | hd
    · exact ⟨hin.logged, hr⟩
    · exact h.finished d hd

theorem inv_step (total : ∀ ops, (replay o s₀ ops).isSome)
    (readOnly : ∀ op, o.shared op = true → (o.body op).ReadOnly) {c' : Config τ σ ρ ι}
    (h : Inv o s₀ c s rs) (step : Step o c c') : ∃ s' rs', Inv o s₀ c' s' rs' := by
  cases step with
  | call t op _ => exact ⟨s, rs, inv_call h t op⟩
  | lockShared t op _ mode free => exact inv_lockShared readOnly h t op mode free
  | lock t op _ mode free empty => exact inv_lock total h t op mode free empty
  | act t op i update next s' at_act updated =>
    exact ⟨s, rs, inv_act h t op i update next s' at_act updated⟩
  | unlockShared t op i r at_done _ => exact ⟨s, rs, inv_unlockShared h t op i r at_done⟩
  | unlock t op i r at_done mode => exact ⟨s, rs, inv_unlock h t op i r at_done mode⟩

end steps

/-- Every reachable configuration is explained by the logged calls run one after the other. -/
theorem inv_reachable [DecidableEq τ] {o : Object σ ρ ι} {s₀ : σ}
    (total : ∀ ops, (replay o s₀ ops).isSome)
    (readOnly : ∀ op, o.shared op = true → (o.body op).ReadOnly) {c : Config τ σ ρ ι}
    (reach : Relation.ReflTransGen (Step o) (Config.start s₀) c) :
    ∃ s rs, Inv o s₀ c s rs := by
  induction reach with
  | refl => exact ⟨s₀, [], inv_start o s₀⟩
  | tail _ step ih =>
    obtain ⟨s, rs, h⟩ := ih
    exact inv_step total readOnly h step

/-- A thread inside may run its whole body undisturbed. -/
theorem steps_body [DecidableEq τ] {o : Object σ ρ ι} {c : Config τ σ ρ ι} (t : τ) (op : ι)
    {i : Nat} {p : Body σ ρ} {s : σ} {r : ρ} (hin : c.threads t = .inside op i p)
    (hrun : p.run c.state = some (s, r)) : Relation.ReflTransGen (Step o) c
      { c.set t (.inside op i (.done r)) with state := s } := by
  induction p generalizing c with
  | done r' =>
    cases hrun
    have same : c.set t (.inside op i (.done r)) = c := by
      simp only [Config.set, ← hin, Function.update_eq_self]
    rw [same]
  | act update next ih =>
    obtain ⟨s', hu, hrest⟩ := Option.bind_eq_some_iff.mp hrun
    have first := Relation.ReflTransGen.single (Step.act (o := o) t op i update next s' hin hu)
    have tail := ih c.state (c := { c.set t (.inside op i (next c.state)) with state := s' })
      (by simp [Config.set]) hrest
    simp only [Config.set, Function.update_idem] at first tail ⊢
    exact first.trans tail

end SharedMutex
