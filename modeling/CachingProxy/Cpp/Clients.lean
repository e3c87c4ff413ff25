import CachingProxy.Cpp.SharedMutex
import CachingProxy.Runs
import Mathlib.Data.Finset.Basic

/-! Threads that use an object under a std::shared_mutex, each by a program whose next call may
depend on the answers so far. Whatever the interleaving of their accesses, there is a run in which
every call is one step, taken in the order in which the calls got the lock. -/
namespace SharedMutex

open Relation

variable {σ ρ ι τ : Type}

/-- What a thread still does with the object. -/
inductive Client (ρ ι : Type) where
  | done
  | call (op : ι) (next : ρ → Client ρ ι)

/-- These calls, whatever the answers. -/
def Client.script : List ι → Client ρ ι
  | [] => .done
  | op :: ops => .call op (fun _ => script ops)

/-! ## Call by call -/

structure Served (τ σ ρ ι : Type) where
  state : σ
  clients : τ → Client ρ ι
  calls : List (τ × ι)
  answers : List ρ

def Served.start (s : σ) (clients : τ → Client ρ ι) : Served τ σ ρ ι := ⟨s, clients, [], []⟩

/-- The next call of a thread, all at once. -/
def serve [DecidableEq τ] (o : Object σ ρ ι) (a : Served τ σ ρ ι) (t : τ) :
    Option (Served τ σ ρ ι) :=
  match a.clients t with
  | .done => none
  | .call op next => ((o.body op).run a.state).map (fun q =>
    ⟨q.1, Function.update a.clients t (next q.2), a.calls ++ [(t, op)], a.answers ++ [q.2]⟩)

theorem serve_call [DecidableEq τ] {o : Object σ ρ ι} {a : Served τ σ ρ ι} {t : τ} {op : ι}
    {next : ρ → Client ρ ι} (at_call : a.clients t = .call op next) {s : σ} {r : ρ}
    (ran : (o.body op).run a.state = some (s, r)) :
    serve o a t = some ⟨s, Function.update a.clients t (next r), a.calls ++ [(t, op)],
      a.answers ++ [r]⟩ := by
  simp only [serve, at_call, ran, Option.map_some]

theorem serve_eq_some [DecidableEq τ] {o : Object σ ρ ι} {a a' : Served τ σ ρ ι} {t : τ}
    (served : serve o a t = some a') : ∃ op next s r, a.clients t = .call op next ∧
      (o.body op).run a.state = some (s, r) ∧
      a' = ⟨s, Function.update a.clients t (next r), a.calls ++ [(t, op)], a.answers ++ [r]⟩ := by
  unfold serve at served
  split at served
  · cases served
  · rename_i op next at_call
    obtain ⟨⟨s, r⟩, ran, rfl⟩ := Option.map_eq_some_iff.mp served
    exact ⟨op, next, s, r, at_call, ran, rfl⟩

/-! ## Access by access -/

/-- A client stays at its call until the call returns. -/
structure System (τ σ ρ ι : Type) where
  config : Config τ σ ρ ι
  clients : τ → Client ρ ι

def System.start (s : σ) (clients : τ → Client ρ ι) : System τ σ ρ ι := ⟨.start s, clients⟩

section systems

variable [DecidableEq τ] {o : Object σ ρ ι} {s₀ : σ}

inductive Advance (o : Object σ ρ ι) : System τ σ ρ ι → System τ σ ρ ι → Prop where
  | call {s} (t : τ) (op : ι) (next : ρ → Client ρ ι) : s.clients t = .call op next →
      s.config.threads t = .idle → Advance o s { s with config := s.config.set t (.waiting op) }
  | go {s} (c : Config τ σ ρ ι) : Step o s.config c →
      (∀ t, c.threads t = .idle ↔ s.config.threads t = .idle) → Advance o s { s with config := c }
  | unlockShared {s} (t : τ) (op : ι) (next : ρ → Client ρ ι) (i : Nat) (r : ρ) :
      s.clients t = .call op next → s.config.threads t = .inside op i (.done r) →
      o.shared op = true → Advance o s
        ⟨{ s.config.set t .idle with
            readers := s.config.readers.erase t, returned := ⟨i, t, op, r⟩ :: s.config.returned },
          Function.update s.clients t (next r)⟩
  | unlock {s} (t : τ) (op : ι) (next : ρ → Client ρ ι) (i : Nat) (r : ρ) :
      s.clients t = .call op next → s.config.threads t = .inside op i (.done r) →
      o.shared op = false → Advance o s
        ⟨{ s.config.set t .idle with
            writer := none, returned := ⟨i, t, op, r⟩ :: s.config.returned },
          Function.update s.clients t (next r)⟩

/-- The clients only choose among the calls that any thread may make. -/
theorem Advance.step {s s' : System τ σ ρ ι} (h : Advance o s s') : Step o s.config s'.config := by
  cases h with
  | call t op next _ idle => exact .call t op idle
  | go c step _ => exact step
  | unlockShared t op next i r _ here mode => exact .unlockShared t op i r here mode
  | unlock t op next i r _ here mode => exact .unlock t op i r here mode

theorem steps_of_advances {s s' : System τ σ ρ ι} (h : ReflTransGen (Advance o) s s') :
    ReflTransGen (Step o) s.config s'.config := by
  induction h with
  | refl => exact .refl
  | tail _ advance ih => exact ih.tail advance.step

/-! ## The one explains the other -/

/-- A call that has had the lock has been served, one that waits for it has not. -/
def Place (rs : List ρ) (now served : Client ρ ι) : Thread σ ρ ι → Prop
  | .idle => served = now
  | .waiting op => served = now ∧ ∃ next, now = .call op next
  | .inside op i _ => ∃ next r, now = .call op next ∧ rs[i]? = some r ∧ served = next r

structure Explains (o : Object σ ρ ι) (s₀ : σ) (s : System τ σ ρ ι) (a : Served τ σ ρ ι) :
    Prop where
  inv : Inv o s₀ s.config a.state a.answers
  calls : a.calls = s.config.log
  places : ∀ t, Place a.answers (s.clients t) (a.clients t) (s.config.threads t)

omit [DecidableEq τ] in
theorem explains_start (o : Object σ ρ ι) (s₀ : σ) (clients : τ → Client ρ ι) :
    Explains o s₀ (.start s₀ clients) (.start s₀ clients) where
  inv := inv_start o s₀
  calls := rfl
  places _ := rfl

/-- What has been answered stays answered. -/
theorem Place.mono {rs : List ρ} {now served : Client ρ ι} {p : Thread σ ρ ι}
    (h : Place rs now served p) (r : ρ) : Place (rs ++ [r]) now served p := by
  cases p with
  | idle => exact h
  | waiting op => exact h
  | inside op i rest =>
    obtain ⟨next, r', at_call, answer, after⟩ := h
    have bound := (List.getElem?_eq_some_iff.mp answer).1
    exact ⟨next, r', at_call, by rw [List.getElem?_append_left bound, answer], after⟩

omit [DecidableEq τ] in
/-- The call that was logged last has run on the state before it. -/
theorem Inv.last_call {c c' : Config τ σ ρ ι} {s s' : σ} {rs rs' : List ρ}
    (h : Inv o s₀ c s rs) (h' : Inv o s₀ c' s' rs') {t : τ} {op : ι}
    (log : c'.log = c.log ++ [(t, op)]) :
    ∃ r, (o.body op).run s = some (s', r) ∧ rs' = rs ++ [r] := by
  have ops : c'.ops = c.ops ++ [op] := by simp [Config.ops, log]
  have whole := h'.replayed
  rw [ops, replay_append o h.replayed op] at whole
  obtain ⟨⟨s'', r⟩, ran, same⟩ := Option.map_eq_some_iff.mp whole
  cases same
  exact ⟨r, ran, rfl⟩

/-- A thread that gets the lock is served at that moment. -/
theorem explains_lock {s : System τ σ ρ ι} {a : Served τ σ ρ ι} (h : Explains o s₀ s a)
    {t : τ} {op : ι} (waits : s.config.threads t = .waiting op)
    {c : Config τ σ ρ ι} (log : c.log = s.config.log ++ [(t, op)])
    (threads : c.threads =
      Function.update s.config.threads t (.inside op s.config.log.length (o.body op)))
    {s' : σ} {rs' : List ρ} (inv : Inv o s₀ c s' rs') :
    ∃ a', serve o a t = some a' ∧ Explains o s₀ { s with config := c } a' := by
  obtain ⟨r, ran, rfl⟩ := h.inv.last_call inv log
  have place := h.places t
  rw [waits] at place
  obtain ⟨same, next, at_call⟩ := place
  refine ⟨_, serve_call (same.trans at_call) ran, inv, by rw [h.calls, log], fun u => ?_⟩
  change Place _ _ (Function.update a.clients t (next r) u) (c.threads u)
  rw [threads]
  by_cases own : u = t
  · subst own
    rw [Function.update_self, Function.update_self]
    exact ⟨next, r, at_call, (h.inv.logged_last (u, op) r).2, rfl⟩
  · rw [Function.update_of_ne own, Function.update_of_ne own]
    exact (h.places u).mono r

/-- Other steps change nothing for the threads that do not make them. -/
theorem places_update {s : System τ σ ρ ι} {a : Served τ σ ρ ι}
    (h : Explains o s₀ s a) (t : τ) {p : Thread σ ρ ι} {now : Client ρ ι}
    (own : Place a.answers now (a.clients t) p) (u : τ) :
    Place a.answers (Function.update s.clients t now u) (a.clients u)
      (Function.update s.config.threads t p u) := by
  by_cases same : u = t
  · subst same
    rwa [Function.update_self, Function.update_self]
  · rw [Function.update_of_ne same, Function.update_of_ne same]
    exact h.places u

omit [DecidableEq τ] in
/-- A thread that leaves the lock takes the answer with which it was served. -/
theorem place_leave {s : System τ σ ρ ι} {a : Served τ σ ρ ι} (h : Explains o s₀ s a)
    {t : τ} {op : ι} {next : ρ → Client ρ ι} {i : Nat} {r : ρ}
    (at_call : s.clients t = .call op next)
    (here : s.config.threads t = .inside op i (.done r)) : a.clients t = next r := by
  have place := h.places t
  rw [here] at place
  obtain ⟨next', r', at_call', answer, after⟩ := place
  obtain ⟨r'', answer', ran⟩ := (h.inv.inside t op i _ here).outcome
  cases at_call.symm.trans at_call'
  cases answer.symm.trans answer'
  have same : r = r' := congrArg Prod.snd (Option.some.inj ran)
  rw [same, after]

theorem explains_advance (total : ∀ ops, (replay o s₀ ops).isSome)
    (readOnly : ∀ op, o.shared op = true → (o.body op).ReadOnly) {s s' : System τ σ ρ ι}
    {a : Served τ σ ρ ι} (h : Explains o s₀ s a) (advance : Advance o s s') :
    ∃ schedule a', Runs.run (serve o) a schedule = some a' ∧ Explains o s₀ s' a' := by
  cases advance with
  | call t op next at_call idle =>
    have place := h.places t
    rw [idle] at place
    have places := places_update h t (p := .waiting op)
      (show Place a.answers (s.clients t) (a.clients t) _ from ⟨place, next, at_call⟩)
    rw [Function.update_eq_self] at places
    exact ⟨[], a, rfl, inv_call h.inv t op, h.calls, places⟩
  | go c step same =>
    obtain ⟨config, clients⟩ := s
    cases step with
    | call t op idle =>
      have waits := (same t).mpr idle
      simp [Config.set] at waits
    | lockShared t op waits mode free =>
      obtain ⟨s', rs', inv⟩ := inv_lockShared readOnly h.inv t op mode free
      obtain ⟨a', served, explains⟩ := explains_lock h waits rfl rfl inv
      exact ⟨[t], a', by rw [Runs.run_single, served], explains⟩
    | lock t op waits mode free empty =>
      obtain ⟨s', rs', inv⟩ := inv_lock total h.inv t op mode free empty
      obtain ⟨a', served, explains⟩ := explains_lock h waits rfl rfl inv
      exact ⟨[t], a', by rw [Runs.run_single, served], explains⟩
    | act t op i update next s' here updated =>
      have place := h.places t
      rw [here] at place
      have places := places_update h t (p := .inside op i (next config.state))
        (show Place a.answers (clients t) (a.clients t) _ from place)
      rw [Function.update_eq_self] at places
      exact ⟨[], a, rfl, inv_act h.inv t op i update next s' here updated, h.calls, places⟩
    | unlockShared t op i r here _ =>
      have inside := (same t).mp (by simp [Config.set])
      cases here.symm.trans inside
    | unlock t op i r here _ =>
      have inside := (same t).mp (by simp [Config.set])
      cases here.symm.trans inside
  | unlockShared t op next i r at_call here mode =>
    exact ⟨[], a, rfl, inv_unlockShared h.inv t op i r here, h.calls,
      places_update h t (place_leave h at_call here)⟩
  | unlock t op next i r at_call here mode =>
    exact ⟨[], a, rfl, inv_unlock h.inv t op i r here mode, h.calls,
      places_update h t (place_leave h at_call here)⟩

/-- However the accesses of the clients interleave, some run call by call explains where they
are. -/
theorem linearize (total : ∀ ops, (replay o s₀ ops).isSome)
    (readOnly : ∀ op, o.shared op = true → (o.body op).ReadOnly) {clients : τ → Client ρ ι}
    {s : System τ σ ρ ι} (reach : ReflTransGen (Advance o) (.start s₀ clients) s) :
    ∃ schedule a, Runs.run (serve o) (.start s₀ clients) schedule = some a ∧
      Explains o s₀ s a := by
  induction reach with
  | refl => exact ⟨[], _, rfl, explains_start o s₀ clients⟩
  | tail _ advance ih =>
    obtain ⟨schedule, a, ran, explains⟩ := ih
    obtain ⟨more, a', ran', explains'⟩ := explains_advance total readOnly explains advance
    exact ⟨schedule ++ more, a', by rw [Runs.run_append, ran, Option.bind_some, ran'], explains'⟩

/-! ## Scripts -/

/-- The calls that a thread has made so far, in order. -/
def callsOf (t : τ) (calls : List (τ × ι)) : List ι :=
  (calls.filter (fun call => call.1 = t)).map Prod.snd

theorem callsOf_append (t : τ) (calls : List (τ × ι)) (u : τ) (op : ι) :
    callsOf t (calls ++ [(u, op)]) = callsOf t calls ++ if u = t then [op] else [] := by
  unfold callsOf
  rw [List.filter_append, List.map_append]
  by_cases own : u = t <;> simp [own]

/-- A thread with a script has made the calls from its beginning, and makes the rest. -/
theorem serve_scripts {scripts : τ → List ι} {schedule : List τ} {a : Served τ σ ρ ι}
    (ran : Runs.run (serve o) (.start s₀ (fun t => .script (scripts t))) schedule = some a)
    (t : τ) : ∃ left, a.clients t = .script left ∧ callsOf t a.calls ++ left = scripts t := by
  refine Runs.always (P := fun a => ∃ left, a.clients t = .script left ∧
    callsOf t a.calls ++ left = scripts t) ?_ ⟨scripts t, rfl, rfl⟩ ran
  rintro a u a' ⟨left, at_rest, all⟩ served
  obtain ⟨op, next, s, r, at_call, -, rfl⟩ := serve_eq_some served
  by_cases own : u = t
  · subst own
    cases left with
    | nil => cases at_rest.symm.trans at_call
    | cons op' left =>
      cases at_rest.symm.trans at_call
      refine ⟨left, by simp, ?_⟩
      rw [callsOf_append, if_pos rfl, List.append_assoc]
      exact all
  · refine ⟨left, ?_, ?_⟩
    · change Function.update a.clients u (next r) t = _
      rw [Function.update_of_ne (Ne.symm own), at_rest]
    · rw [callsOf_append, if_neg own, List.append_nil, all]

/-! ## A call that no one disturbs -/

omit [DecidableEq τ] in
theorem waiting_ne_idle (op : ι) : (.waiting op : Thread σ ρ ι) ≠ .idle := by
  rintro ⟨⟩

omit [DecidableEq τ] in
theorem inside_ne_idle (op : ι) (i : Nat) (p : Body σ ρ) :
    (.inside op i p : Thread σ ρ ι) ≠ .idle := by
  rintro ⟨⟩

/-- A thread in a call that goes on with it. -/
theorem idle_update {threads : τ → Thread σ ρ ι} {t : τ} {p : Thread σ ρ ι}
    (busy : threads t ≠ .idle) (active : p ≠ .idle) (u : τ) :
    Function.update threads t p u = .idle ↔ threads u = .idle := by
  by_cases own : u = t
  · subst own
    rw [Function.update_self]
    exact iff_of_false active busy
  · rw [Function.update_of_ne own]

theorem advances_body {s : System τ σ ρ ι} (t : τ) (op : ι) {i : Nat} {p : Body σ ρ} {st : σ}
    {r : ρ} (here : s.config.threads t = .inside op i p)
    (ran : p.run s.config.state = some (st, r)) : ReflTransGen (Advance o) s
      { s with config := { s.config.set t (.inside op i (.done r)) with state := st } } := by
  induction p generalizing s with
  | done r' =>
    cases ran
    have same : s.config.set t (.inside op i (.done r)) = s.config := by
      simp only [Config.set, ← here, Function.update_eq_self]
    rw [same]
  | act update next ih =>
    obtain ⟨st', updated, rest⟩ := Option.bind_eq_some_iff.mp ran
    have busy : s.config.threads t ≠ .idle := by
      rw [here]
      exact inside_ne_idle op i _
    have first := ReflTransGen.single (Advance.go (o := o) _
      (.act t op i update next st' here updated) (idle_update busy (inside_ne_idle op _ _)))
    have tail := ih s.config.state (s := { s with
      config := { s.config.set t (.inside op i (next s.config.state)) with state := st' } })
      (by simp [Config.set]) rest
    simp only [Config.set, Function.update_idem] at first tail ⊢
    exact first.trans tail

theorem call_alone {s : System τ σ ρ ι} {t : τ} {op : ι} {next : ρ → Client ρ ι}
    (at_call : s.clients t = .call op next) (idle : s.config.threads t = .idle)
    (free : s.config.writer = none) (empty : s.config.readers = ∅) {st : σ} {r : ρ}
    (ran : (o.body op).run s.config.state = some (st, r)) :
    ∃ s', ReflTransGen (Advance o) s s' ∧ s'.clients = Function.update s.clients t (next r) ∧
      s'.config.state = st ∧ s'.config.threads = s.config.threads ∧
      s'.config.writer = none ∧ s'.config.readers = ∅ ∧
      s'.config.log = s.config.log ++ [(t, op)] := by
  have back : Function.update s.config.threads t .idle = s.config.threads := by
    rw [← idle, Function.update_eq_self]
  have called := ReflTransGen.single (Advance.call (o := o) t op next at_call idle)
  have waits : (s.config.set t (.waiting op)).threads t = .waiting op := Function.update_self ..
  have busy : (s.config.set t (.waiting op)).threads t ≠ .idle := by
    rw [waits]
    exact waiting_ne_idle op
  cases mode : o.shared op with
  | true =>
    have locked := called.tail (.go _ (.lockShared t op waits mode free)
      (idle_update busy (inside_ne_idle op _ _)))
    have ended := locked.trans (advances_body t op (Function.update_self ..) ran)
    refine ⟨_, ended.tail (.unlockShared t op next _ r at_call (Function.update_self ..) mode),
      rfl, rfl, ?_, free, ?_, rfl⟩
    · simp only [Config.set, Function.update_idem, back]
    · change (insert t s.config.readers).erase t = ∅
      rw [empty, Finset.erase_insert (Finset.notMem_empty t)]
  | false =>
    have locked := called.tail (.go _ (.lock t op waits mode free empty)
      (idle_update busy (inside_ne_idle op _ _)))
    have ended := locked.trans (advances_body t op (Function.update_self ..) ran)
    refine ⟨_, ended.tail (.unlock t op next _ r at_call (Function.update_self ..) mode),
      rfl, rfl, ?_, rfl, empty, rfl⟩
    simp only [Config.set, Function.update_idem, back]

end systems

end SharedMutex
