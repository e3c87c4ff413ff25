import Mathlib.Data.List.Induction

/-! Runs of a step function that may refuse an action. A run has a state at its end only if no
action was refused. -/
namespace Runs

variable {σ α : Type} {step : σ → α → Option σ}

def run (step : σ → α → Option σ) (s : σ) (actions : List α) : Option σ := actions.foldlM step s

@[simp] theorem run_nil (s : σ) : run step s [] = some s := rfl

theorem run_cons (s : σ) (a : α) (actions : List α) :
    run step s (a :: actions) = (step s a).bind (fun s => run step s actions) := rfl

theorem run_append (s : σ) (before after : List α) :
    run step s (before ++ after) = (run step s before).bind (fun s => run step s after) := by
  induction before generalizing s with
  | nil => rfl
  | cons a before ih =>
    rw [List.cons_append, run_cons, run_cons, Option.bind_assoc]
    congr 1
    funext s'
    exact ih s'

/-- What regular actions keep holds after every run of regular actions. -/
theorem invariant {P : σ → Prop} {regular : α → Prop}
    (keeps : ∀ s a s', P s → regular a → step s a = some s' → P s') {s s' : σ} (start : P s)
    {actions : List α} (all : ∀ a ∈ actions, regular a) (ran : run step s actions = some s') :
    P s' := by
  induction actions generalizing s with
  | nil =>
    cases ran
    exact start
  | cons a actions ih =>
    obtain ⟨s₁, stepped, rest⟩ := Option.bind_eq_some_iff.mp ran
    exact ih (keeps s a s₁ start (all a List.mem_cons_self) stepped)
      (fun b mem => all b (List.mem_cons_of_mem _ mem)) rest

theorem always {P : σ → Prop} (keeps : ∀ s a s', P s → step s a = some s' → P s') {s s' : σ}
    (start : P s) {actions : List α} (ran : run step s actions = some s') : P s' :=
  invariant (fun s a s' h (_ : True) => keeps s a s' h) start (fun _ _ => trivial) ran

@[simp] theorem run_single (s : σ) (a : α) : run step s [a] = step s a := by
  rw [run_cons]
  cases step s a <;> rfl

/-- The last action of a run comes after a run of the others. -/
theorem run_concat {s s' : σ} {past : List α} {a : α} (ran : run step s (past ++ [a]) = some s') :
    ∃ s₁, run step s past = some s₁ ∧ step s₁ a = some s' := by
  rw [run_append] at ran
  obtain ⟨s₁, first, last⟩ := Option.bind_eq_some_iff.mp ran
  rw [run_single] at last
  exact ⟨s₁, first, last⟩

/-- If each action is that of another system in several steps or none, a run is a run of that
system. -/
theorem maps {τ β : Type} {step' : τ → β → Option τ} (view : σ → τ) (acts : α → List β)
    (follows : ∀ s a s', step s a = some s' → run step' (view s) (acts a) = some (view s'))
    {s s' : σ} {actions : List α} (ran : run step s actions = some s') :
    run step' (view s) (actions.flatMap acts) = some (view s') := by
  induction actions generalizing s with
  | nil =>
    cases ran
    rfl
  | cons a actions ih =>
    obtain ⟨s₁, stepped, rest⟩ := Option.bind_eq_some_iff.mp ran
    rw [List.flatMap_cons, run_append, follows s a s₁ stepped]
    exact ih rest

/-- What holds of a state and the actions behind it, if each action keeps it. -/
theorem history {P : List α → σ → Prop}
    (keeps : ∀ past s a s', P past s → step s a = some s' → P (past ++ [a]) s') {s s' : σ}
    (start : P [] s) {actions : List α} (ran : run step s actions = some s') : P actions s' := by
  induction actions using List.reverseRecOn generalizing s' with
  | nil =>
    cases ran
    exact start
  | append_singleton past a ih =>
    obtain ⟨s₁, first, last⟩ := run_concat ran
    exact keeps past s₁ a s' (ih first) last

/-- The last action of a kind cuts a run in one way only. -/
theorem last_unique {p : α → Prop} {before before' after after' : List α} {a a' : α} (own : p a)
    (own' : p a') (last : ∀ b ∈ after, ¬ p b) (last' : ∀ b ∈ after', ¬ p b)
    (same : before ++ a :: after = before' ++ a' :: after') :
    before = before' ∧ a = a' ∧ after = after' := by
  rcases List.append_eq_append_iff.mp same with ⟨between, rfl, rest⟩ | ⟨between, rfl, rest⟩
  · cases between with
    | nil =>
      obtain ⟨rfl, rfl⟩ := List.cons.inj rest
      exact ⟨(List.append_nil _).symm, rfl, rfl⟩
    | cons b between =>
      obtain ⟨-, rfl⟩ := List.cons.inj rest
      exact absurd own' (last a' (List.mem_append_right _ List.mem_cons_self))
  · cases between with
    | nil =>
      obtain ⟨rfl, rfl⟩ := List.cons.inj rest
      exact ⟨List.append_nil _, rfl, rfl⟩
    | cons b between =>
      obtain ⟨-, rfl⟩ := List.cons.inj rest
      exact absurd own (last' a (List.mem_append_right _ List.mem_cons_self))

end Runs
