import CachingProxy.Cpp.Wp

/-! Actions that leave a trace beside their state. Without its trace such an action is one on the
state alone. -/
namespace Cpp

structure Traced (σ ω : Type) where
  state : σ
  trace : List ω

namespace Action

open EStateM (Result)

variable {σ ω α β : Type}

/-- One more letter of the trace. -/
def emit (r : ω) : Action (Traced σ ω) Unit := modify (fun s => { s with trace := s.trace ++ [r] })

/-- An action that leaves no trace. -/
def within (x : Action σ α) : Action (Traced σ ω) α := fun s =>
  match x.run s.state with
  | .ok a w => .ok a { s with state := w }
  | .error e w => .error e { s with state := w }

theorem within_of_ok {x : Action σ α} {s : Traced σ ω} {a : α} {w : σ}
    (run : x.run s.state = .ok a w) : (within x).run s = .ok a { s with state := w } := by
  simp only [within, EStateM.run] at run ⊢
  rw [run]

theorem within_of_error {x : Action σ α} {s : Traced σ ω} {e : Stop} {w : σ}
    (run : x.run s.state = .error e w) : (within x).run s = .error e { s with state := w } := by
  simp only [within, EStateM.run] at run ⊢
  rw [run]

/-! ## Without the trace -/

/-- An end, without the trace. -/
def forget : Result Stop (Traced σ ω) α → Result Stop σ α
  | .ok a s => .ok a s.state
  | .error e s => .error e s.state

/-- Without its trace `x` is `y`. -/
def Erases (x : Action (Traced σ ω) α) (y : Action σ α) : Prop :=
  ∀ s, forget (x.run s) = y.run s.state

theorem erases_pure (a : α) : Erases (pure a : Action (Traced σ ω) α) (pure a) := fun _ => rfl

theorem erases_wait : Erases (wait : Action (Traced σ ω) α) wait := fun _ => rfl

theorem erases_ofExcept (x : Except Exception α) :
    Erases (ofExcept x : Action (Traced σ ω) α) (ofExcept x) := by
  cases x <;> exact fun _ => rfl

theorem erases_within (x : Action σ α) : Erases (within x : Action (Traced σ ω) α) x := by
  intro s
  cases run : x.run s.state with
  | ok a w => rw [within_of_ok run, forget]
  | error e w => rw [within_of_error run, forget]

theorem Erases.cases {x : Action (Traced σ ω) α} {y : Action σ α} (h : Erases x y)
    (s : Traced σ ω) :
    (∃ a s', x.run s = .ok a s' ∧ y.run s.state = .ok a s'.state) ∨
      ∃ e s', x.run s = .error e s' ∧ y.run s.state = .error e s'.state := by
  have same := h s
  cases run : x.run s with
  | ok a s' => exact Or.inl ⟨a, s', rfl, by rw [← same, run, forget]⟩
  | error e s' => exact Or.inr ⟨e, s', rfl, by rw [← same, run, forget]⟩

theorem erases_bind {x : Action (Traced σ ω) α} {y : Action σ α} {f : α → Action (Traced σ ω) β}
    {g : α → Action σ β} (first : Erases x y) (next : ∀ a, Erases (f a) (g a)) :
    Erases (x >>= f) (y >>= g) := by
  intro s
  rcases first.cases s with ⟨a, s', run, run'⟩ | ⟨e, s', run, run'⟩
  · rw [bind_of_ok run, bind_of_ok run']
    exact next a s'
  · rw [bind_of_error run, bind_of_error run', forget]

/-- A letter does not count. -/
theorem erases_emit (r : ω) {f : Unit → Action (Traced σ ω) α} {y : Action σ α}
    (next : Erases (f ()) y) : Erases (emit r >>= f) y := by
  intro s
  have run : (emit r).run s = .ok () { s with trace := s.trace ++ [r] } := rfl
  rw [bind_of_ok run]
  exact next _

theorem erases_ite {p : Prop} [Decidable p] {x x' : Action (Traced σ ω) α} {y y' : Action σ α}
    (yes : Erases x y) (no : Erases x' y') :
    Erases (if p then x else x') (if p then y else y') := by
  split
  · exact yes
  · exact no

theorem erases_catching {x : Action (Traced σ ω) α} {y : Action σ α}
    {handle : Exception → Action (Traced σ ω) α} {handle' : Exception → Action σ α}
    (body : Erases x y) (handled : ∀ e, Erases (handle e) (handle' e)) :
    Erases (x.catching handle) (y.catching handle') := by
  intro s
  rcases body.cases s with ⟨a, s', run, run'⟩ | ⟨e, s', run, run'⟩
  · rw [catching_of_ok run, catching_of_ok run', forget]
  · cases e with
    | waiting => rw [catching_of_waiting run, catching_of_waiting run', forget]
    | threw e =>
      rw [catching_of_threw run, catching_of_threw run']
      exact handled e s'

/-! ## With the trace -/

theorem wp_emit_bind {r : ω} {f : Unit → Action (Traced σ ω) α} {post : Post (Traced σ ω) α}
    {s : Traced σ ω} (next : wp (f ()) post { s with trace := s.trace ++ [r] }) :
    wp (emit r >>= f) post s := next

theorem wp_within (x : Action σ α) (post : Post (Traced σ ω) α) (s : Traced σ ω) :
    wp (within x) post s ↔ wp x ⟨fun a w => post.returns a { s with state := w },
      fun e w => post.throws e { s with state := w }, fun w => post.waits { s with state := w }⟩
      s.state := by
  cases run : x.run s.state with
  | ok a w => rw [wp_of_ok run, wp_of_ok (within_of_ok run)]
  | error e w =>
    cases e with
    | threw e => rw [wp_of_threw run, wp_of_threw (within_of_error run)]
    | waiting => rw [wp_of_waiting run, wp_of_waiting (within_of_error run)]

theorem wp_within_bind {x : Action σ α} {f : α → Action (Traced σ ω) β} {post : Post (Traced σ ω) β}
    {s : Traced σ ω} (h : wp x ⟨fun a w => wp (f a) post { s with state := w },
      fun e w => post.throws e { s with state := w }, fun w => post.waits { s with state := w }⟩
      s.state) : wp (within x >>= f) post s :=
  (wp_bind _ _ _ _).mpr ((wp_within _ _ _).mpr h)

theorem wp_modify_bind {g : σ → σ} {f : PUnit → Action (Traced σ ω) α}
    {post : Post (Traced σ ω) α} {s : Traced σ ω}
    (next : wp (f ⟨⟩) post { s with state := g s.state }) :
    wp (within (modify g) >>= f) post s := next

theorem wp_get_bind {f : σ → Action (Traced σ ω) α} {post : Post (Traced σ ω) α}
    {s : Traced σ ω} (next : wp (f s.state) post s) : wp (within get >>= f) post s := next

end Action

end Cpp
