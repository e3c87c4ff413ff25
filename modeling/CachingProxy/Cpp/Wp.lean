import CachingProxy.Cpp.Action

/-! What has to hold before an action so that something holds after it, whichever way it ends. -/
namespace Cpp

/-- What holds when a function returns, when it throws, and while it waits for ever. -/
structure Post (σ α : Type) where
  returns : α → σ → Prop
  throws : Exception → σ → Prop
  waits : σ → Prop

namespace Action

variable {σ α β : Type}

def wp (x : Action σ α) (post : Post σ α) (s : σ) : Prop :=
  match x.run s with
  | .ok a s => post.returns a s
  | .error (.threw e) s => post.throws e s
  | .error .waiting s => post.waits s

section rules

variable {post : Post σ α} {s s' : σ}

theorem wp_of_ok {x : Action σ α} {a : α} (run : x.run s = .ok a s') :
    wp x post s ↔ post.returns a s' := by
  simp only [wp, run]

theorem wp_of_threw {x : Action σ α} {e : Exception} (run : x.run s = .error (.threw e) s') :
    wp x post s ↔ post.throws e s' := by
  simp only [wp, run]

theorem wp_of_waiting {x : Action σ α} (run : x.run s = .error .waiting s') :
    wp x post s ↔ post.waits s' := by
  simp only [wp, run]

theorem wp_get (post : Post σ σ) (s : σ) : wp get post s ↔ post.returns s s := Iff.rfl

theorem wp_ofExcept {x : Except Exception α} (returns : ∀ a, x = .ok a → post.returns a s)
    (throws : ∀ e, x = .error e → post.throws e s) : wp (ofExcept x) post s := by
  cases x with
  | ok a => exact returns a rfl
  | error e => exact throws e rfl

theorem wp_bind (x : Action σ α) (f : α → Action σ β) (post : Post σ β) (s : σ) :
    wp (x >>= f) post s ↔ wp x { post with returns := fun a => wp (f a) post } s := by
  cases run : x.run s with
  | ok a s' =>
    rw [wp_of_ok run]
    unfold wp
    rw [bind_of_ok run]
  | error e s' =>
    cases e with
    | threw e => rw [wp_of_threw run, wp_of_threw (bind_of_error run f)]
    | waiting => rw [wp_of_waiting run, wp_of_waiting (bind_of_error run f)]

theorem wp_catching (x : Action σ α) (handle : Exception → Action σ α) (post : Post σ α) (s : σ) :
    wp (x.catching handle) post s ↔
      wp x { post with throws := fun e => wp (handle e) post } s := by
  cases run : x.run s with
  | ok a s' => rw [wp_of_ok run, wp_of_ok (catching_of_ok run handle)]
  | error e s' =>
    cases e with
    | threw e =>
      rw [wp_of_threw run]
      unfold wp
      rw [catching_of_threw run]
    | waiting => rw [wp_of_waiting run, wp_of_waiting (catching_of_waiting run handle)]

theorem wp_mono {x : Action σ α} {post' : Post σ α} (h : wp x post s)
    (returns : ∀ a s, post.returns a s → post'.returns a s)
    (throws : ∀ e s, post.throws e s → post'.throws e s)
    (waits : ∀ s, post.waits s → post'.waits s) : wp x post' s := by
  cases run : x.run s with
  | ok a s' => exact (wp_of_ok run).mpr (returns a s' ((wp_of_ok run).mp h))
  | error e s' =>
    cases e with
    | threw e => exact (wp_of_threw run).mpr (throws e s' ((wp_of_threw run).mp h))
    | waiting => exact (wp_of_waiting run).mpr (waits s' ((wp_of_waiting run).mp h))

theorem wp_ite {p : Prop} [Decidable p] {x y : Action σ α} (yes : p → wp x post s)
    (no : ¬ p → wp y post s) : wp (if p then x else y) post s := by
  split
  · rename_i h
    exact yes h
  · rename_i h
    exact no h

theorem wp_ofExcept_bind {x : Except Exception α} {f : α → Action σ β} {post : Post σ β}
    (returns : ∀ a, x = .ok a → wp (f a) post s) (throws : ∀ e, x = .error e → post.throws e s) :
    wp (ofExcept x >>= f) post s :=
  (wp_bind _ _ _ _).mpr (wp_ofExcept returns throws)

/-- A function and what follows it. -/
theorem wp_seq {x : Action σ α} {f : α → Action σ β} {post : Post σ β} {mid : Post σ α}
    (first : wp x mid s) (next : ∀ a s, mid.returns a s → wp (f a) post s)
    (throws : ∀ e s, mid.throws e s → post.throws e s) (waits : ∀ s, mid.waits s → post.waits s) :
    wp (x >>= f) post s :=
  (wp_bind x f post s).mpr (wp_mono first next throws waits)

end rules

end Action

end Cpp
