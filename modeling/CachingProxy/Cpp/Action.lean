import CachingProxy.Cpp.Text

/-! Functions that act on a state. Such a function returns, throws, or waits for ever in a call
that nothing answers; in each case the state is as it left it. -/
namespace Cpp

inductive Stop where
  | threw (e : Exception)
  | waiting
  deriving DecidableEq

abbrev Action (σ α : Type) := EStateM Stop σ α

namespace Action

open EStateM (Result)

variable {σ α β : Type}

def wait : Action σ α := throw .waiting

def ofExcept : Except Exception α → Action σ α
  | .ok a => pure a
  | .error e => throw (.threw e)

/-- try and catch; nothing catches a call that never returns. -/
def catching (x : Action σ α) (handle : Exception → Action σ α) : Action σ α := fun s =>
  match x.run s with
  | .error (.threw e) s => (handle e).run s
  | r => r

/-- The state at the end, whichever way the function ended. -/
def after (x : Action σ α) (s : σ) : σ :=
  match x.run s with
  | .ok _ s => s
  | .error _ s => s

theorem bind_of_ok {x : Action σ α} {s s₁ : σ} {a : α} (h : x.run s = .ok a s₁)
    (f : α → Action σ β) : (x >>= f).run s = (f a).run s₁ := by
  simp only [EStateM.run, bind, EStateM.bind] at h ⊢
  simp only [h]

theorem bind_of_error {x : Action σ α} {s s₁ : σ} {e : Stop} (h : x.run s = .error e s₁)
    (f : α → Action σ β) : (x >>= f).run s = .error e s₁ := by
  simp only [EStateM.run, bind, EStateM.bind] at h ⊢
  simp only [h]

@[simp] theorem run_pure (a : α) (s : σ) : (pure a : Action σ α).run s = .ok a s := rfl
@[simp] theorem run_throw (e : Stop) (s : σ) : (throw e : Action σ α).run s = .error e s := rfl
@[simp] theorem run_wait (s : σ) : (wait : Action σ α).run s = .error .waiting s := rfl
@[simp] theorem run_get (s : σ) : (get : Action σ σ).run s = .ok s s := rfl
@[simp] theorem run_modify (f : σ → σ) (s : σ) :
    (modify f : Action σ PUnit).run s = .ok ⟨⟩ (f s) := rfl

theorem after_of_ok {x : Action σ α} {s s₁ : σ} {a : α} (h : x.run s = .ok a s₁) :
    x.after s = s₁ := by
  simp only [after, h]

theorem after_of_error {x : Action σ α} {s s₁ : σ} {e : Stop} (h : x.run s = .error e s₁) :
    x.after s = s₁ := by
  simp only [after, h]

theorem after_congr {x y : Action σ α} {s s' : σ} (h : x.run s = y.run s') :
    x.after s = y.after s' := by
  simp only [after, h]

theorem catching_congr {x y : Action σ α} {s s' : σ} (h : x.run s = y.run s')
    (handle : Exception → Action σ α) :
    (x.catching handle).run s = (y.catching handle).run s' := by
  simp only [catching, EStateM.run] at h ⊢
  rw [h]

theorem catching_of_ok {x : Action σ α} {s s₁ : σ} {a : α} (h : x.run s = .ok a s₁)
    (handle : Exception → Action σ α) : (x.catching handle).run s = .ok a s₁ := by
  simp only [catching, EStateM.run] at h ⊢
  simp only [h]

theorem catching_of_waiting {x : Action σ α} {s s₁ : σ} (h : x.run s = .error .waiting s₁)
    (handle : Exception → Action σ α) : (x.catching handle).run s = .error .waiting s₁ := by
  simp only [catching, EStateM.run] at h ⊢
  simp only [h]

theorem catching_of_threw {x : Action σ α} {s s₁ : σ} {e : Exception}
    (h : x.run s = .error (.threw e) s₁) (handle : Exception → Action σ α) :
    (x.catching handle).run s = (handle e).run s₁ := by
  simp only [catching, EStateM.run] at h ⊢
  simp only [h]

/-! ## Parts of the state that a function leaves alone -/

section Keeps

variable {γ : Type} {f : σ → γ}

def Keeps (f : σ → γ) (x : Action σ α) : Prop := ∀ s, f (x.after s) = f s

theorem keeps_pure (a : α) : Keeps f (pure a : Action σ α) := fun _ => rfl
theorem keeps_throw (e : Stop) : Keeps f (throw e : Action σ α) := fun _ => rfl
theorem keeps_wait : Keeps f (wait : Action σ α) := fun _ => rfl
theorem keeps_get : Keeps f (get : Action σ σ) := fun _ => rfl

theorem keeps_modify {g : σ → σ} (same : ∀ s, f (g s) = f s) :
    Keeps f (modify g : Action σ PUnit) := same

theorem keeps_ofExcept (r : Except Exception α) : Keeps f (ofExcept r : Action σ α) := by
  cases r with
  | ok a => exact keeps_pure a
  | error e => exact keeps_throw _

/-- What comes after a function and leaves a part alone does not matter for that part. -/
theorem after_bind_of_keeps {x : Action σ α} {g : α → Action σ β} (next : ∀ a, Keeps f (g a))
    (s : σ) : f ((x >>= g).after s) = f (x.after s) := by
  cases h : x.run s with
  | ok a s₁ => rw [after_of_ok h, after_congr (bind_of_ok h g), next a s₁]
  | error e s₁ => rw [after_of_error h, after_of_error (bind_of_error h g)]

theorem keeps_bind {x : Action σ α} {g : α → Action σ β} (first : Keeps f x)
    (next : ∀ a, Keeps f (g a)) : Keeps f (x >>= g) :=
  fun s => (after_bind_of_keeps next s).trans (first s)

theorem keeps_ite {p : Prop} [Decidable p] {x y : Action σ α} (yes : Keeps f x) (no : Keeps f y) :
    Keeps f (if p then x else y) := by
  split
  · exact yes
  · exact no

theorem keeps_catching {x : Action σ α} {handle : Exception → Action σ α} (s : σ)
    (handled : ∀ e, Keeps f (handle e)) : f ((x.catching handle).after s) = f (x.after s) := by
  cases h : x.run s with
  | ok a s₁ => rw [after_of_ok h, after_of_ok (catching_of_ok h handle)]
  | error e s₁ =>
    rw [after_of_error h]
    cases e with
    | waiting => rw [after_of_error (catching_of_waiting h handle)]
    | threw e => rw [after_congr (catching_of_threw h handle), handled e s₁]

end Keeps

end Action

end Cpp
