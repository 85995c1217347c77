/-
# Running an `EStateM` program

The kernel's C functions read and write one global state, return a value, and may never return at
all (a panic, a page fault, a loop that does not end).  They are modelled in `EStateM`, whose
result is either `.ok value state` or `.error reason state`.  These are the equations that run
such a program one operation at a time, the inversion of a sequential composition, and the rule of
total correctness for it (`Ends`).
-/
import Mathlib.Tactic

namespace RvKernel.Effect

variable {ε σ α β : Type}

@[simp] theorem run_pure (a : α) (s : σ) : (pure a : EStateM ε σ α) s = .ok a s := rfl

@[simp] theorem run_bind (x : EStateM ε σ α) (f : α → EStateM ε σ β) (s : σ) :
    (x >>= f) s = match x s with
      | .ok a s' => f a s'
      | .error e s' => .error e s' := rfl

@[simp] theorem run_map (f : α → β) (x : EStateM ε σ α) (s : σ) :
    (f <$> x) s = match x s with
      | .ok a s' => .ok (f a) s'
      | .error e s' => .error e s' := rfl

@[simp] theorem run_get (s : σ) : (get : EStateM ε σ σ) s = .ok s s := rfl

@[simp] theorem run_modify (f : σ → σ) (s : σ) :
    (modify f : EStateM ε σ PUnit) s = .ok ⟨⟩ (f s) := rfl

@[simp] theorem run_throw (e : ε) (s : σ) : (throw e : EStateM ε σ α) s = .error e s := rfl

@[simp] theorem run_ite (c : Prop) [Decidable c] (x y : EStateM ε σ α) (s : σ) :
    (if c then x else y) s = if c then x s else y s := by
  split <;> rfl

/-- A composition runs on from where its first part returned... -/
theorem bind_of_ok {x : EStateM ε σ α} {s s₁ : σ} {a : α} (h : x s = .ok a s₁)
    (f : α → EStateM ε σ β) : (x >>= f) s = f a s₁ := by
  rw [run_bind, h]

/-- ...and stops where it stopped. -/
theorem bind_of_error {x : EStateM ε σ α} {s s₁ : σ} {e : ε} (h : x s = .error e s₁)
    (f : α → EStateM ε σ β) : (x >>= f) s = .error e s₁ := by
  rw [run_bind, h]

/-- **A composition returns exactly when both parts do.** -/
theorem bind_eq_ok {x : EStateM ε σ α} {f : α → EStateM ε σ β} {s s' : σ} {b : β} :
    (x >>= f) s = .ok b s' ↔ ∃ a s₁, x s = .ok a s₁ ∧ f a s₁ = .ok b s' := by
  rw [run_bind]
  cases hx : x s with
  | ok a s₁ => simp
  | error e s₁ => simp

/-- **Two compositions agree on `s`** when their first parts do, and their second parts do where
these return. -/
theorem bind_agree {x y : EStateM ε σ α} {f g : α → EStateM ε σ β} {s : σ} (hx : x s = y s)
    (hf : ∀ a s', y s = .ok a s' → f a s' = g a s') : (x >>= f) s = (y >>= g) s := by
  rw [run_bind, run_bind, hx]
  cases hy : y s with
  | ok a s' => exact hf a s' hy
  | error e s' => rfl

/-- From `s` the program returns, with a result and a state that satisfy `Q`. -/
def Ends (x : EStateM ε σ α) (s : σ) (Q : α → σ → Prop) : Prop :=
  ∃ a s', x s = .ok a s' ∧ Q a s'

theorem Ends.bind {x : EStateM ε σ α} {f : α → EStateM ε σ β} {s : σ} {Q : α → σ → Prop}
    {R : β → σ → Prop} (hx : Ends x s Q) (hf : ∀ a s', Q a s' → Ends (f a) s' R) :
    Ends (x >>= f) s R := by
  obtain ⟨a, s₁, hrun, hq⟩ := hx
  obtain ⟨b, s₂, hrun', hr⟩ := hf a s₁ hq
  exact ⟨b, s₂, bind_eq_ok.mpr ⟨a, s₁, hrun, hrun'⟩, hr⟩

theorem Ends.mono {x : EStateM ε σ α} {s : σ} {Q R : α → σ → Prop} (hx : Ends x s Q)
    (h : ∀ a s', Q a s' → R a s') : Ends x s R := by
  obtain ⟨a, s', hrun, hq⟩ := hx
  exact ⟨a, s', hrun, h a s' hq⟩

theorem Ends.pure {a : α} {s : σ} {Q : α → σ → Prop} (h : Q a s) :
    Ends (Pure.pure a : EStateM ε σ α) s Q := ⟨a, s, rfl, h⟩

theorem Ends.get_bind {f : σ → EStateM ε σ β} {s : σ} {R : β → σ → Prop} (h : Ends (f s) s R) :
    Ends (get >>= f) s R := h

theorem Ends.modify_bind {g : σ → σ} {f : PUnit → EStateM ε σ β} {s : σ} {R : β → σ → Prop}
    (h : Ends (f ⟨⟩) (g s) R) : Ends (modify g >>= f) s R := h

end RvKernel.Effect
