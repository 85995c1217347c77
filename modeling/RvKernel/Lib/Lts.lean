/-
# Runs of a machine

A machine is a step function, `step e s`, which is `none` where the event `e` cannot happen.  A run
takes events one after the other, each of which has to be `Allowed` in the state it is taken in;
with `fun _ _ => True` these are all the runs.  What every allowed step keeps, every run keeps
(`Run.invariant`), and what a measure counts down to, every long enough run reaches
(`Trace.reaches`).
-/
import Mathlib.Order.Basic

namespace RvKernel.Lts

variable {σ ε : Type} {step : ε → σ → Option σ} {Allowed : σ → ε → Prop}

/-- The states reached from `s` by allowed events. -/
inductive Run (step : ε → σ → Option σ) (Allowed : σ → ε → Prop) (s : σ) : σ → Prop
  | refl : Run step Allowed s s
  | step {t u : σ} {e : ε} : Run step Allowed s t → Allowed t e → step e t = some u →
      Run step Allowed s u

/-- **The invariant rule.** -/
theorem Run.invariant {Inv : σ → Prop} {s t : σ} (hr : Run step Allowed s t) (h0 : Inv s)
    (hstep : ∀ {t u e}, Inv t → Allowed t e → step e t = some u → Inv u) : Inv t := by
  induction hr with
  | refl => exact h0
  | step _ ha hs ih => exact hstep ih ha hs

theorem Run.trans {s t u : σ} (hst : Run step Allowed s t) (htu : Run step Allowed t u) :
    Run step Allowed s u := by
  induction htu with
  | refl => exact hst
  | step _ ha hs ih => exact ih.step ha hs

/-- A run of given events. -/
def exec (step : ε → σ → Option σ) : List ε → σ → Option σ
  | [], s => some s
  | e :: es, s => step e s >>= exec step es

/-- Given events that are all allowed make a run. -/
theorem Run.of_exec {es : List ε} {s t : σ} (h : exec step es s = some t) :
    Run step (fun _ _ => True) s t := by
  induction es generalizing s with
  | nil =>
    cases h
    exact .refl
  | cons e es ih =>
    obtain ⟨u, hu, h⟩ := Option.bind_eq_some_iff.mp h
    exact (Run.refl.step trivial hu).trans (ih h)

/-- A run that remembers its events. -/
inductive Trace (step : ε → σ → Option σ) (Allowed : σ → ε → Prop) : List ε → σ → σ → Prop
  | nil {s : σ} : Trace step Allowed [] s s
  | cons {s t u : σ} {e : ε} {es : List ε} : Allowed s e → step e s = some t →
      Trace step Allowed es t u → Trace step Allowed (e :: es) s u

theorem Trace.run {es : List ε} {s t : σ} (h : Trace step Allowed es s t) :
    Run step Allowed s t := by
  induction h with
  | nil => exact .refl
  | cons ha hs _ ih => exact (Run.refl.step ha hs).trans ih

/-- **The response rule.**  A measure that is positive short of the goal, that no step raises and
that every step of one's `own` lowers, bounds how many of them the goal can be away, whatever else
happens in between. -/
theorem Trace.reaches (Inv Goal : σ → Prop) (measure : σ → ℕ) (own : ε → Bool) {es : List ε}
    {s t : σ} (htrace : Trace step Allowed es s t) (h0 : Inv s)
    (hpos : ∀ {t}, Inv t → ¬ Goal t → 0 < measure t)
    (hstep : ∀ {t u e}, Inv t → ¬ Goal t → Allowed t e → step e t = some u →
      Goal u ∨ Inv u ∧ measure u + (if own e then 1 else 0) ≤ measure t)
    (hcount : measure s ≤ es.countP own) :
    ∃ es₁ es₂ u, es = es₁ ++ es₂ ∧ Trace step Allowed es₁ s u ∧ Goal u := by
  induction htrace with
  | @nil s =>
    by_cases hgoal : Goal s
    · exact ⟨[], [], s, rfl, .nil, hgoal⟩
    · have := hpos h0 hgoal
      rw [List.countP_nil] at hcount
      omega
  | @cons s t u e es ha hs _ ih =>
    by_cases hgoal : Goal s
    · exact ⟨[], e :: es, s, rfl, .nil, hgoal⟩
    rcases hstep h0 hgoal ha hs with hdone | ⟨hinv, hless⟩
    · exact ⟨[e], es, t, rfl, .cons ha hs .nil, hdone⟩
    · have hleft : measure t ≤ es.countP own := by
        rw [List.countP_cons] at hcount
        omega
      obtain ⟨es₁, es₂, v, rfl, hrun, hv⟩ := ih hinv hleft
      exact ⟨e :: es₁, es₂, v, rfl, .cons ha hs hrun, hv⟩

end RvKernel.Lts
