import NormaHarness.Executions

/-!
# Counters that come round

A program counts modulo a width, and a model of it may count with natural numbers. Each
step draws at most one number, so the two take the same runs as long as the steps do not
use the width up, and what holds of every run of the model holds of the program until then.
-/
namespace BoundedCounters
open Executions

variable {σ α : Type*}

/-- A transition relation that draws at most one number at a step, and what counters of
this width make of a state. -/
structure Counting (Step : σ → α → σ → Prop) (width : ℕ) where
  counter : σ → ℕ
  wrap : σ → σ
  wrap_eq : ∀ s, counter s < width → wrap s = s
  draws : ∀ s a t, Step s a t → counter t ≤ counter s + 1

namespace Counting

variable {Step : σ → α → σ → Prop} {width : ℕ} (c : Counting Step width) {s t : σ} {a : α}

/-- The counters may come round in each step. -/
def Wrapped (s : σ) (a : α) (t : σ) : Prop := ∃ u, Step s a u ∧ t = c.wrap u

variable {c}

theorem wrapped_iff (hroom : c.counter s + 1 < width) : c.Wrapped s a t ↔ Step s a t := by
  constructor
  · rintro ⟨u, hstep, rfl⟩
    rwa [c.wrap_eq u ((c.draws s a u hstep).trans_lt hroom)]
  · intro hstep
    exact ⟨t, hstep, (c.wrap_eq t ((c.draws s a t hstep).trans_lt hroom)).symm⟩

/-- The counters have room for every step. -/
theorem run_iff {l : List α} (hroom : c.counter s + l.length < width) :
    Run c.Wrapped s l t ↔ Run Step s l t := by
  induction l generalizing s with
  | nil =>
      constructor
      · rintro ⟨⟩
        exact .nil _
      · rintro ⟨⟩
        exact .nil _
  | cons a l ih =>
      rw [List.length_cons] at hroom
      have hrest : ∀ u, Step s a u → (Run c.Wrapped u l t ↔ Run Step u l t) := fun u hstep => by
        have := c.draws s a u hstep
        exact ih (by omega)
      constructor
      · rintro (_ | ⟨hstep, hrun⟩)
        have hstep := (wrapped_iff (by omega)).mp hstep
        exact .cons hstep ((hrest _ hstep).mp hrun)
      · rintro (_ | ⟨hstep, hrun⟩)
        exact .cons ((wrapped_iff (by omega)).mpr hstep) ((hrest _ hstep).mpr hrun)

end Counting

end BoundedCounters
