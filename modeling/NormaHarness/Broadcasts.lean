import Mathlib

/-!
# A broadcast channel that forgets

A sender appends to the channel and never waits. A receiver has a position in it and
takes one value after the other. When it has fallen behind by more than the channel
keeps, it is told how many values it lost and goes on with the oldest that is left. So a
receiver may lose values, but it waits only at the end of the channel, and it gets there
in a number of calls that the capacity bounds.
-/
namespace Broadcasts

variable {α : Type*}

inductive Received (α : Type*) where
  | value (value : α)
  | lagged (missed : ℕ)
  deriving DecidableEq, Repr

/-- A channel that keeps this many values: what one call of a receiver gives it, and the
position after the call. Nothing else is assumed of it. -/
structure Channel (α : Type*) (capacity : ℕ) where
  receive : List α → ℕ → Option (Received α × ℕ)
  waits : ∀ {sent next}, sent.length ≤ next → receive sent next = none
  gives : ∀ {sent next value}, sent.length ≤ next + capacity → sent[next]? = some value →
    receive sent next = some (.value value, next + 1)
  skips : ∀ {sent next}, next + capacity < sent.length →
    receive sent next = some (.lagged (sent.length - capacity - next), sent.length - capacity)

variable {capacity next next' : ℕ} {sent : List α} {received : Received α}
  {channel : Channel α capacity}

/-- A call that returns gives the next value or skips what was lost. -/
theorem receive_cases (h : channel.receive sent next = some (received, next')) :
    next < sent.length ∧ sent.length ≤ next + capacity ∧ next' = next + 1 ∨
      next + capacity < sent.length ∧ next' = sent.length - capacity := by
  by_cases hlagged : next + capacity < sent.length
  · rw [channel.skips hlagged] at h
    exact .inr ⟨hlagged, (Prod.mk.inj (Option.some.inj h)).2.symm⟩
  · have hkept : sent.length ≤ next + capacity := Nat.le_of_not_lt hlagged
    rcases Nat.lt_or_ge next sent.length with hlt | hend
    · rw [channel.gives hkept (List.getElem?_eq_getElem hlt)] at h
      exact .inl ⟨hlt, hkept, (Prod.mk.inj (Option.some.inj h)).2.symm⟩
    · rw [channel.waits hend] at h
      cases h

end Broadcasts
