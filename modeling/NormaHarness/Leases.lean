import Mathlib

/-!
# Leases in a table that forgets

Holders renew their leases and release them. A table has the time of the last renewal, and
whoever asks it may drop what has expired by then. As long as the clock does not run
backwards, the table answers as the history of renewals and releases does.
-/
namespace Leases

variable {K : Type*}

inductive Event (K : Type*) where
  | renew (time : ℕ) (holder : K)
  | release (holder : K)

/-- Some entries that have expired at `time` are dropped. -/
def Prunes (lease time : ℕ) (table table' : K → Option ℕ) : Prop :=
  ∀ k, table' k = table k ∨ table' k = none ∧ ∃ seen, table k = some seen ∧ lease ≤ time - seen

theorem Prunes.refl (lease time : ℕ) (table : K → Option ℕ) : Prunes lease time table table :=
  fun _ => .inl rfl

theorem Prunes.trans {lease time : ℕ} {a b c : K → Option ℕ} (h : Prunes lease time a b)
    (g : Prunes lease time b c) : Prunes lease time a c := by
  intro k
  rcases g k with hsame | ⟨hnone, seen, hseen, hexpired⟩
  · rw [hsame]
    exact h k
  · rcases h k with hsame' | ⟨hnone', -⟩
    · exact .inr ⟨hnone, seen, hsame' ▸ hseen, hexpired⟩
    · rw [hnone'] at hseen
      cases hseen

variable [DecidableEq K]

/-- The time of the holder's latest event if that is a renewal. The newest event is first. -/
def held : List (Event K) → K → Option ℕ
  | [], _ => none
  | .renew time holder :: older, k => if holder = k then some time else held older k
  | .release holder :: older, k => if holder = k then none else held older k

/-- Up to holders whose leases have expired by `now`, the table is what the events say. -/
def Keeps (lease now : ℕ) (events : List (Event K)) (table : K → Option ℕ) : Prop :=
  ∀ k, table k = held events k ∨
    table k = none ∧ ∃ time, held events k = some time ∧ lease ≤ now - time

namespace Keeps

variable {lease now time : ℕ} {events : List (Event K)} {table table' : K → Option ℕ} {k : K}

theorem start (lease now : ℕ) : Keeps lease now ([] : List (Event K)) fun _ => none :=
  fun _ => .inl rfl

theorem renew (h : Keeps lease now events table) (time : ℕ) (holder : K)
    (htable : ∀ k, table' k = if holder = k then some time else table k) :
    Keeps lease now (.renew time holder :: events) table' := by
  intro k
  rw [htable]
  simp only [held]
  split_ifs
  · exact .inl rfl
  · exact h k

theorem release (h : Keeps lease now events table) (holder : K)
    (htable : ∀ k, table' k = if holder = k then none else table k) :
    Keeps lease now (.release holder :: events) table' := by
  intro k
  rw [htable]
  simp only [held]
  split_ifs
  · exact .inl rfl
  · exact h k

/-- What has expired once stays expired. -/
theorem prune (h : Keeps lease now events table) (hprunes : Prunes lease time table table')
    (htime : time ≤ now) : Keeps lease now events table' := by
  intro k
  rcases hprunes k with hsame | ⟨hnone, seen, hseen, hexpired⟩
  · rw [hsame]
    exact h k
  · refine .inr ⟨hnone, seen, ?_, hexpired.trans (Nat.sub_le_sub_right htime seen)⟩
    rcases h k with hheld | ⟨hgone, -⟩
    · rw [← hheld, hseen]
    · rw [hgone] at hseen
      cases hseen

/-- Who holds a lease now can be read off the table. -/
theorem live_iff (h : Keeps lease now events table) :
    (∃ seen, table k = some seen ∧ now - seen < lease) ↔
      ∃ seen, held events k = some seen ∧ now - seen < lease := by
  rcases h k with hheld | ⟨hnone, time, htime, hexpired⟩
  · rw [hheld]
  · rw [hnone, htime]
    constructor
    · rintro ⟨seen, hseen, -⟩
      cases hseen
    · rintro ⟨seen, hseen, hlive⟩
      obtain rfl := Option.some.inj hseen
      exact absurd hlive (Nat.not_lt_of_le hexpired)

end Keeps

end Leases
