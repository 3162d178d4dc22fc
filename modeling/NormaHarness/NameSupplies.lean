import NormaHarness.Executions

/-!
# Names drawn from a counter

A supply names things after a counter of limited width and never asks which names are in
use. A name is new because no name from the counter on is in use, and drawing one keeps
that true until the counter comes round.
-/
namespace NameSupplies
open Executions

structure Supply (K : Type*) where
  next : ℕ
  used : Set K

section

variable {K : Type*} (name : ℕ → K) (width : ℕ)

/-- No name from the counter on is in use. -/
def Supply.Free (s : Supply K) : Prop := ∀ n, s.next ≤ n → n < width → name n ∉ s.used

/-- A use that may draw takes the next name, or leaves the counter alone. A drawn name
need not come into use, and every use may give names up. -/
inductive Supply.Step (s : Supply K) : Bool → Supply K → Prop
  | draw (s' : Supply K) : s'.next = (s.next + 1) % width →
      s'.used ⊆ insert (name s.next) s.used → Step s true s'
  | keep (draws : Bool) (s' : Supply K) : s'.next = s.next → s'.used ⊆ s.used →
      Step s draws s'

end

namespace Supply

variable {K : Type*} {name : ℕ → K} {width : ℕ} {s s' : Supply K}

theorem Free.unused (h : s.Free name width) (hnext : s.next < width) : name s.next ∉ s.used :=
  h s.next le_rfl hnext

theorem Free.anti (h : s.Free name width) (hnext : s.next ≤ s'.next) (hused : s'.used ⊆ s.used) :
    s'.Free name width :=
  fun n hn hwidth hmem => h n (hnext.trans hn) hwidth (hused hmem)

theorem Step.free {draws : Bool} (hstep : s.Step name width draws s')
    (hname : Set.InjOn name (Set.Iio width)) (hroom : s.next + draws.toNat < width)
    (hfree : s.Free name width) :
    s'.Free name width ∧ s'.next ≤ s.next + draws.toNat := by
  cases hstep with
  | draw _ hnext hused =>
      have hroom : s.next + 1 < width := hroom
      rw [Nat.mod_eq_of_lt hroom] at hnext
      refine ⟨fun n hn hwidth hmem => ?_, hnext.le⟩
      rw [hnext] at hn
      rcases hused hmem with heq | hmem
      · have hlt : s.next < width := (Nat.lt_succ_self _).trans hroom
        exact absurd (hname hwidth hlt heq) (Nat.ne_of_gt hn)
      · exact hfree n ((Nat.le_succ _).trans hn) hwidth hmem
  | keep _ _ hnext hused =>
      exact ⟨hfree.anti hnext.ge hused, hnext.le.trans (Nat.le_add_right _ _)⟩

/-- The invariant lasts as long as the uses that may draw do not use the width up. -/
theorem Free.run {uses : List Bool} {t : Supply K} (hrun : Run (Step name width) s uses t)
    (hname : Set.InjOn name (Set.Iio width)) (hroom : s.next + uses.count true < width)
    (hfree : s.Free name width) :
    t.Free name width ∧ t.next ≤ s.next + uses.count true := by
  revert hroom
  refine hrun.recorded (P := fun past u => s.next + past.count true < width →
    u.Free name width ∧ u.next ≤ s.next + past.count true) ?_ fun _ => ⟨hfree, le_rfl⟩
  intro past u draws v ih hstep hroom
  have hcount : (past ++ [draws]).count true = past.count true + draws.toNat := by
    cases draws with
    | false => simp
    | true => simp
  rw [hcount] at hroom ⊢
  obtain ⟨hu, hnext⟩ := ih (by omega)
  obtain ⟨hv, hnext'⟩ := hstep.free hname (by omega) hu
  exact ⟨hv, by omega⟩

end Supply

end NameSupplies
