import Mathlib

/-!
# First occurrences

A list is read once, with what has been seen so far in hand, and an entry counts when it is
met for the first time. The entries that count are those of the list without repetitions,
less what had been seen before.
-/
namespace FirstOccurrences

variable {α : Type*} [BEq α]

/-- The first entry is kept and all that equal it are gone from the rest. -/
theorem eraseDups_induction {motive : List α → Prop} (nil : motive [])
    (cons : ∀ a l, motive (l.filter fun b => !b == a) → motive (a :: l)) (l : List α) :
    motive l := by
  induction h : l.length using Nat.strong_induction_on generalizing l with
  | _ n ih =>
      cases l with
      | nil => exact nil
      | cons a l =>
          refine cons a l (ih _ ?_ _ rfl)
          rw [← h, List.length_cons]
          exact Nat.lt_succ_of_le (List.length_filter_le _ l)

variable [LawfulBEq α] {a : α} {l seen : List α}

theorem nodup_eraseDups (l : List α) : l.eraseDups.Nodup := by
  induction l using eraseDups_induction with
  | nil => exact List.nodup_nil
  | cons a l ih =>
      rw [List.eraseDups_cons]
      refine List.nodup_cons.mpr ⟨fun ha => ?_, ih⟩
      have hne := (List.mem_filter.mp (List.mem_eraseDups.mp ha)).2
      simp at hne

theorem eraseDups_filter (p : α → Bool) (l : List α) :
    (l.filter p).eraseDups = l.eraseDups.filter p := by
  induction l using eraseDups_induction with
  | nil => rfl
  | cons a l ih =>
      rw [List.eraseDups_cons]
      by_cases ha : p a = true
      · rw [List.filter_cons_of_pos ha, List.filter_cons_of_pos ha, List.eraseDups_cons, ← ih,
          List.filter_filter, List.filter_filter]
        simp only [Bool.and_comm]
      · -- No entry that passes equals the one that does not.
        have hsame : (l.filter fun b => !b == a).filter p = l.filter p := by
          rw [List.filter_filter]
          refine List.filter_congr fun b _ => ?_
          by_cases hb : b = a
          · subst hb
            simp [ha]
          · simp [hb]
        rw [List.filter_cons_of_neg ha, List.filter_cons_of_neg ha, ← ih, hsame]

theorem eraseDups_eq_singleton : l.eraseDups = [a] ↔ a ∈ l ∧ ∀ b ∈ l, b = a := by
  constructor
  · intro h
    refine ⟨List.mem_eraseDups.mp (h ▸ List.mem_singleton_self a), fun b hb => ?_⟩
    exact List.mem_singleton.mp (h ▸ List.mem_eraseDups.mpr hb)
  · rintro ⟨ha, hall⟩
    have hperm : l.eraseDups.Perm [a] := by
      refine (List.perm_ext_iff_of_nodup (nodup_eraseDups l) (List.nodup_singleton a)).mpr ?_
      intro b
      rw [List.mem_eraseDups, List.mem_singleton]
      exact ⟨hall b, fun hb => hb ▸ ha⟩
    exact List.perm_singleton.mp hperm

/-! ## What is met for the first time -/

/-- The entries that were not seen before, each of them once. -/
def fresh (seen l : List α) : List α := (l.filter fun b => !seen.contains b).eraseDups

omit [LawfulBEq α] in
@[simp] theorem fresh_nil (seen : List α) : fresh seen [] = [] := rfl

@[simp] theorem fresh_none_seen (l : List α) : fresh [] l = l.eraseDups := by
  simp [fresh]

theorem fresh_cons_old (h : a ∈ seen) : fresh seen (a :: l) = fresh seen l := by
  simp [fresh, h]

theorem fresh_cons_new (h : a ∉ seen) :
    fresh seen (a :: l) = a :: fresh (seen ++ [a]) l := by
  have hrest : (l.filter fun b => !(seen ++ [a]).contains b) =
      (l.filter fun b => !seen.contains b).filter fun b => !b == a := by
    rw [List.filter_filter]
    refine List.filter_congr fun b _ => Bool.eq_iff_iff.mpr ?_
    simp [and_comm]
  rw [fresh, fresh, hrest, List.filter_cons_of_pos (by simpa using h), List.eraseDups_cons]

end FirstOccurrences
