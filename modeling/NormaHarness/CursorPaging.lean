import Mathlib

/-!
# Paging from the end with an exclusive cursor

A reader of an ascending list is given its last entries, as many as fit on a page, and
asks for what lies before the first of them. Cutting the list by the key of that entry is
the same as cutting it by position, so the pages lose nothing and repeat nothing.
-/
namespace CursorPaging

variable {α κ : Type*}

/-- The entries of one page: the last ones, up to the limit. -/
def newest (limit : ℕ) (l : List α) : List α := l.drop (l.length - limit)

/-- The entries before that page. -/
def older (limit : ℕ) (l : List α) : List α := l.take (l.length - limit)

/-- These are the pages of a list, from the last one to the first. -/
inductive Paged (limit : ℕ) : List α → List (List α) → Prop
  | last {l : List α} : l.length ≤ limit → Paged limit l [l]
  | more {l : List α} {pages : List (List α)} : limit < l.length →
      Paged limit (older limit l) pages → Paged limit l (newest limit l :: pages)

theorem older_append_newest (limit : ℕ) (l : List α) : older limit l ++ newest limit l = l :=
  List.take_append_drop _ l

theorem length_older (limit : ℕ) (l : List α) : (older limit l).length = l.length - limit := by
  simp [older]

theorem length_newest {limit : ℕ} {l : List α} (h : limit ≤ l.length) :
    (newest limit l).length = limit := by
  simp only [newest, List.length_drop]
  omega

theorem older_sublist (limit : ℕ) (l : List α) : (older limit l).Sublist l :=
  List.take_sublist _ l

/-- In an ascending list the entries with smaller keys are those before. -/
theorem filter_before [Preorder κ] [DecidableLT κ] {key : α → κ} {before after : List α}
    {first : α} (h : (before ++ first :: after).Pairwise fun a b => key a < key b) :
    (before ++ first :: after).filter (fun a => decide (key a < key first)) = before := by
  obtain ⟨-, hfirst, hbefore⟩ := List.pairwise_append.mp h
  have hkeep : before.filter (fun a => decide (key a < key first)) = before :=
    List.filter_eq_self.mpr fun a ha => decide_eq_true (hbefore a ha first List.mem_cons_self)
  have hdrop : (first :: after).filter (fun a => decide (key a < key first)) = [] := by
    refine List.filter_eq_nil_iff.mpr fun a ha => ?_
    rcases List.mem_cons.mp ha with rfl | ha
    · simp
    · simpa using ((List.pairwise_cons.mp hfirst).1 a ha).asymm
  rw [List.filter_append, hkeep, hdrop, List.append_nil]

namespace Paged

variable {limit : ℕ} {l : List α} {pages : List (List α)}

/-- Paging ends, and takes no more pages than there are entries, or one. -/
theorem exists_pages (hlimit : 0 < limit) (l : List α) :
    ∃ pages, Paged limit l pages ∧ pages.length ≤ l.length + 1 := by
  induction hn : l.length using Nat.strong_induction_on generalizing l with
  | _ n ih =>
      by_cases hlast : l.length ≤ limit
      · exact ⟨[l], .last hlast, Nat.le_add_left 1 n⟩
      · have hlength := length_older limit l
        obtain ⟨pages, hpages, hle⟩ := ih _ (by omega) (older limit l) hlength
        refine ⟨_, .more (Nat.lt_of_not_le hlast) hpages, ?_⟩
        rw [List.length_cons]
        omega

theorem ne_nil (h : Paged limit l pages) : pages ≠ [] := by
  cases h <;> exact List.cons_ne_nil _ _

theorem flatten_reverse (h : Paged limit l pages) : pages.reverse.flatten = l := by
  induction h with
  | last _ => simp
  | @more l pages _ _ ih =>
      rw [List.reverse_cons, List.flatten_append, ih, List.flatten_singleton]
      exact older_append_newest limit l

theorem length_le (h : Paged limit l pages) : ∀ page ∈ pages, page.length ≤ limit := by
  induction h with
  | last hlast =>
      intro page hpage
      rw [List.mem_singleton.mp hpage]
      exact hlast
  | more hlimit _ ih =>
      intro page hpage
      rcases List.mem_cons.mp hpage with rfl | hpage
      · exact (length_newest hlimit.le).le
      · exact ih page hpage

theorem sublist (h : Paged limit l pages) : ∀ page ∈ pages, page.Sublist l := by
  induction h with
  | @last l _ =>
      intro page hpage
      rw [List.mem_singleton.mp hpage]
  | @more l pages _ _ ih =>
      intro page hpage
      rcases List.mem_cons.mp hpage with rfl | hpage
      · exact List.drop_sublist _ l
      · exact (ih page hpage).trans (older_sublist limit l)

/-- Entries are left unread exactly when the page is not the last one. -/
theorem unread_iff (h : Paged limit l pages) (hl : l.Nodup) {k : ℕ} (hk : k < pages.length) :
    (∃ a ∈ l, ∀ page ∈ pages.take (k + 1), a ∉ page) ↔ k + 1 < pages.length := by
  induction h generalizing k with
  | @last l hlast =>
      have hzero : k = 0 := Nat.lt_one_iff.mp hk
      subst hzero
      refine iff_of_false ?_ (lt_irrefl 1)
      rintro ⟨a, ha, hunread⟩
      exact hunread l List.mem_cons_self ha
  | @more l pages hlimit hpages ih =>
      have hsplit := older_append_newest limit l
      rw [← hsplit, List.nodup_append] at hl
      obtain ⟨hnodup, -, hdisjoint⟩ := hl
      have hunread : ∀ k, (∃ a ∈ l, ∀ page ∈ (newest limit l :: pages).take (k + 1), a ∉ page) ↔
          ∃ a ∈ older limit l, ∀ page ∈ pages.take k, a ∉ page := by
        intro k
        simp only [List.take_succ_cons, List.mem_cons, forall_eq_or_imp]
        constructor
        · rintro ⟨a, ha, hnot, hothers⟩
          rw [← hsplit] at ha
          exact ⟨a, (List.mem_append.mp ha).resolve_right hnot, hothers⟩
        · rintro ⟨a, ha, hothers⟩
          exact ⟨a, (older_sublist limit l).subset ha, fun hnew => hdisjoint a ha a hnew rfl,
            hothers⟩
      rw [hunread, List.length_cons]
      cases k with
      | zero =>
          have hpositive := List.length_pos_of_ne_nil hpages.ne_nil
          refine iff_of_true ?_ (Nat.succ_lt_succ hpositive)
          have holder : 0 < (older limit l).length := by
            rw [length_older]
            omega
          obtain ⟨a, ha⟩ := List.exists_mem_of_length_pos holder
          exact ⟨a, ha, by simp⟩
      | succ k => exact (ih hnodup (Nat.lt_of_succ_lt_succ hk)).trans Nat.succ_lt_succ_iff.symm

end Paged

end CursorPaging
