import Mathlib

/-!
# Selecting the best of a pool

A selection of bounded size takes the members of a pool one after the other. While there
is room it takes each of them; then one is taken only in place of the worst that is
selected, and only if it is better. What stays outside is never better than what is
selected, in whatever order the pool is met.

A selection from a list is the set of positions whose entries pass a test.
-/
namespace BoundedSelection

/-! ## Selections -/

section

variable {ι κ : Type*} [LinearOrder κ]

/-- Of a pool, a selection within the capacity keeps the entries with the largest keys. -/
structure Keeps (cap : ℕ) (key : ι → κ) (pool sel : Finset ι) : Prop where
  subset : sel ⊆ pool
  card_le : sel.card ≤ cap
  rest : ∀ p ∈ pool, p ∉ sel → sel.card = cap ∧ ∀ s ∈ sel, key p ≤ key s

namespace Keeps

variable {cap : ℕ} {key : ι → κ} {pool sel : Finset ι} {i w : ι}

theorem start (h : sel.card ≤ cap) : Keeps cap key sel sel :=
  ⟨subset_rfl, h, fun _ hp hnot => absurd hp hnot⟩

variable [DecidableEq ι]

/-- While there is room, the next one is taken. -/
theorem take (h : Keeps cap key pool sel) (hroom : sel.card < cap) :
    Keeps cap key (insert i pool) (insert i sel) := by
  refine ⟨Finset.insert_subset_insert i h.subset, ?_, fun p hp hnot => ?_⟩
  · exact (Finset.card_insert_le i sel).trans hroom
  · rw [Finset.mem_insert, not_or] at hnot
    have hpool := (Finset.mem_insert.mp hp).resolve_left hnot.1
    exact absurd (h.rest p hpool hnot.2).1 hroom.ne

/-- One that is no better than the worst stays outside. -/
theorem refuse (h : Keeps cap key pool sel) (hfull : sel.card = cap)
    (hworst : ∀ s ∈ sel, key i ≤ key s) : Keeps cap key (insert i pool) sel := by
  refine ⟨h.subset.trans (Finset.subset_insert i pool), h.card_le, fun p hp hnot => ?_⟩
  rcases Finset.mem_insert.mp hp with rfl | hpool
  · exact ⟨hfull, hworst⟩
  · exact h.rest p hpool hnot

/-- A better one takes the place of the worst. -/
theorem replace (h : Keeps cap key pool sel) (hfull : sel.card = cap) (hw : w ∈ sel)
    (hworst : ∀ s ∈ sel, key w ≤ key s) (hbetter : key w < key i) (hi : i ∉ pool) :
    Keeps cap key (insert i pool) (insert i (sel.erase w)) := by
  have hnew : i ∉ sel.erase w := fun hmem => hi (h.subset (Finset.mem_of_mem_erase hmem))
  have hcard : (insert i (sel.erase w)).card = cap := by
    rw [Finset.card_insert_of_notMem hnew, Finset.card_erase_add_one hw, hfull]
  refine ⟨Finset.insert_subset_insert i ((Finset.erase_subset w sel).trans h.subset), hcard.le,
    fun p hp hnot => ⟨hcard, fun s hs => ?_⟩⟩
  rw [Finset.mem_insert, not_or] at hnot
  have hpool := (Finset.mem_insert.mp hp).resolve_left hnot.1
  -- What stays outside is the evicted one or was outside before.
  have hle : key p ≤ key w := by
    by_cases hpw : p = w
    · rw [hpw]
    · exact (h.rest p hpool fun hmem => hnot.2 (Finset.mem_erase.mpr ⟨hpw, hmem⟩)).2 w hw
  rcases Finset.mem_insert.mp hs with rfl | hs
  · exact hle.trans hbetter.le
  · exact hle.trans (hworst s (Finset.mem_of_mem_erase hs))

/-- An entry below the mark is selected exactly when there is one and those above it do not
fill the selection. -/
theorem exists_low_iff (h : Keeps cap key pool sel) {low : ι → Prop} [DecidablePred low]
    (hlow : ∀ p s, key p ≤ key s → low s → low p) :
    (∃ s ∈ sel, low s) ↔ (∃ p ∈ pool, low p) ∧ (pool.filter fun p => ¬low p).card < cap := by
  constructor
  · rintro ⟨s, hs, hslow⟩
    refine ⟨⟨s, h.subset hs, hslow⟩, ?_⟩
    have hinside : (pool.filter fun p => ¬low p) ⊆ sel.erase s := by
      intro p hp
      obtain ⟨hpool, hhigh⟩ := Finset.mem_filter.mp hp
      refine Finset.mem_erase.mpr ⟨fun heq => hhigh (heq ▸ hslow), ?_⟩
      by_contra hnot
      exact hhigh (hlow p s ((h.rest p hpool hnot).2 s hs) hslow)
    exact (Finset.card_le_card hinside).trans_lt
      ((Finset.card_erase_lt_of_mem hs).trans_le h.card_le)
  · rintro ⟨⟨p, hp, hplow⟩, hcard⟩
    by_contra hnone
    push Not at hnone
    have hfull := (h.rest p hp fun hmem => hnone p hmem hplow).1
    have hinside : sel ⊆ pool.filter fun p => ¬low p := fun s hs =>
      Finset.mem_filter.mpr ⟨h.subset hs, hnone s hs⟩
    exact absurd (Finset.card_le_card hinside) (by omega)

end Keeps

end

/-! ## Positions in a list -/

section

variable {α : Type*}

/-- The positions of a list whose entries pass a test. -/
def positions (p : α → Bool) (l : List α) : Finset ℕ :=
  (Finset.range l.length).filter fun i => (l[i]?).any p

@[simp] theorem mem_positions {p : α → Bool} {l : List α} {i : ℕ} :
    i ∈ positions p l ↔ ∃ a, l[i]? = some a ∧ p a = true := by
  unfold positions
  rw [Finset.mem_filter, Finset.mem_range, Option.any_eq_true]
  refine and_iff_right_of_imp ?_
  rintro ⟨a, ha, -⟩
  exact (List.getElem?_eq_some_iff.mp ha).1

theorem card_positions (p : α → Bool) (l : List α) : (positions p l).card = l.countP p := by
  induction l using List.reverseRecOn with
  | nil => rfl
  | append_singleton l a ih =>
      have hold : ∀ i, i < l.length → (l ++ [a])[i]? = l[i]? := fun i hi =>
        List.getElem?_append_left hi
      have hlast : (l ++ [a])[l.length]? = some a := List.getElem?_concat_length
      have hsame : ((Finset.range l.length).filter fun i => ((l ++ [a])[i]?).any p) =
          positions p l := by
        refine Finset.filter_congr fun i hi => ?_
        rw [hold i (Finset.mem_range.mp hi)]
      have hfresh : l.length ∉ positions p l := by
        intro hmem
        obtain ⟨_, ha, -⟩ := mem_positions.mp hmem
        exact absurd (List.getElem?_eq_some_iff.mp ha).1 (lt_irrefl _)
      have hsplit : positions p (l ++ [a]) =
          if p a then insert l.length (positions p l) else positions p l := by
        conv_lhs => unfold positions
        rw [List.length_append, List.length_singleton, Finset.range_add_one,
          Finset.filter_insert, hlast, hsame, Option.any_some]
      rw [hsplit, List.countP_append, ← ih, List.countP_singleton]
      split_ifs
      · exact Finset.card_insert_of_notMem hfresh
      · rfl

end

end BoundedSelection
