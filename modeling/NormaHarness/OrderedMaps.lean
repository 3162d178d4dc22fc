import Mathlib

/-!
# Reading an ordered map in key order

A listing that walks an ordered map and lets every entry contribute a list
depends on the contributions alone. Two maps whose entries contribute the same
lists key by key give the same listing, even when one of them holds further keys
that contribute nothing.
-/
namespace OrderedMaps
open Std

variable {κ β β' γ : Type*} [Ord κ] [TransOrd κ]

/-- Every entry in key order. -/
def listing (m : ExtTreeMap κ β) (c : κ → β → List γ) : List γ :=
  m.toList.flatMap fun p => c p.1 p.2

/-- What the entry under one key adds to the listing, nothing when there is none. -/
def contribution (m : ExtTreeMap κ β) (c : κ → β → List γ) (k : κ) : List γ :=
  (m[k]?.map (c k)).getD []

/-- The keys that add something, in key order. -/
def support (m : ExtTreeMap κ β) (c : κ → β → List γ) : List κ :=
  (m.toList.filter fun p => !(c p.1 p.2).isEmpty).map Prod.fst

theorem contribution_of_some {m : ExtTreeMap κ β} {c : κ → β → List γ} {k : κ} {v : β}
    (h : m[k]? = some v) : contribution m c k = c k v := by
  simp [contribution, h]

theorem contribution_of_none {m : ExtTreeMap κ β} {c : κ → β → List γ} {k : κ}
    (h : m[k]? = none) : contribution m c k = [] := by
  simp [contribution, h]

theorem support_ascending (m : ExtTreeMap κ β) (c : κ → β → List γ) :
    (support m c).Pairwise fun a b => compare a b = .lt := by
  have h : m.toList.Pairwise fun p q => compare p.1 q.1 = .lt := m.ordered_keys_toList
  exact List.pairwise_map.mpr (h.sublist List.filter_sublist)

variable [LawfulEqOrd κ]

theorem mem_support {m : ExtTreeMap κ β} {c : κ → β → List γ} {k : κ} :
    k ∈ support m c ↔ contribution m c k ≠ [] := by
  simp only [support, List.mem_map, List.mem_filter, Bool.not_eq_true', List.isEmpty_eq_false_iff]
  constructor
  · rintro ⟨⟨k', v⟩, ⟨hmem, hne⟩, rfl⟩
    rw [contribution_of_some (ExtTreeMap.mem_toList_iff_getElem?_eq_some.mp hmem)]
    exact hne
  · intro hne
    cases hk : m[k]? with
    | none => exact absurd (contribution_of_none hk) hne
    | some v =>
        rw [contribution_of_some hk] at hne
        exact ⟨(k, v), ⟨ExtTreeMap.mem_toList_iff_getElem?_eq_some.mpr hk, hne⟩, rfl⟩

theorem listing_eq_support (m : ExtTreeMap κ β) (c : κ → β → List γ) :
    listing m c = (support m c).flatMap (contribution m c) := by
  have drop : ∀ l : List (κ × β), (∀ p ∈ l, m[p.1]? = some p.2) →
      l.flatMap (fun p => c p.1 p.2) =
        ((l.filter fun p => !(c p.1 p.2).isEmpty).map Prod.fst).flatMap (contribution m c) := by
    intro l
    induction l with
    | nil => intro _; rfl
    | cons p l ih =>
        intro hl
        have hp := contribution_of_some (c := c) (hl p List.mem_cons_self)
        have ih' := ih fun q hq => hl q (List.mem_cons_of_mem _ hq)
        cases hc : c p.1 p.2 with
        | nil => simp [hc, ih']
        | cons x xs => simp [hc, ih', hp]
  exact drop m.toList fun p hp => ExtTreeMap.mem_toList_iff_getElem?_eq_some.mp hp

/-- Ascending lists are determined by their members. -/
theorem ascending_ext {l k : List κ} (hl : l.Pairwise fun a b => compare a b = .lt)
    (hk : k.Pairwise fun a b => compare a b = .lt) (h : ∀ a, a ∈ l ↔ a ∈ k) : l = k := by
  have irrefl : ∀ {a b : κ}, compare a b = .lt → a ≠ b := by
    rintro a b hab rfl
    simp [ReflCmp.compare_self] at hab
  have perm : l.Perm k := (List.perm_ext_iff_of_nodup (hl.imp irrefl) (hk.imp irrefl)).mpr h
  refine perm.eq_of_pairwise ?_ hl hk
  intro a b _ _ hab hba
  exact absurd hba (OrientedCmp.not_lt_of_lt hab)

/-- The listing depends on the contributions alone. -/
theorem listing_congr {m : ExtTreeMap κ β} {m' : ExtTreeMap κ β'} {c : κ → β → List γ}
    {c' : κ → β' → List γ} (h : ∀ k, contribution m c k = contribution m' c' k) :
    listing m c = listing m' c' := by
  have hs : support m c = support m' c' := ascending_ext (support_ascending m c)
    (support_ascending m' c') fun k => by rw [mem_support, mem_support, h]
  rw [listing_eq_support, listing_eq_support, hs, funext h]

end OrderedMaps
