import NormaHarness.OrderedMaps

/-!
# A set of records seen through an ordered map

A map indexes a set when its entries are the members of the set, each one under
its key and shown by its value. A member that comes or leaves is one insertion
or one erasure, and lookups, walks in key order and the number of entries are
then questions about the set.
-/
namespace IndexedSets
open Std

variable {κ β α : Type*} [Ord κ] [TransOrd κ]

/-- The entries of `m` are the members of `S`. -/
def Indexes (m : ExtTreeMap κ β) (S : Set α) (key : α → κ) (val : α → β) : Prop :=
  ∀ (k : κ) (v : β), m[k]? = some v ↔ ∃ a ∈ S, key a = k ∧ val a = v

namespace Indexes

variable {m : ExtTreeMap κ β} {S : Set α} {key : α → κ} {val : α → β}

theorem empty : Indexes (∅ : ExtTreeMap κ β) (∅ : Set α) key val := by
  intro k v
  simp

theorem get (h : Indexes m S key val) {a : α} (ha : a ∈ S) : m[key a]? = some (val a) :=
  (h _ _).mpr ⟨a, ha, rfl, rfl⟩

theorem get_eq_none (h : Indexes m S key val) {k : κ} :
    m[k]? = none ↔ ∀ a ∈ S, key a ≠ k := by
  constructor
  · intro hk a ha he
    have := h.get ha
    rw [he, hk] at this
    cases this
  · intro hk
    cases hv : m[k]? with
    | none => rfl
    | some v =>
        obtain ⟨a, ha, he, _⟩ := (h k v).mp hv
        exact absurd he (hk a ha)

theorem mem_iff (h : Indexes m S key val) {k : κ} : k ∈ m ↔ ∃ a ∈ S, key a = k := by
  constructor
  · intro hk
    obtain ⟨v, hv⟩ := Option.isSome_iff_exists.mp (ExtTreeMap.mem_iff_isSome_getElem?.mp hk)
    obtain ⟨a, ha, he, _⟩ := (h k v).mp hv
    exact ⟨a, ha, he⟩
  · rintro ⟨a, ha, rfl⟩
    exact ExtTreeMap.mem_iff_isSome_getElem?.mpr (by rw [h.get ha]; rfl)

variable [LawfulEqOrd κ]

theorem insert (h : Indexes m S key val) {a : α} (hfree : ∀ b ∈ S, key b ≠ key a) :
    Indexes (m.insert (key a) (val a)) (insert a S) key val := by
  classical
  intro k v
  simp only [ExtTreeMap.getElem?_insert, LawfulEqCmp.compare_eq_iff_eq, Set.mem_insert_iff]
  split_ifs with hk
  · constructor
    · intro hv
      exact ⟨a, .inl rfl, hk, Option.some.inj hv⟩
    · rintro ⟨b, rfl | hb, hbk, hbv⟩
      · rw [hbv]
      · exact absurd (hbk.trans hk.symm) (hfree b hb)
  · rw [h]
    constructor
    · rintro ⟨b, hb, hbk, hbv⟩
      exact ⟨b, .inr hb, hbk, hbv⟩
    · rintro ⟨b, rfl | hb, hbk, hbv⟩
      · exact absurd hbk hk
      · exact ⟨b, hb, hbk, hbv⟩

theorem erase (h : Indexes m S key val) (hinj : S.InjOn key) {a : α} (ha : a ∈ S) :
    Indexes (m.erase (key a)) (S \ {a}) key val := by
  classical
  intro k v
  simp only [ExtTreeMap.getElem?_erase, LawfulEqCmp.compare_eq_iff_eq, Set.mem_sdiff,
    Set.mem_singleton_iff]
  split_ifs with hk
  · constructor
    · intro hv
      cases hv
    · rintro ⟨b, ⟨hb, hne⟩, hbk, _⟩
      exact absurd (hinj hb ha (hbk.trans hk.symm)) hne
  · rw [h]
    constructor
    · rintro ⟨b, hb, hbk, hbv⟩
      refine ⟨b, ⟨hb, ?_⟩, hbk, hbv⟩
      rintro rfl
      exact hk hbk
    · rintro ⟨b, ⟨hb, _⟩, hbk, hbv⟩
      exact ⟨b, hb, hbk, hbv⟩

theorem mem_toList (h : Indexes m S key val) {p : κ × β} :
    p ∈ m.toList ↔ ∃ a ∈ S, (key a, val a) = p := by
  obtain ⟨k, v⟩ := p
  simp only [ExtTreeMap.mem_toList_iff_getElem?_eq_some, h k v, Prod.mk.injEq]

theorem size (h : Indexes m S key val) (hinj : S.InjOn key) : m.size = S.ncard := by
  classical
  have hkeys : ((m.keys.toFinset : Finset κ) : Set κ) = key '' S := by
    ext k
    rw [List.coe_toFinset, Set.mem_ofPred_eq, ExtTreeMap.mem_keys, h.mem_iff]
    rfl
  rw [← hinj.ncard_image, ← hkeys, Set.ncard_coe_finset,
    List.toFinset_card_of_nodup ExtTreeMap.nodup_keys, ExtTreeMap.length_keys]

end Indexes

/-- The selected members of `S`, each one once, in the order of their keys. -/
structure Listing (l : List β) (S : Set α) (p : α → Prop) (key : β → κ) (val : α → β) : Prop where
  ascending : l.Pairwise fun a b => compare (key a) (key b) = .lt
  members : ∀ b, b ∈ l ↔ ∃ a ∈ S, p a ∧ val a = b

end IndexedSets
