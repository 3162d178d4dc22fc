import Mathlib

/-!
# Labelled executions

A transition relation carries one label for each step: the operation taken,
with whatever the environment chose for it. A run keeps the labels in the order
in which they were taken, so that a statement can speak about the whole history
and cut it at any point. The rules below are the only inductions over runs that
a client needs: invariants, preorders followed step by step, and cuts.
-/
namespace Executions

variable {σ α : Type*} {Step : σ → α → σ → Prop}

inductive Run (Step : σ → α → σ → Prop) : σ → List α → σ → Prop
  | nil (s : σ) : Run Step s [] s
  | cons {s t u : σ} {a : α} {l : List α} : Step s a t → Run Step t l u → Run Step s (a :: l) u

theorem Run.single {s t : σ} {a : α} (h : Step s a t) : Run Step s [a] t :=
  .cons h (.nil t)

theorem Run.append {s t u : σ} {l k : List α} (h : Run Step s l t) (g : Run Step t k u) :
    Run Step s (l ++ k) u := by
  induction h with
  | nil s => exact g
  | cons hs _ ih => exact .cons hs (ih g)

theorem Run.snoc {s t u : σ} {l : List α} {a : α} (h : Run Step s l t) (hs : Step t a u) :
    Run Step s (l ++ [a]) u :=
  h.append (.single hs)

theorem Run.mono {Step' : σ → α → σ → Prop} (hmono : ∀ s a t, Step s a t → Step' s a t) {s t : σ}
    {l : List α} (h : Run Step s l t) : Run Step' s l t := by
  induction h with
  | nil s => exact .nil s
  | cons hs _ ih => exact .cons (hmono _ _ _ hs) ih

/-- A run seen through an abstraction of its states and labels. -/
theorem Run.map {τ β : Type*} {Step' : τ → β → τ → Prop} {P : σ → Prop} {f : σ → τ} {g : α → β}
    (hP : ∀ s a t, P s → Step s a t → P t)
    (hsim : ∀ s a t, P s → Step s a t → Step' (f s) (g a) (f t)) {s t : σ} {l : List α}
    (h : Run Step s l t) (hs : P s) : Run Step' (f s) (l.map g) (f t) := by
  induction h with
  | nil s => exact .nil (f s)
  | cons hstep _ ih => exact .cons (hsim _ _ _ hs hstep) (ih (hP _ _ _ hs hstep))

/-- A run seen through an abstraction that does not show some of its steps. -/
theorem Run.filterMap {τ β : Type*} {Step' : τ → β → τ → Prop} {f : σ → τ} {g : α → Option β}
    (hsim : ∀ s a t, Step s a t →
      (g a = none ∧ f t = f s) ∨ ∃ b, g a = some b ∧ Step' (f s) b (f t)) {s t : σ} {l : List α}
    (h : Run Step s l t) : Run Step' (f s) (l.filterMap g) (f t) := by
  induction h with
  | nil s => exact .nil (f s)
  | cons hstep _ ih =>
      rcases hsim _ _ _ hstep with ⟨hg, hsame⟩ | ⟨b, hg, hb⟩
      · rw [List.filterMap_cons_none hg, ← hsame]
        exact ih
      · rw [List.filterMap_cons_some hg]
        exact .cons hb ih

/-- Every cut of the label list is a state the run went through. -/
theorem Run.split {s u : σ} {l k : List α} (h : Run Step s (l ++ k) u) :
    ∃ t, Run Step s l t ∧ Run Step t k u := by
  induction l generalizing s with
  | nil => exact ⟨s, .nil s, h⟩
  | cons a l ih =>
      cases h with
      | cons hs hr =>
          obtain ⟨t, hl, hk⟩ := ih hr
          exact ⟨t, .cons hs hl, hk⟩

/-- The step taken under one occurrence of a label. -/
theorem Run.cut {s u : σ} {l k : List α} {a : α} (h : Run Step s (l ++ a :: k) u) :
    ∃ t v, Run Step s l t ∧ Step t a v ∧ Run Step v k u := by
  obtain ⟨t, hl, hk⟩ := h.split
  cases hk with
  | cons hs hr => exact ⟨t, _, hl, hs, hr⟩

theorem Run.invariant {P : σ → Prop} (hP : ∀ s a t, P s → Step s a t → P t)
    {s t : σ} {l : List α} (h : Run Step s l t) (hs : P s) : P t := by
  induction h with
  | nil s => exact hs
  | cons hstep _ ih => exact ih (hP _ _ _ hs hstep)

/-- An invariant that only the steps under good labels keep. -/
theorem Run.invariant_of {P : σ → Prop} {Q : α → Prop}
    (hP : ∀ s a t, Q a → P s → Step s a t → P t)
    {s t : σ} {l : List α} (h : Run Step s l t) (hQ : ∀ a ∈ l, Q a) (hs : P s) : P t := by
  induction h with
  | nil s => exact hs
  | cons hstep _ ih =>
      refine ih (fun a ha => hQ a (List.mem_cons_of_mem _ ha)) (hP _ _ _ ?_ hs hstep)
      exact hQ _ List.mem_cons_self

/-- An invariant that the good steps keep, where being good may depend on the state in
which a step is taken. -/
theorem Run.invariant_along {P : σ → Prop} {Q : σ → α → Prop}
    (hP : ∀ s a t, Q s a → P s → Step s a t → P t) {s t : σ} {l : List α}
    (h : Run Step s l t)
    (hQ : ∀ past a future u, l = past ++ a :: future → Run Step s past u → Q u a) (hs : P s) :
    P t := by
  induction h with
  | nil s => exact hs
  | cons hstep _ ih =>
      refine ih (fun past a future u hl hrun => ?_) (hP _ _ _ ?_ hs hstep)
      · exact hQ (_ :: past) a future u (by rw [hl, List.cons_append]) (.cons hstep hrun)
      · exact hQ [] _ _ _ rfl (.nil _)

theorem Run.along_nil {Q : σ → α → Prop} {s : σ} (past : List α) (a : α) (future : List α)
    (u : σ) (hl : [] = past ++ a :: future) : Run Step s past u → Q u a := by simp at hl

/-- Where steps leave no choice, it is enough to look at one run. -/
theorem Run.along_cons (hfun : ∀ s a t u, Step s a t → Step s a u → t = u) {Q : σ → α → Prop}
    {s t : σ} {a : α} {l : List α} (hstep : Step s a t) (ha : Q s a)
    (hl : ∀ past b future u, l = past ++ b :: future → Run Step t past u → Q u b)
    (past : List α) (b : α) (future : List α) (u : σ) (hcut : a :: l = past ++ b :: future)
    (h : Run Step s past u) : Q u b := by
  cases h with
  | nil => exact (List.cons.inj hcut).1 ▸ ha
  | cons hfirst hrest =>
      obtain ⟨rfl, hrest'⟩ := List.cons.inj hcut
      obtain rfl := hfun _ _ _ _ hstep hfirst
      exact hl _ b future u hrest' hrest

/-- An invariant that may speak of the labels taken so far. -/
theorem Run.recorded {P : List α → σ → Prop}
    (hP : ∀ past s a t, P past s → Step s a t → P (past ++ [a]) t) {s t : σ} {l : List α}
    (h : Run Step s l t) (hs : P [] s) : P l t := by
  have hgen : ∀ past, P past s → P (past ++ l) t := by
    clear hs
    induction h with
    | nil s =>
        intro past hs
        rwa [List.append_nil]
    | @cons s u t a l hstep _ ih =>
        intro past hs
        have hrest := ih (past ++ [a]) (hP past s a u hs hstep)
        rwa [List.append_assoc, List.singleton_append] at hrest
  exact hgen [] hs

/-- Steps that leave no choice leave none to a run. -/
theorem Run.unique (hfun : ∀ s a t u, Step s a t → Step s a u → t = u) {s t u : σ} {l : List α}
    (h : Run Step s l t) (g : Run Step s l u) : t = u := by
  induction h with
  | nil s =>
      cases g
      rfl
  | cons hstep _ ih =>
      cases g with
      | cons gstep gr =>
          obtain rfl := hfun _ _ _ _ hstep gstep
          exact ih gr

/-- Where steps leave no choice, a run goes through if each of its steps can be taken from
the state that the steps before it lead to. -/
theorem Run.exists_iff (hfun : ∀ s a t u, Step s a t → Step s a u → t = u) {s : σ}
    {l : List α} : (∃ t, Run Step s l t) ↔
      ∀ past a future u, l = past ++ a :: future → Run Step s past u → ∃ v, Step u a v := by
  constructor
  · rintro ⟨t, h⟩ past a future u rfl hpast
    obtain ⟨w, v, hpast', hstep, -⟩ := h.cut
    exact ⟨v, hpast'.unique hfun hpast ▸ hstep⟩
  · intro h
    induction l generalizing s with
    | nil => exact ⟨s, .nil s⟩
    | cons a l ih =>
        obtain ⟨v, hv⟩ := h [] a l s rfl (.nil s)
        obtain ⟨t, ht⟩ := ih fun past b future u hl hpast =>
          h (a :: past) b future u (by rw [hl, List.cons_append]) (.cons hv hpast)
        exact ⟨t, .cons hv ht⟩

/-- A label that leaves a state in which it cannot be taken again, and which no step
ends, occurs once. -/
theorem Run.not_mem {P : σ → Prop} {a : α} (hP : ∀ s b t, P s → Step s b t → P t)
    (ha : ∀ s t, P s → ¬Step s a t) {s t : σ} {l : List α} (h : Run Step s l t) (hs : P s) :
    a ∉ l := by
  intro hmem
  obtain ⟨past, future, rfl⟩ := List.append_of_mem hmem
  obtain ⟨u, v, hpast, hstep, _⟩ := h.cut
  exact ha u v (hpast.invariant hP hs) hstep

/-- A reflexive and transitive relation that every step from a good state
respects relates the two ends of a run. -/
theorem Run.relates {P : σ → Prop} {R : σ → σ → Prop} (hP : ∀ s a t, P s → Step s a t → P t)
    (hrefl : ∀ s, R s s) (htrans : ∀ s t u, R s t → R t u → R s u)
    (hR : ∀ s a t, P s → Step s a t → R s t)
    {s t : σ} {l : List α} (h : Run Step s l t) (hs : P s) : R s t := by
  induction h with
  | nil s => exact hrefl s
  | cons hstep _ ih =>
      exact htrans _ _ _ (hR _ _ _ hs hstep) (ih (hP _ _ _ hs hstep))

end Executions
