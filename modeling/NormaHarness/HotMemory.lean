import NormaHarness.BoundedSelection
import NormaHarness.MemoryManager

/-!
# What stays hot

A rebalance first retires hot facts that have not been seen for a week, and then promotes
facts that have been cached for a day, each in place of the hot fact seen longest ago when
there is no room. The promotions are a selection by the time of the last mention, of the
facts that are hot or may become so. Whether a fact has gone unseen for a week is not asked
of those that are promoted.
-/
namespace NormaHarness.Memory
open BoundedSelection

/-! ## Facts apart from their heat -/

/-- A fact but for the time since when it is hot. -/
def resting (f : MemoryFact) : MemoryFact := {f with hotSinceMs := none}

/-- What a rebalance never changes. -/
def known (f : MemoryFact) : String × String × List ℕ × ℕ × ℕ :=
  (f.key, f.text, f.sourceMessageIds, f.firstSeenMs, f.lastSeenMs)

/-- The positions of the hot facts. -/
def hotSet (facts : List MemoryFact) : Finset ℕ := positions (fun f => f.hotSinceMs.isSome) facts

theorem card_hotSet (facts : List MemoryFact) : (hotSet facts).card = hotCount facts :=
  card_positions _ facts

section

variable {now i j : ℕ} {facts facts' : List MemoryFact} {f g : MemoryFact}

theorem mem_hotSet : i ∈ hotSet facts ↔ ∃ f, facts[i]? = some f ∧ f.hotSinceMs.isSome = true :=
  mem_positions

theorem hotSet_heat (hi : i < facts.length) :
    hotSet (heat now i facts) = insert i (hotSet facts) := by
  ext j
  rw [Finset.mem_insert, mem_hotSet, mem_hotSet, heat, List.getElem?_modify]
  by_cases hij : i = j
  · subst hij
    simp [List.getElem?_eq_getElem hi]
  · simp [hij, Ne.symm hij]

theorem hotSet_cool : hotSet (cool i facts) = (hotSet facts).erase i := by
  ext j
  rw [Finset.mem_erase, mem_hotSet, mem_hotSet, cool, List.getElem?_modify]
  by_cases hij : i = j
  · subst hij
    simp
  · simp [hij, Ne.symm hij]

theorem modify_resting {update : MemoryFact → MemoryFact}
    (h : ∀ f, resting (update f) = resting f) (i : ℕ) (facts : List MemoryFact) :
    (facts.modify i update).map resting = facts.map resting := by
  refine List.ext_getElem? fun j => ?_
  rw [List.getElem?_map, List.getElem?_map, List.getElem?_modify, Option.map_eq_map,
    Option.map_map]
  refine Option.map_congr fun f _ => ?_
  rw [Function.comp_apply]
  split_ifs
  · exact h f
  · rfl

theorem heat_resting (now i : ℕ) (facts : List MemoryFact) :
    (heat now i facts).map resting = facts.map resting := by
  unfold heat
  refine modify_resting (fun f => ?_) i facts
  rfl

theorem cool_resting (i : ℕ) (facts : List MemoryFact) :
    (cool i facts).map resting = facts.map resting := by
  unfold cool
  refine modify_resting (fun f => ?_) i facts
  rfl

theorem getElem?_resting (h : facts'.map resting = facts.map resting)
    (hf : facts'[i]? = some f) : ∃ g, facts[i]? = some g ∧ resting f = resting g := by
  have hget := congrArg (fun l => l[i]?) h
  simp only [List.getElem?_map, hf, Option.map_some] at hget
  obtain ⟨g, hg, hsame⟩ := Option.map_eq_some_iff.mp hget.symm
  exact ⟨g, hg, hsame.symm⟩

theorem lastSeenAt_resting (h : facts'.map resting = facts.map resting) :
    lastSeenAt facts' = lastSeenAt facts := by
  have hread : ∀ l : List MemoryFact, lastSeenAt l = lastSeenAt (l.map resting) := by
    intro l
    funext i
    unfold lastSeenAt
    rw [List.getElem?_map, Option.map_map]
    rfl
  rw [hread facts', h, ← hread facts]

theorem lastSeenAt_of_getElem? (h : facts[i]? = some f) : lastSeenAt facts i = f.lastSeenMs := by
  simp [lastSeenAt, h]

/-! ## The fact to evict -/

theorem colder_eq (a b : MemoryFact × ℕ) : colder a b = a ∨ colder a b = b := by
  unfold colder
  split_ifs
  · exact .inr rfl
  · exact .inl rfl

theorem colder_le (a b : MemoryFact × ℕ) : (colder a b).1.lastSeenMs ≤ a.1.lastSeenMs ∧
    (colder a b).1.lastSeenMs ≤ b.1.lastSeenMs := by
  unfold colder
  split_ifs with h
  · omega
  · omega

theorem foldl_colder (rest : List (MemoryFact × ℕ)) (first : MemoryFact × ℕ) :
    rest.foldl colder first ∈ first :: rest ∧
      ∀ p ∈ first :: rest, (rest.foldl colder first).1.lastSeenMs ≤ p.1.lastSeenMs := by
  induction rest generalizing first with
  | nil => simp
  | cons next rest ih =>
      obtain ⟨hmem, hle⟩ := ih (colder first next)
      have hhead := hle _ List.mem_cons_self
      obtain ⟨hfirst, hnext⟩ := colder_le first next
      rw [List.foldl_cons]
      refine ⟨?_, fun p hp => ?_⟩
      · rcases List.mem_cons.mp hmem with heq | hmem
        · rw [heq]
          rcases colder_eq first next with h | h
          · rw [h]
            exact List.mem_cons_self
          · rw [h]
            exact List.mem_cons_of_mem _ List.mem_cons_self
        · exact List.mem_cons_of_mem _ (List.mem_cons_of_mem _ hmem)
      · rcases List.mem_cons.mp hp with rfl | hp
        · exact hhead.trans hfirst
        · rcases List.mem_cons.mp hp with rfl | hp
          · exact hhead.trans hnext
          · exact hle p (List.mem_cons_of_mem _ hp)

theorem mem_hotEntries {p : MemoryFact × ℕ} :
    p ∈ facts.zipIdx.filter (fun p => p.1.hotSinceMs.isSome) ↔
      facts[p.2]? = some p.1 ∧ p.1.hotSinceMs.isSome = true := by
  rw [List.mem_filter, List.mem_zipIdx_iff_getElem?]

theorem worstHot_none (h : worstHot facts = none) : hotSet facts = ∅ := by
  unfold worstHot at h
  split at h
  · rename_i hnone
    refine Finset.eq_empty_of_forall_notMem fun i hi => ?_
    obtain ⟨f, hf, hhot⟩ := mem_hotSet.mp hi
    have hmem : (f, i) ∈ facts.zipIdx.filter fun p => p.1.hotSinceMs.isSome :=
      mem_hotEntries.mpr ⟨hf, hhot⟩
    rw [hnone] at hmem
    cases hmem
  · cases h

theorem worstHot_some (h : worstHot facts = some j) :
    j ∈ hotSet facts ∧ ∀ s ∈ hotSet facts, lastSeenAt facts j ≤ lastSeenAt facts s := by
  unfold worstHot at h
  split at h
  · cases h
  · rename_i first rest hentries
    obtain rfl := Option.some.inj h
    obtain ⟨hmem, hle⟩ := foldl_colder rest first
    rw [← hentries] at hmem hle
    obtain ⟨hget, hhot⟩ := mem_hotEntries.mp hmem
    refine ⟨mem_hotSet.mpr ⟨_, hget, hhot⟩, fun s hs => ?_⟩
    obtain ⟨g, hg, hghot⟩ := mem_hotSet.mp hs
    rw [lastSeenAt_of_getElem? hget, lastSeenAt_of_getElem? hg]
    exact hle (g, s) (mem_hotEntries.mpr ⟨hg, hghot⟩)

/-! ## The promotions -/

theorem promote_resting (now i : ℕ) (facts : List MemoryFact) :
    (promote now facts i).1.map resting = facts.map resting := by
  unfold promote
  split_ifs
  · split
    · split_ifs
      · rfl
      · exact (heat_resting now i _).trans (cool_resting _ facts)
    · exact heat_resting now i facts
  · exact heat_resting now i facts

/-- One promotion is one step of the selection. -/
theorem promote_keeps {pool : Finset ℕ} (hi : i < facts.length) (hnew : i ∉ pool)
    (h : Keeps hotCapacity (lastSeenAt facts) pool (hotSet facts)) :
    Keeps hotCapacity (lastSeenAt facts) (insert i pool) (hotSet (promote now facts i).1) := by
  have hcount := card_hotSet facts
  unfold promote
  split_ifs with hfull
  · have hcard : (hotSet facts).card = hotCapacity := le_antisymm h.card_le (hcount ▸ hfull)
    cases hworst : worstHot facts with
    | none =>
        rw [worstHot_none hworst] at hcard
        cases hcard
    | some worst =>
        obtain ⟨hmem, hle⟩ := worstHot_some hworst
        simp only
        split_ifs with hbetter
        · exact h.refuse hcard fun s hs => hbetter.trans (hle s hs)
        · have hlength : i < (cool worst facts).length := by simpa [cool] using hi
          rw [hotSet_heat hlength, hotSet_cool]
          exact h.replace hcard hmem hle (Nat.lt_of_not_le hbetter) hnew
  · rw [hotSet_heat hi]
    exact h.take (by omega)

theorem promoteAll_resting (now : ℕ) (indices : List ℕ) (start : List MemoryFact × Bool) :
    (promoteAll now indices start).1.map resting = start.1.map resting := by
  induction indices generalizing start with
  | nil => rfl
  | cons i indices ih =>
      exact (ih ((promote now start.1 i).1, start.2 || (promote now start.1 i).2)).trans
        (promote_resting now i start.1)

theorem promoteAll_keeps {pool : Finset ℕ} {indices : List ℕ} {start : List MemoryFact × Bool}
    (hnodup : indices.Nodup) (hindices : ∀ i ∈ indices, i < start.1.length ∧ i ∉ pool)
    (h : Keeps hotCapacity (lastSeenAt start.1) pool (hotSet start.1)) :
    Keeps hotCapacity (lastSeenAt start.1) (indices.toFinset ∪ pool)
      (hotSet (promoteAll now indices start).1) := by
  induction indices generalizing start pool with
  | nil => simpa [promoteAll] using h
  | cons i indices ih =>
      obtain ⟨hi, hnodup⟩ := List.nodup_cons.mp hnodup
      obtain ⟨hlength, hnew⟩ := hindices i List.mem_cons_self
      have hresting := promote_resting now i start.1
      have hseen := lastSeenAt_resting hresting
      have hsame : (promote now start.1 i).1.length = start.1.length := by
        simpa using congrArg List.length hresting
      have hnext : Keeps hotCapacity (lastSeenAt (promote now start.1 i).1) (insert i pool)
          (hotSet (promote now start.1 i).1) := by
        rw [hseen]
        exact promote_keeps hlength hnew h
      have hothers : ∀ j ∈ indices, j < (promote now start.1 i).1.length ∧ j ∉ insert i pool := by
        intro j hj
        obtain ⟨hlt, hnot⟩ := hindices j (List.mem_cons_of_mem _ hj)
        refine ⟨hsame.symm ▸ hlt, fun hmem => ?_⟩
        rcases Finset.mem_insert.mp hmem with rfl | hmem
        · exact hi hj
        · exact hnot hmem
      let next : List MemoryFact × Bool :=
        ((promote now start.1 i).1, start.2 || (promote now start.1 i).2)
      have hrest : Keeps hotCapacity (lastSeenAt next.1) (indices.toFinset ∪ insert i pool)
          (hotSet (promoteAll now indices next).1) := ih hnodup hothers hnext
      rw [hseen] at hrest
      rw [List.toFinset_cons, Finset.insert_union, ← Finset.union_insert]
      exact hrest

/-! ## One pass -/

theorem mem_candidates : i ∈ candidates now facts ↔
    ∃ f, facts[i]? = some f ∧ isCandidate now f = true := by
  unfold candidates
  rw [List.mem_map]
  constructor
  · rintro ⟨⟨f, k⟩, hmem, rfl⟩
    obtain ⟨hentry, hcandidate⟩ := List.mem_filter.mp hmem
    exact ⟨f, List.mem_zipIdx_iff_getElem?.mp hentry, hcandidate⟩
  · rintro ⟨f, hf, hcandidate⟩
    exact ⟨(f, i), List.mem_filter.mpr ⟨List.mem_zipIdx_iff_getElem?.mpr hf, hcandidate⟩, rfl⟩

theorem candidates_nodup (now : ℕ) (facts : List MemoryFact) : (candidates now facts).Nodup := by
  have hindices : (facts.zipIdx.map Prod.snd).Nodup := by
    rw [List.zipIdx_map_snd]
    exact List.nodup_range'
  exact hindices.sublist (List.filter_sublist.map Prod.snd)

theorem isHot_of_refreshed (h : (refreshed now f).hotSinceMs.isSome = true) :
    f.hotSinceMs.isSome = true ∧ isIdle now f = false := by
  unfold refreshed at h
  split_ifs at h with hidle
  · cases h
  · exact ⟨h, Bool.not_eq_true _ ▸ hidle⟩

theorem hotCount_refreshed (now : ℕ) (facts : List MemoryFact) :
    hotCount (facts.map (refreshed now)) ≤ hotCount facts := by
  unfold hotCount
  rw [List.countP_map]
  exact List.countP_mono_left fun f _ h => (isHot_of_refreshed h).1

/-- A fact that is hot or may become so. -/
def isPooled (now : ℕ) (f : MemoryFact) : Bool := f.hotSinceMs.isSome || isCandidate now f

/-- A rebalance selects from the facts that are hot after the first phase or may become so. -/
theorem rebalance_selects {state : MemoryState} (hbound : hotCount state.facts ≤ hotCapacity)
    (now : ℕ) : let facts := state.facts.map (refreshed now)
    (rebalance now state).1.facts.map resting = facts.map resting ∧
      Keeps hotCapacity (lastSeenAt facts) (positions (isPooled now) facts)
        (hotSet (rebalance now state).1.facts) := by
  intro facts
  let start : List MemoryFact × Bool := (facts, state.facts.any (isRefreshing now))
  refine ⟨promoteAll_resting now _ start, ?_⟩
  have hstart : Keeps hotCapacity (lastSeenAt start.1) (hotSet facts) (hotSet start.1) := by
    refine .start ?_
    rw [card_hotSet]
    exact (hotCount_refreshed now state.facts).trans hbound
  have hpool : (candidates now facts).toFinset ∪ hotSet facts = positions (isPooled now) facts := by
    ext i
    rw [Finset.mem_union, List.mem_toFinset, mem_candidates, mem_hotSet, mem_positions]
    constructor
    · rintro (⟨f, hf, hcandidate⟩ | ⟨f, hf, hhot⟩)
      · exact ⟨f, hf, by rw [isPooled, hcandidate, Bool.or_true]⟩
      · exact ⟨f, hf, by rw [isPooled, hhot, Bool.true_or]⟩
    · rintro ⟨f, hf, hpooled⟩
      rcases Bool.or_eq_true_iff.mp hpooled with hhot | hcandidate
      · exact .inr ⟨f, hf, hhot⟩
      · exact .inl ⟨f, hf, hcandidate⟩
  rw [← hpool]
  refine promoteAll_keeps (candidates_nodup now facts) (fun i hi => ?_) hstart
  obtain ⟨f, hf, hcandidate⟩ := mem_candidates.mp hi
  refine ⟨(List.getElem?_eq_some_iff.mp hf).1, fun hmem => ?_⟩
  obtain ⟨g, hg, hhot⟩ := mem_hotSet.mp hmem
  obtain rfl := Option.some.inj (hf.symm.trans hg)
  simp [isCandidate, Option.isNone_iff_eq_none] at hcandidate
  simp [hcandidate.1] at hhot

theorem refreshed_known (now : ℕ) (f : MemoryFact) : known (refreshed now f) = known f := by
  unfold refreshed
  split_ifs <;> rfl

theorem cacheSince_of_resting (h : resting f = resting g) : f.cacheSinceMs = g.cacheSinceMs := by
  simp only [resting, MemoryFact.mk.injEq] at h
  exact h.2.2.2.2.2.2.1

theorem recentMentions_of_resting (h : resting f = resting g) :
    f.recentMentionsMs = g.recentMentionsMs := by
  simp only [resting, MemoryFact.mk.injEq] at h
  exact h.2.2.2.2.2.1

section

variable {state : MemoryState} (hbound : hotCount state.facts ≤ hotCapacity)
include hbound

theorem rebalance_known (now : ℕ) :
    (rebalance now state).1.facts.map known = state.facts.map known := by
  have hknown : known = known ∘ resting := rfl
  rw [hknown, ← List.map_map, (rebalance_selects hbound now).1, List.map_map, List.map_map]
  exact List.map_congr_left fun f _ => refreshed_known now f

theorem rebalance_cached
    (hcached : ∀ f ∈ state.facts, f.hotSinceMs.isSome = true → f.cacheSinceMs.isSome = true)
    (hf : f ∈ (rebalance now state).1.facts) (hhot : f.hotSinceMs.isSome = true) :
    f.cacheSinceMs.isSome = true := by
  obtain ⟨hresting, hkeeps⟩ := rebalance_selects hbound now
  obtain ⟨i, hi⟩ := List.getElem?_of_mem hf
  obtain ⟨g, hg, hpooled⟩ := mem_positions.mp (hkeeps.subset (mem_hotSet.mpr ⟨f, hi, hhot⟩))
  obtain ⟨g', hg', hsame⟩ := getElem?_resting hresting hi
  obtain rfl := Option.some.inj (hg.symm.trans hg')
  rw [cacheSince_of_resting hsame]
  rcases Bool.or_eq_true_iff.mp hpooled with hold | hcandidate
  · rw [List.getElem?_map] at hg
    obtain ⟨before, hbefore, rfl⟩ := Option.map_eq_some_iff.mp hg
    obtain ⟨hwas, hidle⟩ := isHot_of_refreshed hold
    unfold refreshed
    rw [if_neg (by simp [hidle])]
    exact hcached before (List.mem_of_getElem? hbefore) hwas
  · unfold isCandidate at hcandidate
    obtain ⟨since, hsince, -⟩ :=
      (Option.any_eq_true _ _).mp (Bool.and_eq_true_iff.mp hcandidate).2
    rw [hsince]
    rfl

/-- What is left cached for a day is no newer than what is hot, and that fills the memory. -/
theorem rebalance_latest (hf : f ∈ (rebalance now state).1.facts)
    (hleft : isCandidate now f = true) :
    hotCount (rebalance now state).1.facts = hotCapacity ∧
      ∀ g ∈ (rebalance now state).1.facts, g.hotSinceMs.isSome = true →
        f.lastSeenMs ≤ g.lastSeenMs := by
  obtain ⟨hresting, hkeeps⟩ := rebalance_selects hbound now
  obtain ⟨i, hi⟩ := List.getElem?_of_mem hf
  obtain ⟨g, hg, hsame⟩ := getElem?_resting hresting hi
  obtain ⟨hnot, hdwelt⟩ := Bool.and_eq_true_iff.mp hleft
  rw [cacheSince_of_resting hsame] at hdwelt
  have hpooled : isPooled now g = true := by
    unfold isPooled isCandidate
    cases hheat : g.hotSinceMs with
    | some _ => rfl
    | none => simp [hdwelt]
  have hout : i ∉ hotSet (rebalance now state).1.facts := by
    intro hmem
    obtain ⟨f', hf', hhot⟩ := mem_hotSet.mp hmem
    obtain rfl := Option.some.inj (hi.symm.trans hf')
    rw [Option.isNone_iff_eq_none.mp hnot] at hhot
    cases hhot
  obtain ⟨hfull, hlatest⟩ := hkeeps.rest i (mem_positions.mpr ⟨g, hg, hpooled⟩) hout
  refine ⟨by rw [← card_hotSet]; exact hfull, fun other hother hhot => ?_⟩
  obtain ⟨s, hs⟩ := List.getElem?_of_mem hother
  have hle := hlatest s (mem_hotSet.mpr ⟨other, hs, hhot⟩)
  rw [← lastSeenAt_resting hresting, lastSeenAt_of_getElem? hi, lastSeenAt_of_getElem? hs] at hle
  exact hle

end

end

/-- A rebalance keeps the bound and the facts, and of the facts that may be hot it leaves those
seen most recently. -/
theorem rebalance_keeps_latest {state : MemoryState} {now : ℕ}
    (hbound : hotCount state.facts ≤ hotCapacity)
    (hcached : ∀ f ∈ state.facts, f.hotSinceMs.isSome = true → f.cacheSinceMs.isSome = true) :
    let after := (rebalance now state).1
    hotCount after.facts ≤ hotCapacity ∧
      (∀ f ∈ after.facts, f.hotSinceMs.isSome = true → f.cacheSinceMs.isSome = true) ∧
      after.facts.map known = state.facts.map known ∧
      ∀ f ∈ after.facts, f.hotSinceMs = none →
        (∃ since, f.cacheSinceMs = some since ∧ cacheDwellMs ≤ now - since) →
        hotCount after.facts = hotCapacity ∧
          ∀ g ∈ after.facts, g.hotSinceMs.isSome = true → f.lastSeenMs ≤ g.lastSeenMs := by
  intro after
  refine ⟨?_, fun f => rebalance_cached hbound hcached, rebalance_known hbound now,
    fun f hf hnot hdwelt => ?_⟩
  · rw [← card_hotSet]
    exact (rebalance_selects hbound now).2.card_le
  · obtain ⟨since, hsince, hlong⟩ := hdwelt
    exact rebalance_latest hbound hf (by simp [isCandidate, hnot, hsince, hlong])

/-- Thirty-two hot facts, the first of them seen longest ago, and one that may become hot. -/
def warmFact (i : ℕ) : MemoryFact where
  key := "fact " ++ i.repr
  text := "text"
  sourceMessageIds := [3 * i + 1, 3 * i + 2, 3 * i + 3]
  firstSeenMs := i
  lastSeenMs := cacheDwellMs + i
  recentMentionsMs := []
  cacheSinceMs := some i
  hotSinceMs := if i < 32 then some cacheDwellMs else none

def warmState : MemoryState := ⟨true, (List.range 33).map warmFact, ∅, 0⟩

def warmNow : ℕ := 2 * cacheDwellMs + 32

/-- The first fact is evicted, and everything hot has been seen after it. -/
theorem rebalance_keeps_latest_warm :
    hotCount (rebalance warmNow warmState).1.facts = hotCapacity ∧
      ∀ g ∈ (rebalance warmNow warmState).1.facts, g.hotSinceMs.isSome = true →
        cacheDwellMs ≤ g.lastSeenMs := by
  have hbound : hotCount warmState.facts ≤ hotCapacity := by decide +kernel
  have hcached : ∀ f ∈ warmState.facts,
      f.hotSinceMs.isSome = true → f.cacheSinceMs.isSome = true := by
    intro f hf _
    obtain ⟨i, -, rfl⟩ := List.mem_map.mp hf
    rfl
  have hevicted : {warmFact 0 with hotSinceMs := none} ∈ (rebalance warmNow warmState).1.facts := by
    decide +kernel
  exact (rebalance_keeps_latest hbound hcached).2.2.2 _ hevicted rfl ⟨0, rfl, by decide⟩

/-! ## A second pass -/

section

variable {now : ℕ} {f : MemoryFact}

theorem recent_recent (now : ℕ) (times : List ℕ) :
    recent now (recent now times) = recent now times := by
  unfold recent
  rw [List.filter_filter]
  simp

theorem recentMentions_refreshed (now : ℕ) (f : MemoryFact) :
    (refreshed now f).recentMentionsMs = recent now f.recentMentionsMs := by
  unfold refreshed
  split_ifs <;> rfl

/-- The first phase has nothing to do for a fact with recent mentions only that is not idle. -/
theorem refreshed_eq (hrecent : recent now f.recentMentionsMs = f.recentMentionsMs)
    (hidle : isIdle now f = false) : refreshed now f = f ∧ isRefreshing now f = false := by
  refine ⟨?_, by simp [isRefreshing, hrecent, hidle]⟩
  unfold refreshed
  rw [if_neg (by simp [hidle])]
  simp only [hrecent]

/-- A candidate that is no newer than anything hot is passed over. -/
theorem promote_stays {facts : List MemoryFact} {i : ℕ} (hfull : hotCount facts = hotCapacity)
    (hi : facts[i]? = some f)
    (hlatest : ∀ g ∈ facts, g.hotSinceMs.isSome = true → f.lastSeenMs ≤ g.lastSeenMs) :
    promote now facts i = (facts, false) := by
  unfold promote
  rw [if_pos hfull.ge]
  cases hworst : worstHot facts with
  | none =>
      have hcard := card_hotSet facts
      rw [worstHot_none hworst, hfull] at hcard
      cases hcard
  | some worst =>
      obtain ⟨g, hg, hhot⟩ := mem_hotSet.mp (worstHot_some hworst).1
      have hle := hlatest g (List.mem_of_getElem? hg) hhot
      simp only
      rw [if_pos (by rw [lastSeenAt_of_getElem? hi, lastSeenAt_of_getElem? hg]; exact hle)]

theorem promoteAll_stays {facts : List MemoryFact} {indices : List ℕ}
    (h : ∀ i ∈ indices, promote now facts i = (facts, false)) :
    promoteAll now indices (facts, false) = (facts, false) := by
  induction indices with
  | nil => rfl
  | cons i indices ih =>
      have hstep : promoteAll now (i :: indices) (facts, false) =
          promoteAll now indices ((promote now facts i).1, false || (promote now facts i).2) := rfl
      rw [hstep, h i List.mem_cons_self]
      exact ih fun j hj => h j (List.mem_cons_of_mem _ hj)

/-- When nothing hot is idle, a second pass changes nothing. -/
theorem rebalance_again {state : MemoryState} (hbound : hotCount state.facts ≤ hotCapacity)
    (hidle : ∀ f ∈ (rebalance now state).1.facts, isIdle now f = false) :
    rebalance now (rebalance now state).1 = ((rebalance now state).1, false) := by
  have hresting := (rebalance_selects hbound now).1
  have hrecent : ∀ f ∈ (rebalance now state).1.facts,
      recent now f.recentMentionsMs = f.recentMentionsMs := by
    intro f hf
    obtain ⟨i, hi⟩ := List.getElem?_of_mem hf
    obtain ⟨g, hg, hsame⟩ := getElem?_resting hresting hi
    rw [List.getElem?_map] at hg
    obtain ⟨before, -, rfl⟩ := Option.map_eq_some_iff.mp hg
    rw [recentMentions_of_resting hsame, recentMentions_refreshed, recent_recent]
  generalize hafter : (rebalance now state).1 = after at hidle hrecent ⊢
  have hfacts : after.facts.map (refreshed now) = after.facts :=
    (List.map_congr_left fun f hf => (refreshed_eq (hrecent f hf) (hidle f hf)).1).trans
      (List.map_id _)
  have hquiet : after.facts.any (isRefreshing now) = false := by
    rw [List.any_eq_false]
    exact fun f hf => by simp [(refreshed_eq (hrecent f hf) (hidle f hf)).2]
  have hout : promoteAll now (candidates now after.facts) (after.facts, false) =
      (after.facts, false) := by
    refine promoteAll_stays fun i hi => ?_
    obtain ⟨f, hf, hcandidate⟩ := mem_candidates.mp hi
    rw [← hafter] at hf ⊢
    obtain ⟨hfull, hlatest⟩ := rebalance_latest hbound (List.mem_of_getElem? hf) hcandidate
    exact promote_stays hfull hf hlatest
  unfold rebalance
  simp only [hfacts, hquiet, hout]
  rfl

/-- Cached for a day, not hot, and not seen for a week. -/
def isStale (now : ℕ) (f : MemoryFact) : Bool :=
  isCandidate now f && decide (hotIdleMs ≤ now - f.lastSeenMs)

/-- Hot or cached for a day, and seen within the week. -/
def isFresh (now : ℕ) (f : MemoryFact) : Bool :=
  isPooled now f && decide (now - f.lastSeenMs < hotIdleMs)

theorem isHot_refreshed (h : isIdle now f = false) : refreshed now f =
    {f with recentMentionsMs := recent now f.recentMentionsMs} := by
  unfold refreshed
  rw [if_neg (by simp [h])]

theorem isPooled_retired (h : isIdle now f = true) : isPooled now (refreshed now f) = false := by
  unfold refreshed
  rw [if_pos h]
  rfl

/-- Of what the second phase selects from, a fact is unseen for a week when it was a stale
candidate. -/
theorem isStale_iff : (isPooled now (refreshed now f) = true ∧
    hotIdleMs ≤ now - (refreshed now f).lastSeenMs) ↔ isStale now f = true := by
  cases hidle : isIdle now f with
  | true =>
      obtain ⟨since, hsince⟩ :=
        Option.isSome_iff_exists.mp (Bool.and_eq_true_iff.mp hidle).1
      rw [isPooled_retired hidle]
      simp [isStale, isCandidate, hsince]
  | false =>
      rw [isHot_refreshed hidle]
      unfold isIdle at hidle
      cases hheat : f.hotSinceMs with
      | none => simp [isStale, isPooled, isCandidate, hheat]
      | some since =>
          simp only [hheat, Option.isSome_some, Bool.true_and, decide_eq_false_iff_not] at hidle
          simp [isStale, isPooled, isCandidate, hheat, hidle]

theorem isFresh_iff : (isPooled now (refreshed now f) = true ∧
    ¬hotIdleMs ≤ now - (refreshed now f).lastSeenMs) ↔ isFresh now f = true := by
  cases hidle : isIdle now f with
  | true =>
      obtain ⟨-, hlong⟩ := Bool.and_eq_true_iff.mp hidle
      rw [isPooled_retired hidle]
      simp only [decide_eq_true_eq] at hlong
      simp [isFresh, hlong]
  | false =>
      rw [isHot_refreshed hidle]
      simp [isFresh, isPooled, isCandidate]

/-! ### Positions and the facts there -/

theorem exists_position {p : MemoryFact → Bool} {facts : List MemoryFact} {q : ℕ → Prop} :
    (∃ i ∈ positions p facts, q (lastSeenAt facts i)) ↔
      ∃ f ∈ facts, p f = true ∧ q f.lastSeenMs := by
  constructor
  · rintro ⟨i, hi, hq⟩
    obtain ⟨f, hf, hp⟩ := mem_positions.mp hi
    rw [lastSeenAt_of_getElem? hf] at hq
    exact ⟨f, List.mem_of_getElem? hf, hp, hq⟩
  · rintro ⟨f, hf, hp, hq⟩
    obtain ⟨i, hi⟩ := List.getElem?_of_mem hf
    refine ⟨i, mem_positions.mpr ⟨f, hi, hp⟩, ?_⟩
    rw [lastSeenAt_of_getElem? hi]
    exact hq

theorem card_filter_positions (p : MemoryFact → Bool) (facts : List MemoryFact) (q : ℕ → Prop)
    [DecidablePred q] : ((positions p facts).filter fun i => q (lastSeenAt facts i)).card =
      facts.countP fun f => p f && decide (q f.lastSeenMs) := by
  rw [← card_positions]
  refine congrArg Finset.card (Finset.ext fun i => ?_)
  rw [Finset.mem_filter, mem_positions, mem_positions]
  constructor
  · rintro ⟨⟨f, hf, hp⟩, hq⟩
    rw [lastSeenAt_of_getElem? hf] at hq
    exact ⟨f, hf, by simp [hp, hq]⟩
  · rintro ⟨f, hf, hboth⟩
    obtain ⟨hp, hq⟩ := Bool.and_eq_true_iff.mp hboth
    rw [lastSeenAt_of_getElem? hf]
    exact ⟨⟨f, hf, hp⟩, of_decide_eq_true hq⟩

end

/-- A pass leaves an idle fact hot exactly when a stale fact may become hot and the fresh ones
leave room for it. -/
theorem exists_idle_iff {state : MemoryState} (hbound : hotCount state.facts ≤ hotCapacity)
    (now : ℕ) : (∃ f ∈ (rebalance now state).1.facts, isIdle now f = true) ↔
      (∃ f ∈ state.facts, isStale now f = true) ∧
        state.facts.countP (isFresh now) < hotCapacity := by
  obtain ⟨hresting, hkeeps⟩ := rebalance_selects hbound now
  let low : ℕ → Prop := fun time => hotIdleMs ≤ now - time
  have hselected : (∃ i ∈ hotSet (rebalance now state).1.facts,
      low (lastSeenAt (state.facts.map (refreshed now)) i)) ↔
        ∃ f ∈ (rebalance now state).1.facts, isIdle now f = true := by
    rw [← lastSeenAt_resting hresting]
    refine exists_position.trans (exists_congr fun f => and_congr_right fun _ => ?_)
    simp [isIdle, low]
  have hstale : (∃ i ∈ positions (isPooled now) (state.facts.map (refreshed now)),
      low (lastSeenAt (state.facts.map (refreshed now)) i)) ↔
        ∃ f ∈ state.facts, isStale now f = true := by
    rw [exists_position]
    simp only [List.mem_map, exists_exists_and_eq_and]
    exact exists_congr fun f => and_congr_right fun _ => isStale_iff
  have hfresh : ((positions (isPooled now) (state.facts.map (refreshed now))).filter fun i =>
      ¬low (lastSeenAt (state.facts.map (refreshed now)) i)).card =
        state.facts.countP (isFresh now) := by
    rw [card_filter_positions (isPooled now) _ fun time => ¬low time, List.countP_map]
    refine List.countP_congr fun f _ => ?_
    rw [← isFresh_iff]
    simp [low]
  rw [← hselected, ← hstale, ← hfresh]
  refine hkeeps.exists_low_iff fun p s hle hs => ?_
  exact hs.trans (Nat.sub_le_sub_left hle now)

/-- A pass settles exactly when no stale fact may become hot, or fresh ones fill the memory. -/
theorem rebalance_settles_iff {state : MemoryState} {now : ℕ}
    (hbound : hotCount state.facts ≤ hotCapacity) :
    let after := (rebalance now state).1
    ((∀ f ∈ after.facts, isIdle now f = false) ∧ rebalance now after = (after, false)) ↔
      (∀ f ∈ state.facts, isStale now f = false) ∨
        hotCapacity ≤ state.facts.countP (isFresh now) := by
  intro after
  have hidle := not_congr (exists_idle_iff hbound now)
  simp only [not_exists, not_and, Bool.not_eq_true, not_lt] at hidle
  rw [and_iff_left_of_imp (rebalance_again hbound), hidle]
  constructor
  · intro h
    by_cases hstale : ∃ f ∈ state.facts, isStale now f = true
    · exact .inr (h hstale)
    · exact .inl fun f hf => Bool.not_eq_true _ ▸ fun hf' => hstale ⟨f, hf, hf'⟩
  · rintro (hnone | hfull) ⟨f, hf, hstale⟩
    · rw [hnone f hf] at hstale
      cases hstale
    · exact hfull

/-- A fact that has been cached since its last mention, once a day and once eight days ago. -/
def cachedFact : MemoryFact :=
  ⟨"city", "lives in Lisbon", [1, 2, 3], 1, 3, [], some 3, none⟩

def cachedState : MemoryState := ⟨true, [cachedFact], ∅, 0⟩

def dayLater : ℕ := 3 + cacheDwellMs

def weekLater : ℕ := 3 + hotIdleMs + cacheDwellMs

theorem rebalance_settles_iff_day :
    rebalance dayLater (rebalance dayLater cachedState).1 =
      ((rebalance dayLater cachedState).1, false) :=
  ((rebalance_settles_iff (by decide)).mpr (.inl (by decide))).2

/-- After eight days the first pass makes the fact hot, and the second one retires it. -/
theorem rebalance_unsettled : ¬∀ (state : MemoryState) (now : ℕ),
    hotCount state.facts ≤ hotCapacity →
    (∀ f ∈ state.facts, f.hotSinceMs.isSome = true → f.cacheSinceMs.isSome = true) →
    (∀ f ∈ (rebalance now state).1.facts, isIdle now f = false) ∧
      rebalance now (rebalance now state).1 = ((rebalance now state).1, false) := by
  intro h
  have hidle := (h cachedState weekLater (by decide) (by decide)).1
  have hhot : isIdle weekLater {cachedFact with hotSinceMs := some weekLater} = true := by decide
  rw [hidle _ (by decide)] at hhot
  cases hhot

end NormaHarness.Memory
