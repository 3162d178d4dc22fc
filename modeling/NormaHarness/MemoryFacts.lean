import NormaHarness.MemorySaves

/-!
# Facts and their evidence

Every source of a fact is a mention: a user message that the extraction which made it a
source has cited for the fact's key, with the date it had there. The recent mentions are a
sublist of the dates of all mentions, so three of them are three different sources.
Rebalancing only trims facts, and recording only adds to them.
-/
namespace NormaHarness.Memory
open Std LlmProtocol FilePrograms

/-! ## Where evidence comes from -/

/-- The operation cites a message for a fact, and the message is a user message. -/
def MemoryOp.Attests (toLowercase : String → String) (key : String) (id date : ℕ) :
    MemoryOp → Prop
  | .apply _ _ now _ events extracted =>
      (∃ item ∈ extracted.facts,
        toLowercase (Text.trim item.key) = key ∧ id ∈ item.evidenceIds) ∧
      ∃ e ∈ events, e.id = id ∧ e.role = "user" ∧ datedAt now e = date
  | _ => False

/-- The message is a source of the fact with this key. -/
def Sourced (facts : List MemoryFact) (key : String) (id : ℕ) : Prop :=
  ∃ f ∈ facts, f.key = key ∧ id ∈ f.sourceMessageIds

/-- An operation of the run has made the message a source of the fact, and has cited it with
this date. -/
def Recorded (toLowercase : String → String) (m₀ : Manager) (ops : List MemoryOp) (key : String)
    (id date : ℕ) : Prop :=
  ∃ past op future m m', ops = past ++ op :: future ∧ MemoryRun toLowercase m₀ past m ∧
    MemoryStep toLowercase m op m' ∧ op.Attests toLowercase key id date ∧
    ¬Sourced m.state.facts key id ∧ Sourced m'.state.facts key id

/-- The clock reading of an extraction. -/
def MemoryOp.appliedAt : MemoryOp → Option ℕ
  | .apply _ _ now _ _ _ => some now
  | _ => none

/-- The events handed to an extraction have different identities. -/
def MemoryOp.DistinctEvents : MemoryOp → Prop
  | .apply _ _ _ _ events _ => (events.map LlmContextMessage.id).Nodup
  | _ => True

/-- Three different sources, recorded with dates no more than the window before now. -/
def Supported (source : ℕ → Prop) (recorded : ℕ → ℕ → Prop) (now : ℕ) : Prop :=
  ∃ ids : List ℕ, 3 ≤ ids.length ∧ ids.Nodup ∧
    ∀ id ∈ ids, source id ∧ ∃ date, recorded id date ∧ now - date ≤ frequentWindowMs

theorem Supported.mono {source source' : ℕ → Prop} {recorded recorded' : ℕ → ℕ → Prop} {now : ℕ}
    (h : Supported source recorded now) (hsource : ∀ id, source id → source' id)
    (hrecorded : ∀ id date, source id → recorded id date → recorded' id date) :
    Supported source' recorded' now := by
  obtain ⟨ids, hlength, hnodup, hids⟩ := h
  refine ⟨ids, hlength, hnodup, fun id hid => ?_⟩
  obtain ⟨hid, date, hdate, hwindow⟩ := hids id hid
  exact ⟨hsource id hid, date, hrecorded id date hid hdate, hwindow⟩

/-! ## One fact -/

/-- The sources of a fact are the messages of its mentions, and its recent mentions some of
their dates. -/
structure Evidenced (attested : ℕ → ℕ → Prop) (f : MemoryFact) : Prop where
  distinct : f.sourceMessageIds.Nodup
  mentions : ∃ mentions : List (ℕ × ℕ), mentions.map Prod.fst = f.sourceMessageIds ∧
    f.recentMentionsMs.Sublist (mentions.map Prod.snd) ∧ ∀ m ∈ mentions, attested m.1 m.2

theorem mentioned_source {f : MemoryFact} {mentions : List (ℕ × ℕ)}
    (hids : mentions.map Prod.fst = f.sourceMessageIds) {m : ℕ × ℕ} (hm : m ∈ mentions) :
    m.1 ∈ f.sourceMessageIds :=
  hids ▸ List.mem_map_of_mem hm

theorem Evidenced.mono {attested attested' : ℕ → ℕ → Prop} {f : MemoryFact}
    (h : Evidenced attested f)
    (himp : ∀ id ∈ f.sourceMessageIds, ∀ date, attested id date → attested' id date) :
    Evidenced attested' f := by
  obtain ⟨mentions, hids, hdates, hattested⟩ := h.mentions
  exact ⟨h.distinct, mentions, hids, hdates,
    fun m hm => himp _ (mentioned_source hids hm) _ (hattested m hm)⟩

/-- Dropping recent mentions keeps the evidence. -/
theorem Evidenced.trim {attested : ℕ → ℕ → Prop} {f f' : MemoryFact} (h : Evidenced attested f)
    (hsources : f'.sourceMessageIds = f.sourceMessageIds)
    (hrecent : f'.recentMentionsMs.Sublist f.recentMentionsMs) : Evidenced attested f' := by
  obtain ⟨mentions, hids, hdates, hattested⟩ := h.mentions
  refine ⟨by rw [hsources]; exact h.distinct, mentions, ?_, hrecent.trans hdates, hattested⟩
  rw [hids, hsources]

theorem Evidenced.length_le {attested : ℕ → ℕ → Prop} {f : MemoryFact}
    (h : Evidenced attested f) : f.recentMentionsMs.length ≤ f.sourceMessageIds.length := by
  obtain ⟨mentions, hids, hdates, -⟩ := h.mentions
  calc f.recentMentionsMs.length ≤ (mentions.map Prod.snd).length := hdates.length_le
    _ = (mentions.map Prod.fst).length := by simp
    _ = f.sourceMessageIds.length := by rw [hids]

/-- Recent mentions within the window come from as many different sources. -/
theorem Evidenced.supported {attested : ℕ → ℕ → Prop} {f : MemoryFact} {now : ℕ}
    (h : Evidenced attested f) (hlength : 3 ≤ f.recentMentionsMs.length)
    (hwindow : ∀ date ∈ f.recentMentionsMs, now - date ≤ frequentWindowMs) :
    Supported (· ∈ f.sourceMessageIds) attested now := by
  obtain ⟨mentions, hids, hdates, hattested⟩ := h.mentions
  obtain ⟨chosen, hchosen, hmap⟩ := List.sublist_map_iff.mp hdates
  have hdistinct : (chosen.map Prod.fst).Nodup := by
    refine List.Nodup.sublist (hchosen.map Prod.fst) ?_
    rw [hids]
    exact h.distinct
  refine ⟨chosen.map Prod.fst, ?_, hdistinct, fun id hid => ?_⟩
  · rw [hmap] at hlength
    simpa using hlength
  · obtain ⟨m, hm, rfl⟩ := List.mem_map.mp hid
    have hmention := hchosen.subset hm
    refine ⟨mentioned_source hids hmention, m.2, hattested m hmention, hwindow m.2 ?_⟩
    rw [hmap]
    exact List.mem_map_of_mem hm

theorem addSource_evidenced {attested : ℕ → ℕ → Prop} {f : MemoryFact} {now id : ℕ}
    {events : List LlmContextMessage} (h : Evidenced attested f)
    (hid : id ∉ f.sourceMessageIds → attested id (mentionedAt now events id)) :
    Evidenced attested (addSource now events f id) := by
  unfold addSource
  split
  · exact h
  · next hnew =>
    obtain ⟨mentions, hids, hdates, hattested⟩ := h.mentions
    refine ⟨?_, mentions ++ [(id, mentionedAt now events id)], ?_, ?_, fun m hm => ?_⟩
    · refine List.nodup_append.mpr ⟨h.distinct, List.nodup_singleton id, fun a ha b hb => ?_⟩
      rintro rfl
      obtain rfl := List.mem_singleton.mp hb
      exact hnew (by simpa using ha)
    · simp [hids]
    · simpa using hdates.append (List.Sublist.refl [mentionedAt now events id])
    · rcases List.mem_append.mp hm with hm | hm
      · exact hattested m hm
      · obtain rfl := List.mem_singleton.mp hm
        exact hid (by simpa using hnew)

theorem addSource_sources (now : ℕ) (events : List LlmContextMessage) (f : MemoryFact) (id : ℕ) :
    f.sourceMessageIds ⊆ (addSource now events f id).sourceMessageIds := by
  unfold addSource
  split
  · exact List.Subset.refl _
  · exact List.subset_append_left _ _

/-- Each message is attested that is not a source yet. -/
theorem addSources_evidenced {attested : ℕ → ℕ → Prop} {now : ℕ}
    {events : List LlmContextMessage} {evidence : List ℕ} {f : MemoryFact}
    (h : Evidenced attested f) (hids : ∀ id ∈ evidence, id ∉ f.sourceMessageIds →
      attested id (mentionedAt now events id)) :
    Evidenced attested (evidence.foldl (addSource now events) f) := by
  induction evidence generalizing f with
  | nil => exact h
  | cons id rest ih =>
      refine ih (addSource_evidenced h (hids id List.mem_cons_self)) fun id' hid' hnew => ?_
      exact hids id' (List.mem_cons_of_mem id hid')
        (mt (@addSource_sources now events f id id') hnew)

theorem addSources_sources (now : ℕ) (events : List LlmContextMessage) (evidence : List ℕ)
    (f : MemoryFact) :
    f.sourceMessageIds ⊆ (evidence.foldl (addSource now events) f).sourceMessageIds := by
  induction evidence generalizing f with
  | nil => exact List.Subset.refl _
  | cons id rest ih => exact List.Subset.trans (addSource_sources now events f id) (ih _)

@[simp] theorem addSource_key (now : ℕ) (events : List LlmContextMessage) (f : MemoryFact)
    (id : ℕ) : (addSource now events f id).key = f.key := by
  unfold addSource
  split <;> rfl

@[simp] theorem addSource_cacheSinceMs (now : ℕ) (events : List LlmContextMessage)
    (f : MemoryFact) (id : ℕ) : (addSource now events f id).cacheSinceMs = f.cacheSinceMs := by
  unfold addSource
  split <;> rfl

@[simp] theorem addSources_key (now : ℕ) (events : List LlmContextMessage) (evidence : List ℕ)
    (f : MemoryFact) : (evidence.foldl (addSource now events) f).key = f.key := by
  induction evidence generalizing f with
  | nil => rfl
  | cons id rest ih => rw [List.foldl_cons, ih, addSource_key]

@[simp] theorem addSources_cacheSinceMs (now : ℕ) (events : List LlmContextMessage)
    (evidence : List ℕ) (f : MemoryFact) :
    (evidence.foldl (addSource now events) f).cacheSinceMs = f.cacheSinceMs := by
  induction evidence generalizing f with
  | nil => rfl
  | cons id rest ih => rw [List.foldl_cons, ih, addSource_cacheSinceMs]

theorem mem_recent {now date : ℕ} {times : List ℕ} (h : date ∈ recent now times) :
    now - date ≤ frequentWindowMs := by
  simpa using (List.mem_filter.mp h).2

/-! ### Confirming a fact -/

@[simp] theorem confirmed_key (now : ℕ) (events : List LlmContextMessage) (found : Finding)
    (f : MemoryFact) : (confirmed now events found f).key = f.key := by
  simp only [confirmed]
  split <;> simp

theorem confirmed_recent (now : ℕ) (events : List LlmContextMessage) (found : Finding)
    (f : MemoryFact) {date : ℕ} (h : date ∈ (confirmed now events found f).recentMentionsMs) :
    now - date ≤ frequentWindowMs := by
  simp only [confirmed] at h
  split at h
  · exact mem_recent h
  · exact mem_recent h

theorem confirmed_sources (now : ℕ) (events : List LlmContextMessage) (found : Finding)
    (f : MemoryFact) :
    f.sourceMessageIds ⊆ (confirmed now events found f).sourceMessageIds := by
  have hadded := addSources_sources now events found.evidence {f with
    text := found.text
    firstSeenMs := min f.firstSeenMs (firstSeen now (mentionTimes now events found.evidence))
    lastSeenMs := max f.lastSeenMs (lastSeen now (mentionTimes now events found.evidence))}
  simp only [confirmed]
  split
  · exact hadded
  · exact hadded

theorem confirmed_evidenced {attested : ℕ → ℕ → Prop} {now : ℕ}
    {events : List LlmContextMessage} {found : Finding} {f : MemoryFact}
    (h : Evidenced attested f) (hids : ∀ id ∈ found.evidence, id ∉ f.sourceMessageIds →
      attested id (mentionedAt now events id)) :
    Evidenced attested (confirmed now events found f) := by
  have hstart : Evidenced attested {f with
      text := found.text
      firstSeenMs := min f.firstSeenMs (firstSeen now (mentionTimes now events found.evidence))
      lastSeenMs := max f.lastSeenMs (lastSeen now (mentionTimes now events found.evidence))} :=
    h.trim rfl (List.Sublist.refl _)
  have hadded := addSources_evidenced hstart hids
  simp only [confirmed]
  split
  · exact hadded.trim rfl List.filter_sublist
  · exact hadded.trim rfl List.filter_sublist

/-- A fact that becomes cached has three recent mentions. -/
theorem confirmed_cached {now : ℕ} {events : List LlmContextMessage} {found : Finding}
    {f : MemoryFact} (h : (confirmed now events found f).cacheSinceMs.isSome) :
    f.cacheSinceMs.isSome ∨ 3 ≤ (confirmed now events found f).recentMentionsMs.length := by
  simp only [confirmed] at h ⊢
  split at h
  · next hcond =>
    rw [if_pos hcond]
    simp only [Bool.and_eq_true, decide_eq_true_eq] at hcond
    exact .inr hcond.2
  · next hcond =>
    exact .inl (by simpa using h)

/-! ## All facts -/

structure Sound (attested : String → ℕ → ℕ → Prop) (facts : List MemoryFact) : Prop where
  distinct : (facts.map MemoryFact.key).Nodup
  keys : ∀ f ∈ facts, f.key ≠ "" ∧ f.key.utf8ByteSize ≤ 160
  evidenced : ∀ f ∈ facts, Evidenced (attested f.key) f

theorem Sound.mono {attested attested' : String → ℕ → ℕ → Prop} {facts : List MemoryFact}
    (h : Sound attested facts) (himp : ∀ key id date, Sourced facts key id →
      attested key id date → attested' key id date) :
    Sound attested' facts where
  distinct := h.distinct
  keys := h.keys
  evidenced f hf :=
    (h.evidenced f hf).mono fun id hid date => himp f.key id date ⟨f, hf, rfl, hid⟩

/-- Keys are distinct, so a source of the key is one of the fact. -/
theorem Sound.sourced {attested : String → ℕ → ℕ → Prop} {facts : List MemoryFact}
    (h : Sound attested facts) {f : MemoryFact} (hf : f ∈ facts) {id : ℕ}
    (hid : Sourced facts f.key id) : id ∈ f.sourceMessageIds := by
  obtain ⟨g, hg, hkey, hid⟩ := hid
  rwa [List.inj_on_of_nodup_map h.distinct hg hf hkey] at hid

/-- No fact is dropped and none loses a source, and a fact is cached only if it was or if its
key is supported. -/
structure Grows (appliedAt : Option ℕ) (attested : String → ℕ → ℕ → Prop)
    (facts facts' : List MemoryFact) : Prop where
  keys : facts.map MemoryFact.key <+: facts'.map MemoryFact.key
  sources : ∀ key id, Sourced facts key id → Sourced facts' key id
  cached : ∀ f' ∈ facts', f'.cacheSinceMs.isSome →
    (∃ f ∈ facts, f.key = f'.key ∧ f.cacheSinceMs.isSome) ∨
      ∃ now, appliedAt = some now ∧ Supported (Sourced facts' f'.key) (attested f'.key) now

section

variable {appliedAt : Option ℕ} {attested attested' : String → ℕ → ℕ → Prop}
  {facts₁ facts₂ facts₃ : List MemoryFact}

theorem Grows.refl (appliedAt : Option ℕ) (attested : String → ℕ → ℕ → Prop)
    (facts : List MemoryFact) : Grows appliedAt attested facts facts :=
  ⟨List.prefix_rfl, fun _ _ h => h, fun f hf hcached => .inl ⟨f, hf, rfl, hcached⟩⟩

theorem Grows.trans (h : Grows appliedAt attested facts₁ facts₂)
    (g : Grows appliedAt attested facts₂ facts₃) : Grows appliedAt attested facts₁ facts₃ where
  keys := h.keys.trans g.keys
  sources key id hid := g.sources key id (h.sources key id hid)
  cached f hf hcached := by
    rcases g.cached f hf hcached with ⟨f₂, hf₂, hkey, hcached₂⟩ | hsupported
    · rw [← hkey]
      refine (h.cached f₂ hf₂ hcached₂).imp_right ?_
      rintro ⟨now, happlied, hsupported⟩
      exact ⟨now, happlied, hsupported.mono (g.sources f₂.key) fun _ _ _ hdate => hdate⟩
    · exact .inr hsupported

theorem Grows.mono (h : Grows appliedAt attested facts₁ facts₂)
    (himp : ∀ key id date, Sourced facts₂ key id → attested key id date →
      attested' key id date) : Grows appliedAt attested' facts₁ facts₂ where
  keys := h.keys
  sources := h.sources
  cached f hf hcached := by
    refine (h.cached f hf hcached).imp_right ?_
    rintro ⟨now, happlied, hsupported⟩
    exact ⟨now, happlied, hsupported.mono (fun _ hid => hid) (himp f.key)⟩

end

/-! ### Rebalancing -/

/-- Only recent mentions are dropped, and only the cache and the heat may change. -/
structure Trims (f f' : MemoryFact) : Prop where
  key : f'.key = f.key
  sources : f'.sourceMessageIds = f.sourceMessageIds
  recent : f'.recentMentionsMs.Sublist f.recentMentionsMs
  cached : f'.cacheSinceMs.isSome → f.cacheSinceMs.isSome

theorem Trims.refl (f : MemoryFact) : Trims f f :=
  ⟨rfl, rfl, .refl _, id⟩

theorem Trims.trans {f₁ f₂ f₃ : MemoryFact} (h : Trims f₁ f₂) (g : Trims f₂ f₃) : Trims f₁ f₃ :=
  ⟨g.key.trans h.key, g.sources.trans h.sources, g.recent.trans h.recent,
    fun hcached => h.cached (g.cached hcached)⟩

theorem refreshed_trims (now : ℕ) (f : MemoryFact) : Trims f (refreshed now f) := by
  unfold refreshed
  split
  · exact ⟨rfl, rfl, List.filter_sublist, fun h => by cases h⟩
  · exact ⟨rfl, rfl, List.filter_sublist, id⟩

abbrev AllTrim := List.Forall₂ Trims

theorem AllTrim.refl (facts : List MemoryFact) : AllTrim facts facts := by
  induction facts with
  | nil => exact .nil
  | cons f rest ih => exact .cons (Trims.refl f) ih

theorem AllTrim.trans {facts₁ facts₂ facts₃ : List MemoryFact} (h : AllTrim facts₁ facts₂)
    (g : AllTrim facts₂ facts₃) : AllTrim facts₁ facts₃ := by
  induction h generalizing facts₃ with
  | nil => exact g
  | cons hf _ ih =>
      cases g with
      | cons gf grest => exact .cons (hf.trans gf) (ih grest)

theorem AllTrim.modify {update : MemoryFact → MemoryFact} (hupdate : ∀ f, Trims f (update f))
    (facts : List MemoryFact) (index : ℕ) : AllTrim facts (facts.modify index update) := by
  induction facts generalizing index with
  | nil => simp
  | cons f rest ih =>
      cases index with
      | zero => exact .cons (hupdate f) (AllTrim.refl rest)
      | succ index => exact .cons (Trims.refl f) (ih index)

theorem AllTrim.map {update : MemoryFact → MemoryFact} (hupdate : ∀ f, Trims f (update f))
    (facts : List MemoryFact) : AllTrim facts (facts.map update) := by
  induction facts with
  | nil => exact .nil
  | cons f rest ih => exact .cons (hupdate f) ih

theorem AllTrim.keys_eq {facts facts' : List MemoryFact} (h : AllTrim facts facts') :
    facts'.map MemoryFact.key = facts.map MemoryFact.key := by
  induction h with
  | nil => rfl
  | cons hf _ ih => rw [List.map_cons, List.map_cons, hf.key, ih]

theorem AllTrim.mem {facts facts' : List MemoryFact} (h : AllTrim facts facts')
    {f' : MemoryFact} (hf' : f' ∈ facts') : ∃ f ∈ facts, Trims f f' := by
  induction h with
  | nil => cases hf'
  | cons hf _ ih =>
      rcases List.mem_cons.mp hf' with rfl | hf'
      · exact ⟨_, List.mem_cons_self, hf⟩
      · obtain ⟨f, hmem, htrims⟩ := ih hf'
        exact ⟨f, List.mem_cons_of_mem _ hmem, htrims⟩

theorem AllTrim.sound {attested : String → ℕ → ℕ → Prop} {facts facts' : List MemoryFact}
    (h : AllTrim facts facts') (hsound : Sound attested facts) : Sound attested facts' where
  distinct := by
    rw [h.keys_eq]
    exact hsound.distinct
  keys f' hf' := by
    obtain ⟨f, hf, htrims⟩ := h.mem hf'
    rw [htrims.key]
    exact hsound.keys f hf
  evidenced f' hf' := by
    obtain ⟨f, hf, htrims⟩ := h.mem hf'
    rw [htrims.key]
    exact (hsound.evidenced f hf).trim htrims.sources htrims.recent

theorem AllTrim.sourced {facts facts' : List MemoryFact} (h : AllTrim facts facts') {key : String}
    {id : ℕ} (hid : Sourced facts key id) : Sourced facts' key id := by
  induction h with
  | nil => exact hid
  | @cons f f' rest rest' hf _ ih =>
      obtain ⟨g, hg, hkey, hid⟩ := hid
      rcases List.mem_cons.mp hg with rfl | hg
      · exact ⟨f', List.mem_cons_self, hf.key.trans hkey, hf.sources ▸ hid⟩
      · obtain ⟨g', hg', hfound⟩ := ih ⟨g, hg, hkey, hid⟩
        exact ⟨g', List.mem_cons_of_mem f' hg', hfound⟩

theorem AllTrim.grows {facts facts' : List MemoryFact} (h : AllTrim facts facts')
    (appliedAt : Option ℕ) (attested : String → ℕ → ℕ → Prop) :
    Grows appliedAt attested facts facts' where
  keys := by rw [h.keys_eq]
  sources _ _ := h.sourced
  cached f' hf' hcached := by
    obtain ⟨f, hf, htrims⟩ := h.mem hf'
    exact .inl ⟨f, hf, htrims.key.symm, htrims.cached hcached⟩

theorem heat_trim (now index : ℕ) (facts : List MemoryFact) :
    AllTrim facts (heat now index facts) := by
  unfold heat
  refine AllTrim.modify (fun f => ?_) facts index
  exact ⟨rfl, rfl, .refl _, id⟩

theorem cool_trim (index : ℕ) (facts : List MemoryFact) : AllTrim facts (cool index facts) := by
  unfold cool
  refine AllTrim.modify (fun f => ?_) facts index
  exact ⟨rfl, rfl, .refl _, id⟩

theorem promote_trim (now : ℕ) (facts : List MemoryFact) (index : ℕ) :
    AllTrim facts (promote now facts index).1 := by
  unfold promote
  split
  · split
    · split
      · exact AllTrim.refl facts
      · exact (cool_trim _ facts).trans (heat_trim now index _)
    · exact heat_trim now index facts
  · exact heat_trim now index facts

theorem promoteAll_trim (now : ℕ) (indices : List ℕ) (start : List MemoryFact × Bool) :
    AllTrim start.1 (promoteAll now indices start).1 := by
  induction indices generalizing start with
  | nil => exact AllTrim.refl start.1
  | cons index rest ih =>
      have hnext := ih ((promote now start.1 index).1, start.2 || (promote now start.1 index).2)
      exact (promote_trim now start.1 index).trans hnext

theorem rebalance_trim (now : ℕ) (state : MemoryState) :
    AllTrim state.facts (rebalance now state).1.facts := by
  have hrefreshed := AllTrim.map (refreshed_trims now) state.facts
  refine hrefreshed.trans (promoteAll_trim now _ (state.facts.map (refreshed now), _))

/-! ### Recording -/

theorem updateFirst_keys {p : MemoryFact → Bool} {update : MemoryFact → MemoryFact}
    (hkey : ∀ f, (update f).key = f.key) (facts : List MemoryFact) :
    (updateFirst p update facts).map MemoryFact.key = facts.map MemoryFact.key := by
  induction facts with
  | nil => rfl
  | cons f rest ih =>
      unfold updateFirst
      split
      · rw [List.map_cons, List.map_cons, hkey]
      · rw [List.map_cons, List.map_cons, ih]

theorem mem_updateFirst {p : MemoryFact → Bool} {update : MemoryFact → MemoryFact}
    {facts : List MemoryFact} {f' : MemoryFact} (h : f' ∈ updateFirst p update facts) :
    f' ∈ facts ∨ ∃ f ∈ facts, p f ∧ f' = update f := by
  induction facts with
  | nil => cases h
  | cons f rest ih =>
      unfold updateFirst at h
      split at h
      · next hp =>
        rcases List.mem_cons.mp h with rfl | h
        · exact .inr ⟨f, List.mem_cons_self, hp, rfl⟩
        · exact .inl (List.mem_cons_of_mem f h)
      · rcases List.mem_cons.mp h with rfl | h
        · exact .inl List.mem_cons_self
        · rcases ih h with h | ⟨g, hg, hp, heq⟩
          · exact .inl (List.mem_cons_of_mem f h)
          · exact .inr ⟨g, List.mem_cons_of_mem f hg, hp, heq⟩

theorem kept_updateFirst {p : MemoryFact → Bool} {update : MemoryFact → MemoryFact}
    {facts : List MemoryFact} {f : MemoryFact} (h : f ∈ facts) :
    f ∈ updateFirst p update facts ∨ update f ∈ updateFirst p update facts := by
  induction facts with
  | nil => cases h
  | cons g rest ih =>
      unfold updateFirst
      split
      · rcases List.mem_cons.mp h with rfl | h
        · exact .inr List.mem_cons_self
        · exact .inl (List.mem_cons_of_mem _ h)
      · rcases List.mem_cons.mp h with rfl | h
        · exact .inl List.mem_cons_self
        · exact (ih h).imp (List.mem_cons_of_mem g) (List.mem_cons_of_mem g)

/-- A finding with a proper key, whose evidence is attested for that key where it is new. -/
structure Cited (attested : String → ℕ → ℕ → Prop) (before : List MemoryFact) (now : ℕ)
    (events : List LlmContextMessage) (found : Finding) : Prop where
  nonempty : found.key ≠ ""
  short : found.key.utf8ByteSize ≤ 160
  attested : ∀ id ∈ found.evidence, ¬Sourced before found.key id →
    attested found.key id (mentionedAt now events id)

section

variable {attested : String → ℕ → ℕ → Prop} {now : ℕ} {events : List LlmContextMessage}
  {found : Finding} {facts : List MemoryFact}

theorem newFact_evidenced (times : List ℕ) :
    Evidenced (attested found.key) (newFact now times found) :=
  ⟨List.nodup_nil, [], rfl, .refl _, fun _ h => by cases h⟩

/-- The fact that a finding confirms: the one with its key, or a new one. -/
structure Confirms (attested : String → ℕ → ℕ → Prop) (facts : List MemoryFact) (key : String)
    (f : MemoryFact) : Prop where
  named : f.key = key
  evidenced : Evidenced (attested key) f
  fresh : ∀ id ∉ f.sourceMessageIds, ¬Sourced facts key id
  cached : f ∈ facts ∨ f.cacheSinceMs = none

/-- Every fact after recording was there, or confirms a fact that is evidenced. -/
theorem mem_record (hsound : Sound attested facts) {f' : MemoryFact}
    (hf' : f' ∈ record now events facts found) :
    f' ∈ facts ∨ ∃ f, f' = confirmed now events found f ∧ Confirms attested facts found.key f := by
  unfold record at hf'
  split at hf'
  · rcases mem_updateFirst hf' with h | ⟨f, hf, hkey, rfl⟩
    · exact .inl h
    · have hkey : f.key = found.key := by simpa using hkey
      refine .inr ⟨f, rfl, hkey, hkey ▸ hsound.evidenced f hf, fun id hid hsourced => ?_, .inl hf⟩
      exact hid (hsound.sourced hf (hkey ▸ hsourced))
  · next hnone =>
    rcases List.mem_append.mp hf' with h | h
    · exact .inl h
    · refine .inr ⟨_, List.mem_singleton.mp h, rfl, newFact_evidenced _, ?_, .inr rfl⟩
      rintro id - ⟨f, hf, hkey, -⟩
      exact hnone (List.any_eq_true.mpr ⟨f, hf, by simpa using hkey⟩)

theorem record_keys : (record now events facts found).map MemoryFact.key =
    if found.key ∈ facts.map MemoryFact.key then facts.map MemoryFact.key
    else facts.map MemoryFact.key ++ [found.key] := by
  unfold record
  have hiff : (facts.any fun f => f.key == found.key) = true ↔
      found.key ∈ facts.map MemoryFact.key := by
    simp [List.any_eq_true, List.mem_map]
  split
  · next hany =>
    rw [if_pos (hiff.mp hany), updateFirst_keys (confirmed_key now events found)]
  · next hany =>
    rw [if_neg (fun h => hany (hiff.mpr h)), List.map_append, List.map_singleton, confirmed_key]
    rfl

theorem record_sources {key : String} {id : ℕ} (h : Sourced facts key id) :
    Sourced (record now events facts found) key id := by
  obtain ⟨f, hf, hkey, hid⟩ := h
  unfold record
  split
  · rcases kept_updateFirst hf with hkept | hupdated
    · exact ⟨f, hkept, hkey, hid⟩
    · exact ⟨_, hupdated, (confirmed_key now events found f).trans hkey,
        confirmed_sources now events found f hid⟩
  · exact ⟨f, List.mem_append_left _ hf, hkey, hid⟩

theorem Confirms.evidenced_confirmed {f : MemoryFact} {before : List MemoryFact}
    (h : Confirms attested facts found.key f) (hcited : Cited attested before now events found)
    (hbefore : ∀ key id, Sourced before key id → Sourced facts key id) :
    Evidenced (attested found.key) (confirmed now events found f) :=
  confirmed_evidenced h.evidenced fun id hid hnew =>
    hcited.attested id hid (mt (hbefore found.key id) (h.fresh id hnew))

theorem record_sound {before : List MemoryFact} (hsound : Sound attested facts)
    (hcited : Cited attested before now events found)
    (hbefore : ∀ key id, Sourced before key id → Sourced facts key id) :
    Sound attested (record now events facts found) where
  distinct := by
    rw [record_keys]
    split
    · exact hsound.distinct
    · next hnew =>
      refine List.nodup_append.mpr ⟨hsound.distinct, List.nodup_singleton _, fun a ha b hb => ?_⟩
      rintro rfl
      obtain rfl := List.mem_singleton.mp hb
      exact hnew ha
  keys f' hf' := by
    rcases mem_record hsound hf' with h | ⟨f, rfl, hconfirms⟩
    · exact hsound.keys f' h
    · rw [confirmed_key, hconfirms.named]
      exact ⟨hcited.nonempty, hcited.short⟩
  evidenced f' hf' := by
    rcases mem_record hsound hf' with h | ⟨f, rfl, hconfirms⟩
    · exact hsound.evidenced f' h
    · rw [confirmed_key, hconfirms.named]
      exact hconfirms.evidenced_confirmed hcited hbefore

/-- A fact is newly cached only on the support of three recent mentions. -/
theorem record_grows {before : List MemoryFact} (hsound : Sound attested facts)
    (hcited : Cited attested before now events found)
    (hbefore : ∀ key id, Sourced before key id → Sourced facts key id) :
    Grows (some now) attested facts (record now events facts found) where
  keys := by
    rw [record_keys]
    split
    · exact List.prefix_rfl
    · exact List.prefix_append _ _
  sources _ _ := record_sources
  cached f' hf' hcached := by
    rcases mem_record hsound hf' with h | ⟨f, rfl, hconfirms⟩
    · exact .inl ⟨f', h, rfl, hcached⟩
    · rcases confirmed_cached hcached with hwas | hthree
      · rcases hconfirms.cached with hf | hnone
        · exact .inl ⟨f, hf, by rw [confirmed_key], hwas⟩
        · rw [hnone] at hwas
          cases hwas
      · have hevidenced := hconfirms.evidenced_confirmed hcited hbefore
        have hsupported := hevidenced.supported hthree fun _ => confirmed_recent now events found f
        refine .inr ⟨now, rfl, ?_⟩
        rw [confirmed_key, hconfirms.named]
        exact hsupported.mono (fun id hid => ⟨_, hf', by rw [confirmed_key, hconfirms.named], hid⟩)
          fun _ _ _ hdate => hdate

theorem records_sound {found : List Finding} {before : List MemoryFact}
    (hsound : Sound attested facts) (hcited : ∀ f ∈ found, Cited attested before now events f)
    (hbefore : ∀ key id, Sourced before key id → Sourced facts key id) :
    Sound attested (found.foldl (record now events) facts) ∧
      Grows (some now) attested facts (found.foldl (record now events) facts) := by
  induction found generalizing facts with
  | nil => exact ⟨hsound, Grows.refl _ _ facts⟩
  | cons f rest ih =>
      have hf := hcited f List.mem_cons_self
      have hgrows := record_grows hsound hf hbefore
      obtain ⟨hrest, hgrowsRest⟩ := ih (record_sound hsound hf hbefore)
        (fun g hg => hcited g (List.mem_cons_of_mem f hg))
        fun key id hid => hgrows.sources key id (hbefore key id hid)
      exact ⟨hrest, hgrows.trans hgrowsRest⟩

end

/-! ### Findings -/

theorem finding_spec {toLowercase : String → String} {order : List ℕ → List ℕ}
    {accepts : ℕ → Bool} {item : ExtractedFact} {found : Finding}
    (horder : ∀ l, (order l).Perm l)
    (h : finding toLowercase order accepts item = some found) :
    found.key = toLowercase (Text.trim item.key) ∧ found.key ≠ "" ∧
      found.key.utf8ByteSize ≤ 160 ∧
      ∀ id ∈ found.evidence, id ∈ item.evidenceIds ∧ accepts id = true := by
  simp only [finding] at h
  split at h
  · cases h
  · next hchecks =>
    simp only [Bool.or_eq_true, decide_eq_true_eq, not_or, Nat.not_lt] at hchecks
    split at h
    · cases h
    · cases h
      refine ⟨rfl, ?_, hchecks.1.1.2, fun id hid => ?_⟩
      · simpa using hchecks.1.1.1
      · have hmem := (horder _).mem_iff.mp hid
        simpa using hmem

theorem mentionedAt_eq {now : ℕ} {events : List LlmContextMessage} {e : LlmContextMessage}
    (hdistinct : (events.map LlmContextMessage.id).Nodup) (he : e ∈ events) :
    mentionedAt now events e.id = datedAt now e := by
  have hfind : events.find? (fun e' => e'.id == e.id) = some e := by
    induction events with
    | nil => cases he
    | cons first rest ih =>
        rw [List.map_cons, List.nodup_cons] at hdistinct
        rcases List.mem_cons.mp he with rfl | he
        · simp
        · have hne : first.id ≠ e.id := by
            intro heq
            exact hdistinct.1 (heq ▸ List.mem_map_of_mem he)
          simp [hne, ih hdistinct.2 he]
  simp [mentionedAt, hfind]

/-- What an operation attests that was no source before it, with what was attested already. -/
def Newly (toLowercase : String → String) (earlier : String → ℕ → ℕ → Prop)
    (before : List MemoryFact) (op : MemoryOp) (key : String) (id date : ℕ) : Prop :=
  earlier key id date ∨ op.Attests toLowercase key id date ∧ ¬Sourced before key id

theorem findings_cited {toLowercase : String → String} (earlier : String → ℕ → ℕ → Prop)
    {before : List MemoryFact} {shuffles : Shuffles} (faults : MemoryFaults)
    (now roomId cursor : ℕ) {events : List LlmContextMessage} {extracted : ExtractedMemory}
    {found : Finding}
    (hdistinct : (events.map LlmContextMessage.id).Nodup)
    (h : found ∈ findings toLowercase shuffles (allowed cursor events) extracted) :
    Cited (Newly toLowercase earlier before (.apply shuffles faults now roomId events extracted))
      before now events found := by
  obtain ⟨⟨item, index⟩, hitem, hfound⟩ := List.mem_filterMap.mp h
  obtain ⟨hkey, hnonempty, hshort, hevidence⟩ := finding_spec (shuffles.perm index) hfound
  refine ⟨hnonempty, hshort, fun id hid hnew => .inr ⟨?_, hnew⟩⟩
  obtain ⟨hcited, haccepted⟩ := hevidence id hid
  simp only [allowed, List.any_eq_true, Bool.and_eq_true, decide_eq_true_eq, beq_iff_eq]
    at haccepted
  obtain ⟨e, he, ⟨-, hrole⟩, rfl⟩ := haccepted
  refine ⟨⟨item, ?_, hkey.symm, hcited⟩, e, he, rfl, hrole, (mentionedAt_eq hdistinct he).symm⟩
  exact List.fst_mem_of_mem_zipIdx hitem

/-! ## Runs -/

theorem Recorded.append {toLowercase : String → String} {m₀ : Manager} {past : List MemoryOp}
    {key : String} {id date : ℕ} (h : Recorded toLowercase m₀ past key id date) (op : MemoryOp) :
    Recorded toLowercase m₀ (past ++ [op]) key id date := by
  obtain ⟨before, earlier, after, m, m', rfl, hrun, hstep, hrecorded⟩ := h
  exact ⟨before, earlier, after ++ [op], m, m', by simp, hrun, hstep, hrecorded⟩

/-- What an extraction records is trimmed by the rebalancing that follows. -/
theorem applied_trim (toLowercase : String → String) (shuffles : Shuffles) (now roomId : ℕ)
    (events : List LlmContextMessage) (extracted : ExtractedMemory) (state : MemoryState) :
    AllTrim ((findings toLowercase shuffles (allowed (state.cursors[roomId]?.getD 0) events)
        extracted).foldl (record now events) state.facts)
      (Manager.applied toLowercase shuffles now roomId events extracted state).facts := by
  simp only [Manager.applied]
  exact rebalance_trim now ⟨_, _, _, _⟩

theorem proposes_sound {toLowercase : String → String} {earlier : String → ℕ → ℕ → Prop}
    {state next : MemoryState} {op : MemoryOp} {faults : MemoryFaults}
    (hdistinct : op.DistinctEvents) (hsound : Sound earlier state.facts)
    (h : Proposes toLowercase state op faults next) :
    Sound (Newly toLowercase earlier state.facts op) next.facts ∧
      Grows op.appliedAt (Newly toLowercase earlier state.facts op) state.facts next.facts := by
  have hkept : Sound (Newly toLowercase earlier state.facts op) state.facts :=
    hsound.mono fun _ _ _ _ hearlier => .inl hearlier
  cases h with
  | setEnabled faults enabled => exact ⟨hkept, Grows.refl _ _ _⟩
  | hot faults now =>
      have htrim := rebalance_trim now state
      exact ⟨htrim.sound hkept, htrim.grows _ _⟩
  | apply shuffles faults now roomId events extracted henabled hevents =>
      obtain ⟨hrecorded, hgrows⟩ := records_sound hkept
        (fun found => findings_cited earlier faults now roomId (state.cursors[roomId]?.getD 0)
          hdistinct) fun _ _ hid => hid
      have htrim := applied_trim toLowercase shuffles now roomId events extracted state
      exact ⟨htrim.sound hrecorded, hgrows.trans (htrim.grows _ _)⟩

theorem commit_state (m : Manager) (faults : MemoryFaults) (next : MemoryState) :
    (m.commit faults next).2.state = m.state ∨ (m.commit faults next).2.state = next := by
  unfold Manager.commit
  rcases exec faults.calls (ReplacedFiles.replace memoryFiles (MemoryState.codec.encode next))
    m.disk with ⟨_ | _, disk⟩
  · exact .inl rfl
  · exact .inr rfl

/-- A step leaves the state, or brings about what its operation proposes. -/
theorem step_state {toLowercase : String → String} {m m' : Manager} {op : MemoryOp}
    (h : MemoryStep toLowercase m op m') :
    m'.state = m.state ∨ ∃ faults, Proposes toLowercase m.state op faults m'.state := by
  rw [h]
  rcases op_case toLowercase m op with hidle | ⟨faults, next, hproposes, hcommit⟩
  · rw [hidle]
    exact .inl rfl
  · rw [hcommit]
    rcases commit_state m faults next with hstate | hstate
    · exact .inl hstate
    · refine .inr ⟨faults, ?_⟩
      rw [hstate]
      exact hproposes

theorem sound_step {toLowercase : String → String} {m₀ m m' : Manager} {past : List MemoryOp}
    {op : MemoryOp} (hdistinct : op.DistinctEvents) (hrun : MemoryRun toLowercase m₀ past m)
    (hsound : Sound (Recorded toLowercase m₀ past) m.state.facts)
    (h : MemoryStep toLowercase m op m') :
    Sound (Recorded toLowercase m₀ (past ++ [op])) m'.state.facts ∧
      Grows op.appliedAt (Recorded toLowercase m₀ (past ++ [op])) m.state.facts
        m'.state.facts := by
  rcases step_state h with hstate | ⟨faults, hproposes⟩
  · rw [hstate]
    exact ⟨hsound.mono fun _ _ _ _ hearlier => hearlier.append op, Grows.refl _ _ _⟩
  · obtain ⟨hnext, hgrows⟩ := proposes_sound hdistinct hsound hproposes
    -- What is newly attested and a source by now has been recorded by this step.
    have hrecorded : ∀ key id date, Sourced m'.state.facts key id →
        Newly toLowercase (Recorded toLowercase m₀ past) m.state.facts op key id date →
          Recorded toLowercase m₀ (past ++ [op]) key id date := by
      rintro key id date hsourced (hearlier | ⟨hattests, hnew⟩)
      · exact hearlier.append op
      · exact ⟨past, op, [], m, m', rfl, hrun, h, hattests, hnew, hsourced⟩
    exact ⟨hnext.mono hrecorded, hgrows.mono hrecorded⟩

theorem run_sound {toLowercase : String → String} {m₀ m : Manager} {ops : List MemoryOp}
    (hempty : m₀.state = .default) (hdistinct : ∀ op ∈ ops, op.DistinctEvents)
    (hrun : MemoryRun toLowercase m₀ ops m) :
    Sound (Recorded toLowercase m₀ ops) m.state.facts := by
  refine (hrun.recorded (P := fun past m => (∀ op ∈ past, op.DistinctEvents) →
    MemoryRun toLowercase m₀ past m ∧ Sound (Recorded toLowercase m₀ past) m.state.facts)
    (fun past m op m' ih hstep hall => ?_) (fun _ => ⟨.nil m₀, ?_⟩) hdistinct).2
  · obtain ⟨hpast, hsound⟩ :=
      ih fun earlier hearlier => hall earlier (List.mem_append_left _ hearlier)
    exact ⟨hpast.snoc hstep, (sound_step (hall op (by simp)) hpast hsound hstep).1⟩
  · rw [hempty]
    exact ⟨List.nodup_nil, fun _ hf => (List.not_mem_nil hf).elim,
      fun _ hf => (List.not_mem_nil hf).elim⟩

/-- Facts keep distinct proper keys and none is dropped. Their sources are distinct user
messages that were cited for them, their recent mentions no more than these; and a fact
becomes cached only at an extraction for which three of its sources, with the dates at
which they were recorded, lie within the window. -/
theorem memory_facts_sound {toLowercase : String → String} {m₀ m : Manager}
    {ops : List MemoryOp} (hempty : m₀.state = .default)
    (hdistinct : ∀ op ∈ ops, op.DistinctEvents) (hrun : MemoryRun toLowercase m₀ ops m) :
    (m.state.facts.map MemoryFact.key).Nodup ∧
      (∀ f ∈ m.state.facts, (f.key ≠ "" ∧ f.key.utf8ByteSize ≤ 160) ∧
        f.sourceMessageIds.Nodup ∧
        (∀ id ∈ f.sourceMessageIds, ∃ date, Recorded toLowercase m₀ ops f.key id date) ∧
        f.recentMentionsMs.length ≤ f.sourceMessageIds.length) ∧
      ∀ (op : MemoryOp) (m' : Manager), op.DistinctEvents → MemoryStep toLowercase m op m' →
        m.state.facts.map MemoryFact.key <+: m'.state.facts.map MemoryFact.key ∧
        ∀ f' ∈ m'.state.facts, f'.cacheSinceMs.isSome →
          (∀ f ∈ m.state.facts, f.key = f'.key → f.cacheSinceMs = none) →
            ∃ now, op.appliedAt = some now ∧ Supported (· ∈ f'.sourceMessageIds)
              (Recorded toLowercase m₀ (ops ++ [op]) f'.key) now := by
  have hsound := run_sound hempty hdistinct hrun
  refine ⟨hsound.distinct, fun f hf => ?_, fun op m' hop hstep => ?_⟩
  · have hevidenced := hsound.evidenced f hf
    refine ⟨hsound.keys f hf, hevidenced.distinct, fun id hid => ?_, hevidenced.length_le⟩
    obtain ⟨mentions, hids, -, hattested⟩ := hevidenced.mentions
    rw [← hids] at hid
    obtain ⟨mention, hmention, rfl⟩ := List.mem_map.mp hid
    exact ⟨mention.2, hattested mention hmention⟩
  · obtain ⟨hnext, hgrows⟩ := sound_step hop hrun hsound hstep
    refine ⟨hgrows.keys, fun f' hf' hcached hbefore => ?_⟩
    rcases hgrows.cached f' hf' hcached with ⟨f, hf, hkey, hwas⟩ | ⟨now, happlied, hsupported⟩
    · rw [hbefore f hf hkey] at hwas
      cases hwas
    · exact ⟨now, happlied, hsupported.mono (fun id => hnext.sourced hf') fun _ _ _ hdate => hdate⟩

/-- Three undated messages that one extraction cites for one fact. -/
def teaOp : MemoryOp :=
  .apply .none .none 7 1
    ([1, 2, 3].map fun id => ⟨id, 1, "Tea", "user", "You", "I drink tea", 0, []⟩)
    ⟨[⟨" tea", "Drinks tea", [1, 2, 2, 3, 9]⟩]⟩

theorem memory_facts_sound_tea :
    let f : MemoryFact := ⟨"tea", "Drinks tea", [1, 2, 3], 7, 7, [7, 7, 7], some 7, none⟩
    Supported (· ∈ f.sourceMessageIds) (Recorded id ⟨.default, noMemoryFiles⟩
      [.setEnabled .none true, teaOp] f.key) 7 := by
  intro f
  have hrun : MemoryRun id ⟨.default, noMemoryFiles⟩ [.setEnabled .none true] _ := .single rfl
  obtain ⟨-, -, hstep⟩ := memory_facts_sound rfl (by simp [MemoryOp.DistinctEvents]) hrun
  have hdistinct : teaOp.DistinctEvents := by simp [teaOp, MemoryOp.DistinctEvents]
  obtain ⟨-, hcached⟩ := hstep teaOp _ hdistinct rfl
  obtain ⟨now, hnow, hsupported⟩ := hcached f (by decide) rfl fun g hg => by cases hg
  cases hnow
  exact hsupported

end NormaHarness.Memory
