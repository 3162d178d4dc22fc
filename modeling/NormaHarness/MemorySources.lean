import NormaHarness.MemoryFacts
import NormaHarness.StoredContents

/-!
# The sources of the facts

A fact only gains sources, and only from user messages among the events of an
extraction. The file of a memory holds its facts as they were after some save, so what
is true of all sources stays true over saves that are cut short and over a restart.
-/
namespace NormaHarness.Memory
open Std JsonValues LlmProtocol FilePrograms ReplacedFiles StoredContents

/-- Every source of every fact has this property. -/
def AllSources (P : ℕ → Prop) (facts : List MemoryFact) : Prop :=
  ∀ f ∈ facts, ∀ id ∈ f.sourceMessageIds, P id

/-- The files of a memory, but for the pending one, hold facts with such sources. -/
def HoldsSources (P : ℕ → Prop) : MemoryDisk → Prop :=
  HoldsBut .pending fun v =>
    ∃ state, v = MemoryState.codec.encode state ∧ AllSources P state.facts

section

variable {P : ℕ → Prop} {facts facts' : List MemoryFact} {now : ℕ}
  {events : List LlmContextMessage}

theorem AllSources.mono {Q : ℕ → Prop} (h : AllSources P facts) (hPQ : ∀ id, P id → Q id) :
    AllSources Q facts :=
  fun f hf id hid => hPQ id (h f hf id hid)

theorem HoldsSources.mono {Q : ℕ → Prop} {disk : MemoryDisk} (h : HoldsSources P disk)
    (hPQ : ∀ id, P id → Q id) : HoldsSources Q disk := by
  refine HoldsBut.mono h fun v hv => ?_
  obtain ⟨state, hstate, hsources⟩ := hv
  exact ⟨state, hstate, hsources.mono hPQ⟩

theorem AllSources.trim (h : AllSources P facts) (htrim : AllTrim facts facts') :
    AllSources P facts' := by
  intro f' hf' id hid
  obtain ⟨f, hf, htrims⟩ := htrim.mem hf'
  exact h f hf id (htrims.sources ▸ hid)

/-! ## Recording -/

theorem addSource_allSources {f : MemoryFact} {id : ℕ} (hf : ∀ k ∈ f.sourceMessageIds, P k)
    (hid : P id) : ∀ k ∈ (addSource now events f id).sourceMessageIds, P k := by
  intro k hk
  unfold addSource at hk
  split at hk
  · exact hf k hk
  · rcases List.mem_append.mp hk with hk | hk
    · exact hf k hk
    · obtain rfl := List.mem_singleton.mp hk
      exact hid

theorem addSources_allSources {evidence : List ℕ} {f : MemoryFact}
    (hf : ∀ k ∈ f.sourceMessageIds, P k) (hids : ∀ id ∈ evidence, P id) :
    ∀ k ∈ (evidence.foldl (addSource now events) f).sourceMessageIds, P k := by
  induction evidence generalizing f with
  | nil => exact hf
  | cons id rest ih =>
      refine ih (addSource_allSources hf (hids id List.mem_cons_self)) fun id' hid' => ?_
      exact hids id' (List.mem_cons_of_mem id hid')

theorem confirmed_allSources {found : Finding} {f : MemoryFact}
    (hf : ∀ k ∈ f.sourceMessageIds, P k) (hids : ∀ id ∈ found.evidence, P id) :
    ∀ k ∈ (confirmed now events found f).sourceMessageIds, P k := by
  simp only [confirmed]
  split
  · exact addSources_allSources hf hids
  · exact addSources_allSources hf hids

theorem AllSources.record {found : Finding} (h : AllSources P facts)
    (hids : ∀ id ∈ found.evidence, P id) : AllSources P (record now events facts found) := by
  intro f' hf'
  unfold Memory.record at hf'
  split at hf'
  · rcases mem_updateFirst hf' with hold | ⟨f, hf, -, rfl⟩
    · exact h f' hold
    · exact confirmed_allSources (h f hf) hids
  · rcases List.mem_append.mp hf' with hold | hnew
    · exact h f' hold
    · obtain rfl := List.mem_singleton.mp hnew
      exact confirmed_allSources (fun k hk => by cases hk) hids

theorem AllSources.records {found : List Finding} (h : AllSources P facts)
    (hids : ∀ f ∈ found, ∀ id ∈ f.evidence, P id) :
    AllSources P (found.foldl (Memory.record now events) facts) := by
  induction found generalizing facts with
  | nil => exact h
  | cons f rest ih =>
      refine ih (h.record (hids f List.mem_cons_self)) fun g hg => ?_
      exact hids g (List.mem_cons_of_mem f hg)

/-- Evidence is a user message among the events. -/
theorem findings_evidence {toLowercase : String → String} {shuffles : Shuffles} {cursor : ℕ}
    {extracted : ExtractedMemory} {found : Finding}
    (h : found ∈ findings toLowercase shuffles (allowed cursor events) extracted) {id : ℕ}
    (hid : id ∈ found.evidence) : ∃ e ∈ events, e.id = id ∧ e.role = "user" := by
  obtain ⟨⟨item, index⟩, -, hfound⟩ := List.mem_filterMap.mp h
  have hallowed := ((finding_spec (shuffles.perm index) hfound).2.2.2 id hid).2
  simp only [allowed, List.any_eq_true, Bool.and_eq_true, decide_eq_true_eq, beq_iff_eq]
    at hallowed
  obtain ⟨e, he, ⟨-, hrole⟩, hid⟩ := hallowed
  exact ⟨e, he, hid, hrole⟩

/-! ## Operations and saves -/

/-- The user messages that an operation hands to the facts. -/
def MemoryOp.offers : MemoryOp → List LlmContextMessage
  | .apply _ _ _ _ events _ => events.filter fun e => e.role == "user"
  | _ => []

theorem AllSources.proposes {toLowercase : String → String} {state next : MemoryState}
    {op : MemoryOp} {faults : MemoryFaults} (h : AllSources P state.facts)
    (hoffers : ∀ e ∈ op.offers, P e.id) (hproposes : Proposes toLowercase state op faults next) :
    AllSources P next.facts := by
  cases hproposes with
  | setEnabled faults enabled => exact h
  | hot faults now => exact h.trim (rebalance_trim now state)
  | apply shuffles faults now roomId events extracted henabled hevents =>
      refine AllSources.trim (h.records fun found hfound id hid => ?_)
        (applied_trim toLowercase shuffles now roomId events extracted state)
      obtain ⟨e, he, rfl, hrole⟩ := findings_evidence hfound hid
      exact hoffers e (List.mem_filter.mpr ⟨he, by simpa using hrole⟩)

/-- Memory and files after a commit. -/
theorem commit_sources {m : Manager} {faults : MemoryFaults} {next : MemoryState}
    (hfacts : AllSources P m.state.facts) (hdisk : HoldsSources P m.disk)
    (hnext : AllSources P next.facts) :
    AllSources P (m.commit faults next).2.state.facts ∧
      HoldsSources P (m.commit faults next).2.disk := by
  have hafter : HoldsSources P
      (exec faults.calls (replace memoryFiles (MemoryState.codec.encode next)) m.disk).2 :=
    (HoldsBut.replaced memoryFiles hdisk ⟨next, rfl, hnext⟩ faults.calls).at_end
  unfold Manager.commit
  rcases hexec : exec faults.calls (replace memoryFiles (MemoryState.codec.encode next)) m.disk with
    ⟨error | _, disk⟩
  · rw [hexec] at hafter
    exact ⟨hfacts, hafter⟩
  · rw [hexec] at hafter
    exact ⟨hnext, hafter⟩

theorem step_sources {toLowercase : String → String} {m m' : Manager} {op : MemoryOp}
    (hfacts : AllSources P m.state.facts) (hdisk : HoldsSources P m.disk)
    (hoffers : ∀ e ∈ op.offers, P e.id) (hstep : MemoryStep toLowercase m op m') :
    AllSources P m'.state.facts ∧ HoldsSources P m'.disk := by
  rcases op_case toLowercase m op with hidle | ⟨faults, next, hproposes, hcommit⟩
  · rw [hstep, hidle]
    exact ⟨hfacts, hdisk⟩
  · rw [hstep, hcommit]
    exact commit_sources hfacts hdisk (hfacts.proposes hoffers hproposes)

/-- The files when the process ends in the middle of the save of an operation, with
anything in the pending file. -/
theorem stopped_sources {toLowercase : String → String} {m : Manager} {op : MemoryOp}
    {faults : MemoryFaults} {next : MemoryState} (hfacts : AllSources P m.state.facts)
    (hdisk : HoldsSources P m.disk) (hoffers : ∀ e ∈ op.offers, P e.id)
    (hproposes : Proposes toLowercase m.state op faults next) (calls : ℕ)
    (pending : Option (Content Json)) :
    HoldsSources P (Function.update (cut faults.calls calls
      (replace memoryFiles (MemoryState.codec.encode next)) m.disk) .pending pending) := by
  have hnext := hfacts.proposes hoffers hproposes
  have hguarded := HoldsBut.replaced memoryFiles hdisk ⟨next, rfl, hnext⟩ faults.calls
  exact (hguarded.at_cut calls).update_self pending

/-- A memory that is opened has the facts of one of its files, or none. -/
theorem HoldsSources.opened {disk : MemoryDisk} {state : MemoryState} (h : HoldsSources P disk)
    (hopen : openState disk = .ok state) : AllSources P state.facts := by
  have hparsed : ∀ file, file ≠ .pending → ∀ content, disk file = some content →
      parsed content = some state → AllSources P state.facts := by
    intro file hfile content hcontent hstate
    cases content with
    | torn => cases hstate
    | whole v =>
        obtain ⟨saved, rfl, hsources⟩ := h file hfile v hcontent
        rw [parsed, MemoryState.codec.decode_encode] at hstate
        exact Option.some.inj hstate ▸ hsources
  have hbackup : openBackup disk = .ok state → AllSources P state.facts := by
    intro hopen
    unfold openBackup at hopen
    split at hopen
    · next found hfound =>
      cases hopen
      obtain ⟨content, hcontent, hstate⟩ := Option.bind_eq_some_iff.mp hfound
      exact hparsed .backup (by decide) content hcontent hstate
    · cases hopen
  unfold openState at hopen
  split at hopen
  · next content hcontent =>
    split at hopen
    · next found hfound =>
      cases hopen
      exact hparsed .main (by decide) content hcontent hfound
    · split_ifs at hopen
      exact hbackup hopen
  · split_ifs at hopen
    · exact hbackup hopen
    · cases hopen
      exact fun f hf => by cases hf

end

end NormaHarness.Memory
