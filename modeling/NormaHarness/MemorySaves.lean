import NormaHarness.MemoryManager
import NormaHarness.Executions

/-!
# Memory and its file agree

Every operation commits through one save, and a save that returns has changed what the
next start loads exactly when it reported success. So the state behind the mutex and the
state a start would load are the same after every call.
-/
namespace NormaHarness.Memory
open Std JsonValues LlmProtocol FilePrograms ReplacedFiles

/-- One call of a memory manager, with its clock reading and the fate of its save. -/
inductive MemoryOp where
  | setEnabled (faults : MemoryFaults) (enabled : Bool)
  | hot (faults : MemoryFaults) (now : ℕ)
  | apply (shuffles : Shuffles) (faults : MemoryFaults) (now roomId : ℕ)
      (events : List LlmContextMessage) (extracted : ExtractedMemory)

/-- Whether the call succeeds, and the manager after it. -/
def MemoryOp.run (toLowercase : String → String) (m : Manager) :
    MemoryOp → Except String Unit × Manager
  | .setEnabled faults enabled =>
      let out := m.setEnabled faults enabled
      (out.1.map fun _ => (), out.2)
  | .hot faults now =>
      let out := m.hot faults now
      (out.1.map fun _ => (), out.2)
  | .apply shuffles faults now roomId events extracted =>
      m.apply toLowercase shuffles faults now roomId events extracted

def MemoryStep (toLowercase : String → String) (m : Manager) (op : MemoryOp) (m' : Manager) :
    Prop :=
  m' = (op.run toLowercase m).2

abbrev MemoryRun (toLowercase : String → String) := Executions.Run (MemoryStep toLowercase)

/-- A manager opened on what is on disk. -/
def Manager.openAt (disk : MemoryDisk) : Except MemoryFile Manager :=
  (openState disk).map fun state => ⟨state, disk⟩

/-! ## What an operation changes -/

/-- The state an operation brings about where its save succeeds. -/
inductive Proposes (toLowercase : String → String) (state : MemoryState) :
    MemoryOp → MemoryFaults → MemoryState → Prop
  | setEnabled (faults : MemoryFaults) (enabled : Bool) :
      Proposes toLowercase state (.setEnabled faults enabled) faults
        {state with enabled := enabled, revision := state.revision + 1}
  | hot (faults : MemoryFaults) (now : ℕ) :
      Proposes toLowercase state (.hot faults now) faults (rebalance now state).1
  | apply (shuffles : Shuffles) (faults : MemoryFaults) (now roomId : ℕ)
      (events : List LlmContextMessage) (extracted : ExtractedMemory)
      (henabled : state.enabled = true) (hevents : events ≠ []) :
      Proposes toLowercase state (.apply shuffles faults now roomId events extracted) faults
        (Manager.applied toLowercase shuffles now roomId events extracted state)

/-- An operation succeeds without a change, or commits what it proposes. -/
theorem op_case (toLowercase : String → String) (m : Manager) (op : MemoryOp) :
    op.run toLowercase m = (.ok (), m) ∨
      ∃ faults next, Proposes toLowercase m.state op faults next ∧
        op.run toLowercase m = m.commit faults next := by
  cases op with
  | setEnabled faults enabled =>
      refine .inr ⟨faults, _, .setEnabled faults enabled, ?_⟩
      simp only [MemoryOp.run, Manager.setEnabled]
      rcases m.commit faults _ with ⟨_ | _, m'⟩
      · rfl
      · rfl
  | hot faults now =>
      simp only [MemoryOp.run, Manager.hot]
      split
      · split
        · refine .inr ⟨faults, _, .hot faults now, ?_⟩
          rcases m.commit faults _ with ⟨_ | _, m'⟩
          · rfl
          · rfl
        · exact .inl rfl
      · exact .inl rfl
  | apply shuffles faults now roomId events extracted =>
      simp only [MemoryOp.run, Manager.apply]
      split
      · exact .inl rfl
      · next hevents =>
        split
        · next henabled =>
          refine .inr ⟨faults, _, .apply shuffles faults now roomId events extracted henabled ?_,
            rfl⟩
          simpa using hevents
        · exact .inl rfl

/-! ## One save -/

/-- What a start would load is the state held in memory. -/
structure Mirrored (m : Manager) : Prop where
  intact : Intact memoryFiles m.disk
  loads : load memoryFiles m.disk = .ok (some (MemoryState.codec.encode m.state)) ∨
    load memoryFiles m.disk = .ok none ∧ m.state = .default

/-- On files that are not torn, opening decodes what the loader of replaced files finds. -/
theorem openState_eq {disk : MemoryDisk} {state : MemoryState} (hintact : Intact memoryFiles disk)
    (hload : load memoryFiles disk = .ok (some (MemoryState.codec.encode state)) ∨
      load memoryFiles disk = .ok none ∧ state = .default) :
    openState disk = .ok state := by
  obtain ⟨hmainWhole, hbackupWhole⟩ := hintact
  simp only [memoryFiles] at hmainWhole hbackupWhole
  simp only [load, loadBackup, memoryFiles] at hload
  unfold openState openBackup
  rcases hmain : disk .main with _ | ⟨v⟩ | _
  · rcases hbackup : disk .backup with _ | ⟨v⟩ | _
    · simp only [hmain, hbackup] at hload
      rcases hload with hload | ⟨-, rfl⟩
      · cases hload
      · rfl
    · simp only [hmain, hbackup] at hload
      rcases hload with hload | ⟨hload, -⟩
      · simp only [Except.ok.injEq, Option.some.injEq] at hload
        subst hload
        simp [parsed, MemoryState.codec.decode_encode]
      · cases hload
    · exact absurd hbackup hbackupWhole
  · simp only [hmain] at hload
    rcases hload with hload | ⟨hload, -⟩
    · simp only [Except.ok.injEq, Option.some.injEq] at hload
      subst hload
      simp [parsed, MemoryState.codec.decode_encode]
    · cases hload
  · exact absurd hmain hmainWhole

theorem Mirrored.opens {m : Manager} (h : Mirrored m) : openState m.disk = .ok m.state :=
  openState_eq h.intact h.loads

/-- The checks of a save are told the truth, so its rollback never revives an old file. -/
theorem MemoryFaults.not_rollsBackStale (faults : MemoryFaults) (disk : MemoryDisk) :
    ¬RollsBackStale memoryFiles faults.calls disk := by
  intro h
  exact h.2.2.2.2.2.1 (faults.checks _ _)

/-- A commit that fails leaves the state, and what a start would load. -/
theorem commit_spec {m : Manager} (h : Mirrored m) (faults : MemoryFaults) (next : MemoryState) :
    Mirrored (m.commit faults next).2 ∧
      ((m.commit faults next).2.state = match (m.commit faults next).1 with
        | .ok () => next
        | .error _ => m.state) := by
  have hsettled := (replace_guarded (MemoryState.codec.encode next) h.intact
    (faults.not_rollsBackStale m.disk)).at_end
  unfold Manager.commit
  rcases hexec : exec faults.calls (replace memoryFiles (MemoryState.codec.encode next)) m.disk
    with ⟨error | _, disk⟩
  · rw [hexec] at hsettled
    obtain ⟨hintact, hload⟩ := hsettled
    refine ⟨⟨hintact, ?_⟩, rfl⟩
    rw [hload]
    exact h.loads
  · rw [hexec] at hsettled
    obtain ⟨hintact, hload⟩ := hsettled
    exact ⟨⟨hintact, .inl hload⟩, rfl⟩

/-! ## Runs -/

theorem mirrored_step {toLowercase : String → String} {m m' : Manager} {op : MemoryOp}
    (h : Mirrored m) (hstep : MemoryStep toLowercase m op m') : Mirrored m' := by
  rcases op_case toLowercase m op with hidle | ⟨faults, next, -, hcommit⟩
  · rw [hstep, hidle]
    exact h
  · rw [hstep, hcommit]
    exact (commit_spec h faults next).1

/-- A call that reports an error has left the state as it was. -/
theorem failed_state {toLowercase : String → String} {m : Manager} {op : MemoryOp}
    {error : String} (h : Mirrored m) (herror : (op.run toLowercase m).1 = .error error) :
    (op.run toLowercase m).2.state = m.state := by
  rcases op_case toLowercase m op with hidle | ⟨faults, next, -, hcommit⟩
  · rw [hidle] at herror
    cases herror
  · rw [hcommit] at herror ⊢
    rw [(commit_spec h faults next).2, herror]

theorem mirrored_noFiles : Mirrored ⟨.default, noMemoryFiles⟩ where
  intact := ⟨by simp [noMemoryFiles], by simp [noMemoryFiles]⟩
  loads := .inr ⟨rfl, rfl⟩

theorem openAt_noFiles {m : Manager} (h : Manager.openAt noMemoryFiles = .ok m) :
    m = ⟨.default, noMemoryFiles⟩ := by
  cases h
  rfl

/-- In every run of a memory opened on an empty directory, whatever file calls of its saves
fail, a start would load the state held in memory, which is the default one while no file
has been made; and a call that fails changes neither. -/
theorem memory_agrees_with_disk {toLowercase : String → String} {m₀ m : Manager}
    {ops : List MemoryOp} (hopen : Manager.openAt noMemoryFiles = .ok m₀)
    (hrun : MemoryRun toLowercase m₀ ops m) :
    openState m.disk = .ok m.state ∧
      (m.disk .main = none → m.disk .backup = none → m.state = .default) ∧
      ∀ (op : MemoryOp) (error : String), (op.run toLowercase m).1 = .error error →
        (op.run toLowercase m).2.state = m.state ∧
          openState (op.run toLowercase m).2.disk = openState m.disk := by
  have hmirrored : Mirrored m := by
    refine hrun.invariant (fun _ _ _ h hstep => mirrored_step h hstep) ?_
    rw [openAt_noFiles hopen]
    exact mirrored_noFiles
  refine ⟨hmirrored.opens, fun hmain hbackup => ?_, fun op error herror => ?_⟩
  · have hopens := hmirrored.opens
    simp only [openState, hmain, hbackup, Option.isSome_none, Bool.false_eq_true, if_false,
      Except.ok.injEq] at hopens
    exact hopens.symm
  · have hstate := failed_state hmirrored herror
    have hstep : MemoryStep toLowercase m op (op.run toLowercase m).2 := rfl
    have hafter := mirrored_step hmirrored hstep
    exact ⟨hstate, by rw [hafter.opens, hmirrored.opens, hstate]⟩

/-- A save whose two renames to the main file fail, so that only the backup is left. -/
def renamesFail : MemoryFaults where
  calls
    | .rename _ .main => some "interrupted"
    | _ => none
  checks _ _ := rfl

theorem memory_agrees_with_disk_backup :
    ∃ m, MemoryRun id ⟨.default, noMemoryFiles⟩
        [.setEnabled .none true, .setEnabled renamesFail false] m ∧
      (m.disk .main).isNone ∧ openState m.disk = .ok m.state := by
  have hrun : MemoryRun id ⟨.default, noMemoryFiles⟩
      [.setEnabled .none true, .setEnabled renamesFail false] _ := .cons rfl (.single rfl)
  exact ⟨_, hrun, by rfl, (memory_agrees_with_disk rfl hrun).1⟩

end NormaHarness.Memory
