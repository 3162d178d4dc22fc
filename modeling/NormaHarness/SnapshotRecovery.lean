import NormaHarness.ChatResident
import NormaHarness.Executions

/-!
# What a restart finds

Loading prefers the main file and falls back on the backup when the main file is
missing or unreadable. Saving keeps one readable copy at every call, with one
exception: a check that wrongly reports the main file as absent sends the rollback
to put an older backup in its place. After a fallback the copy that is kept is the
unreadable one.
-/
namespace NormaHarness.Chat
open FilePrograms

inductive LoadError where
  | invalidData (file : SnapshotFile)
  deriving DecidableEq, Repr

/-- `ChatStorage::load`, whose own file calls succeed. -/
def load (disk : SnapshotDisk) : Except LoadError (Option ChatSnapshot) :=
  (ReplacedFiles.load snapshotFiles disk).mapError .invalidData

/-- Neither of the two files that are loaded is torn. -/
abbrev Intact (disk : SnapshotDisk) : Prop := ReplacedFiles.Intact snapshotFiles disk

/-- The snapshot is encoded, the checks of the save miss the main file, the pending file
cannot take its name, and the rollback replaces it by the backup of an earlier save. -/
def RollsBackStale (faults : SnapshotFaults) (disk : SnapshotDisk) : Prop :=
  faults .prepare = none ∧ ReplacedFiles.RollsBackStale snapshotFiles faults disk

theorem RollsBackStale.fails {faults : SnapshotFaults} {disk : SnapshotDisk}
    (h : RollsBackStale faults disk) : SaveFails faults disk := .inr h.2.fails

/-- The check of the main file has failed. -/
theorem RollsBackStale.misses {faults : SnapshotFaults} {disk : SnapshotDisk}
    (h : RollsBackStale faults disk) : faults (.look .main 0) ≠ none := h.2.2.2.2.2.2.1

/-! ## Loading -/

theorem load_congr {disk disk' : SnapshotDisk} (hmain : disk' .main = disk .main)
    (hbackup : disk' .backup = disk .backup) : load disk' = load disk := by
  rw [load, ReplacedFiles.load_congr (f := snapshotFiles) hmain hbackup, load]

theorem load_eq_ok {disk : SnapshotDisk} {found : Option ChatSnapshot} :
    load disk = .ok found ↔ ReplacedFiles.load snapshotFiles disk = .ok found := by
  unfold load
  cases ReplacedFiles.load snapshotFiles disk <;> simp [Except.mapError]

theorem load_whole {disk : SnapshotDisk} {snapshot : ChatSnapshot}
    (h : disk .main = some (.whole snapshot)) : load disk = .ok (some snapshot) :=
  load_eq_ok.mpr (ReplacedFiles.load_whole (f := snapshotFiles) h)

theorem load_fallback {disk : SnapshotDisk} {snapshot : ChatSnapshot}
    (hmain : disk .main = some .torn) :
    load disk = .ok (some snapshot) ↔ disk .backup = some (.whole snapshot) :=
  load_eq_ok.trans (ReplacedFiles.load_fallback (f := snapshotFiles) hmain)

/-! ## One save -/

/-- Wherever a save is stopped, its directory loads as before or as the new snapshot. -/
def Recoverable (before : Except LoadError (Option ChatSnapshot)) (content : ChatSnapshot)
    (disk : SnapshotDisk) : Prop :=
  Intact disk ∧ (load disk = before ∨ load disk = .ok (some content))

/-- A save that returns has changed what is loaded exactly when it succeeded. -/
def Settled (before : Except LoadError (Option ChatSnapshot)) (content : ChatSnapshot)
    (result : Except String Unit) (disk : SnapshotDisk) : Prop :=
  Intact disk ∧ load disk = match result with
    | .ok () => .ok (some content)
    | .error _ => before

section

variable {faults : SnapshotFaults} {content : ChatSnapshot} {disk : SnapshotDisk}

variable (content) in
/-- Saving to an intact directory, with or without faults. -/
theorem save_guarded (hintact : Intact disk) (hroll : ¬RollsBackStale faults disk) :
    Guarded faults (Recoverable (load disk) content) (Settled (load disk) content)
      (saveProgram content) disk := by
  refine .prepare _ _ _ ⟨hintact, .inl rfl⟩ (fun hencode => ?_)
    fun error _ => .done _ _ ⟨hintact, .inl rfl⟩ ⟨hintact, rfl⟩
  have hreplace := ReplacedFiles.replace_guarded content hintact fun h => hroll ⟨hencode, h⟩
  refine hreplace.mono (fun disk' h => ⟨h.1, ?_⟩) fun result disk' h => ⟨h.1, ?_⟩
  · exact h.2.imp (congrArg (Except.mapError LoadError.invalidData)) load_eq_ok.mpr
  · rw [load, h.2, load]
    cases result with
    | ok u => rfl
    | error error => rfl

variable (content) in
/-- Up to its rollback, a save that will roll back has only touched the pending file. -/
theorem cut_before_rollback (h : RollsBackStale faults disk) {n : ℕ} (hn : n < 7) :
    (cut faults n (saveProgram content) disk) .main = disk .main ∧
      (cut faults n (saveProgram content) disk) .backup = disk .backup := by
  rw [saveProgram, cut_prepare_ok h.1]
  exact ReplacedFiles.cut_before_rollback content h.2 hn

variable (faults content) in
/-- No save tears a file that is loaded, wherever it is stopped. -/
theorem Intact.cut (hintact : Intact disk) (n : ℕ) :
    Intact (cut faults n (saveProgram content) disk) := by
  rw [saveProgram]
  cases hencode : faults .prepare with
  | none =>
      rw [cut_prepare_ok hencode]
      exact ReplacedFiles.Intact.cut faults content hintact n
  | some error =>
      rw [cut_prepare_fault hencode, ReplacedFiles.failed, cut_done]
      exact hintact

variable (faults content) in
theorem Intact.exec (hintact : Intact disk) :
    Intact (exec faults (saveProgram content) disk).2 := by
  obtain ⟨calls, hcalls⟩ := exists_cut_eq_exec faults (saveProgram content) disk
  rw [← hcalls calls le_rfl]
  exact Intact.cut faults content hintact calls

end

/-! ## Saves, crashes and restarts -/

/-- A snapshot of one room, told apart by its identity. -/
def ChatSnapshot.numbered (id : ℕ) : ChatSnapshot := ⟨[newRoom id "team" ["bob"] false 0], []⟩

/-- One save of a history. A crash stops it after some calls, and leaves anything in
the pending file. -/
structure SaveAttempt where
  content : ChatSnapshot
  faults : SnapshotFaults
  crash : Option (ℕ × Option (Content ChatSnapshot))

/-- The disk, the snapshot of the last save that reported success, and the snapshots
of the saves attempted since. -/
structure StorageHistory where
  disk : SnapshotDisk
  acknowledged : Option ChatSnapshot
  attempted : List ChatSnapshot

namespace StorageHistory

def empty : StorageHistory := ⟨noFiles, none, []⟩

def after (h : StorageHistory) (a : SaveAttempt) : StorageHistory :=
  match a.crash with
  | some (n, pending) =>
      ⟨Function.update (cut a.faults n (saveProgram a.content) h.disk) .pending pending,
        h.acknowledged, h.attempted ++ [a.content]⟩
  | none =>
    match exec a.faults (saveProgram a.content) h.disk with
    | (.ok (), disk) => ⟨disk, some a.content, []⟩
    | (.error _, disk) => ⟨disk, h.acknowledged, h.attempted ++ [a.content]⟩

/-- Loading finds the last acknowledged snapshot or one attempted since. -/
def Loads (h : StorageHistory) : Prop :=
  ∃ found, load h.disk = .ok found ∧
    (found = h.acknowledged ∨ ∃ content ∈ h.attempted, found = some content)

/-- The save replaces the main file by an older backup before it returns or crashes. -/
def RollsBack (h : StorageHistory) (a : SaveAttempt) : Prop :=
  RollsBackStale a.faults h.disk ∧ ∀ n pending, a.crash = some (n, pending) → 7 ≤ n

/-- A save of a history that rolls back nothing but its own changes. -/
def Step (h : StorageHistory) (a : SaveAttempt) (h' : StorageHistory) : Prop :=
  ¬h.RollsBack a ∧ h' = h.after a

/-- What every save preserves. -/
structure Sound (h : StorageHistory) : Prop where
  intact : Intact h.disk
  loads : h.Loads

theorem empty_sound : empty.Sound :=
  ⟨⟨by simp [empty, noFiles], by simp [empty, noFiles]⟩, none, rfl, .inl rfl⟩

/-- Without a stale rollback, a crash leaves the previous snapshot or the new one. -/
theorem crash_recoverable {h : StorageHistory} {a : SaveAttempt} (hintact : Intact h.disk)
    (hroll : ¬h.RollsBack a) {n : ℕ} {pending : Option (Content ChatSnapshot)}
    (hcrash : a.crash = some (n, pending)) :
    Recoverable (load h.disk) a.content (h.after a).disk := by
  have hdisk : (h.after a).disk =
      Function.update (cut a.faults n (saveProgram a.content) h.disk) .pending pending := by
    simp only [after, hcrash]
  have hmain : (h.after a).disk .main = cut a.faults n (saveProgram a.content) h.disk .main := by
    simp [hdisk]
  have hbackup : (h.after a).disk .backup =
      cut a.faults n (saveProgram a.content) h.disk .backup := by
    simp [hdisk]
  have hcut : Recoverable (load h.disk) a.content
      (cut a.faults n (saveProgram a.content) h.disk) := by
    by_cases hstale : RollsBackStale a.faults h.disk
    · have hn : n < 7 := by
        by_contra hn
        refine hroll ⟨hstale, fun k other hk => ?_⟩
        obtain ⟨rfl, rfl⟩ := Prod.mk.inj (Option.some.inj (hcrash.symm.trans hk))
        exact Nat.le_of_not_lt hn
      obtain ⟨hm, hb⟩ := cut_before_rollback a.content hstale hn
      exact ⟨hintact.congr hm hb, .inl (load_congr hm hb)⟩
    · exact (save_guarded a.content hintact hstale).at_cut n
  refine ⟨hcut.1.congr hmain hbackup, ?_⟩
  rw [load_congr hmain hbackup]
  exact hcut.2

/-- A save that returns is settled. -/
theorem completed_settled {h : StorageHistory} {a : SaveAttempt} (hintact : Intact h.disk)
    (hroll : ¬h.RollsBack a) (hcrash : a.crash = none) :
    Settled (load h.disk) a.content (exec a.faults (saveProgram a.content) h.disk).1
      (h.after a).disk := by
  have hstale : ¬RollsBackStale a.faults h.disk := by
    refine fun hstale => hroll ⟨hstale, fun n pending hsome => ?_⟩
    rw [hcrash] at hsome
    cases hsome
  have hdisk : (h.after a).disk = (exec a.faults (saveProgram a.content) h.disk).2 := by
    unfold after
    rw [hcrash]
    simp only
    split <;> simp_all
  rw [hdisk]
  exact (save_guarded a.content hintact hstale).at_end

theorem Sound.step {h h' : StorageHistory} {a : SaveAttempt} (hs : h.Sound)
    (hstep : Step h a h') : h'.Sound := by
  obtain ⟨hroll, rfl⟩ := hstep
  obtain ⟨found, hload, hfound⟩ := hs.loads
  -- An attempt that is not acknowledged only adds to what may be found.
  have hkept : found = h.acknowledged ∨
      ∃ content ∈ h.attempted ++ [a.content], found = some content := by
    refine hfound.imp_right ?_
    rintro ⟨content, hmem, rfl⟩
    exact ⟨content, List.mem_append_left _ hmem, rfl⟩
  have hnew : ∃ content ∈ h.attempted ++ [a.content], some a.content = some content :=
    ⟨a.content, List.mem_append_right _ List.mem_cons_self, rfl⟩
  cases hcrash : a.crash with
  | some crash =>
      have hrecoverable := crash_recoverable hs.intact hroll hcrash
      refine ⟨hrecoverable.1, ?_⟩
      simp only [Loads, after, hcrash]
      have hdisk := hrecoverable.2
      simp only [after, hcrash] at hdisk
      rcases hdisk with hbefore | hafter
      · exact ⟨found, hbefore.trans hload, hkept⟩
      · exact ⟨some a.content, hafter, .inr hnew⟩
  | none =>
      have hsettled := completed_settled hs.intact hroll hcrash
      refine ⟨hsettled.1, ?_⟩
      have hdisk := hsettled.2
      simp only [Loads, after, hcrash] at hdisk ⊢
      rcases hexec : exec a.faults (saveProgram a.content) h.disk with ⟨result, disk⟩
      rw [hexec] at hdisk
      cases result with
      | ok u => exact ⟨some a.content, hdisk, .inl rfl⟩
      | error error => exact ⟨found, hdisk.trans hload, hkept⟩

/-- From an empty directory, in every history without a stale rollback: loading finds the
acknowledged snapshot or one attempted since, and a save that reports an error without a
crash does not change what is loaded. -/
theorem saves_recoverable {attempts : List SaveAttempt} {h : StorageHistory}
    (hrun : Executions.Run Step empty attempts h) :
    h.Loads ∧ ∀ (a : SaveAttempt) (h' : StorageHistory), Step h a h' → a.crash = none →
      ReplacedFiles.Errs a.faults (saveProgram a.content) h.disk → load h'.disk = load h.disk := by
  have hs : h.Sound := hrun.invariant (fun _ _ _ hs step => hs.step step) empty_sound
  refine ⟨hs.loads, ?_⟩
  rintro a h' ⟨hroll, rfl⟩ hcrash ⟨error, herror⟩
  have hsettled := (completed_settled hs.intact hroll hcrash).2
  rw [herror] at hsettled
  exact hsettled

def missedMain : SnapshotFaults := fun call =>
  if call = .look .main 0 ∨ call = .rename .pending .main then some "permission denied" else none

/-- Two snapshots are saved. The third save misses the main file in its check and cannot
rename the pending file, and its rollback brings back the first snapshot. -/
theorem stale_rollback : ∃ (attempts : List SaveAttempt) (h : StorageHistory),
    Executions.Run (fun h a h' => h' = h.after a) empty attempts h ∧ ¬h.Loads := by
  let attempts : List SaveAttempt :=
    [⟨.numbered 1, noFaults, none⟩, ⟨.numbered 2, noFaults, none⟩, ⟨.numbered 3, missedMain, none⟩]
  refine ⟨attempts, _, .cons rfl (.cons rfl (.cons rfl (.nil _))), ?_⟩
  rintro ⟨found, hload, hfound⟩
  have hfirst : found = some (.numbered 1) := (Except.ok.inj hload).symm
  rcases hfound with hlast | ⟨content, hcontent, hlast⟩
  · have hsecond : found = some (.numbered 2) := hlast
    exact absurd (hfirst.symm.trans hsecond) (by decide)
  · obtain rfl : content = .numbered 3 := List.mem_singleton.mp hcontent
    exact absurd (hfirst.symm.trans hlast) (by decide)

/-- A save that succeeds, one that crashes between its two renames, and one that fails. -/
theorem saves_recoverable_crash :
    let first : SaveAttempt := ⟨.numbered 1, noFaults, none⟩
    let crashed : SaveAttempt := ⟨.numbered 2, noFaults, some (6, some .torn)⟩
    let refused : SaveAttempt :=
      ⟨.numbered 3, fun call => if call = .sync .pending then some "disk full" else none, none⟩
    let h := (empty.after first).after crashed
    h.Loads ∧ load (h.after refused).disk = load h.disk := by
  intro first crashed refused h
  have hsteps : ∀ (h : StorageHistory) (a : SaveAttempt), a.faults (.look .main 0) = none →
      Step h a (h.after a) := by
    rintro h a hlook
    exact ⟨fun hroll => hroll.1.misses hlook, rfl⟩
  have hrun : Executions.Run Step empty [first, crashed] h :=
    .cons (hsteps _ _ rfl) (.single (hsteps _ _ rfl))
  obtain ⟨hloads, hkeeps⟩ := saves_recoverable hrun
  exact ⟨hloads, hkeeps refused _ (hsteps _ _ rfl) rfl ⟨_, rfl⟩⟩

end StorageHistory

end NormaHarness.Chat
