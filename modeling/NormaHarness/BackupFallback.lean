import NormaHarness.FallbackReplacements
import NormaHarness.SnapshotRecovery

/-!
# Saving after a fallback

When the main file is unreadable, loading succeeds from the backup. The next save
does not look at what is in the main file: it removes the backup and lets the
unreadable file take its place. From then on nothing can be loaded until the pending
file has its final name.
-/
namespace NormaHarness.Chat
open FilePrograms

/-- Loading finds the snapshot of the backup or the one being saved. -/
def Finds (saved next : ChatSnapshot) (disk : SnapshotDisk) : Prop :=
  load disk = .ok (some saved) ∨ load disk = .ok (some next)

/-- The snapshot is encoded, and after `n` file calls the backup is removed or overwritten
and the new file is not in place. -/
def LosesBackup (faults : SnapshotFaults) (n : ℕ) : Prop :=
  faults .prepare = none ∧ ReplacedFiles.LosesBackup snapshotFiles faults n

section

variable {faults : SnapshotFaults} {saved next : ChatSnapshot} {disk : SnapshotDisk}

theorem finds_iff : Finds saved next disk ↔ ReplacedFiles.Finds snapshotFiles saved next disk :=
  or_congr load_eq_ok load_eq_ok

/-- Loading finds a snapshot after `n` file calls of the save exactly when they have not lost
the backup. -/
theorem finds_cut_iff (hmain : disk .main = some .torn)
    (hbackup : disk .backup = some (.whole saved)) (n : ℕ) :
    Finds saved next (cut faults n (saveProgram next) disk) ↔ ¬LosesBackup faults n := by
  unfold saveProgram LosesBackup
  cases hencode : faults .prepare with
  | none =>
      rw [finds_iff, cut_prepare_ok hencode,
        ReplacedFiles.finds_cut_iff (f := snapshotFiles) hmain hbackup n]
      simp
  | some error =>
      rw [cut_prepare_fault hencode, ReplacedFiles.failed, cut_done]
      exact iff_of_true (.inl ((load_fallback hmain).mpr hbackup)) (by simp)

theorem losesBackup_late {n : ℕ} (hn : 8 ≤ n) : LosesBackup faults n ↔ LosesBackup faults 8 :=
  and_congr_right fun _ => ReplacedFiles.losesBackup_late hn

/-- The main file is unreadable and the backup is loaded. Wherever the next save is stopped,
and when it returns, a snapshot is found exactly when its calls have not lost the backup. -/
theorem fallback_save_iff (hmain : disk .main = some .torn) (hload : load disk = .ok (some saved)) :
    (∀ n pending, Finds saved next (Function.update (cut faults n (saveProgram next) disk)
        .pending pending) ↔ ¬LosesBackup faults n) ∧
      (Finds saved next (exec faults (saveProgram next) disk).2 ↔ ¬LosesBackup faults 8) := by
  have hbackup : disk .backup = some (.whole saved) := (load_fallback hmain).mp hload
  refine ⟨fun n pending => ?_, ?_⟩
  · have hkeep : load (Function.update (cut faults n (saveProgram next) disk) .pending pending) =
        load (cut faults n (saveProgram next) disk) := load_congr (by simp) (by simp)
    unfold Finds
    rw [hkeep]
    exact finds_cut_iff hmain hbackup n
  · obtain ⟨calls, hcalls⟩ := exists_cut_eq_exec faults (saveProgram next) disk
    rw [← hcalls (max calls 8) (le_max_left _ _), finds_cut_iff hmain hbackup,
      losesBackup_late (le_max_right _ _)]

end

def tornMain (saved : ChatSnapshot) : SnapshotDisk
  | .main => some .torn
  | .backup => some (.whole saved)
  | .pending => none

/-- No call fails, and the process is stopped after the backup is removed. -/
theorem fallback_lost : ∃ (disk : SnapshotDisk) (saved next : ChatSnapshot) (n : ℕ),
    disk .main = some .torn ∧ load disk = .ok (some saved) ∧
      load (cut noFaults n (saveProgram next) disk) = .error (.invalidData .main) :=
  ⟨tornMain (.numbered 1), .numbered 1, .numbered 2, 6, rfl, rfl, rfl⟩

/-- Without faults a snapshot is found up to the fifth call and again from the eighth. -/
theorem fallback_save_iff_numbered :
    (∀ n pending, Finds (.numbered 1) (.numbered 2) (Function.update
        (cut noFaults n (saveProgram (.numbered 2)) (tornMain (.numbered 1))) .pending pending) ↔
          ¬LosesBackup noFaults n) ∧
      (Finds (.numbered 1) (.numbered 2)
          (exec noFaults (saveProgram (.numbered 2)) (tornMain (.numbered 1))).2 ↔
        ¬LosesBackup noFaults 8) :=
  fallback_save_iff rfl rfl

end NormaHarness.Chat
