import NormaHarness.ReplacedFiles

/-!
# Replacing a file after a fallback

When the main file is unreadable, its backup is read. The next replacement does not look at
what is in the main file: it removes the backup and lets the unreadable file take its place.
From then on nothing can be read until the pending file has its final name.
-/
namespace ReplacedFiles
open FilePrograms

variable {F C : Type*}

/-- A reader finds the content of the backup or the new one. -/
def Finds (f : Names F) (saved next : C) (disk : Disk F C) : Prop :=
  load f disk = .ok (some saved) ∨ load f disk = .ok (some next)

/-- The calls up to the check of the main file all succeed, and the check sees it. -/
def RetiresMain (f : Names F) (faults : Faults F) : Prop :=
  faults (.create f.pending) = none ∧ faults (.write f.pending) = none ∧
    faults (.sync f.pending) = none ∧ faults (.look f.main 0) = none

/-- After `n` calls the backup is removed or overwritten and the new file is not in place:
the backup was seen and removed, or it was not seen and the unreadable file was renamed
over it. -/
def LosesBackup (f : Names F) (faults : Faults F) (n : ℕ) : Prop :=
  RetiresMain f faults ∧ 6 ≤ n ∧
    if faults (.look f.backup 0) = none then
      faults (.remove f.backup) = none ∧ ¬(faults (.rename f.main f.backup) = none ∧
        faults (.rename f.pending f.main) = none ∧ 8 ≤ n)
    else faults (.rename f.main f.backup) = none ∧
      ¬(faults (.rename f.pending f.main) = none ∧ 7 ≤ n)

section

variable {f : Names F} {faults : Faults F} {saved next : C} {disk : Disk F C}

theorem finds_main {content : C} (hmain : disk f.main = some (.whole content))
    (h : content = saved ∨ content = next) : Finds f saved next disk := by
  unfold Finds
  rw [load_whole hmain]
  rcases h with rfl | rfl
  · exact .inl rfl
  · exact .inr rfl

theorem finds_backup (hmain : disk f.main = some .torn)
    (hbackup : disk f.backup = some (.whole saved)) : Finds f saved next disk := by
  refine .inl ?_
  simp only [load, loadBackup, hmain, hbackup, Option.isSome_some, if_true]

/-- The main file is unreadable and there is no backup. -/
theorem not_finds_torn (hmain : disk f.main = some .torn) (hbackup : disk f.backup = none) :
    ¬Finds f saved next disk := by
  simp [Finds, load, hmain, hbackup]

/-- Only the backup is there, and it is unreadable. -/
theorem not_finds_absent (hmain : disk f.main = none) (hbackup : disk f.backup = some .torn) :
    ¬Finds f saved next disk := by
  simp [Finds, load, loadBackup, hmain, hbackup]

/-! ## The tail of a replacement -/

variable [DecidableEq F]

/-- Publishing while the unreadable file is the backup. The rollback would only give it its
old name. -/
theorem publish_over_torn (hpending : disk f.pending = some (.whole next))
    (hmain : disk f.main = none) (hbackup : disk f.backup = some .torn) (n : ℕ) :
    Finds f saved next (cut faults n (publish f) disk) ↔
      faults (.rename f.pending f.main) = none ∧ 1 ≤ n := by
  cases n with
  | zero =>
      rw [cut_zero]
      exact iff_of_false (not_finds_absent hmain hbackup) (by simp)
  | succ n =>
      unfold publish
      cases hrename : faults (.rename f.pending f.main) with
      | none =>
          refine iff_of_true ?_ ⟨rfl, Nat.le_add_left 1 n⟩
          rw [cut_step_ok hrename (by simp only [perform, hpending]; rfl), cut_done]
          exact finds_main (by simp) (.inr rfl)
      | some error =>
          refine iff_of_false ?_ (by simp)
          rw [cut_step_fault hrename]
          rcases n with _ | n
          · exact not_finds_absent hmain hbackup
          rw [cut_look]
          split
          · rcases n with _ | n
            · exact not_finds_absent hmain hbackup
            cases hback : faults (.rename f.backup f.main) with
            | some rollback =>
                rw [cut_step_fault hback]
                simpa [failed] using not_finds_absent hmain hbackup
            | none =>
                rw [cut_step_ok hback (by simp only [perform, hbackup]; rfl)]
                simpa [failed] using not_finds_torn (by simp) (by simp)
          · simpa [failed] using not_finds_absent hmain hbackup

/-- Publishing without having moved the unreadable file: the rollback repairs it. -/
theorem publish_over_backup (hpending : disk f.pending = some (.whole next))
    (hmain : disk f.main = some .torn) (hbackup : disk f.backup = some (.whole saved)) (n : ℕ) :
    Finds f saved next (cut faults n (publish f) disk) := by
  have hnow : Finds f saved next disk := finds_backup hmain hbackup
  rcases n with _ | n
  · simpa using hnow
  unfold publish
  cases hrename : faults (.rename f.pending f.main) with
  | none =>
      rw [cut_step_ok hrename (by simp only [perform, hpending]; rfl), cut_done]
      exact finds_main (by simp) (.inr rfl)
  | some error =>
      rw [cut_step_fault hrename]
      rcases n with _ | n
      · simpa using hnow
      rw [cut_look]
      split
      · rcases n with _ | n
        · simpa using hnow
        cases hback : faults (.rename f.backup f.main) with
        | some rollback =>
            rw [cut_step_fault hback]
            simpa [failed] using hnow
        | none =>
            rw [cut_step_ok hback (by simp only [perform, hbackup]; rfl)]
            simp only [failed, cut_done]
            exact finds_main (by simp) (.inl rfl)
      · simpa [failed] using hnow

/-- The unreadable file takes the backup's name. -/
theorem move_torn (hpending : disk f.pending = some (.whole next))
    (hmain : disk f.main = some .torn) (n : ℕ) (hrename : faults (.rename f.main f.backup) = none) :
    Finds f saved next
        (cut faults (n + 1) (.step (.rename f.main f.backup) (publish f) failed) disk) ↔
      faults (.rename f.pending f.main) = none ∧ 1 ≤ n := by
  rw [cut_step_ok hrename (by simp only [perform, hmain]; rfl)]
  exact publish_over_torn (by simpa using hpending) (by simp) (by simp) n

/-- The backup is seen: it is removed, and the unreadable file takes its name. -/
theorem remove_backup (hpending : disk f.pending = some (.whole next))
    (hmain : disk f.main = some .torn) (hbackup : disk f.backup = some (.whole saved)) (n : ℕ) :
    Finds f saved next (cut faults n
        (.step (.remove f.backup) (.step (.rename f.main f.backup) (publish f) failed) failed)
        disk) ↔
      ¬(1 ≤ n ∧ faults (.remove f.backup) = none ∧ ¬(faults (.rename f.main f.backup) = none ∧
        faults (.rename f.pending f.main) = none ∧ 3 ≤ n)) := by
  have hnow : Finds f saved next disk := finds_backup hmain hbackup
  rcases n with _ | n
  · simpa using hnow
  cases hremove : faults (.remove f.backup) with
  | some error =>
      rw [cut_step_fault hremove]
      simpa [failed] using hnow
  | none =>
      rw [cut_step_ok hremove (by simp only [perform, hbackup]; rfl)]
      have hgone : ¬Finds f saved next (Function.update disk f.backup none) :=
        not_finds_torn (by simpa using hmain) (by simp)
      rcases n with _ | n
      · simpa using hgone
      cases hrename : faults (.rename f.main f.backup) with
      | some error =>
          rw [cut_step_fault hrename]
          simpa [failed] using hgone
      | none =>
          rw [move_torn (by simpa using hpending) (by simpa using hmain) n hrename]
          grind

/-- The backup is not seen: the unreadable file is renamed over it. -/
theorem overwrite_backup (hpending : disk f.pending = some (.whole next))
    (hmain : disk f.main = some .torn) (hbackup : disk f.backup = some (.whole saved)) (n : ℕ) :
    Finds f saved next (cut faults n (.step (.rename f.main f.backup) (publish f) failed) disk) ↔
      ¬(1 ≤ n ∧ faults (.rename f.main f.backup) = none ∧
        ¬(faults (.rename f.pending f.main) = none ∧ 2 ≤ n)) := by
  have hnow : Finds f saved next disk := finds_backup hmain hbackup
  rcases n with _ | n
  · simpa using hnow
  cases hrename : faults (.rename f.main f.backup) with
  | some error =>
      rw [cut_step_fault hrename]
      simpa [failed] using hnow
  | none =>
      rw [move_torn hpending hmain n hrename]
      grind

theorem retain_torn (hpending : disk f.pending = some (.whole next))
    (hmain : disk f.main = some .torn) (hbackup : disk f.backup = some (.whole saved)) (n : ℕ) :
    Finds f saved next (cut faults n (retainPrevious f) disk) ↔
      ¬(faults (.look f.main 0) = none ∧ 3 ≤ n ∧
        if faults (.look f.backup 0) = none then
          faults (.remove f.backup) = none ∧ ¬(faults (.rename f.main f.backup) = none ∧
            faults (.rename f.pending f.main) = none ∧ 5 ≤ n)
        else faults (.rename f.main f.backup) = none ∧
          ¬(faults (.rename f.pending f.main) = none ∧ 4 ≤ n)) := by
  have hnow : Finds f saved next disk := finds_backup hmain hbackup
  rcases n with _ | n
  · simpa using hnow
  unfold retainPrevious
  rw [cut_look]
  cases hlook : faults (.look f.main 0) with
  | some error =>
      simpa [present, hlook] using publish_over_backup hpending hmain hbackup n
  | none =>
      simp only [present, hmain, hlook, Option.isSome_some, Option.isNone_none, Bool.and_self,
        if_true, true_and]
      rcases n with _ | n
      · simpa using hnow
      rw [cut_look]
      cases hlookBackup : faults (.look f.backup 0) with
      | none =>
          simp only [present, hbackup, hlookBackup, Option.isSome_some, Option.isNone_none,
            Bool.and_self, if_true]
          rw [remove_backup hpending hmain hbackup n]
          grind
      | some error =>
          simp only [present, hlookBackup, Option.isNone_some, Bool.and_false, Bool.false_eq_true,
            if_false, reduceCtorEq]
          rw [overwrite_backup hpending hmain hbackup n]
          grind

/-- A reader finds a content after `n` calls of the replacement exactly when they have not lost
the backup. -/
theorem finds_cut_iff (hmain : disk f.main = some .torn)
    (hbackup : disk f.backup = some (.whole saved)) (n : ℕ) :
    Finds f saved next (cut faults n (replace f next) disk) ↔ ¬LosesBackup f faults n := by
  have hpend : ∀ found, Finds f saved next (Function.update disk f.pending found) :=
    fun found => finds_backup (by simpa using hmain) (by simpa using hbackup)
  unfold replace LosesBackup RetiresMain
  rcases n with _ | n
  · simpa using finds_backup hmain hbackup
  cases hcreate : faults (.create f.pending) with
  | some error =>
      rw [cut_step_fault hcreate]
      simpa [failed] using finds_backup hmain hbackup
  | none =>
      rw [cut_step_ok hcreate rfl]
      rcases n with _ | n
      · simpa using hpend (some .torn)
      cases hwrite : faults (.write f.pending) with
      | some error =>
          rw [cut_write_fault hwrite, Function.update_idem]
          simpa [failed] using hpend (some .torn)
      | none =>
          rw [cut_write_ok hwrite, Function.update_idem]
          rcases n with _ | n
          · simpa using hpend (some (.whole next))
          cases hsync : faults (.sync f.pending) with
          | some error =>
              rw [cut_step_fault hsync]
              simpa [failed] using hpend (some (.whole next))
          | none =>
              rw [cut_step_ok hsync rfl, retain_torn (by simp) (by simpa using hmain)
                (by simpa using hbackup) n]
              grind

omit [DecidableEq F] in
theorem losesBackup_late {n : ℕ} (hn : 8 ≤ n) :
    LosesBackup f faults n ↔ LosesBackup f faults 8 := by
  unfold LosesBackup
  have hsix : 6 ≤ n := by omega
  have hseven : 7 ≤ n := by omega
  simp [hn, hsix, hseven]

end

end ReplacedFiles
