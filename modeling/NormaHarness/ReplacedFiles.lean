import NormaHarness.FilePrograms

/-!
# Replacing a file through a pending file and a backup

New content is written beside the file, the file becomes the backup, and the pending
file takes its name; when that last step fails, the backup is put back and its own
failure is ignored. A reader prefers the file and falls back on the backup. Wherever a
replacement stops, the reader finds the old content or the new, unless a check misses
the file and the rollback puts an older backup in its place.
-/
namespace ReplacedFiles
open FilePrograms

/-- The names of the three files, which differ. -/
structure Names (F : Type*) where
  main : F
  backup : F
  pending : F
  backup_ne_main : backup ≠ main
  pending_ne_main : pending ≠ main
  pending_ne_backup : pending ≠ backup

attribute [simp] Names.backup_ne_main Names.pending_ne_main Names.pending_ne_backup

variable {F C : Type*}

@[simp] theorem Names.main_ne_backup (f : Names F) : f.main ≠ f.backup := f.backup_ne_main.symm

@[simp] theorem Names.main_ne_pending (f : Names F) : f.main ≠ f.pending := f.pending_ne_main.symm

@[simp] theorem Names.backup_ne_pending (f : Names F) : f.backup ≠ f.pending :=
  f.pending_ne_backup.symm

abbrev Replacement (F C : Type*) := Program F C (Except String Unit)

def failed (error : String) : Replacement F C := .done (.error error)

/-- The pending file takes the main name; on failure the backup is put back. -/
def publish (f : Names F) : Replacement F C :=
  .step (.rename f.pending f.main) (.done (.ok ())) fun error =>
    .look f.backup 1 fun backup =>
      if backup then .step (.rename f.backup f.main) (failed error) fun _ => failed error
      else failed error

def retainPrevious (f : Names F) : Replacement F C :=
  .look f.main 0 fun main =>
    if main then
      .look f.backup 0 fun backup =>
        if backup then
          .step (.remove f.backup) (.step (.rename f.main f.backup) (publish f) failed) failed
        else .step (.rename f.main f.backup) (publish f) failed
    else publish f

def replace (f : Names F) (content : C) : Replacement F C :=
  .step (.create f.pending)
    (.write f.pending content (.step (.sync f.pending) (retainPrevious f) failed) failed) failed

/-! ## Reading -/

/-- The content of the backup, if there is one; a torn backup is an error. -/
def loadBackup (f : Names F) (disk : Disk F C) : Except F (Option C) :=
  match disk f.backup with
  | none => .ok none
  | some (.whole content) => .ok (some content)
  | some .torn => .error f.backup

def load (f : Names F) (disk : Disk F C) : Except F (Option C) :=
  match disk f.main with
  | none => loadBackup f disk
  | some (.whole content) => .ok (some content)
  | some .torn => if (disk f.backup).isSome then loadBackup f disk else .error f.main

/-- Neither of the two files that are read is torn. -/
def Intact (f : Names F) (disk : Disk F C) : Prop :=
  disk f.main ≠ some .torn ∧ disk f.backup ≠ some .torn

/-- The checks miss the main file, the pending file cannot take its name, and the
rollback replaces it by the backup of an earlier replacement. -/
def RollsBackStale (f : Names F) (faults : Faults F) (disk : Disk F C) : Prop :=
  disk f.main ≠ none ∧ disk f.backup ≠ none ∧
    faults (.create f.pending) = none ∧ faults (.write f.pending) = none ∧
    faults (.sync f.pending) = none ∧ faults (.look f.main 0) ≠ none ∧
    faults (.rename f.pending f.main) ≠ none ∧ faults (.look f.backup 1) = none ∧
    faults (.rename f.backup f.main) = none

variable {f : Names F}

theorem load_congr {disk disk' : Disk F C} (hmain : disk' f.main = disk f.main)
    (hbackup : disk' f.backup = disk f.backup) : load f disk' = load f disk := by
  unfold load loadBackup
  rw [hmain, hbackup]

theorem load_whole {disk : Disk F C} {content : C} (h : disk f.main = some (.whole content)) :
    load f disk = .ok (some content) := by
  unfold load
  rw [h]

theorem load_absent {disk : Disk F C} (h : disk f.main = none) :
    load f disk = loadBackup f disk := by
  unfold load
  rw [h]

/-- Behind a torn file the backup is read. -/
theorem load_fallback {disk : Disk F C} {content : C} (hmain : disk f.main = some .torn) :
    load f disk = .ok (some content) ↔ disk f.backup = some (.whole content) := by
  unfold load loadBackup
  rw [hmain]
  rcases disk f.backup with _ | ⟨found⟩ | _ <;> simp

theorem Intact.congr {disk disk' : Disk F C} (h : Intact f disk)
    (hmain : disk' f.main = disk f.main) (hbackup : disk' f.backup = disk f.backup) :
    Intact f disk' :=
  ⟨hmain ▸ h.1, hbackup ▸ h.2⟩

/-! ## One replacement -/

variable [DecidableEq F]

/-- Wherever it is stopped, the directory reads as before or as the new content. -/
def Recoverable (f : Names F) (before : Except F (Option C)) (content : C) (disk : Disk F C) :
    Prop :=
  Intact f disk ∧ (load f disk = before ∨ load f disk = .ok (some content))

/-- A replacement that returns has changed what is read exactly when it succeeded. -/
def Settled (f : Names F) (before : Except F (Option C)) (content : C)
    (result : Except String Unit) (disk : Disk F C) : Prop :=
  Intact f disk ∧ load f disk = match result with
    | .ok () => .ok (some content)
    | .error _ => before

section

variable {faults : Faults F} {content : C} {disk : Disk F C} {before : Except F (Option C)}

theorem failed_guarded (hintact : Intact f disk) (hload : load f disk = before) (error : String) :
    Guarded faults (Recoverable f before content) (Settled f before content) (failed error) disk :=
  .done _ _ ⟨hintact, .inl hload⟩ ⟨hintact, hload⟩

theorem rename_refused {source target : F} {found : Content C} {error : String}
    (hsource : disk source = some found)
    (h : Refuses faults disk (.rename source target) error) :
    faults (.rename source target) ≠ none := by
  rcases h with hf | ⟨_, hp⟩
  · rw [hf]
    exact Option.some_ne_none error
  · simp only [perform, hsource] at hp
    cases hp

theorem publish_guarded (hpending : disk f.pending = some (.whole content))
    (hintact : Intact f disk) (hload : load f disk = before)
    (hroll : disk f.main ≠ none → disk f.backup ≠ none →
      faults (.rename f.pending f.main) ≠ none → faults (.look f.backup 1) = none →
        faults (.rename f.backup f.main) ≠ none) :
    Guarded faults (Recoverable f before content) (Settled f before content) (publish f) disk := by
  refine .step _ _ _ _ ⟨hintact, .inl hload⟩ (fun disk' _ hp => ?_) fun error hrefused => ?_
  · simp only [perform, hpending, Except.ok.injEq] at hp
    subst hp
    have hnew : Intact f (Function.update (Function.update disk f.pending none) f.main
        (some (.whole content))) := by
      refine ⟨by simp, ?_⟩
      simpa using hintact.2
    exact .done _ _ ⟨hnew, .inr (load_whole (by simp))⟩ ⟨hnew, load_whole (by simp)⟩
  · have hpublish := rename_refused hpending hrefused
    refine .look _ _ _ _ ⟨hintact, .inl hload⟩ ?_
    cases hpresent : present faults disk f.backup 1 with
    | false => exact failed_guarded hintact hload error
    | true =>
        simp only [present, Bool.and_eq_true, Option.isNone_iff_eq_none] at hpresent
        obtain ⟨hbackup, hlook⟩ := hpresent
        obtain ⟨found, hfound⟩ := Option.isSome_iff_exists.mp hbackup
        refine .step _ _ _ _ ⟨hintact, .inl hload⟩ (fun disk' hf hp => ?_)
          fun _ _ => failed_guarded hintact hload error
        -- The backup may only be put back where the main file is gone.
        have hmain : disk f.main = none := by
          by_contra hmain
          exact hroll hmain (by simp [hfound]) hpublish hlook hf
        simp only [perform, hfound, Except.ok.injEq] at hp
        subst hp
        rcases found with ⟨old⟩ | _
        · refine failed_guarded ⟨by simp, by simp⟩ ?_ error
          rw [← hload, load_absent hmain, loadBackup, hfound]
          exact load_whole (by simp)
        · exact absurd hfound hintact.2

theorem move_guarded {old : C} (hpending : disk f.pending = some (.whole content))
    (hmain : disk f.main = some (.whole old)) (hintact : Intact f disk)
    (hload : load f disk = before) :
    Guarded faults (Recoverable f before content) (Settled f before content)
      (.step (.rename f.main f.backup) (publish f) failed) disk := by
  refine .step _ _ _ _ ⟨hintact, .inl hload⟩ (fun disk' _ hp => ?_)
    fun error _ => failed_guarded hintact hload error
  simp only [perform, hmain, Except.ok.injEq] at hp
  subst hp
  refine publish_guarded (by simpa using hpending) ⟨by simp, by simp⟩ ?_
    fun hnone => absurd (by simp) hnone
  rw [load_absent (by simp), ← hload, load_whole hmain]
  simp [loadBackup]

theorem retainPrevious_guarded (hpending : disk f.pending = some (.whole content))
    (hintact : Intact f disk) (hload : load f disk = before)
    (hroll : disk f.main ≠ none → disk f.backup ≠ none → faults (.look f.main 0) ≠ none →
      faults (.rename f.pending f.main) ≠ none → faults (.look f.backup 1) = none →
        faults (.rename f.backup f.main) ≠ none) :
    Guarded faults (Recoverable f before content) (Settled f before content) (retainPrevious f)
      disk := by
  refine .look _ _ _ _ ⟨hintact, .inl hload⟩ ?_
  cases hlook : present faults disk f.main 0 with
  | false =>
      refine publish_guarded hpending hintact hload fun hmain hbackup => hroll hmain hbackup ?_
      obtain ⟨found, hfound⟩ := Option.ne_none_iff_exists'.mp hmain
      simpa [present, hfound, Option.ne_none_iff_isSome] using hlook
  | true =>
      simp only [present, Bool.and_eq_true] at hlook
      obtain ⟨found, hfound⟩ := Option.isSome_iff_exists.mp hlook.1
      rcases found with ⟨old⟩ | _
      · refine .look _ _ _ _ ⟨hintact, .inl hload⟩ ?_
        cases present faults disk f.backup 0 with
        | false => exact move_guarded hpending hfound hintact hload
        | true =>
            refine .step _ _ _ _ ⟨hintact, .inl hload⟩ (fun disk' _ hp => ?_)
              fun error _ => failed_guarded hintact hload error
            simp only [perform] at hp
            split at hp
            · cases hp
            · simp only [Except.ok.injEq] at hp
              subst hp
              refine move_guarded (by simpa using hpending) (by simpa using hfound)
                ⟨by simpa using hintact.1, by simp⟩ ?_
              rw [← hload, load_whole hfound]
              exact load_whole (by simpa using hfound)
      · exact absurd hfound hintact.1

variable (content) in
/-- Replacing in an intact directory, with or without faults. -/
theorem replace_guarded (hintact : Intact f disk) (hroll : ¬RollsBackStale f faults disk) :
    Guarded faults (Recoverable f (load f disk) content) (Settled f (load f disk) content)
      (replace f content) disk := by
  have hpend : ∀ found, Intact f (Function.update disk f.pending found) ∧
      load f (Function.update disk f.pending found) = load f disk := by
    intro found
    refine ⟨⟨by simpa using hintact.1, by simpa using hintact.2⟩, ?_⟩
    exact load_congr (by simp) (by simp)
  refine .step _ _ _ _ ⟨hintact, .inl rfl⟩ (fun disk' hcreate hp => ?_)
    fun error _ => failed_guarded hintact rfl error
  simp only [perform, Except.ok.injEq] at hp
  subst hp
  obtain ⟨htorn, hloadTorn⟩ := hpend (some .torn)
  refine .write _ _ _ _ _ ⟨htorn, .inl hloadTorn⟩ (fun hwrite => ?_) fun error _ => ?_
  · rw [Function.update_idem]
    obtain ⟨hwhole, hloadWhole⟩ := hpend (some (.whole content))
    refine .step _ _ _ _ ⟨hwhole, .inl hloadWhole⟩ (fun disk' hsync hp => ?_)
      fun error _ => failed_guarded hwhole hloadWhole error
    simp only [perform, Except.ok.injEq] at hp
    subst hp
    refine retainPrevious_guarded (by simp) hwhole hloadWhole fun hmain hbackup hlook hrename
      hbackupLook hback => hroll ⟨by simpa using hmain, by simpa using hbackup, hcreate, hwrite,
        hsync, hlook, hrename, hbackupLook, hback⟩
  · rw [Function.update_idem]
    exact failed_guarded htorn hloadTorn error

variable (content) in
/-- Whether a replacement succeeds does not depend on the new content. -/
theorem replace_result (other : C) :
    (exec faults (replace f content) disk).1 = (exec faults (replace f other) disk).1 := by
  unfold replace
  cases hcreate : faults (.create f.pending) with
  | some error => rw [exec_step_fault hcreate, exec_step_fault hcreate]
  | none =>
      rw [exec_step_ok hcreate rfl, exec_step_ok hcreate rfl]
      cases hwrite : faults (.write f.pending) with
      | some error =>
          rw [exec_write_fault hwrite, exec_write_fault hwrite]
      | none =>
          rw [exec_write_ok hwrite, exec_write_ok hwrite]
          exact exec_sameFiles faults _ fun file => by
            by_cases hfile : file = f.pending
            · simp [hfile]
            · simp [hfile]

end

/-! ## When a replacement fails -/

/-- A file call that the replacement reaches fails, other than one of the rollback. -/
def Fails (f : Names F) (faults : Faults F) (disk : Disk F C) : Prop :=
  faults (.create f.pending) ≠ none ∨ faults (.write f.pending) ≠ none ∨
    faults (.sync f.pending) ≠ none ∨
    (present faults disk f.main 0 = true ∧
      (present faults disk f.backup 0 = true ∧ faults (.remove f.backup) ≠ none ∨
        faults (.rename f.main f.backup) ≠ none)) ∨
    faults (.rename f.pending f.main) ≠ none

omit [DecidableEq F] in
/-- A replacement that rolls back has failed. -/
theorem RollsBackStale.fails {faults : Faults F} {disk : Disk F C}
    (h : RollsBackStale f faults disk) : Fails f faults disk :=
  .inr (.inr (.inr (.inr h.2.2.2.2.2.2.1)))

def Errs (faults : Faults F) (program : Replacement F C) (disk : Disk F C) : Prop :=
  ∃ error, (exec faults program disk).1 = .error error

section

variable {faults : Faults F} {disk : Disk F C}

variable (faults disk) in
theorem errs_failed (error : String) : Errs faults (failed error) disk := ⟨error, rfl⟩

/-- A program errs when its content cannot be prepared, or when what follows errs. -/
theorem errs_prepare {next : Replacement F C} :
    Errs faults (.prepare next failed) disk ↔ faults .prepare ≠ none ∨ Errs faults next disk := by
  unfold Errs
  cases hprepare : faults .prepare with
  | none =>
      rw [exec_prepare_ok hprepare]
      simp
  | some error =>
      rw [exec_prepare_fault hprepare]
      exact iff_of_true (errs_failed faults disk error) (.inl (by simp))

/-- A step that cannot fail on its own errs when it is made to fail or when what
follows it errs. -/
theorem errs_step {call : Call F} {next : Replacement F C} {onError : String → Replacement F C}
    {disk' : Disk F C} (hp : perform disk call = .ok disk')
    (he : ∀ error, Errs faults (onError error) disk) :
    Errs faults (.step call next onError) disk ↔ faults call ≠ none ∨ Errs faults next disk' := by
  unfold Errs at he ⊢
  cases hcall : faults call with
  | none =>
      rw [exec_step_ok hcall hp]
      simp
  | some error =>
      rw [exec_step_fault hcall]
      exact iff_of_true (he error) (.inl (by simp))

theorem errs_look {file : F} {attempt : ℕ} {next : Bool → Replacement F C} :
    Errs faults (.look file attempt next) disk ↔
      Errs faults (next (present faults disk file attempt)) disk := by
  unfold Errs
  rw [exec_look]

theorem errs_publish (hpending : disk f.pending ≠ none) :
    Errs faults (publish f) disk ↔ faults (.rename f.pending f.main) ≠ none := by
  obtain ⟨content, hcontent⟩ := Option.ne_none_iff_exists'.mp hpending
  have hrollback : ∀ error, Errs faults (.look f.backup 1 fun backup =>
      if backup then .step (.rename f.backup f.main) (failed error) fun _ => failed error
      else failed error) disk := by
    intro error
    rw [errs_look]
    split
    · unfold Errs exec
      split
      · exact errs_failed faults disk error
      · split
        · exact errs_failed faults disk error
        · rename_i disk' _
          exact errs_failed faults disk' error
    · exact errs_failed faults disk error
  unfold publish
  rw [errs_step (by simp only [perform, hcontent]; rfl) hrollback]
  have hdone : ∀ disk', ¬Errs faults (.done (.ok ())) (disk' : Disk F C) := by
    rintro disk' ⟨error, he⟩
    cases he
  simp [hdone]

theorem errs_retainPrevious (hpending : disk f.pending ≠ none) :
    Errs faults (retainPrevious f) disk ↔
      (present faults disk f.main 0 = true ∧
        (present faults disk f.backup 0 = true ∧ faults (.remove f.backup) ≠ none ∨
          faults (.rename f.main f.backup) ≠ none)) ∨
      faults (.rename f.pending f.main) ≠ none := by
  have hmove : ∀ disk : Disk F C, disk f.pending ≠ none → disk f.main ≠ none →
      (Errs faults (.step (.rename f.main f.backup) (publish f) failed) disk ↔
        faults (.rename f.main f.backup) ≠ none ∨ faults (.rename f.pending f.main) ≠ none) := by
    intro disk hpending hmain
    obtain ⟨content, hcontent⟩ := Option.ne_none_iff_exists'.mp hmain
    rw [errs_step (by simp only [perform, hcontent]; rfl) fun error => errs_failed _ _ _,
      errs_publish (by simpa using hpending)]
  unfold retainPrevious
  rw [errs_look]
  cases hmain : present faults disk f.main 0 with
  | false => simp [errs_publish hpending]
  | true =>
      have hm : disk f.main ≠ none := by
        intro hnone
        simp [present, hnone] at hmain
      simp only [if_true, errs_look, true_and]
      cases hbackup : present faults disk f.backup 0 with
      | false => simp [hmove disk hpending hm]
      | true =>
          have hb : disk f.backup ≠ none := by
            intro hnone
            simp [present, hnone] at hbackup
          obtain ⟨content, hcontent⟩ := Option.ne_none_iff_exists'.mp hb
          simp only [if_true, true_and]
          rw [errs_step (by simp only [perform, hcontent]; rfl) fun error => errs_failed _ _ _,
            hmove _ (by simpa using hpending) (by simpa using hm), or_assoc]

/-- A replacement reports an error exactly when a call other than the rollback's is made to
fail. -/
theorem errs_replace (f : Names F) (content : C) (disk : Disk F C) :
    Errs faults (replace f content) disk ↔ Fails f faults disk := by
  unfold replace Fails
  rw [errs_step rfl fun error => errs_failed _ _ _]
  refine or_congr Iff.rfl ?_
  cases hwrite : faults (.write f.pending) with
  | some error =>
      refine iff_of_true ?_ (.inl (by simp))
      unfold Errs
      rw [exec_write_fault hwrite]
      exact errs_failed _ _ _
  | none =>
      have hstep : Errs faults (.write f.pending content
          (.step (.sync f.pending) (retainPrevious f) failed) failed)
          (Function.update disk f.pending (some .torn)) ↔
          Errs faults (.step (.sync f.pending) (retainPrevious f) failed)
            (Function.update (Function.update disk f.pending (some .torn)) f.pending
              (some (.whole content))) := by
        unfold Errs
        rw [exec_write_ok hwrite]
      rw [hstep, errs_step rfl fun error => errs_failed _ _ _, errs_retainPrevious (by simp)]
      simp [present]

/-! ## Up to a stale rollback -/

variable {content : C}

variable (content) in
/-- Up to its rollback, a replacement that will roll back has only touched the pending file. -/
theorem cut_before_rollback (h : RollsBackStale f faults disk) {n : ℕ} (hn : n < 7) :
    (cut faults n (replace f content) disk) f.main = disk f.main ∧
      (cut faults n (replace f content) disk) f.backup = disk f.backup := by
  obtain ⟨_, hbackup, hcreate, hwrite, hsync, hlook, hrename, _, _⟩ := h
  obtain ⟨old, hold⟩ := Option.ne_none_iff_exists'.mp hbackup
  obtain ⟨missed, hmissed⟩ := Option.ne_none_iff_exists'.mp hlook
  obtain ⟨error, herror⟩ := Option.ne_none_iff_exists'.mp hrename
  interval_cases n <;>
    simp [replace, retainPrevious, publish, cut, perform, present, hcreate, hwrite, hsync,
      hmissed, herror, hold]

variable (content) in
theorem RollsBackStale.cut_intact (h : RollsBackStale f faults disk) (hintact : Intact f disk)
    (n : ℕ) : Intact f (cut faults n (replace f content) disk) := by
  by_cases hn : n < 7
  · obtain ⟨hmain, hbackup⟩ := cut_before_rollback content h hn
    exact hintact.congr hmain hbackup
  · obtain ⟨n, rfl⟩ := Nat.exists_eq_add_of_le' (Nat.le_of_not_lt hn)
    obtain ⟨_, hbackup, hcreate, hwrite, hsync, hlook, hrename, hlookBackup, hback⟩ := h
    obtain ⟨old, hold⟩ := Option.ne_none_iff_exists'.mp hbackup
    obtain ⟨missed, hmissed⟩ := Option.ne_none_iff_exists'.mp hlook
    obtain ⟨error, herror⟩ := Option.ne_none_iff_exists'.mp hrename
    have hwhole : old ≠ .torn := fun he => hintact.2 (he ▸ hold)
    simp [Intact, replace, retainPrevious, publish, failed, cut, perform, present, hcreate,
      hwrite, hsync, hmissed, herror, hold, hlookBackup, hback, hwhole]

variable (faults content) in
/-- No replacement tears a file that is read, wherever it is stopped. -/
theorem Intact.cut (hintact : Intact f disk) (n : ℕ) :
    Intact f (cut faults n (replace f content) disk) := by
  by_cases hstale : RollsBackStale f faults disk
  · exact hstale.cut_intact content hintact n
  · exact ((replace_guarded content hintact hstale).at_cut n).1

end

end ReplacedFiles
