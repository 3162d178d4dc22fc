import NormaHarness.ReplacedFiles

/-!
# What the files of a disk hold

A program leaves in the files what was there before and what it writes itself, wherever
it is stopped. So a property of contents that every write has holds of every file, and a
crash that tears one file or loses it takes nothing away.
-/
namespace StoredContents
open FilePrograms ReplacedFiles

variable {F C α : Type*}

/-- Every file that can be read as a whole has this property. -/
def Holds (P : C → Prop) (disk : Disk F C) : Prop :=
  ∀ file content, disk file = some (.whole content) → P content

/-- The same of every file but one. -/
def HoldsBut (file : F) (P : C → Prop) (disk : Disk F C) : Prop :=
  ∀ other, other ≠ file → ∀ content, disk other = some (.whole content) → P content

/-- Every content that the program may write has this property. -/
inductive Writes (P : C → Prop) : Program F C α → Prop
  | done (result : α) : Writes P (.done result)
  | prepare (next : Program F C α) (failed : String → Program F C α) :
      Writes P next → (∀ error, Writes P (failed error)) → Writes P (.prepare next failed)
  | look (file : F) (attempt : ℕ) (next : Bool → Program F C α) :
      (∀ found, Writes P (next found)) → Writes P (.look file attempt next)
  | write (file : F) (content : C) (next : Program F C α) (failed : String → Program F C α) :
      P content → Writes P next → (∀ error, Writes P (failed error)) →
      Writes P (.write file content next failed)
  | step (call : Call F) (next : Program F C α) (failed : String → Program F C α) :
      Writes P next → (∀ error, Writes P (failed error)) → Writes P (.step call next failed)

/-- After a crash one file may be torn or gone; the others are as they were. -/
def Crashed (file : F) (disk disk' : Disk F C) : Prop :=
  (∀ other, other ≠ file → disk' other = disk other) ∧
    (disk' file = disk file ∨ disk' file = none ∨ disk' file = some .torn)

theorem Holds.crashed {P : C → Prop} {file : F} {disk disk' : Disk F C} (h : Holds P disk)
    (hcrash : Crashed file disk disk') : Holds P disk' := by
  intro other content hcontent
  by_cases hfile : other = file
  · subst hfile
    rcases hcrash.2 with hsame | hnone | htorn
    · exact h other content (hsame ▸ hcontent)
    · rw [hnone] at hcontent
      cases hcontent
    · rw [htorn] at hcontent
      cases hcontent
  · exact h other content (hcrash.1 other hfile ▸ hcontent)

theorem Holds.mono {P Q : C → Prop} {disk : Disk F C} (h : Holds P disk)
    (hPQ : ∀ content, P content → Q content) : Holds Q disk :=
  fun file content hcontent => hPQ content (h file content hcontent)

variable [DecidableEq F] {P : C → Prop} {disk : Disk F C}

theorem Holds.update (h : Holds P disk) (file : F) {found : Option (Content C)}
    (hfound : ∀ content, found = some (.whole content) → P content) :
    Holds P (Function.update disk file found) := by
  intro other content hcontent
  by_cases hfile : other = file
  · subst hfile
    rw [Function.update_self] at hcontent
    exact hfound content hcontent
  · rw [Function.update_of_ne hfile] at hcontent
    exact h other content hcontent

/-- A call moves contents between files and makes none. -/
theorem Holds.perform (h : Holds P disk) {call : Call F} {disk' : Disk F C}
    (hcall : perform disk call = .ok disk') : Holds P disk' := by
  cases call with
  | prepare =>
      cases hcall
      exact h
  | look file attempt =>
      cases hcall
      exact h
  | create file =>
      cases hcall
      exact h.update file fun content hcontent => by cases hcontent
  | write file =>
      cases hcall
      exact h
  | sync file =>
      cases hcall
      exact h
  | remove file =>
      simp only [FilePrograms.perform] at hcall
      split at hcall
      · cases hcall
      · cases hcall
        exact h.update file fun content hcontent => by cases hcontent
  | rename source target =>
      simp only [FilePrograms.perform] at hcall
      split at hcall
      · cases hcall
      · next found hfound =>
        cases hcall
        refine (h.update source fun content hcontent => by cases hcontent).update target ?_
        intro content hcontent
        cases hcontent
        exact h source content hfound

/-- Wherever the program is stopped, the files hold what they held and what it writes. -/
theorem Writes.guarded {program : Program F C α} (h : Writes P program) (faults : Faults F)
    (hdisk : Holds P disk) :
    Guarded faults (Holds P) (fun _ after => Holds P after) program disk := by
  induction h generalizing disk with
  | done result => exact .done result disk hdisk hdisk
  | prepare next failed _ _ ihNext ihFailed =>
      exact .prepare next failed disk hdisk (fun _ => ihNext hdisk) fun error _ =>
        ihFailed error hdisk
  | look file attempt next _ ih => exact .look file attempt next disk hdisk (ih _ hdisk)
  | write file content next failed hcontent _ _ ihNext ihFailed =>
      refine .write file content next failed disk hdisk (fun _ => ihNext ?_)
        fun error _ => ihFailed error ?_
      · refine hdisk.update file fun written hwritten => ?_
        cases hwritten
        exact hcontent
      · exact hdisk.update file fun written hwritten => by cases hwritten
  | step call next failed _ _ ihNext ihFailed =>
      exact .step call next failed disk hdisk (fun _ _ hcall => ihNext (hdisk.perform hcall))
        fun error _ => ihFailed error hdisk

omit [DecidableEq F] in
/-- Replacing a file writes the new content and nothing else. -/
theorem replace_writes (f : Names F) {content : C} (h : P content) :
    Writes P (replace f content) := by
  have hfailed : ∀ error, Writes P (failed error : Replacement F C) := fun error => .done _
  have hpublish : Writes P (publish f : Replacement F C) := by
    refine .step _ _ _ (.done _) fun error => .look _ _ _ fun found => ?_
    cases found with
    | false => exact hfailed error
    | true => exact .step _ _ _ (hfailed error) fun _ => hfailed error
  have hmove : Writes P (.step (.rename f.main f.backup) (publish f) failed :
      Replacement F C) := .step _ _ _ hpublish hfailed
  refine .step _ _ _ (.write _ _ _ _ h (.step _ _ _ ?_ hfailed) hfailed) hfailed
  refine .look _ _ _ fun found => ?_
  cases found with
  | false => exact hpublish
  | true =>
      refine .look _ _ _ fun backup => ?_
      cases backup with
      | false => exact hmove
      | true => exact .step _ _ _ hmove hfailed

/-! ## A pending file with anything in it -/

omit [DecidableEq F] in
theorem Holds.but (h : Holds P disk) (file : F) : HoldsBut file P disk :=
  fun other _ content hcontent => h other content hcontent

omit [DecidableEq F] in
theorem HoldsBut.mono {file : F} {Q : C → Prop} (h : HoldsBut file P disk)
    (hPQ : ∀ content, P content → Q content) : HoldsBut file Q disk :=
  fun other hother content hcontent => hPQ content (h other hother content hcontent)

theorem HoldsBut.update_self {file : F} (h : HoldsBut file P disk) (found : Option (Content C)) :
    HoldsBut file P (Function.update disk file found) := by
  intro other hother content hcontent
  rw [Function.update_of_ne hother] at hcontent
  exact h other hother content hcontent

omit [DecidableEq F] in
/-- A reader takes the main file or the backup, never the pending file. -/
theorem HoldsBut.load {f : Names F} {content : C} (h : HoldsBut f.pending P disk)
    (hload : load f disk = .ok (some content)) : P content := by
  have hbackup : loadBackup f disk = .ok (some content) → P content := by
    intro hload
    unfold loadBackup at hload
    split at hload
    · cases hload
    · next found hfound =>
      cases hload
      exact h f.backup (by simp) _ hfound
    · cases hload
  unfold ReplacedFiles.load at hload
  split at hload
  · exact hbackup hload
  · next found hfound =>
    cases hload
    exact h f.main (by simp) _ hfound
  · split_ifs at hload
    exact hbackup hload

/-- A replacement makes its pending file anew before it takes the place of another. -/
theorem HoldsBut.replaced (f : Names F) {content : C} (h : HoldsBut f.pending P disk)
    (hcontent : P content) (faults : Faults F) :
    Guarded faults (HoldsBut f.pending P) (fun _ after => HoldsBut f.pending P after)
      (replace f content) disk := by
  have hwrites : Writes P (replace f content) := replace_writes f hcontent
  unfold replace at hwrites ⊢
  cases hwrites with
  | step call next failed hnext hfailed =>
      refine .step _ _ _ disk h (fun disk' _ hcall => ?_) fun error _ => .done _ _ h h
      have hcreated : Holds P disk' := by
        cases hcall
        intro other found hfound
        by_cases hother : other = f.pending
        · rw [hother, Function.update_self] at hfound
          cases hfound
        · rw [Function.update_of_ne hother] at hfound
          exact h other hother found hfound
      exact (hnext.guarded faults hcreated).mono (fun _ hall => hall.but _)
        fun _ _ hall => hall.but _

end StoredContents
