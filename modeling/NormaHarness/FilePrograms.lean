import Mathlib

/-!
# Programs over a directory of files

A program is a tree of file calls, each with one continuation for success and one
for failure, so that every error path is part of the program text. The environment
chooses which calls fail. A failed write may have torn the file; every other failed
call is without effect. What is written may have to be prepared first, as by encoding it;
that touches no file and may fail too. Existence checks are numbered, because the library reports a
failed check as absence and may do so for one check and not for the next.
-/
namespace FilePrograms

inductive Content (C : Type*) where
  | whole (content : C)
  | torn
  deriving DecidableEq

abbrev Disk (F C : Type*) := F → Option (Content C)

inductive Call (F : Type*) where
  | prepare
  | look (file : F) (attempt : ℕ)
  | create (file : F)
  | write (file : F)
  | sync (file : F)
  | remove (file : F)
  | rename (source target : F)
  deriving DecidableEq

/-- The calls that fail, with their errors. -/
abbrev Faults (F : Type*) := Call F → Option String

inductive Program (F C α : Type*) where
  | done (result : α)
  | prepare (next : Program F C α) (failed : String → Program F C α)
  | look (file : F) (attempt : ℕ) (next : Bool → Program F C α)
  | write (file : F) (content : C) (next : Program F C α) (failed : String → Program F C α)
  | step (call : Call F) (next : Program F C α) (failed : String → Program F C α)

variable {F C α : Type*} [DecidableEq F]

def notFound : String := "entity not found"

/-- What a call does when the environment lets it through. -/
def perform (disk : Disk F C) : Call F → Except String (Disk F C)
  | .prepare => .ok disk
  | .look _ _ => .ok disk
  | .create file => .ok (Function.update disk file (some .torn))
  | .write _ => .ok disk
  | .sync _ => .ok disk
  | .remove file =>
      match disk file with
      | none => .error notFound
      | some _ => .ok (Function.update disk file none)
  | .rename source target =>
      match disk source with
      | none => .error notFound
      | some content =>
          .ok (Function.update (Function.update disk source none) target (some content))

def present (faults : Faults F) (disk : Disk F C) (file : F) (attempt : ℕ) : Bool :=
  (disk file).isSome && (faults (.look file attempt)).isNone

def exec (faults : Faults F) : Program F C α → Disk F C → α × Disk F C
  | .done result, disk => (result, disk)
  | .prepare next failed, disk =>
      match faults .prepare with
      | none => exec faults next disk
      | some error => exec faults (failed error) disk
  | .look file attempt next, disk => exec faults (next (present faults disk file attempt)) disk
  | .write file content next failed, disk =>
      match faults (.write file) with
      | none => exec faults next (Function.update disk file (some (.whole content)))
      | some error => exec faults (failed error) (Function.update disk file (some .torn))
  | .step call next failed, disk =>
      match faults call with
      | some error => exec faults (failed error) disk
      | none =>
        match perform disk call with
        | .error error => exec faults (failed error) disk
        | .ok disk => exec faults next disk

attribute [local simp] exec

/-! ## Running one call at a time -/

theorem exec_look (faults : Faults F) (file : F) (attempt : ℕ) (next : Bool → Program F C α)
    (disk : Disk F C) : exec faults (.look file attempt next) disk =
      exec faults (next (present faults disk file attempt)) disk := by
  simp only [exec]

theorem exec_prepare_ok {faults : Faults F} (h : faults .prepare = none) (next : Program F C α)
    (failed : String → Program F C α) (disk : Disk F C) :
    exec faults (.prepare next failed) disk = exec faults next disk := by
  simp only [exec, h]

theorem exec_prepare_fault {faults : Faults F} {error : String}
    (h : faults .prepare = some error) (next : Program F C α) (failed : String → Program F C α)
    (disk : Disk F C) :
    exec faults (.prepare next failed) disk = exec faults (failed error) disk := by
  simp only [exec, h]

theorem exec_write_ok {faults : Faults F} {file : F} (h : faults (.write file) = none)
    (content : C) (next : Program F C α) (failed : String → Program F C α) (disk : Disk F C) :
    exec faults (.write file content next failed) disk =
      exec faults next (Function.update disk file (some (.whole content))) := by
  simp only [exec, h]

theorem exec_step_ok {faults : Faults F} {call : Call F} {disk disk' : Disk F C}
    (h : faults call = none) (hp : perform disk call = .ok disk') (next : Program F C α)
    (failed : String → Program F C α) :
    exec faults (.step call next failed) disk = exec faults next disk' := by
  simp only [exec, h, hp]

theorem exec_step_fault {faults : Faults F} {call : Call F} {error : String}
    (h : faults call = some error) (next : Program F C α) (failed : String → Program F C α)
    (disk : Disk F C) :
    exec faults (.step call next failed) disk = exec faults (failed error) disk := by
  simp only [exec, h]

theorem exec_write_fault {faults : Faults F} {file : F} {error : String}
    (h : faults (.write file) = some error) (content : C) (next : Program F C α)
    (failed : String → Program F C α) (disk : Disk F C) :
    exec faults (.write file content next failed) disk =
      exec faults (failed error) (Function.update disk file (some .torn)) := by
  simp only [exec, h]

/-! ## What a result depends on -/

/-- The same files are there, whatever they hold. -/
def SameFiles (disk disk' : Disk F C) : Prop :=
  ∀ file, (disk file).isSome = (disk' file).isSome

theorem SameFiles.update {disk disk' : Disk F C} (h : SameFiles disk disk') (file : F)
    {found found' : Option (Content C)} (hfound : found.isSome = found'.isSome) :
    SameFiles (Function.update disk file found) (Function.update disk' file found') := by
  intro other
  by_cases heq : other = file
  · subst heq
    simpa using hfound
  · simpa [heq] using h other

omit [DecidableEq F] in
theorem SameFiles.present {disk disk' : Disk F C} (h : SameFiles disk disk')
    (faults : Faults F) (file : F) (attempt : ℕ) :
    present faults disk file attempt = present faults disk' file attempt := by
  unfold FilePrograms.present
  rw [h file]

omit [DecidableEq F] in
theorem SameFiles.both {disk disk' : Disk F C} (h : SameFiles disk disk') (file : F) :
    disk file = none ∧ disk' file = none ∨
      ∃ found found', disk file = some found ∧ disk' file = some found' := by
  have hfile := h file
  cases hd : disk file with
  | none => exact .inl ⟨rfl, by simpa [hd] using hfile.symm⟩
  | some found =>
      obtain ⟨found', hd'⟩ := Option.isSome_iff_exists.mp (by simpa [hd] using hfile.symm)
      exact .inr ⟨found, found', rfl, hd'⟩

/-- A call goes through on both disks or on neither, and leaves the same files. -/
theorem SameFiles.perform {disk disk' : Disk F C} (h : SameFiles disk disk') (call : Call F) :
    (∃ error, perform disk call = .error error ∧ perform disk' call = .error error) ∨
      ∃ next next', perform disk call = .ok next ∧ perform disk' call = .ok next' ∧
        SameFiles next next' := by
  cases call with
  | prepare => exact .inr ⟨_, _, rfl, rfl, h⟩
  | look file attempt => exact .inr ⟨_, _, rfl, rfl, h⟩
  | create file => exact .inr ⟨_, _, rfl, rfl, h.update file rfl⟩
  | write file => exact .inr ⟨_, _, rfl, rfl, h⟩
  | sync file => exact .inr ⟨_, _, rfl, rfl, h⟩
  | remove file =>
      rcases h.both file with ⟨hd, hd'⟩ | ⟨found, found', hd, hd'⟩
      · exact .inl ⟨notFound, by simp only [FilePrograms.perform, hd],
          by simp only [FilePrograms.perform, hd']⟩
      · refine .inr ⟨Function.update disk file none, Function.update disk' file none, ?_, ?_,
          h.update file rfl⟩
        · simp only [FilePrograms.perform, hd]
        · simp only [FilePrograms.perform, hd']
  | rename source target =>
      rcases h.both source with ⟨hd, hd'⟩ | ⟨found, found', hd, hd'⟩
      · exact .inl ⟨notFound, by simp only [FilePrograms.perform, hd],
          by simp only [FilePrograms.perform, hd']⟩
      · refine .inr ⟨Function.update (Function.update disk source none) target (some found),
          Function.update (Function.update disk' source none) target (some found'), ?_, ?_,
          (h.update source rfl).update target rfl⟩
        · simp only [FilePrograms.perform, hd]
        · simp only [FilePrograms.perform, hd']

/-- The result of a program is decided by the faults and by which files there are. -/
theorem exec_sameFiles (faults : Faults F) (program : Program F C α) {disk disk' : Disk F C}
    (h : SameFiles disk disk') :
    (exec faults program disk).1 = (exec faults program disk').1 := by
  induction program generalizing disk disk' with
  | done result => rfl
  | prepare next failed ihnext ihfailed =>
      cases hfault : faults .prepare with
      | none =>
          rw [exec_prepare_ok hfault, exec_prepare_ok hfault]
          exact ihnext h
      | some error =>
          rw [exec_prepare_fault hfault, exec_prepare_fault hfault]
          exact ihfailed error h
  | look file attempt next ih =>
      rw [exec_look, exec_look, h.present]
      exact ih _ h
  | write file content next failed ihnext ihfailed =>
      cases hfault : faults (.write file) with
      | none =>
          rw [exec_write_ok hfault, exec_write_ok hfault]
          exact ihnext (h.update file rfl)
      | some error =>
          rw [exec_write_fault hfault, exec_write_fault hfault]
          exact ihfailed error (h.update file rfl)
  | step call next failed ihnext ihfailed =>
      cases hfault : faults call with
      | some error =>
          rw [exec_step_fault hfault, exec_step_fault hfault]
          exact ihfailed error h
      | none =>
          rcases h.perform call with ⟨error, hp, hp'⟩ | ⟨after, after', hp, hp', hafter⟩
          · simp only [exec, hfault, hp, hp']
            exact ihfailed error h
          · rw [exec_step_ok hfault hp, exec_step_ok hfault hp']
            exact ihnext hafter

/-! ## Stopping anywhere -/

/-- The disk after at most `n` file calls: where the process is stopped. -/
def cut (faults : Faults F) : ℕ → Program F C α → Disk F C → Disk F C
  | 0, _, disk => disk
  | _ + 1, .done _, disk => disk
  | n + 1, .prepare next failed, disk =>
      match faults .prepare with
      | none => cut faults (n + 1) next disk
      | some error => cut faults (n + 1) (failed error) disk
  | n + 1, .look file attempt next, disk =>
      cut faults n (next (present faults disk file attempt)) disk
  | n + 1, .write file content next failed, disk =>
      match faults (.write file) with
      | none => cut faults n next (Function.update disk file (some (.whole content)))
      | some error => cut faults n (failed error) (Function.update disk file (some .torn))
  | n + 1, .step call next failed, disk =>
      match faults call with
      | some error => cut faults n (failed error) disk
      | none =>
        match perform disk call with
        | .error error => cut faults n (failed error) disk
        | .ok disk => cut faults n next disk

attribute [local simp] cut

@[simp] theorem cut_zero (faults : Faults F) (program : Program F C α) (disk : Disk F C) :
    cut faults 0 program disk = disk := by
  cases program <;> rfl

@[simp] theorem cut_done (faults : Faults F) (n : ℕ) (result : α) (disk : Disk F C) :
    cut faults n (.done result) disk = disk := by
  cases n <;> rfl

/-- Preparing is no file call. -/
theorem cut_prepare_ok {faults : Faults F} (h : faults .prepare = none) (n : ℕ)
    (next : Program F C α) (failed : String → Program F C α) (disk : Disk F C) :
    cut faults n (.prepare next failed) disk = cut faults n next disk := by
  cases n with
  | zero => rw [cut_zero, cut_zero]
  | succ n => simp only [cut, h]

theorem cut_prepare_fault {faults : Faults F} {error : String}
    (h : faults .prepare = some error) (n : ℕ) (next : Program F C α)
    (failed : String → Program F C α) (disk : Disk F C) :
    cut faults n (.prepare next failed) disk = cut faults n (failed error) disk := by
  cases n with
  | zero => rw [cut_zero, cut_zero]
  | succ n => simp only [cut, h]

theorem cut_look (faults : Faults F) (n : ℕ) (file : F) (attempt : ℕ)
    (next : Bool → Program F C α) (disk : Disk F C) :
    cut faults (n + 1) (.look file attempt next) disk =
      cut faults n (next (present faults disk file attempt)) disk := by
  simp only [cut]

theorem cut_write_ok {faults : Faults F} {file : F} (h : faults (.write file) = none) (n : ℕ)
    (content : C) (next : Program F C α) (failed : String → Program F C α) (disk : Disk F C) :
    cut faults (n + 1) (.write file content next failed) disk =
      cut faults n next (Function.update disk file (some (.whole content))) := by
  simp only [cut, h]

theorem cut_write_fault {faults : Faults F} {file : F} {error : String}
    (h : faults (.write file) = some error) (n : ℕ) (content : C) (next : Program F C α)
    (failed : String → Program F C α) (disk : Disk F C) :
    cut faults (n + 1) (.write file content next failed) disk =
      cut faults n (failed error) (Function.update disk file (some .torn)) := by
  simp only [cut, h]

theorem cut_step_ok {faults : Faults F} {call : Call F} {disk disk' : Disk F C}
    (h : faults call = none) (hp : perform disk call = .ok disk') (n : ℕ)
    (next : Program F C α) (failed : String → Program F C α) :
    cut faults (n + 1) (.step call next failed) disk = cut faults n next disk' := by
  simp only [cut, h, hp]

theorem cut_step_fault {faults : Faults F} {call : Call F} {error : String}
    (h : faults call = some error) (n : ℕ) (next : Program F C α)
    (failed : String → Program F C α) (disk : Disk F C) :
    cut faults (n + 1) (.step call next failed) disk = cut faults n (failed error) disk := by
  simp only [cut, h]

/-- A process that is stopped late enough has run to the end. -/
theorem exists_cut_eq_exec (faults : Faults F) (program : Program F C α) (disk : Disk F C) :
    ∃ calls, ∀ n, calls ≤ n → cut faults n program disk = (exec faults program disk).2 := by
  have later : ∀ {stopped : ℕ → Disk F C} {ended : Disk F C},
      (∃ calls, ∀ n, calls ≤ n → stopped (n + 1) = ended) →
        ∃ calls, ∀ n, calls ≤ n → stopped n = ended := by
    rintro stopped ended ⟨calls, hcalls⟩
    refine ⟨calls + 1, fun n hn => ?_⟩
    obtain ⟨n, rfl⟩ := Nat.exists_eq_add_of_le' (Nat.one_le_of_lt hn)
    exact hcalls n (Nat.le_of_succ_le_succ hn)
  induction program generalizing disk with
  | done result => exact ⟨0, fun n _ => cut_done faults n result disk⟩
  | prepare next failed ihNext ihFailed =>
      cases hf : faults .prepare with
      | none =>
          simp only [cut_prepare_ok hf, exec_prepare_ok hf]
          exact ihNext disk
      | some error =>
          simp only [cut_prepare_fault hf, exec_prepare_fault hf]
          exact ihFailed error disk
  | look file attempt next ih => exact later (ih (present faults disk file attempt) disk)
  | write file content next failed ihNext ihFailed =>
      refine later ?_
      cases hf : faults (.write file) with
      | none =>
          simp only [cut_write_ok hf, exec_write_ok hf]
          exact ihNext _
      | some error =>
          simp only [cut_write_fault hf, exec_write_fault hf]
          exact ihFailed error _
  | step call next failed ihNext ihFailed =>
      refine later ?_
      cases hf : faults call with
      | some error =>
          simp only [cut_step_fault hf, exec_step_fault hf]
          exact ihFailed error _
      | none =>
          cases hp : perform disk call with
          | error error =>
              simp only [cut, exec, hf, hp]
              exact ihFailed error _
          | ok disk' =>
              simp only [cut_step_ok hf hp, exec_step_ok hf hp]
              exact ihNext _

/-- The call does not succeed: it is made to fail, or there is nothing to act on. -/
def Refuses (faults : Faults F) (disk : Disk F C) (call : Call F) (error : String) : Prop :=
  faults call = some error ∨ faults call = none ∧ perform disk call = .error error

/-- `always` holds wherever the program is stopped, and `post` of its end. -/
inductive Guarded (faults : Faults F) (always : Disk F C → Prop) (post : α → Disk F C → Prop) :
    Program F C α → Disk F C → Prop
  | done (result : α) (disk : Disk F C) : always disk → post result disk →
      Guarded faults always post (.done result) disk
  | prepare (next : Program F C α) (failed : String → Program F C α) (disk : Disk F C) :
      always disk → (faults .prepare = none → Guarded faults always post next disk) →
      (∀ error, faults .prepare = some error →
        Guarded faults always post (failed error) disk) →
      Guarded faults always post (.prepare next failed) disk
  | look (file : F) (attempt : ℕ) (next : Bool → Program F C α) (disk : Disk F C) : always disk →
      Guarded faults always post (next (present faults disk file attempt)) disk →
      Guarded faults always post (.look file attempt next) disk
  | write (file : F) (content : C) (next : Program F C α) (failed : String → Program F C α)
      (disk : Disk F C) : always disk →
      (faults (.write file) = none → Guarded faults always post next
        (Function.update disk file (some (.whole content)))) →
      (∀ error, faults (.write file) = some error → Guarded faults always post (failed error)
        (Function.update disk file (some .torn))) →
      Guarded faults always post (.write file content next failed) disk
  | step (call : Call F) (next : Program F C α) (failed : String → Program F C α)
      (disk : Disk F C) : always disk →
      (∀ disk', faults call = none → perform disk call = .ok disk' →
        Guarded faults always post next disk') →
      (∀ error, Refuses faults disk call error →
        Guarded faults always post (failed error) disk) →
      Guarded faults always post (.step call next failed) disk

namespace Guarded

variable {faults : Faults F} {always : Disk F C → Prop} {post : α → Disk F C → Prop}
  {program : Program F C α} {disk : Disk F C}

theorem start (h : Guarded faults always post program disk) : always disk := by
  cases h with
  | done _ _ ha _ => exact ha
  | prepare _ _ _ ha _ _ => exact ha
  | look _ _ _ _ ha _ => exact ha
  | write _ _ _ _ _ ha _ _ => exact ha
  | step _ _ _ _ ha _ _ => exact ha

/-- What is guaranteed may be weakened. -/
theorem mono {always' : Disk F C → Prop} {post' : α → Disk F C → Prop}
    (h : Guarded faults always post program disk) (halways : ∀ disk, always disk → always' disk)
    (hpost : ∀ result disk, post result disk → post' result disk) :
    Guarded faults always' post' program disk := by
  induction h with
  | done result disk ha hresult => exact .done result disk (halways disk ha) (hpost _ _ hresult)
  | prepare next failed disk ha _ _ ihNext ihFailed =>
      exact .prepare next failed disk (halways disk ha) ihNext ihFailed
  | look file attempt next disk ha _ ih => exact .look file attempt next disk (halways disk ha) ih
  | write file content next failed disk ha _ _ ihNext ihFailed =>
      exact .write file content next failed disk (halways disk ha) ihNext ihFailed
  | step call next failed disk ha _ _ ihNext ihFailed =>
      exact .step call next failed disk (halways disk ha) ihNext ihFailed

theorem at_cut (h : Guarded faults always post program disk) (n : ℕ) :
    always (cut faults n program disk) := by
  induction h generalizing n with
  | done result disk ha _ => cases n <;> exact ha
  | prepare next failed disk ha _ _ ihNext ihFailed =>
      cases hf : faults .prepare with
      | none =>
          rw [cut_prepare_ok hf]
          exact ihNext hf n
      | some error =>
          rw [cut_prepare_fault hf]
          exact ihFailed error hf n
  | look file attempt next disk ha _ ih =>
      cases n with
      | zero => exact ha
      | succ n => exact ih n
  | write file content next failed disk ha _ _ ihNext ihFailed =>
      cases n with
      | zero => exact ha
      | succ n =>
          simp only [cut]
          cases hf : faults (.write file) with
          | none => exact ihNext hf n
          | some error => exact ihFailed error hf n
  | step call next failed disk ha _ _ ihNext ihFailed =>
      cases n with
      | zero => exact ha
      | succ n =>
          simp only [cut]
          cases hf : faults call with
          | some error => exact ihFailed error (.inl hf) n
          | none =>
              cases hp : perform disk call with
              | error error => exact ihFailed error (.inr ⟨hf, hp⟩) n
              | ok disk' => exact ihNext disk' hf hp n

theorem at_end (h : Guarded faults always post program disk) :
    post (exec faults program disk).1 (exec faults program disk).2 := by
  induction h with
  | done result disk _ hpost => exact hpost
  | prepare next failed disk _ _ _ ihNext ihFailed =>
      simp only [exec]
      cases hf : faults .prepare with
      | none => exact ihNext hf
      | some error => exact ihFailed error hf
  | look file attempt next disk _ _ ih => exact ih
  | write file content next failed disk _ _ _ ihNext ihFailed =>
      simp only [exec]
      cases hf : faults (.write file) with
      | none => exact ihNext hf
      | some error => exact ihFailed error hf
  | step call next failed disk _ _ _ ihNext ihFailed =>
      simp only [exec]
      cases hf : faults call with
      | some error => exact ihFailed error (.inl hf)
      | none =>
          cases hp : perform disk call with
          | error error => exact ihFailed error (.inr ⟨hf, hp⟩)
          | ok disk' => exact ihNext disk' hf hp

end Guarded

end FilePrograms
