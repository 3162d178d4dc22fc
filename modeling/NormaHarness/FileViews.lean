import NormaHarness.ReplacedFiles
import NormaHarness.StoredContents

/-!
# Files seen through their format

Files hold encoded contents, and a reader parses what it finds. A content that the parser
refuses is as good as torn. Seen so, a program that writes encodings does to the files what
the same program does that writes the contents themselves: every call, every fault and
every stop has the same effect at both levels.
-/
namespace FilePrograms
open ReplacedFiles StoredContents

variable {F C D α : Type*}

def Content.viewed (parse : C → Option D) : Content C → Content D
  | .whole content =>
    match parse content with
    | some found => .whole found
    | none => .torn
  | .torn => .torn

def viewed (parse : C → Option D) (disk : Disk F C) : Disk F D :=
  fun file => (disk file).map (Content.viewed parse)

/-- The same program, with every content encoded as it is written. -/
def Program.encoded (encode : D → C) : Program F D α → Program F C α
  | .done result => .done result
  | .prepare next failed =>
      .prepare (next.encoded encode) fun error => (failed error).encoded encode
  | .look file attempt next => .look file attempt fun found => (next found).encoded encode
  | .write file content next failed =>
      .write file (encode content) (next.encoded encode) fun error => (failed error).encoded encode
  | .step call next failed =>
      .step call (next.encoded encode) fun error => (failed error).encoded encode

theorem viewed_whole {parse : C → Option D} {content : C} {found : D}
    (h : parse content = some found) : Content.viewed parse (.whole content) = .whole found := by
  simp [Content.viewed, h]

theorem viewed_present (parse : C → Option D) (faults : Faults F) (disk : Disk F C) (file : F)
    (attempt : ℕ) :
    present faults (viewed parse disk) file attempt = present faults disk file attempt := by
  simp [present, viewed]

/-- A replacement with encoded content. -/
theorem replace_encoded (f : Names F) (encode : D → C) (content : D) :
    (replace f content).encoded encode = replace f (encode content) := by
  have hfailed : ∀ error, (failed error : Replacement F D).encoded encode = failed error :=
    fun error => rfl
  have hpublish : (publish f : Replacement F D).encoded encode = publish f := by
    simp only [publish, Program.encoded]
    congr
    funext error
    congr
    funext backup
    cases backup <;> rfl
  have hretain : (retainPrevious f : Replacement F D).encoded encode = retainPrevious f := by
    simp only [retainPrevious, Program.encoded]
    congr
    funext main
    cases main with
    | false => exact hpublish
    | true =>
        simp only [if_true, Program.encoded]
        congr
        funext backup
        cases backup <;> simp [Program.encoded, hpublish, hfailed]
  simp only [replace, Program.encoded, hfailed, hretain]

variable [DecidableEq F]

theorem viewed_update (parse : C → Option D) (disk : Disk F C) (file : F)
    (found : Option (Content C)) : viewed parse (Function.update disk file found) =
      Function.update (viewed parse disk) file (found.map (Content.viewed parse)) := by
  funext other
  by_cases hfile : other = file
  · subst hfile
    simp [viewed]
  · simp [viewed, hfile]

theorem viewed_perform (parse : C → Option D) (disk : Disk F C) (call : Call F) :
    perform (viewed parse disk) call = (perform disk call).map (viewed parse) := by
  cases call with
  | prepare => rfl
  | look file attempt => rfl
  | create file => simp [perform, Except.map, viewed_update, Content.viewed]
  | write file => rfl
  | sync file => rfl
  | remove file =>
      cases hfile : disk file with
      | none => simp [perform, viewed, hfile, Except.map]
      | some content =>
          have hseen : viewed parse disk file = some (content.viewed parse) := by
            simp [viewed, hfile]
          simp [perform, hseen, hfile, Except.map, viewed_update]
  | rename source target =>
      cases hfile : disk source with
      | none => simp [perform, viewed, hfile, Except.map]
      | some content =>
          have hseen : viewed parse disk source = some (content.viewed parse) := by
            simp [viewed, hfile]
          simp [perform, hseen, hfile, Except.map, viewed_update]

section

variable {parse : C → Option D} {encode : D → C} {program : Program F D α} {disk after : Disk F C}
  {file : F} {call : Call F}

theorem viewed_write {content : D} (h : parse (encode content) = some content) :
    Function.update (viewed parse disk) file (some (.whole content)) =
      viewed parse (Function.update disk file (some (.whole (encode content)))) := by
  rw [viewed_update, Option.map_some, viewed_whole h]

theorem viewed_tear : Function.update (viewed parse disk) file (some .torn) =
    viewed parse (Function.update disk file (some .torn)) := by
  rw [viewed_update]
  rfl

theorem viewed_perform_ok (h : perform disk call = .ok after) :
    perform (viewed parse disk) call = .ok (viewed parse after) := by
  rw [viewed_perform, h]
  rfl

theorem viewed_perform_error {error : String} (h : perform disk call = .error error) :
    perform (viewed parse disk) call = .error error := by
  rw [viewed_perform, h]
  rfl

/-- A program on encoded contents has the same result and the same effect. -/
theorem exec_encoded (h : Writes (fun d => parse (encode d) = some d) program)
    (faults : Faults F) (disk : Disk F C) :
    exec faults program (viewed parse disk) =
      ((exec faults (program.encoded encode) disk).1,
        viewed parse (exec faults (program.encoded encode) disk).2) := by
  induction h generalizing disk with
  | done result => rfl
  | prepare next failed _ _ ihNext ihFailed =>
      simp only [Program.encoded]
      cases hfault : faults .prepare with
      | none => rw [exec_prepare_ok hfault, exec_prepare_ok hfault, ihNext]
      | some error => rw [exec_prepare_fault hfault, exec_prepare_fault hfault, ihFailed]
  | look file attempt next _ ih =>
      rw [exec_look, viewed_present, ih]
      rfl
  | write file content next failed hcontent _ _ ihNext ihFailed =>
      simp only [Program.encoded]
      cases hfault : faults (.write file) with
      | none => rw [exec_write_ok hfault, exec_write_ok hfault, viewed_write hcontent, ihNext]
      | some error => rw [exec_write_fault hfault, exec_write_fault hfault, viewed_tear, ihFailed]
  | step call next failed _ _ ihNext ihFailed =>
      simp only [Program.encoded]
      cases hfault : faults call with
      | some error => rw [exec_step_fault hfault, exec_step_fault hfault, ihFailed]
      | none =>
          cases hperform : perform disk call with
          | error error =>
              simp only [exec, hfault, hperform, viewed_perform_error hperform, ihFailed]
          | ok after =>
              rw [exec_step_ok hfault (viewed_perform_ok hperform), exec_step_ok hfault hperform,
                ihNext]

/-- And the same wherever it is stopped. -/
theorem cut_encoded (h : Writes (fun d => parse (encode d) = some d) program)
    (faults : Faults F) (n : ℕ) (disk : Disk F C) :
    cut faults n program (viewed parse disk) =
      viewed parse (cut faults n (program.encoded encode) disk) := by
  induction h generalizing n disk with
  | done result => rw [cut_done, Program.encoded, cut_done]
  | prepare next failed _ _ ihNext ihFailed =>
      simp only [Program.encoded]
      cases hfault : faults .prepare with
      | none => rw [cut_prepare_ok hfault, cut_prepare_ok hfault, ihNext]
      | some error => rw [cut_prepare_fault hfault, cut_prepare_fault hfault, ihFailed]
  | look file attempt next _ ih =>
      cases n with
      | zero => rw [cut_zero, cut_zero]
      | succ n =>
          rw [cut_look, viewed_present, ih]
          rfl
  | write file content next failed hcontent _ _ ihNext ihFailed =>
      cases n with
      | zero => rw [cut_zero, cut_zero]
      | succ n =>
          simp only [Program.encoded]
          cases hfault : faults (.write file) with
          | none => rw [cut_write_ok hfault, cut_write_ok hfault, viewed_write hcontent, ihNext]
          | some error =>
              rw [cut_write_fault hfault, cut_write_fault hfault, viewed_tear, ihFailed]
  | step call next failed _ _ ihNext ihFailed =>
      cases n with
      | zero => rw [cut_zero, cut_zero]
      | succ n =>
          simp only [Program.encoded]
          cases hfault : faults call with
          | some error => rw [cut_step_fault hfault, cut_step_fault hfault, ihFailed]
          | none =>
              cases hperform : perform disk call with
              | error error =>
                  simp only [cut, hfault, hperform, viewed_perform_error hperform, ihFailed]
              | ok after =>
                  rw [cut_step_ok hfault (viewed_perform_ok hperform), cut_step_ok hfault hperform,
                    ihNext]

end

end FilePrograms
