import NormaHarness.StoredContents
import NormaHarness.ProviderThreads

/-!
# The conversation file of a worker

The worker keeps its rooms' threads in a file of its own. It is replaced through a
pending file and a backup, and read once, when the worker starts. A file that cannot be
read costs the worker its threads and nothing else: it starts with no conversations.
-/
namespace NormaHarness.CodexWorker
open Std JsonValues FilePrograms ReplacedFiles StoredContents

/-- The three files of one conversation path, told apart by their extensions. -/
inductive ConversationFile where
  | main
  | backup
  | pending
  deriving DecidableEq, Repr

def conversationFiles : Names ConversationFile :=
  ⟨.main, .backup, .pending, by decide, by decide, by decide⟩

abbrev ConversationMap := ExtTreeMap ℕ ConversationState
abbrev ConversationDisk := Disk ConversationFile Json
abbrev ConversationFaults := Faults ConversationFile

def noConversationFiles : ConversationDisk := fun _ => none

def ConversationState.codec : Codec ConversationState where
  encode s := .obj [("thread_id", encodeNullable .string s.threadId)]
  decode v := do
    let f ← Fields.ofJson 1 v
    let threadId ← f.optional 0 "thread_id" .string
    pure ⟨threadId⟩
  decode_encode s := by
    simp only [Fields.ofJson, Option.bind_eq_bind, Option.bind_some]
    rw [Fields.optional_encodeNullable Codec.string_nonNull (a := s.threadId)
      (by simp [Fields.find])]
    rfl

def conversationCodec : Codec ConversationMap := .natMap ConversationState.codec

/-- What the file calls of one load meet: reads that fail, and whether the backup is
seen to exist. -/
structure LoadFaults where
  read : ConversationFile → Option String
  seen : Bool

def LoadFaults.none : LoadFaults := ⟨fun _ => .none, true⟩

inductive ConversationError where
  | invalid (file : ConversationFile)
  | unreadable (error : String)
  deriving DecidableEq, Repr

def parsedConversations : Content Json → Option ConversationMap
  | .whole v => conversationCodec.decode v
  | .torn => none

/-- The last candidate: without it there are no conversations. -/
def loadConversationBackup (faults : LoadFaults) (disk : ConversationDisk) :
    Except ConversationError ConversationMap :=
  match faults.read .backup with
  | some error => .error (.unreadable error)
  | none =>
    match disk .backup with
    | none => .ok ∅
    | some content =>
      match parsedConversations content with
      | some conversations => .ok conversations
      | none => .error (.invalid .backup)

def loadConversations (faults : LoadFaults) (disk : ConversationDisk) :
    Except ConversationError ConversationMap :=
  match faults.read .main with
  | some error => .error (.unreadable error)
  | none =>
    match disk .main with
    | none => loadConversationBackup faults disk
    | some content =>
      match parsedConversations content with
      | some conversations => .ok conversations
      | none =>
          if (disk .backup).isSome && faults.seen then loadConversationBackup faults disk
          else .error (.invalid .main)

/-- The conversations that a worker starts with; an error is only printed. -/
def restoredConversations (faults : LoadFaults) (disk : ConversationDisk) : ConversationMap :=
  match loadConversations faults disk with
  | .ok conversations => conversations
  | .error _ => ∅

/-- What the file calls of one save meet: the directory that cannot be made, and the rest. -/
structure SaveFaults where
  directory : Option String
  calls : ConversationFaults

def SaveFaults.none : SaveFaults := ⟨.none, fun _ => .none⟩

def saveConversations (faults : SaveFaults) (conversations : ConversationMap)
    (disk : ConversationDisk) : Except String Unit × ConversationDisk :=
  match faults.directory with
  | some error => (.error error, disk)
  | none =>
      exec faults.calls (replace conversationFiles (conversationCodec.encode conversations)) disk

/-- The disk when the process ends after some calls of a save. -/
def stoppedConversations (faults : SaveFaults) (calls : ℕ) (conversations : ConversationMap)
    (disk : ConversationDisk) : ConversationDisk :=
  match faults.directory with
  | some _ => disk
  | none =>
      cut faults.calls calls
        (replace conversationFiles (conversationCodec.encode conversations)) disk

/-! ## What is read back -/

/-- Every file that can be read holds a map of this kind. -/
def HoldsMaps (P : ConversationMap → Prop) : ConversationDisk → Prop :=
  Holds fun v => ∃ conversations, v = conversationCodec.encode conversations ∧ P conversations

section

variable {P : ConversationMap → Prop} {disk : ConversationDisk}

theorem HoldsMaps.parsed (h : HoldsMaps P disk) {file : ConversationFile}
    {content : Content Json} {conversations : ConversationMap} (hfile : disk file = some content)
    (hparsed : parsedConversations content = some conversations) : P conversations := by
  cases content with
  | torn => cases hparsed
  | whole v =>
      obtain ⟨written, rfl, hwritten⟩ := h file v hfile
      rw [parsedConversations, conversationCodec.decode_encode] at hparsed
      exact Option.some.inj hparsed ▸ hwritten

theorem HoldsMaps.backup (h : HoldsMaps P disk) (hempty : P ∅) {faults : LoadFaults}
    {conversations : ConversationMap}
    (hload : loadConversationBackup faults disk = .ok conversations) : P conversations := by
  unfold loadConversationBackup at hload
  split at hload
  · cases hload
  · split at hload
    · cases hload
      exact hempty
    · next content hcontent =>
      split at hload
      · next hparsed =>
        cases hload
        exact h.parsed hcontent hparsed
      · cases hload

/-- Whatever fails while loading, a worker starts with a map that was saved, or none. -/
theorem HoldsMaps.restored (h : HoldsMaps P disk) (hempty : P ∅) (faults : LoadFaults) :
    P (restoredConversations faults disk) := by
  unfold restoredConversations
  split
  · next conversations hload =>
    unfold loadConversations at hload
    split at hload
    · cases hload
    · split at hload
      · exact h.backup hempty hload
      · next content hcontent =>
        split at hload
        · next hparsed =>
          cases hload
          exact h.parsed hcontent hparsed
        · split_ifs at hload
          exact h.backup hempty hload
  · exact hempty

/-- A save adds one map to what the files hold, wherever it is stopped. -/
theorem HoldsMaps.saved (h : HoldsMaps P disk) (faults : SaveFaults)
    {conversations : ConversationMap} (hnew : P conversations) :
    HoldsMaps P (saveConversations faults conversations disk).2 ∧
      ∀ calls, HoldsMaps P (stoppedConversations faults calls conversations disk) := by
  unfold saveConversations stoppedConversations
  cases faults.directory with
  | some error => exact ⟨h, fun _ => h⟩
  | none =>
      have hguarded := (replace_writes conversationFiles
        (P := fun v => ∃ saved, v = conversationCodec.encode saved ∧ P saved)
        ⟨conversations, rfl, hnew⟩).guarded faults.calls h
      exact ⟨hguarded.at_end, hguarded.at_cut⟩

end

/-! ## What one save leaves behind -/

/-- A start that meets no fault finds this map. -/
structure Keeps (disk : ConversationDisk) (conversations : ConversationMap) : Prop where
  intact : Intact conversationFiles disk
  loads : load conversationFiles disk = .ok (some (conversationCodec.encode conversations)) ∨
    load conversationFiles disk = .ok none ∧ conversations = ∅

theorem keeps_noFiles : Keeps noConversationFiles ∅ where
  intact := ⟨by simp [noConversationFiles], by simp [noConversationFiles]⟩
  loads := .inr ⟨rfl, rfl⟩

theorem Keeps.restored {disk : ConversationDisk} {conversations : ConversationMap}
    (h : Keeps disk conversations) : restoredConversations .none disk = conversations := by
  obtain ⟨⟨hmainWhole, hbackupWhole⟩, hload⟩ := h
  simp only [conversationFiles] at hmainWhole hbackupWhole
  simp only [load, loadBackup, conversationFiles] at hload
  unfold restoredConversations loadConversations loadConversationBackup
  simp only [LoadFaults.none]
  rcases hmain : disk .main with _ | ⟨v⟩ | _
  · rcases hbackup : disk .backup with _ | ⟨v⟩ | _
    · simp only [hmain, hbackup] at hload
      rcases hload with hload | ⟨-, rfl⟩
      · cases hload
      · rfl
    · simp only [hmain, hbackup] at hload
      rcases hload with hload | ⟨hload, -⟩
      · simp only [Except.ok.injEq, Option.some.injEq] at hload
        subst hload
        simp [parsedConversations, conversationCodec.decode_encode]
      · cases hload
    · exact absurd hbackup hbackupWhole
  · simp only [hmain] at hload
    rcases hload with hload | ⟨hload, -⟩
    · simp only [Except.ok.injEq, Option.some.injEq] at hload
      subst hload
      simp [parsedConversations, conversationCodec.decode_encode]
    · cases hload
  · exact absurd hmain hmainWhole

/-- What a crash does to the pending file is not read by a start. -/
theorem Keeps.crashed {disk disk' : ConversationDisk} {conversations : ConversationMap}
    (h : Keeps disk conversations) (hcrash : Crashed .pending disk disk') :
    Keeps disk' conversations := by
  have hmain : disk' .main = disk .main := hcrash.1 .main (by decide)
  have hbackup : disk' .backup = disk .backup := hcrash.1 .backup (by decide)
  refine ⟨⟨?_, ?_⟩, ?_⟩
  · exact hmain ▸ h.intact.1
  · exact hbackup ▸ h.intact.2
  · rw [load_congr (f := conversationFiles) hmain hbackup]
    exact h.loads

/-- A save that succeeds is kept, one that fails changes nothing, and one that is cut
short is kept or changes nothing. -/
theorem Keeps.saved {disk : ConversationDisk} {before : ConversationMap}
    (h : Keeps disk before) {faults : SaveFaults} (conversations : ConversationMap)
    (hroll : ¬RollsBackStale conversationFiles faults.calls disk) :
    Keeps (saveConversations faults conversations disk).2
        (match (saveConversations faults conversations disk).1 with
          | .ok () => conversations
          | .error _ => before) ∧
      ∀ calls, Keeps (stoppedConversations faults calls conversations disk) before ∨
        Keeps (stoppedConversations faults calls conversations disk) conversations := by
  unfold saveConversations stoppedConversations
  cases faults.directory with
  | some error => exact ⟨h, fun _ => .inl h⟩
  | none =>
      have hguarded := replace_guarded (conversationCodec.encode conversations) h.intact hroll
      refine ⟨?_, fun calls => ?_⟩
      · obtain ⟨hintact, hload⟩ := hguarded.at_end
        rcases hexec : exec faults.calls (replace conversationFiles
          (conversationCodec.encode conversations)) disk with ⟨error | _, after⟩
        · rw [hexec] at hintact hload
          exact ⟨hintact, by rw [hload]; exact h.loads⟩
        · rw [hexec] at hintact hload
          exact ⟨hintact, .inl hload⟩
      · obtain ⟨hintact, hload | hload⟩ := hguarded.at_cut calls
        · exact .inl ⟨hintact, by rw [hload]; exact h.loads⟩
        · exact .inr ⟨hintact, .inl hload⟩

end NormaHarness.CodexWorker
