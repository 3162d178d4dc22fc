import NormaHarness.RoomEdits
import NormaHarness.SnapshotRecovery

/-!
# A server that crashes and restarts

A server runs the coordinator over its disk until the process ends, which may be in
the middle of the file calls of a save. A restart loads the snapshot, restores the
rooms with the media found in it, and enables storage with a first save; when that
fails the process ends again. The image files of the snapshot are taken to be present, and
`NORMA_CHAT_RESTORE` names no file to import; `WebUploads` has both.
-/
namespace NormaHarness.Chat
open Std Identifiers Contracts LlmProtocol Media FilePrograms

inductive Server where
  | running (w : World)
  | down (disk : SnapshotDisk)

def Server.disk : Server → SnapshotDisk
  | .running w => w.disk
  | .down disk => disk

/-- The assets of a snapshot under their identities. -/
def restoredMedia (saved : ChatSnapshot) : ExtTreeMap String MediaAsset :=
  saved.media.foldl (fun media asset => media.insert asset.id asset) ∅

/-- The part of `main` between loading the snapshot and enabling storage. -/
def boot (disk : SnapshotDisk) : Except LoadError World :=
  match load disk with
  | .error error => .error error
  | .ok none => .ok (start [] ∅ disk)
  | .ok (some saved) => .ok (start saved.rooms (restoredMedia saved) disk)

/-- The file calls of the save that an operation gets to, if it does. -/
def ChatOp.save (isAlphanumeric : Char → Bool) (w : World) : ChatOp → Option SnapshotFaults
  | .enableStorage faults => if w.chat.storageEnabled then none else some faults
  | .insertRoom faults _ => if w.chat.storageEnabled then some faults else none
  | .ensureSoloRoom faults member name now =>
      if w.chat.storageEnabled &&
          (ChatOp.creates w.chat (.ensureSoloRoom faults member name now)).isSome then some faults
      else none
  | .send faults _ id text media =>
      if w.chat.storageEnabled &&
          (admission isAlphanumeric id (Text.trim text) media w.chat).isOk then some faults
      else none
  | .push faults _ round _ _ _ _ =>
      if w.chat.storageEnabled && (w.chat.rooms.get round.roomId).isSome then some faults else none
  | .finish faults _ round =>
      if w.chat.storageEnabled && (w.chat.rooms.get round.roomId).isSome then some faults else none
  | .sleepDue faults limits now =>
      if w.chat.storageEnabled && !(Chat.sleepDue faults limits now w.chat w.disk).1.isEmpty then
        some faults
      else none
  | .setArchived faults id _ =>
      if w.chat.storageEnabled && (archivable id w.chat).isOk then some faults else none
  | _ => none

/-- The disk when a save is stopped after some calls, with anything in the pending file. -/
def stoppedSave (faults : SnapshotFaults) (calls : ℕ)
    (pending : Option (Content ChatSnapshot)) (content : ChatSnapshot) (disk : SnapshotDisk) :
    SnapshotDisk :=
  Function.update (cut faults calls (saveProgram content) disk) .pending pending

inductive ServerEvent where
  | op (op : ChatOp)
  | stop
  | crash (op : ChatOp) (calls : ℕ) (pending : Option (Content ChatSnapshot))
  | restart (faults : SnapshotFaults)
  | crashAtStart (faults : SnapshotFaults) (calls : ℕ) (pending : Option (Content ChatSnapshot))

inductive ServerStep (isAlphanumeric : Char → Bool) : Server → ServerEvent → Server → Prop
  | op {w w' : World} {op : ChatOp} : ChatStep isAlphanumeric w op w' →
      ServerStep isAlphanumeric (.running w) (.op op) (.running w')
  | stop (w : World) : ServerStep isAlphanumeric (.running w) .stop (.down w.disk)
  | crash {w w' : World} {op : ChatOp} {faults : SnapshotFaults} (calls : ℕ)
      (pending : Option (Content ChatSnapshot)) : ChatStep isAlphanumeric w op w' →
      op.save isAlphanumeric w = some faults →
      ServerStep isAlphanumeric (.running w) (.crash op calls pending)
        (.down (stoppedSave faults calls pending (snapshot w'.chat.rooms) w.disk))
  | started {disk : SnapshotDisk} {w : World} {faults : SnapshotFaults} : boot disk = .ok w →
      (enableStorage faults w.chat w.disk).1 = .ok () →
      ServerStep isAlphanumeric (.down disk) (.restart faults)
        (.running (w.after isAlphanumeric (.enableStorage faults)))
  | refused {disk : SnapshotDisk} {w : World} {faults : SnapshotFaults} {error : ChatError} :
      boot disk = .ok w → (enableStorage faults w.chat w.disk).1 = .error error →
      ServerStep isAlphanumeric (.down disk) (.restart faults)
        (.down (w.after isAlphanumeric (.enableStorage faults)).disk)
  | unreadable {disk : SnapshotDisk} {faults : SnapshotFaults} {error : LoadError} :
      boot disk = .error error →
      ServerStep isAlphanumeric (.down disk) (.restart faults) (.down disk)
  | crashAtStart {disk : SnapshotDisk} {w : World} (faults : SnapshotFaults) (calls : ℕ)
      (pending : Option (Content ChatSnapshot)) : boot disk = .ok w →
      ServerStep isAlphanumeric (.down disk) (.crashAtStart faults calls pending)
        (.down (stoppedSave faults calls pending (snapshot w.chat.rooms) disk))

/-! ## The disk after an operation -/

theorem saveLocked_disk (faults : SnapshotFaults) (chat : ChatResident) (disk : SnapshotDisk) :
    (saveLocked faults chat disk).2 = if chat.storageEnabled then
      (exec faults (saveProgram (snapshot chat.rooms)) disk).2 else disk := by
  unfold saveLocked
  split_ifs
  · split <;> simp_all
  · rfl

theorem saving_disk {α : Type} (faults : SnapshotFaults) (result : α) (chat : ChatResident)
    (disk : SnapshotDisk) :
    (saving faults result chat disk).2.2 = (saveLocked faults chat disk).2 := by
  unfold saving
  split <;> simp_all

/-- The disk that an operation leaves. -/
def savedDisk (save : Option SnapshotFaults) (content : ChatSnapshot) (disk : SnapshotDisk) :
    SnapshotDisk :=
  match save with
  | none => disk
  | some faults => (exec faults (saveProgram content) disk).2

/-- The disk after a change of the rooms that ends in a save. -/
theorem saveLocked_savedDisk (faults : SnapshotFaults) {chat changed : ChatResident}
    (disk : SnapshotDisk) (h : changed.storageEnabled = chat.storageEnabled) :
    (saveLocked faults changed disk).2 =
      savedDisk (if chat.storageEnabled then some faults else none) (snapshot changed.rooms)
        disk := by
  rw [saveLocked_disk, h]
  cases chat.storageEnabled <;> rfl

theorem send_disk (isAlphanumeric : Char → Bool) (faults : SnapshotFaults) (clock : Clock)
    (id : ℕ) (text : String) (media : List MediaAsset) (w : World) :
    (w.after isAlphanumeric (.send faults clock id text media)).disk =
      savedDisk (ChatOp.save isAlphanumeric w (.send faults clock id text media))
        (snapshot (w.after isAlphanumeric (.send faults clock id text media)).chat.rooms)
        w.disk := by
  have hstep := send_step isAlphanumeric faults clock id text media w.chat w.disk
  have hsaved : ∀ room, (saveLocked faults (accepting w.chat clock (Text.trim text) media room)
      w.disk).2 = savedDisk (if w.chat.storageEnabled then some faults else none)
        (snapshot (accepting w.chat clock (Text.trim text) media room).rooms) w.disk :=
    fun room => saveLocked_savedDisk faults w.disk rfl
  simp only [World.after, World.sent, ChatOp.save]
  generalize sendUserMessageWithMedia isAlphanumeric faults clock id text media w.chat w.disk = out
    at hstep ⊢
  cases hstep with
  | refused error hadmission => simp [hadmission, Except.isOk, Except.toBool, savedDisk]
  | unsaved room members error disk' hadmission hsave =>
      have hdisk := hsaved room
      rw [hsave] at hdisk
      simpa [hadmission, Except.isOk, Except.toBool] using hdisk
  | accepted room members disk' round hadmission hsave _ _ =>
      have hdisk := hsaved room
      rw [hsave] at hdisk
      simpa [hadmission, Except.isOk, Except.toBool] using hdisk

theorem sleepDue_storage (faults : SnapshotFaults) (limits : SleepLimits) (now : ℕ)
    (c : ChatResident) (disk : SnapshotDisk) :
    (sleepDue faults limits now c disk).2.1.storageEnabled = c.storageEnabled := by
  refine sleepDue_relates (R := fun a b => b.storageEnabled = a.storageEnabled) (fun _ => rfl)
    (fun _ _ _ first second => second.trans first) faults limits now (fun swept room _ => ?_) c disk
  unfold sleepRoom
  split_ifs <;> rfl

theorem sleepDue_disk (faults : SnapshotFaults) (limits : SleepLimits) (now : ℕ)
    (c : ChatResident) (disk : SnapshotDisk) : (sleepDue faults limits now c disk).2.2 =
      if (sleepDue faults limits now c disk).1.isEmpty then disk
      else (saveLocked faults (sleepDue faults limits now c disk).2.1 disk).2 := by
  unfold sleepDue
  simp only
  cases hnone : (c.rooms.values.foldl (sleepRoom limits now) (c, [])).2.isEmpty <;> simp [hnone]

/-- Every operation leaves the disk alone or runs one save of the rooms it ends with. -/
theorem after_disk (isAlphanumeric : Char → Bool) (w : World) (op : ChatOp) :
    (w.after isAlphanumeric op).disk = savedDisk (op.save isAlphanumeric w)
      (snapshot (w.after isAlphanumeric op).chat.rooms) w.disk := by
  cases op with
  | enableStorage faults =>
      simp only [World.after, World.withSaved, enableStorage, ChatOp.save]
      split_ifs with henabled
      · rfl
      · rw [saving_disk, saving_chat, saveLocked_disk]
        rfl
  | reserveRoom name members incognito now =>
      simp only [World.after, reserveRoom, ChatOp.save]
      split
      · rfl
      · split <;> rfl
  | insertRoom faults room =>
      simp only [World.after, World.withSaved, insertRoom, ChatOp.save, saving_disk, saving_chat]
      exact saveLocked_savedDisk faults w.disk rfl
  | ensureSoloRoom faults member name now =>
      cases hname : validRoomName name with
      | error error =>
          simp [World.after, World.withSaved, ensureSoloRoom, ChatOp.save, ChatOp.creates, hname,
            savedDisk]
      | ok trimmed =>
          cases hfind : w.chat.rooms.values.find? (isSoloRoom member) with
          | some existing =>
              simp [World.after, World.withSaved, ensureSoloRoom, ChatOp.save, ChatOp.creates,
                hname, hfind, savedDisk]
          | none =>
              simp only [World.after, World.withSaved, ensureSoloRoom, ChatOp.save,
                ChatOp.creates, hname, hfind, insertRoom, saving_disk, saving_chat,
                Option.isSome_some, Bool.and_true]
              exact saveLocked_savedDisk faults w.disk rfl
  | ensureIncognitoSoloRoom member name now => rfl
  | send faults clock id text media => exact send_disk isAlphanumeric faults clock id text media w
  | push faults clock round role author text media =>
      simp only [World.after, pushMessageWithMedia, ChatOp.save]
      cases w.chat.rooms.get round.roomId with
      | none => simp [savedDisk]
      | some room =>
          simp only [Option.isSome_some, Bool.and_true]
          exact saveLocked_savedDisk faults w.disk rfl
  | setActive round member => rfl
  | finish faults now round =>
      simp only [World.after, finish, ChatOp.save]
      cases w.chat.rooms.get round.roomId with
      | none => simp [savedDisk]
      | some room =>
          simp only [Option.isSome_some, Bool.and_true]
          exact saveLocked_savedDisk faults w.disk rfl
  | abandon round => rfl
  | heartbeat now id client => rfl
  | leave now id client => rfl
  | sleepDue faults limits now =>
      have henabled := sleepDue_storage faults limits now w.chat w.disk
      simp only [World.after, ChatOp.save, sleepDue_disk]
      cases (Chat.sleepDue faults limits now w.chat w.disk).1.isEmpty with
      | true => simp [savedDisk]
      | false =>
          simp only [Bool.not_false, Bool.and_true, Bool.false_eq_true, if_false]
          exact saveLocked_savedDisk faults w.disk henabled
  | setArchived faults id archived =>
      simp only [World.after, World.withSaved, setArchived, ChatOp.save]
      cases archivable id w.chat with
      | error error => simp [savedDisk, Except.isOk, Except.toBool]
      | ok room =>
          simp only [saving_disk, saving_chat, Except.isOk, Except.toBool, Bool.and_true]
          exact saveLocked_savedDisk faults w.disk rfl

/-- Storage stays enabled. -/
theorem storageEnabled_kept {isAlphanumeric : Char → Bool} {w w' : World} {op : ChatOp}
    (hstep : ChatStep isAlphanumeric w op w') (h : w.chat.storageEnabled = true) :
    w'.chat.storageEnabled = true := by
  obtain ⟨_, rfl⟩ := hstep
  cases op with
  | enableStorage faults => simp [World.after, World.withSaved, enableStorage, h]
  | reserveRoom name members incognito now =>
      simp only [World.after, reserveRoom]
      split
      · exact h
      · split <;> exact h
  | insertRoom faults room =>
      simpa [World.after, World.withSaved, insertRoom, saving_chat] using h
  | ensureSoloRoom faults member name now =>
      simp only [World.after, World.withSaved, ensureSoloRoom]
      split
      · exact h
      · split
        · exact h
        · simpa [insertRoom, saving_chat] using h
  | ensureIncognitoSoloRoom member name now =>
      simp only [World.after, ensureIncognitoSoloRoom]
      split
      · exact h
      · split <;> exact h
  | send faults clock id text media =>
      have hsend := send_step isAlphanumeric faults clock id text media w.chat w.disk
      simp only [World.after, World.sent]
      generalize sendUserMessageWithMedia isAlphanumeric faults clock id text media w.chat w.disk =
        out at hsend ⊢
      cases hsend <;> exact h
  | push faults clock round role author text media =>
      simp only [World.after, pushMessageWithMedia]
      split <;> exact h
  | setActive round member =>
      simp only [World.after, setActive]
      split <;> exact h
  | finish faults now round =>
      simp only [World.after, finish]
      split <;> exact h
  | abandon round => exact h
  | heartbeat now id client =>
      simp only [World.after, heartbeat]
      split_ifs
      · exact h
      · split <;> exact h
  | leave now id client => exact h
  | sleepDue faults limits now => exact (sleepDue_storage faults limits now w.chat w.disk).trans h
  | setArchived faults id archived =>
      simp only [World.after, World.withSaved, setArchived]
      split
      · exact h
      · simpa [saving_chat] using h

end NormaHarness.Chat
