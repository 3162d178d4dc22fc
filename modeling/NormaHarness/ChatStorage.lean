import NormaHarness.ChatRooms
import NormaHarness.ReplacedFiles

/-!
# Snapshots of the rooms

The snapshot holds the ordinary rooms, without the assets that the encoding of a
message skips, and the media list that a restart needs to find them again. It is
encoded, written to a pending file, the previous snapshot becomes the backup, and the
pending file takes its place. Encoding fails when the path of an image is no valid text.
The paths here are texts, so the environment says whether it fails.
-/
namespace NormaHarness.Chat
open Std Media FilePrograms

/-- The three files of one storage path, told apart by their extensions. -/
inductive SnapshotFile where
  | main
  | backup
  | pending
  deriving DecidableEq, Repr

structure ChatSnapshot where
  rooms : List ChatRoom
  media : List MediaAsset
  deriving DecidableEq, Repr

abbrev SnapshotDisk := Disk SnapshotFile ChatSnapshot
abbrev SnapshotFaults := Faults SnapshotFile

def noFiles : SnapshotDisk := fun _ => none
def noFaults : SnapshotFaults := fun _ => none

/-- The encoding of a room skips the assets of its messages. -/
def encodedRoom (room : ChatRoom) : ChatRoom :=
  {room with messages := room.messages.map fun m => {m with media := []}}

def assetsOf (room : ChatRoom) : List MediaAsset := room.messages.flatMap ChatMessage.media

/-- Assets by identity; the last one met under an identity stays. -/
def snapshotMedia (rooms : List ChatRoom) : ExtTreeMap String MediaAsset :=
  (rooms.flatMap assetsOf).foldl (fun media asset => media.insert asset.id asset) ∅

/-- The order of the media list is not specified by the source. -/
def snapshot (s : RoomStore) : ChatSnapshot :=
  let rooms := s.values.filter fun room => !room.incognito
  ⟨rooms.map encodedRoom, (snapshotMedia rooms).toList.map Prod.snd⟩

/-- The snapshot file is replaced like any other file with a backup. -/
def snapshotFiles : ReplacedFiles.Names SnapshotFile :=
  ⟨.main, .backup, .pending, by decide, by decide, by decide⟩

abbrev SaveProgram := ReplacedFiles.Replacement SnapshotFile ChatSnapshot

/-- `ChatStorage::save`: the snapshot is encoded, then the file is replaced. -/
def saveProgram (content : ChatSnapshot) : SaveProgram :=
  .prepare (ReplacedFiles.replace snapshotFiles content) ReplacedFiles.failed

/-- The snapshot cannot be encoded, or a file call that the save reaches fails, other than
one of the rollback. -/
def SaveFails (faults : SnapshotFaults) (disk : SnapshotDisk) : Prop :=
  faults .prepare ≠ none ∨ ReplacedFiles.Fails snapshotFiles faults disk

/-- A save reports an error exactly when it fails before its rollback. -/
theorem errs_save (faults : SnapshotFaults) (content : ChatSnapshot) (disk : SnapshotDisk) :
    ReplacedFiles.Errs faults (saveProgram content) disk ↔ SaveFails faults disk := by
  unfold saveProgram SaveFails
  rw [ReplacedFiles.errs_prepare, ReplacedFiles.errs_replace]

end NormaHarness.Chat
