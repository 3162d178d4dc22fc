import NormaHarness.FileViews
import NormaHarness.Durability

/-!
# The format of the snapshot files

A snapshot is written as JSON. The assets of a message are skipped: they are written once,
in the media list. Fields that later versions added have defaults, so that the files of
older versions can be read. A file is torn when its text is no JSON or repeats a field, and
a file with any other value is treated as a torn one. Seen through their format, the files
of the storage are those of the snapshots, whatever fails and wherever a save is stopped.
-/
namespace NormaHarness.Chat
open Std JsonValues Media FilePrograms StoredContents

def MediaView.codec : Codec MediaView where
  encode a := .obj [member "id" .string a.id, member "name" .string a.name,
    member "mime_type" .string a.mimeType, member "url" .string a.url]
  decode v := do
    let f ← Fields.ofJson 4 v
    let id ← f.required 0 "id" .string
    let name ← f.required 1 "name" .string
    let mimeType ← f.required 2 "mime_type" .string
    let url ← f.required 3 "url" .string
    pure ⟨id, name, mimeType, url⟩
  decode_encode a := by
    simp [Fields.ofJson, Fields.required, Fields.find, member, List.lookup, Codec.decode_encode]

/-- Fields that a file may lack: it was written before they existed, or they are optional. -/
def laterFields : List String :=
  ["attachments", "active_member", "sleeping", "sleep_generation", "last_activity_ms",
    "archived", "incognito"]

/-- The names of some of these fields. -/
def OnlyLater (names : List String) : Prop := ∀ name ∈ names, name ∈ laterFields

theorem OnlyLater.has {names : List String} (h : OnlyLater names) {name : String}
    (hname : name ∉ laterFields) : name ∉ names := fun hmem => hname (h name hmem)

theorem onlyLater_nil : OnlyLater [] := fun _ hname => absurd hname List.not_mem_nil

/-! ## Messages -/

/-- A message as it is read, without assets. -/
structure StoredMessage where
  message : ChatMessage
  skipped : message.media = []

def ChatMessage.stored (m : ChatMessage) : StoredMessage := ⟨{m with media := []}, rfl⟩

def ChatMessage.fields (m : ChatMessage) : List (String × Json) :=
  [member "id" .u64 m.id, member "role" .string m.role, member "author" .string m.author,
    member "text" .string m.text, member "created_at" .u64 m.createdAt,
    member "attachments" (.list MediaView.codec) m.attachments]

def StoredMessage.decode (v : Json) : Option StoredMessage := do
  let f ← Fields.ofJson 6 v
  let id ← f.required 0 "id" .u64
  let role ← f.required 1 "role" .string
  let author ← f.required 2 "author" .string
  let text ← f.required 3 "text" .string
  let createdAt ← f.required 4 "created_at" .u64
  let attachments ← f.withDefault 5 "attachments" (.list MediaView.codec) []
  pure ⟨⟨id, role, author, text, createdAt, attachments, []⟩, rfl⟩

/-- A message with defaults in the place of these fields. -/
def ChatMessage.lacking (names : List String) (m : ChatMessage) : ChatMessage :=
  {m with attachments := if "attachments" ∈ names then [] else m.attachments}

theorem StoredMessage.decode_without {names : List String} (h : OnlyLater names)
    (m : ChatMessage) :
    StoredMessage.decode (.without names (.obj m.fields)) = some (m.lacking names).stored := by
  have hfields : Fields.ofJson 6 (.without names (.obj m.fields)) =
      some (.lacking names m.fields) := rfl
  simp only [decode, hfields, Option.bind_eq_bind, Option.bind_some]
  rw [Fields.required_lacking (a := m.id) (h.has (by decide)) rfl,
    Fields.required_lacking (a := m.role) (h.has (by decide)) rfl,
    Fields.required_lacking (a := m.author) (h.has (by decide)) rfl,
    Fields.required_lacking (a := m.text) (h.has (by decide)) rfl,
    Fields.required_lacking (a := m.createdAt) (h.has (by decide)) rfl,
    Fields.withDefault_lacking (a := m.attachments) rfl]
  rfl

theorem StoredMessage.ext_message {s t : StoredMessage} (h : s.message = t.message) : s = t := by
  cases s
  cases t
  cases h
  rfl

def StoredMessage.codec : Codec StoredMessage where
  encode s := .obj s.message.fields
  decode := StoredMessage.decode
  decode_encode s := by
    have hread := StoredMessage.decode_without onlyLater_nil s.message
    have hall : Json.without [] (.obj s.message.fields) = .obj s.message.fields := rfl
    rw [hall] at hread
    refine hread.trans (congrArg some (StoredMessage.ext_message ?_))
    have hskipped : s.message.media = [] := s.skipped
    simp only [ChatMessage.stored, ChatMessage.lacking, ← hskipped]
    rfl

/-! ## Rooms -/

/-- A room as it is read. -/
structure StoredRoom where
  room : ChatRoom
  skipped : encodedRoom room = room

theorem encodedRoom_idem (room : ChatRoom) : encodedRoom (encodedRoom room) = encodedRoom room := by
  simp [encodedRoom]

def ChatRoom.stored (room : ChatRoom) : StoredRoom := ⟨encodedRoom room, encodedRoom_idem room⟩

theorem stored_messages (messages : List StoredMessage) :
    (messages.map StoredMessage.message).map (fun m => {m with media := []}) =
      messages.map StoredMessage.message := by
  rw [List.map_map]
  refine List.map_congr_left fun s _ => ?_
  have hskipped : s.message.media = [] := s.skipped
  simp only [Function.comp_apply, ← hskipped]

/-- The members of a room whose messages are written so. -/
def ChatRoom.fields (messages : Json) (room : ChatRoom) : List (String × Json) :=
  [member "id" .u64 room.id, member "name" .string room.name,
    member "members" (.list .string) room.members, ("messages", messages),
    member "busy" .bool room.busy, ("active_member", encodeNullable .string room.activeMember),
    member "sleeping" .bool room.sleeping, member "sleep_generation" .u64 room.sleepGeneration,
    member "last_activity_ms" .u64 room.lastActivityMs, member "archived" .bool room.archived,
    member "incognito" .bool room.incognito]

def ChatRoom.encode (room : ChatRoom) : Json :=
  .obj (room.fields (.arr (room.messages.map fun m => .obj m.fields)))

/-- A room in a file that lacks these fields. -/
def ChatRoom.encodeWithout (names : List String) (room : ChatRoom) : Json :=
  .without names (.obj (room.fields
    (.arr (room.messages.map fun m => .without names (.obj m.fields)))))

def StoredRoom.decode (v : Json) : Option StoredRoom := do
  let f ← Fields.ofJson 11 v
  let id ← f.required 0 "id" .u64
  let name ← f.required 1 "name" .string
  let members ← f.required 2 "members" (.list .string)
  let messages ← f.required 3 "messages" (.list StoredMessage.codec)
  let busy ← f.required 4 "busy" .bool
  let activeMember ← f.optional 5 "active_member" .string
  let sleeping ← f.withDefault 6 "sleeping" .bool false
  let sleepGeneration ← f.withDefault 7 "sleep_generation" .u64 0
  let lastActivityMs ← f.withDefault 8 "last_activity_ms" .u64 0
  let archived ← f.withDefault 9 "archived" .bool false
  let incognito ← f.withDefault 10 "incognito" .bool false
  pure ⟨⟨id, name, members, messages.map StoredMessage.message, busy, activeMember, sleeping,
    sleepGeneration, lastActivityMs, archived, incognito⟩, by
      simp only [encodedRoom, stored_messages]⟩

/-- A room with defaults in the place of these fields. -/
def ChatRoom.lacking (names : List String) (room : ChatRoom) : ChatRoom where
  id := room.id
  name := room.name
  members := room.members
  messages := room.messages.map (ChatMessage.lacking names)
  busy := room.busy
  activeMember := if "active_member" ∈ names then none else room.activeMember
  sleeping := if "sleeping" ∈ names then false else room.sleeping
  sleepGeneration := if "sleep_generation" ∈ names then 0 else room.sleepGeneration
  lastActivityMs := if "last_activity_ms" ∈ names then 0 else room.lastActivityMs
  archived := if "archived" ∈ names then false else room.archived
  incognito := if "incognito" ∈ names then false else room.incognito

theorem StoredRoom.ext_room {s t : StoredRoom} (h : s.room = t.room) : s = t := by
  cases s
  cases t
  cases h
  rfl

/-- What a list of messages in a file is read as. -/
theorem messages_without {names : List String} (h : OnlyLater names)
    (messages : List ChatMessage) :
    (Codec.list StoredMessage.codec).decode
        (.arr (messages.map fun m => .without names (.obj m.fields))) =
      some (messages.map fun m => (m.lacking names).stored) :=
  Codec.list_decode_map fun m _ => StoredMessage.decode_without h m

/-- A room is read with the defaults of what is lacking, and without assets. -/
theorem StoredRoom.decode_without {names : List String} (h : OnlyLater names)
    (room : ChatRoom) :
    StoredRoom.decode (room.encodeWithout names) = some (room.lacking names).stored := by
  let messages : Json := .arr (room.messages.map fun m => .without names (.obj m.fields))
  have hfields : Fields.ofJson 11 (room.encodeWithout names) =
      some (.lacking names (room.fields messages)) := rfl
  have hmessages : (Fields.lacking names (room.fields messages)).required 3 "messages"
      (.list StoredMessage.codec) = some (room.messages.map fun m => (m.lacking names).stored) := by
    rw [Fields.required, Fields.find_lacking, if_neg (h.has (by decide))]
    exact messages_without h room.messages
  simp only [decode, hfields, Option.bind_eq_bind, Option.bind_some]
  rw [Fields.required_lacking (a := room.id) (h.has (by decide)) rfl,
    Fields.required_lacking (a := room.name) (h.has (by decide)) rfl,
    Fields.required_lacking (a := room.members) (h.has (by decide)) rfl, hmessages,
    Fields.required_lacking (a := room.busy) (h.has (by decide)) rfl,
    Fields.optional_lacking Codec.string_nonNull (a := room.activeMember) rfl,
    Fields.withDefault_lacking (a := room.sleeping) rfl,
    Fields.withDefault_lacking (a := room.sleepGeneration) rfl,
    Fields.withDefault_lacking (a := room.lastActivityMs) rfl,
    Fields.withDefault_lacking (a := room.archived) rfl,
    Fields.withDefault_lacking (a := room.incognito) rfl]
  refine congrArg some (StoredRoom.ext_room ?_)
  simp only [ChatRoom.stored, encodedRoom, ChatRoom.lacking, ChatRoom.mk.injEq, List.map_map,
    true_and, and_true]
  rfl

theorem ChatRoom.lacking_nil (room : ChatRoom) : room.lacking [] = room := by
  have hmessages : room.messages.map (ChatMessage.lacking []) = room.messages :=
    List.map_id _
  simp only [ChatRoom.lacking, hmessages, List.not_mem_nil, if_false]

theorem StoredRoom.decode_encode (room : ChatRoom) :
    StoredRoom.decode room.encode = some room.stored := by
  have hread := StoredRoom.decode_without onlyLater_nil room
  rw [ChatRoom.lacking_nil] at hread
  exact hread

def StoredRoom.codec : Codec StoredRoom where
  encode s := s.room.encode
  decode := StoredRoom.decode
  decode_encode s :=
    (StoredRoom.decode_encode s.room).trans (congrArg some (StoredRoom.ext_room s.skipped))

theorem encode_encodedRoom (room : ChatRoom) : (encodedRoom room).encode = room.encode := by
  simp only [ChatRoom.encode, encodedRoom, List.map_map]
  rfl

/-! ## Snapshots -/

def ChatSnapshot.encode (s : ChatSnapshot) : Json :=
  .obj [("rooms", .arr (s.rooms.map ChatRoom.encode)),
    member "media" (.list MediaAsset.codec) s.media]

/-- A snapshot in a file whose rooms and messages lack these fields. -/
def ChatSnapshot.encodeWithout (names : List String) (s : ChatSnapshot) : Json :=
  .obj [("rooms", .arr (s.rooms.map (ChatRoom.encodeWithout names))),
    member "media" (.list MediaAsset.codec) s.media]

def ChatSnapshot.decode (v : Json) : Option ChatSnapshot := do
  let f ← Fields.ofJson 2 v
  let rooms ← f.required 0 "rooms" (.list StoredRoom.codec)
  let media ← f.required 1 "media" (.list MediaAsset.codec)
  pure ⟨rooms.map StoredRoom.room, media⟩

theorem ChatSnapshot.decode_without {names : List String} (h : OnlyLater names)
    (s : ChatSnapshot) : ChatSnapshot.decode (s.encodeWithout names) =
      some ⟨s.rooms.map fun room => encodedRoom (room.lacking names), s.media⟩ := by
  have hfields : Fields.ofJson 2 (s.encodeWithout names) = some (.named
      [("rooms", .arr (s.rooms.map (ChatRoom.encodeWithout names))),
        member "media" (.list MediaAsset.codec) s.media]) := rfl
  have hrooms : (Codec.list StoredRoom.codec).decode
      (.arr (s.rooms.map (ChatRoom.encodeWithout names))) =
        some (s.rooms.map fun room => (room.lacking names).stored) :=
    Codec.list_decode_map fun room _ => StoredRoom.decode_without h room
  simp only [decode, hfields, Option.bind_eq_bind, Option.bind_some]
  rw [Fields.required, Fields.find, List.lookup_cons_self, Option.bind_some, hrooms,
    Option.bind_some, Fields.required_encode (a := s.media) rfl]
  simp only [Option.bind_some, List.map_map]
  rfl

theorem ChatSnapshot.decode_encode (s : ChatSnapshot) :
    ChatSnapshot.decode s.encode = some ⟨s.rooms.map encodedRoom, s.media⟩ := by
  have hread := ChatSnapshot.decode_without onlyLater_nil s
  simp only [ChatRoom.lacking_nil] at hread
  exact hread

/-- What `ChatStorage::save` collects, before it is encoded. -/
def collected (s : RoomStore) : ChatSnapshot :=
  let rooms := s.values.filter fun room => !room.incognito
  ⟨rooms, (snapshotMedia rooms).toList.map Prod.snd⟩

/-- The encoding of what is collected is read back as the snapshot of the rooms. -/
theorem decode_collected (s : RoomStore) :
    ChatSnapshot.decode (collected s).encode = some (snapshot s) :=
  ChatSnapshot.decode_encode (collected s)

theorem encode_snapshot (s : RoomStore) : (snapshot s).encode = (collected s).encode := by
  have hrooms : (snapshot s).rooms.map ChatRoom.encode =
      (collected s).rooms.map ChatRoom.encode := by
    simp only [snapshot, collected, List.map_map]
    exact List.map_congr_left fun room _ => encode_encodedRoom room
  unfold ChatSnapshot.encode
  rw [hrooms]
  rfl

/-! ## The files -/

abbrev SnapshotFiles := Disk SnapshotFile Json

def parsedSnapshot : Content Json → Option ChatSnapshot
  | .whole v => ChatSnapshot.decode v
  | .torn => none

def loadFilesBackup (files : SnapshotFiles) : Except LoadError (Option ChatSnapshot) :=
  match files .backup with
  | none => .ok none
  | some content =>
    match parsedSnapshot content with
    | some snapshot => .ok (some snapshot)
    | none => .error (.invalidData .backup)

/-- `ChatStorage::load` on the files, whose own file calls succeed. -/
def loadFiles (files : SnapshotFiles) : Except LoadError (Option ChatSnapshot) :=
  match files .main with
  | none => loadFilesBackup files
  | some content =>
    match parsedSnapshot content with
    | some snapshot => .ok (some snapshot)
    | none =>
        if (files .backup).isSome then loadFilesBackup files else .error (.invalidData .main)

/-- `ChatStorage::save` on the files. -/
def saveFilesProgram (s : RoomStore) : Program SnapshotFile Json (Except String Unit) :=
  .prepare (ReplacedFiles.replace snapshotFiles (collected s).encode) ReplacedFiles.failed

theorem snapshotFiles_main : snapshotFiles.main = .main := rfl

theorem snapshotFiles_backup : snapshotFiles.backup = .backup := rfl

theorem viewed_parsed {files : SnapshotFiles} {file : SnapshotFile} {content : Content Json}
    (hfile : files file = some content) : viewed ChatSnapshot.decode files file = some
      (match parsedSnapshot content with
      | some snapshot => .whole snapshot
      | none => .torn) := by
  rw [viewed, hfile]
  cases content with
  | torn => rfl
  | whole v =>
      simp only [Option.map_some, Content.viewed, parsedSnapshot]
      cases ChatSnapshot.decode v with
      | none => rfl
      | some snapshot => rfl

theorem viewed_isSome (files : SnapshotFiles) (file : SnapshotFile) :
    (viewed ChatSnapshot.decode files file).isSome = (files file).isSome := by
  rw [viewed, Option.isSome_map]

theorem loadBackup_viewed (files : SnapshotFiles) :
    (ReplacedFiles.loadBackup snapshotFiles (viewed ChatSnapshot.decode files)).mapError
      .invalidData = loadFilesBackup files := by
  unfold ReplacedFiles.loadBackup loadFilesBackup
  rw [snapshotFiles_backup]
  cases hfile : files .backup with
  | none =>
      rw [viewed, hfile]
      rfl
  | some content =>
      rw [viewed_parsed hfile]
      cases hparsed : parsedSnapshot content with
      | none => simp [hparsed, Except.mapError]
      | some snapshot => simp [hparsed, Except.mapError]

theorem load_viewed (files : SnapshotFiles) :
    load (viewed ChatSnapshot.decode files) = loadFiles files := by
  have hbackup := loadBackup_viewed files
  unfold load ReplacedFiles.load loadFiles
  rw [snapshotFiles_main, snapshotFiles_backup]
  simp only [viewed_isSome, ← hbackup]
  cases hfile : files .main with
  | none =>
      rw [viewed, hfile]
      rfl
  | some content =>
      rw [viewed_parsed hfile]
      cases hparsed : parsedSnapshot content with
      | some snapshot => simp [hparsed, Except.mapError]
      | none =>
          simp only [hparsed]
          split
          · rfl
          · rfl

theorem saveFilesProgram_eq (s : RoomStore) :
    saveFilesProgram s = (saveProgram (snapshot s)).encoded ChatSnapshot.encode := by
  rw [saveFilesProgram, saveProgram, Program.encoded, replace_encoded, encode_snapshot]
  rfl

theorem saveProgram_writes (s : RoomStore) : Writes
    (fun content => ChatSnapshot.decode (ChatSnapshot.encode content) = some content)
    (saveProgram (snapshot s)) := by
  have hread : ChatSnapshot.decode (snapshot s).encode = some (snapshot s) := by
    rw [encode_snapshot, decode_collected]
  exact .prepare _ _ (replace_writes snapshotFiles hread) fun error => .done _

/-! ## Any use of the storage -/

/-- A save, and a save in which the process ends, with anything in the pending file. -/
inductive StorageUse where
  | save (faults : SnapshotFaults) (rooms : RoomStore)
  | stop (faults : SnapshotFaults) (calls : ℕ) (pending : Option (Content Json))
      (rooms : RoomStore)

def StorageUse.onFiles (files : SnapshotFiles) : StorageUse → SnapshotFiles
  | .save faults rooms => (exec faults (saveFilesProgram rooms) files).2
  | .stop faults calls pending rooms =>
      Function.update (cut faults calls (saveFilesProgram rooms) files) .pending pending

def StorageUse.onDisk (disk : SnapshotDisk) : StorageUse → SnapshotDisk
  | .save faults rooms => (exec faults (saveProgram (snapshot rooms)) disk).2
  | .stop faults calls pending rooms =>
      stoppedSave faults calls (pending.map (Content.viewed ChatSnapshot.decode)) (snapshot rooms)
        disk

theorem StorageUse.viewed (use : StorageUse) (files : SnapshotFiles) :
    use.onDisk (viewed ChatSnapshot.decode files) =
      FilePrograms.viewed ChatSnapshot.decode (use.onFiles files) := by
  cases use with
  | save faults rooms =>
      simp only [onDisk, onFiles, saveFilesProgram_eq]
      rw [exec_encoded (saveProgram_writes rooms)]
  | stop faults calls pending rooms =>
      simp only [onDisk, onFiles, saveFilesProgram_eq, stoppedSave]
      rw [viewed_update, cut_encoded (saveProgram_writes rooms)]

/-- Whatever the files hold at first, and however the storage is used: seen through their
format, the files are those of the snapshots, a load finds the same, and a save reports the
same. -/
theorem snapshot_files_refine (files : SnapshotFiles) (uses : List StorageUse) :
    let last := uses.foldl StorageUse.onFiles files
    let disk := uses.foldl StorageUse.onDisk (viewed ChatSnapshot.decode files)
    viewed ChatSnapshot.decode last = disk ∧ loadFiles last = load disk ∧
      ∀ faults rooms, (exec faults (saveFilesProgram rooms) last).1 =
        (exec faults (saveProgram (snapshot rooms)) disk).1 := by
  have hview : viewed ChatSnapshot.decode (uses.foldl StorageUse.onFiles files) =
      uses.foldl StorageUse.onDisk (viewed ChatSnapshot.decode files) := by
    induction uses generalizing files with
    | nil => rfl
    | cons use uses ih => rw [List.foldl_cons, List.foldl_cons, use.viewed, ih]
  intro last disk
  refine ⟨hview, ?_, fun faults rooms => ?_⟩
  · rw [← load_viewed, hview]
  · have hdisk : disk = viewed ChatSnapshot.decode last := hview.symm
    rw [saveFilesProgram_eq, hdisk, exec_encoded (saveProgram_writes rooms)]

/-! ## Starting from an older file -/

/-- A snapshot of changed rooms is restored room by room, if they keep their identities. -/
theorem get_restored_ordinary (s : RoomStore) (media : ExtTreeMap String MediaAsset)
    {f : ChatRoom → ChatRoom} (hid : ∀ room, (f room).id = room.id) (id : ℕ) :
    (restoreRoomsWithMedia ((s.values.filter fun room => !room.incognito).map f) media
        launch).rooms.get id =
      ((s.get id).filter fun room => !room.incognito).map fun room =>
        restoredRoom media (f room) := by
  let ordinary := s.values.filter fun room => !room.incognito
  have hids : (ordinary.map f).map ChatRoom.id = ordinary.map ChatRoom.id := by
    rw [List.map_map]
    exact List.map_congr_left fun room _ => hid room
  have hnodup : ((ordinary.map f).map ChatRoom.id).Nodup := by
    rw [hids]
    exact (values_nodup s).sublist (List.filter_sublist.map _)
  cases hget : (s.get id).filter fun room => !room.incognito with
  | some room =>
      obtain ⟨hroom, hordinary⟩ := Option.filter_eq_some_iff.mp hget
      have hroomId : room.id = id := RoomStore.id_of_get hroom
      have hmem : room ∈ ordinary :=
        List.mem_filter.mpr ⟨RoomStore.mem_values.mpr (hroomId ▸ hroom), hordinary⟩
      have hfound := get_restoreRooms_mem media hnodup (List.mem_map_of_mem hmem) launch
      rw [hid room, hroomId] at hfound
      exact hfound
  | none =>
      have hother : id ∉ (ordinary.map f).map ChatRoom.id := by
        rw [hids]
        intro hmem
        obtain ⟨room, hroom, hroomId⟩ := List.mem_map.mp hmem
        obtain ⟨hvalue, hordinary⟩ := List.mem_filter.mp hroom
        have hstored : s.get id = some room := hroomId ▸ RoomStore.mem_values.mp hvalue
        rw [hstored, Option.filter_some, if_pos hordinary] at hget
        cases hget
      rw [Option.map_none, get_restoreRooms_other hother]
      simp [launch]

/-- A server that finds a file without some of the later fields starts, and with the rooms
of the file: each ordinary room that was saved, with the defaults of what is lacking. -/
theorem older_files_start {names : List String} (h : OnlyLater names) (s : RoomStore)
    {files : SnapshotFiles}
    (hmain : files .main = some (.whole ((collected s).encodeWithout names))) :
    ∃ w, boot (viewed ChatSnapshot.decode files) = .ok w ∧ ∀ id, w.chat.rooms.get id =
      ((s.get id).filter fun room => !room.incognito).map fun room =>
        restoredRoom (restoredMedia (snapshot s)) (encodedRoom (room.lacking names)) := by
  let older : ChatSnapshot :=
    ⟨(collected s).rooms.map fun room => encodedRoom (room.lacking names), (collected s).media⟩
  have hread : ChatSnapshot.decode ((collected s).encodeWithout names) = some older :=
    ChatSnapshot.decode_without h (collected s)
  have hload : load (viewed ChatSnapshot.decode files) = .ok (some older) := by
    rw [load_viewed]
    simp only [loadFiles, hmain, parsedSnapshot, hread]
  refine ⟨start older.rooms (restoredMedia older) (viewed ChatSnapshot.decode files), ?_, ?_⟩
  · simp only [boot, hload]
  · exact get_restored_ordinary s (restoredMedia older) fun room => rfl

/-- An archived room in a file of a version that did not archive rooms. -/
def unarchivedFiles (rooms : RoomStore) : SnapshotFiles := fun file =>
  if file = .main then some (.whole ((collected rooms).encodeWithout ["archived"])) else none

theorem older_files_start_archived :
    let rooms := RoomStore.empty.put {newRoom 1 "Plans" ["Codex"] false 0 with archived := true}
    ∃ w, boot (viewed ChatSnapshot.decode (unarchivedFiles rooms)) = .ok w ∧
      (w.chat.rooms.get 1).map ChatRoom.archived = some false := by
  intro rooms
  have hlater : OnlyLater ["archived"] := by
    unfold OnlyLater
    decide
  have hmain : unarchivedFiles rooms .main =
      some (.whole ((collected rooms).encodeWithout ["archived"])) := rfl
  obtain ⟨w, hboot, hrooms⟩ := older_files_start hlater rooms hmain
  refine ⟨w, hboot, ?_⟩
  have hroom : rooms.get 1 = some {newRoom 1 "Plans" ["Codex"] false 0 with archived := true} :=
    RoomStore.get_put_self RoomStore.empty _
  rw [hrooms 1, hroom]
  rfl

end NormaHarness.Chat
