import NormaHarness.ChatStorage
import NormaHarness.Mentions

/-!
# The room coordinator

An operation that touches rooms holds the room lock and is one step. It receives the
clock readings it makes, and its snapshot fails as the environment chooses. A room
identity is drawn before the lock is taken, so creating a room is split there. The two
presence tables have locks of their own, which a heartbeat or a departure takes one
after the other; each of the two is taken as one step. Counters are natural numbers here,
and `CounterBounds` says how far those of 64 bits do the same.
-/
namespace NormaHarness.Chat
open Std Identifiers Contracts LlmProtocol Media FilePrograms

structure ChatResident where
  rooms : RoomStore
  nextRoom : ℕ
  nextMessage : ℕ
  nextRequest : ℕ
  storageEnabled : Bool
  presence : ExtTreeMap ℕ (ExtTreeMap String ℕ)
  lastPresence : ExtTreeMap ℕ ℕ

def launch : ChatResident := ⟨.empty, 1, 1, 1, false, ∅, ∅⟩

/-- A round in flight: the arguments that `run_turn` was spawned with. -/
structure Round where
  roomId : ℕ
  task : String
  members : List String
  isGroup : Bool
  roundStart : ℕ
  deriving DecidableEq, Repr

/-! ## Saving -/

def saveLocked (faults : SnapshotFaults) (chat : ChatResident) (disk : SnapshotDisk) :
    Except ChatError Unit × SnapshotDisk :=
  if chat.storageEnabled then
    match exec faults (saveProgram (snapshot chat.rooms)) disk with
    | (.ok (), disk) => (.ok (), disk)
    | (.error error, disk) => (.error (.internal s!"could not save chat history: {error}"), disk)
  else (.ok (), disk)

/-- The rooms have been changed in place; `result` is returned if they can be saved. -/
def saving {α : Type} (faults : SnapshotFaults) (result : α) (chat : ChatResident)
    (disk : SnapshotDisk) : Except ChatError α × ChatResident × SnapshotDisk :=
  match saveLocked faults chat disk with
  | (.ok (), disk) => (.ok result, chat, disk)
  | (.error error, disk) => (.error error, chat, disk)

def enableStorage (faults : SnapshotFaults) (chat : ChatResident) (disk : SnapshotDisk) :
    Except ChatError Unit × ChatResident × SnapshotDisk :=
  if chat.storageEnabled then
    (.error (.internal "chat storage is already configured"), chat, disk)
  else saving faults () {chat with storageEnabled := true} disk

/-! ## Rooms -/

def newRoom (id : ℕ) (name : String) (members : List String) (incognito : Bool) (now : ℕ) :
    ChatRoom :=
  ⟨id, name, members, [], false, none, false, 0, now, false, incognito⟩

/-- The part of `create_room_with_mode` before the room lock. -/
def reserveRoom (name : String) (members : List ResidentKey) (incognito : Bool) (now : ℕ)
    (chat : ChatResident) : Except ChatError (ChatRoom × ChatResident) :=
  match validRoomName name with
  | .error error => .error error
  | .ok name =>
    match validMembers members with
    | .error error => .error error
    | .ok () =>
        .ok (newRoom chat.nextRoom name (members.map Identifier.asStr) incognito now,
          {chat with nextRoom := chat.nextRoom + 1})

def insertRoom (faults : SnapshotFaults) (room : ChatRoom) (chat : ChatResident)
    (disk : SnapshotDisk) : Except ChatError ChatRoom × ChatResident × SnapshotDisk :=
  saving faults room {chat with rooms := chat.rooms.put room} disk

def createRoomWithMode (faults : SnapshotFaults) (name : String) (members : List ResidentKey)
    (incognito : Bool) (now : ℕ) (chat : ChatResident) (disk : SnapshotDisk) :
    Except ChatError ChatRoom × ChatResident × SnapshotDisk :=
  match reserveRoom name members incognito now chat with
  | .error error => (.error error, chat, disk)
  | .ok (room, chat) => insertRoom faults room chat disk

def isSoloRoom (member : ResidentKey) (room : ChatRoom) : Bool :=
  !room.incognito && !room.archived && room.members == [member.asStr]

def ensureSoloRoom (faults : SnapshotFaults) (member : ResidentKey) (name : String) (now : ℕ)
    (chat : ChatResident) (disk : SnapshotDisk) :
    Except ChatError ChatRoom × ChatResident × SnapshotDisk :=
  match validRoomName name with
  | .error error => (.error error, chat, disk)
  | .ok name =>
    match chat.rooms.values.find? (isSoloRoom member) with
    | some existing => (.ok existing, chat, disk)
    | none =>
        insertRoom faults (newRoom chat.nextRoom name [member.asStr] false now)
          {chat with nextRoom := chat.nextRoom + 1} disk

def isIncognitoSoloRoom (member : ResidentKey) (room : ChatRoom) : Bool :=
  room.incognito && room.members == [member.asStr]

/-- The incognito room is never saved, so this operation does not try. -/
def ensureIncognitoSoloRoom (member : ResidentKey) (name : String) (now : ℕ)
    (chat : ChatResident) : Except ChatError ChatRoom × ChatResident :=
  match validRoomName name with
  | .error error => (.error error, chat)
  | .ok name =>
    match chat.rooms.values.find? (isIncognitoSoloRoom member) with
    | some existing => (.ok existing, chat)
    | none =>
        let room := newRoom chat.nextRoom name [member.asStr] true now
        (.ok room, {chat with rooms := chat.rooms.put room, nextRoom := chat.nextRoom + 1})

/-- One message of a restored room: its assets are found again by the views' names. -/
def restoredMessage (media : ExtTreeMap String MediaAsset) (m : ChatMessage) : ChatMessage :=
  {m with
    attachments := m.attachments.map fun view => ((media[view.id]?).map MediaAsset.view).getD view
    media := m.attachments.filterMap fun view => media[view.id]?}

def restoreRoom (media : ExtTreeMap String MediaAsset) (chat : ChatResident) (room : ChatRoom) :
    ChatResident :=
  {chat with
    rooms := chat.rooms.put
      {room with
        busy := false
        activeMember := none
        sleeping := true
        messages := room.messages.map (restoredMessage media)}
    nextRoom := max chat.nextRoom (room.id + 1)
    nextMessage := room.messages.foldl (fun next m => max next (m.id + 1)) chat.nextMessage}

def restoreRoomsWithMedia (restored : List ChatRoom) (media : ExtTreeMap String MediaAsset)
    (chat : ChatResident) : ChatResident :=
  restored.foldl (restoreRoom media) chat

/-! ## Messages and rounds -/

/-- `new_message`, with the identity that the counter yields. -/
def newMessage (chat : ChatResident) (role author text : String) (media : List MediaAsset)
    (createdAt : ℕ) : ChatMessage :=
  ⟨chat.nextMessage, role, author, text, createdAt, media.map MediaAsset.view, media⟩

def appended (room : ChatRoom) (m : ChatMessage) : ChatRoom :=
  {room with messages := room.messages ++ [m]}

/-- The clock readings of one operation. -/
structure Clock where
  now : ℕ
  createdAt : ℕ

def checkMessage (text : String) (media : List MediaAsset) : Except ChatError Unit :=
  if (text.isEmpty && media.isEmpty) || 20000 < text.length then
    .error (.invalid "message needs text or an image, with at most 20000 characters")
  else if maxMessageMedia < media.length then
    .error (.invalid s!"at most {maxMessageMedia} images per message")
  else .ok ()

/-- The members a message addresses, once the room accepts it. -/
def addressed (isAlphanumeric : Char → Bool) (text : String) (room : ChatRoom) :
    Except ChatError (List String) :=
  if room.busy then .error .busy
  else if room.archived then .error (.invalid "unarchive this room before sending a message")
  else if 1 < room.members.length then
    (mentionedMembers isAlphanumeric text room.members).map fun mentioned =>
      if mentioned.isEmpty then room.members else mentioned
  else .ok room.members

/-- The room as the accepted message leaves it. -/
def woken (chat : ChatResident) (clock : Clock) (text : String) (media : List MediaAsset)
    (room : ChatRoom) : ChatRoom :=
  appended {room with busy := true, sleeping := false, lastActivityMs := clock.now}
    (newMessage chat "user" "你" text media clock.createdAt)

/-- The checks of a user message, in their order: the message, the room, its members. -/
def admission (isAlphanumeric : Char → Bool) (id : ℕ) (text : String) (media : List MediaAsset)
    (chat : ChatResident) : Except ChatError (ChatRoom × List String) :=
  match checkMessage text media with
  | .error error => .error error
  | .ok () =>
    match chat.rooms.get id with
    | none => .error .notFound
    | some room => (addressed isAlphanumeric text room).map fun members => (room, members)

def accepting (chat : ChatResident) (clock : Clock) (text : String) (media : List MediaAsset)
    (room : ChatRoom) : ChatResident :=
  {chat with
    rooms := chat.rooms.put (woken chat clock text media room)
    nextMessage := chat.nextMessage + 1}

/-- An accepted and saved message starts a round. -/
def sendUserMessageWithMedia (isAlphanumeric : Char → Bool) (faults : SnapshotFaults)
    (clock : Clock) (id : ℕ) (text : String) (media : List MediaAsset) (chat : ChatResident)
    (disk : SnapshotDisk) :
    Except ChatError ChatRoom × ChatResident × SnapshotDisk × Option Round :=
  match admission isAlphanumeric id (Text.trim text) media chat with
  | .error error => (.error error, chat, disk, none)
  | .ok (room, members) =>
    match saving faults (woken chat clock (Text.trim text) media room)
        (accepting chat clock (Text.trim text) media room) disk with
    | (.error error, chat, disk) => (.error error, chat, disk, none)
    | (.ok snapshot, sent, disk) =>
        let task := if (Text.trim text).isEmpty then "请查看附件并回复。" else Text.trim text
        (.ok snapshot, sent, disk,
          some ⟨id, task, members, 1 < room.members.length, chat.nextMessage⟩)

/-- The error of the save is only logged. -/
def pushMessageWithMedia (faults : SnapshotFaults) (clock : Clock) (id : ℕ)
    (role author text : String) (media : List MediaAsset) (chat : ChatResident)
    (disk : SnapshotDisk) : ChatResident × SnapshotDisk :=
  match chat.rooms.get id with
  | none => (chat, disk)
  | some room =>
      let message := newMessage chat role author text media clock.createdAt
      let room := {appended room message with lastActivityMs := clock.now}
      let chat := {chat with rooms := chat.rooms.put room, nextMessage := chat.nextMessage + 1}
      (chat, (saveLocked faults chat disk).2)

def setActive (id : ℕ) (member : Option String) (chat : ChatResident) : ChatResident :=
  match chat.rooms.get id with
  | none => chat
  | some room => {chat with rooms := chat.rooms.put {room with activeMember := member}}

def finish (faults : SnapshotFaults) (now id : ℕ) (chat : ChatResident) (disk : SnapshotDisk) :
    ChatResident × SnapshotDisk :=
  match chat.rooms.get id with
  | none => (chat, disk)
  | some room =>
      let room := {room with busy := false, activeMember := none, lastActivityMs := now}
      let chat := {chat with rooms := chat.rooms.put room}
      (chat, (saveLocked faults chat disk).2)

/-! ## Presence, sleep and archive -/

def heartbeat (now id : ℕ) (client : String) (chat : ChatResident) :
    Except ChatError Unit × ChatResident :=
  if client.isEmpty || 64 < client.utf8ByteSize then
    (.error (.invalid "invalid client ID"), chat)
  else
    match chat.rooms.get id with
    | none => (.error .notFound, chat)
    | some _ =>
        (.ok (), {chat with
          presence := chat.presence.insert id ((chat.presence[id]?.getD ∅).insert client now)
          lastPresence := chat.lastPresence.insert id now})

def leave (now id : ℕ) (client : String) (chat : ChatResident) : ChatResident :=
  {chat with
    presence := match chat.presence[id]? with
      | none => chat.presence
      | some clients => chat.presence.insert id (clients.erase client)
    lastPresence := chat.lastPresence.insert id now}

/-- The time limits of the sleep check. -/
structure SleepLimits where
  idleMs : ℕ
  leaseMs : ℕ
  leaveGraceMs : ℕ

def presentClients (limits : SleepLimits) (now : ℕ) (chat : ChatResident) (id : ℕ) :
    ExtTreeMap String ℕ :=
  (chat.presence[id]?.getD ∅).filter fun _ seen => decide (now - seen < limits.leaseMs)

/-- A quiet room without a turn in progress. -/
def isDue (limits : SleepLimits) (now : ℕ) (chat : ChatResident) (room : ChatRoom) : Bool :=
  let idle := decide (limits.idleMs ≤ now - room.lastActivityMs)
  let left := (presentClients limits now chat room.id).isEmpty &&
    decide (limits.leaveGraceMs ≤ now - (chat.lastPresence[room.id]?).getD room.lastActivityMs)
  idle || left

def asleep (room : ChatRoom) : ChatRoom :=
  {room with sleeping := true, sleepGeneration := room.sleepGeneration + 1}

/-- One room of the sweep. Expired clients of an awake and idle room are forgotten. -/
def sleepRoom (limits : SleepLimits) (now : ℕ) (swept : ChatResident × List ChatRoom)
    (room : ChatRoom) : ChatResident × List ChatRoom :=
  if room.sleeping || room.busy then swept
  else
    let chat := {swept.1 with
      presence := swept.1.presence.insert room.id (presentClients limits now swept.1 room.id)}
    if isDue limits now swept.1 room then
      ({chat with rooms := chat.rooms.put (asleep room)}, swept.2 ++ [asleep room])
    else (chat, swept.2)

def sleepDue (faults : SnapshotFaults) (limits : SleepLimits) (now : ℕ) (chat : ChatResident)
    (disk : SnapshotDisk) : List ChatRoom × ChatResident × SnapshotDisk :=
  let swept := chat.rooms.values.foldl (sleepRoom limits now) (chat, [])
  if swept.2.isEmpty then (swept.2, swept.1, disk)
  else (swept.2, swept.1, (saveLocked faults swept.1 disk).2)

/-- The checks of an archive request. -/
def archivable (id : ℕ) (chat : ChatResident) : Except ChatError ChatRoom :=
  match chat.rooms.get id with
  | none => .error .notFound
  | some room =>
    if room.busy then .error .busy
    else if room.incognito then .error (.invalid "incognito rooms cannot be archived")
    else .ok room

def setArchived (faults : SnapshotFaults) (id : ℕ) (archived : Bool) (chat : ChatResident)
    (disk : SnapshotDisk) : Except ChatError ChatRoom × ChatResident × SnapshotDisk :=
  match archivable id chat with
  | .error error => (.error error, chat, disk)
  | .ok room =>
      saving faults {room with archived := archived}
        {chat with rooms := chat.rooms.put {room with archived := archived}} disk

end NormaHarness.Chat
