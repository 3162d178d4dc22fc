import NormaHarness.ChatRuns

/-!
# What one step does to the histories

Most operations only set flags of a room. The rest of a room is its record. Every
step leaves the records as they are, appends one message under the next identity to
one of them, or adds an empty record under a free identity. Facts about histories
follow from these three cases.
-/
namespace NormaHarness.Chat
open Std Identifiers Contracts LlmProtocol Media FilePrograms

/-- A room without its state flags. -/
structure RoomRecord where
  id : ℕ
  name : String
  members : List String
  messages : List ChatMessage
  incognito : Bool

def ChatRoom.record (room : ChatRoom) : RoomRecord :=
  ⟨room.id, room.name, room.members, room.messages, room.incognito⟩

def RoomRecord.extended (room : RoomRecord) (m : ChatMessage) : RoomRecord :=
  {room with messages := room.messages ++ [m]}

def RoomStore.record (s : RoomStore) (id : ℕ) : Option RoomRecord := (s.get id).map ChatRoom.record

/-- The message that an operation appends, with its room, if it gets that far. -/
def ChatOp.message (c : ChatResident) : ChatOp → Option (ℕ × ChatMessage)
  | .send _ clock id text media =>
      some (id, newMessage c "user" "你" (Text.trim text) media clock.createdAt)
  | .push _ clock round role author text media =>
      some (round.roomId, newMessage c role author text media clock.createdAt)
  | _ => none

/-- The room that an operation inserts into the store. -/
def ChatOp.creates (c : ChatResident) : ChatOp → Option ChatRoom
  | .insertRoom _ room => some room
  | .ensureSoloRoom _ member name now =>
    match validRoomName name, c.rooms.values.find? (isSoloRoom member) with
    | .ok name, none => some (newRoom c.nextRoom name [member.asStr] false now)
    | _, _ => none
  | .ensureIncognitoSoloRoom member name now =>
    match validRoomName name, c.rooms.values.find? (isIncognitoSoloRoom member) with
    | .ok name, none => some (newRoom c.nextRoom name [member.asStr] true now)
    | _, _ => none
  | _ => none

/-- The effect of one step on the records. -/
inductive Effect (message : Option (ℕ × ChatMessage)) (created : Option ChatRoom)
    (c c' : ChatResident) : Prop
  | kept : c'.rooms.record = c.rooms.record → c'.nextMessage = c.nextMessage →
      created = none → Effect message created c c'
  | appended (id : ℕ) (room : RoomRecord) (m : ChatMessage) : message = some (id, m) →
      m.id = c.nextMessage → c.rooms.record id = some room →
      c'.rooms.record = Function.update c.rooms.record id (some (room.extended m)) →
      c'.nextMessage = c.nextMessage + 1 → created = none → Effect message created c c'
  | inserted (room : ChatRoom) : created = some room → c.rooms.get room.id = none →
      room.messages = [] →
      c'.rooms.record = Function.update c.rooms.record room.id (some room.record) →
      c'.nextMessage = c.nextMessage → Effect message created c c'

/-! ## Records of a store -/

theorem record_of_get {s : RoomStore} {id : ℕ} {room : ChatRoom} (h : s.get id = some room) :
    s.record id = some room.record := by
  unfold RoomStore.record
  rw [h]
  rfl

theorem exists_of_record {s : RoomStore} {id : ℕ} {record : RoomRecord}
    (h : s.record id = some record) : ∃ room, s.get id = some room ∧ room.record = record :=
  Option.map_eq_some_iff.mp h

theorem record_put (s : RoomStore) (room : ChatRoom) :
    (s.put room).record = Function.update s.record room.id (some room.record) := by
  funext id
  unfold RoomStore.record
  rw [RoomStore.get_put, Function.update_apply]
  by_cases h : id = room.id
  · rw [if_pos h.symm, if_pos h]
    rfl
  · rw [if_neg (Ne.symm h), if_neg h]

/-- A room that is replaced by one with the same record. -/
theorem record_put_flags {s : RoomStore} {id : ℕ} {room room' : ChatRoom}
    (hroom : s.get id = some room) (h : room'.record = room.record) :
    (s.put room').record = s.record := by
  have hid : room'.id = id := (congrArg RoomRecord.id h).trans (RoomStore.id_of_get hroom)
  rw [record_put, hid, h, ← record_of_get hroom]
  exact Function.update_eq_self id s.record

/-! ## The operations -/

namespace Effect

variable {message : Option (ℕ × ChatMessage)} {c c' : ChatResident}

theorem refl (message : Option (ℕ × ChatMessage)) (c : ChatResident) : Effect message none c c :=
  .kept rfl rfl rfl

theorem of_rooms_eq (hrooms : c'.rooms = c.rooms) (hmessage : c'.nextMessage = c.nextMessage) :
    Effect message none c c' :=
  .kept (by rw [hrooms]) hmessage rfl

theorem of_flags {id : ℕ} {room room' : ChatRoom} (hroom : c.rooms.get id = some room)
    (hrooms : c'.rooms = c.rooms.put room') (hrecord : room'.record = room.record)
    (hmessage : c'.nextMessage = c.nextMessage) : Effect message none c c' :=
  .kept (by rw [hrooms, record_put_flags hroom hrecord]) hmessage rfl

theorem of_append {id : ℕ} {room room' : ChatRoom} {m : ChatMessage}
    (hroom : c.rooms.get id = some room) (hid : m.id = c.nextMessage)
    (hrecord : room'.record = room.record.extended m) (hrooms : c'.rooms = c.rooms.put room')
    (hmessage : c'.nextMessage = c.nextMessage + 1) : Effect (some (id, m)) none c c' := by
  have hroomId : room'.id = id :=
    (congrArg RoomRecord.id hrecord).trans (RoomStore.id_of_get hroom)
  exact .appended id room.record m rfl hid (record_of_get hroom)
    (by rw [hrooms, record_put, hroomId, hrecord]) hmessage rfl

theorem of_created {room : ChatRoom} (hfree : c.rooms.get room.id = none)
    (hempty : room.messages = []) (hrooms : c'.rooms = c.rooms.put room)
    (hmessage : c'.nextMessage = c.nextMessage) : Effect message (some room) c c' :=
  .inserted room rfl hfree hempty (by rw [hrooms, record_put]) hmessage

theorem send (isAlphanumeric : Char → Bool) (faults : SnapshotFaults) (clock : Clock) (id : ℕ)
    (text : String) (media : List MediaAsset) (c : ChatResident) (disk : SnapshotDisk) :
    Effect (some (id, newMessage c "user" "你" (Text.trim text) media clock.createdAt)) none c
      (sendUserMessageWithMedia isAlphanumeric faults clock id text media c disk).2.1 := by
  have hstep := send_step isAlphanumeric faults clock id text media c disk
  generalize sendUserMessageWithMedia isAlphanumeric faults clock id text media c disk = out
    at hstep ⊢
  cases hstep with
  | refused error _ => exact .refl _ c
  | unsaved room members error disk' hadmission _ =>
      exact .of_append (admission_ok hadmission).1 rfl rfl rfl rfl
  | accepted room members disk' round hadmission _ _ _ =>
      exact .of_append (admission_ok hadmission).1 rfl rfl rfl rfl

theorem push (faults : SnapshotFaults) (clock : Clock) (id : ℕ) (role author text : String)
    (media : List MediaAsset) (c : ChatResident) (disk : SnapshotDisk) :
    Effect (some (id, newMessage c role author text media clock.createdAt)) none c
      (pushMessageWithMedia faults clock id role author text media c disk).1 := by
  unfold pushMessageWithMedia
  split
  · exact .refl _ c
  · rename_i room hroom
    exact .of_append hroom rfl rfl rfl rfl

theorem sleepRoom (limits : SleepLimits) (now : ℕ) (swept : ChatResident × List ChatRoom)
    {room : ChatRoom} (hroom : swept.1.rooms.get room.id = some room) :
    Effect message none swept.1 (sleepRoom limits now swept room).1 := by
  unfold Chat.sleepRoom
  split_ifs
  · exact .refl _ swept.1
  · exact .of_flags hroom rfl rfl rfl
  · exact .of_rooms_eq rfl rfl

/-- Sweeping adds up to a change of flags. -/
theorem sleepDue (faults : SnapshotFaults) (limits : SleepLimits) (now : ℕ) (c : ChatResident)
    (disk : SnapshotDisk) : Effect message none c (sleepDue faults limits now c disk).2.1 := by
  have hkept := sleepDue_relates
    (R := fun a b => b.rooms.record = a.rooms.record ∧ b.nextMessage = a.nextMessage)
    (fun _ => ⟨rfl, rfl⟩)
    (fun _ _ _ first second => ⟨second.1.trans first.1, second.2.trans first.2⟩)
    faults limits now (fun swept room hroom => ?_) c disk
  · exact .kept hkept.1 hkept.2 rfl
  · have heffect : Effect none none swept.1 (Chat.sleepRoom limits now swept room).1 :=
      sleepRoom limits now swept hroom
    cases heffect with
    | kept hrecord hmessage _ => exact ⟨hrecord, hmessage⟩
    | appended id room m he => cases he
    | inserted room he => cases he

end Effect

/-- Every step has one of the three effects. -/
theorem ChatStep.effect {isAlphanumeric : Char → Bool} {w w' : World} {op : ChatOp}
    (hstep : ChatStep isAlphanumeric w op w') (h : Fresh w) :
    Effect (op.message w.chat) (op.creates w.chat) w.chat w'.chat := by
  obtain ⟨henabled, rfl⟩ := hstep
  cases op with
  | enableStorage faults =>
      simp only [World.after, World.withSaved, enableStorage]
      split_ifs
      · exact .refl _ w.chat
      · rw [saving_chat]
        exact .of_rooms_eq rfl rfl
  | reserveRoom name members incognito now =>
      simp only [World.after, reserveRoom]
      split
      · exact .refl _ w.chat
      · split
        · exact .refl _ w.chat
        · exact .of_rooms_eq rfl rfl
  | insertRoom faults room =>
      obtain ⟨_, hfree, hempty⟩ := h.reserved room henabled
      refine .of_created hfree hempty ?_ ?_
      · simp only [World.after, World.withSaved, insertRoom, saving_chat]
      · simp only [World.after, World.withSaved, insertRoom, saving_chat]
  | ensureSoloRoom faults member name now =>
      have hfree := h.bounded.nextRoom_free
      simp only [World.after, World.withSaved, ensureSoloRoom, ChatOp.creates]
      cases validRoomName name with
      | error error => exact .refl _ w.chat
      | ok trimmed =>
          cases w.chat.rooms.values.find? (isSoloRoom member) with
          | some existing => exact .refl _ w.chat
          | none =>
              simp only [insertRoom, saving_chat]
              exact .of_created hfree rfl rfl rfl
  | ensureIncognitoSoloRoom member name now =>
      have hfree := h.bounded.nextRoom_free
      simp only [World.after, ensureIncognitoSoloRoom, ChatOp.creates]
      cases validRoomName name with
      | error error => exact .refl _ w.chat
      | ok trimmed =>
          cases w.chat.rooms.values.find? (isIncognitoSoloRoom member) with
          | some existing => exact .refl _ w.chat
          | none => exact .of_created hfree rfl rfl rfl
  | send faults clock id text media =>
      simp only [World.after, World.sent]
      exact .send isAlphanumeric faults clock id text media w.chat w.disk
  | push faults clock round role author text media =>
      exact .push faults clock round.roomId role author text media w.chat w.disk
  | setActive round member =>
      simp only [World.after, setActive]
      split
      · exact .refl _ w.chat
      · rename_i room hroom
        exact .of_flags hroom rfl rfl rfl
  | finish faults now round =>
      simp only [World.after, finish]
      split
      · exact .refl _ w.chat
      · rename_i room hroom
        exact .of_flags hroom rfl rfl rfl
  | abandon round => exact .refl _ w.chat
  | heartbeat now id client =>
      simp only [World.after, heartbeat]
      split_ifs
      · exact .refl _ w.chat
      · split
        · exact .refl _ w.chat
        · exact .of_rooms_eq rfl rfl
  | leave now id client => exact .of_rooms_eq rfl rfl
  | sleepDue faults limits now => exact .sleepDue faults limits now w.chat w.disk
  | setArchived faults id archived =>
      simp only [World.after, World.withSaved, setArchived]
      cases harchivable : archivable id w.chat with
      | error error => exact .refl _ w.chat
      | ok room =>
          simp only [saving_chat]
          exact .of_flags (archivable_ok harchivable).1 rfl rfl rfl

/-! ## Restoring -/

def restoredRoom (media : ExtTreeMap String MediaAsset) (room : ChatRoom) : ChatRoom :=
  {room with
    busy := false
    activeMember := none
    sleeping := true
    messages := room.messages.map (restoredMessage media)}

theorem restoreRoom_rooms (media : ExtTreeMap String MediaAsset) (c : ChatResident)
    (room : ChatRoom) : (restoreRoom media c room).rooms = c.rooms.put (restoredRoom media room) :=
  rfl

theorem get_restoreRooms {media : ExtTreeMap String MediaAsset} {restored : List ChatRoom}
    {c : ChatResident} {id : ℕ} {room : ChatRoom}
    (h : (restoreRoomsWithMedia restored media c).rooms.get id = some room) :
    c.rooms.get id = some room ∨ ∃ saved ∈ restored, room = restoredRoom media saved := by
  unfold restoreRoomsWithMedia at h
  induction restored generalizing c with
  | nil => exact .inl h
  | cons first restored ih =>
      rcases ih h with hearlier | ⟨saved, hmem, rfl⟩
      · rw [restoreRoom_rooms, RoomStore.get_put] at hearlier
        split_ifs at hearlier
        · exact .inr ⟨first, List.mem_cons_self, (Option.some.inj hearlier).symm⟩
        · exact .inl hearlier
      · exact .inr ⟨saved, List.mem_cons_of_mem _ hmem, rfl⟩

/-- Every room of the initial store was restored. -/
theorem get_start {restored : List ChatRoom} {media : ExtTreeMap String MediaAsset}
    {disk : SnapshotDisk} {id : ℕ} {room : ChatRoom}
    (h : (start restored media disk).chat.rooms.get id = some room) :
    ∃ saved ∈ restored, room = restoredRoom media saved := by
  rcases get_restoreRooms h with hlaunch | hrestored
  · simp [launch] at hlaunch
  · exact hrestored

theorem get_restoreRooms_other {media : ExtTreeMap String MediaAsset} {restored : List ChatRoom}
    {c : ChatResident} {id : ℕ} (h : id ∉ restored.map ChatRoom.id) :
    (restoreRoomsWithMedia restored media c).rooms.get id = c.rooms.get id := by
  unfold restoreRoomsWithMedia
  induction restored generalizing c with
  | nil => rfl
  | cons first restored ih =>
      obtain ⟨hfirst, hrest⟩ := not_or.mp (mt List.mem_cons.mpr h)
      refine (ih hrest).trans ?_
      rw [restoreRoom_rooms]
      exact RoomStore.get_put_ne (Ne.symm hfirst)

/-- A restored room is found under its identity, if no other restored room has it. -/
theorem get_restoreRooms_mem (media : ExtTreeMap String MediaAsset) {restored : List ChatRoom}
    (hnodup : (restored.map ChatRoom.id).Nodup) {saved : ChatRoom} (hsaved : saved ∈ restored)
    (c : ChatResident) : (restoreRoomsWithMedia restored media c).rooms.get saved.id =
      some (restoredRoom media saved) := by
  induction restored generalizing c with
  | nil => cases hsaved
  | cons first restored ih =>
      obtain ⟨hfirst, hrest⟩ := List.nodup_cons.mp hnodup
      rcases List.mem_cons.mp hsaved with rfl | hsaved
      · refine (get_restoreRooms_other (c := restoreRoom media c saved) hfirst).trans ?_
        exact RoomStore.get_put_self c.rooms (restoredRoom media saved)
      · exact ih hrest hsaved (restoreRoom media c first)

end NormaHarness.Chat
