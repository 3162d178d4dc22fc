import NormaHarness.ChatResident
import NormaHarness.Executions

/-!
# Runs of the coordinator

A run interleaves the operations of any number of clients and rounds, after an
initial restore of any rooms. Rounds and half-made rooms are part of the state. One
relation says what the future of a state can look like: rooms stay, keep their
names, members and mode, and only grow by messages with new identities.
-/
namespace NormaHarness.Chat
open Std Identifiers Contracts LlmProtocol Media FilePrograms

structure World where
  chat : ChatResident
  disk : SnapshotDisk
  creations : List ChatRoom
  rounds : List Round

def start (restored : List ChatRoom) (media : ExtTreeMap String MediaAsset) (disk : SnapshotDisk) :
    World := ⟨restoreRoomsWithMedia restored media launch, disk, [], []⟩

inductive ChatOp where
  | enableStorage (faults : SnapshotFaults)
  | reserveRoom (name : String) (members : List ResidentKey) (incognito : Bool) (now : ℕ)
  | insertRoom (faults : SnapshotFaults) (room : ChatRoom)
  | ensureSoloRoom (faults : SnapshotFaults) (member : ResidentKey) (name : String) (now : ℕ)
  | ensureIncognitoSoloRoom (member : ResidentKey) (name : String) (now : ℕ)
  | send (faults : SnapshotFaults) (clock : Clock) (id : ℕ) (text : String)
      (media : List MediaAsset)
  | push (faults : SnapshotFaults) (clock : Clock) (round : Round) (role author text : String)
      (media : List MediaAsset)
  | setActive (round : Round) (member : Option String)
  | finish (faults : SnapshotFaults) (now : ℕ) (round : Round)
  | abandon (round : Round)
  | heartbeat (now id : ℕ) (client : String)
  | leave (now id : ℕ) (client : String)
  | sleepDue (faults : SnapshotFaults) (limits : SleepLimits) (now : ℕ)
  | setArchived (faults : SnapshotFaults) (id : ℕ) (archived : Bool)

namespace World

def withSaved {α : Type} (w : World) (out : Except ChatError α × ChatResident × SnapshotDisk) :
    World :=
  {w with chat := out.2.1, disk := out.2.2}

def reserved (w : World) : Except ChatError (ChatRoom × ChatResident) → World
  | .error _ => w
  | .ok (room, chat) => {w with chat := chat, creations := room :: w.creations}

def sent (w : World)
    (out : Except ChatError ChatRoom × ChatResident × SnapshotDisk × Option Round) : World :=
  {w with chat := out.2.1, disk := out.2.2.1, rounds := out.2.2.2.toList ++ w.rounds}

def after (isAlphanumeric : Char → Bool) (w : World) : ChatOp → World
  | .enableStorage faults => w.withSaved (Chat.enableStorage faults w.chat w.disk)
  | .reserveRoom name members incognito now =>
      w.reserved (Chat.reserveRoom name members incognito now w.chat)
  | .insertRoom faults room =>
      {w with creations := w.creations.erase room}.withSaved
        (Chat.insertRoom faults room w.chat w.disk)
  | .ensureSoloRoom faults member name now =>
      w.withSaved (Chat.ensureSoloRoom faults member name now w.chat w.disk)
  | .ensureIncognitoSoloRoom member name now =>
      {w with chat := (Chat.ensureIncognitoSoloRoom member name now w.chat).2}
  | .send faults clock id text media =>
      w.sent (sendUserMessageWithMedia isAlphanumeric faults clock id text media w.chat w.disk)
  | .push faults clock round role author text media =>
      let out := pushMessageWithMedia faults clock round.roomId role author text media w.chat w.disk
      {w with chat := out.1, disk := out.2}
  | .setActive round member => {w with chat := Chat.setActive round.roomId member w.chat}
  | .finish faults now round =>
      let out := Chat.finish faults now round.roomId w.chat w.disk
      {w with chat := out.1, disk := out.2, rounds := w.rounds.erase round}
  | .abandon round => {w with rounds := w.rounds.erase round}
  | .heartbeat now id client => {w with chat := (Chat.heartbeat now id client w.chat).2}
  | .leave now id client => {w with chat := Chat.leave now id client w.chat}
  | .sleepDue faults limits now =>
      let out := Chat.sleepDue faults limits now w.chat w.disk
      {w with chat := out.2.1, disk := out.2.2}
  | .setArchived faults id archived =>
      w.withSaved (Chat.setArchived faults id archived w.chat w.disk)

end World

/-- Only a half-made room is inserted, and only a round in flight pushes, marks who
speaks, finishes, or panics because it addresses nobody. -/
def ChatOp.Enabled (w : World) : ChatOp → Prop
  | .insertRoom _ room => room ∈ w.creations
  | .push _ _ round _ _ _ _ => round ∈ w.rounds
  | .setActive round _ => round ∈ w.rounds
  | .finish _ _ round => round ∈ w.rounds
  | .abandon round => round ∈ w.rounds ∧ round.members = []
  | _ => True

def ChatStep (isAlphanumeric : Char → Bool) (w : World) (op : ChatOp) (w' : World) : Prop :=
  op.Enabled w ∧ w' = w.after isAlphanumeric op

abbrev ChatRun (isAlphanumeric : Char → Bool) := Executions.Run (ChatStep isAlphanumeric)

/-! ## Growth -/

/-- The later version of a room: more messages, none of them with an old identity. -/
structure Grown (next : ℕ) (room room' : ChatRoom) : Prop where
  id : room'.id = room.id
  name : room'.name = room.name
  members : room'.members = room.members
  incognito : room'.incognito = room.incognito
  messages : ∃ later, room'.messages = room.messages ++ later ∧ ∀ m ∈ later, next ≤ m.id

namespace Grown

theorem refl (next : ℕ) (room : ChatRoom) : Grown next room room :=
  ⟨rfl, rfl, rfl, rfl, [], by simp, by simp⟩

theorem trans {n n' : ℕ} {a b c : ChatRoom} (h : Grown n a b) (g : Grown n' b c) (hn : n ≤ n') :
    Grown n a c := by
  obtain ⟨first, hfirst, hfirstIds⟩ := h.messages
  obtain ⟨second, hsecond, hsecondIds⟩ := g.messages
  refine ⟨g.id.trans h.id, g.name.trans h.name, g.members.trans h.members,
    g.incognito.trans h.incognito, first ++ second, ?_, ?_⟩
  · rw [hsecond, hfirst, List.append_assoc]
  · intro m hm
    rcases List.mem_append.mp hm with hm | hm
    · exact hfirstIds m hm
    · exact hn.trans (hsecondIds m hm)

/-- A room that changed only in its state flags. -/
theorem of_messages_eq {next : ℕ} {room room' : ChatRoom} (hid : room'.id = room.id)
    (hname : room'.name = room.name) (hmembers : room'.members = room.members)
    (hincognito : room'.incognito = room.incognito) (hmessages : room'.messages = room.messages) :
    Grown next room room' :=
  ⟨hid, hname, hmembers, hincognito, [], by simp [hmessages], by simp⟩

end Grown

/-- What later states keep of an earlier one. -/
structure Extends (c c' : ChatResident) : Prop where
  kept : ∀ (id : ℕ) (room : ChatRoom), c.rooms.get id = some room →
    ∃ room', c'.rooms.get id = some room' ∧ Grown c.nextMessage room room'
  nextMessage_le : c.nextMessage ≤ c'.nextMessage
  nextRoom_le : c.nextRoom ≤ c'.nextRoom

namespace Extends

theorem refl (c : ChatResident) : Extends c c :=
  ⟨fun _ room h => ⟨room, h, .refl _ _⟩, le_rfl, le_rfl⟩

theorem trans {a b c : ChatResident} (h : Extends a b) (g : Extends b c) : Extends a c := by
  refine ⟨fun id room hroom => ?_, h.nextMessage_le.trans g.nextMessage_le,
    h.nextRoom_le.trans g.nextRoom_le⟩
  obtain ⟨room', hroom', hgrown⟩ := h.kept id room hroom
  obtain ⟨room'', hroom'', hgrown'⟩ := g.kept id room' hroom'
  exact ⟨room'', hroom'', hgrown.trans hgrown' h.nextMessage_le⟩

end Extends

/-- Identities in use lie below the counters. -/
structure Bounded (c : ChatResident) : Prop where
  roomIds : ∀ (id : ℕ) (room : ChatRoom), c.rooms.get id = some room → id < c.nextRoom
  messageIds : ∀ (id : ℕ) (room : ChatRoom), c.rooms.get id = some room →
    ∀ m ∈ room.messages, m.id < c.nextMessage

/-- A change that adds no room. -/
structure Revises (c c' : ChatResident) : Prop where
  extend : Extends c c'
  bounded : Bounded c → Bounded c'
  free : ∀ id, c.rooms.get id = none → c'.rooms.get id = none

namespace Revises

theorem refl (c : ChatResident) : Revises c c := ⟨.refl c, id, fun _ h => h⟩

theorem trans {a b c : ChatResident} (h : Revises a b) (g : Revises b c) : Revises a c :=
  ⟨h.extend.trans g.extend, fun hb => g.bounded (h.bounded hb),
    fun id hid => g.free id (h.free id hid)⟩

theorem of_rooms_eq {c c' : ChatResident} (hrooms : c'.rooms = c.rooms)
    (hmessage : c.nextMessage ≤ c'.nextMessage) (hnext : c.nextRoom ≤ c'.nextRoom) :
    Revises c c' := by
  refine ⟨⟨fun id room h => ⟨room, hrooms ▸ h, .refl _ _⟩, hmessage, hnext⟩, fun hb => ⟨?_, ?_⟩, ?_⟩
  · intro id room h
    rw [hrooms] at h
    exact (hb.roomIds id room h).trans_le hnext
  · intro id room h m hm
    rw [hrooms] at h
    exact (hb.messageIds id room h m hm).trans_le hmessage
  · intro id h
    rw [hrooms]
    exact h

/-- One room is replaced by a later version of itself. -/
theorem of_put {c c' : ChatResident} {id : ℕ} {room room' : ChatRoom}
    (hroom : c.rooms.get id = some room) (hrooms : c'.rooms = c.rooms.put room')
    (hgrown : Grown c.nextMessage room room')
    (hids : ∀ m ∈ room'.messages, m ∈ room.messages ∨ m.id < c'.nextMessage)
    (hmessage : c.nextMessage ≤ c'.nextMessage) (hnext : c.nextRoom ≤ c'.nextRoom) :
    Revises c c' := by
  have hid : room'.id = id := hgrown.id.trans (RoomStore.id_of_get hroom)
  have hget : ∀ k, c'.rooms.get k = if id = k then some room' else c.rooms.get k := by
    intro k
    rw [hrooms, RoomStore.get_put, hid]
  refine ⟨⟨fun k other hother => ?_, hmessage, hnext⟩, fun hb => ⟨?_, ?_⟩, fun k hk => ?_⟩
  · by_cases hk : id = k
    · subst hk
      obtain rfl : room = other := Option.some.inj (hroom.symm.trans hother)
      exact ⟨room', by rw [hget, if_pos rfl], hgrown⟩
    · exact ⟨other, by rw [hget, if_neg hk, hother], .refl _ _⟩
  · intro k other hother
    rw [hget] at hother
    split_ifs at hother with hk
    · exact hk ▸ (hb.roomIds id room hroom).trans_le hnext
    · exact (hb.roomIds k other hother).trans_le hnext
  · intro k other hother m hm
    rw [hget] at hother
    split_ifs at hother with hk
    · obtain rfl := Option.some.inj hother
      rcases hids m hm with hold | hnew
      · exact (hb.messageIds id room hroom m hold).trans_le hmessage
      · exact hnew
    · exact (hb.messageIds k other hother m hm).trans_le hmessage
  · rw [hget, if_neg]
    · exact hk
    · rintro rfl
      rw [hroom] at hk
      cases hk

/-- One room changes its flags and keeps its messages. -/
theorem of_flags {c c' : ChatResident} {id : ℕ} {room room' : ChatRoom}
    (hroom : c.rooms.get id = some room) (hrooms : c'.rooms = c.rooms.put room')
    (hid : room'.id = room.id) (hname : room'.name = room.name)
    (hmembers : room'.members = room.members) (hincognito : room'.incognito = room.incognito)
    (hmessages : room'.messages = room.messages) (hmessage : c.nextMessage ≤ c'.nextMessage)
    (hnext : c.nextRoom ≤ c'.nextRoom) : Revises c c' :=
  of_put hroom hrooms (.of_messages_eq hid hname hmembers hincognito hmessages)
    (fun _ hm => .inl (hmessages ▸ hm)) hmessage hnext

/-- One room receives the next message. -/
theorem of_append {c c' : ChatResident} {id : ℕ} {room room' : ChatRoom} {m : ChatMessage}
    (hroom : c.rooms.get id = some room) (hrooms : c'.rooms = c.rooms.put room')
    (hid : room'.id = room.id) (hname : room'.name = room.name)
    (hmembers : room'.members = room.members) (hincognito : room'.incognito = room.incognito)
    (hmessages : room'.messages = room.messages ++ [m]) (hm : m.id = c.nextMessage)
    (hmessage : c'.nextMessage = c.nextMessage + 1) (hnext : c.nextRoom ≤ c'.nextRoom) :
    Revises c c' := by
  have hnew : ∀ m' ∈ [m], c.nextMessage ≤ m'.id := fun m' hm' => by
    rw [List.mem_singleton.mp hm', hm]
  refine of_put hroom hrooms ⟨hid, hname, hmembers, hincognito, [m], hmessages, hnew⟩ ?_
    (by omega) hnext
  intro m' hm'
  rw [hmessages] at hm'
  rcases List.mem_append.mp hm' with hold | hlast
  · exact .inl hold
  · rw [List.mem_singleton.mp hlast]
    exact .inr (by omega)

end Revises

/-- A room is added under an identity that was free. -/
theorem Extends.of_created {c c' : ChatResident} {room : ChatRoom}
    (hfree : c.rooms.get room.id = none) (hrooms : c'.rooms = c.rooms.put room)
    (hmessage : c.nextMessage ≤ c'.nextMessage) (hnext : c.nextRoom ≤ c'.nextRoom) :
    Extends c c' := by
  refine ⟨fun k other hother => ⟨other, ?_, .refl _ _⟩, hmessage, hnext⟩
  have hk : room.id ≠ k := by
    rintro rfl
    rw [hfree] at hother
    cases hother
  rw [hrooms, RoomStore.get_put_ne hk, hother]

theorem Bounded.of_created {c c' : ChatResident} {room : ChatRoom} (h : Bounded c)
    (hrooms : c'.rooms = c.rooms.put room) (hid : room.id < c'.nextRoom)
    (hempty : room.messages = []) (hmessage : c.nextMessage ≤ c'.nextMessage)
    (hnext : c.nextRoom ≤ c'.nextRoom) : Bounded c' := by
  refine ⟨fun k other hother => ?_, fun k other hother m hm => ?_⟩
  · rw [hrooms, RoomStore.get_put] at hother
    split_ifs at hother with hk
    · exact hk ▸ hid
    · exact (h.roomIds k other hother).trans_le hnext
  · rw [hrooms, RoomStore.get_put] at hother
    split_ifs at hother with hk
    · obtain rfl := Option.some.inj hother
      rw [hempty] at hm
      cases hm
    · exact (h.messageIds k other hother m hm).trans_le hmessage

/-! ## What each operation does to the rooms -/

theorem saving_chat {α : Type} (faults : SnapshotFaults) (result : α) (chat : ChatResident)
    (disk : SnapshotDisk) : (saving faults result chat disk).2.1 = chat := by
  unfold saving
  split <;> rfl

theorem enableStorage_revises (faults : SnapshotFaults) (chat : ChatResident)
    (disk : SnapshotDisk) : Revises chat (enableStorage faults chat disk).2.1 := by
  unfold enableStorage
  split_ifs
  · exact .refl chat
  · rw [saving_chat]
    exact .of_rooms_eq rfl le_rfl le_rfl

theorem admission_ok {isAlphanumeric : Char → Bool} {id : ℕ} {text : String}
    {media : List MediaAsset} {chat : ChatResident} {room : ChatRoom} {members : List String}
    (h : admission isAlphanumeric id text media chat = .ok (room, members)) :
    chat.rooms.get id = some room ∧ addressed isAlphanumeric text room = .ok members := by
  unfold admission at h
  split at h
  · cases h
  · split at h
    · cases h
    · rename_i found hfound
      cases haddressed : addressed isAlphanumeric text found with
      | error error => simp [haddressed, Except.map] at h
      | ok selected =>
          simp only [haddressed, Except.map, Except.ok.injEq, Prod.mk.injEq] at h
          obtain ⟨rfl, rfl⟩ := h
          exact ⟨hfound, haddressed⟩

/-- The three ends of a user message: refused by a check, not saved, or accepted. -/
inductive SendStep (isAlphanumeric : Char → Bool) (faults : SnapshotFaults) (clock : Clock)
    (id : ℕ) (text : String) (media : List MediaAsset) (chat : ChatResident)
    (disk : SnapshotDisk) :
    Except ChatError ChatRoom × ChatResident × SnapshotDisk × Option Round → Prop
  | refused (error : ChatError) :
      admission isAlphanumeric id (Text.trim text) media chat = .error error →
      SendStep isAlphanumeric faults clock id text media chat disk (.error error, chat, disk, none)
  | unsaved (room : ChatRoom) (members : List String) (error : ChatError) (disk' : SnapshotDisk) :
      admission isAlphanumeric id (Text.trim text) media chat = .ok (room, members) →
      saveLocked faults (accepting chat clock (Text.trim text) media room) disk =
        (.error error, disk') →
      SendStep isAlphanumeric faults clock id text media chat disk
        (.error error, accepting chat clock (Text.trim text) media room, disk', none)
  | accepted (room : ChatRoom) (members : List String) (disk' : SnapshotDisk) (round : Round) :
      admission isAlphanumeric id (Text.trim text) media chat = .ok (room, members) →
      saveLocked faults (accepting chat clock (Text.trim text) media room) disk =
        (.ok (), disk') →
      round.roomId = id → round.members = members →
      SendStep isAlphanumeric faults clock id text media chat disk
        (.ok (woken chat clock (Text.trim text) media room),
          accepting chat clock (Text.trim text) media room, disk', some round)

theorem send_step (isAlphanumeric : Char → Bool) (faults : SnapshotFaults) (clock : Clock)
    (id : ℕ) (text : String) (media : List MediaAsset) (chat : ChatResident)
    (disk : SnapshotDisk) : SendStep isAlphanumeric faults clock id text media chat disk
      (sendUserMessageWithMedia isAlphanumeric faults clock id text media chat disk) := by
  unfold sendUserMessageWithMedia
  cases hadmission : admission isAlphanumeric id (Text.trim text) media chat with
  | error error => exact .refused error hadmission
  | ok admitted =>
      obtain ⟨room, members⟩ := admitted
      rcases hsave : saveLocked faults (accepting chat clock (Text.trim text) media room) disk with
        ⟨result, disk'⟩
      cases result with
      | error error =>
          simp only [saving, hsave]
          exact .unsaved room members error disk' hadmission hsave
      | ok u =>
          simp only [saving, hsave]
          exact .accepted room members disk' _ hadmission hsave rfl rfl

theorem accepting_revises {chat : ChatResident} {id : ℕ} {room : ChatRoom}
    (hroom : chat.rooms.get id = some room) (clock : Clock) (text : String)
    (media : List MediaAsset) : Revises chat (accepting chat clock text media room) :=
  .of_append hroom rfl rfl rfl rfl rfl rfl rfl rfl le_rfl

theorem send_revises (isAlphanumeric : Char → Bool) (faults : SnapshotFaults) (clock : Clock)
    (id : ℕ) (text : String) (media : List MediaAsset) (chat : ChatResident)
    (disk : SnapshotDisk) : Revises chat
      (sendUserMessageWithMedia isAlphanumeric faults clock id text media chat disk).2.1 := by
  have h := send_step isAlphanumeric faults clock id text media chat disk
  generalize sendUserMessageWithMedia isAlphanumeric faults clock id text media chat disk = out
    at h ⊢
  cases h with
  | refused error _ => exact .refl chat
  | unsaved room members error disk' hadmission _ =>
      exact accepting_revises (admission_ok hadmission).1 clock _ media
  | accepted room members disk' round hadmission _ _ _ =>
      exact accepting_revises (admission_ok hadmission).1 clock _ media

theorem push_revises (faults : SnapshotFaults) (clock : Clock) (id : ℕ)
    (role author text : String) (media : List MediaAsset) (chat : ChatResident)
    (disk : SnapshotDisk) :
    Revises chat (pushMessageWithMedia faults clock id role author text media chat disk).1 := by
  unfold pushMessageWithMedia
  split
  · exact .refl chat
  · rename_i room hroom
    exact .of_append hroom rfl rfl rfl rfl rfl rfl rfl rfl le_rfl

theorem setActive_revises (id : ℕ) (member : Option String) (chat : ChatResident) :
    Revises chat (setActive id member chat) := by
  unfold setActive
  split
  · exact .refl chat
  · rename_i room hroom
    exact .of_flags hroom rfl rfl rfl rfl rfl rfl le_rfl le_rfl

theorem finish_revises (faults : SnapshotFaults) (now id : ℕ) (chat : ChatResident)
    (disk : SnapshotDisk) : Revises chat (finish faults now id chat disk).1 := by
  unfold finish
  split
  · exact .refl chat
  · rename_i room hroom
    exact .of_flags hroom rfl rfl rfl rfl rfl rfl le_rfl le_rfl

theorem heartbeat_revises (now id : ℕ) (client : String) (chat : ChatResident) :
    Revises chat (heartbeat now id client chat).2 := by
  unfold heartbeat
  split_ifs
  · exact .refl chat
  · split
    · exact .refl chat
    · exact .of_rooms_eq rfl le_rfl le_rfl

theorem leave_revises (now id : ℕ) (client : String) (chat : ChatResident) :
    Revises chat (leave now id client chat) :=
  .of_rooms_eq rfl le_rfl le_rfl

theorem archivable_ok {id : ℕ} {chat : ChatResident} {room : ChatRoom}
    (h : archivable id chat = .ok room) :
    chat.rooms.get id = some room ∧ room.busy = false := by
  unfold archivable at h
  split at h
  · cases h
  · rename_i found hfound
    split_ifs at h with hbusy
    obtain rfl := Except.ok.inj h
    exact ⟨hfound, Bool.eq_false_iff.mpr hbusy⟩

theorem setArchived_revises (faults : SnapshotFaults) (id : ℕ) (archived : Bool)
    (chat : ChatResident) (disk : SnapshotDisk) :
    Revises chat (setArchived faults id archived chat disk).2.1 := by
  unfold setArchived
  cases h : archivable id chat with
  | error error => exact .refl chat
  | ok room =>
      simp only
      rw [saving_chat]
      exact .of_flags (archivable_ok h).1 rfl rfl rfl rfl rfl rfl le_rfl le_rfl

theorem sleepRoom_revises (limits : SleepLimits) (now : ℕ)
    (swept : ChatResident × List ChatRoom) {room : ChatRoom}
    (hroom : swept.1.rooms.get room.id = some room) :
    Revises swept.1 (sleepRoom limits now swept room).1 := by
  unfold sleepRoom
  split_ifs
  · exact .refl swept.1
  · exact .of_flags hroom rfl rfl rfl rfl rfl rfl le_rfl le_rfl
  · exact .of_rooms_eq rfl le_rfl le_rfl

theorem sleepRoom_other (limits : SleepLimits) (now : ℕ) (swept : ChatResident × List ChatRoom)
    {room other : ChatRoom} (hother : swept.1.rooms.get other.id = some other)
    (hne : room.id ≠ other.id) :
    (sleepRoom limits now swept room).1.rooms.get other.id = some other := by
  unfold sleepRoom
  split_ifs
  · exact hother
  · have hasleep : (asleep room).id ≠ other.id := hne
    exact (RoomStore.get_put_ne hasleep).trans hother
  · exact hother

/-- The sweep meets every room once, so a room is as it was until its turn comes. -/
theorem sweep_relates {R : ChatResident → ChatResident → Prop} (hrefl : ∀ c, R c c)
    (htrans : ∀ a b c, R a b → R b c → R a c) (limits : SleepLimits) (now : ℕ)
    (hroom : ∀ (swept : ChatResident × List ChatRoom) (room : ChatRoom),
      swept.1.rooms.get room.id = some room → R swept.1 (sleepRoom limits now swept room).1)
    (rooms : List ChatRoom) (hnodup : (rooms.map ChatRoom.id).Nodup)
    (swept : ChatResident × List ChatRoom)
    (hrooms : ∀ room ∈ rooms, swept.1.rooms.get room.id = some room) :
    R swept.1 (rooms.foldl (sleepRoom limits now) swept).1 := by
  induction rooms generalizing swept with
  | nil => exact hrefl swept.1
  | cons room rooms ih =>
      obtain ⟨hnot, hnodup⟩ := List.nodup_cons.mp hnodup
      have hfirst := hroom swept room (hrooms room List.mem_cons_self)
      refine htrans _ _ _ hfirst (ih hnodup _ fun other hother => ?_)
      exact sleepRoom_other limits now swept (hrooms other (List.mem_cons_of_mem _ hother))
        fun he => hnot (List.mem_map.mpr ⟨other, hother, he.symm⟩)

theorem values_nodup (s : RoomStore) : (s.values.map ChatRoom.id).Nodup := by
  have hkeys : s.values.map ChatRoom.id = s.rooms.toList.map Prod.fst := by
    unfold RoomStore.values
    rw [List.map_map]
    refine List.map_congr_left fun p hp => ?_
    exact s.keyed p.1 p.2 (ExtTreeMap.mem_toList_iff_getElem?_eq_some.mp hp)
  rw [hkeys]
  refine List.pairwise_map.mpr (s.rooms.distinct_keys_toList.imp ?_)
  intro p q hpq he
  exact hpq (LawfulEqOrd.compare_eq_iff_eq.mpr he)

/-- A reflexive and transitive relation that holds for one room's turn of the sweep holds
for the whole operation. -/
theorem sleepDue_relates {R : ChatResident → ChatResident → Prop} (hrefl : ∀ c, R c c)
    (htrans : ∀ a b c, R a b → R b c → R a c) (faults : SnapshotFaults) (limits : SleepLimits)
    (now : ℕ) (hroom : ∀ (swept : ChatResident × List ChatRoom) (room : ChatRoom),
      swept.1.rooms.get room.id = some room → R swept.1 (sleepRoom limits now swept room).1)
    (chat : ChatResident) (disk : SnapshotDisk) :
    R chat (sleepDue faults limits now chat disk).2.1 := by
  have hsweep := sweep_relates hrefl htrans limits now hroom chat.rooms.values
    (values_nodup chat.rooms) (chat, []) fun room hroom => RoomStore.mem_values.mp hroom
  unfold sleepDue
  simp only
  split_ifs
  · exact hsweep
  · exact hsweep

theorem sleepDue_revises (faults : SnapshotFaults) (limits : SleepLimits) (now : ℕ)
    (chat : ChatResident) (disk : SnapshotDisk) :
    Revises chat (sleepDue faults limits now chat disk).2.1 :=
  sleepDue_relates Revises.refl (fun _ _ _ first second => first.trans second) faults limits now
    (fun swept _ hroom => sleepRoom_revises limits now swept hroom) chat disk

/-! ## Identities over runs -/

/-- Reserved identities are not in use yet, and no two callers hold the same one. -/
structure Fresh (w : World) : Prop where
  bounded : Bounded w.chat
  reserved : ∀ room ∈ w.creations,
    room.id < w.chat.nextRoom ∧ w.chat.rooms.get room.id = none ∧ room.messages = []
  distinct : (w.creations.map ChatRoom.id).Nodup

theorem Bounded.nextRoom_free {c : ChatResident} (h : Bounded c) :
    c.rooms.get c.nextRoom = none := by
  cases hget : c.rooms.get c.nextRoom with
  | none => rfl
  | some room => exact absurd (h.roomIds _ room hget) (Nat.lt_irrefl _)

theorem Fresh.of_revises {w w' : World} (h : Fresh w) (hr : Revises w.chat w'.chat)
    (hcreations : w'.creations = w.creations) : Fresh w' := by
  refine ⟨hr.bounded h.bounded, fun room hroom => ?_, hcreations ▸ h.distinct⟩
  obtain ⟨hlt, hfree, hempty⟩ := h.reserved room (hcreations ▸ hroom)
  exact ⟨hlt.trans_le hr.extend.nextRoom_le, hr.free room.id hfree, hempty⟩

/-- A room that nobody reserved is added under the next identity. -/
theorem Fresh.of_created {w w' : World} (h : Fresh w) (room : ChatRoom)
    (hid : room.id = w.chat.nextRoom) (hempty : room.messages = [])
    (hrooms : w'.chat.rooms = w.chat.rooms.put room)
    (hmessage : w'.chat.nextMessage = w.chat.nextMessage)
    (hnext : w'.chat.nextRoom = w.chat.nextRoom + 1) (hcreations : w'.creations = w.creations) :
    Fresh w' ∧ Extends w.chat w'.chat := by
  have hfree : w.chat.rooms.get room.id = none := hid ▸ h.bounded.nextRoom_free
  refine ⟨⟨h.bounded.of_created hrooms (by omega) hempty (by omega) (by omega), ?_,
    hcreations ▸ h.distinct⟩, .of_created hfree hrooms (by omega) (by omega)⟩
  intro other hother
  obtain ⟨hlt, hnone, hnil⟩ := h.reserved other (hcreations ▸ hother)
  refine ⟨by omega, ?_, hnil⟩
  rw [hrooms, RoomStore.get_put_ne (by omega)]
  exact hnone

theorem Fresh.reserveRoom {w : World} (h : Fresh w) (name : String) (members : List ResidentKey)
    (incognito : Bool) (now : ℕ) :
    Fresh (w.reserved (reserveRoom name members incognito now w.chat)) ∧
      Extends w.chat (w.reserved (Chat.reserveRoom name members incognito now w.chat)).chat := by
  unfold Chat.reserveRoom
  split
  · exact ⟨h, .refl _⟩
  · split
    · exact ⟨h, .refl _⟩
    · have hr : Revises w.chat {w.chat with nextRoom := w.chat.nextRoom + 1} :=
        .of_rooms_eq rfl le_rfl (Nat.le_succ _)
      refine ⟨⟨hr.bounded h.bounded, fun room hroom => ?_, ?_⟩, hr.extend⟩
      · rcases List.mem_cons.mp hroom with rfl | hroom
        · exact ⟨Nat.lt_succ_self _, h.bounded.nextRoom_free, rfl⟩
        · obtain ⟨hlt, hfree, hempty⟩ := h.reserved room hroom
          exact ⟨hlt.trans (Nat.lt_succ_self _), hfree, hempty⟩
      · refine List.nodup_cons.mpr ⟨fun hmem => ?_, h.distinct⟩
        obtain ⟨room, hroom, hid⟩ := List.mem_map.mp hmem
        exact absurd hid (Nat.ne_of_lt (h.reserved room hroom).1)

theorem Fresh.insertRoom {w : World} (h : Fresh w) (faults : SnapshotFaults) {room : ChatRoom}
    (hroom : room ∈ w.creations) :
    let w' := {w with creations := w.creations.erase room}.withSaved
      (insertRoom faults room w.chat w.disk)
    Fresh w' ∧ Extends w.chat w'.chat := by
  intro w'
  have hchat : w'.chat = {w.chat with rooms := w.chat.rooms.put room} :=
    saving_chat faults room {w.chat with rooms := w.chat.rooms.put room} w.disk
  obtain ⟨hlt, hfree, hempty⟩ := h.reserved room hroom
  have hrooms : w'.chat.rooms = w.chat.rooms.put room := by rw [hchat]
  have hnext : w'.chat.nextRoom = w.chat.nextRoom := by rw [hchat]
  have hmessage : w'.chat.nextMessage = w.chat.nextMessage := by rw [hchat]
  refine ⟨⟨h.bounded.of_created hrooms (by omega) hempty (by omega) (by omega), ?_, ?_⟩,
    .of_created hfree hrooms (by omega) (by omega)⟩
  · intro other hother
    have hperm := (List.perm_cons_erase hroom).map ChatRoom.id
    have hnodup := hperm.nodup_iff.mp h.distinct
    have hne : room.id ≠ other.id := fun he =>
      (List.nodup_cons.mp hnodup).1 (List.mem_map.mpr ⟨other, hother, he.symm⟩)
    obtain ⟨hlt', hfree', hempty'⟩ := h.reserved other (List.mem_of_mem_erase hother)
    refine ⟨by omega, ?_, hempty'⟩
    rw [hrooms, RoomStore.get_put_ne hne]
    exact hfree'
  · exact h.distinct.sublist (List.erase_sublist.map ChatRoom.id)

theorem Fresh.ensureSoloRoom {w : World} (h : Fresh w) (faults : SnapshotFaults)
    (member : ResidentKey) (name : String) (now : ℕ) :
    let w' := w.withSaved (ensureSoloRoom faults member name now w.chat w.disk)
    Fresh w' ∧ Extends w.chat w'.chat := by
  unfold Chat.ensureSoloRoom
  cases hname : validRoomName name with
  | error error => exact ⟨h, .refl _⟩
  | ok trimmed =>
      cases hfind : w.chat.rooms.values.find? (isSoloRoom member) with
      | some existing => exact ⟨h, .refl _⟩
      | none =>
          let room := newRoom w.chat.nextRoom trimmed [member.asStr] false now
          intro w'
          have hchat : w'.chat = {w.chat with
              nextRoom := w.chat.nextRoom + 1
              rooms := w.chat.rooms.put room} :=
            saving_chat faults room _ w.disk
          exact h.of_created room rfl rfl (by rw [hchat]) (by rw [hchat]) (by rw [hchat]) rfl

theorem Fresh.ensureIncognitoSoloRoom {w : World} (h : Fresh w) (member : ResidentKey)
    (name : String) (now : ℕ) :
    let w' := {w with chat := (ensureIncognitoSoloRoom member name now w.chat).2}
    Fresh w' ∧ Extends w.chat w'.chat := by
  unfold Chat.ensureIncognitoSoloRoom
  cases hname : validRoomName name with
  | error error => exact ⟨h, .refl _⟩
  | ok trimmed =>
      cases hfind : w.chat.rooms.values.find? (isIncognitoSoloRoom member) with
      | some existing => exact ⟨h, .refl _⟩
      | none =>
          exact h.of_created (newRoom w.chat.nextRoom trimmed [member.asStr] true now) rfl rfl rfl
            rfl rfl rfl

theorem Fresh.sent {w : World} (h : Fresh w)
    (out : Except ChatError ChatRoom × ChatResident × SnapshotDisk × Option Round)
    (hr : Revises w.chat out.2.1) : Fresh (w.sent out) ∧ Extends w.chat (w.sent out).chat :=
  ⟨h.of_revises hr rfl, hr.extend⟩

/-- Every operation keeps identities fresh and only extends the rooms. -/
theorem ChatStep.fresh {isAlphanumeric : Char → Bool} {w w' : World} {op : ChatOp}
    (hstep : ChatStep isAlphanumeric w op w') (h : Fresh w) :
    Fresh w' ∧ Extends w.chat w'.chat := by
  have revised : ∀ {w' : World}, Revises w.chat w'.chat → w'.creations = w.creations →
      Fresh w' ∧ Extends w.chat w'.chat :=
    fun hr hcreations => ⟨h.of_revises hr hcreations, hr.extend⟩
  obtain ⟨henabled, rfl⟩ := hstep
  cases op with
  | enableStorage faults => exact revised (enableStorage_revises faults w.chat w.disk) rfl
  | reserveRoom name members incognito now => exact h.reserveRoom name members incognito now
  | insertRoom faults room => exact h.insertRoom faults henabled
  | ensureSoloRoom faults member name now => exact h.ensureSoloRoom faults member name now
  | ensureIncognitoSoloRoom member name now => exact h.ensureIncognitoSoloRoom member name now
  | send faults clock id text media =>
      exact h.sent _ (send_revises isAlphanumeric faults clock id text media w.chat w.disk)
  | push faults clock round role author text media =>
      exact revised
        (push_revises faults clock round.roomId role author text media w.chat w.disk) rfl
  | setActive round member => exact revised (setActive_revises round.roomId member w.chat) rfl
  | finish faults now round =>
      exact revised (finish_revises faults now round.roomId w.chat w.disk) rfl
  | abandon round => exact revised (.refl w.chat) rfl
  | heartbeat now id client => exact revised (heartbeat_revises now id client w.chat) rfl
  | leave now id client => exact revised (leave_revises now id client w.chat) rfl
  | sleepDue faults limits now =>
      exact revised (sleepDue_revises faults limits now w.chat w.disk) rfl
  | setArchived faults id archived =>
      exact revised (setArchived_revises faults id archived w.chat w.disk) rfl

theorem le_foldl_max (messages : List ChatMessage) (next : ℕ) :
    next ≤ messages.foldl (fun next m => max next (m.id + 1)) next ∧
      ∀ m ∈ messages, m.id < messages.foldl (fun next m => max next (m.id + 1)) next := by
  induction messages generalizing next with
  | nil => exact ⟨le_rfl, fun m hm => absurd hm List.not_mem_nil⟩
  | cons first messages ih =>
      obtain ⟨hle, hall⟩ := ih (max next (first.id + 1))
      refine ⟨(le_max_left _ _).trans hle, fun m hm => ?_⟩
      rcases List.mem_cons.mp hm with rfl | hm
      · exact (Nat.lt_succ_self m.id).trans_le ((le_max_right _ _).trans hle)
      · exact hall m hm

theorem restoreRoom_bounded {c : ChatResident} (h : Bounded c)
    (media : ExtTreeMap String MediaAsset) (room : ChatRoom) :
    Bounded (restoreRoom media c room) := by
  obtain ⟨hle, hall⟩ := le_foldl_max room.messages c.nextMessage
  have hnext : c.nextRoom ≤ max c.nextRoom (room.id + 1) := le_max_left _ _
  have hroom : room.id < max c.nextRoom (room.id + 1) :=
    (Nat.lt_succ_self _).trans_le (le_max_right _ _)
  refine ⟨fun k other hother => ?_, fun k other hother m hm => ?_⟩
  · simp only [restoreRoom, RoomStore.get_put] at hother
    split_ifs at hother with hk
    · exact hk ▸ hroom
    · exact (h.roomIds k other hother).trans_le hnext
  · simp only [restoreRoom, RoomStore.get_put] at hother
    split_ifs at hother with hk
    · obtain rfl := Option.some.inj hother
      obtain ⟨m', hm', rfl⟩ := List.mem_map.mp hm
      exact hall m' hm'
    · exact (h.messageIds k other hother m hm).trans_le hle

theorem start_fresh (restored : List ChatRoom) (media : ExtTreeMap String MediaAsset)
    (disk : SnapshotDisk) : Fresh (start restored media disk) := by
  have hrestored : ∀ c : ChatResident, Bounded c →
      Bounded (restoreRoomsWithMedia restored media c) := by
    unfold restoreRoomsWithMedia
    induction restored with
    | nil => exact fun c hc => hc
    | cons room restored ih => exact fun c hc => ih _ (restoreRoom_bounded hc media room)
  refine ⟨hrestored launch ⟨?_, ?_⟩, fun room hroom => absurd hroom List.not_mem_nil,
    List.nodup_nil⟩
  · intro id room h
    simp [launch] at h
  · intro id room h
    simp [launch] at h

theorem run_fresh {isAlphanumeric : Char → Bool} {w w' : World} {ops : List ChatOp}
    (h : ChatRun isAlphanumeric w ops w') (hf : Fresh w) : Fresh w' :=
  h.invariant (fun _ _ _ hs step => (step.fresh hs).1) hf

theorem run_extends {isAlphanumeric : Char → Bool} {w w' : World} {ops : List ChatOp}
    (h : ChatRun isAlphanumeric w ops w') (hf : Fresh w) : Extends w.chat w'.chat := by
  have htrans : ∀ a b c : World, Extends a.chat b.chat → Extends b.chat c.chat →
      Extends a.chat c.chat := fun _ _ _ first second => first.trans second
  exact h.relates (fun _ _ _ hs step => (step.fresh hs).1) (fun w => Extends.refl w.chat) htrans
    (fun _ _ _ hs step => (step.fresh hs).2) hf

end NormaHarness.Chat
