import NormaHarness.ChatRuns

/-!
# Errors of the room operations

The four public operations change the rooms in place and save afterwards. An error
of a check leaves the rooms alone; an error of the save comes too late. Which of the
two happens is decided by the checks and by the file calls of the save.
-/
namespace NormaHarness.Chat
open Std Identifiers Contracts LlmProtocol Media FilePrograms

/-- The operations that report errors to a client after changing the rooms. -/
inductive ChatCall where
  | createRoom (name : String) (members : List ResidentKey) (incognito : Bool) (now : ℕ)
  | ensureSoloRoom (member : ResidentKey) (name : String) (now : ℕ)
  | sendUserMessage (clock : Clock) (id : ℕ) (text : String) (media : List MediaAsset)
  | setArchived (id : ℕ) (archived : Bool)

namespace ChatCall

def run (isAlphanumeric : Char → Bool) (faults : SnapshotFaults) (chat : ChatResident)
    (disk : SnapshotDisk) : ChatCall → Except ChatError ChatRoom × ChatResident
  | .createRoom name members incognito now =>
      let out := createRoomWithMode faults name members incognito now chat disk
      (out.1, out.2.1)
  | .ensureSoloRoom member name now =>
      let out := Chat.ensureSoloRoom faults member name now chat disk
      (out.1, out.2.1)
  | .sendUserMessage clock id text media =>
      let out := sendUserMessageWithMedia isAlphanumeric faults clock id text media chat disk
      (out.1, out.2.1)
  | .setArchived id archived =>
      let out := Chat.setArchived faults id archived chat disk
      (out.1, out.2.1)

/-- The call passes every check and has something to change. -/
def Effective (isAlphanumeric : Char → Bool) (chat : ChatResident) : ChatCall → Prop
  | .createRoom name members _ _ =>
      (∃ trimmed, validRoomName name = .ok trimmed) ∧ validMembers members = .ok ()
  | .ensureSoloRoom member name _ =>
      (∃ trimmed, validRoomName name = .ok trimmed) ∧
        chat.rooms.values.find? (isSoloRoom member) = none
  | .sendUserMessage _ id text media =>
      ∃ admitted, admission isAlphanumeric id (Text.trim text) media chat = .ok admitted
  | .setArchived id archived => ∃ room, archivable id chat = .ok room ∧ room.archived ≠ archived

end ChatCall

/-- A snapshot is due to be saved and a file call of the save fails. -/
def SaveBlocked (faults : SnapshotFaults) (chat : ChatResident) (disk : SnapshotDisk) : Prop :=
  chat.storageEnabled = true ∧ SaveFails faults disk

theorem saveLocked_error_iff (faults : SnapshotFaults) (chat : ChatResident)
    (disk : SnapshotDisk) :
    (∃ error, (saveLocked faults chat disk).1 = .error error) ↔ SaveBlocked faults chat disk := by
  unfold saveLocked SaveBlocked
  cases chat.storageEnabled with
  | false => simp
  | true =>
      rw [← errs_save faults (snapshot chat.rooms) disk]
      unfold ReplacedFiles.Errs
      rcases exec faults (saveProgram (snapshot chat.rooms)) disk with ⟨result, disk'⟩
      cases result <;> simp

section

variable {isAlphanumeric : Char → Bool} {faults : SnapshotFaults} {chat : ChatResident}
  {disk : SnapshotDisk}

/-- A call without effect keeps the rooms, whatever it returns. -/
structure ChatCall.Keeps (isAlphanumeric : Char → Bool) (faults : SnapshotFaults)
    (chat : ChatResident) (disk : SnapshotDisk) (call : ChatCall) : Prop where
  ineffective : ¬call.Effective isAlphanumeric chat
  kept : (call.run isAlphanumeric faults chat disk).2.rooms = chat.rooms

theorem saveBlocked_congr (changed : ChatResident)
    (h : changed.storageEnabled = chat.storageEnabled) :
    SaveBlocked faults changed disk ↔ SaveBlocked faults chat disk := by
  unfold SaveBlocked
  rw [h]

end

/-! ## No room is left busy -/

/-- Later rooms are earlier ones with the same members, and none has become busy. -/
def Calmer (c c' : ChatResident) : Prop :=
  ∀ (id : ℕ) (room' : ChatRoom), c'.rooms.get id = some room' → ∃ room,
    c.rooms.get id = some room ∧ room'.members = room.members ∧
      (room'.busy = true → room.busy = true)

namespace Calmer

theorem of_rooms_eq {c c' : ChatResident} (h : c'.rooms = c.rooms) : Calmer c c' :=
  fun _ room' hroom => ⟨room', h ▸ hroom, rfl, fun hb => hb⟩

theorem trans {a b c : ChatResident} (h : Calmer a b) (g : Calmer b c) : Calmer a c := by
  intro id room'' hroom''
  obtain ⟨room', hroom', hmembers', hbusy'⟩ := g id room'' hroom''
  obtain ⟨room, hroom, hmembers, hbusy⟩ := h id room' hroom'
  exact ⟨room, hroom, hmembers'.trans hmembers, fun hb => hbusy (hbusy' hb)⟩

theorem of_put {c c' : ChatResident} {id : ℕ} {room room' : ChatRoom}
    (hroom : c.rooms.get id = some room) (hrooms : c'.rooms = c.rooms.put room')
    (hid : room'.id = room.id) (hmembers : room'.members = room.members)
    (hbusy : room'.busy = true → room.busy = true) : Calmer c c' := by
  intro k other hother
  rw [hrooms, RoomStore.get_put] at hother
  split_ifs at hother with hk
  · obtain rfl := Option.some.inj hother
    have hkey : k = id := by rw [← hk, hid, RoomStore.id_of_get hroom]
    exact ⟨room, hkey ▸ hroom, hmembers, hbusy⟩
  · exact ⟨other, hother, rfl, fun hb => hb⟩

end Calmer

/-- After its round has finished, a room is not busy. -/
theorem finish_calmer (faults : SnapshotFaults) (now id : ℕ) (chat : ChatResident)
    (disk : SnapshotDisk) : Calmer chat (finish faults now id chat disk).1 ∧
      ∀ room, (finish faults now id chat disk).1.rooms.get id = some room → room.busy = false := by
  unfold finish
  split
  · rename_i hnone
    exact ⟨.of_rooms_eq rfl, fun room hroom => by rw [hnone] at hroom; cases hroom⟩
  · rename_i room hroom
    refine ⟨.of_put hroom rfl rfl rfl fun hb => (nomatch hb), fun other hother => ?_⟩
    simp only at hother
    rw [RoomStore.get_put, if_pos (RoomStore.id_of_get hroom)] at hother
    rw [← Option.some.inj hother]

/-- Every busy room has a round in flight, and no round starts without members. -/
structure Attended (w : World) : Prop where
  busy : ∀ (id : ℕ) (room : ChatRoom), w.chat.rooms.get id = some room → room.busy = true →
    ∃ round ∈ w.rounds, round.roomId = id
  staffed : ∀ (id : ℕ) (room : ChatRoom), w.chat.rooms.get id = some room → room.members ≠ []
  creations : ∀ room ∈ w.creations, room.busy = false ∧ room.members ≠ []
  rounds : ∀ round ∈ w.rounds, round.members ≠ []

namespace Attended

/-- A room is added that nobody uses yet. -/
theorem of_added {w w' : World} (h : Attended w) {room : ChatRoom}
    (hrooms : w'.chat.rooms = w.chat.rooms.put room) (hbusy : room.busy = false)
    (hmembers : room.members ≠ []) (hcreations : ∀ other ∈ w'.creations, other ∈ w.creations)
    (hrounds : w'.rounds = w.rounds) : Attended w' := by
  refine ⟨fun id other hother hb => ?_, fun id other hother => ?_,
    fun other hother => h.creations other (hcreations other hother), hrounds ▸ h.rounds⟩
  · rw [hrooms, RoomStore.get_put] at hother
    split_ifs at hother
    · obtain rfl := Option.some.inj hother
      rw [hbusy] at hb
      cases hb
    · rw [hrounds]
      exact h.busy id other hother hb
  · rw [hrooms, RoomStore.get_put] at hother
    split_ifs at hother
    · obtain rfl := Option.some.inj hother
      exact hmembers
    · exact h.staffed id other hother

theorem reserveRoom {w : World} (h : Attended w) (name : String) (members : List ResidentKey)
    (incognito : Bool) (now : ℕ) :
    Attended (w.reserved (reserveRoom name members incognito now w.chat)) := by
  unfold Chat.reserveRoom
  split
  · exact h
  · split
    · exact h
    · rename_i hvalid
      refine ⟨h.busy, h.staffed, fun room hroom => ?_, h.rounds⟩
      rcases List.mem_cons.mp hroom with rfl | hroom
      · refine ⟨rfl, fun hempty => ?_⟩
        have hnone : members = [] := List.map_eq_nil_iff.mp hempty
        simp [validMembers, hnone] at hvalid
      · exact h.creations room hroom

theorem insertRoom {w : World} (h : Attended w) (faults : SnapshotFaults) {room : ChatRoom}
    (hroom : room ∈ w.creations) :
    Attended ({w with creations := w.creations.erase room}.withSaved
      (Chat.insertRoom faults room w.chat w.disk)) := by
  obtain ⟨hbusy, hmembers⟩ := h.creations room hroom
  have hchat := saving_chat faults room {w.chat with rooms := w.chat.rooms.put room} w.disk
  refine h.of_added (congrArg ChatResident.rooms hchat) hbusy hmembers (fun other hother => ?_) rfl
  exact List.mem_of_mem_erase hother

theorem ensureSoloRoom {w : World} (h : Attended w) (faults : SnapshotFaults)
    (member : ResidentKey) (name : String) (now : ℕ) :
    Attended (w.withSaved (ensureSoloRoom faults member name now w.chat w.disk)) := by
  unfold Chat.ensureSoloRoom
  split
  · exact h
  · split
    · exact h
    · rename_i trimmed _ _ _
      have hchat := saving_chat faults (newRoom w.chat.nextRoom trimmed [member.asStr] false now)
        {w.chat with
          nextRoom := w.chat.nextRoom + 1
          rooms := w.chat.rooms.put (newRoom w.chat.nextRoom trimmed [member.asStr] false now)}
        w.disk
      exact h.of_added (congrArg ChatResident.rooms hchat) rfl (List.cons_ne_nil _ _)
        (fun _ hother => hother) rfl

theorem ensureIncognitoSoloRoom {w : World} (h : Attended w) (member : ResidentKey)
    (name : String) (now : ℕ) :
    Attended {w with chat := (ensureIncognitoSoloRoom member name now w.chat).2} := by
  unfold Chat.ensureIncognitoSoloRoom
  split
  · exact h
  · split
    · exact h
    · exact h.of_added rfl rfl (List.cons_ne_nil _ _) (fun _ hother => hother) rfl

/-- A room that accepts a message addresses somebody. -/
theorem addressed_ne_nil {isAlphanumeric : Char → Bool} {text : String} {room : ChatRoom}
    {members : List String} (h : addressed isAlphanumeric text room = .ok members)
    (hstaffed : room.members ≠ []) : members ≠ [] := by
  unfold addressed at h
  split_ifs at h with hbusy harchived hgroup
  · cases hmentioned : mentionedMembers isAlphanumeric text room.members with
    | error error => simp [hmentioned, Except.map] at h
    | ok mentioned =>
        simp only [hmentioned, Except.map, Except.ok.injEq] at h
        rw [← h]
        split_ifs with hempty
        · exact hstaffed
        · exact fun hnil => hempty (List.isEmpty_iff.mpr hnil)
  · exact Except.ok.inj h ▸ hstaffed

theorem send {isAlphanumeric : Char → Bool} {w : World} (h : Attended w)
    (faults : SnapshotFaults) (clock : Clock) (id : ℕ) (text : String) (media : List MediaAsset)
    (hsaved : ¬((ChatCall.sendUserMessage clock id text media).Effective isAlphanumeric w.chat ∧
      SaveBlocked faults w.chat w.disk)) :
    Attended (w.sent
      (sendUserMessageWithMedia isAlphanumeric faults clock id text media w.chat w.disk)) := by
  have hstep := send_step isAlphanumeric faults clock id text media w.chat w.disk
  generalize sendUserMessageWithMedia isAlphanumeric faults clock id text media w.chat w.disk = out
    at hstep ⊢
  cases hstep with
  | refused error _ => exact h
  | unsaved room members error disk' hadmission hsave =>
      have hblocked := (saveLocked_error_iff faults _ w.disk).mp ⟨error, by rw [hsave]⟩
      exact absurd ⟨⟨_, hadmission⟩, (saveBlocked_congr _ rfl).mp hblocked⟩ hsaved
  | accepted room members disk' round hadmission hsave hround hmembers =>
      obtain ⟨hroom, haddressed⟩ := admission_ok hadmission
      have hstaffed := h.staffed id room hroom
      have hid : room.id = id := RoomStore.id_of_get hroom
      have hwoken : (woken w.chat clock (Text.trim text) media room).id = id := hid
      refine ⟨fun k other hother hbusy => ?_, fun k other hother => ?_, h.creations, ?_⟩
      · simp only [World.sent, accepting, RoomStore.get_put, hwoken] at hother
        split_ifs at hother with hk
        · exact ⟨round, List.mem_cons_self, hround.trans hk⟩
        · obtain ⟨earlier, hmem, hid⟩ := h.busy k other hother hbusy
          exact ⟨earlier, List.mem_cons_of_mem _ hmem, hid⟩
      · simp only [World.sent, accepting, RoomStore.get_put, hwoken] at hother
        split_ifs at hother with hk
        · rw [← Option.some.inj hother]
          exact hstaffed
        · exact h.staffed k other hother
      · intro other hother
        rcases List.mem_cons.mp hother with rfl | hother
        · exact hmembers ▸ addressed_ne_nil haddressed hstaffed
        · exact h.rounds other hother

theorem finish {w : World} (h : Attended w) (faults : SnapshotFaults) (now : ℕ) (round : Round) :
    let out := finish faults now round.roomId w.chat w.disk
    Attended {w with chat := out.1, disk := out.2, rounds := w.rounds.erase round} := by
  obtain ⟨hcalmer, hidle⟩ := finish_calmer faults now round.roomId w.chat w.disk
  refine ⟨fun id room' hroom' hbusy => ?_, fun id room' hroom' => ?_, h.creations,
    fun other hother => h.rounds other (List.mem_of_mem_erase hother)⟩
  · obtain ⟨room, hroom, _, hcalm⟩ := hcalmer id room' hroom'
    obtain ⟨other, hother, hid⟩ := h.busy id room hroom (hcalm hbusy)
    have hne : other ≠ round := by
      rintro rfl
      rw [← hid] at hroom'
      rw [hidle room' hroom'] at hbusy
      cases hbusy
    exact ⟨other, (List.mem_erase_of_ne hne).mpr hother, hid⟩
  · obtain ⟨room, hroom, hmembers, _⟩ := hcalmer id room' hroom'
    rw [hmembers]
    exact h.staffed id room hroom

end Attended

def diskFull : SnapshotFaults := fun call =>
  if call = .create .pending then some "no space left on device" else none

end NormaHarness.Chat
