import NormaHarness.ChatRuns

/-!
# The sweep that puts rooms to sleep

One check goes over all rooms and drops expired clients as it goes. Each room's turn touches
that room only, so what the check does is told from the state before it.
-/
namespace NormaHarness.Chat
open Std Identifiers Contracts LlmProtocol Media FilePrograms

/-- The rooms that a sweep puts to sleep, told from the state before it. -/
def fallsAsleep (limits : SleepLimits) (now : ℕ) (c : ChatResident) (room : ChatRoom) : Bool :=
  !(room.sleeping || room.busy) && isDue limits now c room

theorem isDue_congr (limits : SleepLimits) (now : ℕ) {c c' : ChatResident} {room : ChatRoom}
    (hpresence : c.presence[room.id]? = c'.presence[room.id]?)
    (hlast : c.lastPresence[room.id]? = c'.lastPresence[room.id]?) :
    isDue limits now c room = isDue limits now c' room := by
  simp only [isDue, presentClients, hpresence, hlast]

variable {limits : SleepLimits} {now : ℕ} {chat : ChatResident}

theorem sleepRoom_asleep {swept : ChatResident × List ChatRoom} {room : ChatRoom}
    (hdue : isDue limits now swept.1 room = isDue limits now chat room) :
    (sleepRoom limits now swept room).2 =
        swept.2 ++ (if fallsAsleep limits now chat room then [asleep room] else []) ∧
      ∀ id, (sleepRoom limits now swept room).1.rooms.get id =
        if fallsAsleep limits now chat room = true ∧ room.id = id then some (asleep room)
        else swept.1.rooms.get id := by
  unfold sleepRoom fallsAsleep
  rw [hdue]
  cases hawake : room.sleeping || room.busy with
  | true => simp
  | false =>
      cases isDue limits now chat room with
      | false => simp
      | true => simp [RoomStore.get_put, asleep]

theorem sleepRoom_presence (swept : ChatResident × List ChatRoom) (room : ChatRoom) :
    (∀ id, room.id ≠ id →
      (sleepRoom limits now swept room).1.presence[id]? = swept.1.presence[id]?) ∧
      (sleepRoom limits now swept room).1.lastPresence = swept.1.lastPresence := by
  unfold sleepRoom
  split_ifs
  · exact ⟨fun _ _ => rfl, rfl⟩
  · exact ⟨fun id hid => by simp [ExtTreeMap.getElem?_insert, hid], rfl⟩
  · exact ⟨fun id hid => by simp [ExtTreeMap.getElem?_insert, hid], rfl⟩

variable (limits now) in
/-- Every room's turn finds the maps as they were when the check began. -/
theorem sweep_asleep {rooms : List ChatRoom} (hnodup : (rooms.map ChatRoom.id).Nodup)
    {swept : ChatResident × List ChatRoom}
    (hpresence : ∀ room ∈ rooms, swept.1.presence[room.id]? = chat.presence[room.id]?)
    (hlast : swept.1.lastPresence = chat.lastPresence) :
    (rooms.foldl (sleepRoom limits now) swept).2 =
        swept.2 ++ (rooms.filter (fallsAsleep limits now chat)).map asleep ∧
      (∀ room ∈ rooms, (rooms.foldl (sleepRoom limits now) swept).1.rooms.get room.id =
        if fallsAsleep limits now chat room then some (asleep room)
        else swept.1.rooms.get room.id) ∧
      ∀ id, (∀ room ∈ rooms, room.id ≠ id) →
        (rooms.foldl (sleepRoom limits now) swept).1.rooms.get id = swept.1.rooms.get id := by
  induction rooms generalizing swept with
  | nil => simp
  | cons room rooms ih =>
      obtain ⟨hnot, hnodup⟩ := List.nodup_cons.mp hnodup
      have hothers : ∀ other ∈ rooms, room.id ≠ other.id := fun other hother he =>
        hnot (List.mem_map.mpr ⟨other, hother, he.symm⟩)
      obtain ⟨hlist, hget⟩ := sleepRoom_asleep
        (isDue_congr limits now (hpresence room List.mem_cons_self) (hlast ▸ rfl))
      obtain ⟨hkept, hlast'⟩ := sleepRoom_presence swept room
      have hpresence' : ∀ other ∈ rooms, (sleepRoom limits now swept room).1.presence[other.id]? =
          chat.presence[other.id]? := fun other hother =>
        (hkept _ (hothers other hother)).trans (hpresence other (List.mem_cons_of_mem _ hother))
      obtain ⟨ihlist, ihget, ihother⟩ := ih hnodup hpresence' (hlast'.trans hlast)
      rw [List.foldl_cons]
      refine ⟨?_, fun other hother => ?_, fun id hid => ?_⟩
      · rw [ihlist, hlist, List.append_assoc, List.filter_cons]
        split_ifs <;> rfl
      · rcases List.mem_cons.mp hother with rfl | hother
        · rw [ihother _ fun other hother he => hothers other hother he.symm, hget]
          simp
        · have hsame : (sleepRoom limits now swept room).1.rooms.get other.id =
              swept.1.rooms.get other.id := by
            rw [hget, if_neg fun h => hothers other hother h.2]
          rw [ihget other hother, hsame]
      · rw [ihother id fun other hother => hid other (List.mem_cons_of_mem _ hother), hget,
          if_neg fun h => hid room List.mem_cons_self h.2]

/-- A check returns the rooms it puts to sleep, and changes no other room. -/
theorem sleepDue_asleep (faults : SnapshotFaults) (limits : SleepLimits) (now : ℕ)
    (chat : ChatResident) (disk : SnapshotDisk) :
    (sleepDue faults limits now chat disk).1 =
        (chat.rooms.values.filter (fallsAsleep limits now chat)).map asleep ∧
      ∀ id, (sleepDue faults limits now chat disk).2.1.rooms.get id =
        (chat.rooms.get id).map fun room =>
          if fallsAsleep limits now chat room then asleep room else room := by
  let before : ChatResident × List ChatRoom := (chat, [])
  let swept := chat.rooms.values.foldl (sleepRoom limits now) before
  have hsweep : (sleepDue faults limits now chat disk).1 = swept.2 ∧
      (sleepDue faults limits now chat disk).2.1 = swept.1 := by
    unfold sleepDue
    simp only
    split_ifs
    · exact ⟨rfl, rfl⟩
    · exact ⟨rfl, rfl⟩
  have hpresence : ∀ room ∈ chat.rooms.values,
      before.1.presence[room.id]? = chat.presence[room.id]? := fun _ _ => rfl
  obtain ⟨hlist, hget, hother⟩ := sweep_asleep limits now (values_nodup chat.rooms) hpresence rfl
  rw [hsweep.1, hsweep.2]
  refine ⟨hlist, fun id => ?_⟩
  cases hroom : chat.rooms.get id with
  | none =>
      refine (hother id fun room hmem he => ?_).trans hroom
      rw [← he, RoomStore.mem_values.mp hmem] at hroom
      cases hroom
  | some room =>
      have hid : room.id = id := RoomStore.id_of_get hroom
      subst hid
      have hmem := RoomStore.mem_values.mpr hroom
      refine (hget room hmem).trans ?_
      rw [Option.map_some]
      split_ifs
      · rfl
      · exact hroom

end NormaHarness.Chat
