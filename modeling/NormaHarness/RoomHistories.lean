import NormaHarness.RoomEdits

/-!
# Histories over runs

The identities of messages come from one counter, and the rooms keep what they were
given: over a whole run, identities are distinct across the rooms, they increase
within a room, and histories only grow at their ends.
-/
namespace NormaHarness.Chat
open Std Identifiers Contracts LlmProtocol Media FilePrograms

def ChatRoom.messageIds (room : ChatRoom) : List ℕ := room.messages.map ChatMessage.id

def RoomStore.messageIds (s : RoomStore) : List ℕ := s.values.flatMap ChatRoom.messageIds

/-- Rooms that can be restored: distinct identities, increasing within each room. -/
structure SavedIds (restored : List ChatRoom) : Prop where
  distinct : (restored.flatMap ChatRoom.messageIds).Nodup
  increasing : ∀ room ∈ restored, room.messageIds.Pairwise (· < ·)

/-- The identities of the messages are in order. -/
structure Sequenced (c : ChatResident) : Prop where
  below : ∀ id room, c.rooms.record id = some room → ∀ m ∈ room.messages, m.id < c.nextMessage
  increasing : ∀ id room, c.rooms.record id = some room →
    (room.messages.map ChatMessage.id).Pairwise (· < ·)
  distinct : ∀ id id' room room', c.rooms.record id = some room →
    c.rooms.record id' = some room' → id ≠ id' →
      ∀ m ∈ room.messages, ∀ m' ∈ room'.messages, m.id ≠ m'.id

namespace Sequenced

variable {c c' : ChatResident}

/-- A record of the updated store is the changed one or an old one. -/
theorem record_cases {id k : ℕ} {record other : RoomRecord}
    (hrecords : c'.rooms.record = Function.update c.rooms.record id (some record))
    (h : c'.rooms.record k = some other) :
    k = id ∧ other = record ∨ k ≠ id ∧ c.rooms.record k = some other := by
  rw [hrecords, Function.update_apply] at h
  split_ifs at h with hk
  · exact .inl ⟨hk, (Option.some.inj h).symm⟩
  · exact .inr ⟨hk, h⟩

theorem appended (h : Sequenced c) {id : ℕ} {room : RoomRecord} {m : ChatMessage}
    (hm : m.id = c.nextMessage) (hroom : c.rooms.record id = some room)
    (hrecords : c'.rooms.record = Function.update c.rooms.record id (some (room.extended m)))
    (hnext : c'.nextMessage = c.nextMessage + 1) : Sequenced c' := by
  have hmem : ∀ m' ∈ (room.extended m).messages, m' ∈ room.messages ∨ m'.id = c.nextMessage := by
    intro m' hm'
    rcases List.mem_append.mp hm' with hold | hlast
    · exact .inl hold
    · exact .inr (List.mem_singleton.mp hlast ▸ hm)
  have hother : ∀ k other, k ≠ id → c.rooms.record k = some other →
      ∀ x ∈ (room.extended m).messages, ∀ y ∈ other.messages, x.id ≠ y.id := by
    intro k other hk hget x hx y hy
    rcases hmem x hx with hold | hnew
    · exact h.distinct id k room other hroom hget (Ne.symm hk) x hold y hy
    · have := h.below k other hget y hy
      omega
  refine ⟨fun k other hget x hx => ?_, fun k other hget => ?_,
    fun k l a b ha hb hne x hx y hy => ?_⟩
  · rcases record_cases hrecords hget with ⟨rfl, rfl⟩ | ⟨_, hold⟩
    · rcases hmem x hx with hold | hnew
      · have := h.below k room hroom x hold
        omega
      · omega
    · have := h.below k other hold x hx
      omega
  · rcases record_cases hrecords hget with ⟨rfl, rfl⟩ | ⟨_, hold⟩
    · simp only [RoomRecord.extended, List.map_append, List.map_cons, List.map_nil]
      refine List.pairwise_append.mpr ⟨h.increasing k room hroom, List.pairwise_singleton _ _, ?_⟩
      intro x hx y hy
      obtain ⟨old, hold, rfl⟩ := List.mem_map.mp hx
      rw [List.mem_singleton.mp hy, hm]
      exact h.below k room hroom old hold
    · exact h.increasing k other hold
  · rcases record_cases hrecords ha with ⟨rfl, rfl⟩ | ⟨hk, ha⟩
    · rcases record_cases hrecords hb with ⟨rfl, _⟩ | ⟨hl, hb⟩
      · exact absurd rfl hne
      · exact hother l b hl hb x hx y hy
    · rcases record_cases hrecords hb with ⟨rfl, rfl⟩ | ⟨_, hb⟩
      · exact (hother k a hk ha y hy x hx).symm
      · exact h.distinct k l a b ha hb hne x hx y hy

theorem inserted (h : Sequenced c) {id : ℕ} {room : RoomRecord} (hempty : room.messages = [])
    (hrecords : c'.rooms.record = Function.update c.rooms.record id (some room))
    (hnext : c'.nextMessage = c.nextMessage) : Sequenced c' := by
  refine ⟨fun k other hget x hx => ?_, fun k other hget => ?_,
    fun k l a b ha hb hne x hx y hy => ?_⟩
  · rcases record_cases hrecords hget with ⟨_, rfl⟩ | ⟨_, hold⟩
    · rw [hempty] at hx
      cases hx
    · exact hnext ▸ h.below k other hold x hx
  · rcases record_cases hrecords hget with ⟨_, rfl⟩ | ⟨_, hold⟩
    · rw [hempty]
      exact .nil
    · exact h.increasing k other hold
  · rcases record_cases hrecords ha with ⟨_, rfl⟩ | ⟨_, ha⟩
    · rw [hempty] at hx
      cases hx
    · rcases record_cases hrecords hb with ⟨_, rfl⟩ | ⟨_, hb⟩
      · rw [hempty] at hy
        cases hy
      · exact h.distinct k l a b ha hb hne x hx y hy

theorem effect (h : Sequenced c) {message : Option (ℕ × ChatMessage)} {created : Option ChatRoom}
    (heffect : Effect message created c c') : Sequenced c' := by
  cases heffect with
  | kept hrecord hnext _ =>
      refine ⟨?_, ?_, ?_⟩
      · rw [hrecord, hnext]
        exact h.below
      · rw [hrecord]
        exact h.increasing
      · rw [hrecord]
        exact h.distinct
  | appended id room m _ hm hroom hrecords hnext _ => exact h.appended hm hroom hrecords hnext
  | inserted room _ _ hempty hrecords hnext => exact h.inserted hempty hrecords hnext

end Sequenced

theorem restoredMessage_id (media : ExtTreeMap String MediaAsset) (m : ChatMessage) :
    (restoredMessage media m).id = m.id := rfl

theorem restoredRoom_messageIds (media : ExtTreeMap String MediaAsset) (room : ChatRoom) :
    (restoredRoom media room).messageIds = room.messageIds := by
  simp [ChatRoom.messageIds, restoredRoom, restoredMessage_id]

theorem start_sequenced {restored : List ChatRoom} (h : SavedIds restored)
    (media : ExtTreeMap String MediaAsset) (disk : SnapshotDisk) :
    Sequenced (start restored media disk).chat := by
  have hsaved : ∀ id record, (start restored media disk).chat.rooms.record id = some record →
      ∃ saved ∈ restored, saved.id = id ∧
        record.messages.map ChatMessage.id = saved.messageIds := by
    intro id record hrecord
    obtain ⟨room, hroom, rfl⟩ := exists_of_record hrecord
    obtain ⟨saved, hmem, rfl⟩ := get_start hroom
    have hid := RoomStore.id_of_get hroom
    exact ⟨saved, hmem, hid, restoredRoom_messageIds media saved⟩
  have hsymm : Std.Symm (Function.onFun List.Disjoint ChatRoom.messageIds) :=
    ⟨fun _ _ hd => List.Disjoint.symm hd⟩
  have hdisjoint := (List.nodup_flatMap.mp h.distinct).2
  refine ⟨fun id record hrecord m hm => ?_, fun id record hrecord => ?_, ?_⟩
  · obtain ⟨room, hroom, rfl⟩ := exists_of_record hrecord
    exact (start_fresh restored media disk).bounded.messageIds id room hroom m hm
  · obtain ⟨saved, hmem, _, hids⟩ := hsaved id record hrecord
    rw [hids]
    exact h.increasing saved hmem
  · intro id id' record record' hrecord hrecord' hne m hm m' hm' he
    obtain ⟨saved, hmem, hid, hids⟩ := hsaved id record hrecord
    obtain ⟨saved', hmem', hid', hids'⟩ := hsaved id' record' hrecord'
    have hrooms : saved ≠ saved' := by
      rintro rfl
      exact hne (hid.symm.trans hid')
    have hapart := hdisjoint.forall hmem hmem' hrooms
    refine hapart (hids ▸ List.mem_map_of_mem hm) ?_
    rw [he]
    exact hids' ▸ List.mem_map_of_mem hm'

/-- The order of identities on the store itself. -/
theorem Sequenced.messageIds_nodup {c : ChatResident} (h : Sequenced c) :
    c.rooms.messageIds.Nodup := by
  refine List.nodup_flatMap.mpr ⟨fun room hroom => ?_, ?_⟩
  · have hget := record_of_get (RoomStore.mem_values.mp hroom)
    exact (h.increasing room.id room.record hget).imp fun hlt => Nat.ne_of_lt hlt
  · refine (List.pairwise_map.mp (values_nodup c.rooms)).imp_of_mem ?_
    intro room room' hroom hroom' hne k hk hk'
    obtain ⟨m, hm, rfl⟩ := List.mem_map.mp hk
    obtain ⟨m', hm', he⟩ := List.mem_map.mp hk'
    exact h.distinct room.id room'.id room.record room'.record
      (record_of_get (RoomStore.mem_values.mp hroom))
      (record_of_get (RoomStore.mem_values.mp hroom')) hne m hm m' hm' he.symm

theorem run_sequenced {isAlphanumeric : Char → Bool} {w w' : World} {ops : List ChatOp}
    (hrun : ChatRun isAlphanumeric w ops w') (hf : Fresh w) (h : Sequenced w.chat) :
    Fresh w' ∧ Sequenced w'.chat :=
  hrun.invariant (P := fun w => Fresh w ∧ Sequenced w.chat)
    (fun _ _ _ hs step => ⟨(step.fresh hs.1).1, hs.2.effect (step.effect hs.1)⟩)
    ⟨hf, h⟩

/-- Whatever the program saves can be restored. -/
theorem snapshot_savedIds {c : ChatResident} (h : Sequenced c) :
    SavedIds (snapshot c.rooms).rooms := by
  have hencoded : ∀ room, (encodedRoom room).messageIds = room.messageIds := by
    intro room
    simp [ChatRoom.messageIds, encodedRoom]
  have hids : (snapshot c.rooms).rooms.flatMap ChatRoom.messageIds =
      (c.rooms.values.filter fun room => !room.incognito).flatMap ChatRoom.messageIds := by
    simp only [snapshot, List.flatMap_map, hencoded]
  refine ⟨?_, fun room hroom => ?_⟩
  · rw [hids]
    exact h.messageIds_nodup.sublist (List.Sublist.flatMap List.filter_sublist _)
  · obtain ⟨saved, hsaved, rfl⟩ := List.mem_map.mp hroom
    rw [hencoded]
    have hget := RoomStore.mem_values.mp (List.mem_of_mem_filter hsaved)
    exact h.increasing saved.id saved.record (record_of_get hget)

/-- Over every run from a restore, identities are distinct and increasing, and each step
keeps the rooms, extends their histories and inserts rooms under free identities. -/
theorem histories_append_only {isAlphanumeric : Char → Bool} {restored : List ChatRoom}
    {media : ExtTreeMap String MediaAsset} {disk : SnapshotDisk} {ops : List ChatOp} {w : World}
    (hsaved : SavedIds restored) (hrun : ChatRun isAlphanumeric (start restored media disk) ops w) :
    w.chat.rooms.messageIds.Nodup ∧
      (∀ id room, w.chat.rooms.get id = some room → room.messageIds.Pairwise (· < ·)) ∧
      ∀ (op : ChatOp) (w' : World), ChatStep isAlphanumeric w op w' →
        Extends w.chat w'.chat ∧
          ∀ room, op.creates w.chat = some room → w.chat.rooms.get room.id = none := by
  obtain ⟨hf, hs⟩ := run_sequenced hrun (start_fresh restored media disk)
    (start_sequenced hsaved media disk)
  refine ⟨hs.messageIds_nodup, fun id room hroom => ?_, fun op w' step => ⟨(step.fresh hf).2, ?_⟩⟩
  · exact hs.increasing id room.record (record_of_get hroom)
  · intro room hcreates
    have heffect := step.effect hf
    rw [hcreates] at heffect
    cases heffect with
    | kept _ _ hnone => cases hnone
    | appended _ _ _ _ _ _ _ _ hnone => cases hnone
    | inserted other hother hfree => exact Option.some.inj hother ▸ hfree

/-- Two rooms whose messages interleave are restored, and a user message follows. -/
theorem histories_append_only_greeting :
    let team : ChatRoom := {newRoom 4 "team" ["bob", "codex"] false 0 with
      messages := [⟨2, "user", "你", "hello", 0, [], []⟩, ⟨9, "agent", "bob", "hi", 0, [], []⟩]}
    let direct : ChatRoom := {newRoom 6 "Codex" ["codex"] false 0 with
      messages := [⟨5, "user", "你", "hello", 0, [], []⟩]}
    let w := (start [team, direct] ∅ noFiles).after Char.isAlphanum
      (.send noFaults ⟨1, 1⟩ 6 "again" [])
    w.chat.rooms.messageIds.Nodup ∧
      (∀ id room, w.chat.rooms.get id = some room → room.messageIds.Pairwise (· < ·)) ∧
      ∀ (op : ChatOp) (w' : World), ChatStep Char.isAlphanum w op w' →
        Extends w.chat w'.chat ∧
          ∀ room, op.creates w.chat = some room → w.chat.rooms.get room.id = none := by
  intro team direct w
  have hsend : ChatStep Char.isAlphanum (start [team, direct] ∅ noFiles)
      (.send noFaults ⟨1, 1⟩ 6 "again" []) w := ⟨trivial, rfl⟩
  exact histories_append_only ⟨by decide, by decide⟩ (.single hsend)

end NormaHarness.Chat
