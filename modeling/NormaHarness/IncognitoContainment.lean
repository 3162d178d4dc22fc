import NormaHarness.ChatContext
import NormaHarness.MemoryTriggers
import NormaHarness.SleepSweeps

/-!
# Incognito rooms leave no trace

Everything that is said about ordinary rooms is a listing over all rooms to which an
incognito room contributes nothing. Two states with the same ordinary rooms therefore
say the same, whatever their incognito rooms hold.
-/
namespace NormaHarness.Chat
open Std Identifiers Contracts LlmProtocol ToolProtocol Media FilePrograms

/-- The two stores have the same ordinary rooms. -/
def SameOrdinary (s t : RoomStore) : Prop :=
  ∀ id room, room.incognito = false → (s.get id = some room ↔ t.get id = some room)

/-- The same ordinary rooms with the same viewers. -/
structure SameOutside (c c' : ChatResident) : Prop where
  rooms : SameOrdinary c.rooms c'.rooms
  presence : ∀ id room, c.rooms.get id = some room → room.incognito = false →
    c.presence[id]? = c'.presence[id]? ∧ c.lastPresence[id]? = c'.lastPresence[id]?

/-- A listing to which incognito rooms contribute nothing. -/
theorem SameOrdinary.flatMap_congr {γ : Type} {s t : RoomStore} (h : SameOrdinary s t)
    {f g : ChatRoom → List γ} (hf : ∀ room, room.incognito = true → f room = [])
    (hg : ∀ room, room.incognito = true → g room = [])
    (hfg : ∀ room, s.get room.id = some room → room.incognito = false → f room = g room) :
    s.values.flatMap f = t.values.flatMap g := by
  rw [RoomStore.flatMap_values, RoomStore.flatMap_values]
  refine OrderedMaps.listing_congr fun k => ?_
  have hidden : ∀ (u : RoomStore) (e : ChatRoom → List γ),
      (∀ room, room.incognito = true → e room = []) →
      (∀ room, u.get k = some room → room.incognito = true) →
        OrderedMaps.contribution u.rooms (fun _ room => e room) k = [] := by
    intro u e he hu
    cases hroom : u.get k with
    | none => exact OrderedMaps.contribution_of_none hroom
    | some room =>
        rw [OrderedMaps.contribution_of_some hroom]
        exact he room (hu room hroom)
  by_cases hk : ∃ room, s.get k = some room ∧ room.incognito = false
  · obtain ⟨room, hroom, hordinary⟩ := hk
    rw [OrderedMaps.contribution_of_some hroom,
      OrderedMaps.contribution_of_some ((h k room hordinary).mp hroom)]
    exact hfg room (RoomStore.id_of_get hroom ▸ hroom) hordinary
  · rw [hidden s f hf fun room hroom => ?_, hidden t g hg fun room hroom => ?_]
    · by_contra hordinary
      have hordinary := Bool.eq_false_iff.mpr hordinary
      exact hk ⟨room, (h k room hordinary).mpr hroom, hordinary⟩
    · by_contra hordinary
      exact hk ⟨room, hroom, Bool.eq_false_iff.mpr hordinary⟩

theorem SameOrdinary.flatMap_eq {γ : Type} {s t : RoomStore} (h : SameOrdinary s t)
    {f : ChatRoom → List γ} (hf : ∀ room, room.incognito = true → f room = []) :
    s.values.flatMap f = t.values.flatMap f :=
  h.flatMap_congr hf hf fun _ _ _ => rfl

/-! ## Snapshots, turns and queries -/

section

variable {s t : RoomStore}

theorem filter_eq_flatMap (rooms : List ChatRoom) (p : ChatRoom → Bool) :
    rooms.filter p = rooms.flatMap fun room => if p room then [room] else [] := by
  induction rooms with
  | nil => rfl
  | cons room rooms ih =>
      rw [List.filter_cons, List.flatMap_cons, ih]
      split_ifs <;> rfl

/-- Selecting rooms, none of them incognito. -/
theorem SameOrdinary.filter_eq (h : SameOrdinary s t) {p : ChatRoom → Bool}
    (hp : ∀ room, room.incognito = true → p room = false) :
    s.values.filter p = t.values.filter p := by
  rw [filter_eq_flatMap, filter_eq_flatMap]
  exact h.flatMap_eq fun room hroom => by simp [hp room hroom]

theorem SameOrdinary.snapshot_eq (h : SameOrdinary s t) : snapshot s = snapshot t := by
  unfold snapshot
  rw [h.filter_eq fun room hroom => by simp [hroom]]

theorem SameOrdinary.turnSnapshot_eq (h : SameOrdinary s t) {id : ℕ} {room : ChatRoom}
    (hroom : s.get id = some room) (hordinary : room.incognito = false) (member : String)
    (roundStart : Option ℕ) :
    turnSnapshot s id member roundStart = turnSnapshot t id member roundStart := by
  have hroom' := (h id room hordinary).mp hroom
  simp only [turnSnapshot, turnContext, hroom, hroom', hordinary]
  rw [h.flatMap_eq fun other hother => by simp [turnMessages, inTurn, hother]]

theorem SameOrdinary.chatContextFor_eq (h : SameOrdinary s t) {query : ChatContextQuery}
    {room : ChatRoom} (hroom : s.get query.request.roomId = some room)
    (hordinary : room.incognito = false) : chatContextFor s query = chatContextFor t query := by
  have hroom' := (h _ room hordinary).mp hroom
  simp only [chatContextFor, matching, hroom, hroom', hordinary]
  rw [h.flatMap_eq fun other hother => by simp [queryMessages, inScope, hother]]

/-! ## Memory triggers -/

theorem SameOrdinary.retrySleepMemory_eq (h : SameOrdinary s t) :
    retrySleepMemory s = retrySleepMemory t := by
  unfold retrySleepMemory
  rw [h.filter_eq fun room hroom => by simp [hroom]]

theorem SameOrdinary.afterCompaction_eq (h : SameOrdinary s t) (id : ℕ) (member : String) :
    afterCompaction s id member = afterCompaction t id member := by
  have hidden : ∀ u : RoomStore, (∀ room, u.get id = some room → room.incognito = true) →
      afterCompaction u id member = none := by
    intro u hu
    unfold afterCompaction
    cases hroom : u.get id with
    | none => rfl
    | some room => exact emitMemoryTrigger_incognito (hu room hroom) member .compaction
  by_cases hk : ∃ room, s.get id = some room ∧ room.incognito = false
  · obtain ⟨room, hroom, hordinary⟩ := hk
    simp only [afterCompaction, hroom, (h id room hordinary).mp hroom]
  · rw [hidden s fun room hroom => ?_, hidden t fun room hroom => ?_]
    · by_contra hordinary
      have hordinary := Bool.eq_false_iff.mpr hordinary
      exact hk ⟨room, (h id room hordinary).mpr hroom, hordinary⟩
    · by_contra hordinary
      exact hk ⟨room, hroom, Bool.eq_false_iff.mpr hordinary⟩

end

theorem sleepLoop_eq (faults : SnapshotFaults) (limits : SleepLimits) (now : ℕ)
    (c : ChatResident) (disk : SnapshotDisk) : sleepLoop faults limits now c disk =
      c.rooms.values.flatMap fun room =>
        if fallsAsleep limits now c room then afterSleep (asleep room) else [] := by
  unfold sleepLoop
  rw [(sleepDue_asleep faults limits now c disk).1, filter_eq_flatMap, List.map_flatMap,
    List.flatMap_assoc]
  refine List.flatMap_congr fun room _ => ?_
  split_ifs <;> simp

theorem SameOutside.sleepLoop_eq {c c' : ChatResident} (h : SameOutside c c')
    (faults faults' : SnapshotFaults) (limits : SleepLimits) (now : ℕ)
    (disk disk' : SnapshotDisk) :
    sleepLoop faults limits now c disk = sleepLoop faults' limits now c' disk' := by
  have hidden : ∀ (u : ChatResident) (room : ChatRoom), room.incognito = true →
      (if fallsAsleep limits now u room then afterSleep (asleep room) else []) = [] := by
    intro u room hroom
    rw [show afterSleep (asleep room) = [] from afterSleep_incognito hroom, ite_self]
  rw [Chat.sleepLoop_eq, Chat.sleepLoop_eq]
  refine h.rooms.flatMap_congr (hidden c) (hidden c') fun room hroom hordinary => ?_
  obtain ⟨hpresence, hlast⟩ := h.presence room.id room hroom hordinary
  unfold fallsAsleep
  rw [isDue_congr limits now hpresence hlast]

/-- The triggers that a state can emit. -/
inductive Emits (c : ChatResident) (trigger : EmittedTrigger) : Prop
  | slept (faults : SnapshotFaults) (limits : SleepLimits) (now : ℕ) (disk : SnapshotDisk) :
      trigger ∈ sleepLoop faults limits now c disk → Emits c trigger
  | retried : trigger ∈ retrySleepMemory c.rooms → Emits c trigger
  | compacted (id : ℕ) (member : String) : afterCompaction c.rooms id member = some trigger →
      Emits c trigger

/-- A trigger names a room that is not incognito. -/
theorem Emits.ordinary {c : ChatResident} {trigger : EmittedTrigger} (h : Emits c trigger) :
    ∃ room, c.rooms.get trigger.2.roomId = some room ∧ room.incognito = false := by
  cases h with
  | slept faults limits now disk hmem =>
      rw [Chat.sleepLoop_eq] at hmem
      obtain ⟨room, hroom, htrigger⟩ := List.mem_flatMap.mp hmem
      split_ifs at htrigger
      · obtain ⟨member, _, hemit⟩ := List.mem_filterMap.mp htrigger
        obtain ⟨hid, hordinary⟩ := emitMemoryTrigger_room hemit
        exact ⟨room, hid ▸ RoomStore.mem_values.mp hroom, hordinary⟩
      · cases htrigger
  | retried hmem =>
      obtain ⟨room, hroom, htrigger⟩ := List.mem_flatMap.mp hmem
      obtain ⟨member, _, hemit⟩ := List.mem_filterMap.mp htrigger
      obtain ⟨hid, hordinary⟩ := emitMemoryTrigger_room hemit
      exact ⟨room, hid ▸ RoomStore.mem_values.mp (List.mem_of_mem_filter hroom), hordinary⟩
  | compacted id member hemit =>
      obtain ⟨room, hroom, hemit⟩ := Option.bind_eq_some_iff.mp hemit
      obtain ⟨hid, hordinary⟩ := emitMemoryTrigger_room hemit
      rw [hid]
      exact ⟨room, RoomStore.id_of_get hroom ▸ hroom, hordinary⟩

/-- Two states with the same ordinary rooms and viewers say the same about them, and no
state emits a trigger about an incognito room. -/
theorem incognito_containment {c c' : ChatResident} (h : SameOutside c c') :
    snapshot c.rooms = snapshot c'.rooms ∧
      (∀ id room, c.rooms.get id = some room → room.incognito = false → ∀ member roundStart,
        turnSnapshot c.rooms id member roundStart = turnSnapshot c'.rooms id member roundStart) ∧
      (∀ (query : ChatContextQuery) (room : ChatRoom),
        c.rooms.get query.request.roomId = some room → room.incognito = false →
          chatContextFor c.rooms query = chatContextFor c'.rooms query) ∧
      (∀ faults faults' limits now disk disk',
        sleepLoop faults limits now c disk = sleepLoop faults' limits now c' disk') ∧
      retrySleepMemory c.rooms = retrySleepMemory c'.rooms ∧
      (∀ id member, afterCompaction c.rooms id member = afterCompaction c'.rooms id member) ∧
      ∀ trigger, Emits c trigger →
        ∃ room, c.rooms.get trigger.2.roomId = some room ∧ room.incognito = false :=
  ⟨h.rooms.snapshot_eq,
    fun _ _ hroom hordinary => h.rooms.turnSnapshot_eq hroom hordinary,
    fun _ _ hroom hordinary => h.rooms.chatContextFor_eq hroom hordinary,
    fun faults faults' limits now disk disk' =>
      h.sleepLoop_eq faults faults' limits now disk disk',
    h.rooms.retrySleepMemory_eq, h.rooms.afterCompaction_eq, fun _ hemits => hemits.ordinary⟩

/-- Adding an incognito room, or replacing one, changes no ordinary room. -/
theorem sameOrdinary_put {s : RoomStore} {room : ChatRoom} (h : room.incognito = true)
    (hold : ∀ old, s.get room.id = some old → old.incognito = true) :
    SameOrdinary s (s.put room) := by
  intro id other hordinary
  rw [RoomStore.get_put]
  split_ifs with hid
  · constructor
    · intro hother
      exact absurd (hordinary.symm.trans (hold other (hid ▸ hother))) (by decide)
    · intro hother
      obtain rfl := Option.some.inj hother
      exact absurd (hordinary.symm.trans h) (by decide)
  · exact Iff.rfl

def privateRoom : ChatRoom :=
  {newRoom 2 "Private" ["bob"] true 0 with messages := [⟨7, "user", "你", "secret", 0, [], []⟩]}

def openChat : ChatResident :=
  {launch with rooms := RoomStore.empty.put (newRoom 1 "Plans" ["bob"] false 0)}

theorem incognito_containment_private :
    let closed : ChatResident := {openChat with rooms := openChat.rooms.put privateRoom}
    snapshot openChat.rooms = snapshot closed.rooms ∧
      (∀ id room, openChat.rooms.get id = some room → room.incognito = false →
        ∀ member roundStart, turnSnapshot openChat.rooms id member roundStart =
          turnSnapshot closed.rooms id member roundStart) ∧
      (∀ (query : ChatContextQuery) (room : ChatRoom),
        openChat.rooms.get query.request.roomId = some room → room.incognito = false →
          chatContextFor openChat.rooms query = chatContextFor closed.rooms query) ∧
      (∀ faults faults' limits now disk disk',
        sleepLoop faults limits now openChat disk = sleepLoop faults' limits now closed disk') ∧
      retrySleepMemory openChat.rooms = retrySleepMemory closed.rooms ∧
      (∀ id member, afterCompaction openChat.rooms id member =
        afterCompaction closed.rooms id member) ∧
      ∀ trigger, Emits openChat trigger →
        ∃ room, openChat.rooms.get trigger.2.roomId = some room ∧ room.incognito = false := by
  intro closed
  have hfree : openChat.rooms.get privateRoom.id = none := by
    simp only [openChat, RoomStore.get_put, RoomStore.get_empty]
    rfl
  refine incognito_containment ⟨sameOrdinary_put rfl fun old hold => ?_, fun _ _ _ _ => ⟨rfl, rfl⟩⟩
  rw [hfree] at hold
  cases hold

end NormaHarness.Chat
