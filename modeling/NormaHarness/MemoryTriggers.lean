import NormaHarness.ChatResident

/-!
# Memory triggers

A member is asked to remember a room when the room falls asleep, when it was already
asleep at startup, and when the member compacted its conversation. All three go
through one function, which refuses incognito rooms. What it hands to the message flow
is the trigger and its target; the end hook of a thread only logs.
-/
namespace NormaHarness.Chat
open Std Identifiers Contracts LlmProtocol FilePrograms

abbrev EmittedTrigger := ResidentKey × MemoryTrigger

def emitMemoryTrigger (room : ChatRoom) (member : String) (reason : MemoryTriggerReason) :
    Option EmittedTrigger :=
  if room.incognito || room.messages.isEmpty then none
  else
    match Identifier.new "Resident name" member with
    | .error _ => none
    | .ok target => some (target,
        ⟨room.id, reason, room.sleepGeneration, room.messages.map (contextMessage room)⟩)

def afterSleep (room : ChatRoom) : List EmittedTrigger :=
  room.members.filterMap fun member => emitMemoryTrigger room member .sleep

def retrySleepMemory (s : RoomStore) : List EmittedTrigger :=
  (s.values.filter fun room => room.sleeping && !room.incognito).flatMap fun room =>
    room.members.filterMap fun member => emitMemoryTrigger room member .sleep

/-- The end of `ask` for a compacted conversation. -/
def afterCompaction (s : RoomStore) (id : ℕ) (member : String) : Option EmittedTrigger :=
  (s.get id).bind fun room => emitMemoryTrigger room member .compaction

/-- One round of the sleep loop: every room that falls asleep is passed to `after_sleep`. -/
def sleepLoop (faults : SnapshotFaults) (limits : SleepLimits) (now : ℕ) (chat : ChatResident)
    (disk : SnapshotDisk) : List EmittedTrigger :=
  (sleepDue faults limits now chat disk).1.flatMap afterSleep

theorem emitMemoryTrigger_incognito {room : ChatRoom} (h : room.incognito = true) (member : String)
    (reason : MemoryTriggerReason) : emitMemoryTrigger room member reason = none := by
  simp [emitMemoryTrigger, h]

/-- A trigger is about an ordinary room and carries its identity. -/
theorem emitMemoryTrigger_room {room : ChatRoom} {member : String} {reason : MemoryTriggerReason}
    {trigger : EmittedTrigger} (h : emitMemoryTrigger room member reason = some trigger) :
    trigger.2.roomId = room.id ∧ room.incognito = false := by
  unfold emitMemoryTrigger at h
  split_ifs at h with hskip
  split at h
  · cases h
  · simp only [Option.some.injEq] at h
    subst h
    simp only [Bool.or_eq_true, not_or, Bool.not_eq_true] at hskip
    exact ⟨rfl, hskip.1⟩

theorem afterSleep_incognito {room : ChatRoom} (h : room.incognito = true) :
    afterSleep room = [] := by
  unfold afterSleep
  refine List.filterMap_eq_nil_iff.mpr fun member _ => ?_
  exact emitMemoryTrigger_incognito h member .sleep

end NormaHarness.Chat
