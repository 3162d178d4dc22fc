import NormaHarness.Broadcasts
import NormaHarness.DirectRooms
import NormaHarness.SleepSweeps

/-!
# What the viewers of a room see

A viewer opens the event stream of a room and reads the room again for each event. An
event carries nothing, and a viewer that is too slow loses some, so what it shows follows
from when it is woken. A request whose snapshot cannot be saved changes its room without
waking anybody; every other change of a room is announced.
-/
namespace NormaHarness.Chat
open Std Identifiers Contracts LlmProtocol Media FilePrograms Broadcasts Executions

/-- The update channel of a room keeps this many updates. -/
def updateCapacity : ℕ := 32

/-- The rooms on whose channels an operation sends an update. -/
def ChatOp.updates (isAlphanumeric : Char → Bool) (w : World) : ChatOp → List ℕ
  | .send faults clock id text media =>
      if (sendUserMessageWithMedia isAlphanumeric faults clock id text media w.chat w.disk).1.isOk
      then [id] else []
  | .push _ _ round _ _ _ _ => if (w.chat.rooms.get round.roomId).isSome then [round.roomId] else []
  | .setActive round _ => if (w.chat.rooms.get round.roomId).isSome then [round.roomId] else []
  | .finish _ _ round => if (w.chat.rooms.get round.roomId).isSome then [round.roomId] else []
  | .sleepDue faults limits now =>
      (Chat.sleepDue faults limits now w.chat w.disk).1.map ChatRoom.id
  | .setArchived faults id archived =>
      if (Chat.setArchived faults id archived w.chat w.disk).1.isOk then [id] else []
  | _ => []

/-- A viewer's place in the channel of its room, the events it has been sent and not yet
answered by reading the room, and what its last reading returned. -/
structure Viewer where
  roomId : ℕ
  next : ℕ
  due : ℕ
  shown : Option ChatRoom

/-- A channel is made with its room, and no identity is given out twice. -/
structure Live where
  world : World
  sent : ℕ → List Unit
  viewers : List Viewer

inductive LiveEvent where
  | op (op : ChatOp)
  | subscribe (roomId : ℕ)
  | wake (i : ℕ)
  | read (i : ℕ)
  | close (i : ℕ)

/-- One viewer moves on. -/
def Live.show (s : Live) (i : ℕ) (v : Viewer) : Live := {s with viewers := s.viewers.set i v}

def Live.launched (restored : List ChatRoom) (media : ExtTreeMap String MediaAsset)
    (disk : SnapshotDisk) : Live := ⟨start restored media disk, fun _ => [], []⟩

/-- The channels after an operation. -/
def sentAfter (sent : ℕ → List Unit) (updates : List ℕ) (id : ℕ) : List Unit :=
  sent id ++ List.replicate (updates.count id) ()

/-- The channel of a room. -/
abbrev Updates := Channel Unit updateCapacity

/-- The stream of a viewer sends one event when it is opened, and one whenever the channel
wakes it, also when it was only told that it is late. -/
inductive LiveStep (isAlphanumeric : Char → Bool) (channel : Updates) (s : Live) :
    LiveEvent → Live → Prop
  | op {op : ChatOp} {w : World} (hstep : ChatStep isAlphanumeric s.world op w) :
      LiveStep isAlphanumeric channel s (.op op)
        ⟨w, sentAfter s.sent (op.updates isAlphanumeric s.world), s.viewers⟩
  | subscribe {roomId : ℕ} {room : ChatRoom} (hroom : s.world.chat.rooms.get roomId = some room) :
      LiveStep isAlphanumeric channel s (.subscribe roomId)
        {s with viewers := s.viewers ++ [⟨roomId, (s.sent roomId).length, 1, none⟩]}
  | wake {i next : ℕ} {v : Viewer} {received : Received Unit} (hv : s.viewers[i]? = some v)
      (hreceive : channel.receive (s.sent v.roomId) v.next = some (received, next)) :
      LiveStep isAlphanumeric channel s (.wake i)
        (s.show i {v with next := next, due := v.due + 1})
  | read {i : ℕ} {v : Viewer} (hv : s.viewers[i]? = some v) (hdue : 0 < v.due) :
      LiveStep isAlphanumeric channel s (.read i)
        (s.show i {v with due := v.due - 1, shown := s.world.chat.rooms.get v.roomId})
  | close (i : ℕ) : LiveStep isAlphanumeric channel s (.close i)
        {s with viewers := s.viewers.eraseIdx i}

abbrev LiveRun (isAlphanumeric : Char → Bool) (channel : Updates) :=
  Run (LiveStep isAlphanumeric channel)

section

variable {isAlphanumeric : Char → Bool} {w w' : World} {id : ℕ} {room : ChatRoom}

end

/-! ## Viewers -/

section

variable {isAlphanumeric : Char → Bool} {channel : Updates} {s t u : Live} {id : ℕ}

/-- Viewers look at rooms that are there, from places in their channels. -/
structure Viewing (s : Live) (v : Viewer) : Prop where
  room : ∃ room, s.world.chat.rooms.get v.roomId = some room
  place : v.next ≤ (s.sent v.roomId).length

theorem length_sentAfter (sent : ℕ → List Unit) (updates : List ℕ) (id : ℕ) :
    (sentAfter sent updates id).length = (sent id).length + updates.count id := by
  simp [sentAfter]

theorem sentAfter_quiet {sent : ℕ → List Unit} {updates : List ℕ} {id : ℕ} (h : id ∉ updates) :
    sentAfter sent updates id = sent id := by
  simp [sentAfter, List.count_eq_zero_of_not_mem h]

/-- The rooms of a viewer's world keep their identities. -/
structure KeepsRooms (u s : Live) : Prop where
  fresh : Fresh s.world
  rooms : ∀ id room, u.world.chat.rooms.get id = some room →
    ∃ room', s.world.chat.rooms.get id = some room'
  sent : ∀ id, (u.sent id).length ≤ (s.sent id).length

theorem LiveStep.follows {event : LiveEvent} (hstep : LiveStep isAlphanumeric channel s event t)
    (hfresh : Fresh s.world) : KeepsRooms s t := by
  have hsame : t.world = s.world → t.sent = s.sent → KeepsRooms s t := fun hworld hsent =>
    ⟨hworld ▸ hfresh, fun id room hroom => ⟨room, hworld ▸ hroom⟩, fun id => by rw [hsent]⟩
  cases hstep with
  | op hchat =>
      obtain ⟨hfresh', hextends⟩ := hchat.fresh hfresh
      refine ⟨hfresh', fun id room hroom => ?_, fun id => ?_⟩
      · obtain ⟨room', hroom', -⟩ := hextends.kept id room hroom
        exact ⟨room', hroom'⟩
      · rw [length_sentAfter]
        exact Nat.le_add_right _ _
  | subscribe hroom => exact hsame rfl rfl
  | wake hv hreceive => exact hsame rfl rfl
  | read hv hdue => exact hsame rfl rfl
  | close i => exact hsame rfl rfl

/-- What is known of a viewer: its place, and if nothing is left for it to read, when its
last reading was. -/
def Informed (isAlphanumeric : Char → Bool) (channel : Updates) (s₀ : Live)
    (past : List LiveEvent) (s : Live) (v : Viewer) : Prop :=
  Viewing s v ∧ (v.due = 0 → (s.sent v.roomId).length ≤ v.next →
    ∃ before later u room, past = before ++ later ∧ LiveRun isAlphanumeric channel s₀ before u ∧
      LiveRun isAlphanumeric channel u later s ∧ u.world.chat.rooms.get v.roomId = some room ∧
      v.shown = some room ∧ u.sent v.roomId = s.sent v.roomId)

/-- A step that sends nothing to a viewer and leaves it alone. -/
theorem Informed.unsent {s₀ : Live} {past : List LiveEvent} {event : LiveEvent} {v : Viewer}
    (h : Informed isAlphanumeric channel s₀ past s v)
    (hstep : LiveStep isAlphanumeric channel s event t) (hfresh : Fresh s.world)
    (hsent : t.sent v.roomId = s.sent v.roomId) :
    Informed isAlphanumeric channel s₀ (past ++ [event]) t v := by
  have hfollows := hstep.follows hfresh
  obtain ⟨⟨⟨room, hroom⟩, hplace⟩, hread⟩ := h
  refine ⟨⟨hfollows.rooms _ room hroom, hplace.trans (hfollows.sent _)⟩, fun hdue hend => ?_⟩
  rw [hsent] at hend
  obtain ⟨before, later, u, found, rfl, hbefore, hlater, hfound, hshown, hsame⟩ :=
    hread hdue hend
  exact ⟨before, later ++ [event], u, found, List.append_assoc _ _ _, hbefore, hlater.snoc hstep,
    hfound, hshown, hsame.trans hsent.symm⟩

/-- An update leaves something to be read for every viewer of the room. -/
theorem Informed.op {s₀ : Live} {past : List LiveEvent} {op : ChatOp} {w : World} {v : Viewer}
    (h : Informed isAlphanumeric channel s₀ past s v)
    (hstep : ChatStep isAlphanumeric s.world op w) (hfresh : Fresh s.world) :
    Informed isAlphanumeric channel s₀ (past ++ [.op op])
      ⟨w, sentAfter s.sent (op.updates isAlphanumeric s.world), s.viewers⟩ v := by
  by_cases hupdate : v.roomId ∈ op.updates isAlphanumeric s.world
  · have hlive : LiveStep isAlphanumeric channel s (.op op)
        ⟨w, sentAfter s.sent (op.updates isAlphanumeric s.world), s.viewers⟩ := .op hstep
    have hfollows := hlive.follows hfresh
    obtain ⟨⟨⟨room, hroom⟩, hplace⟩, -⟩ := h
    refine ⟨⟨hfollows.rooms _ room hroom, hplace.trans (hfollows.sent _)⟩, fun _ hend => ?_⟩
    have hgrown := List.count_pos_iff.mpr hupdate
    simp only [length_sentAfter] at hend
    omega
  · exact h.unsent (.op hstep) hfresh (sentAfter_quiet hupdate)

@[simp] theorem Live.show_sent (s : Live) (i : ℕ) (v : Viewer) : (s.show i v).sent = s.sent := rfl

end

end NormaHarness.Chat
