import NormaHarness.LlmProtocol
import NormaHarness.OrderedMaps

/-!
# Rooms and messages

A room store keeps every room under its own identity, and the type says so. The
update channel of a room only wakes viewers and is left out. A message carries its
attachments twice: as the views that viewers and snapshots see, and as the assets
that models and the media registry need.
-/
namespace NormaHarness.Chat
open Std Identifiers Contracts LlmProtocol Media

structure ChatMessage where
  id : ℕ
  role : String
  author : String
  text : String
  createdAt : ℕ
  attachments : List MediaView
  media : List MediaAsset
  deriving DecidableEq, Repr

structure ChatRoom where
  id : ℕ
  name : String
  members : List String
  messages : List ChatMessage
  busy : Bool
  activeMember : Option String
  sleeping : Bool
  sleepGeneration : ℕ
  lastActivityMs : ℕ
  archived : Bool
  incognito : Bool
  deriving DecidableEq, Repr

inductive ChatError where
  | invalid (message : String)
  | notFound
  | busy
  | internal (message : String)
  deriving DecidableEq, Repr

def ChatError.message : ChatError → String
  | .invalid message => message
  | .notFound => "room not found"
  | .busy => "this room is already processing a message"
  | .internal message => message

/-- The message as a model sees it, labelled with its room. -/
def contextMessage (room : ChatRoom) (m : ChatMessage) : LlmContextMessage :=
  ⟨m.id, room.id, room.name, m.role, m.author, m.text, m.createdAt, m.media⟩

/-! ## The room store -/

structure RoomStore where
  rooms : ExtTreeMap ℕ ChatRoom
  keyed : ∀ (id : ℕ) (room : ChatRoom), rooms[id]? = some room → room.id = id

namespace RoomStore

def empty : RoomStore := ⟨∅, fun id room h => by simp at h⟩

def get (s : RoomStore) (id : ℕ) : Option ChatRoom := s.rooms[id]?

def put (s : RoomStore) (room : ChatRoom) : RoomStore where
  rooms := s.rooms.insert room.id room
  keyed id other h := by
    simp only [ExtTreeMap.getElem?_insert, LawfulEqOrd.compare_eq_iff_eq] at h
    split_ifs at h with hid
    · obtain rfl := Option.some.inj h
      exact hid
    · exact s.keyed id other h

/-- The rooms in the order of their identities. -/
def values (s : RoomStore) : List ChatRoom := s.rooms.toList.map Prod.snd

theorem id_of_get {s : RoomStore} {id : ℕ} {room : ChatRoom} (h : s.get id = some room) :
    room.id = id := s.keyed id room h

@[simp] theorem get_empty (id : ℕ) : empty.get id = none := by
  simp [empty, get]

theorem get_put (s : RoomStore) (room : ChatRoom) (id : ℕ) :
    (s.put room).get id = if room.id = id then some room else s.get id := by
  simp only [get, put, ExtTreeMap.getElem?_insert, LawfulEqOrd.compare_eq_iff_eq]

@[simp] theorem get_put_self (s : RoomStore) (room : ChatRoom) :
    (s.put room).get room.id = some room := by
  rw [get_put, if_pos rfl]

theorem get_put_ne {s : RoomStore} {room : ChatRoom} {id : ℕ} (h : room.id ≠ id) :
    (s.put room).get id = s.get id := by
  rw [get_put, if_neg h]

theorem ext {s t : RoomStore} (h : ∀ id, s.get id = t.get id) : s = t := by
  cases s with
  | mk rooms keyed =>
      cases t with
      | mk rooms' keyed' =>
          have hrooms : rooms = rooms' := ExtTreeMap.ext_getElem? fun id => h id
          subst hrooms
          rfl

theorem mem_values {s : RoomStore} {room : ChatRoom} :
    room ∈ s.values ↔ s.get room.id = some room := by
  unfold values
  constructor
  · intro h
    obtain ⟨⟨id, other⟩, hmem, rfl⟩ := List.mem_map.mp h
    have hget : s.get id = some other := ExtTreeMap.mem_toList_iff_getElem?_eq_some.mp hmem
    rw [id_of_get hget]
    exact hget
  · intro h
    exact List.mem_map.mpr ⟨(room.id, room), ExtTreeMap.mem_toList_iff_getElem?_eq_some.mpr h, rfl⟩

/-- Walking the rooms and collecting from each is a listing of the underlying map. -/
theorem flatMap_values {γ : Type} (s : RoomStore) (f : ChatRoom → List γ) :
    s.values.flatMap f = OrderedMaps.listing s.rooms fun _ room => f room := by
  unfold values OrderedMaps.listing
  rw [List.flatMap_map]

end RoomStore

/-! ## Clients' limits -/

def validRoomName (name : String) : Except ChatError String :=
  let name := Text.trim name
  if name.isEmpty || 80 < name.length then
    .error (.invalid "room name must have 1–80 characters")
  else .ok name

def validMembers (members : List ResidentKey) : Except ChatError Unit :=
  if members.isEmpty || 8 < members.length then
    .error (.invalid "select 1–8 LLM Residents")
  else if members.toFinset.card ≠ members.length then
    .error (.invalid "each Resident can join only once")
  else .ok ()

end NormaHarness.Chat
