import NormaHarness.ChatRooms
import NormaHarness.ToolProtocol

/-!
# What a member may read

Two functions select messages for a member of a room, and they were written
separately: one makes the context of a turn, the other answers a query of the
context tool. The answer to a query depends on nothing outside the rooms that its
requester is authorised to read.
-/
namespace NormaHarness.Chat
open Std Identifiers Contracts LlmProtocol ToolProtocol

/-- `sort_by_key(|message| message.id)`, a stable sort. -/
def sortById (messages : List LlmContextMessage) : List LlmContextMessage :=
  messages.insertionSort fun a b => a.id ≤ b.id

/-! ## The context of a turn -/

def turnOrigin (room : ChatRoom) : LlmOrigin :=
  ⟨if room.members.length = 1 then .solo else .group, room.id, room.name, room.incognito⟩

/-- A room that a turn of `member` in room `id` is shown. -/
def inTurn (id : ℕ) (member : String) (incognito : Bool) (room : ChatRoom) : Bool :=
  room.members.contains member && if incognito then room.id == id else !room.incognito

/-- In its own room a round may be limited to the messages up to its start. -/
def upToRound (id : ℕ) (roundStart : Option ℕ) (room : ChatRoom) (m : ChatMessage) : Bool :=
  room.id != id || roundStart.all fun start => decide (m.id ≤ start)

def turnMessages (id : ℕ) (member : String) (incognito : Bool) (roundStart : Option ℕ)
    (room : ChatRoom) : List LlmContextMessage :=
  if inTurn id member incognito room then
    (room.messages.filter (upToRound id roundStart room)).map (contextMessage room)
  else []

def turnContext (s : RoomStore) (id : ℕ) (member : String) (incognito : Bool)
    (roundStart : Option ℕ) : List LlmContextMessage :=
  sortById (s.values.flatMap (turnMessages id member incognito roundStart))

/-- The part of `ask` under the room lock. -/
def turnSnapshot (s : RoomStore) (id : ℕ) (member : String) (roundStart : Option ℕ) :
    Except ChatError (LlmOrigin × List LlmContextMessage) :=
  match s.get id with
  | none => .error .notFound
  | some room => .ok (turnOrigin room, turnContext s id member room.incognito roundStart)

/-- The request that `ask` sends. -/
def askRequest (requestId prompt : String) (turnKind : LlmChatTurnKind)
    (snapshot : LlmOrigin × List LlmContextMessage) : LlmTurnRequest where
  requestId := requestId
  prompt := prompt
  origin := some snapshot.1
  sourceResident := none
  chatTurnKind := some turnKind
  threadId := none
  context := snapshot.2

/-! ## Queries -/

/-- `and_modify` or `or_insert` for the entry of one room. -/
def raised (last : Option ℕ) (id : ℕ) : ℕ :=
  match last with
  | some last => max last id
  | none => id

/-- The bounds that `invoke_chat_context_tool` reads from the context of its turn: the
largest message identity for each room. -/
def visibleThrough (context : List LlmContextMessage) : ExtTreeMap ℕ ℕ :=
  context.foldl (fun visible event =>
    visible.insert event.roomId (raised visible[event.roomId]? event.id)) ∅

/-- The request that `invoke_chat_context_tool` sends for a turn with this origin. -/
def contextToolRequest (turn : LlmTurnRequest) (origin : LlmOrigin) (callId : String)
    (scopeAll : Bool) (beforeMessageId : Option ℕ) (limit : ℕ) : ChatContextToolRequest :=
  ⟨callId, origin.roomId, visibleThrough turn.context, scopeAll, beforeMessageId, limit⟩

def roomMembersFor (s : RoomStore) (query : RoomMembersQuery) : RoomMembersResult :=
  let refused : RoomMembersResult := ⟨query.callId, query.roomId, none, [],
    some "group not found or requester is not a member"⟩
  match s.get query.roomId with
  | none => refused
  | some room =>
    if 1 < room.members.length ∧ query.requester ∈ room.members then
      ⟨query.callId, query.roomId, some room.name, room.members, none⟩
    else refused

/-- The rooms a query reads, given whether its own room is incognito. -/
def inScope (query : ChatContextQuery) (incognito : Bool) (room : ChatRoom) : Bool :=
  room.members.contains query.requester &&
    query.request.visibleThrough.contains room.id &&
    (query.request.scopeAll || room.id == query.request.roomId) &&
    if incognito then room.id == query.request.roomId else !room.incognito

def inPage (request : ChatContextToolRequest) (last : ℕ) (m : ChatMessage) : Bool :=
  decide (m.id ≤ last) && request.beforeMessageId.all fun before => decide (m.id < before)

def queryMessages (query : ChatContextQuery) (incognito : Bool) (room : ChatRoom) :
    List LlmContextMessage :=
  if inScope query incognito room then
    match query.request.visibleThrough[room.id]? with
    | none => []
    | some last => (room.messages.filter (inPage query.request last)).map (contextMessage room)
  else []

/-- The messages that match a query, before the limit. -/
def matching (s : RoomStore) (query : ChatContextQuery) (incognito : Bool) :
    List LlmContextMessage :=
  sortById (s.values.flatMap (queryMessages query incognito))

/-- The last messages up to the limit. Without a limit to fill, the code indexes an
empty list and panics. -/
def page (request : ChatContextToolRequest) (roomName : String)
    (messages : List LlmContextMessage) : Option ChatContextResult :=
  if request.limit < messages.length then
    match messages.drop (messages.length - request.limit) with
    | [] => none
    | first :: rest =>
        some ⟨request.callId, request.roomId, some roomName, first :: rest, true, some first.id,
          none⟩
  else some ⟨request.callId, request.roomId, some roomName, messages, false, none, none⟩

def chatContextFor (s : RoomStore) (query : ChatContextQuery) : Option ChatContextResult :=
  let refused := ChatContextResult.failed query.request
    "room not found or requester is not a member"
  match s.get query.request.roomId with
  | none => some refused
  | some current =>
    if query.requester ∈ current.members then
      page query.request current.name (matching s query current.incognito)
    else some refused

end NormaHarness.Chat
