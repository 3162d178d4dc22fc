import NormaHarness.LlmProtocol

/-!
# The protocol of the room tools

A model resident sends its tool requests to `tools.rooms`, which forwards them as
queries to `chat.rooms` and hands the results back. The queries carry the name of
the requester that the message flow authenticated.
-/
namespace NormaHarness.ToolProtocol
open Std Identifiers Contracts JsonValues LlmProtocol Media

def toolRoomsKey : ResidentKey := ⟨"tools.rooms", by decide⟩

def roomMembersToolRequestKind : MessageKind := ⟨"tool.room_members.request", by decide⟩
def roomMembersToolResultKind : MessageKind := ⟨"tool.room_members.result", by decide⟩
def roomMembersQueryKind : MessageKind := ⟨"chat.room_members.query", by decide⟩
def roomMembersResultKind : MessageKind := ⟨"chat.room_members.result", by decide⟩
def chatContextToolRequestKind : MessageKind := ⟨"tool.chat_context.request", by decide⟩
def chatContextToolResultKind : MessageKind := ⟨"tool.chat_context.result", by decide⟩
def chatContextQueryKind : MessageKind := ⟨"chat.context.query", by decide⟩
def chatContextResultKind : MessageKind := ⟨"chat.context.result", by decide⟩

def toolCatalogRequestKind : MessageKind := ⟨"tool.catalog.request", by decide⟩
def toolCatalogResultKind : MessageKind := ⟨"tool.catalog.result", by decide⟩
def mediaPublishRequestKind : MessageKind := ⟨"tool.media.publish.request", by decide⟩
def mediaPublishResultKind : MessageKind := ⟨"tool.media.publish.result", by decide⟩

structure ToolCatalogRequest where
  requestId : String
  deriving DecidableEq, Repr

structure ToolCatalogResult where
  requestId : String
  tools : List Json

structure MediaPublishRequest where
  callId : String
  filename : String
  mimeType : String
  base64 : String
  incognito : Bool
  deriving DecidableEq, Repr

structure MediaPublishResult where
  callId : String
  asset : Option MediaAsset
  error : Option String
  deriving DecidableEq, Repr

structure RoomMembersToolRequest where
  callId : String
  roomId : ℕ
  deriving DecidableEq, Repr

structure RoomMembersQuery where
  callId : String
  roomId : ℕ
  requester : String
  deriving DecidableEq, Repr

structure RoomMembersResult where
  callId : String
  roomId : ℕ
  roomName : Option String
  members : List String
  error : Option String
  deriving DecidableEq, Repr

def RoomMembersResult.failed (request : RoomMembersToolRequest) (error : String) :
    RoomMembersResult :=
  ⟨request.callId, request.roomId, none, [], some error⟩

structure ChatContextToolRequest where
  callId : String
  roomId : ℕ
  visibleThrough : ExtTreeMap ℕ ℕ
  scopeAll : Bool
  beforeMessageId : Option ℕ
  limit : ℕ

structure ChatContextQuery where
  request : ChatContextToolRequest
  requester : String

structure ChatContextResult where
  callId : String
  roomId : ℕ
  roomName : Option String
  messages : List LlmContextMessage
  hasEarlier : Bool
  nextBeforeMessageId : Option ℕ
  error : Option String
  deriving DecidableEq, Repr

def ChatContextResult.failed (request : ChatContextToolRequest) (error : String) :
    ChatContextResult :=
  ⟨request.callId, request.roomId, none, [], false, none, some error⟩

/-! ## Encodings -/

def ToolCatalogRequest.codec : Codec ToolCatalogRequest where
  encode r := .obj [member "request_id" .string r.requestId]
  decode v := do
    let f ← Fields.ofJson 1 v
    let requestId ← f.required 0 "request_id" .string
    pure ⟨requestId⟩
  decode_encode r := by
    simp [Fields.ofJson, Fields.required, Fields.find, member, Codec.decode_encode]

def ToolCatalogResult.codec : Codec ToolCatalogResult where
  encode r := .obj [member "request_id" .string r.requestId, member "tools" (.list .json) r.tools]
  decode v := do
    let f ← Fields.ofJson 2 v
    let requestId ← f.required 0 "request_id" .string
    let tools ← f.required 1 "tools" (.list .json)
    pure ⟨requestId, tools⟩
  decode_encode r := by
    simp [Fields.ofJson, Fields.required, Fields.find, member, List.lookup, Codec.decode_encode]

def MediaPublishRequest.codec : Codec MediaPublishRequest where
  encode r := .obj [member "call_id" .string r.callId, member "filename" .string r.filename,
    member "mime_type" .string r.mimeType, member "base64" .string r.base64,
    member "incognito" .bool r.incognito]
  decode v := do
    let f ← Fields.ofJson 5 v
    let callId ← f.required 0 "call_id" .string
    let filename ← f.required 1 "filename" .string
    let mimeType ← f.required 2 "mime_type" .string
    let base64 ← f.required 3 "base64" .string
    let incognito ← f.withDefault 4 "incognito" .bool false
    pure ⟨callId, filename, mimeType, base64, incognito⟩
  decode_encode r := by
    simp [Fields.ofJson, Fields.required, Fields.withDefault, Fields.find, member, List.lookup,
      Codec.decode_encode]

def MediaPublishResult.codec : Codec MediaPublishResult where
  encode r := .obj [member "call_id" .string r.callId,
    ("asset", encodeNullable MediaAsset.codec r.asset),
    ("error", encodeNullable .string r.error)]
  decode v := do
    let f ← Fields.ofJson 3 v
    let callId ← f.required 0 "call_id" .string
    let asset ← f.optional 1 "asset" MediaAsset.codec
    let error ← f.optional 2 "error" .string
    pure ⟨callId, asset, error⟩
  decode_encode r := by
    have hasset : MediaAsset.codec.NonNull := fun a => by simp [MediaAsset.codec]
    simp only [Fields.ofJson, Option.bind_eq_bind, Option.bind_some]
    rw [Fields.required_encode (a := r.callId) (by simp [Fields.find, member]),
      Fields.optional_encodeNullable hasset (a := r.asset)
        (by simp [Fields.find, member, List.lookup]),
      Fields.optional_encodeNullable Codec.string_nonNull (a := r.error)
        (by simp [Fields.find, member, List.lookup])]
    rfl

def RoomMembersToolRequest.codec : Codec RoomMembersToolRequest where
  encode r := .obj [member "call_id" .string r.callId, member "room_id" .u64 r.roomId]
  decode v := do
    let f ← Fields.ofJson 2 v
    let callId ← f.required 0 "call_id" .string
    let roomId ← f.required 1 "room_id" .u64
    pure ⟨callId, roomId⟩
  decode_encode r := by
    simp [Fields.ofJson, Fields.required, Fields.find, member, List.lookup, Codec.decode_encode]

def RoomMembersQuery.codec : Codec RoomMembersQuery where
  encode q := .obj [member "call_id" .string q.callId, member "room_id" .u64 q.roomId,
    member "requester" .string q.requester]
  decode v := do
    let f ← Fields.ofJson 3 v
    let callId ← f.required 0 "call_id" .string
    let roomId ← f.required 1 "room_id" .u64
    let requester ← f.required 2 "requester" .string
    pure ⟨callId, roomId, requester⟩
  decode_encode q := by
    simp [Fields.ofJson, Fields.required, Fields.find, member, List.lookup, Codec.decode_encode]

def RoomMembersResult.codec : Codec RoomMembersResult where
  encode r := .obj [member "call_id" .string r.callId, member "room_id" .u64 r.roomId,
    ("room_name", encodeNullable .string r.roomName),
    member "members" (.list .string) r.members, ("error", encodeNullable .string r.error)]
  decode v := do
    let f ← Fields.ofJson 5 v
    let callId ← f.required 0 "call_id" .string
    let roomId ← f.required 1 "room_id" .u64
    let roomName ← f.optional 2 "room_name" .string
    let members ← f.required 3 "members" (.list .string)
    let error ← f.optional 4 "error" .string
    pure ⟨callId, roomId, roomName, members, error⟩
  decode_encode r := by
    simp only [Fields.ofJson, Option.bind_eq_bind, Option.bind_some]
    rw [Fields.required_encode (a := r.callId) (by simp [Fields.find, member]),
      Fields.required_encode (a := r.roomId) (by simp [Fields.find, member, List.lookup]),
      Fields.optional_encodeNullable Codec.string_nonNull (a := r.roomName)
        (by simp [Fields.find, member, List.lookup]),
      Fields.required_encode (a := r.members) (by simp [Fields.find, member, List.lookup]),
      Fields.optional_encodeNullable Codec.string_nonNull (a := r.error)
        (by simp [Fields.find, member, List.lookup])]
    rfl

def ChatContextToolRequest.codec : Codec ChatContextToolRequest where
  encode r := .obj [member "call_id" .string r.callId, member "room_id" .u64 r.roomId,
    member "visible_through" (.natMap .u64) r.visibleThrough,
    member "scope_all" .bool r.scopeAll,
    ("before_message_id", encodeNullable .u64 r.beforeMessageId), member "limit" .u64 r.limit]
  decode v := do
    let f ← Fields.ofJson 6 v
    let callId ← f.required 0 "call_id" .string
    let roomId ← f.required 1 "room_id" .u64
    let visibleThrough ← f.required 2 "visible_through" (.natMap .u64)
    let scopeAll ← f.withDefault 3 "scope_all" .bool false
    let beforeMessageId ← f.optional 4 "before_message_id" .u64
    let limit ← f.required 5 "limit" .u64
    pure ⟨callId, roomId, visibleThrough, scopeAll, beforeMessageId, limit⟩
  decode_encode r := by
    simp only [Fields.ofJson, Option.bind_eq_bind, Option.bind_some]
    rw [Fields.required_encode (a := r.callId) (by simp [Fields.find, member]),
      Fields.required_encode (a := r.roomId) (by simp [Fields.find, member, List.lookup]),
      Fields.required_encode (a := r.visibleThrough) (by simp [Fields.find, member, List.lookup]),
      Fields.withDefault_encode (a := r.scopeAll) (by simp [Fields.find, member, List.lookup]),
      Fields.optional_encodeNullable Codec.u64_nonNull (a := r.beforeMessageId)
        (by simp [Fields.find, member, List.lookup]),
      Fields.required_encode (a := r.limit) (by simp [Fields.find, member, List.lookup])]
    rfl

def ChatContextQuery.codec : Codec ChatContextQuery where
  encode q := .obj [member "request" ChatContextToolRequest.codec q.request,
    member "requester" .string q.requester]
  decode v := do
    let f ← Fields.ofJson 2 v
    let request ← f.required 0 "request" ChatContextToolRequest.codec
    let requester ← f.required 1 "requester" .string
    pure ⟨request, requester⟩
  decode_encode q := by
    simp [Fields.ofJson, Fields.required, Fields.find, member, List.lookup, Codec.decode_encode]

def ChatContextResult.codec : Codec ChatContextResult where
  encode r := .obj [member "call_id" .string r.callId, member "room_id" .u64 r.roomId,
    ("room_name", encodeNullable .string r.roomName),
    member "messages" (.list LlmContextMessage.codec) r.messages,
    member "has_earlier" .bool r.hasEarlier,
    ("next_before_message_id", encodeNullable .u64 r.nextBeforeMessageId),
    ("error", encodeNullable .string r.error)]
  decode v := do
    let f ← Fields.ofJson 7 v
    let callId ← f.required 0 "call_id" .string
    let roomId ← f.required 1 "room_id" .u64
    let roomName ← f.optional 2 "room_name" .string
    let messages ← f.required 3 "messages" (.list LlmContextMessage.codec)
    let hasEarlier ← f.required 4 "has_earlier" .bool
    let nextBeforeMessageId ← f.optional 5 "next_before_message_id" .u64
    let error ← f.optional 6 "error" .string
    pure ⟨callId, roomId, roomName, messages, hasEarlier, nextBeforeMessageId, error⟩
  decode_encode r := by
    simp only [Fields.ofJson, Option.bind_eq_bind, Option.bind_some]
    rw [Fields.required_encode (a := r.callId) (by simp [Fields.find, member]),
      Fields.required_encode (a := r.roomId) (by simp [Fields.find, member, List.lookup]),
      Fields.optional_encodeNullable Codec.string_nonNull (a := r.roomName)
        (by simp [Fields.find, member, List.lookup]),
      Fields.required_encode (a := r.messages) (by simp [Fields.find, member, List.lookup]),
      Fields.required_encode (a := r.hasEarlier) (by simp [Fields.find, member, List.lookup]),
      Fields.optional_encodeNullable Codec.u64_nonNull (a := r.nextBeforeMessageId)
        (by simp [Fields.find, member, List.lookup]),
      Fields.optional_encodeNullable Codec.string_nonNull (a := r.error)
        (by simp [Fields.find, member, List.lookup])]
    rfl

end NormaHarness.ToolProtocol
