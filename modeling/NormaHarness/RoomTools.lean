import NormaHarness.ChatContext
import NormaHarness.MediaUrls
import NormaHarness.Relays

/-!
# The Resident of the room tools

Two of its tools are answered by `chat.rooms`: their requests are forwarded under
names drawn from one counter, here a natural number (`CounterBounds` compares it with
64 bits). The other two are answered at once, from the tool catalog and from the media
stores. The worker handles one message after the other, so its tables need no lock.
-/
namespace NormaHarness.RoomTools
open Std Identifiers Contracts JsonValues LlmProtocol ToolProtocol Media Chat

/-- What the two relayed tools have in common. An answer is given under the name of its
query. -/
structure RelayedTool (Request Query Result : Type) where
  requestKind : MessageKind
  toolResultKind : MessageKind
  queryKind : MessageKind
  resultKind : MessageKind
  request : Codec Request
  query : Codec Query
  result : Codec Result
  relay : Relays.Relay ResidentKey String Request Query Result
  answer : RoomStore → Query → Option Result
  kinds_ne : requestKind ≠ resultKind
  answer_key : ∀ (rooms : RoomStore) (request : Request) (source : ResidentKey) (name : String)
    (answered : Result), answer rooms (relay.forward request source name) = some answered →
      relay.key answered = name

/-- A relay name: a label and the counter. -/
def relayName (label : String) (n : ℕ) : String := label ++ n.repr

theorem relayName_injective (label : String) : Function.Injective (relayName label) := by
  intro a b h
  have hlist := congrArg String.toList h
  simp only [relayName, String.toList_append, List.append_cancel_left_eq] at hlist
  exact Nat.repr_injective (String.toList_injective hlist)

def roomMembersRelay :
    Relays.Relay ResidentKey String RoomMembersToolRequest RoomMembersQuery RoomMembersResult where
  tag := RoomMembersToolRequest.callId
  refusal request :=
    if Text.isBlank request.callId ∨ request.roomId = 0 then
      some (.failed request "invalid or duplicate room-members request")
    else none
  failed := .failed
  forward request source name := ⟨name, request.roomId, source.asStr⟩
  name := relayName "members-"
  name_injective := relayName_injective "members-"
  key := RoomMembersResult.callId
  retag result callId := {result with callId := callId}

def chatContextRelay :
    Relays.Relay ResidentKey String ChatContextToolRequest ChatContextQuery ChatContextResult where
  tag := ChatContextToolRequest.callId
  refusal request :=
    if Text.isBlank request.callId ∨ request.roomId = 0 ∨
        request.roomId ∉ request.visibleThrough ∨ ¬(1 ≤ request.limit ∧ request.limit ≤ 200) then
      some (.failed request "invalid chat-context request")
    else none
  failed := .failed
  forward request source name := ⟨{request with callId := name}, source.asStr⟩
  name := relayName "context-"
  name_injective := relayName_injective "context-"
  key := ChatContextResult.callId
  retag result callId := {result with callId := callId}

theorem roomMembersFor_callId (rooms : RoomStore) (query : RoomMembersQuery) :
    (roomMembersFor rooms query).callId = query.callId := by
  unfold roomMembersFor
  split
  · rfl
  · split_ifs
    · rfl
    · rfl

theorem page_callId {request : ChatContextToolRequest} {roomName : String}
    {messages : List LlmContextMessage} {result : ChatContextResult}
    (h : page request roomName messages = some result) :
    result.callId = request.callId ∧ result.roomId = request.roomId := by
  unfold page at h
  split_ifs at h
  · split at h
    · cases h
    · rw [← Option.some.inj h]
      exact ⟨rfl, rfl⟩
  · rw [← Option.some.inj h]
    exact ⟨rfl, rfl⟩

theorem chatContextFor_callId {rooms : RoomStore} {query : ChatContextQuery}
    {result : ChatContextResult} (h : chatContextFor rooms query = some result) :
    result.callId = query.request.callId ∧ result.roomId = query.request.roomId := by
  unfold chatContextFor at h
  split at h
  · rw [← Option.some.inj h]
    exact ⟨rfl, rfl⟩
  · split_ifs at h
    · exact page_callId h
    · rw [← Option.some.inj h]
      exact ⟨rfl, rfl⟩

def roomMembersTool : RelayedTool RoomMembersToolRequest RoomMembersQuery RoomMembersResult where
  requestKind := roomMembersToolRequestKind
  toolResultKind := roomMembersToolResultKind
  queryKind := roomMembersQueryKind
  resultKind := roomMembersResultKind
  request := RoomMembersToolRequest.codec
  query := RoomMembersQuery.codec
  result := RoomMembersResult.codec
  relay := roomMembersRelay
  answer rooms query := some (roomMembersFor rooms query)
  kinds_ne := by decide
  answer_key rooms request source name answered h := by
    rw [← Option.some.inj h]
    exact roomMembersFor_callId rooms _

def chatContextTool : RelayedTool ChatContextToolRequest ChatContextQuery ChatContextResult where
  requestKind := chatContextToolRequestKind
  toolResultKind := chatContextToolResultKind
  queryKind := chatContextQueryKind
  resultKind := chatContextResultKind
  request := ChatContextToolRequest.codec
  query := ChatContextQuery.codec
  result := ChatContextResult.codec
  relay := chatContextRelay
  answer := chatContextFor
  kinds_ne := by decide
  answer_key rooms request source name answered h := (chatContextFor_callId h).1

/-! ## The worker -/

abbrev Pending := ExtTreeMap String (ResidentKey × String)

structure ToolWorker where
  pending : Pending
  pendingContext : Pending
  nextQuery : ℕ
  media : AppMedia

/-- What one message makes the worker send: a query to `chat.rooms`, and replies. -/
structure Sends where
  query : Option FlowMessage
  replies : List (ResidentKey × FlowMessage)

def Sends.nothing : Sends := ⟨none, []⟩

def Sends.reply (target : ResidentKey) (message : FlowMessage) : Sends :=
  ⟨none, [(target, message)]⟩

namespace RelayedTool

variable {Request Query Result : Type} (tool : RelayedTool Request Query Result)

def toolResult (result : Result) : FlowMessage := ⟨tool.toolResultKind, tool.result.encode result⟩

/-- A request of the tool. `route` is the error that sending the query returns, if any. -/
def takeRequest (route : Option RouteError) (source : ResidentKey) (payload : Json)
    (pending : Pending) (nextQuery : ℕ) : Pending × ℕ × Sends :=
  match tool.request.decode payload with
  | none => (pending, nextQuery, .nothing)
  | some request =>
    match tool.relay.refusal request with
    | some refused => (pending, nextQuery, .reply source (tool.toolResult refused))
    | none =>
        let relayId := tool.relay.name nextQuery
        let waiting := pending.insert relayId (source, tool.relay.tag request)
        let query := tool.relay.forward request source relayId
        let flow : FlowMessage := ⟨tool.queryKind, tool.query.encode query⟩
        match route with
        | none => (waiting, nextQuery + 1, ⟨some flow, []⟩)
        | some error =>
            (waiting.erase relayId, nextQuery + 1,
              ⟨some flow, [(source, tool.toolResult (tool.relay.failed request error.message))]⟩)

/-- A result that claims to come from `chat.rooms`. -/
def takeResult (source : ResidentKey) (payload : Json) (pending : Pending) : Pending × Sends :=
  if source ≠ chatRoomsKey then (pending, .nothing)
  else
    match tool.result.decode payload with
    | none => (pending, .nothing)
    | some result =>
      match pending[tool.relay.key result]? with
      | none => (pending, .nothing)
      | some (target, callId) =>
          (pending.erase (tool.relay.key result),
            .reply target (tool.toolResult (tool.relay.retag result callId)))

/-- The answer of `chat.rooms` to a query, which only `tools.rooms` may send. -/
def answerQuery (rooms : RoomStore) (source : ResidentKey) (payload : Json) :
    Option (Query × Result) :=
  if source ≠ toolRoomsKey then none
  else
    match tool.query.decode payload with
    | none => none
    | some query => (tool.answer rooms query).map fun result => (query, result)

end RelayedTool

/-! ## Tools that are answered at once -/

def tool (name description : String) (properties : List (String × Json))
    (required : List (String × Json)) : Json :=
  .obj [("type", .str "function"), ("name", .str name), ("description", .str description),
    ("inputSchema", .obj ([("type", .str "object"), ("properties", .obj properties)] ++ required ++
      [("additionalProperties", .bool false)]))]

def modelToolCatalog : List Json :=
  [tool "read_chat_context"
      ("读取聊天室真实消息。收到房间通知后先调用此工具读取当前消息和相关历史。默认只读当前房间最近 50 条；" ++
        "scope=all 可读你参与的其他普通房间，无痕只读本房间。可用 before_message_id 向前翻页。")
      [("scope", .obj [("type", .str "string"), ("enum", .arr [.str "current", .str "all"]),
        ("description", .str "默认 current；all 包含你参与的其他普通房间")]),
      ("before_message_id", .obj [("type", .str "integer"), ("minimum", .ofNat 1),
        ("description", .str "可选：只返回此消息 ID 之前的消息，用于向前翻页")]),
      ("limit", .obj [("type", .str "integer"), ("minimum", .ofNat 1), ("maximum", .ofNat 200),
        ("description", .str "最多返回的消息数，默认 50")])] [],
    tool "list_group_members"
      "查询当前群聊中的 LLM Resident 成员。仅在当前请求来自群聊时使用。无需参数。" [] [],
    tool "read_resident_memory"
      "按需读取当前 Resident 保存的长期记忆，例如已记录的用户偏好或背景。无痕房间不可用。无需参数。" [] [],
    tool "publish_media"
      ("把生成的 PNG、JPEG、WebP 或 GIF 图片发布为当前聊天的可预览、可下载附件。图片生成后必须调用此工具；" ++
        "只在回复中写文件名不会把文件交给用户。单次回复最多 4 个，每个最多 8 MiB。")
      [("filename", .obj [("type", .str "string")]),
      ("mime_type", .obj [("type", .str "string"), ("enum", .arr [.str "image/png",
        .str "image/jpeg", .str "image/webp", .str "image/gif"])]),
      ("base64", .obj [("type", .str "string"),
        ("description", .str "完整图片文件内容的标准 base64，不包含 data URL 前缀")])]
      [("required", .arr [.str "filename", .str "mime_type", .str "base64"])]]

def answerCatalog (source : ResidentKey) (payload : Json) : Sends :=
  match ToolCatalogRequest.codec.decode payload with
  | none => .nothing
  | some request =>
      .reply source ⟨toolCatalogResultKind,
        ToolCatalogResult.codec.encode ⟨request.requestId, modelToolCatalog⟩⟩

/-- The libraries and file calls that a publication meets. -/
structure PublishEnvironment where
  imaging : Imaging
  pid : ℕ
  faults : FileFaults

def publishMedia (env : PublishEnvironment) (source : ResidentKey) (payload : Json)
    (media : AppMedia) : AppMedia × Sends :=
  match MediaPublishRequest.codec.decode payload with
  | none => (media, .nothing)
  | some request =>
      let (result, media) :=
        if Text.isBlank request.callId then (.error "missing tool call ID", media)
        else
          let (result, store, files) := MediaStore.saveBase64 env.imaging env.pid env.faults
            request.filename request.mimeType request.base64 (media.storeOf request.incognito)
            media.files
          (result, media.withStore request.incognito store files)
      let published : MediaPublishResult := match result with
        | .ok asset => ⟨request.callId, some asset, none⟩
        | .error error => ⟨request.callId, none, some error⟩
      (media, .reply source ⟨mediaPublishResultKind, MediaPublishResult.codec.encode published⟩)

/-- One turn of the loop of `run`. -/
def ToolWorker.receive (env : PublishEnvironment) (route : Option RouteError) (worker : ToolWorker)
    (routed : RoutedMessage) : ToolWorker × Sends :=
  let kind := routed.message.kind
  let payload := routed.message.payload
  if kind = toolCatalogRequestKind then (worker, answerCatalog routed.source payload)
  else if kind = mediaPublishRequestKind then
    let (media, sends) := publishMedia env routed.source payload worker.media
    ({worker with media := media}, sends)
  else if kind = roomMembersTool.requestKind then
    let (pending, nextQuery, sends) := roomMembersTool.takeRequest route routed.source payload
      worker.pending worker.nextQuery
    ({worker with pending := pending, nextQuery := nextQuery}, sends)
  else if kind = roomMembersTool.resultKind then
    let (pending, sends) := roomMembersTool.takeResult routed.source payload worker.pending
    ({worker with pending := pending}, sends)
  else if kind = chatContextTool.requestKind then
    let (pending, nextQuery, sends) := chatContextTool.takeRequest route routed.source payload
      worker.pendingContext worker.nextQuery
    ({worker with pendingContext := pending, nextQuery := nextQuery}, sends)
  else if kind = chatContextTool.resultKind then
    let (pending, sends) := chatContextTool.takeResult routed.source payload worker.pendingContext
    ({worker with pendingContext := pending}, sends)
  else (worker, .nothing)

/-- What `chat.rooms` replies to a message of `tools.rooms`. -/
def chatReply (rooms : RoomStore) (routed : RoutedMessage) : Option FlowMessage :=
  let kind := routed.message.kind
  let payload := routed.message.payload
  if kind = roomMembersTool.queryKind then
    (roomMembersTool.answerQuery rooms routed.source payload).map fun answered =>
      ⟨roomMembersTool.resultKind, roomMembersTool.result.encode answered.2⟩
  else if kind = chatContextTool.queryKind then
    (chatContextTool.answerQuery rooms routed.source payload).map fun answered =>
      ⟨chatContextTool.resultKind, chatContextTool.result.encode answered.2⟩
  else none

end NormaHarness.RoomTools
