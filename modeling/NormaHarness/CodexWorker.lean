import NormaHarness.LlmProtocol

/-!
# The worker of a Codex resident

One message is handled completely before the next is taken. The conversation of a
message is chosen from its raw payload, before the payload is decoded. What the
app-server does in a turn, and what the JSON library writes, is chosen by the
environment; the turns that the worker hands to the app-server are recorded.
-/
namespace NormaHarness.CodexWorker
open Std Identifiers Contracts JsonValues LlmProtocol

inductive AppServerError where
  | io (error : String)
  | json (error : String)
  | protocol (error : String)
  deriving DecidableEq, Repr

def AppServerError.message : AppServerError → String
  | .io error => s!"Codex app-server I/O failed: {error}"
  | .json error => s!"Codex app-server sent invalid JSON: {error}"
  | .protocol error => s!"Codex app-server protocol error: {error}"

def AppServerError.isResumeFailure : AppServerError → Bool
  | .protocol error => "thread/resume:".toList.isPrefixOf error.toList
  | _ => false

structure ConversationState where
  threadId : Option String
  deriving DecidableEq, Repr

/-- What the memory manager answers when the worker asks it. -/
structure MemoryReads where
  unprocessed : ℕ → List LlmContextMessage → List LlmContextMessage
  knownKeys : List String

/-- One message's environment: the JSON library, the start of the app-server when it
is not running, and the outcome of a turn and of its one repetition. -/
structure Environment where
  decodeError : Json → String
  toText : Json → String
  memory : Option MemoryReads
  start : Except AppServerError Unit
  turn : LlmTurnRequest → Except AppServerError LlmTurnResult
  repeated : LlmTurnRequest → Except AppServerError LlmTurnResult

structure Worker where
  serverRunning : Bool
  conversations : ExtTreeMap ℕ ConversationState
  privateRooms : Finset ℕ

def chatTurnNotice (toText : Json → String) (origin : LlmOrigin) (kind : LlmChatTurnKind)
    (trigger : String) : String :=
  let place := if origin.kind = .group then "群聊" else "私聊"
  let action := match kind with
    | .direct => "有一条需要你回复的消息。"
    | .contribution => "有一条需要你独立回复的消息；不要假设其他成员已回答。"
    | .mention => trigger
  let routing :=
    if origin.kind = .group then
      "若答案已完整，请以 @你 开头直接回答用户；需要其他成员继续时，可以 @对应成员。" ++
        "除非确实需要继续处理，否则不要随意 @。"
    else ""
  s!"{place} {toText (.str origin.roomName)}（房间 ID {origin.roomId}）{action}" ++
    s!"请先调用 read_chat_context 读取本房间的消息，再作答。{routing}"

structure Handled where
  result : LlmTurnResult
  serverRunning : Bool
  conversation : ConversationState
  executed : List LlmTurnRequest

/-- The request names a thread other than the one its conversation already has. -/
def conflicting (request : LlmTurnRequest) (conversation : ConversationState) : Bool :=
  match request.threadId, conversation.threadId with
  | some requested, some current => current != requested
  | _, _ => false

def turnRequest (toText : Json → String) (request : LlmTurnRequest)
    (conversation : ConversationState) : LlmTurnRequest :=
  {request with
    threadId := match conversation.threadId with
      | some current => some current
      | none => request.threadId
    prompt := match request.origin, request.chatTurnKind with
      | some origin, some kind => chatTurnNotice toText origin kind request.prompt
      | _, _ => request.prompt}

def rebuilt (turn : LlmTurnRequest) : LlmTurnRequest :=
  {turn with
    threadId := none
    prompt := "之前的模型会话无法恢复。请先调用 read_chat_context 读取当前聊天室的历史，" ++
      s!"再继续回答当前请求。\n\n{turn.prompt}"}

/-- The end of `handle`: a result may name the thread, an error stops the app-server. -/
def concluded (requestId : String) (conversation : ConversationState)
    (executed : List LlmTurnRequest) : Except AppServerError LlmTurnResult → Handled
  | .ok result =>
      ⟨result, true, match result.threadId with
        | some thread => ⟨some thread⟩
        | none => conversation, executed⟩
  | .error error => ⟨.failed requestId error.message, false, conversation, executed⟩

/-- The app-server is running: the turn, repeated once without its thread when that
thread cannot be resumed. -/
def runTurns (env : Environment) (requestId : String) (turn : LlmTurnRequest)
    (conversation : ConversationState) : Handled :=
  match env.turn turn with
  | .error error =>
      if error.isResumeFailure then
        concluded requestId ⟨none⟩ [turn, rebuilt turn] (env.repeated (rebuilt turn))
      else concluded requestId conversation [turn] (.error error)
  | .ok result => concluded requestId conversation [turn] (.ok result)

def handle (env : Environment) (message : RoutedMessage) (serverRunning : Bool)
    (conversation : ConversationState) : Handled :=
  let value := message.message.payload
  let requestId := ((value.get "request_id").asStr).getD ""
  match LlmTurnRequest.codec.decode value with
  | none => ⟨.failed requestId (env.decodeError value), serverRunning, conversation, []⟩
  | some request =>
    match request.validate with
    | .error error => ⟨.failed request.requestId error, serverRunning, conversation, []⟩
    | .ok () =>
      if request.origin.isSome ∧ request.sourceResident ≠ some "chat.rooms" then
        ⟨.failed request.requestId "chat origin must come from chat.rooms", serverRunning,
          conversation, []⟩
      else if conflicting request conversation then
        ⟨.failed request.requestId
          "this Codex Resident already has a different conversation thread", serverRunning,
          conversation, []⟩
      else
        let turn := turnRequest env.toText request conversation
        if serverRunning then runTurns env request.requestId turn conversation
        else
          match env.start with
          | .error error =>
              ⟨.failed request.requestId error.message, false, conversation, []⟩
          | .ok () => runTurns env request.requestId turn conversation

/-! ## Memory extraction -/

def extractionPrompt (toText : Json → String) (known : List String)
    (events : List LlmContextMessage) : String :=
  let input := events.map fun e =>
    Json.obj [("author", .str e.author), ("id", .ofNat e.id), ("role", .str e.role),
      ("text", .str e.text)]
  "你正在为 Resident 提取长期记忆。只提取用户明确表达、对未来对话有用的信息；不要编造，" ++
    "也不要把临时任务步骤当成长期事实。相同事实沿用已有 key。" ++
    "每个事实的 evidence_ids 列出本次所有明确提到它的用户消息 ID，不要使用 Agent 消息作为依据。" ++
    "只输出 JSON：\x7b\"facts\":[\x7b\"key\":\"稳定的简短键\",\"text\":\"记忆内容\"," ++
    "\"evidence_ids\":[消息ID]\x7d]\x7d。没有有效内容则输出 \x7b\"facts\":[]\x7d。" ++
    s!"已有键：{toText (.arr (known.map .str))}。本次消息：{toText (.arr input)}"

def extractionRequest (toText : Json → String) (known : List String) (roomId : ℕ)
    (events : List LlmContextMessage) : LlmTurnRequest where
  requestId := s!"memory-{roomId}-{(events.getLast?.map LlmContextMessage.id).getD 0}"
  prompt := extractionPrompt toText known events
  origin := none
  sourceResident := some "chat.rooms"
  chatTurnKind := none
  threadId := none
  context := events

/-- A response that memory extraction goes on to parse. -/
structure Extraction where
  roomId : ℕ
  events : List LlmContextMessage
  response : String

structure Extracted where
  serverRunning : Bool
  executed : List LlmTurnRequest
  extraction : Option Extraction

def extract (env : Environment) (roomId : ℕ) (events : List LlmContextMessage)
    (request : LlmTurnRequest) : Extracted :=
  match env.turn request with
  | .error _ => ⟨false, [request], none⟩
  | .ok result =>
      if result.status = .completed then
        ⟨true, [request], result.finalResponse.map fun r => ⟨roomId, events, r⟩⟩
      else ⟨true, [request], none⟩

def processMemoryTrigger (env : Environment) (message : RoutedMessage) (serverRunning : Bool) :
    Extracted :=
  match env.memory with
  | none => ⟨serverRunning, [], none⟩
  | some memory =>
    match MemoryTrigger.codec.decode message.message.payload with
    | none => ⟨serverRunning, [], none⟩
    | some trigger =>
      let events := memory.unprocessed trigger.roomId trigger.context
      if events.isEmpty then ⟨serverRunning, [], none⟩
      else
        let request := extractionRequest env.toText memory.knownKeys trigger.roomId events
        if serverRunning then extract env trigger.roomId events request
        else
          match env.start with
          | .error _ => ⟨false, [], none⟩
          | .ok () => extract env trigger.roomId events request

/-! ## The worker loop -/

/-- What one message made the worker do. -/
structure Reaction where
  worker : Worker
  executed : List LlmTurnRequest
  extraction : Option Extraction
  saved : Option (ExtTreeMap ℕ ConversationState)
  reply : Option (ResidentKey × FlowMessage)

def persisted (worker : Worker) : ExtTreeMap ℕ ConversationState :=
  worker.conversations.filter fun id _ => id != 0 && decide (id ∉ worker.privateRooms)

def isTurnRequest (kind : MessageKind) : Bool :=
  kind = turnRequestKind || kind = codexTurnRequestKind

def payloadRoom (payload : Json) : ℕ := (((payload.get "origin").get "room_id").asU64).getD 0

def payloadIncognito (payload : Json) : Bool :=
  (((payload.get "origin").get "incognito").asBool).getD false

def receiveTurn (env : Environment) (conversationPath : Option String) (worker : Worker)
    (message : RoutedMessage) : Reaction :=
  let resultKind := if message.message.kind = turnRequestKind then turnResultKind
    else codexTurnResultKind
  let roomId := payloadRoom message.message.payload
  let incognito := payloadIncognito message.message.payload
  let privateRooms := if incognito then insert roomId worker.privateRooms else worker.privateRooms
  let conversation := worker.conversations[roomId]?.getD ⟨none⟩
  let handled := handle env message worker.serverRunning conversation
  let worker : Worker :=
    ⟨handled.serverRunning, worker.conversations.insert roomId handled.conversation, privateRooms⟩
  { worker := worker
    executed := handled.executed
    extraction := none
    saved :=
      if incognito = false ∧ handled.result.status = .completed ∧ conversationPath.isSome then
        some (persisted worker)
      else none
    reply := some (message.source, ⟨resultKind, LlmTurnResult.codec.encode handled.result⟩) }

def receive (env : Environment) (conversationPath : Option String) (worker : Worker)
    (message : RoutedMessage) : Reaction :=
  if message.message.kind = memoryTriggerKind then
    let extracted := processMemoryTrigger env message worker.serverRunning
    ⟨{worker with serverRunning := extracted.serverRunning}, extracted.executed,
      extracted.extraction, none, none⟩
  else if isTurnRequest message.message.kind then receiveTurn env conversationPath worker message
  else ⟨worker, [], none, none, none⟩

end NormaHarness.CodexWorker
