import NormaHarness.CodexWorker
import NormaHarness.ToolProtocol

/-!
# The connection to the app-server

One process at the other end of a pipe sends responses, requests of its own and
notifications, all on one stream. What it sends is a list that is read from the
front, and a call that has read all of it is still waiting. Tool calls reach other
Residents, whose answers the environment chooses; so is whether the pipe takes the
next message. Both may depend on how many messages have been written before.
-/
namespace NormaHarness.AppServer
open Identifiers Contracts JsonValues LlmProtocol ToolProtocol Media CodexWorker

/-- One line of the process, or what went wrong with it. -/
abbrev Incoming := List (Except AppServerError Json)

/-- `CodexAppServer`, with every message written to the process so far. -/
structure Server where
  pending : List Json
  loadedThreads : Finset String
  nextId : ℕ
  publishedMedia : List MediaAsset
  written : List Json

/-- What the Resident's own tool calls return. -/
structure Tools where
  catalog : String → Except String (List Json)
  chatContext : LlmTurnRequest → String → Bool → Option ℕ → ℕ → Except String ChatContextResult
  residentMemory : Option LlmOrigin → Except String Json
  roomMembers : Option LlmOrigin → String → Except String RoomMembersResult
  publishMedia : MediaPublishRequest → Except String MediaAsset

structure Environment where
  toText : Json → String
  stdin : ℕ → Except String Unit
  tools : ℕ → Tools

/-- A reply, unless the input ran out first, with the connection and the input left. -/
structure Called (α : Type) where
  reply : Option (Except AppServerError α)
  server : Server
  rest : Incoming

def Called.andThen {α β : Type} (called : Called α)
    (next : α → Server → Incoming → Called β) : Called β :=
  match called.reply with
  | some (.ok a) => next a called.server called.rest
  | some (.error error) => ⟨some (.error error), called.server, called.rest⟩
  | none => ⟨none, called.server, called.rest⟩

def write (env : Environment) (message : Json) (s : Server) : Except AppServerError Server :=
  match env.stdin s.written.length with
  | .error error => .error (.io error)
  | .ok () => .ok {s with written := s.written ++ [message]}

/-! ## Requests of the process -/

def outsideTurn : Bool × String := (false, "tool call is outside the active turn")

def scopeArgument (args : Json) : Except String Bool :=
  match (args.get "scope").asStr with
  | none => .ok false
  | some scope =>
      if scope = "current" then .ok false
      else if scope = "all" then .ok true
      else .error "scope must be current or all"

def beforeArgument (args : Json) : Except String (Option ℕ) :=
  if (args.get "before_message_id").isNull then .ok none
  else
    match (args.get "before_message_id").asU64.filter fun id => 0 < id with
    | some id => .ok (some id)
    | none => .error "before_message_id must be a positive integer"

def limitArgument (args : Json) : Except String ℕ :=
  if (args.get "limit").isNull then .ok 50
  else
    match (args.get "limit").asU64.filter fun limit => 1 ≤ limit && limit ≤ 200 with
    | some limit => .ok limit
    | none => .error "limit must be between 1 and 200"

def callId (params : Json) : String := (params.get "callId").asStr.getD ""

def chatContextOutput (toText : Json → String) (tools : Tools) (turn : LlmTurnRequest)
    (params : Json) : Bool × String :=
  let args := params.get "arguments"
  match scopeArgument args, beforeArgument args, limitArgument args with
  | .ok scopeAll, .ok before, .ok limit =>
    match tools.chatContext turn (callId params) scopeAll before limit with
    | .ok result => (result.error.isNone, toText (ChatContextResult.codec.encode result))
    | .error error => (false, error)
  | .error error, _, _ => (false, error)
  | _, .error error, _ => (false, error)
  | _, _, .error error => (false, error)

def residentMemoryOutput (toText : Json → String) (tools : Tools) (turn : LlmTurnRequest) :
    Bool × String :=
  match tools.residentMemory turn.origin with
  | .ok value => (true, toText value)
  | .error error => (false, error)

def roomMembersOutput (toText : Json → String) (tools : Tools) (turn : LlmTurnRequest)
    (params : Json) : Bool × String :=
  match tools.roomMembers turn.origin (callId params) with
  | .ok result => (result.error.isNone, toText (RoomMembersResult.codec.encode result))
  | .error error => (false, error)

def encodeView (view : MediaView) : Json :=
  .obj [("id", .str view.id), ("name", .str view.name), ("mime_type", .str view.mimeType),
    ("url", .str view.url)]

def publication (turn : LlmTurnRequest) (params : Json) : MediaPublishRequest :=
  let args := params.get "arguments"
  { callId := callId params
    filename := (args.get "filename").asStr.getD ""
    mimeType := (args.get "mime_type").asStr.getD ""
    base64 := (args.get "base64").asStr.getD ""
    incognito := turn.origin.any LlmOrigin.incognito }

/-- A published asset joins the assets of the reply. -/
def publishMediaOutput (toText : Json → String) (tools : Tools) (turn : LlmTurnRequest)
    (published : List MediaAsset) (params : Json) : (Bool × String) × List MediaAsset :=
  if published.length < maxMessageMedia then
    match tools.publishMedia (publication turn params) with
    | .ok asset => ((true, toText (encodeView asset.view)), published ++ [asset])
    | .error error => ((false, error), published)
  else ((false, "at most 4 images per reply"), published)

def isTool (params : Json) (tool : String) : Bool :=
  (params.get "namespace").isNull && (params.get "tool").asStr == some tool

/-- The output of a tool call, and the assets published so far. -/
def toolOutput (toText : Json → String) (tools : Tools) (context : Option LlmTurnRequest)
    (published : List MediaAsset) (params : Json) : (Bool × String) × List MediaAsset :=
  if isTool params "read_chat_context" then
    match context with
    | some turn => (chatContextOutput toText tools turn params, published)
    | none => (outsideTurn, published)
  else if isTool params "read_resident_memory" then
    match context with
    | some turn => (residentMemoryOutput toText tools turn, published)
    | none => (outsideTurn, published)
  else if isTool params "list_group_members" then
    match context with
    | some turn => (roomMembersOutput toText tools turn params, published)
    | none => (outsideTurn, published)
  else if isTool params "publish_media" then
    match context with
    | some turn => publishMediaOutput toText tools turn published params
    | none => (outsideTurn, published)
  else ((false, "unknown dynamic tool"), published)

def toolAnswer (id : Json) (output : Bool × String) : Json :=
  .obj [("id", id), ("result", .obj [
    ("contentItems", .arr [.obj [("text", .str output.2), ("type", .str "inputText")]]),
    ("success", .bool output.1)])]

def declined (id : Json) : Json :=
  .obj [("id", id), ("result", .obj [("decision", .str "decline")])]

def unsupported (id : Json) (method : String) : Json :=
  .obj [("error", .obj [("code", .num (.negInt 32601)),
    ("message", .str s!"unsupported client request: {method}")]), ("id", id)]

def answerServerRequest (env : Environment) (context : Option LlmTurnRequest) (request : Json)
    (s : Server) : Except AppServerError Server :=
  let id := request.get "id"
  let method := (request.get "method").asStr.getD ""
  if method = "item/tool/call" then
    let output := toolOutput env.toText (env.tools s.written.length) context s.publishedMedia
      (request.get "params")
    write env (toolAnswer id output.1) {s with publishedMedia := output.2}
  else if method = "item/commandExecution/requestApproval" ∨
      method = "item/fileChange/requestApproval" then
    write env (declined id) s
  else write env (unsupported id method) s

/-! ## Calls -/

/-- What a message with the identity of the call makes of it. -/
def responseOf (toText : Json → String) (method : String) (message : Json) :
    Except AppServerError Json :=
  let error := message.get "error"
  if !error.isNull then .error (.protocol s!"{method}: {toText error}")
  else if message.has "result" then .ok (message.get "result")
  else .error (.protocol s!"{method} returned no result")

/-- The loop of `call_with_tool`. -/
def awaitResponse (env : Environment) (context : Option LlmTurnRequest) (id : ℕ)
    (method : String) : Incoming → Server → Called Json
  | [], s => ⟨none, s, []⟩
  | .error error :: rest, s => ⟨some (.error error), s, rest⟩
  | .ok message :: rest, s =>
    if (message.get "id").asU64 = some id then
      ⟨some (responseOf env.toText method message), s, rest⟩
    else if message.has "id" && message.has "method" then
      match answerServerRequest env context message s with
      | .error error => ⟨some (.error error), s, rest⟩
      | .ok s => awaitResponse env context id method rest s
    else if message.has "method" then
      awaitResponse env context id method rest {s with pending := s.pending ++ [message]}
    else awaitResponse env context id method rest s

def callMessage (id : ℕ) (method : String) (params : Json) : Json :=
  .obj [("id", .ofNat id), ("method", .str method), ("params", params)]

def callWithTool (env : Environment) (context : Option LlmTurnRequest) (method : String)
    (params : Json) (s : Server) (incoming : Incoming) : Called Json :=
  let s := {s with nextId := s.nextId + 1}
  match write env (callMessage s.nextId method params) s with
  | .error error => ⟨some (.error error), s, incoming⟩
  | .ok sent => awaitResponse env context s.nextId method incoming sent

def call (env : Environment) (method : String) (params : Json) (s : Server)
    (incoming : Incoming) : Called Json :=
  callWithTool env none method params s incoming

/-! ## Surroundings without tools -/

/-- Nobody answers the tools of a turn. -/
def noTools : Tools where
  catalog _ := .error "tool catalog is empty"
  chatContext _ _ _ _ _ := .error "chat-context reply channel closed"
  residentMemory _ := .error "long-term memory is disabled"
  roomMembers _ _ := .error "room-members reply channel closed"
  publishMedia _ := .error "media publication channel closed"

end NormaHarness.AppServer
