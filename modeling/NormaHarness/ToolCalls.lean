import NormaHarness.DrainingReplies
import NormaHarness.RelayCorrelation

/-!
# A tool call from end to end

A worker asks `tools.rooms` under identities that its model chooses, one call at a time,
and returns with the result that its mailbox hands over. Between the two lie three
Residents, their mailboxes, and messages that may be lost and overtake each other.
Whatever a call returns was computed for a request that the worker itself has made under
the identity of the call, no later than the call; and it was computed after that request,
from the rooms of a moment in between or by a publication of that time.
-/
namespace NormaHarness.RoomTools
open Std Identifiers Contracts JsonValues LlmProtocol ToolProtocol Media Chat
open CodexMailbox (ToolResult Runtime Label)

/-! ## The four tools, as the worker calls them -/

inductive ToolRequest where
  | tools (request : RoomMembersToolRequest)
  | context (request : ChatContextToolRequest)
  | catalog (request : ToolCatalogRequest)
  | media (request : MediaPublishRequest)

namespace ToolRequest

def table : ToolRequest → CodexMailbox.Pending
  | .tools _ => .tools
  | .context _ => .context
  | .catalog _ => .catalog
  | .media _ => .media

def callId : ToolRequest → String
  | .tools request => request.callId
  | .context request => request.callId
  | .catalog request => request.requestId
  | .media request => request.callId

/-- The room that the result is compared with, where there is one. -/
def roomId : ToolRequest → Option ℕ
  | .tools request => some request.roomId
  | .context request => some request.roomId
  | .catalog _ => none
  | .media _ => none

def flow : ToolRequest → FlowMessage
  | .tools request => ⟨roomMembersToolRequestKind, RoomMembersToolRequest.codec.encode request⟩
  | .context request => ⟨chatContextToolRequestKind, ChatContextToolRequest.codec.encode request⟩
  | .catalog request => ⟨toolCatalogRequestKind, ToolCatalogRequest.codec.encode request⟩
  | .media request => ⟨mediaPublishRequestKind, MediaPublishRequest.codec.encode request⟩

end ToolRequest

/-- The functions of the worker that call a tool, each up to the request it sends. -/
inductive ToolInvocation where
  | invokeRoomMembersTool (origin : Option LlmOrigin) (callId : String)
  | loadToolCatalog (requestId : String)
  | invokeChatContextTool (turn : LlmTurnRequest) (callId : String) (scopeAll : Bool)
      (beforeMessageId : Option ℕ) (limit : ℕ)
  | invokePublishMediaTool (request : MediaPublishRequest)

def ToolInvocation.request : ToolInvocation → Except String ToolRequest
  | .invokeRoomMembersTool origin callId =>
    match origin with
    | none => .error "room-members tool requires a chat origin"
    | some origin =>
      if origin.kind ≠ .group then .error "room-members tool is available only in a group chat"
      else if Text.isBlank callId then .error "missing tool call ID"
      else .ok (.tools ⟨callId, origin.roomId⟩)
  | .loadToolCatalog requestId => .ok (.catalog ⟨requestId⟩)
  | .invokeChatContextTool turn callId scopeAll beforeMessageId limit =>
    match turn.origin with
    | none => .error "chat-context tool requires a chat origin"
    | some origin =>
      if Text.isBlank callId ∨ ¬(1 ≤ limit ∧ limit ≤ 200) then
        .error "invalid chat-context tool arguments"
      else .ok (.context (contextToolRequest turn origin callId scopeAll beforeMessageId limit))
  | .invokePublishMediaTool request =>
    if Text.isBlank request.callId then .error "missing tool call ID" else .ok (.media request)

/-- What the functions return when all goes well. -/
inductive ToolValue where
  | members (result : RoomMembersResult)
  | context (result : ChatContextResult)
  | catalog (tools : List Json)
  | asset (asset : MediaAsset)

/-- What the functions make of the result they receive. A channel is typed: it carries
results of its own tool only. -/
def ToolRequest.received : ToolRequest → ToolResult → Option (Except String ToolValue)
  | .tools request, .tools result => some <|
      if result.roomId = request.roomId then .ok (.members result)
      else .error "room-members result belongs to another group"
  | .context request, .context result => some <|
      if result.roomId = request.roomId then .ok (.context result)
      else .error "chat-context result belongs to another room"
  | .catalog _, .catalog result => some <|
      if result.tools.isEmpty then .error "tool catalog is empty" else .ok (.catalog result.tools)
  | .media _, .media result => some <|
      match result.asset with
      | some asset => .ok (.asset asset)
      | none => .error (result.error.getD "media publication failed")
  | _, _ => none

/-! ## The worker among the other Residents -/

/-- A call, with how many queries of each relayed tool had been answered, and how many images
had been asked to be published, when it was made. -/
structure ToolCall where
  request : ToolRequest
  members : ℕ
  context : ℕ
  published : ℕ

/-- A publication, with what it met: the libraries and file calls, and the stores before it. -/
structure Publication where
  source : ResidentKey
  request : MediaPublishRequest
  env : PublishEnvironment
  media : AppMedia

/-- What the tools have done: queries answered with the rooms of the moment, and images
asked to be published. -/
structure ToolRecord where
  members : List (RoomMembersQuery × RoomStore)
  context : List (ChatContextQuery × RoomStore)
  published : List Publication

/-- The calls of the worker are numbered as their reply channels are. -/
structure Calling where
  system : System
  published : List Publication
  toCaller : List RoutedMessage
  runtime : Runtime
  calls : List ToolCall
  returned : List (ℕ × ToolResult)

def calling (media : AppMedia) (rooms : RoomStore) : Calling :=
  ⟨launched media rooms, [], [], CodexMailbox.launched, [], []⟩

def Calling.record (w : Calling) : ToolRecord :=
  ⟨w.system.members.computed, w.system.context.computed, w.published⟩

/-- What `tools.rooms` is asked to publish at a step. -/
def publications (system : System) : SystemEvent → List Publication
  | .work env _ _ m =>
      (seen mediaPublishRequestKind MediaPublishRequest.codec (m.source, m.message)).toList.map
        fun taken => ⟨taken.1, taken.2, env, system.worker.media⟩
  | _ => []

/-- The replies of `tools.rooms` to one Resident. -/
def repliesTo (key : ResidentKey) (system : System) : SystemEvent → List RoutedMessage
  | .work env route _ m => (system.worker.receive env route m).2.replies.filterMap fun reply =>
      if reply.1 = key then some ⟨toolRoomsKey, key, reply.2⟩ else none
  | _ => []

/-- The steps of the worker that neither make a call nor end one. -/
def ownWork : Label → Bool
  | .deliver _ | .call _ _ | .resume => false
  | _ => true

inductive CallEvent where
  | system (event : SystemEvent)
  | loseReply (m : RoutedMessage)
  | deliver (m : RoutedMessage)
  | deliverOther (event : ResidentEvent)
  | work (label : Label)
  | call (invocation : ToolInvocation)
  | resume

/-- Only the worker sends requests under the name of its Resident. A request is on its way
as soon as its reply channel waits; whether sending it succeeds is known later. -/
inductive CallStep (decodeError : Json → String) (capacity : ℕ) (key : ResidentKey) :
    Calling → CallEvent → Calling → Prop
  | system (w : Calling) (event : SystemEvent) (system : System) :
      (∀ m, event = .submit m → m.source ≠ key) → SystemStep w.system event system →
      CallStep decodeError capacity key w (.system event) {w with
        system := system
        published := w.published ++ publications w.system event
        toCaller := w.toCaller ++ repliesTo key w.system event}
  | loseReply (w : Calling) (before after : List RoutedMessage) (m : RoutedMessage) :
      w.toCaller = before ++ m :: after →
      CallStep decodeError capacity key w (.loseReply m) {w with toCaller := before ++ after}
  | deliver (w : Calling) (before after : List RoutedMessage) (m : RoutedMessage)
      (runtime : Runtime) : w.toCaller = before ++ m :: after →
      CodexMailbox.Step decodeError capacity w.runtime (.deliver (.message m)) runtime →
      CallStep decodeError capacity key w (.deliver m) {w with
        toCaller := before ++ after
        runtime := runtime}
  | deliverOther (w : Calling) (event : ResidentEvent) (runtime : Runtime) :
      (∀ m, event = .message m → m.source ≠ toolRoomsKey) →
      CodexMailbox.Step decodeError capacity w.runtime (.deliver event) runtime →
      CallStep decodeError capacity key w (.deliverOther event) {w with runtime := runtime}
  | work (w : Calling) (label : Label) (runtime : Runtime) : ownWork label = true →
      CodexMailbox.Step decodeError capacity w.runtime label runtime →
      CallStep decodeError capacity key w (.work label) {w with runtime := runtime}
  | call (w : Calling) (invocation : ToolInvocation) (request : ToolRequest) (runtime : Runtime) :
      invocation.request = .ok request →
      CodexMailbox.Step decodeError capacity w.runtime (.call request.table request.callId)
        runtime →
      CallStep decodeError capacity key w (.call invocation) {w with
        system := {w.system with
          toTools := w.system.toTools ++ [⟨key, toolRoomsKey, request.flow⟩]}
        runtime := runtime
        calls := w.calls ++ [⟨request, w.system.members.computed.length,
          w.system.context.computed.length, w.published.length⟩]}
  | resume (w : Calling) (table : CodexMailbox.Pending) (callId : String) (waiter : ℕ)
      (result : ToolResult) (runtime : Runtime) :
      w.runtime.worker = .awaiting table callId waiter → w.runtime.replies waiter = some result →
      CodexMailbox.Step decodeError capacity w.runtime .resume runtime →
      CallStep decodeError capacity key w .resume {w with
        runtime := runtime
        returned := w.returned ++ [(waiter, result)]}

abbrev CallRun (decodeError : Json → String) (capacity : ℕ) (key : ResidentKey) :=
  Executions.Run (CallStep decodeError capacity key)

/-- A result is right for a call of the Resident, and younger than the call. -/
inductive Answers (record : ToolRecord) (key : ResidentKey) : ToolCall → ToolResult → Prop
  | tools (request : RoomMembersToolRequest) (result : RoomMembersResult)
      (members context published : ℕ) :
      MembersAnswered (record.members.drop members) (key, request) (key, result) →
      Answers record key ⟨.tools request, members, context, published⟩ (.tools result)
  | context (request : ChatContextToolRequest) (result : ChatContextResult)
      (members context published : ℕ) :
      ContextAnswered (record.context.drop context) (key, request) (key, result) →
      Answers record key ⟨.context request, members, context, published⟩ (.context result)
  | catalog (request : ToolCatalogRequest) (members context published : ℕ) :
      Answers record key ⟨.catalog request, members, context, published⟩
        (.catalog ⟨request.requestId, modelToolCatalog⟩)
  | media (request : MediaPublishRequest) (result : MediaPublishResult)
      (members context published : ℕ) (env : PublishEnvironment) (media : AppMedia) :
      ⟨key, request, env, media⟩ ∈ record.published.drop published →
      (publishMedia env key (MediaPublishRequest.codec.encode request) media).2 =
        .reply key ⟨mediaPublishResultKind, MediaPublishResult.codec.encode result⟩ →
      Answers record key ⟨.media request, members, context, published⟩ (.media result)

/-- Nothing that was computed or published is forgotten. -/
structure ToolRecord.Grows (record record' : ToolRecord) : Prop where
  members : record.members <+: record'.members
  context : record.context <+: record'.context
  published : record.published <+: record'.published

/-! ## Requests are known by what they send -/

namespace ToolRequest

variable {own : ToolRequest}

theorem of_flow_tools {request : RoomMembersToolRequest}
    (hkind : own.flow.kind = roomMembersToolRequestKind)
    (hdecode : RoomMembersToolRequest.codec.decode own.flow.payload = some request) :
    own = .tools request := by
  cases own with
  | tools found =>
      simp only [flow, Codec.decode_encode] at hdecode
      rw [Option.some.inj hdecode]
  | _ =>
      simp only [flow] at hkind
      exact absurd hkind (by decide)

theorem of_flow_context {request : ChatContextToolRequest}
    (hkind : own.flow.kind = chatContextToolRequestKind)
    (hdecode : ChatContextToolRequest.codec.decode own.flow.payload = some request) :
    own = .context request := by
  cases own with
  | context found =>
      simp only [flow, Codec.decode_encode] at hdecode
      rw [Option.some.inj hdecode]
  | _ =>
      simp only [flow] at hkind
      exact absurd hkind (by decide)

theorem of_flow_catalog (hkind : own.flow.kind = toolCatalogRequestKind) :
    ∃ request, own = .catalog request := by
  cases own with
  | catalog request => exact ⟨request, rfl⟩
  | _ =>
      simp only [flow] at hkind
      exact absurd hkind (by decide)

theorem of_flow_media (hkind : own.flow.kind = mediaPublishRequestKind) :
    ∃ request, own = .media request := by
  cases own with
  | media request => exact ⟨request, rfl⟩
  | _ =>
      simp only [flow] at hkind
      exact absurd hkind (by decide)

/-- A call makes something of every result of its own tool. -/
theorem received_isSome {result : CodexMailbox.ToolResult} (h : own.table = result.table) :
    ∃ outcome, own.received result = some outcome := by
  cases own <;> cases result <;> first | exact ⟨_, rfl⟩ | cases h

end ToolRequest

theorem answerCatalog_encode (source : ResidentKey) (request : ToolCatalogRequest) :
    answerCatalog source (ToolCatalogRequest.codec.encode request) =
      .reply source ⟨toolCatalogResultKind,
        ToolCatalogResult.codec.encode ⟨request.requestId, modelToolCatalog⟩⟩ := by
  simp only [answerCatalog, Codec.decode_encode]

theorem publishMedia_encode (env : PublishEnvironment) (source : ResidentKey)
    (request : MediaPublishRequest) (media : AppMedia) : ∃ published : MediaPublishResult,
      published.callId = request.callId ∧
      (publishMedia env source (MediaPublishRequest.codec.encode request) media).2 =
        .reply source ⟨mediaPublishResultKind, MediaPublishResult.codec.encode published⟩ := by
  simp only [publishMedia, Codec.decode_encode]
  refine ⟨_, ?_, rfl⟩
  split <;> rfl

theorem answerCatalog_target {source : ResidentKey} {payload : Json}
    {reply : ResidentKey × FlowMessage} (h : reply ∈ (answerCatalog source payload).replies) :
    reply.1 = source := by
  unfold answerCatalog at h
  split at h
  · cases h
  · rw [List.mem_singleton.mp h]

theorem publishMedia_target {env : PublishEnvironment} {source : ResidentKey} {payload : Json}
    {media : AppMedia} {reply : ResidentKey × FlowMessage}
    (h : reply ∈ (publishMedia env source payload media).2.replies) : reply.1 = source := by
  rcases publishMedia_sends env source payload media with hnothing | ⟨result, hreply⟩
  · rw [hnothing] at h
    cases h
  · rw [hreply] at h
    rw [List.mem_singleton.mp h]

namespace Answers

variable {record record' : ToolRecord} {key : ResidentKey} {call : ToolCall} {result : ToolResult}

/-- A result is right for a call of its own tool, under the identity of the call. -/
theorem callId (h : Answers record key call result) :
    call.request.table = result.table ∧ call.request.callId = result.callId := by
  cases h with
  | tools request result members context published h => exact ⟨rfl, h.callId.symm⟩
  | context request result members context published h => exact ⟨rfl, h.callId.symm⟩
  | catalog request members context published => exact ⟨rfl, rfl⟩
  | media request result members context published env media _ h =>
      refine ⟨rfl, ?_⟩
      obtain ⟨answer, hid, hanswer⟩ := publishMedia_encode env key request media
      rw [hanswer] at h
      have he := congrArg (fun flow => MediaPublishResult.codec.decode flow.payload)
        (Prod.mk.inj (List.singleton_inj.mp (Sends.mk.inj h).2)).2
      simp only [Codec.decode_encode] at he
      rw [← Option.some.inj he]
      exact hid.symm

theorem mono (hgrows : record.Grows record') (h : Answers record key call result) :
    Answers record' key call result := by
  cases h with
  | tools request result members context published h =>
      refine .tools request result _ _ _ ⟨h.target, h.callId, h.roomId, h.content.imp_right ?_⟩
      rintro ⟨relayId, rooms, hcomputed, hresult⟩
      exact ⟨relayId, rooms, (hgrows.members.drop members).subset hcomputed, hresult⟩
  | context request result members context published h =>
      refine .context request result _ _ _ ⟨h.target, h.callId, h.roomId, h.content.imp_right ?_⟩
      rintro ⟨relayId, rooms, found, hcomputed, hfound, hresult⟩
      exact ⟨relayId, rooms, found, (hgrows.context.drop context).subset hcomputed, hfound,
        hresult⟩
  | catalog request members context published => exact .catalog request _ _ _
  | media request result members context published env media hmem h =>
      exact .media request result _ _ _ env media
        ((hgrows.published.drop published).subset hmem) h

/-- What the worker accepts from the two tools that read rooms is about the right room. -/
theorem roomId (h : Answers record key call result) {own : ToolRequest}
    (htable : own.table = call.request.table) {value : ToolValue}
    (hreceived : own.received result = some (.ok value)) : call.request.roomId = own.roomId := by
  cases h with
  | tools request result members context published h =>
      cases own with
      | tools own =>
          simp only [ToolRequest.received, Option.some.injEq] at hreceived
          split_ifs at hreceived with hroom
          simp only [ToolRequest.roomId]
          rw [← hroom, h.roomId]
      | _ => cases htable
  | context request result members context published h =>
      cases own with
      | context own =>
          simp only [ToolRequest.received, Option.some.injEq] at hreceived
          split_ifs at hreceived with hroom
          simp only [ToolRequest.roomId]
          rw [← hroom, h.roomId]
      | _ => cases htable
  | catalog request members context published =>
      cases own with
      | catalog own => rfl
      | _ => cases htable
  | media request result members context published env media _ h =>
      cases own with
      | media own => rfl
      | _ => cases htable

end Answers

end NormaHarness.RoomTools
