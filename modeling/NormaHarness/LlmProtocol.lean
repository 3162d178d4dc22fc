import NormaHarness.Contracts
import NormaHarness.Media

/-!
# The turn protocol of language model residents

Requests, results and the inbound gate that chat rooms and model residents share.
A payload is untrusted JSON until it is decoded. The gate stamps the sender that
the message flow authenticated, and it does so for one message kind.
-/
namespace NormaHarness.LlmProtocol
open Identifiers Contracts JsonValues Media

def turnRequestKind : MessageKind := ⟨"llm.turn.request", by decide⟩
def turnResultKind : MessageKind := ⟨"llm.turn.result", by decide⟩
def memoryTriggerKind : MessageKind := ⟨"llm.memory.trigger", by decide⟩
/-- The names kept for direct callers of the Codex resident. -/
def codexTurnRequestKind : MessageKind := ⟨"codex.turn.request", by decide⟩
def codexTurnResultKind : MessageKind := ⟨"codex.turn.result", by decide⟩

def chatRoomsKey : ResidentKey := ⟨"chat.rooms", by decide⟩
def codexKey : ResidentKey := ⟨"codex", by decide⟩

inductive LlmRoomKind where
  | solo
  | group
  deriving DecidableEq, Repr

inductive LlmChatTurnKind where
  | direct
  | contribution
  | mention
  deriving DecidableEq, Repr

inductive MemoryTriggerReason where
  | sleep
  | compaction
  deriving DecidableEq, Repr

inductive LlmTurnStatus where
  | completed
  | failed
  | interrupted
  deriving DecidableEq, Repr

structure LlmOrigin where
  kind : LlmRoomKind
  roomId : ℕ
  roomName : String
  incognito : Bool
  deriving DecidableEq, Repr

structure LlmContextMessage where
  id : ℕ
  roomId : ℕ
  roomName : String
  role : String
  author : String
  text : String
  createdAtMs : ℕ
  attachments : List MediaAsset
  deriving DecidableEq, Repr

structure MemoryTrigger where
  roomId : ℕ
  reason : MemoryTriggerReason
  sleepGeneration : ℕ
  context : List LlmContextMessage
  deriving DecidableEq, Repr

structure LlmTurnRequest where
  requestId : String
  prompt : String
  origin : Option LlmOrigin
  sourceResident : Option String
  chatTurnKind : Option LlmChatTurnKind
  threadId : Option String
  context : List LlmContextMessage
  deriving DecidableEq, Repr

structure LlmTurnResult where
  requestId : String
  threadId : Option String
  turnId : Option String
  status : LlmTurnStatus
  finalResponse : Option String
  error : Option String
  compacted : Bool
  attachments : List MediaAsset
  deriving DecidableEq, Repr

def LlmTurnResult.failed (requestId error : String) : LlmTurnResult :=
  ⟨requestId, none, none, .failed, none, some error, false, []⟩

def LlmTurnRequest.validate (r : LlmTurnRequest) : Except String Unit :=
  if Text.isBlank r.requestId then .error "request_id must not be empty"
  else if Text.isBlank r.prompt then .error "prompt must not be empty"
  else if r.threadId.any Text.isBlank then .error "thread_id must not be empty when present"
  else .ok ()

/-! ## Encodings -/

def LlmRoomKind.codec : Codec LlmRoomKind where
  encode
    | .solo => .str "solo"
    | .group => .str "group"
  decode v :=
    match Codec.tagOf v with
    | some "solo" => some .solo
    | some "group" => some .group
    | _ => none
  decode_encode k := by cases k <;> rfl

def LlmChatTurnKind.codec : Codec LlmChatTurnKind where
  encode
    | .direct => .str "direct"
    | .contribution => .str "contribution"
    | .mention => .str "mention"
  decode v :=
    match Codec.tagOf v with
    | some "direct" => some .direct
    | some "contribution" => some .contribution
    | some "mention" => some .mention
    | _ => none
  decode_encode k := by cases k <;> rfl

def MemoryTriggerReason.codec : Codec MemoryTriggerReason where
  encode
    | .sleep => .str "sleep"
    | .compaction => .str "compaction"
  decode v :=
    match Codec.tagOf v with
    | some "sleep" => some .sleep
    | some "compaction" => some .compaction
    | _ => none
  decode_encode k := by cases k <;> rfl

def LlmTurnStatus.codec : Codec LlmTurnStatus where
  encode
    | .completed => .str "completed"
    | .failed => .str "failed"
    | .interrupted => .str "interrupted"
  decode v :=
    match Codec.tagOf v with
    | some "completed" => some .completed
    | some "failed" => some .failed
    | some "interrupted" => some .interrupted
    | _ => none
  decode_encode k := by cases k <;> rfl

theorem LlmChatTurnKind.codec_nonNull : LlmChatTurnKind.codec.NonNull := by
  intro k
  cases k <;> simp [LlmChatTurnKind.codec]

def LlmOrigin.codec : Codec LlmOrigin where
  encode o := .obj [member "kind" LlmRoomKind.codec o.kind, member "room_id" .u64 o.roomId,
    member "room_name" .string o.roomName, member "incognito" .bool o.incognito]
  decode v := do
    let f ← Fields.ofJson 4 v
    let kind ← f.required 0 "kind" LlmRoomKind.codec
    let roomId ← f.required 1 "room_id" .u64
    let roomName ← f.required 2 "room_name" .string
    let incognito ← f.withDefault 3 "incognito" .bool false
    pure ⟨kind, roomId, roomName, incognito⟩
  decode_encode o := by
    simp [Fields.ofJson, Fields.required, Fields.withDefault, Fields.find, member, List.lookup,
      Codec.decode_encode]

theorem LlmOrigin.codec_nonNull : LlmOrigin.codec.NonNull := fun _ => by simp [LlmOrigin.codec]

def LlmContextMessage.codec : Codec LlmContextMessage where
  encode m := .obj ([member "id" .u64 m.id, member "room_id" .u64 m.roomId,
    member "room_name" .string m.roomName, member "role" .string m.role,
    member "author" .string m.author, member "text" .string m.text,
    member "created_at_ms" .u64 m.createdAtMs] ++
      memberIfNonempty "attachments" MediaAsset.codec m.attachments)
  decode v := do
    let f ← Fields.ofJson 8 v
    let id ← f.required 0 "id" .u64
    let roomId ← f.required 1 "room_id" .u64
    let roomName ← f.required 2 "room_name" .string
    let role ← f.required 3 "role" .string
    let author ← f.required 4 "author" .string
    let text ← f.required 5 "text" .string
    let createdAtMs ← f.withDefault 6 "created_at_ms" .u64 0
    let attachments ← f.withDefault 7 "attachments" (.list MediaAsset.codec) []
    pure ⟨id, roomId, roomName, role, author, text, createdAtMs, attachments⟩
  decode_encode m := by
    simp only [Fields.ofJson, Option.bind_eq_bind, Option.bind_some]
    rw [Fields.withDefault_list (l := m.attachments) (by
      simp [Fields.find, List.lookup, lookup_memberIfNonempty, member])]
    simp [Fields.required, Fields.withDefault, Fields.find, member, List.lookup,
      Codec.decode_encode]

def MemoryTrigger.codec : Codec MemoryTrigger where
  encode t := .obj [member "room_id" .u64 t.roomId,
    member "reason" MemoryTriggerReason.codec t.reason,
    member "sleep_generation" .u64 t.sleepGeneration,
    member "context" (.list LlmContextMessage.codec) t.context]
  decode v := do
    let f ← Fields.ofJson 4 v
    let roomId ← f.required 0 "room_id" .u64
    let reason ← f.required 1 "reason" MemoryTriggerReason.codec
    let sleepGeneration ← f.required 2 "sleep_generation" .u64
    let context ← f.required 3 "context" (.list LlmContextMessage.codec)
    pure ⟨roomId, reason, sleepGeneration, context⟩
  decode_encode t := by
    simp only [Fields.ofJson, Option.bind_eq_bind, Option.bind_some]
    rw [Fields.required_encode (a := t.roomId) (by simp [Fields.find, member, List.lookup]),
      Fields.required_encode (a := t.reason) (by simp [Fields.find, member, List.lookup]),
      Fields.required_encode (a := t.sleepGeneration) (by simp [Fields.find, member, List.lookup]),
      Fields.required_encode (a := t.context) (by simp [Fields.find, member, List.lookup])]
    rfl

def LlmTurnRequest.members (r : LlmTurnRequest) : List (String × Json) :=
  [member "request_id" .string r.requestId, member "prompt" .string r.prompt] ++
    memberIfSome "origin" LlmOrigin.codec r.origin ++
    memberIfSome "source_resident" .string r.sourceResident ++
    memberIfSome "chat_turn_kind" LlmChatTurnKind.codec r.chatTurnKind ++
    memberIfSome "thread_id" .string r.threadId ++
    memberIfNonempty "context" LlmContextMessage.codec r.context

theorem LlmTurnRequest.lookup_members (r : LlmTurnRequest) (key : String) :
    r.members.lookup key = if key = "request_id" then some (Codec.string.encode r.requestId)
      else if key = "prompt" then some (Codec.string.encode r.prompt)
      else if key = "origin" then r.origin.map LlmOrigin.codec.encode
      else if key = "source_resident" then r.sourceResident.map Codec.string.encode
      else if key = "chat_turn_kind" then r.chatTurnKind.map LlmChatTurnKind.codec.encode
      else if key = "thread_id" then r.threadId.map Codec.string.encode
      else if key = "context" then
        (if r.context.isEmpty then none
          else some ((Codec.list LlmContextMessage.codec).encode r.context))
      else none := by
  simp only [members, List.lookup_append, lookup_memberIfSome, lookup_memberIfNonempty,
    lookup_member, List.lookup_nil, beq_iff_eq]
  by_cases hid : key = "request_id"
  · simp [hid]
  by_cases hprompt : key = "prompt"
  · simp [hprompt]
  by_cases horigin : key = "origin"
  · simp [horigin]
  by_cases hsource : key = "source_resident"
  · simp [hsource]
  by_cases hturn : key = "chat_turn_kind"
  · simp [hturn]
  by_cases hthread : key = "thread_id"
  · simp [hthread]
  simp [hid, hprompt, horigin, hsource, hturn, hthread]

def LlmTurnRequest.codec : Codec LlmTurnRequest where
  encode r := .obj r.members
  decode v := do
    let f ← Fields.ofJson 7 v
    let requestId ← f.required 0 "request_id" .string
    let prompt ← f.required 1 "prompt" .string
    let origin ← f.optionalDefault 2 "origin" LlmOrigin.codec
    let sourceResident ← f.optionalDefault 3 "source_resident" .string
    let chatTurnKind ← f.optionalDefault 4 "chat_turn_kind" LlmChatTurnKind.codec
    let threadId ← f.optionalDefault 5 "thread_id" .string
    let context ← f.withDefault 6 "context" (.list LlmContextMessage.codec) []
    pure ⟨requestId, prompt, origin, sourceResident, chatTurnKind, threadId, context⟩
  decode_encode r := by
    simp only [Fields.ofJson, Option.bind_eq_bind, Option.bind_some]
    rw [Fields.required_encode (a := r.requestId) (by simp [Fields.find, r.lookup_members]),
      Fields.required_encode (a := r.prompt) (by simp [Fields.find, r.lookup_members]),
      Fields.optionalDefault_encode LlmOrigin.codec_nonNull (a := r.origin)
        (by simp [Fields.find, r.lookup_members]),
      Fields.optionalDefault_encode Codec.string_nonNull (a := r.sourceResident)
        (by simp [Fields.find, r.lookup_members]),
      Fields.optionalDefault_encode LlmChatTurnKind.codec_nonNull (a := r.chatTurnKind)
        (by simp [Fields.find, r.lookup_members]),
      Fields.optionalDefault_encode Codec.string_nonNull (a := r.threadId)
        (by simp [Fields.find, r.lookup_members]),
      Fields.withDefault_list (l := r.context) (by simp [Fields.find, r.lookup_members])]
    rfl

def LlmTurnResult.codec : Codec LlmTurnResult where
  encode r := .obj ([member "request_id" .string r.requestId,
    ("thread_id", encodeNullable .string r.threadId), ("turn_id", encodeNullable .string r.turnId),
    member "status" LlmTurnStatus.codec r.status,
    ("final_response", encodeNullable .string r.finalResponse),
    ("error", encodeNullable .string r.error), member "compacted" .bool r.compacted] ++
      memberIfNonempty "attachments" MediaAsset.codec r.attachments)
  decode v := do
    let f ← Fields.ofJson 8 v
    let requestId ← f.required 0 "request_id" .string
    let threadId ← f.optional 1 "thread_id" .string
    let turnId ← f.optional 2 "turn_id" .string
    let status ← f.required 3 "status" LlmTurnStatus.codec
    let finalResponse ← f.optional 4 "final_response" .string
    let error ← f.optional 5 "error" .string
    let compacted ← f.withDefault 6 "compacted" .bool false
    let attachments ← f.withDefault 7 "attachments" (.list MediaAsset.codec) []
    pure ⟨requestId, threadId, turnId, status, finalResponse, error, compacted, attachments⟩
  decode_encode r := by
    simp only [Fields.ofJson, Option.bind_eq_bind, Option.bind_some]
    rw [Fields.required_encode (a := r.requestId) (by simp [Fields.find, member]),
      Fields.optional_encodeNullable Codec.string_nonNull (a := r.threadId)
        (by simp [Fields.find, member, List.lookup]),
      Fields.optional_encodeNullable Codec.string_nonNull (a := r.turnId)
        (by simp [Fields.find, member, List.lookup]),
      Fields.required_encode (a := r.status) (by simp [Fields.find, member, List.lookup]),
      Fields.optional_encodeNullable Codec.string_nonNull (a := r.finalResponse)
        (by simp [Fields.find, member, List.lookup]),
      Fields.optional_encodeNullable Codec.string_nonNull (a := r.error)
        (by simp [Fields.find, member, List.lookup]),
      Fields.withDefault_encode (a := r.compacted) (by simp [Fields.find, member, List.lookup]),
      Fields.withDefault_list (l := r.attachments)
        (by simp [Fields.find, member, List.lookup, lookup_memberIfNonempty])]
    rfl

/-! ## The gate -/

/-- `LlmContextGate::pass`. The text of a decoding error is the JSON library's own. -/
def contextGate (decodeError : Json → String) (context : GateContext) (message : FlowMessage) :
    Except GateError FlowMessage :=
  if message.kind ≠ turnRequestKind then .ok message
  else
    match LlmTurnRequest.codec.decode message.payload with
    | none => .error ⟨s!"invalid LLM context JSON: {decodeError message.payload}"⟩
    | some request =>
      match request.validate with
      | .error error => .error ⟨error⟩
      | .ok () =>
        match request.origin with
        | none => .error ⟨"LLM turn requires a solo or group origin"⟩
        | some origin =>
            if origin.roomId = 0 ∨ Text.isBlank origin.roomName then
              .error ⟨"LLM turn origin needs a room ID and name"⟩
            else
              .ok ⟨message.kind, LlmTurnRequest.codec.encode
                {request with sourceResident := some context.source.asStr}⟩

def turnRequestMessage (request : LlmTurnRequest) : FlowMessage :=
  ⟨turnRequestKind, LlmTurnRequest.codec.encode request⟩

/-- The gate leaves the kind alone, and a turn request that passes it carries the
authenticated sender. -/
theorem contextGate_passed {decodeError : Json → String} {context : GateContext}
    {message passed : FlowMessage} (h : contextGate decodeError context message = .ok passed) :
    passed.kind = message.kind ∧ (message.kind ≠ turnRequestKind → passed = message) ∧
      (message.kind = turnRequestKind → ∃ request : LlmTurnRequest,
        LlmTurnRequest.codec.decode passed.payload = some request ∧
          request.sourceResident = some context.source.asStr) := by
  unfold contextGate at h
  by_cases hkind : message.kind ≠ turnRequestKind
  · rw [if_pos hkind] at h
    obtain rfl := Except.ok.inj h
    exact ⟨rfl, fun _ => rfl, fun hk => absurd hk hkind⟩
  · rw [if_neg hkind] at h
    split at h
    · cases h
    · split at h
      · cases h
      · split at h
        · cases h
        · split_ifs at h
          obtain rfl := Except.ok.inj h
          exact ⟨rfl, fun hk => absurd hk hkind,
            fun _ => ⟨_, LlmTurnRequest.codec.decode_encode _, rfl⟩⟩

end NormaHarness.LlmProtocol
