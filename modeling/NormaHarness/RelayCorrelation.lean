import NormaHarness.RoomTools
import NormaHarness.Executions

/-!
# Every tool result belongs to its request

Any number of Residents, `tools.rooms` and `chat.rooms` exchange messages that may be
lost and reordered. Other Residents may send anything, except under the names of
these two. Seen through the kinds, senders and encodings of its messages, each of the
two relayed tools is a lane of the general relay, and the lanes keep their books.
-/
namespace NormaHarness.RoomTools
open Std Identifiers Contracts JsonValues LlmProtocol ToolProtocol Media Chat Relays

/-- What was observed of one tool: requests taken, queries answered with the rooms of the
moment, and results sent. -/
structure ToolLog (Request Query Result : Type) where
  taken : List (ResidentKey × Request)
  computed : List (Query × RoomStore)
  sent : List (ResidentKey × Result)

structure System where
  worker : ToolWorker
  rooms : RoomStore
  toTools : List RoutedMessage
  toChat : List RoutedMessage
  members : ToolLog RoomMembersToolRequest RoomMembersQuery RoomMembersResult
  context : ToolLog ChatContextToolRequest ChatContextQuery ChatContextResult

def launched (media : AppMedia) (rooms : RoomStore) : System :=
  ⟨⟨∅, ∅, 1, media⟩, rooms, [], [], ⟨[], [], []⟩, ⟨[], [], []⟩⟩

/-- A message of one kind whose payload decodes, with the Resident at its other end. -/
def seen {α : Type} (kind : MessageKind) (codec : Codec α) (p : ResidentKey × FlowMessage) :
    Option (ResidentKey × α) :=
  if p.2.kind = kind then (codec.decode p.2.payload).map fun a => (p.1, a) else none

section

variable {Request Query Result : Type} (tool : RelayedTool Request Query Result)

/-- What one message and the replies to it add to the log of a tool. -/
def ToolLog.worked (log : ToolLog Request Query Result) (m : RoutedMessage) (sends : Sends) :
    ToolLog Request Query Result :=
  {log with
    taken := log.taken ++ (seen tool.requestKind tool.request (m.source, m.message)).toList
    sent := log.sent ++ sends.replies.filterMap (seen tool.toolResultKind tool.result)}

def ToolLog.answered (log : ToolLog Request Query Result) (rooms : RoomStore) (m : RoutedMessage) :
    ToolLog Request Query Result :=
  if m.message.kind = tool.queryKind then
    {log with
      computed := log.computed ++
        ((tool.answerQuery rooms m.source m.message.payload).map fun answered =>
          (answered.1, rooms)).toList}
  else log

end

/-- A message from `tools.rooms` to `chat.rooms`, unless it is lost. -/
def toChatFlight (arrives : Bool) (query : Option FlowMessage) : List RoutedMessage :=
  if arrives then (query.map fun flow => ⟨toolRoomsKey, chatRoomsKey, flow⟩).toList else []

def toToolsFlight (arrives : Bool) (reply : Option FlowMessage) : List RoutedMessage :=
  if arrives then (reply.map fun flow => ⟨chatRoomsKey, toolRoomsKey, flow⟩).toList else []

inductive SystemEvent where
  | submit (m : RoutedMessage)
  | submitToChat (m : RoutedMessage)
  | chatSends (message : FlowMessage)
  | changeRooms (rooms : RoomStore)
  | loseToTools (m : RoutedMessage)
  | loseToChat (m : RoutedMessage)
  | work (env : PublishEnvironment) (route : Option RouteError) (arrives : Bool) (m : RoutedMessage)
  | answer (arrives : Bool) (m : RoutedMessage)

/-- Residents other than the two send what they like under their own names. The worker of
`tools.rooms` waits for the outcome of a send before it takes the next message, and nobody
else uses its tables, so its work on one message is one step. A query may arrive although
sending it returned an error, and be lost although it did not. -/
inductive SystemStep : System → SystemEvent → System → Prop
  | submit (w : System) (m : RoutedMessage) : m.source ≠ toolRoomsKey → m.source ≠ chatRoomsKey →
      SystemStep w (.submit m) {w with toTools := w.toTools ++ [m]}
  | submitToChat (w : System) (m : RoutedMessage) : m.source ≠ toolRoomsKey →
      SystemStep w (.submitToChat m) {w with toChat := w.toChat ++ [m]}
  /-- The turns and memory triggers of `chat.rooms`, if `tools.rooms` should be a member. -/
  | chatSends (w : System) (message : FlowMessage) :
      message.kind = turnRequestKind ∨ message.kind = memoryTriggerKind →
      SystemStep w (.chatSends message)
        {w with toTools := w.toTools ++ [⟨chatRoomsKey, toolRoomsKey, message⟩]}
  | changeRooms (w : System) (rooms : RoomStore) :
      SystemStep w (.changeRooms rooms) {w with rooms := rooms}
  | loseToTools (w : System) (before after : List RoutedMessage) (m : RoutedMessage) :
      w.toTools = before ++ m :: after →
      SystemStep w (.loseToTools m) {w with toTools := before ++ after}
  | loseToChat (w : System) (before after : List RoutedMessage) (m : RoutedMessage) :
      w.toChat = before ++ m :: after →
      SystemStep w (.loseToChat m) {w with toChat := before ++ after}
  | work (w : System) (env : PublishEnvironment) (route : Option RouteError) (arrives : Bool)
      (before after : List RoutedMessage) (m : RoutedMessage) :
      w.toTools = before ++ m :: after →
      SystemStep w (.work env route arrives m) {w with
        worker := (w.worker.receive env route m).1
        toTools := before ++ after
        toChat := w.toChat ++ toChatFlight arrives (w.worker.receive env route m).2.query
        members := w.members.worked roomMembersTool m (w.worker.receive env route m).2
        context := w.context.worked chatContextTool m (w.worker.receive env route m).2}
  | answer (w : System) (arrives : Bool) (before after : List RoutedMessage) (m : RoutedMessage) :
      w.toChat = before ++ m :: after →
      SystemStep w (.answer arrives m) {w with
        toChat := before ++ after
        toTools := w.toTools ++ toToolsFlight arrives (chatReply w.rooms m)
        members := w.members.answered roomMembersTool w.rooms m
        context := w.context.answered chatContextTool w.rooms m}

abbrev SystemRun := Executions.Run SystemStep

/-! ## One tool as a lane -/

section

variable {Request Query Result : Type} (tool : RelayedTool Request Query Result)

/-- A message from one Resident that is seen under a kind. -/
def seenFrom {α : Type} (sender : ResidentKey) (kind : MessageKind) (codec : Codec α)
    (m : RoutedMessage) : Option α :=
  if m.source = sender ∧ m.message.kind = kind then codec.decode m.message.payload else none

def lane (pending : Pending) (nextQuery : ℕ) (toChat toTools : List RoutedMessage)
    (log : ToolLog Request Query Result) : Lane ResidentKey String Request Query Result where
  table := pending
  next := nextQuery
  queries := toChat.filterMap (seenFrom toolRoomsKey tool.queryKind tool.query)
  answers := toTools.filterMap (seenFrom chatRoomsKey tool.resultKind tool.result)
  taken := log.taken
  computed := log.computed.filterMap fun p => (tool.answer p.2 p.1).map fun result => (p.1, result)
  sent := log.sent

/-- What one message did to one tool, by the role of its kind. -/
inductive LaneWork (route : Option RouteError) (m : RoutedMessage) (pending : Pending)
    (nextQuery : ℕ) : Pending → ℕ → Sends → Prop
  | request : m.message.kind = tool.requestKind →
      LaneWork route m pending nextQuery
        (tool.takeRequest route m.source m.message.payload pending nextQuery).1
        (tool.takeRequest route m.source m.message.payload pending nextQuery).2.1
        (tool.takeRequest route m.source m.message.payload pending nextQuery).2.2
  | result : m.message.kind = tool.resultKind →
      LaneWork route m pending nextQuery
        (tool.takeResult m.source m.message.payload pending).1 nextQuery
        (tool.takeResult m.source m.message.payload pending).2
  | other (nextQuery' : ℕ) (sends : Sends) : m.message.kind ≠ tool.requestKind →
      m.message.kind ≠ tool.resultKind → (nextQuery' = nextQuery ∨ nextQuery' = nextQuery + 1) →
      (∀ reply ∈ sends.replies, reply.2.kind ≠ tool.toolResultKind) →
      (∀ flow, sends.query = some flow → flow.kind ≠ tool.queryKind) →
      LaneWork route m pending nextQuery pending nextQuery' sends

end

section

variable {Request Query Result : Type} {tool : RelayedTool Request Query Result}

theorem filterMap_removed {α β : Type} (f : α → Option β) (before after : List α) (m : α) :
    (before ++ m :: after).filterMap f =
      before.filterMap f ++ (f m).toList ++ after.filterMap f := by
  rw [List.filterMap_append, List.filterMap_cons]
  cases f m <;> simp

theorem filterMap_unseen {α β : Type} {f : α → Option β} {m : α} (h : f m = none)
    (before after : List α) :
    (before ++ m :: after).filterMap f = (before ++ after).filterMap f := by
  rw [filterMap_removed, h, List.filterMap_append]
  simp

theorem filterMap_seen {α β : Type} {f : α → Option β} {m : α} {b : β} (h : f m = some b)
    (before after : List α) :
    (before ++ m :: after).filterMap f = before.filterMap f ++ b :: after.filterMap f := by
  rw [filterMap_removed, h]
  simp

variable (tool) in
/-- A query in flight is seen by its own tool. -/
theorem seen_query (arrives : Bool) (query : Query) :
    (toChatFlight arrives (some ⟨tool.queryKind, tool.query.encode query⟩)).filterMap
      (seenFrom toolRoomsKey tool.queryKind tool.query) = inFlight arrives query := by
  cases arrives <;> simp [toChatFlight, inFlight, seenFrom, Codec.decode_encode]

theorem unseen_query (arrives : Bool) {query : Option FlowMessage}
    (h : ∀ flow, query = some flow → flow.kind ≠ tool.queryKind) :
    (toChatFlight arrives query).filterMap (seenFrom toolRoomsKey tool.queryKind tool.query) =
      [] := by
  cases query with
  | none => cases arrives <;> rfl
  | some flow => cases arrives <;> simp [toChatFlight, seenFrom, h flow rfl]

theorem seen_reply (target : ResidentKey) (result : Result) :
    seen tool.toolResultKind tool.result (target, tool.toolResult result) =
      some (target, result) := by
  simp [seen, RelayedTool.toolResult, Codec.decode_encode]

theorem seen_other {α : Type} {kind : MessageKind} {codec : Codec α} {p : ResidentKey × FlowMessage}
    (h : p.2.kind ≠ kind) : seen kind codec p = none := by
  simp [seen, h]

theorem seenFrom_other {α : Type} {sender : ResidentKey} {kind : MessageKind} {codec : Codec α}
    {m : RoutedMessage} (h : m.source ≠ sender ∨ m.message.kind ≠ kind) :
    seenFrom sender kind codec m = none := by
  unfold seenFrom
  rw [if_neg]
  rintro ⟨hsource, hkind⟩
  exact h.elim (fun hs => hs hsource) fun hk => hk hkind

theorem takeRequest_step (route : Option RouteError) (arrives : Bool) {m : RoutedMessage}
    (hkind : m.message.kind = tool.requestKind) {pending pending' : Pending}
    {nextQuery nextQuery' : ℕ} {sends : Sends}
    (hout : tool.takeRequest route m.source m.message.payload pending nextQuery =
      (pending', nextQuery', sends))
    (toChat before after : List RoutedMessage) (log : ToolLog Request Query Result) :
    Relation.ReflGen (LaneStep tool.relay)
      (lane tool pending nextQuery toChat (before ++ m :: after) log)
      (lane tool pending' nextQuery' (toChat ++ toChatFlight arrives sends.query) (before ++ after)
        (log.worked tool m sends)) := by
  have hanswers := filterMap_unseen (f := seenFrom chatRoomsKey tool.resultKind tool.result)
    (seenFrom_other (.inr (hkind ▸ tool.kinds_ne))) before after
  have hnone : (toChatFlight arrives none).filterMap
      (seenFrom toolRoomsKey tool.queryKind tool.query) = [] :=
    unseen_query arrives fun flow he => by cases he
  unfold RelayedTool.takeRequest at hout
  cases hdecode : tool.request.decode m.message.payload with
  | none =>
      simp only [hdecode, Prod.mk.injEq] at hout
      obtain ⟨rfl, rfl, rfl⟩ := hout
      have hsame : lane tool pending nextQuery (toChat ++ toChatFlight arrives Sends.nothing.query)
          (before ++ after) (log.worked tool m .nothing) =
          lane tool pending nextQuery toChat (before ++ m :: after) log := by
        simp [lane, ToolLog.worked, Sends.nothing, seen, hdecode, hanswers, hnone,
          List.filterMap_append]
      rw [hsame]
  | some request =>
      have htaken : seen tool.requestKind tool.request (m.source, m.message) =
          some (m.source, request) := by simp [seen, hkind, hdecode]
      simp only [hdecode] at hout
      cases hrefusal : tool.relay.refusal request with
      | some refused =>
          simp only [hrefusal, Prod.mk.injEq] at hout
          obtain ⟨rfl, rfl, rfl⟩ := hout
          have hstep := LaneStep.refuse
            (lane tool pending nextQuery toChat (before ++ m :: after) log) m.source request refused
            hrefusal
          refine .single (Eq.mp (congrArg _ ?_) hstep)
          simp [lane, ToolLog.worked, Sends.reply, seen_reply, htaken, hanswers, hnone,
            List.filterMap_append]
      | none =>
          simp only [hrefusal] at hout
          have hquery := seen_query tool arrives
            (tool.relay.forward request m.source (tool.relay.name nextQuery))
          cases route with
          | none =>
              simp only [Prod.mk.injEq] at hout
              obtain ⟨rfl, rfl, rfl⟩ := hout
              have hstep : LaneStep tool.relay _ _ := .forward
                (lane tool pending nextQuery toChat (before ++ m :: after) log) m.source request
                arrives
              refine .single (Eq.mp (congrArg _ ?_) hstep)
              simp [lane, ToolLog.worked, htaken, hanswers, hquery, List.filterMap_append]
          | some error =>
              simp only [Prod.mk.injEq] at hout
              obtain ⟨rfl, rfl, rfl⟩ := hout
              have hstep : LaneStep tool.relay _ _ := .fail
                (lane tool pending nextQuery toChat (before ++ m :: after) log) m.source request
                error.message arrives
              refine .single (Eq.mp (congrArg _ ?_) hstep)
              simp [lane, ToolLog.worked, htaken, hanswers, hquery, seen_reply,
                List.filterMap_append]

theorem takeResult_step (arrives : Bool) {m : RoutedMessage}
    (hkind : m.message.kind = tool.resultKind) {pending pending' : Pending} {sends : Sends}
    (hout : tool.takeResult m.source m.message.payload pending = (pending', sends))
    (nextQuery : ℕ) (toChat before after : List RoutedMessage)
    (log : ToolLog Request Query Result) :
    Relation.ReflGen (LaneStep tool.relay)
      (lane tool pending nextQuery toChat (before ++ m :: after) log)
      (lane tool pending' nextQuery (toChat ++ toChatFlight arrives sends.query) (before ++ after)
        (log.worked tool m sends)) := by
  have htaken : seen tool.requestKind tool.request (m.source, m.message) = none :=
    seen_other fun hrequest => tool.kinds_ne (hrequest.symm.trans hkind)
  have hnone : (toChatFlight arrives none).filterMap
      (seenFrom toolRoomsKey tool.queryKind tool.query) = [] :=
    unseen_query arrives fun flow he => by cases he
  -- A message that the lane does not see leaves it as it is.
  have unseen : seenFrom chatRoomsKey tool.resultKind tool.result m = none →
      lane tool pending nextQuery (toChat ++ toChatFlight arrives Sends.nothing.query)
        (before ++ after) (log.worked tool m .nothing) =
      lane tool pending nextQuery toChat (before ++ m :: after) log := by
    intro hm
    simp [lane, ToolLog.worked, Sends.nothing, htaken, hnone, filterMap_unseen hm,
      List.filterMap_append]
  unfold RelayedTool.takeResult at hout
  by_cases hsource : m.source = chatRoomsKey
  · rw [if_neg (not_not.mpr hsource)] at hout
    cases hdecode : tool.result.decode m.message.payload with
    | none =>
        simp only [hdecode, Prod.mk.injEq] at hout
        obtain ⟨rfl, rfl⟩ := hout
        rw [unseen (by simp [seenFrom, hdecode])]
    | some result =>
        have hseen : seenFrom chatRoomsKey tool.resultKind tool.result m = some result := by
          simp [seenFrom, hsource, hkind, hdecode]
        have hanswers := filterMap_seen hseen before after
        simp only [hdecode] at hout
        cases hentry : pending[tool.relay.key result]? with
        | none =>
            simp only [hentry, Prod.mk.injEq] at hout
            obtain ⟨rfl, rfl⟩ := hout
            have hstep : LaneStep tool.relay _ _ := .loseAnswer
              (lane tool pending nextQuery toChat (before ++ m :: after) log) _ _ result hanswers
            refine .single (Eq.mp (congrArg _ ?_) hstep)
            simp [lane, ToolLog.worked, Sends.nothing, htaken, hnone, List.filterMap_append]
        | some entry =>
            obtain ⟨target, callId⟩ := entry
            simp only [hentry, Prod.mk.injEq] at hout
            obtain ⟨rfl, rfl⟩ := hout
            have hstep : LaneStep tool.relay _ _ := .handBack
              (lane tool pending nextQuery toChat (before ++ m :: after) log) _ _ result target
              callId hanswers hentry
            refine .single (Eq.mp (congrArg _ ?_) hstep)
            simp [lane, ToolLog.worked, Sends.reply, seen_reply, htaken, hnone,
              List.filterMap_append]
  · rw [if_pos hsource] at hout
    simp only [Prod.mk.injEq] at hout
    obtain ⟨rfl, rfl⟩ := hout
    rw [unseen (seenFrom_other (.inl hsource))]

/-- The work on one message is at most one step of the lane. -/
theorem LaneWork.step {route : Option RouteError} {m : RoutedMessage} {pending pending' : Pending}
    {nextQuery nextQuery' : ℕ} {sends : Sends}
    (h : LaneWork tool route m pending nextQuery pending' nextQuery' sends) (arrives : Bool)
    (toChat before after : List RoutedMessage) (log : ToolLog Request Query Result) :
    Relation.ReflGen (LaneStep tool.relay)
      (lane tool pending nextQuery toChat (before ++ m :: after) log)
      (lane tool pending' nextQuery' (toChat ++ toChatFlight arrives sends.query) (before ++ after)
        (log.worked tool m sends)) := by
  cases h with
  | request hkind => exact takeRequest_step route arrives hkind rfl toChat before after log
  | result hkind => exact takeResult_step arrives hkind rfl nextQuery toChat before after log
  | other _ _ hrequest hresult hnext hreplies hquery =>
      have htaken : seen tool.requestKind tool.request (m.source, m.message) = none :=
        seen_other hrequest
      have hsent : sends.replies.filterMap (seen tool.toolResultKind tool.result) = [] :=
        List.filterMap_eq_nil_iff.mpr fun reply hreply => seen_other (hreplies reply hreply)
      have hanswers := filterMap_unseen (f := seenFrom chatRoomsKey tool.resultKind tool.result)
        (seenFrom_other (.inr hresult)) before after
      have hlane : lane tool pending nextQuery' (toChat ++ toChatFlight arrives sends.query)
          (before ++ after) (log.worked tool m sends) =
          {lane tool pending nextQuery toChat (before ++ m :: after) log with
            next := nextQuery'} := by
        simp [lane, ToolLog.worked, htaken, hsent, hanswers, unseen_query arrives hquery,
          List.filterMap_append]
      rw [hlane]
      rcases hnext with rfl | rfl
      · exact .refl
      · exact .single (.skip _)

/-- What `chat.rooms` replied to one message, as one tool sees it. -/
inductive LaneReply (tool : RelayedTool Request Query Result) (rooms : RoomStore)
    (m : RoutedMessage) : Option FlowMessage → Prop
  | answered : m.message.kind = tool.queryKind →
      LaneReply tool rooms m ((tool.answerQuery rooms m.source m.message.payload).map
        fun answered => ⟨tool.resultKind, tool.result.encode answered.2⟩)
  | other (reply : Option FlowMessage) : m.message.kind ≠ tool.queryKind →
      (∀ flow, reply = some flow → flow.kind ≠ tool.resultKind) → LaneReply tool rooms m reply

theorem seen_answer (arrives : Bool) (result : Result) :
    (toToolsFlight arrives (some ⟨tool.resultKind, tool.result.encode result⟩)).filterMap
      (seenFrom chatRoomsKey tool.resultKind tool.result) = inFlight arrives result := by
  cases arrives <;> simp [toToolsFlight, inFlight, seenFrom, Codec.decode_encode]

theorem unseen_answer (arrives : Bool) {reply : Option FlowMessage}
    (h : ∀ flow, reply = some flow → flow.kind ≠ tool.resultKind) :
    (toToolsFlight arrives reply).filterMap (seenFrom chatRoomsKey tool.resultKind tool.result) =
      [] := by
  cases reply with
  | none => cases arrives <;> rfl
  | some flow => cases arrives <;> simp [toToolsFlight, seenFrom, h flow rfl]

theorem LaneReply.step {rooms : RoomStore} {m : RoutedMessage} {reply : Option FlowMessage}
    (h : LaneReply tool rooms m reply) (arrives : Bool) (pending : Pending) (nextQuery : ℕ)
    (before after toTools : List RoutedMessage) (log : ToolLog Request Query Result) :
    Relation.ReflGen (LaneStep tool.relay)
      (lane tool pending nextQuery (before ++ m :: after) toTools log)
      (lane tool pending nextQuery (before ++ after) (toTools ++ toToolsFlight arrives reply)
        (log.answered tool rooms m)) := by
  have unseen : ∀ {reply : Option FlowMessage},
      seenFrom toolRoomsKey tool.queryKind tool.query m = none → log.answered tool rooms m = log →
      (∀ flow, reply = some flow → flow.kind ≠ tool.resultKind) →
      lane tool pending nextQuery (before ++ after) (toTools ++ toToolsFlight arrives reply)
        (log.answered tool rooms m) =
      lane tool pending nextQuery (before ++ m :: after) toTools log := by
    intro reply hm hlog hreply
    simp [lane, hlog, filterMap_unseen hm, unseen_answer arrives hreply, List.filterMap_append]
  cases h with
  | other _ hkind hreply =>
      rw [unseen (seenFrom_other (.inr hkind)) (if_neg hkind) hreply]
  | answered hkind =>
      have hlog : ∀ {found : Option (Query × Result)},
          tool.answerQuery rooms m.source m.message.payload = found →
          log.answered tool rooms m = {log with
            computed := log.computed ++
              (found.map fun answered => (answered.1, rooms)).toList} := by
        rintro found rfl
        exact if_pos hkind
      unfold RelayedTool.answerQuery at hlog ⊢
      by_cases hsource : m.source = toolRoomsKey
      · rw [if_neg (not_not.mpr hsource)] at hlog ⊢
        cases hdecode : tool.query.decode m.message.payload with
        | none =>
            simp only [hdecode, Option.map_none] at hlog ⊢
            rw [unseen (by simp [seenFrom, hdecode]) (by simp [hlog rfl])
              fun flow he => by cases he]
        | some query =>
            have hseen : seenFrom toolRoomsKey tool.queryKind tool.query m = some query := by
              simp [seenFrom, hsource, hkind, hdecode]
            have hqueries := filterMap_seen hseen before after
            simp only [hdecode] at hlog ⊢
            cases hanswer : tool.answer rooms query with
            | none =>
                rw [hlog rfl, hanswer]
                have hstep : LaneStep tool.relay _ _ := .loseQuery
                  (lane tool pending nextQuery (before ++ m :: after) toTools log) _ _ query
                  hqueries
                refine .single (Eq.mp (congrArg _ ?_) hstep)
                simp [lane, List.filterMap_append, unseen_answer]
            | some result =>
                rw [hlog rfl, hanswer]
                have hstep : LaneStep tool.relay _ _ := .compute
                  (lane tool pending nextQuery (before ++ m :: after) toTools log) _ _ query result
                  arrives hqueries fun request source name he =>
                    tool.answer_key rooms request source name result (he ▸ hanswer)
                refine .single (Eq.mp (congrArg _ ?_) hstep)
                simp [lane, List.filterMap_append, seen_answer, hanswer]
      · rw [if_pos hsource] at hlog ⊢
        simp only [Option.map_none] at hlog ⊢
        rw [unseen (seenFrom_other (.inl hsource)) (by simp [hlog rfl]) fun flow he => by cases he]

end

/-! ## The worker and the coordinator, seen by each tool -/

theorem publishMedia_sends (env : PublishEnvironment) (source : ResidentKey) (payload : Json)
    (media : AppMedia) : (publishMedia env source payload media).2 = .nothing ∨
      ∃ result, (publishMedia env source payload media).2 =
        .reply source ⟨mediaPublishResultKind, result⟩ := by
  unfold publishMedia
  split
  · exact .inl rfl
  · exact .inr ⟨_, rfl⟩

theorem publishMedia_replies {env : PublishEnvironment} {source : ResidentKey} {payload : Json}
    {media : AppMedia} : (publishMedia env source payload media).2.query = none ∧
      ∀ reply ∈ (publishMedia env source payload media).2.replies,
        reply.2.kind = mediaPublishResultKind := by
  rcases publishMedia_sends env source payload media with hnothing | ⟨result, hreply⟩
  · rw [hnothing]
    exact ⟨rfl, fun reply hr => absurd hr List.not_mem_nil⟩
  · rw [hreply]
    exact ⟨rfl, fun reply hr => by rw [List.mem_singleton.mp hr]⟩

theorem answerCatalog_replies {source : ResidentKey} {payload : Json} :
    (answerCatalog source payload).query = none ∧
      ∀ reply ∈ (answerCatalog source payload).replies, reply.2.kind = toolCatalogResultKind := by
  unfold answerCatalog
  split
  · exact ⟨rfl, fun reply hreply => absurd hreply List.not_mem_nil⟩
  · exact ⟨rfl, fun reply hreply => by rw [List.mem_singleton.mp hreply]⟩

section

variable {Request Query Result : Type} (tool : RelayedTool Request Query Result)

theorem takeRequest_sends (route : Option RouteError) (source : ResidentKey) (payload : Json)
    (pending : Pending) (nextQuery : ℕ) :
    let out := tool.takeRequest route source payload pending nextQuery
    (out.2.1 = nextQuery ∨ out.2.1 = nextQuery + 1) ∧
      (∀ reply ∈ out.2.2.replies, reply.2.kind = tool.toolResultKind) ∧
      ∀ flow, out.2.2.query = some flow → flow.kind = tool.queryKind := by
  have hreply : ∀ (result : Result) (target : ResidentKey),
      ∀ reply ∈ [(target, tool.toolResult result)], reply.2.kind = tool.toolResultKind :=
    fun result target reply hreply => by rw [List.mem_singleton.mp hreply]; rfl
  intro out
  unfold out RelayedTool.takeRequest
  split
  · exact ⟨.inl rfl, fun reply hr => absurd hr List.not_mem_nil, fun flow he => by cases he⟩
  · split
    · exact ⟨.inl rfl, hreply _ _, fun flow he => by cases he⟩
    · split
      · exact ⟨.inr rfl, fun reply hr => absurd hr List.not_mem_nil,
          fun flow he => by rw [← Option.some.inj he]⟩
      · exact ⟨.inr rfl, hreply _ _, fun flow he => by rw [← Option.some.inj he]⟩

theorem takeResult_sends (source : ResidentKey) (payload : Json) (pending : Pending) :
    let out := tool.takeResult source payload pending
    (∀ reply ∈ out.2.replies, reply.2.kind = tool.toolResultKind) ∧ out.2.query = none := by
  intro out
  unfold out RelayedTool.takeResult
  split
  · exact ⟨fun reply hr => absurd hr List.not_mem_nil, rfl⟩
  · split
    · exact ⟨fun reply hr => absurd hr List.not_mem_nil, rfl⟩
    · split
      · exact ⟨fun reply hr => absurd hr List.not_mem_nil, rfl⟩
      · exact ⟨fun reply hr => by rw [List.mem_singleton.mp hr]; rfl, rfl⟩

end

/-- A message that belongs to something else: its kind and the kinds it is answered and
forwarded with are not those of the tool. -/
theorem LaneWork.foreign {Request Query Result : Type} {tool : RelayedTool Request Query Result}
    {route : Option RouteError} {m : RoutedMessage} {pending : Pending} {nextQuery nextQuery' : ℕ}
    {sends : Sends} {kind replyKind : MessageKind} (hkind : m.message.kind = kind)
    (hnext : nextQuery' = nextQuery ∨ nextQuery' = nextQuery + 1)
    (hreplies : ∀ reply ∈ sends.replies, reply.2.kind = replyKind)
    (hquery : ∀ flow, sends.query = some flow → flow.kind ≠ tool.queryKind)
    (hne : kind ≠ tool.requestKind ∧ kind ≠ tool.resultKind ∧ replyKind ≠ tool.toolResultKind) :
    LaneWork tool route m pending nextQuery pending nextQuery' sends :=
  .other nextQuery' sends (hkind ▸ hne.1) (hkind ▸ hne.2.1) hnext
    (fun reply hreply => hreplies reply hreply ▸ hne.2.2) hquery

theorem receive_members (env : PublishEnvironment) (route : Option RouteError)
    (worker : ToolWorker) (m : RoutedMessage) :
    LaneWork roomMembersTool route m worker.pending worker.nextQuery
      (worker.receive env route m).1.pending (worker.receive env route m).1.nextQuery
      (worker.receive env route m).2 := by
  unfold ToolWorker.receive
  simp only
  split_ifs with hcatalog hpublish hrequest hresult hcontext hanswer
  · obtain ⟨hquery, hreplies⟩ := @answerCatalog_replies m.source m.message.payload
    exact .foreign hcatalog (.inl rfl) hreplies (fun flow he => by rw [hquery] at he; cases he)
      (by decide)
  · obtain ⟨hquery, hreplies⟩ :=
      @publishMedia_replies env m.source m.message.payload worker.media
    exact .foreign hpublish (.inl rfl) hreplies (fun flow he => by rw [hquery] at he; cases he)
      (by decide)
  · exact .request hrequest
  · exact .result hresult
  · obtain ⟨hnext, hreplies, hquery⟩ := takeRequest_sends chatContextTool route m.source
      m.message.payload worker.pendingContext worker.nextQuery
    exact .foreign hcontext hnext hreplies (fun flow he => by rw [hquery flow he]; decide)
      (by decide)
  · obtain ⟨hreplies, hquery⟩ := takeResult_sends chatContextTool m.source m.message.payload
      worker.pendingContext
    exact .foreign hanswer (.inl rfl) hreplies (fun flow he => by rw [hquery] at he; cases he)
      (by decide)
  · exact .other _ _ hrequest hresult (.inl rfl) (fun reply hr => absurd hr List.not_mem_nil)
      fun flow he => by cases he

theorem receive_context (env : PublishEnvironment) (route : Option RouteError)
    (worker : ToolWorker) (m : RoutedMessage) :
    LaneWork chatContextTool route m worker.pendingContext worker.nextQuery
      (worker.receive env route m).1.pendingContext (worker.receive env route m).1.nextQuery
      (worker.receive env route m).2 := by
  unfold ToolWorker.receive
  simp only
  split_ifs with hcatalog hpublish hrequest hresult hcontext hanswer
  · obtain ⟨hquery, hreplies⟩ := @answerCatalog_replies m.source m.message.payload
    exact .foreign hcatalog (.inl rfl) hreplies (fun flow he => by rw [hquery] at he; cases he)
      (by decide)
  · obtain ⟨hquery, hreplies⟩ :=
      @publishMedia_replies env m.source m.message.payload worker.media
    exact .foreign hpublish (.inl rfl) hreplies (fun flow he => by rw [hquery] at he; cases he)
      (by decide)
  · obtain ⟨hnext, hreplies, hquery⟩ := takeRequest_sends roomMembersTool route m.source
      m.message.payload worker.pending worker.nextQuery
    exact .foreign hrequest hnext hreplies (fun flow he => by rw [hquery flow he]; decide)
      (by decide)
  · obtain ⟨hreplies, hquery⟩ := takeResult_sends roomMembersTool m.source m.message.payload
      worker.pending
    exact .foreign hresult (.inl rfl) hreplies (fun flow he => by rw [hquery] at he; cases he)
      (by decide)
  · exact .request hcontext
  · exact .result hanswer
  · exact .other _ _ hcontext hanswer (.inl rfl) (fun reply hr => absurd hr List.not_mem_nil)
      fun flow he => by cases he

theorem chatReply_members (rooms : RoomStore) (m : RoutedMessage) :
    LaneReply roomMembersTool rooms m (chatReply rooms m) := by
  unfold chatReply
  simp only
  split_ifs with hmembers hcontext
  · exact .answered hmembers
  · refine .other _ hmembers fun flow hflow => ?_
    obtain ⟨answered, _, rfl⟩ := Option.map_eq_some_iff.mp hflow
    exact (by decide : chatContextTool.resultKind ≠ roomMembersTool.resultKind)
  · exact .other none hmembers fun flow hflow => by cases hflow

theorem chatReply_context (rooms : RoomStore) (m : RoutedMessage) :
    LaneReply chatContextTool rooms m (chatReply rooms m) := by
  unfold chatReply
  simp only
  split_ifs with hmembers hcontext
  · refine .other _ (by rw [hmembers]; decide) fun flow hflow => ?_
    obtain ⟨answered, _, rfl⟩ := Option.map_eq_some_iff.mp hflow
    exact (by decide : roomMembersTool.resultKind ≠ chatContextTool.resultKind)
  · exact .answered hcontext
  · exact .other none hcontext fun flow hflow => by cases hflow

/-! ## The two lanes of the system -/

def System.membersLane (w : System) :
    Lane ResidentKey String RoomMembersToolRequest RoomMembersQuery RoomMembersResult :=
  lane roomMembersTool w.worker.pending w.worker.nextQuery w.toChat w.toTools w.members

def System.contextLane (w : System) :
    Lane ResidentKey String ChatContextToolRequest ChatContextQuery ChatContextResult :=
  lane chatContextTool w.worker.pendingContext w.worker.nextQuery w.toChat w.toTools w.context

section

variable {Request Query Result : Type} {tool : RelayedTool Request Query Result}
  {pending : Pending} {nextQuery : ℕ} {toChat toTools : List RoutedMessage}
  {log : ToolLog Request Query Result}

theorem lane_arrived {m : RoutedMessage}
    (h : seenFrom chatRoomsKey tool.resultKind tool.result m = none) :
    lane tool pending nextQuery toChat (toTools ++ [m]) log =
      lane tool pending nextQuery toChat toTools log := by
  simp [lane, List.filterMap_append, h]

theorem lane_arrivedAtChat {m : RoutedMessage}
    (h : seenFrom toolRoomsKey tool.queryKind tool.query m = none) :
    lane tool pending nextQuery (toChat ++ [m]) toTools log =
      lane tool pending nextQuery toChat toTools log := by
  simp [lane, List.filterMap_append, h]

variable (tool) in
theorem lane_lost (before after : List RoutedMessage) (m : RoutedMessage) :
    Relation.ReflGen (LaneStep tool.relay)
      (lane tool pending nextQuery toChat (before ++ m :: after) log)
      (lane tool pending nextQuery toChat (before ++ after) log) := by
  cases hm : seenFrom chatRoomsKey tool.resultKind tool.result m with
  | none =>
      have hsame : lane tool pending nextQuery toChat (before ++ m :: after) log =
          lane tool pending nextQuery toChat (before ++ after) log := by
        simp [lane, filterMap_unseen hm]
      rw [hsame]
  | some result =>
      have hstep : LaneStep tool.relay _ _ := .loseAnswer
        (lane tool pending nextQuery toChat (before ++ m :: after) log) _ _ result
        (filterMap_seen hm before after)
      refine .single (Eq.mp (congrArg _ ?_) hstep)
      simp [lane, List.filterMap_append]

variable (tool) in
theorem lane_lostToChat (before after : List RoutedMessage) (m : RoutedMessage) :
    Relation.ReflGen (LaneStep tool.relay)
      (lane tool pending nextQuery (before ++ m :: after) toTools log)
      (lane tool pending nextQuery (before ++ after) toTools log) := by
  cases hm : seenFrom toolRoomsKey tool.queryKind tool.query m with
  | none =>
      have hsame : lane tool pending nextQuery (before ++ m :: after) toTools log =
          lane tool pending nextQuery (before ++ after) toTools log := by
        simp [lane, filterMap_unseen hm]
      rw [hsame]
  | some query =>
      have hstep : LaneStep tool.relay _ _ := .loseQuery
        (lane tool pending nextQuery (before ++ m :: after) toTools log) _ _ query
        (filterMap_seen hm before after)
      refine .single (Eq.mp (congrArg _ ?_) hstep)
      simp [lane, List.filterMap_append]

end

/-- Every step of the system is at most one step of each lane. -/
theorem SystemStep.lanes {w w' : System} {event : SystemEvent} (h : SystemStep w event w') :
    Relation.ReflGen (LaneStep roomMembersRelay) w.membersLane w'.membersLane ∧
      Relation.ReflGen (LaneStep chatContextRelay) w.contextLane w'.contextLane := by
  cases h with
  | submit m _ hsource =>
      have hmembers : {w with toTools := w.toTools ++ [m]}.membersLane = w.membersLane :=
        lane_arrived (seenFrom_other (.inl hsource))
      have hcontext : {w with toTools := w.toTools ++ [m]}.contextLane = w.contextLane :=
        lane_arrived (seenFrom_other (.inl hsource))
      rw [hmembers, hcontext]
      exact ⟨.refl, .refl⟩
  | submitToChat m hsource =>
      have hmembers : {w with toChat := w.toChat ++ [m]}.membersLane = w.membersLane :=
        lane_arrivedAtChat (seenFrom_other (.inl hsource))
      have hcontext : {w with toChat := w.toChat ++ [m]}.contextLane = w.contextLane :=
        lane_arrivedAtChat (seenFrom_other (.inl hsource))
      rw [hmembers, hcontext]
      exact ⟨.refl, .refl⟩
  | chatSends message hkind =>
      let m : RoutedMessage := ⟨chatRoomsKey, toolRoomsKey, message⟩
      have hne : message.kind ≠ roomMembersTool.resultKind ∧
          message.kind ≠ chatContextTool.resultKind := by
        rcases hkind with hkind | hkind
        · rw [hkind]
          decide
        · rw [hkind]
          decide
      have hmembers : {w with toTools := w.toTools ++ [m]}.membersLane = w.membersLane :=
        lane_arrived (seenFrom_other (.inr hne.1))
      have hcontext : {w with toTools := w.toTools ++ [m]}.contextLane = w.contextLane :=
        lane_arrived (seenFrom_other (.inr hne.2))
      rw [hmembers, hcontext]
      exact ⟨.refl, .refl⟩
  | changeRooms rooms => exact ⟨.refl, .refl⟩
  | loseToTools before after m hqueue =>
      unfold System.membersLane System.contextLane
      rw [hqueue]
      exact ⟨lane_lost roomMembersTool before after m, lane_lost chatContextTool before after m⟩
  | loseToChat before after m hqueue =>
      unfold System.membersLane System.contextLane
      rw [hqueue]
      exact ⟨lane_lostToChat roomMembersTool before after m,
        lane_lostToChat chatContextTool before after m⟩
  | work env route arrives before after m hqueue =>
      unfold System.membersLane System.contextLane
      rw [hqueue]
      exact ⟨(receive_members env route w.worker m).step arrives w.toChat before after w.members,
        (receive_context env route w.worker m).step arrives w.toChat before after w.context⟩
  | answer arrives before after m hqueue =>
      unfold System.membersLane System.contextLane
      rw [hqueue]
      exact ⟨(chatReply_members w.rooms m).step arrives w.worker.pending w.worker.nextQuery before
          after w.toTools w.members,
        (chatReply_context w.rooms m).step arrives w.worker.pendingContext w.worker.nextQuery before
          after w.toTools w.context⟩

theorem accounted_of_reflGen {Source Tag Request Query Result : Type}
    {relay : Relay Source Tag Request Query Result}
    {l l' : Lane Source Tag Request Query Result} (h : Relation.ReflGen (LaneStep relay) l l')
    (ha : Accounted relay l) : Accounted relay l' := by
  cases h with
  | refl => exact ha
  | single hstep => exact hstep.accounted ha

theorem run_accounted {media : AppMedia} {rooms : RoomStore} {events : List SystemEvent}
    {w : System} (hrun : SystemRun (launched media rooms) events w) :
    Accounted roomMembersRelay w.membersLane ∧ Accounted chatContextRelay w.contextLane := by
  have hP : ∀ (s : System) (event : SystemEvent) (t : System),
      Accounted roomMembersRelay s.membersLane ∧ Accounted chatContextRelay s.contextLane →
      SystemStep s event t →
      Accounted roomMembersRelay t.membersLane ∧ Accounted chatContextRelay t.contextLane :=
    fun s event t h step => ⟨accounted_of_reflGen step.lanes.1 h.1,
      accounted_of_reflGen step.lanes.2 h.2⟩
  exact hrun.invariant hP ⟨accounted_empty 1, accounted_empty 1⟩

/-! ## Correlation -/

/-- A result of the room-members tool is right for a request. -/
structure MembersAnswered (computed : List (RoomMembersQuery × RoomStore))
    (request : ResidentKey × RoomMembersToolRequest) (sent : ResidentKey × RoomMembersResult) :
    Prop where
  target : sent.1 = request.1
  callId : sent.2.callId = request.2.callId
  roomId : sent.2.roomId = request.2.roomId
  content : (∃ error, sent.2 = .failed request.2 error) ∨ ∃ relayId rooms,
    ((⟨relayId, request.2.roomId, request.1.asStr⟩ : RoomMembersQuery), rooms) ∈ computed ∧
      sent.2 = {roomMembersFor rooms ⟨relayId, request.2.roomId, request.1.asStr⟩ with
        callId := request.2.callId}

/-- A result of the chat-context tool is right for a request. -/
structure ContextAnswered (computed : List (ChatContextQuery × RoomStore))
    (request : ResidentKey × ChatContextToolRequest) (sent : ResidentKey × ChatContextResult) :
    Prop where
  target : sent.1 = request.1
  callId : sent.2.callId = request.2.callId
  roomId : sent.2.roomId = request.2.roomId
  content : (∃ error, sent.2 = .failed request.2 error) ∨ ∃ relayId rooms result,
    ((⟨{request.2 with callId := relayId}, request.1.asStr⟩ : ChatContextQuery), rooms) ∈ computed ∧
      chatContextFor rooms ⟨{request.2 with callId := relayId}, request.1.asStr⟩ = some result ∧
      sent.2 = {result with callId := request.2.callId}

theorem roomMembersFor_roomId (rooms : RoomStore) (query : RoomMembersQuery) :
    (roomMembersFor rooms query).roomId = query.roomId := by
  unfold roomMembersFor
  split
  · rfl
  · split_ifs
    · rfl
    · rfl

theorem membersAnswered_of_serves {computed : List (RoomMembersQuery × RoomStore)}
    {request : ResidentKey × RoomMembersToolRequest} {sent : ResidentKey × RoomMembersResult}
    (h : Serves roomMembersRelay (computed.filterMap fun p => (roomMembersTool.answer p.2 p.1).map
      fun result => (p.1, result)) request sent) : MembersAnswered computed request sent := by
  obtain ⟨htarget, hrefused | ⟨error, hfailed⟩ | ⟨relayId, result, hmem, hsent⟩⟩ := h
  · have hfailed : sent.2 = .failed request.2 "invalid or duplicate room-members request" := by
      unfold roomMembersRelay at hrefused
      simp only at hrefused
      split_ifs at hrefused
      exact (Option.some.inj hrefused).symm
    exact ⟨htarget, by rw [hfailed]; rfl, by rw [hfailed]; rfl, .inl ⟨_, hfailed⟩⟩
  · exact ⟨htarget, by rw [hfailed]; rfl, by rw [hfailed]; rfl, .inl ⟨error, hfailed⟩⟩
  · obtain ⟨⟨query, rooms⟩, hanswered, hresult⟩ := List.mem_filterMap.mp hmem
    obtain ⟨_, hanswer, he⟩ := Option.map_eq_some_iff.mp hresult
    obtain ⟨rfl, rfl⟩ := Prod.mk.inj he
    obtain rfl := Option.some.inj hanswer
    refine ⟨htarget, by rw [hsent]; rfl, ?_, .inr ⟨relayId, rooms, hanswered, hsent⟩⟩
    rw [hsent]
    exact roomMembersFor_roomId rooms _

theorem contextAnswered_of_serves {computed : List (ChatContextQuery × RoomStore)}
    {request : ResidentKey × ChatContextToolRequest} {sent : ResidentKey × ChatContextResult}
    (h : Serves chatContextRelay (computed.filterMap fun p => (chatContextTool.answer p.2 p.1).map
      fun result => (p.1, result)) request sent) : ContextAnswered computed request sent := by
  obtain ⟨htarget, hrefused | ⟨error, hfailed⟩ | ⟨relayId, result, hmem, hsent⟩⟩ := h
  · have hfailed : sent.2 = .failed request.2 "invalid chat-context request" := by
      unfold chatContextRelay at hrefused
      simp only at hrefused
      split_ifs at hrefused
      exact (Option.some.inj hrefused).symm
    exact ⟨htarget, by rw [hfailed]; rfl, by rw [hfailed]; rfl, .inl ⟨_, hfailed⟩⟩
  · exact ⟨htarget, by rw [hfailed]; rfl, by rw [hfailed]; rfl, .inl ⟨error, hfailed⟩⟩
  · obtain ⟨⟨query, rooms⟩, hanswered, hresult⟩ := List.mem_filterMap.mp hmem
    obtain ⟨_, hanswer, he⟩ := Option.map_eq_some_iff.mp hresult
    obtain ⟨rfl, rfl⟩ := Prod.mk.inj he
    refine ⟨htarget, by rw [hsent]; rfl, ?_, .inr ⟨relayId, rooms, _, hanswered, hanswer, hsent⟩⟩
    rw [hsent]
    exact (chatContextFor_callId hanswer).2

/-- In every run, the results that `tools.rooms` has sent belong to requests it has taken, each
to a request of its own: of the same tool and from the Resident it goes to. -/
theorem tool_results_correlated {media : AppMedia} {rooms : RoomStore}
    {events : List SystemEvent} {w : System} (hrun : SystemRun (launched media rooms) events w) :
    (∃ served : List ℕ, served.Nodup ∧ List.Forall₂ (fun i sent => ∃ request,
      w.members.taken[i]? = some request ∧ MembersAnswered w.members.computed request sent)
      served w.members.sent) ∧
    ∃ served : List ℕ, served.Nodup ∧ List.Forall₂ (fun i sent => ∃ request,
      w.context.taken[i]? = some request ∧ ContextAnswered w.context.computed request sent)
      served w.context.sent := by
  obtain ⟨⟨_, served, hmembers⟩, ⟨_, served', hcontext⟩⟩ := run_accounted hrun
  refine ⟨⟨served, hmembers.distinct, hmembers.serves.imp ?_⟩,
    ⟨served', hcontext.distinct, hcontext.serves.imp ?_⟩⟩
  · rintro i sent ⟨request, htaken, hserves⟩
    exact ⟨request, htaken, membersAnswered_of_serves hserves⟩
  · rintro i sent ⟨request, htaken, hserves⟩
    exact ⟨request, htaken, contextAnswered_of_serves hserves⟩

def sampleMedia : AppMedia := ⟨.openAt "media", .openAt "private", ∅⟩

def sampleEnvironment : PublishEnvironment :=
  ⟨⟨fun _ => none, fun _ _ => .error "", fun _ => .error ""⟩, 1, .none⟩

/-- A group of two. -/
def groupRooms : RoomStore :=
  RoomStore.empty.put ⟨1, "Group", ["codex", "claude"], [], false, none, false, 0, 0, false, false⟩

def membersRequest : RoutedMessage :=
  ⟨codexKey, toolRoomsKey,
    ⟨roomMembersToolRequestKind, RoomMembersToolRequest.codec.encode ⟨"call-1", 1⟩⟩⟩

def membersQuery : RoutedMessage :=
  ⟨toolRoomsKey, chatRoomsKey,
    ⟨roomMembersQueryKind, RoomMembersQuery.codec.encode ⟨"members-1", 1, "codex"⟩⟩⟩

/-- The members of the group, for a call or a query. -/
def groupMembers (callId : String) : RoomMembersResult :=
  ⟨callId, 1, some "Group", ["codex", "claude"], none⟩

def membersReply : RoutedMessage :=
  ⟨chatRoomsKey, toolRoomsKey,
    ⟨roomMembersResultKind, RoomMembersResult.codec.encode (groupMembers "members-1")⟩⟩

/-- One request through both Residents and back. -/
theorem tool_results_correlated_members : ∃ w : System,
    SystemRun (launched sampleMedia groupRooms) [.submit membersRequest,
      .work sampleEnvironment none true membersRequest, .answer true membersQuery,
      .work sampleEnvironment none true membersReply] w ∧
    w.members.sent = [(codexKey, groupMembers "call-1")] ∧
    ∃ served : List ℕ, served.Nodup ∧ List.Forall₂ (fun i sent => ∃ request,
      w.members.taken[i]? = some request ∧ MembersAnswered w.members.computed request sent)
      served w.members.sent := by
  have hrun : SystemRun (launched sampleMedia groupRooms) [.submit membersRequest,
      .work sampleEnvironment none true membersRequest, .answer true membersQuery,
      .work sampleEnvironment none true membersReply] _ :=
    .cons (.submit _ membersRequest (by decide) (by decide))
      (.cons (.work _ sampleEnvironment none true [] [] membersRequest rfl)
        (.cons (.answer _ true [] [] membersQuery rfl)
          (.cons (.work _ sampleEnvironment none true [] [] membersReply rfl) (.nil _))))
  exact ⟨_, hrun, by rfl, (tool_results_correlated hrun).1⟩

end NormaHarness.RoomTools
