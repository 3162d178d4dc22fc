import NormaHarness.RelayTimes
import NormaHarness.ToolCalls

/-!
# Tool calls return what was computed for them

The relayed tools keep timed books, in which each request of the Resident is one of its
calls. Along a run the messages to the worker, the replies in its channels and what its
calls returned are backed by these books. A result is younger than the call it was
computed for, and that call bears the identity of the one that returns.
-/
namespace NormaHarness.RoomTools
open Std Identifiers Contracts JsonValues LlmProtocol ToolProtocol Media Chat Relays
open CodexMailbox (ToolResult Runtime WorkerPhase Label)

/-! ## What one step does to the logs of a tool -/

section

variable {Request Query Result : Type}

/-- The requests that are new in a log were in the inbox, and nothing leaves it. -/
structure ToolLog.Grows (tool : RelayedTool Request Query Result) (inbox : List RoutedMessage)
    (log log' : ToolLog Request Query Result) : Prop where
  computed : log.computed <+: log'.computed
  taken : ∃ new, log'.taken = log.taken ++ new ∧ ∀ k request, (k, request) ∈ new →
    ∃ m ∈ inbox, m.source = k ∧ m.message.kind = tool.requestKind ∧
      tool.request.decode m.message.payload = some request

variable {tool : RelayedTool Request Query Result} {inbox : List RoutedMessage}
  {log : ToolLog Request Query Result} {m : RoutedMessage}

theorem ToolLog.Grows.refl : log.Grows tool inbox log :=
  ⟨List.prefix_rfl, [], by simp, fun _ _ hnew => (List.not_mem_nil hnew).elim⟩

theorem ToolLog.worked_grows (hm : m ∈ inbox) (sends : Sends) :
    log.Grows tool inbox (log.worked tool m sends) := by
  refine ⟨List.prefix_rfl, _, rfl, fun k request hnew => ⟨m, hm, ?_⟩⟩
  have hseen := Option.mem_toList.mp hnew
  unfold seen at hseen
  split_ifs at hseen with hkind
  obtain ⟨found, hdecode, he⟩ := Option.map_eq_some_iff.mp hseen
  obtain ⟨rfl, rfl⟩ := Prod.mk.inj he
  exact ⟨rfl, hkind, hdecode⟩

theorem ToolLog.answered_grows (rooms : RoomStore) :
    log.Grows tool inbox (log.answered tool rooms m) := by
  unfold ToolLog.answered
  split_ifs
  · exact ⟨List.prefix_append _ _, [], by simp, fun _ _ hnew => (List.not_mem_nil hnew).elim⟩
  · exact .refl

variable (tool log m) in
theorem ToolLog.mem_sent {sends : Sends} {reply : ResidentKey × FlowMessage} {result : Result}
    (hreply : reply ∈ sends.replies) (hkind : reply.2.kind = tool.toolResultKind)
    (hdecode : tool.result.decode reply.2.payload = some result) :
    (reply.1, result) ∈ (log.worked tool m sends).sent := by
  refine List.mem_append_right _ (List.mem_filterMap.mpr ⟨reply, hreply, ?_⟩)
  simp [seen, hkind, hdecode]

end

section

variable {w w' : System} {event : SystemEvent} {key : ResidentKey}

theorem SystemStep.grows (h : SystemStep w event w') :
    w.members.Grows roomMembersTool w.toTools w'.members ∧
      w.context.Grows chatContextTool w.toTools w'.context := by
  cases h with
  | work env route arrives before after m hqueue =>
      have hm : m ∈ w.toTools := by simp [hqueue]
      exact ⟨ToolLog.worked_grows hm _, ToolLog.worked_grows hm _⟩
  | answer arrives before after m _ => exact ⟨ToolLog.answered_grows w.rooms,
      ToolLog.answered_grows w.rooms⟩
  | _ => exact ⟨.refl, .refl⟩

/-- No step of the others puts a request of the Resident on its way. -/
theorem SystemStep.asked (h : SystemStep w event w') (hkey : key ≠ chatRoomsKey)
    (hown : ∀ m, event = .submit m → m.source ≠ key) {m : RoutedMessage} (hm : m ∈ w'.toTools)
    (hsource : m.source = key) : m ∈ w.toTools := by
  cases h with
  | submit other _ _ =>
      rcases List.mem_append.mp hm with hm | hm
      · exact hm
      · rw [List.mem_singleton.mp hm] at hsource
        exact absurd hsource (hown other rfl)
  | chatSends message _ =>
      rcases List.mem_append.mp hm with hm | hm
      · exact hm
      · rw [List.mem_singleton.mp hm] at hsource
        exact absurd hsource.symm hkey
  | loseToTools before after lost hqueue => exact removed_subset hqueue hm
  | work env route arrives before after taken hqueue => exact removed_subset hqueue hm
  | answer arrives before after query hqueue =>
      rcases List.mem_append.mp hm with hm | hm
      · exact hm
      · unfold toToolsFlight at hm
        split_ifs at hm
        · obtain ⟨flow, _, rfl⟩ := Option.map_eq_some_iff.mp (Option.mem_toList.mp hm)
          exact absurd hsource.symm hkey
        · cases hm
  | _ => exact hm

end

/-- Where the replies of the worker of `tools.rooms` come from. -/
theorem receive_reply {env : PublishEnvironment} {route : Option RouteError} {worker : ToolWorker}
    {m : RoutedMessage} {reply : ResidentKey × FlowMessage}
    (h : reply ∈ (worker.receive env route m).2.replies) :
    (m.message.kind = toolCatalogRequestKind ∧
        reply ∈ (answerCatalog m.source m.message.payload).replies) ∨
      (m.message.kind = mediaPublishRequestKind ∧
        reply ∈ (publishMedia env m.source m.message.payload worker.media).2.replies) ∨
      reply.2.kind = roomMembersTool.toolResultKind ∨
      reply.2.kind = chatContextTool.toolResultKind := by
  unfold ToolWorker.receive at h
  simp only at h
  split_ifs at h with hcatalog hpublish hrequest hresult hcontext hanswer
  · exact .inl ⟨hcatalog, h⟩
  · exact .inr (.inl ⟨hpublish, h⟩)
  · exact .inr (.inr (.inl ((takeRequest_sends roomMembersTool _ _ _ _ _).2.1 reply h)))
  · exact .inr (.inr (.inl ((takeResult_sends roomMembersTool _ _ _).1 reply h)))
  · exact .inr (.inr (.inr ((takeRequest_sends chatContextTool _ _ _ _ _).2.1 reply h)))
  · exact .inr (.inr (.inr ((takeResult_sends chatContextTool _ _ _).1 reply h)))
  · cases h

/-! ## The calls in the books of a tool -/

section

variable {Request Query Result : Type} {tool : RelayedTool Request Query Result}
  {key : ResidentKey} {calls : List ToolCall} {made : Request → ToolRequest}
  {moment : ToolCall → ℕ} {l l' : Lane ResidentKey String Request Query Result}
  {log log' : ToolLog Request Query Result}

def outcomes (tool : RelayedTool Request Query Result) (computed : List (Query × RoomStore)) :
    List (Query × Result) :=
  computed.filterMap fun p => (tool.answer p.2 p.1).map fun result => (p.1, result)

/-- The lane shows what the log says. -/
structure Shows (tool : RelayedTool Request Query Result)
    (l : Lane ResidentKey String Request Query Result) (log : ToolLog Request Query Result) :
    Prop where
  taken : l.taken = log.taken
  computed : l.computed = outcomes tool log.computed
  sent : l.sent = log.sent

/-- Every request of the Resident was one of its calls, and was taken after the call. -/
def Timely (tool : RelayedTool Request Query Result) (key : ResidentKey) (calls : List ToolCall)
    (made : Request → ToolRequest) (moment : ToolCall → ℕ)
    (l : Lane ResidentKey String Request Query Result) (log : ToolLog Request Query Result) :
    Prop :=
  ∃ origin served since, TimedAccounts tool.relay l origin served since ∧
    ∀ i request, log.taken[i]? = some (key, request) → ∃ call ∈ calls,
      call.request = made request ∧
        (outcomes tool (log.computed.take (moment call))).length ≤ since i

theorem outcomes_take_le (computed : List (Query × RoomStore)) (n : ℕ) :
    (outcomes tool (computed.take n)).length ≤ (outcomes tool computed).length :=
  ((List.take_sublist n computed).filterMap _).length_le

/-- What is computed later is among the later outcomes. -/
theorem outcomes_drop {computed : List (Query × RoomStore)} {n s : ℕ}
    (h : (outcomes tool (computed.take n)).length ≤ s) :
    (outcomes tool computed).drop s ⊆ outcomes tool (computed.drop n) := by
  have hsplit : outcomes tool computed =
      outcomes tool (computed.take n) ++ outcomes tool (computed.drop n) := by
    rw [outcomes, outcomes, outcomes, ← List.filterMap_append, List.take_append_drop]
  rw [hsplit, List.drop_append, List.drop_eq_nil_of_le h, List.nil_append]
  exact List.drop_subset _ _

theorem Timely.more (h : Timely tool key calls made moment l log) (new : List ToolCall) :
    Timely tool key (calls ++ new) made moment l log := by
  obtain ⟨origin, served, since, hbooks, htaken⟩ := h
  refine ⟨origin, served, since, hbooks, fun i request hi => ?_⟩
  obtain ⟨call, hcall, hrest⟩ := htaken i request hi
  exact ⟨call, List.mem_append_left _ hcall, hrest⟩

theorem Timely.step {inbox : List RoutedMessage} (h : Timely tool key calls made moment l log)
    (hl : Shows tool l log) (hl' : Shows tool l' log')
    (hmoments : ∀ call ∈ calls, moment call ≤ log.computed.length)
    (hgrows : log.Grows tool inbox log')
    (hinbox : ∀ m ∈ inbox, m.source = key → m.message.kind = tool.requestKind → ∀ request,
      tool.request.decode m.message.payload = some request →
        ∃ call ∈ calls, call.request = made request)
    (hlane : Relation.ReflGen (LaneStep tool.relay) l l') :
    Timely tool key calls made moment l' log' := by
  obtain ⟨origin, served, since, hbooks, htaken⟩ := h
  obtain ⟨new, hnew, hfrom⟩ := hgrows.taken
  obtain ⟨later, hlater⟩ := hgrows.computed
  have stable : ∀ call ∈ calls,
      log'.computed.take (moment call) = log.computed.take (moment call) := by
    intro call hcall
    rw [← hlater, List.take_append_of_le_length (hmoments call hcall)]
  cases hlane with
  | refl =>
      have hsame : log'.taken = log.taken := hl'.taken.symm.trans hl.taken
      refine ⟨origin, served, since, hbooks, fun i request hi => ?_⟩
      obtain ⟨call, hcall, hmade, hle⟩ := htaken i request (hsame ▸ hi)
      exact ⟨call, hcall, hmade, stable call hcall ▸ hle⟩
  | single hstep =>
      obtain ⟨origin', served', since', hbooks', hold, hnow⟩ := hstep.timed hbooks
      refine ⟨origin', served', since', hbooks', fun i request hi => ?_⟩
      by_cases hlt : i < log.taken.length
      · rw [hnew, List.getElem?_append_left hlt] at hi
        obtain ⟨call, hcall, hmade, hle⟩ := htaken i request hi
        refine ⟨call, hcall, hmade, ?_⟩
        rw [stable call hcall, hold i (by rwa [hl.taken])]
        exact hle
      · have hlength := (List.getElem?_eq_some_iff.mp hi).1
        rw [hnew, List.getElem?_append_right (Nat.le_of_not_lt hlt)] at hi
        obtain ⟨m, hm, hsource, hkind, hdecode⟩ := hfrom key request (List.mem_of_getElem? hi)
        obtain ⟨call, hcall, hmade⟩ := hinbox m hm hsource hkind request hdecode
        refine ⟨call, hcall, hmade, ?_⟩
        rw [stable call hcall, hnow i (by rw [hl.taken]; omega) (by rwa [hl'.taken]), hl.computed]
        exact outcomes_take_le _ _

/-- A result that was sent to the Resident serves one of its calls, with what was computed
since the call. -/
theorem Timely.serves (h : Timely tool key calls made moment l log) (hl : Shows tool l log)
    {result : Result} (hsent : (key, result) ∈ log.sent) :
    ∃ call ∈ calls, ∃ request, call.request = made request ∧
      Serves tool.relay (outcomes tool (log.computed.drop (moment call))) (key, request)
        (key, result) := by
  obtain ⟨_, served, since, hbooks, htaken⟩ := h
  rw [← hl.sent] at hsent
  obtain ⟨n, hn, hget⟩ := List.mem_iff_getElem.mp hsent
  obtain ⟨hlength, hserves⟩ := List.forall₂_iff_get.mp hbooks.servesSince
  obtain ⟨⟨source, request⟩, hrequest, hserved⟩ := hserves n (hlength.symm ▸ hn) hn
  rw [List.get_eq_getElem, List.get_eq_getElem, hget] at hserved
  obtain rfl := hserved.1
  rw [hl.taken] at hrequest
  obtain ⟨call, hcall, hmade, hle⟩ := htaken _ request hrequest
  refine ⟨call, hcall, request, hmade, hserved.mono ?_⟩
  rw [hl.computed]
  exact outcomes_drop hle

end

theorem System.shows (w : System) : Shows roomMembersTool w.membersLane w.members ∧
    Shows chatContextTool w.contextLane w.context :=
  ⟨⟨rfl, rfl, rfl⟩, ⟨rfl, rfl, rfl⟩⟩

/-! ## Every result belongs to a call of the worker -/

/-- A result for a call of the worker: right for a call under the same identity, made no
later. -/
def Answered (record : ToolRecord) (key : ResidentKey) (calls : List ToolCall) (waiter : ℕ)
    (result : ToolResult) : Prop :=
  ∃ own, calls[waiter]? = some own ∧ own.request.table = result.table ∧
    own.request.callId = result.callId ∧
      ∃ k ≤ waiter, ∃ call, calls[k]? = some call ∧ Answers record key call result

/-- Whatever the message is decoded to answers a call of the worker. -/
def Backed (record : ToolRecord) (key : ResidentKey) (calls : List ToolCall) (m : RoutedMessage) :
    Prop :=
  ∀ (table : CodexMailbox.Pending) (result : ToolResult), m.message.kind = table.resultKind →
    table.decode m.message.payload = some result →
      ∃ call ∈ calls, Answers record key call result

structure Correlated (key : ResidentKey) (w : Calling) : Prop where
  oneCall : CodexMailbox.OneCall w.runtime
  numbered : w.runtime.nextWaiter = w.calls.length
  moments : ∀ call ∈ w.calls, call.members ≤ w.system.members.computed.length ∧
    call.context ≤ w.system.context.computed.length ∧ call.published ≤ w.published.length
  inCall : ∀ table callId waiter, w.runtime.worker.Calls table callId waiter →
    ∃ own, w.calls[waiter]? = some own ∧ own.request.table = table ∧ own.request.callId = callId
  asked : ∀ m ∈ w.system.toTools, m.source = key →
    ∃ call ∈ w.calls, m.message = call.request.flow
  members : Timely roomMembersTool key w.calls .tools ToolCall.members w.system.membersLane
    w.system.members
  context : Timely chatContextTool key w.calls .context ToolCall.context w.system.contextLane
    w.system.context
  replied : ∀ m ∈ w.toCaller, Backed w.record key w.calls m
  woken : ∀ waiter result, w.runtime.replies waiter = some result →
    Answered w.record key w.calls waiter result
  returned : ∀ p ∈ w.returned, Answered w.record key w.calls p.1 p.2

section

variable {key : ResidentKey} {w : Calling} {system : System} {event : SystemEvent}
  {record record' : ToolRecord} {calls : List ToolCall}

/-- The calling worker after a step of the others. -/
def Calling.worked (w : Calling) (key : ResidentKey) (event : SystemEvent) (system : System) :
    Calling :=
  {w with
    system := system
    published := w.published ++ publications w.system event
    toCaller := w.toCaller ++ repliesTo key w.system event}

theorem publications_asked {env : PublishEnvironment} {route : Option RouteError} {arrives : Bool}
    {m : RoutedMessage} {request : MediaPublishRequest}
    (hflow : m.message = ToolRequest.flow (.media request)) :
    publications system (.work env route arrives m) =
      [⟨m.source, request, env, system.worker.media⟩] := by
  simp [publications, seen, hflow, ToolRequest.flow, Codec.decode_encode]

/-- A request of the Resident that a relayed tool decodes is one of its calls. -/
theorem Correlated.inbox (h : Correlated key w) :
    (∀ m ∈ w.system.toTools, m.source = key → m.message.kind = roomMembersTool.requestKind →
      ∀ request, roomMembersTool.request.decode m.message.payload = some request →
        ∃ call ∈ w.calls, call.request = .tools request) ∧
    ∀ m ∈ w.system.toTools, m.source = key → m.message.kind = chatContextTool.requestKind →
      ∀ request, chatContextTool.request.decode m.message.payload = some request →
        ∃ call ∈ w.calls, call.request = .context request := by
  constructor
  · intro m hm hsource hkind request hdecode
    obtain ⟨call, hcall, hflow⟩ := h.asked m hm hsource
    rw [hflow] at hkind hdecode
    exact ⟨call, hcall, ToolRequest.of_flow_tools hkind hdecode⟩
  · intro m hm hsource hkind request hdecode
    obtain ⟨call, hcall, hflow⟩ := h.asked m hm hsource
    rw [hflow] at hkind hdecode
    exact ⟨call, hcall, ToolRequest.of_flow_context hkind hdecode⟩

/-- The worker of `tools.rooms` replies to the Resident only what answers one of its calls. -/
theorem Correlated.backed (h : Correlated key w) (hstep : SystemStep w.system event system)
    (hmembers : Timely roomMembersTool key w.calls .tools ToolCall.members system.membersLane
      system.members)
    (hcontext : Timely chatContextTool key w.calls .context ToolCall.context system.contextLane
      system.context) {m : RoutedMessage} (hm : m ∈ repliesTo key w.system event) :
    Backed (w.worked key event system).record key w.calls m := by
  cases hstep with
  | work env route arrives before after taken hqueue =>
      obtain ⟨reply, hreply, hto⟩ := List.mem_filterMap.mp hm
      split_ifs at hto with hkey
      obtain rfl := Option.some.inj hto
      have htaken : taken ∈ w.system.toTools := by simp [hqueue]
      intro table result hkind hdecode
      cases table with
      | tools =>
          obtain ⟨result, hresult, rfl⟩ := Option.map_eq_some_iff.mp hdecode
          have hsent := ToolLog.mem_sent roomMembersTool w.system.members taken hreply hkind hresult
          rw [hkey] at hsent
          obtain ⟨⟨_, members, context, published⟩, hcall, request, rfl, hserves⟩ :=
            hmembers.serves (System.shows _).1 hsent
          exact ⟨_, hcall, .tools request result members context published
            (membersAnswered_of_serves hserves)⟩
      | context =>
          obtain ⟨result, hresult, rfl⟩ := Option.map_eq_some_iff.mp hdecode
          have hsent := ToolLog.mem_sent chatContextTool w.system.context taken hreply hkind hresult
          rw [hkey] at hsent
          obtain ⟨⟨_, members, context, published⟩, hcall, request, rfl, hserves⟩ :=
            hcontext.serves (System.shows _).2 hsent
          exact ⟨_, hcall, .context request result members context published
            (contextAnswered_of_serves hserves)⟩
      | catalog =>
          obtain ⟨result, hresult, rfl⟩ := Option.map_eq_some_iff.mp hdecode
          rcases receive_reply hreply with ⟨htake, hfrom⟩ | ⟨-, hfrom⟩ | hother | hother
          · obtain ⟨⟨own, members, context, published⟩, hcall, hflow⟩ :=
              h.asked taken htaken (answerCatalog_target hfrom ▸ hkey)
            rw [hflow] at htake hfrom
            obtain ⟨request, rfl⟩ := ToolRequest.of_flow_catalog htake
            rw [ToolRequest.flow, answerCatalog_encode] at hfrom
            rw [List.mem_singleton.mp hfrom, Codec.decode_encode] at hresult
            rw [← Option.some.inj hresult]
            exact ⟨_, hcall, .catalog request members context published⟩
          · exact absurd (hkind.symm.trans (publishMedia_replies.2 reply hfrom)) (by decide)
          · exact absurd (hkind.symm.trans hother) (by decide)
          · exact absurd (hkind.symm.trans hother) (by decide)
      | media =>
          obtain ⟨result, hresult, rfl⟩ := Option.map_eq_some_iff.mp hdecode
          rcases receive_reply hreply with ⟨-, hfrom⟩ | ⟨htake, hfrom⟩ | hother | hother
          · exact absurd (hkind.symm.trans (answerCatalog_replies.2 reply hfrom)) (by decide)
          · have hsource : taken.source = key := publishMedia_target hfrom ▸ hkey
            obtain ⟨⟨own, members, context, published⟩, hcall, hflow⟩ :=
              h.asked taken htaken hsource
            obtain ⟨request, rfl⟩ := ToolRequest.of_flow_media (hflow ▸ htake)
            have hpublished : publications w.system (.work env route arrives taken) =
                [⟨key, request, env, w.system.worker.media⟩] :=
              hsource ▸ publications_asked hflow
            obtain ⟨answer, -, hanswer⟩ := publishMedia_encode env key request w.system.worker.media
            rw [hflow, ToolRequest.flow, hsource, hanswer] at hfrom
            rw [List.mem_singleton.mp hfrom, Codec.decode_encode] at hresult
            rw [← Option.some.inj hresult]
            refine ⟨_, hcall, .media request answer members context published env _ ?_ hanswer⟩
            simp only [Calling.record, Calling.worked, hpublished]
            rw [List.drop_append_of_le_length (h.moments _ hcall).2.2]
            exact List.mem_append_right _ (List.mem_singleton_self _)
          · exact absurd (hkind.symm.trans hother) (by decide)
          · exact absurd (hkind.symm.trans hother) (by decide)
  | _ => cases hm

/-! ## Steps keep the books -/

theorem Answered.mono {waiter : ℕ} {result : ToolResult} (hgrows : record.Grows record')
    (h : Answered record key calls waiter result) : Answered record' key calls waiter result := by
  obtain ⟨own, hown, htable, hid, k, hk, call, hcall, hanswers⟩ := h
  exact ⟨own, hown, htable, hid, k, hk, call, hcall, hanswers.mono hgrows⟩

theorem Answered.more {waiter : ℕ} {result : ToolResult}
    (h : Answered record key calls waiter result) (new : List ToolCall) :
    Answered record key (calls ++ new) waiter result := by
  have later : ∀ {n : ℕ} {call : ToolCall}, calls[n]? = some call →
      (calls ++ new)[n]? = some call := by
    intro n call hn
    obtain ⟨hlt, -⟩ := List.getElem?_eq_some_iff.mp hn
    rw [List.getElem?_append_left hlt, hn]
  obtain ⟨own, hown, htable, hid, k, hk, call, hcall, hanswers⟩ := h
  exact ⟨own, later hown, htable, hid, k, hk, call, later hcall, hanswers⟩

theorem Backed.mono {m : RoutedMessage} (hgrows : record.Grows record')
    (h : Backed record key calls m) : Backed record' key calls m := by
  intro table result hkind hdecode
  obtain ⟨call, hcall, hanswers⟩ := h table result hkind hdecode
  exact ⟨call, hcall, hanswers.mono hgrows⟩

theorem Backed.more {m : RoutedMessage} (h : Backed record key calls m) (new : List ToolCall) :
    Backed record key (calls ++ new) m := by
  intro table result hkind hdecode
  obtain ⟨call, hcall, hanswers⟩ := h table result hkind hdecode
  exact ⟨call, List.mem_append_left _ hcall, hanswers⟩

namespace Correlated

theorem others (h : Correlated key w) (hkey : key ≠ chatRoomsKey)
    (hown : ∀ m, event = .submit m → m.source ≠ key) (hstep : SystemStep w.system event system) :
    Correlated key (w.worked key event system) := by
  obtain ⟨growsMembers, growsContext⟩ := hstep.grows
  have hgrows : w.record.Grows (w.worked key event system).record :=
    ⟨growsMembers.computed, growsContext.computed, List.prefix_append _ _⟩
  have timelyMembers : Timely roomMembersTool key w.calls .tools ToolCall.members
      system.membersLane system.members :=
    h.members.step (System.shows _).1 (System.shows _).1
      (fun call hcall => (h.moments call hcall).1) growsMembers h.inbox.1 hstep.lanes.1
  have timelyContext : Timely chatContextTool key w.calls .context ToolCall.context
      system.contextLane system.context :=
    h.context.step (System.shows _).2 (System.shows _).2
      (fun call hcall => (h.moments call hcall).2.1) growsContext h.inbox.2 hstep.lanes.2
  have backed : ∀ m ∈ w.toCaller ++ repliesTo key w.system event,
      Backed (w.worked key event system).record key w.calls m := by
    intro m hm
    rcases List.mem_append.mp hm with hm | hm
    · exact (h.replied m hm).mono hgrows
    · exact h.backed hstep timelyMembers timelyContext hm
  exact {
    oneCall := h.oneCall
    numbered := h.numbered
    moments := fun call hcall => ⟨(h.moments call hcall).1.trans hgrows.members.length_le,
      (h.moments call hcall).2.1.trans hgrows.context.length_le,
      (h.moments call hcall).2.2.trans hgrows.published.length_le⟩
    inCall := h.inCall
    asked := fun m hm hsource => h.asked m (hstep.asked hkey hown hm hsource) hsource
    members := timelyMembers
    context := timelyContext
    replied := backed
    woken := fun waiter result hreply => (h.woken waiter result hreply).mono hgrows
    returned := fun p hp => (h.returned p hp).mono hgrows }

theorem lose (h : Correlated key w) {before after : List RoutedMessage}
    {m : RoutedMessage} (hqueue : w.toCaller = before ++ m :: after) :
    Correlated key {w with toCaller := before ++ after} :=
  {h with replied := fun other hother => h.replied other (removed_subset hqueue hother)}

/-- Whatever is delivered, only results of `tools.rooms` wake a call. -/
theorem deliver (h : Correlated key w) {decodeError : Json → String} {capacity : ℕ}
    {event : ResidentEvent} {runtime : Runtime}
    (hbacked : ∀ m, event = .message m → m.source = toolRoomsKey →
      Backed w.record key w.calls m)
    (hstep : CodexMailbox.Step decodeError capacity w.runtime (.deliver event) runtime) :
    Correlated key {w with runtime := runtime} := by
  have honeCall := h.oneCall.step hstep
  cases hstep with
  | deliver =>
      have hdelivered := CodexMailbox.deliver_delivered decodeError capacity w.runtime.mailbox event
      generalize CodexMailbox.deliver decodeError capacity w.runtime.mailbox event = out
        at honeCall hdelivered ⊢
      refine {h with oneCall := honeCall, woken := ?_}
      cases hdelivered with
      | nothing _ _ hwoken =>
          simp only [Runtime.delivered, hwoken]
          exact h.woken
      | wakes m table result waiter hevent hsource hkind hdecode hentry =>
          intro other found hreply
          simp only [Runtime.delivered, Function.update_apply] at hreply
          split_ifs at hreply with hother
          · obtain rfl := Option.some.inj hreply
            subst hother
            have hcalls := h.oneCall.entry table result.callId other hentry
            obtain ⟨own, hown, htable, hid⟩ := h.inCall table result.callId other hcalls
            obtain ⟨call, hcall, hanswers⟩ := hbacked m hevent hsource table result hkind hdecode
            obtain ⟨k, hk, hget⟩ := List.mem_iff_getElem.mp hcall
            -- The call that waits is the last one made.
            have hlast := h.oneCall.last table result.callId other hcalls
            rw [h.numbered] at hlast
            refine ⟨own, hown, ?_, hid, k, by omega, call, ?_, hanswers⟩
            · rw [htable, CodexMailbox.Pending.table_of_decode hdecode]
            · rw [← hget, List.getElem?_eq_getElem hk]
          · exact h.woken other found hreply

/-- Steps of the worker that make no call leave it in the calls it was in. -/
theorem ownWork_calls {decodeError : Json → String} {capacity : ℕ} {s t : Runtime} {label : Label}
    (hwork : ownWork label = true) (hstep : CodexMailbox.Step decodeError capacity s label t) :
    t.replies = s.replies ∧ t.nextWaiter = s.nextWaiter ∧
      ∀ table callId waiter, t.worker.Calls table callId waiter →
        s.worker.Calls table callId waiter := by
  cases hstep with
  | deliver event => cases hwork
  | call table callId _ _ => cases hwork
  | resume table callId waiter result _ _ => cases hwork
  | take event rest _ _ _ =>
      refine ⟨rfl, rfl, fun table callId waiter hcalls =>
        absurd hcalls (WorkerPhase.not_calls ?_ _ _ _)⟩
      simp only
      split_ifs
      · exact .inr (.inl rfl)
      · exact .inl rfl
  | sent table callId waiter hworker =>
      refine ⟨rfl, rfl, fun other id n hcalls => ?_⟩
      obtain ⟨rfl, rfl, rfl⟩ := WorkerPhase.Calls.unique (.inr rfl) hcalls
      exact .inl hworker
  | unsent table callId waiter _ =>
      exact ⟨rfl, rfl, fun other id n hcalls =>
        absurd hcalls (WorkerPhase.not_calls (.inr (.inl rfl)) _ _ _)⟩
  | finish _ =>
      exact ⟨rfl, rfl, fun other id n hcalls =>
        absurd hcalls (WorkerPhase.not_calls (.inl rfl) _ _ _)⟩
  | drained _ _ _ =>
      exact ⟨rfl, rfl, fun other id n hcalls =>
        absurd hcalls (WorkerPhase.not_calls (.inr (.inr rfl)) _ _ _)⟩
  | _ => exact ⟨rfl, rfl, fun table callId waiter hcalls => hcalls⟩

theorem work (h : Correlated key w) {decodeError : Json → String} {capacity : ℕ}
    {label : Label} {runtime : Runtime} (hwork : ownWork label = true)
    (hstep : CodexMailbox.Step decodeError capacity w.runtime label runtime) :
    Correlated key {w with runtime := runtime} := by
  obtain ⟨hreplies, hnext, hcalls⟩ := ownWork_calls hwork hstep
  exact {h with
    oneCall := h.oneCall.step hstep
    numbered := hnext.trans h.numbered
    inCall := fun table callId waiter hin => h.inCall table callId waiter (hcalls _ _ _ hin)
    woken := fun waiter result hreply => h.woken waiter result (hreplies ▸ hreply) }

theorem call (h : Correlated key w) (hkey : key ≠ chatRoomsKey) {decodeError : Json → String}
    {capacity : ℕ} {request : ToolRequest} {runtime : Runtime}
    (hstep : CodexMailbox.Step decodeError capacity w.runtime
      (.call request.table request.callId) runtime) :
    Correlated key {w with
      system := {w.system with
        toTools := w.system.toTools ++ [⟨key, toolRoomsKey, request.flow⟩]}
      runtime := runtime
      calls := w.calls ++ [⟨request, w.system.members.computed.length,
        w.system.context.computed.length, w.published.length⟩]} := by
  have honeCall := h.oneCall.step hstep
  let m : RoutedMessage := ⟨key, toolRoomsKey, request.flow⟩
  let sent : System := {w.system with toTools := w.system.toTools ++ [m]}
  let made : ToolCall :=
    ⟨request, w.system.members.computed.length, w.system.context.computed.length,
      w.published.length⟩
  have membersLane : sent.membersLane = w.system.membersLane :=
    lane_arrived (seenFrom_other (.inl hkey))
  have contextLane : sent.contextLane = w.system.contextLane :=
    lane_arrived (seenFrom_other (.inl hkey))
  cases hstep with
  | call hworker _ =>
      refine ⟨honeCall, ?_, ?_, ?_, ?_, ?_, ?_, ?_, ?_, ?_⟩
      · simp [h.numbered]
      · intro call hcall
        rcases List.mem_append.mp hcall with hcall | hcall
        · exact h.moments call hcall
        · rw [List.mem_singleton.mp hcall]
          exact ⟨le_rfl, le_rfl, le_rfl⟩
      · intro table callId waiter hcalls
        obtain ⟨rfl, rfl, rfl⟩ := WorkerPhase.Calls.unique (.inl rfl) hcalls
        rw [h.numbered]
        exact ⟨_, List.getElem?_concat_length, rfl, rfl⟩
      · intro m hm hsource
        rcases List.mem_append.mp hm with hm | hm
        · obtain ⟨call, hcall, hflow⟩ := h.asked m hm hsource
          exact ⟨call, List.mem_append_left _ hcall, hflow⟩
        · rw [List.mem_singleton.mp hm]
          exact ⟨_, List.mem_append_right _ (List.mem_singleton_self _), rfl⟩
      · have htimely := h.members.more [made]
        rwa [← membersLane] at htimely
      · have htimely := h.context.more [made]
        rwa [← contextLane] at htimely
      · exact fun m hm => (h.replied m hm).more [made]
      · exact fun waiter result hreply => (h.woken waiter result hreply).more [made]
      · exact fun p hp => (h.returned p hp).more [made]

theorem resume (h : Correlated key w) {decodeError : Json → String} {capacity : ℕ} {waiter : ℕ}
    {result : ToolResult} {runtime : Runtime} (hreply : w.runtime.replies waiter = some result)
    (hstep : CodexMailbox.Step decodeError capacity w.runtime .resume runtime) :
    Correlated key {w with
      runtime := runtime
      returned := w.returned ++ [(waiter, result)]} := by
  have honeCall := h.oneCall.step hstep
  have hreturned : ∀ p ∈ w.returned ++ [(waiter, result)],
      Answered w.record key w.calls p.1 p.2 := by
    intro p hp
    rcases List.mem_append.mp hp with hp | hp
    · exact h.returned p hp
    · rw [List.mem_singleton.mp hp]
      exact h.woken waiter result hreply
  cases hstep with
  | resume table callId other found _ _ =>
      refine {h with oneCall := honeCall, inCall := ?_, returned := hreturned}
      intro other id n hcalls
      rcases hcalls with hcalls | hcalls <;> cases hcalls

theorem step {decodeError : Json → String} {capacity : ℕ} {event : CallEvent} {w' : Calling}
    (h : Correlated key w) (hkey : key ≠ chatRoomsKey)
    (hstep : CallStep decodeError capacity key w event w') : Correlated key w' := by
  cases hstep with
  | system event system hown hsystem => exact h.others hkey hown hsystem
  | loseReply before after m hqueue => exact h.lose hqueue
  | deliver before after m runtime hqueue hstep =>
      have hbacked : ∀ other, ResidentEvent.message m = .message other →
          other.source = toolRoomsKey → Backed w.record key w.calls other := by
        intro other hevent _
        obtain rfl := ResidentEvent.message.inj hevent
        exact h.replied m (by simp [hqueue])
      exact (h.deliver hbacked hstep).lose hqueue
  | deliverOther event runtime hother hstep =>
      exact h.deliver (fun m hevent hsource => absurd hsource (hother m hevent)) hstep
  | work label runtime hwork hstep => exact h.work hwork hstep
  | call invocation request runtime _ hstep => exact h.call hkey hstep
  | resume table callId waiter result runtime _ hreply hstep => exact h.resume hreply hstep

theorem start (media : AppMedia) (rooms : RoomStore) (key : ResidentKey) :
    Correlated key (calling media rooms) where
  oneCall := CodexMailbox.launched_oneCall
  numbered := rfl
  moments call hcall := (List.not_mem_nil hcall).elim
  inCall table callId waiter hcalls := by rcases hcalls with hcalls | hcalls <;> cases hcalls
  asked m hm := (List.not_mem_nil hm).elim
  members := ⟨_, _, _, timedAccounts_empty 1, fun i request hi => by cases hi⟩
  context := ⟨_, _, _, timedAccounts_empty 1, fun i request hi => by cases hi⟩
  replied m hm := (List.not_mem_nil hm).elim
  woken waiter result hreply := by cases hreply
  returned p hp := (List.not_mem_nil hp).elim

end Correlated

end

/-- In every run, a call returns with a result of its own tool that was computed for a call of
the worker, after that call: for one under the same identity, made no later, and if the result
is accepted, for one about the same room. -/
theorem tool_calls_answered {decodeError : Json → String} {capacity : ℕ} {media : AppMedia}
    {rooms : RoomStore} {key : ResidentKey} {events : List CallEvent} {w : Calling}
    (hkey : key ≠ chatRoomsKey)
    (hrun : CallRun decodeError capacity key (calling media rooms) events w) {n : ℕ}
    {result : ToolResult} (hreturned : (n, result) ∈ w.returned) :
    ∃ own outcome, w.calls[n]? = some own ∧ own.request.received result = some outcome ∧
      ∃ k ≤ n, ∃ call, w.calls[k]? = some call ∧ call.request.table = own.request.table ∧
        call.request.callId = own.request.callId ∧ Answers w.record key call result ∧
        ∀ value, outcome = .ok value → call.request.roomId = own.request.roomId := by
  have hbooks : Correlated key w :=
    hrun.invariant (fun _ _ _ h hstep => h.step hkey hstep) (.start media rooms key)
  obtain ⟨own, hown, htable, hid, k, hk, call, hcall, hanswers⟩ := hbooks.returned _ hreturned
  obtain ⟨hcallTable, hcallId⟩ := hanswers.callId
  obtain ⟨outcome, houtcome⟩ := ToolRequest.received_isSome htable
  refine ⟨own, outcome, hown, houtcome, k, hk, call, hcall, hcallTable.trans htable.symm,
    hcallId.trans hid.symm, hanswers, ?_⟩
  rintro value rfl
  exact hanswers.roomId (htable.trans hcallTable.symm) houtcome

def membersResult : ToolResult := .tools (groupMembers "call-1")

def membersResultMessage : RoutedMessage :=
  ⟨toolRoomsKey, codexKey,
    ⟨roomMembersToolResultKind, RoomMembersResult.codec.encode (groupMembers "call-1")⟩⟩

/-- One turn that asks for the members of its group, through three Residents and back. -/
theorem tool_calls_answered_members : ∃ w : Calling,
    w.returned = [(0, membersResult)] ∧
    ∃ own outcome, w.calls[0]? = some own ∧ own.request.received membersResult = some outcome ∧
      ∃ k ≤ 0, ∃ call, w.calls[k]? = some call ∧ call.request.table = own.request.table ∧
        call.request.callId = own.request.callId ∧ Answers w.record codexKey call membersResult ∧
        ∀ value, outcome = .ok value → call.request.roomId = own.request.roomId := by
  have hrun : CallRun (fun _ => "") 16 codexKey (calling sampleMedia groupRooms)
      [.deliverOther CodexMailbox.catalogTurn, .work (.take CodexMailbox.catalogTurn),
        .call (.invokeRoomMembersTool (some ⟨.group, 1, "Group", false⟩) "call-1"), .work .sent,
        .system (.work sampleEnvironment none true membersRequest),
        .system (.answer true membersQuery),
        .system (.work sampleEnvironment none true membersReply),
        .deliver membersResultMessage, .resume] _ :=
    .cons (.deliverOther _ CodexMailbox.catalogTurn _ (fun m hm => by
        rw [← ResidentEvent.message.inj hm]
        decide) (.deliver _ _))
      (.cons (.work _ _ _ rfl (.take _ _ [] rfl (fun h => absurd h (by decide)) rfl))
        (.cons (.call _ _ (.tools ⟨"call-1", 1⟩) _ rfl (.call _ _ _ rfl fun _ => by decide))
          (.cons (.work _ .sent _ rfl (.sent _ _ _ _ rfl))
            (.cons (.system _ _ _ (by rintro _ ⟨⟩) (.work _ sampleEnvironment none true [] []
                membersRequest rfl))
              (.cons (.system _ _ _ (by rintro _ ⟨⟩) (.answer _ true [] [] membersQuery rfl))
                (.cons (.system _ _ _ (by rintro _ ⟨⟩) (.work _ sampleEnvironment none true [] []
                    membersReply rfl))
                  (.cons (.deliver _ [] [] membersResultMessage _ rfl (.deliver _ _))
                    (.single (.resume _ .tools "call-1" 0 membersResult _ rfl rfl
                      (.resume _ .tools "call-1" 0 membersResult rfl rfl))))))))))
  exact ⟨_, rfl, tool_calls_answered (by decide) hrun (by simp)⟩

end NormaHarness.RoomTools
