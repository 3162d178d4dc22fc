import NormaHarness.TurnExecution
import NormaHarness.Executions

/-!
# Provider threads are not shared

A Codex worker serves many rooms and the memory extractor on one app-server. A thread is
used where a turn is run on it. A room keeps the thread its last good turn used, so the
mapping only ever holds threads that the room has used itself, and every other thread a
room comes to use is new.
-/
namespace NormaHarness.CodexWorker
open Std Identifiers Contracts JsonValues LlmProtocol AppServer Executions

/-! ## Exclusive names -/

section

variable {O N : Type*}

/-- Nobody has used a name that another has used. -/
def Exclusive (used : Set (O × N)) : Prop :=
  ∀ owner owner' name, (owner, name) ∈ used → (owner', name) ∈ used → owner = owner'

theorem Exclusive.insert_own {used : Set (O × N)} (h : Exclusive used) {owner : O} {name : N}
    (hown : ∀ other, (other, name) ∈ used → other = owner) :
    Exclusive (insert (owner, name) used) := by
  intro a b n ha hb
  rcases Set.mem_insert_iff.mp ha with ha | ha
  · cases ha
    rcases Set.mem_insert_iff.mp hb with hb | hb
    · cases hb
      rfl
    · exact (hown b hb).symm
  · rcases Set.mem_insert_iff.mp hb with hb | hb
    · cases hb
      exact hown a ha
    · exact h a b n ha hb

end

/-! ## The worker on its app-server -/

/-- Who uses a thread. -/
inductive ThreadUser where
  | room (id : ℕ)
  | extraction
  deriving DecidableEq, Repr

/-- The worker, who has used which thread, and the maps that have been saved. -/
structure Provider where
  worker : Worker
  used : Set (ThreadUser × String)
  saves : List (ExtTreeMap ℕ ConversationState)

/-- The uses that a run of a turn adds. -/
def withUse (settings : Settings) (user : ThreadUser) (a : Attempt) (request : LlmTurnRequest)
    (used : Set (ThreadUser × String)) : Set (ThreadUser × String) :=
  match a.thread settings request with
  | some thread => insert (user, thread) used
  | none => used

/-- A started thread has not been used before. -/
def StartsFresh (settings : Settings) (a : Attempt) (request : LlmTurnRequest)
    (used : Set (ThreadUser × String)) : Prop :=
  request.threadId = none → ∀ thread, a.thread settings request = some thread →
    ∀ user, (user, thread) ∉ used

/-- The worker's turns are those of the app-server: the first one, and the repetition. -/
inductive Realizes (settings : Settings) (env : Environment) (first again : Attempt)
    (user : ThreadUser) (used : Set (ThreadUser × String)) :
    List LlmTurnRequest → Set (ThreadUser × String) → Prop
  | none : Realizes settings env first again user used [] used
  | once (turn : LlmTurnRequest) (hreply : first.reply settings turn = some (env.turn turn))
      (hfresh : StartsFresh settings first turn used) :
      Realizes settings env first again user used [turn] (withUse settings user first turn used)
  | twice (turn turn' : LlmTurnRequest)
      (hreply : first.reply settings turn = some (env.turn turn))
      (hfresh : StartsFresh settings first turn used)
      (hreply' : again.reply settings turn' = some (env.repeated turn'))
      (hfresh' : StartsFresh settings again turn' (withUse settings user first turn used)) :
      Realizes settings env first again user used [turn, turn']
        (withUse settings user again turn' (withUse settings user first turn used))

inductive ProviderOp where
  | turn (request : LlmTurnRequest) (origin : LlmOrigin) (env : Environment)
      (first again : Attempt)
  | trigger (payload : Json) (env : Environment) (attempt : Attempt)

/-- Chat rooms name no thread, and a room's incognito flag is fixed. -/
structure FromChatRooms (incognito : ℕ → Bool) (request : LlmTurnRequest) (origin : LlmOrigin) :
    Prop where
  stamped : request.origin = some origin
  room : origin.roomId ≠ 0
  flag : origin.incognito = incognito origin.roomId
  thread : request.threadId = none

def turnMessage (target : ResidentKey) (request : LlmTurnRequest) : RoutedMessage :=
  ⟨chatRoomsKey, target, ⟨turnRequestKind, LlmTurnRequest.codec.encode request⟩⟩

def triggerMessage (target : ResidentKey) (payload : Json) : RoutedMessage :=
  ⟨chatRoomsKey, target, ⟨memoryTriggerKind, payload⟩⟩

variable (settings : Settings) (path : Option String) (target : ResidentKey)
  (incognito : ℕ → Bool)

inductive ProviderStep (s : Provider) : ProviderOp → Provider → Prop
  | turn {request : LlmTurnRequest} {origin : LlmOrigin} {env : Environment}
      {first again : Attempt} {reaction : Reaction} {used : Set (ThreadUser × String)}
      (hfrom : FromChatRooms incognito request origin)
      (hreaction : reaction = receive env path s.worker (turnMessage target request))
      (hused : Realizes settings env first again (.room origin.roomId) s.used reaction.executed
        used) :
      ProviderStep s (.turn request origin env first again)
        ⟨reaction.worker, used, s.saves ++ reaction.saved.toList⟩
  | trigger {payload : Json} {env : Environment} {attempt : Attempt} {reaction : Reaction}
      {used : Set (ThreadUser × String)}
      (hreaction : reaction = receive env path s.worker (triggerMessage target payload))
      (hused : Realizes settings env attempt attempt .extraction s.used reaction.executed used) :
      ProviderStep s (.trigger payload env attempt)
        ⟨reaction.worker, used, s.saves ++ reaction.saved.toList⟩

/-- Different rooms have different threads. -/
def DistinctThreads (conversations : ExtTreeMap ℕ ConversationState) : Prop :=
  ∀ (room room' : ℕ) (thread : String), conversations[room]? = some ⟨some thread⟩ →
    conversations[room']? = some ⟨some thread⟩ → room = room'

/-- A worker that has loaded a conversation map; its rooms have used their threads. -/
def loadedProvider (serverRunning : Bool) (loaded : ExtTreeMap ℕ ConversationState) : Provider where
  worker := ⟨serverRunning, loaded, ∅⟩
  used := {use | ∃ room thread, loaded[room]? = some ⟨some thread⟩ ∧ use = (.room room, thread)}
  saves := []

/-! ## What one message does -/

theorem payloadRoom_encode {request : LlmTurnRequest} {origin : LlmOrigin}
    (h : request.origin = some origin) :
    payloadRoom (LlmTurnRequest.codec.encode request) = origin.roomId := by
  have horigin : (LlmTurnRequest.codec.encode request).get "origin" =
      LlmOrigin.codec.encode origin := by
    simp [LlmTurnRequest.codec, Json.get, LlmTurnRequest.lookup_members, h]
  unfold payloadRoom
  rw [horigin]
  simp [LlmOrigin.codec, Json.get, member, List.lookup, Codec.u64, Json.asU64, Json.ofNat]

theorem payloadIncognito_encode {request : LlmTurnRequest} {origin : LlmOrigin}
    (h : request.origin = some origin) :
    payloadIncognito (LlmTurnRequest.codec.encode request) = origin.incognito := by
  have horigin : (LlmTurnRequest.codec.encode request).get "origin" =
      LlmOrigin.codec.encode origin := by
    simp [LlmTurnRequest.codec, Json.get, LlmTurnRequest.lookup_members, h]
  unfold payloadIncognito
  rw [horigin]
  simp [LlmOrigin.codec, Json.get, member, List.lookup, Codec.bool, Json.asBool]

/-- A request that is not refused is run on the thread of its conversation. -/
theorem handle_case (env : Environment) {request : LlmTurnRequest} (serverRunning : Bool)
    (conversation : ConversationState) (hthread : request.threadId = none) :
    ((handle env (turnMessage target request) serverRunning conversation).executed = [] ∧
      (handle env (turnMessage target request) serverRunning conversation).conversation =
        conversation) ∨
    ∃ turn : LlmTurnRequest, turn.threadId = conversation.threadId ∧
      handle env (turnMessage target request) serverRunning conversation =
        runTurns env request.requestId turn conversation := by
  have hturn : (turnRequest env.toText request conversation).threadId = conversation.threadId := by
    unfold turnRequest
    cases hconv : conversation.threadId with
    | none => simpa using hthread
    | some thread => rfl
  simp only [handle, turnMessage, LlmTurnRequest.codec.decode_encode]
  split
  · exact .inl ⟨rfl, rfl⟩
  · split_ifs
    · exact .inl ⟨rfl, rfl⟩
    · exact .inl ⟨rfl, rfl⟩
    · exact .inr ⟨_, hturn, rfl⟩
    · split
      · exact .inl ⟨rfl, rfl⟩
      · exact .inr ⟨_, hturn, rfl⟩

/-- After a turn the conversation has the thread of a result, or what it had; after a
repeated turn the thread it had is gone. -/
theorem runTurns_case (env : Environment) (requestId : String) (turn : LlmTurnRequest)
    (conversation : ConversationState) :
    ((runTurns env requestId turn conversation).executed = [turn] ∧
      ((runTurns env requestId turn conversation).conversation = conversation ∨
        ∃ result, env.turn turn = .ok result ∧
          result.threadId = (runTurns env requestId turn conversation).conversation.threadId)) ∨
    ((runTurns env requestId turn conversation).executed = [turn, rebuilt turn] ∧
      ((runTurns env requestId turn conversation).conversation = ⟨none⟩ ∨
        ∃ result, env.repeated (rebuilt turn) = .ok result ∧
          result.threadId =
            (runTurns env requestId turn conversation).conversation.threadId)) := by
  unfold runTurns
  cases hturn : env.turn turn with
  | ok result =>
      refine .inl ⟨rfl, ?_⟩
      cases hresult : result.threadId with
      | none => exact .inl (by simp [concluded, hresult])
      | some thread => exact .inr ⟨result, rfl, by simp [concluded, hresult]⟩
  | error error =>
      simp only
      split
      · refine .inr ?_
        cases hrepeated : env.repeated (rebuilt turn) with
        | error error => exact ⟨rfl, .inl rfl⟩
        | ok result =>
            refine ⟨rfl, ?_⟩
            cases hresult : result.threadId with
            | none => exact .inl (by simp [concluded, hresult])
            | some thread => exact .inr ⟨result, rfl, by simp [concluded, hresult]⟩
      · exact .inl ⟨rfl, .inl rfl⟩

section

variable {settings} {user : ThreadUser} {used : Set (ThreadUser × String)}

theorem subset_withUse (a : Attempt) (request : LlmTurnRequest) :
    used ⊆ withUse settings user a request used := by
  unfold withUse
  split
  · exact Set.subset_insert _ _
  · exact Set.Subset.rfl

/-- A turn on the user's own thread or on a new one leaves the uses exclusive. -/
theorem withUse_exclusive {a : Attempt} {request : LlmTurnRequest} (h : Exclusive used)
    (hown : ∀ thread, request.threadId = some thread → (user, thread) ∈ used)
    (hfresh : StartsFresh settings a request used) :
    Exclusive (withUse settings user a request used) := by
  unfold withUse
  split
  · next thread hthread =>
    refine h.insert_own fun other hother => ?_
    cases hrequested : request.threadId with
    | none => exact absurd hother (hfresh hrequested thread hthread other)
    | some requested =>
        have hsame := Attempt.thread_requested hrequested hthread
        subst hsame
        exact h _ _ _ hother (hown _ hrequested)
  · exact h

theorem result_mem_withUse {a : Attempt} {request : LlmTurnRequest} {result : LlmTurnResult}
    {thread : String} (hreply : a.reply settings request = some (.ok result))
    (hthread : result.threadId = some thread) :
    (user, thread) ∈ withUse settings user a request used := by
  have hused := Attempt.reply_thread hreply
  rw [hthread] at hused
  unfold withUse
  rw [← hused]
  exact Set.mem_insert _ _

/-- Handling a request of a room whose conversation has a thread of its own. -/
theorem turn_uses {env : Environment} {first again : Attempt} {request : LlmTurnRequest}
    {serverRunning : Bool} {conversation : ConversationState} {used' : Set (ThreadUser × String)}
    {handled : Handled} (hthread : request.threadId = none)
    (hhandled : handled = handle env (turnMessage target request) serverRunning conversation)
    (h : Exclusive used)
    (hown : ∀ thread, conversation.threadId = some thread → (user, thread) ∈ used)
    (hused : Realizes settings env first again user used handled.executed used') :
    Exclusive used' ∧ used ⊆ used' ∧
      ∀ thread, handled.conversation.threadId = some thread → (user, thread) ∈ used' := by
  subst hhandled
  rcases handle_case target env serverRunning conversation hthread with
    ⟨hexecuted, hconversation⟩ | ⟨turn, hturn, hrun⟩
  · rw [hexecuted] at hused
    cases hused
    rw [hconversation]
    exact ⟨h, Set.Subset.rfl, hown⟩
  · rw [hrun] at hused ⊢
    have hownTurn : ∀ thread, turn.threadId = some thread → (user, thread) ∈ used := by
      rw [hturn]
      exact hown
    rcases runTurns_case env request.requestId turn conversation with
      ⟨hexecuted, hconversation⟩ | ⟨hexecuted, hconversation⟩
    · rw [hexecuted] at hused
      cases hused with
      | once _ hreply hfresh =>
          have hsub : used ⊆ withUse settings user first turn used := subset_withUse first turn
          refine ⟨withUse_exclusive h hownTurn hfresh, hsub, fun thread hthread => ?_⟩
          rcases hconversation with hsame | ⟨result, hok, hresult⟩
          · rw [hsame] at hthread
            exact hsub (hown thread hthread)
          · rw [hok] at hreply
            exact result_mem_withUse hreply (hresult.trans hthread)
    · rw [hexecuted] at hused
      cases hused with
      | twice _ _ hreply hfresh hreply' hfresh' =>
          have hfirst := withUse_exclusive h hownTurn hfresh
          refine ⟨withUse_exclusive hfirst (fun thread hnone => by cases hnone) hfresh',
            (subset_withUse first turn).trans (subset_withUse again _), fun thread hthread => ?_⟩
          rcases hconversation with hnone | ⟨result, hok, hresult⟩
          · rw [hnone] at hthread
            cases hthread
          · rw [hok] at hreply'
            exact result_mem_withUse hreply' (hresult.trans hthread)

end

/-- An extraction runs at most one turn, on a new thread. -/
theorem extraction_case (env : Environment) (message : RoutedMessage) (serverRunning : Bool) :
    (processMemoryTrigger env message serverRunning).executed = [] ∨
      ∃ turn : LlmTurnRequest, turn.threadId = none ∧
        (processMemoryTrigger env message serverRunning).executed = [turn] := by
  have hextract : ∀ roomId events known, (extract env roomId events
      (extractionRequest env.toText known roomId events)).executed =
        [extractionRequest env.toText known roomId events] := by
    intro roomId events known
    unfold extract
    split
    · rfl
    · split_ifs <;> rfl
  unfold processMemoryTrigger
  split
  · exact .inl rfl
  · split
    · exact .inl rfl
    · simp only
      split_ifs
      · exact .inl rfl
      · exact .inr ⟨_, rfl, hextract _ _ _⟩
      · split
        · exact .inl rfl
        · exact .inr ⟨_, rfl, hextract _ _ _⟩

/-! ## The invariant -/

structure Isolated (s : Provider) : Prop where
  exclusive : Exclusive s.used
  own : ∀ room thread, s.worker.conversations[room]? = some ⟨some thread⟩ →
    (.room room, thread) ∈ s.used
  hidden : ∀ room, incognito room = true → room ∈ s.worker.conversations →
    room ∈ s.worker.privateRooms
  saved : ∀ map ∈ s.saves, ∀ room, incognito room = true → room ∉ map

theorem not_mem_persisted {worker : Worker} {room : ℕ} (h : room ∈ worker.privateRooms) :
    room ∉ persisted worker := by
  intro hmem
  obtain ⟨hin, hkept⟩ := ExtTreeMap.mem_filter.mp hmem
  simp [h] at hkept

variable {settings path target incognito}

/-- A request of the chat rooms changes only the conversation of its room. -/
theorem receive_turn {env : Environment} {worker : Worker} {request : LlmTurnRequest}
    {origin : LlmOrigin} {reaction : Reaction} (hfrom : FromChatRooms incognito request origin)
    (hreaction : reaction = receive env path worker (turnMessage target request)) :
    ∃ handled, handled = handle env (turnMessage target request) worker.serverRunning
        (worker.conversations[origin.roomId]?.getD ⟨none⟩) ∧
      reaction.executed = handled.executed ∧
      reaction.worker.conversations =
        worker.conversations.insert origin.roomId handled.conversation ∧
      reaction.worker.privateRooms =
        (if incognito origin.roomId then insert origin.roomId worker.privateRooms
          else worker.privateRooms) ∧
      ∀ map ∈ reaction.saved, map = persisted reaction.worker := by
  refine ⟨_, rfl, ?_⟩
  subst hreaction
  have hreceive : receive env path worker (turnMessage target request) =
      receiveTurn env path worker (turnMessage target request) := by
    unfold receive
    rw [if_neg (by simp only [turnMessage]; decide), if_pos (by simp only [turnMessage]; decide)]
  have hroom : payloadRoom (turnMessage target request).message.payload = origin.roomId :=
    payloadRoom_encode hfrom.stamped
  have hflag : payloadIncognito (turnMessage target request).message.payload =
      incognito origin.roomId := by
    rw [← hfrom.flag]
    exact payloadIncognito_encode hfrom.stamped
  rw [hreceive]
  simp only [receiveTurn, hroom, hflag, true_and]
  intro map hmap
  split at hmap
  · exact (Option.mem_some.mp hmap).symm
  · cases hmap

/-- A trigger changes no conversation. -/
theorem receive_trigger {env : Environment} {worker : Worker} {message : RoutedMessage}
    {reaction : Reaction} (hkind : message.message.kind = memoryTriggerKind)
    (hreaction : reaction = receive env path worker message) :
    (reaction.executed = [] ∨ ∃ turn : LlmTurnRequest, turn.threadId = none ∧
        reaction.executed = [turn]) ∧
      reaction.worker.conversations = worker.conversations ∧
      reaction.worker.privateRooms = worker.privateRooms ∧ reaction.saved = none := by
  subst hreaction
  unfold receive
  rw [if_pos hkind]
  exact ⟨extraction_case env _ worker.serverRunning, rfl, rfl, rfl⟩

theorem isolated_trigger {s : Provider} {payload : Json} {env : Environment} {attempt : Attempt}
    {reaction : Reaction} {used : Set (ThreadUser × String)} (h : Isolated incognito s)
    (hreaction : reaction = receive env path s.worker (triggerMessage target payload))
    (hused : Realizes settings env attempt attempt .extraction s.used reaction.executed used) :
    Isolated incognito ⟨reaction.worker, used, s.saves ++ reaction.saved.toList⟩ := by
  obtain ⟨hexecuted, hconversations, hprivate, hsaved⟩ := receive_trigger rfl hreaction
  have huses : Exclusive used ∧ s.used ⊆ used := by
    rcases hexecuted with hnone | ⟨turn, hthread, hone⟩
    · rw [hnone] at hused
      cases hused
      exact ⟨h.exclusive, Set.Subset.rfl⟩
    · rw [hone] at hused
      cases hused with
      | once _ hreply hfresh =>
          refine ⟨withUse_exclusive h.exclusive (fun thread hsome => ?_) hfresh,
            subset_withUse attempt turn⟩
          rw [hthread] at hsome
          cases hsome
  refine ⟨huses.1, fun room thread hroom => ?_, fun room hroom hmem => ?_, ?_⟩
  · rw [hconversations] at hroom
    exact huses.2 (h.own room thread hroom)
  · rw [hconversations] at hmem
    rw [hprivate]
    exact h.hidden room hroom hmem
  · rw [hsaved, Option.toList_none, List.append_nil]
    exact h.saved

theorem isolated_turn {s : Provider} {request : LlmTurnRequest} {origin : LlmOrigin}
    {env : Environment} {first again : Attempt} {reaction : Reaction}
    {used : Set (ThreadUser × String)} (h : Isolated incognito s)
    (hfrom : FromChatRooms incognito request origin)
    (hreaction : reaction = receive env path s.worker (turnMessage target request))
    (hused : Realizes settings env first again (.room origin.roomId) s.used reaction.executed
      used) :
    Isolated incognito ⟨reaction.worker, used, s.saves ++ reaction.saved.toList⟩ := by
  obtain ⟨handled, hhandled, hexecuted, hconversations, hprivate, hsaved⟩ :=
    receive_turn hfrom hreaction
  rw [hexecuted] at hused
  have hown : ∀ thread, (s.worker.conversations[origin.roomId]?.getD ⟨none⟩).threadId =
      some thread → (.room origin.roomId, thread) ∈ s.used := by
    intro thread hthread
    cases hfound : s.worker.conversations[origin.roomId]? with
    | none => simp [hfound] at hthread
    | some conversation =>
        rw [hfound, Option.getD_some] at hthread
        refine h.own origin.roomId thread ?_
        rw [hfound, ← hthread]
  obtain ⟨hexclusive, hsub, hthread⟩ := turn_uses target hfrom.thread hhandled h.exclusive hown
    hused
  have hhidden : ∀ room, incognito room = true → room ∈ reaction.worker.conversations →
      room ∈ reaction.worker.privateRooms := by
    intro room hroom hmem
    rw [hconversations, ExtTreeMap.mem_insert] at hmem
    rw [hprivate]
    by_cases hsame : origin.roomId = room
    · subst hsame
      simp [hroom]
    · have hbefore := h.hidden room hroom (by simpa [hsame] using hmem)
      split
      · exact Finset.mem_insert_of_mem hbefore
      · exact hbefore
  refine ⟨hexclusive, fun room thread hroom => ?_, hhidden, fun map hmap room hroom hmem => ?_⟩
  · rw [hconversations, ExtTreeMap.getElem?_insert] at hroom
    split at hroom
    · next hsame =>
      obtain rfl : origin.roomId = room := by simpa using hsame
      refine hthread thread ?_
      rw [Option.some.inj hroom]
    · exact hsub (h.own room thread hroom)
  · rcases List.mem_append.mp hmap with hearlier | hnow
    · exact h.saved map hearlier room hroom hmem
    · rw [hsaved map (Option.mem_toList.mp hnow)] at hmem
      exact not_mem_persisted (hhidden room hroom (ExtTreeMap.mem_of_mem_filter hmem)) hmem

theorem isolated_step {s s' : Provider} {op : ProviderOp} (h : Isolated incognito s)
    (hstep : ProviderStep settings path target incognito s op s') : Isolated incognito s' := by
  cases hstep with
  | turn hfrom hreaction hused => exact isolated_turn h hfrom hreaction hused
  | trigger hreaction hused => exact isolated_trigger h hreaction hused

theorem isolated_loaded {serverRunning : Bool} {loaded : ExtTreeMap ℕ ConversationState}
    (hdistinct : DistinctThreads loaded)
    (hordinary : ∀ room, incognito room = true → room ∉ loaded) :
    Isolated incognito (loadedProvider serverRunning loaded) where
  exclusive := by
    rintro owner owner' thread ⟨room, _, hroom, huse⟩ ⟨room', _, hroom', huse'⟩
    cases huse
    cases huse'
    rw [hdistinct room room' thread hroom hroom']
  own room thread hroom := ⟨room, thread, hroom, rfl⟩
  hidden room hroom hmem := absurd hmem (hordinary room hroom)
  saved map hmap := by cases hmap

/-- In every run of a worker that loaded distinct threads of ordinary rooms, whatever its
turns and extractions come to: no two rooms have the same thread, a thread that a room has
used is used by nobody else, and no incognito room is ever saved. -/
theorem provider_threads_isolated {serverRunning : Bool}
    {loaded : ExtTreeMap ℕ ConversationState} {ops : List ProviderOp} {s : Provider}
    (hdistinct : DistinctThreads loaded)
    (hordinary : ∀ room, incognito room = true → room ∉ loaded)
    (hrun : Run (ProviderStep settings path target incognito)
      (loadedProvider serverRunning loaded) ops s) :
    DistinctThreads s.worker.conversations ∧
      (∀ room thread user, (.room room, thread) ∈ s.used → (user, thread) ∈ s.used →
        user = .room room) ∧
      ∀ map ∈ s.saves, ∀ room, incognito room = true → room ∉ map := by
  have h : Isolated incognito s :=
    hrun.invariant (fun _ _ _ h hstep => isolated_step h hstep)
      (isolated_loaded hdistinct hordinary)
  refine ⟨fun room room' thread hroom hroom' => ?_, fun room thread user hroom huser => ?_,
    h.saved⟩
  · have hsame := h.exclusive _ _ _ (h.own room thread hroom) (h.own room' thread hroom')
    exact ThreadUser.room.inj hsame
  · exact h.exclusive _ _ _ huser hroom

def catalogOnly : Tools := {noTools with catalog := fun _ => .ok [.str "read_chat_context"]}

/-- An app-server that starts this thread and completes the turn on it. -/
def startingThread (thread : String) : Attempt where
  env := ⟨⟨fun _ => "", fun _ => .ok (), fun _ => catalogOnly⟩, fun _ => ""⟩
  server := ⟨[], ∅, 0, [], []⟩
  incoming := [
    .ok (.obj [("id", .ofNat 1), ("result", .obj [("thread", .obj [("id", .str thread)])])]),
    .ok (.obj [("id", .ofNat 2), ("result", .obj [("turn", .obj [("id", .str "turn-1")])])]),
    .ok (.obj [("method", .str "turn/completed"), ("params", .obj [("turn",
      .obj [("id", .str "turn-1"), ("status", .str "completed")])])])]

def onThread (thread : String) : Environment where
  decodeError _ := "invalid type"
  toText _ := "\"Plans\""
  memory := none
  start := .ok ()
  turn r := ((startingThread thread).reply inWorkspace r).getD (.error (.io "closed"))
  repeated r := ((startingThread thread).reply inWorkspace r).getD (.error (.io "closed"))

def asking (room : ℕ) (incognito : Bool) : LlmTurnRequest :=
  ⟨"1", "hello", some ⟨.solo, room, "Plans", incognito⟩, some "chat.rooms", some .direct, none, []⟩

def asks (room : ℕ) (incognito : Bool) (thread : String) : ProviderOp :=
  .turn (asking room incognito) ⟨.solo, room, "Plans", incognito⟩ (onThread thread)
    (startingThread thread) (startingThread thread)

/-- An incognito room and then an ordinary one; the second turn saves the map. -/
theorem provider_threads_isolated_two :
    ∃ s : Provider, Run (ProviderStep inWorkspace (some "map.json") chatRoomsKey (· == 3))
        (loadedProvider true ∅) [asks 3 true "thread-1", asks 5 false "thread-2"] s ∧
      s.worker.conversations[3]? = some ⟨some "thread-1"⟩ ∧
      s.worker.conversations[5]? = some ⟨some "thread-2"⟩ ∧ s.saves.length = 1 ∧
      DistinctThreads s.worker.conversations ∧ ∀ map ∈ s.saves, 3 ∉ map := by
  have hfirst : ProviderStep inWorkspace (some "map.json") chatRoomsKey (· == 3)
      (loadedProvider true ∅) (asks 3 true "thread-1") _ :=
    .turn ⟨rfl, by decide, rfl, rfl⟩ rfl (.once _ rfl (by
      rintro - thread - user ⟨room, _, hroom, -⟩
      cases hroom))
  obtain ⟨s, hrun, hthree, hfive, hlength⟩ : ∃ s : Provider,
      Run (ProviderStep inWorkspace (some "map.json") chatRoomsKey (· == 3))
        (loadedProvider true ∅) [asks 3 true "thread-1", asks 5 false "thread-2"] s ∧
      s.worker.conversations[3]? = some ⟨some "thread-1"⟩ ∧
      s.worker.conversations[5]? = some ⟨some "thread-2"⟩ ∧ s.saves.length = 1 := by
    refine ⟨_, (Run.single hfirst).snoc (.turn ⟨rfl, by decide, rfl, rfl⟩ rfl (.once _ rfl ?_)),
      rfl, rfl, rfl⟩
    rintro - thread hthread user huser
    cases hthread
    rcases Set.mem_insert_iff.mp huser with huse | ⟨room, _, hroom, -⟩
    · have hsame : "thread-2" = "thread-1" := congrArg Prod.snd huse
      exact absurd hsame (by decide)
    · cases hroom
  obtain ⟨hdistinct, -, hsaved⟩ := provider_threads_isolated (fun _ _ _ h => by cases h)
    (fun room _ hmem => by cases hmem) hrun
  exact ⟨s, hrun, hthree, hfive, hlength, hdistinct, fun map hmap => hsaved map hmap 3 rfl⟩

end NormaHarness.CodexWorker
