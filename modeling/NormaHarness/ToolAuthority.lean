import NormaHarness.CallDemultiplexing
import NormaHarness.TurnExecution

/-!
# Tool calls and the turn that answers them

Requests of the process are answered on two paths: while a call waits for its response,
and in the event loop. What a turn writes is listed with the context in which each request
was answered. The event loop compares a tool call with its own turn. A call that waits for
the start of a turn does not, so there it is up to the process to send no foreign ones.
-/
namespace NormaHarness.AppServer
open Identifiers Contracts JsonValues LlmProtocol ToolProtocol Media CodexWorker

/-! ## Answers -/

/-- What a request of the process is answered, and the assets published so far. -/
def answer (env : Environment) (context : Option LlmTurnRequest) (request : Json) (s : Server) :
    Json × List MediaAsset :=
  let id := request.get "id"
  let method := (request.get "method").asStr.getD ""
  if method = "item/tool/call" then
    let output := toolOutput env.toText (env.tools s.written.length) context s.publishedMedia
      (request.get "params")
    (toolAnswer id output.1, output.2)
  else if method = "item/commandExecution/requestApproval" ∨
      method = "item/fileChange/requestApproval" then
    (declined id, s.publishedMedia)
  else (unsupported id method, s.publishedMedia)

theorem answerServerRequest_eq (env : Environment) (context : Option LlmTurnRequest)
    (request : Json) (s : Server) : answerServerRequest env context request s =
      write env (answer env context request s).1
        {s with publishedMedia := (answer env context request s).2} := by
  unfold answerServerRequest answer
  dsimp only
  split_ifs <;> rfl

theorem answerServerRequest_ok {env : Environment} {context : Option LlmTurnRequest}
    {request : Json} {s s' : Server} (h : answerServerRequest env context request s = .ok s') :
    env.stdin s.written.length = .ok () ∧
      s'.written = s.written ++ [(answer env context request s).1] := by
  rw [answerServerRequest_eq, write] at h
  split at h
  · cases h
  · next hstdin =>
    obtain rfl := Except.ok.inj h
    exact ⟨hstdin, rfl⟩

theorem answerServerRequest_error {env : Environment} {context : Option LlmTurnRequest}
    {request : Json} {s : Server} {error : AppServerError}
    (h : answerServerRequest env context request s = .error error) :
    env.stdin s.written.length ≠ .ok () := by
  rw [answerServerRequest_eq, write] at h
  split at h
  · next hstdin =>
    rw [hstdin]
    exact nofun
  · cases h

def isToolCall (m : Json) : Bool := (m.get "method").asStr == some "item/tool/call"

/-- The tools that the Resident offers in its turns. -/
def isResidentTool (params : Json) : Bool :=
  isTool params "read_chat_context" || isTool params "read_resident_memory" ||
    isTool params "list_group_members" || isTool params "publish_media"

/-- Without a turn no tool is executed. -/
theorem answer_outside (env : Environment) {request : Json} (s : Server)
    (hcall : isToolCall request = true) (htool : isResidentTool (request.get "params") = true) :
    answer env none request s = (toolAnswer (request.get "id") outsideTurn, s.publishedMedia) := by
  have hmethod : (request.get "method").asStr.getD "" = "item/tool/call" := by
    rw [beq_iff_eq.mp hcall]
    rfl
  have houtput : toolOutput env.toText (env.tools s.written.length) none s.publishedMedia
      (request.get "params") = (outsideTurn, s.publishedMedia) := by
    unfold toolOutput
    simp only [isResidentTool, Bool.or_eq_true] at htool
    split_ifs with hcontext hmemory hmembers hpublish
    · rfl
    · rfl
    · rfl
    · rfl
    · simp [hcontext, hmemory, hmembers, hpublish] at htool
  unfold answer
  simp only [hmethod, houtput, if_true]

/-! ## What a turn writes -/

/-- A request of the process when it is answered: the context, the connection, and the
identity of the turn, once it is known. -/
structure Service where
  request : Json
  context : Option LlmTurnRequest
  server : Server
  turnId : Option String

inductive Act where
  | calls (message : Json)
  | serves (v : Service)

/-- The tool call is executed with the authority of a turn. -/
def Service.Executed (v : Service) : Prop :=
  v.context.isSome ∧ isToolCall v.request = true ∧
    isResidentTool (v.request.get "params") = true

def Act.written (env : Environment) : Act → List Json
  | .calls message => [message]
  | .serves v =>
    match env.stdin v.server.written.length with
    | .ok () => [(answer env v.context v.request v.server).1]
    | .error _ => []

def Called.acts {α : Type} (called : Called α) (next : α → Server → Incoming → List Act) :
    List Act :=
  match called.reply with
  | some (.ok a) => next a called.server called.rest
  | _ => []

theorem mem_acts {α : Type} {called : Called α} {next : α → Server → Incoming → List Act}
    {act : Act} : act ∈ called.acts next ↔
      ∃ a, called.reply = some (.ok a) ∧ act ∈ next a called.server called.rest := by
  obtain ⟨reply, server, rest⟩ := called
  cases reply with
  | none => exact ⟨fun h => (List.not_mem_nil h).elim, fun ⟨_, h, _⟩ => nomatch h⟩
  | some reply =>
      cases reply with
      | error error => exact ⟨fun h => (List.not_mem_nil h).elim, fun ⟨_, h, _⟩ => nomatch h⟩
      | ok a => simp [Called.acts]

def awaitActs (env : Environment) (context : Option LlmTurnRequest) (id : ℕ) :
    Incoming → Server → List Act
  | [], _ => []
  | .error _ :: _, _ => []
  | .ok message :: rest, s =>
    if (message.get "id").asU64 = some id then []
    else if message.has "id" && message.has "method" then
      .serves ⟨message, context, s, none⟩ ::
        match answerServerRequest env context message s with
        | .error _ => []
        | .ok s => awaitActs env context id rest s
    else if message.has "method" then
      awaitActs env context id rest {s with pending := s.pending ++ [message]}
    else awaitActs env context id rest s

def callActs (env : Environment) (context : Option LlmTurnRequest) (method : String)
    (params : Json) (s : Server) (incoming : Incoming) : List Act :=
  let s := {s with nextId := s.nextId + 1}
  match write env (callMessage s.nextId method params) s with
  | .error _ => []
  | .ok sent =>
      .calls (callMessage s.nextId method params) :: awaitActs env context s.nextId incoming sent

def eventActs (request : LlmTurnRequest) (thread turnId : String) (event : Json) (s : Server) :
    List Act :=
  if event.has "id" && event.has "method" then
    let context := if isForeignCall thread turnId event then none else some request
    [.serves ⟨event, context, s, some turnId⟩]
  else []

def readActs (env : TurnEnvironment) (request : LlmTurnRequest) (thread turnId : String) :
    Incoming → TurnProgress → Server → List Act
  | [], _, _ => []
  | .error _ :: _, _, _ => []
  | .ok event :: rest, p, s =>
    eventActs request thread turnId event s ++
      match onEvent env request thread turnId event p s with
      | .continues p s => readActs env request thread turnId rest p s
      | .ends _ _ => []

def loopActs (env : TurnEnvironment) (request : LlmTurnRequest) (thread turnId : String)
    (incoming : Incoming) : List Json → TurnProgress → Server → List Act
  | [], p, s => readActs env request thread turnId incoming p {s with pending := []}
  | event :: pending, p, s =>
    eventActs request thread turnId event s ++
      match onEvent env request thread turnId event p s with
      | .continues p s => loopActs env request thread turnId incoming pending p s
      | .ends _ _ => []

def selectActs (env : TurnEnvironment) (settings : Settings) (cwd : String)
    (request : LlmTurnRequest) (s : Server) (incoming : Incoming) : List Act :=
  match dynamicTools env request s with
  | .error _ => []
  | .ok tools =>
    match request.threadId with
    | some thread =>
        if thread ∈ s.loadedThreads then []
        else
          callActs env.toEnvironment none "thread/resume"
            (.obj [("dynamicTools", .arr tools), ("threadId", .str thread)]) s incoming
    | none =>
        callActs env.toEnvironment none "thread/start" (startParams settings cwd tools) s incoming

def startActs (env : TurnEnvironment) (settings : Settings) (cwd : String)
    (request : LlmTurnRequest) (thread : String) (s : Server) (incoming : Incoming) : List Act :=
  let params := turnParams settings cwd thread request
  callActs env.toEnvironment (some request) "turn/start" params s incoming ++
    (callWithTool env.toEnvironment (some request) "turn/start" params s incoming).acts
      fun response s incoming =>
        match stringAt response ["turn", "id"] "turn/start.turn.id" with
        | .error _ => []
        | .ok turnId =>
            loopActs env request thread turnId incoming s.pending ⟨none, none, false, []⟩ s

def turnActs (env : TurnEnvironment) (settings : Settings) (request : LlmTurnRequest)
    (s : Server) (incoming : Incoming) : List Act :=
  let s := {s with publishedMedia := []}
  match settings.cwd with
  | none => []
  | some cwd =>
      selectActs env settings cwd request s incoming ++
        (selectThread env settings cwd request s incoming).acts fun thread s incoming =>
          startActs env settings cwd request thread s incoming

/-! ## Nothing else is written -/

section

variable {env : Environment} {context : Option LlmTurnRequest} {s : Server}

theorem serves_written {request : Json} {served : Server} {turnId : Option String}
    (h : answerServerRequest env context request s = .ok served) :
    served.written = s.written ++ (Act.serves ⟨request, context, s, turnId⟩).written env := by
  obtain ⟨hstdin, hwritten⟩ := answerServerRequest_ok h
  rw [hwritten]
  simp only [Act.written, hstdin]

theorem refused_written {request : Json} {error : AppServerError} {turnId : Option String}
    (h : answerServerRequest env context request s = .error error) :
    (Act.serves ⟨request, context, s, turnId⟩).written env = [] := by
  have hstdin := answerServerRequest_error h
  cases hout : env.stdin s.written.length with
  | ok u => exact absurd hout hstdin
  | error error => simp only [Act.written, hout]

theorem awaitActs_written (env : Environment) (context : Option LlmTurnRequest) (id : ℕ)
    (method : String) (incoming : Incoming) (s : Server) :
    (awaitResponse env context id method incoming s).server.written =
      s.written ++ (awaitActs env context id incoming s).flatMap (Act.written env) := by
  induction incoming generalizing s with
  | nil => exact (List.append_nil _).symm
  | cons first rest ih =>
      cases first with
      | error error => exact (List.append_nil _).symm
      | ok m =>
          unfold awaitResponse awaitActs
          split_ifs
          · exact (List.append_nil _).symm
          · rw [List.flatMap_cons]
            cases hserved : answerServerRequest env context m s with
            | error error =>
                rw [refused_written hserved]
                exact (List.append_nil _).symm
            | ok served =>
                simp only
                rw [ih, serves_written hserved, List.append_assoc]
          · exact ih {s with pending := s.pending ++ [m]}
          · exact ih s

theorem callActs_written (env : Environment) (context : Option LlmTurnRequest) (method : String)
    (params : Json) (s : Server) (incoming : Incoming) :
    (callWithTool env context method params s incoming).server.written =
      s.written ++ (callActs env context method params s incoming).flatMap (Act.written env) := by
  unfold callWithTool callActs
  dsimp only
  cases hwrite : write env (callMessage (s.nextId + 1) method params)
      {s with nextId := s.nextId + 1} with
  | error error => exact (List.append_nil _).symm
  | ok sent =>
      have hsent : sent.written = s.written ++ [callMessage (s.nextId + 1) method params] := by
        unfold write at hwrite
        split at hwrite
        · cases hwrite
        · obtain rfl := Except.ok.inj hwrite
          rfl
      simp only
      rw [awaitActs_written, hsent, List.flatMap_cons, List.append_assoc]
      rfl

/-- What is written by a computation and by the one that follows it. -/
theorem acts_written {α β : Type} {called : Called α} {next : α → Server → Incoming → Called β}
    {first : List Act} {later : α → Server → Incoming → List Act}
    (hfirst : called.server.written = s.written ++ first.flatMap (Act.written env))
    (hlater : ∀ a s' incoming, (next a s' incoming).server.written =
      s'.written ++ (later a s' incoming).flatMap (Act.written env)) :
    (called.andThen next).server.written =
      s.written ++ (first ++ called.acts later).flatMap (Act.written env) := by
  rw [List.flatMap_append, ← List.append_assoc, ← hfirst]
  obtain ⟨reply, server, rest⟩ := called
  cases reply with
  | none => exact (List.append_nil _).symm
  | some reply =>
      cases reply with
      | error error => exact (List.append_nil _).symm
      | ok a => exact hlater a server rest

end

section

variable {env : TurnEnvironment} {settings : Settings} {request : LlmTurnRequest}
  {thread turnId : String}

/-- What follows the call of a thread writes nothing. -/
theorem andThen_written {α β : Type} {called : Called α}
    {next : α → Server → Incoming → Called β}
    (h : ∀ a s incoming, (next a s incoming).server.written = s.written) :
    (called.andThen next).server.written = called.server.written := by
  obtain ⟨reply, server, rest⟩ := called
  cases reply with
  | none => rfl
  | some reply =>
      cases reply with
      | error error => rfl
      | ok a => exact h a server rest

theorem publishGenerated_written (env : TurnEnvironment) (request : LlmTurnRequest)
    (turnId : String) (images : List GeneratedImage) (s : Server) :
    (publishGenerated env request turnId images s).written = s.written := by
  unfold publishGenerated
  split_ifs <;> rfl

theorem completed_written (turn : Json) (p : TurnProgress) (s : Server) :
    (completed env request thread turnId turn p s).2.written = s.written := by
  unfold completed
  dsimp only
  split
  · exact publishGenerated_written env request turnId _ s
  · exact publishGenerated_written env request turnId _ s

/-- Where an event leaves the connection. -/
def EventOutcome.server : EventOutcome → Server
  | .continues _ s => s
  | .ends _ s => s

theorem eventActs_written (event : Json) (p : TurnProgress) (s : Server) :
    (onEvent env request thread turnId event p s).server.written = s.written ++
      (eventActs request thread turnId event s).flatMap (Act.written env.toEnvironment) := by
  unfold onEvent eventActs
  dsimp only
  by_cases hrequest : (event.has "id" && event.has "method") = true
  · rw [if_pos hrequest, if_pos hrequest, List.flatMap_singleton]
    generalize (if isForeignCall thread turnId event then none else some request) = context
    cases hserved : answerServerRequest env.toEnvironment context event s with
    | error error =>
        rw [refused_written hserved]
        exact (List.append_nil _).symm
    | ok served => exact serves_written hserved
  · rw [if_neg hrequest, if_neg hrequest]
    split_ifs
    · exact (List.append_nil _).symm
    · exact (List.append_nil _).symm
    · exact (completed_written _ p s).trans (List.append_nil _).symm
    · exact (List.append_nil _).symm

theorem readActs_written (incoming : Incoming) (p : TurnProgress) (s : Server) :
    (readEvents env request thread turnId incoming p s).server.written = s.written ++
      (readActs env request thread turnId incoming p s).flatMap
        (Act.written env.toEnvironment) := by
  induction incoming generalizing p s with
  | nil => exact (List.append_nil _).symm
  | cons first rest ih =>
      cases first with
      | error error => exact (List.append_nil _).symm
      | ok event =>
          unfold readEvents readActs
          rw [List.flatMap_append, ← List.append_assoc, ← eventActs_written event p s]
          cases onEvent env request thread turnId event p s with
          | continues p' s' => exact ih p' s'
          | ends reply s' => exact (List.append_nil _).symm

theorem loopActs_written (incoming : Incoming) (pending : List Json) (p : TurnProgress)
    (s : Server) :
    (eventLoop env request thread turnId incoming pending p s).server.written = s.written ++
      (loopActs env request thread turnId incoming pending p s).flatMap
        (Act.written env.toEnvironment) := by
  induction pending generalizing p s with
  | nil => exact readActs_written incoming p {s with pending := []}
  | cons event rest ih =>
      unfold eventLoop loopActs
      rw [List.flatMap_append, ← List.append_assoc, ← eventActs_written event p s]
      cases onEvent env request thread turnId event p s with
      | continues p' s' => exact ih p' s'
      | ends reply s' => exact (List.append_nil _).symm

theorem selectActs_written (cwd : String) (s : Server) (incoming : Incoming) :
    (selectThread env settings cwd request s incoming).server.written = s.written ++
      (selectActs env settings cwd request s incoming).flatMap
        (Act.written env.toEnvironment) := by
  unfold selectThread selectActs
  cases dynamicTools env request s with
  | error error => exact (List.append_nil _).symm
  | ok tools =>
      simp only
      cases request.threadId with
      | some thread =>
          simp only
          unfold resumeThread
          split_ifs
          · exact (List.append_nil _).symm
          · exact (andThen_written fun _ _ _ => rfl).trans
              (callActs_written env.toEnvironment none "thread/resume" _ s incoming)
      | none =>
          refine Eq.trans (andThen_written fun response s' incoming' => ?_)
            (callActs_written env.toEnvironment none "thread/start" _ s incoming)
          cases stringAt response ["thread", "id"] "thread/start.thread.id" with
          | error error => rfl
          | ok thread => rfl

theorem startActs_written (cwd : String) (s : Server) (incoming : Incoming) :
    (startTurn env settings cwd request thread s incoming).server.written = s.written ++
      (startActs env settings cwd request thread s incoming).flatMap
        (Act.written env.toEnvironment) := by
  refine acts_written (callActs_written env.toEnvironment (some request) "turn/start"
    (turnParams settings cwd thread request) s incoming) fun response s' incoming' => ?_
  cases stringAt response ["turn", "id"] "turn/start.turn.id" with
  | error error => exact (List.append_nil _).symm
  | ok turnId => exact loopActs_written incoming' s'.pending ⟨none, none, false, []⟩ s'

/-- A turn writes its own calls and its answers, each in the context that is listed. -/
theorem turnActs_written (s : Server) (incoming : Incoming) :
    (runTurn env settings request s incoming).server.written = s.written ++
      (turnActs env settings request s incoming).flatMap (Act.written env.toEnvironment) := by
  unfold runTurn turnActs
  dsimp only
  cases settings.cwd with
  | none => exact (List.append_nil _).symm
  | some cwd =>
      exact acts_written (selectActs_written cwd {s with publishedMedia := []} incoming)
        fun _ s' incoming' => startActs_written cwd s' incoming'

end

/-! ## Requests that are read before a response -/

/-- The message is read by the call with this identity, when so many messages have been
written: none before it is the response, and the pipe takes their answers. -/
inductive ReadBefore (env : Environment) (id : ℕ) : ℕ → Incoming → Json → Prop
  | here {n : ℕ} {m : Json} {rest : Incoming} : (m.get "id").asU64 ≠ some id →
      ReadBefore env id n (.ok m :: rest) m
  | request {n : ℕ} {k m : Json} {rest : Incoming} : (k.get "id").asU64 ≠ some id →
      isRequest k = true → env.stdin n = .ok () → ReadBefore env id (n + 1) rest m →
      ReadBefore env id n (.ok k :: rest) m
  | other {n : ℕ} {k m : Json} {rest : Incoming} : (k.get "id").asU64 ≠ some id →
      isRequest k = false → ReadBefore env id n rest m → ReadBefore env id n (.ok k :: rest) m

section

variable {env : Environment} {context : Option LlmTurnRequest} {id : ℕ} {v : Service}

theorem awaitActs_context {incoming : Incoming} {s : Server}
    (h : .serves v ∈ awaitActs env context id incoming s) :
    v.context = context ∧ v.turnId = none := by
  induction incoming generalizing s with
  | nil => cases h
  | cons first rest ih =>
      cases first with
      | error error => cases h
      | ok m =>
          unfold awaitActs at h
          split_ifs at h
          · cases h
          · rcases List.mem_cons.mp h with hv | h
            · obtain rfl := Act.serves.inj hv
              exact ⟨rfl, rfl⟩
            · cases hserved : answerServerRequest env context m s with
              | error error =>
                  rw [hserved] at h
                  cases h
              | ok served =>
                  rw [hserved] at h
                  exact ih h
          · exact ih h
          · exact ih h

/-- A message that is no request is passed over. -/
theorem readBefore_skip {rest : Incoming} {n : ℕ} {k m : Json} {P : Prop}
    (hid : (k.get "id").asU64 ≠ some id) (hrequest : isRequest k = false)
    (h : P ↔ ReadBefore env id n rest m ∧ isRequest m = true) :
    P ↔ ReadBefore env id n (.ok k :: rest) m ∧ isRequest m = true := by
  refine h.trans (and_congr_left fun hm =>
    ⟨fun hread => .other hid hrequest hread, fun hread => ?_⟩)
  cases hread with
  | here _ => exact absurd hm (Bool.eq_false_iff.mp hrequest)
  | request _ hnot _ _ => exact absurd hnot (Bool.eq_false_iff.mp hrequest)
  | other _ _ hread => exact hread

/-- Nothing is read from a response on. -/
theorem readBefore_response {rest : Incoming} {n : ℕ} {k m : Json}
    (hid : (k.get "id").asU64 = some id) : ¬ReadBefore env id n (.ok k :: rest) m := by
  intro hread
  cases hread with
  | here hne => exact hne hid
  | request hne _ _ _ => exact hne hid
  | other hne _ _ => exact hne hid

/-- A request is read, and what follows it if the pipe takes the answer. -/
theorem readBefore_request {rest : Incoming} {n : ℕ} {k m : Json}
    (hid : (k.get "id").asU64 ≠ some id) (hrequest : isRequest k = true) :
    ReadBefore env id n (.ok k :: rest) m ↔
      k = m ∨ env.stdin n = .ok () ∧ ReadBefore env id (n + 1) rest m := by
  constructor
  · intro hread
    cases hread with
    | here _ => exact .inl rfl
    | request _ _ hstdin hread => exact .inr ⟨hstdin, hread⟩
    | other _ hnot _ => exact absurd hrequest (Bool.eq_false_iff.mp hnot)
  · rintro (rfl | ⟨hstdin, hread⟩)
    · exact .here hid
    · exact .request hid hrequest hstdin hread

/-- The requests that a waiting call answers are those that it reads. -/
theorem awaitActs_serves {incoming : Incoming} {s : Server} {m : Json} :
    (∃ v, .serves v ∈ awaitActs env context id incoming s ∧ v.request = m) ↔
      ReadBefore env id s.written.length incoming m ∧ isRequest m = true := by
  induction incoming generalizing s with
  | nil => exact ⟨fun ⟨_, h, _⟩ => (List.not_mem_nil h).elim, nofun⟩
  | cons first rest ih =>
      cases first with
      | error error => exact ⟨fun ⟨_, h, _⟩ => (List.not_mem_nil h).elim, nofun⟩
      | ok k =>
          unfold awaitActs
          split_ifs with hid hrequest hmethod
          · exact iff_of_false (fun ⟨_, h, _⟩ => List.not_mem_nil h)
              fun h => readBefore_response hid h.1
          · rw [readBefore_request hid hrequest]
            cases hserved : answerServerRequest env context k s with
            | error error =>
                have hstdin := answerServerRequest_error hserved
                constructor
                · rintro ⟨v, hv, rfl⟩
                  obtain rfl := Act.serves.inj (List.mem_singleton.mp hv)
                  exact ⟨.inl rfl, hrequest⟩
                · rintro ⟨rfl | ⟨hok, _⟩, _⟩
                  · exact ⟨_, List.mem_singleton.mpr rfl, rfl⟩
                  · exact absurd hok hstdin
            | ok served =>
                obtain ⟨hstdin, hwritten⟩ := answerServerRequest_ok hserved
                have hlength : served.written.length = s.written.length + 1 := by
                  rw [hwritten, List.length_append, List.length_singleton]
                have ih' := ih (s := served)
                rw [hlength] at ih'
                constructor
                · rintro ⟨v, hv, rfl⟩
                  rcases List.mem_cons.mp hv with hv | hv
                  · obtain rfl := Act.serves.inj hv
                    exact ⟨.inl rfl, hrequest⟩
                  · obtain ⟨hread, hm⟩ := ih'.mp ⟨v, hv, rfl⟩
                    exact ⟨.inr ⟨hstdin, hread⟩, hm⟩
                · rintro ⟨rfl | ⟨_, hread⟩, hm⟩
                  · exact ⟨_, List.mem_cons_self, rfl⟩
                  · obtain ⟨v, hv, hvm⟩ := ih'.mpr ⟨hread, hm⟩
                    exact ⟨v, List.mem_cons_of_mem _ hv, hvm⟩
          · exact readBefore_skip hid (Bool.eq_false_iff.mpr hrequest) ih
          · exact readBefore_skip hid (Bool.eq_false_iff.mpr hrequest) ih

end

/-! ## The event loop -/

section

variable {env : TurnEnvironment} {request : LlmTurnRequest} {thread turnId : String} {v : Service}

def namesThread (thread : String) (m : Json) : Prop :=
  ((m.get "params").get "threadId").asStr = some thread

def namesTurn (turnId : String) (m : Json) : Prop :=
  ((m.get "params").get "turnId").asStr = some turnId

/-- A request of the event loop, which knows its turn. -/
structure Service.InLoop (request : LlmTurnRequest) (thread turnId : String) (v : Service) :
    Prop where
  turn : v.turnId = some turnId
  context : v.context = if isForeignCall thread turnId v.request then none else some request

theorem eventActs_inLoop {event : Json} {s : Server}
    (h : .serves v ∈ eventActs request thread turnId event s) :
    v.InLoop request thread turnId := by
  unfold eventActs at h
  by_cases hrequest : (event.has "id" && event.has "method") = true
  · rw [if_pos hrequest] at h
    obtain rfl := Act.serves.inj (List.mem_singleton.mp h)
    exact ⟨rfl, rfl⟩
  · rw [if_neg hrequest] at h
    cases h

theorem readActs_inLoop {incoming : Incoming} {p : TurnProgress} {s : Server}
    (h : .serves v ∈ readActs env request thread turnId incoming p s) :
    v.InLoop request thread turnId := by
  induction incoming generalizing p s with
  | nil => cases h
  | cons first rest ih =>
      cases first with
      | error error => cases h
      | ok event =>
          unfold readActs at h
          rcases List.mem_append.mp h with h | h
          · exact eventActs_inLoop h
          · cases hevent : onEvent env request thread turnId event p s with
            | continues p' s' =>
                rw [hevent] at h
                exact ih h
            | ends reply s' =>
                rw [hevent] at h
                cases h

theorem loopActs_inLoop {incoming : Incoming} {pending : List Json} {p : TurnProgress}
    {s : Server} (h : .serves v ∈ loopActs env request thread turnId incoming pending p s) :
    v.InLoop request thread turnId := by
  induction pending generalizing p s with
  | nil => exact readActs_inLoop h
  | cons event rest ih =>
      unfold loopActs at h
      rcases List.mem_append.mp h with h | h
      · exact eventActs_inLoop h
      · cases hevent : onEvent env request thread turnId event p s with
        | continues p' s' =>
            rw [hevent] at h
            exact ih h
        | ends reply s' =>
            rw [hevent] at h
            cases h

/-- The event loop executes the tool calls of its own turn only. -/
theorem Service.InLoop.own (h : v.InLoop request thread turnId) (hexecuted : v.Executed) :
    v.context = some request ∧ namesThread thread v.request ∧ namesTurn turnId v.request := by
  obtain ⟨hcontext, hcall, _⟩ := hexecuted
  have hforeign : isForeignCall thread turnId v.request = false := by
    by_contra hforeign
    rw [h.context, if_pos (Bool.not_eq_false _ ▸ hforeign)] at hcontext
    cases hcontext
  have hcontext' := h.context
  rw [hforeign] at hcontext'
  have hmethod : ((v.request.get "method").asStr == some "item/tool/call") = true := hcall
  simp only [isForeignCall, hmethod, Bool.true_and, Bool.or_eq_false_iff, bne_eq_false_iff_eq]
    at hforeign
  exact ⟨hcontext', hforeign⟩

end

/-! ## The authority of a turn -/

theorem write_nextId {env : Environment} {message : Json} {s s' : Server}
    (h : write env message s = .ok s') : s'.nextId = s.nextId := by
  unfold write at h
  split at h
  · cases h
  · obtain rfl := Except.ok.inj h
    rfl

theorem mem_callActs {env : Environment} {context : Option LlmTurnRequest} {method : String}
    {params : Json} {s : Server} {incoming : Incoming} {v : Service} :
    .serves v ∈ callActs env context method params s incoming ↔
      ∃ sent, write env (callMessage (s.nextId + 1) method params)
          {s with nextId := s.nextId + 1} = .ok sent ∧
        .serves v ∈ awaitActs env context sent.nextId incoming sent := by
  unfold callActs
  dsimp only
  cases hsent : write env (callMessage (s.nextId + 1) method params)
      {s with nextId := s.nextId + 1} with
  | error error => exact ⟨fun h => (List.not_mem_nil h).elim, fun ⟨_, h, _⟩ => nomatch h⟩
  | ok sent =>
      have hid : sent.nextId = s.nextId + 1 := write_nextId hsent
      simp only [List.mem_cons, reduceCtorEq, false_or, Except.ok.injEq, exists_eq_left', hid]

theorem callActs_context {env : Environment} {context : Option LlmTurnRequest} {method : String}
    {params : Json} {s : Server} {incoming : Incoming} {v : Service}
    (h : .serves v ∈ callActs env context method params s incoming) :
    v.context = context ∧ v.turnId = none := by
  obtain ⟨sent, _, hv⟩ := mem_callActs.mp h
  exact awaitActs_context hv

theorem selectActs_context {env : TurnEnvironment} {settings : Settings} {cwd : String}
    {request : LlmTurnRequest} {s : Server} {incoming : Incoming} {v : Service}
    (h : .serves v ∈ selectActs env settings cwd request s incoming) : v.context = none := by
  unfold selectActs at h
  split at h
  · cases h
  · split at h
    · split_ifs at h
      · cases h
      · exact (callActs_context h).1
    · exact (callActs_context h).1

namespace Attempt
variable (settings : Settings) (a : Attempt) (request : LlmTurnRequest)

/-- What the turn writes, in order. -/
def acts : List Act := turnActs a.env settings request a.server a.incoming

/-- The thread of a turn whose start has been requested, with the connection and the input
at that moment. -/
def waiting : Option (String × Server × Incoming) :=
  match settings.cwd with
  | none => none
  | some cwd =>
    let selected := selectThread a.env settings cwd request {a.server with publishedMedia := []}
      a.incoming
    match selected.reply with
    | some (.ok thread) =>
      match write a.env.toEnvironment (callMessage (selected.server.nextId + 1) "turn/start"
          (turnParams settings cwd thread request))
          {selected.server with nextId := selected.server.nextId + 1} with
      | .ok sent => some (thread, sent, selected.rest)
      | .error _ => none
    | _ => none

/-- A tool call that is executed with the authority of a turn names its thread and, once it
is known, the turn. -/
def ToolCallsOwnTurn : Prop :=
  ∀ v, .serves v ∈ a.acts settings request → v.Executed → v.context = some request ∧
    ∃ thread, a.thread settings request = some thread ∧ namesThread thread v.request ∧
      ∀ turnId, v.turnId = some turnId → namesTurn turnId v.request

/-- Calls of the Resident's tools that are read while the start of the turn is awaited name
the thread of the turn. -/
def EarlyCallsOwn : Prop :=
  ∀ thread s incoming, a.waiting settings request = some (thread, s, incoming) →
    ∀ m, ReadBefore a.env.toEnvironment s.nextId s.written.length incoming m →
      isRequest m = true → isToolCall m = true → isResidentTool (m.get "params") = true →
      namesThread thread m

variable {settings a request}

/-- The requests of a turn: while its thread is selected, while its start is awaited, and in
the event loop. -/
inductive Serves (settings : Settings) (a : Attempt) (request : LlmTurnRequest) (v : Service) :
    Prop
  | selecting : v.context = none → Serves settings a request v
  | waiting {thread : String} {s : Server} {incoming : Incoming} :
      a.thread settings request = some thread →
      a.waiting settings request = some (thread, s, incoming) →
      .serves v ∈ awaitActs a.env.toEnvironment (some request) s.nextId incoming s →
      Serves settings a request v
  | running {thread turnId : String} : a.thread settings request = some thread →
      v.InLoop request thread turnId → Serves settings a request v

theorem thread_selected {cwd selected : String} (hcwd : settings.cwd = some cwd)
    (hreply : (selectThread a.env settings cwd request {a.server with publishedMedia := []}
      a.incoming).reply = some (.ok selected)) : a.thread settings request = some selected := by
  unfold Attempt.thread
  simp only [hcwd, hreply]

theorem serves_of_mem {v : Service} (h : .serves v ∈ a.acts settings request) :
    Serves settings a request v := by
  unfold acts turnActs at h
  dsimp only at h
  cases hcwd : settings.cwd with
  | none =>
      rw [hcwd] at h
      cases h
  | some cwd =>
      rw [hcwd] at h
      rcases List.mem_append.mp h with h | h
      · exact .selecting (selectActs_context h)
      · obtain ⟨thread, hreply, h⟩ := mem_acts.mp h
        have hthread := thread_selected hcwd hreply
        rcases List.mem_append.mp h with h | h
        · obtain ⟨sent, hsent, hv⟩ := mem_callActs.mp h
          refine .waiting hthread ?_ hv
          unfold Attempt.waiting
          simp only [hcwd, hreply, hsent]
        · obtain ⟨response, -, h⟩ := mem_acts.mp h
          split at h
          · cases h
          · exact .running hthread (loopActs_inLoop h)

/-- What is read while the start of the turn is awaited is answered by the turn. -/
theorem mem_of_waiting {thread : String} {s : Server} {incoming : Incoming} {v : Service}
    (h : a.waiting settings request = some (thread, s, incoming))
    (hv : .serves v ∈ awaitActs a.env.toEnvironment (some request) s.nextId incoming s) :
    .serves v ∈ a.acts settings request ∧ a.thread settings request = some thread := by
  unfold Attempt.waiting at h
  unfold acts turnActs
  dsimp only at h ⊢
  split at h
  · cases h
  · next cwd hcwd =>
    split at h
    · next selected hreply =>
      split at h
      · next sent hsent =>
        simp only [Option.some.injEq, Prod.mk.injEq] at h
        obtain ⟨rfl, rfl, rfl⟩ := h
        refine ⟨List.mem_append_right _ (mem_acts.mpr ⟨selected, hreply, ?_⟩),
          thread_selected hcwd hreply⟩
        exact List.mem_append_left _ (mem_callActs.mpr ⟨sent, hsent, hv⟩)
      · cases h
    · cases h

end Attempt

/-- The tools of a turn serve that turn exactly when no tool call for another thread is read
while its start is awaited. -/
theorem tool_calls_own_turn_iff (settings : Settings) (a : Attempt) (request : LlmTurnRequest) :
    a.ToolCallsOwnTurn settings request ↔ a.EarlyCallsOwn settings request := by
  constructor
  · intro hown thread s incoming hwaiting m hread hrequest hcall htool
    obtain ⟨v, hv, rfl⟩ : ∃ v, .serves v ∈ awaitActs a.env.toEnvironment (some request) s.nextId
        incoming s ∧ v.request = m := awaitActs_serves.mpr ⟨hread, hrequest⟩
    obtain ⟨hmem, hthread⟩ := Attempt.mem_of_waiting hwaiting hv
    have hcontext : v.context.isSome := by rw [(awaitActs_context hv).1]; rfl
    obtain ⟨_, thread', hthread', hnames, _⟩ := hown v hmem ⟨hcontext, hcall, htool⟩
    rw [hthread, Option.some.injEq] at hthread'
    exact hthread' ▸ hnames
  · intro hearly v hv hexecuted
    cases Attempt.serves_of_mem hv with
    | selecting hcontext =>
        have hsome := hexecuted.1
        rw [hcontext] at hsome
        cases hsome
    | waiting hthread hwaiting hserves =>
        obtain ⟨hcontext, hturn⟩ := awaitActs_context hserves
        obtain ⟨hread, hrequest⟩ := awaitActs_serves.mp ⟨v, hserves, rfl⟩
        refine ⟨hcontext, _, hthread, ?_, ?_⟩
        · exact hearly _ _ _ hwaiting _ hread hrequest hexecuted.2.1 hexecuted.2.2
        · intro turnId hsome
          rw [hturn] at hsome
          cases hsome
    | running hthread hloop =>
        obtain ⟨hcontext, hnames, hturn⟩ := hloop.own hexecuted
        refine ⟨hcontext, _, hthread, hnames, fun turnId hsome => ?_⟩
        rw [hloop.turn, Option.some.injEq] at hsome
        exact hsome ▸ hturn

/-- Tools that answer for the room of the turn. -/
def groupTools : Tools :=
  {noTools with
    catalog := fun _ => .ok []
    roomMembers := fun origin callId =>
      match origin with
      | some o => .ok ⟨callId, o.roomId, some o.roomName, ["codex", "bob"], none⟩
      | none => .error "room-members tool requires a chat origin"}

/-- A call of an earlier turn on another thread. -/
def lateCall : Json :=
  .obj [("id", .ofNat 40), ("method", .str "item/tool/call"),
    ("params", .obj [("arguments", .obj []), ("callId", .str "call-1"),
      ("threadId", .str "thread-1"), ("tool", .str "list_group_members"),
      ("turnId", .str "turn-1")])]

def plansTurn : LlmTurnRequest :=
  ⟨"2", "hello", some ⟨.group, 5, "Plans", true⟩, some "chat.rooms", some .mention,
    some "thread-2", []⟩

/-- The call arrives after the start of a turn has been requested on `thread-2`. -/
def overtaken : Attempt where
  env := ⟨⟨fun _ => "members of Plans", fun _ => .ok (), fun _ => groupTools⟩, fun _ => ""⟩
  server := ⟨[], {"thread-1", "thread-2"}, 3, [], []⟩
  incoming := [.ok lateCall]

/-- The members of an incognito group are handed to a turn on another thread. -/
theorem late_call_executed : ∃ v, .serves v ∈ overtaken.acts inWorkspace plansTurn ∧
    v.Executed ∧ v.context = some plansTurn ∧ v.request = lateCall ∧
    overtaken.thread inWorkspace plansTurn = some "thread-2" ∧ namesThread "thread-1" lateCall ∧
    (runTurn overtaken.env inWorkspace plansTurn overtaken.server
      overtaken.incoming).server.written =
      [callMessage 4 "turn/start" (turnParams inWorkspace "/work" "thread-2" plansTurn),
        toolAnswer (.ofNat 40) (true, "members of Plans")] ∧
    ¬overtaken.ToolCallsOwnTurn inWorkspace plansTurn := by
  have hserves : Act.serves ⟨lateCall, some plansTurn,
      ⟨[], {"thread-1", "thread-2"}, 4, [],
        [callMessage 4 "turn/start" (turnParams inWorkspace "/work" "thread-2" plansTurn)]⟩,
      none⟩ ∈ overtaken.acts inWorkspace plansTurn := List.mem_cons_of_mem _ List.mem_cons_self
  have hexecuted : Service.Executed ⟨lateCall, some plansTurn,
      ⟨[], {"thread-1", "thread-2"}, 4, [],
        [callMessage 4 "turn/start" (turnParams inWorkspace "/work" "thread-2" plansTurn)]⟩,
      none⟩ := ⟨rfl, by decide, by decide⟩
  refine ⟨_, hserves, hexecuted, rfl, rfl, by rfl, rfl, by rfl, fun hown => ?_⟩
  obtain ⟨_, thread, hthread, hnames, _⟩ := hown _ hserves hexecuted
  obtain rfl : "thread-2" = thread := Option.some.inj hthread
  exact absurd (Option.some.inj hnames) (by decide)

end NormaHarness.AppServer
