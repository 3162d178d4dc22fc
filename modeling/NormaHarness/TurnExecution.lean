import NormaHarness.AppServer

/-!
# A turn on the app-server

A turn first settles its thread: the one it names is resumed unless it is loaded, and
without one a new thread is started. It is then run on that thread until the process
reports its end. What earlier calls left pending is looked at before the input.
-/
namespace NormaHarness.AppServer
open Identifiers Contracts JsonValues LlmProtocol ToolProtocol Media CodexWorker

inductive CodexSandbox where
  | readOnly
  | workspaceWrite
  deriving DecidableEq, Repr

def CodexSandbox.policy (cwd : String) : CodexSandbox → Json
  | .readOnly => .obj [("type", .str "readOnly")]
  | .workspaceWrite => .obj [("networkAccess", .bool false), ("type", .str "workspaceWrite"),
      ("writableRoots", .arr [.str cwd])]

/-- The worker's configuration; a working directory that is not UTF-8 has no text. -/
structure Settings where
  cwd : Option String
  model : Option String
  effort : Option String
  sandbox : CodexSandbox

/-- The environment of a turn also writes a status that the turn does not know. -/
structure TurnEnvironment extends Environment where
  debugText : Option String → String

def stringAt (value : Json) (path : List String) (label : String) :
    Except AppServerError String :=
  match (path.foldl Json.get value).asStr with
  | some text => .ok text
  | none => .error (.protocol s!"missing {label}")

/-! ## The thread -/

def startParams (settings : Settings) (cwd : String) (dynamicTools : List Json) : Json :=
  .obj ([("approvalPolicy", .str "never"), ("cwd", .str cwd),
      ("dynamicTools", .arr dynamicTools)] ++
    memberIfSome "model" .string settings.model ++
    [("serviceName", .str "norma_codex_resident")])

def resumeThread (env : TurnEnvironment) (dynamicTools : List Json) (thread : String) (s : Server)
    (incoming : Incoming) : Called String :=
  if thread ∈ s.loadedThreads then ⟨some (.ok thread), s, incoming⟩
  else
    (call env.toEnvironment "thread/resume"
      (.obj [("dynamicTools", .arr dynamicTools), ("threadId", .str thread)]) s incoming).andThen
      fun _ s incoming =>
        ⟨some (.ok thread), {s with loadedThreads := insert thread s.loadedThreads}, incoming⟩

def startThread (env : TurnEnvironment) (settings : Settings) (cwd : String)
    (dynamicTools : List Json) (s : Server) (incoming : Incoming) : Called String :=
  (call env.toEnvironment "thread/start" (startParams settings cwd dynamicTools) s
    incoming).andThen fun response s incoming =>
      match stringAt response ["thread", "id"] "thread/start.thread.id" with
      | .error error => ⟨some (.error error), s, incoming⟩
      | .ok thread =>
          ⟨some (.ok thread), {s with loadedThreads := insert thread s.loadedThreads}, incoming⟩

/-- The catalog is only asked for when the turn comes from a room. -/
def dynamicTools (env : TurnEnvironment) (request : LlmTurnRequest) (s : Server) :
    Except AppServerError (List Json) :=
  if request.origin.isSome then
    match (env.tools s.written.length).catalog request.requestId with
    | .ok tools => .ok tools
    | .error error => .error (.protocol error)
  else .ok []

def selectThread (env : TurnEnvironment) (settings : Settings) (cwd : String)
    (request : LlmTurnRequest) (s : Server) (incoming : Incoming) : Called String :=
  match dynamicTools env request s with
  | .error error => ⟨some (.error error), s, incoming⟩
  | .ok tools =>
    match request.threadId with
    | some thread => resumeThread env tools thread s incoming
    | none => startThread env settings cwd tools s incoming

/-! ## The input of a turn -/

/-- The later of the events with the greatest identity. -/
def latest (events : List LlmContextMessage) : Option LlmContextMessage :=
  events.foldl (fun best e =>
    match best with
    | some b => if b.id ≤ e.id then some e else some b
    | none => some e) none

/-- Images come from the last user message of the origin's room, or from the whole context
where there is no such message. -/
def imageEvents (request : LlmTurnRequest) : List LlmContextMessage :=
  match request.origin with
  | none => request.context
  | some origin =>
    let messages := request.context.filter fun e => e.roomId == origin.roomId && e.role == "user"
    match latest messages with
    | some event => [event]
    | none => request.context

def inputs (request : LlmTurnRequest) : List Json :=
  let paths := (imageEvents request).flatMap fun e => e.attachments.flatMap MediaAsset.modelPaths
  .obj [("text", .str request.prompt), ("type", .str "text")] ::
    paths.map fun path => .obj [("path", .str path), ("type", .str "localImage")]

def turnParams (settings : Settings) (cwd thread : String) (request : LlmTurnRequest) : Json :=
  .obj ([("approvalPolicy", .str "never"), ("cwd", .str cwd)] ++
    memberIfSome "effort" .string settings.effort ++ [("input", .arr (inputs request))] ++
    memberIfSome "model" .string settings.model ++
    [("sandboxPolicy", settings.sandbox.policy cwd), ("threadId", .str thread)])

/-! ## The events of a turn -/

structure GeneratedImage where
  filename : String
  mimeType : String
  base64 : String

structure TurnProgress where
  finalResponse : Option String
  lastAgentMessage : Option String
  compacted : Bool
  generatedImages : List GeneratedImage

/-- What follows the first occurrence of the marker, or the whole text. -/
def afterMarker (marker text : List Char) : List Char :=
  match text.tails.find? fun rest => marker.isPrefixOf rest with
  | some rest => rest.drop marker.length
  | none => text

def generatedImageFormat (payload : List Char) : Option ImageFormat :=
  if "iVBOR".toList.isPrefixOf payload then some .png
  else if "/9j/".toList.isPrefixOf payload then some .jpeg
  else if "R0lGOD".toList.isPrefixOf payload then some .gif
  else if "UklGR".toList.isPrefixOf payload then some .webp
  else none

/-- The image of a generated payload; the name ends in the subtype. -/
def generatedImage (number : ℕ) (result : String) : Option GeneratedImage :=
  let payload := afterMarker ";base64,".toList result.toList
  (generatedImageFormat payload).map fun format =>
    let subtype := match format with
      | .png => "png"
      | .jpeg => "jpeg"
      | .gif => "gif"
      | .webp => "webp"
    ⟨s!"generated-{number}.{subtype}", format.mime, String.ofList payload⟩

def completedItem (item : Json) (p : TurnProgress) : TurnProgress :=
  let type := (item.get "type").asStr
  if type = some "contextCompaction" then {p with compacted := true}
  else if type = some "agentMessage" then
    match (item.get "text").asStr with
    | none => p
    | some text => {p with
        lastAgentMessage := some text
        finalResponse := if (item.get "phase").asStr = some "final_answer" then some text
          else p.finalResponse}
  else if type = some "imageGeneration" then
    match (item.get "result").asStr.bind (generatedImage (p.generatedImages.length + 1)) with
    | none => p
    | some image => {p with generatedImages := p.generatedImages ++ [image]}
  else p

def turnStatus (env : TurnEnvironment) (turn : Json) : Except AppServerError LlmTurnStatus :=
  let status := (turn.get "status").asStr
  if status = some "completed" then .ok .completed
  else if status = some "interrupted" then .ok .interrupted
  else if status = some "failed" then .ok .failed
  else .error (.protocol s!"unknown turn status: {env.debugText status}")

/-- Generated images are published unless the turn has published images itself. -/
def publishGenerated (env : TurnEnvironment) (request : LlmTurnRequest) (turnId : String)
    (images : List GeneratedImage) (s : Server) : Server :=
  if s.publishedMedia.isEmpty then
    let published := (images.take maxMessageMedia).zipIdx.filterMap fun p =>
      ((env.tools s.written.length).publishMedia
        ⟨s!"generated-{turnId}-{p.2}", p.1.filename, p.1.mimeType, p.1.base64,
          request.origin.any LlmOrigin.incognito⟩).toOption
    {s with publishedMedia := published}
  else s

def completed (env : TurnEnvironment) (request : LlmTurnRequest) (thread turnId : String)
    (turn : Json) (p : TurnProgress) (s : Server) :
    Except AppServerError LlmTurnResult × Server :=
  let s := publishGenerated env request turnId p.generatedImages s
  match turnStatus env turn with
  | .error error => (.error error, s)
  | .ok status =>
      (.ok { requestId := request.requestId
             threadId := some thread
             turnId := some turnId
             status := status
             finalResponse := match p.finalResponse with
              | some text => some text
              | none => p.lastAgentMessage
             error := ((turn.get "error").get "message").asStr
             compacted := p.compacted
             attachments := s.publishedMedia },
        {s with publishedMedia := []})

inductive EventOutcome where
  | continues (p : TurnProgress) (s : Server)
  | ends (reply : Except AppServerError LlmTurnResult) (s : Server)

/-- A tool call that names another thread or turn. -/
def isForeignCall (thread turnId : String) (event : Json) : Bool :=
  let params := event.get "params"
  (event.get "method").asStr == some "item/tool/call" &&
    ((params.get "threadId").asStr != some thread || (params.get "turnId").asStr != some turnId)

def onEvent (env : TurnEnvironment) (request : LlmTurnRequest) (thread turnId : String)
    (event : Json) (p : TurnProgress) (s : Server) : EventOutcome :=
  if event.has "id" && event.has "method" then
    let context := if isForeignCall thread turnId event then none else some request
    match answerServerRequest env.toEnvironment context event s with
    | .error error => .ends (.error error) s
    | .ok s => .continues p s
  else
    let method := (event.get "method").asStr
    let params := event.get "params"
    if method = some "item/completed" then
      if (params.get "turnId").asStr.any fun id => id != turnId then .continues p s
      else .continues (completedItem (params.get "item") p) s
    else if method = some "turn/completed" ∧
        ((params.get "turn").get "id").asStr = some turnId then
      let out := completed env request thread turnId (params.get "turn") p s
      .ends out.1 out.2
    else .continues p s

/-- The event loop once nothing is pending. -/
def readEvents (env : TurnEnvironment) (request : LlmTurnRequest) (thread turnId : String) :
    Incoming → TurnProgress → Server → Called LlmTurnResult
  | [], _, s => ⟨none, s, []⟩
  | .error error :: rest, _, s => ⟨some (.error error), s, rest⟩
  | .ok event :: rest, p, s =>
    match onEvent env request thread turnId event p s with
    | .continues p s => readEvents env request thread turnId rest p s
    | .ends reply s => ⟨some reply, s, rest⟩

/-- The event loop, with the events that are still pending. -/
def eventLoop (env : TurnEnvironment) (request : LlmTurnRequest) (thread turnId : String)
    (incoming : Incoming) : List Json → TurnProgress → Server → Called LlmTurnResult
  | [], p, s => readEvents env request thread turnId incoming p {s with pending := []}
  | event :: pending, p, s =>
    match onEvent env request thread turnId event p s with
    | .continues p s => eventLoop env request thread turnId incoming pending p s
    | .ends reply s => ⟨some reply, {s with pending := pending}, incoming⟩

/-! ## The whole turn -/

def startTurn (env : TurnEnvironment) (settings : Settings) (cwd : String)
    (request : LlmTurnRequest) (thread : String) (s : Server) (incoming : Incoming) :
    Called LlmTurnResult :=
  (callWithTool env.toEnvironment (some request) "turn/start"
    (turnParams settings cwd thread request) s incoming).andThen fun response s incoming =>
      match stringAt response ["turn", "id"] "turn/start.turn.id" with
      | .error error => ⟨some (.error error), s, incoming⟩
      | .ok turnId =>
          eventLoop env request thread turnId incoming s.pending ⟨none, none, false, []⟩ s

def runTurn (env : TurnEnvironment) (settings : Settings) (request : LlmTurnRequest) (s : Server)
    (incoming : Incoming) : Called LlmTurnResult :=
  let s := {s with publishedMedia := []}
  match settings.cwd with
  | none => ⟨some (.error (.protocol "working directory is not UTF-8")), s, incoming⟩
  | some cwd =>
      (selectThread env settings cwd request s incoming).andThen fun thread s incoming =>
        startTurn env settings cwd request thread s incoming

/-! ## The thread of a turn -/

theorem andThen_ok {α β : Type} {called : Called α} {next : α → Server → Incoming → Called β}
    {b : β} (h : (called.andThen next).reply = some (.ok b)) :
    ∃ a, called.reply = some (.ok a) ∧
      (next a called.server called.rest).reply = some (.ok b) := by
  unfold Called.andThen at h
  split at h
  · next a hreply => exact ⟨a, hreply, h⟩
  · cases h
  · cases h

section

variable {env : TurnEnvironment} {settings : Settings} {request : LlmTurnRequest}
  {thread turnId : String}

theorem onEvent_thread {event : Json} {p : TurnProgress} {s s' : Server} {result : LlmTurnResult}
    (h : onEvent env request thread turnId event p s = .ends (.ok result) s') :
    result.threadId = some thread := by
  unfold onEvent at h
  split at h
  · simp only at h
    split at h
    · cases h
    · cases h
  · simp only at h
    split at h
    · split at h
      · cases h
      · cases h
    · split at h
      · simp only [completed, EventOutcome.ends.injEq] at h
        split at h
        · cases h.1
        · cases h.1
          rfl
      · cases h

theorem readEvents_thread {incoming : Incoming} {p : TurnProgress} {s : Server}
    {result : LlmTurnResult}
    (h : (readEvents env request thread turnId incoming p s).reply = some (.ok result)) :
    result.threadId = some thread := by
  induction incoming generalizing p s with
  | nil => cases h
  | cons line rest ih =>
      cases line with
      | error error => cases h
      | ok event =>
          unfold readEvents at h
          cases hevent : onEvent env request thread turnId event p s with
          | continues p' s' =>
              rw [hevent] at h
              exact ih h
          | ends reply s' =>
              rw [hevent] at h
              simp only [Option.some.injEq] at h
              subst h
              exact onEvent_thread hevent

theorem eventLoop_thread {incoming : Incoming} {pending : List Json} {p : TurnProgress}
    {s : Server} {result : LlmTurnResult}
    (h : (eventLoop env request thread turnId incoming pending p s).reply = some (.ok result)) :
    result.threadId = some thread := by
  induction pending generalizing p s with
  | nil => exact readEvents_thread h
  | cons event rest ih =>
      unfold eventLoop at h
      cases hevent : onEvent env request thread turnId event p s with
      | continues p' s' =>
          rw [hevent] at h
          exact ih h
      | ends reply s' =>
          rw [hevent] at h
          simp only [Option.some.injEq] at h
          subst h
          exact onEvent_thread hevent

end

/-- A turn that names a thread is run on that thread or not at all. -/
theorem selectThread_requested {env : TurnEnvironment} {settings : Settings} {cwd : String}
    {request : LlmTurnRequest} {s : Server} {incoming : Incoming} {thread selected : String}
    (hthread : request.threadId = some thread)
    (h : (selectThread env settings cwd request s incoming).reply = some (.ok selected)) :
    selected = thread := by
  unfold selectThread at h
  split at h
  · cases h
  · rw [hthread] at h
    simp only [resumeThread] at h
    split at h
    · cases h
      rfl
    · obtain ⟨_, -, hselected⟩ := andThen_ok h
      cases hselected
      rfl

/-- One run of a turn: the environment, and the connection in whatever state it is. -/
structure Attempt where
  env : TurnEnvironment
  server : Server
  incoming : Incoming

namespace Attempt
variable (settings : Settings) (a : Attempt) (request : LlmTurnRequest)

/-- What the turn returns, unless it is still waiting. -/
def reply : Option (Except AppServerError LlmTurnResult) :=
  (runTurn a.env settings request a.server a.incoming).reply

/-- The thread that the turn is run on, if it comes to that. -/
def thread : Option String :=
  match settings.cwd with
  | none => none
  | some cwd =>
    match (selectThread a.env settings cwd request {a.server with publishedMedia := []}
        a.incoming).reply with
    | some (.ok selected) => some selected
    | _ => none

variable {settings a request}

theorem thread_requested {thread selected : String} (hthread : request.threadId = some thread)
    (h : a.thread settings request = some selected) : selected = thread := by
  unfold Attempt.thread at h
  split at h
  · cases h
  · split at h
    · next hselect =>
      cases h
      exact selectThread_requested hthread hselect
    · cases h

/-- A result names the thread that the turn was run on. -/
theorem reply_thread {result : LlmTurnResult}
    (h : a.reply settings request = some (.ok result)) :
    result.threadId = a.thread settings request := by
  unfold reply runTurn at h
  unfold Attempt.thread
  split at h
  · cases h
  · next cwd hcwd =>
    obtain ⟨thread, hselect, hstart⟩ := andThen_ok h
    obtain ⟨response, -, hevents⟩ := andThen_ok hstart
    simp only [hselect]
    split at hevents
    · cases hevents
    · exact eventLoop_thread hevents

end Attempt

/-- Turns run in one directory and change nothing in it. -/
def inWorkspace : Settings := ⟨some "/work", none, none, .readOnly⟩

end NormaHarness.AppServer
