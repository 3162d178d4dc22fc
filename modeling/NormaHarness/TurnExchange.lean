import NormaHarness.OriginAuthenticity
import NormaHarness.ProviderThreads
import NormaHarness.TurnCorrelation

/-!
# Turns between the chat rooms and the workers

The chat rooms and the Codex workers only share their mailboxes. A request goes through
the gate of its target into one mailbox, a worker takes one message after the other out of it
and sends one result for each request, and the chat rooms look in their table for the
ask that a result is for. A message that has been taken may be worked on for long. Other
Residents may send whatever they want in between, and a mailbox is lost with the Resident
that it belongs to.
-/
namespace NormaHarness.AppServer
open Identifiers Contracts JsonValues LlmProtocol CodexWorker

/-! ## The result of a turn -/

section

variable {env : TurnEnvironment} {settings : Settings} {request : LlmTurnRequest}
  {thread turnId : String} {result : LlmTurnResult}

/-- A turn ends well only by the notification of its end. -/
def EndedBy (env : TurnEnvironment) (request : LlmTurnRequest) (thread turnId : String)
    (result : LlmTurnResult) : Prop :=
  ∃ turn p s, (completed env request thread turnId turn p s).1 = .ok result

theorem onEvent_ended {event : Json} {p : TurnProgress} {s s' : Server}
    (h : onEvent env request thread turnId event p s = .ends (.ok result) s') :
    EndedBy env request thread turnId result := by
  unfold onEvent at h
  split at h
  · simp only at h
    split at h
    · cases h
    · cases h
  · simp only at h
    split at h
    · split at h
      · cases h
      · cases h
    · split at h
      · exact ⟨_, _, _, (EventOutcome.ends.inj h).1⟩
      · cases h

theorem readEvents_ended {incoming : Incoming} {p : TurnProgress} {s : Server}
    (h : (readEvents env request thread turnId incoming p s).reply = some (.ok result)) :
    EndedBy env request thread turnId result := by
  induction incoming generalizing p s with
  | nil => cases h
  | cons line rest ih =>
      cases line with
      | error error => cases h
      | ok event =>
          unfold readEvents at h
          cases hevent : onEvent env request thread turnId event p s with
          | continues p' s' =>
              rw [hevent] at h
              exact ih h
          | ends reply s' =>
              rw [hevent] at h
              obtain rfl := Option.some.inj h
              exact onEvent_ended hevent

theorem eventLoop_ended {incoming : Incoming} {pending : List Json} {p : TurnProgress}
    {s : Server}
    (h : (eventLoop env request thread turnId incoming pending p s).reply = some (.ok result)) :
    EndedBy env request thread turnId result := by
  induction pending generalizing p s with
  | nil => exact readEvents_ended h
  | cons event rest ih =>
      unfold eventLoop at h
      cases hevent : onEvent env request thread turnId event p s with
      | continues p' s' =>
          rw [hevent] at h
          exact ih h
      | ends reply s' =>
          rw [hevent] at h
          obtain rfl := Option.some.inj h
          exact onEvent_ended hevent

/-- A result carries the identity of the request that the turn was run for. -/
theorem EndedBy.requestId (h : EndedBy env request thread turnId result) :
    result.requestId = request.requestId := by
  obtain ⟨turn, p, s, hresult⟩ := h
  simp only [completed] at hresult
  split at hresult
  · cases hresult
  · obtain rfl := Except.ok.inj hresult
    rfl

theorem Attempt.reply_requestId {a : Attempt}
    (h : a.reply settings request = some (.ok result)) :
    result.requestId = request.requestId := by
  unfold Attempt.reply runTurn at h
  split at h
  · cases h
  · obtain ⟨thread, -, hstart⟩ := andThen_ok h
    obtain ⟨response, -, hevents⟩ := andThen_ok hstart
    split at hevents
    · cases hevents
    · exact (eventLoop_ended hevents).requestId

end

end NormaHarness.AppServer

namespace NormaHarness.Asks
open Std Identifiers Contracts JsonValues LlmProtocol Chat CodexWorker
open AppServer (Settings Attempt inWorkspace)

/-! ## The parties -/

/-- A request that was let into the mailbox of its target. -/
structure Posting where
  ask : ℕ
  target : ResidentKey
  request : LlmTurnRequest

/-- A message that a worker has handled, and the worker as it was. -/
structure Handling where
  resident : ResidentKey
  env : Environment
  worker : Worker
  message : RoutedMessage

/-- Every party has a mailbox, and at most one message that it has taken from it and is
not done with. -/
structure Exchange where
  turns : Turns
  workers : ResidentKey → Worker
  inbound : ResidentKey → List RoutedMessage
  current : ResidentKey → Option RoutedMessage
  posted : List Posting
  handled : List Handling
  lost : List RoutedMessage

inductive ExchangeEvent where
  | turn (event : TurnEvent)
  | post (i : ℕ)
  | recv (k : ResidentKey)
  | handle (k : ResidentKey) (env : Environment) (accepted : Bool)
  | take
  | other (m : RoutedMessage)
  | relaunch (k : ResidentKey) (worker : Worker)

/-- The message in which a worker finds a request. -/
def Posting.message (p : Posting) : RoutedMessage :=
  ⟨chatRoomsKey, p.target, ⟨turnRequestKind,
    LlmTurnRequest.codec.encode {p.request with sourceResident := some chatRoomsKey.asStr}⟩⟩

def Handling.reaction (path : ResidentKey → Option String) (h : Handling) : Reaction :=
  receive h.env (path h.resident) h.worker h.message

def Exchange.launched (workers : ResidentKey → Worker) : Exchange :=
  ⟨.launched, workers, fun _ => [], fun _ => none, [], [], []⟩

/-- What the chat rooms do by themselves; a send is over when the message is in the
mailbox of its target. -/
def Exchange.Permits (s : Exchange) : TurnEvent → Prop
  | .receive _ => False
  | .sent i => ∃ p ∈ s.posted, p.ask = i
  | _ => True

/-- Only the chat rooms ask for turns under their name, and a worker sends results in
answer to requests only. -/
def Foreign (codex : ResidentKey → Prop) (m : RoutedMessage) : Prop :=
  (m.source = chatRoomsKey → m.message.kind ≠ turnRequestKind) ∧
    (codex m.source → m.message.kind ≠ turnResultKind)

/-- The turns of a worker are run on its app-server, the first one and its repetition. -/
inductive Served (settings : Settings) (env : Environment) : List LlmTurnRequest → Prop
  | none : Served settings env []
  | once {turn : LlmTurnRequest} (first : Attempt)
      (hfirst : first.reply settings turn = some (env.turn turn)) : Served settings env [turn]
  | twice {turn turn' : LlmTurnRequest} (first again : Attempt)
      (hfirst : first.reply settings turn = some (env.turn turn))
      (hagain : again.reply settings turn' = some (env.repeated turn')) :
      Served settings env [turn, turn']

namespace Exchange

/-- What has been sent to a Resident and is not done with. -/
def pending (s : Exchange) (k : ResidentKey) : List RoutedMessage :=
  (s.current k).toList ++ s.inbound k

def arrive (s : Exchange) (k : ResidentKey) (m : RoutedMessage) : Exchange :=
  {s with inbound := Function.update s.inbound k (s.inbound k ++ [m])}

/-- The reply of a worker goes to the Resident that its message came from, or is lost. -/
def replied (s : Exchange) (k : ResidentKey) (accepted : Bool) :
    Option (ResidentKey × FlowMessage) → Exchange
  | none => s
  | some (target, message) =>
      if accepted then s.arrive target ⟨k, target, message⟩
      else {s with lost := ⟨k, target, message⟩ :: s.lost}

def handling (s : Exchange) (h : Handling) (worker : Worker) : Exchange :=
  {s with
    workers := Function.update s.workers h.resident worker
    current := Function.update s.current h.resident none
    handled := h :: s.handled}

/-- What a worker that ends was at, and what waited in its mailbox, is lost. -/
def relaunched (s : Exchange) (k : ResidentKey) (worker : Worker) : Exchange :=
  {s with
    workers := Function.update s.workers k worker
    inbound := Function.update s.inbound k []
    current := Function.update s.current k none
    lost := s.pending k ++ s.lost}

end Exchange

section

variable (isAlphanumeric : Char → Bool) (settings : ResidentKey → Settings)
  (path : ResidentKey → Option String) (codex : ResidentKey → Prop)

inductive ExchangeStep (s : Exchange) : ExchangeEvent → Exchange → Prop
  | turn {event : TurnEvent} {turns : Turns} (hpermits : s.Permits event)
      (hstep : TurnStep isAlphanumeric s.turns event turns) :
      ExchangeStep s (.turn event) {s with turns := turns}
  | post {i : ℕ} {a : Ask} {request : LlmTurnRequest} {passed : FlowMessage}
      {decodeError : Json → String} (hi : s.turns.asks[i]? = some a)
      (hphase : a.phase = .sending request) (hnew : ∀ p ∈ s.posted, p.ask ≠ i)
      (hgate : contextGate decodeError ⟨chatRoomsKey, a.target⟩ (turnRequestMessage request) =
        .ok passed) :
      ExchangeStep s (.post i) {s.arrive a.target ⟨chatRoomsKey, a.target, passed⟩ with
        posted := ⟨i, a.target, request⟩ :: s.posted}
  | recv {k : ResidentKey} {m : RoutedMessage} {rest : List RoutedMessage}
      (hparty : codex k ∨ k = chatRoomsKey) (hidle : s.current k = none)
      (hm : s.inbound k = m :: rest) :
      ExchangeStep s (.recv k) {s with
        inbound := Function.update s.inbound k rest
        current := Function.update s.current k (some m)}
  /-- A worker is done with its message: the turns have been run, and the reply is sent. -/
  | handle {k : ResidentKey} {env : Environment} {m : RoutedMessage} {h : Handling}
      (accepted : Bool) (hcodex : codex k) (hm : s.current k = some m)
      (hh : h = ⟨k, env, s.workers k, m⟩)
      (hserved : Served (settings k) env (h.reaction path).executed) :
      ExchangeStep s (.handle k env accepted)
        ((s.handling h (h.reaction path).worker).replied k accepted (h.reaction path).reply)
  /-- The chat rooms have locked their table and look for the ask. -/
  | take {m : RoutedMessage} (hm : s.current chatRoomsKey = some m) :
      ExchangeStep s .take {s with
        turns := s.turns.receive m
        current := Function.update s.current chatRoomsKey none}
  | other {m : RoutedMessage} (hforeign : Foreign codex m) :
      ExchangeStep s (.other m) (s.arrive m.target m)
  | relaunch {k : ResidentKey} {worker : Worker} (hcodex : codex k) :
      ExchangeStep s (.relaunch k worker) (s.relaunched k worker)

abbrev ExchangeRun := Executions.Run (ExchangeStep isAlphanumeric settings path codex)

end

/-! ## What a worker answers -/

/-- The result is for this request. The turns behind it have the origin and the messages of
the request, and it is what the app-server returned for one of them, or reports a failure. -/
structure Fulfils (settings : Settings) (request : LlmTurnRequest) (executed : List LlmTurnRequest)
    (result : LlmTurnResult) : Prop where
  requestId : result.requestId = request.requestId
  turns : ∀ t ∈ executed, t.requestId = request.requestId ∧ t.origin = request.origin ∧
    t.context = request.context
  outcome : result.status = .failed ∨ ∃ t ∈ executed, ∃ a : Attempt,
    a.reply settings t = some (.ok result)

section

variable {settings : Settings} {env : Environment} {request : LlmTurnRequest}
  {conversation : ConversationState}

theorem Fulfils.failed (error : String) {executed : List LlmTurnRequest}
    (h : ∀ t ∈ executed, t.requestId = request.requestId ∧ t.origin = request.origin ∧
      t.context = request.context) :
    Fulfils settings request executed (.failed request.requestId error) :=
  ⟨rfl, h, .inl rfl⟩

theorem runTurns_fulfils {turn : LlmTurnRequest} (hid : turn.requestId = request.requestId)
    (horigin : turn.origin = request.origin) (hcontext : turn.context = request.context)
    (hserved : Served settings env (runTurns env request.requestId turn conversation).executed) :
    Fulfils settings request (runTurns env request.requestId turn conversation).executed
      (runTurns env request.requestId turn conversation).result := by
  have hone : ∀ t ∈ [turn], t.requestId = request.requestId ∧ t.origin = request.origin ∧
      t.context = request.context := fun t ht => by
    obtain rfl := List.mem_singleton.mp ht
    exact ⟨hid, horigin, hcontext⟩
  have hboth : ∀ t ∈ [turn, rebuilt turn], t.requestId = request.requestId ∧
      t.origin = request.origin ∧ t.context = request.context := fun t ht => by
    rcases List.mem_cons.mp ht with rfl | ht
    · exact ⟨hid, horigin, hcontext⟩
    · obtain rfl := List.mem_singleton.mp ht
      exact ⟨hid, horigin, hcontext⟩
  unfold runTurns at hserved ⊢
  cases hturn : env.turn turn with
  | ok result =>
      rw [hturn] at hserved
      cases hserved with
      | once first hfirst =>
          rw [hturn] at hfirst
          exact ⟨first.reply_requestId hfirst |>.trans hid, hone,
            .inr ⟨turn, List.mem_singleton_self _, first, hfirst⟩⟩
  | error error =>
      rw [hturn] at hserved
      simp only at hserved ⊢
      by_cases hresume : error.isResumeFailure = true
      · rw [if_pos hresume] at hserved ⊢
        cases hrepeated : env.repeated (rebuilt turn) with
        | error error => exact .failed _ hboth
        | ok result =>
            rw [hrepeated] at hserved
            cases hserved with
            | twice first again hfirst hagain =>
                rw [hrepeated] at hagain
                exact ⟨again.reply_requestId hagain |>.trans hid, hboth,
                  .inr ⟨_, List.mem_cons_of_mem _ (List.mem_singleton_self _), again, hagain⟩⟩
      · rw [if_neg hresume]
        exact .failed _ hone

theorem handle_fulfils {message : RoutedMessage} {serverRunning : Bool}
    (hdecode : LlmTurnRequest.codec.decode message.message.payload = some request)
    (hserved : Served settings env (handle env message serverRunning conversation).executed) :
    Fulfils settings request (handle env message serverRunning conversation).executed
      (handle env message serverRunning conversation).result := by
  have hnone : ∀ t ∈ ([] : List LlmTurnRequest), t.requestId = request.requestId ∧
      t.origin = request.origin ∧ t.context = request.context :=
    fun t ht => absurd ht List.not_mem_nil
  unfold handle at hserved ⊢
  simp only [hdecode] at hserved ⊢
  cases hvalid : request.validate with
  | error error => exact .failed _ hnone
  | ok u =>
      simp only [hvalid] at hserved ⊢
      split_ifs at hserved ⊢
      · exact .failed _ hnone
      · exact .failed _ hnone
      · exact runTurns_fulfils rfl rfl rfl hserved
      · cases hstart : env.start with
        | error error => exact .failed _ hnone
        | ok u =>
            rw [hstart] at hserved
            exact runTurns_fulfils rfl rfl rfl hserved

/-- Every request that reaches a worker gets one result of its own. -/
theorem receive_posting {path : Option String} {worker : Worker} {p : Posting}
    (hserved : Served settings env (receive env path worker p.message).executed) :
    ∃ result, Fulfils settings p.request (receive env path worker p.message).executed result ∧
      (receive env path worker p.message).reply =
        some (chatRoomsKey, ⟨turnResultKind, LlmTurnResult.codec.encode result⟩) := by
  have hreceive : receive env path worker p.message = receiveTurn env path worker p.message := by
    rw [receive, if_neg (by simp only [Posting.message]; decide),
      if_pos (by simp only [Posting.message]; decide)]
  have hdecode : LlmTurnRequest.codec.decode p.message.message.payload =
      some {p.request with sourceResident := some chatRoomsKey.asStr} :=
    LlmTurnRequest.codec.decode_encode _
  rw [hreceive] at hserved ⊢
  have hfulfils := handle_fulfils hdecode hserved
  exact ⟨_, ⟨hfulfils.requestId, hfulfils.turns, hfulfils.outcome⟩, rfl⟩

end

/-! ## What a step does to the asks -/

/-- One ask moves on or is handed its result. A request that it did not have before has a
new identity. -/
structure Advance (w w' : Turns) (a b : Ask) : Prop where
  target : b.target = a.target
  early : b.phase.Early → a.phase.Early
  request : ∀ r, b.phase.request = some r → a.phase.request = some r ∨
    (a.phase.Early ∧ ∃ n, w.nextRequest ≤ n ∧ n < w'.nextRequest ∧
      r.requestId = requestIdOf b.roomId n)
  reply : b.reply = none → a.reply = none
  live : ∀ k, b.phase.Live k → ¬a.phase.Early → a.phase.Live k

inductive AskChange (w w' : Turns) (event : TurnEvent) : Prop
  | called (b : Ask) (hasks : w'.asks = w.asks ++ [b]) (hphase : b.phase = .queued)
  | same (hasks : w'.asks = w.asks)
  | moved (i : ℕ) (a b : Ask) (hi : w.asks[i]? = some a) (hasks : w'.asks = w.asks.set i b)
      (hadvance : Advance w w' a b)
      (hwaiting : ∀ r, b.phase = .waiting r → a.phase = .waiting r ∨ event = .sent i)

section

variable {isAlphanumeric : Char → Bool} {w w' : Turns}

theorem Advance.of_phase {a : Ask} {phase : AskPhase}
    (hearly : phase.Early → a.phase.Early)
    (hrequest : ∀ r, phase.request = some r → a.phase.request = some r ∨
      (a.phase.Early ∧ ∃ n, w.nextRequest ≤ n ∧ n < w'.nextRequest ∧
        r.requestId = requestIdOf a.roomId n))
    (hlive : ∀ k, phase.Live k → ¬a.phase.Early → a.phase.Live k) :
    Advance w w' a {a with phase := phase} :=
  ⟨rfl, hearly, hrequest, id, hlive⟩

theorem receive_change (w : Turns) (m : RoutedMessage) :
    AskChange w (w.receive m) (.receive m) := by
  rcases receive_cases w m with ⟨-, hw⟩ | ⟨result, turn, -, hw⟩
  · rw [hw]
    exact .same rfl
  · cases ha : w.asks[turn.reply]? with
    | none =>
        refine .same ?_
        rw [hw, List.modify_eq_set_getElem?, ha]
        rfl
    | some a =>
        refine .moved turn.reply a {a with reply := some result} ha ?_
          ⟨rfl, id, fun r hr => .inl hr, fun hnone => (nomatch hnone), fun _ hlive _ => hlive⟩
          fun r hr => .inl hr
        rw [hw, List.modify_eq_set_getElem?, ha]
        rfl

theorem TurnStep.change {event : TurnEvent} (hstep : TurnStep isAlphanumeric w event w') :
    AskChange w w' event ∧ w.nextRequest ≤ w'.nextRequest := by
  cases hstep with
  | call roomId member target prompt turnKind roundStart hkey =>
      exact ⟨.called _ rfl rfl, le_rfl⟩
  | lock i a hi hphase _ =>
      refine ⟨.moved i a _ hi rfl (.of_phase ?_ (fun r hr => nomatch hr) fun k hk => hk.elim) ?_,
        le_rfl⟩
      · exact fun _ => by rw [hphase]; exact trivial
      · exact fun r hr => nomatch hr
  | missing i a rooms error hi hphase _ =>
      exact ⟨.moved i a _ hi rfl (.of_phase False.elim (fun r hr => nomatch hr) fun k hk => hk.elim)
        (fun r hr => nomatch hr), le_rfl⟩
  | snapshot i a rooms taken hi hphase _ =>
      refine ⟨.moved i a _ hi rfl (.of_phase ?_ (fun r hr => nomatch hr) fun k hk => hk.elim) ?_,
        le_rfl⟩
      · exact fun _ => by rw [hphase]; exact trivial
      · exact fun r hr => nomatch hr
  | number i a taken hi hphase =>
      refine ⟨.moved i a _ hi rfl (.of_phase ?_ (fun r hr => .inr ⟨?_, ?_⟩) fun k hk => hk.elim) ?_,
        Nat.le_succ _⟩
      · exact fun _ => by rw [hphase]; exact trivial
      · rw [hphase]
        exact trivial
      · obtain rfl := Option.some.inj hr
        exact ⟨w.nextRequest, le_rfl, Nat.lt_succ_self _, rfl⟩
      · exact fun r hr => nomatch hr
  | insert i a request hi hphase =>
      refine ⟨.moved i a _ hi rfl (.of_phase False.elim (fun r hr => .inl ?_) fun k _ hearly => ?_)
        (fun r hr => nomatch hr), le_rfl⟩
      · rw [hphase]
        exact hr
      · exact absurd (by rw [hphase]; exact trivial) hearly
  | sent i a request hi hphase =>
      refine ⟨.moved i a _ hi rfl (.of_phase False.elim (fun r hr => .inl ?_) fun k hk _ => ?_)
        (fun r hr => .inr rfl), le_rfl⟩
      · rw [hphase]
        exact hr
      · rw [hphase]
        exact hk
  | sendFailed i a request error hi hphase =>
      exact ⟨.moved i a _ hi rfl (.of_phase False.elim (fun r hr => nomatch hr) fun k hk => hk.elim)
        (fun r hr => nomatch hr), le_rfl⟩
  | resume i a request result hi hphase hreply =>
      refine ⟨.moved i a _ hi rfl (.of_phase False.elim (fun r hr => .inl ?_) fun k hk => hk.elim)
        (fun r hr => nomatch hr), le_rfl⟩
      rw [hphase]
      exact hr
  | closed i a request hi hphase hnone hgone =>
      exact ⟨.moved i a _ hi rfl (.of_phase False.elim (fun r hr => nomatch hr) fun k hk => hk.elim)
        (fun r hr => nomatch hr), le_rfl⟩
  | conclude i a request result hi hphase =>
      refine ⟨.moved i a _ hi rfl (.of_phase False.elim (fun r hr => .inl ?_) fun k hk => hk.elim)
        (fun r hr => nomatch hr), le_rfl⟩
      rw [hphase]
      exact hr
  | receive m =>
      refine ⟨receive_change w m, ?_⟩
      rcases receive_cases w m with ⟨-, hw⟩ | ⟨result, turn, -, hw⟩
      · rw [hw]
      · rw [hw]

/-! ## Postings -/

/-- The posting belongs to its ask, which has it on the way or has given up, and its
identity belongs to no other. -/
structure Knows (w : Turns) (p : Posting) : Prop where
  ask : ∃ a, w.asks[p.ask]? = some a ∧ a.target = p.target ∧ ¬a.phase.Early ∧
    ∀ request, a.phase.request = some request → request = p.request
  drawn : ∃ roomId n, n < w.nextRequest ∧ p.request.requestId = requestIdOf roomId n
  own : ∀ (j : ℕ) (b : Ask) (request : LlmTurnRequest), w.asks[j]? = some b →
    b.phase.request = some request → request.requestId = p.request.requestId → j = p.ask

theorem Knows.change {event : TurnEvent} {p : Posting} (h : Knows w p)
    (hchange : AskChange w w' event) (hnext : w.nextRequest ≤ w'.nextRequest) : Knows w' p := by
  obtain ⟨a, ha, htarget, hearly, hrequest⟩ := h.ask
  obtain ⟨roomId, n, hn, hid⟩ := h.drawn
  have hdrawn : ∃ roomId n, n < w'.nextRequest ∧ p.request.requestId = requestIdOf roomId n :=
    ⟨roomId, n, hn.trans_le hnext, hid⟩
  cases hchange with
  | called b hasks hphase =>
      refine ⟨⟨a, by rw [hasks]; exact concat_get_old ha, htarget, hearly, hrequest⟩, hdrawn, ?_⟩
      intro j c request hc hr hsame
      rw [hasks] at hc
      rcases concat_get hc with ⟨-, rfl⟩ | hc
      · rw [hphase] at hr
        cases hr
      · exact h.own j c request hc hr hsame
  | same hasks =>
      exact ⟨⟨a, by rw [hasks]; exact ha, htarget, hearly, hrequest⟩, hdrawn, by
        rw [hasks]; exact h.own⟩
  | moved i c b hi hasks hadvance _ =>
      have hown : ∀ request, b.phase.request = some request →
          request.requestId = p.request.requestId → i = p.ask := by
        intro request hr hsame
        rcases hadvance.request request hr with hr | ⟨-, n', hn', -, hid'⟩
        · exact h.own i c request hi hr hsame
        · rw [hid', hid] at hsame
          obtain ⟨-, rfl⟩ := requestIdOf_injective hsame
          omega
      refine ⟨?_, hdrawn, fun j d request hd hr hsame => ?_⟩
      · by_cases hask : p.ask = i
        · rw [hask] at ha ⊢
          obtain rfl := Option.some.inj (ha.symm.trans hi)
          refine ⟨b, by rw [hasks]; exact set_get_self hi, hadvance.target.trans htarget,
            fun hb => hearly (hadvance.early hb), fun request hr => ?_⟩
          rcases hadvance.request request hr with hr | ⟨hbefore, -⟩
          · exact hrequest request hr
          · exact absurd hbefore hearly
        · exact ⟨a, by rw [hasks, set_get_other hask]; exact ha, htarget, hearly, hrequest⟩
      · rw [hasks] at hd
        rcases set_get hd with ⟨rfl, rfl⟩ | ⟨-, hd⟩
        · exact hown request hr hsame
        · exact h.own j d request hd hr hsame

/-- An ask that awaits its result after a step has awaited it before, if its request was
posted by then. -/
theorem Knows.awaited {event : TurnEvent} {p : Posting} {b : Ask} {k : String} (h : Knows w p)
    (hchange : AskChange w w' event) (hb : w'.asks[p.ask]? = some b) (hawaits : b.Awaits k) :
    ∃ a, w.asks[p.ask]? = some a ∧ a.Awaits k := by
  obtain ⟨a, ha, -, hearly, -⟩ := h.ask
  cases hchange with
  | called c hasks hphase =>
      rw [hasks] at hb
      rcases concat_get hb with ⟨hlast, rfl⟩ | hb
      · rw [hlast, List.getElem?_eq_none le_rfl] at ha
        cases ha
      · exact ⟨b, hb, hawaits⟩
  | same hasks =>
      rw [hasks] at hb
      exact ⟨b, hb, hawaits⟩
  | moved i c d hi hasks hadvance _ =>
      rw [hasks] at hb
      rcases set_get hb with ⟨hask, rfl⟩ | ⟨-, hb⟩
      · rw [hask] at ha ⊢
        obtain rfl := Option.some.inj (hi.symm.trans ha)
        exact ⟨c, hi, hadvance.live k hawaits.1 hearly, hadvance.reply hawaits.2⟩
      · exact ⟨b, hb, hawaits⟩

end

/-! ## What is on the way -/

/-- The chat rooms ask for a turn in this message. -/
def AsksForTurn (m : RoutedMessage) : Prop :=
  m.source = chatRoomsKey ∧ m.message.kind = turnRequestKind

/-- The message has the request of this posting. -/
def Posting.carriedBy (p : Posting) (m : RoutedMessage) : Bool :=
  m.source = chatRoomsKey ∧ m.message.kind = turnRequestKind ∧
    (LlmTurnRequest.codec.decode m.message.payload).map LlmTurnRequest.requestId =
      some p.request.requestId

/-- The message has a result for this posting, from the Resident that was asked. -/
def Posting.AnsweredBy (p : Posting) (m : RoutedMessage) : Prop :=
  m.source = p.target ∧ m.message.kind = turnResultKind ∧
    ∃ result, LlmTurnResult.codec.decode m.message.payload = some result ∧
      result.requestId = p.request.requestId

/-- How often a request is pending at its target, was handled, or was lost. -/
def Exchange.count (s : Exchange) (p : Posting) : ℕ :=
  (s.pending p.target).countP p.carriedBy +
    s.handled.countP (fun h => p.carriedBy h.message) + s.lost.countP p.carriedBy

section

variable {p q : Posting} {m : RoutedMessage}

theorem Posting.carriedBy_iff : p.carriedBy m = true ↔ AsksForTurn m ∧
    (LlmTurnRequest.codec.decode m.message.payload).map LlmTurnRequest.requestId =
      some p.request.requestId := by
  simp [Posting.carriedBy, AsksForTurn, and_assoc]

theorem Posting.carriedBy_message :
    p.carriedBy q.message = true ↔ q.request.requestId = p.request.requestId := by
  simp [Posting.carriedBy, Posting.message, LlmTurnRequest.codec.decode_encode]

theorem Posting.carriedBy_eq_false (h : ¬AsksForTurn m) : p.carriedBy m = false :=
  Bool.eq_false_iff.mpr fun hcarried => h (carriedBy_iff.mp hcarried).1

/-- A message that passes the gate is the one in which the worker finds the request. -/
theorem gate_posting {decodeError : Json → String} {i : ℕ} {target : ResidentKey}
    {request : LlmTurnRequest} {passed : FlowMessage}
    (h : contextGate decodeError ⟨chatRoomsKey, target⟩ (turnRequestMessage request) =
      .ok passed) :
    (⟨chatRoomsKey, target, passed⟩ : RoutedMessage) =
      (⟨i, target, request⟩ : Posting).message := by
  simp only [contextGate, turnRequestMessage, ne_eq, not_true_eq_false, if_false,
    LlmTurnRequest.codec.decode_encode] at h
  split at h
  · cases h
  · split at h
    · cases h
    · split_ifs at h
      obtain rfl := Except.ok.inj h
      rfl

theorem receive_reply {env : Environment} {path : Option String} {worker : Worker}
    {target : ResidentKey} {message : FlowMessage}
    (h : (receive env path worker m).reply = some (target, message)) :
    target = m.source ∧ message.kind ≠ turnRequestKind ∧
      (message.kind = turnResultKind → m.message.kind = turnRequestKind) := by
  unfold receive at h
  split_ifs at h with hmemory hturn
  obtain ⟨rfl, rfl⟩ := Prod.mk.inj (Option.some.inj h)
  refine ⟨rfl, ?_, fun hkind => ?_⟩
  · dsimp only
    split_ifs
    · decide
    · decide
  · by_contra hother
    rw [if_neg hother] at hkind
    have hdiffer : codexTurnResultKind ≠ turnResultKind := by decide
    exact hdiffer hkind

end

section

variable {s : Exchange} {p : Posting} {k k' : ResidentKey} {m m' : RoutedMessage}

theorem Exchange.pending_arrive (h : m' ∈ (s.arrive k m).pending k') :
    m' ∈ s.pending k' ∨ k' = k ∧ m' = m := by
  simp only [Exchange.pending, Exchange.arrive, List.mem_append] at h ⊢
  by_cases hk : k' = k
  · subst hk
    rw [Function.update_self, List.mem_append, List.mem_singleton] at h
    rcases h with hcurrent | hinbound | hm
    · exact .inl (.inl hcurrent)
    · exact .inl (.inr hinbound)
    · exact .inr ⟨rfl, hm⟩
  · rw [Function.update_of_ne hk] at h
    exact .inl h

theorem Exchange.arrive_pending (k : ResidentKey) (m : RoutedMessage) (h : m' ∈ s.pending k') :
    m' ∈ (s.arrive k m).pending k' := by
  simp only [Exchange.pending, Exchange.arrive, List.mem_append] at h ⊢
  refine h.imp_right fun hinbound => ?_
  by_cases hk : k' = k
  · rw [hk, Function.update_self]
    exact List.mem_append_left _ (hk ▸ hinbound)
  · rwa [Function.update_of_ne hk]

/-- Nothing that is held is lost where another message arrives. -/
theorem Exchange.held_arrive {p : Posting} (k : ResidentKey) (m₀ : RoutedMessage)
    (h : p.message ∈ s.pending p.target ∨ (∃ m ∈ s.pending chatRoomsKey, p.AnsweredBy m) ∨
      ∃ m ∈ s.lost, m = p.message ∨ p.AnsweredBy m) :
    p.message ∈ (s.arrive k m₀).pending p.target ∨
      (∃ m ∈ (s.arrive k m₀).pending chatRoomsKey, p.AnsweredBy m) ∨
      ∃ m ∈ s.lost, m = p.message ∨ p.AnsweredBy m := by
  rcases h with hm | ⟨m, hm, hanswer⟩ | hlost
  · exact .inl (Exchange.arrive_pending _ _ hm)
  · exact .inr (.inl ⟨m, Exchange.arrive_pending _ _ hm, hanswer⟩)
  · exact .inr (.inr hlost)

theorem Exchange.arrived (s : Exchange) (k : ResidentKey) (m : RoutedMessage) :
    m ∈ (s.arrive k m).pending k := by
  simp only [Exchange.pending, Exchange.arrive, Function.update_self]
  exact List.mem_append_right _ (List.mem_append_right _ (List.mem_singleton_self m))

theorem Exchange.count_arrive (h : p.carriedBy m = false ∨ k ≠ p.target) :
    (s.arrive k m).count p = s.count p := by
  simp only [Exchange.count, Exchange.pending, Exchange.arrive]
  by_cases hk : p.target = k
  · obtain hcarried := h.resolve_right fun hne => hne hk.symm
    simp [hk, hcarried]
  · rw [Function.update_of_ne hk]

theorem Exchange.mem_pending : m ∈ s.pending k ↔ s.current k = some m ∨ m ∈ s.inbound k := by
  rw [Exchange.pending, List.mem_append, Option.mem_toList]

theorem Exchange.pending_current (h : s.current k = some m) :
    s.pending k = m :: s.inbound k := by
  rw [Exchange.pending, h]
  rfl

/-- A message that is taken stays pending. -/
theorem Exchange.pending_recv {rest : List RoutedMessage} (hidle : s.current k = none)
    (hm : s.inbound k = m :: rest) (k' : ResidentKey) :
    Exchange.pending {s with
      inbound := Function.update s.inbound k rest
      current := Function.update s.current k (some m)} k' = s.pending k' := by
  simp only [Exchange.pending]
  by_cases hk : k' = k
  · subst hk
    rw [Function.update_self, Function.update_self, hidle, hm]
    rfl
  · rw [Function.update_of_ne hk, Function.update_of_ne hk]

theorem Exchange.pending_done (s : Exchange) (k : ResidentKey) :
    (Function.update s.current k none k).toList ++ s.inbound k = s.inbound k := by
  rw [Function.update_self]
  rfl

theorem Exchange.pending_other (h : k' ≠ k) :
    (Function.update s.current k none k').toList ++ s.inbound k' = s.pending k' := by
  rw [Function.update_of_ne h]
  rfl

variable {accepted : Bool} {reply : Option (ResidentKey × FlowMessage)}

/-- Besides one more message in a mailbox or among the lost ones, a reply changes nothing. -/
theorem Exchange.replied_cases {P : Exchange → Prop} (hnone : reply = none → P s)
    (harrived : ∀ target message, reply = some (target, message) →
      P (s.arrive target ⟨k, target, message⟩))
    (hlost : ∀ target message, reply = some (target, message) →
      P {s with lost := ⟨k, target, message⟩ :: s.lost}) : P (s.replied k accepted reply) := by
  rcases reply with _ | ⟨target, message⟩
  · exact hnone rfl
  · cases accepted with
    | true => exact harrived target message rfl
    | false => exact hlost target message rfl

end

/-! ## The invariant -/

section

variable (settings : ResidentKey → Settings) (path : ResidentKey → Option String)
  (codex : ResidentKey → Prop)

/-- Requests are where they belong, each of them once. A result was made for a request, and
whoever awaits one has its request or its result on the way, or one of them was lost. -/
structure Conveyed (s : Exchange) : Prop where
  tracked : Tracked s.turns
  known : ∀ p ∈ s.posted, Knows s.turns p
  distinct : ∀ p ∈ s.posted, ∀ q ∈ s.posted, p.request.requestId = q.request.requestId → p = q
  waiting : ∀ (i : ℕ) (a : Ask) (request : LlmTurnRequest), s.turns.asks[i]? = some a →
    a.phase = .waiting request → ∃ p ∈ s.posted, p.ask = i
  requests : ∀ k, codex k → ∀ m ∈ s.pending k, AsksForTurn m →
    ∃ p ∈ s.posted, p.target = k ∧ m = p.message
  handled : ∀ h ∈ s.handled, Served (settings h.resident) h.env (h.reaction path).executed ∧
    (AsksForTurn h.message → ∃ p ∈ s.posted, p.target = h.resident ∧ h.message = p.message)
  lost : ∀ m ∈ s.lost, AsksForTurn m → ∃ p ∈ s.posted, m = p.message
  counted : ∀ p ∈ s.posted, codex p.target → s.count p = 1
  results : ∀ m, m ∈ s.pending chatRoomsKey ∨ m ∈ s.turns.received →
    m.message.kind = turnResultKind → codex m.source →
      ∃ h ∈ s.handled, h.resident = m.source ∧
        (h.reaction path).reply = some (chatRoomsKey, m.message)
  held : ∀ p ∈ s.posted, codex p.target → ∀ a, s.turns.asks[p.ask]? = some a →
    a.Awaits p.request.requestId → p.message ∈ s.pending p.target ∨
      (∃ m ∈ s.pending chatRoomsKey, p.AnsweredBy m) ∨
      ∃ m ∈ s.lost, m = p.message ∨ p.AnsweredBy m

end

section

variable {isAlphanumeric : Char → Bool} {settings : ResidentKey → Settings}
  {path : ResidentKey → Option String} {codex : ResidentKey → Prop} {s s' : Exchange}

theorem conveyed_launched (workers : ResidentKey → Worker) :
    Conveyed settings path codex (.launched workers) := by
  refine ⟨tracked_launched, ?_, ?_, ?_, ?_, ?_, ?_, ?_, ?_, ?_⟩ <;>
    simp [Exchange.launched, Exchange.pending, Turns.launched]

/-- A message that carries the request of a posting is the message of that posting. -/
theorem Conveyed.carrier (h : Conveyed settings path codex s) {p q : Posting} (hp : p ∈ s.posted)
    (hq : q ∈ s.posted) (hcarried : p.carriedBy q.message = true) : q = p :=
  h.distinct q hq p hp (Posting.carriedBy_message.mp hcarried)

/-- An ask starts to wait when its send is over. -/
theorem Conveyed.waiting_change (h : Conveyed settings path codex s) {event : TurnEvent}
    {turns : Turns} (hchange : AskChange s.turns turns event)
    (hsent : ∀ i, event = .sent i → ∃ p ∈ s.posted, p.ask = i) (i : ℕ) (b : Ask)
    (request : LlmTurnRequest) (hb : turns.asks[i]? = some b)
    (hphase : b.phase = .waiting request) : ∃ p ∈ s.posted, p.ask = i := by
  cases hchange with
  | called c hasks hqueued =>
      rw [hasks] at hb
      rcases concat_get hb with ⟨-, rfl⟩ | hb
      · rw [hqueued] at hphase
        cases hphase
      · exact h.waiting i b request hb hphase
  | same hasks =>
      rw [hasks] at hb
      exact h.waiting i b request hb hphase
  | moved j a c hj hasks _ hwaiting =>
      rw [hasks] at hb
      rcases set_get hb with ⟨rfl, rfl⟩ | ⟨-, hb⟩
      · rcases hwaiting request hphase with hbefore | hevent
        · exact h.waiting i a request hj hbefore
        · exact hsent i hevent
      · exact h.waiting i b request hb hphase

theorem Conveyed.turn (h : Conveyed settings path codex s) {event : TurnEvent} {turns : Turns}
    (hpermits : s.Permits event) (hstep : TurnStep isAlphanumeric s.turns event turns) :
    Conveyed settings path codex {s with turns := turns} := by
  obtain ⟨hchange, hnext⟩ := hstep.change
  have hreceived : turns.received = s.turns.received := by
    cases hstep with
    | receive m => exact hpermits.elim
    | _ => rfl
  refine ⟨h.tracked.step hstep, fun p hp => (h.known p hp).change hchange hnext, h.distinct, ?_,
    h.requests, h.handled, h.lost, h.counted, ?_, ?_⟩
  · exact h.waiting_change hchange fun i hsent => by
      rw [hsent] at hpermits
      exact hpermits
  · rw [hreceived]
    exact h.results
  · intro p hp hcodex b hb hawaits
    obtain ⟨a, ha, hbefore⟩ := (h.known p hp).awaited hchange hb hawaits
    exact h.held p hp hcodex a ha hbefore

/-- A request is let into the mailbox of its target. -/
theorem Conveyed.post (h : Conveyed settings path codex s) {i : ℕ} {a : Ask}
    {request : LlmTurnRequest} (hi : s.turns.asks[i]? = some a)
    (hphase : a.phase = .sending request) (hnew : ∀ p ∈ s.posted, p.ask ≠ i) {p₀ : Posting}
    (hp₀ : p₀ = ⟨i, a.target, request⟩) :
    Conveyed settings path codex {s.arrive p₀.target p₀.message with
      posted := p₀ :: s.posted} := by
  have hrequest : a.phase.request = some request := by rw [hphase]; rfl
  have hfresh : ∀ q ∈ s.posted, q.request.requestId ≠ p₀.request.requestId := by
    intro q hq hsame
    refine hnew q hq ((h.known q hq).own i a request hi hrequest ?_).symm
    rw [hsame, hp₀]
  have hknown : Knows s.turns p₀ := by
    subst hp₀
    obtain ⟨n, hn, hid⟩ := h.tracked.identified.drawn i a request hi hrequest
    refine ⟨⟨a, hi, rfl, by rw [hphase]; exact id, fun r hr => ?_⟩, ⟨a.roomId, n, hn, hid⟩, ?_⟩
    · exact Option.some.inj (hr.symm.trans hrequest)
    · exact fun j b r hj hr hsame =>
        h.tracked.identified.distinct j i b a r request hj hi hr hrequest hsame
  have hnone : ∀ m, (AsksForTurn m → ∃ q ∈ s.posted, m = q.message) → p₀.carriedBy m = false := by
    intro m hm
    refine Bool.eq_false_iff.mpr fun hcarried => ?_
    obtain ⟨q, hq, rfl⟩ := hm (Posting.carriedBy_iff.mp hcarried).1
    exact hfresh q hq (Posting.carriedBy_message.mp hcarried)
  have hold : ∀ {q}, q ∈ s.posted → q ∈ p₀ :: s.posted := List.mem_cons_of_mem _
  refine ⟨h.tracked, ?_, ?_, ?_, ?_, ?_, ?_, ?_, ?_, ?_⟩
  · intro p hp
    rcases List.mem_cons.mp hp with rfl | hp
    · exact hknown
    · exact h.known p hp
  · intro p hp q hq hsame
    rcases List.mem_cons.mp hp with rfl | hp
    · rcases List.mem_cons.mp hq with rfl | hq
      · rfl
      · exact absurd hsame.symm (hfresh q hq)
    · rcases List.mem_cons.mp hq with hself | hq
      · exact absurd (hsame.trans (congrArg (·.request.requestId) hself)) (hfresh p hp)
      · exact h.distinct p hp q hq hsame
  · intro j b r hj hwaiting
    obtain ⟨p, hp, hask⟩ := h.waiting j b r hj hwaiting
    exact ⟨p, hold hp, hask⟩
  · intro k hcodex m hm hasks
    rcases Exchange.pending_arrive (s := s) hm with hm | ⟨rfl, rfl⟩
    · obtain ⟨p, hp, hmessage⟩ := h.requests k hcodex m hm hasks
      exact ⟨p, hold hp, hmessage⟩
    · exact ⟨p₀, List.mem_cons_self, rfl, rfl⟩
  · intro c hc
    obtain ⟨hserved, hfrom⟩ := h.handled c hc
    refine ⟨hserved, fun hasks => ?_⟩
    obtain ⟨p, hp, hmessage⟩ := hfrom hasks
    exact ⟨p, hold hp, hmessage⟩
  · intro m hm hasks
    obtain ⟨p, hp, hmessage⟩ := h.lost m hm hasks
    exact ⟨p, hold hp, hmessage⟩
  · intro p hp hcodex
    rcases List.mem_cons.mp hp with rfl | hp
    · have hpending : (s.pending p.target).countP p.carriedBy = 0 :=
        List.countP_eq_zero.mpr fun m hm => by
          rw [hnone m fun hasks => (h.requests _ hcodex m hm hasks).imp fun q hq => ⟨hq.1, hq.2.2⟩]
          exact Bool.false_ne_true
      have hhandled : s.handled.countP (fun c => p.carriedBy c.message) = 0 :=
        List.countP_eq_zero.mpr fun c hc => by
          rw [hnone _ fun hasks => ((h.handled c hc).2 hasks).imp fun q hq => ⟨hq.1, hq.2.2⟩]
          exact Bool.false_ne_true
      have hlost : s.lost.countP p.carriedBy = 0 :=
        List.countP_eq_zero.mpr fun m hm => by
          rw [hnone m (h.lost m hm)]
          exact Bool.false_ne_true
      have hself : p.carriedBy p.message = true := Posting.carriedBy_message.mpr rfl
      simp only [Exchange.pending, List.countP_append, Nat.add_eq_zero_iff] at hpending
      simp only [Exchange.count, Exchange.pending, Exchange.arrive, Function.update_self,
        List.countP_append, List.countP_singleton, hpending.1, hpending.2, hhandled, hlost, hself,
        if_true]
    · refine (Exchange.count_arrive (.inl ?_)).trans (h.counted p hp hcodex)
      exact Bool.eq_false_iff.mpr fun hcarried =>
        hfresh p hp (Posting.carriedBy_message.mp hcarried).symm
  · intro m hm hkind hcodex
    refine h.results m (hm.imp_left fun harrived => ?_) hkind hcodex
    rcases Exchange.pending_arrive (s := s) harrived with hm | ⟨-, rfl⟩
    · exact hm
    · have hdiffer : turnRequestKind ≠ turnResultKind := by decide
      exact absurd hkind hdiffer
  · intro p hp hcodex b hb hawaits
    rcases List.mem_cons.mp hp with rfl | hp
    · exact .inl (Exchange.arrived s p.target p.message)
    · exact Exchange.held_arrive _ _ (h.held p hp hcodex b hb hawaits)

/-- Any other message comes in. -/
theorem Conveyed.other (h : Conveyed settings path codex s) {m : RoutedMessage}
    (hforeign : Foreign codex m) : Conveyed settings path codex (s.arrive m.target m) := by
  have hnot : ¬AsksForTurn m := fun hasks => hforeign.1 hasks.1 hasks.2
  refine ⟨h.tracked, h.known, h.distinct, h.waiting, ?_, h.handled, h.lost, ?_, ?_, ?_⟩
  · intro k hcodex m' hm hasks
    rcases Exchange.pending_arrive hm with hm | ⟨-, rfl⟩
    · exact h.requests k hcodex m' hm hasks
    · exact absurd hasks hnot
  · intro p hp hcodex
    exact (Exchange.count_arrive (.inl (Posting.carriedBy_eq_false hnot))).trans
      (h.counted p hp hcodex)
  · intro m' hm hkind hcodex
    refine h.results m' (hm.imp_left fun harrived => ?_) hkind hcodex
    rcases Exchange.pending_arrive harrived with hm | ⟨-, rfl⟩
    · exact hm
    · exact absurd hkind (hforeign.2 hcodex)
  · intro p hp hcodex b hb hawaits
    exact Exchange.held_arrive _ _ (h.held p hp hcodex b hb hawaits)

/-- A result that its ask awaits is handed to it. -/
theorem Tracked.receive_awaited {w : Turns} (h : Tracked w) {i : ℕ} {a b : Ask}
    {m : RoutedMessage} {result : LlmTurnResult} (ha : w.asks[i]? = some a)
    (hawaits : a.Awaits result.requestId) (hsource : m.source = a.target)
    (hkind : m.message.kind = turnResultKind)
    (hdecode : LlmTurnResult.codec.decode m.message.payload = some result)
    (hb : (w.receive m).asks[i]? = some b) : b.reply = some result := by
  have hentry := h.tabled.awaited i a _ ha hawaits
  rcases receive_cases w m with ⟨hno, -⟩ | ⟨result', turn, hs, hw⟩
  · exact absurd ⟨hkind, hdecode, hentry, hsource.symm⟩ (hno result _)
  · obtain rfl := Option.some.inj (hs.decoded.symm.trans hdecode)
    obtain rfl := Option.some.inj (hs.entry.symm.trans hentry)
    rw [hw] at hb
    simp only [List.getElem?_modify_eq, ha] at hb
    obtain rfl := Option.some.inj hb
    rfl

/-- A party takes the next message. -/
theorem Conveyed.recv (h : Conveyed settings path codex s) {k : ResidentKey} {m : RoutedMessage}
    {rest : List RoutedMessage} (hidle : s.current k = none) (hm : s.inbound k = m :: rest) :
    Conveyed settings path codex {s with
      inbound := Function.update s.inbound k rest
      current := Function.update s.current k (some m)} := by
  have hpending := Exchange.pending_recv hidle hm
  refine ⟨h.tracked, h.known, h.distinct, h.waiting, ?_, h.handled, h.lost, ?_, ?_, ?_⟩
  · simp only [hpending]
    exact h.requests
  · simp only [Exchange.count, hpending]
    exact h.counted
  · simp only [hpending]
    exact h.results
  · simp only [hpending]
    exact h.held

/-- The chat rooms are done with a message. -/
theorem Conveyed.take (hchat : ¬codex chatRoomsKey) (h : Conveyed settings path codex s)
    {m : RoutedMessage} (hm : s.current chatRoomsKey = some m) :
    Conveyed settings path codex {s with
      turns := s.turns.receive m
      current := Function.update s.current chatRoomsKey none} := by
  obtain ⟨hchange, hnext⟩ :=
    (TurnStep.receive s.turns m : TurnStep (fun _ => false) s.turns (.receive m) _).change
  have hreceived : (s.turns.receive m).received = s.turns.received ++ [m] := by
    rcases receive_cases s.turns m with ⟨-, hw⟩ | ⟨result, turn, -, hw⟩
    · rw [hw]
    · rw [hw]
  have hbefore := Exchange.pending_current hm
  have hworker : ∀ k, codex k →
      (Function.update s.current chatRoomsKey none k).toList ++ s.inbound k = s.pending k := by
    intro k hcodex
    refine Exchange.pending_other ?_
    rintro rfl
    exact hchat hcodex
  refine ⟨h.tracked.receive m, fun p hp => (h.known p hp).change hchange hnext, h.distinct, ?_, ?_,
    h.handled, h.lost, ?_, ?_, ?_⟩
  · exact h.waiting_change hchange fun i hsent => nomatch hsent
  · intro k hcodex m' hm' hasks
    simp only [Exchange.pending, hworker k hcodex] at hm'
    exact h.requests k hcodex m' hm' hasks
  · intro p hp hcodex
    have hcount := h.counted p hp hcodex
    simp only [Exchange.count] at hcount ⊢
    rw [Exchange.pending, hworker p.target hcodex]
    exact hcount
  · intro m' hm' hkind hcodex
    refine h.results m' ?_ hkind hcodex
    simp only [Exchange.pending, Exchange.pending_done, hreceived, List.mem_append,
      List.mem_singleton] at hm'
    rw [hbefore, List.mem_cons]
    tauto
  · intro p hp hcodex b hb hawaits
    obtain ⟨a, ha, hawaited⟩ := (h.known p hp).awaited hchange hb hawaits
    simp only [Exchange.pending, hworker p.target hcodex, Exchange.pending_done]
    rcases h.held p hp hcodex a ha hawaited with hrequest | ⟨m', hm', hanswer⟩ | hlost
    · exact .inl hrequest
    · rw [hbefore] at hm'
      rcases List.mem_cons.mp hm' with rfl | hm'
      · obtain ⟨hsource, hkind, result, hdecode, hid⟩ := hanswer
        obtain ⟨a', ha', htarget, -⟩ := (h.known p hp).ask
        obtain rfl := Option.some.inj (ha'.symm.trans ha)
        have hreply := h.tracked.receive_awaited ha (hid ▸ hawaited) (hsource.trans htarget.symm)
          hkind hdecode hb
        exact absurd (hawaits.2.symm.trans hreply) nofun
      · exact .inr (.inl ⟨m', hm', hanswer⟩)
    · exact .inr (.inr hlost)

/-- A worker is done with its message, and its reply is not sent yet. -/
structure Answering (settings : ResidentKey → Settings) (path : ResidentKey → Option String)
    (codex : ResidentKey → Prop) (s : Exchange) (h : Handling) : Prop where
  conveyed : Conveyed settings path codex s
  codex : codex h.resident
  current : s.current h.resident = some h.message
  served : Served (settings h.resident) h.env (h.reaction path).executed

section

variable {h : Handling} {accepted : Bool}

theorem Answering.pending (ha : Answering settings path codex s h) :
    s.pending h.resident = h.message :: s.inbound h.resident :=
  Exchange.pending_current ha.current

/-- What the worker is handling was posted to it. -/
theorem Answering.posted (ha : Answering settings path codex s h) (hasks : AsksForTurn h.message) :
    ∃ p ∈ s.posted, p.target = h.resident ∧ h.message = p.message :=
  ha.conveyed.requests _ ha.codex h.message (by rw [ha.pending]; exact List.mem_cons_self) hasks

theorem Exchange.handling_pending (worker : Worker) :
    (s.handling h worker).pending h.resident = s.inbound h.resident :=
  Exchange.pending_done s h.resident

theorem Exchange.handling_pending_of_ne {k : ResidentKey} (worker : Worker)
    (hk : k ≠ h.resident) : (s.handling h worker).pending k = s.pending k :=
  Exchange.pending_other hk

theorem Answering.count (ha : Answering settings path codex s h) (worker : Worker)
    {p : Posting} (hp : p ∈ s.posted) : (s.handling h worker).count p = s.count p := by
  have hhandled : (s.handling h worker).handled = h :: s.handled := rfl
  have hlost : (s.handling h worker).lost = s.lost := rfl
  simp only [Exchange.count, hhandled, hlost, List.countP_cons]
  by_cases htarget : p.target = h.resident
  · rw [htarget, Exchange.handling_pending, ha.pending, List.countP_cons]
    omega
  · have hcarried : p.carriedBy h.message = false := by
      refine Bool.eq_false_iff.mpr fun hcarried => htarget ?_
      obtain ⟨q, hq, hqtarget, hmessage⟩ := ha.posted (Posting.carriedBy_iff.mp hcarried).1
      rw [hmessage] at hcarried
      exact ha.conveyed.carrier hp hq hcarried ▸ hqtarget
    rw [Exchange.handling_pending_of_ne worker htarget, hcarried]
    rfl

/-- What waits while a worker replies was waiting before. -/
theorem Answering.pending_before (ha : Answering settings path codex s h) (worker : Worker)
    {k : ResidentKey} {m : RoutedMessage} (hm : m ∈ (s.handling h worker).pending k) :
    m ∈ s.pending k := by
  by_cases hk : k = h.resident
  · subst hk
    rw [Exchange.handling_pending] at hm
    rw [ha.pending]
    exact List.mem_cons_of_mem _ hm
  · rwa [Exchange.handling_pending_of_ne _ hk] at hm

/-- A request that was held before is held still, unless the reply of the worker is its
answer. -/
theorem Answering.held (ha : Answering settings path codex s h) {p : Posting}
    (hp : p ∈ s.posted) (hcodex : codex p.target) {a : Ask}
    (hask : s.turns.asks[p.ask]? = some a) (hawaits : a.Awaits p.request.requestId) :
    p.message ∈ (s.handling h (h.reaction path).worker).pending p.target ∨
      (∃ m ∈ s.pending chatRoomsKey, p.AnsweredBy m) ∨
      (∃ m ∈ s.lost, m = p.message ∨ p.AnsweredBy m) ∨
      ∃ message, (h.reaction path).reply = some (chatRoomsKey, message) ∧
        p.AnsweredBy ⟨h.resident, chatRoomsKey, message⟩ := by
  rcases ha.conveyed.held p hp hcodex a hask hawaits with hm | hanswered | hlost
  · by_cases htarget : p.target = h.resident
    · rw [htarget, ha.pending] at hm
      rcases List.mem_cons.mp hm with hmessage | hm
      · have hserved := ha.served
        unfold Handling.reaction at hserved ⊢
        rw [← hmessage] at hserved ⊢
        obtain ⟨result, hfulfils, hreply⟩ := receive_posting hserved
        exact .inr (.inr (.inr ⟨_, hreply, htarget.symm, rfl, result,
          LlmTurnResult.codec.decode_encode result, hfulfils.requestId⟩))
      · refine .inl ?_
        rwa [htarget, Exchange.handling_pending]
    · refine .inl ?_
      rwa [Exchange.handling_pending_of_ne _ htarget]
  · exact .inr (.inl hanswered)
  · exact .inr (.inr (.inl hlost))

theorem Answering.handled (ha : Answering settings path codex s h) : ∀ c ∈ h :: s.handled,
    Served (settings c.resident) c.env (c.reaction path).executed ∧
      (AsksForTurn c.message →
        ∃ p ∈ s.posted, p.target = c.resident ∧ c.message = p.message) := by
  intro c hin
  rcases List.mem_cons.mp hin with rfl | hin
  · exact ⟨ha.served, ha.posted⟩
  · exact ha.conveyed.handled c hin

/-- A worker answers the message that it has taken. -/
theorem Answering.handle (hchat : ¬codex chatRoomsKey)
    (ha : Answering settings path codex s h) :
    Conveyed settings path codex ((s.handling h (h.reaction path).worker).replied h.resident
      accepted (h.reaction path).reply) := by
  have hc := ha.conveyed
  have hother : h.resident ≠ chatRoomsKey := by
    intro hself
    exact hchat (hself ▸ ha.codex)
  have hnot : ∀ target message, ¬AsksForTurn ⟨h.resident, target, message⟩ :=
    fun target message hasks => hother hasks.1
  have hrequests : ∀ k, codex k → ∀ m ∈ (s.handling h (h.reaction path).worker).pending k,
      AsksForTurn m → ∃ p ∈ s.posted, p.target = k ∧ m = p.message :=
    fun k hcodex m hm => hc.requests k hcodex m (ha.pending_before _ hm)
  have hchatRooms : (s.handling h (h.reaction path).worker).pending chatRoomsKey =
      s.pending chatRoomsKey := Exchange.handling_pending_of_ne _ hother.symm
  have hresults : ∀ m, m ∈ s.pending chatRoomsKey ∨ m ∈ s.turns.received →
      m.message.kind = turnResultKind → codex m.source → ∃ c ∈ h :: s.handled,
        c.resident = m.source ∧ (c.reaction path).reply = some (chatRoomsKey, m.message) := by
    intro m hm hkind hcodex
    obtain ⟨c, hin, hcase⟩ := hc.results m hm hkind hcodex
    exact ⟨c, List.mem_cons_of_mem _ hin, hcase⟩
  have hcount : ∀ p ∈ s.posted, codex p.target →
      (s.handling h (h.reaction path).worker).count p = 1 :=
    fun p hp hcodex => (ha.count _ hp).trans (hc.counted p hp hcodex)
  refine Exchange.replied_cases (fun hreply => ?_) (fun target message hreply => ?_)
    fun target message hreply => ?_
  · refine ⟨hc.tracked, hc.known, hc.distinct, hc.waiting, hrequests, ha.handled, hc.lost, hcount,
      ?_, ?_⟩
    · rw [hchatRooms]
      exact hresults
    · rw [hchatRooms]
      intro p hp hcodex a hask hawaits
      rcases ha.held hp hcodex hask hawaits with hm | hanswered | hlost | ⟨message, hsome, -⟩
      · exact .inl hm
      · exact .inr (.inl hanswered)
      · exact .inr (.inr hlost)
      · exact absurd (hreply.symm.trans hsome) nofun
  · refine ⟨hc.tracked, hc.known, hc.distinct, hc.waiting, ?_, ha.handled, hc.lost, ?_, ?_, ?_⟩
    · intro k hcodex m hm hasks
      rcases Exchange.pending_arrive hm with hm | ⟨-, rfl⟩
      · exact hrequests k hcodex m hm hasks
      · exact absurd hasks (hnot _ _)
    · exact fun p hp hcodex =>
        (Exchange.count_arrive (.inl (Posting.carriedBy_eq_false (hnot _ _)))).trans
          (hcount p hp hcodex)
    · intro m hm hkind hcodex
      rcases hm with hm | hreceived
      · rcases Exchange.pending_arrive hm with hm | ⟨htarget, rfl⟩
        · exact hresults m (.inl (hchatRooms ▸ hm)) hkind hcodex
        · exact ⟨h, List.mem_cons_self, rfl, htarget ▸ hreply⟩
      · exact hresults m (.inr hreceived) hkind hcodex
    · intro p hp hcodex a hask hawaits
      rcases ha.held hp hcodex hask hawaits with
        hm | ⟨m, hm, hanswered⟩ | hlost | ⟨message', hsome, hanswered⟩
      · exact .inl (Exchange.arrive_pending _ _ hm)
      · exact .inr (.inl ⟨m, Exchange.arrive_pending _ _ (hchatRooms ▸ hm), hanswered⟩)
      · exact .inr (.inr hlost)
      · obtain ⟨rfl, rfl⟩ := Prod.mk.inj (Option.some.inj (hreply.symm.trans hsome))
        exact .inr (.inl ⟨_, Exchange.arrived _ _ _, hanswered⟩)
  · have hrooms : ∀ m ∈ s.pending chatRoomsKey,
        m ∈ (s.handling h (h.reaction path).worker).pending chatRoomsKey :=
      fun m hm => hchatRooms ▸ hm
    refine ⟨hc.tracked, hc.known, hc.distinct, hc.waiting, hrequests, ha.handled, ?_, ?_,
      fun m hm => hresults m (hm.imp_left (ha.pending_before (h.reaction path).worker)), ?_⟩
    · intro m hm hasks
      rcases List.mem_cons.mp hm with rfl | hm
      · exact absurd hasks (hnot _ _)
      · exact hc.lost m hm hasks
    · intro p hp hcodex
      have hcarried := Posting.carriedBy_eq_false (p := p) (hnot target message)
      have hsum := hcount p hp hcodex
      simp only [Exchange.count, List.countP_cons, hcarried] at hsum ⊢
      exact hsum
    · intro p hp hcodex a hask hawaits
      rcases ha.held hp hcodex hask hawaits with
        hm | ⟨m, hm, hanswered⟩ | ⟨m, hm, hlost⟩ | ⟨message', hsome, hanswered⟩
      · exact .inl hm
      · exact .inr (.inl ⟨m, hrooms m hm, hanswered⟩)
      · exact .inr (.inr ⟨m, List.mem_cons_of_mem _ hm, hlost⟩)
      · obtain ⟨rfl, rfl⟩ := Prod.mk.inj (Option.some.inj (hreply.symm.trans hsome))
        exact .inr (.inr ⟨_, List.mem_cons_self, .inr hanswered⟩)

end

theorem Exchange.relaunched_pending (s : Exchange) (k : ResidentKey) (worker : Worker) :
    (s.relaunched k worker).pending k = [] := by
  simp only [Exchange.pending, Exchange.relaunched, Function.update_self]
  rfl

theorem Exchange.relaunched_pending_of_ne {k k' : ResidentKey} (worker : Worker) (hk : k' ≠ k) :
    (s.relaunched k worker).pending k' = s.pending k' := by
  simp only [Exchange.pending, Exchange.relaunched, Function.update_of_ne hk]

/-- A worker is replaced, and its mailbox is lost. -/
theorem Conveyed.relaunch (hchat : ¬codex chatRoomsKey) (h : Conveyed settings path codex s)
    {k : ResidentKey} (worker : Worker) (hcodex : codex k) :
    Conveyed settings path codex (s.relaunched k worker) := by
  have hrooms : (s.relaunched k worker).pending chatRoomsKey = s.pending chatRoomsKey := by
    refine Exchange.relaunched_pending_of_ne worker ?_
    rintro rfl
    exact hchat hcodex
  refine ⟨h.tracked, h.known, h.distinct, h.waiting, ?_, h.handled, ?_, ?_, ?_, ?_⟩
  · intro k' hcodex' m hm hasks
    by_cases hk : k' = k
    · subst hk
      rw [Exchange.relaunched_pending] at hm
      exact absurd hm List.not_mem_nil
    · rw [Exchange.relaunched_pending_of_ne worker hk] at hm
      exact h.requests k' hcodex' m hm hasks
  · intro m hm hasks
    rcases List.mem_append.mp hm with hm | hm
    · obtain ⟨p, hp, -, hmessage⟩ := h.requests k hcodex m hm hasks
      exact ⟨p, hp, hmessage⟩
    · exact h.lost m hm hasks
  · intro p hp hcodex'
    have hcount := h.counted p hp hcodex'
    have hlost : (s.relaunched k worker).lost = s.pending k ++ s.lost := rfl
    have hhandled : (s.relaunched k worker).handled = s.handled := rfl
    simp only [Exchange.count, hlost, hhandled, List.countP_append] at hcount ⊢
    by_cases htarget : p.target = k
    · subst htarget
      rw [Exchange.relaunched_pending, List.countP_nil]
      omega
    · have hnone : (s.pending k).countP p.carriedBy = 0 := by
        refine List.countP_eq_zero.mpr fun m hm hcarried => htarget ?_
        obtain ⟨q, hq, hqtarget, rfl⟩ :=
          h.requests k hcodex m hm (Posting.carriedBy_iff.mp hcarried).1
        exact h.carrier hp hq hcarried ▸ hqtarget
      rw [Exchange.relaunched_pending_of_ne worker htarget, hnone]
      omega
  · rw [hrooms]
    exact h.results
  · rw [hrooms]
    intro p hp hcodex' a hask hawaits
    rcases h.held p hp hcodex' a hask hawaits with hm | hanswered | ⟨m, hm, hlost⟩
    · by_cases htarget : p.target = k
      · refine .inr (.inr ⟨p.message, List.mem_append_left _ ?_, .inl rfl⟩)
        exact htarget ▸ hm
      · refine .inl ?_
        rwa [Exchange.relaunched_pending_of_ne worker htarget]
    · exact .inr (.inl hanswered)
    · exact .inr (.inr ⟨m, List.mem_append_right _ hm, hlost⟩)

theorem Conveyed.step (hchat : ¬codex chatRoomsKey) (h : Conveyed settings path codex s)
    {event : ExchangeEvent} (hstep : ExchangeStep isAlphanumeric settings path codex s event s') :
    Conveyed settings path codex s' := by
  cases hstep with
  | turn hpermits hstep => exact h.turn hpermits hstep
  | @post i a request passed decodeError hi hphase hnew hgate =>
      rw [gate_posting (i := i) hgate]
      exact h.post hi hphase hnew rfl
  | recv hparty hidle hm => exact h.recv hidle hm
  | handle accepted hcodex hm hh hserved =>
      subst hh
      exact Answering.handle hchat ⟨h, hcodex, hm, hserved⟩
  | take hm => exact h.take hchat hm
  | other hforeign => exact h.other hforeign
  | relaunch hcodex => exact h.relaunch hchat _ hcodex

theorem ExchangeRun.conveyed (hchat : ¬codex chatRoomsKey) {workers : ResidentKey → Worker}
    {events : List ExchangeEvent}
    (hrun : ExchangeRun isAlphanumeric settings path codex (.launched workers) events s) :
    Conveyed settings path codex s :=
  hrun.invariant (fun _ _ _ h hstep => h.step hchat hstep) (conveyed_launched workers)

/-! ## Turns end to end -/

/-- An ask that completes was served by its target: the worker handled this very request, and
no other worker or message did so again. The result is what the worker made of it, and the turns
behind the result have the origin and the messages that the ask had taken. -/
theorem completed_turn_served (hchat : ¬codex chatRoomsKey) {workers : ResidentKey → Worker}
    {events : List ExchangeEvent}
    (hrun : ExchangeRun isAlphanumeric settings path codex (.launched workers) events s)
    {i : ℕ} {a : Ask} {request : LlmTurnRequest} {result : LlmTurnResult}
    (hi : s.turns.asks[i]? = some a) (hdone : a.phase.CompletedWith request result)
    (hcodex : codex a.target) :
    ∃ h ∈ s.handled, h.resident = a.target ∧
      h.message = (⟨i, a.target, request⟩ : Posting).message ∧
      s.handled.countP (fun c => (⟨i, a.target, request⟩ : Posting).carriedBy c.message) = 1 ∧
      (h.reaction path).reply =
        some (chatRoomsKey, ⟨turnResultKind, LlmTurnResult.codec.encode result⟩) ∧
      Fulfils (settings a.target) request (h.reaction path).executed result := by
  have hc := hrun.conveyed hchat
  obtain ⟨delivered, hreplied⟩ := hc.tracked.replied
  have hrequest := CompletedWith.request hdone
  obtain ⟨j, m, -, hcarried⟩ := hreplied.handed i a request result hi hrequest
    (hreplied.completed i a request result hi hdone)
  obtain ⟨h, hin, hresident, hreply⟩ := hc.results m
    (.inr (List.mem_of_getElem? hcarried.taken)) hcarried.kind (hcarried.source ▸ hcodex)
  obtain ⟨hsource, -, hkind⟩ := receive_reply hreply
  obtain ⟨hserved, hfrom⟩ := hc.handled h hin
  obtain ⟨p, hp, htarget, hmessage⟩ := hfrom ⟨hsource.symm, hkind hcarried.kind⟩
  obtain ⟨result', hfulfils, hreply'⟩ :
      ∃ result', Fulfils (settings h.resident) p.request (h.reaction path).executed result' ∧
        (h.reaction path).reply =
          some (chatRoomsKey, ⟨turnResultKind, LlmTurnResult.codec.encode result'⟩) := by
    unfold Handling.reaction at hserved ⊢
    rw [hmessage] at hserved ⊢
    exact receive_posting hserved
  have hsame : result' = result := by
    have hencoded := (Prod.mk.inj (Option.some.inj (hreply.symm.trans hreply'))).2
    have hdecoded := hcarried.decoded
    rw [hencoded] at hdecoded
    exact Option.some.inj ((LlmTurnResult.codec.decode_encode result').symm.trans hdecoded)
  subst hsame
  have hask : i = p.ask := (hc.known p hp).own i a request hi hrequest
    (hcarried.requestId.symm.trans hfulfils.requestId)
  obtain ⟨b, hb, hbtarget, -, hbrequest⟩ := (hc.known p hp).ask
  rw [← hask] at hb
  obtain rfl := Option.some.inj (hi.symm.trans hb)
  obtain rfl := hbrequest request hrequest
  have hposting : (⟨i, a.target, p.request⟩ : Posting) = p := by
    rw [hask, hbtarget]
  rw [hposting]
  refine ⟨h, hin, htarget.symm.trans hbtarget.symm, hmessage, ?_, hreply', ?_⟩
  · have hcount := hc.counted p hp (hbtarget ▸ hcodex)
    have hpos : 0 < s.handled.countP fun c => p.carriedBy c.message :=
      List.countP_pos_iff.mpr ⟨h, hin, hmessage ▸ Posting.carriedBy_message.mpr rfl⟩
    simp only [Exchange.count] at hcount
    omega
  · rw [hbtarget, htarget]
    exact hfulfils

/-- An ask never waits for nothing: its request is in the mailbox of its target or the target
is at it, a result for it is in the mailbox of the chat rooms or they are at it, or one of the
two was lost. -/
theorem waiting_turn_held (hchat : ¬codex chatRoomsKey) {workers : ResidentKey → Worker}
    {events : List ExchangeEvent}
    (hrun : ExchangeRun isAlphanumeric settings path codex (.launched workers) events s)
    {i : ℕ} {a : Ask} {request : LlmTurnRequest} (hi : s.turns.asks[i]? = some a)
    (hphase : a.phase = .waiting request) (hnone : a.reply = none) (hcodex : codex a.target) :
    let p : Posting := ⟨i, a.target, request⟩
    p.message ∈ s.inbound a.target ∨ s.current a.target = some p.message ∨
      (∃ m, (m ∈ s.inbound chatRoomsKey ∨ s.current chatRoomsKey = some m) ∧ p.AnsweredBy m) ∨
        ∃ m ∈ s.lost, m = p.message ∨ p.AnsweredBy m := by
  have hc := hrun.conveyed hchat
  obtain ⟨p, hp, rfl⟩ := hc.waiting i a request hi hphase
  obtain ⟨b, hb, htarget, -, hrequest⟩ := (hc.known p hp).ask
  obtain rfl := Option.some.inj (hi.symm.trans hb)
  obtain rfl := hrequest request (by rw [hphase]; rfl)
  rw [htarget]
  rcases hc.held p hp (htarget ▸ hcodex) a hi ⟨by rw [hphase]; rfl, hnone⟩ with
    hm | ⟨m, hm, hanswered⟩ | hlost
  · rcases Exchange.mem_pending.mp hm with hcurrent | hinbound
    · exact .inr (.inl hcurrent)
    · exact .inl hinbound
  · exact .inr (.inr (.inl ⟨m, (Exchange.mem_pending.mp hm).symm, hanswered⟩))
  · exact .inr (.inr (.inr hlost))

end

/-! ## One turn -/

/-- The only ask is sending its request. -/
def soloSending : Turns :=
  ⟨(∅ : ExtTreeMap String PendingTurn).insert "chat-1-1" ⟨codexKey, 0⟩, 2,
    [⟨1, "codex", codexKey, "hello", .direct, none, .sending soloRequest, none⟩], []⟩

def soloSteps : List TurnEvent :=
  [.call 1 "codex" "hello" .direct none, .lock 0, .snapshot 0 (RoomStore.empty.put soloRoom),
    .number 0, .insert 0]

theorem soloSending_run : TurnRun Char.isAlphanum Turns.launched soloSteps soloSending := by
  have hsnapshot : turnSnapshot (RoomStore.empty.put soloRoom) 1 "codex" none =
      .ok (⟨.solo, 1, "Codex", false⟩, [⟨1, 1, "Codex", "user", "你", "hello", 1, []⟩]) := by rfl
  exact .cons (.call _ 1 "codex" codexKey "hello" .direct none (by rfl))
    (.cons (.lock _ 0 _ rfl rfl (by simp [Turns.launched, AskPhase.HoldsTurn]))
      (.cons (.snapshot _ 0 _ _ _ rfl rfl hsnapshot)
        (.cons (.number _ 0 _ _ rfl rfl) (.cons (.insert _ 0 _ soloRequest rfl rfl) (.nil _)))))

/-- The result of the turn, without an answer, and the worker that made it. -/
def servedResult : LlmTurnResult :=
  ⟨"chat-1-1", some "thread-1", some "turn-1", .completed, none, none, false, []⟩

def soloPosting : Posting := ⟨0, codexKey, soloRequest⟩

def soloHandling : Handling := ⟨codexKey, onThread "thread-1", ⟨true, ∅, ∅⟩, soloPosting.message⟩

def servedReply : RoutedMessage :=
  ⟨codexKey, chatRoomsKey, ⟨turnResultKind, LlmTurnResult.codec.encode servedResult⟩⟩

def servedTurns (phase : AskPhase) : Turns :=
  ⟨(∅ : ExtTreeMap String PendingTurn).insert "chat-1-1" ⟨codexKey, 0⟩ |>.erase "chat-1-1", 2,
    [⟨1, "codex", codexKey, "hello", .direct, none, phase, some servedResult⟩], [servedReply]⟩

def noPath : ResidentKey → Option String := fun _ => none

def soloWorkers : ResidentKey → Worker := fun _ => ⟨true, ∅, ∅⟩

abbrev SoloRun :=
  ExchangeRun Char.isAlphanum (fun _ => inWorkspace) noPath (· = codexKey)

theorem soloHandling_served :
    Served inWorkspace (onThread "thread-1") (soloHandling.reaction noPath).executed :=
  .once (startingThread "thread-1") rfl

/-- Steps of the chat rooms alone. -/
theorem ExchangeRun.of_turns {isAlphanumeric : Char → Bool} {settings : ResidentKey → Settings}
    {path : ResidentKey → Option String} {codex : ResidentKey → Prop} {s : Exchange}
    {events : List TurnEvent} {turns : Turns} (hrun : TurnRun isAlphanumeric s.turns events turns)
    (hpermits : ∀ event ∈ events, ∀ s : Exchange, s.Permits event) :
    ExchangeRun isAlphanumeric settings path codex s (events.map .turn)
      {s with turns := turns} := by
  generalize hturns : s.turns = start at hrun
  induction hrun generalizing s with
  | nil w =>
      subst hturns
      exact .nil s
  | cons hstep _ ih =>
      subst hturns
      exact .cons (.turn (hpermits _ List.mem_cons_self s) hstep)
        (ih (fun event hin => hpermits event (List.mem_cons_of_mem _ hin)) rfl)

theorem soloSteps_permitted : ∀ event ∈ soloSteps, ∀ s : Exchange, s.Permits event := by
  intro event hin s
  simp only [soloSteps, List.mem_cons, List.not_mem_nil, or_false] at hin
  rcases hin with rfl | rfl | rfl | rfl | rfl
  all_goals exact trivial

theorem soloRequest_gate : contextGate (fun _ => "") ⟨chatRoomsKey, codexKey⟩
    (turnRequestMessage soloRequest) = .ok soloPosting.message.message := by rfl

theorem chatRooms_not_codex : ¬chatRoomsKey = codexKey := by decide

theorem completed_turn_served_solo :
    ∃ s, SoloRun (.launched soloWorkers) (soloSteps.map .turn ++
        [.post 0, .recv codexKey, .handle codexKey (onThread "thread-1") true,
          .recv chatRoomsKey, .take, .turn (.sent 0), .turn (.resume 0)]) s ∧
      ∃ h ∈ s.handled, h.message = soloPosting.message ∧ (h.reaction noPath).reply =
        some (chatRoomsKey, ⟨turnResultKind, LlmTurnResult.codec.encode servedResult⟩) := by
  have hasked : SoloRun (.launched soloWorkers) _ _ :=
    .of_turns soloSending_run soloSteps_permitted
  obtain ⟨s, hrun, hturns⟩ : ∃ s, SoloRun (.launched soloWorkers) (soloSteps.map .turn ++
        [.post 0, .recv codexKey, .handle codexKey (onThread "thread-1") true,
          .recv chatRoomsKey, .take, .turn (.sent 0), .turn (.resume 0)]) s ∧
      s.turns = servedTurns (.completed soloRequest servedResult) := by
    refine ⟨_, hasked.append (.cons (.post (i := 0) rfl rfl ?_ soloRequest_gate)
      (.cons (.recv (.inl rfl) rfl rfl) (.cons (.handle true rfl rfl rfl soloHandling_served)
        (.cons (.recv (.inr rfl) rfl rfl) (.cons (.take rfl)
          (.cons (.turn ⟨soloPosting, List.mem_singleton_self _, rfl⟩
            (.sent _ 0 _ soloRequest rfl rfl)) (.single (.turn trivial
              (.resume _ 0 _ soloRequest servedResult rfl rfl rfl))))))))), rfl⟩
    exact fun p hp => absurd hp List.not_mem_nil
  have hi : s.turns.asks[0]? = some ⟨1, "codex", codexKey, "hello", .direct, none,
      .completed soloRequest servedResult, some servedResult⟩ := by
    rw [hturns]
    rfl
  obtain ⟨h, hin, -, hmessage, -, hreply, -⟩ :=
    completed_turn_served chatRooms_not_codex hrun hi ⟨rfl, rfl⟩ rfl
  exact ⟨s, hrun, h, hin, hmessage, hreply⟩

/-- The worker is at the request of the ask that waits. -/
theorem waiting_turn_held_solo :
    ∃ s, SoloRun (.launched soloWorkers)
        (soloSteps.map .turn ++ [.post 0, .recv codexKey, .turn (.sent 0)]) s ∧
      s.inbound codexKey = [] ∧ s.current codexKey = some soloPosting.message ∧
      (soloPosting.message ∈ s.inbound codexKey ∨ s.current codexKey = some soloPosting.message ∨
        (∃ m, (m ∈ s.inbound chatRoomsKey ∨ s.current chatRoomsKey = some m) ∧
          soloPosting.AnsweredBy m) ∨
          ∃ m ∈ s.lost, m = soloPosting.message ∨ soloPosting.AnsweredBy m) := by
  have hasked : SoloRun (.launched soloWorkers) _ _ :=
    .of_turns soloSending_run soloSteps_permitted
  obtain ⟨s, hrun, hinbound, hcurrent, hasks⟩ : ∃ s, SoloRun (.launched soloWorkers)
        (soloSteps.map .turn ++ [.post 0, .recv codexKey, .turn (.sent 0)]) s ∧
      s.inbound codexKey = [] ∧ s.current codexKey = some soloPosting.message ∧ s.turns.asks =
        [⟨1, "codex", codexKey, "hello", .direct, none, .waiting soloRequest, none⟩] := by
    refine ⟨_, hasked.append (.cons (.post (i := 0) rfl rfl ?_ soloRequest_gate)
      (.cons (.recv (.inl rfl) rfl rfl)
        (.single (.turn ⟨soloPosting, List.mem_singleton_self _, rfl⟩
          (.sent _ 0 _ soloRequest rfl rfl))))), rfl, rfl, rfl⟩
    exact fun p hp => absurd hp List.not_mem_nil
  exact ⟨s, hrun, hinbound, hcurrent, waiting_turn_held chatRooms_not_codex hrun (i := 0)
    (by rw [hasks]; rfl) rfl rfl rfl⟩

end NormaHarness.Asks
