import NormaHarness.CallDemultiplexing
import NormaHarness.TurnExecution

/-!
# The notifications of a turn

What a turn says depends on its own notifications up to the one that reports its end. They
may be left over from earlier calls, or be read before or after the response that tells the
identity of the turn. Notifications of other turns between them make no difference.
-/
namespace NormaHarness.AppServer
open Identifiers Contracts JsonValues LlmProtocol ToolProtocol Media CodexWorker

/-! ## What a turn says -/

def itemOf (m : Json) : Json := (m.get "params").get "item"

def turnOf (m : Json) : Json := (m.get "params").get "turn"

/-- A notification that says whose item has been completed, if it reports one. -/
structure Notifies (m : Json) : Prop where
  notification : isNotification m = true
  attributed : (m.get "method").asStr = some "item/completed" →
    ∃ turnId, ((m.get "params").get "turnId").asStr = some turnId

def isItemOf (turnId : String) (m : Json) : Bool :=
  (m.get "method").asStr == some "item/completed" &&
    ((m.get "params").get "turnId").asStr == some turnId

def isEndOf (turnId : String) (m : Json) : Bool :=
  (m.get "method").asStr == some "turn/completed" && ((turnOf m).get "id").asStr == some turnId

/-- The notifications of a turn. -/
def isOwn (turnId : String) (m : Json) : Bool := isItemOf turnId m || isEndOf turnId m

def agentText (item : Json) : Option String :=
  if (item.get "type").asStr = some "agentMessage" then (item.get "text").asStr else none

def finalText (item : Json) : Option String :=
  if (item.get "phase").asStr = some "final_answer" then agentText item else none

def isCompaction (item : Json) : Bool := (item.get "type").asStr == some "contextCompaction"

/-- The last final answer, or else the last message of the agent. -/
def responseIn (items : List Json) : Option String :=
  match (items.filterMap finalText).getLast? with
  | some text => some text
  | none => (items.filterMap agentText).getLast?

def knownStatus (turn : Json) : Option LlmTurnStatus :=
  match (turn.get "status").asStr with
  | some "completed" => some .completed
  | some "interrupted" => some .interrupted
  | some "failed" => some .failed
  | _ => none

structure TurnSummary where
  status : LlmTurnStatus
  error : Option String
  finalResponse : Option String
  compacted : Bool
  deriving DecidableEq, Repr

/-- What a turn says, from its own notifications. -/
def summaryOf (turnId : String) (own : List Json) : Option TurnSummary :=
  match own.find? (isEndOf turnId) with
  | none => none
  | some last =>
      let items := (own.takeWhile fun m => !isEndOf turnId m).map itemOf
      (knownStatus (turnOf last)).map fun status =>
        ⟨status, (((turnOf last).get "error").get "message").asStr, responseIn items,
          items.any isCompaction⟩

def summary (result : LlmTurnResult) : TurnSummary :=
  ⟨result.status, result.error, result.finalResponse, result.compacted⟩

/-! ## Progress -/

/-- What the items of a turn have said so far. -/
def progressOf (items : List Json) (p : TurnProgress) : TurnProgress :=
  items.foldl (fun p item => completedItem item p) p

/-- What one item says replaces what was said before. -/
theorem completedItem_said (item : Json) (p : TurnProgress) :
    (completedItem item p).finalResponse = (finalText item).or p.finalResponse ∧
      (completedItem item p).lastAgentMessage = (agentText item).or p.lastAgentMessage ∧
      (completedItem item p).compacted = (isCompaction item || p.compacted) := by
  unfold completedItem finalText agentText isCompaction
  dsimp only
  by_cases hcompaction : (item.get "type").asStr = some "contextCompaction"
  · simp [hcompaction]
  · by_cases hmessage : (item.get "type").asStr = some "agentMessage"
    · cases htext : (item.get "text").asStr with
      | none => simp [hmessage]
      | some text =>
          by_cases hfinal : (item.get "phase").asStr = some "final_answer"
          · simp [hmessage, hfinal]
          · simp [hmessage, hfinal]
    · rw [if_neg hcompaction, if_neg hmessage, if_neg hmessage, ite_self]
      have hnot : ((item.get "type").asStr == some "contextCompaction") = false :=
        beq_eq_false_iff_ne.mpr hcompaction
      rw [hnot]
      split_ifs
      · split
        · exact ⟨rfl, rfl, rfl⟩
        · exact ⟨rfl, rfl, rfl⟩
      · exact ⟨rfl, rfl, rfl⟩

theorem getLast?_or {α β : Type} {f : α → Option β} (a : α) (l : List α) (before : Option β) :
    ((l.filterMap f).getLast?).or ((f a).or before) =
      (((a :: l).filterMap f).getLast?).or before := by
  cases hfa : f a with
  | none => rw [List.filterMap_cons_none hfa, Option.none_or]
  | some b =>
      rw [List.filterMap_cons_some hfa, List.getLast?_cons]
      cases (l.filterMap f).getLast? with
      | none => rfl
      | some last => rfl

theorem progressOf_said (items : List Json) (p : TurnProgress) :
    (progressOf items p).finalResponse =
        ((items.filterMap finalText).getLast?).or p.finalResponse ∧
      (progressOf items p).lastAgentMessage =
        ((items.filterMap agentText).getLast?).or p.lastAgentMessage ∧
      (progressOf items p).compacted = (items.any isCompaction || p.compacted) := by
  induction items generalizing p with
  | nil => exact ⟨rfl, rfl, rfl⟩
  | cons item items ih =>
      obtain ⟨hfinal, hlast, hcompacted⟩ := ih (completedItem item p)
      obtain ⟨hfinal', hlast', hcompacted'⟩ := completedItem_said item p
      refine ⟨hfinal.trans ?_, hlast.trans ?_, hcompacted.trans ?_⟩
      · rw [hfinal', getLast?_or]
      · rw [hlast', getLast?_or]
      · rw [hcompacted', List.any_cons, ← Bool.or_assoc, Bool.or_comm (items.any isCompaction)]

/-! ## The events before the end of a turn -/

section

variable {env : TurnEnvironment} {request : LlmTurnRequest} {thread turnId : String}

theorem isEndOf_method {m : Json} (h : isEndOf turnId m = true) :
    (m.get "method").asStr = some "turn/completed" ∧ ((turnOf m).get "id").asStr = some turnId := by
  simp only [isEndOf, Bool.and_eq_true, beq_iff_eq] at h
  exact h

/-- One notification: an item of the turn counts, and nothing else. -/
theorem onEvent_notifies {m : Json} (h : Notifies m) (hend : isEndOf turnId m = false)
    (p : TurnProgress) (s : Server) :
    onEvent env request thread turnId m p s =
      .continues (if isItemOf turnId m then completedItem (itemOf m) p else p) s := by
  have hnotification := h.notification
  simp only [isNotification, Bool.and_eq_true, Bool.not_eq_true'] at hnotification
  unfold onEvent isItemOf
  rw [hnotification.1, Bool.false_and, if_neg Bool.false_ne_true]
  by_cases hitem : (m.get "method").asStr = some "item/completed"
  · obtain ⟨owner, howner⟩ := h.attributed hitem
    simp only [hitem, if_true, howner, Option.any_some, BEq.rfl, Bool.true_and]
    by_cases hown : owner = turnId
    · simp [hown, itemOf]
    · simp [hown]
  · have hends : ¬((m.get "method").asStr = some "turn/completed" ∧
        (((m.get "params").get "turn").get "id").asStr = some turnId) := by
      rintro ⟨hmethod, hid⟩
      rw [isEndOf, turnOf, hmethod, hid] at hend
      simp at hend
    have hnot : ((m.get "method").asStr == some "item/completed") = false :=
      beq_eq_false_iff_ne.mpr hitem
    rw [hnot, Bool.false_and, if_neg Bool.false_ne_true]
    simp only [if_neg hitem, if_neg hends]

theorem onEvent_end {m : Json} (h : Notifies m) (hend : isEndOf turnId m = true)
    (p : TurnProgress) (s : Server) :
    onEvent env request thread turnId m p s =
      .ends (completed env request thread turnId (turnOf m) p s).1
        (completed env request thread turnId (turnOf m) p s).2 := by
  obtain ⟨hmethod, hid⟩ := isEndOf_method hend
  have hnotification := h.notification
  simp only [isNotification, Bool.and_eq_true, Bool.not_eq_true'] at hnotification
  unfold onEvent
  rw [hnotification.1, Bool.false_and, if_neg Bool.false_ne_true]
  have hitem : (m.get "method").asStr ≠ some "item/completed" := by
    rw [hmethod]
    decide
  have hends : (m.get "method").asStr = some "turn/completed" ∧
      (((m.get "params").get "turn").get "id").asStr = some turnId := ⟨hmethod, hid⟩
  simp only [if_neg hitem, if_pos hends]
  rfl

/-- The items of a turn among these notifications. -/
def itemsIn (turnId : String) (events : List Json) : List Json :=
  (events.filter (isItemOf turnId)).map itemOf

theorem progressOf_itemsIn (m : Json) (events : List Json) (p : TurnProgress) :
    progressOf (itemsIn turnId (m :: events)) p =
      progressOf (itemsIn turnId events)
        (if isItemOf turnId m then completedItem (itemOf m) p else p) := by
  unfold itemsIn
  by_cases hitem : isItemOf turnId m = true
  · rw [List.filter_cons_of_pos hitem, if_pos hitem]
    rfl
  · rw [List.filter_cons_of_neg hitem, if_neg hitem]

theorem readEvents_end {past : List Json} {last : Json} {rest : Incoming} {p : TurnProgress}
    {s : Server} (hnotifies : ∀ m ∈ past ++ [last], Notifies m)
    (hpast : ∀ m ∈ past, isEndOf turnId m = false) (hlast : isEndOf turnId last = true) :
    (readEvents env request thread turnId (past.map .ok ++ .ok last :: rest) p s).reply =
      some (completed env request thread turnId (turnOf last)
        (progressOf (itemsIn turnId past) p) s).1 := by
  induction past generalizing p with
  | nil =>
      rw [List.map_nil, List.nil_append, readEvents,
        onEvent_end (hnotifies last List.mem_cons_self) hlast]
      rfl
  | cons m past ih =>
      rw [List.map_cons, List.cons_append, readEvents,
        onEvent_notifies (hnotifies m List.mem_cons_self) (hpast m List.mem_cons_self),
        progressOf_itemsIn]
      exact ih (fun k hk => hnotifies k (List.mem_cons_of_mem m hk))
        fun k hk => hpast k (List.mem_cons_of_mem m hk)

/-- The end may be pending, or it is still to be read. -/
theorem eventLoop_end {pending after past future : List Json} {last : Json} {rest : Incoming}
    {p : TurnProgress} {s : Server} (hevents : pending ++ after = past ++ last :: future)
    (hnotifies : ∀ m ∈ past ++ [last], Notifies m)
    (hpast : ∀ m ∈ past, isEndOf turnId m = false) (hlast : isEndOf turnId last = true) :
    ∃ s', (eventLoop env request thread turnId (after.map .ok ++ rest) pending p s).reply =
      some (completed env request thread turnId (turnOf last)
        (progressOf (itemsIn turnId past) p) s').1 := by
  induction pending generalizing past p with
  | nil =>
      rw [List.nil_append] at hevents
      refine ⟨{s with pending := []}, ?_⟩
      rw [eventLoop, hevents, List.map_append, List.map_cons, List.append_assoc, List.cons_append]
      exact readEvents_end hnotifies hpast hlast
  | cons m pending ih =>
      cases past with
      | nil =>
          obtain ⟨rfl, _⟩ := List.cons.inj hevents
          rw [eventLoop, onEvent_end (hnotifies m List.mem_cons_self) hlast]
          exact ⟨s, rfl⟩
      | cons k past =>
          obtain ⟨rfl, hrest⟩ := List.cons.inj hevents
          rw [eventLoop, onEvent_notifies (hnotifies m List.mem_cons_self)
            (hpast m List.mem_cons_self), progressOf_itemsIn]
          exact ih hrest (fun k hk => hnotifies k (List.mem_cons_of_mem m hk))
            fun k hk => hpast k (List.mem_cons_of_mem m hk)

/-! ## The end of a turn -/

theorem turnStatus_known {turn : Json} {status : LlmTurnStatus}
    (h : knownStatus turn = some status) : turnStatus env turn = .ok status := by
  unfold knownStatus at h
  unfold turnStatus
  dsimp only
  split at h
  · next hstatus =>
    obtain rfl := Option.some.inj h
    rw [hstatus, if_pos rfl]
  · next hstatus =>
    obtain rfl := Option.some.inj h
    rw [hstatus, if_neg (by decide), if_pos rfl]
  · next hstatus =>
    obtain rfl := Option.some.inj h
    rw [hstatus, if_neg (by decide), if_neg (by decide), if_pos rfl]
  · cases h

variable (env request thread turnId) in
theorem completed_summary {turn : Json} {status : LlmTurnStatus}
    (h : knownStatus turn = some status) (items : List Json) (s : Server) :
    ∃ result, (completed env request thread turnId turn
        (progressOf items ⟨none, none, false, []⟩) s).1 = .ok result ∧
      summary result = ⟨status, ((turn.get "error").get "message").asStr, responseIn items,
        items.any isCompaction⟩ := by
  obtain ⟨hfinal, hlast, hcompacted⟩ := progressOf_said items ⟨none, none, false, []⟩
  rw [Option.or_none] at hfinal hlast
  rw [Bool.or_false] at hcompacted
  unfold completed
  simp only [turnStatus_known h]
  refine ⟨_, rfl, ?_⟩
  cases hresponse : (items.filterMap finalText).getLast? with
  | none => simp only [summary, responseIn, hfinal, hlast, hcompacted, hresponse]
  | some text => simp only [summary, responseIn, hfinal, hcompacted, hresponse]

/-- A summary is made of the items before the first end. -/
theorem summaryOf_filter {past future : List Json} {last : Json}
    (hpast : ∀ m ∈ past, isEndOf turnId m = false) (hlast : isEndOf turnId last = true) :
    summaryOf turnId ((past ++ last :: future).filter (isOwn turnId)) =
      (knownStatus (turnOf last)).map fun status =>
        ⟨status, (((turnOf last).get "error").get "message").asStr,
          responseIn (itemsIn turnId past), (itemsIn turnId past).any isCompaction⟩ := by
  have hitems : past.filter (isOwn turnId) = past.filter (isItemOf turnId) :=
    List.filter_congr fun m hm => by rw [isOwn, hpast m hm, Bool.or_false]
  have hown : isOwn turnId last = true := by rw [isOwn, hlast, Bool.or_true]
  have hnone : ∀ m ∈ past.filter (isItemOf turnId), isEndOf turnId m = false :=
    fun m hm => hpast m (List.mem_of_mem_filter hm)
  have hfind : (past.filter (isItemOf turnId)).find? (isEndOf turnId) = none :=
    List.find?_eq_none.mpr fun m hm => Bool.eq_false_iff.mp (hnone m hm)
  rw [List.filter_append, List.filter_cons_of_pos hown, hitems]
  unfold summaryOf itemsIn
  rw [List.find?_append, hfind, Option.none_or, List.find?_cons_of_pos hlast]
  simp only
  rw [List.takeWhile_append_of_pos fun m hm => by rw [hnone m hm]; rfl,
    List.takeWhile_cons_of_neg (by rw [hlast]; exact Bool.false_ne_true), List.append_nil]

end

/-! ## The whole turn -/

/-- Notifications that arrive before a response wait until the call has returned. -/
theorem awaitResponse_notifications {env : Environment} {context : Option LlmTurnRequest}
    {id : ℕ} {method : String} {before : List Json} {response : Json} {rest : Incoming}
    {s : Server} (hbefore : ∀ m ∈ before, isNotification m = true)
    (hid : (response.get "id").asU64 = some id) :
    awaitResponse env context id method (before.map .ok ++ .ok response :: rest) s =
      ⟨some (responseOf env.toText method response), {s with pending := s.pending ++ before},
        rest⟩ := by
  induction before generalizing s with
  | nil =>
      rw [List.map_nil, List.nil_append, awaitResponse_own env context method rest s hid,
        List.append_nil]
  | cons m before ih =>
      have hm : isNotification m = true := hbefore m List.mem_cons_self
      have hother : (m.get "id").asU64 ≠ some id := by
        intro hsome
        rw [isNotification, has_id_of_asU64 hsome] at hm
        cases hm
      rw [List.map_cons, List.cons_append,
        awaitResponse_notification env context method _ s hother hm,
        ih fun k hk => hbefore k (List.mem_cons_of_mem m hk), List.append_assoc]
      rfl

/-- A turn on its selected thread, whose start the process confirms among notifications. -/
structure TurnStream (turnId : String) where
  env : TurnEnvironment
  settings : Settings
  request : LlmTurnRequest
  server : Server
  incoming : Incoming
  cwd : String
  thread : String
  selected : Server
  before : List Json
  response : Json
  after : List Json
  rest : Incoming
  workspace : settings.cwd = some cwd
  selects : selectThread env settings cwd request {server with publishedMedia := []} incoming =
    ⟨some (.ok thread), selected, before.map .ok ++ .ok response :: (after.map .ok ++ rest)⟩
  pipe : env.stdin selected.written.length = .ok ()
  identity : (response.get "id").asU64 = some (selected.nextId + 1)
  accepted : (response.get "error").isNull = true
  named : (((response.get "result").get "turn").get "id").asStr = some turnId
  notifies : ∀ m ∈ selected.pending ++ before ++ after, Notifies m
  ends : ∃ last status, (selected.pending ++ before ++ after).find? (isEndOf turnId) = some last ∧
    knownStatus (turnOf last) = some status

namespace TurnStream
variable {turnId : String} (t : TurnStream turnId)

/-- Left over, read before the response, and read after it. -/
def events : List Json := t.selected.pending ++ t.before ++ t.after

def own : List Json := t.events.filter (isOwn turnId)

def reply : Option (Except AppServerError LlmTurnResult) :=
  (runTurn t.env t.settings t.request t.server t.incoming).reply

theorem reply_eq : t.reply = (startTurn t.env t.settings t.cwd t.request t.thread t.selected
    (t.before.map .ok ++ .ok t.response :: (t.after.map .ok ++ t.rest))).reply := by
  unfold reply runTurn
  simp only [t.workspace, t.selects]
  rfl

theorem response_eq (method : String) :
    responseOf t.env.toText method t.response = .ok (t.response.get "result") := by
  have hresult : t.response.has "result" = true := by
    refine Json.has_of_get fun hnull => ?_
    have hnamed := t.named
    rw [hnull] at hnamed
    cases hnamed
  unfold responseOf
  simp only [t.accepted, Bool.not_true, Bool.false_eq_true, if_false, hresult, if_true]

/-- Where the event loop begins. -/
theorem reply_loop : ∃ s, t.reply = (eventLoop t.env t.request t.thread turnId
    (t.after.map .ok ++ t.rest) (t.selected.pending ++ t.before) ⟨none, none, false, []⟩
      s).reply := by
  have hbefore : ∀ m ∈ t.before, isNotification m = true := fun m hm =>
    (t.notifies m (List.mem_append_left _ (List.mem_append_right _ hm))).notification
  have hturn : stringAt (t.response.get "result") ["turn", "id"] "turn/start.turn.id" =
      .ok turnId := by
    unfold stringAt
    simp only [List.foldl_cons, List.foldl_nil, t.named]
  rw [t.reply_eq]
  unfold startTurn callWithTool write
  dsimp only
  rw [t.pipe]
  dsimp only
  rw [awaitResponse_notifications hbefore t.identity]
  unfold Called.andThen
  dsimp only
  rw [t.response_eq]
  dsimp only
  rw [hturn]
  exact ⟨_, rfl⟩

theorem reply_summary : ∃ result, t.reply = some (.ok result) ∧
    summaryOf turnId t.own = some (summary result) := by
  obtain ⟨last, status, hfind, hstatus⟩ := t.ends
  obtain ⟨hlast, past, future, hevents, hpast⟩ := List.find?_eq_some_iff_append.mp hfind
  have hpast' : ∀ m ∈ past, isEndOf turnId m = false := fun m hm => by
    simpa using hpast m hm
  have hnotifies : ∀ m ∈ past ++ [last], Notifies m := by
    intro m hm
    refine t.notifies m ?_
    rw [hevents]
    rcases List.mem_append.mp hm with hm | hm
    · exact List.mem_append_left _ hm
    · obtain rfl := List.mem_singleton.mp hm
      exact List.mem_append_right _ List.mem_cons_self
  obtain ⟨s, hloop⟩ := t.reply_loop
  obtain ⟨s', hend⟩ : ∃ s', (eventLoop t.env t.request t.thread turnId
      (t.after.map .ok ++ t.rest) (t.selected.pending ++ t.before) ⟨none, none, false, []⟩
        s).reply = some (completed t.env t.request t.thread turnId (turnOf last)
          (progressOf (itemsIn turnId past) ⟨none, none, false, []⟩) s').1 :=
    eventLoop_end hevents hnotifies hpast' hlast
  obtain ⟨result, hresult, hsummary⟩ := completed_summary t.env t.request t.thread turnId hstatus
    (itemsIn turnId past) s'
  refine ⟨result, by rw [hloop, hend, hresult], ?_⟩
  rw [own, events, hevents, summaryOf_filter hpast' hlast, hstatus, hsummary]
  rfl

end TurnStream

/-- The status, the error, the response and the compaction of a turn are those of its own
notifications, whatever else arrives and wherever its response stands. -/
theorem turn_results_own (turnId : String) :
    (∀ t : TurnStream turnId, ∃ result, t.reply = some (.ok result) ∧
      summaryOf turnId t.own = some (summary result)) ∧
    ∀ t t' : TurnStream turnId, t.own = t'.own → ∃ result result', t.reply = some (.ok result) ∧
      t'.reply = some (.ok result') ∧ summary result = summary result' := by
  refine ⟨TurnStream.reply_summary, fun t t' hown => ?_⟩
  obtain ⟨result, hreply, hsummary⟩ := t.reply_summary
  obtain ⟨result', hreply', hsummary'⟩ := t'.reply_summary
  rw [hown, hsummary', Option.some.injEq] at hsummary
  exact ⟨result, result', hreply, hreply', hsummary.symm⟩

def agentItem (turnId text : String) : Json :=
  .obj [("method", .str "item/completed"), ("params", .obj [
    ("item", .obj [("phase", .str "final_answer"), ("text", .str text),
      ("type", .str "agentMessage")]), ("turnId", .str turnId)])]

def turnEnd (turnId : String) : Json :=
  .obj [("method", .str "turn/completed"), ("params", .obj [
    ("turn", .obj [("id", .str turnId), ("status", .str "completed")])])]

def turnStarted : Json :=
  .obj [("id", .ofNat 4), ("result", .obj [("turn", .obj [("id", .str "turn-2")])])]

theorem agentItem_notifies (turnId text : String) : Notifies (agentItem turnId text) :=
  ⟨rfl, fun _ => ⟨turnId, rfl⟩⟩

theorem turnEnd_notifies (turnId : String) : Notifies (turnEnd turnId) :=
  ⟨rfl, fun h => absurd (Option.some.inj h) (by decide)⟩

/-- The second turn on a thread, with what another turn left pending. -/
def secondTurn (pending before after : List Json)
    (hnotifies : ∀ m ∈ pending ++ before ++ after, Notifies m)
    (hends : ∃ last status, (pending ++ before ++ after).find? (isEndOf "turn-2") = some last ∧
      knownStatus (turnOf last) = some status) : TurnStream "turn-2" where
  env := ⟨openPipe, fun _ => ""⟩
  settings := ⟨some "/work", none, none, .readOnly⟩
  request := ⟨"2", "hello", none, none, none, some "thread-1", []⟩
  server := ⟨pending, {"thread-1"}, 3, [], []⟩
  incoming := before.map .ok ++ .ok turnStarted :: (after.map .ok ++ [])
  cwd := "/work"
  thread := "thread-1"
  selected := ⟨pending, {"thread-1"}, 3, [], []⟩
  before := before
  response := turnStarted
  after := after
  rest := []
  workspace := rfl
  selects := by rfl
  pipe := rfl
  identity := rfl
  accepted := rfl
  named := rfl
  notifies := hnotifies
  ends := hends

def quietTurn : TurnStream "turn-2" :=
  secondTurn [] [] [agentItem "turn-2" "done", turnEnd "turn-2"]
    (by
      intro m hm
      simp only [List.nil_append, List.mem_cons, List.not_mem_nil, or_false] at hm
      rcases hm with rfl | rfl
      · exact agentItem_notifies _ _
      · exact turnEnd_notifies _)
    ⟨turnEnd "turn-2", .completed, rfl, rfl⟩

/-- Messages of the first turn are left over and arrive late, and the response comes last. -/
def disturbedTurn : TurnStream "turn-2" :=
  secondTurn [agentItem "turn-1" "late"]
    [agentItem "turn-2" "done", turnEnd "turn-1", turnEnd "turn-2", agentItem "turn-1" "later"] []
    (by
      intro m hm
      simp only [List.append_nil, List.cons_append, List.nil_append, List.mem_cons,
        List.not_mem_nil, or_false] at hm
      rcases hm with rfl | rfl | rfl | rfl | rfl
      · exact agentItem_notifies _ _
      · exact agentItem_notifies _ _
      · exact turnEnd_notifies _
      · exact turnEnd_notifies _
      · exact agentItem_notifies _ _)
    ⟨turnEnd "turn-2", .completed, rfl, rfl⟩

theorem turn_results_own_disturbed : ∃ result result', quietTurn.reply = some (.ok result) ∧
    disturbedTurn.reply = some (.ok result') ∧ summary result = summary result' ∧
    summary result' = ⟨.completed, none, some "done", false⟩ := by
  obtain ⟨hreplies, hsame⟩ := turn_results_own "turn-2"
  obtain ⟨result, result', hreply, hreply', hsummary⟩ := hsame quietTurn disturbedTurn (by rfl)
  refine ⟨result, result', hreply, hreply', hsummary, ?_⟩
  obtain ⟨result'', hreply'', hown⟩ := hreplies disturbedTurn
  obtain rfl : result' = result'' := by
    rw [hreply', Option.some.injEq] at hreply''
    exact Except.ok.inj hreply''
  exact (Option.some.inj hown).symm

end NormaHarness.AppServer
