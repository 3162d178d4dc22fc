import NormaHarness.OriginAuthenticity

/-!
# What a rejected request leaves behind

The worker reads the room and the incognito flag from the raw payload of a request and
enters them before the request is decoded. A request that is then refused has changed no
thread, but it may have excluded a room from the saved map, or added an empty conversation
to it. Workers that differ in neither way save the same maps ever after.
-/
namespace NormaHarness.CodexWorker
open Std Identifiers Contracts JsonValues LlmProtocol

/-- `handle` refuses the request before it starts a turn. -/
def Rejects (worker : Worker) (payload : Json) : Prop :=
  ∀ request, LlmTurnRequest.codec.decode payload = some request →
    request.validate ≠ .ok () ∨
      request.origin.isSome = true ∧ request.sourceResident ≠ some "chat.rooms" ∨
      conflicting request (conversationOf worker payload) = true

def threadOf (worker : Worker) (room : ℕ) : Option String :=
  (worker.conversations[room]?.getD ⟨none⟩).threadId

/-- A room that `persisted` leaves out. -/
def Excluded (worker : Worker) (room : ℕ) : Prop := room = 0 ∨ room ∈ worker.privateRooms

/-- The first map that is saved while the worker handles these messages. -/
def nextSaved (path : Option String) :
    Worker → List (Environment × RoutedMessage) → Option (ExtTreeMap ℕ ConversationState)
  | _, [] => none
  | worker, (env, message) :: later =>
      let reaction := receive env path worker message
      reaction.saved.or (nextSaved path reaction.worker later)

/-- As if the message had never arrived. -/
structure LeavesNoTrace (env : Environment) (path : Option String) (worker : Worker)
    (message : RoutedMessage) : Prop where
  threads : ∀ room, threadOf (receive env path worker message).worker room = threadOf worker room
  excluded : ∀ room, Excluded (receive env path worker message).worker room ↔ Excluded worker room
  saved : ∀ later, nextSaved path worker ((env, message) :: later) = nextSaved path worker later

/-! ## Workers that save the same maps -/

structure Alike (worker worker' : Worker) : Prop where
  serverRunning : worker.serverRunning = worker'.serverRunning
  excluded : ∀ room, Excluded worker room ↔ Excluded worker' room
  conversation : ∀ room : ℕ, worker.conversations[room]?.getD ⟨none⟩ =
    worker'.conversations[room]?.getD ⟨none⟩
  kept : ∀ room, ¬Excluded worker room → worker.conversations[room]? = worker'.conversations[room]?

theorem getElem?_persisted (worker : Worker) (room : ℕ) [Decidable (Excluded worker room)] :
    (persisted worker)[room]? =
      if Excluded worker room then none else worker.conversations[room]? := by
  unfold persisted
  rw [ExtTreeMap.getElem?_filter']
  split_ifs with hroom
  · refine Option.filter_eq_none_iff.mpr fun conversation _ => ?_
    rcases hroom with rfl | hprivate
    · simp
    · simp [hprivate]
  · unfold Excluded at hroom
    push Not at hroom
    cases worker.conversations[room]? with
    | none => rfl
    | some conversation => simp [hroom.1, hroom.2]

/-- The worker with what one message enters for its room. -/
def entered (worker : Worker) (serverRunning : Bool) (room : ℕ) (conversation : ConversationState)
    (incognito : Bool) : Worker :=
  ⟨serverRunning, worker.conversations.insert room conversation,
    if incognito then insert room worker.privateRooms else worker.privateRooms⟩

theorem excluded_entered {worker : Worker} {serverRunning incognito : Bool} {room other : ℕ}
    {conversation : ConversationState} :
    Excluded (entered worker serverRunning room conversation incognito) other ↔
      incognito = true ∧ other = room ∨ Excluded worker other := by
  unfold Excluded entered
  cases incognito with
  | false => simp
  | true => simp only [if_true, Finset.mem_insert, true_and, or_left_comm]

theorem getElem?_entered (worker : Worker) (serverRunning : Bool) (room other : ℕ)
    (conversation : ConversationState) (incognito : Bool) :
    (entered worker serverRunning room conversation incognito).conversations[other]? =
      if room = other then some conversation else worker.conversations[other]? := by
  simp only [entered, ExtTreeMap.getElem?_insert, LawfulEqOrd.compare_eq_iff_eq]

namespace Alike

variable {worker worker' : Worker}

theorem refl (worker : Worker) : Alike worker worker :=
  ⟨rfl, fun _ => .rfl, fun _ => rfl, fun _ _ => rfl⟩

theorem persisted_eq (h : Alike worker worker') : persisted worker = persisted worker' := by
  classical
  refine ExtTreeMap.ext_getElem? fun room => ?_
  rw [getElem?_persisted, getElem?_persisted, if_congr (h.excluded room) rfl rfl]
  split_ifs with hroom
  · rfl
  · exact h.kept room (mt (h.excluded room).mp hroom)

theorem entered (h : Alike worker worker') (serverRunning : Bool) (room : ℕ)
    (conversation : ConversationState) (incognito : Bool) :
    Alike (entered worker serverRunning room conversation incognito)
      (entered worker' serverRunning room conversation incognito) where
  serverRunning := rfl
  excluded other := by
    rw [excluded_entered, excluded_entered, h.excluded]
  conversation other := by
    rw [getElem?_entered, getElem?_entered]
    split_ifs
    · rfl
    · exact h.conversation other
  kept other hother := by
    rw [getElem?_entered, getElem?_entered]
    split_ifs
    · rfl
    · exact h.kept other fun hold => hother (excluded_entered.mpr (.inr hold))

end Alike

/-- What `handle` does with a message of the worker. -/
def handledBy (env : Environment) (worker : Worker) (message : RoutedMessage) : Handled :=
  handle env message worker.serverRunning (conversationOf worker message.message.payload)

theorem receiveTurn_worker (env : Environment) (path : Option String) (worker : Worker)
    (message : RoutedMessage) : (receiveTurn env path worker message).worker =
      entered worker (handledBy env worker message).serverRunning
        (payloadRoom message.message.payload) (handledBy env worker message).conversation
        (payloadIncognito message.message.payload) := rfl

theorem receiveTurn_saved (env : Environment) (path : Option String) (worker : Worker)
    (message : RoutedMessage) : (receiveTurn env path worker message).saved =
      if payloadIncognito message.message.payload = false ∧
          (handledBy env worker message).result.status = .completed ∧ path.isSome then
        some (persisted (receiveTurn env path worker message).worker)
      else none := rfl

namespace Alike

variable {worker worker' : Worker}

theorem handledBy (h : Alike worker worker') (env : Environment) (message : RoutedMessage) :
    handledBy env worker message = handledBy env worker' message := by
  have hconversation : conversationOf worker message.message.payload =
      conversationOf worker' message.message.payload := h.conversation _
  unfold CodexWorker.handledBy
  rw [h.serverRunning, hconversation]

/-- One message keeps two workers alike, and makes both save the same map. -/
theorem receive (h : Alike worker worker') (env : Environment) (path : Option String)
    (message : RoutedMessage) :
    Alike (receive env path worker message).worker (receive env path worker' message).worker ∧
      (receive env path worker message).saved = (receive env path worker' message).saved := by
  unfold CodexWorker.receive
  split_ifs
  · rw [h.serverRunning]
    exact ⟨⟨rfl, h.excluded, h.conversation, h.kept⟩, rfl⟩
  · have hnext : Alike (receiveTurn env path worker message).worker
        (receiveTurn env path worker' message).worker := by
      rw [receiveTurn_worker, receiveTurn_worker, h.handledBy]
      exact h.entered _ _ _ _
    refine ⟨hnext, ?_⟩
    rw [receiveTurn_saved, receiveTurn_saved, h.handledBy, hnext.persisted_eq]
  · exact ⟨h, rfl⟩

/-- Alike workers save the same next map, whatever messages follow. -/
theorem nextSaved_eq (h : Alike worker worker') (path : Option String)
    (later : List (Environment × RoutedMessage)) :
    nextSaved path worker later = nextSaved path worker' later := by
  induction later generalizing worker worker' with
  | nil => rfl
  | cons next later ih =>
      obtain ⟨hnext, hsaved⟩ := h.receive next.1 path next.2
      simp only [nextSaved]
      rw [hsaved, ih hnext]

end Alike

/-! ## A rejected request -/

section

variable {env : Environment} {path : Option String} {worker : Worker} {message : RoutedMessage}

theorem handledBy_rejected (env : Environment)
    (h : Rejects worker message.message.payload) : ∃ requestId error,
      handledBy env worker message = ⟨.failed requestId error, worker.serverRunning,
        conversationOf worker message.message.payload, []⟩ := by
  unfold handledBy handle
  cases hdecode : LlmTurnRequest.codec.decode message.message.payload with
  | none =>
      simp only [hdecode]
      exact ⟨_, _, rfl⟩
  | some request =>
      have hrefused := h request hdecode
      cases hvalid : request.validate with
      | error error =>
          simp only [hdecode, hvalid]
          exact ⟨_, _, rfl⟩
      | ok _ =>
          simp only [hdecode, hvalid]
          split_ifs with horigin hconflict
          · exact ⟨_, _, rfl⟩
          · exact ⟨_, _, rfl⟩
          · rcases hrefused with hinvalid | hforged | hother
            · exact absurd hvalid hinvalid
            · exact absurd hforged horigin
            · exact absurd hother hconflict
          · rcases hrefused with hinvalid | hforged | hother
            · exact absurd hvalid hinvalid
            · exact absurd hforged horigin
            · exact absurd hother hconflict

/-- Of a rejected request, the worker keeps the room and the flag of its payload. -/
theorem receive_rejected (env : Environment) (path : Option String)
    (hkind : isTurnRequest message.message.kind = true)
    (h : Rejects worker message.message.payload) :
    (receive env path worker message).worker = entered worker worker.serverRunning
        (payloadRoom message.message.payload) (conversationOf worker message.message.payload)
        (payloadIncognito message.message.payload) ∧
      (receive env path worker message).saved = none := by
  obtain ⟨requestId, error, hhandled⟩ := handledBy_rejected env h
  have hmemory : message.message.kind ≠ memoryTriggerKind := by
    intro heq
    rw [heq] at hkind
    exact absurd hkind (by decide)
  unfold receive
  rw [if_neg hmemory, if_pos hkind, receiveTurn_worker, receiveTurn_saved, hhandled]
  refine ⟨rfl, if_neg ?_⟩
  rintro ⟨-, hcompleted, -⟩
  cases hcompleted

/-! ## What it leaves behind -/

/-- An excluded room, or one whose conversation is there, is entered without a trace. -/
theorem alike_entered {room : ℕ} {incognito : Bool}
    (h : Excluded worker room ∨ incognito = false ∧ room ∈ worker.conversations) :
    Alike (entered worker worker.serverRunning room (worker.conversations[room]?.getD ⟨none⟩)
      incognito) worker where
  serverRunning := rfl
  excluded other := by
    rw [excluded_entered]
    refine or_iff_right_of_imp ?_
    rintro ⟨hincognito, rfl⟩
    rcases h with hexcluded | ⟨hopen, -⟩
    · exact hexcluded
    · rw [hincognito] at hopen
      cases hopen
  conversation other := by
    rw [getElem?_entered]
    split_ifs with hroom
    · rw [hroom]
      rfl
    · rfl
  kept other hother := by
    rw [getElem?_entered]
    split_ifs with hroom
    · subst hroom
      rcases h with hexcluded | ⟨-, hmem⟩
      · exact absurd (excluded_entered.mpr (.inr hexcluded)) hother
      · obtain ⟨conversation, hconversation⟩ :=
          Option.isSome_iff_exists.mp (ExtTreeMap.mem_iff_isSome_getElem?.mp hmem)
        rw [hconversation]
        rfl
    · rfl

/-- Without a file nothing is saved. -/
theorem nextSaved_none (worker : Worker) (later : List (Environment × RoutedMessage)) :
    nextSaved none worker later = none := by
  induction later generalizing worker with
  | nil => rfl
  | cons next later ih =>
      simp only [nextSaved]
      rw [ih, Option.or_none]
      unfold receive
      split_ifs
      · rfl
      · rw [receiveTurn_saved]
        exact if_neg fun h => by simp at h
      · rfl

/-- A turn that names no room, and that the app-server completes. -/
def plainMessage : RoutedMessage :=
  ⟨chatRoomsKey, codexKey,
    ⟨turnRequestKind, .obj [("request_id", .str "1"), ("prompt", .str "hello")]⟩⟩

theorem plain_completed (worker : Worker) :
    (handledBy answering worker plainMessage).result.status = .completed := by
  have hdecode : LlmTurnRequest.codec.decode plainMessage.message.payload =
      some ⟨"1", "hello", none, none, none, none, []⟩ := by rfl
  have hvalid :
      (⟨"1", "hello", none, none, none, none, []⟩ : LlmTurnRequest).validate = .ok () := by decide
  unfold handledBy handle
  simp only [hdecode, hvalid]
  split_ifs with horigin hconflict
  · exact absurd horigin.1 (by decide)
  · exact absurd hconflict (by simp [conflicting])
  · rfl
  · rfl

/-- It makes the worker save what it holds of the rooms. -/
theorem nextSaved_plain (worker : Worker) (file : String) : ∃ saved,
    nextSaved (some file) worker [(answering, plainMessage)] = some saved ∧
      ∀ room, ¬Excluded worker room → saved[room]? = worker.conversations[room]? := by
  classical
  have hroom : payloadRoom plainMessage.message.payload = 0 := by rfl
  have hopen : payloadIncognito plainMessage.message.payload = false := by rfl
  have hsaved : nextSaved (some file) worker [(answering, plainMessage)] =
      some (persisted (receiveTurn answering (some file) worker plainMessage).worker) := by
    have hreceive : receive answering (some file) worker plainMessage =
        receiveTurn answering (some file) worker plainMessage := by
      unfold receive
      rw [if_neg (by decide), if_pos (by decide)]
    simp only [nextSaved]
    rw [hreceive, receiveTurn_saved, if_pos ⟨hopen, plain_completed worker, rfl⟩]
    rfl
  refine ⟨_, hsaved, fun room hexcluded => ?_⟩
  have hother : 0 ≠ room := fun heq => hexcluded (.inl heq.symm)
  rw [receiveTurn_worker, getElem?_persisted, hroom, hopen, getElem?_entered, if_neg hother,
    if_neg]
  rw [excluded_entered]
  simpa using hexcluded

theorem nextSaved_rejected (hkind : isTurnRequest message.message.kind = true)
    (h : Rejects worker message.message.payload) (later : List (Environment × RoutedMessage)) :
    nextSaved path worker ((env, message) :: later) =
      nextSaved path (receive env path worker message).worker later := by
  simp only [nextSaved]
  rw [(receive_rejected env path hkind h).2, Option.none_or]

/-- A later turn would save the room that a rejected request has entered. -/
theorem LeavesNoTrace.held {file : String} (h : LeavesNoTrace env (some file) worker message)
    (hkind : isTurnRequest message.message.kind = true)
    (hrejects : Rejects worker message.message.payload)
    (hexcluded : ¬Excluded worker (payloadRoom message.message.payload)) :
    payloadRoom message.message.payload ∈ worker.conversations := by
  have hsame := h.saved [(answering, plainMessage)]
  rw [nextSaved_rejected hkind hrejects] at hsame
  obtain ⟨before, hbefore, hkept⟩ := nextSaved_plain worker file
  obtain ⟨after, hafter, hkept'⟩ :=
    nextSaved_plain (receive env (some file) worker message).worker file
  rw [hbefore, hafter] at hsame
  have hroom := hkept' _ fun hnow => hexcluded ((h.excluded _).mp hnow)
  rw [Option.some.inj hsame, hkept _ hexcluded, (receive_rejected env _ hkind hrejects).1,
    getElem?_entered, if_pos rfl] at hroom
  exact ExtTreeMap.mem_iff_isSome_getElem?.mpr (by rw [hroom]; rfl)

/-- A rejected request leaves no trace exactly when the room it names is excluded from the saved
map already, or it does not ask to exclude it and the map is not saved or has the room. -/
theorem rejected_no_trace_iff (hkind : isTurnRequest message.message.kind = true)
    (h : Rejects worker message.message.payload) :
    LeavesNoTrace env path worker message ↔
      Excluded worker (payloadRoom message.message.payload) ∨
        payloadIncognito message.message.payload = false ∧
          (path = none ∨ payloadRoom message.message.payload ∈ worker.conversations) := by
  have hworker := (receive_rejected env path hkind h).1
  constructor
  · intro htrace
    by_cases hexcluded : Excluded worker (payloadRoom message.message.payload)
    · exact .inl hexcluded
    · have hincognito : payloadIncognito message.message.payload = false := by
        refine Bool.eq_false_iff.mpr fun hprivate => hexcluded ((htrace.excluded _).mp ?_)
        rw [hworker, excluded_entered]
        exact .inl ⟨hprivate, rfl⟩
      refine .inr ⟨hincognito, ?_⟩
      cases path with
      | none => exact .inl rfl
      | some file => exact .inr (htrace.held hkind h hexcluded)
  · intro hcondition
    have halike_or : path = none ∨ Alike (receive env path worker message).worker worker := by
      rw [hworker]
      rcases hcondition with hexcluded | ⟨hincognito, hpath | hmem⟩
      · exact .inr (alike_entered (.inl hexcluded))
      · exact .inl hpath
      · exact .inr (alike_entered (.inr ⟨hincognito, hmem⟩))
    refine ⟨fun room => ?_, fun room => ?_, fun later => ?_⟩
    · unfold threadOf
      rw [hworker, getElem?_entered]
      split_ifs with hroom
      · rw [← hroom]
        rfl
      · rfl
    · rw [hworker, excluded_entered]
      refine or_iff_right_of_imp ?_
      rintro ⟨hprivate, rfl⟩
      rcases hcondition with hexcluded | ⟨hopen, -⟩
      · exact hexcluded
      · rw [hprivate] at hopen
        cases hopen
    · rw [nextSaved_rejected hkind h]
      rcases halike_or with rfl | halike
      · rw [nextSaved_none, nextSaved_none]
      · exact halike.nextSaved_eq path later

end

/-- A stranger's request for room 3, as the gate has stamped it. -/
def strangerMessage (incognito : Bool) : RoutedMessage :=
  ⟨strangerKey, codexKey, ⟨turnRequestKind, .obj [("request_id", .str "1"),
    ("prompt", .str "hello"), ("origin", .obj [("kind", .str "solo"), ("room_id", .ofNat 3),
      ("room_name", .str "Plans"), ("incognito", .bool incognito)]),
    ("source_resident", .str "stranger")]⟩⟩

/-- The request is one, but it does not come from the chat rooms. -/
theorem stranger_rejected (incognito : Bool) :
    Rejects roomWorker (strangerMessage incognito).message.payload := by
  intro request hrequest
  have hdecode : LlmTurnRequest.codec.decode (strangerMessage incognito).message.payload = some
      ⟨"1", "hello", some ⟨.solo, 3, "Plans", incognito⟩, some "stranger", none, none, []⟩ := by
    cases incognito <;> rfl
  obtain rfl := Option.some.inj (hdecode.symm.trans hrequest)
  have hother : some "stranger" ≠ some "chat.rooms" := by decide
  exact .inr (.inl ⟨rfl, hother⟩)

/-- A refused request for a room that the worker holds changes nothing unless it is incognito. -/
theorem rejected_no_trace_iff_stranger :
    LeavesNoTrace answering (some "conversations.json") roomWorker (strangerMessage false) ∧
      ¬LeavesNoTrace answering (some "conversations.json") roomWorker (strangerMessage true) := by
  constructor
  · refine (rejected_no_trace_iff (by decide) (stranger_rejected false)).mpr (.inr ⟨rfl, .inr ?_⟩)
    decide
  · rw [rejected_no_trace_iff (by decide) (stranger_rejected true)]
    rintro ((hzero | hprivate) | ⟨hopen, -⟩)
    · cases hzero
    · exact absurd hprivate (by decide)
    · cases hopen

/-- The request is refused, and the thread of room 3 is no longer saved. -/
theorem rejected_excludes_room : ¬∀ (env : Environment) (path : Option String) (worker : Worker)
    (message : RoutedMessage), isTurnRequest message.message.kind = true →
    Rejects worker message.message.payload → LeavesNoTrace env path worker message := by
  intro h
  have htrace := h answering (some "conversations.json") roomWorker (strangerMessage true)
    (by decide) (stranger_rejected true)
  have hafter : 3 ∈ (receive answering (some "conversations.json") roomWorker
      (strangerMessage true)).worker.privateRooms := by decide
  rcases (htrace.excluded 3).mp (.inr hafter) with hzero | hprivate
  · cases hzero
  · exact absurd hprivate (by decide)

end NormaHarness.CodexWorker
