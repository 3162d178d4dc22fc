import NormaHarness.Executions
import NormaHarness.ToolProtocol

/-!
# The mailbox of a Codex resident

One mailbox carries the work of the worker and the results of the tool calls that the
worker makes while it runs a turn. A result is handed to the call that waits for it,
past the queue. Shutting down closes the mailbox, signals the worker, and waits for it
to finish what is queued. The worker runs one turn at a time and one call at a time,
and a reply channel is known by the number of its call.
-/
namespace NormaHarness.CodexMailbox
open Std Identifiers Contracts JsonValues LlmProtocol ToolProtocol

/-- The four tables of calls that wait for a result. -/
inductive Pending where
  | tools
  | context
  | catalog
  | media
  deriving DecidableEq, Repr

inductive ToolResult where
  | tools (result : RoomMembersResult)
  | context (result : ChatContextResult)
  | catalog (result : ToolCatalogResult)
  | media (result : MediaPublishResult)

/-- The identity under which a result looks for its call. -/
def ToolResult.callId : ToolResult → String
  | .tools result => result.callId
  | .context result => result.callId
  | .catalog result => result.requestId
  | .media result => result.callId

namespace Pending

def resultKind : Pending → MessageKind
  | .tools => roomMembersToolResultKind
  | .context => chatContextToolResultKind
  | .catalog => toolCatalogResultKind
  | .media => mediaPublishResultKind

def foreign : Pending → String
  | .tools => "room-members result came from another Resident"
  | .context => "chat-context result came from another Resident"
  | .catalog => "tool catalog came from another Resident"
  | .media => "media result came from another Resident"

def invalid (error : String) : Pending → String
  | .tools => s!"invalid room-members result: {error}"
  | .context => s!"invalid chat-context result: {error}"
  | .catalog => s!"invalid tool catalog: {error}"
  | .media => s!"invalid media result: {error}"

def decode (payload : Json) : Pending → Option ToolResult
  | .tools => (RoomMembersResult.codec.decode payload).map .tools
  | .context => (ChatContextResult.codec.decode payload).map .context
  | .catalog => (ToolCatalogResult.codec.decode payload).map .catalog
  | .media => (MediaPublishResult.codec.decode payload).map .media

/-- The table that a message kind belongs to, in the order of the checks. -/
def ofKind (kind : MessageKind) : Option Pending :=
  if kind = mediaPublishResultKind then some .media
  else if kind = roomMembersToolResultKind then some .tools
  else if kind = chatContextToolResultKind then some .context
  else if kind = toolCatalogResultKind then some .catalog
  else none

theorem ofKind_resultKind (table : Pending) : ofKind table.resultKind = some table := by
  cases table <;> decide

end Pending

structure QueueMailbox where
  queue : List ResidentEvent
  queueOpen : Bool
  accepting : Bool
  pending : Pending → ExtTreeMap String ℕ

structure Delivery where
  result : Except MailboxError Unit
  mailbox : QueueMailbox
  woken : Option (ℕ × ToolResult)

/-- Whatever does not fit into a table is queued for the worker. -/
def enqueue (capacity : ℕ) (mailbox : QueueMailbox) (event : ResidentEvent) : Delivery :=
  if !mailbox.queueOpen then
    ⟨.error ⟨"Codex Resident mailbox: channel closed"⟩, mailbox, none⟩
  else if capacity ≤ mailbox.queue.length then
    ⟨.error ⟨"Codex Resident mailbox: no available capacity"⟩, mailbox, none⟩
  else ⟨.ok (), {mailbox with queue := mailbox.queue ++ [event]}, none⟩

/-- A result takes its entry out of the table and wakes the call it belongs to. -/
def handOver (mailbox : QueueMailbox) (table : Pending) (result : ToolResult) : Delivery :=
  match (mailbox.pending table)[result.callId]? with
  | none => ⟨.ok (), mailbox, none⟩
  | some waiter =>
      ⟨.ok (), {mailbox with
        pending := Function.update mailbox.pending table
          ((mailbox.pending table).erase result.callId)}, some (waiter, result)⟩

def deliver (decodeError : Json → String) (capacity : ℕ) (mailbox : QueueMailbox)
    (event : ResidentEvent) : Delivery :=
  if !mailbox.accepting then ⟨.error ⟨"Codex Resident is stopping"⟩, mailbox, none⟩
  else
    match event with
    | .residentRegistered _ => ⟨.ok (), mailbox, none⟩
    | .message routed =>
      match Pending.ofKind routed.message.kind with
      | none => enqueue capacity mailbox event
      | some table =>
        if routed.source ≠ toolRoomsKey then ⟨.error ⟨table.foreign⟩, mailbox, none⟩
        else
          match table.decode routed.message.payload with
          | none => ⟨.error ⟨table.invalid (decodeError routed.message.payload)⟩, mailbox, none⟩
          | some result => handOver mailbox table result

/-! ## The worker and its shutdown -/

inductive WorkerPhase where
  | selecting
  | inTurn
  | requesting (table : Pending) (callId : String) (waiter : ℕ)
  | awaiting (table : Pending) (callId : String) (waiter : ℕ)
  | ended
  deriving DecidableEq

/-- The worker has put this entry into its table and not yet seen the end of its call. -/
def WorkerPhase.Calls (table : Pending) (callId : String) (waiter : ℕ) (phase : WorkerPhase) :
    Prop :=
  phase = .requesting table callId waiter ∨ phase = .awaiting table callId waiter

structure Runtime where
  mailbox : QueueMailbox
  replies : ℕ → Option ToolResult
  nextWaiter : ℕ
  worker : WorkerPhase
  signalled : Bool
  stopping : Bool

def launched : Runtime :=
  ⟨⟨[], true, true, fun _ => ∅⟩, fun _ => none, 0, .selecting, false, false⟩

/-- The worker has work to do for this event. -/
def startsTurn : ResidentEvent → Bool
  | .residentRegistered _ => false
  | .message routed => routed.message.kind = memoryTriggerKind ||
      routed.message.kind = turnRequestKind || routed.message.kind = codexTurnRequestKind

inductive Label where
  | deliver (event : ResidentEvent)
  | take (event : ResidentEvent)
  | call (table : Pending) (callId : String)
  | sent
  | unsent
  | resume
  | finish
  | close
  | signal
  | observe
  | drained

/-- A delivery wakes at most one call. -/
def Runtime.delivered (s : Runtime) (out : Delivery) : Runtime :=
  {s with
    mailbox := out.mailbox
    replies := match out.woken with
      | none => s.replies
      | some (waiter, result) => Function.update s.replies waiter (some result)}

/-- The entry of a call is taken out of its table. -/
def QueueMailbox.removed (mailbox : QueueMailbox) (table : Pending) (callId : String) :
    QueueMailbox :=
  {mailbox with
    pending := Function.update mailbox.pending table ((mailbox.pending table).erase callId)}

def QueueMailbox.inserted (mailbox : QueueMailbox) (table : Pending) (callId : String)
    (waiter : ℕ) : QueueMailbox :=
  {mailbox with
    pending := Function.update mailbox.pending table
      ((mailbox.pending table).insert callId waiter)}

/-- The steps of the message flow, of the worker, and of the caller of `shutdown`. A
signal is seen between two messages and before the next of them. Only the catalog is
asked for without a look at the call's identity. -/
inductive Step (decodeError : Json → String) (capacity : ℕ) : Runtime → Label → Runtime → Prop
  | deliver (s : Runtime) (event : ResidentEvent) :
      Step decodeError capacity s (.deliver event)
        (s.delivered (deliver decodeError capacity s.mailbox event))
  | take (s : Runtime) (event : ResidentEvent) (rest : List ResidentEvent) :
      s.worker = .selecting → (s.signalled = true → s.stopping = true) →
      s.mailbox.queue = event :: rest →
      Step decodeError capacity s (.take event) {s with
        mailbox := {s.mailbox with queue := rest}
        worker := if startsTurn event then .inTurn else .selecting}
  | call (s : Runtime) (table : Pending) (callId : String) : s.worker = .inTurn →
      (table ≠ .catalog → Text.isBlank callId = false) →
      Step decodeError capacity s (.call table callId) {s with
        mailbox := s.mailbox.inserted table callId s.nextWaiter
        nextWaiter := s.nextWaiter + 1
        worker := .requesting table callId s.nextWaiter}
  | sent (s : Runtime) (table : Pending) (callId : String) (waiter : ℕ) :
      s.worker = .requesting table callId waiter →
      Step decodeError capacity s .sent {s with worker := .awaiting table callId waiter}
  | unsent (s : Runtime) (table : Pending) (callId : String) (waiter : ℕ) :
      s.worker = .requesting table callId waiter →
      Step decodeError capacity s .unsent {s with
        mailbox := s.mailbox.removed table callId
        worker := .inTurn}
  | resume (s : Runtime) (table : Pending) (callId : String) (waiter : ℕ) (result : ToolResult) :
      s.worker = .awaiting table callId waiter → s.replies waiter = some result →
      Step decodeError capacity s .resume {s with
        mailbox := s.mailbox.removed table callId
        worker := .inTurn}
  | finish (s : Runtime) : s.worker = .inTurn →
      Step decodeError capacity s .finish {s with worker := .selecting}
  | close (s : Runtime) :
      Step decodeError capacity s .close {s with
        mailbox := {s.mailbox with accepting := false}}
  | signal (s : Runtime) : s.mailbox.accepting = false →
      Step decodeError capacity s .signal {s with signalled := true}
  | observe (s : Runtime) : s.worker = .selecting → s.signalled = true → s.stopping = false →
      Step decodeError capacity s .observe {s with
        mailbox := {s.mailbox with queueOpen := false}
        stopping := true}
  | drained (s : Runtime) : s.worker = .selecting → s.stopping = true → s.mailbox.queue = [] →
      Step decodeError capacity s .drained {s with worker := .ended}

abbrev RuntimeRun (decodeError : Json → String) (capacity : ℕ) :=
  Executions.Run (Step decodeError capacity)

/-! ## One call at a time -/

/-- The table of the kind of a result. -/
def ToolResult.table : ToolResult → Pending
  | .tools _ => .tools
  | .context _ => .context
  | .catalog _ => .catalog
  | .media _ => .media

theorem Pending.table_of_decode {table : Pending} {payload : Json} {result : ToolResult}
    (h : table.decode payload = some result) : result.table = table := by
  cases table <;> obtain ⟨_, _, rfl⟩ := Option.map_eq_some_iff.mp h <;> rfl

theorem Pending.resultKind_of_ofKind {kind : MessageKind} {table : Pending}
    (h : ofKind kind = some table) : kind = table.resultKind := by
  unfold ofKind at h
  split_ifs at h with hmedia htools hcontext hcatalog
  · exact Option.some.inj h ▸ hmedia
  · exact Option.some.inj h ▸ htools
  · exact Option.some.inj h ▸ hcontext
  · exact Option.some.inj h ▸ hcatalog

/-- What one delivery does to the calls that wait: nothing, or it wakes the one whose entry
it takes out. -/
inductive Delivered (mailbox : QueueMailbox) (event : ResidentEvent) : Delivery → Prop
  | nothing (out : Delivery) : out.mailbox.pending = mailbox.pending → out.woken = none →
      Delivered mailbox event out
  | wakes (m : RoutedMessage) (table : Pending) (result : ToolResult) (waiter : ℕ) :
      event = .message m → m.source = toolRoomsKey → m.message.kind = table.resultKind →
      table.decode m.message.payload = some result →
      (mailbox.pending table)[result.callId]? = some waiter →
      Delivered mailbox event
        ⟨.ok (), mailbox.removed table result.callId, some (waiter, result)⟩

theorem deliver_delivered (decodeError : Json → String) (capacity : ℕ) (mailbox : QueueMailbox)
    (event : ResidentEvent) :
    Delivered mailbox event (deliver decodeError capacity mailbox event) := by
  unfold deliver
  split_ifs
  · exact .nothing _ rfl rfl
  · cases event with
    | residentRegistered descriptor => exact .nothing _ rfl rfl
    | message routed =>
        simp only
        cases htable : Pending.ofKind routed.message.kind with
        | none =>
            simp only [enqueue]
            split_ifs <;> exact .nothing _ rfl rfl
        | some table =>
            simp only
            split_ifs with hsource
            · exact .nothing _ rfl rfl
            · cases hdecode : table.decode routed.message.payload with
              | none => exact .nothing _ rfl rfl
              | some result =>
                  simp only [handOver]
                  cases hentry : (mailbox.pending table)[result.callId]? with
                  | none => exact .nothing _ rfl rfl
                  | some waiter =>
                      exact .wakes routed table result waiter rfl (not_not.mp hsource)
                        (Pending.resultKind_of_ofKind htable) hdecode hentry

/-- The tables hold at most the entry of the call that the worker is in, which is the last
one made. -/
structure OneCall (s : Runtime) : Prop where
  entry : ∀ table callId waiter, (s.mailbox.pending table)[callId]? = some waiter →
    s.worker.Calls table callId waiter
  last : ∀ table callId waiter, s.worker.Calls table callId waiter → waiter + 1 = s.nextWaiter

theorem QueueMailbox.removed_entry {mailbox : QueueMailbox} {table other : Pending}
    {callId id : String} {waiter : ℕ}
    (h : ((mailbox.removed table callId).pending other)[id]? = some waiter) :
    (mailbox.pending other)[id]? = some waiter ∧ ¬(other = table ∧ id = callId) := by
  unfold removed at h
  by_cases htable : other = table
  · subst htable
    simp only [Function.update_self, ExtTreeMap.getElem?_erase] at h
    split_ifs at h with hid
    exact ⟨h, fun hsame => hid (by simp [hsame.2])⟩
  · simp only [Function.update_of_ne htable] at h
    exact ⟨h, fun hsame => htable hsame.1⟩

theorem WorkerPhase.not_calls {phase : WorkerPhase}
    (h : phase = .selecting ∨ phase = .inTurn ∨ phase = .ended) (table : Pending)
    (callId : String) (waiter : ℕ) : ¬phase.Calls table callId waiter := by
  rintro (rfl | rfl) <;> simp at h

theorem WorkerPhase.Calls.unique {phase : WorkerPhase} {table other : Pending}
    {callId id : String} {waiter n : ℕ} (h : phase.Calls table callId waiter)
    (h' : phase.Calls other id n) : other = table ∧ id = callId ∧ n = waiter := by
  rcases h with rfl | rfl
  · rcases h' with h' | h'
    · obtain ⟨rfl, rfl, rfl⟩ := WorkerPhase.requesting.inj h'
      exact ⟨rfl, rfl, rfl⟩
    · cases h'
  · rcases h' with h' | h'
    · cases h'
    · obtain ⟨rfl, rfl, rfl⟩ := WorkerPhase.awaiting.inj h'
      exact ⟨rfl, rfl, rfl⟩

section

variable {decodeError : Json → String} {capacity : ℕ} {s t : Runtime} {label : Label}

/-- A worker that calls nothing leaves no entry behind. -/
theorem OneCall.idle (h : OneCall s)
    (hidle : ∀ table callId waiter, ¬s.worker.Calls table callId waiter) (table : Pending)
    (callId : String) : (s.mailbox.pending table)[callId]? = none := by
  cases hentry : (s.mailbox.pending table)[callId]? with
  | none => rfl
  | some waiter => exact absurd (h.entry table callId waiter hentry) (hidle table callId waiter)

/-- The call that the worker was in is over. -/
theorem OneCall.over (h : OneCall s) {table : Pending} {callId : String} {waiter : ℕ}
    (hcalls : s.worker.Calls table callId waiter) : OneCall {s with
      mailbox := s.mailbox.removed table callId
      worker := .inTurn} where
  entry other id n hentry := by
    obtain ⟨hentry, hother⟩ := QueueMailbox.removed_entry hentry
    obtain ⟨htable, hid, -⟩ := hcalls.unique (h.entry other id n hentry)
    exact absurd ⟨htable, hid⟩ hother
  last other id n hin := by
    rcases hin with hin | hin <;> cases hin

theorem OneCall.step (h : OneCall s) (hstep : Step decodeError capacity s label t) :
    OneCall t := by
  have idle : (∀ table callId waiter, ¬s.worker.Calls table callId waiter) →
      ∀ (phase : WorkerPhase) (mailbox : QueueMailbox), mailbox.pending = s.mailbox.pending →
        (∀ table callId waiter, ¬phase.Calls table callId waiter) → ∀ stopping : Bool,
        OneCall {s with mailbox := mailbox, worker := phase, stopping := stopping} := by
    intro hidle phase mailbox hpending hphase stopping
    refine ⟨fun table callId waiter hentry => ?_, fun table callId waiter hcalls =>
      absurd hcalls (hphase table callId waiter)⟩
    simp only [hpending, h.idle hidle] at hentry
    cases hentry
  cases hstep with
  | deliver event =>
      have hdelivered := deliver_delivered decodeError capacity s.mailbox event
      generalize deliver decodeError capacity s.mailbox event = out at hdelivered ⊢
      cases hdelivered with
      | nothing _ hpending _ =>
          exact ⟨fun table callId waiter hentry => h.entry table callId waiter (hpending ▸ hentry),
            h.last⟩
      | wakes m table result waiter _ _ _ _ _ =>
          refine ⟨fun other id n hentry => ?_, h.last⟩
          exact h.entry other id n (QueueMailbox.removed_entry hentry).1
  | take event rest hworker _ _ =>
      refine idle (WorkerPhase.not_calls (.inl hworker)) _ {s.mailbox with queue := rest} rfl ?_
        s.stopping
      split
      · exact WorkerPhase.not_calls (.inr (.inl rfl))
      · exact WorkerPhase.not_calls (.inl rfl)
  | call table callId hworker _ =>
      refine ⟨fun other id n hentry => ?_, fun other id n hcalls => ?_⟩
      · have hnone := h.idle (WorkerPhase.not_calls (.inr (.inl hworker))) other id
        simp only [QueueMailbox.inserted] at hentry
        by_cases htable : other = table
        · subst htable
          simp only [Function.update_self, ExtTreeMap.getElem?_insert, hnone] at hentry
          split_ifs at hentry with hid
          rw [Std.LawfulEqCmp.eq_of_compare hid, Option.some.inj hentry]
          exact .inl rfl
        · rw [Function.update_of_ne htable, hnone] at hentry
          cases hentry
      · rcases hcalls with hcalls | hcalls
        · obtain ⟨-, -, rfl⟩ := WorkerPhase.requesting.inj hcalls
          rfl
        · cases hcalls
  | sent table callId waiter hworker =>
      refine ⟨fun other id n hentry => ?_, fun other id n hcalls => ?_⟩
      · have hcalls := h.entry other id n hentry
        obtain ⟨rfl, rfl, rfl⟩ := WorkerPhase.Calls.unique (.inl hworker) hcalls
        exact .inr rfl
      · obtain ⟨rfl, rfl, rfl⟩ := WorkerPhase.Calls.unique (.inr rfl) hcalls
        exact h.last _ _ _ (.inl hworker)
  | unsent table callId waiter hworker => exact h.over (.inl hworker)
  | resume table callId waiter result hworker _ => exact h.over (.inr hworker)
  | finish hworker =>
      exact idle (WorkerPhase.not_calls (.inr (.inl hworker))) .selecting s.mailbox rfl
        (WorkerPhase.not_calls (.inl rfl)) _
  | close => exact ⟨h.entry, h.last⟩
  | signal _ => exact ⟨h.entry, h.last⟩
  | observe hworker _ _ => exact ⟨h.entry, h.last⟩
  | drained hworker _ _ =>
      exact idle (WorkerPhase.not_calls (.inl hworker)) .ended s.mailbox rfl
        (WorkerPhase.not_calls (.inr (.inr rfl))) _

theorem launched_oneCall : OneCall launched where
  entry table callId waiter hentry := by
    simp [launched] at hentry
  last table callId waiter hcalls := by
    rcases hcalls with hcalls | hcalls <;> cases hcalls

end

end NormaHarness.CodexMailbox
