import NormaHarness.ChatContext
import NormaHarness.Mentions
import NormaHarness.Executions

/-!
# Asking a member for a turn

An ask waits for the member's earlier turns, takes its snapshot, draws a request
identity, leaves a reply channel under it in the pending table, and sends the
request. The worker of `chat.rooms` may find the result while the ask is still
sending. Each line between two awaits of the source is a step, asks are numbered in
the order in which they were called, and a reply channel has the number of its ask.
Requests are numbered from a natural number, which `CounterBounds` compares with the
counter of 64 bits.
-/
namespace NormaHarness.Asks
open Std Identifiers Contracts LlmProtocol Chat Media

structure PendingTurn where
  expectedSource : ResidentKey
  reply : ℕ
  deriving DecidableEq

inductive AskPhase where
  | queued
  | locked
  | snapshotted (snapshot : LlmOrigin × List LlmContextMessage)
  | numbered (request : LlmTurnRequest)
  | sending (request : LlmTurnRequest)
  | waiting (request : LlmTurnRequest)
  | completed (request : LlmTurnRequest) (result : LlmTurnResult)
  | returned (request : LlmTurnRequest) (result : LlmTurnResult) (answer : Except ChatError String)
  | failed (error : ChatError)

/-- The arguments of an ask with its target, its progress, and what its reply channel holds. -/
structure Ask where
  roomId : ℕ
  member : String
  target : ResidentKey
  prompt : String
  turnKind : LlmChatTurnKind
  roundStart : Option ℕ
  phase : AskPhase
  reply : Option LlmTurnResult

/-- The table of turns in progress, the asks so far, and the messages that the worker took. -/
structure Turns where
  pending : ExtTreeMap String PendingTurn
  nextRequest : ℕ
  asks : List Ask
  received : List RoutedMessage

def Turns.launched : Turns := ⟨∅, 1, [], []⟩

namespace AskPhase

/-- The request that was drawn for the ask. -/
def request : AskPhase → Option LlmTurnRequest
  | .numbered request => some request
  | .sending request => some request
  | .waiting request => some request
  | .completed request _ => some request
  | .returned request _ _ => some request
  | _ => none

/-- The ask is still sending or waiting, under this request identity. -/
def Live (k : String) : AskPhase → Prop
  | .sending request => request.requestId = k
  | .waiting request => request.requestId = k
  | _ => False

/-- The ask holds the lock on its member's turns. -/
def HoldsTurn : AskPhase → Prop
  | .queued => False
  | .returned _ _ _ => False
  | .failed _ => False
  | _ => True

/-- The ask has received this result for this request. -/
def CompletedWith (request : LlmTurnRequest) (result : LlmTurnResult) : AskPhase → Prop
  | .completed r s => r = request ∧ s = result
  | .returned r s _ => r = request ∧ s = result
  | _ => False

/-- Nothing has been put into the pending table yet. -/
def Early : AskPhase → Prop
  | .queued => True
  | .locked => True
  | .snapshotted _ => True
  | .numbered _ => True
  | _ => False

end AskPhase

def requestIdOf (roomId n : ℕ) : String := s!"chat-{roomId}-{n}"

structure Answer where
  role : String
  text : String
  attachments : List MediaAsset
  compacted : Bool
  deriving DecidableEq, Repr

def answerText (result : LlmTurnResult) : Option String :=
  match result.finalResponse.filter fun answer => !Text.isBlank answer with
  | some answer => some answer
  | none => if result.attachments.isEmpty then none else some "已发送附件"

/-- What the end of `ask` makes of a result. -/
def askAnswer (isAlphanumeric : Char → Bool) (turnKind : LlmChatTurnKind) (result : LlmTurnResult) :
    Except ChatError Answer :=
  if result.status ≠ .completed then
    .error (.internal (result.error.getD "Resident turn failed"))
  else
    match answerText result with
    | none => .error (.internal "Resident returned an empty response")
    | some answer =>
        .ok ⟨if turnKind ≠ .direct ∧ mentionsUser isAlphanumeric answer then "summary" else "agent",
          answer, result.attachments, result.compacted⟩

/-- The worker takes one message; only results of turns matter here. -/
def Turns.receive (w : Turns) (m : RoutedMessage) : Turns :=
  let taken := {w with received := w.received ++ [m]}
  if m.message.kind ≠ turnResultKind then taken
  else
    match LlmTurnResult.codec.decode m.message.payload with
    | none => taken
    | some result =>
      match w.pending[result.requestId]? with
      | none => taken
      | some turn =>
          if turn.expectedSource ≠ m.source then taken
          else {taken with
            pending := w.pending.erase result.requestId
            asks := w.asks.modify turn.reply fun ask => {ask with reply := some result}}

inductive TurnEvent where
  | call (roomId : ℕ) (member : String) (prompt : String) (turnKind : LlmChatTurnKind)
      (roundStart : Option ℕ)
  | lock (i : ℕ)
  | snapshot (i : ℕ) (rooms : RoomStore)
  | number (i : ℕ)
  | insert (i : ℕ)
  | sent (i : ℕ)
  | sendFailed (i : ℕ) (error : RouteError)
  | resume (i : ℕ)
  | closed (i : ℕ)
  | conclude (i : ℕ)
  | receive (m : RoutedMessage)

/-- Ask number `i` moves on to another phase. -/
def Turns.move (w : Turns) (i : ℕ) (a : Ask) (phase : AskPhase) : Turns :=
  {w with asks := w.asks.set i {a with phase := phase}}

/-- A member name that is no Resident name fails at once and changes nothing; an ask is
numbered only after that. -/
inductive TurnStep (isAlphanumeric : Char → Bool) : Turns → TurnEvent → Turns → Prop
  | call (w : Turns) (roomId : ℕ) (member : String) (target : ResidentKey) (prompt : String)
      (turnKind : LlmChatTurnKind) (roundStart : Option ℕ) :
      Identifier.new "Resident name" member = .ok target →
      TurnStep isAlphanumeric w (.call roomId member prompt turnKind roundStart)
        {w with asks := w.asks ++
          [⟨roomId, member, target, prompt, turnKind, roundStart, .queued, none⟩]}
  | lock (w : Turns) (i : ℕ) (a : Ask) : w.asks[i]? = some a → a.phase = .queued →
      (∀ b ∈ w.asks, b.member = a.member → ¬b.phase.HoldsTurn) →
      TurnStep isAlphanumeric w (.lock i) (w.move i a .locked)
  | missing (w : Turns) (i : ℕ) (a : Ask) (rooms : RoomStore) (error : ChatError) :
      w.asks[i]? = some a → a.phase = .locked →
      turnSnapshot rooms a.roomId a.member a.roundStart = .error error →
      TurnStep isAlphanumeric w (.snapshot i rooms) (w.move i a (.failed error))
  | snapshot (w : Turns) (i : ℕ) (a : Ask) (rooms : RoomStore)
      (taken : LlmOrigin × List LlmContextMessage) :
      w.asks[i]? = some a → a.phase = .locked →
      turnSnapshot rooms a.roomId a.member a.roundStart = .ok taken →
      TurnStep isAlphanumeric w (.snapshot i rooms) (w.move i a (.snapshotted taken))
  | number (w : Turns) (i : ℕ) (a : Ask) (taken : LlmOrigin × List LlmContextMessage) :
      w.asks[i]? = some a → a.phase = .snapshotted taken →
      TurnStep isAlphanumeric w (.number i) {w.move i a (.numbered
        (askRequest (requestIdOf a.roomId w.nextRequest) a.prompt a.turnKind taken)) with
          nextRequest := w.nextRequest + 1}
  | insert (w : Turns) (i : ℕ) (a : Ask) (request : LlmTurnRequest) :
      w.asks[i]? = some a → a.phase = .numbered request →
      TurnStep isAlphanumeric w (.insert i) {w.move i a (.sending request) with
        pending := w.pending.insert request.requestId ⟨a.target, i⟩}
  | sent (w : Turns) (i : ℕ) (a : Ask) (request : LlmTurnRequest) :
      w.asks[i]? = some a → a.phase = .sending request →
      TurnStep isAlphanumeric w (.sent i) (w.move i a (.waiting request))
  | sendFailed (w : Turns) (i : ℕ) (a : Ask) (request : LlmTurnRequest) (error : RouteError) :
      w.asks[i]? = some a → a.phase = .sending request →
      TurnStep isAlphanumeric w (.sendFailed i error)
        {w.move i a (.failed (.internal error.message)) with
          pending := w.pending.erase request.requestId}
  | resume (w : Turns) (i : ℕ) (a : Ask) (request : LlmTurnRequest) (result : LlmTurnResult) :
      w.asks[i]? = some a → a.phase = .waiting request → a.reply = some result →
      TurnStep isAlphanumeric w (.resume i) (w.move i a (.completed request result))
  /-- The other end of the channel is gone. -/
  | closed (w : Turns) (i : ℕ) (a : Ask) (request : LlmTurnRequest) :
      w.asks[i]? = some a → a.phase = .waiting request → a.reply = none →
      (∀ (k : String) (turn : PendingTurn), w.pending[k]? = some turn → turn.reply ≠ i) →
      TurnStep isAlphanumeric w (.closed i)
        {w.move i a (.failed (.internal "Resident reply channel closed")) with
          pending := w.pending.erase request.requestId}
  | conclude (w : Turns) (i : ℕ) (a : Ask) (request : LlmTurnRequest) (result : LlmTurnResult) :
      w.asks[i]? = some a → a.phase = .completed request result →
      TurnStep isAlphanumeric w (.conclude i) (w.move i a (.returned request result
        ((askAnswer isAlphanumeric a.turnKind result).map Answer.text)))
  | receive (w : Turns) (m : RoutedMessage) :
      TurnStep isAlphanumeric w (.receive m) (w.receive m)

abbrev TurnRun (isAlphanumeric : Char → Bool) := Executions.Run (TurnStep isAlphanumeric)

end NormaHarness.Asks
