import NormaHarness.RoomHistories
import NormaHarness.RoomLifecycle
import NormaHarness.TurnCorrelation

/-!
# Rounds

A user message starts a round. In a room with one member the round asks this member
once. In a group it asks the addressed members at the same time for a contribution,
collects the answers, and then follows the mentions in them, one at a time and up to a
limit. Any number of rounds, asks and client operations are interleaved here. A line of
a round between two awaits of the source is a step, and so is a line of an ask.
-/
namespace NormaHarness.Rounds
open Std Identifiers Contracts LlmProtocol Chat Asks FilePrograms

def contributionPrompt (task member : String) : String :=
  s!"你正在一个多 Agent 协作聊天室中。用户任务：\n{task}\n\n你是 {member}。" ++
    "请独立思考并回复；不要假设其他成员已回答。若你的答案已完整，请以 @你 开头直接回答用户；" ++
    "需要其他成员继续处理时，可以 @群内成员。"

def mentionPrompt (source : String) : String :=
  s!"群聊成员 {source} @ 了你。请读取本房间最新消息并回应。" ++
    "若答案已完整，请以 @你 开头直接回答用户；需要其他成员时可 @对应成员。" ++
    "除非需要下一位成员继续，否则不要随意 @。"

def maxMentionTurns : ℕ := 16

def mentionLimitText : String := "本轮模型互相提及次数已达上限，请发送新消息继续讨论。"

/-! ## One round -/

/-- One task of the join set. A member name that is no Resident name never becomes an ask. -/
inductive ContributionState where
  | spawned
  | asking (ask : ℕ)
  | refused (error : ChatError)

structure Contribution where
  member : String
  state : ContributionState

/-- The queue holds pairs of a source and the member that it mentioned. -/
inductive Stage where
  | starting
  | direct (member : String) (ask : ℕ)
  | joining (pending : List (String × String))
  | following (pending : List (String × String)) (followUps : ℕ)
  | mentioned (target : String) (ask : ℕ) (pending : List (String × String)) (followUps : ℕ)
  | reporting (text : String) (next : Stage)
  | ending

structure Progress where
  stage : Stage
  contributions : List Contribution
  allMembers : List String

def Progress.launched : Progress := ⟨.starting, [], []⟩

def Progress.to (p : Progress) (stage : Stage) : Progress := {p with stage := stage}

/-- What an ask that has ended returned. -/
def answerOf : AskPhase → Option (Except ChatError String)
  | .returned _ _ answer => some answer
  | .failed error => some (.error error)
  | _ => none

def resultOf (t : Turns) (ask : ℕ) : Option (Except ChatError String) :=
  (t.asks[ask]?).bind fun a => answerOf a.phase

def refusal (error : IdentifierError) : ChatError := .internal error.message

def Contribution.answer (t : Turns) (c : Contribution) : Option (Except ChatError String) :=
  match c.state with
  | .spawned => none
  | .asking ask => resultOf t ask
  | .refused error => some (.error error)

/-- An error is reported in the room before the round goes on. -/
def settle (member : String) (answer : Except ChatError String) (answered : String → Stage)
    (next : Stage) : Stage :=
  match answer with
  | .ok text => answered text
  | .error error => .reporting s!"{member}: {error.message}" next

/-- What a step of a round does to the rest of the system. -/
inductive Action where
  | proceed
  | call (member prompt : String) (turnKind : LlmChatTurnKind) (roundStart : Option ℕ)
  | report (text : String)

/-- The steps of `run_turn`, apart from its last. -/
inductive Advance (isAlphanumeric : Char → Bool) (t : Turns) (roomMembers : List String)
    (round : Round) (p : Progress) : Action → Progress → Prop
  | direct (member : String) (rest : List String) : p.stage = .starting →
      round.isGroup = false → round.members = member :: rest →
      Advance isAlphanumeric t roomMembers round p (.call member round.task .direct none)
        (p.to (.direct member t.asks.length))
  | directRefused (member : String) (rest : List String) (error : IdentifierError) :
      p.stage = .starting → round.isGroup = false → round.members = member :: rest →
      Identifier.new "Resident name" member = .error error →
      Advance isAlphanumeric t roomMembers round p .proceed
        (p.to (settle member (.error (refusal error)) (fun _ => .ending) .ending))
  | directDone (member : String) (ask : ℕ) (answer : Except ChatError String) :
      p.stage = .direct member ask → resultOf t ask = some answer →
      Advance isAlphanumeric t roomMembers round p .proceed
        (p.to (settle member answer (fun _ => .ending) .ending))
  | spawn : p.stage = .starting → round.isGroup = true →
      Advance isAlphanumeric t roomMembers round p .proceed
        ⟨.joining [], round.members.map fun member => ⟨member, .spawned⟩, roomMembers⟩
  | contribute (member : String) (before after : List Contribution) :
      p.contributions = before ++ ⟨member, .spawned⟩ :: after →
      Advance isAlphanumeric t roomMembers round p
        (.call member (contributionPrompt round.task member) .contribution (some round.roundStart))
        {p with contributions := before ++ ⟨member, .asking t.asks.length⟩ :: after}
  | refuse (member : String) (before after : List Contribution) (error : IdentifierError) :
      p.contributions = before ++ ⟨member, .spawned⟩ :: after →
      Identifier.new "Resident name" member = .error error →
      Advance isAlphanumeric t roomMembers round p .proceed
        {p with contributions := before ++ ⟨member, .refused (refusal error)⟩ :: after}
  | join (c : Contribution) (before after : List Contribution) (pending : List (String × String))
      (answer : Except ChatError String) : p.stage = .joining pending →
      p.contributions = before ++ c :: after → c.answer t = some answer →
      Advance isAlphanumeric t roomMembers round p .proceed {p with
        stage := settle c.member answer (fun text =>
          .joining (enqueueMentions isAlphanumeric pending c.member text p.allMembers))
          (.joining pending)
        contributions := before ++ after}
  | joined (pending : List (String × String)) : p.stage = .joining pending →
      p.contributions = [] →
      Advance isAlphanumeric t roomMembers round p .proceed (p.to (.following pending 0))
  | mention (source target : String) (pending : List (String × String)) (followUps : ℕ) :
      p.stage = .following ((source, target) :: pending) followUps →
      followUps ≠ maxMentionTurns →
      Advance isAlphanumeric t roomMembers round p
        (.call target (mentionPrompt source) .mention none)
        (p.to (.mentioned target t.asks.length pending (followUps + 1)))
  | mentionRefused (source target : String) (pending : List (String × String)) (followUps : ℕ)
      (error : IdentifierError) : p.stage = .following ((source, target) :: pending) followUps →
      followUps ≠ maxMentionTurns → Identifier.new "Resident name" target = .error error →
      Advance isAlphanumeric t roomMembers round p .proceed
        (p.to (settle target (.error (refusal error))
          (fun _ => .following pending (followUps + 1)) (.following pending (followUps + 1))))
  | mentionDone (target : String) (ask : ℕ) (pending : List (String × String)) (followUps : ℕ)
      (answer : Except ChatError String) : p.stage = .mentioned target ask pending followUps →
      resultOf t ask = some answer →
      Advance isAlphanumeric t roomMembers round p .proceed
        (p.to (settle target answer (fun text =>
          .following (enqueueMentions isAlphanumeric pending target text p.allMembers) followUps)
          (.following pending followUps)))
  | capped (first : String × String) (pending : List (String × String)) :
      p.stage = .following (first :: pending) maxMentionTurns →
      Advance isAlphanumeric t roomMembers round p .proceed
        (p.to (.reporting mentionLimitText .ending))
  | drained (followUps : ℕ) : p.stage = .following [] followUps →
      Advance isAlphanumeric t roomMembers round p .proceed (p.to .ending)
  | report (text : String) (next : Stage) : p.stage = .reporting text next →
      Advance isAlphanumeric t roomMembers round p (.report text) (p.to next)

/-! ## The whole system -/

/-- The message that the answer of an ask became. -/
structure Publication where
  ask : ℕ
  message : ChatMessage

/-- The progress of a round matters while the round is in flight. -/
structure Session where
  world : World
  turns : Turns
  progress : Round → Progress
  published : List Publication

def launchedSession (restored : List ChatRoom) (media : ExtTreeMap String Media.MediaAsset)
    (disk : SnapshotDisk) : Session :=
  ⟨start restored media disk, Turns.launched, fun _ => .launched, []⟩

inductive Event where
  | client (op : ChatOp)
  | mark (round : Round) (member : Option String)
  | abandon (round : Round)
  | advance (round : Round) (action : Action)
  | finish (round : Round)
  | ask (event : TurnEvent)
  | snapshot (ask : ℕ)
  | publish (ask : ℕ)
  | conclude (ask : ℕ)

end NormaHarness.Rounds

namespace NormaHarness.Chat
open FilePrograms

/-- The operations of clients; the others belong to rounds. -/
def ChatOp.OfClient : ChatOp → Prop
  | .push _ _ _ _ _ _ _ => False
  | .setActive _ _ => False
  | .finish _ _ _ => False
  | .abandon _ => False
  | _ => True

/-- `push_message_with_media` for a room, whoever calls it. -/
def World.pushed (w : World) (faults : SnapshotFaults) (clock : Clock) (id : ℕ)
    (role author text : String) (media : List Media.MediaAsset) : World :=
  let out := pushMessageWithMedia faults clock id role author text media w.chat w.disk
  {w with chat := out.1, disk := out.2}

end NormaHarness.Chat

namespace NormaHarness.Asks

/-- The steps of an ask that neither call it, read the rooms, nor end it. -/
def TurnEvent.Inner : TurnEvent → Prop
  | .call _ _ _ _ _ => False
  | .snapshot _ _ => False
  | .conclude _ => False
  | _ => True

end NormaHarness.Asks

namespace NormaHarness.Rounds
open Std Identifiers Contracts LlmProtocol Chat Asks FilePrograms

def Session.roomMembers (s : Session) (id : ℕ) : List String :=
  ((s.world.chat.rooms.get id).map ChatRoom.members).getD []

/-- A round that an operation has started stands at its beginning. -/
def Session.opened (s : Session) (round : Round) : Progress :=
  if round ∈ s.world.rounds then s.progress round else .launched

def Session.moved (s : Session) (round : Round) (p : Progress) : Session :=
  {s with progress := Function.update s.progress round p}

def Session.IsPublished (s : Session) (ask : ℕ) : Prop := ∃ p ∈ s.published, p.ask = ask

def answerMessage (s : Session) (a : Ask) (answer : Answer) (clock : Clock) : ChatMessage :=
  newMessage s.world.chat answer.role a.member answer.text answer.attachments clock.createdAt

/-- The mark of the active member only shows in the room, and is moved at any time. -/
inductive Step (isAlphanumeric : Char → Bool) : Session → Event → Session → Prop
  | client (s : Session) (op : ChatOp) (w : World) : op.OfClient →
      ChatStep isAlphanumeric s.world op w →
      Step isAlphanumeric s (.client op) {s with world := w, progress := s.opened}
  | mark (s : Session) (round : Round) (member : Option String) (w : World) :
      ChatStep isAlphanumeric s.world (.setActive round member) w →
      Step isAlphanumeric s (.mark round member) {s with world := w}
  | abandon (s : Session) (round : Round) (w : World) :
      (s.progress round).stage = .starting → round.isGroup = false →
      ChatStep isAlphanumeric s.world (.abandon round) w →
      Step isAlphanumeric s (.abandon round) {s with world := w}
  | proceed (s : Session) (round : Round) (p : Progress) : round ∈ s.world.rounds →
      Advance isAlphanumeric s.turns (s.roomMembers round.roomId) round (s.progress round)
        .proceed p →
      Step isAlphanumeric s (.advance round .proceed) (s.moved round p)
  | call (s : Session) (round : Round) (p : Progress) (member prompt : String)
      (turnKind : LlmChatTurnKind) (roundStart : Option ℕ) (t : Turns) : round ∈ s.world.rounds →
      Advance isAlphanumeric s.turns (s.roomMembers round.roomId) round (s.progress round)
        (.call member prompt turnKind roundStart) p →
      TurnStep isAlphanumeric s.turns (.call round.roomId member prompt turnKind roundStart) t →
      Step isAlphanumeric s (.advance round (.call member prompt turnKind roundStart))
        {s.moved round p with turns := t}
  | report (s : Session) (round : Round) (p : Progress) (text : String) (faults : SnapshotFaults)
      (clock : Clock) : round ∈ s.world.rounds →
      Advance isAlphanumeric s.turns (s.roomMembers round.roomId) round (s.progress round)
        (.report text) p →
      Step isAlphanumeric s (.advance round (.report text)) {s.moved round p with
        world := s.world.pushed faults clock round.roomId "error" "系统" text []}
  | finish (s : Session) (round : Round) (faults : SnapshotFaults) (now : ℕ) (w : World) :
      (s.progress round).stage = .ending →
      ChatStep isAlphanumeric s.world (.finish faults now round) w →
      Step isAlphanumeric s (.finish round) {s with world := w}
  | ask (s : Session) (event : TurnEvent) (t : Turns) : event.Inner →
      TurnStep isAlphanumeric s.turns event t →
      Step isAlphanumeric s (.ask event) {s with turns := t}
  | snapshot (s : Session) (i : ℕ) (t : Turns) :
      TurnStep isAlphanumeric s.turns (.snapshot i s.world.chat.rooms) t →
      Step isAlphanumeric s (.snapshot i) {s with turns := t}
  /-- The answer enters the room while the ask still holds its member's turn. -/
  | publish (s : Session) (i : ℕ) (a : Ask) (request : LlmTurnRequest) (result : LlmTurnResult)
      (answer : Answer) (faults : SnapshotFaults) (clock : Clock) :
      s.turns.asks[i]? = some a → a.phase = .completed request result →
      askAnswer isAlphanumeric a.turnKind result = .ok answer → ¬s.IsPublished i →
      Step isAlphanumeric s (.publish i) {s with
        world := s.world.pushed faults clock a.roomId answer.role a.member answer.text
          answer.attachments
        published := s.published ++ [⟨i, answerMessage s a answer clock⟩]}
  | conclude (s : Session) (i : ℕ) (a : Ask) (request : LlmTurnRequest) (result : LlmTurnResult)
      (t : Turns) : s.turns.asks[i]? = some a → a.phase = .completed request result →
      ((askAnswer isAlphanumeric a.turnKind result).toOption.isSome → s.IsPublished i) →
      TurnStep isAlphanumeric s.turns (.conclude i) t →
      Step isAlphanumeric s (.conclude i) {s with turns := t}

abbrev SessionRun (isAlphanumeric : Char → Bool) := Executions.Run (Step isAlphanumeric)

end NormaHarness.Rounds
