import NormaHarness.TurnCorrelation
import NormaHarness.BoundedCounters
import NormaHarness.ChatRuns
import NormaHarness.RelayCorrelation

/-!
# How far the counters reach

Rooms, messages, turns and relayed queries are numbered from counters of 64 bits, which
wrap around. The models count with natural numbers. An operation draws at most one number
from each of its counters, so a coordinator, its asks and the room tools run as their
models do until the operations themselves no longer fit into 64 bits.
-/
namespace NormaHarness
open Identifiers Contracts JsonValues BoundedCounters

namespace Chat

/-- The counters as `fetch_add` leaves them. -/
def World.wrapped (w : World) : World :=
  {w with chat := {w.chat with
    nextRoom := w.chat.nextRoom % 2 ^ 64
    nextMessage := w.chat.nextMessage % 2 ^ 64}}

/-- An operation draws at most one room and one message. -/
structure DrawsOne (c c' : ChatResident) : Prop where
  room : c'.nextRoom ≤ c.nextRoom + 1
  message : c'.nextMessage ≤ c.nextMessage + 1

/-- The counters stay as they are. -/
structure DrawsNone (c c' : ChatResident) : Prop where
  room : c'.nextRoom = c.nextRoom
  message : c'.nextMessage = c.nextMessage

theorem DrawsNone.one {c c' : ChatResident} (h : DrawsNone c c') : DrawsOne c c' :=
  ⟨h.room.trans_le (Nat.le_succ _), h.message.trans_le (Nat.le_succ _)⟩

theorem DrawsNone.trans {a b c : ChatResident} (h : DrawsNone a b) (g : DrawsNone b c) :
    DrawsNone a c :=
  ⟨g.room.trans h.room, g.message.trans h.message⟩

theorem sleepDue_drawsNone (faults : SnapshotFaults) (limits : SleepLimits) (now : ℕ)
    (chat : ChatResident) (disk : SnapshotDisk) :
    DrawsNone chat (sleepDue faults limits now chat disk).2.1 := by
  refine sleepDue_relates (fun _ => ⟨rfl, rfl⟩) (fun _ _ _ => .trans) faults limits now
    (fun swept room _ => ?_) chat disk
  unfold sleepRoom
  split_ifs
  · exact ⟨rfl, rfl⟩
  · exact ⟨rfl, rfl⟩
  · exact ⟨rfl, rfl⟩

section

variable {isAlphanumeric : Char → Bool}

theorem ChatStep.drawsOne {w w' : World} {op : ChatOp} (hstep : ChatStep isAlphanumeric w op w') :
    DrawsOne w.chat w'.chat := by
  obtain ⟨-, rfl⟩ := hstep
  have hsame : ∀ {c : ChatResident}, c.nextRoom = w.chat.nextRoom →
      c.nextMessage = w.chat.nextMessage → DrawsOne w.chat c := fun hroom hmessage =>
    DrawsNone.one ⟨hroom, hmessage⟩
  cases op with
  | enableStorage faults =>
      simp only [World.after, World.withSaved, enableStorage]
      split_ifs
      · exact hsame rfl rfl
      · rw [saving_chat]
        exact hsame rfl rfl
  | reserveRoom name members incognito now =>
      simp only [World.after, reserveRoom]
      split
      · exact hsame rfl rfl
      · split
        · exact hsame rfl rfl
        · exact ⟨le_rfl, Nat.le_succ _⟩
  | insertRoom faults created =>
      simp only [World.after, World.withSaved, insertRoom, saving_chat]
      exact hsame rfl rfl
  | ensureSoloRoom faults member name now =>
      simp only [World.after, World.withSaved, ensureSoloRoom]
      split
      · exact hsame rfl rfl
      · split
        · exact hsame rfl rfl
        · simp only [insertRoom, saving_chat]
          exact ⟨le_rfl, Nat.le_succ _⟩
  | ensureIncognitoSoloRoom member name now =>
      simp only [World.after, ensureIncognitoSoloRoom]
      split
      · exact hsame rfl rfl
      · split
        · exact hsame rfl rfl
        · exact ⟨le_rfl, Nat.le_succ _⟩
  | send faults clock id text media =>
      have hsend := send_step isAlphanumeric faults clock id text media w.chat w.disk
      simp only [World.after, World.sent]
      generalize sendUserMessageWithMedia isAlphanumeric faults clock id text media w.chat w.disk =
        out at hsend ⊢
      cases hsend with
      | refused => exact hsame rfl rfl
      | unsaved => exact ⟨Nat.le_succ _, le_rfl⟩
      | accepted => exact ⟨Nat.le_succ _, le_rfl⟩
  | push faults clock round role author text media =>
      simp only [World.after, pushMessageWithMedia]
      split
      · exact hsame rfl rfl
      · exact ⟨Nat.le_succ _, le_rfl⟩
  | setActive round member =>
      simp only [World.after, setActive]
      split
      · exact hsame rfl rfl
      · exact hsame rfl rfl
  | finish faults now round =>
      simp only [World.after, finish]
      split
      · exact hsame rfl rfl
      · exact hsame rfl rfl
  | abandon round => exact hsame rfl rfl
  | heartbeat now id client =>
      simp only [World.after, heartbeat]
      split_ifs
      · exact hsame rfl rfl
      · split
        · exact hsame rfl rfl
        · exact hsame rfl rfl
  | leave now id client => exact hsame rfl rfl
  | sleepDue faults limits now => exact (sleepDue_drawsNone faults limits now w.chat w.disk).one
  | setArchived faults id archived =>
      simp only [World.after, World.withSaved, setArchived]
      split
      · exact hsame rfl rfl
      · rw [saving_chat]
        exact hsame rfl rfl

end

/-- Rooms and messages have a counter each. -/
def counting (isAlphanumeric : Char → Bool) : Counting (ChatStep isAlphanumeric) (2 ^ 64) where
  counter w := max w.chat.nextRoom w.chat.nextMessage
  wrap := World.wrapped
  wrap_eq w hroom := by
    obtain ⟨hroom, hmessage⟩ := Nat.max_lt.mp hroom
    rw [World.wrapped, Nat.mod_eq_of_lt hroom, Nat.mod_eq_of_lt hmessage]
  draws w op w' hstep := by
    obtain ⟨hroom, hmessage⟩ := hstep.drawsOne
    omega

/-- The coordinator with counters of 64 bits runs as its model does, if the operations and
what was restored leave the counters room. -/
theorem chatRun_wrapped_iff {isAlphanumeric : Char → Bool} {w w' : World} {ops : List ChatOp}
    (hroom : max w.chat.nextRoom w.chat.nextMessage + ops.length < 2 ^ 64) :
    Executions.Run (counting isAlphanumeric).Wrapped w ops w' ↔ ChatRun isAlphanumeric w ops w' :=
  Counting.run_iff hroom

end Chat

namespace Asks

def Turns.wrapped (w : Turns) : Turns := {w with nextRequest := w.nextRequest % 2 ^ 64}

theorem TurnStep.draws {isAlphanumeric : Char → Bool} {w w' : Turns} {event : TurnEvent}
    (hstep : TurnStep isAlphanumeric w event w') : w'.nextRequest ≤ w.nextRequest + 1 := by
  cases hstep with
  | number i a taken hi hphase => exact le_rfl
  | receive m =>
      rcases receive_cases w m with ⟨-, hw⟩ | ⟨result, turn, -, hw⟩
      · rw [hw]
        exact Nat.le_succ _
      · rw [hw]
        exact Nat.le_succ _
  | _ => exact Nat.le_succ _

def counting (isAlphanumeric : Char → Bool) : Counting (TurnStep isAlphanumeric) (2 ^ 64) where
  counter := Turns.nextRequest
  wrap := Turns.wrapped
  wrap_eq w hroom := by rw [Turns.wrapped, Nat.mod_eq_of_lt hroom]
  draws w event w' hstep := hstep.draws

theorem turnRun_wrapped_iff {isAlphanumeric : Char → Bool} {w w' : Turns} {events : List TurnEvent}
    (hroom : w.nextRequest + events.length < 2 ^ 64) :
    Executions.Run (counting isAlphanumeric).Wrapped w events w' ↔
      TurnRun isAlphanumeric w events w' :=
  Counting.run_iff hroom

end Asks

namespace RoomTools

def System.wrapped (w : System) : System :=
  {w with worker := {w.worker with nextQuery := w.worker.nextQuery % 2 ^ 64}}

theorem RelayedTool.takeRequest_draws {Request Query Result : Type}
    (tool : RelayedTool Request Query Result) (route : Option RouteError) (source : ResidentKey)
    (payload : Json) (pending : Pending) (nextQuery : ℕ) :
    (tool.takeRequest route source payload pending nextQuery).2.1 ≤ nextQuery + 1 := by
  unfold takeRequest
  split
  · exact Nat.le_succ _
  · split
    · exact Nat.le_succ _
    · split
      · exact le_rfl
      · exact le_rfl

theorem receive_draws (env : PublishEnvironment) (route : Option RouteError) (worker : ToolWorker)
    (m : RoutedMessage) : (worker.receive env route m).1.nextQuery ≤ worker.nextQuery + 1 := by
  unfold ToolWorker.receive
  simp only
  split_ifs
  · exact Nat.le_succ _
  · exact Nat.le_succ _
  · exact roomMembersTool.takeRequest_draws route _ _ _ _
  · exact Nat.le_succ _
  · exact chatContextTool.takeRequest_draws route _ _ _ _
  · exact Nat.le_succ _
  · exact Nat.le_succ _

theorem SystemStep.draws {w w' : System} {event : SystemEvent} (hstep : SystemStep w event w') :
    w'.worker.nextQuery ≤ w.worker.nextQuery + 1 := by
  cases hstep with
  | work env route arrives before after m hm => exact receive_draws env route w.worker m
  | _ => exact Nat.le_succ _

/-- The relayed tools share one counter. -/
def counting : Counting SystemStep (2 ^ 64) where
  counter w := w.worker.nextQuery
  wrap := System.wrapped
  wrap_eq w hroom := by rw [System.wrapped, Nat.mod_eq_of_lt hroom]
  draws w event w' hstep := hstep.draws

theorem systemRun_wrapped_iff {w w' : System} {events : List SystemEvent}
    (hroom : w.worker.nextQuery + events.length < 2 ^ 64) :
    Executions.Run counting.Wrapped w events w' ↔ SystemRun w events w' :=
  Counting.run_iff hroom

end RoomTools

end NormaHarness
