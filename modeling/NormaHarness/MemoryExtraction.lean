import NormaHarness.ByteSlices
import NormaHarness.CodexWorker
import NormaHarness.Executions
import NormaHarness.MemoryManager

/-!
# What a reply does to the worker

The reply to a memory extraction is read as JSON or, failing that, what stands in it from
the first opening to the last closing brace. Nothing compares the two places: where the
braces are inverted, the slice between them panics, and the panic ends the one task that
serves all rooms. A reply is readable when that does not happen.
-/
namespace NormaHarness.CodexWorker
open Std Identifiers Contracts JsonValues LlmProtocol Executions ByteSlices
open Memory (ExtractedMemory Manager MemoryState MemoryFaults Shuffles noMemoryFiles)

/-! ## Parsing a reply -/

/-- What the worker makes of a reply; there is no result where the slice panics. -/
def parseExtraction (fromStr : String → Except String ExtractedMemory) (response : String) :
    Option (Except String ExtractedMemory) :=
  match fromStr response with
  | .ok extracted => some (.ok extracted)
  | .error _ =>
    match find '{' response.toList with
    | none => some (.error "no JSON object")
    | some start =>
      match rfind '}' response.toList with
      | none => some (.error "no JSON object")
      | some last =>
          (slice start (last + 1) response.toList).map fun object =>
            fromStr (String.ofList object)

/-- The reply is JSON as it stands, or its braces are not inverted. -/
def Readable (fromStr : String → Except String ExtractedMemory) (response : String) : Prop :=
  (∃ extracted, fromStr response = .ok extracted) ∨ ¬Inverted '{' '}' response.toList

section

variable (fromStr : String → Except String ExtractedMemory)

theorem parseExtraction_iff (response : String) :
    (∃ result, parseExtraction fromStr response = some result) ↔ Readable fromStr response := by
  unfold parseExtraction Readable
  cases hwhole : fromStr response with
  | ok extracted => exact iff_of_true ⟨_, rfl⟩ (.inl ⟨extracted, rfl⟩)
  | error error =>
      have hrefused : ¬∃ extracted, (Except.error error : Except String ExtractedMemory) =
          .ok extracted := by
        rintro ⟨extracted, h⟩
        cases h
      rw [or_iff_right hrefused]
      cases hstart : find '{' response.toList with
      | none =>
          refine iff_of_true ⟨_, rfl⟩ fun h => ?_
          obtain ⟨start, last, hfound, -⟩ := h.searches (by decide) (by decide)
          rw [hstart] at hfound
          cases hfound
      | some start =>
          cases hlast : rfind '}' response.toList with
          | none =>
              refine iff_of_true ⟨_, rfl⟩ fun h => ?_
              obtain ⟨start, last, -, hfound, -⟩ := h.searches (by decide) (by decide)
              rw [hlast] at hfound
              cases hfound
          | some last =>
              rw [← slice_searches hstart hlast (by decide) (by decide),
                ← Option.isSome_iff_exists]
              dsimp only
              rw [Option.isSome_map, Option.isSome_iff_ne_none]

/-- An object in prose is read whole if no brace opens before it and none closes after it. -/
theorem parseExtraction_embedded {response error : String} {before body after : List Char}
    (hresponse : response.toList = before ++ ('{' :: body ++ ['}']) ++ after)
    (hbefore : '{' ∉ before) (hafter : '}' ∉ after) (hwhole : fromStr response = .error error) :
    parseExtraction fromStr response =
      some (fromStr (String.ofList ('{' :: body ++ ['}']))) := by
  have hstart : find '{' response.toList = some (String.utf8Len before) :=
    find_eq_some_iff.mpr ⟨before, body ++ ['}'] ++ after, by simp [hresponse], hbefore, rfl⟩
  have hlast : rfind '}' response.toList = some (String.utf8Len (before ++ '{' :: body)) :=
    rfind_eq_some_iff.mpr ⟨before ++ '{' :: body, after, by simp [hresponse], hafter, rfl⟩
  have hslice : slice (String.utf8Len before) (String.utf8Len (before ++ '{' :: body) + 1)
      response.toList = some ('{' :: body ++ ['}']) := by
    refine slice_eq_some_iff.mpr ⟨before, after, hresponse, rfl, ?_⟩
    have hclosing : '}'.utf8Size = 1 := by decide
    simp only [String.utf8Len_append, String.utf8Len_cons, String.utf8Len_nil, hclosing]
    omega
  simp only [parseExtraction, hwhole, hstart, hlast, hslice, Option.map_some]

end

/-! ## The task of the worker -/

/-- The worker, and the memory that it shares with the other residents. -/
structure WorkerTask where
  worker : Worker
  memory : Option Manager

/-- What one message meets: the app-server, what others do to the memory before its events
are read, before its keys are read and before an extraction is applied to it, and how the
application goes. -/
structure Surroundings extends Environment where
  beforeEvents : Manager → Manager
  beforeKeys : Manager → Manager
  beforeApply : Manager → Manager
  shuffles : Shuffles
  faults : MemoryFaults
  now : ℕ

namespace WorkerTask

def reads (around : Surroundings) (task : WorkerTask) : Option MemoryReads :=
  task.memory.map fun m =>
    let m := around.beforeEvents m
    ⟨fun roomId context => m.unprocessed roomId context, (around.beforeKeys m).knownKeys⟩

def reaction (conversationPath : Option String) (around : Surroundings) (task : WorkerTask)
    (message : RoutedMessage) : Reaction :=
  CodexWorker.receive {around.toEnvironment with memory := task.reads around} conversationPath
    task.worker message

section

variable (fromStr : String → Except String ExtractedMemory) (toLowercase : String → String)
  (conversationPath : Option String)

/-- One message; a panic leaves no task. -/
def receive (around : Surroundings) (task : WorkerTask) (message : RoutedMessage) :
    Option WorkerTask :=
  let reaction := task.reaction conversationPath around message
  let memory := task.memory.map fun m =>
    around.beforeApply (around.beforeKeys (around.beforeEvents m))
  match reaction.extraction with
  | none => some ⟨reaction.worker, memory⟩
  | some x =>
      (parseExtraction fromStr x.response).map fun
        | .ok extracted => ⟨reaction.worker, memory.map fun m =>
            (m.apply toLowercase around.shuffles around.faults around.now x.roomId x.events
              extracted).2⟩
        | .error _ => ⟨reaction.worker, memory⟩

def Step (task : WorkerTask) (event : Surroundings × RoutedMessage) (task' : WorkerTask) : Prop :=
  task.receive fromStr toLowercase conversationPath event.1 event.2 = some task'

/-- The task goes on after a message unless it has a reply to parse that is not readable. -/
theorem step_iff (task : WorkerTask) (event : Surroundings × RoutedMessage) :
    (∃ task', task.Step fromStr toLowercase conversationPath event task') ↔
      ∀ x, (task.reaction conversationPath event.1 event.2).extraction = some x →
        Readable fromStr x.response := by
  unfold Step receive
  dsimp only
  cases (task.reaction conversationPath event.1 event.2).extraction with
  | none => exact iff_of_true ⟨_, rfl⟩ fun x hx => by cases hx
  | some x =>
      simp only [Option.some.injEq, forall_eq', ← parseExtraction_iff, Option.map_eq_some_iff]
      constructor
      · rintro ⟨task', result, hresult, -⟩
        exact ⟨result, hresult⟩
      · rintro ⟨result, hresult⟩
        exact ⟨_, result, hresult, rfl⟩

/-- A reply has a result exactly if it is readable, and a task outlives its messages
exactly if every reply that it comes to parse is. -/
theorem survives_iff :
    (∀ response, (∃ result, parseExtraction fromStr response = some result) ↔
      Readable fromStr response) ∧
    ∀ task events,
      (∃ task', Run (Step fromStr toLowercase conversationPath) task events task') ↔
        ∀ past around message future task' x, events = past ++ (around, message) :: future →
          Run (Step fromStr toLowercase conversationPath) task past task' →
          (task'.reaction conversationPath around message).extraction = some x →
          Readable fromStr x.response := by
  refine ⟨parseExtraction_iff fromStr, fun task events => ?_⟩
  rw [Run.exists_iff fun s a t u ht hu => Option.some.inj (ht.symm.trans hu)]
  constructor
  · intro h past around message future task' x hevents hpast
    have hstep := h past (around, message) future task' hevents hpast
    exact (step_iff fromStr toLowercase conversationPath task' _).mp hstep x
  · intro h past event future task' hevents hpast
    refine (step_iff fromStr toLowercase conversationPath task' event).mpr fun x => ?_
    exact h past event.1 event.2 future task' x hevents hpast

end

end WorkerTask

/-! ## A reply of two stray braces -/

/-- Nothing fails, nobody else uses the memory, and every turn ends with this reply. -/
def replying (response : String) : Surroundings where
  decodeError := fun _ => ""
  toText := fun _ => ""
  memory := none
  start := .ok ()
  turn request := .ok ⟨request.requestId, none, none, .completed, some response, none, false, []⟩
  repeated request :=
    .ok ⟨request.requestId, none, none, .completed, some response, none, false, []⟩
  beforeEvents := id
  beforeKeys := id
  beforeApply := id
  shuffles := .none
  faults := .none
  now := 0

def listening : WorkerTask :=
  ⟨⟨true, ∅, ∅⟩, some ⟨{MemoryState.default with enabled := true}, noMemoryFiles⟩⟩

def sleepTrigger : RoutedMessage :=
  ⟨chatRoomsKey, codexKey, memoryTriggerKind, MemoryTrigger.codec.encode
    ⟨1, .sleep, 0, [⟨1, 1, "Plans", "user", "Ann", "I like tea", 0, []⟩]⟩⟩

/-- What the JSON library answers to a text that begins with a closing brace. -/
def noValue : String → Except String ExtractedMemory :=
  fun _ => .error "expected value at line 1 column 1"

/-- A closing brace, a space and an opening brace. -/
def strayBraces : String := "\x7d \x7b"

theorem stray_braces_panic : (¬∃ result, parseExtraction noValue strayBraces = some result) ∧
    ¬∃ task', Run (WorkerTask.Step noValue id none) listening
      [(replying strayBraces, sleepTrigger)] task' := by
  have hparse : parseExtraction noValue strayBraces = none :=
    Option.isNone_iff_eq_none.mp (by decide)
  have hreceive : listening.receive noValue id none (replying strayBraces) sleepTrigger = none :=
    Option.isNone_iff_eq_none.mp (by decide +kernel)
  constructor
  · rintro ⟨result, h⟩
    cases hparse.symm.trans h
  · rintro ⟨task', h⟩
    cases h with
    | cons hstep _ => cases hreceive.symm.trans hstep

end NormaHarness.CodexWorker
