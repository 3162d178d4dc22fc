import NormaHarness.IncognitoContainment
import NormaHarness.MemoryExtraction
import NormaHarness.MemorySources
import NormaHarness.ProviderThreads
import NormaHarness.ServerHistory

/-!
# From the rooms to the memory

The rooms and the memory of one process meet in the triggers. A room that falls asleep
owes each of its members one, a start owes them for every room it has restored, and a
member that has compacted its conversation is sent one at once. The members' workers read
the events that the memory has not seen, ask a model, and apply what it extracts. A
process may end at any point, in the middle of a save of the rooms, of the memory, or of
both.
-/
namespace NormaHarness.Memory
open Std Identifiers Contracts JsonValues LlmProtocol FilePrograms ReplacedFiles Executions
  StoredContents
open Chat (Server ServerEvent ServerStep ServerRun World ChatOp ChatStep ChatRoom RoomRecord
  RoomStore SnapshotFaults EmittedTrigger noFiles emitMemoryTrigger afterSleep sleepLoop
  retrySleepMemory afterCompaction contextMessage Wrote AllWritten)
open CodexWorker (Environment processMemoryTrigger extractionRequest parseExtraction
  triggerMessage)

/-- A process with its rooms and its memory: the triggers that it owes, those it has handed
to the message flow since its launch, and each worker's mailbox and extraction. -/
structure Remembering where
  server : Server
  memory : Manager
  due : List EmittedTrigger
  offered : List EmittedTrigger
  inbound : ResidentKey → List RoutedMessage
  running : ResidentKey → Option CodexWorker.Extraction

inductive MemoryEvent where
  | op (op : ChatOp)
  | ended (event : ServerEvent)
  | restart (faults : SnapshotFaults)
  | send (accepted : Bool)
  | compacted (id : ℕ) (member : String) (accepted : Bool)
  | other (m : RoutedMessage)
  | handle (k : ResidentKey) (env : Environment) (serverRunning : Bool)
  | apply (k : ResidentKey) (shuffles : Shuffles) (faults : MemoryFaults) (now : ℕ)
  | unread (k : ResidentKey)
  | closed (k : ResidentKey)
  | call (op : MemoryOp)

def sleepTriggers (w : World) : ChatOp → List EmittedTrigger
  | .sleepDue faults limits now => sleepLoop faults limits now w.chat w.disk
  | _ => []

/-- What the worker asks the memory while it reads a trigger. -/
def reading (m : Manager) (env : Environment) : Environment :=
  {env with memory := env.memory.map fun reads => ⟨fun id context => m.unprocessed id context,
    reads.knownKeys⟩}

def isTrigger (m : RoutedMessage) : Prop := m.message.kind = memoryTriggerKind

namespace Remembering

def launched : Remembering :=
  ⟨.down noFiles, ⟨.default, noMemoryFiles⟩, [], [], fun _ => [], fun _ => none⟩

/-- The files are all that is left of a process. -/
def afterEnd (server : Server) (disk : MemoryDisk) : Remembering :=
  ⟨server, ⟨.default, disk⟩, [], [], fun _ => [], fun _ => none⟩

def arrive (s : Remembering) (m : RoutedMessage) : Remembering :=
  {s with inbound := Function.update s.inbound m.target (s.inbound m.target ++ [m])}

/-- A trigger on its way to its target, whose mailbox may refuse it. -/
def offer (s : Remembering) (trigger : EmittedTrigger) (accepted : Bool) : Remembering :=
  let s := {s with offered := trigger :: s.offered}
  if accepted then s.arrive (triggerMessage trigger.1 (MemoryTrigger.codec.encode trigger.2)) else s

/-- The worker is done with its extraction. -/
def release (s : Remembering) (k : ResidentKey) : Remembering :=
  {s with running := Function.update s.running k none}

section

variable (isAlphanumeric : Char → Bool) (fromStr : String → Except String ExtractedMemory)
  (toLowercase : String → String)

/-- The operations of the memory that may be under way. -/
inductive Calls (s : Remembering) : MemoryOp → Prop
  | setEnabled (faults : MemoryFaults) (enabled : Bool) : Calls s (.setEnabled faults enabled)
  | hot (faults : MemoryFaults) (now : ℕ) : Calls s (.hot faults now)
  | apply {k : ResidentKey} {x : CodexWorker.Extraction} {extracted : ExtractedMemory}
      (shuffles : Shuffles) (faults : MemoryFaults) (now : ℕ) : s.running k = some x →
      parseExtraction fromStr x.response = some (.ok extracted) →
      Calls s (.apply shuffles faults now x.roomId x.events extracted)

/-- The files of the memory when its process ends: between two saves, or within one. -/
inductive MemoryStops (s : Remembering) : MemoryDisk → Prop
  | between : MemoryStops s s.memory.disk
  | within {op : MemoryOp} {faults : MemoryFaults} {next : MemoryState} (calls : ℕ)
      (pending : Option (Content Json)) : s.Calls fromStr op →
      Proposes toLowercase s.memory.state op faults next →
      MemoryStops s (Function.update (cut faults.calls calls
        (replace memoryFiles (MemoryState.codec.encode next)) s.memory.disk) .pending pending)

inductive Step (s : Remembering) : MemoryEvent → Remembering → Prop
  | op {w w' : World} {op : ChatOp} : s.server = .running w → ChatStep isAlphanumeric w op w' →
      Step s (.op op) {s with server := .running w', due := s.due ++ sleepTriggers w op}
  | ended {w : World} {event : ServerEvent} {rooms : Chat.SnapshotDisk} {disk : MemoryDisk} :
      s.server = .running w → ServerStep isAlphanumeric (.running w) event (.down rooms) →
      s.MemoryStops fromStr toLowercase disk → Step s (.ended event) (afterEnd (.down rooms) disk)
  | failed {event : ServerEvent} {disk disk' : Chat.SnapshotDisk} : s.server = .down disk →
      ServerStep isAlphanumeric (.down disk) event (.down disk') →
      Step s (.ended event) {s with server := .down disk'}
  | restart {disk : Chat.SnapshotDisk} {w : World} {faults : SnapshotFaults}
      {state : MemoryState} : s.server = .down disk → openState s.memory.disk = .ok state →
      ServerStep isAlphanumeric (.down disk) (.restart faults) (.running w) →
      Step s (.restart faults) {afterEnd (.running w) s.memory.disk with
        memory := ⟨state, s.memory.disk⟩
        due := retrySleepMemory w.chat.rooms}
  | send {trigger : EmittedTrigger} {rest : List EmittedTrigger} (accepted : Bool) :
      s.due = trigger :: rest →
      Step s (.send accepted) ({s with due := rest}.offer trigger accepted)
  | compacted {w : World} {id : ℕ} {room : ChatRoom} {member : String}
      {trigger : EmittedTrigger} (accepted : Bool) : s.server = .running w →
      w.chat.rooms.get id = some room → member ∈ room.members →
      afterCompaction w.chat.rooms id member = some trigger →
      Step s (.compacted id member accepted) (s.offer trigger accepted)
  | other {w : World} {m : RoutedMessage} : s.server = .running w →
      ¬(m.source = chatRoomsKey ∧ isTrigger m) → Step s (.other m) (s.arrive m)
  | handle {k : ResidentKey} {m : RoutedMessage} {rest : List RoutedMessage} {env : Environment}
      {serverRunning : Bool} : s.inbound k = m :: rest → s.running k = none → isTrigger m →
      Step s (.handle k env serverRunning) {s with
        inbound := Function.update s.inbound k rest
        running := Function.update s.running k
          (processMemoryTrigger (reading s.memory env) m serverRunning).extraction}
  | pass {k : ResidentKey} {m : RoutedMessage} {rest : List RoutedMessage} {env : Environment}
      {serverRunning : Bool} : s.inbound k = m :: rest → s.running k = none → ¬isTrigger m →
      Step s (.handle k env serverRunning) {s with inbound := Function.update s.inbound k rest}
  | apply {k : ResidentKey} {x : CodexWorker.Extraction} {extracted : ExtractedMemory}
      {shuffles : Shuffles} {faults : MemoryFaults} {now : ℕ} : s.running k = some x →
      parseExtraction fromStr x.response = some (.ok extracted) →
      Step s (.apply k shuffles faults now) {s.release k with
        memory := (s.memory.apply toLowercase shuffles faults now x.roomId x.events extracted).2}
  | unread {k : ResidentKey} {x : CodexWorker.Extraction} : s.running k = some x →
      (∀ extracted, parseExtraction fromStr x.response ≠ some (.ok extracted)) →
      Step s (.unread k) (s.release k)
  | closed (k : ResidentKey) :
      Step s (.closed k) {s.release k with inbound := Function.update s.inbound k []}
  | call {w : World} {op : MemoryOp} : s.server = .running w → op.appliedAt = none →
      Step s (.call op) {s with memory := (op.run toLowercase s.memory).2}

end

end Remembering

/-- What an event is for the rooms. -/
def MemoryEvent.server : MemoryEvent → Option ServerEvent
  | .op chatOp => some (.op chatOp)
  | .ended event => some event
  | .restart faults => some (.restart faults)
  | _ => none

abbrev RememberRun (isAlphanumeric : Char → Bool)
    (fromStr : String → Except String ExtractedMemory) (toLowercase : String → String) :=
  Run (Remembering.Step isAlphanumeric fromStr toLowercase)

/-- The event of an extraction is a message that somebody wrote into an ordinary room with
this member. -/
def SaidTo (isAlphanumeric : Char → Bool) (events : List ServerEvent) (k : ResidentKey)
    (e : LlmContextMessage) : Prop :=
  ∃ room m, Wrote isAlphanumeric events room m ∧ room.incognito = false ∧
    k.asStr ∈ room.members ∧ e.id = m.id ∧ e.roomId = room.id ∧ e.roomName = room.name ∧
    e.role = m.role ∧ e.author = m.author ∧ e.text = m.text ∧ e.createdAtMs = m.createdAt

/-- The event stands in a trigger that another Resident has sent to this one. -/
def Forged (events : List MemoryEvent) (k : ResidentKey) (e : LlmContextMessage) : Prop :=
  ∃ m trigger, .other m ∈ events ∧ m.target = k ∧ m.source ≠ chatRoomsKey ∧ isTrigger m ∧
    MemoryTrigger.codec.decode m.message.payload = some trigger ∧ e ∈ trigger.context

/-- Where the events that a worker reads come from. -/
def Origin (isAlphanumeric : Char → Bool) (events : List MemoryEvent) (k : ResidentKey)
    (e : LlmContextMessage) : Prop :=
  SaidTo isAlphanumeric (events.filterMap MemoryEvent.server) k e ∨ Forged events k e

/-- The source of a fact is a user message with such an origin. -/
def Backed (isAlphanumeric : Char → Bool) (events : List MemoryEvent) (id : ℕ) : Prop :=
  ∃ k e, e.id = id ∧ e.role = "user" ∧ Origin isAlphanumeric events k e

section

variable {isAlphanumeric : Char → Bool} {fromStr : String → Except String ExtractedMemory}
  {toLowercase : String → String} {past events : List MemoryEvent} {event : MemoryEvent}
  {s t : Remembering}

/-- The rooms of a run are those of a server that crashes and restarts. -/
theorem RememberRun.server_run {u : Remembering}
    (hrun : RememberRun isAlphanumeric fromStr toLowercase u events s) :
    ServerRun isAlphanumeric u.server (events.filterMap MemoryEvent.server) s.server := by
  refine hrun.filterMap (f := Remembering.server) fun s event t hstep => ?_
  cases hstep with
  | op hserver hchat => exact .inr ⟨_, rfl, hserver ▸ .op hchat⟩
  | ended hserver hstep _ => exact .inr ⟨_, rfl, hserver ▸ hstep⟩
  | failed hserver hstep => exact .inr ⟨_, rfl, hserver ▸ hstep⟩
  | restart hserver _ hstep => exact .inr ⟨_, rfl, hserver ▸ hstep⟩
  | send accepted _ => cases accepted <;> exact .inl ⟨rfl, rfl⟩
  | compacted accepted _ _ _ _ => cases accepted <;> exact .inl ⟨rfl, rfl⟩
  | other _ _ => exact .inl ⟨rfl, rfl⟩
  | handle _ _ _ => exact .inl ⟨rfl, rfl⟩
  | pass _ _ _ => exact .inl ⟨rfl, rfl⟩
  | apply _ _ => exact .inl ⟨rfl, rfl⟩
  | unread _ _ => exact .inl ⟨rfl, rfl⟩
  | closed _ => exact .inl ⟨rfl, rfl⟩
  | call _ _ => exact .inl ⟨rfl, rfl⟩

/-! ## Origins -/

theorem SaidTo.append {events : List ServerEvent} {k : ResidentKey} {e : LlmContextMessage}
    (h : SaidTo isAlphanumeric events k e) (later : List ServerEvent) :
    SaidTo isAlphanumeric (events ++ later) k e := by
  obtain ⟨room, m, hwrote, hrest⟩ := h
  exact ⟨room, m, hwrote.append later, hrest⟩

theorem Origin.append {k : ResidentKey} {e : LlmContextMessage}
    (h : Origin isAlphanumeric past k e) (later : List MemoryEvent) :
    Origin isAlphanumeric (past ++ later) k e := by
  rcases h with hsaid | ⟨m, trigger, hmem, hrest⟩
  · refine .inl ?_
    rw [List.filterMap_append]
    exact hsaid.append _
  · exact .inr ⟨m, trigger, List.mem_append_left later hmem, hrest⟩

theorem Backed.append {id : ℕ} (h : Backed isAlphanumeric past id) (later : List MemoryEvent) :
    Backed isAlphanumeric (past ++ later) id := by
  obtain ⟨k, e, hid, hrole, horigin⟩ := h
  exact ⟨k, e, hid, hrole, horigin.append later⟩

theorem asStr_of_new {kind value : String} {a : Identifier kind}
    (h : Identifier.new kind value = .ok a) : a.asStr = value := by
  unfold Identifier.new at h
  split at h
  · cases h
  · next out hvalid =>
    cases h
    exact validate_eq hvalid

/-- A trigger carries what has been said in its room, to a member of the room. -/
theorem emitted_said {events : List ServerEvent} {room : ChatRoom} {member : String}
    {reason : MemoryTriggerReason} {trigger : EmittedTrigger}
    (hwritten : ∀ m ∈ room.messages, Wrote isAlphanumeric events room.record m)
    (hmember : member ∈ room.members)
    (h : emitMemoryTrigger room member reason = some trigger) :
    ∀ e ∈ trigger.2.context, SaidTo isAlphanumeric events trigger.1 e := by
  have hordinary := (Chat.emitMemoryTrigger_room h).2
  unfold emitMemoryTrigger at h
  split_ifs at h
  split at h
  · cases h
  · next target htarget =>
    cases h
    intro e he
    obtain ⟨m, hm, rfl⟩ := List.mem_map.mp he
    refine ⟨room.record, m, hwritten m hm, hordinary, ?_, rfl, rfl, rfl, rfl, rfl, rfl, rfl⟩
    rw [asStr_of_new htarget]
    exact hmember

/-- What a store has to say is what has been written into it. -/
theorem store_said {events : List ServerEvent} {rooms : RoomStore}
    (hwritten : AllWritten isAlphanumeric events rooms) {room : ChatRoom}
    (hroom : room ∈ rooms.values) {member : String} {reason : MemoryTriggerReason}
    {trigger : EmittedTrigger} (hmember : member ∈ room.members)
    (h : emitMemoryTrigger room member reason = some trigger) :
    ∀ e ∈ trigger.2.context, SaidTo isAlphanumeric events trigger.1 e :=
  emitted_said (hwritten room.id room.record
    (Chat.record_of_get (RoomStore.mem_values.mp hroom))) hmember h

theorem sleepTriggers_said {events : List ServerEvent} {w : World}
    (hwritten : AllWritten isAlphanumeric events w.chat.rooms) (op : ChatOp) :
    ∀ trigger ∈ sleepTriggers w op, ∀ e ∈ trigger.2.context,
      SaidTo isAlphanumeric events trigger.1 e := by
  intro trigger htrigger
  cases op with
  | sleepDue faults limits now =>
      simp only [sleepTriggers, Chat.sleepLoop_eq] at htrigger
      obtain ⟨room, hroom, htrigger⟩ := List.mem_flatMap.mp htrigger
      split_ifs at htrigger
      · obtain ⟨member, hmember, hemit⟩ := List.mem_filterMap.mp htrigger
        have hasleep : ∀ m ∈ (Chat.asleep room).messages,
            Wrote isAlphanumeric events (Chat.asleep room).record m :=
          hwritten room.id room.record (Chat.record_of_get (RoomStore.mem_values.mp hroom))
        exact emitted_said hasleep hmember hemit
      · cases htrigger
  | _ => cases htrigger

theorem retried_said {events : List ServerEvent} {rooms : RoomStore}
    (hwritten : AllWritten isAlphanumeric events rooms) :
    ∀ trigger ∈ retrySleepMemory rooms, ∀ e ∈ trigger.2.context,
      SaidTo isAlphanumeric events trigger.1 e := by
  intro trigger htrigger
  obtain ⟨room, hroom, htrigger⟩ := List.mem_flatMap.mp htrigger
  obtain ⟨member, hmember, hemit⟩ := List.mem_filterMap.mp htrigger
  exact store_said hwritten (List.mem_of_mem_filter hroom) hmember hemit

/-- The worker reads nothing but events of its trigger that the memory has not seen, and
shows the model nothing else. -/
structure ReadsOnly (m : Manager) (env : Environment) (payload : Json)
    (out : CodexWorker.Extracted) : Prop where
  extraction : ∀ x, out.extraction = some x → ∃ trigger,
    MemoryTrigger.codec.decode payload = some trigger ∧ x.roomId = trigger.roomId ∧
      x.events = m.unprocessed trigger.roomId trigger.context
  executed : ∀ request ∈ out.executed, ∃ trigger known,
    MemoryTrigger.codec.decode payload = some trigger ∧
      request = extractionRequest env.toText known trigger.roomId
        (m.unprocessed trigger.roomId trigger.context)

theorem ReadsOnly.idle (m : Manager) (env : Environment) (payload : Json)
    (serverRunning : Bool) : ReadsOnly m env payload ⟨serverRunning, [], none⟩ :=
  ⟨fun _ hx => (nomatch hx), fun _ hrequest => (nomatch hrequest)⟩

theorem ReadsOnly.extract {m : Manager} {env : Environment} {payload : Json}
    {trigger : MemoryTrigger} (hdecode : MemoryTrigger.codec.decode payload = some trigger)
    (env' : Environment) (known : List String) :
    ReadsOnly m env payload (CodexWorker.extract env' trigger.roomId
      (m.unprocessed trigger.roomId trigger.context)
      (extractionRequest env.toText known trigger.roomId
        (m.unprocessed trigger.roomId trigger.context))) := by
  have hrequest : ∀ request ∈ [extractionRequest env.toText known trigger.roomId
      (m.unprocessed trigger.roomId trigger.context)], ∃ trigger known,
      MemoryTrigger.codec.decode payload = some trigger ∧
        request = extractionRequest env.toText known trigger.roomId
          (m.unprocessed trigger.roomId trigger.context) := fun request hrequest =>
    ⟨trigger, known, hdecode, List.mem_singleton.mp hrequest⟩
  unfold CodexWorker.extract
  split
  · exact ⟨fun _ hx => (nomatch hx), hrequest⟩
  · split_ifs
    · refine ⟨fun x hx => ?_, hrequest⟩
      obtain ⟨response, -, rfl⟩ := Option.map_eq_some_iff.mp hx
      exact ⟨trigger, hdecode, rfl, rfl⟩
    · exact ⟨fun _ hx => (nomatch hx), hrequest⟩

theorem processMemoryTrigger_reads (m : Manager) (env : Environment) (message : RoutedMessage)
    (serverRunning : Bool) : ReadsOnly m env message.message.payload
      (processMemoryTrigger (reading m env) message serverRunning) := by
  unfold processMemoryTrigger
  cases hmemory : (reading m env).memory with
  | none => exact .idle m env _ serverRunning
  | some memory =>
      obtain ⟨reads, -, rfl⟩ := Option.map_eq_some_iff.mp hmemory
      cases hdecode : MemoryTrigger.codec.decode message.message.payload with
      | none => exact .idle m env _ serverRunning
      | some trigger =>
          simp only
          split_ifs
          · exact .idle m env _ serverRunning
          · exact .extract hdecode _ _
          · split
            · exact .idle m env _ false
            · exact .extract hdecode _ _

theorem unprocessed_subset {m : Manager} {roomId : ℕ} {context : List LlmContextMessage}
    {e : LlmContextMessage} (h : e ∈ m.unprocessed roomId context) : e ∈ context := by
  unfold Manager.unprocessed at h
  split_ifs at h
  · exact List.mem_of_mem_filter h
  · cases h

/-! ## The invariant -/

variable (isAlphanumeric) in
structure Grounded (events : List MemoryEvent) (s : Remembering) : Prop where
  due : ∀ trigger ∈ s.due, ∀ e ∈ trigger.2.context, Origin isAlphanumeric events trigger.1 e
  inbound : ∀ k, ∀ m ∈ s.inbound k, isTrigger m → ∀ trigger,
    MemoryTrigger.codec.decode m.message.payload = some trigger →
      ∀ e ∈ trigger.context, Origin isAlphanumeric events k e
  running : ∀ k x, s.running k = some x → ∀ e ∈ x.events, Origin isAlphanumeric events k e
  facts : AllSources (Backed isAlphanumeric events) s.memory.state.facts
  disk : HoldsSources (Backed isAlphanumeric events) s.memory.disk

namespace Grounded

theorem append (h : Grounded isAlphanumeric past s) (later : List MemoryEvent) :
    Grounded isAlphanumeric (past ++ later) s where
  due trigger htrigger e he := (h.due trigger htrigger e he).append later
  inbound k m hm hkind trigger hdecode e he :=
    (h.inbound k m hm hkind trigger hdecode e he).append later
  running k x hx e he := (h.running k x hx e he).append later
  facts := h.facts.mono fun _ hid => hid.append later
  disk := h.disk.mono fun _ hid => hid.append later

/-- Nothing is on its way in a process that has just begun or ended. -/
theorem fresh {server : Server} {m : Manager} {due : List EmittedTrigger}
    (hdue : ∀ trigger ∈ due, ∀ e ∈ trigger.2.context, Origin isAlphanumeric past trigger.1 e)
    (hfacts : AllSources (Backed isAlphanumeric past) m.state.facts)
    (hdisk : HoldsSources (Backed isAlphanumeric past) m.disk) :
    Grounded isAlphanumeric past ⟨server, m, due, [], fun _ => [], fun _ => none⟩ :=
  ⟨hdue, fun _ _ hm => (nomatch hm), fun _ _ hx => (nomatch hx), hfacts, hdisk⟩

theorem arrive (h : Grounded isAlphanumeric past s) {m : RoutedMessage}
    (hm : isTrigger m → ∀ trigger, MemoryTrigger.codec.decode m.message.payload = some trigger →
      ∀ e ∈ trigger.context, Origin isAlphanumeric past m.target e) :
    Grounded isAlphanumeric past (s.arrive m) := by
  refine ⟨h.due, fun k found hfound => ?_, h.running, h.facts, h.disk⟩
  by_cases hk : k = m.target
  · subst hk
    simp only [Remembering.arrive, Function.update_self] at hfound
    rcases List.mem_append.mp hfound with hold | hnew
    · exact h.inbound _ found hold
    · obtain rfl := List.mem_singleton.mp hnew
      exact hm
  · simp only [Remembering.arrive, Function.update_of_ne hk] at hfound
    exact h.inbound k found hfound

theorem offer (h : Grounded isAlphanumeric past s) {trigger : EmittedTrigger}
    (htrigger : ∀ e ∈ trigger.2.context, Origin isAlphanumeric past trigger.1 e)
    (accepted : Bool) : Grounded isAlphanumeric past (s.offer trigger accepted) := by
  have hoffered : Grounded isAlphanumeric past {s with offered := trigger :: s.offered} :=
    ⟨h.due, h.inbound, h.running, h.facts, h.disk⟩
  cases accepted with
  | false => exact hoffered
  | true =>
      refine hoffered.arrive fun _ decoded hdecode e he => ?_
      simp only [triggerMessage, MemoryTrigger.codec.decode_encode, Option.some.injEq] at hdecode
      exact htrigger e (hdecode ▸ he)

/-- A mailbox that has lost some of its messages. -/
theorem drop (h : Grounded isAlphanumeric past s) {k : ResidentKey} {rest : List RoutedMessage}
    (hrest : ∀ m ∈ rest, m ∈ s.inbound k) :
    Grounded isAlphanumeric past {s with inbound := Function.update s.inbound k rest} := by
  refine ⟨h.due, fun k' m hm => ?_, h.running, h.facts, h.disk⟩
  by_cases hk : k' = k
  · subst hk
    simp only [Function.update_self] at hm
    exact h.inbound k' m (hrest m hm)
  · simp only [Function.update_of_ne hk] at hm
    exact h.inbound k' m hm

theorem extracting (h : Grounded isAlphanumeric past s) {k : ResidentKey}
    {extraction : Option CodexWorker.Extraction}
    (hevents : ∀ x, extraction = some x → ∀ e ∈ x.events, Origin isAlphanumeric past k e) :
    Grounded isAlphanumeric past {s with running := Function.update s.running k extraction} := by
  refine ⟨h.due, h.inbound, fun k' x hx => ?_, h.facts, h.disk⟩
  by_cases hk : k' = k
  · subst hk
    simp only [Function.update_self] at hx
    exact hevents x hx
  · simp only [Function.update_of_ne hk] at hx
    exact h.running k' x hx

theorem release (h : Grounded isAlphanumeric past s) (k : ResidentKey) :
    Grounded isAlphanumeric past (s.release k) :=
  h.extracting fun _ hx => (nomatch hx)

/-- What an operation hands to the facts has an origin. -/
theorem offers (h : Grounded isAlphanumeric past s) {op : MemoryOp}
    (hop : s.Calls fromStr op) : ∀ e ∈ op.offers, Backed isAlphanumeric past e.id := by
  intro e he
  cases hop with
  | setEnabled faults enabled => cases he
  | hot faults now => cases he
  | @apply k x extracted shuffles faults now hrunning _ =>
      obtain ⟨he, hrole⟩ := List.mem_filter.mp he
      exact ⟨k, e, rfl, by simpa using hrole, h.running k x hrunning e he⟩

theorem call (h : Grounded isAlphanumeric past s) {op : MemoryOp} (hop : s.Calls fromStr op) :
    Grounded isAlphanumeric past {s with memory := (op.run toLowercase s.memory).2} := by
  have hstep : MemoryStep toLowercase s.memory op (op.run toLowercase s.memory).2 := rfl
  obtain ⟨hfacts, hdisk⟩ := step_sources h.facts h.disk (h.offers hop) hstep
  exact ⟨h.due, h.inbound, h.running, hfacts, hdisk⟩

theorem stops (h : Grounded isAlphanumeric past s) {disk : MemoryDisk}
    (hstops : s.MemoryStops fromStr toLowercase disk) :
    HoldsSources (Backed isAlphanumeric past) disk := by
  cases hstops with
  | between => exact h.disk
  | within calls pending hcalls hproposes =>
      exact stopped_sources h.facts h.disk (h.offers hcalls) hproposes calls pending

theorem step (h : Grounded isAlphanumeric past s)
    (hrun : RememberRun isAlphanumeric fromStr toLowercase .launched past s)
    (hstep : Remembering.Step isAlphanumeric fromStr toLowercase s event t) :
    Grounded isAlphanumeric (past ++ [event]) t := by
  have hlater := h.append [event]
  have hnext := RememberRun.server_run (hrun.snoc hstep)
  have hwritten : ∀ w, s.server = .running w → AllWritten isAlphanumeric
      ((past ++ [event]).filterMap MemoryEvent.server) w.chat.rooms := by
    intro w hserver
    have hremembers := Chat.run_remembers hrun.server_run
    rw [hserver] at hremembers
    rw [List.filterMap_append]
    exact hremembers.2.1.append _
  cases hstep with
  | @op w w' op hserver hchat =>
      refine ⟨fun trigger htrigger e he => ?_, hlater.inbound, hlater.running, hlater.facts,
        hlater.disk⟩
      rcases List.mem_append.mp htrigger with hold | hnew
      · exact hlater.due trigger hold e he
      · exact .inl (sleepTriggers_said (hwritten w hserver) op trigger hnew e he)
  | ended hserver hstep hstops =>
      exact .fresh (fun _ htrigger => (nomatch htrigger)) (fun _ hf => (nomatch hf))
        (hlater.stops hstops)
  | failed hserver hstep =>
      exact ⟨hlater.due, hlater.inbound, hlater.running, hlater.facts, hlater.disk⟩
  | restart hserver hopen hboot =>
      refine .fresh (fun trigger htrigger e he => .inl ?_) (hlater.disk.opened hopen) hlater.disk
      exact retried_said (Chat.run_remembers hnext).2.1 trigger htrigger e he
  | @send trigger rest accepted hdue =>
      have hrest : Grounded isAlphanumeric (past ++ [.send accepted]) {s with due := rest} :=
        ⟨fun trigger' htrigger => hlater.due trigger' (hdue ▸ List.mem_cons_of_mem _ htrigger),
          hlater.inbound, hlater.running, hlater.facts, hlater.disk⟩
      exact hrest.offer (hlater.due trigger (hdue ▸ List.mem_cons_self)) accepted
  | @compacted w id room member trigger accepted hserver hroom hmember hemit =>
      refine hlater.offer (fun e he => .inl ?_) accepted
      obtain ⟨found, hfound, hemit⟩ := Option.bind_eq_some_iff.mp hemit
      obtain rfl := Option.some.inj (hroom.symm.trans hfound)
      exact emitted_said (hwritten w hserver id room.record (Chat.record_of_get hroom)) hmember
        hemit e he
  | @other w m hserver hforeign =>
      refine hlater.arrive fun hkind trigger hdecode e he => .inr ?_
      have hsource : m.source ≠ chatRoomsKey := fun hsource => hforeign ⟨hsource, hkind⟩
      exact ⟨m, trigger, by simp, rfl, hsource, hkind, hdecode, he⟩
  | @handle k m rest env serverRunning hinbound hidle hkind =>
      have hm : m ∈ s.inbound k := hinbound ▸ List.mem_cons_self
      have hrest : ∀ m' ∈ rest, m' ∈ s.inbound k := fun m' hm' =>
        hinbound ▸ List.mem_cons_of_mem m hm'
      refine (hlater.drop hrest).extracting fun x hx e he => ?_
      obtain ⟨trigger, hdecode, -, hevents⟩ :=
        (processMemoryTrigger_reads s.memory env m serverRunning).extraction x hx
      rw [hevents] at he
      exact hlater.inbound k m hm hkind trigger hdecode e (unprocessed_subset he)
  | @pass k m rest env serverRunning hinbound hidle hkind =>
      exact hlater.drop fun m' hm' => hinbound ▸ List.mem_cons_of_mem m hm'
  | apply hrunning hparse =>
      exact (hlater.call (.apply _ _ _ hrunning hparse)).release _
  | unread hrunning hparse => exact hlater.release _
  | closed k => exact (hlater.release k).drop fun _ hm => (nomatch hm)
  | @call w op hserver hop =>
      have hcalls : s.Calls fromStr op := by
        cases op with
        | setEnabled faults enabled => exact .setEnabled faults enabled
        | hot faults now => exact .hot faults now
        | apply shuffles faults now roomId events extracted => cases hop
      exact hlater.call hcalls

end Grounded

theorem run_grounded (hrun : RememberRun isAlphanumeric fromStr toLowercase .launched events s) :
    Grounded isAlphanumeric events s := by
  have hboth : RememberRun isAlphanumeric fromStr toLowercase .launched events s ∧
      Grounded isAlphanumeric events s := by
    refine hrun.recorded (P := fun past s =>
      RememberRun isAlphanumeric fromStr toLowercase .launched past s ∧
        Grounded isAlphanumeric past s) (fun past s event t hs hstep => ?_) ⟨.nil _, ?_⟩
    · exact ⟨hs.1.snoc hstep, hs.2.step hs.1 hstep⟩
    · refine .fresh (fun _ htrigger => (nomatch htrigger)) (fun _ hf => (nomatch hf)) ?_
      intro file _ content hcontent
      cases hcontent
  exact hboth.2

/-- Over every history of rooms, sleeps, workers, memory switches, crashes and restarts: a
source of a fact, in memory and in what a start would open, is a user message that was
written into an ordinary room, and the Resident that read it was a member of that room; and
no model is shown anything else. Only another Resident that sends a trigger of its own can
change that. -/
theorem memory_grounded
    (hrun : RememberRun isAlphanumeric fromStr toLowercase .launched events s) :
    AllSources (Backed isAlphanumeric events) s.memory.state.facts ∧
      (∀ state, openState s.memory.disk = .ok state →
        AllSources (Backed isAlphanumeric events) state.facts) ∧
      ∀ k m rest env serverRunning, s.inbound k = m :: rest → isTrigger m →
        ∀ request ∈ (processMemoryTrigger (reading s.memory env) m serverRunning).executed,
          ∃ known roomId shown, request = extractionRequest env.toText known roomId shown ∧
            ∀ e ∈ shown, Origin isAlphanumeric events k e := by
  have hgrounded := run_grounded hrun
  refine ⟨hgrounded.facts, fun state hopen => hgrounded.disk.opened hopen, ?_⟩
  intro k m rest env serverRunning hinbound hkind request hrequest
  obtain ⟨trigger, known, hdecode, rfl⟩ :=
    (processMemoryTrigger_reads s.memory env m serverRunning).executed request hrequest
  refine ⟨known, trigger.roomId, _, rfl, fun e he => ?_⟩
  exact hgrounded.inbound k m (hinbound ▸ List.mem_cons_self) hkind trigger hdecode e
    (unprocessed_subset he)

end

/-! ## One fact -/

/-- The reply of a model that has read the greeting. -/
def greetingReply : String :=
  "\x7b\"facts\":[\x7b\"key\":\"greeting\",\"text\":\"Says hello\",\"evidence_ids\":[1]\x7d]\x7d"

def greeting (response : String) : Except String ExtractedMemory :=
  if response = greetingReply then .ok ⟨[⟨"greeting", "Says hello", [1]⟩]⟩
  else .error "expected value"

theorem parseExtraction_greeting : parseExtraction greeting greetingReply =
    some (.ok ⟨[⟨"greeting", "Says hello", [1]⟩]⟩) := by
  unfold parseExtraction greeting
  rw [if_pos rfl]

def extracting : Environment :=
  {(CodexWorker.replying greetingReply).toEnvironment with
    memory := some ⟨fun _ _ => [], []⟩}

def greetingEvents : List MemoryEvent :=
  [.restart Chat.noFaults, .op (.ensureSoloRoom Chat.noFaults codexKey "Plans" 0),
    .call (.setEnabled .none true), .op Chat.helloSend, .op (Chat.helloAnswer Chat.noFaults),
    .op (.finish Chat.noFaults 3 Chat.helloRound), .op (.sleepDue Chat.noFaults ⟨0, 0, 0⟩ 4),
    .send true, .handle codexKey extracting true, .apply codexKey .none .none 5]

theorem memory_grounded_greeting : ∃ s f,
    RememberRun Char.isAlphanum greeting id .launched greetingEvents s ∧
      f ∈ s.memory.state.facts ∧ f.sourceMessageIds = [1] ∧
      Backed Char.isAlphanum greetingEvents 1 := by
  have hfinish : (ChatOp.finish Chat.noFaults 3 Chat.helloRound).Enabled Chat.answeredWorld :=
    (by decide : _ ∈ Chat.answeredWorld.rounds)
  have hanswered : RememberRun Char.isAlphanum greeting id .launched (greetingEvents.take 5) _ :=
    .cons (.restart rfl rfl (.started rfl rfl)) (.cons (.op rfl ⟨trivial, rfl⟩)
      (.cons (.call rfl rfl) (.cons (.op rfl ⟨trivial, rfl⟩)
        (.single (.op rfl (Chat.helloAnswer_step _))))))
  have hrun : RememberRun Char.isAlphanum greeting id .launched greetingEvents _ :=
    hanswered.append (.cons (.op rfl ⟨hfinish, rfl⟩) (.cons (.op rfl ⟨trivial, rfl⟩)
      (.cons (.send true rfl) (.cons (.handle rfl rfl rfl)
        (.single (.apply rfl parseExtraction_greeting))))))
  obtain ⟨hfacts, -⟩ := memory_grounded hrun
  exact ⟨_, _, hrun, List.mem_cons_self, rfl, hfacts _ List.mem_cons_self 1 (by decide)⟩

end NormaHarness.Memory
