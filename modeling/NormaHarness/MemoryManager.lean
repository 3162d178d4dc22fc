import NormaHarness.LlmProtocol
import NormaHarness.ReplacedFiles

/-!
# Long-term memory

One state behind one mutex: the facts, and for each room the last message that has
been looked at. An operation changes a copy of the state, saves the copy and only then
takes it over. It reads the clock once. Two things come from outside: Unicode lower
case, and the order in which a hash set hands out its members.
-/
namespace NormaHarness.Memory
open Std JsonValues LlmProtocol FilePrograms ReplacedFiles

def frequentWindowMs : ℕ := 48 * 60 * 60 * 1000
def cacheDwellMs : ℕ := 24 * 60 * 60 * 1000
def hotIdleMs : ℕ := 7 * 24 * 60 * 60 * 1000
def hotCapacity : ℕ := 32

structure MemoryFact where
  key : String
  text : String
  sourceMessageIds : List ℕ
  firstSeenMs : ℕ
  lastSeenMs : ℕ
  recentMentionsMs : List ℕ
  cacheSinceMs : Option ℕ
  hotSinceMs : Option ℕ
  deriving DecidableEq, Repr

structure MemoryState where
  enabled : Bool
  facts : List MemoryFact
  cursors : ExtTreeMap ℕ ℕ
  revision : ℕ

def MemoryState.default : MemoryState := ⟨false, [], ∅, 0⟩

structure MemoryStatus where
  enabled : Bool
  stored : ℕ
  cached : ℕ
  hot : ℕ
  deriving DecidableEq, Repr

structure ExtractedFact where
  key : String
  text : String
  evidenceIds : List ℕ
  deriving DecidableEq, Repr

structure ExtractedMemory where
  facts : List ExtractedFact
  deriving DecidableEq, Repr

/-! ## The file -/

def MemoryFact.codec : Codec MemoryFact where
  encode f := .obj [member "key" .string f.key, member "text" .string f.text,
    member "source_message_ids" (.list .u64) f.sourceMessageIds,
    member "first_seen_ms" .u64 f.firstSeenMs, member "last_seen_ms" .u64 f.lastSeenMs,
    member "recent_mentions_ms" (.list .u64) f.recentMentionsMs,
    ("cache_since_ms", encodeNullable .u64 f.cacheSinceMs),
    ("hot_since_ms", encodeNullable .u64 f.hotSinceMs)]
  decode v := do
    let f ← Fields.ofJson 8 v
    let key ← f.required 0 "key" .string
    let text ← f.required 1 "text" .string
    let sourceMessageIds ← f.required 2 "source_message_ids" (.list .u64)
    let firstSeenMs ← f.required 3 "first_seen_ms" .u64
    let lastSeenMs ← f.required 4 "last_seen_ms" .u64
    let recentMentionsMs ← f.required 5 "recent_mentions_ms" (.list .u64)
    let cacheSinceMs ← f.optional 6 "cache_since_ms" .u64
    let hotSinceMs ← f.optional 7 "hot_since_ms" .u64
    pure ⟨key, text, sourceMessageIds, firstSeenMs, lastSeenMs, recentMentionsMs, cacheSinceMs,
      hotSinceMs⟩
  decode_encode f := by
    simp only [Fields.ofJson, Option.bind_eq_bind, Option.bind_some]
    rw [Fields.required_encode (a := f.key) (by simp [Fields.find, member]),
      Fields.required_encode (a := f.text) (by simp [Fields.find, member, List.lookup]),
      Fields.required_encode (a := f.sourceMessageIds)
        (by simp [Fields.find, member, List.lookup]),
      Fields.required_encode (a := f.firstSeenMs) (by simp [Fields.find, member, List.lookup]),
      Fields.required_encode (a := f.lastSeenMs) (by simp [Fields.find, member, List.lookup]),
      Fields.required_encode (a := f.recentMentionsMs)
        (by simp [Fields.find, member, List.lookup]),
      Fields.optional_encodeNullable Codec.u64_nonNull (a := f.cacheSinceMs)
        (by simp [Fields.find, member, List.lookup]),
      Fields.optional_encodeNullable Codec.u64_nonNull (a := f.hotSinceMs)
        (by simp [Fields.find, member, List.lookup])]
    rfl

def MemoryState.codec : Codec MemoryState where
  encode s := .obj [member "enabled" .bool s.enabled,
    member "facts" (.list MemoryFact.codec) s.facts,
    member "cursors" (.natMap .u64) s.cursors, member "revision" .u64 s.revision]
  decode v := do
    let f ← Fields.ofJson 4 v
    let enabled ← f.required 0 "enabled" .bool
    let facts ← f.required 1 "facts" (.list MemoryFact.codec)
    let cursors ← f.required 2 "cursors" (.natMap .u64)
    let revision ← f.required 3 "revision" .u64
    pure ⟨enabled, facts, cursors, revision⟩
  decode_encode s := by
    simp only [Fields.ofJson, Option.bind_eq_bind, Option.bind_some]
    rw [Fields.required_encode (a := s.enabled) (by simp [Fields.find, member]),
      Fields.required_encode (a := s.facts) (by simp [Fields.find, member, List.lookup]),
      Fields.required_encode (a := s.cursors) (by simp [Fields.find, member, List.lookup]),
      Fields.required_encode (a := s.revision) (by simp [Fields.find, member, List.lookup])]
    rfl

/-- The three files of one memory path, told apart by their extensions. -/
inductive MemoryFile where
  | main
  | backup
  | pending
  deriving DecidableEq, Repr

def memoryFiles : Names MemoryFile :=
  ⟨.main, .backup, .pending, by decide, by decide, by decide⟩

abbrev MemoryDisk := Disk MemoryFile Json

/-- File calls of a save that fail. Its existence checks are told the truth. -/
structure MemoryFaults where
  calls : Faults MemoryFile
  checks : ∀ (file : MemoryFile) (attempt : ℕ), calls (.look file attempt) = none

def noMemoryFiles : MemoryDisk := fun _ => none
def MemoryFaults.none : MemoryFaults := ⟨fun _ => .none, fun _ _ => rfl⟩

def parsed : Content Json → Option MemoryState
  | .whole v => MemoryState.codec.decode v
  | .torn => none

/-- Reads the backup, which is there. -/
def openBackup (disk : MemoryDisk) : Except MemoryFile MemoryState :=
  match (disk .backup).bind parsed with
  | some state => .ok state
  | none => .error .backup

/-- `MemoryManager::open`, whose own file calls succeed. -/
def openState (disk : MemoryDisk) : Except MemoryFile MemoryState :=
  match disk .main with
  | some content =>
    match parsed content with
    | some state => .ok state
    | none => if (disk .backup).isSome then openBackup disk else .error .main
  | none => if (disk .backup).isSome then openBackup disk else .ok .default

structure Manager where
  state : MemoryState
  disk : MemoryDisk

/-- The copy is saved, and taken over if that succeeded. -/
def Manager.commit (faults : MemoryFaults) (next : MemoryState) (m : Manager) :
    Except String Unit × Manager :=
  match exec faults.calls (replace memoryFiles (MemoryState.codec.encode next)) m.disk with
  | (.ok (), disk) => (.ok (), ⟨next, disk⟩)
  | (.error error, disk) => (.error error, ⟨m.state, disk⟩)

/-! ## Cached and hot facts -/

def statusOf (state : MemoryState) : MemoryStatus where
  enabled := state.enabled
  stored := state.facts.length
  cached := state.facts.countP fun f => f.cacheSinceMs.isSome
  hot := state.facts.countP fun f => f.hotSinceMs.isSome

def recent (now : ℕ) (times : List ℕ) : List ℕ :=
  times.filter fun time => decide (now - time ≤ frequentWindowMs)

def isIdle (now : ℕ) (f : MemoryFact) : Bool :=
  f.hotSinceMs.isSome && decide (hotIdleMs ≤ now - f.lastSeenMs)

/-- Old mentions are dropped, and a hot fact that has not been seen for long is retired. -/
def refreshed (now : ℕ) (f : MemoryFact) : MemoryFact :=
  let f' := {f with recentMentionsMs := recent now f.recentMentionsMs}
  if isIdle now f then {f' with hotSinceMs := none, cacheSinceMs := none} else f'

def isRefreshing (now : ℕ) (f : MemoryFact) : Bool :=
  (recent now f.recentMentionsMs).length != f.recentMentionsMs.length || isIdle now f

def isCandidate (now : ℕ) (f : MemoryFact) : Bool :=
  f.hotSinceMs.isNone && f.cacheSinceMs.any fun since => decide (cacheDwellMs ≤ now - since)

def candidates (now : ℕ) (facts : List MemoryFact) : List ℕ :=
  (facts.zipIdx.filter fun p => isCandidate now p.1).map Prod.snd

/-- Of two hot facts the first one, unless the second was seen earlier or, being seen at
the same time, has fewer sources. -/
def colder (a b : MemoryFact × ℕ) : MemoryFact × ℕ :=
  if b.1.lastSeenMs < a.1.lastSeenMs ∨
      b.1.lastSeenMs = a.1.lastSeenMs ∧
        b.1.sourceMessageIds.length < a.1.sourceMessageIds.length then b
  else a

/-- The index of the first hot fact with the smallest rank. -/
def worstHot (facts : List MemoryFact) : Option ℕ :=
  match facts.zipIdx.filter fun p => p.1.hotSinceMs.isSome with
  | [] => none
  | first :: rest => some (rest.foldl colder first).2

def lastSeenAt (facts : List MemoryFact) (index : ℕ) : ℕ :=
  (facts[index]?.map MemoryFact.lastSeenMs).getD 0

def hotCount (facts : List MemoryFact) : ℕ := facts.countP fun f => f.hotSinceMs.isSome

def heat (now index : ℕ) (facts : List MemoryFact) : List MemoryFact :=
  facts.modify index fun f => {f with hotSinceMs := some now}

def cool (index : ℕ) (facts : List MemoryFact) : List MemoryFact :=
  facts.modify index fun f => {f with hotSinceMs := none}

/-- One candidate of the promotion loop. -/
def promote (now : ℕ) (facts : List MemoryFact) (index : ℕ) : List MemoryFact × Bool :=
  if hotCapacity ≤ hotCount facts then
    match worstHot facts with
    | some worst =>
        if lastSeenAt facts index ≤ lastSeenAt facts worst then (facts, false)
        else (heat now index (cool worst facts), true)
    | none => (heat now index facts, true)
  else (heat now index facts, true)

def promoteAll (now : ℕ) (indices : List ℕ) (start : List MemoryFact × Bool) :
    List MemoryFact × Bool :=
  indices.foldl (fun acc index =>
    let out := promote now acc.1 index
    (out.1, acc.2 || out.2)) start

def rebalance (now : ℕ) (state : MemoryState) : MemoryState × Bool :=
  let facts := state.facts.map (refreshed now)
  let out := promoteAll now (candidates now facts) (facts, state.facts.any (isRefreshing now))
  ({state with
    facts := out.1
    revision := if out.2 then state.revision + 1 else state.revision}, out.2)

/-! ## Evidence -/

/-- The orders in which hash sets hand out their members. -/
structure Shuffles where
  order : ℕ → List ℕ → List ℕ
  perm : ∀ (n : ℕ) (l : List ℕ), (order n l).Perm l

def Shuffles.none : Shuffles := ⟨fun _ l => l, fun _ l => .refl l⟩

/-- A message without a date counts as written now. -/
def datedAt (now : ℕ) (e : LlmContextMessage) : ℕ :=
  if e.createdAtMs = 0 then now else e.createdAtMs

def allowed (cursor : ℕ) (events : List LlmContextMessage) (id : ℕ) : Bool :=
  events.any fun e => decide (cursor < e.id) && e.role == "user" && e.id == id

/-- When the first event with this identity was written. -/
def mentionedAt (now : ℕ) (events : List LlmContextMessage) (id : ℕ) : ℕ :=
  ((events.find? fun e => e.id == id).map (datedAt now)).getD now

def mentionTimes (now : ℕ) (events : List LlmContextMessage) (evidence : List ℕ) : List ℕ :=
  evidence.filterMap fun id => (events.find? fun e => e.id == id).map (datedAt now)

def addSource (now : ℕ) (events : List LlmContextMessage) (f : MemoryFact) (id : ℕ) :
    MemoryFact :=
  if f.sourceMessageIds.contains id then f
  else {f with
    sourceMessageIds := f.sourceMessageIds ++ [id]
    recentMentionsMs := f.recentMentionsMs ++ [mentionedAt now events id]}

/-- An extracted fact that has passed the checks, with its evidence. -/
structure Finding where
  key : String
  text : String
  evidence : List ℕ
  deriving DecidableEq, Repr

def finding (toLowercase : String → String) (order : List ℕ → List ℕ) (accepts : ℕ → Bool)
    (item : ExtractedFact) : Option Finding :=
  let key := toLowercase (Text.trim item.key)
  let text := Text.trim item.text
  if key.isEmpty || 160 < key.utf8ByteSize || text.isEmpty || 500 < text.utf8ByteSize then none
  else
    let evidence := order ((item.evidenceIds.filter accepts).dedup)
    if evidence.isEmpty then none else some ⟨key, text, evidence⟩

def firstSeen (now : ℕ) (times : List ℕ) : ℕ := times.min?.getD now

def lastSeen (now : ℕ) (times : List ℕ) : ℕ := times.max?.getD now

def newFact (now : ℕ) (times : List ℕ) (found : Finding) : MemoryFact :=
  ⟨found.key, found.text, [], firstSeen now times, lastSeen now times, [], none, none⟩

/-- The fact with its new evidence; three recent mentions make it cached. -/
def confirmed (now : ℕ) (events : List LlmContextMessage) (found : Finding) (f : MemoryFact) :
    MemoryFact :=
  let times := mentionTimes now events found.evidence
  let f := {f with
    text := found.text
    firstSeenMs := min f.firstSeenMs (firstSeen now times)
    lastSeenMs := max f.lastSeenMs (lastSeen now times)}
  let f := found.evidence.foldl (addSource now events) f
  let f := {f with recentMentionsMs := recent now f.recentMentionsMs}
  if f.cacheSinceMs.isNone && 3 ≤ f.recentMentionsMs.length then {f with cacheSinceMs := some now}
  else f

def updateFirst (p : MemoryFact → Bool) (update : MemoryFact → MemoryFact) :
    List MemoryFact → List MemoryFact
  | [] => []
  | f :: rest => if p f then update f :: rest else f :: updateFirst p update rest

def record (now : ℕ) (events : List LlmContextMessage) (facts : List MemoryFact)
    (found : Finding) : List MemoryFact :=
  if facts.any fun f => f.key == found.key then
    updateFirst (fun f => f.key == found.key) (confirmed now events found) facts
  else
    facts ++ [confirmed now events found
      (newFact now (mentionTimes now events found.evidence) found)]

def findings (toLowercase : String → String) (shuffles : Shuffles) (accepts : ℕ → Bool)
    (extracted : ExtractedMemory) : List Finding :=
  extracted.facts.zipIdx.filterMap fun p =>
    finding toLowercase (shuffles.order p.2) accepts p.1

/-! ## The operations -/

namespace Manager

def setEnabled (faults : MemoryFaults) (enabled : Bool) (m : Manager) :
    Except String MemoryStatus × Manager :=
  let next := {m.state with enabled := enabled, revision := m.state.revision + 1}
  match m.commit faults next with
  | (.ok (), m) => (.ok (statusOf next), m)
  | (.error error, m) => (.error error, m)

def unprocessed (roomId : ℕ) (context : List LlmContextMessage) (m : Manager) :
    List LlmContextMessage :=
  if m.state.enabled then
    context.filter fun e => decide (m.state.cursors[roomId]?.getD 0 < e.id)
  else []

def knownKeys (m : Manager) : List String := (m.state.facts.map MemoryFact.key).take 200

def hotTexts (state : MemoryState) : List String :=
  (state.facts.filter fun f => f.hotSinceMs.isSome).map MemoryFact.text

def hot (faults : MemoryFaults) (now : ℕ) (m : Manager) :
    Except String (ℕ × List String) × Manager :=
  if m.state.enabled then
    let (next, changed) := rebalance now m.state
    if changed then
      match m.commit faults next with
      | (.ok (), m) => (.ok (m.state.revision, hotTexts m.state), m)
      | (.error error, m) => (.error error, m)
    else (.ok (m.state.revision, hotTexts m.state), m)
  else (.ok (m.state.revision, []), m)

/-- The state that an extraction leaves in an enabled memory. -/
def applied (toLowercase : String → String) (shuffles : Shuffles) (now roomId : ℕ)
    (events : List LlmContextMessage) (extracted : ExtractedMemory) (state : MemoryState) :
    MemoryState :=
  let accepts := allowed (state.cursors[roomId]?.getD 0) events
  let facts := (findings toLowercase shuffles accepts extracted).foldl (record now events)
    state.facts
  let cursors := match (events.map LlmContextMessage.id).max? with
    | some last => state.cursors.insert roomId last
    | none => state.cursors
  (rebalance now {state with
    facts := facts, cursors := cursors, revision := state.revision + 1}).1

def apply (toLowercase : String → String) (shuffles : Shuffles) (faults : MemoryFaults)
    (now roomId : ℕ) (events : List LlmContextMessage) (extracted : ExtractedMemory)
    (m : Manager) : Except String Unit × Manager :=
  if events.isEmpty then (.ok (), m)
  else if m.state.enabled then
    m.commit faults (applied toLowercase shuffles now roomId events extracted m.state)
  else (.ok (), m)

end Manager

end NormaHarness.Memory
