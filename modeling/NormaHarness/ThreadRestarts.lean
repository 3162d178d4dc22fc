import NormaHarness.ConversationFiles

/-!
# Provider threads across restarts

A worker loses its memory when its process ends, which may be in the middle of a turn or
of a save, and starts again from its conversation file. An ordinary room keeps its
identity over restarts. An incognito room ends with its process, and its identity may be
given out again, so a user of a thread is named with the launch it belongs to. A use is
recorded where a turn is begun, whatever becomes of it.
-/
namespace NormaHarness.CodexWorker
open Std Identifiers Contracts JsonValues LlmProtocol AppServer Executions FilePrograms
  ReplacedFiles StoredContents

/-- Who has used a thread, told apart across launches. -/
inductive ThreadOwner where
  | ordinary (room : ℕ)
  | incognito (launch room : ℕ)
  | extraction
  deriving DecidableEq, Repr

/-- The owner that a user of the running process is. -/
def ownerOf (incognito : ℕ → ℕ → Bool) (launch : ℕ) : ThreadUser → ThreadOwner
  | .extraction => .extraction
  | .room id => if incognito launch id then .incognito launch id else .ordinary id

/-- A user that is not this one. -/
def ThreadUser.stranger : ThreadUser → ThreadUser
  | .extraction => .room 0
  | .room _ => .extraction

theorem ThreadUser.stranger_ne (user : ThreadUser) : user.stranger ≠ user := by
  cases user <;> simp [ThreadUser.stranger]

/-- The uses as one user sees them: its own, and those of others. -/
def seenBy (owner : ThreadOwner) (user : ThreadUser) (uses : Set (ThreadOwner × String)) :
    Set (ThreadUser × String) :=
  {use | ∃ other, (other, use.2) ∈ uses ∧
    use.1 = if other = owner then user else user.stranger}

/-- The uses after those that a user has made. -/
def usesAfter (owner : ThreadOwner) (user : ThreadUser) (uses : Set (ThreadOwner × String))
    (used : Set (ThreadUser × String)) : Set (ThreadOwner × String) :=
  uses ∪ {use | use.1 = owner ∧ (user, use.2) ∈ used}

/-- One launch after the other of a worker, its file, and the maps that a start may find:
the last one that was saved, and those whose save was cut short since. -/
structure Host where
  launch : ℕ
  worker : Option Worker
  uses : Set (ThreadOwner × String)
  disk : ConversationDisk
  written : List ConversationMap

def Host.initial : Host := ⟨0, none, ∅, noConversationFiles, [∅]⟩

/-- A message that a worker takes, how its surroundings answer it, and what the app-server
shows in the turn and in its repetition. -/
structure Intake where
  message : RoutedMessage
  env : Environment
  first : Attempt
  again : Attempt

/-- For whom the turns of a message are. -/
def Intake.user (i : Intake) : ThreadUser :=
  if i.message.message.kind = memoryTriggerKind then .extraction
  else .room (payloadRoom i.message.message.payload)

section

variable (settings : Settings) (path : Option String)

def Intake.reaction (i : Intake) (worker : Worker) : Reaction :=
  receive i.env path worker i.message

/-- The turns of the worker are turns of the app-server. -/
inductive Intake.Ran (i : Intake) : List LlmTurnRequest → Prop
  | none : Ran i []
  | once (turn : LlmTurnRequest) (hreply : i.first.reply settings turn = some (i.env.turn turn)) :
      Ran i [turn]
  | twice (turn turn' : LlmTurnRequest)
      (hreply : i.first.reply settings turn = some (i.env.turn turn))
      (hreply' : i.again.reply settings turn' = some (i.env.repeated turn')) :
      Ran i [turn, turn']

/-- The uses that they add. -/
def Intake.used (i : Intake) (user : ThreadUser) (used : Set (ThreadUser × String)) :
    List LlmTurnRequest → Set (ThreadUser × String)
  | [] => used
  | [turn] => withUse settings user i.first turn used
  | turn :: turn' :: _ =>
      withUse settings user i.again turn' (withUse settings user i.first turn used)

/-- Whoever has asked for a new thread gets one that nobody has used. -/
def Intake.Fresh (i : Intake) (user : ThreadUser) (used : Set (ThreadUser × String)) :
    List LlmTurnRequest → Prop
  | [] => True
  | [turn] => StartsFresh settings i.first turn used
  | turn :: turn' :: _ => StartsFresh settings i.first turn used ∧
      StartsFresh settings i.again turn' (withUse settings user i.first turn used)

inductive HostEvent where
  | op (intake : Intake) (faults : SaveFaults)
  | crash (intake : Intake) (faults : SaveFaults) (calls : ℕ) (disk : ConversationDisk)
  | stop
  | restart (faults : LoadFaults)

/-- The file, and what a start may find in it, after the save that a message asks for. -/
def Host.saving (h : Host) (faults : SaveFaults) (reaction : Reaction) :
    ConversationDisk × List ConversationMap :=
  match reaction.saved with
  | none => (h.disk, h.written)
  | some conversations =>
    match saveConversations faults conversations h.disk with
    | (.ok (), disk) => (disk, [conversations])
    | (.error _, disk) => (disk, h.written)

/-- The same when the process ends after some calls of the save. -/
def Host.stopping (h : Host) (faults : SaveFaults) (calls : ℕ) (reaction : Reaction) :
    ConversationDisk × List ConversationMap :=
  match reaction.saved with
  | none => (h.disk, h.written)
  | some conversations =>
      (stoppedConversations faults calls conversations h.disk, h.written ++ [conversations])

/-- The uses after a message. -/
def Host.usesAfter (incognito : ℕ → ℕ → Bool) (h : Host) (i : Intake) (worker : Worker) :
    Set (ThreadOwner × String) :=
  let owner := ownerOf incognito h.launch i.user
  CodexWorker.usesAfter owner i.user h.uses
    (i.used settings i.user (seenBy owner i.user h.uses) (i.reaction path worker).executed)

/-- A worker takes whatever messages it is sent. The process may end at any time; the
message it was working on then counts as begun. -/
inductive HostStep (incognito : ℕ → ℕ → Bool) (h : Host) : HostEvent → Host → Prop
  | op {i : Intake} {worker : Worker} (faults : SaveFaults) (hrunning : h.worker = some worker)
      (hran : i.Ran settings (i.reaction path worker).executed) :
      HostStep incognito h (.op i faults) ⟨h.launch, some (i.reaction path worker).worker,
        h.usesAfter settings path incognito i worker, (h.saving faults (i.reaction path worker)).1,
        (h.saving faults (i.reaction path worker)).2⟩
  | crash {i : Intake} {worker : Worker} {disk : ConversationDisk} (faults : SaveFaults)
      (calls : ℕ) (hrunning : h.worker = some worker)
      (hran : i.Ran settings (i.reaction path worker).executed)
      (hcrash : Crashed .pending (h.stopping faults calls (i.reaction path worker)).1 disk) :
      HostStep incognito h (.crash i faults calls disk) ⟨h.launch, none,
        h.usesAfter settings path incognito i worker, disk,
        (h.stopping faults calls (i.reaction path worker)).2⟩
  | stop : HostStep incognito h .stop {h with worker := none}
  | restart (faults : LoadFaults) (hdown : h.worker = none) :
      HostStep incognito h (.restart faults) {h with
        launch := h.launch + 1
        worker := some ⟨true, restoredConversations faults h.disk, ∅⟩}

/-- A turn request that is taken comes from the chat rooms, and a new thread is new. -/
structure Intake.Proper (incognito : ℕ → ℕ → Bool) (h : Host) (i : Intake) : Prop where
  asked : isTurnRequest i.message.message.kind = true → ∃ target request origin,
    i.message = turnMessage target request ∧ FromChatRooms (incognito h.launch) request origin
  fresh : ∀ worker, h.worker = some worker → i.Fresh settings i.user
    (seenBy (ownerOf incognito h.launch i.user) i.user h.uses) (i.reaction path worker).executed

def HostEvent.Proper (incognito : ℕ → ℕ → Bool) (h : Host) : HostEvent → Prop
  | .op i _ => i.Proper settings path incognito h
  | .crash i _ _ _ => i.Proper settings path incognito h
  | _ => True

end

/-! ## Uses -/

theorem Exclusive.seen {uses : Set (ThreadOwner × String)} (h : Exclusive uses)
    (owner : ThreadOwner) (user : ThreadUser) : Exclusive (seenBy owner user uses) := by
  rintro a b thread ⟨other, hother, ha⟩ ⟨other', hother', hb⟩
  obtain rfl : other = other' := h _ _ _ hother hother'
  exact (ha : a = _).trans (hb : b = _).symm

theorem mem_seenBy_own {uses : Set (ThreadOwner × String)} {owner : ThreadOwner}
    {thread : String} (h : (owner, thread) ∈ uses) (user : ThreadUser) :
    (user, thread) ∈ seenBy owner user uses := ⟨owner, h, (if_pos rfl).symm⟩

/-- A user that has its own threads and new ones leaves the uses exclusive. -/
theorem Exclusive.after {uses : Set (ThreadOwner × String)} (h : Exclusive uses)
    {owner : ThreadOwner} {user : ThreadUser} {used : Set (ThreadUser × String)}
    (hused : Exclusive used) (hsub : seenBy owner user uses ⊆ used) :
    Exclusive (usesAfter owner user uses used) := by
  have hold : ∀ other thread, (other, thread) ∈ uses → (user, thread) ∈ used → other = owner := by
    intro other thread hother huser
    by_contra hne
    have hstranger : (user.stranger, thread) ∈ used :=
      hsub ⟨other, hother, (if_neg hne).symm⟩
    exact user.stranger_ne (hused _ _ _ hstranger huser)
  rintro a b thread (ha | ⟨ha, hthread⟩) (hb | ⟨hb, hthread'⟩)
  · exact h a b thread ha hb
  · exact (hold a thread ha hthread').trans hb.symm
  · exact ha.trans (hold b thread hb hthread).symm
  · exact ha.trans hb.symm

/-! ## The invariant -/

/-- A map that may be saved: threads of ordinary rooms, each used by its room. -/
def Saves (incognito : ℕ → Bool) (uses : Set (ThreadOwner × String))
    (conversations : ConversationMap) : Prop :=
  ∀ room state, conversations[room]? = some state → incognito room = false ∧
    ∀ thread, state.threadId = some thread → (.ordinary room, thread) ∈ uses

/-- What a worker's process knows of its rooms. -/
structure Hosts (incognito : ℕ → Bool) (owner : ThreadUser → ThreadOwner) (worker : Worker)
    (uses : Set (ThreadOwner × String)) : Prop where
  own : ∀ room thread, worker.conversations[room]? = some ⟨some thread⟩ →
    (owner (.room room), thread) ∈ uses
  hidden : ∀ room, incognito room = true → room ∈ worker.conversations →
    room ∈ worker.privateRooms

structure HostIsolated (incognito : ℕ → ℕ → Bool) (h : Host) : Prop where
  exclusive : Exclusive h.uses
  hosts : ∀ worker, h.worker = some worker →
    Hosts (incognito h.launch) (ownerOf incognito h.launch) worker h.uses
  stored : HoldsMaps (Saves (incognito h.launch) h.uses) h.disk

section

variable {settings : Settings} {path : Option String} {incognito : ℕ → ℕ → Bool}

theorem ownerOf_ordinary {launch room : ℕ} (h : incognito launch room = false) :
    ownerOf incognito launch (.room room) = .ordinary room := by
  simp [ownerOf, h]

theorem ownerOf_injective {launch room room' : ℕ}
    (h : ownerOf incognito launch (.room room) = ownerOf incognito launch (.room room')) :
    room = room' := by
  simp only [ownerOf] at h
  split_ifs at h
  · exact (ThreadOwner.incognito.inj h).2
  · exact ThreadOwner.ordinary.inj h

theorem Hosts.mono {flag : ℕ → Bool} {owner : ThreadUser → ThreadOwner} {worker : Worker}
    {uses uses' : Set (ThreadOwner × String)} (h : Hosts flag owner worker uses)
    (hsub : uses ⊆ uses') : Hosts flag owner worker uses' where
  own room thread hroom := hsub (h.own room thread hroom)
  hidden := h.hidden

theorem Saves.mono {flag : ℕ → Bool} {uses uses' : Set (ThreadOwner × String)}
    {conversations : ConversationMap} (h : Saves flag uses conversations) (hsub : uses ⊆ uses') :
    Saves flag uses' conversations := by
  intro room state hstate
  obtain ⟨hordinary, hthreads⟩ := h room state hstate
  exact ⟨hordinary, fun thread hthread => hsub (hthreads thread hthread)⟩

/-- What a process may save is what it knows of its ordinary rooms. -/
theorem Hosts.persisted {launch : ℕ} {worker : Worker} {uses : Set (ThreadOwner × String)}
    (h : Hosts (incognito launch) (ownerOf incognito launch) worker uses) :
    Saves (incognito launch) uses (persisted worker) := by
  intro room state hstate
  have hmem : room ∈ CodexWorker.persisted worker := ExtTreeMap.mem_iff_isSome_getElem?.mpr
    (by rw [hstate]; rfl)
  have hstate' : worker.conversations[room]? = some state := by
    have hfilter := hstate
    unfold CodexWorker.persisted at hfilter
    rw [ExtTreeMap.getElem?_filter'] at hfilter
    exact (Option.filter_eq_some_iff.mp hfilter).1
  have hordinary : incognito launch room = false := by
    by_contra hincognito
    have hprivate := h.hidden room (by simpa using hincognito)
      (ExtTreeMap.mem_of_mem_filter hmem)
    exact not_mem_persisted hprivate hmem
  refine ⟨hordinary, fun thread hthread => ?_⟩
  rw [← ownerOf_ordinary hordinary]
  refine h.own room thread ?_
  rw [hstate', ← hthread]

theorem Intake.Ran.realizes {i : Intake} {user : ThreadUser} {used : Set (ThreadUser × String)}
    {executed : List LlmTurnRequest} (hran : i.Ran settings executed)
    (hfresh : i.Fresh settings user used executed) :
    Realizes settings i.env i.first i.again user used executed
      (i.used settings user used executed) := by
  cases hran with
  | none => exact .none
  | once turn hreply => exact .once turn hreply hfresh
  | twice turn turn' hreply hreply' => exact .twice turn turn' hreply hfresh.1 hreply' hfresh.2

/-- The uses stay exclusive, and the process knows what it may save. -/
structure KeptApart (incognito : ℕ → ℕ → Bool) (launch : ℕ) (reaction : Reaction)
    (uses uses' : Set (ThreadOwner × String)) : Prop where
  exclusive : Exclusive uses'
  grown : uses ⊆ uses'
  hosts : Hosts (incognito launch) (ownerOf incognito launch) reaction.worker uses'
  saved : ∀ map, reaction.saved = some map → map = persisted reaction.worker

section

variable {launch : ℕ} {worker : Worker} {uses : Set (ThreadOwner × String)} {reaction : Reaction}

/-- An extraction uses a new thread. -/
theorem trigger_keptApart {i : Intake} {used : Set (ThreadUser × String)}
    (hkind : i.message.message.kind = memoryTriggerKind)
    (hreaction : reaction = receive i.env path worker i.message)
    (hused : Realizes settings i.env i.first i.again .extraction
      (seenBy .extraction .extraction uses) reaction.executed used)
    (hexclusive : Exclusive uses)
    (h : Hosts (incognito launch) (ownerOf incognito launch) worker uses) :
    KeptApart incognito launch reaction uses (usesAfter .extraction .extraction uses used) := by
  obtain ⟨hexecuted, hconversations, hprivate, hsaved⟩ := receive_trigger hkind hreaction
  have hbefore := hexclusive.seen ThreadOwner.extraction .extraction
  have huses : Exclusive used ∧ seenBy .extraction .extraction uses ⊆ used := by
    rcases hexecuted with hnone | ⟨turn, hthread, hone⟩
    · rw [hnone] at hused
      cases hused
      exact ⟨hbefore, Set.Subset.rfl⟩
    · rw [hone] at hused
      cases hused with
      | once _ hreply hfresh =>
          refine ⟨withUse_exclusive hbefore (fun thread hsome => ?_) hfresh,
            subset_withUse _ turn⟩
          rw [hthread] at hsome
          cases hsome
  refine ⟨hexclusive.after huses.1 huses.2, Set.subset_union_left, ⟨?_, ?_⟩, ?_⟩
  · intro room thread hroom
    rw [hconversations] at hroom
    exact .inl (h.own room thread hroom)
  · intro room hroom hmem
    rw [hconversations] at hmem
    rw [hprivate]
    exact h.hidden room hroom hmem
  · intro map hmap
    rw [hsaved] at hmap
    cases hmap

/-- A turn of the chat rooms uses the thread of its room, or a new one. -/
theorem turn_keptApart {target : ResidentKey} {request : LlmTurnRequest} {origin : LlmOrigin}
    {env : Environment} {first again : Attempt} {used : Set (ThreadUser × String)}
    (hfrom : FromChatRooms (incognito launch) request origin)
    (hreaction : reaction = receive env path worker (turnMessage target request))
    (hused : Realizes settings env first again (.room origin.roomId)
      (seenBy (ownerOf incognito launch (.room origin.roomId)) (.room origin.roomId) uses)
      reaction.executed used)
    (hexclusive : Exclusive uses)
    (h : Hosts (incognito launch) (ownerOf incognito launch) worker uses) :
    KeptApart incognito launch reaction uses
      (usesAfter (ownerOf incognito launch (.room origin.roomId)) (.room origin.roomId) uses
        used) := by
  obtain ⟨handled, hhandled, hexecuted, hconversations, hprivate, hsaved⟩ :=
    receive_turn hfrom hreaction
  rw [hexecuted] at hused
  set owner := ownerOf incognito launch (.room origin.roomId)
  have hown : ∀ thread, (worker.conversations[origin.roomId]?.getD ⟨none⟩).threadId =
      some thread → (.room origin.roomId, thread) ∈ seenBy owner (.room origin.roomId) uses := by
    intro thread hthread
    cases hfound : worker.conversations[origin.roomId]? with
    | none => simp [hfound] at hthread
    | some conversation =>
        rw [hfound, Option.getD_some] at hthread
        refine mem_seenBy_own (h.own origin.roomId thread ?_) _
        rw [hfound, ← hthread]
  obtain ⟨hused', hsub, hthread⟩ := turn_uses target hfrom.thread hhandled
    (hexclusive.seen owner _) hown hused
  refine ⟨hexclusive.after hused' hsub, Set.subset_union_left, ⟨?_, ?_⟩, ?_⟩
  · intro room thread hroom
    rw [hconversations, ExtTreeMap.getElem?_insert] at hroom
    split at hroom
    · next hsame =>
      obtain rfl : origin.roomId = room := by simpa using hsame
      refine .inr ⟨rfl, hthread thread ?_⟩
      rw [Option.some.inj hroom]
    · exact .inl (h.own room thread hroom)
  · intro room hroom hmem
    rw [hconversations, ExtTreeMap.mem_insert] at hmem
    rw [hprivate]
    by_cases hsame : origin.roomId = room
    · subst hsame
      simp [hroom]
    · have hbefore := h.hidden room hroom (by simpa [hsame] using hmem)
      split
      · exact Finset.mem_insert_of_mem hbefore
      · exact hbefore
  · intro map hmap
    exact hsaved map (Option.mem_def.mpr hmap)

end

theorem intake_keptApart {h : Host} {i : Intake} {worker : Worker}
    (hisolated : HostIsolated incognito h) (hproper : i.Proper settings path incognito h)
    (hrunning : h.worker = some worker) (hran : i.Ran settings (i.reaction path worker).executed) :
    KeptApart incognito h.launch (i.reaction path worker) h.uses
      (h.usesAfter settings path incognito i worker) := by
  have hused := hran.realizes (hproper.fresh worker hrunning)
  have hhosts := hisolated.hosts worker hrunning
  unfold Host.usesAfter
  by_cases hmemory : i.message.message.kind = memoryTriggerKind
  · have huser : i.user = .extraction := if_pos hmemory
    rw [huser] at hused ⊢
    exact trigger_keptApart hmemory rfl hused hisolated.exclusive hhosts
  by_cases hturn : isTurnRequest i.message.message.kind = true
  · obtain ⟨target, request, origin, hmessage, hfrom⟩ := hproper.asked hturn
    have huser : i.user = .room origin.roomId := by
      unfold Intake.user
      rw [if_neg hmemory, hmessage]
      exact congrArg ThreadUser.room (payloadRoom_encode hfrom.stamped)
    rw [huser] at hused ⊢
    exact turn_keptApart hfrom (congrArg (receive i.env path worker) hmessage) hused
      hisolated.exclusive hhosts
  · -- Nothing is done with a message of another kind.
    have hignored : i.reaction path worker = ⟨worker, [], none, none, none⟩ := by
      unfold Intake.reaction receive
      rw [if_neg hmemory, if_neg hturn]
    rw [hignored] at hused ⊢
    exact ⟨hisolated.exclusive.after (hisolated.exclusive.seen _ _) Set.Subset.rfl,
      Set.subset_union_left, hhosts.mono Set.subset_union_left, fun map hmap => by cases hmap⟩

theorem isolated_intake {h : Host} {i : Intake} {worker : Worker}
    (hisolated : HostIsolated incognito h) (hproper : i.Proper settings path incognito h)
    (hrunning : h.worker = some worker) (hran : i.Ran settings (i.reaction path worker).executed) :
    KeptApart incognito h.launch (i.reaction path worker) h.uses
        (h.usesAfter settings path incognito i worker) ∧
      (∀ faults, HoldsMaps
        (Saves (incognito h.launch) (h.usesAfter settings path incognito i worker))
        (h.saving faults (i.reaction path worker)).1) ∧
      ∀ faults calls, HoldsMaps
        (Saves (incognito h.launch) (h.usesAfter settings path incognito i worker))
        (h.stopping faults calls (i.reaction path worker)).1 := by
  have hkept := intake_keptApart hisolated hproper hrunning hran
  have hstored : HoldsMaps (Saves (incognito h.launch)
      (h.usesAfter settings path incognito i worker)) h.disk :=
    hisolated.stored.mono fun v ⟨map, hv, hmap⟩ => ⟨map, hv, hmap.mono hkept.grown⟩
  refine ⟨hkept, fun faults => ?_, fun faults calls => ?_⟩
  · unfold Host.saving
    cases hmap : (i.reaction path worker).saved with
    | none => exact hstored
    | some map =>
        have hsave := (hstored.saved faults (hkept.saved map hmap ▸ hkept.hosts.persisted)).1
        simp only
        split
        · next disk hout =>
          rw [hout] at hsave
          exact hsave
        · next error disk hout =>
          rw [hout] at hsave
          exact hsave
  · unfold Host.stopping
    cases hmap : (i.reaction path worker).saved with
    | none => exact hstored
    | some map =>
        exact (hstored.saved faults (hkept.saved map hmap ▸ hkept.hosts.persisted)).2 calls

/-- The rooms of a saved map stay ordinary, so a later launch may take it over. -/
theorem isolated_restart {h : Host} (hisolated : HostIsolated incognito h)
    (hkept : ∀ room, incognito h.launch room = false → incognito (h.launch + 1) room = false)
    (faults : LoadFaults) : HostIsolated incognito {h with
      launch := h.launch + 1
      worker := some ⟨true, restoredConversations faults h.disk, ∅⟩} := by
  have hstored : HoldsMaps (Saves (incognito (h.launch + 1)) h.uses) h.disk :=
    hisolated.stored.mono fun v ⟨map, hv, hmap⟩ => ⟨map, hv, fun room state hstate =>
      ⟨hkept room (hmap room state hstate).1, (hmap room state hstate).2⟩⟩
  have hrestored := hstored.restored (fun room state hstate => by simp at hstate) faults
  refine ⟨hisolated.exclusive, fun worker hworker => ?_, hstored⟩
  cases hworker
  refine ⟨fun room thread hroom => ?_, fun room hroom hmem => ?_⟩
  · obtain ⟨hordinary, hthreads⟩ := hrestored room _ hroom
    rw [ownerOf_ordinary hordinary]
    exact hthreads thread rfl
  · obtain ⟨state, hstate⟩ := Option.isSome_iff_exists.mp
      (ExtTreeMap.mem_iff_isSome_getElem?.mp hmem)
    have hordinary := (hrestored room state hstate).1
    exact absurd (hroom.symm.trans hordinary) (by decide)

theorem isolated_host {h h' : Host} {event : HostEvent} (hisolated : HostIsolated incognito h)
    (hkept : ∀ launch room, incognito launch room = false → incognito (launch + 1) room = false)
    (hproper : event.Proper settings path incognito h)
    (hstep : HostStep settings path incognito h event h') : HostIsolated incognito h' := by
  cases hstep with
  | op faults hrunning hran =>
      obtain ⟨hkept, hsave, -⟩ := isolated_intake hisolated hproper hrunning hran
      exact ⟨hkept.exclusive, fun worker hworker => Option.some.inj hworker ▸ hkept.hosts,
        hsave faults⟩
  | crash faults calls hrunning hran hcrash =>
      obtain ⟨hkept, -, hstop⟩ := isolated_intake hisolated hproper hrunning hran
      exact ⟨hkept.exclusive, fun _ hworker => (nomatch hworker),
        (hstop faults calls).crashed hcrash⟩
  | stop => exact ⟨hisolated.exclusive, fun _ hworker => (nomatch hworker), hisolated.stored⟩
  | restart faults hdown => exact isolated_restart hisolated (hkept h.launch) faults

theorem isolated_initial : HostIsolated incognito .initial where
  exclusive owner owner' thread huse := by cases huse
  hosts worker hworker := by cases hworker
  stored file content hcontent := by cases hcontent

/-- Over any number of launches, with faults in every file call and crashes anywhere, where
turns come from the chat rooms and new threads are new: a thread is used by one room only,
also where the identity of an incognito room is given out again; a worker's rooms have
threads of their own; and a start finds threads of ordinary rooms only, each of them its
room's. -/
theorem threads_isolated_across_restarts {events : List HostEvent} {h : Host}
    (hkept : ∀ launch room, incognito launch room = false → incognito (launch + 1) room = false)
    (hproper : ∀ past event later u, events = past ++ event :: later →
      Run (HostStep settings path incognito) .initial past u →
        event.Proper settings path incognito u)
    (hrun : Run (HostStep settings path incognito) .initial events h) :
    (∀ owner owner' thread, (owner, thread) ∈ h.uses → (owner', thread) ∈ h.uses →
      owner = owner') ∧
      (∀ worker, h.worker = some worker → DistinctThreads worker.conversations ∧
        ∀ room thread, worker.conversations[room]? = some ⟨some thread⟩ →
          (ownerOf incognito h.launch (.room room), thread) ∈ h.uses) ∧
      ∀ (faults : LoadFaults) (room : ℕ) (state : ConversationState),
        (restoredConversations faults h.disk)[room]? = some state →
          incognito h.launch room = false ∧
            ∀ thread, state.threadId = some thread → (.ordinary room, thread) ∈ h.uses := by
  have hisolated : HostIsolated incognito h :=
    hrun.invariant_along (Q := fun u event => event.Proper settings path incognito u)
      (fun _ _ _ hproper hs hstep => isolated_host hs hkept hproper hstep) hproper isolated_initial
  refine ⟨hisolated.exclusive, fun worker hworker => ?_, fun faults => ?_⟩
  · have hown := (hisolated.hosts worker hworker).own
    refine ⟨fun room room' thread hroom hroom' => ?_, hown⟩
    exact ownerOf_injective
      (hisolated.exclusive _ _ _ (hown room thread hroom) (hown room' thread hroom'))
  · exact hisolated.stored.restored (fun room state hstate => by simp at hstate) faults

/-! ## What a start finds -/

/-- The existence checks of a save do not put an older backup in the place of the file. -/
def HostEvent.Checked (disk : ConversationDisk) : HostEvent → Prop
  | .op _ faults => ¬RollsBackStale conversationFiles faults.calls disk
  | .crash _ faults _ _ => ¬RollsBackStale conversationFiles faults.calls disk
  | _ => True

/-- One of the maps that a start may find is on disk. -/
def Host.Finds (h : Host) : Prop := ∃ map ∈ h.written, Keeps h.disk map

theorem Host.Finds.step {h h' : Host} {event : HostEvent} (hfinds : h.Finds)
    (hchecked : event.Checked h.disk)
    (hstep : HostStep settings path incognito h event h') : h'.Finds := by
  obtain ⟨before, hbefore, hkeeps⟩ := hfinds
  cases hstep with
  | @op i worker faults hrunning hran =>
      unfold Host.Finds Host.saving
      cases (i.reaction path worker).saved with
      | none => exact ⟨before, hbefore, hkeeps⟩
      | some map =>
          have hsaved := (hkeeps.saved map hchecked).1
          simp only
          rcases hout : saveConversations faults map h.disk with ⟨error | _, disk⟩
          · rw [hout] at hsaved
            exact ⟨before, hbefore, hsaved⟩
          · rw [hout] at hsaved
            exact ⟨map, List.mem_singleton_self map, hsaved⟩
  | @crash i worker disk faults calls hrunning hran hcrash =>
      unfold Host.Finds
      unfold Host.stopping at hcrash ⊢
      cases hmap : (i.reaction path worker).saved with
      | none =>
          rw [hmap] at hcrash
          exact ⟨before, hbefore, hkeeps.crashed hcrash⟩
      | some map =>
          rw [hmap] at hcrash
          rcases (hkeeps.saved map hchecked).2 calls with hold | hnew
          · exact ⟨before, List.mem_append_left _ hbefore, hold.crashed hcrash⟩
          · exact ⟨map, List.mem_append_right _ (List.mem_singleton_self map),
              hnew.crashed hcrash⟩
  | stop => exact ⟨before, hbefore, hkeeps⟩
  | restart faults hdown => exact ⟨before, hbefore, hkeeps⟩

/-- After every history of messages, crashes and restarts a start that can read its files finds the
map of the last save that succeeded, or of one that was cut short since; before the first
save there are no conversations. -/
theorem restart_finds_last_save {events : List HostEvent} {h : Host}
    (hchecked : ∀ past event later u, events = past ++ event :: later →
      Run (HostStep settings path incognito) .initial past u → event.Checked u.disk)
    (hrun : Run (HostStep settings path incognito) .initial events h) :
    restoredConversations .none h.disk ∈ h.written := by
  obtain ⟨map, hmem, hkeeps⟩ : h.Finds := by
    refine hrun.invariant_along (P := Host.Finds) (Q := fun u event => event.Checked u.disk)
      (fun u event v hu hfinds hstep => hfinds.step hu hstep) hchecked ?_
    exact ⟨∅, List.mem_singleton_self _, keeps_noFiles⟩
  rw [hkeeps.restored]
  exact hmem

end

/-! ## An identity that is given out again -/

theorem hostStep_unique {settings : Settings} {path : Option String} {incognito : ℕ → ℕ → Bool}
    (h : Host) (event : HostEvent) (a b : Host) (ha : HostStep settings path incognito h event a)
    (hb : HostStep settings path incognito h event b) : a = b := by
  cases ha with
  | op faults hrunning hran =>
      cases hb with
      | op _ hrunning' _ =>
          obtain rfl := Option.some.inj (hrunning.symm.trans hrunning')
          rfl
  | crash faults calls hrunning hran hcrash =>
      cases hb with
      | crash _ _ hrunning' _ _ =>
          obtain rfl := Option.some.inj (hrunning.symm.trans hrunning')
          rfl
  | stop =>
      cases hb
      rfl
  | restart faults hdown =>
      cases hb
      rfl

/-- Room 3 is incognito in the first launch and ordinary in the later ones. -/
def thirdHidden (launch room : ℕ) : Bool := decide (launch ≤ 1) && room == 3

/-- A room asks Codex, whose app-server starts this thread. -/
def asked (room : ℕ) (incognito : Bool) (thread : String) : Intake where
  message := turnMessage codexKey (asking room incognito)
  env := onThread thread
  first := startingThread thread
  again := startingThread thread

theorem asked_proper {h : Host} {room : ℕ} {incognito : Bool} {thread : String}
    (hroom : room ≠ 0) (hflag : incognito = thirdHidden h.launch room)
    (hfresh : ∀ worker, h.worker = some worker → (asked room incognito thread).Fresh inWorkspace
      (asked room incognito thread).user
      (seenBy (ownerOf thirdHidden h.launch (asked room incognito thread).user)
        (asked room incognito thread).user h.uses)
      ((asked room incognito thread).reaction (some "map.json") worker).executed) :
    (asked room incognito thread).Proper inWorkspace (some "map.json") thirdHidden h where
  asked _ := ⟨codexKey, asking room incognito, ⟨.solo, room, "Plans", incognito⟩, rfl,
    ⟨rfl, hroom, hflag, rfl⟩⟩
  fresh := hfresh

/-- Room 3 of the first launch and room 3 of the second one do not share a thread. -/
theorem threads_isolated_across_restarts_third :
    ∃ h : Host, Run (HostStep inWorkspace (some "map.json") thirdHidden) .initial
        [.restart .none, .op (asked 3 true "thread-1") .none, .stop, .restart .none,
          .op (asked 3 false "thread-2") .none] h ∧
      (.incognito 1 3, "thread-1") ∈ h.uses ∧ (.ordinary 3, "thread-2") ∈ h.uses ∧
      (.ordinary 3, "thread-1") ∉ h.uses := by
  have hkept : ∀ launch room, thirdHidden launch room = false →
      thirdHidden (launch + 1) room = false := by
    intro launch room hroom
    simp only [thirdHidden, Bool.and_eq_false_iff, decide_eq_false_iff_not] at hroom ⊢
    rcases hroom with hlater | hother
    · exact .inl (by omega)
    · exact .inr hother
  let up : Host := ⟨1, some ⟨true, ∅, ∅⟩, ∅, noConversationFiles, [∅]⟩
  have hstart : HostStep inWorkspace (some "map.json") thirdHidden .initial (.restart .none) up :=
    .restart .none rfl
  have hfirst : HostStep inWorkspace (some "map.json") thirdHidden up
      (.op (asked 3 true "thread-1") .none) _ := .op .none rfl (.once _ rfl)
  have hagain : HostStep inWorkspace (some "map.json") thirdHidden
      ⟨2, some ⟨true, restoredConversations .none noConversationFiles, ∅⟩,
        up.usesAfter inWorkspace (some "map.json") thirdHidden (asked 3 true "thread-1")
          ⟨true, ∅, ∅⟩, noConversationFiles, [∅]⟩
      (.op (asked 3 false "thread-2") .none) _ := .op .none rfl (.once _ rfl)
  have hrun := ((((Run.single hstart).snoc hfirst).snoc .stop).snoc (.restart .none rfl)).snoc
    hagain
  have hproper := Run.along_cons hostStep_unique
    (Q := fun u event => event.Proper inWorkspace (some "map.json") thirdHidden u) hstart trivial <|
    Run.along_cons hostStep_unique hfirst
      (asked_proper (by decide) rfl (by
        rintro worker hworker
        cases hworker
        change StartsFresh _ _ _ _
        rintro - thread - user ⟨other, hother, -⟩
        cases hother)) <|
    Run.along_cons hostStep_unique .stop trivial <|
    Run.along_cons hostStep_unique (.restart .none rfl) trivial <|
    Run.along_cons hostStep_unique hagain (asked_proper (by decide) rfl (by
      rintro worker hworker
      cases hworker
      change StartsFresh _ _ _ _
      rintro - thread hthread user ⟨other, hother, -⟩
      cases hthread
      rcases hother with hother | ⟨-, hused⟩
      · cases hother
      · rcases Set.mem_insert_iff.mp hused with huse | ⟨other, hother, -⟩
        · have hsame : "thread-2" = "thread-1" := congrArg Prod.snd huse
          exact absurd hsame (by decide)
        · cases hother)) Run.along_nil
  have hone : (.incognito 1 3, "thread-1") ∈ up.usesAfter inWorkspace (some "map.json")
      thirdHidden (asked 3 true "thread-1") ⟨true, ∅, ∅⟩ := .inr ⟨rfl, Set.mem_insert _ _⟩
  refine ⟨_, hrun, .inl hone, .inr ⟨rfl, Set.mem_insert _ _⟩, fun hshared => ?_⟩
  exact absurd ((threads_isolated_across_restarts hkept hproper hrun).1 _ _ _ (.inl hone) hshared)
    (by decide)

theorem SaveFaults.none_checked (disk : ConversationDisk) :
    ¬RollsBackStale conversationFiles SaveFaults.none.calls disk :=
  fun h => h.2.2.2.2.2.1 rfl

/-- The disk is full. -/
def createFails : SaveFaults :=
  ⟨none, fun call => if call = .create .pending then some "no space left on device" else none⟩

theorem createFails_checked (disk : ConversationDisk) :
    ¬RollsBackStale conversationFiles createFails.calls disk :=
  fun h => absurd h.2.2.1 (by decide)

/-- The thread of room 5 is saved, the next save fails, and the process ends in the one after
it, with a torn pending file: the next launch finds the thread. -/
theorem restart_finds_last_save_fifth :
    ∃ h disk, Run (HostStep inWorkspace (some "map.json") thirdHidden) .initial
        [.restart .none, .op (asked 5 false "thread-1") .none,
          .op (asked 6 false "thread-2") createFails,
          .crash (asked 7 false "thread-3") .none 2 disk] h ∧
      (restoredConversations .none h.disk)[5]? = some ⟨some "thread-1"⟩ := by
  let up : Host := ⟨1, some ⟨true, ∅, ∅⟩, ∅, noConversationFiles, [∅]⟩
  have hstart : HostStep inWorkspace (some "map.json") thirdHidden .initial (.restart .none) up :=
    .restart .none rfl
  have hfirst : HostStep inWorkspace (some "map.json") thirdHidden up
      (.op (asked 5 false "thread-1") .none) _ := .op .none rfl (.once _ rfl)
  obtain ⟨h, disk, hrun, hproper, hwritten⟩ : ∃ h disk,
      Run (HostStep inWorkspace (some "map.json") thirdHidden) .initial
        [.restart .none, .op (asked 5 false "thread-1") .none,
          .op (asked 6 false "thread-2") createFails,
          .crash (asked 7 false "thread-3") .none 2 disk] h ∧
      (∀ past event later u, [HostEvent.restart .none, .op (asked 5 false "thread-1") .none,
          .op (asked 6 false "thread-2") createFails,
          .crash (asked 7 false "thread-3") .none 2 disk] = past ++ event :: later →
        Run (HostStep inWorkspace (some "map.json") thirdHidden) .initial past u →
          event.Checked u.disk) ∧
      ∀ map ∈ h.written, map[5]? = some ⟨some "thread-1"⟩ := by
    refine ⟨_, Function.update (Host.stopping _ .none 2 _).1 .pending (some .torn),
      (((Run.single hstart).snoc hfirst).snoc (.op createFails rfl (.once _ rfl))).snoc
        (.crash .none 2 rfl (.once _ rfl) ⟨fun other hother => Function.update_of_ne hother _ _,
          .inr (.inr (Function.update_self _ _ _))⟩), ?_, ?_⟩
    · intro past event later u hevents _
      have hmem : event ∈ past ++ event :: later := by simp
      rw [← hevents] at hmem
      simp only [List.mem_cons, List.not_mem_nil, or_false] at hmem
      rcases hmem with rfl | rfl | rfl | rfl
      · trivial
      · exact SaveFaults.none_checked u.disk
      · exact createFails_checked u.disk
      · exact SaveFaults.none_checked u.disk
    · intro map hmap
      rcases List.mem_append.mp hmap with hsaved | hcut
      · obtain rfl := List.mem_singleton.mp hsaved
        rw [persisted, ExtTreeMap.getElem?_filter']
        rfl
      · obtain rfl := List.mem_singleton.mp hcut
        rw [persisted, ExtTreeMap.getElem?_filter']
        rfl
  exact ⟨h, disk, hrun, hwritten _ (restart_finds_last_save hproper hrun)⟩

end NormaHarness.CodexWorker
