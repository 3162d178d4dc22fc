import NormaHarness.MemberContexts

/-!
# Contributions are independent

The context of a contribution ends in its room at the message that started the round, and
so does every answer of the context tool during the turn, because the bounds of the tool
are computed from this context. The contributions of the round all come later.
-/
namespace NormaHarness.Chat
open Std Identifiers Contracts LlmProtocol ToolProtocol

/-! ## What the context tool can show -/

theorem matching_bounded {s : RoomStore} {query : ChatContextQuery} {incognito : Bool}
    {event : LlmContextMessage} (h : event ∈ matching s query incognito) :
    ∃ last, query.request.visibleThrough[event.roomId]? = some last ∧ event.id ≤ last := by
  unfold matching sortById at h
  rw [List.mem_insertionSort, List.mem_flatMap] at h
  obtain ⟨room, _, hmem⟩ := h
  unfold queryMessages at hmem
  split_ifs at hmem
  · split at hmem
    · cases hmem
    · rename_i last hlast
      obtain ⟨m, hm, rfl⟩ := List.mem_map.mp hmem
      have hpage := (List.mem_filter.mp hm).2
      unfold inPage at hpage
      rw [Bool.and_eq_true, decide_eq_true_eq] at hpage
      exact ⟨last, hlast, hpage.1⟩
  · cases hmem

theorem page_subset {request : ChatContextToolRequest} {roomName : String}
    {messages : List LlmContextMessage} {result : ChatContextResult}
    (h : page request roomName messages = some result) : result.messages ⊆ messages := by
  unfold page at h
  split_ifs at h
  · split at h
    · cases h
    · rename_i first rest hdrop
      obtain rfl := Option.some.inj h
      exact hdrop ▸ List.drop_subset _ messages
  · obtain rfl := Option.some.inj h
    exact List.Subset.refl messages

/-- The tool shows no message past the bound of its room. -/
theorem chatContextFor_bounded {s : RoomStore} {query : ChatContextQuery}
    {result : ChatContextResult} (h : chatContextFor s query = some result)
    {event : LlmContextMessage} (hevent : event ∈ result.messages) :
    ∃ last, query.request.visibleThrough[event.roomId]? = some last ∧ event.id ≤ last := by
  unfold chatContextFor at h
  split at h
  · obtain rfl := Option.some.inj h
    cases hevent
  · split_ifs at h
    · exact matching_bounded (page_subset h hevent)
    · obtain rfl := Option.some.inj h
      cases hevent

theorem turnContext_upToRound {s : RoomStore} {id start : ℕ} {member : String} {incognito : Bool}
    {event : LlmContextMessage} (hevent : event ∈ turnContext s id member incognito (some start))
    (hroom : event.roomId = id) : event.id ≤ start := by
  obtain ⟨room, hget, hmem⟩ := mem_turnContext.mp hevent
  unfold turnMessages at hmem
  split_ifs at hmem
  · obtain ⟨m, hm, rfl⟩ := List.mem_map.mp hmem
    have hround := (List.mem_filter.mp hm).2
    have hid : room.id = id := hroom
    have hle : m.id ≤ start := by
      unfold upToRound at hround
      simpa [hid] using hround
    exact hle
  · cases hmem

/-- The tool goes no further in a room than the context of its turn. -/
theorem tool_upToRound {s : RoomStore} {id start : ℕ} {member callId : String}
    {turn : LlmTurnRequest} {origin : LlmOrigin} {scopeAll : Bool} {before : Option ℕ} {limit : ℕ}
    (hturn : ∀ event ∈ turn.context, event.roomId = id → event.id ≤ start)
    {result : ChatContextResult} (h : chatContextFor s
      ⟨contextToolRequest turn origin callId scopeAll before limit, member⟩ = some result)
    {event : LlmContextMessage} (hevent : event ∈ result.messages) (hroom : event.roomId = id) :
    event.id ≤ start := by
  obtain ⟨last, hlast, hle⟩ := chatContextFor_bounded h hevent
  rw [hroom] at hlast
  obtain ⟨newest, hnewest, hnewestRoom, hid⟩ := visibleThrough_attained hlast
  have hstart := hturn newest hnewest hnewestRoom
  omega

/-- None of the events is one of these messages of the room. -/
def Omits (id : ℕ) (messages : List ChatMessage) (events : List LlmContextMessage) : Prop :=
  ∀ m ∈ messages, ∀ event ∈ events, event.roomId = id → event.id ≠ m.id

theorem omits_later {id start : ℕ} {later : List ChatMessage} {events : List LlmContextMessage}
    (hlater : ∀ m ∈ later, start < m.id)
    (hevents : ∀ event ∈ events, event.roomId = id → event.id ≤ start) :
    Omits id later events := by
  intro m hm event hevent hroom hid
  have hnew := hlater m hm
  have hold := hevents event hevent hroom
  omega

end NormaHarness.Chat

namespace NormaHarness.Rounds
open Std Identifiers Contracts LlmProtocol ToolProtocol Chat Asks FilePrograms

variable {isAlphanumeric : Char → Bool} {s s' : Session}

/-- While a round waits for the contribution of a member, this contribution is the only turn
of the member in the room. -/
theorem Consistent.sole_turn (hc : Consistent isAlphanumeric s) {round : Round}
    (hround : round ∈ s.world.rounds) {i : ℕ} {a : Ask} (ha : s.turns.asks[i]? = some a)
    (hopen : answerOf a.phase = none) (hroom : a.roomId = round.roomId)
    (hexpects : (s.progress round).Expects s.IsPublished round a.member) :
    a.turnKind = .contribution ∧ a.roundStart = some round.roundStart := by
  obtain ⟨other, hother, hid, hruns⟩ := hc.owned i a ha hopen
  obtain rfl := hc.lifecycle.eq_of_room hother hround (hid.trans hroom)
  have hu := hc.underway other hother
  rcases hruns with hask | ⟨c, hmem, hask⟩
  · exact absurd hexpects (hu.sound.expects_none hask)
  · obtain ⟨b, hb, _, _, hstart⟩ := hu.manned.asking c hmem i hask
    obtain rfl := Option.some.inj (ha.symm.trans hb)
    refine ⟨(hc.seated i a ha).cut.mpr ?_, hstart⟩
    rw [hstart]
    rfl

theorem run_keepsCalls {events : List Event} (hrun : SessionRun isAlphanumeric s events s')
    {i : ℕ} {a : Ask} (ha : s.turns.asks[i]? = some a) :
    ∃ b, s'.turns.asks[i]? = some b ∧ SameCall a b := by
  induction hrun generalizing a with
  | nil s => exact ⟨a, ha, .refl a⟩
  | cons hstep hrest ih =>
      obtain ⟨b, hb, hcall⟩ := hstep.keepsCalls i a ha
      obtain ⟨c, hc, hlater⟩ := ih hb
      exact ⟨c, hc, hcall.trans hlater⟩

/-- What was published by the contributions of a round came after its user message. -/
theorem Consistent.published_later (hc : Consistent isAlphanumeric s) {id start : ℕ}
    {room : ChatRoom} (hroom : s.world.chat.rooms.get id = some room)
    {past later : List ChatMessage} {user : ChatMessage}
    (hmessages : room.messages = past ++ user :: later) (huser : user.id = start)
    (hpast : ∀ m ∈ past, m.id < start) {p : Publication} (hp : p ∈ s.published) {b : Ask}
    (hb : s.turns.asks[p.ask]? = some b) (hid : b.roomId = id)
    (hstart : b.roundStart = some start) : p.message ∈ later := by
  obtain ⟨c, hentered⟩ := hc.entered p hp
  obtain rfl := Option.some.inj (hb.symm.trans hentered.asked)
  have hnew := hentered.newer start hstart
  obtain ⟨room', hroom', hmem⟩ := hentered.kept
  rw [hid, hroom] at hroom'
  obtain rfl := Option.some.inj hroom'
  rw [hmessages] at hmem
  rcases List.mem_append.mp hmem with hmem | hmem
  · have hold := hpast _ hmem
    omega
  · rcases List.mem_cons.mp hmem with he | hmem
    · rw [he] at hnew
      omega
    · exact hmem

/-- In every interleaving, a contribution turn sees nothing that was said in its room after
the user message of its round, neither in its context nor through the context tool, at any
time; all contributions of the round are among these messages. A member has no other turn
in the room while the round waits for its contribution. -/
theorem contributions_independent {restored : List ChatRoom}
    {media : ExtTreeMap String Media.MediaAsset} {disk : SnapshotDisk} {events : List Event}
    (hsaved : SavedRooms restored)
    (hrun : SessionRun isAlphanumeric (launchedSession restored media disk) events s) :
    (∀ (i : ℕ) (s' s'' : Session) (later : List Event) (a : Ask) (origin : LlmOrigin)
      (context : List LlmContextMessage), Step isAlphanumeric s (.snapshot i) s' →
      s'.turns.asks[i]? = some a → a.turnKind = .contribution →
      a.phase = .snapshotted (origin, context) → SessionRun isAlphanumeric s' later s'' →
        ∃ round ∈ s.world.rounds, round.roomId = a.roomId ∧
          a.roundStart = some round.roundStart ∧
          ∃ (room : ChatRoom) (past after : List ChatMessage) (user : ChatMessage),
            s''.world.chat.rooms.get a.roomId = some room ∧
            room.messages = past ++ user :: after ∧ user.id = round.roundStart ∧
            user.role = "user" ∧ Omits a.roomId after context ∧
            (∀ (requestId callId : String) (scopeAll : Bool) (before : Option ℕ) (limit : ℕ)
              (result : ChatContextResult), chatContextFor s''.world.chat.rooms
                ⟨contextToolRequest (askRequest requestId a.prompt a.turnKind (origin, context))
                  origin callId scopeAll before limit, a.member⟩ = some result →
                Omits a.roomId after result.messages) ∧
            ∀ p ∈ s''.published, ∀ b, s''.turns.asks[p.ask]? = some b → b.roomId = a.roomId →
              b.roundStart = some round.roundStart → p.message ∈ after) ∧
    ∀ round ∈ s.world.rounds, ∀ (i : ℕ) (a : Ask), s.turns.asks[i]? = some a →
      answerOf a.phase = none → a.roomId = round.roomId →
      (s.progress round).Expects s.IsPublished round a.member →
        a.turnKind = .contribution ∧ a.roundStart = some round.roundStart := by
  have hc := run_consistent hrun (launched_consistent isAlphanumeric hsaved media disk)
  refine ⟨fun i s' s'' later a origin context hstep ha hkind hphase hlater => ?_,
    fun round hround i a ha hopen hroom hexpects =>
      hc.sole_turn hround ha hopen hroom hexpects⟩
  obtain ⟨b, hb, hlocked, hcall, htaken⟩ := snapshot_taken hstep ha hphase
  have hcut := (hc.seated i b hb).cut.mp (hcall.turnKind.symm.trans hkind)
  obtain ⟨start, hstart⟩ := Option.isSome_iff_exists.mp hcut
  obtain ⟨round, hround, hroundRoom, rfl, _⟩ := hc.contributor_unheard hb hlocked hstart
  have hstart' : a.roundStart = some round.roundStart := hcall.roundStart.trans hstart
  have hc'' := run_consistent hlater (hstep.consistent hc)
  obtain ⟨c, hlast, hkept⟩ := run_keepsCalls hlater ha
  obtain ⟨room, hroom, _, hopened⟩ := (hc''.seated i c hlast).room
  obtain ⟨past, user, after, hmessages, huser, hrole, hpast, hafter⟩ :=
    (hopened round.roundStart (hkept.roundStart.trans hstart')).split
  rw [hkept.roomId] at hroom
  have hcontext : ∀ event ∈ context, event.roomId = a.roomId → event.id ≤ round.roundStart := by
    obtain ⟨current, _, _, rfl⟩ := turnSnapshot_ok htaken
    intro event hevent
    rw [hstart'] at hevent
    exact turnContext_upToRound hevent
  refine ⟨round, hround, hroundRoom.trans hcall.roomId.symm, hstart', room, past, after, user,
    hroom, hmessages, huser, hrole, omits_later hafter hcontext, ?_, ?_⟩
  · intro requestId callId scopeAll before limit result hresult
    exact omits_later hafter fun event hevent hid => tool_upToRound hcontext hresult hevent hid
  · intro p hp b hb hid hbegun
    exact hc''.published_later hroom hmessages huser hpast hp hb hid hbegun

/-! ## An answer in the room, and in another room -/

def bobRequest : LlmTurnRequest :=
  askRequest "chat-4-1" (contributionPrompt "again" "bob") .contribution (teamOrigin, teamContext)

def bobResult : LlmTurnResult :=
  ⟨"chat-4-1", none, none, .completed, some "ready", none, false, []⟩

def bobReply : RoutedMessage :=
  ⟨bobKey, chatRoomsKey, ⟨turnResultKind, LlmTurnResult.codec.encode bobResult⟩⟩

/-- The contribution after its result was taken. -/
def bobTurns (phase : AskPhase) : Turns :=
  ⟨(∅ : ExtTreeMap String PendingTurn).insert "chat-4-1" ⟨bobKey, 0⟩ |>.erase "chat-4-1", 2,
    [teamAsk bobKey phase (some bobResult)], [bobReply]⟩

def bobProgress : Progress := teamProgress .spawned (.asking 0)

theorem bob_locked : SessionRun Char.isAlphanum (launchedSession [teamRoom, deskRoom] ∅ noFiles)
    [.client (.send noFaults ⟨1, 1⟩ 4 "again" []), .advance teamRound .proceed,
      .advance teamRound (.call "bob" (contributionPrompt "again" "bob") .contribution (some 10)),
      .ask (.lock 0)]
    (teamSession (teamTurns bobKey .locked) bobProgress) :=
  teamSession_locked bobKey (.contribute "bob" [⟨"codex", .spawned⟩] [] rfl)

theorem bob_snapshot : Step Char.isAlphanum (teamSession (teamTurns bobKey .locked) bobProgress)
    (.snapshot 0)
    (teamSession (teamTurns bobKey (.snapshotted (teamOrigin, teamContext))) bobProgress) :=
  teamSession_snapshot bobKey bobProgress (by rfl)

theorem bob_completed : SessionRun Char.isAlphanum
    (teamSession (teamTurns bobKey (.snapshotted (teamOrigin, teamContext))) bobProgress)
    [.ask (.number 0), .ask (.insert 0), .ask (.sent 0), .ask (.receive bobReply),
      .ask (.resume 0)]
    (teamSession (bobTurns (.completed bobRequest bobResult)) bobProgress) := by
  have hinner : ∀ {turns turns' : Turns} {event : TurnEvent}, event.Inner →
      TurnStep Char.isAlphanum turns event turns' → Step Char.isAlphanum
        (teamSession turns bobProgress) (.ask event) (teamSession turns' bobProgress) :=
    fun hevent hstep => .ask _ _ _ hevent hstep
  refine .cons (hinner trivial (.number _ 0 _ _ rfl rfl)) ?_
  refine .cons (hinner trivial (.insert _ 0 _ bobRequest rfl rfl)) ?_
  refine .cons (hinner trivial (.sent _ 0 _ bobRequest rfl rfl)) ?_
  refine .cons (hinner trivial (.receive _ bobReply)) ?_
  exact .single (hinner trivial (.resume (bobTurns (.waiting bobRequest)) 0 _ bobRequest bobResult
    rfl rfl rfl))

def bobAnswer : ChatMessage := ⟨11, "agent", "bob", "ready", 2, [], []⟩

/-- The group after the answer of one member. -/
def answeredSession : Session :=
  {teamSession (bobTurns (.completed bobRequest bobResult)) bobProgress with
    world := (teamSession Turns.launched .launched).world.pushed noFaults ⟨2, 2⟩ 4 "agent" "bob"
      "ready" []
    published := [⟨0, bobAnswer⟩]}

theorem bob_published : Step Char.isAlphanum
    (teamSession (bobTurns (.completed bobRequest bobResult)) bobProgress) (.publish 0)
    answeredSession := by
  have hanswer : askAnswer Char.isAlphanum .contribution bobResult =
      .ok ⟨"agent", "ready", [], false⟩ := by rfl
  have hfirst : ¬(teamSession (bobTurns (.completed bobRequest bobResult)) bobProgress).IsPublished
      0 := by
    rintro ⟨p, hp, _⟩
    exact absurd hp List.not_mem_nil
  exact .publish _ 0 (teamAsk bobKey (.completed bobRequest bobResult) (some bobResult)) bobRequest
    bobResult ⟨"agent", "ready", [], false⟩ noFaults ⟨2, 2⟩ rfl rfl hanswer hfirst

theorem bob_answered : SessionRun Char.isAlphanum
    (teamSession (teamTurns bobKey (.snapshotted (teamOrigin, teamContext))) bobProgress)
    [.ask (.number 0), .ask (.insert 0), .ask (.sent 0), .ask (.receive bobReply),
      .ask (.resume 0), .publish 0] answeredSession :=
  bob_completed.append (.single bob_published)

/-- The answer is none of the messages that its own context ends before. -/
theorem contributions_independent_answered :
    ∃ after : List ChatMessage, bobAnswer ∈ after ∧ Omits 4 after teamContext := by
  obtain ⟨hturns, _⟩ := contributions_independent teamRoom_saved bob_locked
  obtain ⟨round, _, _, hstart, _, _, after, _, _, _, _, _, homits, _, hpublished⟩ :=
    hturns 0 _ _ _ _ teamOrigin teamContext bob_snapshot rfl rfl rfl bob_answered
  exact ⟨after, hpublished ⟨0, bobAnswer⟩ List.mem_cons_self _ rfl rfl hstart, homits⟩

def deskRound : Round := ⟨5, "hello", ["codex"], false, 12⟩

/-- The same after a message in the other room. -/
def deskSession : Session :=
  {answeredSession with
    world := answeredSession.world.after Char.isAlphanum (.send noFaults ⟨3, 3⟩ 5 "hello" [])
    progress := answeredSession.opened}

def deskAsk (phase : AskPhase) : Ask :=
  ⟨5, "codex", codexKey, "hello", .direct, none, phase, none⟩

def askedSession (phase : AskPhase) : Session :=
  {deskSession.moved deskRound ((deskSession.progress deskRound).to (.direct "codex" 1)) with
    turns := {deskSession.turns with asks := deskSession.turns.asks ++ [deskAsk phase]}}

def deskOrigin : LlmOrigin := ⟨.solo, 5, "desk", false⟩

def deskContext : List LlmContextMessage :=
  teamContext ++ [⟨11, 4, "team", "agent", "bob", "ready", 2, []⟩,
    ⟨12, 5, "desk", "user", "你", "hello", 3, []⟩]

theorem desk_asked : SessionRun Char.isAlphanum answeredSession
    [.client (.send noFaults ⟨3, 3⟩ 5 "hello" []),
      .advance deskRound (.call "codex" "hello" .direct none), .ask (.lock 1), .snapshot 1]
    (askedSession (.snapshotted (deskOrigin, deskContext))) := by
  have hround : deskRound ∈ deskSession.world.rounds := by decide
  have hstarting : (deskSession.progress deskRound).stage = .starting := by
    have hnew : deskRound ∉ answeredSession.world.rounds := by decide
    have hopened : answeredSession.opened deskRound = .launched := by
      unfold Session.opened
      exact if_neg hnew
    exact congrArg Progress.stage hopened
  have hsent : Step Char.isAlphanum answeredSession
      (.client (.send noFaults ⟨3, 3⟩ 5 "hello" [])) deskSession :=
    .client _ _ _ trivial ⟨trivial, rfl⟩
  have hcalled : Step Char.isAlphanum deskSession
      (.advance deskRound (.call "codex" "hello" .direct none)) (askedSession .queued) :=
    .call _ deskRound _ "codex" "hello" .direct none _ hround (.direct "codex" [] hstarting rfl rfl)
      (.call _ 5 "codex" codexKey _ _ _ (Identifier.new_asStr codexKey))
  have hfree : ∀ b ∈ (askedSession .queued).turns.asks, b.member = (deskAsk .queued).member →
      ¬b.phase.HoldsTurn := by
    intro b hb hmember
    rcases List.mem_cons.mp hb with rfl | hb
    · exact absurd hmember (by decide)
    · obtain rfl := List.mem_singleton.mp hb
      exact id
  have hlocked : Step Char.isAlphanum (askedSession .queued) (.ask (.lock 1))
      (askedSession .locked) :=
    .ask _ _ _ trivial (.lock _ 1 (deskAsk .queued) rfl rfl hfree)
  have htaken : turnSnapshot (askedSession .locked).world.chat.rooms 5 "codex" none =
      .ok (deskOrigin, deskContext) := by rfl
  have hsnapshot : Step Char.isAlphanum (askedSession .locked) (.snapshot 1)
      (askedSession (.snapshotted (deskOrigin, deskContext))) :=
    .snapshot _ 1 _ (.snapshot _ 1 (deskAsk .locked) _ (deskOrigin, deskContext) rfl rfl htaken)
  exact .cons hsent (.cons hcalled (.cons hlocked (.single hsnapshot)))

/-- A member that is asked in another room first can see an answer of the round in which its
own contribution is still to come. -/
theorem contribution_seen_elsewhere :
    ¬∀ (restored : List ChatRoom) (media : ExtTreeMap String Media.MediaAsset)
      (disk : SnapshotDisk) (events : List Event) (s : Session), SavedRooms restored →
      SessionRun Char.isAlphanum (launchedSession restored media disk) events s →
      ∀ round ∈ s.world.rounds, ∀ p ∈ s.published, ∀ b, s.turns.asks[p.ask]? = some b →
        b.roomId = round.roomId → b.roundStart = some round.roundStart →
        ∀ (i : ℕ) (a : Ask) (origin : LlmOrigin) (context : List LlmContextMessage),
          s.turns.asks[i]? = some a → a.phase = .snapshotted (origin, context) →
          a.member ≠ b.member → (s.progress round).Expects s.IsPublished round a.member →
            ∀ event ∈ context, event.roomId = round.roomId → event.id ≠ p.message.id := by
  intro h
  have hrun := bob_locked.append (.cons bob_snapshot (bob_answered.append desk_asked))
  have hround : teamRound ∈ deskSession.world.rounds := by decide
  have hexpects : (askedSession (.snapshotted (deskOrigin, deskContext))).progress teamRound =
      bobProgress := by
    have hold : teamRound ∈ answeredSession.world.rounds := by decide
    have hopened : answeredSession.opened teamRound = bobProgress := by
      unfold Session.opened
      rw [if_pos hold]
      exact teamSession_progress (bobTurns (.completed bobRequest bobResult)) bobProgress
    have hne : teamRound ≠ deskRound := by decide
    exact (Function.update_of_ne hne ((deskSession.progress deskRound).to (.direct "codex" 1))
      deskSession.progress).trans hopened
  refine h _ _ _ _ _ teamRoom_saved hrun teamRound hround ⟨0, bobAnswer⟩ List.mem_cons_self _ rfl
    rfl rfl 1 _ deskOrigin deskContext rfl rfl (by decide) ?_
    ⟨11, 4, "team", "agent", "bob", "ready", 2, []⟩ (by decide) rfl rfl
  rw [hexpects]
  exact .inr ⟨⟨"codex", .spawned⟩, List.mem_cons_self, rfl, fun j hj => by cases hj⟩

end NormaHarness.Rounds
