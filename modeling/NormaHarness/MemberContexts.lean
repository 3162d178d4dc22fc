import NormaHarness.ContextSnapshot
import NormaHarness.SessionInvariant

/-!
# A member knows what it has said

The turns of a member follow each other, in whatever rooms they are. A turn takes its
context after the earlier ones have published their answers. The cut-off of a contribution
hides what was said in its room since the round began, and this member has said nothing
there since: a round asks each member for one contribution, and no other round is running
in the room.
-/
namespace NormaHarness.Rounds
open Std Identifiers Contracts LlmProtocol Chat Asks FilePrograms

variable {isAlphanumeric : Char → Bool} {s s' : Session}

/-- What an ask has read when it takes its snapshot. -/
theorem snapshot_taken {i : ℕ} (h : Step isAlphanumeric s (.snapshot i) s') {a : Ask}
    {origin : LlmOrigin} {context : List LlmContextMessage} (ha : s'.turns.asks[i]? = some a)
    (hphase : a.phase = .snapshotted (origin, context)) :
    ∃ b, s.turns.asks[i]? = some b ∧ b.phase = .locked ∧ SameCall b a ∧
      turnSnapshot s.world.chat.rooms a.roomId a.member a.roundStart = .ok (origin, context) := by
  cases h with
  | snapshot _ t hstep =>
      cases hstep with
      | missing _ b _ error hb _ _ =>
          obtain rfl := Option.some.inj (ha.symm.trans (set_get_self hb))
          cases hphase
      | snapshot _ b _ taken hb hlocked htaken =>
          obtain rfl := Option.some.inj (ha.symm.trans (set_get_self hb))
          obtain rfl := AskPhase.snapshotted.inj hphase
          exact ⟨b, hb, hlocked, .of_phase b _, htaken⟩

theorem turnSnapshot_ok {rooms : RoomStore} {id : ℕ} {member : String} {roundStart : Option ℕ}
    {origin : LlmOrigin} {context : List LlmContextMessage}
    (h : turnSnapshot rooms id member roundStart = .ok (origin, context)) :
    ∃ room, rooms.get id = some room ∧ origin = turnOrigin room ∧
      context = turnContext rooms id member room.incognito roundStart := by
  unfold turnSnapshot at h
  split at h
  · cases h
  · rename_i room hroom
    obtain ⟨rfl, rfl⟩ := Prod.mk.inj (Except.ok.inj h)
    exact ⟨room, hroom, rfl, rfl⟩

/-- What a turn in room `id` may read of room `other`. -/
def Visible (c : ChatResident) (id other : ℕ) : Prop :=
  other = id ∨ ∃ room room', c.rooms.get id = some room ∧ c.rooms.get other = some room' ∧
    room.incognito = false ∧ room'.incognito = false

theorem inTurn_of_visible {c : ChatResident} {id other : ℕ} {member : String}
    {room room' : ChatRoom} (hroom : c.rooms.get id = some room)
    (hother : c.rooms.get other = some room') (hmember : member ∈ room'.members)
    (h : Visible c id other) : inTurn id member room.incognito room' = true := by
  unfold inTurn
  rw [Bool.and_eq_true, List.contains_iff_mem]
  refine ⟨hmember, ?_⟩
  rcases h with rfl | ⟨r, r', hr, hr', hordinary, hordinary'⟩
  · obtain rfl := Option.some.inj (hroom.symm.trans hother)
    cases hincognito : room.incognito with
    | true => simp [RoomStore.id_of_get hroom]
    | false => simp
  · obtain rfl := Option.some.inj (hroom.symm.trans hr)
    obtain rfl := Option.some.inj (hother.symm.trans hr')
    simp [hordinary, hordinary']

/-- While a contribution takes its context, its member has said nothing in the round. -/
theorem Consistent.contributor_unheard (hc : Consistent isAlphanumeric s) {i start : ℕ} {a : Ask}
    (ha : s.turns.asks[i]? = some a) (hphase : a.phase = .locked)
    (hstart : a.roundStart = some start) :
    ∃ round ∈ s.world.rounds, round.roomId = a.roomId ∧ round.roundStart = start ∧
      Unheard s.world.chat round a.member := by
  obtain ⟨round, hround, hroom, hruns⟩ := hc.owned i a ha (by rw [hphase]; rfl)
  have hu := hc.underway round hround
  rcases hruns with hask | ⟨c, hmem, hask⟩
  · obtain ⟨b, hb, _, hnone⟩ := hu.manned.staged i hask
    obtain rfl := Option.some.inj (ha.symm.trans hb)
    rw [hstart] at hnone
    cases hnone
  · obtain ⟨b, hb, _, hmember, hcut⟩ := hu.manned.asking c hmem i hask
    obtain rfl := Option.some.inj (ha.symm.trans hb)
    refine ⟨round, hround, hroom, Option.some.inj (hcut.symm.trans hstart), ?_⟩
    refine hu.unheard a.member (.inr ⟨c, hmem, hmember.symm, fun j hj hpublished => ?_⟩)
    obtain ⟨p, hp, rfl⟩ := hpublished
    obtain ⟨b, hentered⟩ := hc.entered p hp
    obtain rfl := ContributionState.asking.inj (hask.symm.trans hj)
    obtain rfl := Option.some.inj (ha.symm.trans hentered.asked)
    obtain ⟨request, result, answer, hdone, _⟩ := hentered.answer
    rw [hphase] at hdone
    exact hdone

/-- No cut-off hides from a member what it has said itself. -/
theorem Consistent.own_answers_in_context (hc : Consistent isAlphanumeric s) {i : ℕ} {a b : Ask}
    {origin : LlmOrigin} {context : List LlmContextMessage} (hb : s.turns.asks[i]? = some b)
    (hlocked : b.phase = .locked) (hcall : SameCall b a)
    (htaken : turnSnapshot s.world.chat.rooms a.roomId a.member a.roundStart =
      .ok (origin, context)) {id : ℕ} {room : ChatRoom}
    (hroom : s.world.chat.rooms.get id = some room) (hmember : a.member ∈ room.members)
    (hvisible : Visible s.world.chat a.roomId id) {m : ChatMessage} (hm : m ∈ room.messages)
    (hanswer : IsAnswer a.member m) : contextMessage room m ∈ context := by
  obtain ⟨current, hcurrent, _, rfl⟩ := turnSnapshot_ok htaken
  have hid : room.id = id := RoomStore.id_of_get hroom
  have hget : s.world.chat.rooms.get room.id = some room := by rw [hid, hroom]
  refine mem_turnContext.mpr ⟨room, hget, ?_⟩
  unfold turnMessages
  rw [if_pos (inTurn_of_visible hcurrent hroom hmember hvisible)]
  refine List.mem_map_of_mem (List.mem_filter.mpr ⟨hm, ?_⟩)
  unfold upToRound
  by_cases hsame : room.id = a.roomId
  · cases hstart : a.roundStart with
    | none => simp
    | some start =>
        obtain ⟨round, _, hround, rfl, hunheard⟩ :=
          hc.contributor_unheard hb hlocked (hcall.roundStart.symm.trans hstart)
        have hrecord : s.world.chat.rooms.record round.roomId = some room.record := by
          rw [hround, ← hcall.roomId, ← hsame, hid]
          exact record_of_get hroom
        rw [hcall.member] at hanswer
        have hle : m.id ≤ round.roundStart :=
          Nat.le_of_not_lt fun hnew => hunheard room.record hrecord m hm hnew hanswer
        simp [hle]
  · simp [hsame]

/-- In every interleaving, a member has at most one request outstanding, and when one of
its turns takes its context, everything that the member has said in the rooms it can see
is in it: the answers of its earlier turns, and those of earlier processes. -/
theorem member_turns_serialized {restored : List ChatRoom}
    {media : ExtTreeMap String Media.MediaAsset} {disk : SnapshotDisk} {events : List Event}
    (hsaved : SavedRooms restored)
    (hrun : SessionRun isAlphanumeric (launchedSession restored media disk) events s) :
    (∀ (i j : ℕ) (a b : Ask) (k l : String), s.turns.asks[i]? = some a →
      s.turns.asks[j]? = some b → a.member = b.member → a.phase.Live k → b.phase.Live l → i = j) ∧
    (∀ (j : ℕ) (b : Ask) (request : LlmTurnRequest) (result : LlmTurnResult) (text : String),
      s.turns.asks[j]? = some b → b.phase = .returned request result (.ok text) →
        ∃ p ∈ s.published, p.ask = j ∧ p.message.text = text) ∧
    ∀ (i : ℕ) (s' : Session) (a : Ask) (origin : LlmOrigin) (context : List LlmContextMessage),
      Step isAlphanumeric s (.snapshot i) s' → s'.turns.asks[i]? = some a →
      a.phase = .snapshotted (origin, context) →
        (∀ p ∈ s.published, ∀ b, s.turns.asks[p.ask]? = some b → b.member = a.member →
          Visible s.world.chat a.roomId b.roomId → ∃ room,
            s.world.chat.rooms.get b.roomId = some room ∧ p.message ∈ room.messages ∧
            p.message.author = a.member ∧ contextMessage room p.message ∈ context) ∧
        (∀ (id : ℕ) (room : ChatRoom), s.world.chat.rooms.get id = some room →
          a.member ∈ room.members → Visible s.world.chat a.roomId id →
            ∀ m ∈ room.messages, IsAnswer a.member m → contextMessage room m ∈ context) := by
  have hc := run_consistent hrun (launched_consistent isAlphanumeric hsaved media disk)
  refine ⟨fun i j a b k l hi hj hmember hk hl => ?_, fun j b request result text hj hphase =>
    hc.concluded j b request result text hj hphase, ?_⟩
  · exact hc.serial i j a b hi hj hmember (Live.holdsTurn hk) (Live.holdsTurn hl)
  · intro i s' a origin context hstep ha hphase
    obtain ⟨b, hb, hlocked, hcall, htaken⟩ := snapshot_taken hstep ha hphase
    refine ⟨fun p hp c hasked hmember hvisible => ?_, fun id room hroom hmember hvisible m hm =>
      hc.own_answers_in_context hb hlocked hcall htaken hroom hmember hvisible hm⟩
    obtain ⟨c', hentered⟩ := hc.entered p hp
    obtain rfl := Option.some.inj (hasked.symm.trans hentered.asked)
    obtain ⟨room, hroom, hmem⟩ := hentered.kept
    obtain ⟨room', hroom', hseat, _⟩ := (hc.seated p.ask c hasked).room
    obtain rfl := Option.some.inj (hroom.symm.trans hroom')
    have hanswer : IsAnswer a.member p.message := hmember ▸ hentered.isAnswer
    exact ⟨room, hroom, hmem, hanswer.1, hc.own_answers_in_context hb hlocked hcall htaken hroom
      (hmember ▸ hseat) hvisible hmem hanswer⟩

/-! ## A contribution after a restart -/

def bobKey : ResidentKey := ⟨"bob", by decide⟩

/-- A group with one answer from an earlier process. -/
def teamRoom : ChatRoom :=
  {newRoom 4 "team" ["codex", "bob"] false 0 with
    messages := [⟨9, "agent", "codex", "hi", 0, [], []⟩]}

/-- Another room of one of its members. -/
def deskRoom : ChatRoom := newRoom 5 "desk" ["codex"] false 0

def teamRound : Round := ⟨4, "again", ["codex", "bob"], true, 10⟩

def teamAsk (member : ResidentKey) (phase : AskPhase) (reply : Option LlmTurnResult) : Ask :=
  ⟨4, member.asStr, member, contributionPrompt "again" member.asStr, .contribution, some 10, phase,
    reply⟩

/-- The join set after its tasks have started. -/
def teamProgress (codex bob : ContributionState) : Progress :=
  ⟨.joining [], [⟨"codex", codex⟩, ⟨"bob", bob⟩], ["codex", "bob"]⟩

/-- The group after a message of the user. -/
def teamSession (turns : Turns) (p : Progress) : Session where
  world := (start [teamRoom, deskRoom] ∅ noFiles).after Char.isAlphanum
    (.send noFaults ⟨1, 1⟩ 4 "again" [])
  turns := turns
  progress := Function.update (fun _ => .launched) teamRound p
  published := []

/-- The first ask of the session, a contribution. -/
def teamTurns (member : ResidentKey) (phase : AskPhase) : Turns :=
  ⟨∅, 1, [teamAsk member phase none], []⟩

theorem teamSession_progress (turns : Turns) (p : Progress) :
    (teamSession turns p).progress teamRound = p := by
  unfold teamSession
  simp only [Function.update_self]

theorem teamSession_moved (turns turns' : Turns) (p q : Progress) :
    {(teamSession turns p).moved teamRound q with turns := turns'} = teamSession turns' q := by
  simp only [teamSession, Session.moved, Function.update_idem]

theorem teamSession_spawned :
    SessionRun Char.isAlphanum (launchedSession [teamRoom, deskRoom] ∅ noFiles)
      [.client (.send noFaults ⟨1, 1⟩ 4 "again" []), .advance teamRound .proceed]
      (teamSession Turns.launched (teamProgress .spawned .spawned)) := by
  have hround : teamRound ∈ (teamSession Turns.launched .launched).world.rounds := by decide
  have hopened : (launchedSession [teamRoom, deskRoom] ∅ noFiles).opened =
      Function.update (fun _ => .launched) teamRound .launched := by
    funext round
    rw [Function.update_apply, ite_self]
    exact if_neg List.not_mem_nil
  have hsent : Step Char.isAlphanum (launchedSession [teamRoom, deskRoom] ∅ noFiles)
      (.client (.send noFaults ⟨1, 1⟩ 4 "again" [])) (teamSession Turns.launched .launched) := by
    unfold teamSession
    rw [← hopened]
    exact .client _ _ _ trivial ⟨trivial, rfl⟩
  have hspawned : Step Char.isAlphanum (teamSession Turns.launched .launched)
      (.advance teamRound .proceed)
      (teamSession Turns.launched (teamProgress .spawned .spawned)) := by
    rw [← teamSession_moved Turns.launched Turns.launched .launched
      (teamProgress .spawned .spawned)]
    refine .proceed _ teamRound _ hround ?_
    rw [teamSession_progress]
    exact .spawn rfl rfl
  exact .cons hsent (.single hspawned)

/-- The first contribution of a member is called and takes the lock. -/
theorem teamSession_locked (member : ResidentKey) {p : Progress}
    (hadvance : Advance Char.isAlphanum Turns.launched
      ((teamSession Turns.launched (teamProgress .spawned .spawned)).roomMembers 4) teamRound
      (teamProgress .spawned .spawned) (.call member.asStr
        (contributionPrompt "again" member.asStr) .contribution (some 10)) p) :
    SessionRun Char.isAlphanum (launchedSession [teamRoom, deskRoom] ∅ noFiles)
      [.client (.send noFaults ⟨1, 1⟩ 4 "again" []), .advance teamRound .proceed,
        .advance teamRound (.call member.asStr (contributionPrompt "again" member.asStr)
          .contribution (some 10)), .ask (.lock 0)]
      (teamSession (teamTurns member .locked) p) := by
  have hround : teamRound ∈ (teamSession Turns.launched .launched).world.rounds := by decide
  have hcalled : Step Char.isAlphanum
      (teamSession Turns.launched (teamProgress .spawned .spawned))
      (.advance teamRound (.call member.asStr (contributionPrompt "again" member.asStr)
        .contribution (some 10))) (teamSession (teamTurns member .queued) p) := by
    rw [← teamSession_moved Turns.launched (teamTurns member .queued)
      (teamProgress .spawned .spawned) p]
    refine .call _ teamRound _ member.asStr _ .contribution (some 10) _ hround ?_
      (.call _ 4 member.asStr member _ _ _ (Identifier.new_asStr member))
    rw [teamSession_progress]
    exact hadvance
  have hfree : ∀ b ∈ (teamTurns member .queued).asks,
      b.member = (teamAsk member .queued none).member → ¬b.phase.HoldsTurn := by
    intro b hb _
    obtain rfl := List.mem_singleton.mp hb
    exact id
  have hlocked : Step Char.isAlphanum (teamSession (teamTurns member .queued) p)
      (.ask (.lock 0)) (teamSession (teamTurns member .locked) p) :=
    .ask _ _ _ trivial (.lock _ 0 (teamAsk member .queued none) rfl rfl hfree)
  exact teamSession_spawned.append (.cons hcalled (.single hlocked))

def teamOrigin : LlmOrigin := ⟨.group, 4, "team", false⟩

def teamContext : List LlmContextMessage :=
  [⟨9, 4, "team", "agent", "codex", "hi", 0, []⟩, ⟨10, 4, "team", "user", "你", "again", 1, []⟩]

theorem teamSession_snapshot (member : ResidentKey) (p : Progress)
    (htaken : turnSnapshot (teamSession Turns.launched .launched).world.chat.rooms 4 member.asStr
      (some 10) = .ok (teamOrigin, teamContext)) :
    Step Char.isAlphanum (teamSession (teamTurns member .locked) p) (.snapshot 0)
      (teamSession (teamTurns member (.snapshotted (teamOrigin, teamContext))) p) :=
  .snapshot _ 0 _ (.snapshot _ 0 (teamAsk member .locked none) _ (teamOrigin, teamContext) rfl rfl
    htaken)

theorem teamRoom_saved : SavedRooms [teamRoom, deskRoom] := ⟨by decide, by decide⟩

/-- The cut-off at the message 10 does not hide the answer 9. -/
theorem member_turns_serialized_restart :
    Step Char.isAlphanum (teamSession (teamTurns codexKey .locked)
      (teamProgress (.asking 0) .spawned)) (.snapshot 0)
      (teamSession (teamTurns codexKey (.snapshotted (teamOrigin, teamContext)))
        (teamProgress (.asking 0) .spawned)) ∧
      contextMessage teamRoom ⟨9, "agent", "codex", "hi", 0, [], []⟩ ∈ teamContext := by
  have hrun := teamSession_locked codexKey (.contribute "codex" [] [⟨"bob", .spawned⟩] rfl)
  have hsnapshot := teamSession_snapshot codexKey (teamProgress (.asking 0) .spawned) (by rfl)
  obtain ⟨_, _, hcontext⟩ := member_turns_serialized teamRoom_saved hrun
  obtain ⟨_, hown⟩ := hcontext 0 _ _ teamOrigin teamContext hsnapshot rfl rfl
  have hanswer : IsAnswer "codex" ⟨9, "agent", "codex", "hi", 0, [], []⟩ := ⟨rfl, .inl rfl⟩
  exact ⟨hsnapshot, hown 4 _ rfl List.mem_cons_self (.inl rfl) _ List.mem_cons_self hanswer⟩

end NormaHarness.Rounds
