import NormaHarness.ChatContext
import NormaHarness.ChatRuns

/-!
# The context tool shows the snapshot of its turn

A turn is told the messages it may read as one bound for each room. Later messages
have larger identities and later rooms have no bound, so a query with these bounds
finds the snapshot again, whatever happened in between.
-/
namespace NormaHarness.Chat
open Std Identifiers Contracts LlmProtocol ToolProtocol Media

/-! ## The bounds of a context -/

theorem visibleThrough_concat (context : List LlmContextMessage) (event : LlmContextMessage)
    (k : ℕ) : (visibleThrough (context ++ [event]))[k]? =
      if event.roomId = k then
        some (raised (visibleThrough context)[event.roomId]? event.id)
      else (visibleThrough context)[k]? := by
  simp only [visibleThrough, List.foldl_append, List.foldl_cons, List.foldl_nil,
    ExtTreeMap.getElem?_insert, LawfulEqOrd.compare_eq_iff_eq]

/-- Every event lies below the bound of its room. -/
theorem le_visibleThrough {context : List LlmContextMessage} {event : LlmContextMessage}
    (h : event ∈ context) :
    ∃ last, (visibleThrough context)[event.roomId]? = some last ∧ event.id ≤ last := by
  induction context using List.reverseRecOn with
  | nil => exact absurd h List.not_mem_nil
  | append_singleton context newest ih =>
      rw [visibleThrough_concat]
      rcases List.mem_append.mp h with hold | hnew
      · obtain ⟨last, hlast, hle⟩ := ih hold
        split_ifs with hroom
        · rw [hroom, hlast]
          exact ⟨_, rfl, hle.trans (le_max_left _ _)⟩
        · exact ⟨last, hlast, hle⟩
      · obtain rfl := List.mem_singleton.mp hnew
        rw [if_pos rfl]
        refine ⟨_, rfl, ?_⟩
        unfold raised
        split
        · exact le_max_right _ _
        · exact le_rfl

/-- The bound of a room is the identity of one of its events. -/
theorem visibleThrough_attained {context : List LlmContextMessage} {k last : ℕ}
    (h : (visibleThrough context)[k]? = some last) :
    ∃ event ∈ context, event.roomId = k ∧ event.id = last := by
  induction context using List.reverseRecOn generalizing last with
  | nil => simp [visibleThrough] at h
  | append_singleton context newest ih =>
      have hlast : newest ∈ context ++ [newest] := by simp
      have hold : ∀ {bound : ℕ}, (visibleThrough context)[k]? = some bound →
          ∃ event ∈ context ++ [newest], event.roomId = k ∧ event.id = bound := by
        intro bound hbound
        obtain ⟨event, hevent, hroom, hid⟩ := ih hbound
        exact ⟨event, List.mem_append_left _ hevent, hroom, hid⟩
      rw [visibleThrough_concat] at h
      split_ifs at h with hroom
      · unfold raised at h
        split at h
        · rename_i bound hbound
          rw [hroom] at hbound
          rcases max_choice bound newest.id with hmax | hmax
          · rw [hmax, Option.some.injEq] at h
            exact hold (h ▸ hbound)
          · rw [hmax, Option.some.injEq] at h
            exact ⟨newest, hlast, hroom, h⟩
        · exact ⟨newest, hlast, hroom, Option.some.inj h⟩
      · exact hold h

/-! ## One room, then and later -/

theorem mem_turnContext {s : RoomStore} {id : ℕ} {member : String} {incognito : Bool}
    {roundStart : Option ℕ} {event : LlmContextMessage} :
    event ∈ turnContext s id member incognito roundStart ↔
      ∃ room, s.get event.roomId = some room ∧
        event ∈ turnMessages id member incognito roundStart room := by
  unfold turnContext sortById
  rw [List.mem_insertionSort, List.mem_flatMap]
  have hroomId : ∀ room, event ∈ turnMessages id member incognito roundStart room →
      event.roomId = room.id := by
    intro room h
    unfold turnMessages at h
    split_ifs at h
    · obtain ⟨m, _, rfl⟩ := List.mem_map.mp h
      rfl
    · cases h
  constructor
  · rintro ⟨room, hroom, h⟩
    refine ⟨room, ?_, h⟩
    rw [hroomId room h]
    exact RoomStore.mem_values.mp hroom
  · rintro ⟨room, hroom, h⟩
    refine ⟨room, RoomStore.mem_values.mpr ?_, h⟩
    rw [hroomId room h] at hroom
    exact hroom

section

variable {s : RoomStore} {id : ℕ} {member : String} {incognito : Bool} {roundStart : Option ℕ}

/-- The bound of a room is the identity of one of its messages in the snapshot. -/
theorem turn_bound_attained {k last : ℕ} {room : ChatRoom} (hroom : s.get k = some room)
    (hlast : (visibleThrough (turnContext s id member incognito roundStart))[k]? = some last) :
    ∃ m ∈ room.messages, upToRound id roundStart room m = true ∧ m.id = last := by
  obtain ⟨event, hevent, hroomId, hid⟩ := visibleThrough_attained hlast
  obtain ⟨other, hother, hmem⟩ := mem_turnContext.mp hevent
  rw [hroomId, hroom] at hother
  obtain rfl := Option.some.inj hother
  unfold turnMessages at hmem
  split_ifs at hmem
  · obtain ⟨m, hm, rfl⟩ := List.mem_map.mp hmem
    obtain ⟨hm, hround⟩ := List.mem_filter.mp hm
    exact ⟨m, hm, hround, hid⟩
  · cases hmem

/-- A message of the snapshot is one that the bound of its room admits. -/
theorem upToRound_iff {k last : ℕ} {room : ChatRoom} (hroom : s.get k = some room)
    (hturn : inTurn id member incognito room = true)
    (hlast : (visibleThrough (turnContext s id member incognito roundStart))[k]? = some last)
    {m : ChatMessage} (hm : m ∈ room.messages) :
    upToRound id roundStart room m = true ↔ m.id ≤ last := by
  have hroomId : (contextMessage room m).roomId = k := RoomStore.id_of_get hroom
  constructor
  · intro hround
    have hevent : contextMessage room m ∈ turnContext s id member incognito roundStart := by
      refine mem_turnContext.mpr ⟨room, hroomId ▸ hroom, ?_⟩
      unfold turnMessages
      rw [if_pos hturn]
      exact List.mem_map_of_mem (List.mem_filter.mpr ⟨hm, hround⟩)
    obtain ⟨bound, hbound, hle⟩ := le_visibleThrough hevent
    rw [hroomId, hlast] at hbound
    rw [Option.some.inj hbound]
    exact hle
  · intro hle
    obtain ⟨newest, _, hround, hnewest⟩ := turn_bound_attained hroom hlast
    unfold upToRound at hround ⊢
    cases roundStart with
    | none => simp
    | some start =>
        simp only [Bool.or_eq_true, Option.all_some, decide_eq_true_eq] at hround ⊢
        exact hround.imp_right fun hstart => by omega

/-- No event of the room is in the snapshot. -/
theorem turnMessages_eq_nil {k : ℕ} {room : ChatRoom} (hroom : s.get k = some room)
    (hnone : (visibleThrough (turnContext s id member incognito roundStart))[k]? = none) :
    turnMessages id member incognito roundStart room = [] := by
  refine List.eq_nil_iff_forall_not_mem.mpr fun event hevent => ?_
  have hroomId : event.roomId = k := by
    unfold turnMessages at hevent
    split_ifs at hevent
    · obtain ⟨m, _, rfl⟩ := List.mem_map.mp hevent
      exact RoomStore.id_of_get hroom
    · cases hevent
  obtain ⟨last, hlast, _⟩ :=
    le_visibleThrough (mem_turnContext.mpr ⟨room, hroomId ▸ hroom, hevent⟩)
  rw [hroomId, hnone] at hlast
  cases hlast

/-- A later version of a room answers with what the snapshot took from the earlier one. -/
theorem queryMessages_grown {next k limit : ℕ} {callId : String} {room room' : ChatRoom}
    (hroom : s.get k = some room) (hids : ∀ m ∈ room.messages, m.id < next)
    (hgrown : Grown next room room') :
    queryMessages ⟨⟨callId, id, visibleThrough (turnContext s id member incognito roundStart),
      true, none, limit⟩, member⟩ incognito room' =
        turnMessages id member incognito roundStart room := by
  have hid : room.id = k := RoomStore.id_of_get hroom
  have hlabel : contextMessage room' = contextMessage room := by
    funext m
    simp [contextMessage, hgrown.id, hgrown.name]
  unfold queryMessages inScope
  rw [hgrown.id, hgrown.members, hgrown.incognito, hid]
  cases hlast : (visibleThrough (turnContext s id member incognito roundStart))[k]? with
  | none =>
      rw [turnMessages_eq_nil hroom hlast]
      simp
  | some last =>
      have hcontains : (visibleThrough (turnContext s id member incognito roundStart)).contains k =
          true := by
        rw [ExtTreeMap.contains_eq_isSome_getElem?, hlast]
        rfl
      cases hturn : inTurn id member incognito room with
      | false =>
          unfold turnMessages
          rw [hturn]
          unfold inTurn at hturn
          rw [hid] at hturn
          rw [hcontains, Bool.and_true, Bool.true_or, Bool.and_true, hturn]
          rfl
      | true =>
          obtain ⟨later, hmessages, hlater⟩ := hgrown.messages
          obtain ⟨newest, hnewest, _, hbound⟩ := turn_bound_attained hroom hlast
          have hlt := hids newest hnewest
          have hlaterHidden : later.filter (inPage ⟨callId, id,
              visibleThrough (turnContext s id member incognito roundStart), true, none, limit⟩
              last) = [] := by
            refine List.filter_eq_nil_iff.mpr fun m hm => ?_
            have hnew := hlater m hm
            simp only [inPage, Option.all_none, Bool.and_true, decide_eq_true_eq]
            omega
          have holdShown : room.messages.filter (inPage ⟨callId, id,
              visibleThrough (turnContext s id member incognito roundStart), true, none, limit⟩
              last) = room.messages.filter (upToRound id roundStart room) := by
            refine List.filter_congr fun m hm => ?_
            rw [Bool.eq_iff_iff, upToRound_iff hroom hturn hlast hm]
            simp [inPage]
          have hscope : (room.members.contains member && true && (true || k == id) &&
              if incognito = true then k == id else !room.incognito) = true := by
            unfold inTurn at hturn
            rw [hid] at hturn
            rw [Bool.and_true, Bool.true_or, Bool.and_true, hturn]
          unfold turnMessages
          rw [if_pos hturn, hcontains, if_pos hscope]
          simp only
          rw [hmessages, List.filter_append, hlaterHidden, holdShown, List.append_nil, hlabel]

/-- A room that the snapshot did not have answers nothing. -/
theorem queryMessages_new {k limit : ℕ} {callId : String} {room' : ChatRoom}
    (hid : room'.id = k) (hnone : s.get k = none) :
    queryMessages ⟨⟨callId, id, visibleThrough (turnContext s id member incognito roundStart),
      true, none, limit⟩, member⟩ incognito room' = [] := by
  cases hlast : (visibleThrough (turnContext s id member incognito roundStart))[k]? with
  | none => simp [queryMessages, inScope, hid, hlast]
  | some last =>
      obtain ⟨event, hevent, hroomId, _⟩ := visibleThrough_attained hlast
      obtain ⟨room, hroom, _⟩ := mem_turnContext.mp hevent
      rw [hroomId, hnone] at hroom
      cases hroom

end

/-- What matches a query with the bounds of a snapshot is the snapshot. -/
theorem matching_turnContext {chat chat' : ChatResident} (hb : Bounded chat)
    (h : Extends chat chat') (id limit : ℕ) (callId member : String) (incognito : Bool)
    (roundStart : Option ℕ) :
    matching chat'.rooms ⟨⟨callId, id,
      visibleThrough (turnContext chat.rooms id member incognito roundStart), true, none, limit⟩,
      member⟩ incognito = turnContext chat.rooms id member incognito roundStart := by
  have hthen : turnContext chat.rooms id member incognito roundStart =
      sortById (OrderedMaps.listing chat.rooms.rooms fun _ room =>
        turnMessages id member incognito roundStart room) :=
    congrArg sortById (RoomStore.flatMap_values _ _)
  refine (congrArg sortById (RoomStore.flatMap_values _ _)).trans (Eq.trans ?_ hthen.symm)
  refine congrArg sortById (OrderedMaps.listing_congr fun k => ?_)
  cases hroom : chat.rooms.get k with
  | some room =>
      obtain ⟨room', hroom', hgrown⟩ := h.kept k room hroom
      rw [OrderedMaps.contribution_of_some hroom, OrderedMaps.contribution_of_some hroom']
      exact queryMessages_grown hroom (hb.messageIds k room hroom) hgrown
  | none =>
      rw [OrderedMaps.contribution_of_none hroom]
      cases hroom' : chat'.rooms.get k with
      | none => rw [OrderedMaps.contribution_of_none hroom']
      | some room' =>
          rw [OrderedMaps.contribution_of_some hroom']
          exact queryMessages_new (RoomStore.id_of_get hroom') hroom

/-- A member's query with the bounds of its turn's context returns that context, after any
further operations. -/
theorem context_tool_shows_snapshot {isAlphanumeric : Char → Bool} {restored : List ChatRoom}
    {media : ExtTreeMap String MediaAsset} {disk : SnapshotDisk} {ops later : List ChatOp}
    {w w' : World} (hrun : ChatRun isAlphanumeric (start restored media disk) ops w)
    (hlater : ChatRun isAlphanumeric w later w')
    {id : ℕ} {room : ChatRoom} (hroom : w.chat.rooms.get id = some room)
    {member : String} (hmember : member ∈ room.members)
    {roundStart : Option ℕ} {origin : LlmOrigin} {context : List LlmContextMessage}
    (hsnapshot : turnSnapshot w.chat.rooms id member roundStart = .ok (origin, context))
    (requestId prompt callId : String) (turnKind : LlmChatTurnKind) (limit : ℕ) :
    let turn := askRequest requestId prompt turnKind (origin, context)
    let query : ChatContextQuery := ⟨contextToolRequest turn origin callId true none limit, member⟩
    matching w'.chat.rooms query origin.incognito = context ∧
      ((matching w'.chat.rooms query origin.incognito).length ≤ limit →
        chatContextFor w'.chat.rooms query =
          some ⟨callId, id, some room.name, context, false, none, none⟩) := by
  have hfresh := run_fresh hrun (start_fresh restored media disk)
  have hextends := run_extends hlater hfresh
  unfold turnSnapshot at hsnapshot
  simp only [hroom, Except.ok.injEq, Prod.mk.injEq] at hsnapshot
  obtain ⟨rfl, rfl⟩ := hsnapshot
  have hid : room.id = id := RoomStore.id_of_get hroom
  intro turn query
  have hquery : query = ⟨⟨callId, id, visibleThrough
      (turnContext w.chat.rooms id member room.incognito roundStart), true, none, limit⟩,
      member⟩ :=
    congrArg (fun k => ChatContextQuery.mk ⟨callId, k, visibleThrough
      (turnContext w.chat.rooms id member room.incognito roundStart), true, none, limit⟩ member) hid
  have hmatching : matching w'.chat.rooms query (turnOrigin room).incognito =
      turnContext w.chat.rooms id member room.incognito roundStart := by
    rw [hquery]
    exact matching_turnContext hfresh.bounded hextends id limit callId member room.incognito
      roundStart
  refine ⟨hmatching, fun hlimit => ?_⟩
  obtain ⟨room', hroom', hgrown⟩ := hextends.kept id room hroom
  have hincognito : room'.incognito = (turnOrigin room).incognito := hgrown.incognito
  rw [hquery] at hmatching hlimit ⊢
  unfold chatContextFor
  simp only [hroom', hgrown.members, hmember, if_true, hincognito]
  unfold page
  rw [if_neg (by simpa using hlimit), hmatching, hgrown.name]

/-- A room whose first message opened a round. -/
def greeted : List ChatOp :=
  [.ensureSoloRoom noFaults codexKey "Codex" 0, .send noFaults ⟨1, 1⟩ 1 "hello" []]

def greetedWorld : World := greeted.foldl (World.after Char.isAlphanum) (start [] ∅ noFiles)

def greetedRound : Round := ⟨1, "hello", ["codex"], false, 1⟩

def answered : ChatOp := .push noFaults ⟨2, 2⟩ greetedRound "agent" "codex" "hi" []

/-- The answer that was published meanwhile stays hidden. -/
theorem context_tool_shows_snapshot_answered :
    chatContextFor (greetedWorld.after Char.isAlphanum answered).chat.rooms
      ⟨⟨"call-1", 1, visibleThrough [⟨1, 1, "Codex", "user", "你", "hello", 1, []⟩], true, none, 1⟩,
        "codex"⟩ =
      some ⟨"call-1", 1, some "Codex", [⟨1, 1, "Codex", "user", "你", "hello", 1, []⟩], false, none,
        none⟩ := by
  have hrun : ChatRun Char.isAlphanum (start [] ∅ noFiles) greeted greetedWorld :=
    .cons ⟨trivial, rfl⟩ (.cons ⟨trivial, rfl⟩ (.nil _))
  have hopen : greetedRound ∈ greetedWorld.rounds := by decide
  have hlater : ChatRun Char.isAlphanum greetedWorld [answered]
      (greetedWorld.after Char.isAlphanum answered) := .single ⟨hopen, rfl⟩
  have hroom : greetedWorld.chat.rooms.get 1 = some ⟨1, "Codex", ["codex"],
      [⟨1, "user", "你", "hello", 1, [], []⟩], true, none, false, 0, 1, false, false⟩ := by rfl
  have hsnapshot : turnSnapshot greetedWorld.chat.rooms 1 "codex" none =
      .ok (⟨.solo, 1, "Codex", false⟩, [⟨1, 1, "Codex", "user", "你", "hello", 1, []⟩]) := by rfl
  have h := context_tool_shows_snapshot hrun hlater hroom List.mem_cons_self hsnapshot
    "chat-1-1" "hello" "call-1" .direct 1
  exact h.2 (by rw [h.1]; decide)

end NormaHarness.Chat
