import NormaHarness.MentionSelection
import NormaHarness.Rounds

/-!
# The room of a round

A round begins with a user message in a room that was idle. Its members are members of
the room, each of them once, and while it is in flight the clients add nothing to the
room. Whatever else is said there carries a larger identity than the user message.
-/
namespace NormaHarness.Chat
open Std Identifiers Contracts LlmProtocol Media FilePrograms FirstOccurrences

/-! ## Who is in a room -/

/-- Nobody is in a room twice. -/
structure Rostered (w : World) : Prop where
  rooms : ∀ id room, w.chat.rooms.get id = some room → room.members.Nodup
  creations : ∀ room ∈ w.creations, room.members.Nodup

theorem validMembers_nodup {members : List ResidentKey} (h : validMembers members = .ok ()) :
    (members.map Identifier.asStr).Nodup := by
  unfold validMembers at h
  split_ifs at h with _ hcard
  have hnodup : (members : Multiset ResidentKey).Nodup :=
    Multiset.toFinset_card_eq_card_iff_nodup.mp (not_not.mp hcard)
  exact (Multiset.coe_nodup.mp hnodup).map fun a b hab => Identifier.ext hab

theorem creates_nodup {w : World} (h : Rostered w) {op : ChatOp} (henabled : op.Enabled w)
    {room : ChatRoom} (hcreates : op.creates w.chat = some room) : room.members.Nodup := by
  cases op with
  | insertRoom faults reserved =>
      obtain rfl := Option.some.inj hcreates
      exact h.creations reserved henabled
  | ensureSoloRoom faults member name now =>
      simp only [ChatOp.creates] at hcreates
      split at hcreates
      · obtain rfl := Option.some.inj hcreates
        exact List.nodup_singleton _
      · cases hcreates
  | ensureIncognitoSoloRoom member name now =>
      simp only [ChatOp.creates] at hcreates
      split at hcreates
      · obtain rfl := Option.some.inj hcreates
        exact List.nodup_singleton _
      · cases hcreates
  | _ => cases hcreates

theorem reserved_nodup {w : World} (h : Rostered w) (name : String) (members : List ResidentKey)
    (incognito : Bool) (now : ℕ) :
    ∀ room ∈ (w.reserved (reserveRoom name members incognito now w.chat)).creations,
      room.members.Nodup := by
  intro room hroom
  unfold reserveRoom at hroom
  split at hroom
  · exact h.creations room hroom
  · split at hroom
    · exact h.creations room hroom
    · rename_i hvalid
      rcases List.mem_cons.mp hroom with rfl | hroom
      · exact validMembers_nodup hvalid
      · exact h.creations room hroom

theorem ChatStep.rostered {isAlphanumeric : Char → Bool} {w w' : World} {op : ChatOp}
    (hstep : ChatStep isAlphanumeric w op w') (hf : Fresh w) (h : Rostered w) : Rostered w' := by
  have hold : ∀ id record, w.chat.rooms.record id = some record → record.members.Nodup := by
    intro id record hrecord
    obtain ⟨room, hroom, rfl⟩ := exists_of_record hrecord
    exact h.rooms id room hroom
  refine ⟨fun id room hroom => ?_, ?_⟩
  · have hrecord := record_of_get hroom
    cases hstep.effect hf with
    | kept hrecords _ _ =>
        rw [hrecords] at hrecord
        exact hold id _ hrecord
    | appended k record m _ _ hk hrecords _ _ =>
        rcases Sequenced.record_cases hrecords hrecord with ⟨_, he⟩ | ⟨_, hsame⟩
        · have hmembers := hold k record hk
          rw [show room.members = record.members from congrArg RoomRecord.members he]
          exact hmembers
        · exact hold id _ hsame
    | inserted created hcreates _ _ hrecords _ =>
        rcases Sequenced.record_cases hrecords hrecord with ⟨_, he⟩ | ⟨_, hsame⟩
        · rw [show room.members = created.members from congrArg RoomRecord.members he]
          exact creates_nodup h hstep.1 hcreates
        · exact hold id _ hsame
  · obtain ⟨_, rfl⟩ := hstep
    cases op with
    | reserveRoom name members incognito now => exact reserved_nodup h name members incognito now
    | insertRoom faults room =>
        simp only [World.after, World.withSaved]
        exact fun other hother => h.creations other (List.mem_of_mem_erase hother)
    | _ =>
        simp only [World.after, World.withSaved, World.sent]
        exact h.creations

theorem start_rostered {restored : List ChatRoom} (h : ∀ room ∈ restored, room.members.Nodup)
    (media : ExtTreeMap String MediaAsset) (disk : SnapshotDisk) :
    Rostered (start restored media disk) := by
  refine ⟨fun id room hroom => ?_, fun room hroom => absurd hroom List.not_mem_nil⟩
  obtain ⟨saved, hsaved, rfl⟩ := get_start hroom
  exact h saved hsaved

theorem snapshot_rostered {w : World} (h : Rostered w) :
    ∀ room ∈ (snapshot w.chat.rooms).rooms, room.members.Nodup := by
  intro room hroom
  obtain ⟨saved, hsaved, rfl⟩ := List.mem_map.mp hroom
  exact h.rooms saved.id saved (RoomStore.mem_values.mp (List.mem_of_mem_filter hsaved))

/-! ## Whom a message addresses -/

theorem addressed_spec {isAlphanumeric : Char → Bool} {text : String} {room : ChatRoom}
    {members : List String} (h : addressed isAlphanumeric text room = .ok members)
    (hnodup : room.members.Nodup) : members.Nodup ∧ ∀ m ∈ members, m ∈ room.members := by
  unfold addressed at h
  split_ifs at h
  · cases hmentioned : mentionedMembers isAlphanumeric text room.members with
    | error error => simp [hmentioned, Except.map] at h
    | ok mentioned =>
        obtain ⟨hmembers, hout⟩ := selectMembers_ok_iff.mp hmentioned
        have hspec : mentioned.Nodup ∧ ∀ m ∈ mentioned, m ∈ room.members := by
          rw [hout]
          exact ⟨nodup_eraseDups _, fun m hm => hmembers m (List.mem_eraseDups.mp hm)⟩
        rw [hmentioned] at h
        simp only [Except.map, Except.ok.injEq] at h
        split_ifs at h
        · exact h ▸ ⟨hnodup, fun m hm => hm⟩
        · exact h ▸ hspec
  · obtain rfl := Except.ok.inj h
    exact ⟨hnodup, fun m hm => hm⟩

/-- An answer puts members into the queue, and nobody else. -/
theorem enqueueMentions_targets {P : String → Prop} (isAlphanumeric : Char → Bool)
    {source answer : String} {members : List String} {pending : List (String × String)}
    (hmembers : ∀ m ∈ members, P m) (hpending : ∀ q ∈ pending, P q.2) :
    ∀ q ∈ enqueueMentions isAlphanumeric pending source answer members, P q.2 := by
  intro q hq
  rw [enqueueMentions_append] at hq
  rcases List.mem_append.mp hq with hq | hq
  · exact hpending q hq
  · exact hmembers q.2 (mem_enqueueMentions hq).2.2.2.1

/-! ## Where a round begins -/

/-- The room holds the user message with this identity, and what came after it is newer. -/
structure OpenedBy (start : ℕ) (room : ChatRoom) : Prop where
  split : ∃ past user later, room.messages = past ++ user :: later ∧ user.id = start ∧
    user.role = "user" ∧ (∀ m ∈ past, m.id < start) ∧ ∀ m ∈ later, start < m.id

theorem OpenedBy.grown {start next : ℕ} {room room' : ChatRoom} (h : OpenedBy start room)
    (hgrown : Grown next room room') (hnext : start < next) : OpenedBy start room' := by
  obtain ⟨past, user, later, hmessages, hid, hrole, hpast, hlater⟩ := h.split
  obtain ⟨newer, hnewer, hids⟩ := hgrown.messages
  refine ⟨past, user, later ++ newer, ?_, hid, hrole, hpast, fun m hm => ?_⟩
  · rw [hnewer, hmessages, List.append_assoc, List.cons_append]
  · rcases List.mem_append.mp hm with hm | hm
    · exact hlater m hm
    · exact hnext.trans_le (hids m hm)

/-- What stands in the room of a round at any time after its start. -/
structure Placed (c : ChatResident) (round : Round) : Prop where
  room : ∃ room, c.rooms.get round.roomId = some room ∧
    (∀ m ∈ round.members, m ∈ room.members) ∧ OpenedBy round.roundStart room
  distinct : round.members.Nodup
  begun : round.roundStart < c.nextMessage

theorem Placed.extends {c c' : ChatResident} {round : Round} (h : Placed c round)
    (he : Extends c c') : Placed c' round := by
  obtain ⟨room, hroom, hmembers, hopened⟩ := h.room
  obtain ⟨room', hroom', hgrown⟩ := he.kept round.roomId room hroom
  refine ⟨⟨room', hroom', ?_, hopened.grown hgrown h.begun⟩, h.distinct,
    h.begun.trans_le he.nextMessage_le⟩
  rw [hgrown.members]
  exact hmembers

/-- Nothing in the room is newer than the start of the round. -/
def Newest (c : ChatResident) (round : Round) : Prop :=
  ∀ record, c.rooms.record round.roomId = some record →
    ∀ m ∈ record.messages, m.id ≤ round.roundStart

/-- The round of an accepted message addresses the members that the text selects. -/
theorem accepted_round {isAlphanumeric : Char → Bool} {faults : SnapshotFaults} {clock : Clock}
    {id : ℕ} {text : String} {media : List MediaAsset} {chat : ChatResident}
    {disk : SnapshotDisk} {round : Round}
    (h : (sendUserMessageWithMedia isAlphanumeric faults clock id text media chat disk).2.2.2 =
      some round) :
    ∃ room, chat.rooms.get id = some room ∧
      addressed isAlphanumeric (Text.trim text) room = .ok round.members ∧
      round.roomId = id ∧ round.isGroup = decide (1 < room.members.length) ∧
      round.roundStart = chat.nextMessage ∧
      (sendUserMessageWithMedia isAlphanumeric faults clock id text media chat disk).2.1 =
        accepting chat clock (Text.trim text) media room := by
  unfold sendUserMessageWithMedia at h ⊢
  cases hadmission : admission isAlphanumeric id (Text.trim text) media chat with
  | error error => simp [hadmission] at h
  | ok admitted =>
      obtain ⟨room, members⟩ := admitted
      obtain ⟨hroom, haddressed⟩ := admission_ok hadmission
      rcases hsave : saveLocked faults (accepting chat clock (Text.trim text) media room) disk with
        ⟨result, disk'⟩
      cases result with
      | error error => simp [hadmission, saving, hsave] at h
      | ok u =>
          simp only [hadmission, saving, hsave, Option.some.injEq] at h ⊢
          subst round
          exact ⟨room, hroom, haddressed, rfl, rfl, rfl, rfl⟩

/-- The message that starts a round is its first one. -/
theorem accepted_placed {isAlphanumeric : Char → Bool} {faults : SnapshotFaults} {clock : Clock}
    {id : ℕ} {text : String} {media : List MediaAsset} {w : World} {round : Round}
    (hf : Fresh w) (h : Rostered w)
    (hround : (sendUserMessageWithMedia isAlphanumeric faults clock id text media w.chat
      w.disk).2.2.2 = some round) :
    let c := (w.after isAlphanumeric (.send faults clock id text media)).chat
    Placed c round ∧ Newest c round := by
  simp only [World.after, World.sent]
  obtain ⟨room, hroom, haddressed, rfl, _, hstart, hchat⟩ := accepted_round hround
  rw [hchat]
  obtain ⟨hnodup, hmembers⟩ := addressed_spec haddressed (h.rooms _ room hroom)
  have hold := hf.bounded.messageIds _ room hroom
  have hget : (accepting w.chat clock (Text.trim text) media room).rooms.get round.roomId =
      some (woken w.chat clock (Text.trim text) media room) :=
    (RoomStore.get_put _ _ _).trans (if_pos (RoomStore.id_of_get hroom))
  have hopened : OpenedBy round.roundStart
      (woken w.chat clock (Text.trim text) media room) := by
    rw [hstart]
    exact ⟨room.messages, newMessage w.chat "user" "你" (Text.trim text) media clock.createdAt, [],
      rfl, rfl, rfl, hold, fun m hm => by cases hm⟩
  refine ⟨⟨⟨_, hget, hmembers, hopened⟩, hnodup, ?_⟩, fun record hrecord m hm => ?_⟩
  · rw [hstart]
    exact Nat.lt_succ_self _
  · obtain rfl := Option.some.inj ((record_of_get hget).symm.trans hrecord)
    rw [hstart]
    rcases List.mem_append.mp hm with hm | hm
    · exact (hold m hm).le
    · rw [List.mem_singleton.mp hm]
      exact le_rfl

/-- The rounds after an operation of a client: a message may have started one. -/
theorem client_rounds {isAlphanumeric : Char → Bool} {w w' : World} {op : ChatOp}
    (hop : op.OfClient) (hstep : ChatStep isAlphanumeric w op w') (hf : Fresh w)
    (h : Rostered w) : ∀ round ∈ w'.rounds,
      round ∈ w.rounds ∨ Placed w'.chat round ∧ Newest w'.chat round := by
  obtain ⟨_, rfl⟩ := hstep
  intro round hround
  cases op with
  | send faults clock id text media =>
      rcases List.mem_append.mp hround with hnew | hold
      · exact .inr (accepted_placed hf h (Option.mem_toList.mp hnew))
      · exact .inl hold
  | reserveRoom name members incognito now =>
      simp only [World.after] at hround
      cases hreserve : reserveRoom name members incognito now w.chat with
      | error error =>
          rw [hreserve] at hround
          exact .inl hround
      | ok reserved =>
          rw [hreserve] at hround
          exact .inl hround
  | push _ _ _ _ _ _ _ => exact absurd hop id
  | setActive _ _ => exact absurd hop id
  | finish _ _ _ => exact absurd hop id
  | abandon _ => exact absurd hop id
  | _ =>
      simp only [World.after, World.withSaved] at hround
      exact .inl hround

theorem client_keeps_rounds {isAlphanumeric : Char → Bool} {w w' : World} {op : ChatOp}
    (hop : op.OfClient) (hstep : ChatStep isAlphanumeric w op w') :
    ∀ round ∈ w.rounds, round ∈ w'.rounds := by
  obtain ⟨_, rfl⟩ := hstep
  intro round hround
  cases op with
  | send faults clock id text media => exact List.mem_append_right _ hround
  | reserveRoom name members incognito now =>
      simp only [World.after]
      cases reserveRoom name members incognito now w.chat with
      | error error => exact hround
      | ok reserved => exact hround
  | push _ _ _ _ _ _ _ => exact absurd hop id
  | setActive _ _ => exact absurd hop id
  | finish _ _ _ => exact absurd hop id
  | abandon _ => exact absurd hop id
  | _ =>
      simp only [World.after, World.withSaved]
      exact hround

/-! ## What is said in the room of a round -/

/-- Rounds in flight have rooms of their own. -/
theorem Lifecycle.eq_of_room {w : World} (h : Lifecycle w) {round other : Round}
    (hround : round ∈ w.rounds) (hother : other ∈ w.rounds) (hid : round.roomId = other.roomId) :
    round = other :=
  List.inj_on_of_nodup_map h.single hround hother hid

/-- An operation that appends nothing leaves the record of a room. -/
theorem Effect.record_eq {created : Option ChatRoom} {c c' : ChatResident}
    (h : Effect none created c c') {id : ℕ} {room : ChatRoom}
    (hroom : c.rooms.get id = some room) : c'.rooms.record id = c.rooms.record id := by
  cases h with
  | kept hrecords _ _ => rw [hrecords]
  | appended _ _ _ hmessage => cases hmessage
  | inserted other _ hfree _ hrecords _ =>
      have hne : id ≠ other.id := by
        rintro rfl
        rw [hroom] at hfree
        cases hfree
      rw [hrecords, Function.update_of_ne hne]

/-- A busy room takes no message from a client. -/
theorem client_record {isAlphanumeric : Char → Bool} {w w' : World} {op : ChatOp}
    (hop : op.OfClient) (hstep : ChatStep isAlphanumeric w op w') (hf : Fresh w)
    (h : Lifecycle w) {round : Round} (hround : round ∈ w.rounds) :
    w'.chat.rooms.record round.roomId = w.chat.rooms.record round.roomId := by
  obtain ⟨room, hroom, hbusy⟩ := h.inFlight round hround
  have heffect := hstep.effect hf
  cases op with
  | send faults clock id text media =>
      obtain ⟨_, rfl⟩ := hstep
      have hsend := send_step isAlphanumeric faults clock id text media w.chat w.disk
      have hother : ∀ (other : ChatRoom) (members : List String),
          admission isAlphanumeric id (Text.trim text) media w.chat = .ok (other, members) →
          (accepting w.chat clock (Text.trim text) media other).rooms.record round.roomId =
            w.chat.rooms.record round.roomId := by
        intro other members hadmission
        have hget := (admission_ok hadmission).1
        have hidle := (Tidy.accepting hadmission clock).1
        have hne : round.roomId ≠ other.id := by
          intro he
          rw [RoomStore.id_of_get hget] at he
          rw [he, hget] at hroom
          obtain rfl := Option.some.inj hroom
          exact absurd (hidle.symm.trans hbusy) (by decide)
        exact (congrFun (record_put _ _) _).trans (Function.update_of_ne hne _ _)
      simp only [World.after, World.sent]
      generalize sendUserMessageWithMedia isAlphanumeric faults clock id text media w.chat w.disk
        = out at hsend ⊢
      cases hsend with
      | refused error _ => rfl
      | unsaved other members error disk hadmission _ => exact hother other members hadmission
      | accepted other members disk round' hadmission _ _ _ =>
          exact hother other members hadmission
  | push _ _ _ _ _ _ _ => exact absurd hop id
  | setActive _ _ => exact absurd hop id
  | finish _ _ _ => exact absurd hop id
  | abandon _ => exact absurd hop id
  | _ => exact heffect.record_eq hroom

theorem pushed_step (isAlphanumeric : Char → Bool) {w : World} {round : Round} {id : ℕ}
    (hround : round ∈ w.rounds) (hid : round.roomId = id) (faults : SnapshotFaults)
    (clock : Clock) (role author text : String) (media : List MediaAsset) :
    ChatStep isAlphanumeric w (.push faults clock round role author text media)
      (w.pushed faults clock id role author text media) := by
  subst hid
  exact ⟨hround, rfl⟩

/-- A push appends its message to its room and leaves the records of the others. -/
theorem pushed_records (w : World) (faults : SnapshotFaults) (clock : Clock) {id : ℕ}
    (role author text : String) (media : List MediaAsset) {room : ChatRoom}
    (hroom : w.chat.rooms.get id = some room) :
    (w.pushed faults clock id role author text media).chat.rooms.record =
      Function.update w.chat.rooms.record id
        (some (room.record.extended
          (newMessage w.chat role author text media clock.createdAt))) := by
  have hid : room.id = id := RoomStore.id_of_get hroom
  simp only [World.pushed, pushMessageWithMedia, hroom]
  rw [record_put]
  exact congrArg (Function.update w.chat.rooms.record · _) hid

end NormaHarness.Chat
