import NormaHarness.RoomEdits

/-!
# The life of a room

A message makes its room busy and starts a round; the round ends by making the room
idle again. The checks of sending, sleeping and archiving all ask whether the room is
busy, and so the flags of a room never contradict each other and its rounds never
overlap.
-/
namespace NormaHarness.Chat
open Std Identifiers Contracts LlmProtocol Media FilePrograms

/-- The flags of a room agree with each other. -/
structure Orderly (room : ChatRoom) : Prop where
  active : room.activeMember ≠ none → room.busy = true
  awake : room.busy = true → room.sleeping = false ∧ room.archived = false
  kept : room.incognito = true → room.archived = false

/-- At most one round for each room, and the room is busy while it runs. -/
structure Lifecycle (w : World) : Prop where
  single : (w.rounds.map Round.roomId).Nodup
  inFlight : ∀ round ∈ w.rounds,
    ∃ room, w.chat.rooms.get round.roomId = some room ∧ room.busy = true
  rooms : ∀ id room, w.chat.rooms.get id = some room → Orderly room
  creations : ∀ room ∈ w.creations, Orderly room

/-- A change that keeps busy rooms busy and orderly rooms orderly. -/
structure Tidy (c c' : ChatResident) : Prop where
  kept : ∀ id room, c.rooms.get id = some room → ∃ room', c'.rooms.get id = some room' ∧
    (room.busy = true → room'.busy = true) ∧ (Orderly room → Orderly room')
  free : ∀ id, c.rooms.get id = none → c'.rooms.get id = none

namespace Tidy

theorem of_rooms_eq {c c' : ChatResident} (h : c'.rooms = c.rooms) : Tidy c c' :=
  ⟨fun _ room hroom => ⟨room, h ▸ hroom, id, id⟩, fun _ hfree => h ▸ hfree⟩

theorem refl (c : ChatResident) : Tidy c c := .of_rooms_eq rfl

theorem trans {a b c : ChatResident} (h : Tidy a b) (g : Tidy b c) : Tidy a c := by
  refine ⟨fun id room hroom => ?_, fun id hfree => g.free id (h.free id hfree)⟩
  obtain ⟨room', hroom', hbusy, horderly⟩ := h.kept id room hroom
  obtain ⟨room'', hroom'', hbusy', horderly'⟩ := g.kept id room' hroom'
  exact ⟨room'', hroom'', fun hb => hbusy' (hbusy hb), fun ho => horderly' (horderly ho)⟩

theorem of_put {c c' : ChatResident} {id : ℕ} {room room' : ChatRoom}
    (hroom : c.rooms.get id = some room) (hrooms : c'.rooms = c.rooms.put room')
    (hid : room'.id = room.id) (hbusy : room.busy = true → room'.busy = true)
    (horderly : Orderly room → Orderly room') : Tidy c c' := by
  have hid : room'.id = id := hid.trans (RoomStore.id_of_get hroom)
  refine ⟨fun k other hother => ?_, fun k hfree => ?_⟩
  · by_cases hk : id = k
    · subst hk
      obtain rfl : room = other := Option.some.inj (hroom.symm.trans hother)
      refine ⟨room', ?_, hbusy, horderly⟩
      rw [hrooms, RoomStore.get_put, if_pos hid]
    · refine ⟨other, ?_, fun hb => hb, fun ho => ho⟩
      rw [hrooms, RoomStore.get_put_ne (hid.trans_ne hk), hother]
  · have hk : id ≠ k := by
      rintro rfl
      rw [hroom] at hfree
      cases hfree
    rw [hrooms, RoomStore.get_put_ne (hid.trans_ne hk), hfree]

theorem push (faults : SnapshotFaults) (clock : Clock) (id : ℕ) (role author text : String)
    (media : List MediaAsset) (c : ChatResident) (disk : SnapshotDisk) :
    Tidy c (pushMessageWithMedia faults clock id role author text media c disk).1 := by
  unfold pushMessageWithMedia
  split
  · exact .refl c
  · rename_i room hroom
    exact .of_put hroom rfl rfl (fun hb => hb) fun ho => ⟨ho.active, ho.awake, ho.kept⟩

/-- Marking the speaker is orderly in a busy room. -/
theorem setActive {c : ChatResident} {id : ℕ} {room : ChatRoom} (hroom : c.rooms.get id = some room)
    (hbusy : room.busy = true) (member : Option String) : Tidy c (setActive id member c) := by
  simp only [Chat.setActive, hroom]
  exact .of_put hroom rfl rfl (fun hb => hb) fun ho => ⟨fun _ => hbusy, ho.awake, ho.kept⟩

theorem sleepRoom (limits : SleepLimits) (now : ℕ) (swept : ChatResident × List ChatRoom)
    {room : ChatRoom} (hroom : swept.1.rooms.get room.id = some room) :
    Tidy swept.1 (sleepRoom limits now swept room).1 := by
  unfold Chat.sleepRoom
  split_ifs with hskip
  · exact .refl swept.1
  · have hidle : room.busy = false := by
      simp only [Bool.or_eq_true, not_or, Bool.not_eq_true] at hskip
      exact hskip.2
    have horderly : Orderly room → Orderly (asleep room) := fun ho =>
      ⟨ho.active, fun hb => absurd (hidle.symm.trans hb) (by decide), ho.kept⟩
    exact .of_put hroom rfl rfl (fun hb => hb) horderly
  · exact .of_rooms_eq rfl

theorem sleepDue (faults : SnapshotFaults) (limits : SleepLimits) (now : ℕ) (c : ChatResident)
    (disk : SnapshotDisk) : Tidy c (sleepDue faults limits now c disk).2.1 :=
  sleepDue_relates Tidy.refl (fun _ _ _ first second => first.trans second) faults limits now
    (fun swept _ hroom => .sleepRoom limits now swept hroom) c disk

theorem setArchived (faults : SnapshotFaults) (id : ℕ) (archived : Bool) (c : ChatResident)
    (disk : SnapshotDisk) : Tidy c (setArchived faults id archived c disk).2.1 := by
  unfold Chat.setArchived
  cases h : archivable id c with
  | error error => exact .refl c
  | ok room =>
      obtain ⟨hroom, hidle⟩ := archivable_ok h
      have hordinary : room.incognito = false := by
        simp only [archivable, hroom, hidle, Bool.false_eq_true, if_false] at h
        split_ifs at h with hincognito
        exact Bool.eq_false_iff.mpr hincognito
      simp only [saving_chat]
      refine .of_put hroom rfl rfl (fun hb => hb) fun ho => ⟨ho.active, fun hb => ?_, fun hi => ?_⟩
      · exact absurd (hidle.symm.trans hb) (by decide)
      · exact absurd (hordinary.symm.trans hi) (by decide)

/-- The room of an accepted message was idle, not archived, and is busy now. -/
theorem accepting {isAlphanumeric : Char → Bool} {id : ℕ} {text : String}
    {media : List MediaAsset} {c : ChatResident} {room : ChatRoom} {members : List String}
    (hadmission : admission isAlphanumeric id text media c = .ok (room, members)) (clock : Clock) :
    room.busy = false ∧ Tidy c (accepting c clock text media room) := by
  obtain ⟨hroom, haddressed⟩ := admission_ok hadmission
  unfold addressed at haddressed
  split_ifs at haddressed with hbusy harchived
  all_goals
    refine ⟨Bool.eq_false_iff.mpr hbusy, .of_put hroom rfl rfl (fun _ => rfl) fun ho => ?_⟩
    exact ⟨fun _ => rfl, fun _ => ⟨rfl, Bool.eq_false_iff.mpr harchived⟩, ho.kept⟩

end Tidy

namespace Lifecycle

variable {w w' : World}

theorem tidy (h : Lifecycle w) (ht : Tidy w.chat w'.chat) (hrounds : w'.rounds.Sublist w.rounds)
    (hcreations : ∀ room ∈ w'.creations, Orderly room) : Lifecycle w' := by
  refine ⟨h.single.sublist (hrounds.map _), fun round hround => ?_, fun id room hroom => ?_,
    hcreations⟩
  · obtain ⟨room, hroom, hbusy⟩ := h.inFlight round (hrounds.subset hround)
    obtain ⟨room', hroom', hkept, _⟩ := ht.kept round.roomId room hroom
    exact ⟨room', hroom', hkept hbusy⟩
  · cases hold : w.chat.rooms.get id with
    | none =>
        rw [ht.free id hold] at hroom
        cases hroom
    | some old =>
        obtain ⟨room', hroom', _, horderly⟩ := ht.kept id old hold
        obtain rfl := Option.some.inj (hroom.symm.trans hroom')
        exact horderly (h.rooms id old hold)

/-- A new round in a room that was idle before. -/
theorem started (h : Lifecycle w) {round : Round} {room room' : ChatRoom}
    (hidle : w.chat.rooms.get round.roomId = some room ∧ room.busy = false)
    (hbusy : w'.chat.rooms.get round.roomId = some room' ∧ room'.busy = true)
    (ht : Tidy w.chat w'.chat) (hrounds : w'.rounds = round :: w.rounds)
    (hcreations : w'.creations = w.creations) : Lifecycle w' := by
  have hkept : Lifecycle {w' with rounds := w.rounds} :=
    h.tidy ht (List.Sublist.refl _) (hcreations ▸ h.creations)
  refine ⟨?_, fun other hother => ?_, hkept.rooms, hkept.creations⟩
  · rw [hrounds]
    refine List.nodup_cons.mpr ⟨fun hmem => ?_, h.single⟩
    obtain ⟨other, hother, hid⟩ := List.mem_map.mp hmem
    obtain ⟨found, hfound, hb⟩ := h.inFlight other hother
    rw [hid, hidle.1] at hfound
    obtain rfl := Option.some.inj hfound
    exact absurd (hidle.2.symm.trans hb) (by decide)
  · rw [hrounds] at hother
    rcases List.mem_cons.mp hother with rfl | hother
    · exact ⟨room', hbusy⟩
    · exact hkept.inFlight other hother

theorem created (h : Lifecycle w) {room : ChatRoom} (hfree : w.chat.rooms.get room.id = none)
    (horderly : Orderly room) (hrooms : w'.chat.rooms = w.chat.rooms.put room)
    (hrounds : w'.rounds = w.rounds) (hcreations : w'.creations.Sublist w.creations) :
    Lifecycle w' := by
  refine ⟨hrounds ▸ h.single, fun round hround => ?_, fun id other hother => ?_,
    fun other hother => h.creations other (hcreations.subset hother)⟩
  · obtain ⟨found, hfound, hbusy⟩ := h.inFlight round (hrounds ▸ hround)
    have hne : room.id ≠ round.roomId := by
      intro he
      rw [he, hfound] at hfree
      cases hfree
    exact ⟨found, by rw [hrooms, RoomStore.get_put_ne hne, hfound], hbusy⟩
  · rw [hrooms, RoomStore.get_put] at hother
    split_ifs at hother with hid
    · exact Option.some.inj hother ▸ horderly
    · exact h.rooms id other hother

theorem finished (h : Lifecycle w) {round : Round} (hround : round ∈ w.rounds) {room : ChatRoom}
    (hroom : w.chat.rooms.get round.roomId = some room) (now : ℕ)
    (hrooms : w'.chat.rooms = w.chat.rooms.put
      {room with busy := false, activeMember := none, lastActivityMs := now})
    (hrounds : w'.rounds = w.rounds.erase round) (hcreations : w'.creations = w.creations) :
    Lifecycle w' := by
  have hid : room.id = round.roomId := RoomStore.id_of_get hroom
  have hget : ∀ k, w'.chat.rooms.get k = if round.roomId = k then
      some {room with busy := false, activeMember := none, lastActivityMs := now}
      else w.chat.rooms.get k := by
    intro k
    rw [hrooms, RoomStore.get_put, ← hid]
  refine ⟨?_, fun other hother => ?_, fun id other hother => ?_, hcreations ▸ h.creations⟩
  · rw [hrounds]
    exact h.single.sublist (List.erase_sublist.map _)
  · rw [hrounds] at hother
    have hperm := (List.perm_cons_erase hround).map Round.roomId
    have hnot := (List.nodup_cons.mp (hperm.nodup_iff.mp h.single)).1
    have hne : round.roomId ≠ other.roomId := fun he =>
      hnot (List.mem_map.mpr ⟨other, hother, he.symm⟩)
    rw [hget, if_neg hne]
    exact h.inFlight other (List.mem_of_mem_erase hother)
  · rw [hget] at hother
    split_ifs at hother with hk
    · have horderly := h.rooms round.roomId room hroom
      obtain rfl := Option.some.inj hother
      exact ⟨fun ha => absurd rfl ha, fun hb => Bool.noConfusion hb, horderly.kept⟩
    · exact h.rooms id other hother

end Lifecycle

theorem newRoom_orderly (id : ℕ) (name : String) (members : List String) (incognito : Bool)
    (now : ℕ) : Orderly (newRoom id name members incognito now) :=
  ⟨fun ha => absurd rfl ha, fun hb => Bool.noConfusion hb, fun _ => rfl⟩

/-! ## Runs -/

theorem Lifecycle.send {w : World} (h : Lifecycle w) (isAlphanumeric : Char → Bool)
    (faults : SnapshotFaults) (clock : Clock) (id : ℕ) (text : String)
    (media : List MediaAsset) :
    Lifecycle (w.after isAlphanumeric (.send faults clock id text media)) := by
  have hstep := send_step isAlphanumeric faults clock id text media w.chat w.disk
  simp only [World.after]
  generalize sendUserMessageWithMedia isAlphanumeric faults clock id text media w.chat w.disk = out
    at hstep ⊢
  cases hstep with
  | refused error _ => exact h.tidy (.refl w.chat) (.refl _) h.creations
  | unsaved room members error disk' hadmission _ =>
      exact h.tidy (Tidy.accepting hadmission clock).2 (.refl _) h.creations
  | accepted room members disk' round hadmission _ hround _ =>
      obtain ⟨hidle, ht⟩ := Tidy.accepting hadmission clock
      have hroom := (admission_ok hadmission).1
      have hwoken := RoomStore.get_put_self w.chat.rooms
        (woken w.chat clock (Text.trim text) media room)
      rw [show (woken w.chat clock (Text.trim text) media room).id = round.roomId from
        (RoomStore.id_of_get hroom).trans hround.symm] at hwoken
      exact h.started ⟨hround ▸ hroom, hidle⟩ ⟨hwoken, rfl⟩ ht rfl rfl

/-- Every operation keeps the rooms in order. -/
theorem Lifecycle.step {isAlphanumeric : Char → Bool} {w w' : World} {op : ChatOp}
    (h : Lifecycle w) (hf : Fresh w) (hstep : ChatStep isAlphanumeric w op w') : Lifecycle w' := by
  obtain ⟨henabled, rfl⟩ := hstep
  cases op with
  | enableStorage faults =>
      refine h.tidy ?_ (.refl _) h.creations
      simp only [World.after, World.withSaved, Chat.enableStorage]
      split_ifs
      · exact .refl w.chat
      · rw [saving_chat]
        exact .of_rooms_eq rfl
  | reserveRoom name members incognito now =>
      simp only [World.after, Chat.reserveRoom]
      split
      · exact h.tidy (.refl w.chat) (.refl _) h.creations
      · split
        · exact h.tidy (.refl w.chat) (.refl _) h.creations
        · refine h.tidy (.of_rooms_eq rfl) (.refl _) fun room hroom => ?_
          rcases List.mem_cons.mp hroom with rfl | hroom
          · exact newRoom_orderly _ _ _ _ _
          · exact h.creations room hroom
  | insertRoom faults room =>
      refine h.created (hf.reserved room henabled).2.1 (h.creations room henabled) ?_ rfl
        List.erase_sublist
      simp only [World.after, World.withSaved, insertRoom, saving_chat]
  | ensureSoloRoom faults member name now =>
      have hfree := hf.bounded.nextRoom_free
      simp only [World.after, World.withSaved, Chat.ensureSoloRoom]
      split
      · exact h.tidy (.refl w.chat) (.refl _) h.creations
      · split
        · exact h.tidy (.refl w.chat) (.refl _) h.creations
        · simp only [insertRoom, saving_chat]
          refine h.created ?_ (newRoom_orderly _ _ _ _ _) rfl rfl (.refl _)
          exact hfree
  | ensureIncognitoSoloRoom member name now =>
      have hfree := hf.bounded.nextRoom_free
      simp only [World.after, Chat.ensureIncognitoSoloRoom]
      split
      · exact h.tidy (.refl w.chat) (.refl _) h.creations
      · split
        · exact h.tidy (.refl w.chat) (.refl _) h.creations
        · refine h.created ?_ (newRoom_orderly _ _ _ _ _) rfl rfl (.refl _)
          exact hfree
  | send faults clock id text media => exact h.send isAlphanumeric faults clock id text media
  | push faults clock round role author text media =>
      exact h.tidy (.push faults clock round.roomId role author text media w.chat w.disk) (.refl _)
        h.creations
  | setActive round member =>
      obtain ⟨room, hroom, hbusy⟩ := h.inFlight round henabled
      exact h.tidy (.setActive hroom hbusy member) (.refl _) h.creations
  | finish faults now round =>
      obtain ⟨room, hroom, _⟩ := h.inFlight round henabled
      refine h.finished henabled hroom now ?_ rfl rfl
      simp only [World.after, Chat.finish, hroom]
  | abandon round => exact h.tidy (.refl w.chat) List.erase_sublist h.creations
  | heartbeat now id client =>
      refine h.tidy ?_ (.refl _) h.creations
      simp only [World.after, Chat.heartbeat]
      split_ifs
      · exact .refl w.chat
      · split
        · exact .refl w.chat
        · exact .of_rooms_eq rfl
  | leave now id client => exact h.tidy (.of_rooms_eq rfl) (.refl _) h.creations
  | sleepDue faults limits now =>
      exact h.tidy (.sleepDue faults limits now w.chat w.disk) (.refl _) h.creations
  | setArchived faults id archived =>
      exact h.tidy (.setArchived faults id archived w.chat w.disk) (.refl _) h.creations

/-- A saved snapshot has no incognito rooms. -/
theorem snapshot_ordinary (s : RoomStore) :
    ∀ room ∈ (snapshot s).rooms, room.incognito = false := by
  intro room hroom
  obtain ⟨saved, hsaved, rfl⟩ := List.mem_map.mp hroom
  simpa [encodedRoom] using (List.mem_filter.mp hsaved).2

theorem start_lifecycle {restored : List ChatRoom}
    (hrestored : ∀ room ∈ restored, room.incognito = false)
    (media : ExtTreeMap String MediaAsset) (disk : SnapshotDisk) :
    Lifecycle (start restored media disk) := by
  refine ⟨List.nodup_nil, fun round hround => absurd hround List.not_mem_nil,
    fun id room hroom => ?_, fun room hroom => absurd hroom List.not_mem_nil⟩
  obtain ⟨saved, hmem, rfl⟩ := get_start hroom
  refine ⟨fun ha => absurd rfl ha, fun hb => Bool.noConfusion hb, fun hi => ?_⟩
  exact absurd ((hrestored saved hmem).symm.trans hi) (by decide)

/-- The lifecycle of rooms over every run from a restore. -/
theorem room_lifecycle {isAlphanumeric : Char → Bool} {restored : List ChatRoom}
    {media : ExtTreeMap String MediaAsset} {disk : SnapshotDisk} {ops : List ChatOp} {w : World}
    (hrestored : ∀ room ∈ restored, room.incognito = false)
    (hrun : ChatRun isAlphanumeric (start restored media disk) ops w) : Lifecycle w := by
  have hboth : Fresh w ∧ Lifecycle w := hrun.invariant (P := fun w => Fresh w ∧ Lifecycle w)
    (fun _ _ _ hs step => ⟨(step.fresh hs.1).1, hs.2.step hs.1 step⟩)
    ⟨start_fresh restored media disk, start_lifecycle hrestored media disk⟩
  exact hboth.2

/-- A restored room, asleep, is woken by a message. -/
theorem room_lifecycle_woken :
    let saved := newRoom 4 "team" ["bob"] false 0
    Lifecycle
      ((start [saved] ∅ noFiles).after Char.isAlphanum (.send noFaults ⟨1, 1⟩ 4 "hi" [])) := by
  intro saved
  have hsend : ChatStep Char.isAlphanum (start [saved] ∅ noFiles)
      (.send noFaults ⟨1, 1⟩ 4 "hi" []) _ := ⟨trivial, rfl⟩
  exact room_lifecycle (by decide) (.single hsend)

end NormaHarness.Chat
