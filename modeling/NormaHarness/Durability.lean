import NormaHarness.ServerRuns

/-!
# Acknowledged messages survive

A user message is saved before it is acknowledged. Later saves keep it because
histories only grow, a failed or interrupted save leaves a snapshot that has it, and a
restart restores it. Two things undo this: a rollback that brings back a backup from
before the message, and an asset that shares its identity with an attachment but looks
different, since a restart looks attachments up by identity.
-/
namespace NormaHarness.Chat
open Std Identifiers Contracts LlmProtocol Media FilePrograms

/-- What a client was told: the room, the position and the message. -/
structure Acknowledged where
  roomId : ℕ
  position : ℕ
  message : ChatMessage

structure SameMessage (m m' : ChatMessage) : Prop where
  id : m.id = m'.id
  author : m.author = m'.author
  text : m.text = m'.text
  attachments : m.attachments = m'.attachments

/-- An asset under the identity of one of the attachments looks like it. -/
def Agrees (views : List MediaView) (assets : List MediaAsset) : Prop :=
  ∀ asset ∈ assets, ∀ view ∈ views, asset.id = view.id → asset.view = view

/-- The rooms have the message, and no ordinary room has an asset that contradicts it. -/
structure Keeps (a : Acknowledged) (s : RoomStore) : Prop where
  present : ∃ room, s.record a.roomId = some room ∧ room.incognito = false ∧
    ∃ m, room.messages[a.position]? = some m ∧ SameMessage m a.message
  agrees : ∀ id room, s.record id = some room → room.incognito = false →
    ∀ m ∈ room.messages, Agrees a.message.attachments m.media

/-- The disk loads a snapshot of rooms that have the message. -/
def Remembers (a : Acknowledged) (disk : SnapshotDisk) : Prop :=
  Intact disk ∧ ∃ s, load disk = .ok (some (snapshot s)) ∧ Keeps a s

section

variable {a : Acknowledged} {c c' : ChatResident} {s t : RoomStore} {disk : SnapshotDisk}
  {faults : SnapshotFaults}

/-! ## In memory -/

theorem Keeps.of_record_eq (h : Keeps a s) (hrecord : t.record = s.record) : Keeps a t :=
  ⟨hrecord ▸ h.present, hrecord ▸ h.agrees⟩

/-- A step keeps the message, unless it adds an asset that contradicts it. -/
theorem Keeps.effect {message : Option (ℕ × ChatMessage)} {created : Option ChatRoom}
    (h : Keeps a c.rooms) (heffect : Effect message created c c')
    (hmedia : ∀ id m room, message = some (id, m) → c.rooms.record id = some room →
      room.incognito = false → Agrees a.message.attachments m.media) : Keeps a c'.rooms := by
  obtain ⟨kept, hkept, hordinary, m, hm, hsame⟩ := h.present
  cases heffect with
  | kept hrecord _ _ => exact h.of_record_eq hrecord
  | appended id room new hmessage _ hroom hrecords _ _ =>
      refine ⟨?_, fun k other hother hother' x hx => ?_⟩
      · rw [hrecords, Function.update_apply]
        split_ifs with hid
        · rw [hid] at hkept
          obtain rfl := Option.some.inj (hroom.symm.trans hkept)
          refine ⟨_, rfl, hordinary, m, ?_, hsame⟩
          have hlt := (List.getElem?_eq_some_iff.mp hm).1
          rw [RoomRecord.extended, List.getElem?_append_left hlt, hm]
        · exact ⟨kept, hkept, hordinary, m, hm, hsame⟩
      · rw [hrecords, Function.update_apply] at hother
        split_ifs at hother with hid
        · obtain rfl := Option.some.inj hother
          rcases List.mem_append.mp hx with hold | hnew
          · exact h.agrees id room hroom hother' x hold
          · obtain rfl := List.mem_singleton.mp hnew
            exact hmedia id x room hmessage hroom hother'
        · exact h.agrees k other hother hother' x hx
  | inserted room _ hfree hempty hrecords _ =>
      refine ⟨?_, fun k other hother hother' x hx => ?_⟩
      · have hne : a.roomId ≠ room.id := by
          intro he
          simp [RoomStore.record, he, hfree] at hkept
        rw [hrecords, Function.update_of_ne hne]
        exact ⟨kept, hkept, hordinary, m, hm, hsame⟩
      · rw [hrecords, Function.update_apply] at hother
        split_ifs at hother
        · obtain rfl := Option.some.inj hother
          rw [show room.record.messages = [] from hempty] at hx
          cases hx
        · exact h.agrees k other hother hother' x hx

/-! ## On disk -/

/-- A save that is stopped, and does not get to a stale rollback. -/
theorem Remembers.stopped (h : Remembers a disk) (ht : Keeps a t) {calls : ℕ}
    (hroll : RollsBackStale faults disk → calls < 7) (pending : Option (Content ChatSnapshot)) :
    Remembers a (stoppedSave faults calls pending (snapshot t) disk) := by
  obtain ⟨hintact, s, hload, hs⟩ := h
  let history : StorageHistory := ⟨disk, none, []⟩
  let attempt : SaveAttempt := ⟨snapshot t, faults, some (calls, pending)⟩
  have hsound : ¬history.RollsBack attempt := fun hstale =>
    absurd (hstale.2 calls pending rfl) (Nat.not_le_of_lt (hroll hstale.1))
  have hrecoverable := StorageHistory.crash_recoverable (a := attempt) hintact hsound rfl
  refine ⟨hrecoverable.1, ?_⟩
  rcases hrecoverable.2 with hbefore | hafter
  · exact ⟨s, hbefore.trans hload, hs⟩
  · exact ⟨t, hafter, ht⟩

/-- A save that returns. -/
theorem Remembers.saved (h : Remembers a disk) (ht : Keeps a t)
    (hroll : ¬RollsBackStale faults disk) :
    Remembers a (exec faults (saveProgram (snapshot t)) disk).2 := by
  obtain ⟨hintact, s, hload, hs⟩ := h
  obtain ⟨hintact', hsettled⟩ := (save_guarded (snapshot t) hintact hroll).at_end
  refine ⟨hintact', ?_⟩
  cases hresult : (exec faults (saveProgram (snapshot t)) disk).1 with
  | ok u =>
      rw [hresult] at hsettled
      exact ⟨t, hsettled, ht⟩
  | error error =>
      rw [hresult] at hsettled
      exact ⟨s, hsettled.trans hload, hs⟩

/-- A save that reports success. -/
theorem remembers_of_ok (hintact : Intact disk) (ht : Keeps a t)
    (hok : (exec faults (saveProgram (snapshot t)) disk).1 = .ok ()) :
    Remembers a (exec faults (saveProgram (snapshot t)) disk).2 := by
  have hroll : ¬RollsBackStale faults disk := by
    intro hstale
    obtain ⟨error, herror⟩ := (errs_save faults (snapshot t) disk).mpr hstale.fails
    rw [hok] at herror
    cases herror
  obtain ⟨hintact', hsettled⟩ := (save_guarded (snapshot t) hintact hroll).at_end
  rw [hok] at hsettled
  exact ⟨hintact', t, hsettled, ht⟩

/-! ## Restoring -/

/-- Assets collected by identity are among those that were collected. -/
theorem collected_mem {assets : List MediaAsset} {media : ExtTreeMap String MediaAsset}
    {id : String} {asset : MediaAsset}
    (h : (assets.foldl (fun media asset => media.insert asset.id asset) media)[id]? = some asset) :
    asset ∈ assets ∧ asset.id = id ∨ media[id]? = some asset := by
  induction assets generalizing media with
  | nil => exact .inr h
  | cons first assets ih =>
      rcases ih h with ⟨hmem, hid⟩ | hearlier
      · exact .inl ⟨List.mem_cons_of_mem _ hmem, hid⟩
      · rw [ExtTreeMap.getElem?_insert] at hearlier
        split_ifs at hearlier with hid
        · obtain rfl := Option.some.inj hearlier
          exact .inl ⟨List.mem_cons_self, LawfulEqOrd.compare_eq_iff_eq.mp hid⟩
        · exact .inr hearlier

/-- The media of a snapshot come from the ordinary rooms. -/
theorem mem_snapshot_media {asset : MediaAsset} (h : asset ∈ (snapshot s).media) :
    ∃ id room, s.record id = some room ∧ room.incognito = false ∧
      ∃ m ∈ room.messages, asset ∈ m.media := by
  obtain ⟨⟨id, found⟩, hmem, rfl⟩ := List.mem_map.mp h
  have hget := ExtTreeMap.mem_toList_iff_getElem?_eq_some.mp hmem
  rcases collected_mem hget with ⟨hasset, _⟩ | hnone
  · obtain ⟨room, hroom, hassets⟩ := List.mem_flatMap.mp hasset
    obtain ⟨m, hm, hmedia⟩ := List.mem_flatMap.mp hassets
    obtain ⟨hvalue, hordinary⟩ := List.mem_filter.mp hroom
    refine ⟨room.id, room.record, record_of_get (RoomStore.mem_values.mp hvalue), ?_, m, hm, hmedia⟩
    simpa [ChatRoom.record] using hordinary
  · simp at hnone

theorem restoredMedia_mem {saved : ChatSnapshot} {id : String} {asset : MediaAsset}
    (h : (restoredMedia saved)[id]? = some asset) : asset ∈ saved.media ∧ asset.id = id := by
  rcases collected_mem h with hmem | hnone
  · exact hmem
  · simp at hnone

/-- An asset that a restart finds agrees with the message. -/
theorem Keeps.restored_agrees (h : Keeps a s) {id : String} {asset : MediaAsset}
    (hasset : (restoredMedia (snapshot s))[id]? = some asset) :
    Agrees a.message.attachments [asset] := by
  obtain ⟨k, room, hroom, hordinary, m, hm, hmedia⟩ :=
    mem_snapshot_media (restoredMedia_mem hasset).1
  intro other hother view hview hid
  obtain rfl := List.mem_singleton.mp hother
  exact h.agrees k room hroom hordinary m hm other hmedia view hview hid

theorem Keeps.restored_attachments (h : Keeps a s) :
    a.message.attachments.map (fun view =>
      (((restoredMedia (snapshot s))[view.id]?).map MediaAsset.view).getD view) =
        a.message.attachments := by
  refine (List.map_congr_left fun view hview => ?_).trans (List.map_id _)
  cases hasset : (restoredMedia (snapshot s))[view.id]? with
  | none => rfl
  | some asset =>
      exact h.restored_agrees hasset asset List.mem_cons_self view hview
        (restoredMedia_mem hasset).2

theorem snapshot_rooms_nodup (s : RoomStore) : ((snapshot s).rooms.map ChatRoom.id).Nodup := by
  have hids : (snapshot s).rooms.map ChatRoom.id =
      (s.values.filter fun room => !room.incognito).map ChatRoom.id := by
    simp [snapshot, encodedRoom]
  rw [hids]
  exact (values_nodup s).sublist (List.filter_sublist.map _)

/-- The ordinary rooms are the rooms of the snapshot. -/
theorem encodedRoom_mem {room : ChatRoom} {id : ℕ} (hroom : s.get id = some room)
    (hordinary : room.incognito = false) : encodedRoom room ∈ (snapshot s).rooms := by
  refine List.mem_map.mpr ⟨room, List.mem_filter.mpr ⟨?_, by simp [hordinary]⟩, rfl⟩
  rw [RoomStore.mem_values, RoomStore.id_of_get hroom, hroom]

/-- A restart finds the message again. -/
theorem Keeps.restored (h : Keeps a s) (disk : SnapshotDisk) :
    Keeps a (start (snapshot s).rooms (restoredMedia (snapshot s)) disk).chat.rooms := by
  obtain ⟨record, hrecord, hordinary, m, hm, hsame⟩ := h.present
  obtain ⟨room, hroom, rfl⟩ := exists_of_record hrecord
  refine ⟨?_, fun id record' hrecord' _ m' hm' => ?_⟩
  · have hid : room.id = a.roomId := RoomStore.id_of_get hroom
    have hget := get_restoreRooms_mem (restoredMedia (snapshot s)) (snapshot_rooms_nodup s)
      (encodedRoom_mem hroom hordinary) launch
    rw [show (encodedRoom room).id = a.roomId from hid] at hget
    refine ⟨_, record_of_get hget, hordinary, restoredMessage (restoredMedia (snapshot s))
      {m with media := []}, ?_, hsame.id, hsame.author, hsame.text, ?_⟩
    · have hm : room.messages[a.position]? = some m := hm
      simp [ChatRoom.record, restoredRoom, encodedRoom, hm]
    · simp only [restoredMessage, hsame.attachments]
      exact h.restored_attachments
  · obtain ⟨room', hroom', rfl⟩ := exists_of_record hrecord'
    obtain ⟨saved, _, rfl⟩ := get_start hroom'
    obtain ⟨x, _, rfl⟩ := List.mem_map.mp hm'
    intro asset hasset view hview hid
    obtain ⟨found, _, hfound⟩ := List.mem_filterMap.mp hasset
    exact h.restored_agrees hfound asset List.mem_cons_self view hview hid

end

/-! ## Servers -/

/-- Assets that an operation adds to an ordinary room agree with the attachments. -/
def AddsAgreeing (views : List MediaView) (w : World) (op : ChatOp) : Prop :=
  ∀ id m room, op.message w.chat = some (id, m) → w.chat.rooms.get id = some room →
    room.incognito = false → Agrees views m.media

/-- The save of the event does not get to a stale rollback, and the event adds no asset
that contradicts the attachments. -/
def ServerEvent.Sound (isAlphanumeric : Char → Bool) (views : List MediaView) :
    Server → ServerEvent → Prop
  | .running w, .op chatOp => AddsAgreeing views w chatOp ∧
      ∀ faults, chatOp.save isAlphanumeric w = some faults → ¬RollsBackStale faults w.disk
  | .running w, .crash chatOp calls _ => AddsAgreeing views w chatOp ∧
      ∀ faults, chatOp.save isAlphanumeric w = some faults →
        RollsBackStale faults w.disk → calls < 7
  | .down disk, .restart faults => ¬RollsBackStale faults disk
  | .down disk, .crashAtStart faults calls _ => RollsBackStale faults disk → calls < 7
  | _, _ => True

/-- A server that is well-formed, whatever its snapshot holds. -/
def Server.Sane : Server → Prop
  | .running w => Fresh w ∧ w.chat.storageEnabled = true ∧ Intact w.disk
  | .down disk => Intact disk

/-- A server that has the message, in memory while it runs and on its disk. -/
def Server.Holds (a : Acknowledged) : Server → Prop
  | .running w =>
      Fresh w ∧ w.chat.storageEnabled = true ∧ Keeps a w.chat.rooms ∧ Remembers a w.disk
  | .down disk => Remembers a disk

section

variable {isAlphanumeric : Char → Bool} {a : Acknowledged} {server server' : Server}
  {event : ServerEvent}

theorem stoppedSave_intact {disk : SnapshotDisk} (h : Intact disk) (faults : SnapshotFaults)
    (calls : ℕ) (pending : Option (Content ChatSnapshot)) (content : ChatSnapshot) :
    Intact (stoppedSave faults calls pending content disk) := by
  refine (Intact.cut faults content h calls).congr ?_ ?_
  · exact Function.update_of_ne (by decide) _ _
  · exact Function.update_of_ne (by decide) _ _

theorem savedDisk_intact {disk : SnapshotDisk} (h : Intact disk) (save : Option SnapshotFaults)
    (content : ChatSnapshot) : Intact (savedDisk save content disk) := by
  cases save with
  | none => exact h
  | some faults => exact Intact.exec faults content h

theorem boot_start {disk : SnapshotDisk} {w : World} (h : boot disk = .ok w) :
    ∃ restored media, w = start restored media disk := by
  unfold boot at h
  split at h
  · cases h
  · exact ⟨[], ∅, (Except.ok.inj h).symm⟩
  · exact ⟨_, _, (Except.ok.inj h).symm⟩

theorem enableStorage_enabled {faults : SnapshotFaults} (w : World) :
    (w.after isAlphanumeric (.enableStorage faults)).chat.storageEnabled = true := by
  simp only [World.after, World.withSaved, enableStorage]
  split_ifs with h
  · exact h
  · rw [saving_chat]

theorem boot_disk {disk : SnapshotDisk} {w : World} (hboot : boot disk = .ok w) :
    w.disk = disk := by
  obtain ⟨restored, media, rfl⟩ := boot_start hboot
  rfl

/-- The first save of a restarted server. -/
theorem boot_fresh {disk : SnapshotDisk} {w : World} (hboot : boot disk = .ok w)
    (faults : SnapshotFaults) : Fresh (w.after isAlphanumeric (.enableStorage faults)) := by
  obtain ⟨restored, media, rfl⟩ := boot_start hboot
  have hstep : ChatStep isAlphanumeric (start restored media disk) (.enableStorage faults) _ :=
    ⟨trivial, rfl⟩
  exact (hstep.fresh (start_fresh restored media disk)).1

theorem Server.Sane.step (h : server.Sane)
    (hstep : ServerStep isAlphanumeric server event server') :
    server'.Sane := by
  cases hstep with
  | op hchat =>
      obtain ⟨hf, henabled, hintact⟩ := h
      refine ⟨(hchat.fresh hf).1, storageEnabled_kept hchat henabled, ?_⟩
      obtain ⟨_, rfl⟩ := hchat
      rw [after_disk]
      exact savedDisk_intact hintact _ _
  | stop w => exact h.2.2
  | crash calls pending hchat hsave => exact stoppedSave_intact h.2.2 _ calls pending _
  | started hboot _ =>
      refine ⟨boot_fresh hboot _, enableStorage_enabled _, ?_⟩
      rw [after_disk, boot_disk hboot]
      exact savedDisk_intact h _ _
  | refused hboot _ =>
      simp only [Server.Sane]
      rw [after_disk, boot_disk hboot]
      exact savedDisk_intact h _ _
  | unreadable _ => exact h
  | crashAtStart faults calls pending _ => exact stoppedSave_intact h faults calls pending _

theorem AddsAgreeing.effect {w w' : World} {op : ChatOp} (h : Keeps a w.chat.rooms)
    (hadds : AddsAgreeing a.message.attachments w op) (hf : Fresh w)
    (hstep : ChatStep isAlphanumeric w op w') : Keeps a w'.chat.rooms := by
  refine h.effect (hstep.effect hf) fun id m record hmessage hrecord hordinary => ?_
  obtain ⟨room, hroom, rfl⟩ := exists_of_record hrecord
  exact hadds id m room hmessage hroom hordinary

theorem Remembers.savedDisk {disk : SnapshotDisk} {t : RoomStore} (h : Remembers a disk)
    (ht : Keeps a t) {save : Option SnapshotFaults}
    (hroll : ∀ faults, save = some faults → ¬RollsBackStale faults disk) :
    Remembers a (savedDisk save (snapshot t) disk) := by
  cases save with
  | none => exact h
  | some faults => exact h.saved ht (hroll faults rfl)

/-- A restart from a disk that has the message. -/
theorem Remembers.boot {disk : SnapshotDisk} {w : World} (h : Remembers a disk)
    (hboot : boot disk = .ok w) : Keeps a w.chat.rooms := by
  obtain ⟨_, s, hload, hs⟩ := h
  simp only [Chat.boot, hload, Except.ok.injEq] at hboot
  subst hboot
  exact hs.restored disk

theorem enableStorage_rooms (w : World) (faults : SnapshotFaults) :
    (w.after isAlphanumeric (.enableStorage faults)).chat.rooms = w.chat.rooms := by
  simp only [World.after, World.withSaved, enableStorage]
  split_ifs
  · rfl
  · rw [saving_chat]

theorem save_enableStorage {w : World} {faults faults' : SnapshotFaults}
    (h : ChatOp.save isAlphanumeric w (.enableStorage faults) = some faults') :
    faults' = faults := by
  simp only [ChatOp.save] at h
  split_ifs at h
  exact (Option.some.inj h).symm

/-- Every sound event keeps the message. -/
theorem Server.Holds.step (h : server.Holds a)
    (hstep : ServerStep isAlphanumeric server event server')
    (hsound : event.Sound isAlphanumeric a.message.attachments server) : server'.Holds a := by
  cases hstep with
  | op hchat =>
      obtain ⟨hf, henabled, hkeeps, hdisk⟩ := h
      obtain ⟨hadds, hroll⟩ := hsound
      have hkeeps' := hadds.effect hkeeps hf hchat
      refine ⟨(hchat.fresh hf).1, storageEnabled_kept hchat henabled, hkeeps', ?_⟩
      obtain ⟨_, rfl⟩ := hchat
      rw [after_disk]
      exact hdisk.savedDisk hkeeps' hroll
  | stop w => exact h.2.2.2
  | crash calls pending hchat hsave =>
      obtain ⟨hf, _, hkeeps, hdisk⟩ := h
      obtain ⟨hadds, hroll⟩ := hsound
      exact hdisk.stopped (hadds.effect hkeeps hf hchat) (hroll _ hsave) pending
  | started hboot _ =>
      have hkeeps := h.boot hboot
      refine ⟨boot_fresh hboot _, enableStorage_enabled _, ?_, ?_⟩
      · rw [enableStorage_rooms]
        exact hkeeps
      · rw [after_disk, boot_disk hboot, enableStorage_rooms]
        exact h.savedDisk hkeeps fun faults hsave => save_enableStorage hsave ▸ hsound
  | refused hboot _ =>
      simp only [Server.Holds]
      rw [after_disk, boot_disk hboot, enableStorage_rooms]
      exact h.savedDisk (h.boot hboot) fun faults hsave => save_enableStorage hsave ▸ hsound
  | unreadable _ => exact h
  | crashAtStart faults calls pending hboot => exact h.stopped (h.boot hboot) hsound pending

theorem Server.Holds.remembers (h : server.Holds a) : Remembers a server.disk := by
  cases server with
  | running w => exact h.2.2.2
  | down disk => exact h

/-- What a client may find in the snapshot of a disk that has its message. -/
theorem Remembers.found {disk : SnapshotDisk} (h : Remembers a disk) :
    ∃ saved, load disk = .ok (some saved) ∧ ∃ kept ∈ saved.rooms, kept.id = a.roomId ∧
      ∃ m, kept.messages[a.position]? = some m ∧ SameMessage m a.message := by
  obtain ⟨_, s, hload, hkeeps⟩ := h
  obtain ⟨record, hrecord, hordinary, m, hm, hsame⟩ := hkeeps.present
  obtain ⟨room, hroom, rfl⟩ := exists_of_record hrecord
  have hid : room.id = a.roomId := RoomStore.id_of_get hroom
  refine ⟨snapshot s, hload, encodedRoom room, encodedRoom_mem hroom hordinary, hid,
    {m with media := []}, ?_, hsame.id, hsame.author, hsame.text, hsame.attachments⟩
  have hm : room.messages[a.position]? = some m := hm
  simp [encodedRoom, hm]

/-- The state in which a user message is acknowledged. -/
theorem acknowledged_holds {w : World} {faults : SnapshotFaults} {clock : Clock} {id : ℕ}
    {text : String} {media : List MediaAsset} {room : ChatRoom} {message : ChatMessage}
    (hsane : (Server.running w).Sane)
    (hsent : (sendUserMessageWithMedia isAlphanumeric faults clock id text media w.chat w.disk).1 =
      .ok room)
    (hordinary : room.incognito = false) (hmessage : room.messages.getLast? = some message)
    (hagree : ∀ k other,
      (w.after isAlphanumeric (.send faults clock id text media)).chat.rooms.get k = some other →
        other.incognito = false → ∀ m ∈ other.messages, Agrees message.attachments m.media) :
    (Server.running (w.after isAlphanumeric (.send faults clock id text media))).Holds
      ⟨id, room.messages.length - 1, message⟩ := by
  obtain ⟨hf, henabled, hintact⟩ := hsane
  have hchat : ChatStep isAlphanumeric w (.send faults clock id text media) _ := ⟨trivial, rfl⟩
  refine ⟨(hchat.fresh hf).1, storageEnabled_kept hchat henabled, ?_⟩
  have hstep := send_step isAlphanumeric faults clock id text media w.chat w.disk
  simp only [World.after, World.sent] at hagree ⊢
  generalize sendUserMessageWithMedia isAlphanumeric faults clock id text media w.chat w.disk = out
    at hstep hsent hagree ⊢
  cases hstep with
  | refused error _ => cases hsent
  | unsaved found members error disk' _ _ => cases hsent
  | accepted found members disk' round hadmission hsave _ _ =>
      obtain rfl := Except.ok.inj hsent
      have hfound := (admission_ok hadmission).1
      have hid : found.id = id := RoomStore.id_of_get hfound
      have hget := RoomStore.get_put_self w.chat.rooms
        (woken w.chat clock (Text.trim text) media found)
      rw [show (woken w.chat clock (Text.trim text) media found).id = id from hid] at hget
      have hkeeps : Keeps
          ⟨id, (woken w.chat clock (Text.trim text) media found).messages.length - 1, message⟩
          (accepting w.chat clock (Text.trim text) media found).rooms := by
        refine ⟨⟨_, record_of_get hget, hordinary, message, ?_, rfl, rfl, rfl, rfl⟩, ?_⟩
        · exact List.getLast?_eq_getElem?.symm.trans hmessage
        · intro k record hrecord hordinary' m hm
          obtain ⟨other, hother, rfl⟩ := exists_of_record hrecord
          exact hagree k other hother hordinary' m hm
      refine ⟨hkeeps, ?_⟩
      unfold saveLocked at hsave
      rw [show (accepting w.chat clock (Text.trim text) media found).storageEnabled = true from
        henabled, if_pos rfl] at hsave
      split at hsave
      · rename_i saved hexec
        obtain ⟨_, rfl⟩ := Prod.mk.inj hsave
        have hremembers := remembers_of_ok hintact hkeeps (by rw [hexec])
        rw [hexec] at hremembers
        exact hremembers
      · cases hsave

end

/-- From an empty directory: an acknowledged message of an ordinary room is found in the
loaded snapshot after every sequence of sound events. -/
theorem acknowledged_survives {isAlphanumeric : Char → Bool} {before after : List ServerEvent}
    {w : World} {faults : SnapshotFaults} {clock : Clock} {id : ℕ} {text : String}
    {media : List MediaAsset} {room : ChatRoom} {message : ChatMessage} {server : Server}
    (hbefore : Executions.Run (ServerStep isAlphanumeric) (.down noFiles) before (.running w))
    (hsent : (sendUserMessageWithMedia isAlphanumeric faults clock id text media w.chat w.disk).1 =
      .ok room)
    (hordinary : room.incognito = false) (hmessage : room.messages.getLast? = some message)
    (hagree : ∀ k other,
      (w.after isAlphanumeric (.send faults clock id text media)).chat.rooms.get k = some other →
        other.incognito = false → ∀ m ∈ other.messages, Agrees message.attachments m.media)
    (hafter : Executions.Run (fun server event server' =>
        ServerStep isAlphanumeric server event server' ∧
          event.Sound isAlphanumeric message.attachments server)
      (.running (w.after isAlphanumeric (.send faults clock id text media))) after server) :
    ∃ saved, load server.disk = .ok (some saved) ∧ ∃ kept ∈ saved.rooms, kept.id = id ∧
      ∃ m, kept.messages[room.messages.length - 1]? = some m ∧ SameMessage m message := by
  have hempty : (Server.down noFiles).Sane := StorageHistory.empty_sound.intact
  have hsane : (Server.running w).Sane :=
    hbefore.invariant (fun _ _ _ hs step => hs.step step) hempty
  have hholds := acknowledged_holds hsane hsent hordinary hmessage hagree
  exact (hafter.invariant (fun _ _ _ hs step => hs.step step.1 step.2) hholds).remembers.found

/-! ## A lost message -/

/-- A server that was launched in an empty directory and made one room. -/
def plansWorld : World :=
  ((start [] ∅ noFiles).after Char.isAlphanum (.enableStorage noFaults)).after Char.isAlphanum
    (.ensureSoloRoom noFaults codexKey "Plans" 0)

def helloSend : ChatOp := .send noFaults ⟨1, 1⟩ 1 "hello" []

def helloWorld : World := plansWorld.after Char.isAlphanum helloSend

def helloMessage : ChatMessage := ⟨1, "user", "你", "hello", 1, [], []⟩

def helloRoom : ChatRoom :=
  ⟨1, "Plans", ["codex"], [helloMessage], true, none, false, 0, 1, false, false⟩

theorem plansWorld_run : Executions.Run (ServerStep Char.isAlphanum) (.down noFiles)
    [.restart noFaults, .op (.ensureSoloRoom noFaults codexKey "Plans" 0)]
    (.running plansWorld) :=
  .cons (.started rfl rfl) (.single (.op ⟨trivial, rfl⟩))

/-- The round that the message starts, and the answer that it ends with. -/
def helloRound : Round := ⟨1, "hello", ["codex"], false, 1⟩

def helloAnswer (faults : SnapshotFaults) : ChatOp :=
  .push faults ⟨2, 2⟩ helloRound "agent" "codex" "hi" []

def answeredWorld : World := helloWorld.after Char.isAlphanum (helloAnswer noFaults)

theorem helloAnswer_step (faults : SnapshotFaults) : ChatStep Char.isAlphanum helloWorld
    (helloAnswer faults) (helloWorld.after Char.isAlphanum (helloAnswer faults)) :=
  ⟨(by decide : helloRound ∈ helloWorld.rounds), rfl⟩

/-- The save of the answer misses the main file, cannot rename the pending one, and rolls
back to the snapshot from before the message. -/
theorem acknowledged_lost :
    Executions.Run (ServerStep Char.isAlphanum) (.down noFiles)
        [.restart noFaults, .op (.ensureSoloRoom noFaults codexKey "Plans" 0)]
        (.running plansWorld) ∧
      (sendUserMessageWithMedia Char.isAlphanum noFaults ⟨1, 1⟩ 1 "hello" [] plansWorld.chat
        plansWorld.disk).1 = .ok helloRoom ∧
      ∃ server, Executions.Run (ServerStep Char.isAlphanum) (.running helloWorld)
          [.op (helloAnswer StorageHistory.missedMain)] server ∧
        ¬∃ saved, load server.disk = .ok (some saved) ∧ ∃ kept ∈ saved.rooms, kept.id = 1 ∧
          ∃ m, kept.messages[helloRoom.messages.length - 1]? = some m ∧
            SameMessage m helloMessage := by
  refine ⟨plansWorld_run, rfl, _, .single (.op (helloAnswer_step _)), ?_⟩
  rintro ⟨saved, hload, kept, hkept, -, m, hm, -⟩
  have hstale : saved = snapshot plansWorld.chat.rooms :=
    (Option.some.inj (Except.ok.inj hload)).symm
  have hsilent : ∀ room ∈ (snapshot plansWorld.chat.rooms).rooms, room.messages = [] := by decide
  rw [hsilent kept (hstale ▸ hkept)] at hm
  cases hm

/-- The round answers, and the process dies during the save at its end. -/
theorem acknowledged_survives_crash :
    let finished : ChatOp := .finish noFaults 3 helloRound
    let crashed := stoppedSave noFaults 6 (some .torn)
      (snapshot (answeredWorld.after Char.isAlphanum finished).chat.rooms) answeredWorld.disk
    ∃ saved, load crashed = .ok (some saved) ∧ ∃ kept ∈ saved.rooms, kept.id = 1 ∧
      ∃ m, kept.messages[helloRoom.messages.length - 1]? = some m ∧ SameMessage m helloMessage := by
  intro finished crashed
  have hround : finished.Enabled answeredWorld := (by decide : helloRound ∈ answeredWorld.rounds)
  have hsent : (sendUserMessageWithMedia Char.isAlphanum noFaults ⟨1, 1⟩ 1 "hello" []
      plansWorld.chat plansWorld.disk).1 = .ok helloRoom := rfl
  have hquiet : ∀ (w : World) (op : ChatOp), AddsAgreeing helloMessage.attachments w op :=
    fun _ _ _ _ _ _ _ _ _ _ view hview => absurd hview List.not_mem_nil
  have hsafe : ∀ (disk : SnapshotDisk), ¬RollsBackStale noFaults disk :=
    fun disk hstale => hstale.misses rfl
  have hafter : Executions.Run (fun server event server' =>
      ServerStep Char.isAlphanum server event server' ∧
        event.Sound Char.isAlphanum helloMessage.attachments server)
      (.running helloWorld) [.op (helloAnswer noFaults), .crash finished 6 (some .torn)]
      (.down crashed) := by
    refine .cons ⟨.op (helloAnswer_step noFaults), hquiet _ _, ?_⟩
      (.single ⟨.crash 6 (some .torn) ⟨hround, rfl⟩ rfl, hquiet _ _, ?_⟩)
    · rintro faults hsave
      obtain rfl : noFaults = faults := Option.some.inj hsave
      exact hsafe _
    · rintro faults hsave hstale
      obtain rfl : noFaults = faults := Option.some.inj hsave
      exact absurd hstale (hsafe _)
  refine acknowledged_survives plansWorld_run hsent rfl rfl ?_ hafter
  intro k other _ _ m _ asset _ view hview
  cases hview

end NormaHarness.Chat
