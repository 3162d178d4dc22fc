import NormaHarness.Durability
import NormaHarness.RoomLifecycle
import NormaHarness.StoredContents

/-!
# What a server remembers was said

A message is written once, by a request to the room it stands in. Saves copy it to the
disk and restarts copy it back, also when a request is cut short in the middle of its
save. So a server has no message that nobody wrote, in memory or on disk, and a start
finds the ordinary rooms of one moment, never a mixture of two.
-/
namespace NormaHarness.Chat
open Std Identifiers Contracts LlmProtocol Media FilePrograms Executions StoredContents

/-- The request that an event carries out, or begins. -/
def ServerEvent.request : ServerEvent → Option ChatOp
  | .op chatOp => some chatOp
  | .crash chatOp _ _ => some chatOp
  | _ => none

/-- The same message; its media may have been found again, or not. -/
structure SameText (m m' : ChatMessage) : Prop where
  id : m'.id = m.id
  role : m'.role = m.role
  author : m'.author = m.author
  text : m'.text = m.text
  createdAt : m'.createdAt = m.createdAt

theorem SameText.refl (m : ChatMessage) : SameText m m := ⟨rfl, rfl, rfl, rfl, rfl⟩

theorem SameText.trans {m₁ m₂ m₃ : ChatMessage} (h : SameText m₁ m₂) (g : SameText m₂ m₃) :
    SameText m₁ m₃ :=
  ⟨g.id.trans h.id, g.role.trans h.role, g.author.trans h.author, g.text.trans h.text,
    g.createdAt.trans h.createdAt⟩

/-- The room is the same one, whatever has been said in it. -/
structure SameRoom (room room' : RoomRecord) : Prop where
  id : room'.id = room.id
  name : room'.name = room.name
  members : room'.members = room.members
  incognito : room'.incognito = room.incognito

theorem SameRoom.trans {r₁ r₂ r₃ : RoomRecord} (h : SameRoom r₁ r₂) (g : SameRoom r₂ r₃) :
    SameRoom r₁ r₃ :=
  ⟨g.id.trans h.id, g.name.trans h.name, g.members.trans h.members,
    g.incognito.trans h.incognito⟩

section

variable (isAlphanumeric : Char → Bool)

abbrev ServerRun := Run (ServerStep isAlphanumeric)

/-- One of the requests appended the message to this room. -/
def Wrote (events : List ServerEvent) (room : RoomRecord) (m : ChatMessage) : Prop :=
  ∃ past event future w w' op old written,
    events = past ++ event :: future ∧ ServerRun isAlphanumeric (.down noFiles) past (.running w) ∧
      event.request = some op ∧ ChatStep isAlphanumeric w op w' ∧
      op.message w.chat = some (room.id, written) ∧ w.chat.rooms.record room.id = some old ∧
      w'.chat.rooms.record room.id = some (old.extended written) ∧ SameRoom old room ∧
      SameText written m

/-- A store that the server had, or was about to have when its process ended. -/
inductive Had (events : List ServerEvent) : RoomStore → Prop
  | request {past future : List ServerEvent} {event : ServerEvent} {op : ChatOp} {w w' : World} :
      events = past ++ event :: future →
      ServerRun isAlphanumeric (.down noFiles) past (.running w) →
      event.request = some op → ChatStep isAlphanumeric w op w' → Had events w'.chat.rooms
  | start {past future : List ServerEvent} {event : ServerEvent} {disk : SnapshotDisk}
      {w : World} : events = past ++ event :: future →
      ServerRun isAlphanumeric (.down noFiles) past (.down disk) → boot disk = .ok w →
      Had events w.chat.rooms

/-- Every message of the store was written by one of the requests. -/
def AllWritten (events : List ServerEvent) (s : RoomStore) : Prop :=
  ∀ id room, s.record id = some room → ∀ m ∈ room.messages, Wrote isAlphanumeric events room m

/-- A snapshot of a store that the server had. -/
def Stored (events : List ServerEvent) (saved : ChatSnapshot) : Prop :=
  ∃ s, saved = snapshot s ∧ Had isAlphanumeric events s ∧ AllWritten isAlphanumeric events s

/-- What a server has in memory and in the files it may load. -/
def Server.Remembers (events : List ServerEvent) : Server → Prop
  | .running w => Fresh w ∧ AllWritten isAlphanumeric events w.chat.rooms ∧
      HoldsBut .pending (Stored isAlphanumeric events) w.disk
  | .down disk => HoldsBut .pending (Stored isAlphanumeric events) disk

end

variable {isAlphanumeric : Char → Bool} {past events : List ServerEvent} {event : ServerEvent}

/-! ## Histories grow -/

theorem Wrote.append {room : RoomRecord} {m : ChatMessage} (h : Wrote isAlphanumeric past room m)
    (later : List ServerEvent) : Wrote isAlphanumeric (past ++ later) room m := by
  obtain ⟨before, event, after, w, w', op, old, written, rfl, hrest⟩ := h
  exact ⟨before, event, after ++ later, w, w', op, old, written, by simp, hrest⟩

/-- What was written is the same in every later version of the room. -/
theorem Wrote.same {room room' : RoomRecord} {m m' : ChatMessage}
    (h : Wrote isAlphanumeric events room m) (hroom : SameRoom room room')
    (htext : SameText m m') : Wrote isAlphanumeric events room' m' := by
  obtain ⟨before, event, after, w, w', op, old, written, hevents, hrun, hrequest, hstep, hmessage,
    hold, hnew, hsame, hwritten⟩ := h
  refine ⟨before, event, after, w, w', op, old, written, hevents, hrun, hrequest, hstep, ?_, ?_, ?_,
    hsame.trans hroom, hwritten.trans htext⟩
  · rw [hroom.id]
    exact hmessage
  · rw [hroom.id]
    exact hold
  · rw [hroom.id]
    exact hnew

theorem Had.append {s : RoomStore} (h : Had isAlphanumeric past s) (later : List ServerEvent) :
    Had isAlphanumeric (past ++ later) s := by
  cases h with
  | @request before after event op w w' hpast hrun hrequest hstep =>
      have hlater : past ++ later = before ++ event :: (after ++ later) := by simp [hpast]
      exact .request hlater hrun hrequest hstep
  | @start before after event disk w hpast hrun hboot =>
      have hlater : past ++ later = before ++ event :: (after ++ later) := by simp [hpast]
      exact .start hlater hrun hboot

theorem AllWritten.append {s : RoomStore} (h : AllWritten isAlphanumeric past s)
    (later : List ServerEvent) : AllWritten isAlphanumeric (past ++ later) s :=
  fun id room hroom m hm => (h id room hroom m hm).append later

theorem Stored.append {saved : ChatSnapshot} (h : Stored isAlphanumeric past saved)
    (later : List ServerEvent) : Stored isAlphanumeric (past ++ later) saved := by
  obtain ⟨s, hsaved, hhad, hwritten⟩ := h
  exact ⟨s, hsaved, hhad.append later, hwritten.append later⟩

/-! ## Saves and restarts -/

theorem saveProgram_stored {P : ChatSnapshot → Prop} {disk : SnapshotDisk}
    {content : ChatSnapshot} (h : HoldsBut .pending P disk) (hcontent : P content)
    (faults : SnapshotFaults) :
    Guarded faults (HoldsBut .pending P) (fun _ after => HoldsBut .pending P after)
      (saveProgram content) disk :=
  .prepare _ _ disk h (fun _ => HoldsBut.replaced snapshotFiles h hcontent faults)
    fun _ _ => .done _ _ h h

theorem savedDisk_stored {P : ChatSnapshot → Prop} {disk : SnapshotDisk} {content : ChatSnapshot}
    (h : HoldsBut .pending P disk) (hcontent : P content) (save : Option SnapshotFaults) :
    HoldsBut .pending P (savedDisk save content disk) := by
  cases save with
  | none => exact h
  | some faults =>
      rw [savedDisk]
      exact (saveProgram_stored h hcontent faults).at_end

theorem stoppedSave_stored {P : ChatSnapshot → Prop} {disk : SnapshotDisk}
    {content : ChatSnapshot} (h : HoldsBut .pending P disk) (hcontent : P content)
    (faults : SnapshotFaults) (calls : ℕ) (pending : Option (Content ChatSnapshot)) :
    HoldsBut .pending P (stoppedSave faults calls pending content disk) := by
  rw [stoppedSave]
  exact ((saveProgram_stored h hcontent faults).at_cut calls).update_self pending

/-- A start loads the main file or the backup, never the pending file. -/
theorem load_stored {P : ChatSnapshot → Prop} {disk : SnapshotDisk} {saved : ChatSnapshot}
    (h : HoldsBut .pending P disk) (hload : load disk = .ok (some saved)) : P saved :=
  HoldsBut.load (f := snapshotFiles) h (load_eq_ok.mp hload)

/-- A restart has the messages of the snapshot that it loads. -/
theorem AllWritten.boot {disk : SnapshotDisk} {w : World}
    (h : HoldsBut .pending (Stored isAlphanumeric events) disk) (hboot : boot disk = .ok w) :
    AllWritten isAlphanumeric events w.chat.rooms := by
  intro id record hrecord m hm
  obtain ⟨room, hroom, rfl⟩ := exists_of_record hrecord
  unfold Chat.boot at hboot
  split at hboot
  · cases hboot
  · cases hboot
    obtain ⟨saved, hsaved, -⟩ := get_start hroom
    cases hsaved
  · next saved hload =>
    cases hboot
    obtain ⟨s, rfl, -, hwritten⟩ := load_stored h hload
    obtain ⟨restored, hrestored, rfl⟩ := get_start hroom
    obtain ⟨kept, hkept, rfl⟩ := List.mem_map.mp hrestored
    obtain ⟨encoded, hencoded, rfl⟩ := List.mem_map.mp hm
    obtain ⟨said, hsaid, rfl⟩ := List.mem_map.mp hencoded
    have hget := RoomStore.mem_values.mp (List.mem_of_mem_filter hkept)
    exact (hwritten kept.id kept.record (record_of_get hget) said hsaid).same ⟨rfl, rfl, rfl, rfl⟩
      ⟨rfl, rfl, rfl, rfl, rfl⟩

/-! ## Steps -/

/-- The request of an event adds at most the message that it writes. -/
theorem AllWritten.step {w w' : World} {op : ChatOp}
    (hrun : ServerRun isAlphanumeric (.down noFiles) past (.running w)) (hfresh : Fresh w)
    (h : AllWritten isAlphanumeric past w.chat.rooms) (hrequest : event.request = some op)
    (hstep : ChatStep isAlphanumeric w op w') :
    AllWritten isAlphanumeric (past ++ [event]) w'.chat.rooms := by
  intro id room hroom m hm
  have hold : ∀ room, w.chat.rooms.record id = some room → m ∈ room.messages →
      Wrote isAlphanumeric (past ++ [event]) room m := fun room hroom hm =>
    (h id room hroom m hm).append [event]
  cases hstep.effect hfresh with
  | kept hrecord _ _ =>
      rw [hrecord] at hroom
      exact hold room hroom hm
  | appended target old written hmessage _ hold' hrecords _ _ =>
      by_cases hid : id = target
      · subst hid
        have hnew : w'.chat.rooms.record id = some (old.extended written) := by
          rw [hrecords, Function.update_self]
        obtain rfl := Option.some.inj (hnew.symm.trans hroom)
        have hroomId : old.id = id := by
          obtain ⟨found, hfound, rfl⟩ := exists_of_record hold'
          exact RoomStore.id_of_get hfound
        rcases List.mem_append.mp hm with hm | hm
        · exact (hold old hold' hm).same ⟨rfl, rfl, rfl, rfl⟩ (.refl m)
        · obtain rfl := List.mem_singleton.mp hm
          refine ⟨past, event, [], w, w', op, old, m, rfl, hrun, hrequest, hstep, ?_, ?_, ?_,
            ⟨rfl, rfl, rfl, rfl⟩, .refl m⟩
          · exact hroomId.symm ▸ hmessage
          · exact hroomId.symm ▸ hold'
          · exact hroomId.symm ▸ hnew
      · rw [hrecords, Function.update_of_ne hid] at hroom
        exact hold room hroom hm
  | inserted created _ _ hempty hrecords _ =>
      by_cases hid : id = created.id
      · rw [hrecords, hid, Function.update_self] at hroom
        obtain rfl := Option.some.inj hroom
        rw [show created.record.messages = [] from hempty] at hm
        cases hm
      · rw [hrecords, Function.update_of_ne hid] at hroom
        exact hold room hroom hm

/-- What a request may save. -/
theorem Server.Remembers.stored {w w' : World} {op : ChatOp}
    (hrun : ServerRun isAlphanumeric (.down noFiles) past (.running w))
    (h : (Server.running w).Remembers isAlphanumeric past) (hrequest : event.request = some op)
    (hstep : ChatStep isAlphanumeric w op w') :
    Stored isAlphanumeric (past ++ [event]) (snapshot w'.chat.rooms) :=
  ⟨_, rfl, .request rfl hrun hrequest hstep, h.2.1.step hrun h.1 hrequest hstep⟩

theorem Server.Remembers.step {server server' : Server}
    (hrun : ServerRun isAlphanumeric (.down noFiles) past server)
    (h : server.Remembers isAlphanumeric past)
    (hstep : ServerStep isAlphanumeric server event server') :
    server'.Remembers isAlphanumeric (past ++ [event]) := by
  have hlater : ∀ disk : SnapshotDisk, HoldsBut .pending (Stored isAlphanumeric past) disk →
      HoldsBut .pending (Stored isAlphanumeric (past ++ [event])) disk := fun disk hdisk =>
    hdisk.mono fun saved hsaved => hsaved.append [event]
  -- A start that gets past loading may save the rooms that it has restored.
  have hbooted : ∀ disk w, server = .down disk → boot disk = .ok w →
      Stored isAlphanumeric (past ++ [event]) (snapshot w.chat.rooms) := by
    rintro disk w rfl hboot
    exact ⟨_, rfl, .start rfl hrun hboot, (AllWritten.boot h hboot).append [event]⟩
  cases hstep with
  | @op w w' op hchat =>
      have hstored : Stored isAlphanumeric (past ++ [.op op]) (snapshot w'.chat.rooms) :=
        h.stored hrun rfl hchat
      refine ⟨(hchat.fresh h.1).1, h.2.1.step hrun h.1 rfl hchat, ?_⟩
      obtain ⟨-, rfl⟩ := hchat
      rw [after_disk]
      exact savedDisk_stored (hlater _ h.2.2) hstored _
  | stop w => exact hlater _ h.2.2
  | @crash w w' op faults calls pending hchat hsave =>
      have hstored : Stored isAlphanumeric (past ++ [.crash op calls pending])
          (snapshot w'.chat.rooms) := h.stored hrun rfl hchat
      exact stoppedSave_stored (hlater _ h.2.2) hstored faults calls pending
  | started hboot _ =>
      have hstored := hbooted _ _ rfl hboot
      refine ⟨boot_fresh hboot _, ?_, ?_⟩
      · rw [enableStorage_rooms]
        exact (AllWritten.boot h hboot).append [_]
      · rw [after_disk, boot_disk hboot, enableStorage_rooms]
        exact savedDisk_stored (hlater _ h) hstored _
  | refused hboot _ =>
      have hstored := hbooted _ _ rfl hboot
      simp only [Server.Remembers]
      rw [after_disk, boot_disk hboot, enableStorage_rooms]
      exact savedDisk_stored (hlater _ h) hstored _
  | unreadable _ => exact hlater _ h
  | crashAtStart faults calls pending hboot =>
      exact stoppedSave_stored (hlater _ h) (hbooted _ _ rfl hboot) faults calls pending

/-! ## Runs -/

theorem run_remembers {server : Server}
    (hrun : ServerRun isAlphanumeric (.down noFiles) events server) :
    server.Remembers isAlphanumeric events := by
  have hboth : ServerRun isAlphanumeric (.down noFiles) events server ∧
      server.Remembers isAlphanumeric events := by
    refine hrun.recorded (P := fun past server =>
      ServerRun isAlphanumeric (.down noFiles) past server ∧
        server.Remembers isAlphanumeric past) (fun past s event t hs hstep => ?_) ⟨.nil _, ?_⟩
    · exact ⟨hs.1.snoc hstep, hs.2.step hs.1 hstep⟩
    · intro file _ content hcontent
      cases hcontent
  exact hboth.2

/-- From an empty directory, with requests and starts that end in the middle of a save and
saves that fail: what a start would load is the snapshot of one store that the server had,
or was about to have. It has no incognito room, and every message in it, as every message
in memory, was written by a request into the very room it stands in. -/
theorem history_written {server : Server}
    (hrun : ServerRun isAlphanumeric (.down noFiles) events server) :
    (∀ saved, load server.disk = .ok (some saved) →
      (∃ s, saved = snapshot s ∧ Had isAlphanumeric events s) ∧
        ∀ room ∈ saved.rooms, room.incognito = false ∧
          ∀ m ∈ room.messages, Wrote isAlphanumeric events room.record m) ∧
      ∀ w, server = .running w → ∀ id room, w.chat.rooms.get id = some room →
        ∀ m ∈ room.messages, Wrote isAlphanumeric events room.record m := by
  have hremembers := run_remembers hrun
  have hdisk : HoldsBut .pending (Stored isAlphanumeric events) server.disk := by
    cases server with
    | running w => exact hremembers.2.2
    | down disk => exact hremembers
  refine ⟨fun saved hload => ?_, ?_⟩
  · obtain ⟨s, rfl, hhad, hwritten⟩ := load_stored hdisk hload
    refine ⟨⟨s, rfl, hhad⟩, fun room hroom => ⟨snapshot_ordinary s room hroom, fun m hm => ?_⟩⟩
    obtain ⟨kept, hkept, rfl⟩ := List.mem_map.mp hroom
    obtain ⟨said, hsaid, rfl⟩ := List.mem_map.mp hm
    have hget := RoomStore.mem_values.mp (List.mem_of_mem_filter hkept)
    exact (hwritten kept.id kept.record (record_of_get hget) said hsaid).same ⟨rfl, rfl, rfl, rfl⟩
      ⟨rfl, rfl, rfl, rfl, rfl⟩
  · rintro w rfl id room hroom
    exact hremembers.2.1 id room.record (record_of_get hroom)

/-- The round answers, and the process dies in the middle of the save at its end. -/
def helloEvents : List ServerEvent :=
  [.restart noFaults, .op (.ensureSoloRoom noFaults codexKey "Plans" 0), .op helloSend,
    .op (helloAnswer noFaults), .crash (.finish noFaults 3 helloRound) 6 (some .torn)]

theorem history_written_hello : ∃ server saved room m,
    ServerRun Char.isAlphanum (.down noFiles) helloEvents server ∧
      load server.disk = .ok (some saved) ∧ room ∈ saved.rooms ∧ m ∈ room.messages ∧
      m.text = "hi" ∧ Wrote Char.isAlphanum helloEvents room.record m := by
  have hround : (ChatOp.finish noFaults 3 helloRound).Enabled answeredWorld :=
    (by decide : helloRound ∈ answeredWorld.rounds)
  have hlast : ServerRun Char.isAlphanum (.running answeredWorld) _ _ :=
    .single (.crash 6 (some .torn) ⟨hround, rfl⟩ rfl)
  have hrun : ServerRun Char.isAlphanum (.down noFiles) helloEvents _ :=
    plansWorld_run.append
      (.cons (.op ⟨trivial, rfl⟩) (.cons (.op (helloAnswer_step noFaults)) hlast))
  obtain ⟨saved, hload, room, hroom, m, hm, htext⟩ : ∃ saved, load
      (stoppedSave noFaults 6 (some .torn) (snapshot (answeredWorld.after Char.isAlphanum
        (.finish noFaults 3 helloRound)).chat.rooms) answeredWorld.disk) =
        .ok (some saved) ∧ ∃ room ∈ saved.rooms, ∃ m ∈ room.messages, m.text = "hi" :=
    ⟨_, rfl, _, List.mem_cons_self, ⟨2, "agent", "codex", "hi", 2, [], []⟩, by decide, rfl⟩
  exact ⟨_, saved, room, m, hrun, hload, hroom, hm, htext,
    (((history_written hrun).1 saved hload).2 room hroom).2 m hm⟩

end NormaHarness.Chat
