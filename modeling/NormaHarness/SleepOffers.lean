import NormaHarness.MemoryRuns

/-!
# No conversation that went to sleep is forgotten

A room that sleeps does not change, so the trigger that it owed when it fell asleep is the
one that it would owe now. Whatever else happens, each member of a sleeping room has been
offered the room as it is, or is still due to be; and after a crash every restored room is
due again.
-/
namespace NormaHarness.Memory
open Std Identifiers Contracts LlmProtocol FilePrograms Executions
open Chat (Server ServerEvent ServerStep ServerRun SnapshotFaults noFiles World ChatOp ChatStep
  ChatRoom ChatResident RoomStore Fresh Lifecycle EmittedTrigger emitMemoryTrigger afterSleep
  sleepLoop retrySleepMemory)

/-- The two versions of a room owe the same triggers. -/
structure SameOffer (room room' : ChatRoom) : Prop where
  members : room'.members = room.members
  emits : ∀ member reason, emitMemoryTrigger room' member reason =
    emitMemoryTrigger room member reason

theorem SameOffer.refl (room : ChatRoom) : SameOffer room room := ⟨rfl, fun _ _ => rfl⟩

/-- A room that sleeps after the step slept before it, unless the step put it to sleep. -/
def Rests (op : ChatOp) (w w' : World) : Prop :=
  ∀ id room', w'.chat.rooms.get id = some room' → room'.sleeping = true →
    (∃ room, w.chat.rooms.get id = some room ∧ room.sleeping = true ∧ SameOffer room room') ∨
      ∃ faults limits now, op = .sleepDue faults limits now ∧
        room' ∈ (Chat.sleepDue faults limits now w.chat w.disk).1

section

variable {w w' : World} {op : ChatOp}

theorem rests_of_rooms (h : w'.chat.rooms = w.chat.rooms) : Rests op w w' :=
  fun _ room' hroom hsleeping => .inl ⟨room', h ▸ hroom, hsleeping, .refl room'⟩

/-- One room is replaced or added; it is awake now, or slept and owes the same. -/
theorem rests_of_put {changed : ChatRoom} (h : w'.chat.rooms = w.chat.rooms.put changed)
    (hchanged : changed.sleeping = true → ∃ room, w.chat.rooms.get changed.id = some room ∧
      room.sleeping = true ∧ SameOffer room changed) : Rests op w w' := by
  intro id room' hroom hsleeping
  rw [h, RoomStore.get_put] at hroom
  split_ifs at hroom with hid
  · obtain rfl := Option.some.inj hroom
    exact .inl (hid ▸ hchanged hsleeping)
  · exact .inl ⟨room', hroom, hsleeping, .refl room'⟩

/-- A room in which a round is running is awake. -/
theorem round_awake (hlifecycle : Lifecycle w) {round : Chat.Round} (hround : round ∈ w.rounds)
    {room : ChatRoom} (hroom : w.chat.rooms.get round.roomId = some room) :
    room.sleeping = false := by
  obtain ⟨found, hfound, hbusy⟩ := hlifecycle.inFlight round hround
  obtain rfl := Option.some.inj (hroom.symm.trans hfound)
  exact ((hlifecycle.rooms _ room hroom).awake hbusy).1

theorem chat_rests {isAlphanumeric : Char → Bool} (hlifecycle : Lifecycle w)
    (hcreations : ∀ room ∈ w.creations, room.sleeping = false)
    (hstep : ChatStep isAlphanumeric w op w') : Rests op w w' := by
  obtain ⟨henabled, rfl⟩ := hstep
  cases op with
  | enableStorage faults => exact rests_of_rooms (Chat.enableStorage_rooms w faults)
  | reserveRoom name members incognito now =>
      refine rests_of_rooms ?_
      simp only [World.after, Chat.reserveRoom]
      split
      · rfl
      · split <;> rfl
  | insertRoom faults room =>
      have hawake := hcreations room henabled
      have hrooms : (w.after isAlphanumeric (.insertRoom faults room)).chat.rooms =
          w.chat.rooms.put room := by
        simp only [World.after, World.withSaved, Chat.insertRoom, Chat.saving_chat]
      exact rests_of_put hrooms fun hsleeping => absurd (hawake.symm.trans hsleeping) (by decide)
  | ensureSoloRoom faults member name now =>
      simp only [World.after, World.withSaved, Chat.ensureSoloRoom]
      split
      · exact rests_of_rooms rfl
      · split
        · exact rests_of_rooms rfl
        · simp only [Chat.insertRoom, Chat.saving_chat]
          exact rests_of_put rfl fun hsleeping => (Bool.false_ne_true hsleeping).elim
  | ensureIncognitoSoloRoom member name now =>
      simp only [World.after, Chat.ensureIncognitoSoloRoom]
      split
      · exact rests_of_rooms rfl
      · split
        · exact rests_of_rooms rfl
        · exact rests_of_put rfl fun hsleeping => (Bool.false_ne_true hsleeping).elim
  | send faults clock id text media =>
      have hsend := Chat.send_step isAlphanumeric faults clock id text media w.chat w.disk
      simp only [World.after, World.sent]
      generalize Chat.sendUserMessageWithMedia isAlphanumeric faults clock id text media w.chat
        w.disk = out at hsend ⊢
      cases hsend with
      | refused error _ => exact rests_of_rooms rfl
      | unsaved room members error disk' _ _ =>
          exact rests_of_put rfl fun hsleeping => (Bool.false_ne_true hsleeping).elim
      | accepted room members disk' round _ _ _ _ =>
          exact rests_of_put rfl fun hsleeping => (Bool.false_ne_true hsleeping).elim
  | push faults clock round role author text media =>
      simp only [World.after, Chat.pushMessageWithMedia]
      split
      · exact rests_of_rooms rfl
      · next room hroom =>
        have hawake := round_awake hlifecycle henabled hroom
        refine rests_of_put rfl fun hsleeping => ?_
        exact absurd (hawake.symm.trans hsleeping) (by decide)
  | setActive round member =>
      simp only [World.after, Chat.setActive]
      split
      · exact rests_of_rooms rfl
      · next room hroom =>
        have hid := RoomStore.id_of_get hroom
        exact rests_of_put rfl fun hsleeping => ⟨room, hid ▸ hroom, hsleeping, rfl, fun _ _ => rfl⟩
  | finish faults now round =>
      simp only [World.after, Chat.finish]
      split
      · exact rests_of_rooms rfl
      · next room hroom =>
        have hawake := round_awake hlifecycle henabled hroom
        refine rests_of_put rfl fun hsleeping => ?_
        exact absurd (hawake.symm.trans hsleeping) (by decide)
  | abandon round => exact rests_of_rooms rfl
  | heartbeat now id client =>
      refine rests_of_rooms ?_
      simp only [World.after, Chat.heartbeat]
      split_ifs
      · rfl
      · split <;> rfl
  | leave now id client => exact rests_of_rooms rfl
  | sleepDue faults limits now =>
      intro id room' hroom hsleeping
      obtain ⟨hslept, hget⟩ := Chat.sleepDue_asleep faults limits now w.chat w.disk
      simp only [World.after] at hroom
      rw [hget] at hroom
      obtain ⟨room, hfound, hroom⟩ := Option.map_eq_some_iff.mp hroom
      split_ifs at hroom with hfalls
      · refine .inr ⟨faults, limits, now, rfl, ?_⟩
        rw [hslept, ← hroom]
        refine List.mem_map_of_mem (List.mem_filter.mpr ⟨RoomStore.mem_values.mpr ?_, hfalls⟩)
        rw [RoomStore.id_of_get hfound]
        exact hfound
      · subst hroom
        exact .inl ⟨room, hfound, hsleeping, .refl room⟩
  | setArchived faults id archived =>
      simp only [World.after, World.withSaved, Chat.setArchived]
      cases harchivable : Chat.archivable id w.chat with
      | error error => exact rests_of_rooms rfl
      | ok room =>
          simp only [Chat.saving_chat]
          have hroom := (Chat.archivable_ok harchivable).1
          have hid := RoomStore.id_of_get hroom
          exact rests_of_put rfl fun hsleeping =>
            ⟨room, hid ▸ hroom, hsleeping, rfl, fun _ _ => rfl⟩

/-- A room that is about to be made is awake. -/
theorem creations_awake {isAlphanumeric : Char → Bool}
    (hcreations : ∀ room ∈ w.creations, room.sleeping = false)
    (hstep : ChatStep isAlphanumeric w op w') : ∀ room ∈ w'.creations, room.sleeping = false := by
  obtain ⟨-, rfl⟩ := hstep
  cases op with
  | reserveRoom name members incognito now =>
      simp only [World.after, Chat.reserveRoom]
      split
      · exact hcreations
      · split
        · exact hcreations
        · intro room hroom
          rcases List.mem_cons.mp hroom with rfl | hroom
          · rfl
          · exact hcreations room hroom
  | insertRoom faults room =>
      exact fun other hother => hcreations other (List.mem_of_mem_erase hother)
  | _ => exact hcreations

end

/-- What a member of a sleeping room is owed: the room as it is. -/
def owed (room : ChatRoom) (k : ResidentKey) : EmittedTrigger :=
  (k, ⟨room.id, .sleep, room.sleepGeneration, room.messages.map (Chat.contextMessage room)⟩)

theorem emitMemoryTrigger_owed {room : ChatRoom} {member : String} {k : ResidentKey}
    (hordinary : room.incognito = false) (hsaid : room.messages ≠ [])
    (hk : Identifier.new "Resident name" member = .ok k) :
    emitMemoryTrigger room member .sleep = some (owed room k) := by
  simp [emitMemoryTrigger, hordinary, hsaid, hk, owed]

/-- Every sleeping room has been offered to its members, or is due to be. -/
def Offers (s : Remembering) (w : World) : Prop :=
  ∀ id room, w.chat.rooms.get id = some room → room.sleeping = true → ∀ member ∈ room.members,
    ∀ trigger, emitMemoryTrigger room member .sleep = some trigger →
      trigger ∈ s.offered ∨ trigger ∈ s.due

structure Rested (s : Remembering) (w : World) : Prop where
  fresh : Fresh w
  lifecycle : Lifecycle w
  creations : ∀ room ∈ w.creations, room.sleeping = false
  offers : Offers s w

theorem Rested.more {s t : Remembering} {w : World} (h : Rested s w)
    (hoffers : ∀ trigger, trigger ∈ s.offered ∨ trigger ∈ s.due →
      trigger ∈ t.offered ∨ trigger ∈ t.due) : Rested t w :=
  ⟨h.fresh, h.lifecycle, h.creations, fun id room hroom hsleeping member hmember trigger hemit =>
    hoffers trigger (h.offers id room hroom hsleeping member hmember trigger hemit)⟩

section

variable {isAlphanumeric : Char → Bool} {fromStr : String → Except String ExtractedMemory}
  {toLowercase : String → String} {past events : List MemoryEvent} {event : MemoryEvent}
  {s t : Remembering}

theorem Rested.op {w w' : World} {op : ChatOp} (h : Rested s w)
    (hstep : ChatStep isAlphanumeric w op w') :
    Rested {s with server := .running w', due := s.due ++ sleepTriggers w op} w' where
  fresh := (hstep.fresh h.fresh).1
  lifecycle := h.lifecycle.step h.fresh hstep
  creations := creations_awake h.creations hstep
  offers id room' hroom hsleeping member hmember trigger hemit := by
    rcases chat_rests h.lifecycle h.creations hstep id room' hroom hsleeping with
      ⟨room, hfound, hslept, hsame⟩ | ⟨faults, limits, now, rfl, hnew⟩
    · rw [hsame.members] at hmember
      rw [hsame.emits] at hemit
      exact (h.offers id room hfound hslept member hmember trigger hemit).imp_right
        (List.mem_append_left _)
    · refine .inr (List.mem_append_right _ ?_)
      exact List.mem_flatMap.mpr ⟨room', hnew, List.mem_filterMap.mpr ⟨member, hmember, hemit⟩⟩

/-- A start restores ordinary rooms only, all of them asleep. -/
theorem boot_sleeping {disk : Chat.SnapshotDisk} {w : World} {serverEvents : List ServerEvent}
    (hrun : ServerRun isAlphanumeric (.down noFiles) serverEvents (.down disk))
    (hboot : Chat.boot disk = .ok w) : Lifecycle w ∧ w.creations = [] ∧
      ∀ id room, w.chat.rooms.get id = some room → room.sleeping = true := by
  have hsleeping : ∀ restored media, ∀ id room,
      (Chat.start restored media disk).chat.rooms.get id = some room → room.sleeping = true := by
    intro restored media id room hroom
    obtain ⟨saved, -, rfl⟩ := Chat.get_start hroom
    rfl
  unfold Chat.boot at hboot
  split at hboot
  · cases hboot
  · cases hboot
    have hnone : ∀ room ∈ ([] : List ChatRoom), room.incognito = false :=
      fun _ hroom => (nomatch hroom)
    exact ⟨Chat.start_lifecycle hnone _ _, rfl, hsleeping _ _⟩
  · next saved hload =>
    cases hboot
    obtain ⟨rooms, rfl, -, -⟩ := Chat.load_stored (Chat.run_remembers hrun) hload
    exact ⟨Chat.start_lifecycle (Chat.snapshot_ordinary rooms) _ _, rfl, hsleeping _ _⟩

theorem restart_sleeping {disk : Chat.SnapshotDisk} {w : World} {faults : SnapshotFaults}
    {serverEvents : List ServerEvent}
    (hrun : ServerRun isAlphanumeric (.down noFiles) serverEvents (.down disk))
    (hstep : ServerStep isAlphanumeric (.down disk) (.restart faults) (.running w)) :
    Fresh w ∧ Lifecycle w ∧ w.creations = [] ∧
      ∀ id room, w.chat.rooms.get id = some room → room.sleeping = true := by
  cases hstep with
  | @started _ booted _ hboot _ =>
      obtain ⟨hlifecycle, hcreations, hsleeping⟩ := boot_sleeping hrun hboot
      obtain ⟨restored, media, rfl⟩ := Chat.boot_start hboot
      have hchat : ChatStep isAlphanumeric (Chat.start restored media disk)
          (.enableStorage faults) _ := ⟨trivial, rfl⟩
      refine ⟨Chat.boot_fresh hboot faults,
        hlifecycle.step (Chat.start_fresh restored media disk) hchat, hcreations, ?_⟩
      rw [Chat.enableStorage_rooms]
      exact hsleeping

theorem Rested.restart {disk : Chat.SnapshotDisk} {w : World} {faults : SnapshotFaults}
    {serverEvents : List ServerEvent} {state : MemoryState} {files : MemoryDisk}
    (hrun : ServerRun isAlphanumeric (.down noFiles) serverEvents (.down disk))
    (hstep : ServerStep isAlphanumeric (.down disk) (.restart faults) (.running w)) :
    Rested {Remembering.afterEnd (.running w) files with
      memory := ⟨state, files⟩
      due := retrySleepMemory w.chat.rooms} w := by
  obtain ⟨hfresh, hlifecycle, hcreations, hsleeping⟩ := restart_sleeping hrun hstep
  refine ⟨hfresh, hlifecycle, fun room hroom => ?_, ?_⟩
  · rw [hcreations] at hroom
    cases hroom
  · intro id room hroom hslept member hmember trigger hemit
    have hordinary := (Chat.emitMemoryTrigger_room hemit).2
    have hvalue : room ∈ w.chat.rooms.values := by
      rw [RoomStore.mem_values, RoomStore.id_of_get hroom]
      exact hroom
    refine .inr (List.mem_flatMap.mpr ⟨room, List.mem_filter.mpr ⟨hvalue, ?_⟩, ?_⟩)
    · simp [hslept, hordinary]
    · exact List.mem_filterMap.mpr ⟨member, hmember, hemit⟩

/-! ## Runs -/

theorem offer_server (s : Remembering) (trigger : EmittedTrigger) (accepted : Bool) :
    (s.offer trigger accepted).server = s.server ∧
      (s.offer trigger accepted).offered = trigger :: s.offered ∧
      (s.offer trigger accepted).due = s.due := by
  cases accepted <;> exact ⟨rfl, rfl, rfl⟩

theorem rested_step
    (hrun : RememberRun isAlphanumeric fromStr toLowercase .launched past s)
    (h : ∀ w, s.server = .running w → Rested s w)
    (hstep : Remembering.Step isAlphanumeric fromStr toLowercase s event t) :
    ∀ w, t.server = .running w → Rested t w := by
  have hsame : ∀ u : Remembering, u.server = s.server → u.offered = s.offered → u.due = s.due →
      ∀ w, u.server = .running w → Rested u w := by
    intro u hserver hoffered hdue w hw
    refine (h w (hserver ▸ hw)).more fun trigger htrigger => ?_
    rw [hoffered, hdue]
    exact htrigger
  cases hstep with
  | op hserver hchat =>
      intro w hw
      cases hw
      exact (h _ hserver).op hchat
  | ended _ _ _ => exact fun w hw => (nomatch hw)
  | failed _ _ => exact fun w hw => (nomatch hw)
  | restart hserver _ hboot =>
      intro w hw
      cases hw
      exact .restart (hserver ▸ hrun.server_run) hboot
  | @send trigger rest accepted hdue =>
      intro w hw
      obtain ⟨hserver, hoffered, hrest⟩ := offer_server {s with due := rest} trigger accepted
      refine (h w (hserver ▸ hw)).more fun other hother => ?_
      rw [hoffered, hrest]
      rw [hdue] at hother
      rcases hother with hoffered | hdue
      · exact .inl (List.mem_cons_of_mem _ hoffered)
      · rcases List.mem_cons.mp hdue with rfl | hdue
        · exact .inl List.mem_cons_self
        · exact .inr hdue
  | @compacted _ _ _ _ trigger accepted _ _ _ _ =>
      intro w hw
      obtain ⟨hserver, hoffered, hdue⟩ := offer_server s trigger accepted
      refine (h w (hserver ▸ hw)).more fun other hother => ?_
      rw [hoffered, hdue]
      exact hother.imp_left (List.mem_cons_of_mem _)
  | other _ _ => exact hsame _ rfl rfl rfl
  | handle _ _ _ => exact hsame _ rfl rfl rfl
  | pass _ _ _ => exact hsame _ rfl rfl rfl
  | apply _ _ => exact hsame _ rfl rfl rfl
  | unread _ _ => exact hsame _ rfl rfl rfl
  | closed _ => exact hsame _ rfl rfl rfl
  | call _ _ => exact hsame _ rfl rfl rfl

theorem run_rested (hrun : RememberRun isAlphanumeric fromStr toLowercase .launched events s) :
    ∀ w, s.server = .running w → Rested s w := by
  have hboth : RememberRun isAlphanumeric fromStr toLowercase .launched events s ∧
      ∀ w, s.server = .running w → Rested s w := by
    refine hrun.recorded (P := fun past s =>
      RememberRun isAlphanumeric fromStr toLowercase .launched past s ∧
        ∀ w, s.server = .running w → Rested s w) (fun past s event t hs hstep => ?_)
      ⟨.nil _, fun w hw => (nomatch hw)⟩
    exact ⟨hs.1.snoc hstep, rested_step hs.1 hs.2 hstep⟩
  exact hboth.2

/-- What is due is sent by as many sends, whatever else there is. -/
theorem sends_due (s : Remembering) : ∃ t,
    RememberRun isAlphanumeric fromStr toLowercase s (List.replicate s.due.length (.send true)) t ∧
      t.server = s.server ∧ ∀ trigger, trigger ∈ s.offered ∨ trigger ∈ s.due →
        trigger ∈ t.offered := by
  generalize hdue : s.due = due
  induction due generalizing s with
  | nil =>
      refine ⟨s, .nil s, rfl, fun trigger htrigger => ?_⟩
      exact htrigger.resolve_right List.not_mem_nil
  | cons trigger rest ih =>
      obtain ⟨hserver, hoffered, hrest⟩ := offer_server {s with due := rest} trigger true
      obtain ⟨t, hrun, hsame, hall⟩ := ih ({s with due := rest}.offer trigger true) hrest
      refine ⟨t, .cons (.send true hdue) hrun, hsame.trans hserver, fun other hother => ?_⟩
      refine hall other ?_
      rw [hoffered]
      rcases hother with hold | hdue
      · exact .inl (List.mem_cons_of_mem _ hold)
      · rcases List.mem_cons.mp hdue with rfl | hdue
        · exact .inl List.mem_cons_self
        · exact .inr hdue

/-- In every state of every history, crashes included: each member of an ordinary room that
sleeps has been handed the room as it is since the launch, or is due to be, and the sends
that are due do it, with no step of anyone else. A start makes all rooms due that it has
restored, which all sleep. -/
theorem sleeping_rooms_offered {w : World}
    (hrun : RememberRun isAlphanumeric fromStr toLowercase .launched events s)
    (hserver : s.server = .running w) :
    (∀ id room, w.chat.rooms.get id = some room → room.sleeping = true → room.incognito = false →
      room.messages ≠ [] → ∀ k : ResidentKey, k.asStr ∈ room.members →
        (owed room k ∈ s.offered ∨ owed room k ∈ s.due)) ∧
      (∃ t, RememberRun isAlphanumeric fromStr toLowercase s
          (List.replicate s.due.length (.send true)) t ∧ t.server = .running w ∧
        ∀ id room, w.chat.rooms.get id = some room → room.sleeping = true →
          room.incognito = false → room.messages ≠ [] → ∀ k : ResidentKey,
            k.asStr ∈ room.members → owed room k ∈ t.offered) ∧
      ∀ past faults, events = past ++ [.restart faults] → ∀ id room,
        w.chat.rooms.get id = some room → room.sleeping = true := by
  have howed : ∀ id room, w.chat.rooms.get id = some room → room.sleeping = true →
      room.incognito = false → room.messages ≠ [] → ∀ k : ResidentKey, k.asStr ∈ room.members →
        (owed room k ∈ s.offered ∨ owed room k ∈ s.due) := by
    intro id room hroom hsleeping hordinary hsaid k hk
    exact (run_rested hrun w hserver).offers id room hroom hsleeping k.asStr hk _
      (emitMemoryTrigger_owed hordinary hsaid (Identifier.new_asStr k))
  refine ⟨howed, ?_, ?_⟩
  · obtain ⟨t, hsends, hsame, hall⟩ := sends_due s
    refine ⟨t, hsends, hsame.trans hserver, ?_⟩
    intro id room hroom hsleeping hordinary hsaid k hk
    exact hall _ (howed id room hroom hsleeping hordinary hsaid k hk)
  · rintro past faults rfl
    obtain ⟨u, v, hpast, hstep, hend⟩ := hrun.cut
    cases hend
    cases hstep with
    | restart hdown _ hboot =>
        cases hserver
        have hserverRun := RememberRun.server_run hpast
        rw [hdown] at hserverRun
        exact (restart_sleeping hserverRun hboot).2.2.2

end

/-- The process ends in the middle of a round, before the room could fall asleep. -/
def interrupted : List MemoryEvent :=
  [.restart Chat.noFaults, .op (.ensureSoloRoom Chat.noFaults codexKey "Plans" 0),
    .op Chat.helloSend, .ended .stop, .restart Chat.noFaults]

/-- The rooms as the next start finds them. -/
def resumedWorld : World :=
  (Chat.start (Chat.snapshot Chat.helloWorld.chat.rooms).rooms
    (Chat.restoredMedia (Chat.snapshot Chat.helloWorld.chat.rooms)) Chat.helloWorld.disk).after
      Char.isAlphanum (.enableStorage Chat.noFaults)

def resumedRoom : ChatRoom := {Chat.helloRoom with busy := false, sleeping := true}

theorem sleeping_rooms_offered_interrupted : ∃ s,
    RememberRun Char.isAlphanum greeting id .launched interrupted s ∧
      s.server = .running resumedWorld ∧ s.offered = [] ∧ owed resumedRoom codexKey ∈ s.due := by
  have hrun : RememberRun Char.isAlphanum greeting id .launched interrupted _ :=
    .cons (.restart rfl rfl (.started rfl rfl)) (.cons (.op rfl ⟨trivial, rfl⟩)
      (.cons (.op rfl ⟨trivial, rfl⟩) (.cons (.ended rfl (.stop _) .between)
        (.single (.restart rfl rfl (.started rfl rfl))))))
  have hroom : resumedWorld.chat.rooms.get 1 = some resumedRoom := rfl
  obtain ⟨howed, -, hsleeping⟩ := sleeping_rooms_offered (w := resumedWorld) hrun rfl
  have hslept := hsleeping (interrupted.take 4) Chat.noFaults rfl 1 resumedRoom hroom
  have hdue := howed 1 resumedRoom hroom hslept rfl (by decide) codexKey (by decide)
  exact ⟨_, hrun, rfl, rfl, hdue.resolve_left List.not_mem_nil⟩

end NormaHarness.Memory
