import NormaHarness.Leases
import NormaHarness.SleepSweeps

/-!
# When a room falls asleep

The sleep check reads two maps that heartbeats and departures maintain, and it forgets
expired clients as it goes. Here the happenings that matter are recorded: heartbeats that
were accepted, departures, and activity in a room. The check decides by this record alone,
so what it has forgotten makes no difference.
-/
namespace NormaHarness.Chat
open Std Identifiers Contracts LlmProtocol Media FilePrograms Leases

/-! ## The record -/

inductive Happening where
  | heartbeat (time id : ℕ) (client : String)
  | leave (time id : ℕ) (client : String)
  | activity (time id : ℕ)
  deriving DecidableEq, Repr

namespace Happening

/-- A heartbeat renews the lease of a client on a room, and a departure releases it. -/
def lease : Happening → Option (Event (ℕ × String))
  | .heartbeat time id client => some (.renew time (id, client))
  | .leave _ id client => some (.release (id, client))
  | .activity _ _ => none

def presenceIn (id : ℕ) : Happening → Option ℕ
  | .heartbeat time room _ => if room = id then some time else none
  | .leave time room _ => if room = id then some time else none
  | .activity _ _ => none

def activityIn (id : ℕ) : Happening → Option ℕ
  | .activity time room => if room = id then some time else none
  | _ => none

end Happening

/-- The newest happening is first. -/
abbrev Record := List Happening

namespace Record

/-- The time of the client's latest presence event in the room, if that is a heartbeat. -/
def lastHeartbeat (record : Record) (id : ℕ) (client : String) : Option ℕ :=
  held (record.filterMap Happening.lease) (id, client)

/-- The time of the last presence event of any client in the room. -/
def lastPresence (record : Record) (id : ℕ) : Option ℕ :=
  record.findSome? (Happening.presenceIn id)

def lastActivity (record : Record) (id : ℕ) : Option ℕ :=
  record.findSome? (Happening.activityIn id)

/-- The clients of every room as if none had ever been forgotten. -/
def presence : Record → ExtTreeMap ℕ (ExtTreeMap String ℕ)
  | [] => ∅
  | .heartbeat time id client :: older =>
      (presence older).insert id (((presence older)[id]?.getD ∅).insert client time)
  | .leave _ id client :: older =>
      (presence older).insert id (((presence older)[id]?.getD ∅).erase client)
  | .activity _ _ :: older => presence older

/-- The room has been idle for long, or it has been left and the grace period is over. -/
def Due (limits : SleepLimits) (now : ℕ) (record : Record) (id : ℕ) : Prop :=
  ∃ active, record.lastActivity id = some active ∧
    (limits.idleMs ≤ now - active ∨
      (¬∃ client seen, record.lastHeartbeat id client = some seen ∧ now - seen < limits.leaseMs) ∧
        limits.leaveGraceMs ≤ now - (record.lastPresence id).getD active)

end Record

/-- What an operation adds to the record. A message that could not be saved is activity too. -/
def happenings (isAlphanumeric : Char → Bool) (w : World) : ChatOp → Record
  | .insertRoom _ room => [.activity room.lastActivityMs room.id]
  | .ensureSoloRoom _ member name now =>
      match validRoomName name with
      | .error _ => []
      | .ok _ =>
        match w.chat.rooms.values.find? (isSoloRoom member) with
        | some _ => []
        | none => [.activity now w.chat.nextRoom]
  | .ensureIncognitoSoloRoom member name now =>
      match validRoomName name with
      | .error _ => []
      | .ok _ =>
        match w.chat.rooms.values.find? (isIncognitoSoloRoom member) with
        | some _ => []
        | none => [.activity now w.chat.nextRoom]
  | .send _ clock id text media =>
      match admission isAlphanumeric id (Text.trim text) media w.chat with
      | .error _ => []
      | .ok _ => [.activity clock.now id]
  | .push _ clock round _ _ _ _ =>
      match w.chat.rooms.get round.roomId with
      | none => []
      | some _ => [.activity clock.now round.roomId]
  | .finish _ now round =>
      match w.chat.rooms.get round.roomId with
      | none => []
      | some _ => [.activity now round.roomId]
  | .heartbeat now id client =>
      match (heartbeat now id client w.chat).1 with
      | .error _ => []
      | .ok () => [.heartbeat now id client]
  | .leave now id client => [.leave now id client]
  | _ => []

attribute [local simp] happenings

/-- The record of a run, after what was recorded before it. -/
def chronicle (isAlphanumeric : Char → Bool) : World → Record → List ChatOp → Record
  | _, record, [] => record
  | w, record, op :: ops =>
      chronicle isAlphanumeric (w.after isAlphanumeric op)
        (happenings isAlphanumeric w op ++ record) ops

/-- A restored room was last active when its snapshot says. -/
def restoredRecord (restored : List ChatRoom) : Record :=
  (restored.map fun room => .activity room.lastActivityMs room.id).reverse

/-! ## The maps and the record -/

/-- What the coordinator holds of a client in a room. -/
def seenAt (chat : ChatResident) (k : ℕ × String) : Option ℕ :=
  (chat.presence[k.1]?.getD ∅)[k.2]?

/-- The coordinator agrees with the record, but for clients whose leases are over by `now`. -/
structure Tracks (lease now : ℕ) (record : Record) (chat : ChatResident) : Prop where
  clients : Keeps lease now (record.filterMap Happening.lease) (seenAt chat)
  presence : ∀ id, chat.lastPresence[id]? = record.lastPresence id
  activity : ∀ id room, chat.rooms.get id = some room →
    record.lastActivity id = some room.lastActivityMs

/-- What a sleep check does to the maps. -/
def Sweeps (lease time : ℕ) (chat chat' : ChatResident) : Prop :=
  Prunes lease time (seenAt chat) (seenAt chat') ∧ chat'.lastPresence = chat.lastPresence ∧
    ∀ id room', chat'.rooms.get id = some room' → ∃ room,
      chat.rooms.get id = some room ∧ room.lastActivityMs = room'.lastActivityMs

namespace Tracks

variable {lease now : ℕ} {record : Record} {chat chat' : ChatResident}

/-- Nothing happened to the maps, and every room is as active as it was. -/
theorem quiet (h : Tracks lease now record chat) (hpresence : chat'.presence = chat.presence)
    (hlast : chat'.lastPresence = chat.lastPresence)
    (hrooms : ∀ id room', chat'.rooms.get id = some room' → ∃ room,
      chat.rooms.get id = some room ∧ room.lastActivityMs = room'.lastActivityMs) :
    Tracks lease now record chat' where
  clients := by
    have hseen : seenAt chat' = seenAt chat := by
      unfold seenAt
      rw [hpresence]
    rw [hseen]
    exact h.clients
  presence id := by
    rw [hlast]
    exact h.presence id
  activity id room' hroom' := by
    obtain ⟨room, hroom, hactive⟩ := hrooms id room' hroom'
    rw [← hactive]
    exact h.activity id room hroom

/-- A room is put with a new time of activity. -/
theorem active (h : Tracks lease now record chat) (room : ChatRoom)
    (hpresence : chat'.presence = chat.presence)
    (hlast : chat'.lastPresence = chat.lastPresence)
    (hrooms : chat'.rooms = chat.rooms.put room) :
    Tracks lease now (.activity room.lastActivityMs room.id :: record) chat' where
  clients := by
    have hseen : seenAt chat' = seenAt chat := by
      unfold seenAt
      rw [hpresence]
    rw [hseen]
    exact h.clients
  presence id := by
    rw [hlast]
    exact h.presence id
  activity id other hother := by
    rw [hrooms, RoomStore.get_put] at hother
    unfold Record.lastActivity
    rw [List.findSome?_cons]
    simp only [Happening.activityIn]
    split_ifs at hother ⊢
    · rw [Option.some.inj hother]
    · exact h.activity id other hother

theorem heartbeat (h : Tracks lease now record chat) (time id : ℕ) (client : String)
    (hpresence : chat'.presence =
      chat.presence.insert id ((chat.presence[id]?.getD ∅).insert client time))
    (hlast : chat'.lastPresence = chat.lastPresence.insert id time)
    (hrooms : chat'.rooms = chat.rooms) :
    Tracks lease now (.heartbeat time id client :: record) chat' where
  clients := by
    refine h.clients.renew time (id, client) fun k => ?_
    unfold seenAt
    rw [hpresence, ExtTreeMap.getElem?_insert]
    by_cases hid : id = k.1
    · subst hid
      by_cases hclient : client = k.2
      · simp [hclient]
      · have hne : (k.1, client) ≠ k := fun heq => hclient (congrArg Prod.snd heq)
        simp [hne, ExtTreeMap.getElem?_insert, hclient]
    · have hne : (id, client) ≠ k := fun heq => hid (congrArg Prod.fst heq)
      simp [hne, hid]
  presence other := by
    have hother := h.presence other
    unfold Record.lastPresence at hother ⊢
    rw [hlast, ExtTreeMap.getElem?_insert, List.findSome?_cons]
    simp only [Happening.presenceIn, LawfulEqOrd.compare_eq_iff_eq]
    split_ifs
    · rfl
    · exact hother
  activity other room hroom := by
    rw [hrooms] at hroom
    exact h.activity other room hroom

theorem leave (h : Tracks lease now record chat) (time id : ℕ) (client : String) :
    Tracks lease now (.leave time id client :: record) (leave time id client chat) where
  clients := by
    refine h.clients.release (id, client) fun k => ?_
    unfold seenAt Chat.leave
    cases hclients : chat.presence[id]? with
    | none =>
        simp only
        split_ifs with hk
        · rw [← hk, hclients]
          simp
        · rfl
    | some clients =>
        simp only
        rw [ExtTreeMap.getElem?_insert]
        by_cases hid : id = k.1
        · subst hid
          by_cases hclient : client = k.2
          · simp [hclient]
          · have hne : (k.1, client) ≠ k := fun heq => hclient (congrArg Prod.snd heq)
            simp [hne, ExtTreeMap.getElem?_erase, hclient, hclients]
        · have hne : (id, client) ≠ k := fun heq => hid (congrArg Prod.fst heq)
          simp [hne, hid]
  presence other := by
    have hother := h.presence other
    unfold Record.lastPresence Chat.leave at *
    rw [ExtTreeMap.getElem?_insert, List.findSome?_cons]
    simp only [Happening.presenceIn, LawfulEqOrd.compare_eq_iff_eq]
    split_ifs
    · rfl
    · exact hother
  activity := h.activity

theorem sweep {time : ℕ} (h : Tracks lease now record chat) (hsweeps : Sweeps lease time chat chat')
    (htime : time ≤ now) : Tracks lease now record chat' where
  clients := h.clients.prune hsweeps.1 htime
  presence id := by
    rw [hsweeps.2.1]
    exact h.presence id
  activity id room' hroom' := by
    obtain ⟨room, hroom, hactive⟩ := hsweeps.2.2 id room' hroom'
    rw [← hactive]
    exact h.activity id room hroom

end Tracks

/-! ## The sleep check -/

theorem Sweeps.refl (lease time : ℕ) (chat : ChatResident) : Sweeps lease time chat chat :=
  ⟨.refl _ _ _, rfl, fun _ room hroom => ⟨room, hroom, rfl⟩⟩

theorem Sweeps.trans {lease time : ℕ} {a b c : ChatResident} (h : Sweeps lease time a b)
    (g : Sweeps lease time b c) : Sweeps lease time a c := by
  refine ⟨h.1.trans g.1, g.2.1.trans h.2.1, fun id room'' hroom'' => ?_⟩
  obtain ⟨room', hroom', hactive'⟩ := g.2.2 id room'' hroom''
  obtain ⟨room, hroom, hactive⟩ := h.2.2 id room' hroom'
  exact ⟨room, hroom, hactive.trans hactive'⟩

theorem getElem?_presentClients (limits : SleepLimits) (now : ℕ) (chat : ChatResident) (id : ℕ)
    (client : String) : (presentClients limits now chat id)[client]? =
      (seenAt chat (id, client)).filter fun seen => decide (now - seen < limits.leaseMs) := by
  unfold presentClients seenAt
  rw [ExtTreeMap.getElem?_filter']

/-- The check forgets the clients of one room that are not present. -/
theorem seenAt_pruned (limits : SleepLimits) (now id : ℕ) (chat : ChatResident) (k : ℕ × String) :
    seenAt {chat with
      presence := chat.presence.insert id (presentClients limits now chat id)} k =
      if id = k.1 then (seenAt chat k).filter fun seen => decide (now - seen < limits.leaseMs)
      else seenAt chat k := by
  conv_lhs => unfold seenAt
  rw [ExtTreeMap.getElem?_insert]
  simp only [LawfulEqOrd.compare_eq_iff_eq]
  split_ifs with hid
  · subst hid
    rw [Option.getD_some, getElem?_presentClients]
  · rfl

theorem prunes_pruned (limits : SleepLimits) (now id : ℕ) (chat : ChatResident) :
    Prunes limits.leaseMs now (seenAt chat) (seenAt {chat with
      presence := chat.presence.insert id (presentClients limits now chat id)}) := by
  intro k
  rw [seenAt_pruned]
  split_ifs with hid
  · cases hseen : seenAt chat k with
    | none => exact .inl rfl
    | some seen =>
        by_cases hlive : now - seen < limits.leaseMs
        · exact .inl (by simp [hlive])
        · have hexpired : limits.leaseMs ≤ now - seen := Nat.le_of_not_lt hlive
          exact .inr ⟨by simpa using hexpired, seen, rfl, hexpired⟩
  · exact .inl rfl

/-- One room's turn of the check. -/
theorem sleepRoom_sweeps (limits : SleepLimits) (now : ℕ) (swept : ChatResident × List ChatRoom)
    (room : ChatRoom) (hroom : swept.1.rooms.get room.id = some room) :
    Sweeps limits.leaseMs now swept.1 (sleepRoom limits now swept room).1 := by
  have hprunes := prunes_pruned limits now room.id swept.1
  unfold sleepRoom
  split_ifs
  · exact .refl _ _ _
  · refine ⟨hprunes, rfl, fun id room' hroom' => ?_⟩
    change (swept.1.rooms.put (asleep room)).get id = some room' at hroom'
    rw [RoomStore.get_put] at hroom'
    split_ifs at hroom' with hid
    · subst hid
      obtain rfl := Option.some.inj hroom'
      exact ⟨room, hroom, rfl⟩
    · exact ⟨room', hroom', rfl⟩
  · exact ⟨hprunes, rfl, fun _ room hroom => ⟨room, hroom, rfl⟩⟩

theorem sleepDue_sweeps (faults : SnapshotFaults) (limits : SleepLimits) (now : ℕ)
    (chat : ChatResident) (disk : SnapshotDisk) :
    Sweeps limits.leaseMs now chat (sleepDue faults limits now chat disk).2.1 :=
  sleepDue_relates (Sweeps.refl _ _) (fun _ _ _ first second => first.trans second) faults limits
    now (sleepRoom_sweeps limits now) chat disk

/-! ## The record of a run -/

/-- A sleep check of the run has the same lease, and its clock reading is no later. With a
clock that does not run backwards and fixed limits, every check before `now` is such a one. -/
def ChatOp.SweepsBy (lease now : ℕ) : ChatOp → Prop
  | .sleepDue _ limits time => limits.leaseMs = lease ∧ time ≤ now
  | _ => True

namespace Tracks

variable {isAlphanumeric : Char → Bool} {lease now : ℕ} {record : Record} {w : World}

/-- One field of a room is changed, other than its activity. -/
theorem put_same {chat chat' : ChatResident} (h : Tracks lease now record chat) {id : ℕ}
    {room : ChatRoom} (hroom : chat.rooms.get id = some room) (room' : ChatRoom)
    (hid : room'.id = room.id) (hactive : room'.lastActivityMs = room.lastActivityMs)
    (hpresence : chat'.presence = chat.presence) (hlast : chat'.lastPresence = chat.lastPresence)
    (hrooms : chat'.rooms = chat.rooms.put room') : Tracks lease now record chat' := by
  refine h.quiet hpresence hlast fun other found hfound => ?_
  rw [hrooms, RoomStore.get_put] at hfound
  split_ifs at hfound with hother
  · obtain rfl := Option.some.inj hfound
    rw [← hother, hid, RoomStore.id_of_get hroom]
    exact ⟨room, hroom, hactive.symm⟩
  · exact ⟨found, hfound, rfl⟩

theorem same_rooms {chat chat' : ChatResident} (h : Tracks lease now record chat)
    (hpresence : chat'.presence = chat.presence) (hlast : chat'.lastPresence = chat.lastPresence)
    (hrooms : chat'.rooms = chat.rooms) : Tracks lease now record chat' :=
  h.quiet hpresence hlast fun _ room hroom => ⟨room, hrooms ▸ hroom, rfl⟩

theorem enableStorage (h : Tracks lease now record w.chat) (faults : SnapshotFaults) :
    Tracks lease now record (enableStorage faults w.chat w.disk).2.1 := by
  unfold Chat.enableStorage
  split_ifs
  · exact h
  · rw [saving_chat]
    exact h.same_rooms rfl rfl rfl

theorem reserveRoom (h : Tracks lease now record w.chat) (name : String)
    (members : List ResidentKey) (incognito : Bool) (time : ℕ) :
    Tracks lease now record (w.reserved (reserveRoom name members incognito time w.chat)).chat := by
  unfold Chat.reserveRoom
  split
  · exact h
  · split
    · exact h
    · exact h.same_rooms rfl rfl rfl

variable (isAlphanumeric) in
theorem ensureSoloRoom (h : Tracks lease now record w.chat) (faults : SnapshotFaults)
    (member : ResidentKey) (name : String) (time : ℕ) :
    Tracks lease now
      (happenings isAlphanumeric w (.ensureSoloRoom faults member name time) ++ record)
      (Chat.ensureSoloRoom faults member name time w.chat w.disk).2.1 := by
  simp only [happenings, Chat.ensureSoloRoom]
  cases validRoomName name with
  | error error => exact h
  | ok trimmed =>
      cases w.chat.rooms.values.find? (isSoloRoom member) with
      | some existing => exact h
      | none =>
          simp only [insertRoom, saving_chat]
          exact h.active (newRoom w.chat.nextRoom trimmed [member.asStr] false time) rfl rfl rfl

variable (isAlphanumeric) in
theorem ensureIncognitoSoloRoom (h : Tracks lease now record w.chat) (member : ResidentKey)
    (name : String) (time : ℕ) :
    Tracks lease now
      (happenings isAlphanumeric w (.ensureIncognitoSoloRoom member name time) ++ record)
      (Chat.ensureIncognitoSoloRoom member name time w.chat).2 := by
  simp only [happenings, Chat.ensureIncognitoSoloRoom]
  cases validRoomName name with
  | error error => exact h
  | ok trimmed =>
      cases w.chat.rooms.values.find? (isIncognitoSoloRoom member) with
      | some existing => exact h
      | none =>
          exact h.active (newRoom w.chat.nextRoom trimmed [member.asStr] true time) rfl rfl rfl

variable (isAlphanumeric) in
theorem send (h : Tracks lease now record w.chat) (faults : SnapshotFaults) (clock : Clock)
    (id : ℕ) (text : String) (media : List MediaAsset) :
    Tracks lease now (happenings isAlphanumeric w (.send faults clock id text media) ++ record)
      (sendUserMessageWithMedia isAlphanumeric faults clock id text media w.chat w.disk).2.1 := by
  simp only [happenings]
  have hstep := send_step isAlphanumeric faults clock id text media w.chat w.disk
  generalize sendUserMessageWithMedia isAlphanumeric faults clock id text media w.chat w.disk = out
    at hstep
  have accepted : ∀ room members,
      admission isAlphanumeric id (Text.trim text) media w.chat = .ok (room, members) →
      Tracks lease now (.activity clock.now id :: record)
        (accepting w.chat clock (Text.trim text) media room) := by
    intro room members hadmission
    have hid : room.id = id := RoomStore.id_of_get (admission_ok hadmission).1
    rw [← hid]
    exact h.active (woken w.chat clock (Text.trim text) media room) rfl rfl rfl
  cases hstep with
  | refused error hrefused =>
      rw [hrefused]
      exact h
  | unsaved room members error disk' hadmission _ =>
      rw [hadmission]
      exact accepted room members hadmission
  | accepted room members disk' round hadmission _ _ _ =>
      rw [hadmission]
      exact accepted room members hadmission

variable (isAlphanumeric) in
theorem push (h : Tracks lease now record w.chat) (faults : SnapshotFaults) (clock : Clock)
    (round : Round) (role author text : String) (media : List MediaAsset) :
    Tracks lease now
      (happenings isAlphanumeric w (.push faults clock round role author text media) ++ record)
      (pushMessageWithMedia faults clock round.roomId role author text media w.chat w.disk).1 := by
  simp only [happenings, pushMessageWithMedia]
  cases hroom : w.chat.rooms.get round.roomId with
  | none => exact h
  | some room =>
      have hid : room.id = round.roomId := RoomStore.id_of_get hroom
      rw [← hid]
      exact h.active {appended room (newMessage w.chat role author text media clock.createdAt) with
        lastActivityMs := clock.now} rfl rfl rfl

variable (isAlphanumeric) in
theorem finish (h : Tracks lease now record w.chat) (faults : SnapshotFaults) (time : ℕ)
    (round : Round) :
    Tracks lease now (happenings isAlphanumeric w (.finish faults time round) ++ record)
      (finish faults time round.roomId w.chat w.disk).1 := by
  simp only [happenings, Chat.finish]
  cases hroom : w.chat.rooms.get round.roomId with
  | none => exact h
  | some room =>
      have hid : room.id = round.roomId := RoomStore.id_of_get hroom
      rw [← hid]
      exact h.active {room with busy := false, activeMember := none, lastActivityMs := time} rfl rfl
        rfl

theorem setActive (h : Tracks lease now record w.chat) (round : Round) (member : Option String) :
    Tracks lease now record (setActive round.roomId member w.chat) := by
  unfold Chat.setActive
  split
  · exact h
  · rename_i room hroom
    exact h.put_same hroom {room with activeMember := member} rfl rfl rfl rfl rfl

theorem setArchived (h : Tracks lease now record w.chat) (faults : SnapshotFaults) (id : ℕ)
    (archived : Bool) :
    Tracks lease now record (setArchived faults id archived w.chat w.disk).2.1 := by
  unfold Chat.setArchived
  cases harchivable : archivable id w.chat with
  | error error => exact h
  | ok room =>
      simp only [saving_chat]
      exact h.put_same (archivable_ok harchivable).1 {room with archived := archived} rfl rfl rfl
        rfl rfl

variable (isAlphanumeric) in
theorem acceptedHeartbeat (h : Tracks lease now record w.chat) (time id : ℕ) (client : String) :
    Tracks lease now (happenings isAlphanumeric w (.heartbeat time id client) ++ record)
      (Chat.heartbeat time id client w.chat).2 := by
  simp only [happenings, Chat.heartbeat]
  split_ifs
  · exact h
  · cases w.chat.rooms.get id with
    | none => exact h
    | some room => exact h.heartbeat time id client rfl rfl rfl

/-- Every operation keeps the maps and the record in agreement. -/
theorem after (h : Tracks lease now record w.chat) {op : ChatOp} (hop : op.SweepsBy lease now) :
    Tracks lease now (happenings isAlphanumeric w op ++ record)
      (w.after isAlphanumeric op).chat := by
  cases op with
  | enableStorage faults => exact h.enableStorage faults
  | reserveRoom name members incognito time => exact h.reserveRoom name members incognito time
  | insertRoom faults room =>
      have hchat : (w.after isAlphanumeric (.insertRoom faults room)).chat =
          {w.chat with rooms := w.chat.rooms.put room} := saving_chat faults room _ w.disk
      rw [hchat]
      exact h.active room rfl rfl rfl
  | ensureSoloRoom faults member name time =>
      simp only [World.after, World.withSaved]
      exact h.ensureSoloRoom isAlphanumeric faults member name time
  | ensureIncognitoSoloRoom member name time =>
      simp only [World.after]
      exact h.ensureIncognitoSoloRoom isAlphanumeric member name time
  | send faults clock id text media =>
      simp only [World.after, World.sent]
      exact h.send isAlphanumeric faults clock id text media
  | push faults clock round role author text media =>
      exact h.push isAlphanumeric faults clock round role author text media
  | setActive round member => exact h.setActive round member
  | finish faults time round => exact h.finish isAlphanumeric faults time round
  | abandon round => exact h
  | heartbeat time id client => exact h.acceptedHeartbeat isAlphanumeric time id client
  | leave time id client => exact h.leave time id client
  | sleepDue faults limits time =>
      obtain ⟨rfl, htime⟩ := hop
      exact h.sweep (sleepDue_sweeps faults limits time w.chat w.disk) htime
  | setArchived faults id archived => exact h.setArchived faults id archived

theorem run (h : Tracks lease now record w.chat) {ops : List ChatOp}
    (hops : ∀ op ∈ ops, op.SweepsBy lease now) :
    Tracks lease now (chronicle isAlphanumeric w record ops)
      (ops.foldl (World.after isAlphanumeric) w).chat := by
  induction ops generalizing w record with
  | nil => exact h
  | cons op ops ih =>
      exact ih (h.after (hops op List.mem_cons_self))
        fun other hother => hops other (List.mem_cons_of_mem _ hother)

theorem launch (lease now : ℕ) : Tracks lease now [] launch where
  clients k := by
    simp [seenAt, Chat.launch, held]
  presence id := by
    simp [Chat.launch, Record.lastPresence]
  activity id room hroom := by
    simp [Chat.launch] at hroom

theorem restore {chat : ChatResident} (h : Tracks lease now record chat)
    (media : ExtTreeMap String MediaAsset) (restored : List ChatRoom) :
    Tracks lease now (restoredRecord restored ++ record)
      (restoreRoomsWithMedia restored media chat) := by
  induction restored generalizing record chat with
  | nil => exact h
  | cons room restored ih =>
      have hfirst : Tracks lease now (.activity room.lastActivityMs room.id :: record)
          (restoreRoom media chat room) :=
        h.active {room with
          busy := false
          activeMember := none
          sleeping := true
          messages := room.messages.map (restoredMessage media)} rfl rfl rfl
      have hrest := ih hfirst
      unfold restoredRecord at hrest ⊢
      rw [List.map_cons, List.reverse_cons, List.append_assoc]
      exact hrest

theorem start (lease now : ℕ) (restored : List ChatRoom) (media : ExtTreeMap String MediaAsset)
    (disk : SnapshotDisk) :
    Tracks lease now (restoredRecord restored) (start restored media disk).chat := by
  have h := (launch lease now).restore media restored
  rw [List.append_nil] at h
  exact h

end Tracks

/-! ## The check decides by the record -/

theorem presentClients_isEmpty {limits : SleepLimits} {now : ℕ} {record : Record}
    {chat : ChatResident} (h : Tracks limits.leaseMs now record chat) (id : ℕ) :
    (presentClients limits now chat id).isEmpty = true ↔
      ¬∃ client seen, record.lastHeartbeat id client = some seen ∧
        now - seen < limits.leaseMs := by
  have hpresent : ∀ client, client ∈ presentClients limits now chat id ↔
      ∃ seen, record.lastHeartbeat id client = some seen ∧ now - seen < limits.leaseMs := by
    intro client
    rw [ExtTreeMap.mem_iff_isSome_getElem?, getElem?_presentClients, Record.lastHeartbeat,
      ← h.clients.live_iff, Option.isSome_iff_exists]
    simp only [Option.filter_eq_some_iff, decide_eq_true_eq]
  rw [ExtTreeMap.isEmpty_iff, ExtTreeMap.eq_empty_iff_forall_not_mem]
  simp only [hpresent, not_exists]

/-- A check decides about a room as its record does. -/
theorem isDue_iff {limits : SleepLimits} {now : ℕ} {record : Record} {chat : ChatResident}
    (h : Tracks limits.leaseMs now record chat) {room : ChatRoom}
    (hroom : chat.rooms.get room.id = some room) :
    isDue limits now chat room = true ↔ record.Due limits now room.id := by
  have hactive := h.activity room.id room hroom
  unfold isDue Record.Due
  simp only [Bool.or_eq_true, Bool.and_eq_true, decide_eq_true_eq, presentClients_isEmpty h,
    h.presence, hactive, Option.some.injEq, exists_eq_left']

/-- The record's own map holds the latest heartbeats. -/
theorem getElem?_presence (record : Record) (id : ℕ) (client : String) :
    (record.presence[id]?.getD ∅)[client]? = record.lastHeartbeat id client := by
  unfold Record.lastHeartbeat
  induction record with
  | nil => simp [Record.presence, held]
  | cons happening older ih =>
      cases happening with
      | heartbeat time room other =>
          simp only [Record.presence, List.filterMap_cons, Happening.lease, held, Prod.mk.injEq,
            ExtTreeMap.getElem?_insert, LawfulEqOrd.compare_eq_iff_eq]
          rw [← ih]
          by_cases hroom : room = id
          · subst hroom
            simp [ExtTreeMap.getElem?_insert]
          · simp [hroom]
      | leave time room other =>
          simp only [Record.presence, List.filterMap_cons, Happening.lease, held, Prod.mk.injEq,
            ExtTreeMap.getElem?_insert, LawfulEqOrd.compare_eq_iff_eq]
          rw [← ih]
          by_cases hroom : room = id
          · subst hroom
            simp [ExtTreeMap.getElem?_erase]
          · simp [hroom]
      | activity time room => exact ih

/-- What earlier checks have forgotten makes no difference. -/
theorem isDue_unpruned {limits : SleepLimits} {now : ℕ} {record : Record} {chat : ChatResident}
    (h : Tracks limits.leaseMs now record chat) {room : ChatRoom}
    (hroom : chat.rooms.get room.id = some room) :
    isDue limits now {chat with presence := record.presence} room = isDue limits now chat room := by
  have hunpruned : Tracks limits.leaseMs now record {chat with presence := record.presence} :=
    ⟨fun k => .inl (getElem?_presence record k.1 k.2), h.presence, h.activity⟩
  rw [Bool.eq_iff_iff, isDue_iff hunpruned hroom, isDue_iff h hroom]

/-- The fields that a check leaves as they are. -/
structure Unmoved (chat chat' : ChatResident) : Prop where
  nextRoom : chat'.nextRoom = chat.nextRoom
  nextMessage : chat'.nextMessage = chat.nextMessage
  nextRequest : chat'.nextRequest = chat.nextRequest
  storageEnabled : chat'.storageEnabled = chat.storageEnabled
  lastPresence : chat'.lastPresence = chat.lastPresence

theorem sleepDue_unmoved (faults : SnapshotFaults) (limits : SleepLimits) (now : ℕ)
    (chat : ChatResident) (disk : SnapshotDisk) :
    Unmoved chat (sleepDue faults limits now chat disk).2.1 := by
  refine sleepDue_relates (fun _ => ⟨rfl, rfl, rfl, rfl, rfl⟩) (fun _ _ _ h g => ?_) faults limits
    now (fun swept room _ => ?_) chat disk
  · exact ⟨g.nextRoom.trans h.nextRoom, g.nextMessage.trans h.nextMessage,
      g.nextRequest.trans h.nextRequest, g.storageEnabled.trans h.storageEnabled,
      g.lastPresence.trans h.lastPresence⟩
  · unfold sleepRoom
    split_ifs
    · exact ⟨rfl, rfl, rfl, rfl, rfl⟩
    · exact ⟨rfl, rfl, rfl, rfl, rfl⟩
    · exact ⟨rfl, rfl, rfl, rfl, rfl⟩

/-- A room is awake and without a turn in progress, and its record says that it is due. -/
def FallsAsleep (limits : SleepLimits) (now : ℕ) (record : Record) (room : ChatRoom) : Prop :=
  room.sleeping = false ∧ room.busy = false ∧ record.Due limits now room.id

/-- After any run, a check puts to sleep exactly the rooms that the record of the run calls due,
each once and with the next generation, and what earlier checks forgot makes no difference. -/
theorem sleepDue_follows_record (isAlphanumeric : Char → Bool) (restored : List ChatRoom)
    (media : ExtTreeMap String MediaAsset) (disk : SnapshotDisk) (ops : List ChatOp)
    (faults : SnapshotFaults) (limits : SleepLimits) (now : ℕ)
    (hops : ∀ op ∈ ops, op.SweepsBy limits.leaseMs now) :
    let w := ops.foldl (World.after isAlphanumeric) (start restored media disk)
    let record := chronicle isAlphanumeric (start restored media disk) (restoredRecord restored) ops
    let out := sleepDue faults limits now w.chat w.disk
    (∀ slept, slept ∈ out.1 ↔ ∃ room, w.chat.rooms.get room.id = some room ∧
      FallsAsleep limits now record room ∧ slept = asleep room) ∧
    (out.1.map ChatRoom.id).Nodup ∧
    (∀ id, w.chat.rooms.get id = none → out.2.1.rooms.get id = none) ∧
    (∀ id room, w.chat.rooms.get id = some room →
      (FallsAsleep limits now record room → out.2.1.rooms.get id = some (asleep room)) ∧
      (¬FallsAsleep limits now record room → out.2.1.rooms.get id = some room) ∧
      isDue limits now {w.chat with presence := record.presence} room =
        isDue limits now w.chat room) ∧
    Unmoved w.chat out.2.1 := by
  intro w record out
  have htracks : Tracks limits.leaseMs now record w.chat :=
    (Tracks.start limits.leaseMs now restored media disk).run hops
  have hfalls_iff : ∀ room, w.chat.rooms.get room.id = some room →
      (fallsAsleep limits now w.chat room = true ↔ FallsAsleep limits now record room) := by
    intro room hroom
    unfold fallsAsleep FallsAsleep
    rw [Bool.and_eq_true, isDue_iff htracks hroom, Bool.not_eq_true', Bool.or_eq_false_iff,
      and_assoc]
  obtain ⟨hlist, hget⟩ := sleepDue_asleep faults limits now w.chat w.disk
  refine ⟨fun slept => ?_, ?_, fun id hnone => ?_, fun id room hroom => ?_,
    sleepDue_unmoved faults limits now w.chat w.disk⟩
  · rw [show out.1 = _ from hlist, List.mem_map]
    constructor
    · rintro ⟨room, hmem, rfl⟩
      obtain ⟨hvalue, hroom⟩ := List.mem_filter.mp hmem
      have hstored := RoomStore.mem_values.mp hvalue
      exact ⟨room, hstored, (hfalls_iff room hstored).mp hroom, rfl⟩
    · rintro ⟨room, hstored, hfalls, rfl⟩
      exact ⟨room, List.mem_filter.mpr ⟨RoomStore.mem_values.mpr hstored,
        (hfalls_iff room hstored).mpr hfalls⟩, rfl⟩
  · have hids : (out.1.map ChatRoom.id).Sublist (w.chat.rooms.values.map ChatRoom.id) := by
      rw [show out.1 = _ from hlist, List.map_map]
      exact List.filter_sublist.map ChatRoom.id
    exact (values_nodup w.chat.rooms).sublist hids
  · rw [show out.2.1.rooms.get id = _ from hget id, hnone]
    rfl
  · have hid : room.id = id := RoomStore.id_of_get hroom
    subst hid
    refine ⟨fun hfalls => ?_, fun hstays => ?_, isDue_unpruned htracks hroom⟩
    · rw [show out.2.1.rooms.get room.id = _ from hget room.id, hroom, Option.map_some,
        if_pos ((hfalls_iff room hroom).mpr hfalls)]
    · rw [show out.2.1.rooms.get room.id = _ from hget room.id, hroom, Option.map_some,
        if_neg (mt (hfalls_iff room hroom).mp hstays)]

/-- A visitor falls silent, is forgotten by one check, and leaves. -/
def visit : List ChatOp :=
  [.ensureSoloRoom noFaults codexKey "Codex" 0, .heartbeat 10 1 "tab",
    .sleepDue noFaults ⟨1000, 5, 50⟩ 20, .leave 30 1 "tab"]

def visitedWorld : World := visit.foldl (World.after Char.isAlphanum) (start [] ∅ noFiles)

def visitedRoom : ChatRoom :=
  ⟨1, "Codex", ["codex"], [], false, none, false, 0, 0, false, false⟩

/-- The check after the grace period puts the room to sleep. -/
theorem sleepDue_follows_record_visit : asleep visitedRoom ∈
    (sleepDue noFaults ⟨1000, 5, 50⟩ 90 visitedWorld.chat visitedWorld.disk).1 := by
  have hops : ∀ op ∈ visit, op.SweepsBy 5 90 := by
    intro op hop
    fin_cases hop
    · trivial
    · trivial
    · exact ⟨rfl, by decide⟩
    · trivial
  have hrecord : chronicle Char.isAlphanum (start [] ∅ noFiles) (restoredRecord []) visit =
      [.leave 30 1 "tab", .heartbeat 10 1 "tab", .activity 0 1] := by rfl
  have hroom : visitedWorld.chat.rooms.get 1 = some visitedRoom := by decide +kernel
  refine ((sleepDue_follows_record Char.isAlphanum [] ∅ noFiles visit noFaults ⟨1000, 5, 50⟩ 90
    hops).1 _).mpr ⟨visitedRoom, hroom, ⟨rfl, rfl, ?_⟩, rfl⟩
  rw [hrecord]
  refine ⟨0, rfl, .inr ⟨?_, by decide⟩⟩
  rintro ⟨client, seen, hseen, -⟩
  simp only [Record.lastHeartbeat, List.filterMap_cons, Happening.lease, List.filterMap_nil, held]
    at hseen
  split_ifs at hseen

end NormaHarness.Chat
