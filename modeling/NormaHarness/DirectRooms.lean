import NormaHarness.ChatRuns

/-!
# Direct rooms

The check for an existing direct room and the creation of a new one share the room
lock. The check skips archived rooms, and the archive flag can be taken back later
without asking it again. A direct room stays the only one of its Resident exactly as
long as no archived one comes back beside it.
-/
namespace NormaHarness.Chat
open Std Identifiers Contracts LlmProtocol Media FilePrograms

/-- What the check for a direct room reads. -/
def ChatRoom.mode (room : ChatRoom) : List String × Bool × Bool :=
  (room.members, room.archived, room.incognito)

def RoomStore.modes (s : RoomStore) (id : ℕ) : Option (List String × Bool × Bool) :=
  (s.get id).map ChatRoom.mode

/-- At most one open ordinary room has one Resident as its only member. -/
def OneDirect (c : ChatResident) : Prop :=
  ∀ (key : ResidentKey) (id id' : ℕ) (room room' : ChatRoom), c.rooms.get id = some room →
    c.rooms.get id' = some room' → isSoloRoom key room = true → isSoloRoom key room' = true →
    id = id'

/-- The web application only makes groups of at least two members by hand. -/
def ChatOp.Web : ChatOp → Prop
  | .reserveRoom _ members _ _ => 2 ≤ members.length
  | _ => True

/-- A room that leaves the archive does not meet an open direct room of its member. -/
def ChatOp.Clear (c : ChatResident) : ChatOp → Prop
  | .setArchived _ id false => ∀ (key : ResidentKey) (room other : ChatRoom),
      archivable id c = .ok room → room.archived = true → room.members = [key.asStr] →
      c.rooms.get other.id = some other → isSoloRoom key other = false
  | _ => True

theorem isSoloRoom_congr {key : ResidentKey} {room room' : ChatRoom} (h : room.mode = room'.mode) :
    isSoloRoom key room = isSoloRoom key room' := by
  simp only [ChatRoom.mode, Prod.mk.injEq] at h
  obtain ⟨hmembers, harchived, hincognito⟩ := h
  simp only [isSoloRoom, hmembers, harchived, hincognito]

theorem isSoloRoom_iff {key : ResidentKey} {room : ChatRoom} : isSoloRoom key room = true ↔
    room.incognito = false ∧ room.archived = false ∧ room.members = [key.asStr] := by
  simp only [isSoloRoom, Bool.and_eq_true, Bool.not_eq_true', beq_iff_eq, and_assoc]

theorem modes_put_same {s : RoomStore} {id : ℕ} {room room' : ChatRoom}
    (hroom : s.get id = some room) (hid : room'.id = room.id) (hmode : room'.mode = room.mode) :
    (s.put room').modes = s.modes := by
  funext k
  unfold RoomStore.modes
  rw [RoomStore.get_put]
  split_ifs with hk
  · have : id = k := (RoomStore.id_of_get hroom).symm.trans (hid.symm.trans hk)
    rw [← this, hroom, Option.map_some, Option.map_some, hmode]
  · rfl

/-! ## The operations that leave the modes alone -/

theorem enableStorage_modes (faults : SnapshotFaults) (c : ChatResident) (disk : SnapshotDisk) :
    (enableStorage faults c disk).2.1.rooms.modes = c.rooms.modes := by
  unfold enableStorage
  split_ifs
  · rfl
  · rw [saving_chat]

theorem send_modes (isAlphanumeric : Char → Bool) (faults : SnapshotFaults) (clock : Clock)
    (id : ℕ) (text : String) (media : List MediaAsset) (c : ChatResident) (disk : SnapshotDisk) :
    (sendUserMessageWithMedia isAlphanumeric faults clock id text media c disk).2.1.rooms.modes =
      c.rooms.modes := by
  have hstep := send_step isAlphanumeric faults clock id text media c disk
  generalize sendUserMessageWithMedia isAlphanumeric faults clock id text media c disk = out
    at hstep ⊢
  cases hstep with
  | refused error _ => rfl
  | unsaved room members error disk' hadmission _ =>
      exact modes_put_same (admission_ok hadmission).1 rfl rfl
  | accepted room members disk' round hadmission _ _ _ =>
      exact modes_put_same (admission_ok hadmission).1 rfl rfl

theorem push_modes (faults : SnapshotFaults) (clock : Clock) (id : ℕ)
    (role author text : String) (media : List MediaAsset) (c : ChatResident)
    (disk : SnapshotDisk) :
    (pushMessageWithMedia faults clock id role author text media c disk).1.rooms.modes =
      c.rooms.modes := by
  unfold pushMessageWithMedia
  split
  · rfl
  · rename_i room hroom
    exact modes_put_same hroom rfl rfl

theorem setActive_modes (id : ℕ) (member : Option String) (c : ChatResident) :
    (setActive id member c).rooms.modes = c.rooms.modes := by
  unfold setActive
  split
  · rfl
  · rename_i room hroom
    exact modes_put_same hroom rfl rfl

theorem finish_modes (faults : SnapshotFaults) (now id : ℕ) (c : ChatResident)
    (disk : SnapshotDisk) : (finish faults now id c disk).1.rooms.modes = c.rooms.modes := by
  unfold finish
  split
  · rfl
  · rename_i room hroom
    exact modes_put_same hroom rfl rfl

theorem heartbeat_modes (now id : ℕ) (client : String) (c : ChatResident) :
    (heartbeat now id client c).2.rooms.modes = c.rooms.modes := by
  unfold heartbeat
  split_ifs
  · rfl
  · split
    · rfl
    · rfl

theorem sleepRoom_modes (limits : SleepLimits) (now : ℕ) (swept : ChatResident × List ChatRoom)
    {room : ChatRoom} (hroom : swept.1.rooms.get room.id = some room) :
    (sleepRoom limits now swept room).1.rooms.modes = swept.1.rooms.modes := by
  unfold sleepRoom
  split_ifs
  · rfl
  · exact modes_put_same hroom rfl rfl
  · rfl

theorem sleepDue_modes (faults : SnapshotFaults) (limits : SleepLimits) (now : ℕ)
    (c : ChatResident) (disk : SnapshotDisk) :
    (sleepDue faults limits now c disk).2.1.rooms.modes = c.rooms.modes :=
  sleepDue_relates (R := fun a b => b.rooms.modes = a.rooms.modes) (fun _ => rfl)
    (fun _ _ _ first second => second.trans first) faults limits now
    (fun swept _ hroom => sleepRoom_modes limits now swept hroom) c disk

/-! ## One step -/

namespace OneDirect

variable {c c' : ChatResident}

theorem of_modes (h : OneDirect c) (hmodes : c'.rooms.modes = c.rooms.modes) : OneDirect c' := by
  have back : ∀ id room, c'.rooms.get id = some room →
      ∃ old, c.rooms.get id = some old ∧ old.mode = room.mode := by
    intro id room hroom
    have hid := congrFun hmodes id
    unfold RoomStore.modes at hid
    rw [hroom] at hid
    exact Option.map_eq_some_iff.mp hid.symm
  intro key id id' room room' hroom hroom' hsolo hsolo'
  obtain ⟨old, hold, hmode⟩ := back id room hroom
  obtain ⟨old', hold', hmode'⟩ := back id' room' hroom'
  exact h key id id' old old' hold hold' ((isSoloRoom_congr hmode).trans hsolo)
    ((isSoloRoom_congr hmode').trans hsolo')

/-- A room is put into the store, and no other room is a direct room of its member. -/
theorem of_put (h : OneDirect c) {room : ChatRoom} (hrooms : c'.rooms = c.rooms.put room)
    (hother : ∀ (key : ResidentKey) (id : ℕ) (other : ChatRoom), isSoloRoom key room = true →
      room.id ≠ id → c.rooms.get id = some other → isSoloRoom key other = false) :
    OneDirect c' := by
  intro key id id' a b ha hb hsolo hsolo'
  rw [hrooms, RoomStore.get_put] at ha hb
  split_ifs at ha hb with hid hid' hid'
  · exact hid.symm.trans hid'
  · obtain rfl := Option.some.inj ha
    exact absurd hsolo' (by simp [hother key id' b hsolo hid' hb])
  · obtain rfl := Option.some.inj hb
    exact absurd hsolo (by simp [hother key id a hsolo' hid ha])
  · exact h key id id' a b ha hb hsolo hsolo'

theorem ensureSoloRoom (h : OneDirect c) (faults : SnapshotFaults) (member : ResidentKey)
    (name : String) (now : ℕ) (disk : SnapshotDisk) :
    OneDirect (ensureSoloRoom faults member name now c disk).2.1 := by
  unfold Chat.ensureSoloRoom
  split
  · exact h
  · split
    · exact h
    · rename_i hfind
      simp only [insertRoom, saving_chat]
      refine h.of_put rfl fun key id other hsolo _ hget => ?_
      have hkey : key = member := by
        have hmembers := (isSoloRoom_iff.mp hsolo).2.2
        exact Identifier.ext (List.singleton_inj.mp hmembers).symm
      have hmem : other ∈ c.rooms.values :=
        RoomStore.mem_values.mpr (by rw [RoomStore.id_of_get hget, hget])
      rw [hkey]
      exact Bool.eq_false_iff.mpr (List.find?_eq_none.mp hfind other hmem)

theorem ensureIncognitoSoloRoom (h : OneDirect c) (member : ResidentKey) (name : String)
    (now : ℕ) : OneDirect (ensureIncognitoSoloRoom member name now c).2 := by
  unfold Chat.ensureIncognitoSoloRoom
  split
  · exact h
  · split
    · exact h
    · refine h.of_put rfl fun key id other hsolo _ _ => ?_
      exact absurd (isSoloRoom_iff.mp hsolo).1 (by simp [newRoom])

theorem setArchived (h : OneDirect c) (faults : SnapshotFaults) (id : ℕ) (archived : Bool)
    (disk : SnapshotDisk) (hclear : (ChatOp.setArchived faults id archived).Clear c) :
    OneDirect (setArchived faults id archived c disk).2.1 := by
  unfold Chat.setArchived
  cases harchivable : archivable id c with
  | error error => exact h
  | ok room =>
      have hroom := (archivable_ok harchivable).1
      have hid := RoomStore.id_of_get hroom
      simp only [saving_chat]
      refine h.of_put rfl fun key k other hsolo hne hget => ?_
      obtain ⟨hincognito, hopen, hmembers⟩ := isSoloRoom_iff.mp hsolo
      obtain rfl : archived = false := hopen
      cases harchived : room.archived with
      | true =>
          refine hclear key room other harchivable harchived hmembers ?_
          rw [RoomStore.id_of_get hget, hget]
      | false =>
          -- The flag was down already: the room was the direct room before, too.
          by_contra hother
          have hsame := h key id k room other hroom hget
            (isSoloRoom_iff.mpr ⟨hincognito, harchived, hmembers⟩) (Bool.not_eq_false _ ▸ hother)
          exact hne (hid.trans hsame)

/-- An archived room that comes back beside an open direct room makes two of them. -/
theorem clear_of_setArchived {faults : SnapshotFaults} {id : ℕ} {disk : SnapshotDisk}
    (h : OneDirect (Chat.setArchived faults id false c disk).2.1) :
    (ChatOp.setArchived faults id false).Clear c := by
  intro key room other harchivable harchived hmembers hother
  have hroom := (archivable_ok harchivable).1
  have hid := RoomStore.id_of_get hroom
  by_contra hsolo
  rw [Bool.not_eq_false] at hsolo
  have hne : id ≠ other.id := by
    rintro rfl
    obtain rfl := Option.some.inj (hroom.symm.trans hother)
    simp [(isSoloRoom_iff.mp hsolo).2.1] at harchived
  have hincognito : room.incognito = false := by
    simp only [archivable, hroom] at harchivable
    split_ifs at harchivable with _ hincognito
    exact Bool.eq_false_iff.mpr hincognito
  simp only [Chat.setArchived, harchivable, saving_chat] at h
  refine hne (h key id other.id {room with archived := false} other ?_ ?_ ?_ hsolo)
  · exact (RoomStore.get_put _ _ _).trans (if_pos hid)
  · have hkept : (c.rooms.put {room with archived := false}).get other.id = c.rooms.get other.id :=
      RoomStore.get_put_ne fun he => hne (hid.symm.trans he)
    exact hkept.trans hother
  · exact isSoloRoom_iff.mpr ⟨hincognito, rfl, hmembers⟩

end OneDirect

/-- Half-made rooms are groups or private. -/
def GroupCreations (w : World) : Prop :=
  ∀ room ∈ w.creations, ∀ key : ResidentKey, isSoloRoom key room = false

theorem GroupCreations.reserved {w : World} (h : GroupCreations w) {name : String}
    {members : List ResidentKey} (hmembers : 2 ≤ members.length) (incognito : Bool) (now : ℕ) :
    GroupCreations (w.reserved (reserveRoom name members incognito now w.chat)) := by
  unfold reserveRoom
  split
  · exact h
  · split
    · exact h
    · intro room hroom key
      rcases List.mem_cons.mp hroom with rfl | hroom
      · refine Bool.eq_false_iff.mpr fun hsolo => ?_
        have hlength := congrArg List.length (isSoloRoom_iff.mp hsolo).2.2
        simp only [newRoom, List.length_map, List.length_singleton] at hlength
        omega
      · exact h room hroom key

/-- What the operations of the web application keep. -/
def Singular (w : World) : Prop := OneDirect w.chat ∧ GroupCreations w

theorem GroupCreations.after {w : World} (h : GroupCreations w) (isAlphanumeric : Char → Bool)
    {op : ChatOp} (hweb : op.Web) : GroupCreations (w.after isAlphanumeric op) := by
  cases op with
  | reserveRoom name members incognito now =>
      simp only [World.after]
      exact h.reserved hweb incognito now
  | insertRoom faults room =>
      intro other hother
      simp only [World.after, World.withSaved] at hother
      exact h other (List.mem_of_mem_erase hother)
  | _ =>
      intro room hroom
      simp only [World.after, World.withSaved, World.sent] at hroom
      exact h room hroom

theorem OneDirect.after {w : World} (h : OneDirect w.chat) (hgroups : GroupCreations w)
    (isAlphanumeric : Char → Bool) {op : ChatOp} (henabled : op.Enabled w)
    (hclear : op.Clear w.chat) : OneDirect (w.after isAlphanumeric op).chat := by
  cases op with
  | enableStorage faults =>
      simp only [World.after, World.withSaved]
      exact h.of_modes (enableStorage_modes faults w.chat w.disk)
  | reserveRoom name members incognito now =>
      simp only [World.after, reserveRoom]
      split
      · exact h
      · split
        · exact h
        · exact h.of_modes rfl
  | insertRoom faults room =>
      simp only [World.after, World.withSaved, insertRoom, saving_chat]
      refine h.of_put rfl fun key id other hsolo _ _ => ?_
      exact absurd hsolo (by simp [hgroups room henabled key])
  | ensureSoloRoom faults member name now =>
      simp only [World.after, World.withSaved]
      exact h.ensureSoloRoom faults member name now w.disk
  | ensureIncognitoSoloRoom member name now =>
      simp only [World.after]
      exact h.ensureIncognitoSoloRoom member name now
  | send faults clock id text media =>
      simp only [World.after, World.sent]
      exact h.of_modes (send_modes isAlphanumeric faults clock id text media w.chat w.disk)
  | push faults clock round role author text media =>
      simp only [World.after]
      have hmodes := push_modes faults clock round.roomId role author text media w.chat w.disk
      exact h.of_modes hmodes
  | setActive round member =>
      simp only [World.after]
      exact h.of_modes (setActive_modes round.roomId member w.chat)
  | finish faults now round =>
      simp only [World.after]
      exact h.of_modes (finish_modes faults now round.roomId w.chat w.disk)
  | abandon round => exact h
  | heartbeat now id client =>
      simp only [World.after]
      exact h.of_modes (heartbeat_modes now id client w.chat)
  | leave now id client => exact h.of_modes rfl
  | sleepDue faults limits now =>
      simp only [World.after]
      exact h.of_modes (sleepDue_modes faults limits now w.chat w.disk)
  | setArchived faults id archived =>
      simp only [World.after, World.withSaved]
      exact h.setArchived faults id archived w.disk hclear

theorem Singular.step {isAlphanumeric : Char → Bool} {w w' : World} {op : ChatOp}
    (h : Singular w) (hweb : op.Web) (hclear : op.Clear w.chat)
    (hstep : ChatStep isAlphanumeric w op w') : Singular w' := by
  obtain ⟨henabled, rfl⟩ := hstep
  exact ⟨h.1.after h.2 isAlphanumeric henabled hclear, h.2.after isAlphanumeric hweb⟩

theorem ChatStep.unique {isAlphanumeric : Char → Bool} (w : World) (op : ChatOp) (v v' : World)
    (h : ChatStep isAlphanumeric w op v) (g : ChatStep isAlphanumeric w op v') : v = v' :=
  h.2.trans g.2.symm

/-- Over a run of the web application, a Resident has at most one direct room in every
state exactly when no room leaves the archive beside an open direct room of its member. -/
theorem one_direct_room_iff {isAlphanumeric : Char → Bool} {disk : SnapshotDisk}
    {ops : List ChatOp} {w : World} (hweb : ∀ op ∈ ops, op.Web)
    (hrun : ChatRun isAlphanumeric (start [] ∅ disk) ops w) :
    (∀ past later mid, ops = past ++ later → ChatRun isAlphanumeric (start [] ∅ disk) past mid →
      OneDirect mid.chat) ↔
    ∀ past op later mid, ops = past ++ op :: later →
      ChatRun isAlphanumeric (start [] ∅ disk) past mid → op.Clear mid.chat := by
  constructor
  · rintro hdirect past op later mid rfl hpast
    obtain ⟨mid', next, hpast', hstep, _⟩ := hrun.cut
    obtain rfl := hpast.unique ChatStep.unique hpast'
    have hnext := hdirect (past ++ [op]) later next (by simp) (hpast.snoc hstep)
    rw [hstep.2] at hnext
    cases op with
    | setArchived faults id archived =>
        cases archived with
        | true => exact trivial
        | false => exact OneDirect.clear_of_setArchived hnext
    | _ => exact trivial
  · rintro hclear past later mid rfl hpast
    have hboth : ∀ past' op future v, past = past' ++ op :: future →
        ChatRun isAlphanumeric (start [] ∅ disk) past' v → op.Web ∧ op.Clear v.chat := by
      rintro past' op future v rfl hv
      exact ⟨hweb op (by simp), hclear past' op (future ++ later) v (by simp) hv⟩
    have hsingular : Singular mid := hpast.invariant_along
      (fun _ _ _ hq hs step => hs.step hq.1 hq.2 step) hboth
      ⟨fun key id id' room room' hroom => by simp [start, restoreRoomsWithMedia, launch] at hroom,
        fun room hroom => absurd hroom List.not_mem_nil⟩
    exact hsingular.1

/-- Starts a direct room, archives it and starts another. -/
def archivedOnce : List ChatOp :=
  [.ensureSoloRoom noFaults codexKey "Codex" 0, .setArchived noFaults 1 true,
    .ensureSoloRoom noFaults codexKey "Codex" 1]

def archivedOnceWorld : World :=
  archivedOnce.foldl (World.after Char.isAlphanum) (start [] ∅ noFiles)

theorem archivedOnceWorld_run :
    ChatRun Char.isAlphanum (start [] ∅ noFiles) archivedOnce archivedOnceWorld :=
  .cons ⟨trivial, rfl⟩ (.cons ⟨trivial, rfl⟩ (.cons ⟨trivial, rfl⟩ (.nil _)))

theorem one_direct_room_iff_archived :
    (∀ past later mid, archivedOnce = past ++ later →
      ChatRun Char.isAlphanum (start [] ∅ noFiles) past mid → OneDirect mid.chat) ↔
    ∀ past op later mid, archivedOnce = past ++ op :: later →
      ChatRun Char.isAlphanum (start [] ∅ noFiles) past mid → op.Clear mid.chat := by
  refine one_direct_room_iff (fun op hop => ?_) archivedOnceWorld_run
  simp only [archivedOnce, List.mem_cons, List.not_mem_nil, or_false] at hop
  rcases hop with rfl | rfl | rfl
  · exact trivial
  · exact trivial
  · exact trivial

/-- The first room comes back from the archive and there are two. -/
theorem second_direct_room :
    (∀ op ∈ archivedOnce ++ [ChatOp.setArchived noFaults 1 false], op.Web) ∧
    ∃ w, ChatRun Char.isAlphanum (start [] ∅ noFiles)
        (archivedOnce ++ [.setArchived noFaults 1 false]) w ∧
      ¬OneDirect w.chat := by
  refine ⟨?_, _, archivedOnceWorld_run.snoc ⟨trivial, rfl⟩, fun hdirect => ?_⟩
  · simp [archivedOnce, ChatOp.Web]
  · have hsame := hdirect codexKey 1 2 _ _ (by rfl) (by rfl) (by decide) (by decide)
    cases hsame

end NormaHarness.Chat
