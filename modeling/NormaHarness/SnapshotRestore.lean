import NormaHarness.Durability
import NormaHarness.RegisteredMedia

/-!
# Restoring a snapshot

A snapshot leaves the assets out of the messages and lists them once for all rooms. A
restart finds them again by the identities in the views. The messages come back whole
because a message shows the views of its own assets, in their order, and an identity
stands for one asset in all ordinary rooms: the one that the ordinary store registers.
-/
namespace NormaHarness.Chat
open Std Identifiers Contracts LlmProtocol Media FilePrograms

/-- The room as a restart leaves it: quiet, asleep, and otherwise the same. -/
def dormant (room : ChatRoom) : ChatRoom :=
  {room with busy := false, activeMember := none, sleeping := true}

/-- Messages of ordinary rooms show the views of their assets. -/
def Shown (s : RoomStore) : Prop :=
  ∀ (id : ℕ) (room : RoomRecord), s.record id = some room → room.incognito = false →
    ∀ m ∈ room.messages, m.attachments = m.media.map MediaAsset.view

/-- The ordinary store registers the assets of messages of ordinary rooms. -/
def Attached (s : RoomStore) (store : MediaStore) : Prop :=
  ∀ (id : ℕ) (room : RoomRecord), s.record id = some room → room.incognito = false →
    ∀ m ∈ room.messages, ∀ a ∈ m.media, store.get a.id = some a

/-! ## Collecting assets -/

section

variable {assets : List MediaAsset}

theorem collected_keeps (media : ExtTreeMap String MediaAsset) {id : String}
    (h : media[id]? ≠ none) :
    (assets.foldl (fun media asset => media.insert asset.id asset) media)[id]? ≠ none := by
  induction assets generalizing media with
  | nil => exact h
  | cons first assets ih =>
      apply ih (media.insert first.id first)
      rw [ExtTreeMap.getElem?_insert]
      split_ifs
      · exact Option.some_ne_none _
      · exact h

theorem collected_some {a : MediaAsset} (h : a ∈ assets) (media : ExtTreeMap String MediaAsset) :
    (assets.foldl (fun media asset => media.insert asset.id asset) media)[a.id]? ≠ none := by
  induction assets generalizing media with
  | nil => cases h
  | cons first assets ih =>
      rcases List.mem_cons.mp h with rfl | h
      · apply collected_keeps (media.insert a.id a)
        rw [ExtTreeMap.getElem?_insert_self]
        exact Option.some_ne_none _
      · exact ih h _

/-- Where an identity stands for one asset, each collected asset is found. -/
theorem collected_get (hunique : ∀ a ∈ assets, ∀ b ∈ assets, a.id = b.id → a = b) {a : MediaAsset}
    (h : a ∈ assets) :
    (assets.foldl (fun media asset => media.insert asset.id asset)
      (∅ : ExtTreeMap String MediaAsset))[a.id]? = some a := by
  obtain ⟨b, hb⟩ := Option.ne_none_iff_exists'.mp (collected_some h ∅)
  rcases collected_mem hb with ⟨hmem, hid⟩ | hnone
  · rw [hb, hunique b hmem a h hid]
  · simp at hnone

end

namespace Attached

variable {s : RoomStore} {store : MediaStore}

theorem ordinary_asset (h : Attached s store) {a : MediaAsset}
    (ha : a ∈ (s.values.filter fun room => !room.incognito).flatMap assetsOf) :
    store.get a.id = some a := by
  obtain ⟨room, hroom, hassets⟩ := List.mem_flatMap.mp ha
  obtain ⟨m, hm, hmedia⟩ := List.mem_flatMap.mp hassets
  obtain ⟨hvalue, hordinary⟩ := List.mem_filter.mp hroom
  have hrecord := record_of_get (RoomStore.mem_values.mp hvalue)
  exact h room.id room.record hrecord (by simpa [ChatRoom.record] using hordinary) m hm a hmedia

theorem snapshot_asset (h : Attached s store) {a : MediaAsset} (ha : a ∈ (snapshot s).media) :
    store.get a.id = some a := by
  obtain ⟨id, room, hroom, hordinary, m, hm, hmedia⟩ := mem_snapshot_media ha
  exact h id room hroom hordinary m hm a hmedia

/-- The media list has every asset that an ordinary room shows. -/
theorem mem_snapshot (h : Attached s store) {a : MediaAsset}
    (ha : a ∈ (s.values.filter fun room => !room.incognito).flatMap assetsOf) :
    a ∈ (snapshot s).media := by
  have hget := collected_get (fun a ha b hb hid => ?_) ha
  · exact List.mem_map.mpr ⟨(a.id, a), ExtTreeMap.mem_toList_iff_getElem?_eq_some.mpr hget, rfl⟩
  · have hb := h.ordinary_asset hb
    rw [← hid, h.ordinary_asset ha] at hb
    exact Option.some.inj hb

theorem snapshot_unique (h : Attached s store) :
    ∀ a ∈ (snapshot s).media, ∀ b ∈ (snapshot s).media, a.id = b.id → a = b := by
  intro a ha b hb hid
  have hb := h.snapshot_asset hb
  rw [← hid, h.snapshot_asset ha] at hb
  exact Option.some.inj hb

theorem restoredMedia_get (h : Attached s store) {saved : ChatSnapshot}
    (hperm : saved.media.Perm (snapshot s).media) {a : MediaAsset}
    (ha : a ∈ (s.values.filter fun room => !room.incognito).flatMap assetsOf) :
    (restoredMedia saved)[a.id]? = some a := by
  refine collected_get (fun a ha b hb => ?_) (hperm.mem_iff.mpr (h.mem_snapshot ha))
  exact h.snapshot_unique a (hperm.mem_iff.mp ha) b (hperm.mem_iff.mp hb)

end Attached

theorem snapshot_media_nodup (s : RoomStore) :
    ((snapshot s).media.map MediaAsset.id).Nodup := by
  let media := snapshotMedia (s.values.filter fun room => !room.incognito)
  have hkeys : (snapshot s).media.map MediaAsset.id = media.toList.map Prod.fst := by
    show (media.toList.map Prod.snd).map MediaAsset.id = media.toList.map Prod.fst
    rw [List.map_map]
    refine List.map_congr_left fun p hp => ?_
    rcases collected_mem (ExtTreeMap.mem_toList_iff_getElem?_eq_some.mp hp) with ⟨_, hid⟩ | hnone
    · exact hid
    · simp at hnone
  rw [hkeys]
  refine List.pairwise_map.mpr (media.distinct_keys_toList.imp ?_)
  intro p q hpq he
  exact hpq (LawfulEqOrd.compare_eq_iff_eq.mpr he)

/-! ## One message, one room, all rooms -/

/-- A message gets its assets back. -/
theorem restoredMessage_encoded {media : ExtTreeMap String MediaAsset} {m : ChatMessage}
    (hviews : m.attachments = m.media.map MediaAsset.view)
    (hmedia : ∀ a ∈ m.media, media[a.id]? = some a) :
    restoredMessage media {m with media := []} = m := by
  have hattachments : m.attachments.map (fun view =>
      ((media[view.id]?).map MediaAsset.view).getD view) = m.attachments := by
    rw [hviews, List.map_map]
    refine List.map_congr_left fun a ha => ?_
    show ((media[a.id]?).map MediaAsset.view).getD a.view = a.view
    rw [hmedia a ha]
    rfl
  have hassets : (m.attachments.filterMap fun view => media[view.id]?) = m.media := by
    rw [hviews, List.filterMap_map]
    refine (List.filterMap_congr fun a ha => ?_).trans List.filterMap_some
    exact hmedia a ha
  unfold restoredMessage
  rw [hattachments, hassets]

theorem restoredRoom_encoded {media : ExtTreeMap String MediaAsset} {room : ChatRoom}
    (h : ∀ m ∈ room.messages, m.attachments = m.media.map MediaAsset.view ∧
      ∀ a ∈ m.media, media[a.id]? = some a) :
    restoredRoom media (encodedRoom room) = dormant room := by
  have hmessages : (encodedRoom room).messages.map (restoredMessage media) = room.messages := by
    unfold encodedRoom
    rw [List.map_map]
    refine (List.map_congr_left fun m hm => ?_).trans (List.map_id _)
    exact restoredMessage_encoded (h m hm).1 (h m hm).2
  unfold restoredRoom
  rw [hmessages]
  rfl

/-- The rooms after a restart are the ordinary ones, dormant. -/
def Restores (s t : RoomStore) : Prop :=
  ∀ id, t.get id = ((s.get id).filter fun room => !room.incognito).map dormant

theorem Attached.restores {s : RoomStore} {store : MediaStore} (h : Attached s store)
    (hshown : Shown s) {assets : List MediaAsset} (hperm : assets.Perm (snapshot s).media) :
    Restores s (restoreRoomsWithMedia (snapshot s).rooms
      (restoredMedia ⟨(snapshot s).rooms, assets⟩) launch).rooms := by
  intro id
  have hids : id ∈ (snapshot s).rooms.map ChatRoom.id ↔
      ∃ room, s.get id = some room ∧ room.incognito = false := by
    constructor
    · intro hmem
      obtain ⟨saved, hsaved, rfl⟩ := List.mem_map.mp hmem
      obtain ⟨room, hroom, rfl⟩ := List.mem_map.mp hsaved
      obtain ⟨hvalue, hordinary⟩ := List.mem_filter.mp hroom
      exact ⟨room, RoomStore.mem_values.mp hvalue, by simpa using hordinary⟩
    · rintro ⟨room, hroom, hordinary⟩
      have hid := RoomStore.id_of_get hroom
      have hvalue : room ∈ s.values := RoomStore.mem_values.mpr (hid ▸ hroom)
      have hsaved : encodedRoom room ∈ (snapshot s).rooms :=
        List.mem_map.mpr ⟨room, List.mem_filter.mpr ⟨hvalue, by rw [hordinary]; rfl⟩, rfl⟩
      exact List.mem_map.mpr ⟨encodedRoom room, hsaved, hid⟩
  by_cases hmem : id ∈ (snapshot s).rooms.map ChatRoom.id
  · obtain ⟨room, hroom, hordinary⟩ := hids.mp hmem
    have hid := RoomStore.id_of_get hroom
    have hvalue : room ∈ s.values := RoomStore.mem_values.mpr (hid ▸ hroom)
    have hfiltered : room ∈ s.values.filter fun room => !room.incognito :=
      List.mem_filter.mpr ⟨hvalue, by rw [hordinary]; rfl⟩
    have hsaved : encodedRoom room ∈ (snapshot s).rooms := List.mem_map.mpr ⟨room, hfiltered, rfl⟩
    have hget := get_restoreRooms_mem (restoredMedia ⟨(snapshot s).rooms, assets⟩)
      (snapshot_rooms_nodup s) hsaved launch
    have hrestored : restoredRoom (restoredMedia ⟨(snapshot s).rooms, assets⟩) (encodedRoom room) =
        dormant room := by
      apply restoredRoom_encoded
      intro m hm
      refine ⟨hshown id room.record (record_of_get hroom) hordinary m hm, fun a ha => ?_⟩
      apply h.restoredMedia_get hperm
      exact List.mem_flatMap.mpr ⟨room, hfiltered, List.mem_flatMap.mpr ⟨m, hm, ha⟩⟩
    rw [hrestored, show (encodedRoom room).id = id from hid] at hget
    rw [hget, hroom, Option.filter_some, if_pos (by rw [hordinary]; rfl), Option.map_some]
  · rw [get_restoreRooms_other hmem]
    have hnone : ((s.get id).filter fun room => !room.incognito) = none := by
      apply Option.filter_eq_none_iff.mpr
      intro room hroom hordinary
      exact hmem (hids.mpr ⟨room, hroom, by simpa using hordinary⟩)
    rw [hnone]
    simp [launch]

theorem values_ascending (s : RoomStore) : s.values.Pairwise fun a b => a.id < b.id := by
  refine List.pairwise_map.mpr (s.rooms.ordered_keys_toList.imp_of_mem fun {p q} hp hq hpq => ?_)
  rw [s.keyed p.1 p.2 (ExtTreeMap.mem_toList_iff_getElem?_eq_some.mp hp),
    s.keyed q.1 q.2 (ExtTreeMap.mem_toList_iff_getElem?_eq_some.mp hq)]
  exact Nat.compare_eq_lt.mp hpq

theorem Restores.values {s t : RoomStore} (h : Restores s t) :
    t.values = (s.values.filter fun room => !room.incognito).map dormant := by
  have hsorted : ((s.values.filter fun room => !room.incognito).map dormant).Pairwise
      fun a b => a.id < b.id :=
    List.pairwise_map.mpr ((values_ascending s).sublist List.filter_sublist)
  have hnodup : ∀ {l : List ChatRoom}, l.Pairwise (fun a b => a.id < b.id) → l.Nodup :=
    fun hl => hl.imp fun {a b} (hlt : a.id < b.id) he => by
      rw [he] at hlt
      exact lt_irrefl _ hlt
  have hperm : t.values.Perm ((s.values.filter fun room => !room.incognito).map dormant) := by
    refine (List.perm_ext_iff_of_nodup (hnodup (values_ascending t)) (hnodup hsorted)).mpr ?_
    intro room
    rw [RoomStore.mem_values, h]
    constructor
    · intro hroom
      obtain ⟨original, hfilter, rfl⟩ := Option.map_eq_some_iff.mp hroom
      obtain ⟨hget, hordinary⟩ := Option.filter_eq_some_iff.mp hfilter
      refine List.mem_map.mpr ⟨original, List.mem_filter.mpr ⟨?_, hordinary⟩, rfl⟩
      exact RoomStore.mem_values.mpr hget
    · intro hroom
      obtain ⟨original, hfilter, rfl⟩ := List.mem_map.mp hroom
      obtain ⟨hvalue, hordinary⟩ := List.mem_filter.mp hfilter
      have hget := RoomStore.mem_values.mp hvalue
      show ((s.get original.id).filter _).map dormant = some (dormant original)
      rw [hget, Option.filter_some, if_pos hordinary, Option.map_some]
  exact hperm.eq_of_pairwise (fun a b _ _ hab hba => absurd hab (lt_asymm hba))
    (values_ascending t) hsorted

/-- The next snapshot says the same, up to the flags. -/
theorem Restores.snapshot {s t : RoomStore} (h : Restores s t) :
    snapshot t = ⟨(snapshot s).rooms.map dormant, (snapshot s).media⟩ := by
  have hordinary : t.values.filter (fun room => !room.incognito) =
      (s.values.filter fun room => !room.incognito).map dormant := by
    rw [h.values, List.filter_map, List.filter_filter]
    congr 1
    refine List.filter_congr fun room _ => ?_
    show (!room.incognito && !room.incognito) = !room.incognito
    exact Bool.and_self _
  have hassets : (t.values.filter fun room => !room.incognito).flatMap assetsOf =
      (s.values.filter fun room => !room.incognito).flatMap assetsOf := by
    rw [hordinary, List.flatMap_map]
    rfl
  unfold Chat.snapshot snapshotMedia
  dsimp only
  rw [hassets, hordinary, List.map_map, List.map_map]
  rfl

/-! ## What the steps attach -/

/-- What the operation attaches to an ordinary room is registered in the ordinary store. -/
def ChatOp.AttachesRegistered (store : MediaStore) (w : World) (op : ChatOp) : Prop :=
  ∀ (id : ℕ) (m : ChatMessage) (room : ChatRoom), op.message w.chat = some (id, m) →
    w.chat.rooms.get id = some room → room.incognito = false →
    ∀ a ∈ m.media, store.get a.id = some a

theorem message_views {c : ChatResident} {op : ChatOp} {id : ℕ} {m : ChatMessage}
    (h : op.message c = some (id, m)) : m.attachments = m.media.map MediaAsset.view := by
  cases op with
  | send faults clock room text media =>
      obtain ⟨-, rfl⟩ := Prod.mk.inj (Option.some.inj h)
      rfl
  | push faults clock round role author text media =>
      obtain ⟨-, rfl⟩ := Prod.mk.inj (Option.some.inj h)
      rfl
  | _ => cases h

/-- What holds of all messages of ordinary rooms still does, if it does of a new one. -/
theorem ChatStep.ordinary_messages {isAlphanumeric : Char → Bool} {w w' : World} {op : ChatOp}
    {P : ChatMessage → Prop} (hstep : ChatStep isAlphanumeric w op w') (hf : Fresh w)
    (h : ∀ (id : ℕ) (room : RoomRecord), w.chat.rooms.record id = some room →
      room.incognito = false → ∀ m ∈ room.messages, P m)
    (hop : ∀ (id : ℕ) (m : ChatMessage) (room : ChatRoom), op.message w.chat = some (id, m) →
      w.chat.rooms.get id = some room → room.incognito = false → P m) :
    ∀ (id : ℕ) (room : RoomRecord), w'.chat.rooms.record id = some room →
      room.incognito = false → ∀ m ∈ room.messages, P m := by
  cases hstep.effect hf with
  | kept hrecord _ _ =>
      rw [hrecord]
      exact h
  | appended k old m hmessage _ hold hrecord _ _ =>
      intro id room hroom hordinary m' hm'
      rw [hrecord, Function.update_apply] at hroom
      split_ifs at hroom with hid
      · obtain rfl := Option.some.inj hroom
        rcases List.mem_append.mp hm' with hm' | hm'
        · exact h k old hold hordinary m' hm'
        · obtain rfl := List.mem_singleton.mp hm'
          obtain ⟨found, hfound, rfl⟩ := exists_of_record hold
          exact hop k m' found hmessage hfound hordinary
      · exact h id room hroom hordinary m' hm'
  | inserted created _ _ hempty hrecord _ =>
      intro id room hroom hordinary m' hm'
      rw [hrecord, Function.update_apply] at hroom
      split_ifs at hroom with hid
      · obtain rfl := Option.some.inj hroom
        rw [show created.record.messages = [] from hempty] at hm'
        cases hm'
      · exact h id room hroom hordinary m' hm'

theorem ChatStep.attached {isAlphanumeric : Char → Bool} {w w' : World} {op : ChatOp}
    {store : MediaStore} (hstep : ChatStep isAlphanumeric w op w') (hf : Fresh w)
    (h : Attached w.chat.rooms store) (hop : op.AttachesRegistered store w) :
    Attached w'.chat.rooms store :=
  hstep.ordinary_messages hf h hop

theorem ChatStep.shown {isAlphanumeric : Char → Bool} {w w' : World} {op : ChatOp}
    (hstep : ChatStep isAlphanumeric w op w') (hf : Fresh w) (h : Shown w.chat.rooms) :
    Shown w'.chat.rooms :=
  hstep.ordinary_messages hf h fun _ _ _ hmessage _ _ => message_views hmessage

/-- No message of an ordinary room carries the asset. -/
def Unattached (s : RoomStore) (id : String) : Prop :=
  ∀ (k : ℕ) (room : RoomRecord), s.record k = some room → room.incognito = false →
    ∀ m ∈ room.messages, ∀ a ∈ m.media, a.id ≠ id

theorem Attached.media {imaging : Imaging} {pid : ℕ} {app app' : AppMedia} {op : MediaOp}
    {s : RoomStore} (h : Attached s app.media) (hstep : MediaStep imaging pid app op app')
    (hkept : KeptStores pid app) (hcounted : op.Counted (app.storeOf op.incognito))
    (hunattached : ∀ faults id, op = .remove false faults id → Unattached s id) :
    Attached s app'.media := by
  intro id room hroom hordinary m hm a ha
  apply hstep.registered hkept hcounted (h id room hroom hordinary m hm a ha)
  intro faults hremove
  exact hunattached faults a.id hremove id room hroom hordinary m hm a ha rfl

/-! ## Server processes -/

/-- A process of the web server: its number, its rooms and its image stores. -/
structure Process where
  pid : ℕ
  world : World
  app : AppMedia

/-- The part of `main` that restores a snapshot, over the files it finds. -/
def Process.booted (pid : ℕ) (root privateRoot : String) (files : Files) (disk : SnapshotDisk)
    (saved : ChatSnapshot) : Process :=
  ⟨pid, start saved.rooms (restoredMedia saved) disk,
    wired pid root privateRoot files saved.media⟩

section

variable (imaging : Imaging) (isAlphanumeric : Char → Bool) (root : String)

/-- Processes that the operations of clients, rounds and image stores lead to, across
restarts from what was saved. Attachments of ordinary rooms are registered in the
ordinary store, and only images that no message carries are removed from it. -/
inductive Reachable : Process → Prop
  | launch (pid : ℕ) {privateRoot : String} (files : Files) (disk : SnapshotDisk) :
      Apart root privateRoot → Reachable (.booted pid root privateRoot files disk ⟨[], []⟩)
  | chat {p : Process} {op : ChatOp} {w : World} : Reachable p →
      ChatStep isAlphanumeric p.world op w → op.AttachesRegistered p.app.media p.world →
      Reachable {p with world := w}
  | media {p : Process} {op : MediaOp} {app : AppMedia} : Reachable p →
      MediaStep imaging p.pid p.app op app → op.Counted (p.app.storeOf op.incognito) →
      (∀ faults id, op = .remove false faults id → Unattached p.world.chat.rooms id) →
      Reachable {p with app := app}
  | restore {p : Process} (pid : ℕ) {privateRoot : String} {files : Files} (disk : SnapshotDisk)
      {assets : List MediaAsset} : Reachable p → Apart root privateRoot →
      assets.Perm (snapshot p.world.chat.rooms).media →
      (MediaStore.restore pid files (.openAt root) assets).1 = .ok () →
      Reachable (.booted pid root privateRoot files disk
        ⟨(snapshot p.world.chat.rooms).rooms, assets⟩)

end

structure Sound (root : String) (p : Process) : Prop where
  fresh : Fresh p.world
  stores : KeptStores p.pid p.app
  attached : Attached p.world.chat.rooms p.app.media
  root : p.app.media.root = root

namespace Sound

variable {root privateRoot : String} {p : Process} {files : Files}

/-- The files of a snapshot's assets belong to the ordinary store. -/
theorem own (h : Sound root p) {a : MediaAsset}
    (ha : a ∈ (snapshot p.world.chat.rooms).media) : OwnFiles root a := by
  rw [← h.root]
  exact h.stores.ordinary.own a.id a (h.attached.snapshot_asset ha)

/-- A start with any table of registered assets. -/
theorem started {pid : ℕ} {app : AppMedia} (hstores : KeptStores pid app)
    (hroot : app.media.root = root) (rooms : List ChatRoom) {table : ExtTreeMap String MediaAsset}
    (htable : ∀ (id : String) (a : MediaAsset), table[id]? = some a → app.media.get a.id = some a)
    (disk : SnapshotDisk) : Sound root ⟨pid, start rooms table disk, app⟩ := by
  refine ⟨start_fresh _ _ _, hstores, fun id record hrecord _ m hm a ha => ?_, hroot⟩
  obtain ⟨room, hroom, rfl⟩ := exists_of_record hrecord
  obtain ⟨before, -, rfl⟩ := get_start hroom
  obtain ⟨old, -, rfl⟩ := List.mem_map.mp hm
  obtain ⟨view, -, hview⟩ := List.mem_filterMap.mp ha
  exact htable view.id a hview

/-- A restart from any list of assets that the store has issued and that has its files. -/
theorem booted (pid : ℕ) (disk : SnapshotDisk) {saved : ChatSnapshot}
    (hapart : Apart root privateRoot) (hnodup : (saved.media.map MediaAsset.id).Nodup)
    (hown : ∀ a ∈ saved.media, OwnFiles root a)
    (hok : (MediaStore.restore pid files (.openAt root) saved.media).1 = .ok ()) :
    Sound root (.booted pid root privateRoot files disk saved) := by
  have hroot := (restore_get pid files saved.media (.openAt root)).1
  refine started ⟨?_, ?_, kept_openAt pid privateRoot files⟩ hroot saved.rooms ?_ disk
  · show Apart (MediaStore.restore pid files (.openAt root) saved.media).2.root privateRoot
    rw [hroot]
    exact hapart
  · exact restore_kept (kept_openAt pid root files) hok hown
  · exact fun id a ha => restore_mem hnodup hok (restoredMedia_mem ha).1

theorem launched (pid : ℕ) (files : Files) (disk : SnapshotDisk) (hapart : Apart root privateRoot) :
    Sound root (.booted pid root privateRoot files disk ⟨[], []⟩) :=
  booted pid disk hapart List.nodup_nil (fun _ ha => absurd ha List.not_mem_nil) rfl

theorem chat {isAlphanumeric : Char → Bool} {op : ChatOp} {w : World} (h : Sound root p)
    (hstep : ChatStep isAlphanumeric p.world op w)
    (hop : op.AttachesRegistered p.app.media p.world) : Sound root {p with world := w} :=
  ⟨(hstep.fresh h.fresh).1, h.stores, hstep.attached h.fresh h.attached hop, h.root⟩

theorem media {imaging : Imaging} {op : MediaOp} {app : AppMedia} (h : Sound root p)
    (hstep : MediaStep imaging p.pid p.app op app)
    (hcounted : op.Counted (p.app.storeOf op.incognito))
    (hunattached : ∀ faults id, op = .remove false faults id → Unattached p.world.chat.rooms id) :
    Sound root {p with app := app} :=
  ⟨h.fresh, hstep.keptStores h.stores hcounted,
    h.attached.media hstep h.stores hcounted hunattached, hstep.ordinary_root.trans h.root⟩

end Sound

theorem Restores.shown {s t : RoomStore} (h : Restores s t) (hs : Shown s) : Shown t := by
  intro id record hrecord hordinary m hm
  obtain ⟨room, hroom, rfl⟩ := exists_of_record hrecord
  rw [h id] at hroom
  obtain ⟨original, hfilter, rfl⟩ := Option.map_eq_some_iff.mp hroom
  have hget := (Option.filter_eq_some_iff.mp hfilter).1
  exact hs id original.record (record_of_get hget) hordinary m hm

theorem Reachable.sound {imaging : Imaging} {isAlphanumeric : Char → Bool} {root : String}
    {p : Process} (h : Reachable imaging isAlphanumeric root p) :
    Sound root p ∧ Shown p.world.chat.rooms := by
  induction h with
  | launch pid files disk hapart =>
      refine ⟨.launched pid files disk hapart, fun id room hroom => ?_⟩
      obtain ⟨found, hfound, -⟩ := exists_of_record hroom
      obtain ⟨saved, hsaved, -⟩ := get_start hfound
      cases hsaved
  | chat _ hstep hop ih => exact ⟨ih.1.chat hstep hop, hstep.shown ih.1.fresh ih.2⟩
  | media _ hstep hcounted hunattached ih => exact ⟨ih.1.media hstep hcounted hunattached, ih.2⟩
  | restore pid disk _ hapart hperm hok ih =>
      refine ⟨.booted pid disk hapart ?_ (fun a ha => ih.1.own (hperm.mem_iff.mp ha)) hok, ?_⟩
      · exact (hperm.map MediaAsset.id).nodup_iff.mpr (snapshot_media_nodup _)
      · exact (ih.1.attached.restores ih.2 hperm).shown ih.2

/-- A restart that finds the present files accepts the snapshot. -/
theorem Sound.accepts {root : String} {p : Process} (h : Sound root p) (pid : ℕ)
    (store : MediaStore) {assets : List MediaAsset}
    (hperm : assets.Perm (snapshot p.world.chat.rooms).media) :
    (MediaStore.restore pid p.app.files store assets).1 = .ok () := by
  apply (restore_ok_iff pid p.app.files assets store).mpr
  intro a ha
  exact h.stores.ordinary.present a.id a (h.attached.snapshot_asset (hperm.mem_iff.mp ha))

/-- From every reachable state, in any process: the snapshot's media are accepted, the
ordinary rooms come back as they were but dormant, and saving them again changes nothing
else. -/
theorem snapshot_round_trip {imaging : Imaging} {isAlphanumeric : Char → Bool} {root : String}
    {p : Process} (h : Reachable imaging isAlphanumeric root p) (pid : ℕ) (store : MediaStore)
    {assets : List MediaAsset} (hperm : assets.Perm (snapshot p.world.chat.rooms).media) :
    let saved : ChatSnapshot := ⟨(snapshot p.world.chat.rooms).rooms, assets⟩
    let restored := (restoreRoomsWithMedia saved.rooms (restoredMedia saved) launch).rooms
    let media := MediaStore.restore pid p.app.files store saved.media
    media.1 = .ok () ∧ (∀ a ∈ assets, media.2.get a.id = some a) ∧
      (∀ id, restored.get id =
        ((p.world.chat.rooms.get id).filter fun room => !room.incognito).map dormant) ∧
      (snapshot restored).rooms = saved.rooms.map dormant ∧
      (snapshot restored).media.Perm saved.media := by
  intro saved restored media
  obtain ⟨hsound, hshown⟩ := h.sound
  have hok : media.1 = .ok () := hsound.accepts pid store hperm
  have hnodup : (assets.map MediaAsset.id).Nodup :=
    (hperm.map MediaAsset.id).nodup_iff.mpr (snapshot_media_nodup _)
  have hrestores := hsound.attached.restores hshown hperm
  have hagain := hrestores.snapshot
  refine ⟨hok, fun a ha => restore_mem hnodup hok ha, hrestores, ?_, ?_⟩
  · exact congrArg ChatSnapshot.rooms hagain
  · rw [show (snapshot restored).media = _ from congrArg ChatSnapshot.media hagain]
    exact hperm.symm

def dataRoot : String := "/data/media"

def catAsset : MediaAsset :=
  ⟨"7-1", "cat.png", "image/png", "/data/media/7-1.png", ["/data/media/7-1.png"]⟩

theorem dataRoot_apart : Apart dataRoot "/tmp/norma-media-7" := by
  intro leaf leaf' h
  have hchars := congrArg (fun path => path.toList[1]?) h
  simp only [join_toList] at hchars
  revert hchars
  simp [dataRoot]

/-- The image is stored and sent into a direct room. -/
def pictureWorld : World :=
  ((start [] ∅ noFiles).after Char.isAlphanum (.ensureSoloRoom noFaults codexKey "Plans" 0)).after
    Char.isAlphanum (.send noFaults ⟨1, 1⟩ 1 "hello" [catAsset])

def pictureMedia : AppMedia :=
  let out := (MediaOp.upload false .none "cat.png" tinyPng).run smallImages 7 (.openAt dataRoot) ∅
  ⟨out.2.1, .openAt "/tmp/norma-media-7", out.2.2⟩

def pictureProcess : Process := ⟨7, pictureWorld, pictureMedia⟩

theorem pictureProcess_reachable :
    Reachable smallImages Char.isAlphanum dataRoot pictureProcess := by
  have hlaunch : Reachable smallImages Char.isAlphanum dataRoot _ :=
    .launch 7 ∅ noFiles dataRoot_apart
  have hensure : ChatStep Char.isAlphanum (start [] ∅ noFiles)
      (.ensureSoloRoom noFaults codexKey "Plans" 0) _ := ⟨trivial, rfl⟩
  have hroom := hlaunch.chat hensure fun id m room hmessage => by cases hmessage
  have hupload : MediaStep smallImages 7
      (wired 7 dataRoot "/tmp/norma-media-7" ∅ []) (.upload false .none "cat.png" tinyPng) _ := rfl
  have himage := hroom.media hupload (by decide : 1 < 2 ^ 64) fun faults id h => by cases h
  refine himage.chat (⟨trivial, rfl⟩ : ChatStep Char.isAlphanum _
    (.send noFaults ⟨1, 1⟩ 1 "hello" [catAsset]) _) ?_
  intro id m room hmessage _ _ a ha
  obtain ⟨-, rfl⟩ := Prod.mk.inj (Option.some.inj hmessage)
  obtain rfl := List.mem_singleton.mp ha
  decide

theorem snapshot_round_trip_picture :
    let saved := snapshot pictureWorld.chat.rooms
    (MediaStore.restore 8 pictureMedia.files (.openAt dataRoot) saved.media).1 = .ok () ∧
      (restoreRoomsWithMedia saved.rooms (restoredMedia saved) launch).rooms.get 1 =
        some ⟨1, "Plans", ["codex"], [⟨1, "user", "你", "hello", 1, [catAsset.view], [catAsset]⟩],
          false, none, true, 0, 1, false, false⟩ := by
  intro saved
  obtain ⟨hok, -, hrooms, -⟩ := snapshot_round_trip pictureProcess_reachable 8 (.openAt dataRoot)
    (List.Perm.refl saved.media)
  exact ⟨hok, (hrooms 1).trans (by decide)⟩

end NormaHarness.Chat
