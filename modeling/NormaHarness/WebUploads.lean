import NormaHarness.ErrorAtomicity
import NormaHarness.SnapshotRestore

/-!
# Uploads of the web server

An upload stores its images one by one, then sends the message that carries them, and
deletes them again when the request ends in an error. A message that was appended but
could not be saved ends in an error too, and is kept: this is the one way in which a
message loses its images.
-/
namespace NormaHarness.Chat
open Std Identifiers Contracts LlmProtocol Media FilePrograms

structure ApiError where
  status : ℕ
  message : String
  deriving DecidableEq, Repr

def ApiError.ofChat (error : ChatError) : ApiError where
  status := match error with
    | .invalid _ => 400
    | .notFound => 404
    | .busy => 409
    | .internal _ => 502
  message := error.message

/-! ## The request -/

/-- One field of the form. Its content may fail to arrive. -/
inductive FormField where
  | text (content : Except String String)
  | files (filename : Option String) (content : Except String Bytes)
  | other

/-- A request in flight after the look at its room: what it has read so far, and the
error that it is going to end in. -/
structure Upload where
  roomId : ℕ
  incognito : Bool
  text : String
  assets : List MediaAsset
  error : Option ApiError
  deriving DecidableEq

namespace Upload

def opened (roomId : ℕ) (room : ChatRoom) : Upload := ⟨roomId, room.incognito, "", [], none⟩

def failing (u : Upload) (error : ApiError) : Upload := {u with error := some error}

/-- A field `files`, over the store of the room. -/
def readFile (imaging : Imaging) (pid : ℕ) (faults : FileFaults) (filename : Option String)
    (content : Except String Bytes) (u : Upload) (store : MediaStore) (files : Files) :
    Upload × MediaStore × Files :=
  if maxMessageMedia ≤ u.assets.length then
    (u.failing ⟨400, s!"最多上传 {maxMessageMedia} 张图片"⟩, store, files)
  else
    match content with
    | .error error => (u.failing ⟨400, error⟩, store, files)
    | .ok bytes =>
        if maxMediaBytes < bytes.length then
          (u.failing ⟨413, "单个图片最多 8 MiB"⟩, store, files)
        else
          match MediaStore.save imaging pid faults (filename.getD "image") bytes store files with
          | (.error error, store, files) => (u.failing ⟨400, error⟩, store, files)
          | (.ok asset, store, files) => ({u with assets := u.assets ++ [asset]}, store, files)

/-- One turn of the loop over the fields. -/
def readField (imaging : Imaging) (pid : ℕ) (faults : FileFaults)
    (field : Except String FormField) (u : Upload) (store : MediaStore) (files : Files) :
    Upload × MediaStore × Files :=
  match field with
  | .error error => (u.failing ⟨400, error⟩, store, files)
  | .ok (.text (.ok text)) => ({u with text := text}, store, files)
  | .ok (.text (.error error)) => (u.failing ⟨400, error⟩, store, files)
  | .ok (.files filename content) => readFile imaging pid faults filename content u store files
  | .ok .other => (u.failing ⟨400, "未知的上传字段"⟩, store, files)

/-- The images of the request that the ordinary store holds. -/
def held (u : Upload) : List MediaAsset := if u.incognito then [] else u.assets

end Upload

/-! ## The server -/

/-- The process, the uploads in flight, and the images that models have published, each
with the kind of the room whose turn did it. -/
structure Web where
  process : Process
  uploads : List Upload
  offered : List (Bool × MediaAsset)

/-- Requests advance one field, one message or one deleted image at a time, and end early
when the client goes away. -/
inductive WebOp where
  | chat (op : ChatOp)
  | openUpload (id : ℕ)
  | readField (u : Upload) (faults : FileFaults) (field : Except String FormField)
  | send (u : Upload) (faults : SnapshotFaults) (clock : Clock)
  | discard (u : Upload) (faults : FileFaults)
  | abandon (u : Upload)
  | publish (incognito : Bool) (faults : FileFaults) (filename mimeType encoded : String)

namespace Web

def rooms (s : Web) : RoomStore := s.process.world.chat.rooms

def withWorld (s : Web) (w : World) : Web := {s with process := {s.process with world := w}}

def withApp (s : Web) (app : AppMedia) : Web := {s with process := {s.process with app := app}}

def replaced (s : Web) (u : Upload) (after : List Upload) : Web :=
  {s with uploads := after ++ s.uploads.erase u}

/-- The end of the form: the message is sent with the images read so far. -/
def sent (isAlphanumeric : Char → Bool) (s : Web) (u : Upload) (faults : SnapshotFaults)
    (clock : Clock) : Web :=
  let w := s.process.world
  let s' := s.withWorld (w.after isAlphanumeric (.send faults clock u.roomId u.text u.assets))
  match (sendUserMessageWithMedia isAlphanumeric faults clock u.roomId u.text u.assets w.chat
      w.disk).1 with
  | .ok _ => s'.replaced u []
  | .error error => s'.replaced u [u.failing (.ofChat error)]

/-- One turn of the loop over the images of a failed request. -/
def discarded (s : Web) (u : Upload) (faults : FileFaults) : Web :=
  match u.assets with
  | [] => s.replaced u []
  | asset :: rest =>
      let app := s.process.app
      let out := MediaStore.remove faults asset.id (app.storeOf u.incognito) app.files
      (s.withApp (app.withStore u.incognito out.1 out.2)).replaced u [{u with assets := rest}]

def after (imaging : Imaging) (isAlphanumeric : Char → Bool) (s : Web) : WebOp → Web
  | .chat op => s.withWorld (s.process.world.after isAlphanumeric op)
  | .openUpload id =>
      match s.rooms.get id with
      | none => s
      | some room => {s with uploads := .opened id room :: s.uploads}
  | .readField u faults field =>
      let app := s.process.app
      let out := u.readField imaging s.process.pid faults field (app.storeOf u.incognito) app.files
      (s.withApp (app.withStore u.incognito out.2.1 out.2.2)).replaced u [out.1]
  | .send u faults clock => s.sent isAlphanumeric u faults clock
  | .discard u faults => s.discarded u faults
  | .abandon u => s.replaced u []
  | .publish incognito faults filename mimeType encoded =>
      let app := s.process.app
      let out := MediaStore.saveBase64 imaging s.process.pid faults filename mimeType encoded
        (app.storeOf incognito) app.files
      let s := s.withApp (app.withStore incognito out.2.1 out.2.2)
      match out.1 with
      | .ok asset => {s with offered := (incognito, asset) :: s.offered}
      | .error _ => s

/-- The images of all uploads into ordinary rooms. -/
def held (s : Web) : List MediaAsset := s.uploads.flatMap Upload.held

end Web

/-- Only uploads bring images along with a user message, and replies carry what the
turns of rooms of that kind have published. -/
def ChatOp.FromWeb (s : Chat.Web) : ChatOp → Prop
  | .send _ _ _ _ media => media = []
  | .push _ _ round _ _ _ media => ∀ a ∈ media, ∀ room,
      s.rooms.get round.roomId = some room → (room.incognito, a) ∈ s.offered
  | _ => True

/-- The counters of the stores are taken not to wrap. -/
def WebOp.Enabled (s : Web) : WebOp → Prop
  | .chat op => op.Enabled s.process.world ∧ op.FromWeb s
  | .openUpload _ => True
  | .readField u _ _ => u ∈ s.uploads ∧ u.error = none ∧
      (s.process.app.storeOf u.incognito).nextId < 2 ^ 64
  | .send u _ _ => u ∈ s.uploads ∧ u.error = none
  | .discard u _ => u ∈ s.uploads ∧ u.error ≠ none
  | .abandon u => u ∈ s.uploads
  | .publish incognito _ _ _ _ => (s.process.app.storeOf incognito).nextId < 2 ^ 64

def WebStep (imaging : Imaging) (isAlphanumeric : Char → Bool) (s : Web) (op : WebOp) (s' : Web) :
    Prop := op.Enabled s ∧ s' = s.after imaging isAlphanumeric op

/-- The step sends images into an ordinary room that accepts the message, and the
snapshot cannot be saved. -/
def WebOp.LosesImages (isAlphanumeric : Char → Bool) (s : Web) : WebOp → Prop
  | .send u faults _ => u.incognito = false ∧ u.assets ≠ [] ∧
      (∃ accepted, admission isAlphanumeric u.roomId (Text.trim u.text) u.assets
        s.process.world.chat = .ok accepted) ∧ SaveFails faults s.process.world.disk
  | _ => False

/-! ## What reading a field does to the store -/

/-- A field leaves the store alone, or is a save into it that may fail. -/
inductive FieldRead (imaging : Imaging) (pid : ℕ) (faults : FileFaults) (u : Upload)
    (store : MediaStore) (files : Files) : Upload × MediaStore × Files → Prop
  | untouched (u' : Upload) : u'.assets = u.assets →
      FieldRead imaging pid faults u store files (u', store, files)
  | refused (u' : Upload) (filename error : String) (bytes : Bytes) (store' : MediaStore)
      (files' : Files) : MediaStore.save imaging pid faults filename bytes store files =
        (.error error, store', files') → u'.assets = u.assets →
      FieldRead imaging pid faults u store files (u', store', files')
  | stored (u' : Upload) (filename : String) (bytes : Bytes) (asset : MediaAsset)
      (store' : MediaStore) (files' : Files) :
      MediaStore.save imaging pid faults filename bytes store files =
        (.ok asset, store', files') → u'.assets = u.assets ++ [asset] →
      FieldRead imaging pid faults u store files (u', store', files')

section

variable (imaging : Imaging) (pid : ℕ) (faults : FileFaults) (u : Upload) (store : MediaStore)
  (files : Files)

theorem readFile_read (filename : Option String) (content : Except String Bytes) :
    FieldRead imaging pid faults u store files
      (u.readFile imaging pid faults filename content store files) := by
  unfold Upload.readFile
  split_ifs
  · exact .untouched _ rfl
  · cases content with
    | error error => exact .untouched _ rfl
    | ok bytes =>
        dsimp only
        split_ifs
        · exact .untouched _ rfl
        · split
          · rename_i error store' files' hsave
            exact .refused _ _ error bytes store' files' hsave rfl
          · rename_i asset store' files' hsave
            exact .stored _ _ bytes asset store' files' hsave rfl

theorem readField_read (field : Except String FormField) :
    FieldRead imaging pid faults u store files
      (u.readField imaging pid faults field store files) := by
  unfold Upload.readField
  split
  · exact .untouched _ rfl
  · exact .untouched _ rfl
  · exact .untouched _ rfl
  · rename_i filename content
    exact readFile_read imaging pid faults u store files filename content
  · exact .untouched _ rfl

/-- A request stays with its room. -/
theorem readField_room (field : Except String FormField) :
    (u.readField imaging pid faults field store files).1.roomId = u.roomId ∧
      (u.readField imaging pid faults field store files).1.incognito = u.incognito := by
  unfold Upload.readField Upload.readFile
  split
  · exact ⟨rfl, rfl⟩
  · exact ⟨rfl, rfl⟩
  · exact ⟨rfl, rfl⟩
  · split_ifs
    · exact ⟨rfl, rfl⟩
    · split
      · exact ⟨rfl, rfl⟩
      · split_ifs
        · exact ⟨rfl, rfl⟩
        · split <;> exact ⟨rfl, rfl⟩
  · exact ⟨rfl, rfl⟩

end

/-! ## The invariant -/

/-- Neither a message of an ordinary room nor a reply to one carries the identity. -/
structure Loose (s : Web) (id : String) : Prop where
  unattached : Unattached s.rooms id
  unoffered : ∀ a, (false, a) ∈ s.offered → a.id ≠ id

/-- Images of uploads and publications are registered, and those of uploads belong to one
request each and to nothing else. -/
structure Accounted (root : String) (s : Web) : Prop where
  sound : Sound root s.process
  modes : ∀ u ∈ s.uploads, ∃ room, s.rooms.get u.roomId = some room ∧ room.incognito = u.incognito
  registered : ∀ a ∈ s.held, s.process.app.media.get a.id = some a
  loose : ∀ a ∈ s.held, Loose s a.id
  distinct : (s.held.map MediaAsset.id).Nodup
  offered : ∀ a, (false, a) ∈ s.offered → s.process.app.media.get a.id = some a

theorem Web.held_perm {s : Web} {u : Upload} (hu : u ∈ s.uploads) :
    s.held.Perm (u.held ++ (s.uploads.erase u).flatMap Upload.held) := by
  have hperm := (List.perm_cons_erase hu).flatMap_right Upload.held
  rwa [List.flatMap_cons] at hperm

namespace Accounted

variable {root : String} {s : Web} {u : Upload}

theorem mem_held (hu : u ∈ s.uploads) {a : MediaAsset} (ha : a ∈ u.held) : a ∈ s.held :=
  List.mem_flatMap.mpr ⟨u, hu, ha⟩

/-- A request goes on with some of its images, or ends. -/
theorem replaced (h : Accounted root s) (hu : u ∈ s.uploads) {after : List Upload}
    (hroom : ∀ u' ∈ after, u'.roomId = u.roomId ∧ u'.incognito = u.incognito)
    (hheld : (after.flatMap Upload.held).Sublist u.held) : Accounted root (s.replaced u after) := by
  have hsublist : ((s.replaced u after).held).Sublist
      (u.held ++ (s.uploads.erase u).flatMap Upload.held) := by
    unfold Web.held Web.replaced
    rw [List.flatMap_append]
    exact hheld.append (List.Sublist.refl _)
  have hmem : ∀ a ∈ (s.replaced u after).held, a ∈ s.held := fun a ha =>
    (Web.held_perm hu).mem_iff.mpr (hsublist.subset ha)
  refine ⟨h.sound, fun u' hu' => ?_, fun a ha => h.registered a (hmem a ha), fun a ha => ?_, ?_,
    h.offered⟩
  · rcases List.mem_append.mp hu' with hnew | hold
    · obtain ⟨hid, hmode⟩ := hroom u' hnew
      rw [hid, hmode]
      exact h.modes u hu
    · exact h.modes u' (List.mem_of_mem_erase hold)
  · obtain ⟨hunattached, hunoffered⟩ := h.loose a (hmem a ha)
    exact ⟨hunattached, hunoffered⟩
  · have hnodup := ((Web.held_perm hu).map MediaAsset.id).nodup_iff.mp h.distinct
    exact hnodup.sublist (hsublist.map MediaAsset.id)

theorem withApp (h : Accounted root s) {app : AppMedia}
    (hsound : Sound root {s.process with app := app})
    (hkept : ∀ id a, s.process.app.media.get id = some a →
      Loose s id ∧ id ∉ s.held.map MediaAsset.id ∨ app.media.get id = some a) :
    Accounted root (s.withApp app) := by
  refine ⟨hsound, h.modes, fun a ha => ?_, fun a ha => ?_, h.distinct, fun a ha => ?_⟩
  · rcases hkept a.id a (h.registered a ha) with ⟨-, hnot⟩ | hget
    · exact absurd (List.mem_map.mpr ⟨a, ha, rfl⟩) hnot
    · exact hget
  · obtain ⟨hunattached, hunoffered⟩ := h.loose a ha
    exact ⟨hunattached, hunoffered⟩
  · rcases hkept a.id a (h.offered a ha) with ⟨hloose, -⟩ | hget
    · exact absurd rfl (hloose.unoffered a ha)
    · exact hget

theorem withWorld (h : Accounted root s) {w : World}
    (hsound : Sound root {s.process with world := w})
    (hext : Extends s.process.world.chat w.chat)
    (hloose : ∀ a ∈ s.held, Unattached w.chat.rooms a.id) : Accounted root (s.withWorld w) := by
  refine ⟨hsound, fun u hu => ?_, h.registered, fun a ha => ?_, h.distinct, h.offered⟩
  · obtain ⟨room, hroom, hmode⟩ := h.modes u hu
    obtain ⟨room', hroom', hgrown⟩ := hext.kept u.roomId room hroom
    exact ⟨room', hroom', hgrown.incognito.trans hmode⟩
  · exact ⟨hloose a ha, (h.loose a ha).unoffered⟩

/-- An identity that the ordinary store does not register is new to everybody. -/
theorem fresh (h : Accounted root s) {id : String} (hfree : s.process.app.media.get id = none) :
    Loose s id ∧ id ∉ s.held.map MediaAsset.id := by
  have hne : ∀ a : MediaAsset, s.process.app.media.get a.id = some a → a.id ≠ id := by
    intro a ha he
    rw [he, hfree] at ha
    cases ha
  refine ⟨⟨fun k room hroom hordinary m hm a ha => ?_, fun a ha => ?_⟩, fun hmem => ?_⟩
  · exact hne a (h.sound.attached k room hroom hordinary m hm a ha)
  · exact hne a (h.offered a ha)
  · obtain ⟨a, ha, hid⟩ := List.mem_map.mp hmem
    exact hne a (h.registered a ha) hid

/-- A new image of a request. -/
theorem added (h : Accounted root s) (hu : u ∈ s.uploads) {u' : Upload} {asset : MediaAsset}
    (hroom : u'.roomId = u.roomId ∧ u'.incognito = u.incognito)
    (hassets : u'.assets = u.assets ++ [asset])
    (hnew : u.incognito = false → s.process.app.media.get asset.id = some asset ∧
      Loose s asset.id ∧ asset.id ∉ s.held.map MediaAsset.id) :
    Accounted root (s.replaced u [u']) := by
  cases hi : u.incognito with
  | true =>
      apply h.replaced hu
      · exact List.forall_mem_singleton.mpr hroom
      · simp [Upload.held, hroom.2, hi]
  | false =>
      obtain ⟨hget, hloose, hnot⟩ := hnew hi
      have hheld : u'.held = u.held ++ [asset] := by
        simp only [Upload.held, hroom.2, hi, hassets, Bool.false_eq_true, if_false]
      have hperm : (s.replaced u [u']).held.Perm (asset :: s.held) := by
        unfold Web.replaced
        show ((u' :: s.uploads.erase u).flatMap Upload.held).Perm (asset :: s.held)
        rw [List.flatMap_cons, hheld, List.append_assoc]
        exact List.perm_middle.trans ((Web.held_perm hu).symm.cons asset)
      have hmem : ∀ a ∈ (s.replaced u [u']).held, a = asset ∨ a ∈ s.held := fun a ha =>
        List.mem_cons.mp (hperm.mem_iff.mp ha)
      refine ⟨h.sound, fun v hv => ?_, fun a ha => ?_, fun a ha => ?_, ?_, h.offered⟩
      · rcases List.mem_append.mp hv with hv | hv
        · rw [List.mem_singleton.mp hv, hroom.1, hroom.2]
          exact h.modes u hu
        · exact h.modes v (List.mem_of_mem_erase hv)
      · rcases hmem a ha with rfl | ha
        · exact hget
        · exact h.registered a ha
      · rcases hmem a ha with rfl | ha
        · exact ⟨hloose.unattached, hloose.unoffered⟩
        · exact ⟨(h.loose a ha).unattached, (h.loose a ha).unoffered⟩
      · refine (hperm.map MediaAsset.id).nodup_iff.mpr ?_
        exact List.nodup_cons.mpr ⟨hnot, h.distinct⟩

theorem offering (h : Accounted root s) {incognito : Bool} {asset : MediaAsset}
    (hnew : incognito = false → s.process.app.media.get asset.id = some asset ∧
      asset.id ∉ s.held.map MediaAsset.id) :
    Accounted root {s with offered := (incognito, asset) :: s.offered} := by
  refine ⟨h.sound, h.modes, h.registered, fun a ha => ⟨(h.loose a ha).unattached, fun b hb => ?_⟩,
    h.distinct, fun a ha => ?_⟩
  · rcases List.mem_cons.mp hb with he | hb
    · obtain ⟨hi, rfl⟩ := Prod.mk.inj he
      intro hid
      exact (hnew hi.symm).2 (List.mem_map.mpr ⟨a, ha, hid.symm⟩)
    · exact (h.loose a ha).unoffered b hb
  · rcases List.mem_cons.mp ha with he | ha
    · obtain ⟨hi, rfl⟩ := Prod.mk.inj he
      exact (hnew hi.symm).1
    · exact h.offered a ha

/-! ## The steps -/

section

variable {imaging : Imaging} {isAlphanumeric : Char → Bool}

/-- A message that the web server appends carries published images of its kind of room. -/
theorem fromWeb_message {op : ChatOp} (hweb : op.FromWeb s) {id : ℕ} {m : ChatMessage}
    {room : ChatRoom} (hmessage : op.message s.process.world.chat = some (id, m))
    (hroom : s.rooms.get id = some room) : ∀ a ∈ m.media, (room.incognito, a) ∈ s.offered := by
  cases op with
  | send faults clock k text media =>
      obtain ⟨-, rfl⟩ := Prod.mk.inj (Option.some.inj hmessage)
      obtain rfl : media = [] := hweb
      exact fun a ha => absurd ha List.not_mem_nil
  | push faults clock round role author text media =>
      obtain ⟨rfl, rfl⟩ := Prod.mk.inj (Option.some.inj hmessage)
      exact fun a ha => hweb a ha room hroom
  | _ => cases hmessage

theorem chat (h : Accounted root s) {op : ChatOp} {w : World}
    (hstep : ChatStep isAlphanumeric s.process.world op w) (hweb : op.FromWeb s) :
    Accounted root (s.withWorld w) := by
  have hmedia : ∀ (id : ℕ) (m : ChatMessage) (room : ChatRoom),
      op.message s.process.world.chat = some (id, m) →
      s.process.world.chat.rooms.get id = some room → room.incognito = false →
      ∀ a ∈ m.media, (false, a) ∈ s.offered := by
    intro id m room hmessage hroom hordinary a ha
    rw [← hordinary]
    exact fromWeb_message hweb hmessage hroom a ha
  refine h.withWorld (h.sound.chat hstep ?_) (hstep.fresh h.sound.fresh).2 fun a ha => ?_
  · exact fun id m room hmessage hroom hordinary b hb =>
      h.offered b (hmedia id m room hmessage hroom hordinary b hb)
  · refine hstep.ordinary_messages h.sound.fresh (h.loose a ha).unattached ?_
    exact fun id m room hmessage hroom hordinary b hb =>
      (h.loose a ha).unoffered b (hmedia id m room hmessage hroom hordinary b hb)

/-- The message of a request is appended, and nobody holds its images any more. -/
theorem appended (h : Accounted root s) (hu : u ∈ s.uploads) {after : List Upload}
    (hroom : ∀ u' ∈ after, u'.roomId = u.roomId ∧ u'.incognito = u.incognito)
    (hafter : after.flatMap Upload.held = []) {faults : SnapshotFaults} {clock : Clock} {w : World}
    (hstep : ChatStep isAlphanumeric s.process.world
      (.send faults clock u.roomId u.text u.assets) w) :
    Accounted root ((s.replaced u after).withWorld w) := by
  have hrest := h.replaced hu hroom (by rw [hafter]; exact List.nil_sublist _)
  -- in an ordinary room the images of the message are those that the request held
  have hmedia : ∀ (id : ℕ) (m : ChatMessage) (room : ChatRoom),
      (ChatOp.send faults clock u.roomId u.text u.assets).message s.process.world.chat =
        some (id, m) →
      s.process.world.chat.rooms.get id = some room → room.incognito = false →
      ∀ a ∈ m.media, a ∈ u.held := by
    intro id m room hmessage hget hordinary a ha
    obtain ⟨rfl, rfl⟩ := Prod.mk.inj (Option.some.inj hmessage)
    obtain ⟨room', hget', hmode⟩ := h.modes u hu
    obtain rfl : room' = room := Option.some.inj (hget'.symm.trans hget)
    unfold Upload.held
    rw [← hmode, hordinary]
    exact ha
  refine hrest.withWorld (hrest.sound.chat hstep ?_) (hstep.fresh h.sound.fresh).2 fun b hb => ?_
  · exact fun id m room hmessage hget hordinary a ha =>
      h.registered a (mem_held hu (hmedia id m room hmessage hget hordinary a ha))
  · refine hstep.ordinary_messages h.sound.fresh (hrest.loose b hb).unattached ?_
    intro id m room hmessage hget hordinary a ha hid
    have hnodup := ((Web.held_perm hu).map MediaAsset.id).nodup_iff.mp h.distinct
    rw [List.map_append] at hnodup
    have hb' : b ∈ (s.uploads.erase u).flatMap Upload.held := by
      have hb'' : b ∈ (after ++ s.uploads.erase u).flatMap Upload.held := hb
      rwa [List.flatMap_append, hafter, List.nil_append] at hb''
    exact (List.disjoint_of_nodup_append hnodup)
      (List.mem_map.mpr ⟨a, hmedia id m room hmessage hget hordinary a ha, rfl⟩)
      (List.mem_map.mpr ⟨b, hb', hid.symm⟩)

theorem held_failing (u : Upload) (error : ApiError) : [u.failing error].flatMap Upload.held =
    u.held := by
  simp [Upload.failing, Upload.held]

theorem failed (h : Accounted root s) (hu : u ∈ s.uploads) (error : ApiError) :
    Accounted root (s.replaced u [u.failing error]) := by
  apply h.replaced hu
  · exact List.forall_mem_singleton.mpr ⟨rfl, rfl⟩
  · rw [held_failing]

theorem sent (h : Accounted root s) (hu : u ∈ s.uploads) (faults : SnapshotFaults) (clock : Clock)
    (hsaved : ¬(WebOp.send u faults clock).LosesImages isAlphanumeric s) :
    Accounted root (s.sent isAlphanumeric u faults clock) := by
  have hstep : ChatStep isAlphanumeric s.process.world
      (.send faults clock u.roomId u.text u.assets) _ := ⟨trivial, rfl⟩
  have hsend := send_step isAlphanumeric faults clock u.roomId u.text u.assets
    s.process.world.chat s.process.world.disk
  unfold Web.sent
  simp only [World.after, World.sent] at hstep ⊢
  generalize sendUserMessageWithMedia isAlphanumeric faults clock u.roomId u.text u.assets
    s.process.world.chat s.process.world.disk = out at hstep hsend ⊢
  cases hsend with
  | refused error _ => exact h.failed hu (.ofChat error)
  | unsaved room members error disk' hadmission hsave =>
      have hblocked := (saveLocked_error_iff faults _ s.process.world.disk).mp
        ⟨error, by rw [hsave]⟩
      have hfails : SaveFails faults s.process.world.disk := hblocked.2
      have hsame : ∀ u' ∈ [u.failing (.ofChat error)],
          u'.roomId = u.roomId ∧ u'.incognito = u.incognito :=
        List.forall_mem_singleton.mpr ⟨rfl, rfl⟩
      refine h.appended hu hsame ?_ hstep
      -- the save failed, so the request brought no image into an ordinary room
      rw [held_failing]
      cases hi : u.incognito with
      | true => simp [Upload.held, hi]
      | false =>
          have hnone : u.assets = [] := by
            by_contra hne
            exact hsaved ⟨hi, hne, ⟨_, hadmission⟩, hfails⟩
          simp [Upload.held, hi, hnone]
  | accepted room members disk' round _ _ _ _ =>
      exact h.appended hu (fun u' hu' => absurd hu' List.not_mem_nil) rfl hstep

theorem opened (h : Accounted root s) {id : ℕ} {room : ChatRoom}
    (hroom : s.rooms.get id = some room) :
    Accounted root {s with uploads := .opened id room :: s.uploads} := by
  have hheld : Web.held {s with uploads := .opened id room :: s.uploads} = s.held := by
    simp [Web.held, Upload.held, Upload.opened]
  refine ⟨h.sound, fun u hu => ?_, fun a ha => ?_, fun a ha => ?_, ?_, h.offered⟩
  · rcases List.mem_cons.mp hu with rfl | hu
    · exact ⟨room, hroom, rfl⟩
    · exact h.modes u hu
  · rw [hheld] at ha
    exact h.registered a ha
  · rw [hheld] at ha
    exact ⟨(h.loose a ha).unattached, (h.loose a ha).unoffered⟩
  · rw [hheld]
    exact h.distinct

/-- An image operation that removes nothing. -/
theorem stored (h : Accounted root s) {op : MediaOp} {app : AppMedia}
    (hstep : MediaStep imaging s.process.pid s.process.app op app)
    (hcounted : op.Counted (s.process.app.storeOf op.incognito))
    (hop : ∀ incognito faults id, op ≠ .remove incognito faults id) :
    Accounted root (s.withApp app) := by
  refine h.withApp (h.sound.media hstep hcounted fun faults id hremove => ?_) fun id a ha => ?_
  · exact absurd hremove (hop false faults id)
  · exact .inr (hstep.registered h.sound.stores hcounted ha fun faults => hop false faults id)

/-- What such an operation returns is new to everybody. -/
theorem new (h : Accounted root s) {op : MediaOp} {app : AppMedia}
    (hstep : MediaStep imaging s.process.pid s.process.app op app)
    (hcounted : op.Counted (s.process.app.storeOf op.incognito)) {asset : MediaAsset}
    (hok : (op.run imaging s.process.pid (s.process.app.storeOf op.incognito)
      s.process.app.files).1 = some (.ok asset)) (hordinary : op.incognito = false) :
    app.media.get asset.id = some asset ∧ Loose s asset.id ∧
      asset.id ∉ s.held.map MediaAsset.id := by
  obtain ⟨hfree, hget⟩ := hstep.returned h.sound.stores hcounted hok
  rw [hordinary] at hfree hget
  exact ⟨hget, h.fresh hfree⟩

theorem withStore_self (app : AppMedia) (incognito : Bool) :
    app.withStore incognito (app.storeOf incognito) app.files = app := by
  cases incognito <;> rfl

theorem readField (h : Accounted root s) (hu : u ∈ s.uploads) (faults : FileFaults)
    (field : Except String FormField)
    (hnext : (s.process.app.storeOf u.incognito).nextId < 2 ^ 64) :
    Accounted root (s.after imaging isAlphanumeric (.readField u faults field)) := by
  have hread := readField_read imaging s.process.pid faults u (s.process.app.storeOf u.incognito)
    s.process.app.files field
  have hroom := readField_room imaging s.process.pid faults u (s.process.app.storeOf u.incognito)
    s.process.app.files field
  have hheld : ∀ {u' : Upload}, u'.incognito = u.incognito → u'.assets = u.assets →
      ([u'].flatMap Upload.held).Sublist u.held := by
    intro u' hmode hassets
    simp [Upload.held, hmode, hassets]
  unfold Web.after
  dsimp only
  generalize u.readField imaging s.process.pid faults field (s.process.app.storeOf u.incognito)
    s.process.app.files = out at hread hroom ⊢
  have hsame : ∀ u' ∈ [out.1], u'.roomId = u.roomId ∧ u'.incognito = u.incognito :=
    List.forall_mem_singleton.mpr hroom
  cases hread with
  | untouched u' hassets =>
      rw [withStore_self]
      exact h.replaced hu hsame (hheld hroom.2 hassets)
  | refused u' filename error bytes store' files' hsave hassets =>
      have hstep : MediaStep imaging s.process.pid s.process.app
          (.upload u.incognito faults filename bytes)
          (s.process.app.withStore u.incognito store' files') := by
        simp only [MediaStep, MediaOp.run, MediaOp.incognito, hsave]
      have hstored := h.stored hstep hnext fun _ _ _ he => by cases he
      exact hstored.replaced hu hsame (hheld hroom.2 hassets)
  | stored u' filename bytes asset store' files' hsave hassets =>
      have hstep : MediaStep imaging s.process.pid s.process.app
          (.upload u.incognito faults filename bytes)
          (s.process.app.withStore u.incognito store' files') := by
        simp only [MediaStep, MediaOp.run, MediaOp.incognito, hsave]
      have hstored := h.stored hstep hnext fun _ _ _ he => by cases he
      have hok : ((MediaOp.upload u.incognito faults filename bytes).run imaging s.process.pid
          (s.process.app.storeOf u.incognito) s.process.app.files).1 = some (.ok asset) := by
        simp only [MediaOp.run, hsave]
      refine hstored.added hu hroom hassets fun hi => ?_
      obtain ⟨hget, hloose, hnot⟩ := h.new hstep hnext hok hi
      exact ⟨hget, ⟨hloose.unattached, hloose.unoffered⟩, hnot⟩

theorem publish (h : Accounted root s) (incognito : Bool) (faults : FileFaults)
    (filename mimeType encoded : String)
    (hnext : (s.process.app.storeOf incognito).nextId < 2 ^ 64) :
    Accounted root
      (s.after imaging isAlphanumeric (.publish incognito faults filename mimeType encoded)) := by
  unfold Web.after
  dsimp only
  rcases hsave : MediaStore.saveBase64 imaging s.process.pid faults filename mimeType encoded
    (s.process.app.storeOf incognito) s.process.app.files with ⟨result, store', files'⟩
  have hstep : MediaStep imaging s.process.pid s.process.app
      (.publish incognito faults filename mimeType encoded)
      (s.process.app.withStore incognito store' files') := by
    simp only [MediaStep, MediaOp.run, MediaOp.incognito, hsave]
  have hstored := h.stored hstep hnext fun _ _ _ he => by cases he
  cases result with
  | error error => exact hstored
  | ok asset =>
      have hok : ((MediaOp.publish incognito faults filename mimeType encoded).run imaging
          s.process.pid (s.process.app.storeOf incognito) s.process.app.files).1 =
            some (.ok asset) := by
        simp only [MediaOp.run, hsave]
      refine hstored.offering fun hi => ?_
      obtain ⟨hget, -, hnot⟩ := h.new hstep hnext hok hi
      exact ⟨hget, hnot⟩

theorem discarded (imaging : Imaging) (h : Accounted root s) (hu : u ∈ s.uploads)
    (faults : FileFaults) :
    Accounted root (s.discarded u faults) := by
  unfold Web.discarded
  cases hassets : u.assets with
  | nil => exact h.replaced hu (fun u' hu' => absurd hu' List.not_mem_nil) (List.nil_sublist _)
  | cons asset rest =>
      dsimp only
      have hsame : ∀ u' ∈ [{u with assets := rest}],
          u'.roomId = u.roomId ∧ u'.incognito = u.incognito :=
        List.forall_mem_singleton.mpr ⟨rfl, rfl⟩
      have hsublist : ([{u with assets := rest}].flatMap Upload.held).Sublist u.held := by
        cases hi : u.incognito with
        | true => simp [Upload.held, hi]
        | false => simp [Upload.held, hi, hassets]
      have hrest := h.replaced hu hsame hsublist
      have hstep : MediaStep imaging s.process.pid s.process.app
          (.remove u.incognito faults asset.id) (s.process.app.withStore u.incognito
            (MediaStore.remove faults asset.id (s.process.app.storeOf u.incognito)
              s.process.app.files).1
            (MediaStore.remove faults asset.id (s.process.app.storeOf u.incognito)
              s.process.app.files).2) := rfl
      -- an image of an ordinary request is loose and held once
      have hloose : u.incognito = false → Loose s asset.id ∧
          asset.id ∉ (s.replaced u [{u with assets := rest}]).held.map MediaAsset.id := by
        intro hi
        have hheld : u.held = asset :: rest := by
          simp only [Upload.held, hi, hassets, Bool.false_eq_true, if_false]
        refine ⟨h.loose asset (mem_held hu (hheld ▸ List.mem_cons_self)), ?_⟩
        have hnodup := ((Web.held_perm hu).map MediaAsset.id).nodup_iff.mp h.distinct
        rw [hheld, List.cons_append, List.map_cons] at hnodup
        have hnot := (List.nodup_cons.mp hnodup).1
        have hafter : (s.replaced u [{u with assets := rest}]).held =
            rest ++ (s.uploads.erase u).flatMap Upload.held := by
          show ({u with assets := rest} :: s.uploads.erase u).flatMap Upload.held = _
          rw [List.flatMap_cons]
          simp only [Upload.held, hi, Bool.false_eq_true, if_false]
        rwa [hafter]
      refine hrest.withApp (hrest.sound.media hstep trivial fun faults' id hremove => ?_) ?_
      · obtain ⟨hi, -, rfl⟩ := MediaOp.remove.inj hremove
        exact (hloose hi).1.unattached
      · intro id a ha
        by_cases hremoved : u.incognito = false ∧ asset.id = id
        · obtain ⟨hi, rfl⟩ := hremoved
          obtain ⟨⟨hunattached, hunoffered⟩, hnot⟩ := hloose hi
          exact .inl ⟨⟨hunattached, hunoffered⟩, hnot⟩
        · refine .inr (hstep.registered h.sound.stores trivial ha fun faults' hremove => ?_)
          obtain ⟨hi, -, hid⟩ := MediaOp.remove.inj hremove
          exact hremoved ⟨hi, hid⟩

theorem step (h : Accounted root s) {s' : Web} {op : WebOp}
    (hstep : WebStep imaging isAlphanumeric s op s')
    (hsaved : ¬op.LosesImages isAlphanumeric s) : Accounted root s' := by
  obtain ⟨henabled, rfl⟩ := hstep
  cases op with
  | chat op => exact h.chat ⟨henabled.1, rfl⟩ henabled.2
  | openUpload id =>
      simp only [Web.after]
      split
      · exact h
      · rename_i room hroom
        exact h.opened hroom
  | readField u faults field => exact h.readField henabled.1 faults field henabled.2.2
  | send u faults clock =>
      simp only [Web.after]
      exact h.sent henabled.1 faults clock hsaved
  | discard u faults => exact h.discarded imaging henabled.1 faults
  | abandon u =>
      exact h.replaced henabled (fun u' hu' => absurd hu' List.not_mem_nil) (List.nil_sublist _)
  | publish incognito faults filename mimeType encoded =>
      exact h.publish incognito faults filename mimeType encoded henabled

end

end Accounted

/-! ## Growth -/

theorem sent_world (isAlphanumeric : Char → Bool) (s : Web) (u : Upload) (faults : SnapshotFaults)
    (clock : Clock) : (s.sent isAlphanumeric u faults clock).process.world =
      s.process.world.after isAlphanumeric (.send faults clock u.roomId u.text u.assets) := by
  unfold Web.sent
  dsimp only
  split <;> rfl

/-- The histories only grow. -/
theorem WebStep.extends {imaging : Imaging} {isAlphanumeric : Char → Bool} {s s' : Web}
    {op : WebOp} (hstep : WebStep imaging isAlphanumeric s op s') (h : Fresh s.process.world) :
    Extends s.process.world.chat s'.process.world.chat := by
  obtain ⟨henabled, rfl⟩ := hstep
  cases op with
  | chat op =>
      have hchat : ChatStep isAlphanumeric s.process.world op _ := ⟨henabled.1, rfl⟩
      exact (hchat.fresh h).2
  | openUpload id =>
      simp only [Web.after]
      split <;> exact .refl _
  | readField u faults field => exact .refl _
  | send u faults clock =>
      have hchat : ChatStep isAlphanumeric s.process.world
        (.send faults clock u.roomId u.text u.assets) _ := ⟨trivial, rfl⟩
      simp only [Web.after, sent_world]
      exact (hchat.fresh h).2
  | discard u faults =>
      simp only [Web.after, Web.discarded]
      split <;> exact .refl _
  | abandon u => exact .refl _
  | publish incognito faults filename mimeType encoded =>
      simp only [Web.after]
      split <;> exact .refl _

/-! ## Startup -/

/-- An image of an exported snapshot, with its bytes. -/
structure RestoreMedia where
  id : String
  name : String
  mimeType : String
  base64 : String

/-- Exported images are stored anew, and found under their old identities. -/
def restoreImages (imaging : Imaging) (pid : ℕ) : List (FileFaults × RestoreMedia) →
    MediaStore → Files → ExtTreeMap String MediaAsset →
    Except String (ExtTreeMap String MediaAsset × MediaStore × Files)
  | [], store, files, restored => .ok (restored, store, files)
  | (faults, file) :: rest, store, files, restored =>
      match MediaStore.saveBase64 imaging pid faults file.name file.mimeType file.base64 store
          files with
      | (.error error, _, _) => .error error
      | (.ok asset, store, files) =>
          restoreImages imaging pid rest store files (restored.insert file.id asset)

section

variable (imaging : Imaging) (isAlphanumeric : Char → Bool) (root : String)

/-- The process before storage is enabled: from a saved snapshot, the empty one included,
or from an exported one. -/
inductive Launched : Process → Prop
  | saved (pid : ℕ) {privateRoot : String} {files : Files} (disk : SnapshotDisk)
      {saved : ChatSnapshot} : Apart root privateRoot →
      (saved.media.map MediaAsset.id).Nodup → (∀ a ∈ saved.media, OwnFiles root a) →
      (MediaStore.restore pid files (.openAt root) saved.media).1 = .ok () →
      Launched (.booted pid root privateRoot files disk saved)
  | exported (pid : ℕ) {privateRoot : String} {files files' : Files} (disk : SnapshotDisk)
      (rooms : List ChatRoom) {images : List (FileFaults × RestoreMedia)}
      {restored : ExtTreeMap String MediaAsset} {store : MediaStore} : Apart root privateRoot →
      images.length < 2 ^ 64 →
      restoreImages imaging pid images (.openAt root) files ∅ = .ok (restored, store, files') →
      Launched ⟨pid, start rooms restored disk, ⟨store, .openAt privateRoot, files'⟩⟩

/-- The server serves once the first save has succeeded. -/
inductive Serving : Web → Prop
  | mk {p : Process} {faults : SnapshotFaults} : Launched imaging root p →
      (enableStorage faults p.world.chat p.world.disk).1 = .ok () →
      Serving ⟨{p with world := p.world.after isAlphanumeric (.enableStorage faults)}, [], []⟩

/-- Runs in which no message with images is kept without being saved. -/
abbrev SavedRun : Web → List WebOp → Web → Prop :=
  Executions.Run fun s op s' =>
    WebStep imaging isAlphanumeric s op s' ∧ ¬op.LosesImages isAlphanumeric s

end

section

variable {imaging : Imaging} {isAlphanumeric : Char → Bool} {root : String}

theorem restoreImages_kept {pid : ℕ} {images : List (FileFaults × RestoreMedia)}
    {store store' : MediaStore} {files files' : Files}
    {restored restored' : ExtTreeMap String MediaAsset} (h : Kept pid store files)
    (hnext : store.nextId + images.length ≤ 2 ^ 64)
    (htable : ∀ (id : String) (a : MediaAsset), restored[id]? = some a → store.get a.id = some a)
    (hok : restoreImages imaging pid images store files restored =
      .ok (restored', store', files')) :
    Kept pid store' files' ∧ store'.root = store.root ∧
      ∀ (id : String) (a : MediaAsset), restored'[id]? = some a → store'.get a.id = some a := by
  induction images generalizing store files restored with
  | nil =>
      obtain ⟨rfl, hrest⟩ := Prod.mk.inj (Except.ok.inj hok)
      obtain ⟨rfl, rfl⟩ := Prod.mk.inj hrest
      exact ⟨h, rfl, htable⟩
  | cons image images ih =>
      obtain ⟨faults, file⟩ := image
      rw [List.length_cons] at hnext
      rcases saveBase64_cases imaging pid faults file.name file.mimeType file.base64 store
        files with ⟨error, hout⟩ | ⟨bytes, hout⟩
      · simp only [restoreImages, hout] at hok
        cases hok
      · have hcounter := (save_nextId imaging pid faults file.name bytes store files).2
        have hroot := save_root imaging pid faults file.name bytes store files
        obtain ⟨hkept, hregisters, hreturned⟩ :=
          h.save imaging faults file.name bytes (by omega)
        rcases hsave : MediaStore.save imaging pid faults file.name bytes store files with
          ⟨result, saved, after⟩
        rw [hsave] at hcounter hroot hkept hregisters hreturned
        cases result with
        | error error =>
            simp only [restoreImages, hout, hsave] at hok
            cases hok
        | ok asset =>
            simp only [restoreImages, hout, hsave] at hok
            have hinserted : ∀ (id : String) (a : MediaAsset),
                (restored.insert file.id asset)[id]? = some a → saved.get a.id = some a := by
              intro id a ha
              rw [ExtTreeMap.getElem?_insert] at ha
              split_ifs at ha
              · obtain rfl := Option.some.inj ha
                exact (hreturned asset rfl).2
              · exact hregisters a.id a (htable id a ha)
            obtain ⟨hkept', hroot', htable'⟩ := ih hkept (by omega) hinserted hok
            exact ⟨hkept', hroot'.trans hroot, htable'⟩

theorem Launched.sound {p : Process} (h : Launched imaging root p) : Sound root p := by
  cases h with
  | saved pid disk hapart hnodup hown hok => exact .booted pid disk hapart hnodup hown hok
  | @exported pid privateRoot files files' disk rooms images restored store hapart hlength hok =>
      have hnext : (MediaStore.openAt root).nextId + images.length ≤ 2 ^ 64 := by
        simp only [MediaStore.openAt]
        omega
      obtain ⟨hkept, hroot, htable⟩ := restoreImages_kept (kept_openAt pid root files) hnext
        (fun id a ha => by simp at ha) hok
      refine .started ⟨?_, hkept, kept_openAt pid privateRoot files'⟩ hroot rooms htable disk
      show Apart store.root privateRoot
      rw [hroot]
      exact hapart

theorem Serving.accounted {s : Web} (h : Serving imaging isAlphanumeric root s) :
    Accounted root s := by
  cases h with
  | @mk p faults hlaunched hok =>
      have hbase : Accounted root ⟨p, [], []⟩ :=
        ⟨hlaunched.sound, fun u hu => absurd hu List.not_mem_nil,
          fun a ha => absurd ha List.not_mem_nil, fun a ha => absurd ha List.not_mem_nil,
          List.nodup_nil, fun a ha => absurd ha List.not_mem_nil⟩
      have hstep : ChatStep isAlphanumeric p.world (.enableStorage faults) _ := ⟨trivial, rfl⟩
      exact hbase.chat hstep trivial

theorem SavedRun.accounted {s s' : Web} {ops : List WebOp}
    (h : SavedRun imaging isAlphanumeric s ops s') (hs : Accounted root s) : Accounted root s' :=
  h.invariant (fun _ _ _ ht step => ht.step step.1 step.2) hs

theorem SavedRun.extends {s s' : Web} {ops : List WebOp}
    (h : SavedRun imaging isAlphanumeric s ops s') (hs : Accounted root s) :
    Extends s.process.world.chat s'.process.world.chat :=
  h.relates (P := Accounted root)
    (R := fun s t => Extends s.process.world.chat t.process.world.chat)
    (fun _ _ _ ht step => ht.step step.1 step.2) (fun _ => .refl _)
    (fun _ _ _ first second => first.trans second)
    (fun _ _ _ ht step => step.1.extends ht.sound.fresh) hs

/-- In every such run each image of an ordinary room's message is registered and on disk,
and what was saved at any time before is accepted by the next start. -/
theorem attachments_stay {start mid s : Web} {past future : List WebOp}
    (hstart : Serving imaging isAlphanumeric root start)
    (hpast : SavedRun imaging isAlphanumeric start past mid)
    (hfuture : SavedRun imaging isAlphanumeric mid future s) :
    (∀ (id : ℕ) (room : ChatRoom), s.rooms.get id = some room → room.incognito = false →
      ∀ m ∈ room.messages, ∀ a ∈ m.media, s.process.app.media.get a.id = some a ∧
        ∀ path ∈ a.paths, path ∈ s.process.app.files) ∧
    ∀ (pid : ℕ) (store : MediaStore) (assets : List MediaAsset),
      assets.Perm (snapshot mid.rooms).media →
      (MediaStore.restore pid s.process.app.files store assets).1 = .ok () := by
  have hmid := hpast.accounted hstart.accounted
  have haccounted := hfuture.accounted hmid
  have hpresent := haccounted.sound.stores.ordinary.present
  refine ⟨fun id room hroom hordinary m hm a ha => ?_, fun pid store assets hperm => ?_⟩
  · have hget := haccounted.sound.attached id room.record (record_of_get hroom) hordinary m hm a ha
    exact ⟨hget, hpresent a.id a hget⟩
  · apply (restore_ok_iff pid s.process.app.files assets store).mpr
    intro a ha
    -- the message that carried the asset is still there
    obtain ⟨id, record, hrecord, hordinary, m, hm, hmedia⟩ :=
      mem_snapshot_media (hperm.mem_iff.mp ha)
    obtain ⟨room, hroom, rfl⟩ := exists_of_record hrecord
    obtain ⟨room', hroom', hgrown⟩ := (hfuture.extends hmid).kept id room hroom
    obtain ⟨later, hmessages, -⟩ := hgrown.messages
    have hm' : m ∈ room'.messages := by
      rw [hmessages]
      exact List.mem_append_left later hm
    have hget := haccounted.sound.attached id room'.record (record_of_get hroom')
      (hgrown.incognito.trans hordinary) m hm' a hmedia
    exact hpresent a.id a hget

end

theorem noFaults_saves (disk : SnapshotDisk) : ¬SaveFails noFaults disk := by
  simp [SaveFails, ReplacedFiles.Fails, noFaults]

def servingWeb : Web :=
  let p := Process.booted 7 dataRoot "/tmp/norma-media-7" ∅ noFiles ⟨[], []⟩
  ⟨{p with world := p.world.after Char.isAlphanum (.enableStorage noFaults)}, [], []⟩

theorem servingWeb_serving : Serving smallImages Char.isAlphanum dataRoot servingWeb := by
  have hlaunched : Launched smallImages dataRoot
      (.booted 7 dataRoot "/tmp/norma-media-7" ∅ noFiles ⟨[], []⟩) :=
    .saved 7 noFiles dataRoot_apart List.nodup_nil (fun _ ha => absurd ha List.not_mem_nil) rfl
  exact .mk hlaunched rfl

/-- A room, and an image read from an upload into it. -/
def imageRead : List WebOp :=
  [.chat (.ensureSoloRoom noFaults codexKey "Plans" 0), .openUpload 1,
    .readField ⟨1, false, "", [], none⟩ .none (.ok (.files (some "cat.png") (.ok tinyPng)))]

def imageReadWeb : Web :=
  imageRead.foldl (Web.after smallImages Char.isAlphanum) servingWeb

def catUpload : Upload := ⟨1, false, "", [catAsset], none⟩

def catFailed : Upload :=
  catUpload.failing ⟨502, "could not save chat history: no space left on device"⟩

theorem imageRead_run :
    SavedRun smallImages Char.isAlphanum servingWeb imageRead imageReadWeb := by
  have hread : (⟨1, false, "", [], none⟩ : Upload) ∈
      (((servingWeb.after smallImages Char.isAlphanum
        (.chat (.ensureSoloRoom noFaults codexKey "Plans" 0))).after smallImages Char.isAlphanum
        (.openUpload 1)).uploads) := by decide
  exact .cons ⟨⟨⟨trivial, trivial⟩, rfl⟩, id⟩ (.cons ⟨⟨trivial, rfl⟩, id⟩
    (.cons ⟨⟨⟨hread, rfl, (by decide : 1 < 2 ^ 64)⟩, rfl⟩, id⟩ (.nil _)))

/-- The message is saved, and the image is there for the next start. -/
theorem attachments_stay_cat :
    ∃ s, SavedRun smallImages Char.isAlphanum imageReadWeb [.send catUpload noFaults ⟨1, 1⟩] s ∧
      "/data/media/7-1.png" ∈ s.process.app.files ∧
      (MediaStore.restore 8 s.process.app.files (.openAt dataRoot) (snapshot s.rooms).media).1 =
        .ok () := by
  have hmem : catUpload ∈ imageReadWeb.uploads := by decide
  have hsend : SavedRun smallImages Char.isAlphanum imageReadWeb
      [.send catUpload noFaults ⟨1, 1⟩] _ :=
    .single ⟨⟨⟨hmem, rfl⟩, rfl⟩, fun h => noFaults_saves _ h.2.2.2⟩
  obtain ⟨hattached, haccepted⟩ := attachments_stay servingWeb_serving
    (imageRead_run.append hsend) (.nil _)
  refine ⟨_, hsend, ?_, haccepted 8 (.openAt dataRoot) _ (.refl _)⟩
  exact (hattached 1 _ rfl rfl _ List.mem_cons_self catAsset List.mem_cons_self).2 _
    List.mem_cons_self

/-- The disk is full when the message is saved. The message stays, the handler deletes
its image, and the next snapshot is one that no start accepts. -/
theorem upload_dangles :
    ∃ s, Executions.Run (WebStep smallImages Char.isAlphanum) servingWeb
        (imageRead ++ [.send catUpload diskFull ⟨1, 1⟩,
          .discard catFailed .none, .chat (.reserveRoom "Later" [codexKey] false 2),
          .chat (.insertRoom noFaults (newRoom 2 "Later" ["codex"] false 2))]) s ∧
      (∃ room, s.rooms.get 1 = some room ∧ room.incognito = false ∧
        ∃ m ∈ room.messages, catAsset ∈ m.media) ∧
      s.process.app.media.get "7-1" = none ∧ "/data/media/7-1.png" ∉ s.process.app.files ∧
      ∃ saved, load s.process.world.disk = .ok (some saved) ∧
        (MediaStore.restore 8 s.process.app.files (.openAt dataRoot) saved.media).1 =
          .error "stored media file is missing: 7-1" := by
  have hread : Executions.Run (WebStep smallImages Char.isAlphanum) servingWeb imageRead
      imageReadWeb := imageRead_run.mono fun _ _ _ step => step.1
  have hmem : catUpload ∈ imageReadWeb.uploads := by decide
  have hfull : WebStep smallImages Char.isAlphanum imageReadWeb
      (.send catUpload diskFull ⟨1, 1⟩) _ := ⟨⟨hmem, rfl⟩, rfl⟩
  have hfailed : catFailed ∈ (imageReadWeb.after smallImages Char.isAlphanum
      (.send catUpload diskFull ⟨1, 1⟩)).uploads := by decide
  have hdiscard : WebStep smallImages Char.isAlphanum _ (.discard catFailed .none) _ :=
    ⟨⟨hfailed, by decide⟩, rfl⟩
  have hsaved : Executions.Run (WebStep smallImages Char.isAlphanum) imageReadWeb
      [.send catUpload diskFull ⟨1, 1⟩, .discard catFailed .none,
        .chat (.reserveRoom "Later" [codexKey] false 2),
        .chat (.insertRoom noFaults (newRoom 2 "Later" ["codex"] false 2))] _ :=
    .cons hfull (.cons hdiscard (.cons ⟨⟨trivial, trivial⟩, rfl⟩
      (.single ⟨⟨List.mem_cons_self, trivial⟩, rfl⟩)))
  refine ⟨_, hread.append hsaved, ⟨_, rfl, rfl, _, List.mem_cons_self, List.mem_cons_self⟩, rfl,
    by decide, _, rfl, rfl⟩

end NormaHarness.Chat
