import NormaHarness.Text
import NormaHarness.JsonValues

/-!
# Image attachments and the store that names them

An asset's identity is the process number and the next value of the store's own
counter. Decoding an image or base64 text is done by third-party libraries and is
a parameter; the file calls of one operation may fail as the environment chooses,
and a failed write may leave part of the file behind.
-/
namespace NormaHarness.Media
open Std JsonValues

def maxMediaBytes : ℕ := 8 * 1024 * 1024
def maxMessageMedia : ℕ := 4

structure MediaAsset where
  id : String
  name : String
  mimeType : String
  path : String
  modelPaths : List String
  deriving DecidableEq, Repr

structure MediaView where
  id : String
  name : String
  mimeType : String
  url : String
  deriving DecidableEq, Repr

def MediaAsset.view (a : MediaAsset) : MediaView :=
  ⟨a.id, a.name, a.mimeType, s!"/api/media/{a.id}"⟩

def MediaAsset.codec : Codec MediaAsset where
  encode a := .obj [("id", .str a.id), ("name", .str a.name), ("mime_type", .str a.mimeType),
    ("path", .str a.path), ("model_paths", (Codec.list .string).encode a.modelPaths)]
  decode v := do
    let f ← Fields.ofJson 5 v
    let id ← f.required 0 "id" .string
    let name ← f.required 1 "name" .string
    let mimeType ← f.required 2 "mime_type" .string
    let path ← f.required 3 "path" .string
    let modelPaths ← f.required 4 "model_paths" (.list .string)
    pure ⟨id, name, mimeType, path, modelPaths⟩
  decode_encode a := by
    have hpaths := (Codec.list .string).decode_encode a.modelPaths
    simp [Fields.ofJson, Fields.required, Fields.find, List.lookup, Codec.string, Json.asStr]
    exact hpaths ▸ rfl

/-! ## File names and image kinds -/

inductive ImageFormat where
  | png
  | jpeg
  | gif
  | webp
  deriving DecidableEq, Repr

def ImageFormat.mime : ImageFormat → String
  | .png => "image/png"
  | .jpeg => "image/jpeg"
  | .gif => "image/gif"
  | .webp => "image/webp"

def ImageFormat.extension : ImageFormat → String
  | .png => "png"
  | .jpeg => "jpg"
  | .gif => "gif"
  | .webp => "webp"

abbrev Bytes := List UInt8

def pngMagic : Bytes := [0x89, 0x50, 0x4E, 0x47, 0x0D, 0x0A, 0x1A, 0x0A]
def jpegMagic : Bytes := [0xFF, 0xD8, 0xFF]
def gif87Magic : Bytes := [0x47, 0x49, 0x46, 0x38, 0x37, 0x61]
def gif89Magic : Bytes := [0x47, 0x49, 0x46, 0x38, 0x39, 0x61]
def riffMagic : Bytes := [0x52, 0x49, 0x46, 0x46]
def webpMagic : Bytes := [0x57, 0x45, 0x42, 0x50]

def imageKind (bytes : Bytes) : Option ImageFormat :=
  if pngMagic.isPrefixOf bytes then some .png
  else if jpegMagic.isPrefixOf bytes then some .jpeg
  else if gif87Magic.isPrefixOf bytes || gif89Magic.isPrefixOf bytes then some .gif
  else if 12 ≤ bytes.length && riffMagic.isPrefixOf bytes && (bytes.drop 8).take 4 == webpMagic then
    some .webp
  else none

/-- The last path component, without control characters, cut to 120 characters. -/
def safeName (filename extension : String) : String :=
  let leaf := (filename.toList.reverse.takeWhile fun c => c != '/' && c != '\\').reverse
  let clean := String.ofList ((leaf.filter fun c => !Text.isControl c).take 120)
  if Text.isBlank clean then s!"image.{extension}" else clean

def join (root leaf : String) : String := s!"{root}/{leaf}"

/-! ## The store -/

structure MediaStore where
  root : String
  nextId : ℕ
  assets : ExtTreeMap String MediaAsset

abbrev Files := ExtTreeMap String Bytes

/-- The image and base64 libraries. -/
structure Imaging where
  decodeBase64 : String → Option Bytes
  dimensions : ImageFormat → Bytes → Except String (ℕ × ℕ)
  firstFrame : Bytes → Except String Bytes

structure WriteFault where
  message : String
  leftBehind : Option Bytes

/-- What the file calls of one operation do, by path. -/
structure FileFaults where
  write : String → Option WriteFault
  remove : String → Bool

def FileFaults.none : FileFaults := ⟨fun _ => .none, fun _ => false⟩

def writeFile (faults : FileFaults) (path : String) (bytes : Bytes) (files : Files) :
    Except String Unit × Files :=
  match faults.write path with
  | .none => (.ok (), files.insert path bytes)
  | some fault =>
      (.error fault.message, match fault.leftBehind with
        | .none => files
        | some part => files.insert path part)

def removeFile (faults : FileFaults) (path : String) (files : Files) : Files :=
  if faults.remove path then files else files.erase path

/-- The identity that the counter value `n` stands for in process `pid`. -/
def mediaId (pid n : ℕ) : String := s!"{pid}-{n}"

/-- The number the standard library reads from a suffix: a leading plus sign and
leading zeros are accepted, a value past the largest 64-bit number is not. -/
def parseU64 (chars : List Char) : Option ℕ :=
  let digits := match chars with
    | '+' :: rest => rest
    | rest => rest
  if digits.isEmpty || !digits.all Char.isDigit then none
  else
    let value := digits.foldl (fun n c => 10 * n + (c.toNat - '0'.toNat)) 0
    if value < 2 ^ 64 then some value else none

def counterOf (pid : ℕ) (id : String) : Option ℕ :=
  let label := (s!"{pid}-").toList
  if label.isPrefixOf id.toList then parseU64 (id.toList.drop label.length) else none

/-- The checks made before an identity is drawn. -/
def accepted (imaging : Imaging) (bytes : Bytes) : Except String ImageFormat :=
  if bytes.isEmpty || maxMediaBytes < bytes.length then
    .error s!"image must be 1 byte to {maxMediaBytes / 1024 / 1024} MiB"
  else
    match imageKind bytes with
    | none => .error "only PNG, JPEG, WebP, and GIF images are supported"
    | some format =>
      match imaging.dimensions format bytes with
      | .error error => .error s!"invalid image: {error}"
      | .ok (width, height) =>
          if 4096 < width || 4096 < height || width == 0 || height == 0 then
            .error "image dimensions must be 1–4096 pixels"
          else .ok format

/-- The frame a model reads, next to the original file. -/
def storePreview (imaging : Imaging) (faults : FileFaults) (root id path : String)
    (format : ImageFormat) (bytes : Bytes) (files : Files) : Except String (List String) × Files :=
  if format = .gif then
    match imaging.firstFrame bytes with
    | .error error => (.error error, removeFile faults path files)
    | .ok frame =>
        let previewPath := join root s!"{id}-first-frame.png"
        match writeFile faults previewPath frame files with
        | (.ok (), files) => (.ok [previewPath], files)
        | (.error error, files) => (.error error, removeFile faults path files)
  else (.ok [path], files)

namespace MediaStore

def openAt (root : String) : MediaStore := ⟨root, 1, ∅⟩

def get (store : MediaStore) (id : String) : Option MediaAsset := store.assets[id]?

def restoreOne (pid : ℕ) (store : MediaStore) (asset : MediaAsset) : MediaStore :=
  {store with
    nextId := match counterOf pid asset.id with
      | some counter => max store.nextId (counter + 1)
      | none => store.nextId
    assets := store.assets.insert asset.id asset}

/-- Assets are registered in order until one misses a file. -/
def restore (pid : ℕ) (files : Files) : MediaStore → List MediaAsset →
    Except String Unit × MediaStore
  | store, [] => (.ok (), store)
  | store, asset :: rest =>
      if (asset.path :: asset.modelPaths).all files.contains then
        restore pid files (store.restoreOne pid asset) rest
      else (.error s!"stored media file is missing: {asset.id}", store)

def save (imaging : Imaging) (pid : ℕ) (faults : FileFaults) (filename : String) (bytes : Bytes)
    (store : MediaStore) (files : Files) : Except String MediaAsset × MediaStore × Files :=
  match accepted imaging bytes with
  | .error error => (.error error, store, files)
  | .ok format =>
    let name := safeName filename format.extension
    let id := mediaId pid store.nextId
    let store := {store with nextId := store.nextId + 1}
    let path := join store.root s!"{id}.{format.extension}"
    match writeFile faults path bytes files with
    | (.error error, files) => (.error error, store, files)
    | (.ok (), files) =>
      match storePreview imaging faults store.root id path format bytes files with
      | (.error error, files) => (.error error, store, files)
      | (.ok modelPaths, files) =>
          let asset : MediaAsset := ⟨id, name, format.mime, path, modelPaths⟩
          (.ok asset, {store with assets := store.assets.insert id asset}, files)

def saveBase64 (imaging : Imaging) (pid : ℕ) (faults : FileFaults)
    (filename mimeType encoded : String) (store : MediaStore) (files : Files) :
    Except String MediaAsset × MediaStore × Files :=
  if maxMediaBytes * 4 / 3 + 16 < encoded.utf8ByteSize then
    (.error "image is too large", store, files)
  else
    match imaging.decodeBase64 encoded with
    | none => (.error "invalid base64 image", store, files)
    | some bytes =>
      match imageKind bytes with
      | none => (.error "unsupported image format", store, files)
      | some format =>
          if format.mime ≠ mimeType then
            (.error "image MIME type does not match its bytes", store, files)
          else save imaging pid faults filename bytes store files

def remove (faults : FileFaults) (id : String) (store : MediaStore) (files : Files) :
    MediaStore × Files :=
  match store.assets[id]? with
  | none => (store, files)
  | some asset =>
      ({store with assets := store.assets.erase id},
        (asset.modelPaths ++ [asset.path]).foldl (fun files path => removeFile faults path files)
          files)

end MediaStore

end NormaHarness.Media
