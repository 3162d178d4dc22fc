import NormaHarness.MediaUrls

/-!
# The files of the registered assets

A store names the files of an asset after its identity, and draws every identity once.
So a save touches the files of no asset that is registered, a removal only those of the
asset it removes, and what is registered stays readable.
-/
namespace NormaHarness.Media
open Std

def MediaAsset.paths (a : MediaAsset) : List String := a.path :: a.modelPaths

/-! ## Names of files -/

/-- An identity that some process has drawn. -/
def Issued (id : String) : Prop := ∃ pid n, n < 2 ^ 64 ∧ id = mediaId pid n

/-- A file in this directory whose name begins with the identity and goes on with
something else than a digit. -/
def NamedAfter (root id path : String) : Prop :=
  ∃ c rest, c.isDigit = false ∧ path = join root (id ++ String.ofList (c :: rest))

structure OwnFiles (root : String) (a : MediaAsset) : Prop where
  issued : Issued a.id
  named : ∀ path ∈ a.paths, NamedAfter root a.id path

theorem mediaId_toList (pid n : ℕ) :
    (mediaId pid n).toList = Nat.toDigits 10 pid ++ '-' :: Nat.toDigits 10 n := by
  have h : mediaId pid n = pid.repr ++ "-" ++ n.repr := rfl
  rw [h, String.toList_append, String.toList_append, Nat.toList_repr, Nat.toList_repr]
  simp

theorem join_toList (root leaf : String) :
    (join root leaf).toList = root.toList ++ '/' :: leaf.toList := by
  have h : join root leaf = root ++ "/" ++ leaf := rfl
  rw [h, String.toList_append, String.toList_append]
  simp

theorem isDigit_toDigits {n : ℕ} {c : Char} (h : c ∈ Nat.toDigits 10 n) : c.isDigit = true :=
  Nat.isDigit_of_mem_toDigits (by decide) (by decide) h

/-- The two numbers that a text begins with, and the dash between them. -/
def leadingId (chars : List Char) : List Char :=
  chars.takeWhile Char.isDigit ++
    '-' :: ((chars.dropWhile Char.isDigit).drop 1).takeWhile Char.isDigit

theorem takeWhile_toDigits (n : ℕ) {c : Char} (hc : c.isDigit = false) (rest : List Char) :
    (Nat.toDigits 10 n ++ c :: rest).takeWhile Char.isDigit = Nat.toDigits 10 n ∧
      (Nat.toDigits 10 n ++ c :: rest).dropWhile Char.isDigit = c :: rest := by
  have hdigits : ∀ d ∈ Nat.toDigits 10 n, Char.isDigit d = true := fun d hd => isDigit_toDigits hd
  constructor
  · rw [List.takeWhile_append_of_pos hdigits]
    simp [hc]
  · rw [List.dropWhile_append_of_pos hdigits]
    simp [hc]

theorem leadingId_mediaId (pid n : ℕ) {c : Char} (hc : c.isDigit = false) (rest : List Char) :
    leadingId ((mediaId pid n).toList ++ c :: rest) = (mediaId pid n).toList := by
  have houter := takeWhile_toDigits pid (c := '-') (by decide) (Nat.toDigits 10 n ++ c :: rest)
  have hinner := takeWhile_toDigits n hc rest
  rw [mediaId_toList, List.append_assoc, List.cons_append]
  unfold leadingId
  rw [houter.1, houter.2, List.drop_one, List.tail_cons, hinner.1]

/-- A file is named after one identity only. -/
theorem NamedAfter.unique {root id id' path : String} (hid : Issued id) (hid' : Issued id')
    (h : NamedAfter root id path) (h' : NamedAfter root id' path) : id = id' := by
  obtain ⟨pid, n, -, rfl⟩ := hid
  obtain ⟨pid', n', -, rfl⟩ := hid'
  obtain ⟨c, rest, hc, rfl⟩ := h
  obtain ⟨c', rest', hc', hpath⟩ := h'
  have hchars := congrArg String.toList hpath
  simp only [join_toList, String.toList_append, String.toList_ofList, List.append_cancel_left_eq,
    List.cons.injEq, true_and] at hchars
  have hleading := congrArg leadingId hchars
  rw [leadingId_mediaId pid n hc, leadingId_mediaId pid' n' hc'] at hleading
  exact String.toList_inj.mp hleading

theorem toDigits_inj {n m : ℕ} (h : Nat.toDigits 10 n = Nat.toDigits 10 m) : n = m := by
  have hvalue := congrArg (fun digits => Nat.ofDigitChars 10 digits 0) h
  simpa [Nat.ofDigitChars_ten_toDigits] using hvalue

theorem mediaId_inj {pid pid' n m : ℕ} (h : mediaId pid n = mediaId pid' m) :
    pid = pid' ∧ n = m := by
  have hchars := congrArg String.toList h
  rw [mediaId_toList, mediaId_toList] at hchars
  have hpid := congrArg (List.takeWhile Char.isDigit) hchars
  rw [(takeWhile_toDigits pid (by decide) _).1, (takeWhile_toDigits pid' (by decide) _).1] at hpid
  obtain rfl := toDigits_inj hpid
  rw [List.append_cancel_left_eq, List.cons.injEq] at hchars
  exact ⟨rfl, toDigits_inj hchars.2⟩

theorem Issued.lt {pid n : ℕ} (h : Issued (mediaId pid n)) : n < 2 ^ 64 := by
  obtain ⟨pid', m, hm, hid⟩ := h
  rw [(mediaId_inj hid).2]
  exact hm

theorem parseU64_digits {digits : List Char} (hdigits : ∀ d ∈ digits, Char.isDigit d = true)
    (hne : digits ≠ []) (hlt : Nat.ofDigitChars 10 digits 0 < 2 ^ 64) :
    parseU64 digits = some (Nat.ofDigitChars 10 digits 0) := by
  rw [Nat.ofDigitChars_eq_foldl] at hlt ⊢
  have hall : digits.all Char.isDigit = true := List.all_eq_true.mpr hdigits
  unfold parseU64
  split
  · exact absurd (hdigits '+' List.mem_cons_self) (by decide)
  · simp only [List.isEmpty_eq_false_iff.mpr hne, hall, Bool.not_true, Bool.or_self,
      Bool.false_eq_true, if_false, if_pos hlt]

theorem parseU64_toDigits {n : ℕ} (hn : n < 2 ^ 64) : parseU64 (Nat.toDigits 10 n) = some n := by
  have hdigits : ∀ d ∈ Nat.toDigits 10 n, Char.isDigit d = true := fun d hd => isDigit_toDigits hd
  have hparse := parseU64_digits hdigits Nat.toDigits_ne_nil
  rw [Nat.ofDigitChars_ten_toDigits] at hparse
  exact hparse hn

theorem counterOf_mediaId (pid : ℕ) {n : ℕ} (hn : n < 2 ^ 64) :
    counterOf pid (mediaId pid n) = some n := by
  have hlabel : (s!"{pid}-").toList = Nat.toDigits 10 pid ++ ['-'] := by
    have h : s!"{pid}-" = pid.repr ++ "-" := rfl
    rw [h, String.toList_append, Nat.toList_repr]
    simp
  have hid : (mediaId pid n).toList = (Nat.toDigits 10 pid ++ ['-']) ++ Nat.toDigits 10 n := by
    rw [mediaId_toList, List.append_assoc]
    rfl
  have hextends : (Nat.toDigits 10 pid ++ ['-']).isPrefixOf
      ((Nat.toDigits 10 pid ++ ['-']) ++ Nat.toDigits 10 n) = true :=
    List.isPrefixOf_iff_prefix.mpr (List.prefix_append _ _)
  unfold counterOf
  rw [hlabel, hid]
  simp only [hextends, if_true, List.drop_left, parseU64_toDigits hn]

/-- The names that the store gives to the files of an identity. -/
inductive FileOf (root id : String) : String → Prop
  | original (format : ImageFormat) : FileOf root id (join root s!"{id}.{format.extension}")
  | preview : FileOf root id (join root s!"{id}-first-frame.png")

theorem namedAfter_extension (root id : String) (format : ImageFormat) :
    NamedAfter root id (join root s!"{id}.{format.extension}") := by
  refine ⟨'.', format.extension.toList, by decide, congrArg (join root) ?_⟩
  apply String.toList_inj.mp
  have h : s!"{id}.{format.extension}" = id ++ "." ++ format.extension := rfl
  rw [h, String.toList_append, String.toList_append, String.toList_append, String.toList_ofList]
  simp

theorem namedAfter_preview (root id : String) :
    NamedAfter root id (join root s!"{id}-first-frame.png") :=
  ⟨'-', "first-frame.png".toList, by decide, rfl⟩

theorem FileOf.namedAfter {root id path : String} (h : FileOf root id path) :
    NamedAfter root id path := by
  cases h with
  | original format => exact namedAfter_extension root id format
  | preview => exact namedAfter_preview root id

/-- The part of a file name before its last dot. -/
theorem stem_unique {x y : String} {f g : ImageFormat}
    (h : s!"{x}.{f.extension}" = s!"{y}.{g.extension}") : x = y := by
  have hstem : ∀ (z : String) (k : ImageFormat),
      (s!"{z}.{k.extension}").toList.reverse.dropWhile (· != '.') = '.' :: z.toList.reverse := by
    intro z k
    have hname : s!"{z}.{k.extension}" = z ++ "." ++ k.extension := rfl
    have hplain : ∀ c ∈ k.extension.toList.reverse, (c != '.') = true :=
      List.all_eq_true.mp (by cases k <;> decide)
    rw [hname, String.toList_append, String.toList_append, List.reverse_append,
      List.dropWhile_append_of_pos hplain]
    simp
  have hboth := congrArg (fun name => name.toList.reverse.dropWhile (· != '.')) h
  simp only [hstem, List.cons.injEq, true_and, List.reverse_inj] at hboth
  exact String.toList_inj.mp hboth

theorem FileOf.stem {root id path : String} (h : FileOf root id path) :
    ∃ (stem : String) (format : ImageFormat), path = join root s!"{stem}.{format.extension}" ∧
      (stem = id ∨ stem = id ++ "-first-frame") := by
  cases h with
  | original format => exact ⟨id, format, rfl, .inl rfl⟩
  | preview =>
      refine ⟨id ++ "-first-frame", .png, congrArg (join root) ?_, .inr rfl⟩
      apply String.toList_inj.mp
      have hname : s!"{id}-first-frame.png" = id ++ "-first-frame.png" := rfl
      have hstem : ∀ stem : String, s!"{stem}.{ImageFormat.png.extension}" =
          stem ++ "." ++ "png" := fun _ => rfl
      rw [hname, hstem]
      simp

/-- Two identities share a file name only if one is the other's with the mark of a first
frame. -/
theorem FileOf.overlap {root id id' path : String} (h : FileOf root id path)
    (h' : FileOf root id' path) :
    id = id' ∨ id = id' ++ "-first-frame" ∨ id' = id ++ "-first-frame" := by
  obtain ⟨stem, f, rfl, hstem⟩ := h.stem
  obtain ⟨stem', g, hpath, hstem'⟩ := h'.stem
  have hchars := congrArg String.toList hpath
  rw [join_toList, join_toList, List.append_cancel_left_eq, List.cons.injEq] at hchars
  obtain rfl := stem_unique (String.toList_inj.mp hchars.2)
  rcases hstem with rfl | rfl
  · rcases hstem' with rfl | rfl
    · exact .inl rfl
    · exact .inr (.inl rfl)
  · rcases hstem' with rfl | heq
    · exact .inr (.inr rfl)
    · have hchars := congrArg String.toList heq
      rw [String.toList_append, String.toList_append, List.append_cancel_right_eq] at hchars
      exact .inl (String.toList_inj.mp hchars)

/-- The identity of no image ends in that mark. -/
theorem mediaId_ne_firstFrame (pid n : ℕ) (id : String) : mediaId pid n ≠ id ++ "-first-frame" := by
  intro h
  have hmem : 'e' ∈ (mediaId pid n).toList := by
    rw [h, String.toList_append]
    exact List.mem_append_right _ (by decide)
  rw [mediaId_toList, List.mem_append, List.mem_cons] at hmem
  rcases hmem with hmem | hdash | hmem
  · exact absurd (isDigit_toDigits hmem) (by decide)
  · exact absurd hdash (by decide)
  · exact absurd (isDigit_toDigits hmem) (by decide)

/-! ## Files that an operation touches -/

/-- Files keep what they hold except at paths of this kind. -/
def Untouched (P : String → Prop) (files files' : Files) : Prop :=
  ∀ path, ¬P path → files'[path]? = files[path]?

namespace Untouched

variable {P : String → Prop} {files files' files'' : Files}

theorem refl (P : String → Prop) (files : Files) : Untouched P files files := fun _ _ => rfl

theorem trans (h : Untouched P files files') (g : Untouched P files' files'') :
    Untouched P files files'' :=
  fun path hpath => (g path hpath).trans (h path hpath)

theorem insert {path : String} (hpath : P path) (bytes : Bytes) (files : Files) :
    Untouched P files (files.insert path bytes) := by
  intro other hother
  have hne : path ≠ other := fun he => hother (he ▸ hpath)
  simp only [ExtTreeMap.getElem?_insert, LawfulEqOrd.compare_eq_iff_eq, hne, if_false]

theorem removeFile (faults : FileFaults) {path : String} (hpath : P path) (files : Files) :
    Untouched P files (removeFile faults path files) := by
  unfold Media.removeFile
  split_ifs
  · exact refl P files
  · intro other hother
    have hne : path ≠ other := fun he => hother (he ▸ hpath)
    simp only [ExtTreeMap.getElem?_erase, LawfulEqOrd.compare_eq_iff_eq, hne, if_false]

theorem writeFile (faults : FileFaults) {path : String} (hpath : P path) (bytes : Bytes)
    (files : Files) : Untouched P files (writeFile faults path bytes files).2 := by
  unfold Media.writeFile
  split
  · exact insert hpath bytes files
  · split
    · exact refl P files
    · exact insert hpath _ files

end Untouched

/-- Files appear and disappear at paths of this kind only. -/
def OnlyAt (P : String → Prop) (files files' : Files) : Prop :=
  ∀ path, ¬P path → (path ∈ files' ↔ path ∈ files)

theorem OnlyAt.refl (P : String → Prop) (files : Files) : OnlyAt P files files :=
  fun _ _ => Iff.rfl

theorem OnlyAt.mono {P Q : String → Prop} {files files' : Files} (h : OnlyAt P files files')
    (hsub : ∀ path, P path → Q path) : OnlyAt Q files files' :=
  fun path hpath => h path (mt (hsub path) hpath)

theorem Untouched.onlyAt {P : String → Prop} {files files' : Files}
    (h : Untouched P files files') : OnlyAt P files files' := by
  intro path hpath
  rw [ExtTreeMap.mem_iff_isSome_getElem?, h path hpath, ← ExtTreeMap.mem_iff_isSome_getElem?]

theorem writeFile_ok {faults : FileFaults} {path : String} {bytes : Bytes} {files files' : Files}
    (h : writeFile faults path bytes files = (.ok (), files')) :
    files' = files.insert path bytes := by
  unfold writeFile at h
  split at h
  · exact (Prod.mk.inj h).2.symm
  · cases (Prod.mk.inj h).1

theorem storePreview_untouched (imaging : Imaging) (faults : FileFaults) {root id path : String}
    (format : ImageFormat) (bytes : Bytes) (files : Files) (hpath : FileOf root id path) :
    Untouched (FileOf root id) files
      (storePreview imaging faults root id path format bytes files).2 := by
  unfold storePreview
  split_ifs
  · split
    · exact .removeFile faults hpath files
    · rename_i frame _
      have hpreview : FileOf root id (join root s!"{id}-first-frame.png") := .preview
      have hwrite := Untouched.writeFile faults hpreview frame files
      dsimp only
      split
      · rename_i after hafter
        rw [hafter] at hwrite
        exact hwrite
      · rename_i error after hafter
        rw [hafter] at hwrite
        exact hwrite.trans (.removeFile faults hpath after)
  · exact .refl _ files

/-- The files that a model reads are there when the save gets that far. -/
theorem storePreview_ok {imaging : Imaging} {faults : FileFaults} {root id path : String}
    {format : ImageFormat} {bytes : Bytes} {files files' : Files} {modelPaths : List String}
    (h : storePreview imaging faults root id path format bytes files = (.ok modelPaths, files'))
    (hpath : NamedAfter root id path) (hfile : path ∈ files) :
    path ∈ files' ∧ ∀ other ∈ modelPaths, NamedAfter root id other ∧ other ∈ files' := by
  unfold storePreview at h
  split_ifs at h
  · split at h
    · cases (Prod.mk.inj h).1
    · dsimp only at h
      split at h
      · rename_i after hwrite
        obtain ⟨hmodel, rfl⟩ := Prod.mk.inj h
        obtain rfl := Except.ok.inj hmodel
        obtain rfl := writeFile_ok hwrite
        refine ⟨?_, fun other hother => ?_⟩
        · exact ExtTreeMap.mem_insert.mpr (.inr hfile)
        · rw [List.mem_singleton.mp hother]
          exact ⟨namedAfter_preview root id, ExtTreeMap.mem_insert_self⟩
      · cases (Prod.mk.inj h).1
  · obtain ⟨hmodel, rfl⟩ := Prod.mk.inj h
    obtain rfl := Except.ok.inj hmodel
    refine ⟨hfile, fun other hother => ?_⟩
    rw [List.mem_singleton.mp hother]
    exact ⟨hpath, hfile⟩

/-- A save leaves alone what is not named by the identity at the counter. -/
theorem save_untouched (imaging : Imaging) (pid : ℕ) (faults : FileFaults) (filename : String)
    (bytes : Bytes) (store : MediaStore) (files : Files) :
    Untouched (FileOf store.root (mediaId pid store.nextId)) files
      (MediaStore.save imaging pid faults filename bytes store files).2.2 := by
  unfold MediaStore.save
  cases accepted imaging bytes with
  | error error => exact .refl _ files
  | ok format =>
      have hfile : FileOf store.root (mediaId pid store.nextId)
          (join store.root s!"{mediaId pid store.nextId}.{format.extension}") := .original format
      have hwrite := Untouched.writeFile faults hfile bytes files
      dsimp only
      split
      · rename_i error after hafter
        rw [hafter] at hwrite
        exact hwrite
      · rename_i after hafter
        rw [hafter] at hwrite
        have hpreview :=
          hwrite.trans (storePreview_untouched imaging faults format bytes after hfile)
        split
        · rename_i error last hlast
          rw [hlast] at hpreview
          exact hpreview
        · rename_i modelPaths last hlast
          rw [hlast] at hpreview
          exact hpreview

theorem save_onlyAt (imaging : Imaging) (pid : ℕ) (faults : FileFaults) (filename : String)
    (bytes : Bytes) (store : MediaStore) (files : Files) :
    OnlyAt (NamedAfter store.root (mediaId pid store.nextId)) files
      (MediaStore.save imaging pid faults filename bytes store files).2.2 :=
  (save_untouched imaging pid faults filename bytes store files).onlyAt.mono
    fun _ => FileOf.namedAfter

/-- A stored image owns its files, and they are there. -/
theorem save_ok_files {imaging : Imaging} {pid : ℕ} {faults : FileFaults} {filename : String}
    {bytes : Bytes} {store store' : MediaStore} {files files' : Files} {asset : MediaAsset}
    (h : MediaStore.save imaging pid faults filename bytes store files =
      (.ok asset, store', files')) :
    ∀ path ∈ asset.paths, NamedAfter store.root asset.id path ∧ path ∈ files' := by
  unfold MediaStore.save at h
  cases hformat : accepted imaging bytes with
  | error error => simp [hformat] at h
  | ok format =>
      simp only [hformat] at h
      split at h
      · cases (Prod.mk.inj h).1
      · rename_i after hafter
        obtain rfl := writeFile_ok hafter
        split at h
        · cases (Prod.mk.inj h).1
        · rename_i modelPaths last hlast
          have hnamed := namedAfter_extension store.root (mediaId pid store.nextId) format
          have hok := storePreview_ok hlast hnamed ExtTreeMap.mem_insert_self
          obtain ⟨hasset, hrest⟩ := Prod.mk.inj h
          obtain rfl := Except.ok.inj hasset
          obtain rfl := (Prod.mk.inj hrest).2
          intro path hpath
          rcases List.mem_cons.mp hpath with rfl | hmodel
          · exact ⟨hnamed, hok.1⟩
          · exact hok.2 path hmodel

theorem remove_onlyAt (faults : FileFaults) (id : String) (store : MediaStore) (files : Files) :
    OnlyAt (fun path => ∃ a, store.get id = some a ∧ path ∈ a.paths) files
      (MediaStore.remove faults id store files).2 := by
  have hall : ∀ (P : String → Prop) (paths : List String), (∀ path ∈ paths, P path) →
      ∀ files, Untouched P files
        (paths.foldl (fun files path => removeFile faults path files) files) := by
    intro P paths
    induction paths with
    | nil => exact fun _ files => .refl P files
    | cons path paths ih =>
        intro hpaths files
        have hfirst : Untouched P files (removeFile faults path files) :=
          .removeFile faults (hpaths path List.mem_cons_self) files
        exact hfirst.trans (ih (fun other hother => hpaths other (List.mem_cons_of_mem _ hother)) _)
  refine Untouched.onlyAt ?_
  unfold MediaStore.remove
  split
  · exact .refl _ files
  · rename_i asset hasset
    apply hall
    intro path hpath
    refine ⟨asset, hasset, ?_⟩
    rcases List.mem_append.mp hpath with hmodel | hown
    · exact List.mem_cons_of_mem _ hmodel
    · rw [List.mem_singleton.mp hown]
      exact List.mem_cons_self

end NormaHarness.Media
