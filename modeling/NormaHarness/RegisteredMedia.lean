import NormaHarness.MediaFiles

/-!
# What is registered stays readable

The invariant of a store over the files that it shares with the other one. A save
registers under an identity that was free and touches no file of a registered asset, a
removal takes its own files only, and a restore registers what it is given.
-/
namespace NormaHarness.Media
open Std

/-- Every registered asset is keyed by its identity, owns its files, has them on disk,
and was counted if this process issued it. -/
structure Kept (pid : ℕ) (store : MediaStore) (files : Files) : Prop where
  keyed : ∀ id a, store.get id = some a → a.id = id
  own : ∀ id a, store.get id = some a → OwnFiles store.root a
  present : ∀ id a, store.get id = some a → ∀ path ∈ a.paths, path ∈ files
  counted : ∀ n a, store.get (mediaId pid n) = some a → n < store.nextId

/-- What a store has registered, another one has too. -/
def Registers (store store' : MediaStore) : Prop :=
  ∀ id a, store.get id = some a → store'.get id = some a

theorem OwnFiles.other {root : String} {a b : MediaAsset} (ha : OwnFiles root a)
    (hb : OwnFiles root b) (hne : a.id ≠ b.id) {path : String} (hpath : path ∈ a.paths) :
    path ∉ b.paths :=
  fun hmem => hne (NamedAfter.unique ha.issued hb.issued (ha.named path hpath) (hb.named path hmem))

theorem kept_openAt (pid : ℕ) (root : String) (files : Files) :
    Kept pid (.openAt root) files := by
  have hnone : ∀ id a, (MediaStore.openAt root).get id ≠ some a := fun id a h => by
    rw [openAt_get] at h
    cases h
  exact ⟨fun id a h => absurd h (hnone id a), fun id a h => absurd h (hnone id a),
    fun id a h => absurd h (hnone id a), fun n a h => absurd h (hnone _ a)⟩

namespace Kept

variable {pid : ℕ} {store store' : MediaStore} {files files' : Files}

/-- The identity at the counter is free. -/
theorem free (h : Kept pid store files) : store.get (mediaId pid store.nextId) = none := by
  cases hget : store.get (mediaId pid store.nextId) with
  | none => rfl
  | some a => exact absurd (h.counted _ a hget) (lt_irrefl _)

/-- Changes elsewhere leave the invariant alone. -/
theorem frame (h : Kept pid store files) {P : String → Prop} (hfiles : OnlyAt P files files')
    (hP : ∀ id a, store.get id = some a → ∀ path ∈ a.paths, ¬P path) : Kept pid store files' :=
  ⟨h.keyed, h.own, fun id a ha path hpath =>
    (hfiles path (hP id a ha path hpath)).mpr (h.present id a ha path hpath), h.counted⟩

/-- Registering an asset under a free identity of this store. -/
theorem insert (h : Kept pid store files) {a : MediaAsset} (hroot : store'.root = store.root)
    (hassets : store'.assets = store.assets.insert a.id a) (hown : OwnFiles store.root a)
    (hpresent : ∀ path ∈ a.paths, path ∈ files) (hnext : store.nextId ≤ store'.nextId)
    (hcounted : ∀ n, a.id = mediaId pid n → n < store'.nextId) : Kept pid store' files := by
  have hget := get_insert hassets
  refine ⟨fun id b hb => ?_, fun id b hb => ?_, fun id b hb => ?_, fun n b hb => ?_⟩
  · rw [hget] at hb
    split_ifs at hb with hid
    · obtain rfl := Option.some.inj hb
      exact hid
    · exact h.keyed id b hb
  · rw [hget] at hb
    rw [hroot]
    split_ifs at hb with hid
    · obtain rfl := Option.some.inj hb
      exact hown
    · exact h.own id b hb
  · rw [hget] at hb
    split_ifs at hb with hid
    · obtain rfl := Option.some.inj hb
      exact hpresent
    · exact h.present id b hb
  · rw [hget] at hb
    split_ifs at hb with hid
    · exact hcounted n hid
    · exact (h.counted n b hb).trans_le hnext

theorem counter (h : Kept pid store files) (hroot : store'.root = store.root)
    (hassets : store'.assets = store.assets) (hnext : store.nextId ≤ store'.nextId) :
    Kept pid store' files := by
  have hget := get_congr hassets
  refine ⟨fun id a ha => ?_, fun id a ha => ?_, fun id a ha => ?_, fun n a ha => ?_⟩
  · exact h.keyed id a (hget id ▸ ha)
  · rw [hroot]
    exact h.own id a (hget id ▸ ha)
  · exact h.present id a (hget id ▸ ha)
  · exact (h.counted n a (hget _ ▸ ha)).trans_le hnext

end Kept

/-! ## Saving -/

theorem save_nextId (imaging : Imaging) (pid : ℕ) (faults : FileFaults) (filename : String)
    (bytes : Bytes) (store : MediaStore) (files : Files) :
    let next := (MediaStore.save imaging pid faults filename bytes store files).2.1.nextId
    store.nextId ≤ next ∧ next ≤ store.nextId + 1 := by
  unfold MediaStore.save
  cases accepted imaging bytes with
  | error error => exact ⟨le_rfl, Nat.le_succ _⟩
  | ok format =>
      dsimp only
      split
      · exact ⟨Nat.le_succ _, le_rfl⟩
      · split
        · exact ⟨Nat.le_succ _, le_rfl⟩
        · exact ⟨Nat.le_succ _, le_rfl⟩

section

variable {pid : ℕ} {store : MediaStore} {files : Files}

theorem Kept.save (h : Kept pid store files) (imaging : Imaging) (faults : FileFaults)
    (filename : String) (bytes : Bytes) (hnext : store.nextId < 2 ^ 64) :
    let out := MediaStore.save imaging pid faults filename bytes store files
    Kept pid out.2.1 out.2.2 ∧ Registers store out.2.1 ∧
      ∀ asset, out.1 = .ok asset →
        store.get asset.id = none ∧ out.2.1.get asset.id = some asset := by
  intro out
  have hissued : Issued (mediaId pid store.nextId) := ⟨pid, store.nextId, hnext, rfl⟩
  -- the files of the new identity belong to no registered asset
  have hframe : Kept pid store out.2.2 := by
    refine h.frame (save_onlyAt imaging pid faults filename bytes store files) ?_
    intro id a ha path hpath hnamed
    have hid := NamedAfter.unique (h.own id a ha).issued hissued ((h.own id a ha).named path hpath)
      hnamed
    rw [h.keyed id a ha] at hid
    rw [hid, h.free] at ha
    cases ha
  have hcounter := (save_nextId imaging pid faults filename bytes store files).1
  rcases hout : MediaStore.save imaging pid faults filename bytes store files with
    ⟨result, store', files'⟩
  have hshape : out = ⟨result, store', files'⟩ := hout
  rw [hshape] at hframe ⊢
  rw [hout] at hcounter
  cases result with
  | error error =>
      obtain ⟨hroot, hassets⟩ := save_error hout
      refine ⟨hframe.counter hroot hassets hcounter, fun id a ha => ?_,
        fun asset hok => by cases hok⟩
      rw [get_congr hassets]
      exact ha
  | ok asset =>
      have hfiles := save_ok_files hout
      obtain ⟨hid, -, hstore⟩ := save_ok hout
      have hassets : store'.assets = store.assets.insert asset.id asset := by rw [hstore, hid]
      have hown : OwnFiles store.root asset :=
        ⟨hid ▸ hissued, fun path hpath => (hfiles path hpath).1⟩
      refine ⟨hframe.insert (by rw [hstore]) hassets hown (fun path hpath => (hfiles path hpath).2)
        hcounter fun n hn => ?_, fun id a ha => ?_, fun asset' hok => ?_⟩
      · rw [← (mediaId_inj (hid.symm.trans hn)).2, hstore]
        exact Nat.lt_succ_self _
      · rw [get_insert hassets, if_neg]
        · exact ha
        · rintro rfl
          rw [hid, h.free] at ha
          cases ha
      · obtain rfl := Except.ok.inj hok
        rw [get_insert hassets, if_pos rfl, hid]
        exact ⟨h.free, rfl⟩

/-! ## Removing -/

theorem remove_store (faults : FileFaults) (id : String) (store : MediaStore) (files : Files) :
    (MediaStore.remove faults id store files).1.root = store.root ∧
      (MediaStore.remove faults id store files).1.nextId = store.nextId ∧
      ∀ k, (MediaStore.remove faults id store files).1.get k =
        if id = k then none else store.get k := by
  unfold MediaStore.remove
  split
  · rename_i hnone
    refine ⟨rfl, rfl, fun k => ?_⟩
    split_ifs with hk
    · exact hk ▸ hnone
    · rfl
  · refine ⟨rfl, rfl, fun k => ?_⟩
    simp only [MediaStore.get, ExtTreeMap.getElem?_erase, LawfulEqOrd.compare_eq_iff_eq]

theorem Kept.remove (h : Kept pid store files) (faults : FileFaults) (id : String) :
    Kept pid (MediaStore.remove faults id store files).1
      (MediaStore.remove faults id store files).2 := by
  obtain ⟨hroot, hnext, hget⟩ := remove_store faults id store files
  have hfiles := remove_onlyAt faults id store files
  have hold : ∀ k a, (MediaStore.remove faults id store files).1.get k = some a →
      store.get k = some a ∧ id ≠ k := by
    intro k a ha
    rw [hget] at ha
    split_ifs at ha with hk
    exact ⟨ha, hk⟩
  refine ⟨fun k a ha => h.keyed k a (hold k a ha).1, fun k a ha => ?_, fun k a ha path hpath => ?_,
    fun n a ha => ?_⟩
  · rw [hroot]
    exact h.own k a (hold k a ha).1
  · obtain ⟨ha, hk⟩ := hold k a ha
    refine (hfiles path ?_).mpr (h.present k a ha path hpath)
    rintro ⟨b, hb, hmem⟩
    refine (h.own k a ha).other (h.own id b hb) ?_ hpath hmem
    rw [h.keyed k a ha, h.keyed id b hb]
    exact Ne.symm hk
  · rw [hnext]
    exact h.counted n a (hold _ a ha).1

/-! ## Restoring -/

theorem restoreOne_nextId (pid : ℕ) (store : MediaStore) (a : MediaAsset) :
    (store.restoreOne pid a).nextId =
      max store.nextId ((counterOf pid a.id).elim 0 (· + 1)) := by
  unfold MediaStore.restoreOne
  cases counterOf pid a.id with
  | none => exact (Nat.max_zero _).symm
  | some counter => rfl

theorem restoreOne_kept (h : Kept pid store files) {a : MediaAsset} (hown : OwnFiles store.root a)
    (hpresent : ∀ path ∈ a.paths, path ∈ files) : Kept pid (store.restoreOne pid a) files := by
  have hcounter := restoreOne_nextId pid store a
  have hnext : store.nextId ≤ (store.restoreOne pid a).nextId := by
    rw [hcounter]
    exact le_max_left _ _
  have hroot : (store.restoreOne pid a).root = store.root := rfl
  refine h.insert hroot rfl hown hpresent hnext fun n hn => ?_
  have hissued : Issued (mediaId pid n) := hn ▸ hown.issued
  rw [hcounter, hn, counterOf_mediaId pid hissued.lt]
  exact (Nat.lt_succ_self n).trans_le (le_max_right _ _)

theorem all_contains {files : Files} {a : MediaAsset} :
    (a.path :: a.modelPaths).all files.contains = true ↔ ∀ path ∈ a.paths, path ∈ files := by
  rw [List.all_eq_true]
  exact Iff.rfl

/-- A restore accepts exactly the lists whose files are all there. -/
theorem restore_ok_iff (pid : ℕ) (files : Files) (assets : List MediaAsset) (store : MediaStore) :
    (MediaStore.restore pid files store assets).1 = .ok () ↔
      ∀ a ∈ assets, ∀ path ∈ a.paths, path ∈ files := by
  induction assets generalizing store with
  | nil => exact iff_of_true rfl (fun a ha => absurd ha List.not_mem_nil)
  | cons a assets ih =>
      unfold MediaStore.restore
      split_ifs with hfiles
      · rw [ih, List.forall_mem_cons]
        exact ⟨fun h => ⟨all_contains.mp hfiles, h⟩, And.right⟩
      · refine iff_of_false (fun h => by cases h) fun h => hfiles ?_
        exact all_contains.mpr (h a List.mem_cons_self)

theorem restore_kept (h : Kept pid store files) {assets : List MediaAsset}
    (hok : (MediaStore.restore pid files store assets).1 = .ok ())
    (hown : ∀ a ∈ assets, OwnFiles store.root a) :
    Kept pid (MediaStore.restore pid files store assets).2 files := by
  induction assets generalizing store with
  | nil => exact h
  | cons a assets ih =>
      have hpresent := (restore_ok_iff pid files (a :: assets) store).mp hok a List.mem_cons_self
      have hall := all_contains.mpr hpresent
      unfold MediaStore.restore at hok ⊢
      rw [if_pos hall] at hok ⊢
      refine ih (restoreOne_kept h (hown a List.mem_cons_self) hpresent) hok fun b hb => ?_
      exact hown b (List.mem_cons_of_mem _ hb)

theorem restore_other {assets : List MediaAsset} {id : String}
    (hid : id ∉ assets.map MediaAsset.id) :
    (MediaStore.restore pid files store assets).2.get id = store.get id := by
  induction assets generalizing store with
  | nil => rfl
  | cons a assets ih =>
      obtain ⟨hne, hrest⟩ := not_or.mp (mt List.mem_cons.mpr hid)
      unfold MediaStore.restore
      split_ifs
      · have hassets : (store.restoreOne pid a).assets = store.assets.insert a.id a := rfl
        rw [ih hrest, get_insert hassets, if_neg (Ne.symm hne)]
      · rfl

/-- A restored asset is found under its identity, if no other one of the list has it. -/
theorem restore_mem {assets : List MediaAsset} (hnodup : (assets.map MediaAsset.id).Nodup)
    (hok : (MediaStore.restore pid files store assets).1 = .ok ()) {a : MediaAsset}
    (ha : a ∈ assets) : (MediaStore.restore pid files store assets).2.get a.id = some a := by
  induction assets generalizing store with
  | nil => cases ha
  | cons b assets ih =>
      obtain ⟨hfirst, hrest⟩ := List.nodup_cons.mp hnodup
      have hpresent := (restore_ok_iff pid files (b :: assets) store).mp hok b List.mem_cons_self
      have hall := all_contains.mpr hpresent
      unfold MediaStore.restore at hok ⊢
      rw [if_pos hall] at hok ⊢
      rcases List.mem_cons.mp ha with rfl | ha
      · have hassets : (store.restoreOne pid a).assets = store.assets.insert a.id a := rfl
        rw [restore_other hfirst, get_insert hassets, if_pos rfl]
      · exact ih hrest hok ha

end

/-! ## The two stores -/

/-- What an operation leaves of its own store, of the files and of what was registered. -/
structure KeepsStore (pid : ℕ) (store : MediaStore) (files : Files) (op : MediaOp)
    (out : Option (Except String MediaAsset) × MediaStore × Files) : Prop where
  kept : Kept pid out.2.1 out.2.2
  root : out.2.1.root = store.root
  files : OnlyAt (fun path => ∃ leaf, path = join store.root leaf) files out.2.2
  registered : ∀ id a, store.get id = some a →
    (∀ incognito faults, op ≠ .remove incognito faults id) → out.2.1.get id = some a
  returned : ∀ asset, out.1 = some (.ok asset) →
    store.get asset.id = none ∧ out.2.1.get asset.id = some asset

/-- The counter of the store has an identity left for the operation. -/
def MediaOp.Counted (store : MediaStore) : MediaOp → Prop
  | .remove _ _ _ => True
  | _ => store.nextId < 2 ^ 64

theorem NamedAfter.inside {root id path : String} (h : NamedAfter root id path) :
    ∃ leaf, path = join root leaf := by
  obtain ⟨c, rest, -, hpath⟩ := h
  exact ⟨_, hpath⟩

section

variable {imaging : Imaging} {pid : ℕ} {store : MediaStore} {files : Files}

theorem save_root (imaging : Imaging) (pid : ℕ) (faults : FileFaults) (filename : String)
    (bytes : Bytes) (store : MediaStore) (files : Files) :
    (MediaStore.save imaging pid faults filename bytes store files).2.1.root = store.root := by
  have hchange := save_change imaging pid faults filename bytes store files
  exact hchange.get.1

theorem save_inside (imaging : Imaging) (pid : ℕ) (faults : FileFaults) (filename : String)
    (bytes : Bytes) (store : MediaStore) (files : Files) :
    OnlyAt (fun path => ∃ leaf, path = join store.root leaf) files
      (MediaStore.save imaging pid faults filename bytes store files).2.2 :=
  (save_onlyAt imaging pid faults filename bytes store files).mono fun _ h => h.inside

theorem upload_keepsStore (h : Kept pid store files) (incognito : Bool) (faults : FileFaults)
    (filename : String) (bytes : Bytes) (hnext : store.nextId < 2 ^ 64) (op : MediaOp) :
    KeepsStore pid store files op
      ((MediaOp.upload incognito faults filename bytes).run imaging pid store files) := by
  obtain ⟨hkept, hregisters, hreturned⟩ := h.save imaging faults filename bytes hnext
  refine ⟨hkept, save_root imaging pid faults filename bytes store files,
    save_inside imaging pid faults filename bytes store files,
    fun id a ha _ => hregisters id a ha, fun asset hok => hreturned asset (Option.some.inj hok)⟩

theorem MediaOp.keepsStore (h : Kept pid store files) (op : MediaOp) (hcounted : op.Counted store) :
    KeepsStore pid store files op (op.run imaging pid store files) := by
  cases op with
  | upload incognito faults filename bytes =>
      exact upload_keepsStore h incognito faults filename bytes hcounted _
  | publish incognito faults filename mimeType encoded =>
      rcases publish_cases imaging pid incognito faults filename mimeType encoded store files with
        ⟨error, hrun⟩ | ⟨bytes, hrun⟩
      · rw [hrun]
        exact ⟨h, rfl, .refl _ files, fun id a ha _ => ha, fun asset hok => by cases hok⟩
      · rw [hrun]
        exact upload_keepsStore h incognito faults filename bytes hcounted _
  | remove incognito faults id =>
      obtain ⟨hroot, -, hget⟩ := remove_store faults id store files
      refine ⟨h.remove faults id, hroot, ?_, fun k a ha hother => ?_, fun asset hok => by cases hok⟩
      · refine (remove_onlyAt faults id store files).mono fun path hpath => ?_
        obtain ⟨a, ha, hmem⟩ := hpath
        exact ((h.own id a ha).named path hmem).inside
      · have hk : id ≠ k := fun he => hother incognito faults (by rw [he])
        show (MediaStore.remove faults id store files).1.get k = some a
        rw [hget, if_neg hk]
        exact ha

end

/-- Both stores over their files. -/
structure KeptStores (pid : ℕ) (app : AppMedia) : Prop where
  apart : Apart app.media.root app.privateMedia.root
  ordinary : Kept pid app.media app.files
  incognito : Kept pid app.privateMedia app.files

/-- Files of the other directory belong to no asset of this one. -/
theorem Kept.elsewhere {pid : ℕ} {store : MediaStore} {files files' : Files} {root : String}
    (h : Kept pid store files) (hapart : ∀ leaf leaf', join store.root leaf ≠ join root leaf')
    (hfiles : OnlyAt (fun path => ∃ leaf, path = join root leaf) files files') :
    Kept pid store files' := by
  refine h.frame hfiles fun id a ha path hpath hinside => ?_
  obtain ⟨leaf, hleaf⟩ := ((h.own id a ha).named path hpath).inside
  obtain ⟨leaf', hleaf'⟩ := hinside
  exact hapart leaf leaf' (hleaf.symm.trans hleaf')

section

variable {imaging : Imaging} {pid : ℕ} {app app' : AppMedia} {op : MediaOp}

theorem MediaStep.keptStores (hstep : MediaStep imaging pid app op app') (h : KeptStores pid app)
    (hcounted : op.Counted (app.storeOf op.incognito)) : KeptStores pid app' := by
  cases hi : op.incognito with
  | false =>
      rw [hi] at hcounted
      have hkeeps : KeepsStore pid app.media app.files op
          (op.run imaging pid app.media app.files) := op.keepsStore h.ordinary hcounted
      have happ : app' = ⟨(op.run imaging pid app.media app.files).2.1, app.privateMedia,
          (op.run imaging pid app.media app.files).2.2⟩ := by
        rw [hstep, hi]
        rfl
      rw [happ]
      refine ⟨?_, hkeeps.kept, ?_⟩
      · rw [hkeeps.root]
        exact h.apart
      · exact h.incognito.elsewhere (fun leaf leaf' => (h.apart leaf' leaf).symm) hkeeps.files
  | true =>
      rw [hi] at hcounted
      have hkeeps : KeepsStore pid app.privateMedia app.files op
          (op.run imaging pid app.privateMedia app.files) := op.keepsStore h.incognito hcounted
      have happ : app' = ⟨app.media, (op.run imaging pid app.privateMedia app.files).2.1,
          (op.run imaging pid app.privateMedia app.files).2.2⟩ := by
        rw [hstep, hi]
        rfl
      rw [happ]
      refine ⟨?_, ?_, hkeeps.kept⟩
      · rw [hkeeps.root]
        exact h.apart
      · exact h.ordinary.elsewhere h.apart hkeeps.files

theorem MediaStep.ordinary_root (hstep : MediaStep imaging pid app op app') :
    app'.media.root = app.media.root := by
  obtain ⟨result, hchange, -, hother⟩ := hstep.change
  cases hi : op.incognito with
  | false =>
      rw [hi] at hchange
      exact hchange.get.1
  | true =>
      rw [hi] at hother
      exact congrArg MediaStore.root hother

/-- Nothing but its own removal ends the registration of an ordinary asset. -/
theorem MediaStep.registered (hstep : MediaStep imaging pid app op app') (h : KeptStores pid app)
    (hcounted : op.Counted (app.storeOf op.incognito)) {id : String} {a : MediaAsset}
    (ha : app.media.get id = some a) (hother : ∀ faults, op ≠ .remove false faults id) :
    app'.media.get id = some a := by
  cases hi : op.incognito with
  | false =>
      rw [hi] at hcounted
      have hkeeps : KeepsStore pid app.media app.files op
          (op.run imaging pid app.media app.files) := op.keepsStore h.ordinary hcounted
      have hmedia : app'.media = (op.run imaging pid app.media app.files).2.1 := by
        rw [hstep, hi]
        rfl
      rw [hmedia]
      refine hkeeps.registered id a ha ?_
      rintro incognito faults rfl
      obtain rfl : incognito = false := hi
      exact hother faults rfl
  | true =>
      have hmedia : app'.media = app.media := by
        rw [hstep, hi]
        rfl
      rw [hmedia]
      exact ha

/-- An image that an operation stores is registered on its side, where its identity
was free. -/
theorem MediaStep.returned (hstep : MediaStep imaging pid app op app') (h : KeptStores pid app)
    (hcounted : op.Counted (app.storeOf op.incognito)) {asset : MediaAsset}
    (hok : (op.run imaging pid (app.storeOf op.incognito) app.files).1 = some (.ok asset)) :
    (app.storeOf op.incognito).get asset.id = none ∧
      (app'.storeOf op.incognito).get asset.id = some asset := by
  have hkept : Kept pid (app.storeOf op.incognito) app.files := by
    cases op.incognito with
    | false => exact h.ordinary
    | true => exact h.incognito
  have hstore : app'.storeOf op.incognito =
      (op.run imaging pid (app.storeOf op.incognito) app.files).2.1 := by
    rw [hstep]
    cases op.incognito with
    | false => rfl
    | true => rfl
  rw [hstore]
  exact (op.keepsStore hkept hcounted).returned asset hok

end

end NormaHarness.Media
