import NormaHarness.Media
import NormaHarness.Executions

/-!
# Addresses of attachments

The web server keeps ordinary and incognito images in two stores that count
independently, and it resolves an address in the ordinary store first. An address
is unambiguous exactly as long as the two stores register no common identity, and
a save keeps them apart exactly when the identity it is about to draw is not
registered on the other side.
-/
namespace NormaHarness.Media
open Std

/-- The two stores that the web server wires up, over one file system. -/
structure AppMedia where
  media : MediaStore
  privateMedia : MediaStore
  files : Files

/-- The lookup behind `/api/media/{id}`. -/
def AppMedia.resolve (app : AppMedia) (id : String) : Option MediaAsset :=
  match app.media.get id with
  | some asset => some asset
  | none => app.privateMedia.get id

def AppMedia.storeOf (app : AppMedia) (incognito : Bool) : MediaStore :=
  if incognito then app.privateMedia else app.media

def AppMedia.withStore (app : AppMedia) (incognito : Bool) (store : MediaStore) (files : Files) :
    AppMedia :=
  if incognito then {app with privateMedia := store, files := files}
  else {app with media := store, files := files}

/-- An upload into a room, a publication by a model, or the removal of an asset of
a refused upload. -/
inductive MediaOp where
  | upload (incognito : Bool) (faults : FileFaults) (filename : String) (bytes : Bytes)
  | publish (incognito : Bool) (faults : FileFaults) (filename mimeType encoded : String)
  | remove (incognito : Bool) (faults : FileFaults) (id : String)

def MediaOp.incognito : MediaOp → Bool
  | .upload incognito _ _ _ => incognito
  | .publish incognito _ _ _ _ => incognito
  | .remove incognito _ _ => incognito

section

variable (imaging : Imaging) (pid : ℕ)

/-- The store after an operation on it, and the asset it returned when it was a save. -/
def MediaOp.run (store : MediaStore) (files : Files) :
    MediaOp → Option (Except String MediaAsset) × MediaStore × Files
  | .upload _ faults filename bytes =>
      let (result, store, files) := MediaStore.save imaging pid faults filename bytes store files
      (some result, store, files)
  | .publish _ faults filename mimeType encoded =>
      let (result, store, files) :=
        MediaStore.saveBase64 imaging pid faults filename mimeType encoded store files
      (some result, store, files)
  | .remove _ faults id => (none, MediaStore.remove faults id store files)

def MediaStep (app : AppMedia) (op : MediaOp) (app' : AppMedia) : Prop :=
  let out := op.run imaging pid (app.storeOf op.incognito) app.files
  app' = app.withStore op.incognito out.2.1 out.2.2

/-- The operation stores an image. -/
def Stores (app : AppMedia) (op : MediaOp) : Prop :=
  ∃ asset, (op.run imaging pid (app.storeOf op.incognito) app.files).1 = some (.ok asset)

/-- If the operation stores an image, the identity at the counter of its store is not
registered in the other store. -/
def Clear (app : AppMedia) (op : MediaOp) : Prop :=
  Stores imaging pid app op →
    (app.storeOf !op.incognito).get (mediaId pid (app.storeOf op.incognito).nextId) = none

/-- Every registered asset is what its own address resolves to. -/
def Unambiguous (app : AppMedia) : Prop :=
  ∀ incognito id (asset : MediaAsset), (app.storeOf incognito).get id = some asset →
    app.resolve asset.id = some asset

/-- The stores as the server opens them: assets of a snapshot may have been restored
into the ordinary one. -/
def wired (root privateRoot : String) (files : Files) (restored : List MediaAsset) : AppMedia :=
  ⟨(MediaStore.restore pid files (.openAt root) restored).2, .openAt privateRoot, files⟩

end

/-! ## What an operation does to its store -/

theorem save_ok {imaging : Imaging} {pid : ℕ} {faults : FileFaults} {filename : String}
    {bytes : Bytes} {store store' : MediaStore} {files files' : Files} {asset : MediaAsset}
    (h : MediaStore.save imaging pid faults filename bytes store files =
      (.ok asset, store', files')) :
    asset.id = mediaId pid store.nextId ∧ (∃ leaf, asset.path = join store.root leaf) ∧
      store' = {store with
        nextId := store.nextId + 1
        assets := store.assets.insert (mediaId pid store.nextId) asset} := by
  unfold MediaStore.save at h
  cases hformat : accepted imaging bytes with
  | error error => simp [hformat] at h
  | ok format =>
      simp only [hformat] at h
      split at h
      · simp at h
      · split at h
        · simp at h
        · simp only [Prod.mk.injEq, Except.ok.injEq] at h
          obtain ⟨rfl, rfl, _⟩ := h
          exact ⟨rfl, ⟨_, rfl⟩, rfl⟩

theorem save_error {imaging : Imaging} {pid : ℕ} {faults : FileFaults} {filename error : String}
    {bytes : Bytes} {store store' : MediaStore} {files files' : Files}
    (h : MediaStore.save imaging pid faults filename bytes store files =
      (.error error, store', files')) :
    store'.root = store.root ∧ store'.assets = store.assets := by
  unfold MediaStore.save at h
  cases hformat : accepted imaging bytes with
  | error error =>
      simp only [hformat, Prod.mk.injEq] at h
      obtain ⟨_, rfl, _⟩ := h
      exact ⟨rfl, rfl⟩
  | ok format =>
      simp only [hformat] at h
      split at h
      · simp only [Prod.mk.injEq] at h
        obtain ⟨_, rfl, _⟩ := h
        exact ⟨rfl, rfl⟩
      · split at h
        · simp only [Prod.mk.injEq] at h
          obtain ⟨_, rfl, _⟩ := h
          exact ⟨rfl, rfl⟩
        · simp at h

/-- A publication either saves its decoded bytes or leaves the store alone. -/
theorem saveBase64_cases (imaging : Imaging) (pid : ℕ) (faults : FileFaults)
    (filename mimeType encoded : String) (store : MediaStore) (files : Files) :
    (∃ error, MediaStore.saveBase64 imaging pid faults filename mimeType encoded store files =
      (.error error, store, files)) ∨
    ∃ bytes, MediaStore.saveBase64 imaging pid faults filename mimeType encoded store files =
      MediaStore.save imaging pid faults filename bytes store files := by
  unfold MediaStore.saveBase64
  split_ifs
  · exact .inl ⟨_, rfl⟩
  · split
    · exact .inl ⟨_, rfl⟩
    · rename_i bytes _
      split
      · exact .inl ⟨_, rfl⟩
      · split_ifs
        · exact .inl ⟨_, rfl⟩
        · exact .inr ⟨bytes, rfl⟩

/-- A publication is refused, or runs as the upload of its decoded bytes. -/
theorem publish_cases (imaging : Imaging) (pid : ℕ) (incognito : Bool) (faults : FileFaults)
    (filename mimeType encoded : String) (store : MediaStore) (files : Files) :
    (∃ error, (MediaOp.publish incognito faults filename mimeType encoded).run imaging pid store
      files = (some (.error error), store, files)) ∨
    ∃ bytes, (MediaOp.publish incognito faults filename mimeType encoded).run imaging pid store
      files = (MediaOp.upload incognito faults filename bytes).run imaging pid store files := by
  rcases saveBase64_cases imaging pid faults filename mimeType encoded store files with
    ⟨error, hout⟩ | ⟨bytes, hout⟩
  · exact .inl ⟨error, by simp only [MediaOp.run, hout]⟩
  · exact .inr ⟨bytes, by simp only [MediaOp.run, hout]⟩

/-- The three things an operation can do to the registered assets of its store. -/
inductive StoreChange (pid : ℕ) (store : MediaStore) :
    Option (Except String MediaAsset) → MediaStore → Prop
  | stored (asset : MediaAsset) (store' : MediaStore) :
      asset.id = mediaId pid store.nextId → (∃ leaf, asset.path = join store.root leaf) →
      store'.root = store.root →
      store'.assets = store.assets.insert (mediaId pid store.nextId) asset →
      StoreChange pid store (some (.ok asset)) store'
  | refused (error : String) (store' : MediaStore) : store'.root = store.root →
      store'.assets = store.assets → StoreChange pid store (some (.error error)) store'
  | removed (store' : MediaStore) : store'.root = store.root →
      (∀ id asset, store'.get id = some asset → store.get id = some asset) →
      StoreChange pid store none store'

theorem save_change (imaging : Imaging) (pid : ℕ) (faults : FileFaults) (filename : String)
    (bytes : Bytes) (store : MediaStore) (files : Files) :
    StoreChange pid store (some (MediaStore.save imaging pid faults filename bytes store files).1)
      (MediaStore.save imaging pid faults filename bytes store files).2.1 := by
  rcases hout : MediaStore.save imaging pid faults filename bytes store files with
    ⟨result, store', files'⟩
  cases result with
  | error error =>
      obtain ⟨hroot, hassets⟩ := save_error hout
      exact .refused error store' hroot hassets
  | ok asset =>
      obtain ⟨hid, hpath, rfl⟩ := save_ok hout
      exact .stored asset _ hid hpath rfl rfl

theorem remove_change (pid : ℕ) (faults : FileFaults) (id : String) (store : MediaStore)
    (files : Files) : StoreChange pid store none (MediaStore.remove faults id store files).1 := by
  unfold MediaStore.remove
  split
  · exact .removed _ rfl fun _ _ h => h
  · refine .removed _ rfl fun k asset h => ?_
    simp only [MediaStore.get, ExtTreeMap.getElem?_erase] at h
    split_ifs at h
    exact h

theorem run_change (imaging : Imaging) (pid : ℕ) (store : MediaStore) (files : Files)
    (op : MediaOp) : StoreChange pid store (op.run imaging pid store files).1
      (op.run imaging pid store files).2.1 := by
  cases op with
  | upload incognito faults filename bytes =>
      exact save_change imaging pid faults filename bytes store files
  | publish incognito faults filename mimeType encoded =>
      rcases publish_cases imaging pid incognito faults filename mimeType encoded store files with
        ⟨error, hrun⟩ | ⟨bytes, hrun⟩
      · rw [hrun]
        exact .refused error store rfl rfl
      · rw [hrun]
        exact save_change imaging pid faults filename bytes store files
  | remove incognito faults id => exact remove_change pid faults id store files

/-! ## Two stores over disjoint directories -/

/-- Neither directory contains a file of the other. -/
def Apart (root privateRoot : String) : Prop :=
  ∀ leaf leaf', join root leaf ≠ join privateRoot leaf'

structure Wired (app : AppMedia) : Prop where
  apart : Apart app.media.root app.privateMedia.root
  ordinaryPath : ∀ id (asset : MediaAsset), app.media.get id = some asset →
    ∀ leaf, asset.path ≠ join app.privateMedia.root leaf
  privatePath : ∀ id (asset : MediaAsset), app.privateMedia.get id = some asset →
    ∃ leaf, asset.path = join app.privateMedia.root leaf

/-- Assets are registered under their own identities. -/
def Keyed (app : AppMedia) : Prop :=
  ∀ incognito id (asset : MediaAsset), (app.storeOf incognito).get id = some asset → asset.id = id

/-- No identity is registered on both sides. -/
def Separate (app : AppMedia) : Prop :=
  ∀ id, app.media.get id = none ∨ app.privateMedia.get id = none

theorem Wired.ne {app : AppMedia} (h : Wired app) {id id' : String} {a b : MediaAsset}
    (ha : app.media.get id = some a) (hb : app.privateMedia.get id' = some b) : a ≠ b := by
  rintro rfl
  obtain ⟨leaf, hpath⟩ := h.privatePath id' a hb
  exact h.ordinaryPath id a ha leaf hpath

theorem Separate.unambiguous {app : AppMedia} (hs : Separate app) (hk : Keyed app) :
    Unambiguous app := by
  intro incognito id asset hasset
  rw [hk incognito id asset hasset, AppMedia.resolve]
  cases incognito with
  | false =>
      have hmedia : app.media.get id = some asset := hasset
      rw [hmedia]
  | true =>
      have hprivate : app.privateMedia.get id = some asset := hasset
      rcases hs id with hnone | hnone
      · rw [hnone]
        exact hprivate
      · rw [hprivate] at hnone
        cases hnone

theorem Unambiguous.separate {app : AppMedia} (hu : Unambiguous app) (hk : Keyed app)
    (hw : Wired app) : Separate app := by
  intro id
  cases ha : app.media.get id with
  | none => exact .inl rfl
  | some a =>
      cases hb : app.privateMedia.get id with
      | none => exact .inr rfl
      | some b =>
          have hres := hu true id b hb
          rw [hk true id b hb, AppMedia.resolve, ha] at hres
          exact absurd (Option.some.inj hres) (hw.ne ha hb)

theorem get_insert {store store' : MediaStore} {id : String} {asset : MediaAsset}
    (h : store'.assets = store.assets.insert id asset) (k : String) :
    store'.get k = if id = k then some asset else store.get k := by
  simp only [MediaStore.get, h, ExtTreeMap.getElem?_insert, LawfulEqOrd.compare_eq_iff_eq]

theorem get_congr {store store' : MediaStore} (h : store'.assets = store.assets) (k : String) :
    store'.get k = store.get k := by
  simp only [MediaStore.get, h]

section

variable {imaging : Imaging} {pid : ℕ}

/-- One operation in terms of the assets it leaves registered on its own side. -/
theorem MediaStep.change {app app' : AppMedia} {op : MediaOp}
    (h : MediaStep imaging pid app op app') :
    ∃ result, StoreChange pid (app.storeOf op.incognito) result (app'.storeOf op.incognito) ∧
      (Stores imaging pid app op ↔ ∃ asset, result = some (.ok asset)) ∧
      app'.storeOf (!op.incognito) = app.storeOf (!op.incognito) := by
  have hchange := run_change imaging pid (app.storeOf op.incognito) app.files op
  refine ⟨_, ?_, Iff.rfl, ?_⟩
  · rw [h]
    cases hi : op.incognito with
    | false =>
        rw [hi] at hchange
        exact hchange
    | true =>
        rw [hi] at hchange
        exact hchange
  · rw [h]
    cases op.incognito with
    | false => rfl
    | true => rfl

/-- An asset that is registered on its own side after an operation was there before,
or has just been stored under its identity in the directory of that side. -/
theorem StoreChange.get {store store' : MediaStore} {result : Option (Except String MediaAsset)}
    (h : StoreChange pid store result store') : store'.root = store.root ∧
      ∀ id asset, store'.get id = some asset → store.get id = some asset ∨
        asset.id = id ∧ ∃ leaf, asset.path = join store.root leaf := by
  cases h with
  | stored asset _ hid hpath hroot hassets =>
      refine ⟨hroot, fun id a ha => ?_⟩
      rw [get_insert hassets] at ha
      split_ifs at ha with hk
      · obtain rfl := Option.some.inj ha
        exact .inr ⟨hid.trans hk, hpath⟩
      · exact .inl ha
  | refused _ _ hroot hassets =>
      exact ⟨hroot, fun id a ha => .inl (get_congr hassets id ▸ ha)⟩
  | removed _ hroot hsub => exact ⟨hroot, fun id a ha => .inl (hsub id a ha)⟩

theorem MediaStep.keyed {app app' : AppMedia} {op : MediaOp}
    (h : MediaStep imaging pid app op app') (hk : Keyed app) : Keyed app' := by
  obtain ⟨result, hchange, -, hother⟩ := h.change
  intro incognito id asset hasset
  by_cases hi : incognito = op.incognito
  · rw [hi] at hasset
    rcases hchange.get.2 id asset hasset with hold | ⟨hid, _⟩
    · exact hk op.incognito id asset hold
    · exact hid
  · have hi : incognito = !op.incognito := Bool.eq_not.mpr hi
    rw [hi, hother] at hasset
    exact hk (!op.incognito) id asset hasset

theorem MediaStep.wired {app app' : AppMedia} {op : MediaOp}
    (h : MediaStep imaging pid app op app') (hw : Wired app) : Wired app' := by
  obtain ⟨result, hchange, -, hother⟩ := h.change
  obtain ⟨hroot, hget⟩ := hchange.get
  cases hi : op.incognito with
  | false =>
      rw [hi] at hroot hget hother
      have hprivate : app'.privateMedia = app.privateMedia := hother
      have hmroot : app'.media.root = app.media.root := hroot
      refine ⟨?_, ?_, ?_⟩
      · rw [hmroot, hprivate]
        exact hw.apart
      · intro id asset hasset leaf
        rw [hprivate]
        rcases hget id asset hasset with hold | ⟨_, own, hpath⟩
        · exact hw.ordinaryPath id asset hold leaf
        · rw [hpath]
          exact hw.apart own leaf
      · rw [hprivate]
        exact hw.privatePath
  | true =>
      rw [hi] at hroot hget hother
      have hmedia : app'.media = app.media := hother
      have hproot : app'.privateMedia.root = app.privateMedia.root := hroot
      refine ⟨?_, ?_, ?_⟩
      · rw [hproot, hmedia]
        exact hw.apart
      · rw [hproot, hmedia]
        exact hw.ordinaryPath
      · intro id asset hasset
        rw [hproot]
        rcases hget id asset hasset with hold | ⟨_, hpath⟩
        · exact hw.privatePath id asset hold
        · exact hpath

/-- From separate stores, an operation keeps them separate exactly when it is clear. -/
theorem MediaStep.separate_iff {app app' : AppMedia} {op : MediaOp}
    (h : MediaStep imaging pid app op app') (hs : Separate app) :
    Separate app' ↔ Clear imaging pid app op := by
  obtain ⟨result, hchange, hstores, hother⟩ := h.change
  have sides : ∀ app : AppMedia, Separate app ↔ ∀ id,
      (app.storeOf op.incognito).get id = none ∨ (app.storeOf !op.incognito).get id = none := by
    intro app
    cases op.incognito with
    | false => exact Iff.rfl
    | true => exact forall_congr' fun id => or_comm
  rw [sides] at hs ⊢
  rw [hother]
  unfold Clear
  rw [hstores]
  generalize app'.storeOf op.incognito = own' at hchange ⊢
  cases hchange with
  | stored asset _ _ _ _ hassets =>
      constructor
      · intro hs' _
        have hown := hs' (mediaId pid (app.storeOf op.incognito).nextId)
        rw [get_insert hassets, if_pos rfl] at hown
        exact hown.resolve_left (Option.some_ne_none _)
      · intro hclear id
        rw [get_insert hassets]
        split_ifs with hk
        · rw [← hk]
          exact .inr (hclear ⟨asset, rfl⟩)
        · exact hs id
  | refused error _ _ hassets =>
      refine iff_of_true (fun id => ?_) fun ⟨asset, ha⟩ => by cases ha
      rw [get_congr hassets]
      exact hs id
  | removed _ _ hsub =>
      refine iff_of_true (fun id => ?_) fun ⟨asset, ha⟩ => by cases ha
      cases hown : own'.get id with
      | none => exact .inl rfl
      | some a =>
          refine .inr ((hs id).resolve_left fun hnone => ?_)
          rw [hsub id a hown] at hnone
          cases hnone

end

/-! ## The server's run -/

theorem restore_get (pid : ℕ) (files : Files) (restored : List MediaAsset) (store : MediaStore) :
    (MediaStore.restore pid files store restored).2.root = store.root ∧
      ∀ id asset, (MediaStore.restore pid files store restored).2.get id = some asset →
        store.get id = some asset ∨ asset ∈ restored ∧ asset.id = id := by
  induction restored generalizing store with
  | nil => exact ⟨rfl, fun id asset h => .inl h⟩
  | cons a rest ih =>
      unfold MediaStore.restore
      split_ifs
      · obtain ⟨hroot, hget⟩ := ih (store.restoreOne pid a)
        refine ⟨hroot, fun id asset h => ?_⟩
        rcases hget id asset h with hold | ⟨hmem, hid⟩
        · have hassets : (store.restoreOne pid a).assets = store.assets.insert a.id a := rfl
          rw [get_insert hassets] at hold
          split_ifs at hold with hk
          · obtain rfl := Option.some.inj hold
            exact .inr ⟨List.mem_cons_self, hk⟩
          · exact .inl hold
        · exact .inr ⟨List.mem_cons_of_mem _ hmem, hid⟩
      · exact ⟨rfl, fun id asset h => .inl h⟩

theorem openAt_get (root id : String) : (MediaStore.openAt root).get id = none := by
  simp [MediaStore.openAt, MediaStore.get]

section

variable {imaging : Imaging} {pid : ℕ} {root privateRoot : String} {files : Files}
  {restored : List MediaAsset}

theorem wired_keyed : Keyed (wired pid root privateRoot files restored) := by
  intro incognito id asset h
  cases incognito with
  | false =>
      rcases (restore_get pid files restored (.openAt root)).2 id asset h with hold | ⟨_, hid⟩
      · rw [openAt_get] at hold
        cases hold
      · exact hid
  | true =>
      have hnone := openAt_get privateRoot id
      rw [show (MediaStore.openAt privateRoot).get id = some asset from h] at hnone
      cases hnone

theorem wired_separate : Separate (wired pid root privateRoot files restored) :=
  fun id => .inr (openAt_get privateRoot id)

theorem wired_wired (hapart : Apart root privateRoot)
    (hrestored : ∀ a ∈ restored, ∀ leaf, a.path ≠ join privateRoot leaf) :
    Wired (wired pid root privateRoot files restored) := by
  obtain ⟨hroot, hget⟩ := restore_get pid files restored (.openAt root)
  refine ⟨?_, fun id asset h leaf => ?_, fun id asset h => ?_⟩
  · unfold wired
    rw [hroot]
    exact hapart
  · rcases hget id asset h with hold | ⟨hmem, _⟩
    · rw [openAt_get] at hold
      cases hold
    · exact hrestored asset hmem leaf
  · rw [show (wired pid root privateRoot files restored).privateMedia.get id = none from
      openAt_get privateRoot id] at h
    cases h

/-- Every address resolves to its asset in all states of a run whose operations are
clear. With the two directories apart no other run has that property. -/
theorem media_urls_unambiguous_iff_clear (ops : List MediaOp) :
    let start := wired pid root privateRoot files restored
    let unambiguous := ∀ past future mid, ops = past ++ future →
      Executions.Run (MediaStep imaging pid) start past mid → Unambiguous mid
    let clear := ∀ past op future mid, ops = past ++ op :: future →
      Executions.Run (MediaStep imaging pid) start past mid → Clear imaging pid mid op
    (clear → unambiguous) ∧
      (Apart root privateRoot → (∀ a ∈ restored, ∀ leaf, a.path ≠ join privateRoot leaf) →
        unambiguous → clear) := by
  intro start unambiguous clear
  have keyed : ∀ {past mid}, Executions.Run (MediaStep imaging pid) start past mid → Keyed mid :=
    fun h => h.invariant (fun _ _ _ hk step => step.keyed hk) wired_keyed
  refine ⟨fun hclear past => ?_, fun hapart hrestored hu past op future mid hops hpast => ?_⟩
  · -- the stores stay separate along every cut of the run
    have separate : ∀ past future mid, ops = past ++ future →
        Executions.Run (MediaStep imaging pid) start past mid → Separate mid := by
      intro past
      induction past using List.reverseRecOn with
      | nil =>
          intro future mid _ h
          cases h
          exact wired_separate
      | append_singleton past op ih =>
          intro future mid hops h
          obtain ⟨before, hbefore, hstep⟩ := h.split
          cases hstep with
          | cons hstep hend =>
              cases hend
              rw [List.append_assoc] at hops
              exact (hstep.separate_iff (ih _ _ hops hbefore)).mpr
                (hclear past op future before hops hbefore)
    intro future mid hops h
    exact (separate past future mid hops h).unambiguous (keyed h)
  · have hwired : ∀ {past mid}, Executions.Run (MediaStep imaging pid) start past mid →
        Wired mid := fun h => h.invariant (fun _ _ _ hw step => step.wired hw)
      (wired_wired hapart hrestored)
    have hstep : MediaStep imaging pid mid op
        (mid.withStore op.incognito (op.run imaging pid (mid.storeOf op.incognito) mid.files).2.1
          (op.run imaging pid (mid.storeOf op.incognito) mid.files).2.2) := rfl
    have hafter := hpast.snoc hstep
    have hs := (hu past _ mid hops hpast).separate (keyed hpast) (hwired hpast)
    have hs' := (hu (past ++ [op]) future _ (by rw [hops, List.append_assoc]; rfl) hafter).separate
      (keyed hafter) (hwired hafter)
    exact (hstep.separate_iff hs).mp hs'

end

def tinyPng : Bytes := pngMagic ++ [0]

/-- Two-by-two images that decode to themselves. -/
def smallImages : Imaging := ⟨fun _ => none, fun _ _ => .ok (2, 2), .ok⟩

def serverMedia : AppMedia := wired 7 "/data/media" "/tmp/norma-media-7" ∅ []

def fullDisk : FileFaults := ⟨fun _ => some ⟨"no space left on device", none⟩, fun _ => false⟩

/-- The first ordinary upload cannot be written, so the second one and the incognito upload
have different identities. -/
theorem media_urls_unambiguous_both :
    ∃ app, Executions.Run (MediaStep smallImages 7) serverMedia
      [.upload false fullDisk "cat.png" tinyPng, .upload false .none "cat.png" tinyPng,
        .upload true .none "dog.png" tinyPng] app ∧
      (app.resolve "7-2").map MediaAsset.name = some "cat.png" ∧
      (app.resolve "7-1").map MediaAsset.name = some "dog.png" ∧ Unambiguous app := by
  have hrun : Executions.Run (MediaStep smallImages 7) serverMedia
      [.upload false fullDisk "cat.png" tinyPng, .upload false .none "cat.png" tinyPng,
        .upload true .none "dog.png" tinyPng] _ := .cons rfl (.cons rfl (.cons rfl (.nil _)))
  refine ⟨_, hrun, by decide, by decide, ?_⟩
  refine (media_urls_unambiguous_iff_clear _).1 ?_ _ [] _ rfl hrun
  have hfun : ∀ app op app' app'', MediaStep smallImages 7 app op app' →
      MediaStep smallImages 7 app op app'' → app' = app'' :=
    fun _ _ _ _ h h' => h.trans h'.symm
  exact Executions.Run.along_cons hfun rfl (fun _ => rfl)
    (Executions.Run.along_cons hfun rfl (fun _ => rfl)
      (Executions.Run.along_cons hfun rfl (fun _ => rfl) Executions.Run.along_nil))

/-- The first upload into each store: both assets are registered under the same
identity, and the address of the incognito image shows the ordinary one. -/
theorem media_urls_clash :
    ∃ app, Executions.Run (MediaStep smallImages 7) serverMedia
      [.upload false .none "cat.png" tinyPng, .upload true .none "dog.png" tinyPng] app ∧
      app.privateMedia.get "7-1" = some ⟨"7-1", "dog.png", "image/png",
        "/tmp/norma-media-7/7-1.png", ["/tmp/norma-media-7/7-1.png"]⟩ ∧
      app.resolve "7-1" = some ⟨"7-1", "cat.png", "image/png",
        "/data/media/7-1.png", ["/data/media/7-1.png"]⟩ ∧
      ¬Unambiguous app := by
  refine ⟨_, .cons rfl (.cons rfl (.nil _)), by decide, by decide, fun h => ?_⟩
  have hresolve := h true "7-1" ⟨"7-1", "dog.png", "image/png",
    "/tmp/norma-media-7/7-1.png", ["/tmp/norma-media-7/7-1.png"]⟩ (by decide)
  revert hresolve
  decide

end NormaHarness.Media
