import NormaHarness.NameSupplies
import NormaHarness.RegisteredMedia

/-!
# Identities after a restore

The counter of a store has 64 bits and wraps around. A restore raises it above every
identity in the list that this process can have drawn, whatever else is in the list, so
the identities from the counter on are free. They remain so until the counter wraps: a
save then draws an identity that may be registered, and takes its place.
-/
namespace NormaHarness.Media
open Std Executions NameSupplies

/-! ## The counter of 64 bits -/

/-- The store with its counter as `fetch_add` leaves it. -/
def MediaStore.wrapped (store : MediaStore) : MediaStore :=
  {store with nextId := store.nextId % 2 ^ 64}

structure StoredMedia where
  store : MediaStore
  files : Files

section

variable (imaging : Imaging) (pid : ℕ)

/-- An operation draws at most one identity, so its counter wraps at most once. -/
def MediaOp.run64 (s : StoredMedia) (op : MediaOp) :
    Option (Except String MediaAsset) × StoredMedia :=
  let (result, store, files) := op.run imaging pid s.store s.files
  (result, ⟨store.wrapped, files⟩)

def CounterStep (s : StoredMedia) (op : MediaOp) (s' : StoredMedia) : Prop :=
  s' = (op.run64 imaging pid s).2

/-- A store that has just been opened, after a restore into it. The addition of a restore
does not wrap, short of an identity with the largest counter. -/
def restoredMedia (root : String) (files : Files) (restored : List MediaAsset) : StoredMedia :=
  ⟨(MediaStore.restore pid files (.openAt root) restored).2, files⟩

/-- The largest counter in the list that stands for an identity of this process. -/
def highest (restored : List MediaAsset) : ℕ :=
  (restored.filterMap fun a => counterOf pid a.id).foldr max 0

end

def MediaOp.saves : MediaOp → Bool
  | .remove _ _ _ => false
  | _ => true

/-- A save under an identity that was free: nothing registered is replaced, the files
written are named by the new identity, and no other one names them, unless it is this one
with the mark of a first frame. -/
structure SavedFresh (s : StoredMedia) (asset : MediaAsset) (s' : StoredMedia) : Prop where
  unregistered : s.store.get asset.id = none
  registered : s'.store.get asset.id = some asset
  kept : Registers s.store s'.store
  written : ∀ path, s'.files[path]? ≠ s.files[path]? → FileOf s.store.root asset.id path
  untouched : ∀ id a, s.store.get id = some a → id ≠ asset.id ++ "-first-frame" →
    ∀ path, FileOf s.store.root id path → s'.files[path]? = s.files[path]?

/-! ## The store as a supply of names -/

def StoredMedia.supply (s : StoredMedia) : Supply String :=
  ⟨s.store.nextId, {id | s.store.get id ≠ none}⟩

theorem mediaId_injOn (pid width : ℕ) : Set.InjOn (mediaId pid) (Set.Iio width) :=
  fun _ _ _ _ h => (mediaId_inj h).2

section

variable {imaging : Imaging} {pid : ℕ} {s s' : StoredMedia} {op : MediaOp}

/-- Nothing comes into use and the counter stays. -/
theorem supply_keep (draws : Bool) (hnext : s'.store.nextId = s.store.nextId)
    (hget : ∀ id a, s'.store.get id = some a → s.store.get id = some a) :
    s.supply.Step (mediaId pid) (2 ^ 64) draws s'.supply := by
  refine .keep draws _ hnext fun id hid hnone => ?_
  obtain ⟨a, ha⟩ := Option.ne_none_iff_exists'.mp hid
  rw [hget id a ha] at hnone
  cases hnone

theorem supply_draw (hnext : s'.store.nextId = (s.store.nextId + 1) % 2 ^ 64)
    (hget : ∀ id, id ≠ mediaId pid s.store.nextId → s'.store.get id = s.store.get id) :
    s.supply.Step (mediaId pid) (2 ^ 64) true s'.supply := by
  refine .draw _ hnext fun id hid => ?_
  by_cases heq : id = mediaId pid s.store.nextId
  · exact .inl heq
  · exact .inr fun hnone => hid ((hget id heq).trans hnone)

theorem save_supply (imaging : Imaging) (faults : FileFaults) (filename : String) (bytes : Bytes)
    (hnext : s.store.nextId < 2 ^ 64) :
    let out := MediaStore.save imaging pid faults filename bytes s.store s.files
    s.supply.Step (mediaId pid) (2 ^ 64) true (StoredMedia.supply ⟨out.2.1.wrapped, out.2.2⟩) := by
  have hcounter := save_nextId imaging pid faults filename bytes s.store s.files
  rcases hout : MediaStore.save imaging pid faults filename bytes s.store s.files with
    ⟨result, store', files'⟩
  rw [hout] at hcounter
  cases result with
  | error error =>
      obtain ⟨-, hassets⟩ := save_error hout
      have hget : ∀ id, store'.wrapped.get id = s.store.get id := get_congr hassets
      -- a refused image draws nothing, a failed write has drawn already
      rcases Nat.le_and_le_add_one_iff.mp hcounter with hsame | hdrawn
      · refine supply_keep true ?_ fun id a ha => (hget id).symm.trans ha
        exact (congrArg (· % 2 ^ 64) hsame).trans (Nat.mod_eq_of_lt hnext)
      · exact supply_draw (congrArg (· % 2 ^ 64) hdrawn) fun id _ => hget id
  | ok asset =>
      obtain ⟨-, -, rfl⟩ := save_ok hout
      refine supply_draw rfl fun id hid => ?_
      exact (get_insert rfl id).trans (if_neg (Ne.symm hid))

theorem CounterStep.supply (h : CounterStep imaging pid s op s') (hnext : s.store.nextId < 2 ^ 64) :
    s.supply.Step (mediaId pid) (2 ^ 64) op.saves s'.supply := by
  obtain rfl := h
  cases op with
  | upload incognito faults filename bytes => exact save_supply imaging faults filename bytes hnext
  | publish incognito faults filename mimeType encoded =>
      rcases publish_cases imaging pid incognito faults filename mimeType encoded s.store s.files
        with ⟨error, hrun⟩ | ⟨bytes, hrun⟩
      · rw [MediaOp.run64, hrun]
        exact supply_keep true (Nat.mod_eq_of_lt hnext) fun id a ha => ha
      · rw [MediaOp.run64, hrun]
        exact save_supply imaging faults filename bytes hnext
  | remove incognito faults id =>
      obtain ⟨-, hsame, hget⟩ := remove_store faults id s.store s.files
      refine supply_keep false ?_ fun k a ha => ?_
      · exact (congrArg (· % 2 ^ 64) hsame).trans (Nat.mod_eq_of_lt hnext)
      · have ha := (hget k).symm.trans ha
        split_ifs at ha
        exact ha

theorem CounterStep.nextId_lt (h : CounterStep imaging pid s op s') :
    s'.store.nextId < 2 ^ 64 := by
  obtain rfl := h
  exact Nat.mod_lt _ (by decide)

/-- A run keeps the identities from the counter on free while the counter has values left. -/
theorem counter_run {t : StoredMedia} {ops : List MediaOp}
    (hrun : Run (CounterStep imaging pid) s ops t)
    (hroom : s.store.nextId + ops.countP MediaOp.saves < 2 ^ 64)
    (hfree : s.supply.Free (mediaId pid) (2 ^ 64)) :
    t.supply.Free (mediaId pid) (2 ^ 64) ∧
      t.store.nextId ≤ s.store.nextId + ops.countP MediaOp.saves := by
  have hcount : (ops.map MediaOp.saves).count true = ops.countP MediaOp.saves := by
    rw [List.count, List.countP_map]
    exact List.countP_congr fun op _ => by simp
  have habstract := hrun.map (P := fun s => s.store.nextId < 2 ^ 64) (f := StoredMedia.supply)
    (g := MediaOp.saves) (fun _ _ _ _ h => h.nextId_lt) (fun _ _ _ hnext h => h.supply hnext)
    (by omega)
  have hkeeps := hfree.run habstract (mediaId_injOn pid _) (by rw [hcount]; exact hroom)
  rw [hcount] at hkeeps
  exact hkeeps

/-- A successful save registers the identity at the counter. -/
theorem run64_ok {asset : MediaAsset} (h : (op.run64 imaging pid s).1 = some (.ok asset)) :
    op.saves = true ∧ asset.id = mediaId pid s.store.nextId ∧
      ∀ id, (op.run64 imaging pid s).2.store.get id =
        if asset.id = id then some asset else s.store.get id := by
  have hchange := run_change imaging pid s.store s.files op
  have hresult : (op.run imaging pid s.store s.files).1 = some (.ok asset) := h
  generalize hout : op.run imaging pid s.store s.files = out at hchange hresult
  obtain ⟨result, store', files'⟩ := out
  obtain rfl : result = some (.ok asset) := hresult
  have hsaves : op.saves = true := by
    cases op with
    | upload incognito faults filename bytes => rfl
    | publish incognito faults filename mimeType encoded => rfl
    | remove incognito faults id => cases (Prod.mk.inj hout).1
  cases hchange with
  | stored _ _ hid _ _ hassets =>
      refine ⟨hsaves, hid, fun id => ?_⟩
      have hstore : (op.run64 imaging pid s).2.store = store'.wrapped := by
        simp only [MediaOp.run64, hout]
      rw [hstore, hid]
      exact get_insert hassets id

theorem run64_untouched (hsaves : op.saves = true) :
    Untouched (FileOf s.store.root (mediaId pid s.store.nextId)) s.files
      (op.run64 imaging pid s).2.files := by
  cases op with
  | upload incognito faults filename bytes =>
      exact save_untouched imaging pid faults filename bytes s.store s.files
  | publish incognito faults filename mimeType encoded =>
      rcases publish_cases imaging pid incognito faults filename mimeType encoded s.store s.files
        with ⟨error, hrun⟩ | ⟨bytes, hrun⟩
      · rw [MediaOp.run64, hrun]
        exact .refl _ s.files
      · rw [MediaOp.run64, hrun]
        exact save_untouched imaging pid faults filename bytes s.store s.files
  | remove incognito faults id => cases hsaves

theorem savedFresh {asset : MediaAsset} (hok : (op.run64 imaging pid s).1 = some (.ok asset))
    (hfree : s.store.get asset.id = none) : SavedFresh s asset (op.run64 imaging pid s).2 := by
  obtain ⟨hsaves, hid, hget⟩ := run64_ok hok
  have hfiles : Untouched (FileOf s.store.root asset.id) s.files
      (op.run64 imaging pid s).2.files := hid ▸ run64_untouched hsaves
  have hother : ∀ id a, s.store.get id = some a → asset.id ≠ id := by
    rintro id a ha rfl
    rw [hfree] at ha
    cases ha
  refine ⟨hfree, (hget _).trans (if_pos rfl), fun id a ha => ?_, fun path hpath => ?_,
    fun id a ha hmark path hpath => hfiles path fun hown => ?_⟩
  · rw [hget, if_neg (hother id a ha)]
    exact ha
  · by_contra hown
    exact hpath (hfiles path hown)
  · rcases hown.overlap hpath with heq | heq | heq
    · exact hother id a ha heq
    · exact mediaId_ne_firstFrame pid _ id (hid.symm.trans heq)
    · exact hmark heq

end

/-! ## After a restore -/

section

variable (pid : ℕ) (files : Files)

theorem highest_cons (a : MediaAsset) (rest : List MediaAsset) :
    highest pid (a :: rest) = max ((counterOf pid a.id).getD 0) (highest pid rest) := by
  unfold highest
  rw [List.filterMap_cons]
  cases counterOf pid a.id with
  | none => exact (Nat.zero_max _).symm
  | some counter => rfl

theorem restoreOne_free {store : MediaStore} (a : MediaAsset)
    (hfree : (StoredMedia.supply ⟨store, files⟩).Free (mediaId pid) (2 ^ 64)) :
    (StoredMedia.supply ⟨store.restoreOne pid a, files⟩).Free (mediaId pid) (2 ^ 64) := by
  intro n hn hwidth hused
  have hn : (store.restoreOne pid a).nextId ≤ n := hn
  rw [restoreOne_nextId, Nat.max_le] at hn
  have hassets : (store.restoreOne pid a).assets = store.assets.insert a.id a := rfl
  have hget := get_insert hassets (mediaId pid n)
  split_ifs at hget with hid
  · rw [hid, counterOf_mediaId pid hwidth] at hn
    exact absurd hn.2 (Nat.not_succ_le_self n)
  · exact hfree n hn.1 hwidth fun hnone => hused (hget.trans hnone)

theorem restore_free {store : MediaStore} (assets : List MediaAsset)
    (hfree : (StoredMedia.supply ⟨store, files⟩).Free (mediaId pid) (2 ^ 64)) :
    (StoredMedia.supply ⟨(MediaStore.restore pid files store assets).2, files⟩).Free
        (mediaId pid) (2 ^ 64) ∧
      (MediaStore.restore pid files store assets).2.nextId ≤
        max store.nextId (highest pid assets + 1) := by
  induction assets generalizing store with
  | nil => exact ⟨hfree, le_max_left _ _⟩
  | cons a rest ih =>
      unfold MediaStore.restore
      split_ifs
      · obtain ⟨hrest, hnext⟩ := ih (restoreOne_free pid files a hfree)
        refine ⟨hrest, hnext.trans ?_⟩
        rw [restoreOne_nextId, highest_cons]
        cases counterOf pid a.id with
        | none => simp only [Option.elim_none, Option.getD_none]; omega
        | some counter => simp only [Option.elim_some, Option.getD_some]; omega
      · exact ⟨hfree, le_max_left _ _⟩

theorem restored_free (root : String) (restored : List MediaAsset) :
    (restoredMedia pid root files restored).supply.Free (mediaId pid) (2 ^ 64) ∧
      (restoredMedia pid root files restored).store.nextId ≤ highest pid restored + 1 := by
  have hopen : (StoredMedia.supply ⟨.openAt root, files⟩).Free (mediaId pid) (2 ^ 64) :=
    fun n _ _ hused => hused (openAt_get root _)
  obtain ⟨hfree, hnext⟩ := restore_free pid files restored hopen
  have hone : (MediaStore.openAt root).nextId = 1 := rfl
  exact ⟨hfree, hnext.trans (max_le (by omega) le_rfl)⟩

end

/-- Every save after a restore is fresh, as long as the saves do not take the counter past
its largest value. -/
theorem restored_ids_stay_fresh (imaging : Imaging) (pid : ℕ) (root : String) (files : Files)
    (restored : List MediaAsset) (ops : List MediaOp)
    (hroom : highest pid restored + ops.countP MediaOp.saves < 2 ^ 64) :
    ∀ (past : List MediaOp) (op : MediaOp) (future : List MediaOp) (s : StoredMedia)
      (asset : MediaAsset), ops = past ++ op :: future →
      Run (CounterStep imaging pid) (restoredMedia pid root files restored) past s →
      (op.run64 imaging pid s).1 = some (.ok asset) →
      SavedFresh s asset (op.run64 imaging pid s).2 := by
  intro past op future s asset hops hpast hok
  obtain ⟨hsaves, hid, -⟩ := run64_ok hok
  obtain ⟨hfree, hstart⟩ := restored_free pid files root restored
  -- the save itself is one of those counted
  have hcount : ops.countP MediaOp.saves =
      past.countP MediaOp.saves + (future.countP MediaOp.saves + 1) := by
    rw [hops, List.countP_append, List.countP_cons, if_pos hsaves]
  have hpastroom : (restoredMedia pid root files restored).store.nextId +
      past.countP MediaOp.saves < 2 ^ 64 := by omega
  obtain ⟨hfree, hnext⟩ := counter_run hpast hpastroom hfree
  refine savedFresh hok ?_
  have hlt : s.store.nextId < 2 ^ 64 := by omega
  rw [hid]
  exact not_not.mp (hfree.unused hlt)

def keptPicture (id : String) : MediaAsset :=
  ⟨id, "cat.png", "image/png", join "/data/media" s!"{id}.png", [join "/data/media" s!"{id}.png"]⟩

def keptFiles (ids : List String) : Files :=
  ids.foldl (fun files id => files.insert (join "/data/media" s!"{id}.png") tinyPng) ∅

def dogUpload : MediaOp := .upload false .none "dog.png" tinyPng

/-- A restored identity that the counter cannot stand for is no obstacle. -/
theorem restored_ids_stay_fresh_mixed :
    let s := restoredMedia 7 "/data/media" (keptFiles ["7-3", "7-x", "8-9"])
      [keptPicture "7-3", keptPicture "7-x", keptPicture "8-9"]
    (dogUpload.run64 smallImages 7 s).1 = some (.ok ⟨"7-4", "dog.png", "image/png",
      "/data/media/7-4.png", ["/data/media/7-4.png"]⟩) ∧
    SavedFresh s ⟨"7-4", "dog.png", "image/png", "/data/media/7-4.png", ["/data/media/7-4.png"]⟩
      (dogUpload.run64 smallImages 7 s).2 := by
  intro s
  have hok : (dogUpload.run64 smallImages 7 s).1 = some (.ok ⟨"7-4", "dog.png", "image/png",
      "/data/media/7-4.png", ["/data/media/7-4.png"]⟩) := by decide +kernel
  refine ⟨hok, ?_⟩
  exact restored_ids_stay_fresh smallImages 7 "/data/media" _ _ [dogUpload] (by decide)
    [] dogUpload [] s _ rfl (.nil s) hok

/-- Two saves after a restore of the last identity but one: the counter wraps to zero, and
the second save takes the place of a picture that was restored. -/
theorem wrapped_counter_replaces :
    let restored := [keptPicture "7-18446744073709551614", keptPicture "7-0"]
    let start := restoredMedia 7 "/data/media" (keptFiles (restored.map MediaAsset.id)) restored
    (∀ a ∈ restored, counterOf 7 a.id ≠ some (2 ^ 64 - 1)) ∧
    ∃ s first second, (dogUpload.run64 smallImages 7 start).1 = some (.ok first) ∧
      Run (CounterStep smallImages 7) start [dogUpload] s ∧
      (dogUpload.run64 smallImages 7 s).1 = some (.ok second) ∧ second.id = "7-0" ∧
      s.store.get second.id = some (keptPicture "7-0") ∧
      (dogUpload.run64 smallImages 7 s).2.store.get second.id = some second := by
  intro restored start
  refine ⟨by decide, _, _, _, rfl, .single rfl, rfl, ?_⟩
  decide +kernel

end NormaHarness.Media
