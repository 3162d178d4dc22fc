import NormaHarness.RegistrationIdentity

/-!
# Discovery

The history of the loop determines who is live: a successful registration joins,
a successful unregistration leaves. The directory holds exactly the records of the
live registrations, so the receipt of a newcomer, the broadcast it causes and the
record it leaves behind are read from the same cut of the history.
-/
namespace NormaHarness.RegistrationFlow
open Std Identifiers Contracts

variable {O M G : Type}

/-- A registration: its identity and what its resident declared. -/
abbrev Registration (O M G : Type) := ResidentInstanceId × Resident O M G

def liveAfter (live : List (Registration O M G)) (e : Handled O M G) :
    List (Registration O M G) :=
  match e.command, e.reply with
  | .register r _, .registered (.ok receipt) => live ++ [(receipt.instanceId, r)]
  | .unregister i, .unregistered (.ok _) => live.filter fun a => a.1 ≠ i
  | _, _ => live

/-- The registrations that are live after a history. -/
def live (es : List (Handled O M G)) : List (Registration O M G) := es.foldl liveAfter []

/-- The notice that one live registration is offered about a newcomer. -/
def offerTo (answers : Answers M) (d : ResidentDescriptor) (a : Registration O M G) : Offer M :=
  ⟨a.1, a.2.descriptor.key, a.2.mailbox, .residentRegistered d,
    answers a.2.descriptor.key a.2.mailbox⟩

theorem filter_eq_singleton {α β : Type} [DecidableEq β] {f : α → β} {l : List α} {a : α}
    (hl : (l.map f).Nodup) (ha : a ∈ l) : l.filter (fun b => f b = f a) = [a] := by
  induction l with
  | nil => cases ha
  | cons b l ih =>
      obtain ⟨hb, hl⟩ := List.nodup_cons.mp hl
      have hnone : ∀ c ∈ l, f c ≠ f b := fun c hc he => hb (List.mem_map.mpr ⟨c, hc, he⟩)
      rcases List.mem_cons.mp ha with rfl | ha
      · have hrest : l.filter (fun c => f c = f a) = [] :=
          List.filter_eq_nil_iff.mpr fun c hc => by simpa using hnone c hc
        rw [List.filter_cons_of_pos (by simp), hrest]
      · rw [List.filter_cons_of_neg (by simpa using (hnone a ha).symm), ih hl ha]

/-! ## The directory holds the live registrations -/

structure Listed (rdf : Rdf O M G) (live : List (Registration O M G)) : Prop where
  ids : (live.map Prod.fst).Nodup
  records : ∀ (key : ResidentKey) (record : RegistrationRecord M G),
    rdf.state.residents[key]? = some record ↔
      ∃ a ∈ live, a.2.descriptor.key = key ∧ recordOf a.1 a.2 = record

namespace Listed

variable {rdf : Rdf O M G} {live : List (Registration O M G)}

theorem of_new : Listed (new : Rdf O M G) [] where
  ids := List.nodup_nil
  records key record := by simp [new]

theorem record_of_mem (h : Listed rdf live) {a : Registration O M G} (ha : a ∈ live) :
    rdf.state.residents[a.2.descriptor.key]? = some (recordOf a.1 a.2) :=
  (h.records _ _).mpr ⟨a, ha, rfl, rfl⟩

theorem registered_of_mem (h : Listed rdf live) (hc : Coherent rdf) {a : Registration O M G}
    (ha : a ∈ live) : rdf.state.byInstance[a.1]? = some a.2.descriptor.key :=
  hc.registered_of_record (h.record_of_mem ha)

theorem mem_byInstance (h : Listed rdf live) (hc : Coherent rdf) {a : Registration O M G}
    (ha : a ∈ live) : a.1 ∈ rdf.state.byInstance :=
  ExtTreeMap.mem_iff_isSome_getElem?.mpr (by rw [h.registered_of_mem hc ha]; rfl)

theorem eq_of_id (h : Listed rdf live) {a b : Registration O M G} (ha : a ∈ live) (hb : b ∈ live)
    (hab : a.1 = b.1) : a = b :=
  List.inj_on_of_nodup_map h.ids ha hb hab

theorem eq_of_key (h : Listed rdf live) {a b : Registration O M G} (ha : a ∈ live) (hb : b ∈ live)
    (hab : a.2.descriptor.key = b.2.descriptor.key) : a = b := by
  have hrec := h.record_of_mem ha
  rw [hab, h.record_of_mem hb] at hrec
  have hid : b.1 = a.1 := congrArg RegistrationRecord.instanceId (Option.some.inj hrec)
  exact h.eq_of_id ha hb hid.symm

theorem keys (h : Listed rdf live) : (live.map fun a => a.2.descriptor.key).Nodup :=
  (h.ids.of_map _).map_on fun _ ha _ hb hab => h.eq_of_key ha hb hab

theorem isRegistered_iff (h : Listed rdf live) (hc : Coherent rdf) (i : ResidentInstanceId) :
    isRegistered rdf i = true ↔ i ∈ live.map Prod.fst := by
  unfold isRegistered
  rw [ExtTreeMap.contains_iff_mem, List.mem_map]
  constructor
  · intro hm
    obtain ⟨key, hi⟩ := Option.isSome_iff_exists.mp (ExtTreeMap.mem_iff_isSome_getElem?.mp hm)
    obtain ⟨record, hr, hid⟩ := hc.record_key hi
    obtain ⟨a, ha, _, hrec⟩ := (h.records key record).mp hr
    refine ⟨a, ha, ?_⟩
    rw [← hid, ← hrec]
    rfl
  · rintro ⟨a, ha, rfl⟩
    exact h.mem_byInstance hc ha

/-- Walking the directory meets every live registration once. -/
theorem records_perm (h : Listed rdf live) :
    (rdf.state.residents.toList.map Prod.snd).Perm (live.map fun a => recordOf a.1 a.2) := by
  have hmem : ∀ p, p ∈ rdf.state.residents.toList ↔
      ∃ a ∈ live, (a.2.descriptor.key, recordOf a.1 a.2) = p := by
    rintro ⟨key, record⟩
    rw [ExtTreeMap.mem_toList_iff_getElem?_eq_some, h.records]
    simp only [Prod.mk.injEq]
  have hpairs : rdf.state.residents.toList.Perm
      (live.map fun a => (a.2.descriptor.key, recordOf a.1 a.2)) := by
    refine (List.perm_ext_iff_of_nodup ?_ ?_).mpr fun p => ?_
    · refine rdf.state.residents.distinct_keys_toList.imp ?_
      rintro p q hpq rfl
      simp at hpq
    · refine List.Nodup.of_map Prod.fst ?_
      rw [List.map_map]
      exact h.keys
    · rw [hmem, List.mem_map]
  have hsnd := hpairs.map Prod.snd
  rw [List.map_map] at hsnd
  exact hsnd

theorem residents_perm (h : Listed rdf live) :
    (residents rdf).Perm (live.map fun a => a.2.descriptor) := by
  have hd := h.records_perm.map fun record => record.descriptor
  simp only [List.map_map] at hd
  exact hd

theorem announce_perm (h : Listed rdf live) (answers : Answers M) (d : ResidentDescriptor) :
    (announce answers rdf.state d).Perm (live.map (offerTo answers d)) := by
  have ho := h.records_perm.map fun record => (⟨record.instanceId, record.descriptor.key,
    record.mailbox, .residentRegistered d, answers record.descriptor.key record.mailbox⟩ : Offer M)
  simp only [List.map_map] at ho
  exact ho

theorem commit (h : Listed rdf live) (hc : Coherent rdf) {r : Resident O M G}
    (hkey : rdf.state.residents[r.descriptor.key]? = none) :
    Listed (commit rdf r) (live ++ [(freshId rdf, r)]) where
  ids := by
    rw [List.map_append, List.nodup_append_comm]
    refine List.nodup_cons.mpr ⟨fun hmem => ?_, h.ids⟩
    obtain ⟨a, ha, hid⟩ := List.mem_map.mp hmem
    have hin := h.mem_byInstance hc ha
    rw [hid] at hin
    exact hc.fresh hin
  records key record := by
    simp only [RegistrationFlow.commit, ExtTreeMap.getElem?_insert, LawfulEqOrd.compare_eq_iff_eq,
      List.mem_append, List.mem_singleton]
    split_ifs with hk
    · constructor
      · intro he
        exact ⟨_, .inr rfl, hk, Option.some.inj he⟩
      · rintro ⟨a, ha | rfl, hak, hrec⟩
        · have hsome := h.record_of_mem ha
          rw [hak, ← hk, hkey] at hsome
          cases hsome
        · exact congrArg some hrec
    · rw [h.records]
      constructor
      · rintro ⟨a, ha, hrest⟩
        exact ⟨a, .inl ha, hrest⟩
      · rintro ⟨a, ha | rfl, hak, hrec⟩
        · exact ⟨a, ha, hak, hrec⟩
        · exact absurd hak hk

theorem retire (h : Listed rdf live) (hc : Coherent rdf) {i : ResidentInstanceId}
    {key : ResidentKey} (hi : rdf.state.byInstance[i]? = some key) :
    Listed (retire rdf i key) (live.filter fun a => a.1 ≠ i) where
  ids := h.ids.sublist (List.filter_sublist.map Prod.fst)
  records k record := by
    have hkept : ∀ a ∈ live, a.1 ≠ i ↔ a.2.descriptor.key ≠ key := by
      intro a ha
      have hreg := h.registered_of_mem hc ha
      refine not_congr ⟨fun hai => ?_, fun hak => ?_⟩
      · rw [hai, hi] at hreg
        exact (Option.some.inj hreg).symm
      · obtain ⟨record, hr, hid⟩ := hc.record_key hi
        rw [← hak, h.record_of_mem ha] at hr
        rw [← hid, ← Option.some.inj hr]
        rfl
    simp only [RegistrationFlow.retire, ExtTreeMap.getElem?_erase, LawfulEqOrd.compare_eq_iff_eq,
      List.mem_filter, decide_eq_true_eq]
    split_ifs with hk
    · refine ⟨fun he => (nomatch he), ?_⟩
      rintro ⟨a, ⟨ha, hne⟩, hak, _⟩
      exact absurd (hak.trans hk.symm) ((hkept a ha).mp hne)
    · rw [h.records]
      constructor
      · rintro ⟨a, ha, hak, hrec⟩
        refine ⟨a, ⟨ha, (hkept a ha).mpr fun he => hk (he.symm.trans hak)⟩, hak, hrec⟩
      · rintro ⟨a, ⟨ha, _⟩, hrest⟩
        exact ⟨a, ha, hrest⟩

end Listed

/-! ## One registration -/

/-- What a newcomer learns and what the live registrations learn about it. -/
structure Announced (live : List (Registration O M G)) (r : Resident O M G) (answers : Answers M)
    (receipt : RegistrationReceipt) (offers : List (Offer M)) : Prop where
  listedOnce : ∀ a ∈ live, receipt.existingResidents.count a.2.descriptor = 1
  listedOnly : ∀ d ∈ receipt.existingResidents, ∃ a ∈ live, a.2.descriptor = d
  offeredOnce : ∀ a ∈ live,
    offers.filter (fun o => o.registration = a.1) = [offerTo answers r.descriptor a]
  offeredOnly : ∀ o ∈ offers, ∃ a ∈ live, o = offerTo answers r.descriptor a
  refusals : receipt.noticeFailures = offers.filterMap noticeFailure
  refused : ∀ failure, failure ∈ receipt.noticeFailures ↔
    ∃ a ∈ live, ∃ error, answers a.2.descriptor.key a.2.mailbox = .error error ∧
      failure = ⟨a.2.descriptor.key, .mailbox error⟩

theorem Listed.announced {rdf : Rdf O M G} {live : List (Registration O M G)}
    (h : Listed rdf live) (answers : Answers M) (r : Resident O M G) :
    Announced live r answers (receiptOf answers rdf r)
      (announce answers rdf.state r.descriptor) where
  listedOnce a ha := by
    have hnodup : (live.map fun a => a.2.descriptor).Nodup := by
      refine List.Nodup.of_map ResidentDescriptor.key ?_
      rw [List.map_map]
      exact h.keys
    have hcount := List.count_eq_one_of_mem hnodup (List.mem_map_of_mem ha)
    rw [← h.residents_perm.count_eq] at hcount
    exact hcount
  listedOnly d hd := by
    obtain ⟨a, ha, rfl⟩ := List.mem_map.mp (h.residents_perm.mem_iff.mp hd)
    exact ⟨a, ha, rfl⟩
  offeredOnce a ha := by
    have hperm := (h.announce_perm answers r.descriptor).filter fun o => o.registration = a.1
    rw [List.filter_map] at hperm
    have hsingle : live.filter ((fun o : Offer M => decide (o.registration = a.1)) ∘
        offerTo answers r.descriptor) = [a] := filter_eq_singleton h.ids ha
    rw [hsingle] at hperm
    exact List.perm_singleton.mp hperm
  offeredOnly o ho := by
    obtain ⟨a, ha, rfl⟩ := List.mem_map.mp ((h.announce_perm answers r.descriptor).mem_iff.mp ho)
    exact ⟨a, ha, rfl⟩
  refusals := rfl
  refused failure := by
    have hperm := (h.announce_perm answers r.descriptor).filterMap noticeFailure
    refine hperm.mem_iff.trans ?_
    simp only [List.mem_filterMap, List.mem_map, exists_exists_and_eq_and]
    refine exists_congr fun a => and_congr_right fun _ => ?_
    unfold noticeFailure offerTo
    cases answers a.2.descriptor.key a.2.mailbox with
    | ok u => simp
    | error error => simp [eq_comm]

/-! ## Whole runs -/

theorem mem_liveAfter {live : List (Registration O M G)} {e : Handled O M G}
    {a : Registration O M G} (ha : a ∈ liveAfter live e) : a ∈ live ∨ issuedId e = some a.1 := by
  unfold liveAfter at ha
  unfold issuedId
  split at ha
  · rename_i hreply
    rw [hreply]
    rcases List.mem_append.mp ha with ha | ha
    · exact .inl ha
    · obtain rfl := List.mem_singleton.mp ha
      exact .inr rfl
  · exact .inl (List.mem_of_mem_filter ha)
  · exact .inl ha

theorem mem_foldl_liveAfter {es : List (Handled O M G)} {live : List (Registration O M G)}
    {a : Registration O M G} (ha : a ∈ es.foldl liveAfter live) :
    a ∈ live ∨ a.1 ∈ issuedIds es := by
  induction es generalizing live with
  | nil => exact .inl ha
  | cons e es ih =>
      rcases ih ha with ha | ha
      · rcases mem_liveAfter ha with ha | he
        · exact .inl ha
        · exact .inr (List.mem_filterMap.mpr ⟨e, List.mem_cons_self, he⟩)
      · obtain ⟨e', he', hid⟩ := List.mem_filterMap.mp ha
        exact .inr (List.mem_filterMap.mpr ⟨e', List.mem_cons_of_mem _ he', hid⟩)

variable [DecidableEq O]

theorem Handles.listed {rdf rdf' : Rdf O M G} {e : Handled O M G}
    {live : List (Registration O M G)} (h : Handles rdf e rdf') (hc : Coherent rdf)
    (hl : Listed rdf live) : Listed rdf' (liveAfter live e) := by
  cases h.step with
  | register r answers out hout =>
      cases registerResident_step hout with
      | alreadyRegistered _ _ => exact hl
      | exhausted _ _ => exact hl
      | duplicate _ _ _ _ => exact ⟨hl.ids, hl.records⟩
      | committed _ _ hkey => exact hl.commit hc hkey
  | unregister i out hout =>
      cases unregisterResident_step hout with
      | unknown _ => exact hl
      | retired key record hi _ => exact hl.retire hc hi

theorem run_listed {rdf rdf' : Rdf O M G} {es : List (Handled O M G)}
    {live : List (Registration O M G)} (h : Executions.Run Handles rdf es rdf')
    (hc : Coherent rdf) (hl : Listed rdf live) : Listed rdf' (es.foldl liveAfter live) := by
  induction h generalizing live with
  | nil s => exact hl
  | cons hstep _ ih => exact ih (hstep.coherent hc) (hstep.listed hc hl)

/-- Offers are made by a successful registration only, to registrations older than it. -/
theorem Handles.offers {rdf rdf' : Rdf O M G} {e : Handled O M G} (h : Handles rdf e rdf')
    (hc : Coherent rdf) : (issuedId e = none → e.offers = []) ∧
      ∀ o ∈ e.offers, ∃ b, issuedId e = some b ∧ o.registration < b := by
  cases h.step with
  | register r answers out hout =>
      cases registerResident_step hout with
      | alreadyRegistered _ _ => exact ⟨fun _ => rfl, fun o ho => absurd ho List.not_mem_nil⟩
      | exhausted _ _ => exact ⟨fun _ => rfl, fun o ho => absurd ho List.not_mem_nil⟩
      | duplicate _ _ _ _ => exact ⟨fun _ => rfl, fun o ho => absurd ho List.not_mem_nil⟩
      | committed _ _ _ =>
          refine ⟨fun he => (nomatch he), fun o ho => ⟨freshId rdf, rfl, ?_⟩⟩
          obtain ⟨⟨key, record⟩, hp, rfl⟩ := List.mem_map.mp ho
          have hi := hc.registered_of_record (ExtTreeMap.mem_toList_iff_getElem?_eq_some.mp hp)
          have hmem : record.instanceId ∈ rdf.state.byInstance :=
            ExtTreeMap.mem_iff_isSome_getElem?.mpr (by rw [hi]; rfl)
          exact Nat.lt_succ_of_le (hc.issued _ hmem).2
  | unregister i out hout =>
      cases unregisterResident_step hout with
      | unknown _ => exact ⟨fun _ => rfl, fun o ho => absurd ho List.not_mem_nil⟩
      | retired _ _ _ _ => exact ⟨fun _ => rfl, fun o ho => absurd ho List.not_mem_nil⟩

theorem Handles.announced {rdf rdf' : Rdf O M G} {e : Handled O M G}
    {live : List (Registration O M G)} {r : Resident O M G} {answers : Answers M}
    {receipt : RegistrationReceipt} (h : Handles rdf e rdf') (hl : Listed rdf live)
    (hcommand : e.command = .register r answers) (hreply : e.reply = .registered (.ok receipt)) :
    Announced live r answers receipt e.offers := by
  cases h.step with
  | register r' answers' out hout =>
      obtain ⟨rfl, rfl⟩ := Command.register.inj hcommand
      cases registerResident_step hout with
      | alreadyRegistered _ _ => cases hreply
      | exhausted _ _ => cases hreply
      | duplicate _ _ _ _ => cases hreply
      | committed _ _ _ =>
          cases hreply
          exact hl.announced _ _
  | unregister i out hout => cases hcommand

/-- A newcomer and the registrations live when it is made learn of each other once,
in every history of the loop. -/
theorem discovery_complete_and_duplicate_free {cs : List (Command O M G)}
    {es : List (Handled O M G)} {rdf : Rdf O M G} (h : runCommands new cs = .ok (es, rdf)) :
    (∀ i, isRegistered rdf i = true ↔ i ∈ (live es).map Prod.fst) ∧
    ∀ (past future : List (Handled O M G)) (e : Handled O M G), es = past ++ e :: future →
      (issuedId e = none → e.offers = []) ∧
      (∀ o ∈ e.offers, ∃ b, issuedId e = some b ∧ o.registration < b) ∧
      ∀ r answers receipt, e.command = .register r answers →
        e.reply = .registered (.ok receipt) →
          Announced (live past) r answers receipt e.offers ∧
          (∀ a ∈ live past, a.1 < receipt.instanceId) ∧
          (∀ later rest a, future = later ++ rest → a ∈ live (past ++ e :: later) →
            a.1 < receipt.instanceId → a ∈ live past) ∧
          ∃ after, Executions.Run Handles new (past ++ [e]) after ∧
            ∀ a ∈ live past, isRegistered after a.1 = true := by
  have hrun := runCommands_run h
  have hcoherent := run_coherent hrun Coherent.of_new
  refine ⟨fun i => (run_listed hrun Coherent.of_new Listed.of_new).isRegistered_iff hcoherent i, ?_⟩
  intro past future e hes
  rw [hes] at hrun
  obtain ⟨before, after, hpast, hstep, hfuture⟩ := hrun.cut
  have hc := run_coherent hpast Coherent.of_new
  have hl : Listed before (live past) := run_listed hpast Coherent.of_new Listed.of_new
  refine ⟨(hstep.offers hc).1, (hstep.offers hc).2, ?_⟩
  intro r answers receipt hcommand hreply
  have hissued : issuedId e = some receipt.instanceId := by
    unfold issuedId
    rw [hreply]
  obtain ⟨hlt, hcounter⟩ := hstep.counter.2 _ hissued
  refine ⟨hstep.announced hl hcommand hreply, ?_, ?_, after, hpast.snoc hstep, ?_⟩
  · intro a ha
    exact (hc.issued _ (hl.mem_byInstance hc ha)).2.trans_lt hlt
  · intro later rest a hfut ha hbelow
    rw [live, List.foldl_append, List.foldl_cons] at ha
    rw [hfut] at hfuture
    obtain ⟨mid, hlater, _⟩ := hfuture.split
    -- identities issued from `e` on are at least the newcomer's
    rcases mem_foldl_liveAfter ha with ha | ha
    · rcases mem_liveAfter ha with ha | he
      · exact ha
      · rw [hissued] at he
        exact absurd hbelow (Option.some.inj he ▸ Nat.lt_irrefl _)
    · have habove := (run_issuedIds hlater).2.1 _ ha
      rw [← hcounter] at habove
      exact absurd hbelow (Nat.lt_asymm habove)
  · intro a ha
    have hl' := hstep.listed hc hl
    rw [hl'.isRegistered_iff (hstep.coherent hc)]
    unfold liveAfter
    rw [hcommand, hreply, List.map_append]
    exact List.mem_append_left _ (List.mem_map_of_mem ha)

def workerObject : Resident ℕ Unit Unit := ⟨8, ⟨⟨"worker", by decide⟩, ∅⟩, (), none, none⟩

def refuseAll : Answers Unit := fun _ _ => .error ⟨"mailbox full"⟩

/-- A full mailbox is reported to the newcomer and stays registered. -/
theorem discovery_complete_and_duplicate_free_refused :
    ∃ (es : List (Handled ℕ Unit Unit)) (rdf : Rdf ℕ Unit Unit) (receipt : RegistrationReceipt),
      runCommands new [.register chatObject acceptAll, .register workerObject refuseAll] =
        .ok (es, rdf) ∧
      receipt.noticeFailures = [⟨chatObject.descriptor.key, .mailbox ⟨"mailbox full"⟩⟩] ∧
      Announced [(1, chatObject)] workerObject refuseAll receipt
        [offerTo refuseAll workerObject.descriptor (1, chatObject)] ∧
      isRegistered rdf 1 = true := by
  have hrun : runCommands new
      [.register chatObject acceptAll, .register workerObject refuseAll] =
      .ok ([⟨.register chatObject acceptAll, .registered (.ok ⟨1, [], []⟩), []⟩,
        ⟨.register workerObject refuseAll, .registered (.ok ⟨2, [chatObject.descriptor],
            [⟨chatObject.descriptor.key, .mailbox ⟨"mailbox full"⟩⟩]⟩),
          [offerTo refuseAll workerObject.descriptor (1, chatObject)]⟩],
        commit (commit new chatObject) workerObject) := by
    rfl
  obtain ⟨hregistered, hcut⟩ := discovery_complete_and_duplicate_free hrun
  obtain ⟨_, _, hnew⟩ := hcut [_] [] _ rfl
  exact ⟨_, _, _, hrun, rfl, (hnew _ _ _ rfl rfl).1, (hregistered 1).mpr (by decide)⟩

end NormaHarness.RegistrationFlow
