import NormaHarness.RegistrationFlow
import NormaHarness.Executions

/-!
# The directory and the store agree

The two directory maps are inverse to each other, records sit under their own
names, the store holds exactly the registered instances, no object is stored
twice and every registered identity has been reserved. One inversion lemma says
what a registration can do and one says what an unregistration can do. The
invariant, the absence of panics and the later histories all follow from these
two.
-/
namespace NormaHarness.RegistrationFlow
open Std Identifiers Contracts

variable {O M G : Type}

namespace ResidentStore

variable [DecidableEq O]

theorem instanceId_eq_none {s : ResidentStore O M G} {r : Resident O M G} :
    s.instanceId r = none ↔
      ∀ (i : ResidentInstanceId) (stored : Resident O M G), s.instances[i]? = some stored →
        stored.object ≠ r.object := by
  simp only [instanceId, List.findSome?_eq_none_iff, Prod.forall,
    ExtTreeMap.mem_toList_iff_getElem?_eq_some, ite_eq_right_iff, reduceCtorEq, imp_false,
    ne_eq]

end ResidentStore

/-! ## What one command can do -/

/-- A reserved identity that no registration will carry. -/
def burn (rdf : Rdf O M G) : Rdf O M G :=
  {rdf with residentStore :=
    {rdf.residentStore with nextInstanceId := rdf.residentStore.nextInstanceId + 1}}

def freshId (rdf : Rdf O M G) : ResidentInstanceId := rdf.residentStore.nextInstanceId + 1

def commit (rdf : Rdf O M G) (r : Resident O M G) : Rdf O M G where
  residentStore :=
    ⟨freshId rdf, rdf.residentStore.instances.insert (freshId rdf) r⟩
  state :=
    ⟨rdf.state.residents.insert r.descriptor.key (recordOf (freshId rdf) r),
      rdf.state.byInstance.insert (freshId rdf) r.descriptor.key⟩

def receiptOf (answers : Answers M) (rdf : Rdf O M G) (r : Resident O M G) :
    RegistrationReceipt :=
  ⟨freshId rdf, residents rdf,
    (announce answers rdf.state r.descriptor).filterMap noticeFailure⟩

section Registering

variable [DecidableEq O]

inductive RegisterStep (answers : Answers M) (rdf : Rdf O M G) (r : Resident O M G) :
    Outcome O M G RegistrationReceipt → Prop
  | alreadyRegistered (i : ResidentInstanceId) : rdf.residentStore.instanceId r = some i →
      RegisterStep answers rdf r
        ⟨.error (.instanceAlreadyRegistered i (rdf.state.byInstance[i]?.getD r.descriptor.key)),
          rdf, []⟩
  | exhausted : rdf.residentStore.instanceId r = none →
      ¬rdf.residentStore.nextInstanceId < u64Max →
      RegisterStep answers rdf r ⟨.error .instanceIdExhausted, rdf, []⟩
  | duplicate (existing : RegistrationRecord M G) : rdf.residentStore.instanceId r = none →
      rdf.residentStore.nextInstanceId < u64Max →
      rdf.state.residents[r.descriptor.key]? = some existing →
      RegisterStep answers rdf r
        ⟨.error (.duplicateResident r.descriptor.key existing.instanceId (freshId rdf)),
          burn rdf, []⟩
  | committed : rdf.residentStore.instanceId r = none →
      rdf.residentStore.nextInstanceId < u64Max →
      rdf.state.residents[r.descriptor.key]? = none →
      RegisterStep answers rdf r
        ⟨.ok (receiptOf answers rdf r), commit rdf r, announce answers rdf.state r.descriptor⟩

theorem registerResident_step {answers : Answers M} {rdf : Rdf O M G} {r : Resident O M G}
    {out : Outcome O M G RegistrationReceipt} (h : registerResident answers rdf r = .ok out) :
    RegisterStep answers rdf r out := by
  unfold registerResident at h
  cases hi : rdf.residentStore.instanceId r with
  | some i =>
      simp only [hi, Except.ok.injEq] at h
      subst out
      exact .alreadyRegistered i hi
  | none =>
      by_cases hn : rdf.residentStore.nextInstanceId < u64Max
      · simp only [hi, ResidentStore.reserveInstanceId, if_pos hn] at h
        cases hk : rdf.state.residents[r.descriptor.key]? with
        | some existing =>
            simp only [hk, Except.ok.injEq] at h
            subst out
            exact .duplicate existing hi hn hk
        | none =>
            simp only [hk, ResidentStore.insert] at h
            split at h
            · cases h
            · rename_i hs
              split_ifs at hs
              obtain rfl := Except.ok.inj hs
              obtain rfl := Except.ok.inj h
              exact .committed hi hn hk
      · simp only [hi, ResidentStore.reserveInstanceId, if_neg hn, Except.ok.injEq] at h
        subst out
        exact .exhausted hi hn

end Registering

def retire (rdf : Rdf O M G) (i : ResidentInstanceId) (key : ResidentKey) : Rdf O M G :=
  ⟨{rdf.residentStore with instances := rdf.residentStore.instances.erase i},
    ⟨rdf.state.residents.erase key, rdf.state.byInstance.erase i⟩⟩

inductive UnregisterStep (rdf : Rdf O M G) (i : ResidentInstanceId) :
    Outcome O M G ResidentDescriptor → Prop
  | unknown : rdf.state.byInstance[i]? = none →
      UnregisterStep rdf i ⟨.error (.unknownRegistration i), rdf, []⟩
  | retired (key : ResidentKey) (record : RegistrationRecord M G) :
      rdf.state.byInstance[i]? = some key → rdf.state.residents[key]? = some record →
      UnregisterStep rdf i ⟨.ok record.descriptor, retire rdf i key, []⟩

theorem unregisterResident_step {rdf : Rdf O M G} {i : ResidentInstanceId}
    {out : Outcome O M G ResidentDescriptor} (h : unregisterResident rdf i = .ok out) :
    UnregisterStep rdf i out := by
  unfold unregisterResident at h
  cases hi : rdf.state.byInstance[i]? with
  | none =>
      simp only [hi, Except.ok.injEq] at h
      subst out
      exact .unknown hi
  | some key =>
      cases hk : rdf.state.residents[key]? with
      | none => simp [hi, hk] at h
      | some record =>
          cases hs : rdf.residentStore.instances[i]? with
          | none => simp [hi, hk, hs, ResidentStore.remove] at h
          | some r =>
              simp only [hi, hk, hs, ResidentStore.remove, Except.ok.injEq] at h
              subst out
              exact .retired key record hi hk

/-! ## The invariant -/

structure Coherent (rdf : Rdf O M G) : Prop where
  inverse : ∀ (i : ResidentInstanceId) (key : ResidentKey), rdf.state.byInstance[i]? = some key ↔
    ∃ record : RegistrationRecord M G,
      rdf.state.residents[key]? = some record ∧ record.instanceId = i
  keyed : ∀ (key : ResidentKey) (record : RegistrationRecord M G),
    rdf.state.residents[key]? = some record → record.descriptor.key = key
  stored : ∀ i : ResidentInstanceId,
    i ∈ rdf.residentStore.instances ↔ i ∈ rdf.state.byInstance
  distinct : ∀ (i j : ResidentInstanceId) (a b : Resident O M G),
    rdf.residentStore.instances[i]? = some a → rdf.residentStore.instances[j]? = some b →
      a.object = b.object → i = j
  issued : ∀ i : ResidentInstanceId, i ∈ rdf.state.byInstance →
    1 ≤ i ∧ i ≤ rdf.residentStore.nextInstanceId

namespace Coherent

theorem of_new : Coherent (new : Rdf O M G) := by
  constructor <;> simp [new, ResidentStore.new]

variable {rdf : Rdf O M G}

theorem fresh (h : Coherent rdf) : freshId rdf ∉ rdf.state.byInstance := by
  intro hm
  have hle : rdf.residentStore.nextInstanceId + 1 ≤ rdf.residentStore.nextInstanceId :=
    (h.issued _ hm).2
  omega

theorem fresh_instances (h : Coherent rdf) : freshId rdf ∉ rdf.residentStore.instances :=
  fun hm => h.fresh ((h.stored _).mp hm)

theorem record_key (h : Coherent rdf) {i : ResidentInstanceId} {key : ResidentKey}
    (hi : rdf.state.byInstance[i]? = some key) :
    ∃ record : RegistrationRecord M G,
      rdf.state.residents[key]? = some record ∧ record.instanceId = i :=
  (h.inverse i key).mp hi

theorem registered_of_record (h : Coherent rdf) {key : ResidentKey}
    {record : RegistrationRecord M G} (hk : rdf.state.residents[key]? = some record) :
    rdf.state.byInstance[record.instanceId]? = some key :=
  (h.inverse _ _).mpr ⟨record, hk, rfl⟩

theorem burn (h : Coherent rdf) : Coherent (burn rdf) where
  inverse := h.inverse
  keyed := h.keyed
  stored := h.stored
  distinct := h.distinct
  issued i hi := ⟨(h.issued i hi).1, (h.issued i hi).2.trans (Nat.le_succ _)⟩

theorem commit [DecidableEq O] (h : Coherent rdf) {r : Resident O M G}
    (hobj : rdf.residentStore.instanceId r = none)
    (hkey : rdf.state.residents[r.descriptor.key]? = none) : Coherent (commit rdf r) where
  inverse i key := by
    have hfresh : rdf.state.byInstance[freshId rdf]? = none :=
      ExtTreeMap.getElem?_eq_none h.fresh
    simp only [RegistrationFlow.commit, ExtTreeMap.getElem?_insert, LawfulEqOrd.compare_eq_iff_eq]
    split_ifs with hi hk hk
    · exact ⟨fun _ => ⟨_, rfl, hi⟩, fun _ => congrArg some hk⟩
    · refine ⟨fun he => absurd (Option.some.inj he) hk, ?_⟩
      rintro ⟨record, hr, rfl⟩
      have := h.registered_of_record hr
      rw [← hi, hfresh] at this
      cases this
    · rw [h.inverse, ← hk, hkey]
      refine ⟨?_, ?_⟩
      · rintro ⟨_, hr, _⟩
        cases hr
      · rintro ⟨_, hr, he⟩
        obtain rfl := Option.some.inj hr
        exact absurd he hi
    · exact h.inverse i key
  keyed key record hr := by
    simp only [RegistrationFlow.commit, ExtTreeMap.getElem?_insert,
      LawfulEqOrd.compare_eq_iff_eq] at hr
    split_ifs at hr with hk
    · obtain rfl := Option.some.inj hr
      exact hk
    · exact h.keyed key record hr
  stored i := by
    simp only [RegistrationFlow.commit, ExtTreeMap.mem_insert, h.stored]
  distinct i j a b ha hb hab := by
    have hnone := ResidentStore.instanceId_eq_none.mp hobj
    simp only [RegistrationFlow.commit, ExtTreeMap.getElem?_insert,
      LawfulEqOrd.compare_eq_iff_eq] at ha hb
    split_ifs at ha hb with hi hj hj
    · exact hi.symm.trans hj
    · obtain rfl := Option.some.inj ha
      exact absurd hab.symm (hnone j b hb)
    · obtain rfl := Option.some.inj hb
      exact absurd hab (hnone i a ha)
    · exact h.distinct i j a b ha hb hab
  issued i hi := by
    simp only [RegistrationFlow.commit, ExtTreeMap.mem_insert,
      LawfulEqOrd.compare_eq_iff_eq] at hi ⊢
    rcases hi with rfl | hi
    · exact ⟨Nat.succ_le_succ (Nat.zero_le _), le_rfl⟩
    · exact ⟨(h.issued i hi).1, (h.issued i hi).2.trans (Nat.le_succ _)⟩

theorem retire (h : Coherent rdf) {i : ResidentInstanceId} {key : ResidentKey}
    (hi : rdf.state.byInstance[i]? = some key) : Coherent (retire rdf i key) where
  inverse j k := by
    obtain ⟨record, hr, hid⟩ := h.record_key hi
    simp only [RegistrationFlow.retire, ExtTreeMap.getElem?_erase, LawfulEqOrd.compare_eq_iff_eq]
    split_ifs with hj hk hk
    · simp
    · constructor
      · intro he
        cases he
      · rintro ⟨record', hr', hid'⟩
        have hk' := (h.inverse j k).mpr ⟨record', hr', hid'⟩
        rw [← hj, hi] at hk'
        exact absurd (Option.some.inj hk') hk
    · constructor
      · intro he
        obtain ⟨record', hr', hid'⟩ := h.record_key he
        rw [← hk, hr] at hr'
        obtain rfl := Option.some.inj hr'
        exact absurd (hid.symm.trans hid') hj
      · rintro ⟨_, hr', _⟩
        cases hr'
    · exact h.inverse j k
  keyed k record hr := by
    simp only [RegistrationFlow.retire, ExtTreeMap.getElem?_erase] at hr
    split_ifs at hr
    exact h.keyed k record hr
  stored j := by
    simp only [RegistrationFlow.retire, ExtTreeMap.mem_erase, h.stored]
  distinct j k a b ha hb hab := by
    simp only [RegistrationFlow.retire, ExtTreeMap.getElem?_erase] at ha hb
    split_ifs at ha hb
    exact h.distinct j k a b ha hb hab
  issued j hj := h.issued j (ExtTreeMap.mem_of_mem_erase hj)

theorem resolveRoute_ok (h : Coherent rdf) (source : ResidentInstanceId) (target : ResidentKey) :
    ∃ route, resolveRoute rdf source target = .ok route := by
  unfold resolveRoute
  cases hs : rdf.state.byInstance[source]? with
  | none => exact ⟨_, rfl⟩
  | some key =>
      obtain ⟨record, hr, _⟩ := h.record_key hs
      cases ht : rdf.state.residents[target]? with
      | none => exact ⟨.error (.unknownTarget target), by simp [hr]⟩
      | some _ => exact ⟨.ok _, by simp only [hr]; rfl⟩

end Coherent

/-! ## Commands keep the invariant and reach no assertion -/

theorem unregisterResident_ok {rdf : Rdf O M G} (h : Coherent rdf) (i : ResidentInstanceId) :
    ∃ out, unregisterResident rdf i = .ok out := by
  unfold unregisterResident
  cases hi : rdf.state.byInstance[i]? with
  | none => exact ⟨_, rfl⟩
  | some key =>
      obtain ⟨record, hr, _⟩ := h.record_key hi
      have hmem : i ∈ rdf.residentStore.instances :=
        (h.stored i).mpr (ExtTreeMap.mem_iff_isSome_getElem?.mpr (by rw [hi]; rfl))
      obtain ⟨r, hs⟩ := Option.isSome_iff_exists.mp (ExtTreeMap.mem_iff_isSome_getElem?.mp hmem)
      simp only [hr, ResidentStore.remove, hs]
      exact ⟨_, rfl⟩

theorem unregisterResident_coherent {rdf : Rdf O M G} (h : Coherent rdf)
    {i : ResidentInstanceId} {out : Outcome O M G ResidentDescriptor}
    (hout : unregisterResident rdf i = .ok out) : Coherent out.rdf := by
  cases unregisterResident_step hout with
  | unknown _ => exact h
  | retired key record hi _ => exact h.retire hi

variable [DecidableEq O]

theorem registerResident_ok {rdf : Rdf O M G} (h : Coherent rdf) (answers : Answers M)
    (r : Resident O M G) : ∃ out, registerResident answers rdf r = .ok out := by
  unfold registerResident
  cases hi : rdf.residentStore.instanceId r with
  | some i => exact ⟨_, rfl⟩
  | none =>
      by_cases hn : rdf.residentStore.nextInstanceId < u64Max
      · simp only [ResidentStore.reserveInstanceId, if_pos hn]
        cases hk : rdf.state.residents[r.descriptor.key]? with
        | some existing => exact ⟨_, rfl⟩
        | none =>
            have hfree : rdf.residentStore.instances.contains
                (rdf.residentStore.nextInstanceId + 1) = false := by
              rw [← Bool.not_eq_true, ExtTreeMap.contains_iff_mem]
              exact h.fresh_instances
            simp only [ResidentStore.insert, hfree]
            exact ⟨_, rfl⟩
      · simp only [ResidentStore.reserveInstanceId, if_neg hn]
        exact ⟨_, rfl⟩

theorem registerResident_coherent {rdf : Rdf O M G} (h : Coherent rdf) {answers : Answers M}
    {r : Resident O M G} {out : Outcome O M G RegistrationReceipt}
    (hout : registerResident answers rdf r = .ok out) : Coherent out.rdf := by
  cases registerResident_step hout with
  | alreadyRegistered _ _ => exact h
  | exhausted _ _ => exact h
  | duplicate _ _ _ _ => exact h.burn
  | committed hobj _ hkey => exact h.commit hobj hkey

/-- The loop takes one command and has handled it. -/
def Handles (rdf : Rdf O M G) (e : Handled O M G) (rdf' : Rdf O M G) : Prop :=
  handleCommand rdf e.command = .ok (e, rdf')

theorem handleCommand_command {rdf rdf' : Rdf O M G} {c : Command O M G} {e : Handled O M G}
    (h : handleCommand rdf c = .ok (e, rdf')) : e.command = c := by
  cases c with
  | register r answers =>
      cases hout : registerResident answers rdf r with
      | error p => simp [handleCommand, hout, Except.map] at h
      | ok out =>
          simp only [handleCommand, hout, Except.map, Except.ok.injEq, Prod.mk.injEq] at h
          rw [← h.1]
  | unregister i =>
      cases hout : unregisterResident rdf i with
      | error p => simp [handleCommand, hout, Except.map] at h
      | ok out =>
          simp only [handleCommand, hout, Except.map, Except.ok.injEq, Prod.mk.injEq] at h
          rw [← h.1]

/-- What a handled command was, with the outcome of its half of the loop. -/
inductive HandleStep (rdf : Rdf O M G) : Handled O M G → Rdf O M G → Prop
  | register (r : Resident O M G) (answers : Answers M)
      (out : Outcome O M G RegistrationReceipt) : registerResident answers rdf r = .ok out →
      HandleStep rdf ⟨.register r answers, .registered out.reply, out.offers⟩ out.rdf
  | unregister (i : ResidentInstanceId) (out : Outcome O M G ResidentDescriptor) :
      unregisterResident rdf i = .ok out →
      HandleStep rdf ⟨.unregister i, .unregistered out.reply, out.offers⟩ out.rdf

theorem Handles.step {rdf rdf' : Rdf O M G} {e : Handled O M G} (h : Handles rdf e rdf') :
    HandleStep rdf e rdf' := by
  obtain ⟨command, reply, offers⟩ := e
  unfold Handles at h
  cases command with
  | register r answers =>
      cases hout : registerResident answers rdf r with
      | error p => simp [handleCommand, hout, Except.map] at h
      | ok out =>
          simp only [handleCommand, hout, Except.map, Except.ok.injEq, Prod.mk.injEq,
            Handled.mk.injEq, true_and] at h
          obtain ⟨⟨rfl, rfl⟩, rfl⟩ := h
          exact .register r answers out hout
  | unregister i =>
      cases hout : unregisterResident rdf i with
      | error p => simp [handleCommand, hout, Except.map] at h
      | ok out =>
          simp only [handleCommand, hout, Except.map, Except.ok.injEq, Prod.mk.injEq,
            Handled.mk.injEq, true_and] at h
          obtain ⟨⟨rfl, rfl⟩, rfl⟩ := h
          exact .unregister i out hout

theorem Handles.coherent {rdf rdf' : Rdf O M G} {e : Handled O M G} (h : Coherent rdf)
    (he : Handles rdf e rdf') : Coherent rdf' := by
  cases he.step with
  | register r answers out hout => exact registerResident_coherent h hout
  | unregister i out hout => exact unregisterResident_coherent h hout

theorem handleCommand_ok {rdf : Rdf O M G} (h : Coherent rdf) (c : Command O M G) :
    ∃ e rdf', handleCommand rdf c = .ok (e, rdf') := by
  cases c with
  | register r answers =>
      obtain ⟨out, hout⟩ := registerResident_ok h answers r
      exact ⟨_, _, by simp only [handleCommand, hout]; rfl⟩
  | unregister i =>
      obtain ⟨out, hout⟩ := unregisterResident_ok h i
      exact ⟨_, _, by simp only [handleCommand, hout]; rfl⟩

/-! ## Whole runs of the loop -/

theorem runCommands_run {rdf rdf' : Rdf O M G} {cs : List (Command O M G)}
    {es : List (Handled O M G)} (h : runCommands rdf cs = .ok (es, rdf')) :
    Executions.Run Handles rdf es rdf' := by
  induction cs generalizing rdf es with
  | nil =>
      simp only [runCommands, Except.ok.injEq, Prod.mk.injEq] at h
      obtain ⟨rfl, rfl⟩ := h
      exact .nil _
  | cons c cs ih =>
      cases hc : handleCommand rdf c with
      | error p => simp [runCommands, hc] at h
      | ok p =>
          obtain ⟨e, mid⟩ := p
          cases hrest : runCommands mid cs with
          | error p => simp [runCommands, hc, hrest, Except.map] at h
          | ok rest =>
              simp only [runCommands, hc, hrest, Except.map, Except.ok.injEq, Prod.mk.injEq] at h
              obtain ⟨rfl, rfl⟩ := h
              refine .cons ?_ (ih hrest)
              rw [Handles, handleCommand_command hc]
              exact hc

theorem runCommands_ok {rdf : Rdf O M G} (h : Coherent rdf) (cs : List (Command O M G)) :
    ∃ es rdf', runCommands rdf cs = .ok (es, rdf') ∧ Coherent rdf' := by
  induction cs generalizing rdf with
  | nil => exact ⟨[], rdf, rfl, h⟩
  | cons c cs ih =>
      obtain ⟨e, mid, hc⟩ := handleCommand_ok h c
      have hmid : Coherent mid :=
        Handles.coherent h (by rw [Handles, handleCommand_command hc]; exact hc)
      obtain ⟨es, rdf', hcs, h'⟩ := ih hmid
      exact ⟨e :: es, rdf', by simp only [runCommands, hc, hcs]; rfl, h'⟩

theorem run_coherent {rdf rdf' : Rdf O M G} {es : List (Handled O M G)}
    (hr : Executions.Run Handles rdf es rdf') (h : Coherent rdf) : Coherent rdf' :=
  hr.invariant (fun _ _ _ hs step => step.coherent hs) h

/-- Every command list runs through from the empty flow. In the state it reaches
the maps and the store agree, and neither the route resolution nor any further
command runs into an assertion. -/
theorem directory_and_store_agree (cs : List (Command O M G)) :
    ∃ es rdf, runCommands (new : Rdf O M G) cs = .ok (es, rdf) ∧ Coherent rdf ∧
      (∀ source target, ∃ route, resolveRoute rdf source target = .ok route) ∧
      (∀ c, ∃ out, handleCommand rdf c = .ok out) := by
  obtain ⟨es, rdf, hrun, h⟩ := runCommands_ok Coherent.of_new cs
  refine ⟨es, rdf, hrun, h, h.resolveRoute_ok, fun c => ?_⟩
  obtain ⟨e, rdf', hc⟩ := handleCommand_ok h c
  exact ⟨_, hc⟩

end NormaHarness.RegistrationFlow
