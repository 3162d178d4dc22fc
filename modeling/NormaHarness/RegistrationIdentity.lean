import NormaHarness.RegistrationInvariant

/-!
# Identities are spent once

The counter never moves back and every receipt carries the value it has just
reached. An identity that has left the directory therefore lies at or below the
counter for the rest of the run, and no registration can issue it again. Values
burnt by a rejected name are covered by the same bound.
-/
namespace NormaHarness.RegistrationFlow
open Std Identifiers Contracts

variable {O M G : Type}

/-- The identity carried by a successful receipt. -/
def issuedId (e : Handled O M G) : Option ResidentInstanceId :=
  match e.reply with
  | .registered (.ok receipt) => some receipt.instanceId
  | _ => none

def issuedIds (es : List (Handled O M G)) : List ResidentInstanceId := es.filterMap issuedId

/-- The identity whose registration this command ended. -/
def retiredId (e : Handled O M G) : Option ResidentInstanceId :=
  match e.command, e.reply with
  | .unregister i, .unregistered (.ok _) => some i
  | _, _ => none

structure Retired (i : ResidentInstanceId) (rdf : Rdf O M G) : Prop where
  spent : i ≤ rdf.residentStore.nextInstanceId
  absent : rdf.state.byInstance[i]? = none

namespace Retired

variable {i : ResidentInstanceId} {rdf : Rdf O M G}

theorem isRegistered (h : Retired i rdf) : isRegistered rdf i = false := by
  unfold RegistrationFlow.isRegistered
  rw [ExtTreeMap.contains_eq_isSome_getElem?, h.absent]
  rfl

theorem resolveRoute (h : Retired i rdf) (target : ResidentKey) :
    resolveRoute rdf i target = .ok (.error (.unknownSource i)) := by
  unfold RegistrationFlow.resolveRoute
  rw [h.absent]

theorem unregisterResident (h : Retired i rdf) :
    unregisterResident rdf i = .ok ⟨.error (.unknownRegistration i), rdf, []⟩ := by
  unfold RegistrationFlow.unregisterResident
  rw [h.absent]

theorem not_freshId (h : Retired i rdf) : freshId rdf ≠ i := by
  intro he
  have hlt : rdf.residentStore.nextInstanceId < i := he ▸ Nat.lt_succ_self _
  exact absurd h.spent (Nat.not_le_of_gt hlt)

end Retired

variable [DecidableEq O]

/-- A step moves the counter forward, and a receipt carries the value reached. -/
theorem Handles.counter {rdf rdf' : Rdf O M G} {e : Handled O M G} (h : Handles rdf e rdf') :
    rdf.residentStore.nextInstanceId ≤ rdf'.residentStore.nextInstanceId ∧
      ∀ i, issuedId e = some i →
        rdf.residentStore.nextInstanceId < i ∧ i = rdf'.residentStore.nextInstanceId := by
  cases h.step with
  | register r answers out hout =>
      cases registerResident_step hout with
      | alreadyRegistered _ _ => exact ⟨le_rfl, fun i hi => by cases hi⟩
      | exhausted _ _ => exact ⟨le_rfl, fun i hi => by cases hi⟩
      | duplicate _ _ _ _ => exact ⟨Nat.le_succ _, fun i hi => by cases hi⟩
      | committed _ _ _ =>
          refine ⟨Nat.le_succ _, fun i hi => ?_⟩
          obtain rfl : freshId rdf = i := Option.some.inj hi
          exact ⟨Nat.lt_succ_self _, rfl⟩
  | unregister i out hout =>
      cases unregisterResident_step hout with
      | unknown _ => exact ⟨le_rfl, fun i hi => by cases hi⟩
      | retired _ _ _ _ => exact ⟨le_rfl, fun i hi => by cases hi⟩

theorem Handles.retired {rdf rdf' : Rdf O M G} {e : Handled O M G} {i : ResidentInstanceId}
    (h : Handles rdf e rdf') (hi : Retired i rdf) : Retired i rdf' := by
  refine ⟨hi.spent.trans h.counter.1, ?_⟩
  have habsent := hi.absent
  cases h.step with
  | register r answers out hout =>
      cases registerResident_step hout with
      | alreadyRegistered _ _ => exact habsent
      | exhausted _ _ => exact habsent
      | duplicate _ _ _ _ => exact habsent
      | committed _ _ _ =>
          simp only [commit, ExtTreeMap.getElem?_insert, LawfulEqOrd.compare_eq_iff_eq,
            if_neg hi.not_freshId]
          exact habsent
  | unregister j out hout =>
      cases unregisterResident_step hout with
      | unknown _ => exact habsent
      | retired _ _ _ _ =>
          simp only [retire, ExtTreeMap.getElem?_erase]
          split_ifs
          · rfl
          · exact habsent

/-- A successful unregistration leaves its identity retired. -/
theorem Handles.retires {rdf rdf' : Rdf O M G} {e : Handled O M G} {i : ResidentInstanceId}
    (h : Handles rdf e rdf') (hc : Coherent rdf) (hi : retiredId e = some i) :
    Retired i rdf' := by
  cases h.step with
  | register r answers out hout => cases hi
  | unregister j out hout =>
      cases unregisterResident_step hout with
      | unknown _ => cases hi
      | retired key record hj _ =>
          obtain rfl : j = i := Option.some.inj hi
          have hmem : j ∈ rdf.state.byInstance :=
            ExtTreeMap.mem_iff_isSome_getElem?.mpr (by rw [hj]; rfl)
          refine ⟨(hc.issued j hmem).2, ?_⟩
          simp only [retire, ExtTreeMap.getElem?_erase, ReflCmp.compare_self, if_true]

/-- Receipts of a run lie between the counter before it and the counter after it,
in ascending order. -/
theorem run_issuedIds {rdf rdf' : Rdf O M G} {es : List (Handled O M G)}
    (h : Executions.Run Handles rdf es rdf') :
    rdf.residentStore.nextInstanceId ≤ rdf'.residentStore.nextInstanceId ∧
      (∀ i ∈ issuedIds es, rdf.residentStore.nextInstanceId < i) ∧
      (issuedIds es).Pairwise (· < ·) := by
  induction h with
  | nil s => exact ⟨le_rfl, fun i hi => absurd hi List.not_mem_nil, List.Pairwise.nil⟩
  | @cons s t u e es hstep _ ih =>
      obtain ⟨hle, hnew⟩ := hstep.counter
      obtain ⟨hmono, hlow, hasc⟩ := ih
      unfold issuedIds at hlow hasc ⊢
      cases hid : issuedId e with
      | none =>
          rw [List.filterMap_cons_none hid]
          exact ⟨hle.trans hmono, fun i hi => hle.trans_lt (hlow i hi), hasc⟩
      | some j =>
          obtain ⟨hlt, hj⟩ := hnew j hid
          rw [List.filterMap_cons_some hid]
          refine ⟨hle.trans hmono, ?_, List.pairwise_cons.mpr ⟨fun i hi => ?_, hasc⟩⟩
          · intro i hi
            rcases List.mem_cons.mp hi with rfl | hi
            · exact hlt
            · exact hle.trans_lt (hlow i hi)
          · rw [hj]
            exact hlow i hi

theorem run_retired {rdf rdf' : Rdf O M G} {es : List (Handled O M G)} {i : ResidentInstanceId}
    (h : Executions.Run Handles rdf es rdf') (hi : Retired i rdf) :
    Retired i rdf' ∧ i ∉ issuedIds es := by
  refine ⟨h.invariant (fun _ _ _ hs step => step.retired hs) hi, fun hmem => ?_⟩
  have hlt : rdf.residentStore.nextInstanceId < i := (run_issuedIds h).2.1 i hmem
  exact absurd hi.spent (Nat.not_le_of_gt hlt)

/-- Whatever commands follow the end of a registration, its identity is unknown to
every query, and no receipt carries it again. -/
theorem retired_identity_never_returns {cs : List (Command O M G)} {es : List (Handled O M G)}
    {rdf : Rdf O M G} (h : runCommands new cs = .ok (es, rdf)) :
    (∀ (past future : List (Handled O M G)) (e : Handled O M G) (i : ResidentInstanceId),
      es = past ++ e :: future → retiredId e = some i →
        isRegistered rdf i = false ∧
        (∀ target, resolveRoute rdf i target = .ok (.error (.unknownSource i))) ∧
        unregisterResident rdf i = .ok ⟨.error (.unknownRegistration i), rdf, []⟩ ∧
        i ∉ issuedIds future) ∧
    (issuedIds es).Pairwise (· < ·) := by
  have hrun := runCommands_run h
  refine ⟨?_, (run_issuedIds hrun).2.2⟩
  intro past future e i hes hi
  rw [hes] at hrun
  obtain ⟨before, after, hpast, hstep, hfuture⟩ := hrun.cut
  have hretired : Retired i after :=
    hstep.retires (run_coherent hpast Coherent.of_new) hi
  obtain ⟨hend, hnot⟩ := run_retired hfuture hretired
  exact ⟨hend.isRegistered, hend.resolveRoute, hend.unregisterResident, hnot⟩

/-- An object with no capabilities and no gates, under the name `chat`. -/
def chatObject : Resident ℕ Unit Unit := ⟨7, ⟨⟨"chat", by decide⟩, ∅⟩, (), none, none⟩

def acceptAll : Answers Unit := fun _ _ => .ok ()

/-- One object leaves and comes back under its old name: it is issued a new identity. -/
theorem retired_identity_never_returns_reregistered :
    ∃ (es : List (Handled ℕ Unit Unit)) (rdf : Rdf ℕ Unit Unit),
      runCommands new [.register chatObject acceptAll, .unregister 1,
        .register chatObject acceptAll] = .ok (es, rdf) ∧
      issuedIds es = [1, 2] ∧ isRegistered rdf 1 = false ∧ (issuedIds es).Pairwise (· < ·) := by
  have hrun : runCommands new [.register chatObject acceptAll, .unregister 1,
      .register chatObject acceptAll] =
      .ok ([⟨.register chatObject acceptAll, .registered (.ok ⟨1, [], []⟩), []⟩,
        ⟨.unregister 1, .unregistered (.ok chatObject.descriptor), []⟩,
        ⟨.register chatObject acceptAll, .registered (.ok ⟨2, [], []⟩), []⟩],
        commit (burn new) chatObject) := by
    rfl
  obtain ⟨hretired, hasc⟩ := retired_identity_never_returns hrun
  exact ⟨_, _, hrun, rfl, (hretired [_] [_] _ 1 rfl rfl).1, hasc⟩

end NormaHarness.RegistrationFlow
