import NormaHarness.IndexedSets
import NormaHarness.RegistrationIdentity

/-!
# The data flow refines a registry

A registry is a counter and a finite set of live entries in which a name, an
object and an identity stand for one entry each. The two directory maps and the
store index this one set under three different keys, and that is the whole
simulation relation: commands change the set by one entry and every query reads
the set through one of the three maps.
-/
namespace NormaHarness.RegistrationFlow
open Std Identifiers Contracts IndexedSets

variable {O M G : Type}

/-! ## The registry -/

structure Endpoints (M G : Type) where
  mailbox : M
  outboundGate : Option G
  inboundGate : Option G

structure Entry (O M G : Type) where
  instanceId : ResidentInstanceId
  name : ResidentKey
  object : O
  descriptor : ResidentDescriptor
  endpoints : Endpoints M G

namespace Entry

/-- The entry a resident takes under a reserved identity. -/
def of (i : ResidentInstanceId) (r : Resident O M G) : Entry O M G :=
  ⟨i, r.descriptor.key, r.object, r.descriptor, ⟨r.mailbox, r.outboundGate, r.inboundGate⟩⟩

/-- What the directory records of an entry. -/
def record (e : Entry O M G) : RegistrationRecord M G :=
  ⟨e.instanceId, e.descriptor, e.endpoints.mailbox, e.endpoints.outboundGate,
    e.endpoints.inboundGate⟩

/-- What the store keeps of an entry. -/
def resident (e : Entry O M G) : Resident O M G :=
  ⟨e.object, e.descriptor, e.endpoints.mailbox, e.endpoints.outboundGate,
    e.endpoints.inboundGate⟩

end Entry

structure Registry (O M G : Type) where
  counter : ℕ
  live : Set (Entry O M G)
  finite : live.Finite
  named : ∀ e ∈ live, e.name = e.descriptor.key
  oneName : live.InjOn Entry.name
  oneObject : live.InjOn Entry.object
  oneIdentity : live.InjOn Entry.instanceId
  issued : ∀ e ∈ live, 1 ≤ e.instanceId ∧ e.instanceId ≤ counter

namespace Registry

def ObjectFree (g : Registry O M G) (o : O) : Prop := ∀ e ∈ g.live, e.object ≠ o

def NameFree (g : Registry O M G) (key : ResidentKey) : Prop := ∀ e ∈ g.live, e.name ≠ key

def Unknown (g : Registry O M G) (i : ResidentInstanceId) : Prop :=
  ∀ e ∈ g.live, e.instanceId ≠ i

def empty : Registry O M G where
  counter := 0
  live := ∅
  finite := Set.finite_empty
  named := by simp
  oneName := by simp
  oneObject := by simp
  oneIdentity := by simp
  issued := by simp

/-- One identity is used up and no entry carries it. -/
def spend (g : Registry O M G) : Registry O M G :=
  {g with
    counter := g.counter + 1
    issued := fun e he => ⟨(g.issued e he).1, (g.issued e he).2.trans (Nat.le_succ _)⟩}

theorem unknown_next (g : Registry O M G) : g.Unknown (g.counter + 1) := by
  intro e he hid
  have := (g.issued e he).2
  rw [hid] at this
  exact absurd this (Nat.not_succ_le_self _)

def add (g : Registry O M G) (r : Resident O M G) (hobject : g.ObjectFree r.object)
    (hname : g.NameFree r.descriptor.key) : Registry O M G where
  counter := g.counter + 1
  live := insert (Entry.of (g.counter + 1) r) g.live
  finite := g.finite.insert _
  named := by
    rintro e (rfl | he)
    · rfl
    · exact g.named e he
  oneName := (Set.injOn_insert fun he => hname _ he rfl).mpr
    ⟨g.oneName, by rintro ⟨e, he, h⟩; exact hname e he h⟩
  oneObject := (Set.injOn_insert fun he => hname _ he rfl).mpr
    ⟨g.oneObject, by rintro ⟨e, he, h⟩; exact hobject e he h⟩
  oneIdentity := (Set.injOn_insert fun he => hname _ he rfl).mpr
    ⟨g.oneIdentity, by rintro ⟨e, he, h⟩; exact g.unknown_next e he h⟩
  issued := by
    rintro e (rfl | he)
    · exact ⟨Nat.succ_le_succ (Nat.zero_le _), le_rfl⟩
    · exact ⟨(g.issued e he).1, (g.issued e he).2.trans (Nat.le_succ _)⟩

def remove (g : Registry O M G) (e : Entry O M G) : Registry O M G where
  counter := g.counter
  live := g.live \ {e}
  finite := g.finite.sdiff
  named a ha := g.named a ha.1
  oneName := g.oneName.mono Set.sdiff_subset
  oneObject := g.oneObject.mono Set.sdiff_subset
  oneIdentity := g.oneIdentity.mono Set.sdiff_subset
  issued a ha := g.issued a ha.1

/-! ## What a command must do and what a query must answer -/

/-- The descriptors of the selected entries, each one once, in name order. -/
def Lists (g : Registry O M G) (p : Entry O M G → Prop) (l : List ResidentDescriptor) : Prop :=
  Listing l g.live p ResidentDescriptor.key Entry.descriptor

structure Registers (g : Registry O M G) (r : Resident O M G)
    (reply : Except RegistrationError RegistrationReceipt) (g' : Registry O M G) : Prop where
  succeeds : (∃ receipt, reply = .ok receipt) ↔
    g.ObjectFree r.object ∧ g.counter < u64Max ∧ g.NameFree r.descriptor.key
  adds : ∀ receipt, reply = .ok receipt →
    receipt.instanceId = g.counter + 1 ∧ g.Lists (fun _ => True) receipt.existingResidents ∧
      g'.counter = g.counter + 1 ∧ g'.live = insert (Entry.of (g.counter + 1) r) g.live
  objectLive : ∀ e ∈ g.live, e.object = r.object →
    reply = .error (.instanceAlreadyRegistered e.instanceId e.name) ∧ g' = g
  exhausted : g.ObjectFree r.object → u64Max ≤ g.counter →
    reply = .error .instanceIdExhausted ∧ g' = g
  nameTaken : g.ObjectFree r.object → g.counter < u64Max →
    ∀ e ∈ g.live, e.name = r.descriptor.key →
      reply = .error (.duplicateResident e.name e.instanceId (g.counter + 1)) ∧ g' = g.spend

structure Unregisters (g : Registry O M G) (i : ResidentInstanceId)
    (reply : Except RegistrationError ResidentDescriptor) (g' : Registry O M G) : Prop where
  removes : ∀ e ∈ g.live, e.instanceId = i → reply = .ok e.descriptor ∧ g' = g.remove e
  unknown : g.Unknown i → reply = .error (.unknownRegistration i) ∧ g' = g

inductive Handles (g : Registry O M G) : Command O M G × Reply → Registry O M G → Prop
  | register {r : Resident O M G} {answers : Answers M}
      {reply : Except RegistrationError RegistrationReceipt} {g' : Registry O M G} :
      g.Registers r reply g' → Handles g (.register r answers, .registered reply) g'
  | unregister {i : ResidentInstanceId} {reply : Except RegistrationError ResidentDescriptor}
      {g' : Registry O M G} :
      g.Unregisters i reply g' → Handles g (.unregister i, .unregistered reply) g'

structure Routes (g : Registry O M G) (source : ResidentInstanceId) (target : ResidentKey)
    (result : Except RouteError (RouteResolution M G)) : Prop where
  unknownSource : g.Unknown source → result = .error (.unknownSource source)
  unknownTarget : ∀ s ∈ g.live, s.instanceId = source → g.NameFree target →
    result = .error (.unknownTarget target)
  resolved : ∀ s ∈ g.live, s.instanceId = source → ∀ t ∈ g.live, t.name = target →
    result = .ok ⟨s.name, t.name, s.endpoints.outboundGate, t.endpoints.inboundGate,
      t.endpoints.mailbox⟩

end Registry

/-- Every query of the data flow answers from the registry. -/
structure Answered (rdf : Rdf O M G) (g : Registry O M G) : Prop where
  isRegistered : ∀ i, isRegistered rdf i = true ↔ ∃ e ∈ g.live, e.instanceId = i
  resident : ∀ key d, resident rdf key = some d ↔ ∃ e ∈ g.live, e.name = key ∧ e.descriptor = d
  residents : g.Lists (fun _ => True) (residents rdf)
  providers : ∀ c, g.Lists (fun e => e.descriptor.provides c = true) (providers rdf c)
  residentCount : residentCount rdf = g.live.ncard
  storedInstanceCount : storedInstanceCount rdf = g.live.ncard
  routes : ∀ source target, ∃ result,
    resolveRoute rdf source target = .ok result ∧ g.Routes source target result

/-! ## The simulation relation -/

structure Represents (rdf : Rdf O M G) (g : Registry O M G) : Prop where
  counter : rdf.residentStore.nextInstanceId = g.counter
  directory : Indexes rdf.state.residents g.live Entry.name Entry.record
  index : Indexes rdf.state.byInstance g.live Entry.instanceId Entry.name
  store : Indexes rdf.residentStore.instances g.live Entry.instanceId Entry.resident

theorem ResidentStore.instanceId_some [DecidableEq O] {s : ResidentStore O M G}
    {r : Resident O M G} {i : ResidentInstanceId} (h : s.instanceId r = some i) :
    ∃ stored, s.instances[i]? = some stored ∧ stored.object = r.object := by
  obtain ⟨p, hp, hi⟩ := List.exists_of_findSome?_eq_some h
  split_ifs at hi with hobject
  obtain rfl := Option.some.inj hi
  exact ⟨p.2, ExtTreeMap.mem_toList_iff_getElem?_eq_some.mp hp, hobject⟩

namespace Represents

theorem of_new : Represents (new : Rdf O M G) Registry.empty :=
  ⟨rfl, .empty, .empty, .empty⟩

variable {rdf : Rdf O M G} {g : Registry O M G}

theorem coherent (h : Represents rdf g) : Coherent rdf where
  inverse i key := by
    rw [h.index]
    constructor
    · rintro ⟨e, he, hi, hk⟩
      exact ⟨e.record, (h.directory _ _).mpr ⟨e, he, hk, rfl⟩, hi⟩
    · rintro ⟨record, hr, hi⟩
      obtain ⟨e, he, hk, rfl⟩ := (h.directory _ _).mp hr
      exact ⟨e, he, hi, hk⟩
  keyed key record hr := by
    obtain ⟨e, he, hk, rfl⟩ := (h.directory _ _).mp hr
    exact (g.named e he).symm.trans hk
  stored i := by rw [h.store.mem_iff, h.index.mem_iff]
  distinct i j a b ha hb hab := by
    obtain ⟨d, hd, rfl, rfl⟩ := (h.store _ _).mp ha
    obtain ⟨e, he, rfl, rfl⟩ := (h.store _ _).mp hb
    rw [g.oneObject hd he hab]
  issued i hi := by
    obtain ⟨e, he, rfl⟩ := h.index.mem_iff.mp hi
    rw [h.counter]
    exact g.issued e he

/-! ## One command -/

theorem live_of_instanceId [DecidableEq O] (h : Represents rdf g) {r : Resident O M G}
    {i : ResidentInstanceId} (hi : rdf.residentStore.instanceId r = some i) :
    ∃ e ∈ g.live, e.instanceId = i ∧ e.object = r.object := by
  obtain ⟨stored, hs, hobject⟩ := ResidentStore.instanceId_some hi
  obtain ⟨e, he, hid, rfl⟩ := (h.store _ _).mp hs
  exact ⟨e, he, hid, hobject⟩

theorem objectFree_iff [DecidableEq O] (h : Represents rdf g) {r : Resident O M G} :
    rdf.residentStore.instanceId r = none ↔ g.ObjectFree r.object := by
  rw [ResidentStore.instanceId_eq_none]
  constructor
  · intro hnone e he
    exact hnone _ _ (h.store.get he)
  · intro hfree i stored hs
    obtain ⟨e, he, _, rfl⟩ := (h.store _ _).mp hs
    exact hfree e he

theorem lists_residents (h : Represents rdf g) : g.Lists (fun _ => True) (residents rdf) where
  ascending := by
    have hd : rdf.state.residents.toList.Pairwise fun a b => compare a.1 b.1 = .lt :=
      rdf.state.residents.ordered_keys_toList
    refine List.pairwise_map.mpr (hd.imp_of_mem ?_)
    intro a b ha hb hab
    obtain ⟨e, he, rfl⟩ := h.directory.mem_toList.mp ha
    obtain ⟨d, hd, rfl⟩ := h.directory.mem_toList.mp hb
    rw [g.named e he, g.named d hd] at hab
    exact hab
  members d := by
    unfold residents
    rw [List.mem_map]
    constructor
    · rintro ⟨p, hp, rfl⟩
      obtain ⟨e, he, rfl⟩ := h.directory.mem_toList.mp hp
      exact ⟨e, he, trivial, rfl⟩
    · rintro ⟨e, he, _, rfl⟩
      exact ⟨_, h.directory.mem_toList.mpr ⟨e, he, rfl⟩, rfl⟩

theorem lists_providers (h : Represents rdf g) (c : CapabilityKey) :
    g.Lists (fun e => e.descriptor.provides c = true) (providers rdf c) := by
  have hfilter : providers rdf c = (residents rdf).filter fun d => d.provides c := by
    unfold providers residents
    rw [List.filter_map]
    rfl
  rw [hfilter]
  refine ⟨h.lists_residents.ascending.sublist List.filter_sublist, fun d => ?_⟩
  rw [List.mem_filter, h.lists_residents.members]
  constructor
  · rintro ⟨⟨e, he, _, rfl⟩, hc⟩
    exact ⟨e, he, hc, rfl⟩
  · rintro ⟨e, he, hc, rfl⟩
    exact ⟨⟨e, he, trivial, rfl⟩, hc⟩

theorem spend (h : Represents rdf g) : Represents (burn rdf) g.spend :=
  ⟨congrArg (· + 1) h.counter, h.directory, h.index, h.store⟩

theorem add [DecidableEq O] (h : Represents rdf g) {r : Resident O M G}
    (hobject : g.ObjectFree r.object) (hname : g.NameFree r.descriptor.key) :
    Represents (commit rdf r) (g.add r hobject hname) := by
  have hid : freshId rdf = g.counter + 1 := congrArg (· + 1) h.counter
  have hd := h.directory.insert (a := Entry.of (g.counter + 1) r) hname
  have hi := h.index.insert (a := Entry.of (g.counter + 1) r) g.unknown_next
  have hs := h.store.insert (a := Entry.of (g.counter + 1) r) g.unknown_next
  rw [← hid] at hd hi hs
  refine ⟨hid, ?_, ?_, ?_⟩
  · simp only [Registry.add, ← hid]
    exact hd
  · simp only [Registry.add, ← hid]
    exact hi
  · simp only [Registry.add, ← hid]
    exact hs

theorem remove (h : Represents rdf g) {e : Entry O M G} (he : e ∈ g.live) :
    Represents (retire rdf e.instanceId e.name) (g.remove e) :=
  ⟨h.counter, h.directory.erase g.oneName he, h.index.erase g.oneIdentity he,
    h.store.erase g.oneIdentity he⟩

theorem register [DecidableEq O] (h : Represents rdf g) {answers : Answers M}
    {r : Resident O M G} {out : Outcome O M G RegistrationReceipt}
    (hstep : RegisterStep answers rdf r out) :
    ∃ g', g.Registers r out.reply g' ∧ Represents out.rdf g' := by
  cases hstep with
  | alreadyRegistered i hi =>
      obtain ⟨e, he, rfl, hobject⟩ := h.live_of_instanceId hi
      have hkey : rdf.state.byInstance[e.instanceId]? = some e.name := h.index.get he
      rw [hkey]
      refine ⟨g, ⟨?_, ?_, ?_, ?_, ?_⟩, h⟩
      · constructor
        · rintro ⟨receipt, hr⟩
          cases hr
        · rintro ⟨hfree, _⟩
          exact absurd hobject (hfree e he)
      · intro receipt hr
        cases hr
      · intro d hd hdo
        obtain rfl := g.oneObject hd he (hdo.trans hobject.symm)
        exact ⟨rfl, rfl⟩
      · intro hfree
        exact absurd hobject (hfree e he)
      · intro hfree
        exact absurd hobject (hfree e he)
  | exhausted hi hn =>
      have hfree := h.objectFree_iff.mp hi
      rw [h.counter] at hn
      refine ⟨g, ⟨?_, ?_, ?_, ?_, ?_⟩, h⟩
      · constructor
        · rintro ⟨receipt, hr⟩
          cases hr
        · rintro ⟨_, hlt, _⟩
          exact absurd hlt hn
      · intro receipt hr
        cases hr
      · intro e he heo
        exact absurd heo (hfree e he)
      · intro _ _
        exact ⟨rfl, rfl⟩
      · intro _ hlt
        exact absurd hlt hn
  | duplicate existing hi hn hk =>
      have hfree := h.objectFree_iff.mp hi
      rw [h.counter] at hn
      obtain ⟨e, he, hname, rfl⟩ := (h.directory _ _).mp hk
      refine ⟨g.spend, ⟨?_, ?_, ?_, ?_, ?_⟩, h.spend⟩
      · constructor
        · rintro ⟨receipt, hr⟩
          cases hr
        · rintro ⟨_, _, hfreeName⟩
          exact absurd hname (hfreeName e he)
      · intro receipt hr
        cases hr
      · intro d hd hdo
        exact absurd hdo (hfree d hd)
      · intro _ hle
        exact absurd hn (Nat.not_lt.mpr hle)
      · intro _ _ d hd hdn
        obtain rfl := g.oneName hd he (hdn.trans hname.symm)
        rw [hdn, freshId, h.counter]
        exact ⟨rfl, rfl⟩
  | committed hi hn hk =>
      have hfree := h.objectFree_iff.mp hi
      have hfreeName : g.NameFree r.descriptor.key := h.directory.get_eq_none.mp hk
      rw [h.counter] at hn
      refine ⟨g.add r hfree hfreeName, ⟨?_, ?_, ?_, ?_, ?_⟩, h.add hfree hfreeName⟩
      · exact ⟨fun _ => ⟨hfree, hn, hfreeName⟩, fun _ => ⟨_, rfl⟩⟩
      · intro receipt hr
        obtain rfl := Except.ok.inj hr
        exact ⟨congrArg (· + 1) h.counter, h.lists_residents, rfl, rfl⟩
      · intro e he heo
        exact absurd heo (hfree e he)
      · intro _ hle
        exact absurd hn (Nat.not_lt.mpr hle)
      · intro _ _ e he hen
        exact absurd hen (hfreeName e he)

theorem unregister (h : Represents rdf g) {i : ResidentInstanceId}
    {out : Outcome O M G ResidentDescriptor} (hstep : UnregisterStep rdf i out) :
    ∃ g', g.Unregisters i out.reply g' ∧ Represents out.rdf g' := by
  cases hstep with
  | unknown hi =>
      have hunknown : g.Unknown i := h.index.get_eq_none.mp hi
      refine ⟨g, ⟨?_, fun _ => ⟨rfl, rfl⟩⟩, h⟩
      intro e he hid
      exact absurd hid (hunknown e he)
  | retired key record hi hk =>
      obtain ⟨e, he, rfl, rfl⟩ := (h.index _ _).mp hi
      rw [h.directory.get he] at hk
      obtain rfl := Option.some.inj hk
      refine ⟨g.remove e, ⟨?_, ?_⟩, h.remove he⟩
      · intro d hd hid
        obtain rfl := g.oneIdentity hd he hid
        exact ⟨rfl, rfl⟩
      · intro hunknown
        exact absurd rfl (hunknown e he)

theorem handle [DecidableEq O] (h : Represents rdf g) {rdf' : Rdf O M G} {e : Handled O M G}
    (hstep : RegistrationFlow.Handles rdf e rdf') :
    ∃ g', g.Handles (e.command, e.reply) g' ∧ Represents rdf' g' := by
  cases hstep.step with
  | register r answers out hout =>
      obtain ⟨g', hg, h'⟩ := h.register (registerResident_step hout)
      exact ⟨g', .register hg, h'⟩
  | unregister i out hout =>
      obtain ⟨g', hg, h'⟩ := h.unregister (unregisterResident_step hout)
      exact ⟨g', .unregister hg, h'⟩

/-! ## Queries -/

theorem resolves (h : Represents rdf g) (source : ResidentInstanceId) (target : ResidentKey) :
    ∃ result, resolveRoute rdf source target = .ok result ∧ g.Routes source target result := by
  cases hs : rdf.state.byInstance[source]? with
  | none =>
      have hunknown : g.Unknown source := h.index.get_eq_none.mp hs
      refine ⟨.error (.unknownSource source), by rw [resolveRoute, hs], fun _ => rfl, ?_, ?_⟩
      · intro s hs hid
        exact absurd hid (hunknown s hs)
      · intro s hs hid
        exact absurd hid (hunknown s hs)
  | some key =>
      obtain ⟨s, hmem, rfl, rfl⟩ := (h.index _ _).mp hs
      have hrecord := h.directory.get hmem
      cases ht : rdf.state.residents[target]? with
      | none =>
          have hfree : g.NameFree target := h.directory.get_eq_none.mp ht
          refine ⟨.error (.unknownTarget target), by simp only [resolveRoute, hs, hrecord, ht],
            ?_, fun _ _ _ _ => rfl, ?_⟩
          · intro hunknown
            exact absurd rfl (hunknown s hmem)
          · intro _ _ _ t hmem' hname
            exact absurd hname (hfree t hmem')
      | some record =>
          obtain ⟨t, hmem', rfl, rfl⟩ := (h.directory _ _).mp ht
          refine ⟨.ok _, by simp only [resolveRoute, hs, hrecord, ht]; rfl, ?_, ?_, ?_⟩
          · intro hunknown
            exact absurd rfl (hunknown s hmem)
          · intro _ _ _ hfree
            exact absurd rfl (hfree t hmem')
          · intro s' hs' hid t' ht' hname
            obtain rfl := g.oneIdentity hs' hmem hid
            obtain rfl := g.oneName ht' hmem' hname
            rfl

theorem answered (h : Represents rdf g) : Answered rdf g where
  isRegistered i := by
    unfold RegistrationFlow.isRegistered
    rw [ExtTreeMap.contains_iff_mem, h.index.mem_iff]
  resident key d := by
    unfold RegistrationFlow.resident
    rw [Option.map_eq_some_iff]
    constructor
    · rintro ⟨record, hr, rfl⟩
      obtain ⟨e, he, hname, rfl⟩ := (h.directory _ _).mp hr
      exact ⟨e, he, hname, rfl⟩
    · rintro ⟨e, he, hname, rfl⟩
      exact ⟨e.record, (h.directory _ _).mpr ⟨e, he, hname, rfl⟩, rfl⟩
  residents := h.lists_residents
  providers := h.lists_providers
  residentCount := h.directory.size g.oneName
  storedInstanceCount := h.store.size g.oneIdentity
  routes := h.resolves

end Represents

/-! ## Whole runs -/

theorem run_represented [DecidableEq O] {rdf rdf' : Rdf O M G} {es : List (Handled O M G)}
    {g : Registry O M G} (hrun : Executions.Run Handles rdf es rdf') (h : Represents rdf g) :
    ∃ g', Executions.Run Registry.Handles g (es.map fun e => (e.command, e.reply)) g' ∧
      Represents rdf' g' := by
  induction hrun generalizing g with
  | nil s => exact ⟨g, .nil g, h⟩
  | cons hstep _ ih =>
      obtain ⟨mid, hg, hmid⟩ := h.handle hstep
      obtain ⟨g', hrest, h'⟩ := ih hmid
      exact ⟨g', .cons hg hrest, h'⟩

theorem runCommands_commands [DecidableEq O] {rdf rdf' : Rdf O M G} {cs : List (Command O M G)}
    {es : List (Handled O M G)} (h : runCommands rdf cs = .ok (es, rdf')) :
    es.map Handled.command = cs := by
  induction cs generalizing rdf es with
  | nil =>
      simp only [runCommands, Except.ok.injEq, Prod.mk.injEq] at h
      rw [← h.1]
      rfl
  | cons c cs ih =>
      cases hc : handleCommand rdf c with
      | error p => simp [runCommands, hc] at h
      | ok p =>
          cases hrest : runCommands p.2 cs with
          | error p => simp [runCommands, hc, hrest, Except.map] at h
          | ok rest =>
              simp only [runCommands, hc, hrest, Except.map, Except.ok.injEq, Prod.mk.injEq] at h
              obtain ⟨rfl, rfl⟩ := h
              rw [List.map_cons, ih hrest, handleCommand_command hc]

/-- Every command list runs through, its replies are those of a run of the
registry, and every query in the state reached answers from the registry reached. -/
theorem rdf_refines_registry [DecidableEq O] (cs : List (Command O M G)) :
    ∃ es rdf g, runCommands (new : Rdf O M G) cs = .ok (es, rdf) ∧
      es.map Handled.command = cs ∧
      Executions.Run Registry.Handles Registry.empty
        (es.map fun e => (e.command, e.reply)) g ∧
      Answered rdf g := by
  obtain ⟨es, rdf, hrun, _⟩ := runCommands_ok Coherent.of_new cs
  obtain ⟨g, hg, h⟩ := run_represented (runCommands_run hrun) Represents.of_new
  exact ⟨es, rdf, g, hrun, runCommands_commands hrun, hg, h.answered⟩

end NormaHarness.RegistrationFlow
