import NormaHarness.Contracts

/-!
# The registration data flow and its resident store

The directory maps, the reverse index and the store are three ordered maps that
one command changes under one lock. A resident is what the four trait calls
returned when the command read them, together with the identity of the object
behind the `Arc`. The environment chooses, for each mailbox a broadcast reaches,
whether that mailbox accepts the notice.

The two `expect`s, the one in route resolution and the debug assertion of the
store are outcomes of their own. A step that reaches one of them has no successor
state, so ruling them out is a statement about the commands and not a convention.
-/
namespace NormaHarness.RegistrationFlow
open Std Identifiers Contracts

/-- The assertions of this data flow. -/
inductive Panic where
  | indexesChangeTogether
  | storeChangesTogether
  | instanceIdsNeverReused
  deriving DecidableEq, Repr

def Panic.message : Panic → String
  | .indexesChangeTogether => "instance and Resident indexes must change together"
  | .storeChangesTogether => "registration and ResidentStore must change together"
  | .instanceIdsNeverReused => "Resident instance IDs are never reused"

/-- `O` is the identity of the object, `M` a mailbox handle, `G` a gate handle. -/
structure Resident (O M G : Type) where
  object : O
  descriptor : ResidentDescriptor
  mailbox : M
  outboundGate : Option G
  inboundGate : Option G

structure RegistrationRecord (M G : Type) where
  instanceId : ResidentInstanceId
  descriptor : ResidentDescriptor
  mailbox : M
  outboundGate : Option G
  inboundGate : Option G

structure RdfState (M G : Type) where
  residents : ExtTreeMap ResidentKey (RegistrationRecord M G)
  byInstance : ExtTreeMap ResidentInstanceId ResidentKey

structure ResidentStore (O M G : Type) where
  nextInstanceId : ℕ
  instances : ExtTreeMap ResidentInstanceId (Resident O M G)

structure Rdf (O M G : Type) where
  residentStore : ResidentStore O M G
  state : RdfState M G

structure RouteResolution (M G : Type) where
  sourceKey : ResidentKey
  targetKey : ResidentKey
  sourceOutboundGate : Option G
  targetInboundGate : Option G
  targetMailbox : M

/-- One delivery of a registration notice, with what its mailbox answered. The
registration is that of the record from which key and mailbox were copied. -/
structure Offer (M : Type) where
  registration : ResidentInstanceId
  resident : ResidentKey
  mailbox : M
  event : ResidentEvent
  answer : Except MailboxError Unit

/-- What the mailboxes reached by one broadcast will answer. -/
abbrev Answers (M : Type) := ResidentKey → M → Except MailboxError Unit

variable {O M G : Type} [DecidableEq O]

namespace ResidentStore

def new : ResidentStore O M G := ⟨0, ∅⟩

def reserveInstanceId (s : ResidentStore O M G) :
    Except RegistrationError (ResidentInstanceId × ResidentStore O M G) :=
  if s.nextInstanceId < u64Max then
    .ok (s.nextInstanceId + 1, {s with nextInstanceId := s.nextInstanceId + 1})
  else .error .instanceIdExhausted

def insert (s : ResidentStore O M G) (i : ResidentInstanceId) (r : Resident O M G) :
    Except Panic (ResidentStore O M G) :=
  if s.instances.contains i then .error .instanceIdsNeverReused
  else .ok {s with instances := s.instances.insert i r}

/-- `Arc::ptr_eq` against every stored instance, in ID order. -/
def instanceId (s : ResidentStore O M G) (r : Resident O M G) : Option ResidentInstanceId :=
  s.instances.toList.findSome? fun p => if p.2.object = r.object then some p.1 else none

def remove (s : ResidentStore O M G) (i : ResidentInstanceId) :
    Option (Resident O M G) × ResidentStore O M G :=
  (s.instances[i]?, {s with instances := s.instances.erase i})

def len (s : ResidentStore O M G) : ℕ := s.instances.size

end ResidentStore

/-- A command's reply, the state after it and the notices it sent. -/
structure Outcome (O M G β : Type) where
  reply : Except RegistrationError β
  rdf : Rdf O M G
  offers : List (Offer M)

def new : Rdf O M G := ⟨.new, ⟨∅, ∅⟩⟩

def recordOf (i : ResidentInstanceId) (r : Resident O M G) : RegistrationRecord M G :=
  ⟨i, r.descriptor, r.mailbox, r.outboundGate, r.inboundGate⟩

/-- Every recorded mailbox is offered the announcement, in name order. -/
def announce (answers : Answers M) (state : RdfState M G) (d : ResidentDescriptor) :
    List (Offer M) :=
  state.residents.toList.map fun p =>
    ⟨p.2.instanceId, p.2.descriptor.key, p.2.mailbox, .residentRegistered d,
      answers p.2.descriptor.key p.2.mailbox⟩

def noticeFailure (o : Offer M) : Option RegistrationNoticeFailure :=
  match o.answer with
  | .ok () => none
  | .error e => some ⟨o.resident, .mailbox e⟩

def registerResident (answers : Answers M) (rdf : Rdf O M G) (resident : Resident O M G) :
    Except Panic (Outcome O M G RegistrationReceipt) :=
  let key := resident.descriptor.key
  match rdf.residentStore.instanceId resident with
  | some i =>
      .ok ⟨.error (.instanceAlreadyRegistered i (rdf.state.byInstance[i]?.getD key)), rdf, []⟩
  | none =>
    match rdf.residentStore.reserveInstanceId with
    | .error e => .ok ⟨.error e, rdf, []⟩
    | .ok (requested, store) =>
      match rdf.state.residents[key]? with
      | some existing =>
          .ok ⟨.error (.duplicateResident key existing.instanceId requested),
            {rdf with residentStore := store}, []⟩
      | none =>
        let existing := rdf.state.residents.toList.map fun p => p.2.descriptor
        match store.insert requested resident with
        | .error p => .error p
        | .ok store =>
            let state : RdfState M G :=
              ⟨rdf.state.residents.insert key (recordOf requested resident),
                rdf.state.byInstance.insert requested key⟩
            -- The lock is released here; the snapshot taken under it is broadcast.
            let offers := announce answers rdf.state resident.descriptor
            .ok ⟨.ok ⟨requested, existing, offers.filterMap noticeFailure⟩, ⟨store, state⟩, offers⟩

def unregisterResident (rdf : Rdf O M G) (i : ResidentInstanceId) :
    Except Panic (Outcome O M G ResidentDescriptor) :=
  match rdf.state.byInstance[i]? with
  | none => .ok ⟨.error (.unknownRegistration i), rdf, []⟩
  | some key =>
    match rdf.state.residents[key]? with
    | none => .error .indexesChangeTogether
    | some record =>
      match rdf.residentStore.remove i with
      | (none, _) => .error .storeChangesTogether
      | (some _, store) =>
          .ok ⟨.ok record.descriptor,
            ⟨store, ⟨rdf.state.residents.erase key, rdf.state.byInstance.erase i⟩⟩, []⟩

def isRegistered (rdf : Rdf O M G) (i : ResidentInstanceId) : Bool :=
  rdf.state.byInstance.contains i

def residents (rdf : Rdf O M G) : List ResidentDescriptor :=
  rdf.state.residents.toList.map fun p => p.2.descriptor

def resident (rdf : Rdf O M G) (key : ResidentKey) : Option ResidentDescriptor :=
  rdf.state.residents[key]?.map fun r => r.descriptor

def providers (rdf : Rdf O M G) (capability : CapabilityKey) : List ResidentDescriptor :=
  (rdf.state.residents.toList.filter fun p => p.2.descriptor.provides capability).map
    fun p => p.2.descriptor

def residentCount (rdf : Rdf O M G) : ℕ := rdf.state.residents.size

def storedInstanceCount (rdf : Rdf O M G) : ℕ := rdf.residentStore.len

def resolveRoute (rdf : Rdf O M G) (source : ResidentInstanceId) (target : ResidentKey) :
    Except Panic (Except RouteError (RouteResolution M G)) :=
  match rdf.state.byInstance[source]? with
  | none => .ok (.error (.unknownSource source))
  | some sourceKey =>
    match rdf.state.residents[sourceKey]? with
    | none => .error .indexesChangeTogether
    | some record =>
      match rdf.state.residents[target]? with
      | none => .ok (.error (.unknownTarget target))
      | some targetRecord =>
          .ok (.ok ⟨sourceKey, target, record.outboundGate, targetRecord.inboundGate,
            targetRecord.mailbox⟩)

/-! ## The command loop -/

inductive Command (O M G : Type) where
  | register (resident : Resident O M G) (answers : Answers M)
  | unregister (instanceId : ResidentInstanceId)

inductive Reply where
  | registered (result : Except RegistrationError RegistrationReceipt)
  | unregistered (result : Except RegistrationError ResidentDescriptor)

/-- One command the loop has finished with. -/
structure Handled (O M G : Type) where
  command : Command O M G
  reply : Reply
  offers : List (Offer M)

def handleCommand (rdf : Rdf O M G) :
    Command O M G → Except Panic (Handled O M G × Rdf O M G)
  | .register resident answers =>
      (registerResident answers rdf resident).map fun out =>
        (⟨.register resident answers, .registered out.reply, out.offers⟩, out.rdf)
  | .unregister i =>
      (unregisterResident rdf i).map fun out =>
        (⟨.unregister i, .unregistered out.reply, out.offers⟩, out.rdf)

/-- The loop handles one command completely before it takes the next. -/
def runCommands (rdf : Rdf O M G) :
    List (Command O M G) → Except Panic (List (Handled O M G) × Rdf O M G)
  | [] => .ok ([], rdf)
  | c :: cs =>
    match handleCommand rdf c with
    | .error p => .error p
    | .ok (h, rdf) => (runCommands rdf cs).map fun out => (h :: out.1, out.2)

end NormaHarness.RegistrationFlow
