import NormaHarness.Identifiers
import NormaHarness.JsonValues

/-!
# Messages, events and errors at the boundary of a Resident

The public data of the framework crate. A mailbox and a gate are handles here:
the directory only copies them, and what they do when they are used is chosen by
the environment of the step that uses them.
-/
namespace NormaHarness.Contracts
open Identifiers JsonValues

structure FlowMessage where
  kind : MessageKind
  payload : Json

structure RoutedMessage where
  source : ResidentKey
  target : ResidentKey
  message : FlowMessage

structure GateContext where
  source : ResidentKey
  target : ResidentKey
  deriving DecidableEq

structure GateError where
  message : String
  deriving DecidableEq, Repr

structure MailboxError where
  message : String
  deriving DecidableEq, Repr

structure ResidentDescriptor where
  key : ResidentKey
  capabilities : Finset CapabilityKey
  deriving DecidableEq

def ResidentDescriptor.provides (d : ResidentDescriptor) (capability : CapabilityKey) : Bool :=
  capability ∈ d.capabilities

inductive ResidentEvent where
  | residentRegistered (descriptor : ResidentDescriptor)
  | message (routed : RoutedMessage)

inductive RegistrationNoticeError where
  | mailbox (error : MailboxError)
  deriving DecidableEq, Repr

structure RegistrationNoticeFailure where
  resident : ResidentKey
  error : RegistrationNoticeError
  deriving DecidableEq

structure RegistrationReceipt where
  instanceId : ResidentInstanceId
  existingResidents : List ResidentDescriptor
  noticeFailures : List RegistrationNoticeFailure
  deriving DecidableEq

inductive RegistrationError where
  | instanceIdExhausted
  | pipelineUnavailable
  | instanceAlreadyRegistered (instanceId : ResidentInstanceId) (resident : ResidentKey)
  | duplicateResident (resident : ResidentKey)
      (registeredInstance requestedInstance : ResidentInstanceId)
  | unknownRegistration (instanceId : ResidentInstanceId)
  deriving DecidableEq

def RegistrationError.message : RegistrationError → String
  | .instanceIdExhausted => "the Resident instance ID counter is exhausted"
  | .pipelineUnavailable => "the RDF registration channel is closed"
  | .instanceAlreadyRegistered i r =>
      s!"Resident instance `{i}` is already registered as `{r.asStr}`"
  | .duplicateResident r i j =>
      s!"Resident `{r.asStr}` is already registered by instance `{i}`; " ++
        s!"instance `{j}` cannot use the same name"
  | .unknownRegistration i => s!"Resident instance `{i}` is not registered"

inductive RouteError where
  | pipelineUnavailable
  | unknownSource (instanceId : ResidentInstanceId)
  | unknownTarget (resident : ResidentKey)
  | outboundGate (resident : ResidentKey) (source : GateError)
  | inboundGate (resident : ResidentKey) (source : GateError)
  | targetMailbox (resident : ResidentKey) (source : MailboxError)
  deriving DecidableEq

def RouteError.message : RouteError → String
  | .pipelineUnavailable => "the RTDF message channel is closed"
  | .unknownSource i => s!"source Resident instance `{i}` is not registered"
  | .unknownTarget r => s!"target Resident `{r.asStr}` is not registered"
  | .outboundGate r e =>
      s!"outbound Gate for Resident `{r.asStr}` rejected the message: {e.message}"
  | .inboundGate r e =>
      s!"inbound Gate for Resident `{r.asStr}` rejected the message: {e.message}"
  | .targetMailbox r e =>
      s!"mailbox for Resident `{r.asStr}` rejected the message: {e.message}"

end NormaHarness.Contracts
