import NormaHarness.RegistrationIdentity

/-!
# The runtime data flow

A send waits in one queue for the command loop, which starts a task for each send and
goes on at once. The task resolves the route, passes the two gates and offers the event
to the mailbox. It holds no lock between these steps, so other sends and the commands of
the registration flow come between any two of them.

Gates and mailboxes belong to the Residents. What they answer may depend on the call,
and a call may panic. A panic ends the task, the response is dropped with it, and the
sender sees a closed pipeline.
-/
namespace NormaHarness.RuntimeFlow
open Identifiers Contracts RegistrationFlow

inductive Called (α : Type) where
  | returned (result : α)
  | panicked

/-- The code of the Residents, by the number of the send that calls it. -/
structure Surroundings (M G : Type) where
  outbound : ℕ → G → GateContext → FlowMessage → Called (Except GateError FlowMessage)
  inbound : ℕ → G → GateContext → FlowMessage → Called (Except GateError FlowMessage)
  deliver : ℕ → M → ResidentEvent → Called (Except MailboxError Unit)

structure RouteCommand where
  sourceInstance : ResidentInstanceId
  target : ResidentKey
  message : FlowMessage

/-- One event offered to one mailbox, with what the mailbox answered. -/
structure Delivery (M : Type) where
  send : ℕ
  mailbox : M
  event : ResidentEvent
  answer : Called (Except MailboxError Unit)

variable {O M G : Type}

/-- An absent gate lets the message through as it is. -/
def pass (call : G → GateContext → FlowMessage → Called (Except GateError FlowMessage))
    (gate : Option G) (context : GateContext) (message : FlowMessage) :
    Called (Except GateError FlowMessage) :=
  match gate with
  | some gate => call gate context message
  | none => .returned (.ok message)

def gateContext (route : RouteResolution M G) : GateContext :=
  ⟨route.sourceKey, route.targetKey⟩

def routedEvent (route : RouteResolution M G) (message : FlowMessage) : ResidentEvent :=
  .message ⟨route.sourceKey, route.targetKey, message⟩

def offer (env : Surroundings M G) (i : ℕ) (route : RouteResolution M G)
    (message : FlowMessage) : Delivery M :=
  ⟨i, route.targetMailbox, routedEvent route message,
    env.deliver i route.targetMailbox (routedEvent route message)⟩

def mailboxResult (route : RouteResolution M G) :
    Called (Except MailboxError Unit) → Except RouteError Unit
  | .returned (.ok ()) => .ok ()
  | .returned (.error source) => .error (.targetMailbox route.targetKey source)
  | .panicked => .error .pipelineUnavailable

/-! ## One send at once

The task of one send as it stands in the source, run against the directory that its
first line reads. It comes in three parts, so that a send which has stopped between two
of them still has the rest before it. -/

abbrev Effects (M : Type) := List (Delivery M) × Except RouteError Unit

def afterInbound (env : Surroundings M G) (i : ℕ) (route : RouteResolution M G)
    (message : FlowMessage) : Effects M :=
  let delivery := offer env i route message
  ([delivery], mailboxResult route delivery.answer)

def afterOutbound (env : Surroundings M G) (i : ℕ) (route : RouteResolution M G)
    (message : FlowMessage) : Effects M :=
  match pass (env.inbound i) route.targetInboundGate (gateContext route) message with
  | .returned (.ok message) => afterInbound env i route message
  | .returned (.error source) => ([], .error (.inboundGate route.targetKey source))
  | .panicked => ([], .error .pipelineUnavailable)

def afterResolve (env : Surroundings M G) (i : ℕ) (route : RouteResolution M G)
    (message : FlowMessage) : Effects M :=
  match pass (env.outbound i) route.sourceOutboundGate (gateContext route) message with
  | .returned (.ok message) => afterOutbound env i route message
  | .returned (.error source) => ([], .error (.outboundGate route.sourceKey source))
  | .panicked => ([], .error .pipelineUnavailable)

def deliver (env : Surroundings M G) (i : ℕ) (rdf : Rdf O M G) (command : RouteCommand) :
    Effects M :=
  match resolveRoute rdf command.sourceInstance command.target with
  | .ok (.ok route) => afterResolve env i route command.message
  | .ok (.error e) => ([], .error e)
  | .error _ => ([], .error .pipelineUnavailable)

/-! ## Sends in flight -/

inductive Phase (M G : Type) where
  | queued
  | spawned
  | resolved (route : RouteResolution M G)
  | outboundPassed (route : RouteResolution M G) (message : FlowMessage)
  | inboundPassed (route : RouteResolution M G) (message : FlowMessage)
  | answered (result : Except RouteError Unit)

structure Send (M G : Type) where
  command : RouteCommand
  phase : Phase M G

/-- Sends stand in the order in which they entered the queue. -/
structure Traffic (O M G : Type) where
  rdf : Rdf O M G
  running : Bool
  sends : List (Send M G)
  deliveries : List (Delivery M)

def start : Traffic O M G := ⟨new, true, [], []⟩

def enter (running : Bool) (command : RouteCommand) : Send M G :=
  ⟨command, if running then .queued else .answered (.error .pipelineUnavailable)⟩

def routed : Except Panic (Except RouteError (RouteResolution M G)) → Phase M G
  | .ok (.ok route) => .resolved route
  | .ok (.error e) => .answered (.error e)
  | .error _ => .answered (.error .pipelineUnavailable)

def gated (rejected : GateError → RouteError) (passed : FlowMessage → Phase M G) :
    Called (Except GateError FlowMessage) → Phase M G
  | .returned (.ok message) => passed message
  | .returned (.error source) => .answered (.error (rejected source))
  | .panicked => .answered (.error .pipelineUnavailable)

def outboundPhase (env : Surroundings M G) (i : ℕ) (route : RouteResolution M G)
    (message : FlowMessage) : Phase M G :=
  gated (.outboundGate route.sourceKey) (.outboundPassed route)
    (pass (env.outbound i) route.sourceOutboundGate (gateContext route) message)

def inboundPhase (env : Surroundings M G) (i : ℕ) (route : RouteResolution M G)
    (message : FlowMessage) : Phase M G :=
  gated (.inboundGate route.targetKey) (.inboundPassed route)
    (pass (env.inbound i) route.targetInboundGate (gateContext route) message)

/-- The loop has ended, and a send that it has not taken is dropped with the queue. -/
def Send.unqueue (s : Send M G) : Send M G :=
  match s.phase with
  | .queued => {s with phase := .answered (.error .pipelineUnavailable)}
  | _ => s

namespace Traffic

def setPhase (t : Traffic O M G) (i : ℕ) (s : Send M G) (phase : Phase M G) : Traffic O M G :=
  {t with sends := t.sends.set i {s with phase := phase}}

def record (t : Traffic O M G) (delivery : Delivery M) : Traffic O M G :=
  {t with deliveries := t.deliveries ++ [delivery]}

end Traffic

variable [DecidableEq O]

inductive Event (O M G : Type) where
  | send (command : RouteCommand)
  | spawn (i : ℕ)
  | resolve (i : ℕ)
  | outbound (i : ℕ)
  | inbound (i : ℕ)
  | deliver (i : ℕ)
  | stop
  | command (handled : Handled O M G)

def Event.handled : Event O M G → Option (Handled O M G)
  | .command handled => some handled
  | _ => none

inductive Step (env : Surroundings M G) : Traffic O M G → Event O M G → Traffic O M G → Prop
  | send (t : Traffic O M G) (command : RouteCommand) :
      Step env t (.send command) {t with sends := t.sends ++ [enter t.running command]}
  | spawn (t : Traffic O M G) (i : ℕ) (s : Send M G) : t.running = true →
      t.sends[i]? = some s → s.phase = .queued →
      (∀ (j : ℕ) (r : Send M G), j < i → t.sends[j]? = some r → r.phase ≠ .queued) →
      Step env t (.spawn i) (t.setPhase i s .spawned)
  | resolve (t : Traffic O M G) (i : ℕ) (s : Send M G) :
      t.sends[i]? = some s → s.phase = .spawned →
      Step env t (.resolve i) (t.setPhase i s
        (routed (resolveRoute t.rdf s.command.sourceInstance s.command.target)))
  | outbound (t : Traffic O M G) (i : ℕ) (s : Send M G) (route : RouteResolution M G) :
      t.sends[i]? = some s → s.phase = .resolved route →
      Step env t (.outbound i) (t.setPhase i s (outboundPhase env i route s.command.message))
  | inbound (t : Traffic O M G) (i : ℕ) (s : Send M G) (route : RouteResolution M G)
      (message : FlowMessage) :
      t.sends[i]? = some s → s.phase = .outboundPassed route message →
      Step env t (.inbound i) (t.setPhase i s (inboundPhase env i route message))
  | deliver (t : Traffic O M G) (i : ℕ) (s : Send M G) (route : RouteResolution M G)
      (message : FlowMessage) :
      t.sends[i]? = some s → s.phase = .inboundPassed route message →
      Step env t (.deliver i) ((t.setPhase i s
        (.answered (mailboxResult route (offer env i route message).answer))).record
          (offer env i route message))
  | stop (t : Traffic O M G) : t.running = true →
      Step env t .stop {t with running := false, sends := t.sends.map Send.unqueue}
  | command (t : Traffic O M G) (handled : Handled O M G) (rdf : Rdf O M G) :
      Handles t.rdf handled rdf → Step env t (.command handled) {t with rdf := rdf}

def deliveriesOf (t : Traffic O M G) (i : ℕ) : List (Delivery M) :=
  t.deliveries.filter fun d => d.send = i

end NormaHarness.RuntimeFlow
