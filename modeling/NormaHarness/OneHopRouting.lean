import NormaHarness.RuntimeFlow

/-!
# Every send is one atomic delivery, taken when its route is resolved

After the resolve step of a send, what the send has done and what it still has to do add
up to the delivery at once, run against the directory of that step. Every later step of
the send moves work from the second part to the first, and no other step touches either.
The directory itself moves under the registration commands only.
-/
namespace NormaHarness.RuntimeFlow
open Std Identifiers Contracts RegistrationFlow Executions

variable {O M G : Type}

/-! ## What one step does to one send -/

theorem setPhase_self {t : Traffic O M G} {i : ℕ} {s r : Send M G} (phase : Phase M G)
    (h : t.sends[i]? = some s) :
    (t.setPhase i r phase).sends[i]? = some {r with phase := phase} := by
  obtain ⟨hlt, _⟩ := List.getElem?_eq_some_iff.mp h
  exact List.getElem?_set_self hlt

theorem setPhase_other {t : Traffic O M G} {i j : ℕ} (s : Send M G) (phase : Phase M G)
    (h : j ≠ i) : (t.setPhase j s phase).sends[i]? = t.sends[i]? :=
  List.getElem?_set_ne h

theorem deliveriesOf_record_self (t : Traffic O M G) (d : Delivery M) :
    deliveriesOf (t.record d) d.send = deliveriesOf t d.send ++ [d] := by
  simp [deliveriesOf, Traffic.record]

theorem deliveriesOf_record_other (t : Traffic O M G) {d : Delivery M} {i : ℕ}
    (h : d.send ≠ i) : deliveriesOf (t.record d) i = deliveriesOf t i := by
  simp [deliveriesOf, Traffic.record, h]

/-- Besides the change of the send, what it has newly offered. -/
inductive SendStep (env : Surroundings M G) (t : Traffic O M G) (i : ℕ) (s : Send M G) :
    Event O M G → Send M G → List (Delivery M) → Prop
  | untouched (a : Event O M G) : (∀ j, a = .resolve j → j ≠ i) → SendStep env t i s a s []
  | spawned : s.phase = .queued → SendStep env t i s (.spawn i) {s with phase := .spawned} []
  | dropped : s.phase = .queued →
      SendStep env t i s .stop {s with phase := .answered (.error .pipelineUnavailable)} []
  | resolved : s.phase = .spawned →
      SendStep env t i s (.resolve i)
        {s with phase := routed (resolveRoute t.rdf s.command.sourceInstance s.command.target)} []
  | outbound (route : RouteResolution M G) : s.phase = .resolved route →
      SendStep env t i s (.outbound i)
        {s with phase := outboundPhase env i route s.command.message} []
  | inbound (route : RouteResolution M G) (message : FlowMessage) :
      s.phase = .outboundPassed route message →
      SendStep env t i s (.inbound i) {s with phase := inboundPhase env i route message} []
  | delivered (route : RouteResolution M G) (message : FlowMessage) :
      s.phase = .inboundPassed route message →
      SendStep env t i s (.deliver i)
        {s with phase := .answered (mailboxResult route (offer env i route message).answer)}
        [offer env i route message]

variable [DecidableEq O] {env : Surroundings M G} {t t' : Traffic O M G} {a : Event O M G}
  {i : ℕ} {s : Send M G}

omit [DecidableEq O] in
/-- A step that changes the phase of one send leaves every other send alone. -/
theorem SendStep.of_setPhase {j : ℕ} {r : Send M G} {phase : Phase M G}
    (h : SendStep env t j r a {r with phase := phase} []) (hs : t.sends[i]? = some s)
    (hr : t.sends[j]? = some r) (ha : ∀ k, a = .resolve k → k = j) :
    ∃ s' ds, (t.setPhase j r phase).sends[i]? = some s' ∧
      deliveriesOf (t.setPhase j r phase) i = deliveriesOf t i ++ ds ∧
      SendStep env t i s a s' ds := by
  by_cases hj : j = i
  · subst j
    obtain rfl := Option.some.inj (hs.symm.trans hr)
    exact ⟨_, [], setPhase_self _ hs, (List.append_nil _).symm, h⟩
  · refine ⟨s, [], (setPhase_other r _ hj).trans hs, (List.append_nil _).symm, ?_⟩
    refine .untouched _ fun k hk => ?_
    rw [ha k hk]
    exact hj

theorem Step.send_step (h : Step env t a t') (hs : t.sends[i]? = some s) :
    ∃ s' ds, t'.sends[i]? = some s' ∧ deliveriesOf t' i = deliveriesOf t i ++ ds ∧
      SendStep env t i s a s' ds := by
  cases h with
  | send command =>
      obtain ⟨hlt, _⟩ := List.getElem?_eq_some_iff.mp hs
      refine ⟨s, [], ?_, (List.append_nil _).symm, .untouched _ fun j hj => by cases hj⟩
      exact (List.getElem?_append_left hlt).trans hs
  | spawn j r _ hr hphase _ =>
      exact (SendStep.spawned hphase).of_setPhase hs hr fun k hk => by cases hk
  | resolve j r hr hphase =>
      exact (SendStep.resolved hphase).of_setPhase hs hr fun k hk => by cases hk; rfl
  | outbound j r route hr hphase =>
      exact (SendStep.outbound route hphase).of_setPhase hs hr fun k hk => by cases hk
  | inbound j r route message hr hphase =>
      exact (SendStep.inbound route message hphase).of_setPhase hs hr fun k hk => by cases hk
  | deliver j r route message hr hphase =>
      by_cases hj : j = i
      · subst j
        obtain rfl := Option.some.inj (hs.symm.trans hr)
        exact ⟨_, _, setPhase_self _ hs, deliveriesOf_record_self _ (offer env i route message),
          .delivered route message hphase⟩
      · refine ⟨s, [], (setPhase_other r _ hj).trans hs, ?_, ?_⟩
        · exact (deliveriesOf_record_other _ hj).trans (List.append_nil _).symm
        · exact .untouched _ fun k hk => by cases hk
  | stop _ =>
      refine ⟨s.unqueue, [], by simp [hs], (List.append_nil _).symm, ?_⟩
      cases hphase : s.phase with
      | queued => simpa [Send.unqueue, hphase] using SendStep.dropped hphase
      | _ => simpa [Send.unqueue, hphase] using SendStep.untouched _ fun k hk => by cases hk
  | command handled rdf _ =>
      exact ⟨s, [], hs, (List.append_nil _).symm, .untouched _ fun j hj => by cases hj⟩

/-- A send that does not exist yet can only enter, and nothing is offered for it. -/
theorem Step.absent (h : Step env t a t') (hs : t.sends[i]? = none) :
    deliveriesOf t' i = deliveriesOf t i ∧
      (t'.sends[i]? = none ∨ ∃ command, t'.sends[i]? = some (enter t.running command)) := by
  have hother : ∀ {j : ℕ} {r : Send M G}, t.sends[j]? = some r → j ≠ i := by
    intro j r hr hj
    rw [hj, hs] at hr
    cases hr
  cases h with
  | send command =>
      refine ⟨rfl, ?_⟩
      rw [List.getElem?_append_right (List.getElem?_eq_none_iff.mp hs)]
      cases i - t.sends.length with
      | zero => exact .inr ⟨command, rfl⟩
      | succ n => exact .inl rfl
  | spawn j r _ hr _ _ => exact ⟨rfl, .inl ((setPhase_other r _ (hother hr)).trans hs)⟩
  | resolve j r hr _ => exact ⟨rfl, .inl ((setPhase_other r _ (hother hr)).trans hs)⟩
  | outbound j r route hr _ => exact ⟨rfl, .inl ((setPhase_other r _ (hother hr)).trans hs)⟩
  | inbound j r route message hr _ =>
      exact ⟨rfl, .inl ((setPhase_other r _ (hother hr)).trans hs)⟩
  | deliver j r route message hr _ =>
      exact ⟨deliveriesOf_record_other _ (hother hr),
        .inl ((setPhase_other r _ (hother hr)).trans hs)⟩
  | stop _ => exact ⟨rfl, .inl (by simp [hs])⟩
  | command handled rdf _ => exact ⟨rfl, .inl hs⟩

/-! ## What a send still has to do -/

/-- The rest of the task of a send whose route is resolved. -/
inductive Remaining (env : Surroundings M G) (i : ℕ) (command : RouteCommand) :
    Phase M G → Effects M → Prop
  | resolved (route : RouteResolution M G) :
      Remaining env i command (.resolved route) (afterResolve env i route command.message)
  | outboundPassed (route : RouteResolution M G) (message : FlowMessage) :
      Remaining env i command (.outboundPassed route message) (afterOutbound env i route message)
  | inboundPassed (route : RouteResolution M G) (message : FlowMessage) :
      Remaining env i command (.inboundPassed route message) (afterInbound env i route message)
  | answered (result : Except RouteError Unit) :
      Remaining env i command (.answered result) ([], result)

section Phases

omit [DecidableEq O]

variable {command : RouteCommand} {phase : Phase M G} {effects : Effects M}

theorem Remaining.inboundPhase (route : RouteResolution M G) (message : FlowMessage) :
    Remaining env i command (inboundPhase env i route message)
      (afterOutbound env i route message) := by
  unfold RuntimeFlow.inboundPhase afterOutbound
  cases pass (env.inbound i) route.targetInboundGate (gateContext route) message with
  | panicked => exact .answered _
  | returned result =>
      cases result with
      | error source => exact .answered _
      | ok message => exact .inboundPassed route message

theorem Remaining.outboundPhase (route : RouteResolution M G) :
    Remaining env i command (outboundPhase env i route command.message)
      (afterResolve env i route command.message) := by
  unfold RuntimeFlow.outboundPhase afterResolve
  cases pass (env.outbound i) route.sourceOutboundGate (gateContext route) command.message with
  | panicked => exact .answered _
  | returned result =>
      cases result with
      | error source => exact .answered _
      | ok message => exact .outboundPassed route message

theorem Remaining.routed (rdf : Rdf O M G) :
    Remaining env i command
      (routed (resolveRoute rdf command.sourceInstance command.target))
      (deliver env i rdf command) := by
  unfold deliver
  cases resolveRoute rdf command.sourceInstance command.target with
  | error _ => exact .answered _
  | ok result =>
      cases result with
      | error e => exact .answered _
      | ok route => exact .resolved route

/-- The send has not got as far as its resolve step. -/
def Phase.Waits (phase : Phase M G) : Prop := phase = .queued ∨ phase = .spawned

theorem not_waits_answered (result : Except RouteError Unit) :
    ¬(Phase.answered result : Phase M G).Waits := by
  intro hw
  rcases hw with hw | hw <;> cases hw

theorem Remaining.not_waits (h : Remaining env i command phase effects) : ¬phase.Waits := by
  intro hw
  cases h <;> rcases hw with hw | hw <;> cases hw

end Phases

/-! ## Before the resolve step -/

def Idle (i : ℕ) (t : Traffic O M G) : Prop :=
  (∀ s, t.sends[i]? = some s → s.phase.Waits) → deliveriesOf t i = []

theorem Step.idle (hi : Idle i t) (h : Step env t a t') : Idle i t' := by
  intro hwaits
  cases hs : t.sends[i]? with
  | none =>
      rw [(h.absent hs).1]
      exact hi fun s hs' => by rw [hs] at hs'; cases hs'
  | some s =>
      obtain ⟨s', ds, hs', hds, hstep⟩ := h.send_step hs
      have hw := hwaits s' hs'
      have hidle : s.phase.Waits → deliveriesOf t i = [] := fun hw =>
        hi fun r hr => by obtain rfl := Option.some.inj (hs.symm.trans hr); exact hw
      rw [hds]
      cases hstep with
      | untouched _ _ => rw [hidle hw, List.append_nil]
      | spawned hphase => rw [hidle (.inl hphase), List.append_nil]
      | dropped _ => exact absurd hw (not_waits_answered _)
      | resolved hphase => rw [hidle (.inr hphase), List.append_nil]
      | outbound route _ => exact absurd hw (Remaining.outboundPhase route).not_waits
      | inbound route message _ =>
          have hrem : Remaining env i s.command (inboundPhase env i route message) _ :=
            .inboundPhase route message
          exact absurd hw hrem.not_waits
      | delivered route message _ => exact absurd hw (not_waits_answered _)

/-- The state of a send that never gets to its resolve step. -/
def Unrouted (i : ℕ) (t : Traffic O M G) : Prop :=
  deliveriesOf t i = [] ∧ ∀ s, t.sends[i]? = some s →
    s.phase.Waits ∨ s.phase = .answered (.error .pipelineUnavailable)

theorem enter_phase (running : Bool) (command : RouteCommand) :
    (enter running command : Send M G).phase.Waits ∨
      (enter running command : Send M G).phase = .answered (.error .pipelineUnavailable) := by
  cases running with
  | true => exact .inl (.inl rfl)
  | false => exact .inr rfl

theorem Step.unrouted (hu : Unrouted i t) (h : Step env t a t') (ha : a ≠ .resolve i) :
    Unrouted i t' := by
  cases hs : t.sends[i]? with
  | none =>
      obtain ⟨hds, hget⟩ := h.absent hs
      refine ⟨hds.trans hu.1, fun s hs' => ?_⟩
      rcases hget with hget | ⟨command, hget⟩
      · rw [hget] at hs'
        cases hs'
      · rw [hget] at hs'
        obtain rfl := Option.some.inj hs'
        exact enter_phase _ _
  | some s =>
      obtain ⟨s', ds, hs', hds, hstep⟩ := h.send_step hs
      have hone : ∀ r, t'.sends[i]? = some r → r = s' := fun r hr =>
        Option.some.inj (hr.symm.trans hs')
      have hphase := hu.2 s hs
      unfold Unrouted
      rw [hds, hu.1]
      cases hstep with
      | untouched _ _ => exact ⟨rfl, fun r hr => hone r hr ▸ hphase⟩
      | spawned _ => exact ⟨rfl, fun r hr => hone r hr ▸ .inl (.inr rfl)⟩
      | dropped _ => exact ⟨rfl, fun r hr => hone r hr ▸ .inr rfl⟩
      | resolved _ => exact absurd rfl ha
      | outbound route he => rw [he] at hphase; rcases hphase with (h | h) | h <;> cases h
      | inbound route message he =>
          rw [he] at hphase
          rcases hphase with (h | h) | h <;> cases h
      | delivered route message he =>
          rw [he] at hphase
          rcases hphase with (h | h) | h <;> cases h

/-! ## From the resolve step on -/

/-- Done and remaining work of the send make up the delivery against one directory. -/
def Settling (env : Surroundings M G) (rdf : Rdf O M G) (command : RouteCommand) (i : ℕ)
    (t : Traffic O M G) : Prop :=
  ∃ s effects, t.sends[i]? = some s ∧ s.command = command ∧
    Remaining env i command s.phase effects ∧
    deliveriesOf t i ++ effects.1 = (deliver env i rdf command).1 ∧
    effects.2 = (deliver env i rdf command).2

variable {rdf : Rdf O M G} {command : RouteCommand}

omit [DecidableEq O] in
theorem Settling.of_resolve (hi : Idle i t) (hs : t.sends[i]? = some s)
    (hphase : s.phase = .spawned) :
    Settling env t.rdf s.command i (t.setPhase i s
      (routed (resolveRoute t.rdf s.command.sourceInstance s.command.target))) := by
  refine ⟨_, _, setPhase_self _ hs, rfl, .routed t.rdf, ?_, rfl⟩
  have hidle : deliveriesOf t i = [] := hi fun r hr => by
    obtain rfl := Option.some.inj (hs.symm.trans hr)
    exact .inr hphase
  exact congrArg (· ++ _) hidle

theorem Step.settling (hset : Settling env rdf command i t) (h : Step env t a t') :
    Settling env rdf command i t' := by
  obtain ⟨s, effects, hs, rfl, hrem, hdone, hresult⟩ := hset
  obtain ⟨s', ds, hs', hds, hstep⟩ := h.send_step hs
  have hwaits := hrem.not_waits
  cases hstep with
  | untouched _ _ =>
      exact ⟨s, effects, hs', rfl, hrem, by rw [hds, List.append_nil, hdone], hresult⟩
  | spawned hphase => exact absurd (.inl hphase) hwaits
  | dropped hphase => exact absurd (.inl hphase) hwaits
  | resolved hphase => exact absurd (.inr hphase) hwaits
  | outbound route hphase =>
      rw [hphase] at hrem
      cases hrem
      refine ⟨_, _, hs', rfl, .outboundPhase route, ?_, hresult⟩
      rw [hds, List.append_nil, hdone]
  | inbound route message hphase =>
      rw [hphase] at hrem
      cases hrem
      refine ⟨_, _, hs', rfl, .inboundPhase route message, ?_, hresult⟩
      rw [hds, List.append_nil, hdone]
  | delivered route message hphase =>
      rw [hphase] at hrem
      cases hrem
      refine ⟨_, _, hs', rfl, .answered _, ?_, hresult⟩
      rw [hds, List.append_nil, ← hdone]
      rfl

/-! ## The delivery at once -/

/-- At most one event is offered, and the result is success if it was accepted. -/
structure OneOffer (effects : Effects M) : Prop where
  single : effects.1.length ≤ 1
  ok_iff : effects.2 = .ok () ↔ ∃ d ∈ effects.1, d.answer = .returned (.ok ())

section Offers

omit [DecidableEq O]

theorem OneOffer.of_error (e : RouteError) : OneOffer (([], .error e) : Effects M) :=
  ⟨Nat.zero_le 1, by simp⟩

theorem oneOffer_afterInbound (env : Surroundings M G) (i : ℕ) (route : RouteResolution M G)
    (message : FlowMessage) : OneOffer (afterInbound env i route message) := by
  refine ⟨le_rfl, ?_⟩
  simp only [afterInbound, List.mem_singleton, exists_eq_left]
  cases (offer env i route message).answer with
  | panicked => simp [mailboxResult]
  | returned result => cases result <;> simp [mailboxResult]

theorem oneOffer_afterOutbound (env : Surroundings M G) (i : ℕ) (route : RouteResolution M G)
    (message : FlowMessage) : OneOffer (afterOutbound env i route message) := by
  unfold afterOutbound
  cases pass (env.inbound i) route.targetInboundGate (gateContext route) message with
  | panicked => exact .of_error _
  | returned result =>
      cases result with
      | error source => exact .of_error _
      | ok message => exact oneOffer_afterInbound env i route message

theorem oneOffer_afterResolve (env : Surroundings M G) (i : ℕ) (route : RouteResolution M G)
    (message : FlowMessage) : OneOffer (afterResolve env i route message) := by
  unfold afterResolve
  cases pass (env.outbound i) route.sourceOutboundGate (gateContext route) message with
  | panicked => exact .of_error _
  | returned result =>
      cases result with
      | error source => exact .of_error _
      | ok message => exact oneOffer_afterOutbound env i route message

theorem oneOffer_deliver (env : Surroundings M G) (i : ℕ) (rdf : Rdf O M G)
    (command : RouteCommand) : OneOffer (deliver env i rdf command) := by
  unfold deliver
  cases resolveRoute rdf command.sourceInstance command.target with
  | error _ => exact .of_error _
  | ok result =>
      cases result with
      | error e => exact .of_error _
      | ok route => exact oneOffer_afterResolve env i route command.message

/-- A rest that ends well and is not over still has its offer before it. -/
theorem Remaining.answered_of_ok {command : RouteCommand} {phase : Phase M G}
    {effects : Effects M} (h : Remaining env i command phase effects)
    (hnone : effects.1 = []) (hok : effects.2 = .ok ()) : phase = .answered (.ok ()) := by
  have hsome : ∀ {e : Effects M}, OneOffer e → e.1 = [] → e.2 ≠ .ok () := by
    intro e he hnil hok
    obtain ⟨d, hd, _⟩ := he.ok_iff.mp hok
    rw [hnil] at hd
    exact List.not_mem_nil hd
  cases h with
  | resolved route => exact absurd hok (hsome (oneOffer_afterResolve env i route _) hnone)
  | outboundPassed route message =>
      exact absurd hok (hsome (oneOffer_afterOutbound env i route message) hnone)
  | inboundPassed route message =>
      exact absurd hok (hsome (oneOffer_afterInbound env i route message) hnone)
  | answered result => rw [show result = .ok () from hok]

end Offers

/-! ## The hop -/

/-- What was registered under the two names of a command at one moment. -/
structure Endpoints (rdf : Rdf O M G) (command : RouteCommand) (source : ResidentKey)
    (sender record : RegistrationRecord M G) : Prop where
  named : rdf.state.byInstance[command.sourceInstance]? = some source
  sends : rdf.state.residents[source]? = some sender
  holds : rdf.state.residents[command.target]? = some record

/-- One delivery of the command, to the mailbox of the target record. -/
structure Hop (env : Surroundings M G) (i : ℕ) (command : RouteCommand) (source : ResidentKey)
    (sender record : RegistrationRecord M G) (d : Delivery M) : Prop where
  mailbox : d.mailbox = record.mailbox
  body : ∃ sent received : FlowMessage,
    pass (env.outbound i) sender.outboundGate ⟨source, command.target⟩ command.message =
      .returned (.ok sent) ∧
    pass (env.inbound i) record.inboundGate ⟨source, command.target⟩ sent =
      .returned (.ok received) ∧
    d.event = .message ⟨source, command.target, received⟩
  answer : d.answer = env.deliver i record.mailbox d.event

/-- The source or the target is unknown, or a gate does not let the message through. -/
inductive Refused (env : Surroundings M G) (rdf : Rdf O M G) (i : ℕ) (command : RouteCommand) :
    Prop
  | unknownSource : rdf.state.byInstance[command.sourceInstance]? = none →
      Refused env rdf i command
  | unknownTarget : rdf.state.residents[command.target]? = none → Refused env rdf i command
  | outbound (source : ResidentKey) (sender record : RegistrationRecord M G) :
      Endpoints rdf command source sender record →
      (∀ sent, pass (env.outbound i) sender.outboundGate ⟨source, command.target⟩
        command.message ≠ .returned (.ok sent)) → Refused env rdf i command
  | inbound (source : ResidentKey) (sender record : RegistrationRecord M G)
      (sent : FlowMessage) : Endpoints rdf command source sender record →
      pass (env.outbound i) sender.outboundGate ⟨source, command.target⟩ command.message =
        .returned (.ok sent) →
      (∀ received, pass (env.inbound i) record.inboundGate ⟨source, command.target⟩ sent ≠
        .returned (.ok received)) → Refused env rdf i command

section Endpoints

omit [DecidableEq O]

theorem resolveRoute_endpoints {rdf : Rdf O M G} {command : RouteCommand}
    {route : RouteResolution M G}
    (h : resolveRoute rdf command.sourceInstance command.target = .ok (.ok route)) :
    ∃ source sender record, Endpoints rdf command source sender record ∧
      route = ⟨source, command.target, sender.outboundGate, record.inboundGate,
        record.mailbox⟩ := by
  unfold resolveRoute at h
  cases hs : rdf.state.byInstance[command.sourceInstance]? with
  | none => simp [hs] at h
  | some source =>
      cases hr : rdf.state.residents[source]? with
      | none => simp [hs, hr] at h
      | some sender =>
          cases ht : rdf.state.residents[command.target]? with
          | none => simp [hs, hr, ht] at h
          | some record =>
              simp only [hs, hr, ht, Except.ok.injEq] at h
              exact ⟨source, sender, record, ⟨hs, hr, ht⟩, h.symm⟩

theorem Endpoints.eq {rdf : Rdf O M G} {command : RouteCommand} {source source' : ResidentKey}
    {sender sender' record record' : RegistrationRecord M G}
    (h : Endpoints rdf command source sender record)
    (h' : Endpoints rdf command source' sender' record') :
    source = source' ∧ sender = sender' ∧ record = record' := by
  obtain rfl := Option.some.inj (h.named.symm.trans h'.named)
  exact ⟨rfl, Option.some.inj (h.sends.symm.trans h'.sends),
    Option.some.inj (h.holds.symm.trans h'.holds)⟩

theorem hop_of_deliver {rdf : Rdf O M G} {command : RouteCommand} {d : Delivery M}
    (hd : d ∈ (deliver env i rdf command).1) :
    ∃ source sender record, Endpoints rdf command source sender record ∧
      Hop env i command source sender record d := by
  unfold deliver at hd
  split at hd
  · rename_i route hroute
    obtain ⟨source, sender, record, hends, rfl⟩ := resolveRoute_endpoints hroute
    refine ⟨source, sender, record, hends, ?_⟩
    unfold afterResolve at hd
    split at hd
    · rename_i sent hsent
      unfold afterOutbound at hd
      split at hd
      · rename_i received hreceived
        obtain rfl := List.mem_singleton.mp hd
        exact ⟨rfl, ⟨sent, received, hsent, hreceived, rfl⟩, rfl⟩
      · exact absurd hd List.not_mem_nil
      · exact absurd hd List.not_mem_nil
    · exact absurd hd List.not_mem_nil
    · exact absurd hd List.not_mem_nil
  · exact absurd hd List.not_mem_nil
  · exact absurd hd List.not_mem_nil

theorem deliver_of_refused {rdf : Rdf O M G} {command : RouteCommand}
    (h : Refused env rdf i command) : (deliver env i rdf command).1 = [] := by
  rw [List.eq_nil_iff_forall_not_mem]
  intro d hd
  obtain ⟨source, sender, record, hends, hhop⟩ := hop_of_deliver hd
  obtain ⟨sent, received, hsent, hreceived, _⟩ := hhop.body
  cases h with
  | unknownSource hnone =>
      rw [hends.named] at hnone
      cases hnone
  | unknownTarget hnone =>
      rw [hends.holds] at hnone
      cases hnone
  | outbound source' sender' record' hends' hnot =>
      obtain ⟨rfl, rfl, rfl⟩ := hends.eq hends'
      exact hnot sent hsent
  | inbound source' sender' record' sent' hends' hsent' hnot =>
      obtain ⟨rfl, rfl, rfl⟩ := hends.eq hends'
      rw [hsent, Called.returned.injEq, Except.ok.injEq] at hsent'
      subst sent'
      exact hnot received hreceived

end Endpoints

/-! ## Whole runs -/

theorem Step.directory (h : Step env t a t') :
    (∃ e, a.handled = some e ∧ Handles t.rdf e t'.rdf) ∨ (a.handled = none ∧ t'.rdf = t.rdf) := by
  cases h with
  | command e rdf he => exact .inl ⟨e, rfl, he⟩
  | _ => exact .inr ⟨rfl, rfl⟩

/-- The directory and the store go through the commands alone. -/
theorem run_commands {es : List (Event O M G)} (h : Run (Step env) t es t') :
    Run Handles t.rdf (es.filterMap Event.handled) t'.rdf := by
  induction h with
  | nil t => exact .nil _
  | cons hstep _ ih =>
      rcases hstep.directory with ⟨e, he, hhandles⟩ | ⟨hnone, hsame⟩
      · rw [List.filterMap_cons_some he]
        exact .cons hhandles ih
      · rw [List.filterMap_cons_none hnone, ← hsame]
        exact ih

theorem run_idle {es : List (Event O M G)} (h : Run (Step env) start es t) (i : ℕ) : Idle i t :=
  h.invariant (fun _ _ _ hs step => step.idle hs) fun _ => rfl

theorem run_unrouted {es : List (Event O M G)} (h : Run (Step env) start es t)
    (hi : .resolve i ∉ es) : Unrouted i t := by
  refine h.invariant_of (Q := (· ≠ .resolve i)) (fun _ _ _ ha hs step => step.unrouted hs ha) ?_ ?_
  · intro a ha he
    exact hi (he ▸ ha)
  · exact ⟨rfl, fun s hs => by cases hs⟩

theorem Settling.not_resolve (h : Settling env rdf command i t) : ¬Step env t (.resolve i) t' := by
  obtain ⟨s, effects, hs, _, hrem, _, _⟩ := h
  intro hstep
  cases hstep with
  | resolve _ r hr hphase =>
      obtain rfl := Option.some.inj (hs.symm.trans hr)
      exact hrem.not_waits (.inr hphase)

/-- The resolve step of a send, taken after the run to `mid`. -/
theorem resolve_settles {before : List (Event O M G)} {mid mid' : Traffic O M G}
    (hrun : Run (Step env) start before mid) (hstep : Step env mid (.resolve i) mid') :
    ∃ s, mid.sends[i]? = some s ∧ Settling env mid.rdf s.command i mid' := by
  cases hstep with
  | resolve _ s hs hphase => exact ⟨s, hs, .of_resolve (run_idle hrun i) hs hphase⟩

theorem resolve_once {before after : List (Event O M G)} {mid mid' : Traffic O M G}
    (hbefore : Run (Step env) start before mid) (hstep : Step env mid (.resolve i) mid')
    (hafter : Run (Step env) mid' after t) : .resolve i ∉ before ∧ .resolve i ∉ after := by
  constructor
  · intro hmem
    obtain ⟨past, future, rfl⟩ := List.append_of_mem hmem
    obtain ⟨u, v, hpast, hfirst, hfuture⟩ := hbefore.cut
    obtain ⟨s, _, hset⟩ := resolve_settles hpast hfirst
    exact (hfuture.invariant (fun _ _ _ hs step => step.settling hs) hset).not_resolve hstep
  · obtain ⟨s, _, hset⟩ := resolve_settles hbefore hstep
    exact hafter.not_mem (fun _ _ _ hs step => step.settling hs)
      (fun _ _ hs => hs.not_resolve) hset

/-- At the end of a run the send stands with its deliveries where the delivery at once
against the directory of its resolve step leaves it, or on the way there. -/
theorem run_settling {before after : List (Event O M G)} {mid : Traffic O M G}
    (hbefore : Run (Step env) start before mid)
    (hafter : Run (Step env) mid (.resolve i :: after) t) (hs : t.sends[i]? = some s) :
    ∃ effects, Remaining env i s.command s.phase effects ∧
      deliveriesOf t i ++ effects.1 = (deliver env i mid.rdf s.command).1 ∧
      effects.2 = (deliver env i mid.rdf s.command).2 := by
  cases hafter with
  | cons hstep hrest =>
      obtain ⟨r, _, hset⟩ := resolve_settles hbefore hstep
      obtain ⟨s', effects, hs', hcommand, hrem, hdone, hresult⟩ :=
        hrest.invariant (fun _ _ _ hs step => step.settling hs) hset
      obtain rfl := Option.some.inj (hs.symm.trans hs')
      rw [hcommand]
      exact ⟨effects, hrem, hdone, hresult⟩

theorem issued_later {rdf rdf' : Rdf O M G} {es : List (Handled O M G)} (hc : Coherent rdf)
    (hrun : Run Handles rdf es rdf') {key : ResidentKey} {record : RegistrationRecord M G}
    (hr : rdf.state.residents[key]? = some record) : record.instanceId ∉ issuedIds es := by
  intro hmem
  have hin : record.instanceId ∈ rdf.state.byInstance :=
    ExtTreeMap.mem_iff_isSome_getElem?.mpr (by rw [hc.registered_of_record hr]; rfl)
  have hle : record.instanceId ≤ rdf.residentStore.nextInstanceId := (hc.issued _ hin).2
  have hlt : rdf.residentStore.nextInstanceId < record.instanceId :=
    (run_issuedIds hrun).2.1 _ hmem
  exact absurd hle (Nat.not_le_of_gt hlt)

theorem delivered_at_resolve {before after : List (Event O M G)} {mid : Traffic O M G}
    {d : Delivery M} (hbefore : Run (Step env) start before mid)
    (hafter : Run (Step env) mid (.resolve i :: after) t) (hs : t.sends[i]? = some s)
    (hd : d ∈ deliveriesOf t i) : d ∈ (deliver env i mid.rdf s.command).1 := by
  obtain ⟨effects, _, hdone, _⟩ := run_settling hbefore hafter hs
  rw [← hdone]
  exact List.mem_append_left _ hd

/-- Offers and result of a send whose route has been resolved. -/
theorem resolved_offers {before after : List (Event O M G)} {mid : Traffic O M G}
    (hbefore : Run (Step env) start before mid)
    (hafter : Run (Step env) mid (.resolve i :: after) t) (hs : t.sends[i]? = some s) :
    (deliveriesOf t i).length ≤ 1 ∧
      (s.phase = .answered (.ok ()) ↔
        ∃ d ∈ deliveriesOf t i, d.answer = .returned (.ok ())) := by
  obtain ⟨effects, hrem, hdone, hresult⟩ := run_settling hbefore hafter hs
  have hone := oneOffer_deliver env i mid.rdf s.command
  have hlength : (deliveriesOf t i).length + effects.1.length ≤ 1 := by
    rw [← List.length_append, hdone]
    exact hone.single
  refine ⟨(Nat.le_add_right _ _).trans hlength, fun hphase => ?_, ?_⟩
  · rw [hphase] at hrem
    cases hrem
    rw [← List.append_nil (deliveriesOf t i), hdone]
    exact hone.ok_iff.mp hresult.symm
  · rintro ⟨d, hd, haccepted⟩
    have hpos : 0 < (deliveriesOf t i).length := List.length_pos_of_mem hd
    apply hrem.answered_of_ok (List.length_eq_zero_iff.mp (by omega))
    rw [hresult]
    exact hone.ok_iff.mpr ⟨d, delivered_at_resolve hbefore hafter hs hd, haccepted⟩

omit [DecidableEq O] in
theorem unrouted_offers (h : Unrouted i t) (hs : t.sends[i]? = some s) :
    deliveriesOf t i = [] ∧ s.phase ≠ .answered (.ok ()) := by
  refine ⟨h.1, fun hok => ?_⟩
  have hphase := h.2 s hs
  rw [hok] at hphase
  rcases hphase with (hphase | hphase) | hphase <;> cases hphase

/-- In every interleaving of sends with registration commands, a send offers at most
one event, to the mailbox that the target name had at its resolve step. The directory
and the store are what the commands alone make of them. -/
theorem one_hop_routing {env : Surroundings M G} {t : Traffic O M G} {es : List (Event O M G)}
    (hrun : Run (Step env) start es t) :
    Run Handles new (es.filterMap Event.handled) t.rdf ∧
    ∀ (i : ℕ) (s : Send M G), t.sends[i]? = some s →
      (deliveriesOf t i).length ≤ 1 ∧
      (s.phase = .answered (.ok ()) ↔ ∃ d ∈ deliveriesOf t i, d.answer = .returned (.ok ())) ∧
      (deliveriesOf t i ≠ [] → .resolve i ∈ es) ∧
      ∀ (before after : List (Event O M G)) (mid : Traffic O M G),
        es = before ++ .resolve i :: after → Run (Step env) start before mid →
        Run (Step env) mid (.resolve i :: after) t →
          (.resolve i ∉ before ∧ .resolve i ∉ after) ∧
          (∀ d ∈ deliveriesOf t i, ∃ source sender record,
            Endpoints mid.rdf s.command source sender record ∧
            sender.instanceId = s.command.sourceInstance ∧
            Hop env i s.command source sender record d ∧
            record.instanceId ∉ issuedIds (after.filterMap Event.handled)) ∧
          (Refused env mid.rdf i s.command → deliveriesOf t i = []) := by
  refine ⟨run_commands hrun, fun i s hs => ?_⟩
  rw [← and_assoc, ← and_assoc]
  refine ⟨?_, fun before after mid _ hbefore hafter => ?_⟩
  · by_cases hmem : .resolve i ∈ es
    · obtain ⟨before, after, rfl⟩ := List.append_of_mem hmem
      obtain ⟨mid, hbefore, hafter⟩ := hrun.split
      exact ⟨resolved_offers hbefore hafter hs, fun _ => hmem⟩
    · obtain ⟨hnone, hphase⟩ := unrouted_offers (run_unrouted hrun hmem) hs
      simp [hnone, hphase]
  · have hc : Coherent mid.rdf := run_coherent (run_commands hbefore) Coherent.of_new
    refine ⟨?_, fun d hd => ?_, fun hrefused => ?_⟩
    · cases hafter with
      | cons hstep hrest => exact resolve_once hbefore hstep hrest
    · obtain ⟨source, sender, record, hends, hhop⟩ :=
        hop_of_deliver (delivered_at_resolve hbefore hafter hs hd)
      refine ⟨source, sender, record, hends, ?_, hhop, ?_⟩
      · obtain ⟨sender', hsends, hid⟩ := hc.record_key hends.named
        obtain rfl := Option.some.inj (hends.sends.symm.trans hsends)
        exact hid
      · have hlater := run_commands hafter
        rw [List.filterMap_cons_none rfl] at hlater
        exact issued_later hc hlater hends.holds
    · rw [List.eq_nil_iff_forall_not_mem]
      intro d hd
      have hin := delivered_at_resolve hbefore hafter hs hd
      rw [deliver_of_refused hrefused] at hin
      exact absurd hin List.not_mem_nil

/-! ## A name that changes hands -/

def firstChat : Resident ℕ ℕ ℕ := ⟨7, chatObject.descriptor, 7, none, none⟩

def secondChat : Resident ℕ ℕ ℕ := ⟨8, chatObject.descriptor, 8, none, none⟩

def willing : Surroundings ℕ ℕ :=
  ⟨fun _ _ _ message => .returned (.ok message), fun _ _ _ message => .returned (.ok message),
    fun _ _ _ => .returned (.ok ())⟩

def toItself : RouteCommand := ⟨1, chatObject.descriptor.key, ⟨⟨"chat", by decide⟩, .null⟩⟩

def willingAnswers : Answers ℕ := fun _ _ => .ok ()

/-- The name passes to another Resident between the resolve step and the delivery. -/
theorem one_hop_routing_reused :
    ∃ (t : Traffic ℕ ℕ ℕ) (es : List (Event ℕ ℕ ℕ)), Run (Step willing) start es t ∧
      (deliveriesOf t 0).map Delivery.mailbox = [7] ∧
      (∃ record, t.rdf.state.residents[toItself.target]? = some record ∧ record.mailbox = 8) ∧
      ∀ s, t.sends[0]? = some s → s.phase = .answered (.ok ()) := by
  have hrun : Run (Step willing) start
      [.command ⟨.register firstChat willingAnswers, .registered (.ok ⟨1, [], []⟩), []⟩,
        .send toItself, .spawn 0, .resolve 0,
        .command ⟨.unregister 1, .unregistered (.ok firstChat.descriptor), []⟩,
        .command ⟨.register secondChat willingAnswers, .registered (.ok ⟨2, [], []⟩), []⟩,
        .outbound 0, .inbound 0, .deliver 0] _ :=
    .cons (.command _ _ (commit new firstChat) rfl) <|
    .cons (.send _ _) <|
    .cons (.spawn _ 0 _ rfl rfl rfl fun j _ hj => absurd hj (Nat.not_lt_zero j)) <|
    .cons (.resolve _ 0 _ rfl rfl) <|
    .cons (.command _ _ (retire (commit new firstChat) 1 firstChat.descriptor.key) rfl) <|
    .cons (.command _ _
      (commit (retire (commit new firstChat) 1 firstChat.descriptor.key) secondChat) rfl) <|
    .cons (.outbound _ 0 _ _ rfl rfl) <| .cons (.inbound _ 0 _ _ _ rfl rfl) <|
    .single (.deliver _ 0 _ _ _ rfl rfl)
  refine ⟨_, _, hrun, rfl, ⟨_, rfl, rfl⟩, fun s hs => ?_⟩
  apply ((one_hop_routing hrun).2 0 s hs).2.1.mpr
  exact ⟨_, List.mem_singleton.mpr rfl, rfl⟩

end NormaHarness.RuntimeFlow
