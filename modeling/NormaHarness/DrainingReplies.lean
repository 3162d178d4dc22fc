import NormaHarness.CodexMailbox

/-!
# Results while the worker drains

The mailbox checks that it is still accepting before it looks at an event, and it does
not tell new work from the results of work in progress. A result is served as long as
the mailbox has not been closed. After that it is refused, and a worker that waits for
it waits for good.
-/
namespace NormaHarness.CodexMailbox
open Std Identifiers Contracts JsonValues LlmProtocol ToolProtocol

/-- A well-formed result for a call, from the Resident that answers calls. -/
def IsReply (table : Pending) (callId : String) (result : ToolResult) (event : ResidentEvent) :
    Prop :=
  ∃ routed, event = .message routed ∧ routed.source = toolRoomsKey ∧
    routed.message.kind = table.resultKind ∧
    table.decode routed.message.payload = some result ∧ result.callId = callId

/-- The delivery is accepted, wakes the call and removes its entry, and nothing else. -/
structure Served (decodeError : Json → String) (capacity : ℕ) (s : Runtime) (table : Pending)
    (callId : String) (waiter : ℕ) (result : ToolResult) (event : ResidentEvent) : Prop where
  accepted : (deliver decodeError capacity s.mailbox event).result = .ok ()
  wakes : (deliver decodeError capacity s.mailbox event).woken = some (waiter, result)
  removes : (deliver decodeError capacity s.mailbox event).mailbox =
    s.mailbox.removed table callId

/-- A call that has no result yet has its entry in the table. -/
def Tracked (s : Runtime) : Prop :=
  ∀ table callId waiter, s.worker.Calls table callId waiter → s.replies waiter = none →
    (s.mailbox.pending table)[callId]? = some waiter

section

variable {decodeError : Json → String} {capacity : ℕ} {s t : Runtime} {label : Label}
  {labels : List Label}

/-! ## One delivery -/

theorem deliver_closed {mailbox : QueueMailbox} (h : mailbox.accepting = false)
    (event : ResidentEvent) : deliver decodeError capacity mailbox event =
      ⟨.error ⟨"Codex Resident is stopping"⟩, mailbox, none⟩ := by
  simp [deliver, h]

theorem deliver_reply {mailbox : QueueMailbox} (h : mailbox.accepting = true) {table : Pending}
    {callId : String} {result : ToolResult} {event : ResidentEvent}
    (hreply : IsReply table callId result event) :
    deliver decodeError capacity mailbox event = handOver mailbox table result := by
  obtain ⟨routed, rfl, hsource, hkind, hdecode, -⟩ := hreply
  simp [deliver, h, hkind, Pending.ofKind_resultKind, hsource, hdecode]

/-- A delivery keeps an entry or wakes its call. -/
theorem deliver_entry {mailbox : QueueMailbox} {event : ResidentEvent} {table : Pending}
    {callId : String} {waiter : ℕ} (hentry : (mailbox.pending table)[callId]? = some waiter) :
    ((deliver decodeError capacity mailbox event).mailbox.pending table)[callId]? = some waiter ∨
      ∃ result, (deliver decodeError capacity mailbox event).woken = some (waiter, result) := by
  unfold deliver
  split_ifs
  · exact .inl hentry
  · cases event with
    | residentRegistered descriptor => exact .inl hentry
    | message routed =>
        simp only
        cases Pending.ofKind routed.message.kind with
        | none =>
            simp only [enqueue]
            split_ifs <;> exact .inl hentry
        | some other =>
            simp only
            split_ifs
            · exact .inl hentry
            · cases other.decode routed.message.payload with
              | none => exact .inl hentry
              | some result =>
                  simp only [handOver]
                  cases hfound : (mailbox.pending other)[result.callId]? with
                  | none => exact .inl hentry
                  | some found =>
                      simp only [Function.update_apply]
                      by_cases htable : table = other
                      · subst htable
                        by_cases hid : result.callId = callId
                        · subst hid
                          obtain rfl := Option.some.inj (hentry.symm.trans hfound)
                          exact .inr ⟨result, rfl⟩
                        · refine .inl ?_
                          simpa [ExtTreeMap.getElem?_erase, hid] using hentry
                      · exact .inl (by simpa [htable] using hentry)

/-! ## Runs -/

theorem Tracked.step (h : Tracked s) (hstep : Step decodeError capacity s label t) :
    Tracked t := by
  intro table callId waiter hcalls hopen
  cases hstep with
  | deliver event =>
      simp only [Runtime.delivered] at hcalls hopen ⊢
      cases hwoken : (deliver decodeError capacity s.mailbox event).woken with
      | none =>
          rw [hwoken] at hopen
          rcases deliver_entry (h table callId waiter hcalls hopen) with hkept | ⟨result, hsome⟩
          · exact hkept
          · rw [hwoken] at hsome
            cases hsome
      | some woken =>
          obtain ⟨other, result⟩ := woken
          rw [hwoken] at hopen
          simp only [Function.update_apply] at hopen
          split_ifs at hopen with hother
          rcases deliver_entry (h table callId waiter hcalls hopen) with hkept | ⟨_, hsome⟩
          · exact hkept
          · rw [hwoken] at hsome
            exact absurd (Prod.mk.inj (Option.some.inj hsome)).1.symm hother
  | take event rest hworker _ _ =>
      simp only at hcalls
      split_ifs at hcalls
      · exact absurd hcalls (WorkerPhase.not_calls (.inr (.inl rfl)) _ _ _)
      · exact absurd hcalls (WorkerPhase.not_calls (.inl rfl) _ _ _)
  | call table' callId' hworker _ =>
      rcases hcalls with hcalls | hcalls
      · obtain ⟨rfl, rfl, rfl⟩ := WorkerPhase.requesting.inj hcalls
        simp [QueueMailbox.inserted]
      · cases hcalls
  | sent table' callId' waiter' hworker =>
      rcases hcalls with hcalls | hcalls
      · cases hcalls
      · obtain ⟨rfl, rfl, rfl⟩ := WorkerPhase.awaiting.inj hcalls
        exact h table' callId' waiter' (.inl hworker) hopen
  | unsent table' callId' waiter' _ =>
      exact absurd hcalls (WorkerPhase.not_calls (.inr (.inl rfl)) _ _ _)
  | resume table' callId' waiter' result _ _ =>
      exact absurd hcalls (WorkerPhase.not_calls (.inr (.inl rfl)) _ _ _)
  | finish _ => exact absurd hcalls (WorkerPhase.not_calls (.inl rfl) _ _ _)
  | close => exact h table callId waiter hcalls hopen
  | signal _ => exact h table callId waiter hcalls hopen
  | observe _ _ _ => exact h table callId waiter hcalls hopen
  | drained _ _ _ => exact absurd hcalls (WorkerPhase.not_calls (.inr (.inr rfl)) _ _ _)

theorem deliver_accepting (mailbox : QueueMailbox) (event : ResidentEvent) :
    (deliver decodeError capacity mailbox event).mailbox.accepting = mailbox.accepting := by
  unfold deliver
  split_ifs
  · rfl
  · cases event with
    | residentRegistered descriptor => rfl
    | message routed =>
        simp only
        split
        · simp only [enqueue]
          split_ifs <;> rfl
        · split_ifs
          · rfl
          · split
            · rfl
            · simp only [handOver]
              split <;> rfl

/-- Only closing stops a mailbox from accepting. -/
theorem step_accepting (hstep : Step decodeError capacity s label t) :
    t.mailbox.accepting = true ↔ s.mailbox.accepting = true ∧ label ≠ .close := by
  cases hstep with
  | deliver event => simp [Runtime.delivered, deliver_accepting]
  | close => simp
  | _ => simp [QueueMailbox.removed, QueueMailbox.inserted]

theorem run_accepting (hrun : RuntimeRun decodeError capacity s labels t) :
    t.mailbox.accepting = true ↔ s.mailbox.accepting = true ∧ .close ∉ labels := by
  induction hrun with
  | nil s => simp
  | cons hstep _ ih =>
      rw [ih, step_accepting hstep, List.mem_cons, not_or, and_assoc]
      exact and_congr_right fun _ => and_congr_left' ne_comm

/-- A worker that waits for a result behind a closed mailbox waits for good. -/
theorem stranded {table : Pending} {callId : String} {waiter : ℕ}
    (hrun : RuntimeRun decodeError capacity s labels t) (hclosed : s.mailbox.accepting = false)
    (hworker : s.worker = .awaiting table callId waiter) (hopen : s.replies waiter = none) :
    t.worker = .awaiting table callId waiter ∧ t.replies waiter = none := by
  have hall : t.mailbox.accepting = false ∧ t.worker = .awaiting table callId waiter ∧
      t.replies waiter = none := by
    refine hrun.invariant (P := fun s => s.mailbox.accepting = false ∧
      s.worker = .awaiting table callId waiter ∧ s.replies waiter = none) ?_
      ⟨hclosed, hworker, hopen⟩
    rintro s label t ⟨hclosed, hworker, hopen⟩ hstep
    cases hstep with
    | deliver event => simp [Runtime.delivered, deliver_closed hclosed, hclosed, hworker, hopen]
    | take _ _ hselecting _ _ => simp [hworker] at hselecting
    | call _ _ hturn _ => simp [hworker] at hturn
    | sent _ _ _ hrequesting => simp [hworker] at hrequesting
    | unsent _ _ _ hrequesting => simp [hworker] at hrequesting
    | resume table' callId' waiter' result hawaiting hreply =>
        obtain ⟨_, _, rfl⟩ := WorkerPhase.awaiting.inj (hworker.symm.trans hawaiting)
        rw [hopen] at hreply
        cases hreply
    | finish hturn => simp [hworker] at hturn
    | close => exact ⟨rfl, hworker, hopen⟩
    | signal _ => exact ⟨hclosed, hworker, hopen⟩
    | observe hselecting _ _ => simp [hworker] at hselecting
    | drained hselecting _ _ => simp [hworker] at hselecting
  exact hall.2

theorem launched_tracked : Tracked launched := by
  intro table callId waiter hcalls
  exact absurd hcalls (WorkerPhase.not_calls (.inl rfl) table callId waiter)

/-- In every run from a launch, a result that the worker waits for is served exactly when
the mailbox has not been closed. -/
theorem reply_served_iff {table : Pending} {callId : String} {waiter : ℕ} {result : ToolResult}
    {event : ResidentEvent} (hrun : RuntimeRun decodeError capacity launched labels s)
    (hcalls : s.worker.Calls table callId waiter) (hopen : s.replies waiter = none)
    (hreply : IsReply table callId result event) :
    Served decodeError capacity s table callId waiter result event ↔ .close ∉ labels := by
  have haccepting := run_accepting hrun
  rw [show launched.mailbox.accepting = true from rfl, eq_self_iff_true, true_and] at haccepting
  rw [← haccepting]
  constructor
  · intro hserved
    by_contra hclosed
    have haccepted := hserved.accepted
    rw [deliver_closed (Bool.eq_false_iff.mpr hclosed)] at haccepted
    cases haccepted
  · intro hlive
    have hentry : (s.mailbox.pending table)[callId]? = some waiter :=
      hrun.invariant (fun _ _ _ hs step => hs.step step) launched_tracked table callId waiter
        hcalls hopen
    have hid : result.callId = callId := by
      obtain ⟨_, _, _, _, _, hid⟩ := hreply
      exact hid
    have hdeliver : deliver decodeError capacity s.mailbox event =
        ⟨.ok (), s.mailbox.removed table callId, some (waiter, result)⟩ := by
      rw [deliver_reply hlive hreply]
      simp only [handOver, hid, hentry]
      rfl
    refine ⟨?_, ?_, ?_⟩
    · rw [hdeliver]
    · rw [hdeliver]
    · rw [hdeliver]

end

/-! ## A turn that cannot end -/

def catalogTurn : ResidentEvent :=
  .message ⟨chatRoomsKey, codexKey, turnRequestKind, LlmTurnRequest.codec.encode
    ⟨"chat-1-1", "hello", some ⟨.solo, 1, "Codex", false⟩, some "chat.rooms", some .direct, none,
      []⟩⟩

def catalogReply : ResidentEvent :=
  .message ⟨toolRoomsKey, codexKey, toolCatalogResultKind,
    ToolCatalogResult.codec.encode ⟨"chat-1-1", [.obj []]⟩⟩

theorem catalogReply_isReply :
    IsReply .catalog "chat-1-1" (.catalog ⟨"chat-1-1", [.obj []]⟩) catalogReply := by
  refine ⟨_, rfl, rfl, rfl, ?_, rfl⟩
  simp only [Pending.decode, Codec.decode_encode]
  rfl

/-- The worker has taken a turn and asked for the tool catalog. -/
def asking : Runtime :=
  ⟨⟨[], true, true, Function.update (fun _ => ∅) .catalog
    ((∅ : ExtTreeMap String ℕ).insert "chat-1-1" 0)⟩, fun _ => none, 1,
    .awaiting .catalog "chat-1-1" 0, false, false⟩

def askingLabels : List Label :=
  [.deliver catalogTurn, .take catalogTurn, .call .catalog "chat-1-1", .sent]

theorem asking_run (decodeError : Json → String) :
    RuntimeRun decodeError 16 launched askingLabels asking := by
  have hqueued : Step decodeError 16 launched (.deliver catalogTurn)
      {launched with mailbox := {launched.mailbox with queue := [catalogTurn]}} :=
    .deliver launched catalogTurn
  have htaken : Step decodeError 16
      {launched with mailbox := {launched.mailbox with queue := [catalogTurn]}}
      (.take catalogTurn) {launched with worker := .inTurn} :=
    .take _ catalogTurn [] rfl (fun hsignalled => absurd hsignalled (by decide)) rfl
  have hcalled : Step decodeError 16 {launched with worker := .inTurn} (.call .catalog "chat-1-1")
      {asking with worker := .requesting .catalog "chat-1-1" 0} :=
    .call _ _ _ rfl fun hne => absurd rfl hne
  have hsent : Step decodeError 16 {asking with worker := .requesting .catalog "chat-1-1" 0}
      .sent asking := .sent _ _ _ _ rfl
  exact .cons hqueued (.cons htaken (.cons hcalled (.single hsent)))

/-- The catalog arrives before the mailbox is closed. -/
theorem reply_served_iff_asking :
    Served (fun _ => "") 16 asking .catalog "chat-1-1" 0 (.catalog ⟨"chat-1-1", [.obj []]⟩)
      catalogReply ↔ .close ∉ askingLabels :=
  reply_served_iff (asking_run fun _ => "") (.inr rfl) rfl catalogReply_isReply

/-- The mailbox is closed after the worker has asked for the tool catalog: the catalog is
refused, and the worker does not come back from the call in any run that follows. -/
theorem reply_refused :
    ∃ s, RuntimeRun (fun _ => "") 16 launched (askingLabels ++ [.close]) s ∧
      s.worker.Calls .catalog "chat-1-1" 0 ∧ s.replies 0 = none ∧
      IsReply .catalog "chat-1-1" (.catalog ⟨"chat-1-1", [.obj []]⟩) catalogReply ∧
      (deliver (fun _ => "") 16 s.mailbox catalogReply).result =
        .error ⟨"Codex Resident is stopping"⟩ ∧
      ∀ labels t, RuntimeRun (fun _ => "") 16 s labels t →
        t.worker = .awaiting .catalog "chat-1-1" 0 := by
  refine ⟨_, (asking_run fun _ => "").snoc (.close asking), .inr rfl, rfl, catalogReply_isReply,
    ?_, fun labels t hrun => ?_⟩
  · rw [deliver_closed rfl]
  · exact (stranded hrun rfl rfl rfl).1

end NormaHarness.CodexMailbox
