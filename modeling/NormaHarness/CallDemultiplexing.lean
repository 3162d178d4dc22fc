import NormaHarness.AppServer

/-!
# Telling responses, requests and notifications apart

Both sides number their requests from small integers on one stream. A call takes the
first message that carries its identity for its response, before it asks whether the
message is a request of the process. So the three kinds are told apart exactly as long
as the messages it reads have a method or the identity of the call, and never both.
-/
namespace NormaHarness.AppServer
open Identifiers Contracts JsonValues LlmProtocol ToolProtocol Media CodexWorker

def isRequest (m : Json) : Bool := m.has "id" && m.has "method"

def isNotification (m : Json) : Bool := !m.has "id" && m.has "method"

def isResponse (id : ℕ) (m : Json) : Bool := (m.get "id").asU64 == some id && !m.has "method"

/-- An answer to a request of the process. -/
structure Answers (request answer : Json) : Prop where
  identity : answer.get "id" = request.get "id"
  response : answer.has "method" = false

/-- The messages read between two states: each one a request, which has got one answer, or
a notification, which has been queued. -/
structure Served (s : Server) (read : List Json) (s' : Server) : Prop where
  known : ∀ m ∈ read, isRequest m = true ∨ isNotification m = true
  queued : s'.pending = s.pending ++ read.filter isNotification
  answered : ∃ answers, s'.written = s.written ++ answers ∧
    List.Forall₂ Answers (read.filter isRequest) answers

/-- Where a call stops: at the end of the input so far, at its response, or at a pipe that
breaks while it is read or while a request is being answered. -/
inductive Stops (env : Environment) (id : ℕ) (method : String) (s : Server) :
    Incoming → Option (Except AppServerError Json) → Incoming → Prop
  | waiting : Stops env id method s [] none []
  | returned {m : Json} (rest : Incoming) : isResponse id m = true →
      Stops env id method s (.ok m :: rest) (some (responseOf env.toText method m)) rest
  | unreadable (error : AppServerError) (rest : Incoming) :
      Stops env id method s (.error error :: rest) (some (.error error)) rest
  | unwritable {m : Json} {error : String} (rest : Incoming) : isRequest m = true →
      env.stdin s.written.length = .error error →
      Stops env id method s (.ok m :: rest) (some (.error (.io error))) rest

def Demultiplexed (env : Environment) (id : ℕ) (method : String) (s : Server)
    (incoming : Incoming) (called : Called Json) : Prop :=
  ∃ (read : List Json) (tail : Incoming), incoming = read.map .ok ++ tail ∧
    Served s read called.server ∧
      Stops env id method called.server tail called.reply called.rest

/-- Either a method or the identity of the call. -/
def Clear (id : ℕ) (m : Json) : Prop := m.has "method" = true ↔ (m.get "id").asU64 ≠ some id

/-- Every message read up to the first one with the identity of the call is clear, as long
as the pipe takes the answers before it. -/
def ClearUntilReturn (env : Environment) (id : ℕ) (s : Server) (incoming : Incoming) : Prop :=
  ∀ (read : List Json) (m : Json) (rest : Incoming), incoming = read.map .ok ++ .ok m :: rest →
    (∀ k ∈ read, (k.get "id").asU64 ≠ some id) →
    (∀ n < (read.filter isRequest).length, env.stdin (s.written.length + n) = .ok ()) →
    Clear id m

theorem has_id_of_asU64 {m : Json} {id : ℕ} (h : (m.get "id").asU64 = some id) :
    m.has "id" = true := by
  refine Json.has_of_get fun hnull => ?_
  rw [hnull] at h
  cases h

/-! ## One request of the process -/

theorem toolAnswer_answers (request : Json) (output : Bool × String) :
    Answers request (toolAnswer (request.get "id") output) :=
  ⟨rfl, rfl⟩

theorem declined_answers (request : Json) : Answers request (declined (request.get "id")) :=
  ⟨rfl, rfl⟩

theorem unsupported_answers (request : Json) (method : String) :
    Answers request (unsupported (request.get "id") method) :=
  ⟨rfl, rfl⟩

/-- One answer is written, unless the pipe is broken. -/
inductive AnswerStep (env : Environment) (request : Json) (s : Server) :
    Except AppServerError Server → Prop
  | broken (error : String) : env.stdin s.written.length = .error error →
      AnswerStep env request s (.error (.io error))
  | answered (answer : Json) (published : List MediaAsset) :
      env.stdin s.written.length = .ok () → Answers request answer →
      AnswerStep env request s
        (.ok {s with written := s.written ++ [answer], publishedMedia := published})

theorem write_step (env : Environment) {request answer : Json} (s : Server)
    (published : List MediaAsset) (h : Answers request answer) :
    AnswerStep env request s (write env answer {s with publishedMedia := published}) := by
  unfold write
  cases hstdin : env.stdin s.written.length with
  | error error => exact .broken error hstdin
  | ok u => exact .answered answer published hstdin h

theorem answerServerRequest_step (env : Environment) (context : Option LlmTurnRequest)
    (request : Json) (s : Server) :
    AnswerStep env request s (answerServerRequest env context request s) := by
  unfold answerServerRequest
  simp only
  split_ifs
  · exact write_step env s _ (toolAnswer_answers request _)
  · exact write_step env s s.publishedMedia (declined_answers request)
  · exact write_step env s s.publishedMedia (unsupported_answers request _)

/-! ## The loop -/

theorem awaitResponse_written (env : Environment) (context : Option LlmTurnRequest) (id : ℕ)
    (method : String) (incoming : Incoming) (s : Server) :
    s.written <+: (awaitResponse env context id method incoming s).server.written := by
  induction incoming generalizing s with
  | nil => exact List.prefix_refl _
  | cons first rest ih =>
      cases first with
      | error error => exact List.prefix_refl _
      | ok m =>
          unfold awaitResponse
          split_ifs
          · exact List.prefix_refl _
          · have hstep := answerServerRequest_step env context m s
            generalize answerServerRequest env context m s = out at hstep ⊢
            cases hstep with
            | broken error _ => exact List.prefix_refl _
            | answered answer published _ _ =>
                exact (List.prefix_append s.written [answer]).trans (ih {s with
                  written := s.written ++ [answer], publishedMedia := published})
          · exact ih {s with pending := s.pending ++ [m]}
          · exact ih s

namespace Served

variable {s s' : Server} {m : Json} {read : List Json}

theorem nil (s : Server) : Served s [] s where
  known := by simp
  queued := by simp
  answered := ⟨[], by simp, .nil⟩

theorem request (hm : isRequest m = true) {answer : Json} (ha : Answers m answer)
    {published : List MediaAsset}
    (h : Served {s with written := s.written ++ [answer], publishedMedia := published} read s') :
    Served s (m :: read) s' := by
  have hnot : isNotification m = false := by
    simp only [isRequest, Bool.and_eq_true] at hm
    simp [isNotification, hm.1]
  obtain ⟨answers, hwritten, hanswers⟩ := h.answered
  refine ⟨?_, ?_, answer :: answers, ?_, ?_⟩
  · intro k hk
    rcases List.mem_cons.mp hk with rfl | hk
    · exact .inl hm
    · exact h.known k hk
  · rw [List.filter_cons_of_neg (by simp [hnot])]
    exact h.queued
  · rw [hwritten, List.append_assoc, List.singleton_append]
  · rw [List.filter_cons_of_pos hm]
    exact .cons ha hanswers

theorem notification (hm : isNotification m = true)
    (h : Served {s with pending := s.pending ++ [m]} read s') : Served s (m :: read) s' := by
  have hnot : isRequest m = false := by
    simp only [isNotification, Bool.and_eq_true, Bool.not_eq_true'] at hm
    simp [isRequest, hm.1]
  obtain ⟨answers, hwritten, hanswers⟩ := h.answered
  refine ⟨?_, ?_, answers, hwritten, ?_⟩
  · intro k hk
    rcases List.mem_cons.mp hk with rfl | hk
    · exact .inr hm
    · exact h.known k hk
  · rw [List.filter_cons_of_pos hm, h.queued, List.append_assoc, List.singleton_append]
  · rw [List.filter_cons_of_neg (by simp [hnot])]
    exact hanswers

end Served

namespace ClearUntilReturn

variable {env : Environment} {id : ℕ} {s : Server} {m : Json} {rest : Incoming}

theorem head (h : ClearUntilReturn env id s (.ok m :: rest)) : Clear id m :=
  h [] m rest rfl (by simp) (by simp)

theorem afterRequest (h : ClearUntilReturn env id s (.ok m :: rest))
    (hid : (m.get "id").asU64 ≠ some id) (hstdin : env.stdin s.written.length = .ok ())
    (hm : isRequest m = true) {answer : Json} {published : List MediaAsset} :
    ClearUntilReturn env id
      {s with written := s.written ++ [answer], publishedMedia := published} rest := by
  intro read k later hrest hother hpipe
  refine h (m :: read) k later (by rw [hrest]; rfl) (by simpa [hid] using hother) fun n hn => ?_
  rw [List.filter_cons_of_pos hm, List.length_cons] at hn
  cases n with
  | zero => exact hstdin
  | succ n =>
      have hnext := hpipe n (by omega)
      rw [List.length_append, List.length_singleton, Nat.add_assoc, Nat.add_comm 1 n] at hnext
      exact hnext

theorem afterNotification (h : ClearUntilReturn env id s (.ok m :: rest))
    (hid : (m.get "id").asU64 ≠ some id) (hm : isRequest m = false) :
    ClearUntilReturn env id {s with pending := s.pending ++ [m]} rest := by
  intro read k later hrest hother hpipe
  refine h (m :: read) k later (by rw [hrest]; rfl) (by simpa [hid] using hother) ?_
  rw [List.filter_cons_of_neg (by simp [hm])]
  exact hpipe

end ClearUntilReturn

theorem awaitResponse_demultiplexed (env : Environment) (context : Option LlmTurnRequest)
    (id : ℕ) (method : String) {incoming : Incoming} {s : Server}
    (h : ClearUntilReturn env id s incoming) :
    Demultiplexed env id method s incoming
      (awaitResponse env context id method incoming s) := by
  induction incoming generalizing s with
  | nil => exact ⟨[], [], rfl, .nil s, .waiting⟩
  | cons first rest ih =>
      cases first with
      | error error => exact ⟨[], _, rfl, .nil s, .unreadable error rest⟩
      | ok m =>
          have hclear : Clear id m := h.head
          unfold awaitResponse
          split_ifs with hid hrequest hmethod
          · refine ⟨[], _, rfl, .nil s, .returned rest ?_⟩
            have hnone : m.has "method" = false :=
              Bool.eq_false_iff.mpr fun hmethod => hclear.mp hmethod hid
            simp [isResponse, hid, hnone]
          · have hstep := answerServerRequest_step env context m s
            generalize answerServerRequest env context m s = out at hstep ⊢
            cases hstep with
            | broken error hstdin =>
                exact ⟨[], _, rfl, .nil s, .unwritable rest hrequest hstdin⟩
            | answered answer published hstdin hanswers =>
                obtain ⟨read, tail, hrest, hserved, hstops⟩ :=
                  ih (h.afterRequest hid hstdin hrequest)
                exact ⟨m :: read, tail, by rw [hrest]; rfl,
                  .request hrequest hanswers hserved, hstops⟩
          · have hnotification : isNotification m = true := by
              simp only [hmethod, Bool.and_true, Bool.not_eq_true] at hrequest
              simp [isNotification, hrequest, hmethod]
            obtain ⟨read, tail, hrest, hserved, hstops⟩ :=
              ih (h.afterNotification hid (Bool.eq_false_iff.mpr hrequest))
            exact ⟨m :: read, tail, by rw [hrest]; rfl,
              .notification hnotification hserved, hstops⟩
          · exact absurd (hclear.mpr hid) hmethod

/-! ## No message is clear by accident -/

theorem responseOf_ne_io (toText : Json → String) (method : String) (m : Json) (error : String) :
    responseOf toText method m ≠ .error (.io error) := by
  unfold responseOf
  dsimp only
  split_ifs
  · simp
  · simp
  · simp

namespace Served

variable {s s' : Server} {m : Json} {read : List Json}

theorem of_nil (h : Served s [] s') : s'.written = s.written := by
  obtain ⟨answers, hwritten, hanswers⟩ := h.answered
  cases hanswers
  rw [hwritten, List.append_nil]

theorem ofRequest (h : Served s (m :: read) s') (hm : isRequest m = true) {answer : Json}
    {published : List MediaAsset} (hextends : s.written ++ [answer] <+: s'.written) :
    Served {s with written := s.written ++ [answer], publishedMedia := published} read s' := by
  have hnot : isNotification m = false := by
    simp only [isRequest, Bool.and_eq_true] at hm
    simp [isNotification, hm.1]
  have hqueued := h.queued
  rw [List.filter_cons_of_neg (by simp [hnot])] at hqueued
  obtain ⟨answers, hwritten, hanswers⟩ := h.answered
  rw [List.filter_cons_of_pos hm] at hanswers
  cases hanswers with
  | @cons _ first _ later hfirst hlater =>
      rw [hwritten, List.prefix_append_right_inj, List.cons_prefix_cons] at hextends
      obtain ⟨rfl, _⟩ := hextends
      refine ⟨fun k hk => h.known k (List.mem_cons_of_mem _ hk), hqueued, later, ?_, hlater⟩
      rw [hwritten, List.append_assoc, List.singleton_append]

theorem ofNotification (h : Served s (m :: read) s') (hm : isNotification m = true) :
    Served {s with pending := s.pending ++ [m]} read s' := by
  have hnot : isRequest m = false := by
    simp only [isNotification, Bool.and_eq_true, Bool.not_eq_true'] at hm
    simp [isRequest, hm.1]
  have hqueued := h.queued
  rw [List.filter_cons_of_pos hm] at hqueued
  obtain ⟨answers, hwritten, hanswers⟩ := h.answered
  rw [List.filter_cons_of_neg (by simp [hnot])] at hanswers
  refine ⟨fun k hk => h.known k (List.mem_cons_of_mem _ hk), ?_, answers, hwritten, hanswers⟩
  rw [hqueued, List.append_assoc, List.singleton_append]

end Served

namespace Demultiplexed

variable {env : Environment} {id : ℕ} {method : String} {s : Server} {m : Json}
  {rest : Incoming} {called : Called Json}

/-- A message without the identity of the call was read and served, or the pipe broke on it. -/
theorem first (h : Demultiplexed env id method s (.ok m :: rest) called)
    (hid : (m.get "id").asU64 ≠ some id) :
    (isRequest m = true ∧ ∃ error, env.stdin s.written.length = .error error) ∨
    ∃ (read : List Json) (tail : Incoming), rest = read.map .ok ++ tail ∧
      Served s (m :: read) called.server ∧
      Stops env id method called.server tail called.reply called.rest := by
  obtain ⟨read, tail, hincoming, hserved, hstops⟩ := h
  cases read with
  | nil =>
      obtain rfl : .ok m :: rest = tail := hincoming
      have hwritten := hserved.of_nil
      generalize called.reply = reply at hstops
      generalize called.rest = rest' at hstops
      cases hstops with
      | returned _ hresponse =>
          simp only [isResponse, Bool.and_eq_true, beq_iff_eq] at hresponse
          exact absurd hresponse.1 hid
      | unwritable _ hrequest hstdin =>
          rw [hwritten] at hstdin
          exact .inl ⟨hrequest, _, hstdin⟩
  | cons k read =>
      rw [List.map_cons, List.cons_append, List.cons.injEq] at hincoming
      obtain ⟨hk, hrest⟩ := hincoming
      obtain rfl := Except.ok.inj hk
      exact .inr ⟨read, tail, hrest, hserved, hstops⟩

theorem method_of_other (h : Demultiplexed env id method s (.ok m :: rest) called)
    (hid : (m.get "id").asU64 ≠ some id) : m.has "method" = true := by
  have of_request : isRequest m = true → m.has "method" = true := fun hm => by
    simp only [isRequest, Bool.and_eq_true] at hm
    exact hm.2
  rcases h.first hid with ⟨hm, _⟩ | ⟨read, tail, _, hserved, _⟩
  · exact of_request hm
  · rcases hserved.known m List.mem_cons_self with hm | hm
    · exact of_request hm
    · simp only [isNotification, Bool.and_eq_true] at hm
      exact hm.2

theorem afterRequest (h : Demultiplexed env id method s (.ok m :: rest) called)
    (hid : (m.get "id").asU64 ≠ some id) (hm : isRequest m = true)
    (hstdin : env.stdin s.written.length = .ok ()) {answer : Json} {published : List MediaAsset}
    (hextends : s.written ++ [answer] <+: called.server.written) :
    Demultiplexed env id method
      {s with written := s.written ++ [answer], publishedMedia := published} rest called := by
  rcases h.first hid with ⟨_, error, hbroken⟩ | ⟨read, tail, hrest, hserved, hstops⟩
  · rw [hstdin] at hbroken
    cases hbroken
  · exact ⟨read, tail, hrest, hserved.ofRequest hm hextends, hstops⟩

theorem afterNotification (h : Demultiplexed env id method s (.ok m :: rest) called)
    (hid : (m.get "id").asU64 ≠ some id) (hm : isNotification m = true) :
    Demultiplexed env id method {s with pending := s.pending ++ [m]} rest called := by
  rcases h.first hid with ⟨hrequest, _⟩ | ⟨read, tail, hrest, hserved, hstops⟩
  · simp only [isRequest, Bool.and_eq_true] at hrequest
    simp [isNotification, hrequest.1] at hm
  · exact ⟨read, tail, hrest, hserved.ofNotification hm, hstops⟩

/-- The call has returned on its first message. -/
theorem clear_of_returned {env : Environment}
    (h : Demultiplexed env id method s (.ok m :: rest)
      ⟨some (responseOf env.toText method m), s, rest⟩)
    (hid : (m.get "id").asU64 = some id) : Clear id m := by
  obtain ⟨read, tail, hincoming, hserved, hstops⟩ := h
  have hnone : m.has "method" = false := by
    cases read with
    | nil =>
        obtain rfl : .ok m :: rest = tail := hincoming
        generalize hreply : some (responseOf env.toText method m) = reply at hstops
        cases hstops with
        | returned _ hresponse =>
            simp only [isResponse, Bool.and_eq_true, Bool.not_eq_true'] at hresponse
            exact hresponse.2
        | unwritable _ _ _ =>
            exact absurd (Option.some.inj hreply) (responseOf_ne_io env.toText method m _)
    | cons k read =>
        rw [List.map_cons, List.cons_append, List.cons.injEq] at hincoming
        obtain ⟨hk, _⟩ := hincoming
        obtain rfl := Except.ok.inj hk
        rcases hserved.known m List.mem_cons_self with hm | hm
        · obtain ⟨answers, hwritten, hanswers⟩ := hserved.answered
          rw [List.filter_cons_of_pos hm] at hanswers
          rw [List.self_eq_append_right] at hwritten
          subst hwritten
          cases hanswers
        · simp [isNotification, has_id_of_asU64 hid] at hm
  simp [Clear, hid, hnone]

end Demultiplexed

section

variable (env : Environment) (context : Option LlmTurnRequest) {id : ℕ} (method : String)
  {m : Json} (rest : Incoming) (s : Server)

theorem awaitResponse_own (hid : (m.get "id").asU64 = some id) :
    awaitResponse env context id method (.ok m :: rest) s =
      ⟨some (responseOf env.toText method m), s, rest⟩ := by
  unfold awaitResponse
  rw [if_pos hid]

theorem awaitResponse_request (hid : (m.get "id").asU64 ≠ some id) (hm : isRequest m = true)
    {served : Server} (hserved : answerServerRequest env context m s = .ok served) :
    awaitResponse env context id method (.ok m :: rest) s =
      awaitResponse env context id method rest served := by
  rw [awaitResponse, if_neg hid, if_pos (show (m.has "id" && m.has "method") = true from hm),
    hserved]

theorem awaitResponse_notification (hid : (m.get "id").asU64 ≠ some id)
    (hm : isNotification m = true) :
    awaitResponse env context id method (.ok m :: rest) s =
      awaitResponse env context id method rest {s with pending := s.pending ++ [m]} := by
  simp only [isNotification, Bool.and_eq_true, Bool.not_eq_true'] at hm
  rw [awaitResponse, if_neg hid, if_neg (by simp [hm.1]), if_pos hm.2]

end

theorem clearUntilReturn_of_demultiplexed {env : Environment} {context : Option LlmTurnRequest}
    {id : ℕ} {method : String} {incoming : Incoming} {s : Server}
    (h : Demultiplexed env id method s incoming
      (awaitResponse env context id method incoming s)) :
    ClearUntilReturn env id s incoming := by
  intro read
  induction read generalizing incoming s with
  | nil =>
      rintro m later rfl _ _
      by_cases hid : (m.get "id").asU64 = some id
      · rw [List.map_nil, List.nil_append, awaitResponse_own env context method later s hid] at h
        exact h.clear_of_returned hid
      · exact ⟨fun _ => hid, fun _ => h.method_of_other hid⟩
  | cons k read ih =>
      rintro m later rfl hother hpipe
      rw [List.map_cons, List.cons_append] at h
      have hid : (k.get "id").asU64 ≠ some id := hother k List.mem_cons_self
      have hother' : ∀ l ∈ read, (l.get "id").asU64 ≠ some id :=
        fun l hl => hother l (List.mem_cons_of_mem _ hl)
      have hmethod := h.method_of_other hid
      cases hrequest : isRequest k with
      | true =>
          rw [List.filter_cons_of_pos hrequest, List.length_cons] at hpipe
          have hstdin : env.stdin s.written.length = .ok () := hpipe 0 (Nat.succ_pos _)
          have hstep := answerServerRequest_step env context k s
          cases hout : answerServerRequest env context k s with
          | error error =>
              rw [hout] at hstep
              cases hstep with
              | broken error hbroken =>
                  rw [hstdin] at hbroken
                  cases hbroken
          | ok served =>
              rw [awaitResponse_request env context method _ s hid hrequest hout] at h
              rw [hout] at hstep
              cases hstep with
              | answered answer published _ _ =>
                  have hextends := awaitResponse_written env context id method
                    (read.map .ok ++ .ok m :: later) {s with
                      written := s.written ++ [answer], publishedMedia := published}
                  refine ih (h.afterRequest hid hrequest hstdin hextends) m later rfl hother' ?_
                  intro n hn
                  have hnext := hpipe (n + 1) (Nat.succ_lt_succ hn)
                  rw [List.length_append, List.length_singleton, Nat.add_assoc, Nat.add_comm 1 n]
                  exact hnext
      | false =>
          have hnotification : isNotification k = true := by
            simp only [isRequest, hmethod, Bool.and_true] at hrequest
            simp [isNotification, hrequest, hmethod]
          rw [awaitResponse_notification env context method _ s hid hnotification] at h
          rw [List.filter_cons_of_neg (by simp [hrequest])] at hpipe
          exact ih (h.afterNotification hid hnotification) m later rfl hother' hpipe

/-! ## The call -/

/-- A call: nothing is read when its own message cannot be written. -/
def CallDemultiplexed (env : Environment) (method : String) (params : Json) (s : Server)
    (incoming : Incoming) (called : Called Json) : Prop :=
  match write env (callMessage (s.nextId + 1) method params) {s with nextId := s.nextId + 1} with
  | .error error => called = ⟨some (.error error), {s with nextId := s.nextId + 1}, incoming⟩
  | .ok sent => Demultiplexed env (s.nextId + 1) method sent incoming called

/-- The messages that the call reads are clear. -/
def Unambiguous (env : Environment) (s : Server) (incoming : Incoming) : Prop :=
  ∀ (read : List Json) (m : Json) (rest : Incoming), incoming = read.map .ok ++ .ok m :: rest →
    (∀ k ∈ read, (k.get "id").asU64 ≠ some (s.nextId + 1)) →
    (∀ n ≤ (read.filter isRequest).length, env.stdin (s.written.length + n) = .ok ()) →
    Clear (s.nextId + 1) m

/-- A call tells responses, requests and notifications apart exactly when every message it
reads has a method or the identity of the call, and not both. -/
theorem call_demultiplexed_iff (env : Environment) (context : Option LlmTurnRequest)
    (method : String) (params : Json) (s : Server) (incoming : Incoming) :
    CallDemultiplexed env method params s incoming
        (callWithTool env context method params s incoming) ↔
      Unambiguous env s incoming := by
  unfold CallDemultiplexed callWithTool write
  simp only
  cases hstdin : env.stdin s.written.length with
  | error error =>
      refine iff_of_true rfl fun read m rest _ _ hpipe => ?_
      have hzero := hpipe 0 (Nat.zero_le _)
      rw [Nat.add_zero, hstdin] at hzero
      cases hzero
  | ok u =>
      have hclear : ClearUntilReturn env (s.nextId + 1)
          {s with
            nextId := s.nextId + 1
            written := s.written ++ [callMessage (s.nextId + 1) method params]} incoming ↔
          Unambiguous env s incoming := by
        refine forall_congr' fun read => forall_congr' fun m => forall_congr' fun rest =>
          imp_congr_right fun _ => imp_congr_right fun _ => imp_congr_left ?_
        rw [List.length_append, List.length_singleton]
        constructor
        · intro hpipe n hn
          cases n with
          | zero => exact hstdin
          | succ n =>
              have hnext := hpipe n hn
              rw [Nat.add_assoc, Nat.add_comm 1 n] at hnext
              exact hnext
        · intro hpipe n hn
          rw [Nat.add_assoc, Nat.add_comm 1 n]
          exact hpipe (n + 1) hn
      rw [← hclear]
      exact ⟨clearUntilReturn_of_demultiplexed, awaitResponse_demultiplexed env context _ method⟩

def openPipe : Environment := ⟨fun _ => "", fun _ => .ok (), fun _ => noTools⟩

/-- A tool call of the process under the number that the client's next call takes. -/
def collidingRequest : Json :=
  .obj [("id", .ofNat 3), ("method", .str "item/tool/call"),
    ("params", .obj [("arguments", .obj []), ("callId", .str "call-1"),
      ("threadId", .str "thread-1"), ("tool", .str "list_group_members"),
      ("turnId", .str "turn-1")])]

/-- The tool call is taken for the response of the call: it is not answered, and the call
fails because a request has no result. -/
theorem tool_call_taken_for_response :
    let s : Server := ⟨[], {"thread-1"}, 2, [], []⟩
    let called := callWithTool openPipe none "turn/start" .null s [.ok collidingRequest]
    isRequest collidingRequest = true ∧
      called.reply = some (.error (.protocol "turn/start returned no result")) ∧
      called.server.written = [callMessage 3 "turn/start" .null] ∧
      ¬CallDemultiplexed openPipe "turn/start" .null s [.ok collidingRequest] called := by
  refine ⟨by decide, by rfl, by rfl, fun h => ?_⟩
  have hclear : Clear 3 collidingRequest := Demultiplexed.clear_of_returned h (by rfl)
  exact hclear.mp (by decide) (by rfl)

end NormaHarness.AppServer
