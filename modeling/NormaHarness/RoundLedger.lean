import NormaHarness.RoundProgress

/-!
# The ledger of a group round

Every ask of a round is entered with the answer it got and with the pairs that this answer
put into the queue. The queue is first in, first out: the follow-ups of a round are a
prefix of everything that its answers enqueued.
-/
namespace NormaHarness.Rounds
open Std Identifiers Contracts LlmProtocol Chat Asks

/-! ## The ledger -/

/-- A call of `ask`. It has no number if the member name is no Resident name. -/
structure Call where
  member : String
  ask : Option ℕ
  deriving DecidableEq

structure Reply where
  call : Call
  answer : Except ChatError String

structure FollowUp where
  source : String
  call : Call
  deriving DecidableEq

def FollowUp.pair (f : FollowUp) : String × String := (f.source, f.call.member)

/-- The contributions that were called and those that were joined, in these orders, then
the follow-ups with their replies, and whether the limit was announced. -/
structure Ledger where
  contributions : List Call
  joined : List Reply
  mentions : List FollowUp
  replies : List Reply
  limited : Bool

/-- What a message says, apart from its identity and its time. -/
structure Line where
  role : String
  author : String
  text : String
  deriving DecidableEq

def lineOf (m : ChatMessage) : Line := ⟨m.role, m.author, m.text⟩

def errorLine (text : String) : Line := ⟨"error", "系统", text⟩

namespace Reply

/-- The pairs that the answer puts into the queue. -/
def enqueues (isAlphanumeric : Char → Bool) (members : List String) (r : Reply) :
    List (String × String) :=
  match r.answer with
  | .ok text => enqueueMentions isAlphanumeric [] r.call.member text members
  | .error _ => []

/-- The one message of an ask in a group. -/
def line (isAlphanumeric : Char → Bool) (r : Reply) : Line :=
  match r.answer with
  | .ok text => ⟨if mentionsUser isAlphanumeric text then "summary" else "agent", r.call.member,
      text⟩
  | .error error => errorLine s!"{r.call.member}: {error.message}"

/-- What the round itself has to report. -/
def failures (r : Reply) : List String :=
  match r.answer with
  | .ok _ => []
  | .error error => [s!"{r.call.member}: {error.message}"]

/-- The answer is what the ask returned. -/
def Backed (t : Turns) (r : Reply) : Prop :=
  match r.call.ask with
  | some ask => resultOf t ask = some r.answer
  | none => ∃ error, Identifier.new "Resident name" r.call.member = .error error ∧
      r.answer = .error (refusal error)

end Reply

/-- Everything that these answers enqueued, in order. -/
def enqueued (isAlphanumeric : Char → Bool) (members : List String) (replies : List Reply) :
    List (String × String) :=
  replies.flatMap (Reply.enqueues isAlphanumeric members)

namespace Ledger

def empty : Ledger := ⟨[], [], [], [], false⟩

def calls (L : Ledger) : List Call := L.contributions ++ L.mentions.map FollowUp.call

def asks (L : Ledger) : List ℕ := L.calls.filterMap Call.ask

def answers (L : Ledger) : List Reply := L.joined ++ L.replies

def lines (isAlphanumeric : Char → Bool) (L : Ledger) : List Line :=
  L.answers.map (Reply.line isAlphanumeric) ++
    if L.limited then [errorLine mentionLimitText] else []

/-- This many pairs of the queue have been taken, and these are left. -/
structure Follows (isAlphanumeric : Char → Bool) (members : List String) (L : Ledger)
    (pending : List (String × String)) (followUps : ℕ) : Prop where
  count : L.mentions.length = followUps
  bounded : followUps ≤ maxMentionTurns
  unlimited : L.limited = false
  queue : L.mentions.map FollowUp.pair ++ pending = enqueued isAlphanumeric members L.answers

/-- The queue is empty, or the limit was reached first. -/
structure Closed (isAlphanumeric : Char → Bool) (members : List String) (L : Ledger) : Prop where
  replied : L.replies.length = L.mentions.length
  queue : L.mentions.map FollowUp.pair =
    (enqueued isAlphanumeric members L.answers).take maxMentionTurns
  limited : L.limited =
    decide (maxMentionTurns < (enqueued isAlphanumeric members L.answers).length)

end Ledger

/-! ## The ledger at each stage -/

namespace Stage

/-- The messages that are still to be reported. -/
def reports : Stage → List String
  | .reporting text next => text :: next.reports
  | _ => []

/-- The call that the round itself waits for. -/
def calls : Stage → List Call
  | .direct member ask => [⟨member, some ask⟩]
  | .mentioned target ask _ _ => [⟨target, some ask⟩]
  | .reporting _ next => next.calls
  | _ => []

/-- What the ledger of a group round holds at each stage. -/
def Accounts (isAlphanumeric : Char → Bool) (members : List String) (L : Ledger) : Stage → Prop
  | .starting => L = .empty
  | .direct _ _ => False
  | .joining pending => L.mentions = [] ∧ L.replies = [] ∧ L.limited = false ∧
      pending = enqueued isAlphanumeric members L.joined
  | .following pending followUps =>
      L.Follows isAlphanumeric members pending followUps ∧ L.replies.length = followUps
  | .mentioned _ _ pending followUps =>
      L.Follows isAlphanumeric members pending followUps ∧ L.replies.length + 1 = followUps
  | .reporting _ next => next.Accounts isAlphanumeric members L
  | .ending => L.Closed isAlphanumeric members

end Stage

def Contribution.call (c : Contribution) : Option Call :=
  match c.state with
  | .spawned => none
  | .asking ask => some ⟨c.member, some ask⟩
  | .refused _ => some ⟨c.member, none⟩

def Contribution.uncalled (c : Contribution) : Option String :=
  match c.state with
  | .spawned => some c.member
  | _ => none

theorem Contribution.of_call {c : Contribution} {call : Call} (h : c.call = some call) :
    c.uncalled = none ∧ call.member = c.member := by
  obtain ⟨member, state⟩ := c
  cases state with
  | spawned => cases h
  | asking ask =>
      obtain rfl := Option.some.inj h
      exact ⟨rfl, rfl⟩
  | refused error =>
      obtain rfl := Option.some.inj h
      exact ⟨rfl, rfl⟩

namespace Progress

/-- The calls whose answers the round has not taken. -/
def outstanding (p : Progress) : List Call :=
  p.contributions.filterMap Contribution.call ++ p.stage.calls

def uncalled (p : Progress) : List String := p.contributions.filterMap Contribution.uncalled

end Progress

/-- The ledger is the one of a group round at this point. The follow-up with number `k`
is the pair with this number of those that the first `k` follow-ups and the contributions
have enqueued. -/
structure Tally (isAlphanumeric : Char → Bool) (members : List String) (round : Round)
    (p : Progress) (L : Ledger) : Prop where
  stage : p.stage.Accounts isAlphanumeric members L
  everyone : p.stage.opens = false → p.allMembers = members
  addressed : p.stage.opens = false →
    (L.contributions.map Call.member ++ p.uncalled).Perm round.members
  refused : ∀ c ∈ p.contributions, ∀ error, c.state = .refused error →
    ∃ cause, Identifier.new "Resident name" c.member = .error cause ∧ error = refusal cause
  origin : ∀ (k : ℕ) (f : FollowUp), L.mentions[k]? = some f →
    (enqueued isAlphanumeric members (L.joined ++ L.replies.take k))[k]? = some f.pair

/-! ## The ledger under one step -/

namespace Action

/-- The number of the ask that the action calls, when `next` is the next one. -/
def asked (next : ℕ) : Action → List ℕ
  | .call _ _ _ _ => [next]
  | _ => []

def said : Action → List String
  | .report text => [text]
  | _ => []

end Action

/-- What a step of a round enters in its ledger: calls, a reply, and notices of the limit. -/
structure Booking (isAlphanumeric : Char → Bool) (t : Turns) (round : Round) (L : Ledger)
    (p : Progress) (action : Action) (L' : Ledger) (p' : Progress) (called : List Call)
    (received : Option Reply) (noticed : List String) : Prop where
  calls : L'.calls = L.calls ++ called
  answers : L'.answers = L.answers ++ received.toList
  outstanding : (p'.outstanding ++ received.toList.map Reply.call).Perm (p.outstanding ++ called)
  lines : (L'.lines isAlphanumeric).Perm (L.lines isAlphanumeric ++
    received.toList.map (Reply.line isAlphanumeric) ++ noticed.map errorLine)
  asked : called.filterMap Call.ask = action.asked t.asks.length
  said : (p'.stage.reports ++ action.said).Perm
    (p.stage.reports ++ received.toList.flatMap Reply.failures ++ noticed)
  backed : ∀ r ∈ received, r.Backed t
  contributed : ∀ c ∈ L'.contributions, c ∈ L.contributions ∨ ∀ j, c.ask = some j →
    j = t.asks.length ∧ action = .call c.member (contributionPrompt round.task c.member)
      .contribution (some round.roundStart)
  followed : ∀ f ∈ L'.mentions, f ∈ L.mentions ∨ ∀ j, f.call.ask = some j →
    j = t.asks.length ∧ action = .call f.call.member (mentionPrompt f.source) .mention none

section

variable {isAlphanumeric : Char → Bool} {t : Turns} {members : List String} {round : Round}
  {p p' : Progress} {action : Action} {L : Ledger}

/-- A step that enters nothing. -/
theorem booking_idle (houtstanding : p'.outstanding = p.outstanding)
    (hsaid : (p'.stage.reports ++ action.said).Perm p.stage.reports)
    (hasked : action.asked t.asks.length = []) :
    Booking isAlphanumeric t round L p action L p' [] none [] where
  calls := (List.append_nil _).symm
  answers := (List.append_nil _).symm
  outstanding := by simp [houtstanding]
  lines := by simp
  asked := hasked.symm
  said := by simpa using hsaid
  backed r hr := by cases hr
  contributed c hc := .inl hc
  followed f hf := .inl hf

/-- A stage that waits for the same calls takes the place of another one. -/
theorem booking_stage {stage next : Stage} (hstage : p.stage = stage)
    (hcalls : next.calls = stage.calls) (hsaid : (next.reports ++ action.said).Perm stage.reports)
    (hasked : action.asked t.asks.length = []) :
    Booking isAlphanumeric t round L p action L (p.to next) [] none [] := by
  subst hstage
  refine booking_idle ?_ hsaid hasked
  simp [Progress.outstanding, Progress.to, hcalls]

theorem tally_spawn : Tally isAlphanumeric members round
    ⟨.joining [], round.members.map fun member => ⟨member, .spawned⟩, members⟩ .empty where
  stage := ⟨rfl, rfl, rfl, rfl⟩
  everyone _ := rfl
  addressed _ := by
    simp [Progress.uncalled, Ledger.empty, List.filterMap_map, Function.comp_def,
      Contribution.uncalled]
  refused c hc error he := by
    obtain ⟨member, _, rfl⟩ := List.mem_map.mp hc
    cases he
  origin k f hf := by cases hf

theorem booking_spawn (hs : Sound members round p) (hstage : p.stage = .starting) :
    Booking isAlphanumeric t round .empty p .proceed .empty
      ⟨.joining [], round.members.map fun member => ⟨member, .spawned⟩, members⟩ [] none [] := by
  have hnone := hs.alone (by rw [hstage]; rfl)
  refine booking_idle ?_ ?_ rfl
  · simp [Progress.outstanding, hnone, hstage, Stage.calls, List.filterMap_map,
      Function.comp_def, Contribution.call]
  · rw [hstage]
    exact .refl _

/-! ### Contributions -/

theorem Stage.Accounts.collecting {stage : Stage} (h : stage.Accounts isAlphanumeric members L)
    (hjoins : stage.joins = true) : L.mentions = [] ∧ L.replies = [] ∧ L.limited = false := by
  induction stage with
  | joining pending => exact ⟨h.1, h.2.1, h.2.2.1⟩
  | reporting text next ih => exact ih h hjoins
  | _ => cases hjoins

/-- While contributions are collected, a stage does not depend on which were called. -/
theorem Stage.Accounts.contribute {stage : Stage} (h : stage.Accounts isAlphanumeric members L)
    (hjoins : stage.joins = true) (calls : List Call) :
    stage.Accounts isAlphanumeric members {L with contributions := calls} := by
  induction stage with
  | joining pending => exact h
  | reporting text next ih => exact ih h hjoins
  | _ => cases hjoins

theorem Sound.joins (hs : Sound members round p) {before after : List Contribution}
    {c : Contribution} (hp : p.contributions = before ++ c :: after) :
    p.stage.joins = true := by
  rw [← Bool.not_eq_false]
  intro hjoins
  have hnil := hs.alone hjoins
  rw [hp] at hnil
  simp at hnil

variable {member : String} {before after : List Contribution} {state : ContributionState}
  {call : Call}

theorem Tally.contribute (h : Tally isAlphanumeric members round p L)
    (hs : Sound members round p) (hp : p.contributions = before ++ ⟨member, .spawned⟩ :: after)
    (hcall : Contribution.call ⟨member, state⟩ = some call)
    (hrefused : ∀ error, state = .refused error → ∃ cause,
      Identifier.new "Resident name" member = .error cause ∧ error = refusal cause) :
    Tally isAlphanumeric members round {p with contributions := before ++ ⟨member, state⟩ :: after}
      {L with contributions := L.contributions ++ [call]} where
  stage := h.stage.contribute (hs.joins hp) _
  everyone := h.everyone
  addressed hopens := by
    refine List.Perm.trans ?_ (h.addressed hopens)
    have huncalled : Contribution.uncalled ⟨member, .spawned⟩ = some member := rfl
    obtain ⟨hnone, hmember⟩ := Contribution.of_call hcall
    simp only [Progress.uncalled, hp, List.filterMap_append, List.filterMap_cons_none hnone,
      List.filterMap_cons_some huncalled, List.map_append, List.map_singleton, hmember]
    grind
  refused c hc := by
    rcases mem_middle.mp hc with rfl | hc
    · exact hrefused
    · exact h.refused c (hp ▸ mem_middle.mpr (.inr hc))
  origin := h.origin

theorem booking_contribute (h : Tally isAlphanumeric members round p L)
    (hs : Sound members round p) (hp : p.contributions = before ++ ⟨member, .spawned⟩ :: after)
    (hcall : Contribution.call ⟨member, state⟩ = some call)
    (hasked : [call].filterMap Call.ask = action.asked t.asks.length) (hsaid : action.said = [])
    (haction : ∀ j, call.ask = some j → action = .call call.member
      (contributionPrompt round.task call.member) .contribution (some round.roundStart)) :
    Booking isAlphanumeric t round L p action {L with contributions := L.contributions ++ [call]}
      {p with contributions := before ++ ⟨member, state⟩ :: after} [call] none [] where
  calls := by simp [Ledger.calls, (h.stage.collecting (hs.joins hp)).1]
  answers := (List.append_nil _).symm
  outstanding := by
    have hnone : Contribution.call ⟨member, .spawned⟩ = none := rfl
    simp only [Progress.outstanding, hp, List.filterMap_append, List.filterMap_cons_some hcall,
      List.filterMap_cons_none hnone]
    grind
  lines := by simp [Ledger.lines, Ledger.answers]
  asked := hasked
  said := by simp [hsaid]
  backed r hr := by cases hr
  contributed c hc := by
    refine (List.mem_append.mp hc).imp_right fun hc j hj => ?_
    obtain rfl := List.mem_singleton.mp hc
    rw [haction j hj, List.filterMap_cons_some hj] at hasked
    exact ⟨List.singleton_injective hasked, haction j hj⟩
  followed f hf := .inl hf

/-- An answer of the join set is the answer of its call. -/
theorem Tally.joined (h : Tally isAlphanumeric members round p L) {c : Contribution}
    (hc : c ∈ p.contributions) {answer : Except ChatError String}
    (hanswer : c.answer t = some answer) :
    ∃ call : Call, c.call = some call ∧ Reply.Backed t ⟨call, answer⟩ := by
  obtain ⟨member, state⟩ := c
  cases state with
  | spawned => cases hanswer
  | asking ask => exact ⟨⟨member, some ask⟩, rfl, hanswer⟩
  | refused error =>
      obtain ⟨cause, hcause, rfl⟩ := h.refused _ hc error rfl
      exact ⟨⟨member, none⟩, rfl, cause, hcause, (Option.some.inj hanswer).symm⟩

/-! ### Answers -/

section

variable {r : Reply} {pending : List (String × String)}

/-- After an answer the queue holds what this answer enqueued, if it was no error. -/
theorem settle_accounts (stages : List (String × String) → Stage)
    (h : (stages (pending ++ r.enqueues isAlphanumeric members)).Accounts isAlphanumeric
      members L) :
    (settle r.call.member r.answer
      (fun text => stages (enqueueMentions isAlphanumeric pending r.call.member text members))
      (stages pending)).Accounts isAlphanumeric members L := by
  cases hanswer : r.answer with
  | ok text =>
      simp only [Reply.enqueues, hanswer, ← enqueueMentions_append] at h
      exact h
  | error error =>
      simp only [Reply.enqueues, hanswer, List.append_nil] at h
      exact h

theorem settle_reports {answered : String → Stage} {next : Stage}
    (hanswered : ∀ text, (answered text).reports = []) (hnext : next.reports = []) :
    (settle r.call.member r.answer answered next).reports = r.failures := by
  cases hanswer : r.answer with
  | ok text => simp [settle, Reply.failures, hanswer, hanswered text]
  | error error => simp [settle, Reply.failures, hanswer, Stage.reports, hnext]

theorem settle_calls {answer : Except ChatError String} {answered : String → Stage} {next : Stage}
    (hanswered : ∀ text, (answered text).calls = []) (hnext : next.calls = []) :
    (settle member answer answered next).calls = [] :=
  settle_induction (P := fun stage => stage.calls = []) member answer hanswered fun _ => hnext

theorem enqueued_concat (replies : List Reply) (r : Reply) :
    enqueued isAlphanumeric members (replies ++ [r]) =
      enqueued isAlphanumeric members replies ++ r.enqueues isAlphanumeric members := by
  simp [enqueued]

/-- A step that takes one answer. -/
theorem booking_receive {L' : Ledger} {called : List Call}
    (hcalls : L'.calls = L.calls ++ called) (hanswers : L'.answers = L.answers ++ [r])
    (hlimited : L'.limited = L.limited)
    (houtstanding : (p'.outstanding ++ [r.call]).Perm (p.outstanding ++ called))
    (hasked : called.filterMap Call.ask = []) (hquiet : p.stage.reports = [])
    (hreports : p'.stage.reports = r.failures) (hbacked : r.Backed t)
    (hcontributed : L'.contributions = L.contributions)
    (hfollowed : ∀ f ∈ L'.mentions, f ∈ L.mentions ∨ f.call.ask = none) :
    Booking isAlphanumeric t round L p .proceed L' p' called (some r) [] where
  calls := hcalls
  answers := hanswers
  outstanding := houtstanding
  lines := by
    simp only [Ledger.lines, hanswers, hlimited, List.map_append, List.map_cons, List.map_nil]
    grind
  asked := hasked
  said := by simp [hreports, hquiet, Action.said]
  backed r' hr' := by
    obtain rfl := Option.mem_some_iff.mp hr'
    exact hbacked
  contributed c hc := .inl (hcontributed ▸ hc)
  followed f hf := (hfollowed f hf).imp_right fun hnone j hj => by
    rw [hnone] at hj
    cases hj

theorem Tally.join (h : Tally isAlphanumeric members round p L)
    (hstage : p.stage = .joining pending) {c : Contribution}
    (hp : p.contributions = before ++ c :: after) (hcall : c.call = some r.call) :
    Tally isAlphanumeric members round
      {p with
        stage := settle c.member r.answer (fun text =>
          .joining (enqueueMentions isAlphanumeric pending c.member text p.allMembers))
          (.joining pending)
        contributions := before ++ after} {L with joined := L.joined ++ [r]} := by
  have hclosed : p.stage.opens = false := by
    rw [hstage]
    rfl
  have hstages := h.stage
  rw [hstage] at hstages
  obtain ⟨hmentions, hreplies, hlimited, hqueue⟩ := hstages
  obtain ⟨huncalled, hmember⟩ := Contribution.of_call hcall
  refine ⟨?_, fun _ => h.everyone hclosed, fun _ => ?_, fun c' hc' => ?_, fun k f hf => ?_⟩
  · rw [h.everyone hclosed, ← hmember]
    refine settle_accounts .joining ⟨hmentions, hreplies, hlimited, ?_⟩
    rw [hqueue, enqueued_concat]
  · have haddressed := h.addressed hclosed
    simp only [Progress.uncalled, hp, List.filterMap_append,
      List.filterMap_cons_none huncalled] at haddressed ⊢
    exact haddressed
  · exact h.refused c' (hp ▸ mem_middle.mpr (.inr hc'))
  · rw [hmentions] at hf
    cases hf

theorem booking_join (h : Tally isAlphanumeric members round p L)
    (hstage : p.stage = .joining pending) {c : Contribution}
    (hp : p.contributions = before ++ c :: after) (hcall : c.call = some r.call)
    (hbacked : r.Backed t) :
    Booking isAlphanumeric t round L p .proceed {L with joined := L.joined ++ [r]}
      {p with
        stage := settle c.member r.answer (fun text =>
          .joining (enqueueMentions isAlphanumeric pending c.member text p.allMembers))
          (.joining pending)
        contributions := before ++ after} [] (some r) [] := by
  have hstages := h.stage
  rw [hstage] at hstages
  have hsettled : (settle c.member r.answer (fun text =>
      .joining (enqueueMentions isAlphanumeric pending c.member text p.allMembers))
      (.joining pending)).calls = [] := settle_calls (fun _ => rfl) rfl
  have hbefore : p.stage.calls = [] := by
    rw [hstage]
    rfl
  refine booking_receive (List.append_nil _).symm ?_ rfl ?_ rfl ?_ ?_ hbacked rfl
    fun f hf => .inl hf
  · simp [Ledger.answers, hstages.2.1]
  · simp only [Progress.outstanding, hp, hsettled, hbefore, List.filterMap_append,
      List.filterMap_cons_some hcall]
    grind
  · rw [hstage]
    rfl
  · rw [← (Contribution.of_call hcall).2]
    exact settle_reports (fun _ => rfl) rfl

/-! ### Follow-ups -/

variable {source target : String} {followUps : ℕ} {f : FollowUp}

/-- The first pair of the queue is taken. -/
theorem Ledger.Follows.follow
    (h : L.Follows isAlphanumeric members ((source, target) :: pending) followUps)
    (hne : followUps ≠ maxMentionTurns) (hpair : f.pair = (source, target)) :
    {L with mentions := L.mentions ++ [f]}.Follows isAlphanumeric members pending
      (followUps + 1) where
  count := by simp [h.count]
  bounded := Nat.lt_of_le_of_ne h.bounded hne
  unlimited := h.unlimited
  queue := by
    rw [List.map_append, List.map_singleton, List.append_assoc, hpair]
    exact h.queue

/-- An answer extends the queue at its end. -/
theorem Ledger.Follows.reply (h : L.Follows isAlphanumeric members pending followUps) (r : Reply) :
    {L with replies := L.replies ++ [r]}.Follows isAlphanumeric members
      (pending ++ r.enqueues isAlphanumeric members) followUps where
  count := h.count
  bounded := h.bounded
  unlimited := h.unlimited
  queue := by
    rw [← List.append_assoc, h.queue, ← enqueued_concat]
    simp [Ledger.answers]

theorem Ledger.Follows.closed (h : L.Follows isAlphanumeric members [] followUps)
    (hreplied : L.replies.length = followUps) : L.Closed isAlphanumeric members := by
  have hqueue := h.queue
  rw [List.append_nil] at hqueue
  have hlength : (enqueued isAlphanumeric members L.answers).length ≤ maxMentionTurns := by
    rw [← hqueue, List.length_map, h.count]
    exact h.bounded
  refine ⟨hreplied.trans h.count.symm, ?_, ?_⟩
  · rw [List.take_of_length_le hlength, hqueue]
  · rw [h.unlimited]
    exact (decide_eq_false (Nat.not_lt_of_le hlength)).symm

theorem Ledger.Follows.capped {first : String × String}
    (h : L.Follows isAlphanumeric members (first :: pending) maxMentionTurns)
    (hreplied : L.replies.length = maxMentionTurns) :
    {L with limited := true}.Closed isAlphanumeric members := by
  have hlength : (L.mentions.map FollowUp.pair).length = maxMentionTurns := by
    rw [List.length_map, h.count]
  have hqueue : enqueued isAlphanumeric members {L with limited := true}.answers =
      L.mentions.map FollowUp.pair ++ first :: pending := h.queue.symm
  refine ⟨hreplied.trans h.count.symm, ?_, ?_⟩
  · rw [hqueue, List.take_left' hlength]
  · rw [hqueue, List.length_append, hlength, List.length_cons]
    exact (decide_eq_true (by omega)).symm

/-- The round moves on, and no contribution is called. -/
theorem Tally.to (h : Tally isAlphanumeric members round p L) (stage : Stage) {L' : Ledger}
    (hclosed : p.stage.opens = false) (hstage : stage.Accounts isAlphanumeric members L')
    (hcontributions : L'.contributions = L.contributions)
    (horigin : ∀ (k : ℕ) (f : FollowUp), L'.mentions[k]? = some f →
      (enqueued isAlphanumeric members (L'.joined ++ L'.replies.take k))[k]? = some f.pair) :
    Tally isAlphanumeric members round (p.to stage) L' where
  stage := hstage
  everyone _ := h.everyone hclosed
  addressed _ := by
    rw [hcontributions]
    exact h.addressed hclosed
  refused := h.refused
  origin := horigin

/-- A new follow-up was the first one in the queue. -/
theorem Tally.follow_origin (h : Tally isAlphanumeric members round p L)
    (hfollows : L.Follows isAlphanumeric members ((source, target) :: pending) followUps)
    (hreplied : L.replies.length = followUps) (hpair : f.pair = (source, target)) (k : ℕ)
    (g : FollowUp) (hg : (L.mentions ++ [f])[k]? = some g) :
    (enqueued isAlphanumeric members (L.joined ++ L.replies.take k))[k]? = some g.pair := by
  rcases concat_get hg with ⟨rfl, rfl⟩ | hold
  · have hqueue := hfollows.queue
    rw [hfollows.count, List.take_of_length_le hreplied.le, ← Ledger.answers, ← hqueue,
      List.getElem?_append_right (by simp [hfollows.count])]
    simp [hfollows.count, hpair]
  · exact h.origin k g hold

/-- A later reply does not matter for the follow-ups so far. -/
theorem reply_origin {mentions : List FollowUp} {joined replies : List Reply}
    (horigin : ∀ (k : ℕ) (g : FollowUp), mentions[k]? = some g →
      (enqueued isAlphanumeric members (joined ++ replies.take k))[k]? = some g.pair)
    (hlength : mentions.length ≤ replies.length + 1) (r : Reply) (k : ℕ) (g : FollowUp)
    (hg : mentions[k]? = some g) :
    (enqueued isAlphanumeric members (joined ++ (replies ++ [r]).take k))[k]? = some g.pair := by
  obtain ⟨hlt, _⟩ := List.getElem?_eq_some_iff.mp hg
  rw [List.take_append_of_le_length (by omega)]
  exact horigin k g hg

theorem Sound.outstanding (hs : Sound members round p) (hjoins : p.stage.joins = false) :
    p.outstanding = p.stage.calls := by
  unfold Progress.outstanding
  rw [hs.alone hjoins]
  rfl

theorem Sound.outstanding_to (hs : Sound members round p) (hjoins : p.stage.joins = false)
    (stage : Stage) : (p.to stage).outstanding = stage.calls := by
  have hnone : (p.to stage).contributions = [] := hs.alone hjoins
  unfold Progress.outstanding
  rw [hnone]
  rfl

/-- A step of the round between two asks, or after one. -/
theorem booking_follow (hs : Sound members round p) (hjoins : p.stage.joins = false)
    {stage : Stage} {L' : Ledger} {called : List Call} {r : Reply}
    (hcalls : L'.calls = L.calls ++ called) (hanswers : L'.answers = L.answers ++ [r])
    (hlimited : L'.limited = L.limited) (hwaiting : p.stage.calls ++ called = [r.call])
    (hsettled : stage.calls = []) (hasked : called.filterMap Call.ask = [])
    (hquiet : p.stage.reports = []) (hreports : stage.reports = r.failures) (hbacked : r.Backed t)
    (hcontributed : L'.contributions = L.contributions)
    (hfollowed : ∀ f ∈ L'.mentions, f ∈ L.mentions ∨ f.call.ask = none) :
    Booking isAlphanumeric t round L p .proceed L' (p.to stage) called (some r) [] := by
  refine booking_receive hcalls hanswers hlimited ?_ hasked hquiet hreports hbacked hcontributed
    hfollowed
  rw [hs.outstanding hjoins, hs.outstanding_to hjoins, hsettled, hwaiting]
  exact .refl _

theorem booking_mention (hs : Sound members round p)
    (hstage : p.stage = .following ((source, target) :: pending) followUps) :
    Booking isAlphanumeric t round L p (.call target (mentionPrompt source) .mention none)
      {L with mentions := L.mentions ++ [⟨source, ⟨target, some t.asks.length⟩⟩]}
      (p.to (.mentioned target t.asks.length pending (followUps + 1)))
      [⟨target, some t.asks.length⟩] none [] where
  calls := by simp [Ledger.calls]
  answers := (List.append_nil _).symm
  outstanding := by
    have hjoins : p.stage.joins = false := by rw [hstage]; rfl
    rw [hs.outstanding hjoins, hs.outstanding_to hjoins, hstage]
    exact .refl _
  lines := by simp [Ledger.lines, Ledger.answers]
  asked := rfl
  said := by
    rw [hstage]
    exact .refl _
  backed r hr := by cases hr
  contributed c hc := .inl hc
  followed f hf := by
    refine (List.mem_append.mp hf).imp_right fun hf j hj => ?_
    obtain rfl := List.mem_singleton.mp hf
    exact ⟨(Option.some.inj hj).symm, rfl⟩

/-- The first pair of the queue names no Resident. -/
theorem Tally.refuse (h : Tally isAlphanumeric members round p L)
    (hclosed : p.stage.opens = false)
    (hfollows : L.Follows isAlphanumeric members ((source, target) :: pending) followUps)
    (hreplied : L.replies.length = followUps) (hne : followUps ≠ maxMentionTurns)
    {error : IdentifierError} :
    Tally isAlphanumeric members round
      (p.to (settle target (.error (refusal error))
        (fun _ => .following pending (followUps + 1)) (.following pending (followUps + 1))))
      {L with
        mentions := L.mentions ++ [⟨source, ⟨target, none⟩⟩]
        replies := L.replies ++ [⟨⟨target, none⟩, .error (refusal error)⟩]} := by
  have hfollowed := (hfollows.follow hne (f := ⟨source, ⟨target, none⟩⟩) rfl).reply
    ⟨⟨target, none⟩, .error (refusal error)⟩
  simp only [Reply.enqueues, List.append_nil] at hfollowed
  have hlength : (L.mentions ++ [(⟨source, ⟨target, none⟩⟩ : FollowUp)]).length ≤
      L.replies.length + 1 := by
    simp [hfollows.count, hreplied]
  refine h.to _ hclosed ⟨hfollowed, ?_⟩ rfl
    (reply_origin (h.follow_origin hfollows hreplied rfl) hlength _)
  rw [List.length_append, hreplied, List.length_singleton]

theorem booking_refuse (hs : Sound members round p)
    (hstage : p.stage = .following ((source, target) :: pending) followUps)
    {error : IdentifierError} (hrefused : Identifier.new "Resident name" target = .error error) :
    Booking isAlphanumeric t round L p .proceed
      {L with
        mentions := L.mentions ++ [⟨source, ⟨target, none⟩⟩]
        replies := L.replies ++ [⟨⟨target, none⟩, .error (refusal error)⟩]}
      (p.to (settle target (.error (refusal error))
        (fun _ => .following pending (followUps + 1)) (.following pending (followUps + 1))))
      [⟨target, none⟩] (some ⟨⟨target, none⟩, .error (refusal error)⟩) [] := by
  have hjoins : p.stage.joins = false := by rw [hstage]; rfl
  refine booking_follow hs hjoins ?_ ?_ rfl ?_ rfl rfl ?_ rfl ⟨error, hrefused, rfl⟩ rfl
    fun f hf => ?_
  · simp [Ledger.calls]
  · simp [Ledger.answers]
  · rw [hstage]
    rfl
  · rw [hstage]
    rfl
  · refine (List.mem_append.mp hf).imp_right fun hf => ?_
    obtain rfl := List.mem_singleton.mp hf
    rfl

/-- A follow-up is answered. -/
theorem Tally.reply (h : Tally isAlphanumeric members round p L)
    (hclosed : p.stage.opens = false)
    (hfollows : L.Follows isAlphanumeric members pending followUps)
    (hreplied : L.replies.length + 1 = followUps) :
    Tally isAlphanumeric members round
      (p.to (settle r.call.member r.answer (fun text => .following
        (enqueueMentions isAlphanumeric pending r.call.member text p.allMembers) followUps)
        (.following pending followUps)))
      {L with replies := L.replies ++ [r]} := by
  have hlength : L.mentions.length ≤ L.replies.length + 1 := by rw [hfollows.count, hreplied]
  refine h.to _ hclosed ?_ rfl (reply_origin h.origin hlength r)
  rw [h.everyone hclosed]
  refine settle_accounts (fun pending => .following pending followUps) ⟨hfollows.reply r, ?_⟩
  rw [List.length_append, List.length_singleton, hreplied]

theorem booking_reply (hs : Sound members round p) {ask : ℕ}
    (hstage : p.stage = .mentioned target ask pending followUps)
    {answer : Except ChatError String} (hanswer : resultOf t ask = some answer) :
    Booking isAlphanumeric t round L p .proceed
      {L with replies := L.replies ++ [⟨⟨target, some ask⟩, answer⟩]}
      (p.to (settle target answer (fun text => .following
        (enqueueMentions isAlphanumeric pending target text p.allMembers) followUps)
        (.following pending followUps)))
      [] (some ⟨⟨target, some ask⟩, answer⟩) [] := by
  have hjoins : p.stage.joins = false := by rw [hstage]; rfl
  refine booking_follow hs hjoins (List.append_nil _).symm ?_ rfl ?_
    (settle_calls (fun _ => rfl) rfl) rfl ?_
    (settle_reports (r := ⟨⟨target, some ask⟩, answer⟩) (fun _ => rfl) rfl) hanswer rfl
    fun f hf => .inl hf
  · simp [Ledger.answers]
  · rw [hstage]
    rfl
  · rw [hstage]
    rfl

theorem booking_capped (hs : Sound members round p) {first : String × String}
    (hstage : p.stage = .following (first :: pending) maxMentionTurns)
    (hunlimited : L.limited = false) :
    Booking isAlphanumeric t round L p .proceed {L with limited := true}
      (p.to (.reporting mentionLimitText .ending)) [] none [mentionLimitText] where
  calls := (List.append_nil _).symm
  answers := (List.append_nil _).symm
  outstanding := by
    have hjoins : p.stage.joins = false := by rw [hstage]; rfl
    rw [hs.outstanding hjoins, hs.outstanding_to hjoins, hstage]
    exact .refl _
  lines := by simp [Ledger.lines, Ledger.answers, hunlimited]
  asked := rfl
  said := by
    rw [hstage]
    exact .refl _
  backed r hr := by cases hr
  contributed c hc := .inl hc
  followed f hf := .inl hf

/-- What is reported leaves the ledger as it is. -/
theorem Tally.report (h : Tally isAlphanumeric members round p L) {text : String} {next : Stage}
    (hstage : p.stage = .reporting text next) :
    Tally isAlphanumeric members round (p.to next) L := by
  have hstages := h.stage
  have heveryone := h.everyone
  have haddressed := h.addressed
  rw [hstage] at hstages heveryone haddressed
  exact ⟨hstages, heveryone, haddressed, h.refused, h.origin⟩

/-- Every step of a group round has its entries. -/
theorem Advance.books (h : Advance isAlphanumeric t members round p action p')
    (hs : Sound members round p) (hgroup : round.isGroup = true)
    (hL : Tally isAlphanumeric members round p L) :
    ∃ (L' : Ledger) (called : List Call) (received : Option Reply) (noticed : List String),
      Tally isAlphanumeric members round p' L' ∧
      Booking isAlphanumeric t round L p action L' p' called received noticed := by
  have hstages : ∀ {stage : Stage}, p.stage = stage →
      stage.Accounts isAlphanumeric members L := by
    rintro stage rfl
    exact hL.stage
  have hopens : ∀ {stage : Stage}, p.stage = stage → stage.opens = false →
      p.stage.opens = false := by
    rintro stage rfl hopens
    exact hopens
  cases h with
  | direct member rest _ halone _ => exact absurd (halone.symm.trans hgroup) (by decide)
  | directRefused member rest error _ halone _ _ =>
      exact absurd (halone.symm.trans hgroup) (by decide)
  | directDone member ask answer hstage _ => exact absurd (hstages hstage) id
  | spawn hstage _ =>
      obtain rfl : L = .empty := hstages hstage
      exact ⟨_, _, _, _, tally_spawn, booking_spawn hs hstage⟩
  | contribute member before after hp =>
      have hcall : Contribution.call ⟨member, .asking t.asks.length⟩ =
          some ⟨member, some t.asks.length⟩ := rfl
      exact ⟨_, _, _, _, hL.contribute hs hp hcall (fun _ he => by cases he),
        booking_contribute hL hs hp hcall rfl rfl fun _ _ => rfl⟩
  | refuse member before after error hp hrefused =>
      have hcall : Contribution.call ⟨member, .refused (refusal error)⟩ = some ⟨member, none⟩ := rfl
      have hcause : ∀ e, ContributionState.refused (refusal error) = .refused e → ∃ cause,
          Identifier.new "Resident name" member = .error cause ∧ e = refusal cause :=
        fun e he => ⟨error, hrefused, (ContributionState.refused.inj he).symm⟩
      exact ⟨_, _, _, _, hL.contribute hs hp hcall hcause,
        booking_contribute hL hs hp hcall rfl rfl fun _ hj => by cases hj⟩
  | join c before after pending answer hstage hp hanswer =>
      obtain ⟨call, hcall, hbacked⟩ := hL.joined (hp ▸ mem_middle.mpr (.inl rfl)) hanswer
      exact ⟨_, _, _, _, hL.join hstage hp (r := ⟨call, answer⟩) hcall,
        booking_join hL hstage hp hcall hbacked⟩
  | joined pending hstage hp =>
      obtain ⟨hmentions, hreplies, hlimited, hqueue⟩ := hstages hstage
      refine ⟨L, [], none, [], hL.to _ (hopens hstage rfl)
        ⟨⟨?_, Nat.zero_le _, hlimited, ?_⟩, ?_⟩ rfl hL.origin,
        booking_stage hstage rfl (.refl _) rfl⟩
      · rw [hmentions]
        rfl
      · simp [hmentions, hqueue, Ledger.answers, hreplies]
      · rw [hreplies]
        rfl
  | mention source target pending followUps hstage hne =>
      obtain ⟨hfollows, hreplied⟩ := hstages hstage
      exact ⟨_, _, _, _, hL.to _ (hopens hstage rfl)
        ⟨hfollows.follow hne rfl, congrArg (· + 1) hreplied⟩ rfl
        (hL.follow_origin hfollows hreplied rfl), booking_mention hs hstage⟩
  | mentionRefused source target pending followUps error hstage hne hrefused =>
      obtain ⟨hfollows, hreplied⟩ := hstages hstage
      exact ⟨_, _, _, _, hL.refuse (hopens hstage rfl) hfollows hreplied hne,
        booking_refuse hs hstage hrefused⟩
  | mentionDone target ask pending followUps answer hstage hanswer =>
      obtain ⟨hfollows, hreplied⟩ := hstages hstage
      exact ⟨_, _, _, _, hL.reply (r := ⟨⟨target, some ask⟩, answer⟩) (hopens hstage rfl) hfollows
        hreplied, booking_reply hs hstage hanswer⟩
  | capped first pending hstage =>
      obtain ⟨hfollows, hreplied⟩ := hstages hstage
      exact ⟨_, _, _, _, hL.to (.reporting mentionLimitText .ending) (hopens hstage rfl)
        (hfollows.capped hreplied) rfl hL.origin, booking_capped hs hstage hfollows.unlimited⟩
  | drained followUps hstage =>
      obtain ⟨hfollows, hreplied⟩ := hstages hstage
      exact ⟨L, [], none, [], hL.to .ending (hopens hstage rfl) (hfollows.closed hreplied) rfl
        hL.origin, booking_stage hstage rfl (.refl _) rfl⟩
  | report text next hstage =>
      have hsaid := List.perm_append_singleton text next.reports
      exact ⟨L, [], none, [], hL.report hstage, booking_stage hstage rfl hsaid rfl⟩

end

/-! ## The steps that are left -/

/-- A contribution is called, joined, and its error reported. -/
def Contribution.due (c : Contribution) : ℕ :=
  match c.state with
  | .spawned => 3
  | _ => 2

/-- A follow-up is called, answered, and its error reported. -/
def Stage.due (round : Round) : Stage → ℕ
  | .starting => 3 * round.members.length + 3 * maxMentionTurns + 4
  | .direct _ _ => 2
  | .joining _ => 3 * maxMentionTurns + 3
  | .following _ followUps => 3 * (maxMentionTurns - followUps) + 2
  | .mentioned _ _ _ followUps => 3 * (maxMentionTurns - followUps) + 4
  | .reporting _ next => next.due round + 1
  | .ending => 0

def Progress.due (round : Round) (p : Progress) : ℕ :=
  p.stage.due round + (p.contributions.map Contribution.due).sum

theorem settle_due {answer : Except ChatError String} {answered : String → Stage} {next : Stage}
    {n : ℕ} (hanswered : ∀ text, (answered text).due round = n) (hnext : next.due round = n) :
    (settle member answer answered next).due round ≤ n + 1 := by
  cases answer with
  | ok text => exact (hanswered text).le.trans (Nat.le_succ n)
  | error error => exact Nat.succ_le_succ hnext.le

theorem Progress.due_to_lt {stage next : Stage} (hstage : p.stage = stage)
    (hnext : next.due round < stage.due round) : (p.to next).due round < p.due round := by
  subst hstage
  exact Nat.add_lt_add_right hnext _

/-- Whatever the answers mention, every step of a group round is one of finitely many. -/
theorem Advance.due_lt (h : Advance isAlphanumeric t members round p action p')
    (hs : Sound members round p) (hgroup : round.isGroup = true)
    (hL : Tally isAlphanumeric members round p L) : p'.due round < p.due round := by
  have hstages : ∀ {stage : Stage}, p.stage = stage →
      stage.Accounts isAlphanumeric members L := by
    rintro stage rfl
    exact hL.stage
  have hstage_due : ∀ {stage : Stage}, p.stage = stage → p.due round =
      stage.due round + (p.contributions.map Contribution.due).sum := by
    rintro stage rfl
    rfl
  cases h with
  | direct member rest _ halone _ => exact absurd (halone.symm.trans hgroup) (by decide)
  | directRefused member rest error _ halone _ _ =>
      exact absurd (halone.symm.trans hgroup) (by decide)
  | directDone member ask answer hstage _ => exact absurd (hstages hstage) id
  | spawn hstage _ =>
      have hsum : ((round.members.map fun m => (⟨m, .spawned⟩ : Contribution)).map
          Contribution.due).sum = 3 * round.members.length := by
        simp [Function.comp_def, Contribution.due, mul_comm]
      rw [hstage_due hstage, hs.alone (by rw [hstage]; rfl)]
      simp only [Progress.due, hsum, Stage.due]
      omega
  | contribute member before after hp =>
      simp only [Progress.due, hp, List.map_append, List.map_cons, List.sum_append, List.sum_cons,
        Contribution.due]
      omega
  | refuse member before after error hp _ =>
      simp only [Progress.due, hp, List.map_append, List.map_cons, List.sum_append, List.sum_cons,
        Contribution.due]
      omega
  | join c before after pending answer hstage hp _ =>
      have hsettled : (settle c.member answer (fun text =>
          .joining (enqueueMentions isAlphanumeric pending c.member text p.allMembers))
          (.joining pending)).due round ≤ 3 * maxMentionTurns + 3 + 1 :=
        settle_due (fun _ => rfl) rfl
      have hdue : 2 ≤ c.due := by
        unfold Contribution.due
        split <;> decide
      rw [hstage_due hstage, hp]
      simp only [Progress.due, List.map_append, List.map_cons, List.sum_append, List.sum_cons,
        Stage.due]
      omega
  | joined pending hstage _ =>
      refine Progress.due_to_lt hstage ?_
      simp only [Stage.due]
      omega
  | mention source target pending followUps hstage hne =>
      have hbounded := (hstages hstage).1.bounded
      refine Progress.due_to_lt hstage ?_
      simp only [Stage.due]
      omega
  | mentionRefused source target pending followUps error hstage hne _ =>
      have hbounded := (hstages hstage).1.bounded
      refine Progress.due_to_lt hstage ?_
      simp only [settle, Stage.due]
      omega
  | mentionDone target ask pending followUps answer hstage _ =>
      have hsettled : (settle target answer (fun text =>
          .following (enqueueMentions isAlphanumeric pending target text p.allMembers) followUps)
          (.following pending followUps)).due round ≤ 3 * (maxMentionTurns - followUps) + 2 + 1 :=
        settle_due (fun _ => rfl) rfl
      refine Progress.due_to_lt hstage (hsettled.trans_lt ?_)
      simp only [Stage.due]
      omega
  | capped first pending hstage =>
      refine Progress.due_to_lt hstage ?_
      simp only [Stage.due]
      omega
  | drained followUps hstage =>
      refine Progress.due_to_lt hstage ?_
      simp only [Stage.due]
      omega
  | report text next hstage => exact Progress.due_to_lt hstage (Nat.lt_succ_self _)

end

end NormaHarness.Rounds
