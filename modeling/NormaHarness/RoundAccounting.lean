import NormaHarness.ContributionContexts
import NormaHarness.RoundLedger

/-!
# The accounts of a group round

A round asks every addressed member for one contribution and follows at most 16 mentions,
first in, first out. Each of these asks leaves one message in the room, a mention past the
limit leaves one more, and nothing else is said in the room while the round is in flight.
-/
namespace NormaHarness.Rounds
open Std Identifiers Contracts LlmProtocol Chat Asks FilePrograms

section

variable {isAlphanumeric : Char → Bool} {w w' : Turns} {event : TurnEvent} {j : ℕ} {a b : Ask}

/-! ## Calls and answers of one ask -/

theorem prompt_of_set {i : ℕ} {c : Ask} {phase : AskPhase} (hi : w.asks[i]? = some c)
    (hw : w'.asks = w.asks.set i {c with phase := phase}) (ha : w.asks[j]? = some a)
    (hb : w'.asks[j]? = some b) : b.prompt = a.prompt := by
  rw [hw] at hb
  rcases set_get hb with ⟨rfl, rfl⟩ | ⟨_, hold⟩
  · obtain rfl := Option.some.inj (hi.symm.trans ha)
    rfl
  · obtain rfl := Option.some.inj (hold.symm.trans ha)
    rfl

/-- An ask keeps its prompt. -/
theorem TurnStep.prompt (h : TurnStep isAlphanumeric w event w') (ha : w.asks[j]? = some a)
    (hb : w'.asks[j]? = some b) : b.prompt = a.prompt := by
  cases h with
  | call roomId member target prompt turnKind roundStart _ =>
      obtain rfl := Option.some.inj ((concat_get_old ha).symm.trans hb)
      rfl
  | receive m =>
      rcases receive_cases w m with ⟨_, hw⟩ | ⟨result, turn, _, hw⟩
      · rw [hw, ha] at hb
        exact congrArg Ask.prompt (Option.some.inj hb).symm
      · rw [hw] at hb
        by_cases hne : turn.reply = j
        · simp [hne, ha] at hb
          exact hb ▸ rfl
        · simp [hne, ha] at hb
          exact hb ▸ rfl
  | _ => exact prompt_of_set (by assumption) rfl ha hb

/-- An answer is what the end of the ask makes of its result. -/
theorem TurnStep.returned (h : TurnStep isAlphanumeric w event w') (hb : w'.asks[j]? = some b)
    {request : LlmTurnRequest} {result : LlmTurnResult} {answer : Except ChatError String}
    (hphase : b.phase = .returned request result answer) :
    (∃ a, w.asks[j]? = some a ∧ SameCall a b ∧ a.phase = b.phase) ∨
      answer = (askAnswer isAlphanumeric b.turnKind result).map Answer.text := by
  cases hget : w.asks[j]? with
  | none =>
      obtain ⟨_, hqueued, _⟩ := h.called hb hget
      rw [hqueued] at hphase
      cases hphase
  | some a =>
      obtain ⟨c, hc, hcall, hmove⟩ := h.keeps hget
      obtain rfl := Option.some.inj (hb.symm.trans hc)
      rcases hmove with hsame | hmove
      · exact .inl ⟨a, rfl, hcall, hsame.symm⟩
      · rw [hphase] at hmove
        obtain rfl := Moves.to_returned hmove
        cases h with
        | conclude _ d r s hd hdone =>
            obtain rfl := Option.some.inj (hb.symm.trans (set_get_self hd))
            obtain ⟨rfl, rfl, rfl⟩ := AskPhase.returned.inj hphase
            exact .inr rfl

theorem askAnswer_voice {turnKind : LlmChatTurnKind} {result : LlmTurnResult} {answer : Answer}
    (h : askAnswer isAlphanumeric turnKind result = .ok answer) : answer.role =
      if turnKind ≠ .direct ∧ mentionsUser isAlphanumeric answer.text then "summary"
      else "agent" := by
  unfold askAnswer at h
  split_ifs at h
  split at h
  · cases h
  · obtain rfl := Except.ok.inj h
    rfl

end

/-! ## Who said what -/

section

variable {isAlphanumeric : Char → Bool} {s s' : Session} {event : Event}

/-- Every ask publishes once, under the role that its text has, and an answer that was
returned is what the end of the ask made of its result. -/
structure Credited (isAlphanumeric : Char → Bool) (s : Session) : Prop where
  once : (s.published.map Publication.ask).Nodup
  voiced : ∀ p ∈ s.published, ∀ a, s.turns.asks[p.ask]? = some a → p.message.role =
    if a.turnKind ≠ .direct ∧ mentionsUser isAlphanumeric p.message.text then "summary" else "agent"
  returned : ∀ (i : ℕ) (a : Ask) (request : LlmTurnRequest) (result : LlmTurnResult)
    (answer : Except ChatError String), s.turns.asks[i]? = some a →
      a.phase = .returned request result answer →
      answer = (askAnswer isAlphanumeric a.turnKind result).map Answer.text

theorem Step.credited (h : Step isAlphanumeric s event s') (hc : Consistent isAlphanumeric s)
    (hs : Credited isAlphanumeric s) : Credited isAlphanumeric s' := by
  have hvoiced : ∀ p ∈ s.published, ∀ a, s'.turns.asks[p.ask]? = some a → p.message.role =
      if a.turnKind ≠ .direct ∧ mentionsUser isAlphanumeric p.message.text then "summary"
      else "agent" := by
    intro p hp a ha
    obtain ⟨b, hb⟩ := hc.entered p hp
    obtain ⟨c, hc', hcall⟩ := h.keepsCalls p.ask b hb.asked
    obtain rfl := Option.some.inj (ha.symm.trans hc')
    rw [hcall.turnKind]
    exact hs.voiced p hp b hb.asked
  have hreturned : ∀ (i : ℕ) (a : Ask) (request : LlmTurnRequest) (result : LlmTurnResult)
      (answer : Except ChatError String), s'.turns.asks[i]? = some a →
        a.phase = .returned request result answer →
        answer = (askAnswer isAlphanumeric a.turnKind result).map Answer.text := by
    intro i a request result answer ha hphase
    rcases h.turns with ht | ⟨e, ht⟩
    · rw [ht] at ha
      exact hs.returned i a request result answer ha hphase
    · rcases TurnStep.returned ht ha hphase with ⟨b, hb, hcall, hsame⟩ | hanswer
      · rw [hcall.turnKind]
        exact hs.returned i b request result answer hb (hsame.trans hphase)
      · exact hanswer
  cases h with
  | publish i a request result answer faults clock ha hphase hanswer hfirst =>
      refine ⟨?_, fun p hp b hb => ?_, hreturned⟩
      · rw [List.map_append, List.nodup_append]
        refine ⟨hs.once, List.nodup_singleton _, fun j hj k hk he => hfirst ?_⟩
        obtain ⟨p, hp, rfl⟩ := List.mem_map.mp hj
        exact ⟨p, hp, he.trans (List.mem_singleton.mp hk)⟩
      · rcases List.mem_append.mp hp with hp | hp
        · exact hvoiced p hp b hb
        · obtain rfl := List.mem_singleton.mp hp
          obtain rfl := Option.some.inj (ha.symm.trans hb)
          exact askAnswer_voice hanswer
  | _ => exact ⟨hs.once, hvoiced, hreturned⟩

end

/-! ## The asks of a room -/

/-- The asks in a room from this number on. -/
def askedSince (t : Turns) (first roomId : ℕ) : List ℕ :=
  (List.range t.asks.length).filter fun j =>
    decide (first ≤ j) && (t.asks[j]?).any fun a => a.roomId == roomId

section

variable {isAlphanumeric : Char → Bool} {t t' : Turns} {event : TurnEvent}

theorem askedSince_nodup (t : Turns) (first roomId : ℕ) : (askedSince t first roomId).Nodup :=
  List.nodup_range.filter _

theorem askedSince_congr (hlength : t'.asks.length = t.asks.length) (hkeeps : KeepsCalls t t')
    (first roomId : ℕ) : askedSince t' first roomId = askedSince t first roomId := by
  unfold askedSince
  rw [hlength]
  refine List.filter_congr fun j hj => ?_
  have hget := List.getElem?_eq_getElem (List.mem_range.mp hj)
  obtain ⟨b, hb, hcall⟩ := hkeeps j _ hget
  rw [hget, hb, Option.any_some, Option.any_some, hcall.roomId]

theorem TurnStep.length_eq (h : TurnStep isAlphanumeric t event t')
    (hcall : ∀ roomId member prompt turnKind roundStart,
      event ≠ .call roomId member prompt turnKind roundStart) :
    t'.asks.length = t.asks.length := by
  cases h with
  | call roomId member target prompt turnKind roundStart _ => exact absurd rfl (hcall _ _ _ _ _)
  | receive m => exact receive_length t m
  | _ => exact List.length_set

theorem askedSince_call {other first : ℕ} {member prompt : String} {turnKind : LlmChatTurnKind}
    {roundStart : Option ℕ}
    (h : TurnStep isAlphanumeric t (.call other member prompt turnKind roundStart) t')
    (hfirst : first ≤ t.asks.length) (roomId : ℕ) : askedSince t' first roomId =
      askedSince t first roomId ++ if other = roomId then [t.asks.length] else [] := by
  cases h with
  | call _ _ target _ _ _ _ =>
      unfold askedSince
      rw [List.length_append, List.length_singleton, List.range_succ, List.filter_append]
      refine congrArg₂ (· ++ ·) (List.filter_congr fun j hj => ?_) ?_
      · rw [List.getElem?_append_left (List.mem_range.mp hj)]
      · by_cases he : other = roomId <;> simp [hfirst, he]

end

/-! ## The accounts of one round -/

/-- The ask with this number was called so. -/
def Asked (t : Turns) (j : ℕ) (member prompt : String) (turnKind : LlmChatTurnKind) : Prop :=
  ∃ a, t.asks[j]? = some a ∧ a.member = member ∧ a.prompt = prompt ∧ a.turnKind = turnKind

def roomMessages (w : World) (id : ℕ) : List ChatMessage :=
  ((w.chat.rooms.record id).map RoomRecord.messages).getD []

/-- The asks whose answers the round has not taken. -/
def Progress.waits (p : Progress) : List ℕ := p.outstanding.filterMap Call.ask

/-- What these asks have published already. -/
def Session.spoken (s : Session) (asks : List ℕ) : List Line :=
  (s.published.filter fun p => decide (p.ask ∈ asks)).map fun p => lineOf p.message

/-- The ledger is the one of the round, and its lines are what was said in the room since the
round began, except for reports still to come and answers still to be taken. -/
structure Accounted (isAlphanumeric : Char → Bool) (first : ℕ) (old : List ChatMessage)
    (s : Session) (round : Round) (L : Ledger) (appended : List ChatMessage) : Prop where
  begun : first ≤ s.turns.asks.length
  tally : Tally isAlphanumeric (s.roomMembers round.roomId) round (s.progress round) L
  answered : L.calls.Perm (L.answers.map Reply.call ++ (s.progress round).outstanding)
  backed : ∀ r ∈ L.answers, r.Backed s.turns
  asks : askedSince s.turns first round.roomId = L.asks
  contributed : ∀ c ∈ L.contributions, ∀ j, c.ask = some j →
    Asked s.turns j c.member (contributionPrompt round.task c.member) .contribution
  followed : ∀ f ∈ L.mentions, ∀ j, f.call.ask = some j →
    Asked s.turns j f.call.member (mentionPrompt f.source) .mention
  messages : roomMessages s.world round.roomId = old ++ appended
  balance : (appended.map lineOf ++ (s.progress round).stage.reports.map errorLine).Perm
    (L.lines isAlphanumeric ++ s.spoken (s.progress round).waits)

section

variable {isAlphanumeric : Char → Bool} {s s' : Session} {event : Event} {round : Round}
  {L : Ledger} {first : ℕ} {old appended : List ChatMessage}

theorem mem_waits {p : Progress} {j : ℕ} : j ∈ p.waits ↔ p.Runs j := by
  have hstage : ∀ stage : Stage, (∃ c ∈ stage.calls, c.ask = some j) ↔ stage.ask = some j := by
    intro stage
    induction stage with
    | reporting text next ih => exact ih
    | _ => simp [Stage.calls, Stage.ask]
  have hcontribution : ∀ c : Contribution,
      (∃ call, c.call = some call ∧ call.ask = some j) ↔ c.state = .asking j := by
    rintro ⟨member, state⟩
    cases state <;> simp [Contribution.call]
  unfold Progress.waits Progress.outstanding Progress.Runs
  simp only [List.mem_filterMap, List.mem_append]
  rw [← hstage]
  constructor
  · rintro ⟨call, ⟨c, hc, hcall⟩ | hcall, hask⟩
    · exact .inr ⟨c, hc, (hcontribution c).mp ⟨call, hcall, hask⟩⟩
    · exact .inl ⟨call, hcall, hask⟩
  · rintro (⟨call, hcall, hask⟩ | ⟨c, hc, hstate⟩)
    · exact ⟨call, .inr hcall, hask⟩
    · obtain ⟨call, hcall, hask⟩ := (hcontribution c).mpr hstate
      exact ⟨call, .inl ⟨c, hc, hcall⟩, hask⟩

/-! ### What stays under a step -/

theorem Step.keepsResult (h : Step isAlphanumeric s event s') {j : ℕ}
    {answer : Except ChatError String} (hanswer : resultOf s.turns j = some answer) :
    resultOf s'.turns j = some answer := by
  obtain ⟨a, ha, hphase⟩ := Option.bind_eq_some_iff.mp hanswer
  obtain ⟨b, hb, _, hsame | ⟨e, hmove⟩⟩ := h.keeps ha
  · exact Option.bind_eq_some_iff.mpr ⟨b, hb, hsame ▸ hphase⟩
  · rw [answerOf_of_moves hmove] at hphase
    cases hphase

theorem Step.keepsBacked (h : Step isAlphanumeric s event s') {r : Reply}
    (hr : r.Backed s.turns) : r.Backed s'.turns := by
  unfold Reply.Backed at hr ⊢
  split at hr
  · exact h.keepsResult hr
  · exact hr

theorem Step.keepsAsked (h : Step isAlphanumeric s event s') {j : ℕ} {member prompt : String}
    {turnKind : LlmChatTurnKind} (hasked : Asked s.turns j member prompt turnKind) :
    Asked s'.turns j member prompt turnKind := by
  obtain ⟨a, ha, rfl, rfl, rfl⟩ := hasked
  obtain ⟨b, hb, hcall, _⟩ := h.keeps ha
  refine ⟨b, hb, hcall.member, ?_, hcall.turnKind⟩
  rcases h.turns with ht | ⟨e, ht⟩
  · rw [ht, ha] at hb
    exact congrArg Ask.prompt (Option.some.inj hb).symm
  · exact TurnStep.prompt ht ha hb

theorem Step.asks_length (h : Step isAlphanumeric s event s') :
    s.turns.asks.length ≤ s'.turns.asks.length := by
  by_contra hlt
  obtain ⟨b, hb, _⟩ := h.keepsCalls s'.turns.asks.length _
    (List.getElem?_eq_getElem (Nat.lt_of_not_le hlt))
  exact absurd (List.getElem?_eq_some_iff.mp hb).1 (lt_irrefl _)

theorem messages_of_record {w w' : World} {id : ℕ}
    (h : w'.chat.rooms.record id = w.chat.rooms.record id) :
    roomMessages w' id = roomMessages w id := by
  unfold roomMessages
  rw [h]

/-- A push says its message in its own room. -/
theorem messages_pushed (w : World) (faults : SnapshotFaults) (clock : Clock) {id : ℕ}
    (role author text : String) (media : List Media.MediaAsset) {room : ChatRoom}
    (hroom : w.chat.rooms.get id = some room) (other : ℕ) :
    roomMessages (w.pushed faults clock id role author text media) other =
      if other = id then roomMessages w other ++
        [newMessage w.chat role author text media clock.createdAt] else roomMessages w other := by
  unfold roomMessages
  rw [pushed_records w faults clock role author text media hroom]
  by_cases he : other = id
  · subst he
    rw [if_pos rfl, Function.update_self, record_of_get hroom]
    rfl
  · rw [if_neg he, Function.update_of_ne he]

/-! ### What the asks have published -/

/-- An answer is published by its ask, and an error by the round. -/
def Reply.published (isAlphanumeric : Char → Bool) (r : Reply) : List Line :=
  match r.answer with
  | .ok _ => [r.line isAlphanumeric]
  | .error _ => []

theorem Reply.line_eq (r : Reply) :
    [r.line isAlphanumeric] = r.failures.map errorLine ++ r.published isAlphanumeric := by
  cases hanswer : r.answer with
  | ok text => simp [Reply.failures, Reply.published, hanswer]
  | error error => simp [Reply.line, Reply.failures, Reply.published, hanswer]

/-- The only publication of its ask. -/
theorem Credited.filter_published (hs : Credited isAlphanumeric s) {p : Publication}
    (hp : p ∈ s.published) : s.published.filter (fun q => decide (q.ask ∈ [p.ask])) = [p] := by
  have hsame : ∀ q ∈ s.published.filter (fun q => decide (q.ask ∈ [p.ask])), q = p := by
    intro q hq
    obtain ⟨hmem, hask⟩ := List.mem_filter.mp hq
    have he := List.mem_singleton.mp (of_decide_eq_true hask)
    exact List.inj_on_of_nodup_map hs.once hmem hp he
  have hmem : p ∈ s.published.filter (fun q => decide (q.ask ∈ [p.ask])) :=
    List.mem_filter.mpr ⟨hp, decide_eq_true List.mem_cons_self⟩
  have hnodup := hs.once.of_map.filter fun q => decide (q.ask ∈ [p.ask])
  have hreplicate := List.eq_replicate_of_mem hsame
  rw [hreplicate] at hnodup hmem ⊢
  have hle := List.nodup_replicate.mp hnodup
  have hpos := List.length_pos_of_mem hmem
  rw [List.length_replicate] at hpos
  rw [show (s.published.filter (fun q => decide (q.ask ∈ [p.ask]))).length = 1 by omega]
  rfl

theorem returned_of_result {j : ℕ} {text : String}
    (h : resultOf s.turns j = some (.ok text)) : ∃ a request result,
      s.turns.asks[j]? = some a ∧ a.phase = .returned request result (.ok text) := by
  obtain ⟨a, ha, hphase⟩ := Option.bind_eq_some_iff.mp h
  cases hcase : a.phase with
  | returned request result answer =>
      rw [hcase] at hphase
      exact ⟨a, request, result, ha, by rw [hcase, Option.some.inj hphase]⟩
  | failed error =>
      rw [hcase] at hphase
      cases hphase
  | _ =>
      rw [hcase] at hphase
      cases hphase

/-- An ask that failed has published nothing. -/
theorem Credited.failed_silent (hs : Credited isAlphanumeric s) (hc : Consistent isAlphanumeric s)
    {j : ℕ} {error : ChatError} (h : resultOf s.turns j = some (.error error)) :
    ∀ p ∈ s.published, p.ask ≠ j := by
  rintro p hp rfl
  obtain ⟨a, ha, hphase⟩ := Option.bind_eq_some_iff.mp h
  obtain ⟨b, hb⟩ := hc.entered p hp
  obtain rfl := Option.some.inj (ha.symm.trans hb.asked)
  obtain ⟨request, result, answer, hdone, hanswer, _⟩ := hb.answer
  cases hcase : a.phase with
  | returned r s answer' =>
      rw [hcase] at hphase hdone
      obtain ⟨rfl, rfl⟩ := hdone
      have hreturned := hs.returned p.ask a _ _ answer' ha hcase
      rw [hanswer] at hreturned
      rw [hreturned] at hphase
      cases hphase
  | completed r s =>
      rw [hcase] at hphase
      cases hphase
  | _ =>
      rw [hcase] at hdone
      exact hdone

theorem Credited.spoken (hs : Credited isAlphanumeric s) (hc : Consistent isAlphanumeric s)
    {r : Reply} (hbacked : r.Backed s.turns) (hasked : ∀ j, r.call.ask = some j →
      ∃ prompt turnKind, Asked s.turns j r.call.member prompt turnKind ∧ turnKind ≠ .direct) :
    s.spoken r.call.ask.toList = r.published isAlphanumeric := by
  unfold Reply.Backed at hbacked
  cases hask : r.call.ask with
  | none =>
      rw [hask] at hbacked
      obtain ⟨error, _, hanswer⟩ := hbacked
      simp [Session.spoken, Reply.published, hanswer]
  | some j =>
      rw [hask] at hbacked
      obtain ⟨prompt, turnKind, ⟨a, ha, hmember, _, hkind⟩, hgroup⟩ := hasked j hask
      unfold Session.spoken
      rw [Option.toList_some]
      cases hanswer : r.answer with
      | ok text =>
          rw [hanswer] at hbacked
          obtain ⟨b, request, result, hb, hphase⟩ := returned_of_result hbacked
          obtain ⟨p, hp, rfl, htext⟩ := hc.concluded j b request result text hb hphase
          have hvoice := hs.voiced p hp a ha
          obtain ⟨c, hentered⟩ := hc.entered p hp
          obtain rfl := Option.some.inj (ha.symm.trans hentered.asked)
          have hnot : a.turnKind ≠ .direct := hkind ▸ hgroup
          simp only [ne_eq, hnot, not_false_eq_true, true_and] at hvoice
          rw [hs.filter_published hp]
          simp only [List.map_cons, List.map_nil, Reply.published, Reply.line, hanswer, lineOf,
            hvoice, htext, hentered.isAnswer.1, hmember]
      | error error =>
          rw [hanswer] at hbacked
          have hnone : s.published.filter (fun p => decide (p.ask ∈ [j])) = [] := by
            refine List.filter_eq_nil_iff.mpr fun p hp => ?_
            simpa using hs.failed_silent hc hbacked p hp
          rw [hnone]
          simp [Reply.published, hanswer]

/-- The asks that a step leaves open and the one whose answer it takes were open before,
apart from a new one, which has published nothing. -/
theorem spoken_split {waits called waits' received : List ℕ}
    (hperm : (waits' ++ received).Perm (waits ++ called)) (hdisjoint : waits'.Disjoint received)
    (hsilent : ∀ p ∈ s.published, p.ask ∉ called) :
    (s.spoken waits).Perm (s.spoken waits' ++ s.spoken received) := by
  unfold Session.spoken
  rw [← List.map_append]
  refine List.Perm.map _ ?_
  have hmem : ∀ p ∈ s.published, p.ask ∈ waits ↔ p.ask ∈ waits' ∨ p.ask ∈ received := by
    intro p hp
    have hiff := hperm.mem_iff (a := p.ask)
    have hnot := hsilent p hp
    grind
  have hsplit := Multiset.filter_add_filter (fun p : Publication => p.ask ∈ waits')
    (fun p => p.ask ∈ received) (s.published : Multiset Publication)
  have hboth : Multiset.filter (fun p : Publication => p.ask ∈ waits' ∧ p.ask ∈ received)
      (s.published : Multiset Publication) = 0 :=
    Multiset.filter_eq_nil.mpr fun p _ hp => hdisjoint hp.1 hp.2
  rw [hboth, add_zero] at hsplit
  have hwhole : Multiset.filter (fun p : Publication => p.ask ∈ waits)
      (s.published : Multiset Publication) =
      Multiset.filter (fun p => p.ask ∈ waits' ∨ p.ask ∈ received) s.published :=
    Multiset.filter_congr hmem
  rw [← Multiset.coe_eq_coe, ← Multiset.coe_add]
  exact hwhole.trans hsplit.symm

/-! ### The accounts under one step -/

/-- What is called is answered or open, before a step and after it. -/
theorem settled_perm {α : Type*} [DecidableEq α]
    {calls answers waits waits' called received : List α}
    (h : calls.Perm (answers ++ waits)) (hopen : (waits' ++ received).Perm (waits ++ called)) :
    (calls ++ called).Perm (answers ++ received ++ waits') := by
  rw [List.perm_iff_count] at h hopen ⊢
  intro a
  have hcalls := h a
  have hwaits := hopen a
  simp only [List.count_append] at hcalls hwaits ⊢
  omega

/-- What is said is a line of the ledger or of an open ask, or it is still to be reported,
before a step and after it. -/
theorem balanced_perm {α : Type*} [DecidableEq α]
    {said new reports reports' lines lines' open' opens failures published noticed : List α}
    (h : (said ++ reports).Perm (lines ++ opens))
    (hreports : (reports' ++ new).Perm (reports ++ failures ++ noticed))
    (hlines : lines'.Perm (lines ++ (failures ++ published) ++ noticed))
    (hopen : opens.Perm (open' ++ published)) :
    (said ++ new ++ reports').Perm (lines' ++ open') := by
  rw [List.perm_iff_count] at h hreports hlines hopen ⊢
  intro a
  have hsaid := h a
  have hnew := hreports a
  have hledger := hlines a
  have hspoken := hopen a
  simp only [List.count_append] at hsaid hnew hledger hspoken ⊢
  omega

/-- A step that is none of the round's and says nothing in its room. -/
theorem Accounted.frame (h : Accounted isAlphanumeric first old s round L appended)
    (hstep : Step isAlphanumeric s event s') (hmembers : s'.roomMembers round.roomId =
      s.roomMembers round.roomId) (hprogress : s'.progress round = s.progress round)
    (hasks : askedSince s'.turns first round.roomId = askedSince s.turns first round.roomId)
    (hmessages : roomMessages s'.world round.roomId = roomMessages s.world round.roomId)
    (hspoken : s'.spoken (s.progress round).waits = s.spoken (s.progress round).waits) :
    Accounted isAlphanumeric first old s' round L appended where
  begun := h.begun.trans (hstep.asks_length)
  tally := by
    rw [hmembers, hprogress]
    exact h.tally
  answered := hprogress ▸ h.answered
  backed r hr := hstep.keepsBacked (h.backed r hr)
  asks := hasks.trans h.asks
  contributed c hc j hj := hstep.keepsAsked (h.contributed c hc j hj)
  followed f hf j hj := hstep.keepsAsked (h.followed f hf j hj)
  messages := hmessages.trans h.messages
  balance := by
    rw [hprogress, hspoken]
    exact h.balance

/-- The ask of an answer that was taken is not open any more. -/
theorem waits_disjoint {p : Progress}
    (hanswered : L.calls.Perm (L.answers.map Reply.call ++ p.outstanding)) (hnodup : L.asks.Nodup)
    {r : Reply} (hr : r ∈ L.answers) : p.waits.Disjoint r.call.ask.toList := by
  have hasks := hanswered.filterMap Call.ask
  rw [List.filterMap_append] at hasks
  have hsplit := List.nodup_append.mp (hasks.nodup_iff.mp hnodup)
  intro j hwaits hj
  have hask : r.call.ask = some j := Option.mem_toList.mp hj
  have hmem := List.mem_filterMap.mpr ⟨r.call, List.mem_map_of_mem hr, hask⟩
  exact hsplit.2.2 j hmem j hwaits rfl

/-- What the open asks have published before a step is what they have published after it,
with the answer that the step takes. -/
theorem Credited.spoken_booked (hs : Credited isAlphanumeric s) (hc : Consistent isAlphanumeric s)
    {p p' : Progress} {t : Turns} {action : Action} {L' : Ledger} {called : List Call}
    {received : Option Reply} {noticed : List String}
    (hbook : Booking isAlphanumeric t round L p action L' p' called received noticed)
    (hanswered : L'.calls.Perm (L'.answers.map Reply.call ++ p'.outstanding))
    (hnodup : L'.asks.Nodup) (hbacked : ∀ r ∈ L'.answers, r.Backed s.turns)
    (hasked : ∀ c ∈ L'.calls, ∀ j, c.ask = some j →
      ∃ prompt turnKind, Asked s.turns j c.member prompt turnKind ∧ turnKind ≠ .direct)
    (hsilent : ∀ q ∈ s.published, q.ask ∉ called.filterMap Call.ask) :
    (s.spoken p.waits).Perm (s.spoken p'.waits ++
      received.toList.flatMap (Reply.published isAlphanumeric)) := by
  have hopen := hbook.outstanding.filterMap Call.ask
  rw [List.filterMap_append, List.filterMap_append] at hopen
  cases received with
  | none =>
      have hnone : s.spoken ([] : List ℕ) = [] := by simp [Session.spoken]
      have hsplit := spoken_split hopen (List.disjoint_nil_right _) hsilent
      simp only [Option.toList_none, List.map_nil, List.filterMap_nil, hnone] at hsplit
      exact hsplit
  | some r =>
      have hr : r ∈ L'.answers := by
        rw [hbook.answers]
        exact List.mem_append_right _ List.mem_cons_self
      have hcall : r.call ∈ L'.calls :=
        hanswered.mem_iff.mpr (List.mem_append_left _ (List.mem_map_of_mem hr))
      have hask : ((some r).toList.map Reply.call).filterMap Call.ask = r.call.ask.toList := by
        cases h : r.call.ask <;> simp [h]
      rw [hask] at hopen
      have hsplit := spoken_split hopen (waits_disjoint hanswered hnodup hr) hsilent
      rw [hs.spoken hc (hbacked r hr) (hasked r.call hcall)] at hsplit
      rw [Option.toList_some, List.flatMap_singleton]
      exact hsplit

theorem received_lines (received : Option Reply) :
    received.toList.map (Reply.line isAlphanumeric) =
      (received.toList.flatMap Reply.failures).map errorLine ++
        received.toList.flatMap (Reply.published isAlphanumeric) := by
  cases received with
  | none => rfl
  | some r => simpa using r.line_eq

/-- A step of the round itself, with its entries. -/
theorem Accounted.booked (h : Accounted isAlphanumeric first old s round L appended)
    (hstep : Step isAlphanumeric s event s') (hc : Consistent isAlphanumeric s')
    (hs : Credited isAlphanumeric s') {action : Action} {L' : Ledger} {called : List Call}
    {received : Option Reply} {noticed : List String} {said : List ChatMessage}
    (htally : Tally isAlphanumeric (s'.roomMembers round.roomId) round (s'.progress round) L')
    (hbook : Booking isAlphanumeric s.turns round L (s.progress round) action L'
      (s'.progress round) called received noticed)
    (hasks : askedSince s'.turns first round.roomId =
      askedSince s.turns first round.roomId ++ action.asked s.turns.asks.length)
    (hcalled : ∀ member prompt turnKind roundStart, action = .call member prompt turnKind
      roundStart → Asked s'.turns s.turns.asks.length member prompt turnKind)
    (hpublished : s'.published = s.published)
    (hsilent : ∀ p ∈ s.published, p.ask ≠ s.turns.asks.length)
    (hmessages : roomMessages s'.world round.roomId = roomMessages s.world round.roomId ++ said)
    (hsaid : said.map lineOf = action.said.map errorLine) :
    Accounted isAlphanumeric first old s' round L' (appended ++ said) := by
  have hanswered : L'.calls.Perm
      (L'.answers.map Reply.call ++ (s'.progress round).outstanding) := by
    rw [hbook.calls, hbook.answers, List.map_append]
    exact settled_perm h.answered hbook.outstanding
  have hbacked : ∀ r ∈ L'.answers, r.Backed s'.turns := by
    intro r hr
    rw [hbook.answers] at hr
    rcases List.mem_append.mp hr with hr | hr
    · exact hstep.keepsBacked (h.backed r hr)
    · exact hstep.keepsBacked (hbook.backed r (Option.mem_toList.mp hr))
  have hcontributed : ∀ c ∈ L'.contributions, ∀ j, c.ask = some j →
      Asked s'.turns j c.member (contributionPrompt round.task c.member) .contribution := by
    intro c hc j hj
    rcases hbook.contributed c hc with hold | hnew
    · exact hstep.keepsAsked (h.contributed c hold j hj)
    · obtain ⟨rfl, haction⟩ := hnew j hj
      exact hcalled _ _ _ _ haction
  have hfollowed : ∀ f ∈ L'.mentions, ∀ j, f.call.ask = some j →
      Asked s'.turns j f.call.member (mentionPrompt f.source) .mention := by
    intro f hf j hj
    rcases hbook.followed f hf with hold | hnew
    · exact hstep.keepsAsked (h.followed f hold j hj)
    · obtain ⟨rfl, haction⟩ := hnew j hj
      exact hcalled _ _ _ _ haction
  have hledger : askedSince s'.turns first round.roomId = L'.asks := by
    rw [hasks, h.asks, ← hbook.asked]
    simp [Ledger.asks, hbook.calls]
  refine ⟨h.begun.trans hstep.asks_length, htally, hanswered, hbacked, hledger, hcontributed,
    hfollowed, ?_, ?_⟩
  · rw [hmessages, h.messages, List.append_assoc]
  · have hlines := hbook.lines
    have hreports := hbook.said.map errorLine
    rw [List.map_append, List.map_append, List.map_append, ← hsaid] at hreports
    rw [List.map_append]
    rw [received_lines] at hlines
    refine balanced_perm h.balance hreports hlines ?_
    have hsame : s'.spoken = s.spoken := by
      funext asks
      unfold Session.spoken
      rw [hpublished]
    rw [← hsame]
    refine hs.spoken_booked hc hbook hanswered (hledger ▸ askedSince_nodup _ _ _) hbacked
      (fun c hcall j hj => ?_) fun q hq hask => ?_
    · rcases List.mem_append.mp hcall with hcall | hcall
      · exact ⟨_, _, hcontributed c hcall j hj, by decide⟩
      · obtain ⟨f, hf, rfl⟩ := List.mem_map.mp hcall
        exact ⟨_, _, hfollowed f hf j hj, by decide⟩
    · rw [hpublished] at hq
      rw [hbook.asked] at hask
      cases action with
      | call member prompt turnKind roundStart =>
          exact hsilent q hq (List.mem_singleton.mp hask)
      | _ => cases hask

/-- An open ask says its answer in the room. -/
theorem Accounted.published (h : Accounted isAlphanumeric first old s round L appended)
    (hstep : Step isAlphanumeric s event s') (hmembers : s'.roomMembers round.roomId =
      s.roomMembers round.roomId) (hturns : s'.turns = s.turns)
    (hprogress : s'.progress = s.progress) {q : Publication}
    (hpublished : s'.published = s.published ++ [q])
    (hwaits : q.ask ∈ (s.progress round).waits)
    (hmessages : roomMessages s'.world round.roomId =
      roomMessages s.world round.roomId ++ [q.message]) :
    Accounted isAlphanumeric first old s' round L (appended ++ [q.message]) where
  begun := hturns ▸ h.begun
  tally := by
    rw [hmembers, hprogress]
    exact h.tally
  answered := hprogress ▸ h.answered
  backed r hr := hstep.keepsBacked (h.backed r hr)
  asks := hturns ▸ h.asks
  contributed c hc j hj := hstep.keepsAsked (h.contributed c hc j hj)
  followed f hf j hj := hstep.keepsAsked (h.followed f hf j hj)
  messages := by rw [hmessages, h.messages, List.append_assoc]
  balance := by
    have hspoken : s'.spoken (s.progress round).waits =
        s.spoken (s.progress round).waits ++ [lineOf q.message] := by
      unfold Session.spoken
      rw [hpublished, List.filter_append, List.map_append]
      simp [hwaits]
    rw [hprogress, hspoken, List.map_append, List.map_singleton, ← List.append_assoc]
    have hbalance := h.balance.append_right [lineOf q.message]
    refine List.Perm.trans ?_ hbalance
    rw [List.append_assoc, List.append_assoc]
    exact List.perm_append_comm.append_left _

theorem asked_called {t t' : Turns} {roomId : ℕ} {member prompt : String}
    {turnKind : LlmChatTurnKind} {roundStart : Option ℕ}
    (h : TurnStep isAlphanumeric t (.call roomId member prompt turnKind roundStart) t') :
    Asked t' t.asks.length member prompt turnKind := by
  cases h with
  | call _ _ target _ _ _ _ => exact ⟨_, List.getElem?_concat_length, rfl, rfl, rfl⟩

theorem Manned.asked {t : Turns} {p : Progress} (h : Manned t round p) {j : ℕ}
    (hruns : p.Runs j) : ∃ a, t.asks[j]? = some a ∧ a.roomId = round.roomId := by
  rcases hruns with hstage | ⟨c, hc, hstate⟩
  · obtain ⟨a, ha, hroom, _⟩ := h.staged j hstage
    exact ⟨a, ha, hroom⟩
  · obtain ⟨a, ha, hroom, _⟩ := h.asking c hc j hstate
    exact ⟨a, ha, hroom⟩

/-- An answer is said in the room of the round that waits for it, and in no other. -/
theorem Accounted.publish (h : Accounted isAlphanumeric first old s round L appended)
    (hstep : Step isAlphanumeric s event s') (hc : Consistent isAlphanumeric s)
    (hround : round ∈ s.world.rounds)
    (hmembers : s'.roomMembers round.roomId = s.roomMembers round.roomId)
    (hturns : s'.turns = s.turns) (hprogress : s'.progress = s.progress) {q : Publication}
    (hpublished : s'.published = s.published ++ [q]) {a : Ask}
    (ha : s.turns.asks[q.ask]? = some a) (hopen : answerOf a.phase = none)
    (hmessages : roomMessages s'.world round.roomId = if round.roomId = a.roomId then
      roomMessages s.world round.roomId ++ [q.message] else roomMessages s.world round.roomId) :
    ∃ appended', Accounted isAlphanumeric first old s' round L appended' := by
  by_cases hhere : round.roomId = a.roomId
  · obtain ⟨other, hother, hid, hruns⟩ := hc.owned q.ask a ha hopen
    obtain rfl := hc.lifecycle.eq_of_room hother hround (hid.trans hhere.symm)
    rw [if_pos hhere] at hmessages
    exact ⟨_, h.published hstep hmembers hturns hprogress hpublished (mem_waits.mpr hruns)
      hmessages⟩
  · rw [if_neg hhere] at hmessages
    have hforeign : q.ask ∉ (s.progress round).waits := by
      intro hwaits
      obtain ⟨b, hb, hroomId⟩ := (hc.underway round hround).manned.asked (mem_waits.mp hwaits)
      obtain rfl := Option.some.inj (ha.symm.trans hb)
      exact hhere hroomId.symm
    refine ⟨appended, h.frame hstep hmembers (congrFun hprogress round) (by rw [hturns])
      hmessages ?_⟩
    unfold Session.spoken
    rw [hpublished, List.filter_append, List.map_append]
    simp [hforeign]

/-- The event is a step of this round, apart from its last. -/
def Event.advances (round : Round) : Event → Bool
  | .advance other _ => decide (other = round)
  | _ => false

/-- The asks in a room are the same unless a round calls one. -/
theorem Step.asks_since (h : Step isAlphanumeric s event s')
    (hcall : ∀ other member prompt turnKind roundStart,
      event ≠ .advance other (.call member prompt turnKind roundStart)) (first roomId : ℕ) :
    askedSince s'.turns first roomId = askedSince s.turns first roomId := by
  have hmoved : ∀ {t : Turns} {e : TurnEvent}, TurnStep isAlphanumeric s.turns e t →
      (∀ id member prompt turnKind roundStart, e ≠ .call id member prompt turnKind roundStart) →
      askedSince t first roomId = askedSince s.turns first roomId := by
    intro t e hstep hnot
    exact askedSince_congr (TurnStep.length_eq hstep hnot) (TurnStep.keepsCalls hstep) first roomId
  cases h with
  | call round p member prompt turnKind roundStart t _ _ _ => exact absurd rfl (hcall _ _ _ _ _)
  | ask e t hinner hstep =>
      refine hmoved hstep fun id member prompt turnKind roundStart he => ?_
      rw [he] at hinner
      exact hinner
  | snapshot i t hstep => exact hmoved hstep fun _ _ _ _ _ he => by cases he
  | conclude i a request result t _ _ _ hstep =>
      exact hmoved hstep fun _ _ _ _ _ he => by cases he
  | _ => rfl

/-- A step of the round itself. -/
theorem Step.books (h : Step isAlphanumeric s event s') (hc : Consistent isAlphanumeric s)
    (hs : Credited isAlphanumeric s) (hround : round ∈ s.world.rounds)
    (hgroup : round.isGroup = true)
    (hA : Accounted isAlphanumeric first old s round L appended) {p : Progress} {action : Action}
    (hadvance : Advance isAlphanumeric s.turns (s.roomMembers round.roomId) round
      (s.progress round) action p) (hprogress : s'.progress = Function.update s.progress round p)
    (hasks : askedSince s'.turns first round.roomId =
      askedSince s.turns first round.roomId ++ action.asked s.turns.asks.length)
    (hcalled : ∀ member prompt turnKind roundStart, action = .call member prompt turnKind
      roundStart → Asked s'.turns s.turns.asks.length member prompt turnKind)
    (hpublished : s'.published = s.published) (said : List ChatMessage)
    (hmessages : roomMessages s'.world round.roomId = roomMessages s.world round.roomId ++ said)
    (hsaid : said.map lineOf = action.said.map errorLine) :
    ∃ L' appended', Accounted isAlphanumeric first old s' round L' appended' ∧
      1 + (s'.progress round).due round ≤ (s.progress round).due round := by
  have hu := hc.underway round hround
  obtain ⟨room, hroom, _⟩ := hu.placed.room
  have hmembers := roomMembers_extends hroom (h.extends hc)
  have hp : s'.progress round = p := by rw [hprogress, Function.update_self]
  obtain ⟨L', called, received, noticed, htally, hbook⟩ :=
    hadvance.books hu.sound hgroup hA.tally
  have hsilent : ∀ q ∈ s.published, q.ask ≠ s.turns.asks.length := by
    intro q hq
    obtain ⟨a, ha⟩ := hc.entered q hq
    exact (List.getElem?_eq_some_iff.mp ha.asked).1.ne
  refine ⟨L', appended ++ said, ?_, ?_⟩
  · rw [← hmembers, ← hp] at htally
    rw [← hp] at hbook
    exact hA.booked h (h.consistent hc) (h.credited hc hs) htally hbook hasks hcalled hpublished
      hsilent hmessages hsaid
  · rw [hp, Nat.add_comm]
    exact hadvance.due_lt hu.sound hgroup hA.tally

/-- A step that is not the round's own leaves its accounts as they are. -/
theorem Accounted.idle (hA : Accounted isAlphanumeric first old s round L appended)
    (h : Step isAlphanumeric s event s') (hround : round ∈ s'.world.rounds)
    (hidle : event.advances round = false)
    (hmembers : s'.roomMembers round.roomId = s.roomMembers round.roomId)
    (hprogress : s'.progress round = s.progress round)
    (hasks : askedSince s'.turns first round.roomId = askedSince s.turns first round.roomId)
    (hmessages : roomMessages s'.world round.roomId = roomMessages s.world round.roomId)
    (hspoken : s'.spoken (s.progress round).waits = s.spoken (s.progress round).waits) :
    round ∈ s'.world.rounds ∧ ∃ L' appended',
      Accounted isAlphanumeric first old s' round L' appended' ∧
        (event.advances round).toNat + (s'.progress round).due round ≤
          (s.progress round).due round := by
  refine ⟨hround, L, appended, hA.frame h hmembers hprogress hasks hmessages hspoken, ?_⟩
  rw [hidle, hprogress, Bool.toNat_false, Nat.zero_add]

theorem Step.accounted (h : Step isAlphanumeric s event s') (hc : Consistent isAlphanumeric s)
    (hs : Credited isAlphanumeric s) (hround : round ∈ s.world.rounds)
    (hgroup : round.isGroup = true) (hevent : event ≠ .finish round)
    (hA : Accounted isAlphanumeric first old s round L appended) :
    round ∈ s'.world.rounds ∧ ∃ L' appended',
      Accounted isAlphanumeric first old s' round L' appended' ∧
        (event.advances round).toNat + (s'.progress round).due round ≤
          (s.progress round).due round := by
  have hstep := h
  have hu := hc.underway round hround
  obtain ⟨room, hroom, _⟩ := hu.placed.room
  have hmembers := roomMembers_extends hroom (h.extends hc)
  have hrecord : ∀ {op : ChatOp} {w : World}, ChatStep isAlphanumeric s.world op w →
      op.message s.world.chat = none →
      w.chat.rooms.record round.roomId = s.world.chat.rooms.record round.roomId := by
    intro op w hop hmessage
    have heffect := hop.effect hc.fresh
    rw [hmessage] at heffect
    exact heffect.record_eq hroom
  have hrest : ∀ {other : Round} {p : Progress}, other ≠ round →
      Function.update s.progress other p round = s.progress round := fun hne =>
    Function.update_of_ne hne.symm _ _
  have hrooms : ∀ {other : Round}, other ∈ s.world.rounds → other ≠ round →
      round.roomId ≠ other.roomId := by
    intro other hother hne hid
    exact hne (hc.lifecycle.eq_of_room hother hround hid.symm)
  cases h with
  | client op w hop hchat =>
      have hp : s.opened round = s.progress round := if_pos hround
      have hsame := client_record hop hchat hc.fresh hc.lifecycle hround
      exact hA.idle hstep (client_keeps_rounds hop hchat round hround) rfl hmembers hp rfl
        (messages_of_record hsame) rfl
  | mark other member w hchat =>
      have hsame := hrecord hchat rfl
      have hkept : round ∈ w.rounds := by
        obtain rfl := hchat.2
        exact hround
      exact hA.idle hstep hkept rfl hmembers rfl rfl (messages_of_record hsame) rfl
  | abandon other w _ halone hchat =>
      have hsame := hrecord hchat rfl
      have hne : round ≠ other := by
        rintro rfl
        exact absurd (halone.symm.trans hgroup) (by decide)
      have hkept : round ∈ w.rounds := by
        obtain rfl := hchat.2
        exact (List.mem_erase_of_ne hne).mpr hround
      exact hA.idle hstep hkept rfl hmembers rfl rfl (messages_of_record hsame) rfl
  | finish other faults now w _ hchat =>
      have hsame := hrecord hchat rfl
      have hne : round ≠ other := by
        rintro rfl
        exact hevent rfl
      have hkept : round ∈ w.rounds := by
        obtain rfl := hchat.2
        exact (List.mem_erase_of_ne hne).mpr hround
      exact hA.idle hstep hkept rfl hmembers rfl rfl (messages_of_record hsame) rfl
  | proceed other p hother hadvance =>
      by_cases hne : other = round
      · subst hne
        refine ⟨hround, ?_⟩
        have hown := hstep.books hc hs hround hgroup hA hadvance rfl
          (List.append_nil _).symm (fun _ _ _ _ he => by cases he) rfl []
          (List.append_nil _).symm rfl
        simpa [Event.advances] using hown
      · exact hA.idle hstep hround (decide_eq_false hne) hmembers (hrest hne) rfl rfl rfl
  | call other p member prompt turnKind roundStart t hother hadvance hcall =>
      have hasks := askedSince_call hcall hA.begun round.roomId
      by_cases hne : other = round
      · subst hne
        refine ⟨hround, ?_⟩
        rw [if_pos rfl] at hasks
        have hown := hstep.books hc hs hround hgroup hA hadvance rfl hasks
          (fun m q k r he => by
            obtain ⟨rfl, rfl, rfl, rfl⟩ := Action.call.inj he
            exact asked_called hcall) rfl [] (List.append_nil _).symm rfl
        simpa [Event.advances] using hown
      · rw [if_neg (hrooms hother hne).symm, List.append_nil] at hasks
        exact hA.idle hstep hround (decide_eq_false hne) hmembers (hrest hne) hasks rfl rfl
  | report other p text faults clock hother hadvance =>
      obtain ⟨room', hroom', _⟩ := (hc.underway other hother).placed.room
      have hsaid := messages_pushed s.world faults clock "error" "系统" text [] hroom' round.roomId
      by_cases hne : other = round
      · subst hne
        refine ⟨hround, ?_⟩
        rw [if_pos rfl] at hsaid
        have hown := hstep.books hc hs hround hgroup hA hadvance rfl (List.append_nil _).symm
          (fun _ _ _ _ he => by cases he) rfl _ hsaid rfl
        simpa [Event.advances] using hown
      · rw [if_neg (hrooms hother hne)] at hsaid
        exact hA.idle hstep hround (decide_eq_false hne) hmembers (hrest hne) rfl hsaid rfl
  | publish i a request result answer faults clock ha hphase hanswer hfirst =>
      have hopen : answerOf a.phase = none := by rw [hphase]; rfl
      obtain ⟨other, hother, hid, _⟩ := hc.owned i a ha hopen
      obtain ⟨room', hroom', _⟩ := (hc.underway other hother).placed.room
      rw [hid] at hroom'
      have hsaid := messages_pushed s.world faults clock answer.role a.member answer.text
        answer.attachments hroom' round.roomId
      obtain ⟨appended', hA'⟩ := hA.publish hstep hc hround hmembers rfl rfl rfl ha hopen hsaid
      refine ⟨hround, L, appended', hA', ?_⟩
      simp [Event.advances]
  | ask e t hinner hturn =>
      have hasks := hstep.asks_since (fun _ _ _ _ _ he => by cases he) first round.roomId
      exact hA.idle hstep hround rfl hmembers rfl hasks rfl rfl
  | snapshot i t hturn =>
      have hasks := hstep.asks_since (fun _ _ _ _ _ he => by cases he) first round.roomId
      exact hA.idle hstep hround rfl hmembers rfl hasks rfl rfl
  | conclude i a request result t _ _ _ hturn =>
      have hasks := hstep.asks_since (fun _ _ _ _ _ he => by cases he) first round.roomId
      exact hA.idle hstep hround rfl hmembers rfl hasks rfl rfl

/-! ### Runs of a round -/

/-- While its last step has not been taken, a round is in flight and its accounts are in
order, and every step that it takes is one less to take. -/
theorem run_accounted {events : List Event} (hrun : SessionRun isAlphanumeric s events s')
    (hc : Consistent isAlphanumeric s) (hs : Credited isAlphanumeric s)
    (hround : round ∈ s.world.rounds) (hgroup : round.isGroup = true)
    (hopen : .finish round ∉ events)
    (hA : Accounted isAlphanumeric first old s round L appended) :
    Consistent isAlphanumeric s' ∧ Credited isAlphanumeric s' ∧ round ∈ s'.world.rounds ∧
      s'.roomMembers round.roomId = s.roomMembers round.roomId ∧
      ∃ L' appended', Accounted isAlphanumeric first old s' round L' appended' ∧
        events.countP (Event.advances round) + (s'.progress round).due round ≤
          (s.progress round).due round := by
  induction hrun generalizing L appended with
  | nil s => exact ⟨hc, hs, hround, rfl, L, appended, hA, by simp⟩
  | @cons s t s' event events hstep _ ih =>
      have hevent : event ≠ .finish round := fun he => hopen (he ▸ List.mem_cons_self)
      obtain ⟨hround', L', appended', hA', hdue⟩ :=
        hstep.accounted hc hs hround hgroup hevent hA
      obtain ⟨room, hroom, _⟩ := (hc.underway round hround).placed.room
      have hmembers := roomMembers_extends hroom (hstep.extends hc)
      obtain ⟨hc'', hs'', hround'', hmembers'', L'', appended'', hA'', hdue''⟩ :=
        ih (hstep.consistent hc) (hstep.credited hc hs) hround'
          (fun hmem => hopen (List.mem_cons_of_mem event hmem)) hA'
      refine ⟨hc'', hs'', hround'', hmembers''.trans hmembers, L'', appended'', hA'', ?_⟩
      cases hadvances : event.advances round with
      | false =>
          rw [hadvances, Bool.toNat_false] at hdue
          rw [List.countP_cons_of_neg (by simp [hadvances])]
          omega
      | true =>
          rw [hadvances, Bool.toNat_true] at hdue
          rw [List.countP_cons_of_pos hadvances]
          omega

/-! ## The whole round -/

/-- What a round has done when it has nothing left to do. -/
structure Settled (isAlphanumeric : Char → Bool) (members : List String) (round : Round)
    (L : Ledger) (appended : List ChatMessage) : Prop where
  contributions : (L.contributions.map Call.member).Perm round.members
  answered : L.calls.Perm (L.answers.map Reply.call)
  followed : L.mentions.map FollowUp.pair =
    (enqueued isAlphanumeric members L.answers).take maxMentionTurns
  lines : (appended.map lineOf).Perm (L.answers.map (Reply.line isAlphanumeric) ++
    if maxMentionTurns < (enqueued isAlphanumeric members L.answers).length then
      [errorLine mentionLimitText] else [])
  count : appended.length = L.calls.length +
    if maxMentionTurns < (enqueued isAlphanumeric members L.answers).length then 1 else 0

theorem Stage.Accounts.bounded {members : List String} {stage : Stage}
    (h : stage.Accounts isAlphanumeric members L) : L.mentions.length ≤ maxMentionTurns := by
  induction stage with
  | starting =>
      obtain rfl : L = .empty := h
      exact Nat.zero_le _
  | direct member ask => exact absurd h id
  | joining pending =>
      rw [h.1]
      exact Nat.zero_le _
  | following pending followUps => exact h.1.count.trans_le h.1.bounded
  | mentioned target ask pending followUps => exact h.1.count.trans_le h.1.bounded
  | reporting text next ih => exact ih h
  | ending =>
      have hlength := congrArg List.length h.queue
      rw [List.length_map, List.length_take] at hlength
      omega

theorem Stage.Accounts.opening {members : List String} {stage : Stage}
    (h : stage.Accounts isAlphanumeric members L) (hopens : stage.opens = true) : L = .empty := by
  induction stage with
  | starting => exact h
  | reporting text next ih => exact ih h hopens
  | _ => cases hopens

/-- A summary mentions the user. -/
theorem Accounted.summary (h : Accounted isAlphanumeric first old s round L appended)
    (hc : Consistent isAlphanumeric s) (hs : Credited isAlphanumeric s) {m : ChatMessage}
    (hm : m ∈ appended) (hrole : m.role = "summary") :
    mentionsUser isAlphanumeric m.text = true := by
  have herror : "error" ≠ "summary" := by decide
  have hagent : "agent" ≠ "summary" := by decide
  have hsaid := h.balance.mem_iff.mp (List.mem_append_left _ (List.mem_map_of_mem hm))
  rcases List.mem_append.mp hsaid with hline | hspoken
  · rcases List.mem_append.mp hline with hanswer | hlimit
    · obtain ⟨r, _, he⟩ := List.mem_map.mp hanswer
      unfold Reply.line at he
      split at he
      · rename_i text _
        have htext : text = m.text := congrArg Line.text he
        have hvoice : (if mentionsUser isAlphanumeric text then "summary" else "agent") = m.role :=
          congrArg Line.role he
        rw [hrole] at hvoice
        split_ifs at hvoice with huser
        · exact htext ▸ huser
        · exact absurd hvoice hagent
      · exact absurd ((congrArg Line.role he).trans hrole) herror
    · split_ifs at hlimit
      · have he := List.mem_singleton.mp hlimit
        exact absurd ((congrArg Line.role he).symm.trans hrole) herror
      · cases hlimit
  · obtain ⟨q, hq, he⟩ := List.mem_map.mp hspoken
    have hpublished := List.mem_of_mem_filter hq
    obtain ⟨a, ha⟩ := hc.entered q hpublished
    have hvoice := hs.voiced q hpublished a ha.asked
    have hsame : q.message.role = m.role := congrArg Line.role he
    have htext : q.message.text = m.text := congrArg Line.text he
    rw [hsame, hrole] at hvoice
    split_ifs at hvoice with huser
    · exact htext ▸ huser.2
    · exact absurd hvoice.symm hagent

/-- The message that starts a round wakes its room, and the round stands at its beginning. -/
theorem Step.sent {faults : SnapshotFaults} {clock : Clock} {text : String}
    {media : List Media.MediaAsset} {room : ChatRoom}
    (h : Step isAlphanumeric s (.client (.send faults clock round.roomId text media)) s')
    (hc : Consistent isAlphanumeric s)
    (haccepted : (sendUserMessageWithMedia isAlphanumeric faults clock round.roomId text media
      s.world.chat s.world.disk).2.2.2 = some round)
    (hroom : s.world.chat.rooms.get round.roomId = some room)
    (hstart : round.roundStart = s.world.chat.nextMessage)
    (hchat : (sendUserMessageWithMedia isAlphanumeric faults clock round.roomId text media
      s.world.chat s.world.disk).2.1 = accepting s.world.chat clock (Text.trim text) media room) :
    round ∈ s'.world.rounds ∧ s'.world.chat.rooms.get round.roomId =
      some (woken s.world.chat clock (Text.trim text) media room) ∧
      s'.progress round = .launched ∧ s'.turns = s.turns := by
  have hnew : round ∉ s.world.rounds := by
    intro hold
    have hbegun := (hc.underway round hold).placed.begun
    omega
  cases h with
  | client _ w _ hstep =>
      obtain rfl := hstep.2
      refine ⟨?_, ?_, if_neg hnew, rfl⟩
      · simp only [World.after, World.sent, haccepted]
        exact List.mem_cons_self
      · simp only [World.after, World.sent, hchat]
        exact (RoomStore.get_put _ _ _).trans (if_pos (RoomStore.id_of_get hroom))

/-- The last step of a round clears its room. -/
theorem Step.finished (h : Step isAlphanumeric s (.finish round) s')
    (hc : Consistent isAlphanumeric s) {room : ChatRoom}
    (hroom : s.world.chat.rooms.get round.roomId = some room) :
    (s.progress round).stage = .ending ∧ round ∉ s'.world.rounds ∧
      ∃ room', s'.world.chat.rooms.get round.roomId = some room' ∧ room'.busy = false ∧
        room'.activeMember = none ∧ room'.messages = room.messages := by
  cases h with
  | finish _ faults now w hstage hchat =>
      obtain rfl := hchat.2
      refine ⟨hstage, ?_, {room with busy := false, activeMember := none, lastActivityMs := now},
        ?_, rfl, rfl, rfl⟩
      · exact hc.lifecycle.single.of_map.not_mem_erase
      · simp only [World.after, Chat.finish, hroom]
        rw [RoomStore.get_put]
        exact if_pos (RoomStore.id_of_get hroom)

end

/-! ## A round with a follow-up -/

section

variable (world : World) (turns turns' : Turns) (published : List Publication) (p q : Progress)

variable {world turns published p q}

end

section

variable {pending : ExtTreeMap String PendingTurn} {next : ℕ} {ended : List Ask}
  {received : List RoutedMessage} {a : Ask} {phase : AskPhase} {reply : Option LlmTurnResult}

variable (pending next ended received a)

end

end NormaHarness.Rounds
