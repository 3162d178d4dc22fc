import NormaHarness.MemberTurns
import NormaHarness.RoundRooms

/-!
# The steps of one round

While contributions are open the round itself asks nobody, and it asks every addressed
member for one contribution. It calls members of its room only, and it never forgets an
ask that has not ended.
-/
namespace NormaHarness.Rounds
open Std Identifiers Contracts LlmProtocol Chat Asks

namespace Stage

/-- The round is collecting contributions. -/
def joins : Stage → Bool
  | .joining _ => true
  | .reporting _ next => next.joins
  | _ => false

def pending : Stage → List (String × String)
  | .joining pending => pending
  | .following pending _ => pending
  | .mentioned _ _ pending _ => pending
  | .reporting _ next => next.pending
  | _ => []

/-- Nobody has been asked yet. -/
def opens : Stage → Bool
  | .starting => true
  | .reporting _ next => next.opens
  | _ => false

/-- The ask that the round itself waits for. -/
def ask : Stage → Option ℕ
  | .direct _ ask => some ask
  | .mentioned _ ask _ _ => some ask
  | .reporting _ next => next.ask
  | _ => none

theorem opens_of_joins {stage : Stage} (h : stage.joins = true) : stage.opens = false := by
  induction stage with
  | joining pending => rfl
  | reporting text next ih => exact ih h
  | _ => exact Bool.noConfusion h

theorem quiet_of_ask {stage : Stage} {j : ℕ} (h : stage.ask = some j) :
    stage.opens = false ∧ stage.joins = false := by
  induction stage with
  | direct member ask => exact ⟨rfl, rfl⟩
  | mentioned target ask pending followUps => exact ⟨rfl, rfl⟩
  | reporting text next ih => exact ih h
  | _ => cases h

end Stage

/-- A property of the next stage that holds for both answers holds after either. -/
theorem settle_induction {P : Stage → Prop} (member : String) (answer : Except ChatError String)
    {answered : String → Stage} {next : Stage} (hanswered : ∀ text, P (answered text))
    (hreporting : ∀ text, P (.reporting text next)) : P (settle member answer answered next) := by
  cases answer with
  | ok text => exact hanswered text
  | error error => exact hreporting _

theorem mem_middle {α : Type*} {a b : α} {before after : List α} :
    a ∈ before ++ b :: after ↔ a = b ∨ a ∈ before ++ after := by
  rw [List.perm_middle.mem_iff, List.mem_cons]

/-- The round waits for this ask, itself or in its join set. -/
def Progress.Runs (p : Progress) (ask : ℕ) : Prop :=
  p.stage.ask = some ask ∨ ∃ c ∈ p.contributions, c.state = .asking ask

/-- The shape of a round in a room with these members. -/
structure Sound (members : List String) (round : Round) (p : Progress) : Prop where
  alone : p.stage.joins = false → p.contributions = []
  distinct : (p.contributions.map Contribution.member).Nodup
  addressed : ∀ c ∈ p.contributions, c.member ∈ round.members
  targets : ∀ q ∈ p.stage.pending, q.2 ∈ members
  everyone : ∀ m ∈ p.allMembers, m ∈ members

section

variable {isAlphanumeric : Char → Bool} {t t' : Turns} {members : List String} {round : Round}
  {p p' : Progress} {action : Action}

theorem sound_launched : Sound members round .launched :=
  ⟨fun _ => rfl, List.nodup_nil, fun _ hc => absurd hc List.not_mem_nil,
    fun _ hq => absurd hq List.not_mem_nil, fun _ hm => absurd hm List.not_mem_nil⟩

/-- A round outside the collection moves to another stage. -/
theorem Sound.to (h : Sound members round p) {stage : Stage} (hjoins : p.stage.joins = false)
    (htargets : ∀ q ∈ stage.pending, q.2 ∈ members) : Sound members round (p.to stage) :=
  ⟨fun _ => h.alone hjoins, h.distinct, h.addressed, htargets, h.everyone⟩

/-- One contribution of the join set changes its state. -/
theorem Sound.replace (h : Sound members round p) {member : String}
    {state state' : ContributionState} {before after : List Contribution}
    (hp : p.contributions = before ++ ⟨member, state⟩ :: after) :
    Sound members round {p with contributions := before ++ ⟨member, state'⟩ :: after} := by
  have hmembers : (before ++ ⟨member, state'⟩ :: after).map Contribution.member =
      p.contributions.map Contribution.member := by
    rw [hp]
    simp
  refine ⟨fun hjoins => ?_, hmembers ▸ h.distinct, fun c hc => ?_, h.targets, h.everyone⟩
  · have hnil := h.alone hjoins
    rw [hp] at hnil
    simp at hnil
  · have hmem := hmembers ▸ List.mem_map_of_mem (f := Contribution.member) hc
    obtain ⟨c', hc', he⟩ := List.mem_map.mp hmem
    exact he ▸ h.addressed c' hc'

theorem Sound.target (h : Sound members round p) {first : String × String}
    {pending : List (String × String)} (hp : p.stage.pending = first :: pending) :
    first.2 ∈ members ∧ ∀ q ∈ pending, q.2 ∈ members := by
  have htargets := h.targets
  rw [hp] at htargets
  exact List.forall_mem_cons.mp htargets

theorem Advance.sound (h : Advance isAlphanumeric t members round p action p')
    (hs : Sound members round p) (hdistinct : round.members.Nodup) : Sound members round p' := by
  have hnone : ∀ q ∈ ([] : List (String × String)), q.2 ∈ members :=
    fun q hq => absurd hq List.not_mem_nil
  have hpending : ∀ {stage : Stage} {pending : List (String × String)}, p.stage = stage →
      stage.pending = pending → ∀ q ∈ pending, q.2 ∈ members := by
    intro stage pending hstage he
    rw [← he, ← hstage]
    exact hs.targets
  cases h with
  | direct member rest hstage _ _ => exact hs.to (by rw [hstage]; rfl) hnone
  | directRefused member rest error hstage _ _ _ => exact hs.to (by rw [hstage]; rfl) hnone
  | directDone member ask answer hstage _ =>
      refine hs.to (by rw [hstage]; rfl) ?_
      exact settle_induction (P := fun stage => ∀ q ∈ stage.pending, q.2 ∈ members) member answer
        (fun _ => hnone) fun _ => hnone
  | spawn hstage _ =>
      refine ⟨fun h => Bool.noConfusion h, ?_, fun c hc => ?_, hnone, fun m hm => hm⟩
      · rw [List.map_map]
        exact (List.map_id round.members).symm ▸ hdistinct
      · obtain ⟨m, hm, rfl⟩ := List.mem_map.mp hc
        exact hm
  | contribute member before after hp => exact hs.replace hp
  | refuse member before after error hp _ => exact hs.replace hp
  | join c before after pending answer hstage hp _ =>
      have hold := hpending hstage rfl
      have hsub : (before ++ after).Sublist p.contributions := by
        rw [hp]
        exact (List.Sublist.refl before).append (List.sublist_cons_self c after)
      refine ⟨fun hjoins => ?_, hs.distinct.sublist (hsub.map _),
        fun c' hc' => hs.addressed c' (hsub.subset hc'), ?_, hs.everyone⟩
      · have hjoined : (settle c.member answer (fun text =>
            .joining (enqueueMentions isAlphanumeric pending c.member text p.allMembers))
            (.joining pending)).joins = true :=
          settle_induction (P := fun stage => stage.joins = true) c.member answer (fun _ => rfl)
            fun _ => rfl
        exact absurd (hjoined.symm.trans hjoins) (by decide)
      · refine settle_induction (P := fun stage => ∀ q ∈ stage.pending, q.2 ∈ members) c.member
          answer (fun text => ?_) fun _ => hold
        exact enqueueMentions_targets isAlphanumeric hs.everyone hold
  | joined pending hstage hp =>
      refine ⟨fun _ => hp, hs.distinct, hs.addressed, hpending hstage rfl, hs.everyone⟩
  | mention source target pending followUps hstage _ =>
      have htarget := hs.target (by rw [hstage]; rfl)
      exact hs.to (by rw [hstage]; rfl) htarget.2
  | mentionRefused source target pending followUps error hstage _ _ =>
      have htarget := hs.target (by rw [hstage]; rfl)
      exact hs.to (by rw [hstage]; rfl) htarget.2
  | mentionDone target ask pending followUps answer hstage _ =>
      have hold := hpending hstage rfl
      refine hs.to (by rw [hstage]; rfl) ?_
      refine settle_induction (P := fun stage => ∀ q ∈ stage.pending, q.2 ∈ members) target answer
        (fun text => ?_) fun _ => hold
      exact enqueueMentions_targets isAlphanumeric hs.everyone hold
  | capped first pending hstage => exact hs.to (by rw [hstage]; rfl) hnone
  | drained followUps hstage => exact hs.to (by rw [hstage]; rfl) hnone
  | report text next hstage =>
      refine ⟨fun hjoins => hs.alone ?_, hs.distinct, hs.addressed, hpending hstage rfl,
        hs.everyone⟩
      rw [hstage]
      exact hjoins

/-- A round calls members of its room. -/
theorem Advance.called_member {member prompt : String} {turnKind : LlmChatTurnKind}
    {roundStart : Option ℕ} (h : Advance isAlphanumeric t members round p
      (.call member prompt turnKind roundStart) p') (hs : Sound members round p)
    (hround : ∀ m ∈ round.members, m ∈ members) : member ∈ members := by
  cases h with
  | direct _ rest _ _ hmembers =>
      apply hround
      rw [hmembers]
      exact List.mem_cons_self
  | contribute _ before after hp =>
      apply hround
      refine hs.addressed ⟨member, .spawned⟩ ?_
      rw [hp]
      exact mem_middle.mpr (.inl rfl)
  | mention source _ pending followUps hstage _ => exact (hs.target (by rw [hstage]; rfl)).1

/-- The cut-off of a call: the start of the round, or none. -/
theorem Advance.called_start {member prompt : String} {turnKind : LlmChatTurnKind}
    {roundStart : Option ℕ} (h : Advance isAlphanumeric t members round p
      (.call member prompt turnKind roundStart) p') :
    turnKind = .contribution ∧ roundStart = some round.roundStart ∨
      turnKind ≠ .contribution ∧ roundStart = none := by
  cases h with
  | direct _ _ _ _ _ => exact .inr ⟨by decide, rfl⟩
  | contribute _ _ _ _ => exact .inl ⟨rfl, rfl⟩
  | mention _ _ _ _ _ _ => exact .inr ⟨by decide, rfl⟩

/-- The step of a call leaves its round waiting for the new ask. -/
theorem Advance.runs_called {member prompt : String} {turnKind : LlmChatTurnKind}
    {roundStart : Option ℕ} (h : Advance isAlphanumeric t members round p
      (.call member prompt turnKind roundStart) p') : p'.Runs t.asks.length := by
  cases h with
  | direct _ _ _ _ _ => exact .inl rfl
  | contribute _ before after _ =>
      exact .inr ⟨_, mem_middle.mpr (.inl rfl), rfl⟩
  | mention _ _ _ _ _ _ => exact .inl rfl

/-- A round goes on to wait for an ask that has not ended. -/
theorem Advance.runs (h : Advance isAlphanumeric t members round p action p')
    (hs : Sound members round p) {ask : ℕ} (hopen : resultOf t ask = none) (hruns : p.Runs ask) :
    p'.Runs ask := by
  have hstaged : ∀ {stage : Stage}, p.stage = stage → stage.ask ≠ some ask →
      ∃ c ∈ p.contributions, c.state = .asking ask := by
    intro stage hstage hask
    rw [← hstage] at hask
    exact hruns.resolve_left hask
  have hsilent : ∀ {stage : Stage} (next : Stage), p.stage = stage → stage.ask ≠ some ask →
      (p.to next).Runs ask := fun _ hstage hask => .inr (hstaged hstage hask)
  have hended : ∀ {ask' : ℕ} {answer : Except ChatError String}, resultOf t ask' = some answer →
      ask' ≠ ask := by
    rintro ask' answer hanswer rfl
    rw [hopen] at hanswer
    cases hanswer
  cases h with
  | direct member rest hstage _ _ => exact hsilent _ hstage (by simp [Stage.ask])
  | directRefused member rest error hstage _ _ _ => exact hsilent _ hstage (by simp [Stage.ask])
  | directDone member ask' answer hstage hanswer =>
      exact hsilent _ hstage (by simp [Stage.ask, hended hanswer])
  | spawn hstage _ =>
      obtain ⟨c, hc, _⟩ := hstaged hstage (by simp [Stage.ask])
      rw [hs.alone (by rw [hstage]; rfl)] at hc
      exact absurd hc List.not_mem_nil
  | contribute member before after hp =>
      refine hruns.imp_right fun ⟨c, hc, hask⟩ => ⟨c, ?_, hask⟩
      rw [hp] at hc
      rcases mem_middle.mp hc with rfl | hc
      · cases hask
      · exact mem_middle.mpr (.inr hc)
  | refuse member before after error hp _ =>
      refine hruns.imp_right fun ⟨c, hc, hask⟩ => ⟨c, ?_, hask⟩
      rw [hp] at hc
      rcases mem_middle.mp hc with rfl | hc
      · cases hask
      · exact mem_middle.mpr (.inr hc)
  | join c before after pending answer hstage hp hanswer =>
      obtain ⟨c', hc', hask⟩ := hstaged hstage (by simp [Stage.ask])
      refine .inr ⟨c', ?_, hask⟩
      rw [hp] at hc'
      rcases mem_middle.mp hc' with rfl | hc'
      · simp [Contribution.answer, hask, hopen] at hanswer
      · exact hc'
  | joined pending hstage _ => exact hsilent _ hstage (by simp [Stage.ask])
  | mention source target pending followUps hstage _ => exact hsilent _ hstage (by simp [Stage.ask])
  | mentionRefused source target pending followUps error hstage _ _ =>
      exact hsilent _ hstage (by simp [Stage.ask])
  | mentionDone target ask' pending followUps answer hstage hanswer =>
      exact hsilent _ hstage (by simp [Stage.ask, hended hanswer])
  | capped first pending hstage => exact hsilent _ hstage (by simp [Stage.ask])
  | drained followUps hstage => exact hsilent _ hstage (by simp [Stage.ask])
  | report text next hstage =>
      refine hruns.imp_left fun hask => ?_
      rw [hstage] at hask
      exact hask

/-! ## The asks of a round -/

/-- The asks that a round waits for are asks in its room. Its contributions are cut off at
its start, and its other asks are not. -/
structure Manned (t : Turns) (round : Round) (p : Progress) : Prop where
  asking : ∀ c ∈ p.contributions, ∀ j, c.state = .asking j → ∃ a, t.asks[j]? = some a ∧
    a.roomId = round.roomId ∧ a.member = c.member ∧ a.roundStart = some round.roundStart
  staged : ∀ j, p.stage.ask = some j → ∃ a, t.asks[j]? = some a ∧
    a.roomId = round.roomId ∧ a.roundStart = none

theorem manned_launched : Manned t round .launched :=
  ⟨fun _ hc => absurd hc List.not_mem_nil, fun _ hj => by cases hj⟩

/-- Every ask is still there, with the arguments of its call. -/
def KeepsCalls (t t' : Turns) : Prop :=
  ∀ (j : ℕ) (a : Ask), t.asks[j]? = some a → ∃ b, t'.asks[j]? = some b ∧ SameCall a b

theorem Manned.keeps (h : Manned t round p) (hk : KeepsCalls t t') : Manned t' round p := by
  constructor
  · intro c hc j hj
    obtain ⟨a, ha, hroom, hmember, hstart⟩ := h.asking c hc j hj
    obtain ⟨b, hb, hcall⟩ := hk j a ha
    exact ⟨b, hb, hcall.roomId.trans hroom, hcall.member.trans hmember,
      hcall.roundStart.trans hstart⟩
  · intro j hj
    obtain ⟨a, ha, hroom, hstart⟩ := h.staged j hj
    obtain ⟨b, hb, hcall⟩ := hk j a ha
    exact ⟨b, hb, hcall.roomId.trans hroom, hcall.roundStart.trans hstart⟩

/-- A contribution that is being asked after a step was being asked before, or has just
been called. -/
theorem Advance.asking (h : Advance isAlphanumeric t members round p action p')
    {c : Contribution} (hc : c ∈ p'.contributions) {j : ℕ} (hj : c.state = .asking j) :
    c ∈ p.contributions ∨ j = t.asks.length ∧ ∃ prompt, action =
      .call c.member prompt .contribution (some round.roundStart) := by
  cases h with
  | spawn _ _ =>
      obtain ⟨m, _, rfl⟩ := List.mem_map.mp hc
      cases hj
  | contribute member before after hp =>
      rw [hp]
      rcases mem_middle.mp hc with rfl | hc
      · exact .inr ⟨(ContributionState.asking.inj hj).symm, _, rfl⟩
      · exact .inl (mem_middle.mpr (.inr hc))
  | refuse member before after error hp _ =>
      rw [hp]
      rcases mem_middle.mp hc with rfl | hc
      · cases hj
      · exact .inl (mem_middle.mpr (.inr hc))
  | join c' before after pending answer _ hp _ =>
      rw [hp]
      exact .inl (mem_middle.mpr (.inr hc))
  | _ => exact .inl hc

theorem settle_ask {member : String} {answer : Except ChatError String}
    {answered : String → Stage} {next : Stage} (hanswered : ∀ text, (answered text).ask = none)
    (hnext : next.ask = none) : (settle member answer answered next).ask = none :=
  settle_induction (P := fun stage => stage.ask = none) member answer hanswered fun _ => hnext

/-- The same for the ask that the round itself waits for. -/
theorem Advance.staged (h : Advance isAlphanumeric t members round p action p')
    {j : ℕ} (hj : p'.stage.ask = some j) : p.stage.ask = some j ∨
      j = t.asks.length ∧ ∃ member prompt turnKind, action =
        .call member prompt turnKind none := by
  have hsettled : ∀ {member : String} {answer : Except ChatError String}
      {answered : String → Stage} {next : Stage}, (∀ text, (answered text).ask = none) →
      next.ask = none → (settle member answer answered next).ask ≠ some j := by
    intro member answer answered next hanswered hnext hsome
    rw [settle_ask hanswered hnext] at hsome
    cases hsome
  cases h with
  | direct member rest _ _ _ => exact .inr ⟨(Option.some.inj hj).symm, _, _, _, rfl⟩
  | mention source target pending followUps _ _ =>
      exact .inr ⟨(Option.some.inj hj).symm, _, _, _, rfl⟩
  | contribute _ _ _ _ => exact .inl hj
  | refuse _ _ _ _ _ _ => exact .inl hj
  | directDone member ask answer _ _ => exact absurd hj (hsettled (fun _ => rfl) rfl)
  | join c before after pending answer _ _ _ => exact absurd hj (hsettled (fun _ => rfl) rfl)
  | mentionDone target ask pending followUps answer _ _ =>
      exact absurd hj (hsettled (fun _ => rfl) rfl)
  | report text next hstage =>
      left
      rw [hstage]
      exact hj
  | _ => cases hj

/-- A step without a call leaves the asks of the round as they are. -/
theorem Advance.manned (h : Advance isAlphanumeric t members round p action p')
    (hm : Manned t round p) (haction : ∀ member prompt turnKind roundStart,
      action ≠ .call member prompt turnKind roundStart) : Manned t round p' := by
  constructor
  · intro c hc j hj
    rcases h.asking hc hj with hold | ⟨_, prompt, hcall⟩
    · exact hm.asking c hold j hj
    · exact absurd hcall (haction _ _ _ _)
  · intro j hj
    rcases h.staged hj with hold | ⟨_, member, prompt, turnKind, hcall⟩
    · exact hm.staged j hold
    · exact absurd hcall (haction _ _ _ _)

/-- The ask that a round calls is the next one, and it waits for its member's turn. -/
theorem called_ask {member prompt : String} {turnKind : LlmChatTurnKind} {roundStart : Option ℕ}
    {roomId : ℕ}
    (h : TurnStep isAlphanumeric t (.call roomId member prompt turnKind roundStart) t') :
    ∃ a, t'.asks[t.asks.length]? = some a ∧ a.roomId = roomId ∧ a.member = member ∧
      a.turnKind = turnKind ∧ a.roundStart = roundStart ∧ a.phase = .queued := by
  cases h with
  | call _ _ target _ _ _ _ =>
      exact ⟨_, List.getElem?_concat_length, rfl, rfl, rfl, rfl, rfl⟩

theorem TurnStep.keepsCalls {event : TurnEvent} (h : TurnStep isAlphanumeric t event t') :
    KeepsCalls t t' := by
  intro j a ha
  obtain ⟨b, hb, hcall, _⟩ := h.keeps ha
  exact ⟨b, hb, hcall⟩

theorem Advance.manned_call {member prompt : String} {turnKind : LlmChatTurnKind}
    {roundStart : Option ℕ} (h : Advance isAlphanumeric t members round p
      (.call member prompt turnKind roundStart) p') (hm : Manned t round p)
    (hcall : TurnStep isAlphanumeric t (.call round.roomId member prompt turnKind roundStart) t') :
    Manned t' round p' := by
  have hkept := hm.keeps (TurnStep.keepsCalls hcall)
  obtain ⟨a, ha, hroom, hmember, _, hstart, _⟩ := called_ask hcall
  constructor
  · intro c hc j hj
    rcases h.asking hc hj with hold | ⟨rfl, prompt', he⟩
    · exact hkept.asking c hold j hj
    · cases he
      exact ⟨a, ha, hroom, hmember, hstart⟩
  · intro j hj
    rcases h.staged hj with hold | ⟨rfl, member', prompt', turnKind', he⟩
    · exact hkept.staged j hold
    · cases he
      exact ⟨a, ha, hroom, hstart⟩

/-! ## Whose contribution is still to come -/

/-- The member is going to contribute, and what it has to say has not been published. -/
def Progress.Expects (p : Progress) (published : ℕ → Prop) (round : Round) (member : String) :
    Prop :=
  p.stage.opens = true ∧ member ∈ round.members ∨
    ∃ c ∈ p.contributions, c.member = member ∧ ∀ j, c.state = .asking j → ¬published j

variable {published : ℕ → Prop} {member : String}

theorem Progress.Expects.mono {published' : ℕ → Prop} (h : p.Expects published' round member)
    (hmono : ∀ j, published j → published' j) : p.Expects published round member :=
  h.imp_right fun ⟨c, hc, he, hj⟩ => ⟨c, hc, he, fun j hs hp => hj j hs (hmono j hp)⟩

/-- The state of one contribution moves on, and its member was expected before. -/
theorem Progress.Expects.replace {m : String} {state : ContributionState}
    {before after : List Contribution} {q : Progress}
    (hp : p.contributions = before ++ ⟨m, .spawned⟩ :: after)
    (hq : q.contributions = before ++ ⟨m, state⟩ :: after) (hstage : q.stage = p.stage)
    (h : q.Expects published round member) : p.Expects published round member := by
  rcases h with ⟨hopens, hmember⟩ | ⟨c, hc, he, hj⟩
  · exact .inl ⟨hstage ▸ hopens, hmember⟩
  · right
    rw [hq] at hc
    rw [hp]
    rcases mem_middle.mp hc with rfl | hc
    · exact ⟨⟨m, .spawned⟩, mem_middle.mpr (.inl rfl), he, fun j hj => by cases hj⟩
    · exact ⟨c, mem_middle.mpr (.inr hc), he, hj⟩

/-- No step of a round makes it expect somebody new. -/
theorem Advance.expects (h : Advance isAlphanumeric t members round p action p')
    (he : p'.Expects published round member) : p.Expects published round member := by
  have hclosed : ∀ {stage : Stage}, stage.opens = false →
      (p.to stage).Expects published round member → p.Expects published round member := by
    intro stage hopens he
    refine .inr (he.resolve_left fun hstage => ?_)
    exact absurd (hopens.symm.trans hstage.1) (by decide)
  have hsettled : ∀ (m : String) (answer : Except ChatError String) {answered : String → Stage}
      {next : Stage}, (∀ text, (answered text).opens = false) → next.opens = false →
      (settle m answer answered next).opens = false := fun m answer _ _ hanswered hnext =>
    settle_induction (P := fun stage => stage.opens = false) m answer hanswered fun _ => hnext
  cases h with
  | direct _ _ _ _ _ => exact hclosed rfl he
  | directRefused _ _ _ _ _ _ _ => exact hclosed rfl he
  | directDone m ask answer _ _ => exact hclosed (hsettled m answer (fun _ => rfl) rfl) he
  | spawn hstage _ =>
      rcases he with ⟨hopens, _⟩ | ⟨c, hc, rfl, _⟩
      · cases hopens
      · obtain ⟨m, hm, rfl⟩ := List.mem_map.mp hc
        exact .inl ⟨by rw [hstage]; rfl, hm⟩
  | contribute m before after hp => exact he.replace hp (by rfl) (by rfl)
  | refuse m before after error hp _ => exact he.replace hp (by rfl) (by rfl)
  | join c before after pending answer hstage hp _ =>
      rcases he with ⟨hopens, _⟩ | ⟨c', hc', he, hj⟩
      · have hnot : (settle c.member answer (fun text =>
            .joining (enqueueMentions isAlphanumeric pending c.member text p.allMembers))
            (.joining pending)).opens = false := hsettled c.member answer (fun _ => rfl) rfl
        exact absurd (hnot.symm.trans hopens) (by decide)
      · refine .inr ⟨c', ?_, he, hj⟩
        rw [hp]
        exact mem_middle.mpr (.inr hc')
  | joined _ _ _ => exact hclosed rfl he
  | mention _ _ _ _ _ _ => exact hclosed rfl he
  | mentionRefused _ _ _ _ _ _ _ _ => exact hclosed rfl he
  | mentionDone target ask pending followUps answer _ _ =>
      exact hclosed (hsettled target answer (fun _ => rfl) rfl) he
  | capped _ _ _ => exact hclosed rfl he
  | drained _ _ => exact hclosed rfl he
  | report text next hstage =>
      refine he.imp_left fun ⟨hopens, hmember⟩ => ⟨?_, hmember⟩
      rw [hstage]
      exact hopens

/-- A round that waits for an ask of its own expects nobody. -/
theorem Sound.expects_none (hs : Sound members round p) {i : ℕ} (hask : p.stage.ask = some i) :
    ¬p.Expects published round member := by
  obtain ⟨hopens, hjoins⟩ := Stage.quiet_of_ask hask
  rintro (⟨hstage, _⟩ | ⟨c, hc, _⟩)
  · exact absurd (hopens.symm.trans hstage) (by decide)
  · rw [hs.alone hjoins] at hc
    exact absurd hc List.not_mem_nil

/-- A round whose running ask publishes expects the other contributors only. -/
theorem expects_published (hs : Sound members round p) {i : ℕ} {a : Ask} (hm : Manned t round p)
    (ha : t.asks[i]? = some a) (hruns : p.Runs i)
    (he : p.Expects (fun j => published j ∨ j = i) round member) : member ≠ a.member := by
  rcases hruns with hask | ⟨c, hc, hask⟩
  · exact absurd he (hs.expects_none hask)
  · have hjoins : p.stage.joins = true := by
      rw [← Bool.not_eq_false]
      intro hjoins
      rw [hs.alone hjoins] at hc
      exact absurd hc List.not_mem_nil
    obtain ⟨b, hb, _, hmember, _⟩ := hm.asking c hc i hask
    obtain rfl := Option.some.inj (ha.symm.trans hb)
    rcases he with ⟨hstage, _⟩ | ⟨c', hc', rfl, hj⟩
    · exact absurd ((Stage.opens_of_joins hjoins).symm.trans hstage) (by decide)
    · intro hsame
      have he : c' = c := List.inj_on_of_nodup_map hs.distinct hc' hc (hsame.trans hmember)
      rw [he] at hj
      exact hj i hask (.inr rfl)

end

end NormaHarness.Rounds
