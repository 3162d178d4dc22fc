import NormaHarness.RoundProgress

/-!
# What every state of a session satisfies

Rounds in flight are where their asks say they are, every ask that has not ended has a
round in flight that waits for it, and the answers that were published stand in the
rooms. A round that still expects the contribution of a member has no answer of this
member after its start.
-/
namespace NormaHarness.Rounds
open Std Identifiers Contracts LlmProtocol Chat Asks FilePrograms

/-- A message that a member has said itself. -/
def IsAnswer (member : String) (m : ChatMessage) : Prop :=
  m.author = member ∧ (m.role = "agent" ∨ m.role = "summary")

theorem askAnswer_role {isAlphanumeric : Char → Bool} {turnKind : LlmChatTurnKind}
    {result : LlmTurnResult} {answer : Answer}
    (h : askAnswer isAlphanumeric turnKind result = .ok answer) :
    answer.role = "agent" ∨ answer.role = "summary" := by
  unfold askAnswer at h
  split_ifs at h
  split at h
  · cases h
  · obtain rfl := Except.ok.inj h
    simp only
    split_ifs
    · exact .inr rfl
    · exact .inl rfl

/-! ## The parts of the invariant -/

/-- The member of an ask is a member of its room. A contribution has a cut-off, the start of a
round there, and no other ask has one. -/
structure Seated (c : ChatResident) (a : Ask) : Prop where
  room : ∃ room, c.rooms.get a.roomId = some room ∧ a.member ∈ room.members ∧
    ∀ start, a.roundStart = some start → OpenedBy start room
  begun : ∀ start, a.roundStart = some start → start < c.nextMessage
  cut : a.turnKind = .contribution ↔ a.roundStart.isSome

theorem Seated.extends {c c' : ChatResident} {a b : Ask} (h : Seated c a) (he : Extends c c')
    (hcall : SameCall a b) : Seated c' b := by
  obtain ⟨room, hroom, hmember, hopened⟩ := h.room
  obtain ⟨room', hroom', hgrown⟩ := he.kept a.roomId room hroom
  refine ⟨⟨room', by rw [hcall.roomId, hroom'], ?_, fun start hstart => ?_⟩, fun start hstart => ?_,
    ?_⟩
  · rw [hcall.member, hgrown.members]
    exact hmember
  · rw [hcall.roundStart] at hstart
    exact (hopened start hstart).grown hgrown (h.begun start hstart)
  · rw [hcall.roundStart] at hstart
    exact (h.begun start hstart).trans_le he.nextMessage_le
  · rw [hcall.turnKind, hcall.roundStart]
    exact h.cut

/-- The member has said nothing in the room since the round began. -/
def Unheard (c : ChatResident) (round : Round) (member : String) : Prop :=
  ∀ record, c.rooms.record round.roomId = some record →
    ∀ m ∈ record.messages, round.roundStart < m.id → ¬IsAnswer member m

structure Underway (s : Session) (round : Round) : Prop where
  placed : Placed s.world.chat round
  sound : Sound (s.roomMembers round.roomId) round (s.progress round)
  manned : Manned s.turns round (s.progress round)
  unheard : ∀ member, (s.progress round).Expects s.IsPublished round member →
    Unheard s.world.chat round member

/-- A published answer, in the room of its ask. -/
structure Entered (isAlphanumeric : Char → Bool) (s : Session) (p : Publication) (a : Ask) :
    Prop where
  asked : s.turns.asks[p.ask]? = some a
  answer : ∃ request result answer, a.phase.CompletedWith request result ∧
    askAnswer isAlphanumeric a.turnKind result = .ok answer ∧ p.message.text = answer.text
  isAnswer : IsAnswer a.member p.message
  kept : ∃ room, s.world.chat.rooms.get a.roomId = some room ∧ p.message ∈ room.messages
  newer : ∀ start, a.roundStart = some start → start < p.message.id

structure Consistent (isAlphanumeric : Char → Bool) (s : Session) : Prop where
  fresh : Fresh s.world
  lifecycle : Lifecycle s.world
  rostered : Rostered s.world
  serial : Serial s.turns
  seated : ∀ (i : ℕ) (a : Ask), s.turns.asks[i]? = some a → Seated s.world.chat a
  underway : ∀ round ∈ s.world.rounds, Underway s round
  owned : ∀ (i : ℕ) (a : Ask), s.turns.asks[i]? = some a → answerOf a.phase = none →
    ∃ round ∈ s.world.rounds, round.roomId = a.roomId ∧ (s.progress round).Runs i
  entered : ∀ p ∈ s.published, ∃ a, Entered isAlphanumeric s p a
  concluded : ∀ (i : ℕ) (a : Ask) (request : LlmTurnRequest) (result : LlmTurnResult)
    (text : String), s.turns.asks[i]? = some a → a.phase = .returned request result (.ok text) →
      ∃ p ∈ s.published, p.ask = i ∧ p.message.text = text

section

variable {isAlphanumeric : Char → Bool} {s s' : Session} {event : Event}

/-! ## The world and the asks under one step -/

/-- A step that changes the rooms is an operation of the coordinator. -/
theorem Step.world (h : Step isAlphanumeric s event s') (hc : Consistent isAlphanumeric s) :
    s'.world = s.world ∨ ∃ op, ChatStep isAlphanumeric s.world op s'.world := by
  cases h with
  | client op w _ hstep => exact .inr ⟨op, hstep⟩
  | mark round member w hstep => exact .inr ⟨_, hstep⟩
  | abandon round w _ _ hstep => exact .inr ⟨_, hstep⟩
  | report round p text faults clock hround _ =>
      exact .inr ⟨_, pushed_step isAlphanumeric hround rfl faults clock "error" "系统" text []⟩
  | finish round faults now w _ hstep => exact .inr ⟨_, hstep⟩
  | publish i a request result answer faults clock ha hphase _ _ =>
      obtain ⟨round, hround, hid, _⟩ := hc.owned i a ha (by rw [hphase]; rfl)
      exact .inr ⟨_, pushed_step isAlphanumeric hround hid faults clock answer.role a.member
        answer.text answer.attachments⟩
  | _ => exact .inl rfl

theorem Step.extends (h : Step isAlphanumeric s event s') (hc : Consistent isAlphanumeric s) :
    Extends s.world.chat s'.world.chat := by
  rcases h.world hc with hw | ⟨op, hop⟩
  · rw [hw]
    exact .refl _
  · exact (hop.fresh hc.fresh).2

theorem Step.rooms (h : Step isAlphanumeric s event s') (hc : Consistent isAlphanumeric s) :
    Fresh s'.world ∧ Lifecycle s'.world ∧ Rostered s'.world := by
  rcases h.world hc with hw | ⟨op, hop⟩
  · rw [hw]
    exact ⟨hc.fresh, hc.lifecycle, hc.rostered⟩
  · exact ⟨(hop.fresh hc.fresh).1, hc.lifecycle.step hc.fresh hop,
      hop.rostered hc.fresh hc.rostered⟩

theorem Step.turns (h : Step isAlphanumeric s event s') :
    s'.turns = s.turns ∨ ∃ e, TurnStep isAlphanumeric s.turns e s'.turns := by
  cases h with
  | call round p member prompt turnKind roundStart t _ _ hstep => exact .inr ⟨_, hstep⟩
  | ask e t _ hstep => exact .inr ⟨e, hstep⟩
  | snapshot i t hstep => exact .inr ⟨_, hstep⟩
  | conclude i a request result t _ _ _ hstep => exact .inr ⟨_, hstep⟩
  | _ => exact .inl rfl

theorem Step.serial (h : Step isAlphanumeric s event s') (hs : Serial s.turns) :
    Serial s'.turns := by
  rcases h.turns with ht | ⟨e, ht⟩
  · rw [ht]
    exact hs
  · exact ht.serial hs

theorem Step.keeps (h : Step isAlphanumeric s event s') {i : ℕ} {a : Ask}
    (ha : s.turns.asks[i]? = some a) : ∃ b, s'.turns.asks[i]? = some b ∧ SameCall a b ∧
      (b.phase = a.phase ∨ ∃ e, Moves i a.phase e b.phase) := by
  rcases h.turns with ht | ⟨e, ht⟩
  · rw [ht]
    exact ⟨a, ha, .refl a, .inl rfl⟩
  · obtain ⟨b, hb, hcall, hphase⟩ := ht.keeps ha
    exact ⟨b, hb, hcall, hphase.imp_right fun hmove => ⟨e, hmove⟩⟩

theorem Step.keepsCalls (h : Step isAlphanumeric s event s') : KeepsCalls s.turns s'.turns := by
  intro i a ha
  obtain ⟨b, hb, hcall, _⟩ := h.keeps ha
  exact ⟨b, hb, hcall⟩

/-- An ask after a step is an older one or the one that a round has just called. -/
theorem Step.asked (h : Step isAlphanumeric s event s') {i : ℕ} {b : Ask}
    (hb : s'.turns.asks[i]? = some b) :
    (∃ a, s.turns.asks[i]? = some a ∧ SameCall a b ∧
      (b.phase = a.phase ∨ ∃ e, Moves i a.phase e b.phase)) ∨
    ∃ round ∈ s.world.rounds, ∃ prompt p, i = s.turns.asks.length ∧ b.phase = .queued ∧
      b.roomId = round.roomId ∧
      Advance isAlphanumeric s.turns (s.roomMembers round.roomId) round (s.progress round)
        (.call b.member prompt b.turnKind b.roundStart) p ∧ s'.progress round = p ∧
      s'.world = s.world := by
  cases hold : s.turns.asks[i]? with
  | some a =>
      obtain ⟨c, hc, hcall, hphase⟩ := h.keeps hold
      obtain rfl := Option.some.inj (hb.symm.trans hc)
      exact .inl ⟨a, rfl, hcall, hphase⟩
  | none =>
      right
      have hnot : s'.turns ≠ s.turns := by
        intro ht
        rw [ht, hold] at hb
        cases hb
      cases h with
      | call round p member prompt turnKind roundStart t hround hadvance hstep =>
          obtain ⟨hi, hqueued, prompt', he⟩ := hstep.called hb hold
          obtain ⟨hroom, rfl, rfl, rfl, rfl⟩ := TurnEvent.call.inj he
          exact ⟨round, hround, prompt, p, hi, hqueued, hroom.symm, hadvance,
            Function.update_self _ _ _, rfl⟩
      | ask e t hinner hstep =>
          obtain ⟨_, _, prompt, rfl⟩ := hstep.called hb hold
          exact absurd hinner id
      | snapshot j t hstep =>
          obtain ⟨_, _, prompt, he⟩ := hstep.called hb hold
          cases he
      | conclude j a request result t _ _ _ hstep =>
          obtain ⟨_, _, prompt, he⟩ := hstep.called hb hold
          cases he
      | _ => exact absurd rfl hnot

/-! ## Rounds in flight -/

theorem roomMembers_eq {id : ℕ} {room : ChatRoom} (hroom : s.world.chat.rooms.get id = some room) :
    s.roomMembers id = room.members := by
  unfold Session.roomMembers
  rw [hroom]
  rfl

theorem roomMembers_extends {id : ℕ} {room : ChatRoom}
    (hroom : s.world.chat.rooms.get id = some room) (he : Extends s.world.chat s'.world.chat) :
    s'.roomMembers id = s.roomMembers id := by
  obtain ⟨room', hroom', hgrown⟩ := he.kept id room hroom
  rw [roomMembers_eq hroom, roomMembers_eq hroom', hgrown.members]

/-- A round stays in order under a step that lets those be unheard whom it expects. -/
theorem Underway.of_progress {round : Round} (h : Underway s round)
    (he : Extends s.world.chat s'.world.chat)
    (hsound : Sound (s.roomMembers round.roomId) round (s'.progress round))
    (hmanned : Manned s'.turns round (s'.progress round))
    (hunheard : ∀ member, (s'.progress round).Expects s'.IsPublished round member →
      Unheard s'.world.chat round member) : Underway s' round := by
  obtain ⟨room, hroom, _⟩ := h.placed.room
  refine ⟨h.placed.extends he, ?_, hmanned, hunheard⟩
  rw [roomMembers_extends hroom he]
  exact hsound

/-- A step of somebody else that says nothing new in the room of the round. -/
theorem Underway.frame {round : Round} (h : Underway s round)
    (he : Extends s.world.chat s'.world.chat) (hturns : KeepsCalls s.turns s'.turns)
    (hprogress : s'.progress round = s.progress round)
    (hpublished : ∀ j, s.IsPublished j → s'.IsPublished j)
    (hunheard : ∀ member, Unheard s.world.chat round member →
      Unheard s'.world.chat round member) : Underway s' round := by
  refine h.of_progress he (hprogress ▸ h.sound) (hprogress ▸ h.manned.keeps hturns) ?_
  intro member hexpects
  rw [hprogress] at hexpects
  exact hunheard member (h.unheard member (hexpects.mono hpublished))

/-- A step of the asks alone. -/
theorem Underway.asks {round : Round} (h : Underway s round) {t : Turns}
    (hturns : KeepsCalls s.turns t) : Underway {s with turns := t} round :=
  h.frame (.refl s.world.chat) hturns rfl (fun _ hj => hj) fun _ hunheard => hunheard

theorem Unheard.of_record {c c' : ChatResident} {round : Round} {member : String}
    (h : Unheard c round member)
    (hrecord : c'.rooms.record round.roomId = c.rooms.record round.roomId) :
    Unheard c' round member := by
  intro record hget
  rw [hrecord] at hget
  exact h record hget

/-- A push is no answer of the member, or goes to another room. -/
theorem Unheard.pushed {w : World} {round : Round} {member : String}
    (h : Unheard w.chat round member) (faults : SnapshotFaults) (clock : Clock) {id : ℕ}
    {role author text : String} {media : List Media.MediaAsset}
    (hother : id = round.roomId → ¬IsAnswer member
      (newMessage w.chat role author text media clock.createdAt)) :
    Unheard (w.pushed faults clock id role author text media).chat round member := by
  cases hroom : w.chat.rooms.get id with
  | none =>
      have hsame : (w.pushed faults clock id role author text media).chat = w.chat := by
        simp only [World.pushed, pushMessageWithMedia, hroom]
      rw [hsame]
      exact h
  | some room =>
      intro record hrecord m hm hnew
      rw [pushed_records w faults clock role author text media hroom] at hrecord
      by_cases hid : round.roomId = id
      · subst hid
        rw [Function.update_self] at hrecord
        obtain rfl := Option.some.inj hrecord
        rcases List.mem_append.mp hm with hm | hm
        · exact h room.record (record_of_get hroom) m hm hnew
        · rw [List.mem_singleton.mp hm]
          exact hother rfl
      · rw [Function.update_of_ne hid] at hrecord
        exact h record hrecord m hm hnew

theorem error_not_answer {member author text : String} {c : ChatResident}
    {media : List Media.MediaAsset} {now : ℕ} :
    ¬IsAnswer member (newMessage c "error" author text media now) := by
  have hagent : "error" ≠ "agent" := by decide
  have hsummary : "error" ≠ "summary" := by decide
  rintro ⟨_, hrole | hrole⟩
  · exact hagent hrole
  · exact hsummary hrole

/-- A step of one round, seen by this round and by the others. -/
theorem Underway.moved (hc : Consistent isAlphanumeric s) {round other : Round} {p : Progress}
    {action : Action} (hround : round ∈ s.world.rounds) (hother : other ∈ s.world.rounds)
    (hadvance : Advance isAlphanumeric s.turns (s.roomMembers round.roomId) round
      (s.progress round) action p)
    (he : Extends s.world.chat s'.world.chat) (hturns : KeepsCalls s.turns s'.turns)
    (hprogress : s'.progress = Function.update s.progress round p)
    (hmanned : Manned s'.turns round p) (hpublished : s'.published = s.published)
    (hunheard : ∀ member, Unheard s.world.chat other member →
      Unheard s'.world.chat other member) : Underway s' other := by
  have h := hc.underway other hother
  have hsame : s'.IsPublished = s.IsPublished := by
    funext j
    unfold Session.IsPublished
    rw [hpublished]
  by_cases hne : other = round
  · subst hne
    have hp : s'.progress other = p := by rw [hprogress, Function.update_self]
    have hsound := hadvance.sound h.sound h.placed.distinct
    refine h.of_progress he (hp ▸ hsound) (hp ▸ hmanned) fun member hexpects => ?_
    rw [hp, hsame] at hexpects
    exact hunheard member (h.unheard member (hadvance.expects hexpects))
  · have hp : s'.progress other = s.progress other := by
      rw [hprogress, Function.update_of_ne hne]
    refine h.frame he hturns hp (fun j hj => ?_) hunheard
    rw [hsame]
    exact hj

theorem Step.underway (h : Step isAlphanumeric s event s') (hc : Consistent isAlphanumeric s) :
    ∀ round ∈ s'.world.rounds, Underway s' round := by
  have he := h.extends hc
  have hkeeps := h.keepsCalls
  have hrecord : ∀ {op : ChatOp} {w : World} {round : Round}, round ∈ s.world.rounds →
      ChatStep isAlphanumeric s.world op w → op.message s.world.chat = none →
      w.chat.rooms.record round.roomId = s.world.chat.rooms.record round.roomId := by
    intro op w round hround hstep hmessage
    obtain ⟨room, hroom, _⟩ := (hc.underway round hround).placed.room
    have heffect := hstep.effect hc.fresh
    rw [hmessage] at heffect
    exact heffect.record_eq hroom
  cases h with
  | client op w hop hstep =>
      intro round hround
      by_cases hold : round ∈ s.world.rounds
      · exact (hc.underway round hold).frame he hkeeps (if_pos hold) (fun j hj => hj) fun _ h =>
          h.of_record (client_record hop hstep hc.fresh hc.lifecycle hold)
      · obtain ⟨hplaced, hnewest⟩ :=
          (client_rounds hop hstep hc.fresh hc.rostered round hround).resolve_left hold
        have hp : s.opened round = .launched := if_neg hold
        refine ⟨hplaced, ?_, ?_, fun member _ record hget m hm hnew => ?_⟩
        · simp only [hp]
          exact sound_launched
        · simp only [hp]
          exact manned_launched
        · exact absurd hnew (Nat.not_lt_of_le (hnewest record hget m hm))
  | mark round member w hstep =>
      intro other hother
      obtain rfl := hstep.2
      exact (hc.underway other hother).frame he hkeeps rfl (fun j hj => hj) fun _ h =>
        h.of_record (hrecord hother hstep rfl)
  | abandon round w _ _ hstep =>
      intro other hother
      obtain rfl := hstep.2
      exact (hc.underway other (List.mem_of_mem_erase hother)).frame he hkeeps rfl
        (fun j hj => hj) fun _ h => h
  | proceed round p hround hadvance =>
      intro other hother
      have hmanned := hadvance.manned (hc.underway round hround).manned fun _ _ _ _ h => by cases h
      exact Underway.moved hc hround hother hadvance he hkeeps rfl hmanned rfl fun _ h => h
  | call round p member prompt turnKind roundStart t hround hadvance hstep =>
      intro other hother
      have hmanned := hadvance.manned_call (hc.underway round hround).manned hstep
      exact Underway.moved hc hround hother hadvance he hkeeps rfl hmanned rfl fun _ h => h
  | report round p text faults clock hround hadvance =>
      intro other hother
      have hmanned := hadvance.manned (hc.underway round hround).manned fun _ _ _ _ h => by cases h
      exact Underway.moved hc hround hother hadvance he hkeeps rfl hmanned rfl fun _ h =>
        h.pushed faults clock fun _ => error_not_answer
  | finish round faults now w _ hstep =>
      intro other hother
      obtain rfl := hstep.2
      have hold := List.mem_of_mem_erase hother
      exact (hc.underway other hold).frame he hkeeps rfl (fun j hj => hj) fun _ h =>
        h.of_record (hrecord hold hstep rfl)
  | publish i a request result answer faults clock ha hphase _ _ =>
      intro other hother
      have hpublished : ∀ j, s.IsPublished j ∨ j = i ↔ ∃ p ∈ s.published ++
          [⟨i, answerMessage s a answer clock⟩], p.ask = j := by
        intro j
        simp [Session.IsPublished, or_and_right, exists_or, eq_comm]
      have hu := hc.underway other hother
      refine hu.of_progress he hu.sound hu.manned fun member hexpects => ?_
      have hexpects' := hexpects.mono fun j => (hpublished j).mp
      refine (hu.unheard member (hexpects'.mono fun j => Or.inl)).pushed faults clock fun hid => ?_
      obtain ⟨round, hround, hroom, hruns⟩ := hc.owned i a ha (by rw [hphase]; rfl)
      obtain rfl := hc.lifecycle.eq_of_room hround hother (hroom.trans hid)
      rintro ⟨hauthor, _⟩
      exact expects_published hu.sound hu.manned ha hruns hexpects' hauthor.symm
  | ask e t _ _ => exact fun round hround => (hc.underway round hround).asks hkeeps
  | snapshot i t _ => exact fun round hround => (hc.underway round hround).asks hkeeps
  | conclude i a request result t _ _ _ _ =>
      exact fun round hround => (hc.underway round hround).asks hkeeps

/-! ## Asks in progress -/

theorem Step.seated (h : Step isAlphanumeric s event s') (hc : Consistent isAlphanumeric s) {i : ℕ}
    {b : Ask} (hb : s'.turns.asks[i]? = some b) : Seated s'.world.chat b := by
  rcases h.asked hb with ⟨a, ha, hcall, _⟩ |
    ⟨round, hround, prompt, p, _, _, hroomId, hadvance, _, hworld⟩
  · exact (hc.seated i a ha).extends (h.extends hc) hcall
  · have hu := hc.underway round hround
    obtain ⟨room, hroom, hmembers, hopened⟩ := hu.placed.room
    have hmember : b.member ∈ s.roomMembers round.roomId :=
      hadvance.called_member hu.sound (by rw [roomMembers_eq hroom]; exact hmembers)
    rw [roomMembers_eq hroom] at hmember
    have hstart : ∀ start, b.roundStart = some start → start = round.roundStart := by
      intro start he
      rcases hadvance.called_start with ⟨_, hsome⟩ | ⟨_, hnone⟩
      · exact Option.some.inj (he.symm.trans hsome)
      · rw [hnone] at he
        cases he
    rw [hworld]
    refine ⟨⟨room, by rw [hroomId, hroom], hmember, fun start he => ?_⟩, fun start he => ?_, ?_⟩
    · exact hstart start he ▸ hopened
    · exact hstart start he ▸ hu.placed.begun
    · rcases hadvance.called_start with ⟨hkind, hsome⟩ | ⟨hnot, hnone⟩
      · exact iff_of_true hkind (hsome ▸ rfl)
      · exact iff_of_false hnot (by rw [hnone]; exact Bool.false_ne_true)

theorem not_runs_of_idle {round : Round} (h : Underway s round) {stage : Stage}
    (hstage : (s.progress round).stage = stage) (hjoins : stage.joins = false)
    (hask : stage.ask = none) (i : ℕ) : ¬(s.progress round).Runs i := by
  subst hstage
  rintro (hi | ⟨c, hmem, _⟩)
  · rw [hask] at hi
    cases hi
  · rw [h.sound.alone hjoins] at hmem
    exact List.not_mem_nil hmem

/-- A round stays in flight while it waits for an ask that has not ended. -/
theorem Step.keepsOwner (h : Step isAlphanumeric s event s') (hc : Consistent isAlphanumeric s)
    {round : Round} (hround : round ∈ s.world.rounds) {i : ℕ}
    (hopen : resultOf s.turns i = none) (hruns : (s.progress round).Runs i) :
    round ∈ s'.world.rounds ∧ (s'.progress round).Runs i := by
  have hmoved : ∀ {other : Round} {p : Progress} {action : Action},
      Advance isAlphanumeric s.turns (s.roomMembers other.roomId) other (s.progress other)
        action p → (Function.update s.progress other p round).Runs i := by
    intro other p action hadvance
    by_cases hne : round = other
    · subst hne
      rw [Function.update_self]
      exact hadvance.runs (hc.underway round hround).sound hopen hruns
    · rw [Function.update_of_ne hne]
      exact hruns
  cases h with
  | client op w hop hstep =>
      refine ⟨client_keeps_rounds hop hstep round hround, ?_⟩
      have hp : s.opened round = s.progress round := if_pos hround
      simp only [hp]
      exact hruns
  | mark other member w hstep =>
      obtain rfl := hstep.2
      exact ⟨hround, hruns⟩
  | abandon other w hstage _ hstep =>
      have hne : round ≠ other := by
        rintro rfl
        exact not_runs_of_idle (hc.underway round hround) hstage rfl rfl i hruns
      obtain rfl := hstep.2
      exact ⟨(List.mem_erase_of_ne hne).mpr hround, hruns⟩
  | proceed other p _ hadvance => exact ⟨hround, hmoved hadvance⟩
  | call other p member prompt turnKind roundStart t _ hadvance _ =>
      exact ⟨hround, hmoved hadvance⟩
  | report other p text faults clock _ hadvance => exact ⟨hround, hmoved hadvance⟩
  | finish other faults now w hstage hstep =>
      have hne : round ≠ other := by
        rintro rfl
        exact not_runs_of_idle (hc.underway round hround) hstage rfl rfl i hruns
      obtain rfl := hstep.2
      exact ⟨(List.mem_erase_of_ne hne).mpr hround, hruns⟩
  | _ => exact ⟨hround, hruns⟩

theorem answerOf_of_moves {i : ℕ} {phase phase' : AskPhase} {e : TurnEvent}
    (h : Moves i phase e phase') : answerOf phase = none := by
  cases h <;> rfl

theorem Step.owned (h : Step isAlphanumeric s event s') (hc : Consistent isAlphanumeric s) {i : ℕ}
    {b : Ask} (hb : s'.turns.asks[i]? = some b) (hopen : answerOf b.phase = none) :
    ∃ round ∈ s'.world.rounds, round.roomId = b.roomId ∧ (s'.progress round).Runs i := by
  rcases h.asked hb with ⟨a, ha, hcall, hphase⟩ |
    ⟨round, hround, prompt, p, hi, _, hroomId, hadvance, hp, hworld⟩
  · have hnone : answerOf a.phase = none := by
      rcases hphase with hsame | ⟨e, hmove⟩
      · exact hsame ▸ hopen
      · exact answerOf_of_moves hmove
    obtain ⟨round, hround, hroom, hruns⟩ := hc.owned i a ha hnone
    have hresult : resultOf s.turns i = none := by
      unfold resultOf
      rw [ha]
      exact hnone
    obtain ⟨hround', hruns'⟩ := h.keepsOwner hc hround hresult hruns
    exact ⟨round, hround', hroom.trans hcall.roomId.symm, hruns'⟩
  · refine ⟨round, hworld ▸ hround, hroomId.symm, ?_⟩
    rw [hp, hi]
    exact hadvance.runs_called

/-! ## Published answers -/

theorem Moves.completedWith {i : ℕ} {phase phase' : AskPhase} {e : TurnEvent}
    (h : Moves i phase e phase') {request : LlmTurnRequest} {result : LlmTurnResult}
    (hdone : phase.CompletedWith request result) : phase'.CompletedWith request result := by
  cases h with
  | conclude r s answer => exact hdone
  | _ => exact absurd hdone id

theorem Moves.to_returned {i : ℕ} {phase : AskPhase} {e : TurnEvent} {request : LlmTurnRequest}
    {result : LlmTurnResult} {answer : Except ChatError String}
    (h : Moves i phase e (.returned request result answer)) : e = .conclude i := by
  cases h with
  | conclude _ _ _ => rfl

theorem Step.keepsEntered (h : Step isAlphanumeric s event s') (hc : Consistent isAlphanumeric s)
    {p : Publication} {a : Ask} (ha : Entered isAlphanumeric s p a) :
    ∃ b, Entered isAlphanumeric s' p b := by
  obtain ⟨b, hb, hcall, hphase⟩ := h.keeps ha.asked
  obtain ⟨request, result, answer, hdone, hanswer, htext⟩ := ha.answer
  obtain ⟨room, hroom, hmem⟩ := ha.kept
  obtain ⟨room', hroom', hgrown⟩ := (h.extends hc).kept a.roomId room hroom
  obtain ⟨later, hlater, _⟩ := hgrown.messages
  refine ⟨b, hb, ⟨request, result, answer, ?_, ?_, htext⟩, ?_, ⟨room', ?_, ?_⟩, ?_⟩
  · rcases hphase with hsame | ⟨e, hmove⟩
    · exact hsame ▸ hdone
    · exact Moves.completedWith hmove hdone
  · rw [hcall.turnKind]
    exact hanswer
  · rw [hcall.member]
    exact ha.isAnswer
  · rw [hcall.roomId]
    exact hroom'
  · rw [hlater]
    exact List.mem_append_left _ hmem
  · rw [hcall.roundStart]
    exact ha.newer

theorem Step.entered (h : Step isAlphanumeric s event s') (hc : Consistent isAlphanumeric s) :
    ∀ p ∈ s'.published, ∃ a, Entered isAlphanumeric s' p a := by
  have hold : ∀ p ∈ s.published, ∃ a, Entered isAlphanumeric s' p a := by
    intro p hp
    obtain ⟨a, ha⟩ := hc.entered p hp
    exact h.keepsEntered hc ha
  cases h with
  | publish i a request result answer faults clock ha hphase hanswer _ =>
      intro p hp
      rcases List.mem_append.mp hp with hp | hp
      · exact hold p hp
      · obtain rfl := List.mem_singleton.mp hp
        have hseated := hc.seated i a ha
        obtain ⟨room, hroom, _⟩ := hseated.room
        have hrecords := pushed_records s.world faults clock answer.role a.member answer.text
          answer.attachments hroom
        obtain ⟨room', hroom', hrecord⟩ := exists_of_record
          ((congrFun hrecords a.roomId).trans (Function.update_self _ _ _))
        refine ⟨a, ha, ⟨request, result, answer, ?_, hanswer, rfl⟩, ⟨rfl, askAnswer_role hanswer⟩,
          ⟨room', hroom', ?_⟩, hseated.begun⟩
        · rw [hphase]
          exact ⟨rfl, rfl⟩
        · rw [show room'.messages = _ from congrArg RoomRecord.messages hrecord]
          exact List.mem_append_right _ List.mem_cons_self
  | _ => exact hold

/-- What was published for an ask is what its result says. -/
theorem Consistent.entered_text (hc : Consistent isAlphanumeric s) {p : Publication}
    (hp : p ∈ s.published) {a : Ask} (ha : s.turns.asks[p.ask]? = some a)
    {request : LlmTurnRequest} {result : LlmTurnResult} {answer : Answer}
    (hphase : a.phase = .completed request result)
    (hanswer : askAnswer isAlphanumeric a.turnKind result = .ok answer) :
    p.message.text = answer.text := by
  obtain ⟨b, hb⟩ := hc.entered p hp
  obtain rfl := Option.some.inj (ha.symm.trans hb.asked)
  obtain ⟨r, result', answer', hdone, hanswer', htext⟩ := hb.answer
  rw [hphase] at hdone
  obtain ⟨_, rfl⟩ := hdone
  obtain rfl := Except.ok.inj (hanswer.symm.trans hanswer')
  exact htext

theorem Step.concluded (h : Step isAlphanumeric s event s') (hc : Consistent isAlphanumeric s)
    {i : ℕ} {b : Ask} {request : LlmTurnRequest} {result : LlmTurnResult} {text : String}
    (hb : s'.turns.asks[i]? = some b) (hphase : b.phase = .returned request result (.ok text)) :
    ∃ p ∈ s'.published, p.ask = i ∧ p.message.text = text := by
  have hold : ∀ {t : Turns} {e : TurnEvent}, TurnStep isAlphanumeric s.turns e t →
      t.asks[i]? = some b → e ≠ .conclude i →
      ∃ p ∈ s.published, p.ask = i ∧ p.message.text = text := by
    intro t e hstep hb' hne
    cases hget : s.turns.asks[i]? with
    | none =>
        obtain ⟨_, hqueued, _⟩ := hstep.called hb' hget
        rw [hqueued] at hphase
        cases hphase
    | some a =>
        obtain ⟨c, hc', _, hmove⟩ := hstep.keeps hget
        obtain rfl := Option.some.inj (hb'.symm.trans hc')
        rcases hmove with hsame | hmove
        · exact hc.concluded i a request result text hget (hsame ▸ hphase)
        · rw [hphase] at hmove
          exact absurd (Moves.to_returned hmove) hne
  have hsame : s.turns.asks[i]? = some b → ∃ p ∈ s.published, p.ask = i ∧ p.message.text = text :=
    fun hb' => hc.concluded i b request result text hb' hphase
  cases h with
  | call round p member prompt turnKind roundStart t _ _ hstep =>
      exact hold hstep hb fun he => by cases he
  | ask e t hinner hstep => exact hold hstep hb fun he => by rw [he] at hinner; exact hinner
  | snapshot j t hstep => exact hold hstep hb fun he => by cases he
  | publish j a r s' answer faults clock ha _ _ _ =>
      obtain ⟨p, hp, he⟩ := hsame hb
      exact ⟨p, List.mem_append_left _ hp, he⟩
  | conclude j a r s' t ha hcompleted hpublished hstep =>
      by_cases hj : i = j
      · subst hj
        cases hstep with
        | conclude _ a' r' s'' ha' hphase' =>
            obtain rfl := Option.some.inj (ha.symm.trans ha')
            obtain rfl := Option.some.inj (hb.symm.trans (set_get_self ha))
            cases hanswer : askAnswer isAlphanumeric a.turnKind s'' with
            | error error => simp [hanswer, Except.map] at hphase
            | ok answer =>
                obtain ⟨_, rfl⟩ := AskPhase.completed.inj (hcompleted.symm.trans hphase')
                obtain ⟨p, hp, rfl⟩ := hpublished (by rw [hanswer]; rfl)
                simp only [hanswer, Except.map, AskPhase.returned.injEq, Except.ok.injEq] at hphase
                exact ⟨p, hp, rfl, (hc.entered_text hp ha hcompleted hanswer).trans hphase.2.2⟩
      · exact hold hstep hb fun he => hj (TurnEvent.conclude.inj he).symm
  | _ => exact hsame hb

/-! ## Whole runs -/

theorem Step.consistent (h : Step isAlphanumeric s event s') (hc : Consistent isAlphanumeric s) :
    Consistent isAlphanumeric s' := by
  obtain ⟨hfresh, hlifecycle, hrostered⟩ := h.rooms hc
  exact ⟨hfresh, hlifecycle, hrostered, h.serial hc.serial, fun _ _ hb => h.seated hc hb,
    h.underway hc, fun _ _ hb hopen => h.owned hc hb hopen, h.entered hc,
    fun _ _ _ _ _ hb hphase => h.concluded hc hb hphase⟩

/-- What an earlier process has saved: ordinary rooms, and nobody twice in one of them. -/
structure SavedRooms (restored : List ChatRoom) : Prop where
  ordinary : ∀ room ∈ restored, room.incognito = false
  distinct : ∀ room ∈ restored, room.members.Nodup

theorem launched_consistent (isAlphanumeric : Char → Bool) {restored : List ChatRoom}
    (h : SavedRooms restored) (media : ExtTreeMap String Media.MediaAsset) (disk : SnapshotDisk) :
    Consistent isAlphanumeric (launchedSession restored media disk) := by
  have hnone : ∀ (i : ℕ) (a : Ask), Turns.launched.asks[i]? ≠ some a := by
    intro i a ha
    simp [Turns.launched] at ha
  exact ⟨start_fresh restored media disk, start_lifecycle h.ordinary media disk,
    start_rostered h.distinct media disk, serial_launched, fun i a ha => absurd ha (hnone i a),
    fun _ hround => absurd hround List.not_mem_nil, fun i a ha => absurd ha (hnone i a),
    fun _ hp => absurd hp List.not_mem_nil, fun i a _ _ _ ha => absurd ha (hnone i a)⟩

theorem run_consistent {events : List Event} (hrun : SessionRun isAlphanumeric s events s')
    (h : Consistent isAlphanumeric s) : Consistent isAlphanumeric s' :=
  hrun.invariant (fun _ _ _ hs step => step.consistent hs) h

/-- Whatever is saved in a consistent state can be restored. -/
theorem snapshot_savedRooms (h : Consistent isAlphanumeric s) :
    SavedRooms (snapshot s.world.chat.rooms).rooms :=
  ⟨snapshot_ordinary s.world.chat.rooms, snapshot_rostered h.rostered⟩

end

end NormaHarness.Rounds
