import NormaHarness.TurnCorrelation

/-!
# One ask through its steps

A step moves at most one ask, and an ask keeps the arguments that it was called with.
The lock is taken only when nobody holds it, so the asks of one member hold it one after
the other.
-/
namespace NormaHarness.Asks
open Identifiers Contracts LlmProtocol Chat

/-- The two are the same call, at different times. -/
structure SameCall (a b : Ask) : Prop where
  roomId : b.roomId = a.roomId
  member : b.member = a.member
  target : b.target = a.target
  turnKind : b.turnKind = a.turnKind
  roundStart : b.roundStart = a.roundStart

theorem SameCall.refl (a : Ask) : SameCall a a := ⟨rfl, rfl, rfl, rfl, rfl⟩

theorem SameCall.trans {a b c : Ask} (h : SameCall a b) (g : SameCall b c) : SameCall a c :=
  ⟨g.roomId.trans h.roomId, g.member.trans h.member, g.target.trans h.target,
    g.turnKind.trans h.turnKind, g.roundStart.trans h.roundStart⟩

theorem SameCall.of_phase (a : Ask) (phase : AskPhase) : SameCall a {a with phase := phase} :=
  ⟨rfl, rfl, rfl, rfl, rfl⟩

/-- How a step moves ask number `i` from one phase to the next. -/
inductive Moves (i : ℕ) : AskPhase → TurnEvent → AskPhase → Prop
  | lock : Moves i .queued (.lock i) .locked
  | missing (rooms : RoomStore) (error : ChatError) :
      Moves i .locked (.snapshot i rooms) (.failed error)
  | snapshot (rooms : RoomStore) (taken : LlmOrigin × List LlmContextMessage) :
      Moves i .locked (.snapshot i rooms) (.snapshotted taken)
  | number (taken : LlmOrigin × List LlmContextMessage) (request : LlmTurnRequest) :
      Moves i (.snapshotted taken) (.number i) (.numbered request)
  | insert (request : LlmTurnRequest) : Moves i (.numbered request) (.insert i) (.sending request)
  | sent (request : LlmTurnRequest) : Moves i (.sending request) (.sent i) (.waiting request)
  | sendFailed (request : LlmTurnRequest) (error : RouteError) (reason : ChatError) :
      Moves i (.sending request) (.sendFailed i error) (.failed reason)
  | resume (request : LlmTurnRequest) (result : LlmTurnResult) :
      Moves i (.waiting request) (.resume i) (.completed request result)
  | closed (request : LlmTurnRequest) (reason : ChatError) :
      Moves i (.waiting request) (.closed i) (.failed reason)
  | conclude (request : LlmTurnRequest) (result : LlmTurnResult)
      (answer : Except ChatError String) :
      Moves i (.completed request result) (.conclude i) (.returned request result answer)

section

variable {isAlphanumeric : Char → Bool} {w w' : Turns} {event : TurnEvent} {i j : ℕ} {a b : Ask}

/-- A step that moves one ask leaves the others where they are. -/
theorem keeps_of_set {phase : AskPhase} (hi : w.asks[i]? = some a)
    (hmove : Moves i a.phase event phase) (hw : w'.asks = w.asks.set i {a with phase := phase})
    (hj : w.asks[j]? = some b) : ∃ c, w'.asks[j]? = some c ∧ SameCall b c ∧
      (c.phase = b.phase ∨ Moves j b.phase event c.phase) := by
  rw [hw]
  by_cases hne : j = i
  · subst hne
    obtain rfl := Option.some.inj (hi.symm.trans hj)
    exact ⟨_, set_get_self hi, .of_phase a phase, .inr hmove⟩
  · exact ⟨b, (set_get_other hne).trans hj, .refl b, .inl rfl⟩

theorem receive_asks (w : Turns) (m : RoutedMessage) (hj : w.asks[j]? = some a) :
    ∃ c, (w.receive m).asks[j]? = some c ∧ SameCall a c ∧ c.phase = a.phase := by
  rcases receive_cases w m with ⟨_, hw⟩ | ⟨result, turn, _, hw⟩
  · rw [hw]
    exact ⟨a, hj, .refl a, rfl⟩
  · rw [hw]
    by_cases hne : turn.reply = j
    · refine ⟨{a with reply := some result}, ?_, ⟨rfl, rfl, rfl, rfl, rfl⟩, rfl⟩
      simp [hne, hj]
    · refine ⟨a, ?_, .refl a, rfl⟩
      simp [hne, hj]

theorem receive_length (w : Turns) (m : RoutedMessage) :
    (w.receive m).asks.length = w.asks.length := by
  rcases receive_cases w m with ⟨_, hw⟩ | ⟨result, turn, _, hw⟩
  · rw [hw]
  · rw [hw, List.length_modify]

theorem TurnStep.keeps (h : TurnStep isAlphanumeric w event w') (hj : w.asks[j]? = some b) :
    ∃ c, w'.asks[j]? = some c ∧ SameCall b c ∧
      (c.phase = b.phase ∨ Moves j b.phase event c.phase) := by
  cases h with
  | call roomId member target prompt turnKind roundStart _ =>
      exact ⟨b, concat_get_old hj, .refl b, .inl rfl⟩
  | lock i a hi hphase _ => exact keeps_of_set hi (hphase ▸ .lock) rfl hj
  | missing i a rooms error hi hphase _ =>
      exact keeps_of_set hi (hphase ▸ .missing rooms error) rfl hj
  | snapshot i a rooms taken hi hphase _ =>
      exact keeps_of_set hi (hphase ▸ .snapshot rooms taken) rfl hj
  | number i a taken hi hphase => exact keeps_of_set hi (hphase ▸ .number taken _) rfl hj
  | insert i a request hi hphase => exact keeps_of_set hi (hphase ▸ .insert request) rfl hj
  | sent i a request hi hphase => exact keeps_of_set hi (hphase ▸ .sent request) rfl hj
  | sendFailed i a request error hi hphase =>
      exact keeps_of_set hi (hphase ▸ .sendFailed request error _) rfl hj
  | resume i a request result hi hphase _ =>
      exact keeps_of_set hi (hphase ▸ .resume request result) rfl hj
  | closed i a request hi hphase _ _ =>
      exact keeps_of_set hi (hphase ▸ .closed request _) rfl hj
  | conclude i a request result hi hphase =>
      exact keeps_of_set hi (hphase ▸ .conclude request result _) rfl hj
  | receive m =>
      obtain ⟨c, hc, hcall, hphase⟩ := receive_asks w m hj
      exact ⟨c, hc, hcall, .inl hphase⟩

/-- An ask that was not there before has just been called. -/
theorem TurnStep.called (h : TurnStep isAlphanumeric w event w') (hj : w'.asks[j]? = some b)
    (hnone : w.asks[j]? = none) : j = w.asks.length ∧ b.phase = .queued ∧
      ∃ prompt, event = .call b.roomId b.member prompt b.turnKind b.roundStart := by
  have hle := List.getElem?_eq_none_iff.mp hnone
  obtain ⟨hlt, _⟩ := List.getElem?_eq_some_iff.mp hj
  cases h with
  | call roomId member target prompt turnKind roundStart _ =>
      rcases concat_get hj with ⟨rfl, rfl⟩ | hold
      · exact ⟨rfl, rfl, prompt, rfl⟩
      · rw [hnone] at hold
        cases hold
  | receive m =>
      rw [receive_length] at hlt
      omega
  | _ =>
      simp only [Turns.move, List.length_set] at hlt
      omega

/-! ## The turns of one member -/

/-- At most one ask of each member holds the lock on its turns. -/
def Serial (w : Turns) : Prop :=
  ∀ (i j : ℕ) (a b : Ask), w.asks[i]? = some a → w.asks[j]? = some b → a.member = b.member →
    a.phase.HoldsTurn → b.phase.HoldsTurn → i = j

theorem Moves.holdsTurn {phase phase' : AskPhase} (h : Moves i phase event phase')
    (hholds : phase'.HoldsTurn) : phase.HoldsTurn ∨ event = .lock i := by
  cases h with
  | lock => exact .inr rfl
  | missing _ _ => exact absurd hholds id
  | sendFailed _ _ _ => exact absurd hholds id
  | closed _ _ => exact absurd hholds id
  | conclude _ _ _ => exact absurd hholds id
  | _ => exact .inl trivial

/-- Who holds a lock after a step has held it before or has just found it free. -/
theorem TurnStep.holder (h : TurnStep isAlphanumeric w event w') (hj : w'.asks[j]? = some b)
    (hholds : b.phase.HoldsTurn) : ∃ a, w.asks[j]? = some a ∧ a.member = b.member ∧
      (a.phase.HoldsTurn ∨ event = .lock j ∧
        ∀ c ∈ w.asks, c.member = b.member → ¬c.phase.HoldsTurn) := by
  cases hold : w.asks[j]? with
  | none =>
      obtain ⟨_, hqueued, _⟩ := h.called hj hold
      rw [hqueued] at hholds
      exact absurd hholds id
  | some a =>
      obtain ⟨c, hc, hcall, hphase⟩ := h.keeps hold
      obtain rfl := Option.some.inj (hj.symm.trans hc)
      refine ⟨a, rfl, hcall.member.symm, ?_⟩
      rcases hphase with hphase | hmove
      · exact .inl (hphase ▸ hholds)
      · rcases hmove.holdsTurn hholds with hheld | rfl
        · exact .inl hheld
        · right
          cases h with
          | lock _ a' hi _ hfree =>
              obtain rfl := Option.some.inj (hi.symm.trans hold)
              rw [hcall.member]
              exact ⟨rfl, hfree⟩

theorem TurnStep.serial (h : TurnStep isAlphanumeric w event w') (hs : Serial w) : Serial w' := by
  intro i j a b hi hj hmember ha hb
  obtain ⟨a', hi', hmi, hholdsi⟩ := h.holder hi ha
  obtain ⟨b', hj', hmj, hholdsj⟩ := h.holder hj hb
  rcases hholdsi with hheldi | ⟨rfl, hfree⟩
  · rcases hholdsj with hheldj | ⟨rfl, hfree⟩
    · exact hs i j a' b' hi' hj' (hmi.trans (hmember.trans hmj.symm)) hheldi hheldj
    · exact absurd hheldi (hfree a' (List.mem_of_getElem? hi') (hmi.trans hmember))
  · rcases hholdsj with hheldj | ⟨he, _⟩
    · exact absurd hheldj (hfree b' (List.mem_of_getElem? hj') (hmj.trans hmember.symm))
    · cases he
      rfl

theorem serial_launched : Serial Turns.launched := by
  intro i j a b hi
  simp [Turns.launched] at hi

theorem Live.holdsTurn {phase : AskPhase} {k : String} (h : phase.Live k) : phase.HoldsTurn := by
  cases phase with
  | sending request => exact trivial
  | waiting request => exact trivial
  | _ => exact absurd h id

end

end NormaHarness.Asks
