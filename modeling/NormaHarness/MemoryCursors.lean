import NormaHarness.MemoryFacts

/-!
# A memory shared by several residents

An extraction reads the events a room's cursor has not passed, waits for a model and
writes back. The cursor is read again for the evidence, but is set to the last event of
the extraction whatever it is by then. So it goes back exactly where an extraction is
recorded whose events end before the cursor, and only then can a message be accepted
again.
-/
namespace NormaHarness.Memory
open Std LlmProtocol FilePrograms ReplacedFiles Executions

structure Extraction where
  room : ℕ
  events : List LlmContextMessage

/-- One memory, the rooms' histories and each resident's extraction under way. -/
structure Sharing (R : Type*) where
  manager : Manager
  history : ℕ → List LlmContextMessage
  pending : R → Option Extraction

inductive ShareOp (R : Type*) where
  | post (room : ℕ) (message : LlmContextMessage)
  | read (resident : R) (room seen : ℕ)
  | abandon (resident : R)
  | apply (resident : R) (shuffles : Shuffles) (faults : MemoryFaults) (now : ℕ)
      (extracted : ExtractedMemory)
  | setEnabled (faults : MemoryFaults) (enabled : Bool)
  | hot (faults : MemoryFaults) (now : ℕ)

def Manager.cursor (m : Manager) (room : ℕ) : ℕ := m.state.cursors[room]?.getD 0

/-- A save to this disk goes through. -/
def MemoryFaults.letsSave (faults : MemoryFaults) (disk : MemoryDisk) : Prop :=
  (exec faults.calls (replace memoryFiles .null) disk).1 = .ok ()

section

variable {R : Type*} [DecidableEq R]

/-- The extraction a resident begins on what it has been sent of a room's history, if any
event of that is new. -/
def Sharing.reading (s : Sharing R) (room seen : ℕ) : Option Extraction :=
  match s.manager.unprocessed room ((s.history room).take seen) with
  | [] => none
  | event :: rest => some ⟨room, event :: rest⟩

def ShareOp.run (toLowercase : String → String) (s : Sharing R) :
    ShareOp R → Option (Sharing R)
  | .post room message =>
      if (s.history room).all fun e => decide (e.id < message.id) then
        some {s with history := Function.update s.history room (s.history room ++ [message])}
      else none
  | .read resident room seen =>
      if (s.pending resident).isNone then
        some {s with pending := Function.update s.pending resident (s.reading room seen)}
      else none
  | .abandon resident => some {s with pending := Function.update s.pending resident none}
  | .apply resident shuffles faults now extracted =>
      (s.pending resident).map fun x => {s with
        manager := (s.manager.apply toLowercase shuffles faults now x.room x.events extracted).2
        pending := Function.update s.pending resident none}
  | .setEnabled faults enabled => some {s with manager := (s.manager.setEnabled faults enabled).2}
  | .hot faults now => some {s with manager := (s.manager.hot faults now).2}

def ShareStep (toLowercase : String → String) (s : Sharing R) (op : ShareOp R) (s' : Sharing R) :
    Prop :=
  op.run toLowercase s = some s'

abbrev ShareRun (toLowercase : String → String) := Run (ShareStep (R := R) toLowercase)

/-- An extraction that is recorded. -/
def Records (s : Sharing R) (op : ShareOp R) (x : Extraction) : Prop :=
  ∃ resident shuffles faults now extracted,
    op = .apply resident shuffles faults now extracted ∧ s.pending resident = some x ∧
      s.manager.state.enabled = true ∧ faults.letsSave s.manager.disk

/-- The apply call is recorded and takes the message as evidence for a fact. -/
def Accepts (toLowercase : String → String) (s : Sharing R) (op : ShareOp R) (room id : ℕ) :
    Prop :=
  ∃ resident shuffles faults now extracted events,
    op = .apply resident shuffles faults now extracted ∧
      s.pending resident = some ⟨room, events⟩ ∧ s.manager.state.enabled = true ∧
      faults.letsSave s.manager.disk ∧
      ∃ found ∈ findings toLowercase shuffles (allowed (s.manager.cursor room) events) extracted,
        id ∈ found.evidence

/-- An extraction is recorded although its events end before the room's cursor. -/
def Outdated (s : Sharing R) (op : ShareOp R) : Prop :=
  ∃ x last, Records s op x ∧ (x.events.map LlmContextMessage.id).max? = some last ∧
    last < s.manager.cursor x.room

def NeverDecreases (toLowercase : String → String) (s₀ : Sharing R) (ops : List (ShareOp R)) :
    Prop :=
  ∀ past op future s s', ops = past ++ op :: future → ShareRun toLowercase s₀ past s →
    ShareStep toLowercase s op s' → ∀ room, s.manager.cursor room ≤ s'.manager.cursor room

def AcceptedOnce (toLowercase : String → String) (s₀ : Sharing R) (ops : List (ShareOp R)) :
    Prop :=
  ∀ past op middle op' future s t, ops = past ++ op :: (middle ++ op' :: future) →
    ShareRun toLowercase s₀ past s → ShareRun toLowercase s₀ (past ++ op :: middle) t →
    ∀ room id, Accepts toLowercase s op room id → ¬Accepts toLowercase t op' room id

end

/-! ## What an operation does to the cursors -/

theorem commit_saved (m : Manager) (faults : MemoryFaults) (next : MemoryState) :
    (faults.letsSave m.disk ∧ (m.commit faults next).2.state = next) ∨
      ¬faults.letsSave m.disk ∧ (m.commit faults next).2.state = m.state := by
  unfold Manager.commit MemoryFaults.letsSave
  rw [replace_result _ (MemoryState.codec.encode next)]
  rcases exec faults.calls (replace memoryFiles (MemoryState.codec.encode next)) m.disk
    with ⟨error | _, disk⟩
  · exact .inr ⟨by rintro ⟨⟩, rfl⟩
  · exact .inl ⟨rfl, rfl⟩

theorem proposes_cursors {toLowercase : String → String} {state next : MemoryState}
    {op : MemoryOp} {faults : MemoryFaults} (h : Proposes toLowercase state op faults next)
    (hop : op.appliedAt = none) : next.cursors = state.cursors := by
  cases h with
  | setEnabled faults enabled => rfl
  | hot faults now => rfl
  | apply => cases hop

/-- Only an extraction moves a cursor. -/
theorem step_cursor {m m' : Manager} {op : MemoryOp} (h : MemoryStep id m op m')
    (hop : op.appliedAt = none) (room : ℕ) : m'.cursor room = m.cursor room := by
  unfold Manager.cursor
  rcases step_state h with hstate | ⟨faults, hproposes⟩
  · rw [hstate]
  · rw [proposes_cursors hproposes hop]

section

variable {toLowercase : String → String} {shuffles : Shuffles} {faults : MemoryFaults}
  {now room : ℕ} {events : List LlmContextMessage} {extracted : ExtractedMemory} {m : Manager}

/-- A recorded extraction sets its room's cursor to its last event. -/
theorem apply_recorded {last : ℕ} (henabled : m.state.enabled = true)
    (hsave : faults.letsSave m.disk)
    (hlast : (events.map LlmContextMessage.id).max? = some last) (room' : ℕ) :
    (m.apply toLowercase shuffles faults now room events extracted).2.cursor room' =
      if room' = room then last else m.cursor room' := by
  have hevents : events.isEmpty = false := by
    cases events with
    | nil => cases hlast
    | cons => rfl
  have happly : m.apply toLowercase shuffles faults now room events extracted =
      m.commit faults (Manager.applied toLowercase shuffles now room events extracted m.state) := by
    simp [Manager.apply, hevents, henabled]
  rcases commit_saved m faults
    (Manager.applied toLowercase shuffles now room events extracted m.state) with
    ⟨-, hstate⟩ | ⟨hfails, -⟩
  · unfold Manager.cursor
    rw [happly, hstate]
    simp only [Manager.applied, hlast, rebalance]
    split
    · next heq => simp [heq]
    · next hne => simp [ExtTreeMap.getElem?_insert, Ne.symm hne]
  · exact absurd hsave hfails

/-- An extraction that is not recorded moves no cursor. -/
theorem apply_unrecorded
    (h : ¬(m.state.enabled = true ∧ faults.letsSave m.disk ∧ events ≠ [])) (room' : ℕ) :
    (m.apply toLowercase shuffles faults now room events extracted).2.cursor room' =
      m.cursor room' := by
  unfold Manager.apply
  split
  · rfl
  · next hevents =>
    split
    · next henabled =>
      rcases commit_saved m faults
        (Manager.applied toLowercase shuffles now room events extracted m.state) with
        ⟨hsave, -⟩ | ⟨-, hstate⟩
      · exact absurd ⟨henabled, hsave, by simpa using hevents⟩ h
      · unfold Manager.cursor
        rw [hstate]
    · rfl

end

/-! ## Steps of the shared memory -/

section

variable {R : Type*} [DecidableEq R] {toLowercase : String → String}

/-- A step leaves the cursors, or records an extraction and moves its room's cursor. -/
theorem share_step {s s' : Sharing R} {op : ShareOp R} (h : ShareStep toLowercase s op s') :
    (∀ room, s'.manager.cursor room = s.manager.cursor room) ∨
      ∃ x last, Records s op x ∧ (x.events.map LlmContextMessage.id).max? = some last ∧
        ∀ room, s'.manager.cursor room = if room = x.room then last else s.manager.cursor room := by
  unfold ShareStep at h
  cases op with
  | post room message =>
      simp only [ShareOp.run, Option.ite_none_right_eq_some, Option.some.injEq] at h
      obtain ⟨-, rfl⟩ := h
      exact .inl fun _ => rfl
  | read resident room seen =>
      simp only [ShareOp.run, Option.ite_none_right_eq_some, Option.some.injEq] at h
      obtain ⟨-, rfl⟩ := h
      exact .inl fun _ => rfl
  | abandon resident =>
      cases h
      exact .inl fun _ => rfl
  | setEnabled faults enabled =>
      cases h
      have hstep : MemoryStep id s.manager (.setEnabled faults enabled) _ := rfl
      exact .inl (step_cursor hstep rfl)
  | hot faults now =>
      cases h
      have hstep : MemoryStep id s.manager (.hot faults now) _ := rfl
      exact .inl (step_cursor hstep rfl)
  | apply resident shuffles faults now extracted =>
      simp only [ShareOp.run, Option.map_eq_some_iff] at h
      obtain ⟨x, hpending, rfl⟩ := h
      by_cases hrecords : s.manager.state.enabled = true ∧ faults.letsSave s.manager.disk ∧
          x.events ≠ []
      · obtain ⟨henabled, hsave, hevents⟩ := hrecords
        obtain ⟨last, hlast⟩ : ∃ last, (x.events.map LlmContextMessage.id).max? = some last := by
          refine Option.isSome_iff_exists.mp ?_
          simpa using hevents
        exact .inr ⟨x, last, ⟨resident, shuffles, faults, now, extracted, rfl, hpending, henabled,
          hsave⟩, hlast, apply_recorded henabled hsave hlast⟩
      · exact .inl (apply_unrecorded hrecords)

/-- A cursor goes back exactly at an outdated extraction. -/
theorem outdated_iff {s s' : Sharing R} {op : ShareOp R} (h : ShareStep toLowercase s op s') :
    Outdated s op ↔ ∃ room, s'.manager.cursor room < s.manager.cursor room := by
  constructor
  · rintro ⟨x, last, hrecords, hlast, hlt⟩
    refine ⟨x.room, ?_⟩
    obtain ⟨resident, shuffles, faults, now, extracted, rfl, hpending, henabled, hsave⟩ := hrecords
    simp only [ShareStep, ShareOp.run, hpending, Option.map_some, Option.some.injEq] at h
    subst h
    rw [apply_recorded henabled hsave hlast, if_pos rfl]
    exact hlt
  · rintro ⟨room, hlt⟩
    rcases share_step h with hsame | ⟨x, last, hrecords, hlast, hmoved⟩
    · rw [hsame] at hlt
      exact absurd hlt (lt_irrefl _)
    · rw [hmoved] at hlt
      split at hlt
      · next heq => exact ⟨x, last, hrecords, hlast, heq ▸ hlt⟩
      · exact absurd hlt (lt_irrefl _)

/-- Evidence is an event of the extraction that the cursor has not passed. -/
theorem evidence_new {shuffles : Shuffles} {cursor id : ℕ} {events : List LlmContextMessage}
    {extracted : ExtractedMemory} {found : Finding}
    (hfound : found ∈ findings toLowercase shuffles (allowed cursor events) extracted)
    (hid : id ∈ found.evidence) : cursor < id ∧ id ∈ events.map LlmContextMessage.id := by
  obtain ⟨⟨item, index⟩, -, hfinding⟩ := List.mem_filterMap.mp hfound
  have hallowed := ((finding_spec (shuffles.perm index) hfinding).2.2.2 id hid).2
  simp only [allowed, List.any_eq_true, Bool.and_eq_true, decide_eq_true_eq, beq_iff_eq]
    at hallowed
  obtain ⟨e, he, ⟨hnew, -⟩, rfl⟩ := hallowed
  exact ⟨hnew, List.mem_map_of_mem he⟩

omit [DecidableEq R] in
theorem accepts_new {s : Sharing R} {op : ShareOp R} {room id : ℕ}
    (haccepts : Accepts toLowercase s op room id) : s.manager.cursor room < id := by
  obtain ⟨resident, shuffles, faults, now, extracted, events, -, -, -, -, found, hfound, hid⟩ :=
    haccepts
  exact (evidence_new hfound hid).1

/-- An extraction that accepts a message moves the cursor up to it. -/
theorem accepts_cursor {s s' : Sharing R} {op : ShareOp R} {room id : ℕ}
    (h : ShareStep toLowercase s op s') (haccepts : Accepts toLowercase s op room id) :
    id ≤ s'.manager.cursor room := by
  obtain ⟨resident, shuffles, faults, now, extracted, events, rfl, hpending, henabled, hsave,
    found, hfound, hid⟩ := haccepts
  have hmem := (evidence_new hfound hid).2
  obtain ⟨last, hlast⟩ : ∃ last, (events.map LlmContextMessage.id).max? = some last := by
    refine Option.isSome_iff_exists.mp ?_
    simpa using List.ne_nil_of_mem hmem
  simp only [ShareStep, ShareOp.run, hpending, Option.map_some, Option.some.injEq] at h
  subst h
  rw [apply_recorded henabled hsave hlast, if_pos rfl]
  exact (List.max?_eq_some_iff.mp hlast).2 _ hmem

/-! ## Runs -/

theorem run_unique {s t u : Sharing R} {ops : List (ShareOp R)}
    (h : ShareRun toLowercase s ops t) (g : ShareRun toLowercase s ops u) : t = u :=
  h.unique (fun _ _ _ _ hstep gstep => Option.some.inj (hstep.symm.trans gstep)) g

theorem run_cursor {s t : Sharing R} {ops : List (ShareOp R)} (hrun : ShareRun toLowercase s ops t)
    (hcurrent : ∀ past op future u, ops = past ++ op :: future →
      ShareRun toLowercase s past u → ¬Outdated u op) (room : ℕ) :
    s.manager.cursor room ≤ t.manager.cursor room := by
  refine hrun.invariant_along (P := fun u => s.manager.cursor room ≤ u.manager.cursor room)
    (Q := fun u op => ¬Outdated u op) (fun u op v hop hle hstep => hle.trans ?_) hcurrent le_rfl
  by_contra hlt
  exact hop ((outdated_iff hstep).mpr ⟨room, Nat.lt_of_not_le hlt⟩)

/-- Over any run of residents that share a memory, no cursor ever decreases and no message is
accepted twice, if and only if no extraction is recorded whose events end before its room's
cursor. -/
theorem shared_cursors_iff {s₀ s : Sharing R} {ops : List (ShareOp R)}
    (hrun : ShareRun toLowercase s₀ ops s) :
    (NeverDecreases toLowercase s₀ ops ∧ AcceptedOnce toLowercase s₀ ops) ↔
      ∀ past op future t, ops = past ++ op :: future → ShareRun toLowercase s₀ past t →
        ¬Outdated t op := by
  constructor
  · rintro ⟨hgrow, -⟩ past op future t rfl hpast houtdated
    obtain ⟨t', u, hpast', hstep, -⟩ := hrun.cut
    obtain rfl := run_unique hpast hpast'
    obtain ⟨room, hlt⟩ := (outdated_iff hstep).mp houtdated
    exact absurd (hgrow past op future t u rfl hpast hstep room) (Nat.not_le_of_lt hlt)
  · intro hcurrent
    refine ⟨fun past op future t u hops hpast hstep room => ?_,
      fun past op middle op' future t u hops hpast hmiddle room id haccepts haccepts' => ?_⟩
    · by_contra hlt
      exact hcurrent past op future t hops hpast
        ((outdated_iff hstep).mpr ⟨room, Nat.lt_of_not_le hlt⟩)
    · obtain ⟨t', v, hpast', hstep, hrest⟩ := hmiddle.cut
      obtain rfl := run_unique hpast hpast'
      -- After the first acceptance the cursor is past the message, and stays there.
      have hcursor : v.manager.cursor room ≤ u.manager.cursor room := by
        refine run_cursor hrest (fun past' op'' future' w hsplit hbetween => ?_) room
        refine hcurrent (past ++ op :: past') op'' (future' ++ op' :: future) w ?_
          (hpast.append (.cons hstep hbetween))
        rw [hops, hsplit]
        simp
      have hnew := accepts_new haccepts'
      have hpassed := accepts_cursor hstep haccepts
      omega

end

def nobodyReading : Sharing Bool := ⟨⟨.default, noMemoryFiles⟩, fun _ => [], fun _ => none⟩

def hobby (id : ℕ) : LlmContextMessage := ⟨id, 1, "Tea", "user", "You", "I drink tea", 0, []⟩

/-- The second resident has been sent more than the first. -/
def overtaking : List (ShareOp Bool) :=
  [.setEnabled .none true, .post 1 (hobby 1), .read true 1 1, .post 1 (hobby 2), .read false 1 2]

/-- The evidence for one fact. -/
def citing (id : ℕ) : ShareOp Bool :=
  .apply (id == 1) .none .none 7 ⟨[⟨"tea", "Drinks tea", [id]⟩]⟩

/-- The extraction that has read less is recorded first, and then the other one. -/
theorem shared_cursors_iff_turns :
    ∃ first second, ShareRun id nobodyReading overtaking first ∧
      ShareRun id nobodyReading (overtaking ++ [citing 1, citing 2]) second ∧
      first.manager.state.enabled = true ∧ Accepts id first (citing 1) 1 1 ∧
      second.manager.cursor 1 = 2 ∧
      NeverDecreases id nobodyReading (overtaking ++ [citing 1, citing 2]) ∧
      AcceptedOnce id nobodyReading (overtaking ++ [citing 1, citing 2]) := by
  have hread : ShareRun id nobodyReading overtaking _ :=
    .cons rfl (.cons rfl (.cons rfl (.cons rfl (.single rfl))))
  have hfirst : ShareRun id nobodyReading (overtaking ++ [citing 1]) _ := hread.snoc rfl
  have hrun : ShareRun id nobodyReading (overtaking ++ [citing 1, citing 2]) _ :=
    hread.append (.cons rfl (.single rfl))
  refine ⟨_, _, hread, hrun, rfl, ?_, by decide, (shared_cursors_iff hrun).mpr ?_⟩
  · exact ⟨true, .none, .none, 7, _, [hobby 1], rfl, rfl, rfl, rfl,
      ⟨"tea", "Drinks tea", [1]⟩, by decide, by decide⟩
  rintro past op future t hops hpast ⟨x, last, ⟨_, _, _, _, _, happly, hpending, -⟩, hlast, hlt⟩
  -- Only the two applications could be outdated.
  have hwhere : past = overtaking ∧ op = citing 1 ∨
      past = overtaking ++ [citing 1] ∧ op = citing 2 := by
    match past, hops with
    | [_, _, _, _, _], hops =>
        simp only [overtaking, List.cons_append, List.nil_append, List.cons.injEq] at hops
        simp [overtaking, hops]
    | [_, _, _, _, _, _], hops =>
        simp only [overtaking, List.cons_append, List.nil_append, List.cons.injEq] at hops
        simp [overtaking, hops]
    | [], hops | [_], hops | [_, _], hops | [_, _, _], hops | [_, _, _, _], hops =>
        simp [overtaking, happly] at hops
    | _ :: _ :: _ :: _ :: _ :: _ :: _ :: _, hops => simp [overtaking] at hops
  rcases hwhere with ⟨rfl, rfl⟩ | ⟨rfl, rfl⟩
  · obtain rfl := run_unique hpast hread
    cases happly
    obtain rfl : x = ⟨1, [hobby 1]⟩ := Option.some.inj (hpending.symm.trans rfl)
    obtain rfl : last = 1 := Option.some.inj (hlast.symm.trans rfl)
    exact absurd hlt (by decide)
  · obtain rfl := run_unique hpast hfirst
    cases happly
    obtain rfl : x = ⟨1, [hobby 1, hobby 2]⟩ := Option.some.inj (hpending.symm.trans rfl)
    obtain rfl : last = 2 := Option.some.inj (hlast.symm.trans rfl)
    exact absurd hlt (by decide)

theorem cursor_goes_back :
    ∃ s, ShareRun id nobodyReading
        (overtaking ++ [citing 2, citing 1, .read false 1 2, citing 2]) s ∧
      ¬NeverDecreases id nobodyReading
        (overtaking ++ [citing 2, citing 1, .read false 1 2, citing 2]) ∧
      ¬AcceptedOnce id nobodyReading
        (overtaking ++ [citing 2, citing 1, .read false 1 2, citing 2]) := by
  have hread : ShareRun id nobodyReading overtaking _ :=
    .cons rfl (.cons rfl (.cons rfl (.cons rfl (.single rfl))))
  have hfirst : ShareRun id nobodyReading (overtaking ++ [citing 2]) _ := hread.snoc rfl
  have hagain : ShareRun id nobodyReading
      (overtaking ++ [citing 2, citing 1, .read false 1 2]) _ :=
    hread.append (.cons rfl (.cons rfl (.single rfl)))
  refine ⟨_, hread.append (.cons rfl (.cons rfl (.cons rfl (.single rfl)))), fun h => ?_,
    fun h => ?_⟩
  · have hle := h (overtaking ++ [citing 2]) (citing 1) [.read false 1 2, citing 2] _ _ rfl hfirst
      rfl 1
    exact absurd hle (by decide)
  · refine h overtaking (citing 2) [citing 1, .read false 1 2] (citing 2) [] _ _ rfl hread hagain
      1 2 ?_ ?_
    · exact ⟨false, .none, .none, 7, _, [hobby 1, hobby 2], rfl, rfl, rfl, rfl,
        ⟨"tea", "Drinks tea", [2]⟩, by decide, by decide⟩
    · exact ⟨false, .none, .none, 7, _, [hobby 2], rfl, rfl, rfl, rfl,
        ⟨"tea", "Drinks tea", [2]⟩, by decide, by decide⟩

end NormaHarness.Memory
