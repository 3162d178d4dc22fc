import NormaHarness.Asks

/-!
# Replies find their turns

The pending table holds exactly the asks that are sending or waiting and have not been
handed a result. A result may be handed over while its ask is still sending, so the
asks that are sending or waiting are not the right set. Request identities are texts
made of two numbers, and a minus sign keeps the numbers apart.
-/
namespace NormaHarness.Asks
open Std Identifiers Contracts LlmProtocol Chat

/-! ## Request identities -/

theorem minus_notMem_repr (n : ℕ) : '-' ∉ n.repr.toList := by
  intro h
  rw [Nat.toList_repr] at h
  exact absurd (Nat.isDigit_of_mem_toDigits (by decide) (by decide) h) (by decide)

theorem requestIdOf_injective {roomId roomId' n n' : ℕ}
    (h : requestIdOf roomId n = requestIdOf roomId' n') : roomId = roomId' ∧ n = n' := by
  have hlist : roomId.repr.toList ++ '-' :: n.repr.toList =
      roomId'.repr.toList ++ '-' :: n'.repr.toList := by
    have h' := congrArg String.toList h
    simpa [requestIdOf, toString] using h'
  obtain ⟨hroom, _, hn⟩ := (List.append_cons_inj_of_notMem (minus_notMem_repr _)
    (minus_notMem_repr _)).mp hlist
  exact ⟨Nat.repr_injective (String.toList_injective hroom),
    Nat.repr_injective (String.toList_injective hn)⟩

/-! ## Asks one by one -/

/-- The ask is sending or waiting under this identity and has not been handed a result. -/
def Ask.Awaits (a : Ask) (k : String) : Prop := a.phase.Live k ∧ a.reply = none

theorem Live.request {phase : AskPhase} {k : String} (h : phase.Live k) :
    ∃ request, phase.request = some request ∧ request.requestId = k := by
  cases phase with
  | sending request => exact ⟨request, rfl, h⟩
  | waiting request => exact ⟨request, rfl, h⟩
  | _ => exact absurd h id

theorem CompletedWith.request {phase : AskPhase} {request : LlmTurnRequest}
    {result : LlmTurnResult} (h : phase.CompletedWith request result) :
    phase.request = some request := by
  cases phase with
  | completed r s => exact congrArg some h.1
  | returned r s answer => exact congrArg some h.1
  | _ => exact absurd h id

theorem Live.not_early {phase : AskPhase} {k : String} (h : phase.Live k) : ¬phase.Early := by
  cases phase with
  | sending request => exact id
  | waiting request => exact id
  | _ => exact absurd h id

theorem Live.not_completed {phase : AskPhase} {k : String} (h : phase.Live k)
    (request : LlmTurnRequest) (result : LlmTurnResult) : ¬phase.CompletedWith request result := by
  cases phase with
  | sending _ => exact id
  | waiting _ => exact id
  | _ => exact absurd h id

section

variable {α : Type} {l : List α} {i j : ℕ} {a b : α}

theorem set_get (h : (l.set i a)[j]? = some b) : (j = i ∧ b = a) ∨ (j ≠ i ∧ l[j]? = some b) := by
  rw [List.getElem?_set] at h
  by_cases hij : i = j
  · rw [if_pos hij] at h
    split_ifs at h
    exact .inl ⟨hij.symm, (Option.some.inj h).symm⟩
  · rw [if_neg hij] at h
    exact .inr ⟨fun he => hij he.symm, h⟩

theorem set_get_self (h : l[i]? = some b) : (l.set i a)[i]? = some a := by
  obtain ⟨hlt, _⟩ := List.getElem?_eq_some_iff.mp h
  exact List.getElem?_set_self hlt

theorem set_get_other (h : j ≠ i) : (l.set i a)[j]? = l[j]? := List.getElem?_set_ne h.symm

theorem concat_get (h : (l ++ [a])[j]? = some b) : (j = l.length ∧ b = a) ∨ l[j]? = some b := by
  rcases Nat.lt_trichotomy j l.length with hj | rfl | hj
  · rw [List.getElem?_append_left hj] at h
    exact .inr h
  · rw [List.getElem?_concat_length] at h
    exact .inl ⟨rfl, (Option.some.inj h).symm⟩
  · rw [List.getElem?_eq_none (by simp; omega)] at h
    cases h

theorem concat_get_old (h : l[j]? = some b) : (l ++ [a])[j]? = some b := by
  obtain ⟨hlt, _⟩ := List.getElem?_eq_some_iff.mp h
  rw [List.getElem?_append_left hlt, h]

end

section

variable {delivered : ℕ → Option ℕ} {n i : ℕ}

/-- The message that arrives next is a new one for every ask. -/
theorem fresh_bounded (h : ∀ j l, delivered j = some l → l < n) :
    ∀ j l, Function.update delivered i (some n) j = some l → l < n + 1 := by
  intro j l hl
  by_cases hj : j = i
  · rw [hj, Function.update_self] at hl
    rw [← Option.some.inj hl]
    exact Nat.lt_succ_self n
  · rw [Function.update_of_ne hj] at hl
    exact (h j l hl).trans (Nat.lt_succ_self n)

theorem fresh_injective (h : ∀ j l, delivered j = some l → l < n)
    (hinj : ∀ j j' l, delivered j = some l → delivered j' = some l → j = j') :
    ∀ j j' l, Function.update delivered i (some n) j = some l →
      Function.update delivered i (some n) j' = some l → j = j' := by
  intro j j' l hl hl'
  by_cases hj : j = i
  · by_cases hj' : j' = i
    · rw [hj, hj']
    · rw [hj, Function.update_self] at hl
      rw [Function.update_of_ne hj'] at hl'
      exact absurd (h j' l hl') (Option.some.inj hl ▸ Nat.lt_irrefl n)
  · by_cases hj' : j' = i
    · rw [hj', Function.update_self] at hl'
      rw [Function.update_of_ne hj] at hl
      exact absurd (h j l hl) (Option.some.inj hl' ▸ Nat.lt_irrefl n)
    · rw [Function.update_of_ne hj] at hl
      rw [Function.update_of_ne hj'] at hl'
      exact hinj j j' l hl hl'

end

/-! ## The invariant -/

/-- Drawn request identities come from the counter, and no two asks have the same one. -/
structure Identified (asks : List Ask) (next : ℕ) : Prop where
  drawn : ∀ (i : ℕ) (a : Ask) (request : LlmTurnRequest), asks[i]? = some a →
    a.phase.request = some request → ∃ n, n < next ∧ request.requestId = requestIdOf a.roomId n
  distinct : ∀ (i j : ℕ) (a b : Ask) (r s : LlmTurnRequest), asks[i]? = some a →
    asks[j]? = some b → a.phase.request = some r → b.phase.request = some s →
      r.requestId = s.requestId → i = j

/-- The table holds exactly the asks that await a result. -/
structure Tabled (asks : List Ask) (pending : ExtTreeMap String PendingTurn) : Prop where
  owned : ∀ (k : String) (turn : PendingTurn), pending[k]? = some turn → ∃ a,
    asks[turn.reply]? = some a ∧ a.Awaits k ∧ turn.expectedSource = a.target
  awaited : ∀ (i : ℕ) (a : Ask) (k : String), asks[i]? = some a → a.Awaits k →
    pending[k]? = some ⟨a.target, i⟩

/-- Message number `j` carried this result for this request from the ask's target. -/
structure Carried (received : List RoutedMessage) (a : Ask) (request : LlmTurnRequest)
    (result : LlmTurnResult) (j : ℕ) (m : RoutedMessage) : Prop where
  taken : received[j]? = some m
  source : m.source = a.target
  kind : m.message.kind = turnResultKind
  decoded : LlmTurnResult.codec.decode m.message.payload = some result
  requestId : result.requestId = request.requestId

/-- Every result in a reply channel was carried by a message of its own. -/
structure Replied (asks : List Ask) (received : List RoutedMessage)
    (delivered : ℕ → Option ℕ) : Prop where
  early : ∀ (i : ℕ) (a : Ask), asks[i]? = some a → a.phase.Early → a.reply = none
  handed : ∀ (i : ℕ) (a : Ask) (request : LlmTurnRequest) (result : LlmTurnResult),
    asks[i]? = some a → a.phase.request = some request → a.reply = some result →
      ∃ j m, delivered i = some j ∧ Carried received a request result j m
  completed : ∀ (i : ℕ) (a : Ask) (request : LlmTurnRequest) (result : LlmTurnResult),
    asks[i]? = some a → a.phase.CompletedWith request result → a.reply = some result
  bounded : ∀ i j, delivered i = some j → j < received.length
  injective : ∀ i i' j, delivered i = some j → delivered i' = some j → i = i'

section

variable {asks : List Ask} {next : ℕ} {pending : ExtTreeMap String PendingTurn}
  {received : List RoutedMessage} {delivered : ℕ → Option ℕ} {i : ℕ} {a b : Ask}

theorem Identified.set (h : Identified asks next) (hi : asks[i]? = some a)
    (hroom : b.roomId = a.roomId)
    (hrequest : ∀ request, b.phase.request = some request → a.phase.request = some request) :
    Identified (asks.set i b) next := by
  constructor
  · intro j c request hc hr
    rcases set_get hc with ⟨rfl, rfl⟩ | ⟨_, hc⟩
    · rw [hroom]
      exact h.drawn j a request hi (hrequest request hr)
    · exact h.drawn j c request hc hr
  · intro j j' c c' r s hc hc' hr hs he
    rcases set_get hc with ⟨rfl, rfl⟩ | ⟨_, hold⟩
    · rcases set_get hc' with ⟨rfl, rfl⟩ | ⟨_, hold'⟩
      · rfl
      · exact h.distinct j j' a c' r s hi hold' (hrequest r hr) hs he
    · rcases set_get hc' with ⟨rfl, rfl⟩ | ⟨_, hold'⟩
      · exact h.distinct j j' c a r s hold hi hr (hrequest s hs) he
      · exact h.distinct j j' c c' r s hold hold' hr hs he

/-- The identity made from the counter is new. -/
theorem Identified.number (h : Identified asks next) {request : LlmTurnRequest}
    (hb : b.phase.request = some request)
    (hid : request.requestId = requestIdOf b.roomId next) :
    Identified (asks.set i b) (next + 1) := by
  have hfresh : ∀ (j : ℕ) (c : Ask) (r : LlmTurnRequest), asks[j]? = some c →
      c.phase.request = some r → r.requestId ≠ request.requestId := by
    intro j c r hc hr he
    obtain ⟨n, hn, hdrawn⟩ := h.drawn j c r hc hr
    rw [hdrawn, hid] at he
    exact Nat.ne_of_lt hn (requestIdOf_injective he).2
  constructor
  · intro j c r hc hr
    rcases set_get hc with ⟨rfl, rfl⟩ | ⟨_, hc⟩
    · obtain rfl := Option.some.inj (hb.symm.trans hr)
      exact ⟨next, Nat.lt_succ_self _, hid⟩
    · obtain ⟨n, hn, hdrawn⟩ := h.drawn j c r hc hr
      exact ⟨n, hn.trans (Nat.lt_succ_self _), hdrawn⟩
  · intro j j' c c' r s hc hc' hr hs he
    rcases set_get hc with ⟨rfl, rfl⟩ | ⟨_, hold⟩
    · rcases set_get hc' with ⟨rfl, rfl⟩ | ⟨_, hold'⟩
      · rfl
      · obtain rfl := Option.some.inj (hb.symm.trans hr)
        exact absurd he.symm (hfresh j' c' s hold' hs)
    · rcases set_get hc' with ⟨rfl, rfl⟩ | ⟨_, hold'⟩
      · obtain rfl := Option.some.inj (hb.symm.trans hs)
        exact absurd he (hfresh j c r hold hr)
      · exact h.distinct j j' c c' r s hold hold' hr hs he

theorem Identified.call (h : Identified asks next) (hb : b.phase.request = none) :
    Identified (asks ++ [b]) next := by
  have hold : ∀ {j : ℕ} {c : Ask} {r : LlmTurnRequest}, (asks ++ [b])[j]? = some c →
      c.phase.request = some r → asks[j]? = some c := by
    intro j c r hc hr
    rcases concat_get hc with ⟨_, rfl⟩ | hc
    · rw [hb] at hr
      cases hr
    · exact hc
  exact ⟨fun j c r hc hr => h.drawn j c r (hold hc hr) hr,
    fun j j' c c' r s hc hc' hr hs => h.distinct j j' c c' r s (hold hc hr) (hold hc' hs) hr hs⟩

theorem Tabled.set (h : Tabled asks pending) (hi : asks[i]? = some a)
    (htarget : b.target = a.target) (hawaits : ∀ k, b.Awaits k ↔ a.Awaits k) :
    Tabled (asks.set i b) pending := by
  constructor
  · intro k turn hturn
    obtain ⟨c, hc, hcawaits, hsource⟩ := h.owned k turn hturn
    by_cases hj : turn.reply = i
    · rw [hj] at hc ⊢
      obtain rfl := Option.some.inj (hi.symm.trans hc)
      exact ⟨b, set_get_self hi, (hawaits k).mpr hcawaits, hsource.trans htarget.symm⟩
    · exact ⟨c, (set_get_other hj).trans hc, hcawaits, hsource⟩
  · intro j c k hc hcawaits
    rcases set_get hc with ⟨rfl, rfl⟩ | ⟨_, hc⟩
    · rw [htarget]
      exact h.awaited j a k hi ((hawaits k).mp hcawaits)
    · exact h.awaited j c k hc hcawaits

/-- An ask starts to await a result under an identity that nobody awaits one under. -/
theorem Tabled.insert (h : Tabled asks pending) (hi : asks[i]? = some a) {k : String}
    (ha : ∀ l, ¬a.Awaits l) (hb : ∀ l, b.Awaits l ↔ l = k)
    (hfree : ∀ (j : ℕ) (c : Ask), asks[j]? = some c → ¬c.Awaits k) :
    Tabled (asks.set i b) (pending.insert k ⟨b.target, i⟩) := by
  have hget : ∀ l, (pending.insert k ⟨b.target, i⟩)[l]? =
      if k = l then some ⟨b.target, i⟩ else pending[l]? := by
    intro l
    simp only [ExtTreeMap.getElem?_insert, LawfulEqOrd.compare_eq_iff_eq]
  constructor
  · intro l turn hturn
    rw [hget] at hturn
    split_ifs at hturn with hl
    · obtain rfl := Option.some.inj hturn
      exact ⟨b, set_get_self hi, (hb l).mpr hl.symm, rfl⟩
    · obtain ⟨c, hc, hcawaits, hsource⟩ := h.owned l turn hturn
      have hj : turn.reply ≠ i := by
        intro hj
        rw [hj] at hc
        obtain rfl := Option.some.inj (hi.symm.trans hc)
        exact ha l hcawaits
      exact ⟨c, (set_get_other hj).trans hc, hcawaits, hsource⟩
  · intro j c l hc hcawaits
    rw [hget]
    rcases set_get hc with ⟨rfl, rfl⟩ | ⟨_, hc⟩
    · rw [if_pos ((hb l).mp hcawaits).symm]
    · rw [if_neg fun hl : k = l => hfree j c hc (by rw [hl]; exact hcawaits)]
      exact h.awaited j c l hc hcawaits

/-- An ask no longer awaits its result. -/
theorem Tabled.erase (h : Tabled asks pending) (hi : asks[i]? = some a) {k : String}
    (ha : ∀ l, a.Awaits l → l = k) (hb : ∀ l, ¬b.Awaits l)
    (hfree : ∀ (j : ℕ) (c : Ask), asks[j]? = some c → j ≠ i → ¬c.Awaits k) :
    Tabled (asks.set i b) (pending.erase k) := by
  have hget : ∀ l, (pending.erase k)[l]? = if k = l then none else pending[l]? := by
    intro l
    simp only [ExtTreeMap.getElem?_erase, LawfulEqOrd.compare_eq_iff_eq]
  constructor
  · intro l turn hturn
    rw [hget] at hturn
    split_ifs at hturn with hl
    obtain ⟨c, hc, hcawaits, hsource⟩ := h.owned l turn hturn
    have hj : turn.reply ≠ i := by
      intro hj
      rw [hj] at hc
      obtain rfl := Option.some.inj (hi.symm.trans hc)
      exact hl (ha l hcawaits).symm
    exact ⟨c, (set_get_other hj).trans hc, hcawaits, hsource⟩
  · intro j c l hc hcawaits
    rw [hget]
    rcases set_get hc with ⟨rfl, rfl⟩ | ⟨hj, hc⟩
    · exact absurd hcawaits (hb l)
    · rw [if_neg fun hl : k = l => hfree j c hc hj (by rw [hl]; exact hcawaits)]
      exact h.awaited j c l hc hcawaits

theorem Tabled.call (h : Tabled asks pending) (hb : ∀ k, ¬b.Awaits k) :
    Tabled (asks ++ [b]) pending := by
  constructor
  · intro k turn hturn
    obtain ⟨c, hc, hcawaits, hsource⟩ := h.owned k turn hturn
    exact ⟨c, concat_get_old hc, hcawaits, hsource⟩
  · intro j c k hc hcawaits
    rcases concat_get hc with ⟨_, rfl⟩ | hc
    · exact absurd hcawaits (hb k)
    · exact h.awaited j c k hc hcawaits

/-- An ask moves on with the reply it has. -/
theorem Replied.set (h : Replied asks received delivered) (hi : asks[i]? = some a)
    (htarget : b.target = a.target) (hreply : b.reply = a.reply)
    (hrequest : ∀ request, b.phase.request = some request →
      a.phase.request = some request ∨ b.reply = none)
    (hearly : b.phase.Early → a.phase.Early)
    (hcompleted : ∀ request result, b.phase.CompletedWith request result →
      a.reply = some result) : Replied (asks.set i b) received delivered := by
  constructor
  · intro j c hc hcearly
    rcases set_get hc with ⟨rfl, rfl⟩ | ⟨_, hc⟩
    · rw [hreply]
      exact h.early j a hi (hearly hcearly)
    · exact h.early j c hc hcearly
  · intro j c request result hc hr hcreply
    rcases set_get hc with ⟨rfl, rfl⟩ | ⟨_, hc⟩
    · rcases hrequest request hr with hr | hnone
      · obtain ⟨l, m, hl, hm⟩ := h.handed j a request result hi hr (hreply.symm.trans hcreply)
        exact ⟨l, m, hl, hm.taken, hm.source.trans htarget.symm, hm.kind, hm.decoded, hm.requestId⟩
      · rw [hnone] at hcreply
        cases hcreply
    · exact h.handed j c request result hc hr hcreply
  · intro j c request result hc hdone
    rcases set_get hc with ⟨rfl, rfl⟩ | ⟨_, hc⟩
    · rw [hreply]
      exact hcompleted request result hdone
    · exact h.completed j c request result hc hdone
  · exact h.bounded
  · exact h.injective

theorem Replied.call (h : Replied asks received delivered) (hnone : b.reply = none)
    (hb : ∀ request result, ¬b.phase.CompletedWith request result) :
    Replied (asks ++ [b]) received delivered := by
  constructor
  · intro j c hc hcearly
    rcases concat_get hc with ⟨_, rfl⟩ | hc
    · exact hnone
    · exact h.early j c hc hcearly
  · intro j c request result hc hr hreply
    rcases concat_get hc with ⟨_, rfl⟩ | hc
    · rw [hnone] at hreply
      cases hreply
    · exact h.handed j c request result hc hr hreply
  · intro j c request result hc hdone
    rcases concat_get hc with ⟨_, rfl⟩ | hc
    · exact absurd hdone (hb request result)
    · exact h.completed j c request result hc hdone
  · exact h.bounded
  · exact h.injective

/-- A message is taken and handed to nobody. -/
theorem Replied.take (h : Replied asks received delivered) (m : RoutedMessage) :
    Replied asks (received ++ [m]) delivered := by
  refine ⟨h.early, fun j c request result hc hr hreply => ?_, h.completed, fun j l hl => ?_,
    h.injective⟩
  · obtain ⟨l, n, hl, hn⟩ := h.handed j c request result hc hr hreply
    exact ⟨l, n, hl, concat_get_old hn.taken, hn.source, hn.kind, hn.decoded, hn.requestId⟩
  · rw [List.length_append]
    exact (h.bounded j l hl).trans_le (Nat.le_add_right _ _)

/-- A message is taken and its result handed to the ask that awaits it. -/
theorem Replied.hand (h : Replied asks received delivered) (hi : asks[i]? = some a)
    {request : LlmTurnRequest} (hrequest : a.phase.request = some request)
    (hlive : a.phase.Live request.requestId) {m : RoutedMessage} {result : LlmTurnResult}
    (hm : Carried (received ++ [m]) a request result received.length m) :
    Replied (asks.set i {a with reply := some result}) (received ++ [m])
      (Function.update delivered i (some received.length)) := by
  have htaken := h.take m
  refine ⟨?_, ?_, ?_, by simpa using fresh_bounded h.bounded, fresh_injective h.bounded h.injective⟩
  · intro j c hc hcearly
    rcases set_get hc with ⟨rfl, rfl⟩ | ⟨_, hc⟩
    · exact absurd hcearly (Live.not_early hlive)
    · exact h.early j c hc hcearly
  · intro j c r s hc hr hreply
    rcases set_get hc with ⟨rfl, rfl⟩ | ⟨hj, hc⟩
    · obtain rfl := Option.some.inj (hrequest.symm.trans hr)
      obtain rfl := Option.some.inj hreply
      exact ⟨received.length, m, Function.update_self _ _ _, hm.taken, hm.source, hm.kind,
        hm.decoded, hm.requestId⟩
    · rw [Function.update_of_ne hj]
      exact htaken.handed j c r s hc hr hreply
  · intro j c r s hc hdone
    rcases set_get hc with ⟨rfl, rfl⟩ | ⟨_, hc⟩
    · exact absurd hdone (Live.not_completed hlive r s)
    · exact h.completed j c r s hc hdone

end

/-! ## Every step keeps the invariant -/

structure Tracked (w : Turns) : Prop where
  identified : Identified w.asks w.nextRequest
  tabled : Tabled w.asks w.pending
  replied : ∃ delivered, Replied w.asks w.received delivered

section

variable {isAlphanumeric : Char → Bool} {w w' : Turns} {i : ℕ} {a : Ask}

theorem tracked_launched : Tracked Turns.launched := by
  refine ⟨⟨?_, ?_⟩, ⟨?_, ?_⟩, fun _ => none, ⟨?_, ?_, ?_, ?_, ?_⟩⟩ <;> simp [Turns.launched]

/-- An ask moves on and neither starts nor stops to await a result. -/
theorem Tracked.move (h : Tracked w) {phase : AskPhase} (hi : w.asks[i]? = some a)
    (hrequest : ∀ request, phase.request = some request → a.phase.request = some request)
    (hlive : a.reply = none → ∀ k, phase.Live k ↔ a.phase.Live k)
    (hearly : phase.Early → a.phase.Early)
    (hcompleted : ∀ request result, phase.CompletedWith request result →
      a.reply = some result) : Tracked (w.move i a phase) := by
  obtain ⟨delivered, hreplied⟩ := h.replied
  have hawaits : ∀ k, ({a with phase := phase} : Ask).Awaits k ↔ a.Awaits k :=
    fun k => and_congr_left fun hnone => hlive hnone k
  exact ⟨h.identified.set hi rfl hrequest, h.tabled.set hi rfl hawaits,
    delivered, hreplied.set hi rfl rfl (fun request hr => .inl (hrequest request hr)) hearly
      hcompleted⟩

/-- Nobody else awaits a result under the identity that an ask has drawn. -/
theorem Identified.unawaited {asks : List Ask} {next : ℕ} (h : Identified asks next)
    (hi : asks[i]? = some a) {request : LlmTurnRequest} (hrequest : a.phase.request = some request)
    {j : ℕ} {c : Ask} (hj : asks[j]? = some c) (hne : j ≠ i) : ¬c.Awaits request.requestId := by
  rintro ⟨hlive, _⟩
  obtain ⟨r, hr, hid⟩ := Live.request hlive
  exact hne (h.distinct j i c a r request hj hi hr hrequest hid)

theorem Tracked.number (h : Tracked w) {taken : LlmOrigin × List LlmContextMessage}
    (hi : w.asks[i]? = some a) (hphase : a.phase = .snapshotted taken) :
    Tracked {w.move i a (.numbered
      (askRequest (requestIdOf a.roomId w.nextRequest) a.prompt a.turnKind taken)) with
        nextRequest := w.nextRequest + 1} := by
  obtain ⟨delivered, hreplied⟩ := h.replied
  have hearly : a.phase.Early := by rw [hphase]; exact trivial
  have hnone := hreplied.early i a hi hearly
  refine ⟨h.identified.number rfl rfl, h.tabled.set hi rfl fun k => ?_, delivered,
    hreplied.set hi rfl rfl (fun _ _ => .inr hnone) (fun _ => hearly) ?_⟩
  · simp [Ask.Awaits, hphase, AskPhase.Live]
  · simp [AskPhase.CompletedWith]

theorem Tracked.insert (h : Tracked w) {request : LlmTurnRequest} (hi : w.asks[i]? = some a)
    (hphase : a.phase = .numbered request) :
    Tracked {w.move i a (.sending request) with
      pending := w.pending.insert request.requestId ⟨a.target, i⟩} := by
  obtain ⟨delivered, hreplied⟩ := h.replied
  have hdrawn : a.phase.request = some request := by rw [hphase]; rfl
  have hnone := hreplied.early i a hi (by rw [hphase]; exact trivial)
  have hidle : ∀ k, ¬a.Awaits k := by simp [Ask.Awaits, hphase, AskPhase.Live]
  refine ⟨h.identified.set hi rfl fun r hr => ?_, h.tabled.insert hi hidle (fun k => ?_) ?_,
    delivered, hreplied.set hi rfl rfl (fun _ _ => .inr hnone) ?_ ?_⟩
  · rw [hdrawn]
    exact hr
  · simp [Ask.Awaits, AskPhase.Live, hnone, eq_comm]
  · intro j c hj
    by_cases hne : j = i
    · obtain rfl := Option.some.inj ((hne ▸ hj).symm.trans hi)
      exact hidle _
    · exact h.identified.unawaited hi hdrawn hj hne
  · exact fun hearly => absurd hearly id
  · exact fun _ _ hdone => absurd hdone id

theorem Tracked.sendFailed (h : Tracked w) {request : LlmTurnRequest} (hi : w.asks[i]? = some a)
    (hphase : a.phase = .sending request) (error : ChatError) :
    Tracked {w.move i a (.failed error) with
      pending := w.pending.erase request.requestId} := by
  obtain ⟨delivered, hreplied⟩ := h.replied
  have hdrawn : a.phase.request = some request := by rw [hphase]; rfl
  refine ⟨h.identified.set hi rfl (fun _ hr => nomatch hr), h.tabled.erase hi ?_ ?_ ?_,
    delivered, hreplied.set hi rfl rfl (fun _ hr => nomatch hr) ?_ ?_⟩
  · rintro k ⟨hlive, _⟩
    rw [hphase] at hlive
    exact hlive.symm
  · rintro k ⟨hlive, _⟩
    exact hlive
  · exact fun j c hj hne => h.identified.unawaited hi hdrawn hj hne
  · exact fun hearly => absurd hearly id
  · exact fun _ _ hdone => absurd hdone id

/-- The message ends the turn `turn` with the result `result`. -/
structure Settles (w : Turns) (m : RoutedMessage) (result : LlmTurnResult) (turn : PendingTurn) :
    Prop where
  kind : m.message.kind = turnResultKind
  decoded : LlmTurnResult.codec.decode m.message.payload = some result
  entry : w.pending[result.requestId]? = some turn
  source : turn.expectedSource = m.source

theorem receive_cases (w : Turns) (m : RoutedMessage) :
    ((∀ result turn, ¬Settles w m result turn) ∧
      w.receive m = {w with received := w.received ++ [m]}) ∨
    ∃ result turn, Settles w m result turn ∧ w.receive m =
      ⟨w.pending.erase result.requestId, w.nextRequest,
        w.asks.modify turn.reply fun ask => {ask with reply := some result},
        w.received ++ [m]⟩ := by
  by_cases hkind : m.message.kind = turnResultKind
  · cases hdecode : LlmTurnResult.codec.decode m.message.payload with
    | none =>
        refine .inl ⟨fun result turn h => ?_, by simp [Turns.receive, hdecode]⟩
        exact absurd (hdecode.symm.trans h.decoded) nofun
    | some result =>
        have hsame : ∀ s turn, Settles w m s turn → s = result :=
          fun s turn h => Option.some.inj (h.decoded.symm.trans hdecode)
        cases hentry : w.pending[result.requestId]? with
        | none =>
            refine .inl ⟨fun s turn h => ?_, by simp [Turns.receive, hdecode, hentry]⟩
            obtain rfl := hsame s turn h
            exact absurd (hentry.symm.trans h.entry) nofun
        | some turn =>
            by_cases hsource : turn.expectedSource = m.source
            · exact .inr ⟨result, turn, ⟨hkind, hdecode, hentry, hsource⟩,
                by simp [Turns.receive, hkind, hdecode, hentry, hsource]⟩
            · refine .inl ⟨fun s turn' h => ?_, by simp [Turns.receive, hdecode, hentry, hsource]⟩
              obtain rfl := hsame s turn' h
              obtain rfl := Option.some.inj (hentry.symm.trans h.entry)
              exact hsource h.source
  · exact .inl ⟨fun result turn h => hkind h.kind, by simp [Turns.receive, hkind]⟩

theorem Tracked.receive (h : Tracked w) (m : RoutedMessage) : Tracked (w.receive m) := by
  obtain ⟨delivered, hreplied⟩ := h.replied
  rcases receive_cases w m with ⟨_, hw⟩ | ⟨result, turn, hs, hw⟩
  · rw [hw]
    exact ⟨h.identified, h.tabled, delivered, hreplied.take m⟩
  · obtain ⟨c, hc, hawaits, hsource⟩ := h.tabled.owned _ turn hs.entry
    obtain ⟨request, hdrawn, hid⟩ := Live.request hawaits.1
    have hset : (w.asks.modify turn.reply fun ask => {ask with reply := some result}) =
        w.asks.set turn.reply {c with reply := some result} := by
      rw [List.modify_eq_set_getElem?, hc]
      rfl
    have hcarried : Carried (w.received ++ [m]) c request result w.received.length m :=
      ⟨List.getElem?_concat_length, hs.source.symm.trans hsource, hs.kind, hs.decoded, hid.symm⟩
    rw [hw, hset, ← hid]
    refine ⟨h.identified.set hc rfl fun _ hr => hr, h.tabled.erase hc ?_ ?_ ?_, _,
      hreplied.hand hc hdrawn (hid ▸ hawaits.1) hcarried⟩
    · rintro k ⟨hlive, _⟩
      obtain ⟨r, hr, rfl⟩ := Live.request hlive
      rw [Option.some.inj (hr.symm.trans hdrawn)]
    · rintro k ⟨_, hnone⟩
      cases hnone
    · exact fun j b hj hne => h.identified.unawaited hc hdrawn hj hne

/-- The channel of a waiting ask is in the table, so its other end is not gone. -/
theorem Tracked.open (h : Tracked w) {request : LlmTurnRequest} (hi : w.asks[i]? = some a)
    (hphase : a.phase = .waiting request) (hnone : a.reply = none) :
    ∃ turn, w.pending[request.requestId]? = some turn ∧ turn.reply = i :=
  ⟨_, h.tabled.awaited i a _ hi ⟨by rw [hphase]; rfl, hnone⟩, rfl⟩

theorem Tracked.step (h : Tracked w) {event : TurnEvent}
    (hstep : TurnStep isAlphanumeric w event w') : Tracked w' := by
  cases hstep with
  | call roomId member target prompt turnKind roundStart hkey =>
      obtain ⟨delivered, hreplied⟩ := h.replied
      exact ⟨h.identified.call rfl, h.tabled.call fun _ hawaits => hawaits.1, delivered,
        hreplied.call rfl fun _ _ hdone => hdone⟩
  | lock i a hi hphase _ =>
      exact h.move hi (fun _ hr => nomatch hr) (by simp [hphase, AskPhase.Live])
        (by simp [hphase, AskPhase.Early]) (fun _ _ hdone => absurd hdone id)
  | missing i a rooms error hi hphase _ =>
      exact h.move hi (fun _ hr => nomatch hr) (by simp [hphase, AskPhase.Live])
        (by simp [hphase, AskPhase.Early]) (fun _ _ hdone => absurd hdone id)
  | snapshot i a rooms taken hi hphase _ =>
      exact h.move hi (fun _ hr => nomatch hr) (by simp [hphase, AskPhase.Live])
        (by simp [hphase, AskPhase.Early]) (fun _ _ hdone => absurd hdone id)
  | number i a taken hi hphase => exact h.number hi hphase
  | insert i a request hi hphase => exact h.insert hi hphase
  | sent i a request hi hphase =>
      exact h.move hi (by simp [hphase, AskPhase.request]) (by simp [hphase, AskPhase.Live])
        (fun hearly => absurd hearly id) (fun _ _ hdone => absurd hdone id)
  | sendFailed i a request error hi hphase => exact h.sendFailed hi hphase _
  | resume i a request result hi hphase hreply =>
      refine h.move hi (by simp [hphase, AskPhase.request]) (fun hnone => ?_)
        (fun hearly => absurd hearly id) fun r s hdone => ?_
      · exact absurd (hnone.symm.trans hreply) nofun
      · rw [hreply, hdone.2]
  | closed i a request hi hphase hnone hgone =>
      obtain ⟨turn, hturn, hreply⟩ := h.open hi hphase hnone
      exact absurd hreply (hgone _ turn hturn)
  | conclude i a request result hi hphase =>
      obtain ⟨delivered, hreplied⟩ := h.replied
      refine h.move hi (by simp [hphase, AskPhase.request]) (by simp [hphase, AskPhase.Live])
        (fun hearly => absurd hearly id) fun r s hdone => ?_
      refine hreplied.completed i a r s hi ?_
      rw [hphase]
      exact hdone
  | receive m => exact h.receive m

theorem TurnRun.tracked {trace : List TurnEvent}
    (hrun : TurnRun isAlphanumeric Turns.launched trace w) : Tracked w :=
  hrun.invariant (fun _ _ _ h hstep => h.step hstep) tracked_launched

/-! ## A reply channel is used once -/

/-- What the reply channels hold stays in them. -/
def Kept (w w' : Turns) : Prop :=
  ∀ (i : ℕ) (a : Ask) (result : LlmTurnResult), w.asks[i]? = some a → a.reply = some result →
    ∃ b, w'.asks[i]? = some b ∧ b.reply = some result

theorem Kept.set {b : Ask} (hi : w.asks[i]? = some a)
    (hreply : ∀ result, a.reply = some result → b.reply = some result)
    (hw : w'.asks = w.asks.set i b) : Kept w w' := by
  intro j c result hj hc
  rw [hw]
  by_cases hne : j = i
  · subst hne
    obtain rfl := Option.some.inj (hi.symm.trans hj)
    exact ⟨b, set_get_self hi, hreply result hc⟩
  · exact ⟨c, (set_get_other hne).trans hj, hc⟩

/-- An ask that only moves on keeps its reply. -/
theorem Kept.move {phase : AskPhase} (hi : w.asks[i]? = some a)
    (hw : w'.asks = w.asks.set i {a with phase := phase}) : Kept w w' :=
  .set (b := {a with phase := phase}) hi (fun _ h => h) hw

theorem Tracked.receive_kept (h : Tracked w) (m : RoutedMessage) : Kept w (w.receive m) := by
  rcases receive_cases w m with ⟨_, hw⟩ | ⟨result, turn, hs, hw⟩
  · rw [hw]
    exact fun i a s hi hreply => ⟨a, hi, hreply⟩
  · obtain ⟨c, hc, hawaits, _⟩ := h.tabled.owned _ turn hs.entry
    refine Kept.set (b := {c with reply := some result}) hc (fun s hreply => ?_) ?_
    · exact absurd (hawaits.2.symm.trans hreply) nofun
    · rw [hw, List.modify_eq_set_getElem?, hc]
      rfl

theorem Tracked.step_kept (h : Tracked w) {event : TurnEvent}
    (hstep : TurnStep isAlphanumeric w event w') : Kept w w' := by
  cases hstep with
  | call roomId member target prompt turnKind roundStart hkey =>
      exact fun i a result hi hreply => ⟨a, concat_get_old hi, hreply⟩
  | lock i a hi _ _ => exact .move hi rfl
  | missing i a rooms error hi _ _ => exact .move hi rfl
  | snapshot i a rooms taken hi _ _ => exact .move hi rfl
  | number i a taken hi _ => exact .move hi rfl
  | insert i a request hi _ => exact .move hi rfl
  | sent i a request hi _ => exact .move hi rfl
  | sendFailed i a request error hi _ => exact .move hi rfl
  | resume i a request result hi _ _ => exact .move hi rfl
  | closed i a request hi _ _ _ => exact .move hi rfl
  | conclude i a request result hi _ => exact .move hi rfl
  | receive m => exact h.receive_kept m

theorem TurnRun.kept {trace : List TurnEvent} (hw : Tracked w)
    (hrun : TurnRun isAlphanumeric w trace w') : Kept w w' :=
  hrun.relates (fun _ _ _ h hstep => h.step hstep) (fun _ i a result hi h => ⟨a, hi, h⟩)
    (fun _ _ _ h g i a result hi ha => by
      obtain ⟨b, hb, hreply⟩ := h i a result hi ha
      exact g i b result hb hreply)
    (fun _ _ _ h hstep => h.step_kept hstep) hw

end

/-! ## The correlation of replies -/

theorem Tabled.mem_iff {asks : List Ask} {pending : ExtTreeMap String PendingTurn}
    (h : Tabled asks pending) (k : String) :
    k ∈ pending ↔ ∃ (i : ℕ) (a : Ask), asks[i]? = some a ∧ a.Awaits k := by
  rw [ExtTreeMap.mem_iff_isSome_getElem?, Option.isSome_iff_exists]
  constructor
  · rintro ⟨turn, hturn⟩
    obtain ⟨a, ha, hawaits, _⟩ := h.owned k turn hturn
    exact ⟨turn.reply, a, ha, hawaits⟩
  · rintro ⟨i, a, hi, hawaits⟩
    exact ⟨_, h.awaited i a k hi hawaits⟩

theorem Identified.unique {asks : List Ask} {next : ℕ} (h : Identified asks next) {i j : ℕ}
    {a b : Ask} {k : String} (hi : asks[i]? = some a) (hj : asks[j]? = some b)
    (ha : a.phase.Live k) (hb : b.phase.Live k) : i = j := by
  obtain ⟨r, hr, hid⟩ := Live.request ha
  obtain ⟨s, hs, hid'⟩ := Live.request hb
  exact h.distinct i j a b r s hi hj hr hs (hid.trans hid'.symm)

theorem Tracked.foreign {w : Turns} (h : Tracked w) {m : RoutedMessage}
    (hforeign : ∀ (i : ℕ) (a : Ask) (result : LlmTurnResult), w.asks[i]? = some a →
      LlmTurnResult.codec.decode m.message.payload = some result → a.Awaits result.requestId →
        a.target ≠ m.source) : (w.receive m).pending = w.pending := by
  rcases receive_cases w m with ⟨_, hw⟩ | ⟨result, turn, hs, _⟩
  · rw [hw]
  · obtain ⟨a, ha, hawaits, hsource⟩ := h.tabled.owned _ turn hs.entry
    exact absurd (hsource.symm.trans hs.source) (hforeign _ a result ha hs.decoded hawaits)

/-! ## An early reply -/

def soloRoom : ChatRoom :=
  ⟨1, "Codex", ["codex"], [⟨1, "user", "你", "hello", 1, [], []⟩], true, none, false, 0, 1, false,
    false⟩

def soloRequest : LlmTurnRequest :=
  askRequest "chat-1-1" "hello" .direct
    (⟨.solo, 1, "Codex", false⟩, [⟨1, 1, "Codex", "user", "你", "hello", 1, []⟩])

end NormaHarness.Asks
