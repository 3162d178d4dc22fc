import Mathlib

/-!
# Relays

A relay takes requests from many sources, forwards each under a name of its own to a
server, and hands the server's result back to the source under the tag the source
had chosen. Sources may repeat tags; names come from a counter that the relay may
share with other relays. Queries and results may be lost, and they arrive in any
order. Whatever happens, every result sent out belongs to a request of its own.
-/
namespace Relays
open Std

/-- What a relay does with its messages. A result names the query it answers. -/
structure Relay (Source Tag Request Query Result : Type*) where
  tag : Request → Tag
  refusal : Request → Option Result
  failed : Request → String → Result
  forward : Request → Source → String → Query
  name : ℕ → String
  name_injective : Function.Injective name
  key : Result → String
  retag : Result → Tag → Result

/-- A relay's table and counter, the messages in flight, and what was taken, computed by
the server and sent so far. -/
structure Lane (Source Tag Request Query Result : Type*) where
  table : ExtTreeMap String (Source × Tag)
  next : ℕ
  queries : List Query
  answers : List Result
  taken : List (Source × Request)
  computed : List (Query × Result)
  sent : List (Source × Result)

variable {Source Tag Request Query Result : Type*}
  {relay : Relay Source Tag Request Query Result}

/-- A message that the network may lose at once. -/
def inFlight {α : Type*} (arrives : Bool) (message : α) : List α :=
  if arrives then [message] else []

theorem mem_inFlight {α : Type*} {arrives : Bool} {message m : α}
    (h : m ∈ inFlight arrives message) : m = message := by
  unfold inFlight at h
  split_ifs at h
  · exact List.mem_singleton.mp h
  · cases h

theorem removed_subset {α : Type*} {l before after : List α} {x : α}
    (h : l = before ++ x :: after) : before ++ after ⊆ l := by
  subst h
  intro y hy
  rcases List.mem_append.mp hy with hy | hy
  · exact List.mem_append_left _ hy
  · exact List.mem_append_right _ (List.mem_cons_of_mem _ hy)

inductive LaneStep (relay : Relay Source Tag Request Query Result) :
    Lane Source Tag Request Query Result → Lane Source Tag Request Query Result → Prop
  /-- The counter is drawn from elsewhere. -/
  | skip (lane) : LaneStep relay lane {lane with next := lane.next + 1}
  | refuse (lane) (source : Source) (request : Request) (result : Result) :
      relay.refusal request = some result →
      LaneStep relay lane {lane with
        taken := lane.taken ++ [(source, request)]
        sent := lane.sent ++ [(source, result)]}
  | forward (lane) (source : Source) (request : Request) (arrives : Bool) :
      LaneStep relay lane {lane with
        table := lane.table.insert (relay.name lane.next) (source, relay.tag request)
        next := lane.next + 1
        queries := lane.queries ++
          inFlight arrives (relay.forward request source (relay.name lane.next))
        taken := lane.taken ++ [(source, request)]}
  /-- The query could not be sent, though it may have got through. -/
  | fail (lane) (source : Source) (request : Request) (error : String) (arrives : Bool) :
      LaneStep relay lane {lane with
        table := (lane.table.insert (relay.name lane.next) (source, relay.tag request)).erase
          (relay.name lane.next)
        next := lane.next + 1
        queries := lane.queries ++
          inFlight arrives (relay.forward request source (relay.name lane.next))
        taken := lane.taken ++ [(source, request)]
        sent := lane.sent ++ [(source, relay.failed request error)]}
  /-- The server answers under the name of the query. -/
  | compute (lane) (before after : List Query) (query : Query) (result : Result)
      (arrives : Bool) :
      lane.queries = before ++ query :: after →
      (∀ request source name, query = relay.forward request source name → relay.key result = name) →
      LaneStep relay lane {lane with
        queries := before ++ after
        answers := lane.answers ++ inFlight arrives result
        computed := lane.computed ++ [(query, result)]}
  | handBack (lane) (before after : List Result) (result : Result) (source : Source) (tag : Tag) :
      lane.answers = before ++ result :: after →
      lane.table[relay.key result]? = some (source, tag) →
      LaneStep relay lane {lane with
        table := lane.table.erase (relay.key result)
        answers := before ++ after
        sent := lane.sent ++ [(source, relay.retag result tag)]}
  | loseQuery (lane) (before after : List Query) (query : Query) :
      lane.queries = before ++ query :: after →
      LaneStep relay lane {lane with queries := before ++ after}
  | loseAnswer (lane) (before after : List Result) (result : Result) :
      lane.answers = before ++ result :: after →
      LaneStep relay lane {lane with answers := before ++ after}

/-- A result sent out is right for a request: it goes to its source, and it is the
immediate refusal or failure, or what the server computed for it, under its tag. -/
def Serves (relay : Relay Source Tag Request Query Result) (computed : List (Query × Result))
    (taken : Source × Request) (sent : Source × Result) : Prop :=
  sent.1 = taken.1 ∧
    (relay.refusal taken.2 = some sent.2 ∨ (∃ error, sent.2 = relay.failed taken.2 error) ∨
      ∃ name result, (relay.forward taken.2 taken.1 name, result) ∈ computed ∧
        sent.2 = relay.retag result (relay.tag taken.2))

/-- Request number `i` was forwarded under the counter value `a`. -/
structure Forwarded (relay : Relay Source Tag Request Query Result)
    (lane : Lane Source Tag Request Query Result) (origin : ℕ → Option ℕ) (a i : ℕ)
    (source : Source) (request : Request) : Prop where
  origin : origin a = some i
  taken : lane.taken[i]? = some (source, request)

/-- The books of a lane: which request each counter value was drawn for, and which
request each result sent so far was for. -/
structure Accounts (relay : Relay Source Tag Request Query Result)
    (lane : Lane Source Tag Request Query Result) (origin : ℕ → Option ℕ) (served : List ℕ) :
    Prop where
  bounded : ∀ a i, origin a = some i → a < lane.next ∧ i < lane.taken.length
  injective : ∀ a b i, origin a = some i → origin b = some i → a = b
  servedBounded : ∀ i ∈ served, i < lane.taken.length
  distinct : served.Nodup
  serves : List.Forall₂ (fun i sent => ∃ taken, lane.taken[i]? = some taken ∧
    Serves relay lane.computed taken sent) served lane.sent
  queries : ∀ query ∈ lane.queries, ∃ a i source request,
    Forwarded relay lane origin a i source request ∧
      query = relay.forward request source (relay.name a)
  answers : ∀ result ∈ lane.answers, ∃ a i source request,
    Forwarded relay lane origin a i source request ∧ relay.key result = relay.name a ∧
      (relay.forward request source (relay.name a), result) ∈ lane.computed
  table : ∀ (key : String) (source : Source) (tag : Tag), lane.table[key]? = some (source, tag) →
    ∃ a i request, Forwarded relay lane origin a i source request ∧ key = relay.name a ∧
      tag = relay.tag request ∧ i ∉ served

/-- The books can be kept. -/
def Accounted (relay : Relay Source Tag Request Query Result)
    (lane : Lane Source Tag Request Query Result) : Prop :=
  ∃ origin served, Accounts relay lane origin served

theorem accounted_empty (next : ℕ) :
    Accounted relay ⟨∅, next, [], [], [], [], []⟩ := by
  refine ⟨fun _ => none, [], ?_⟩
  constructor <;> simp

variable {lane lane' : Lane Source Tag Request Query Result} {origin origin' : ℕ → Option ℕ}
  {served : List ℕ}

/-! ## What later books keep -/

/-- Requests and computed results are only added, and origins are kept. -/
structure Grows (lane lane' : Lane Source Tag Request Query Result)
    (origin origin' : ℕ → Option ℕ) : Prop where
  taken : ∃ new, lane'.taken = lane.taken ++ new
  computed : ∃ new, lane'.computed = lane.computed ++ new
  origin : ∀ a i, origin a = some i → origin' a = some i

namespace Grows

theorem length_le (g : Grows lane lane' origin origin') :
    lane.taken.length ≤ lane'.taken.length := by
  obtain ⟨new, hnew⟩ := g.taken
  rw [hnew, List.length_append]
  exact Nat.le_add_right _ _

theorem getElem? (g : Grows lane lane' origin origin') {i : ℕ} {x : Source × Request}
    (h : lane.taken[i]? = some x) : lane'.taken[i]? = some x := by
  obtain ⟨new, hnew⟩ := g.taken
  obtain ⟨hi, _⟩ := List.getElem?_eq_some_iff.mp h
  rw [hnew, List.getElem?_append_left hi, h]

theorem mem_computed (g : Grows lane lane' origin origin') {x : Query × Result}
    (h : x ∈ lane.computed) : x ∈ lane'.computed := by
  obtain ⟨new, hnew⟩ := g.computed
  rw [hnew]
  exact List.mem_append_left _ h

theorem forwarded (g : Grows lane lane' origin origin') {a i : ℕ} {source : Source}
    {request : Request} (h : Forwarded relay lane origin a i source request) :
    Forwarded relay lane' origin' a i source request :=
  ⟨g.origin a i h.origin, g.getElem? h.taken⟩

theorem serves (g : Grows lane lane' origin origin') {taken : Source × Request}
    {sent : Source × Result} (h : Serves relay lane.computed taken sent) :
    Serves relay lane'.computed taken sent := by
  refine ⟨h.1, h.2.imp_right fun hlater => hlater.imp_right ?_⟩
  rintro ⟨name, result, hmem, hsent⟩
  exact ⟨name, result, g.mem_computed hmem, hsent⟩

theorem allServed (g : Grows lane lane' origin origin') {sent : List (Source × Result)}
    (h : List.Forall₂ (fun i sent => ∃ taken, lane.taken[i]? = some taken ∧
      Serves relay lane.computed taken sent) served sent) :
    List.Forall₂ (fun i sent => ∃ taken, lane'.taken[i]? = some taken ∧
      Serves relay lane'.computed taken sent) served sent := by
  refine h.imp ?_
  rintro i result ⟨taken, htaken, hserves⟩
  exact ⟨taken, g.getElem? htaken, g.serves hserves⟩

end Grows

/-! ## Keeping the books -/

theorem forall₂_concat {α β : Type*} {R : α → β → Prop} {l : List α} {k : List β} {a : α} {b : β}
    (h : List.Forall₂ R l k) (hab : R a b) : List.Forall₂ R (l ++ [a]) (k ++ [b]) := by
  induction h with
  | nil => exact .cons hab .nil
  | cons hxy _ ih => exact .cons hxy ih

namespace Accounts

/-- Messages may get lost and table entries dropped. -/
theorem weaken (h : Accounts relay lane origin served) (hnext : lane.next ≤ lane'.next)
    (htable : ∀ (key : String) (entry : Source × Tag), lane'.table[key]? = some entry →
      lane.table[key]? = some entry)
    (hqueries : lane'.queries ⊆ lane.queries) (hanswers : lane'.answers ⊆ lane.answers)
    (htaken : lane'.taken = lane.taken) (hcomputed : lane'.computed = lane.computed)
    (hsent : lane'.sent = lane.sent) : Accounts relay lane' origin served := by
  have g : Grows lane lane' origin origin :=
    ⟨⟨[], by simp [htaken]⟩, ⟨[], by simp [hcomputed]⟩, fun _ _ ha => ha⟩
  constructor
  · intro a i ha
    rw [htaken]
    exact ⟨(h.bounded a i ha).1.trans_le hnext, (h.bounded a i ha).2⟩
  · exact h.injective
  · rw [htaken]
    exact h.servedBounded
  · exact h.distinct
  · rw [hsent]
    exact g.allServed h.serves
  · intro query hquery
    obtain ⟨a, i, source, request, hf, he⟩ := h.queries query (hqueries hquery)
    exact ⟨a, i, source, request, g.forwarded hf, he⟩
  · intro result hresult
    obtain ⟨a, i, source, request, hf, hkey, hmem⟩ := h.answers result (hanswers hresult)
    exact ⟨a, i, source, request, g.forwarded hf, hkey, g.mem_computed hmem⟩
  · intro key source tag hentry
    obtain ⟨a, i, request, hf, he⟩ := h.table key source tag (htable key _ hentry)
    exact ⟨a, i, request, g.forwarded hf, he⟩

theorem refuse (h : Accounts relay lane origin served) (source : Source) {request : Request}
    {result : Result} (hrefusal : relay.refusal request = some result) :
    Accounts relay {lane with
      taken := lane.taken ++ [(source, request)]
      sent := lane.sent ++ [(source, result)]} origin (served ++ [lane.taken.length]) := by
  have g : Grows lane {lane with
      taken := lane.taken ++ [(source, request)]
      sent := lane.sent ++ [(source, result)]} origin origin :=
    ⟨⟨_, rfl⟩, ⟨[], by simp⟩, fun _ _ ha => ha⟩
  have hlength : (lane.taken ++ [(source, request)]).length = lane.taken.length + 1 := by simp
  have hnew : lane.taken.length ∉ served := fun hmem => Nat.lt_irrefl _ (h.servedBounded _ hmem)
  constructor
  · intro a i ha
    exact ⟨(h.bounded a i ha).1, (h.bounded a i ha).2.trans_le g.length_le⟩
  · exact h.injective
  · intro i hi
    simp only [hlength]
    rcases List.mem_append.mp hi with hi | hi
    · exact (h.servedBounded i hi).trans (Nat.lt_succ_self _)
    · rw [List.mem_singleton.mp hi]
      exact Nat.lt_succ_self _
  · rw [← List.concat_eq_append]
    exact h.distinct.concat hnew
  · exact forall₂_concat (g.allServed h.serves)
      ⟨(source, request), by simp, rfl, .inl hrefusal⟩
  · intro query hquery
    obtain ⟨a, i, source, request, hf, he⟩ := h.queries query hquery
    exact ⟨a, i, source, request, g.forwarded hf, he⟩
  · intro result hresult
    obtain ⟨a, i, source, request, hf, he⟩ := h.answers result hresult
    exact ⟨a, i, source, request, g.forwarded hf, he⟩
  · intro key source tag hentry
    obtain ⟨a, i, request, hf, hkey, htag, hunserved⟩ := h.table key source tag hentry
    refine ⟨a, i, request, g.forwarded hf, hkey, htag, fun hmem => ?_⟩
    rcases List.mem_append.mp hmem with hmem | hmem
    · exact hunserved hmem
    · have hi := (h.bounded a i hf.origin).2
      rw [List.mem_singleton.mp hmem] at hi
      exact Nat.lt_irrefl _ hi

/-- A request enters the books and is forwarded; it has no result yet. -/
theorem forward (h : Accounts relay lane origin served) (source : Source) (request : Request)
    (arrives : Bool) :
    Accounts relay {lane with
      table := lane.table.insert (relay.name lane.next) (source, relay.tag request)
      next := lane.next + 1
      queries := lane.queries ++
        inFlight arrives (relay.forward request source (relay.name lane.next))
      taken := lane.taken ++ [(source, request)]}
      (Function.update origin lane.next (some lane.taken.length)) served := by
  have hlength : (lane.taken ++ [(source, request)]).length = lane.taken.length + 1 := by simp
  have hnew : lane.taken.length ∉ served := fun hmem => Nat.lt_irrefl _ (h.servedBounded _ hmem)
  have hold : ∀ a i, origin a = some i →
      Function.update origin lane.next (some lane.taken.length) a = some i := by
    intro a i ha
    rw [Function.update_of_ne (Nat.ne_of_lt (h.bounded a i ha).1), ha]
  have hcases : ∀ a i, Function.update origin lane.next (some lane.taken.length) a = some i →
      (a = lane.next ∧ i = lane.taken.length) ∨ origin a = some i := by
    intro a i ha
    by_cases he : a = lane.next
    · subst he
      rw [Function.update_self] at ha
      exact .inl ⟨rfl, (Option.some.inj ha).symm⟩
    · rw [Function.update_of_ne he] at ha
      exact .inr ha
  have g : Grows lane {lane with
      table := lane.table.insert (relay.name lane.next) (source, relay.tag request)
      next := lane.next + 1
      queries := lane.queries ++
        inFlight arrives (relay.forward request source (relay.name lane.next))
      taken := lane.taken ++ [(source, request)]} origin
      (Function.update origin lane.next (some lane.taken.length)) :=
    ⟨⟨_, rfl⟩, ⟨[], by simp⟩, hold⟩
  have hlast : Forwarded relay {lane with
      table := lane.table.insert (relay.name lane.next) (source, relay.tag request)
      next := lane.next + 1
      queries := lane.queries ++
        inFlight arrives (relay.forward request source (relay.name lane.next))
      taken := lane.taken ++ [(source, request)]}
      (Function.update origin lane.next (some lane.taken.length)) lane.next lane.taken.length source
      request := ⟨Function.update_self _ _ _, by simp⟩
  constructor
  · intro a i ha
    simp only [hlength]
    rcases hcases a i ha with ⟨rfl, rfl⟩ | ha
    · omega
    · have hb := h.bounded a i ha
      omega
  · intro a b i ha hb
    rcases hcases a i ha with ⟨rfl, rfl⟩ | ha <;> rcases hcases b _ hb with ⟨rfl, hi⟩ | hb
    · rfl
    · exact absurd (h.bounded b _ hb).2 (Nat.lt_irrefl _)
    · exact absurd (h.bounded a _ ha).2 (hi ▸ Nat.lt_irrefl _)
    · exact h.injective a b i ha hb
  · intro i hi
    simp only [hlength]
    exact (h.servedBounded i hi).trans (Nat.lt_succ_self _)
  · exact h.distinct
  · exact g.allServed h.serves
  · intro query hquery
    rcases List.mem_append.mp hquery with hquery | hquery
    · obtain ⟨a, i, source, request, hf, he⟩ := h.queries query hquery
      exact ⟨a, i, source, request, g.forwarded hf, he⟩
    · exact ⟨_, _, _, _, hlast, mem_inFlight hquery⟩
  · intro result hresult
    obtain ⟨a, i, source, request, hf, he⟩ := h.answers result hresult
    exact ⟨a, i, source, request, g.forwarded hf, he⟩
  · intro key other tag hentry
    simp only [ExtTreeMap.getElem?_insert, LawfulEqOrd.compare_eq_iff_eq] at hentry
    split_ifs at hentry with hkey
    · obtain ⟨rfl, rfl⟩ := Prod.mk.inj (Option.some.inj hentry)
      exact ⟨_, _, _, hlast, hkey.symm, rfl, hnew⟩
    · obtain ⟨a, i, request, hf, he⟩ := h.table key other tag hentry
      exact ⟨a, i, request, g.forwarded hf, he⟩

/-- A forwarded request gets its one result and leaves the table. -/
theorem settle (h : Accounts relay lane origin served) {a i : ℕ} {source : Source}
    {request : Request} (hf : Forwarded relay lane origin a i source request) (hnew : i ∉ served)
    {result : Result} (hserves : Serves relay lane.computed (source, request) (source, result)) :
    Accounts relay {lane with
      table := lane.table.erase (relay.name a)
      sent := lane.sent ++ [(source, result)]} origin (served ++ [i]) := by
  have hi := (h.bounded a i hf.origin).2
  constructor
  · exact h.bounded
  · exact h.injective
  · intro j hj
    rcases List.mem_append.mp hj with hj | hj
    · exact h.servedBounded j hj
    · rw [List.mem_singleton.mp hj]
      exact hi
  · rw [← List.concat_eq_append]
    exact h.distinct.concat hnew
  · exact forall₂_concat h.serves ⟨_, hf.taken, hserves⟩
  · intro query hquery
    obtain ⟨b, j, source, request, hg, he⟩ := h.queries query hquery
    exact ⟨b, j, source, request, ⟨hg.origin, hg.taken⟩, he⟩
  · intro result hresult
    obtain ⟨b, j, source, request, hg, he⟩ := h.answers result hresult
    exact ⟨b, j, source, request, ⟨hg.origin, hg.taken⟩, he⟩
  · intro key other tag hentry
    simp only [ExtTreeMap.getElem?_erase, LawfulEqOrd.compare_eq_iff_eq] at hentry
    split_ifs at hentry with hkey
    obtain ⟨b, j, request, hg, hb, htag, hunserved⟩ := h.table key other tag hentry
    refine ⟨b, j, request, ⟨hg.origin, hg.taken⟩, hb, htag, fun hmem => ?_⟩
    rcases List.mem_append.mp hmem with hmem | hmem
    · exact hunserved hmem
    · have hj : origin b = some i := List.mem_singleton.mp hmem ▸ hg.origin
      exact hkey (by rw [hb, h.injective b a i hj hf.origin])

/-- The server computes the result of a query in flight. -/
theorem compute (h : Accounts relay lane origin served) {before after : List Query}
    {query : Query} {result : Result} (arrives : Bool)
    (hqueries : lane.queries = before ++ query :: after)
    (hkey : ∀ request source name, query = relay.forward request source name →
      relay.key result = name) :
    Accounts relay {lane with
      queries := before ++ after
      answers := lane.answers ++ inFlight arrives result
      computed := lane.computed ++ [(query, result)]} origin served := by
  have g : Grows lane {lane with
      queries := before ++ after
      answers := lane.answers ++ inFlight arrives result
      computed := lane.computed ++ [(query, result)]} origin origin :=
    ⟨⟨[], by simp⟩, ⟨_, rfl⟩, fun _ _ ha => ha⟩
  constructor
  · exact h.bounded
  · exact h.injective
  · exact h.servedBounded
  · exact h.distinct
  · exact g.allServed h.serves
  · intro other hother
    obtain ⟨a, i, source, request, hf, he⟩ := h.queries other (removed_subset hqueries hother)
    exact ⟨a, i, source, request, g.forwarded hf, he⟩
  · intro other hother
    rcases List.mem_append.mp hother with hother | hother
    · obtain ⟨a, i, source, request, hf, hk, hmem⟩ := h.answers other hother
      exact ⟨a, i, source, request, g.forwarded hf, hk, g.mem_computed hmem⟩
    · obtain rfl := mem_inFlight hother
      obtain ⟨a, i, source, request, hf, rfl⟩ := h.queries query (by rw [hqueries]; simp)
      exact ⟨a, i, source, request, g.forwarded hf, hkey request source _ rfl, by simp⟩
  · intro key source tag hentry
    obtain ⟨a, i, request, hf, he⟩ := h.table key source tag hentry
    exact ⟨a, i, request, g.forwarded hf, he⟩

end Accounts

theorem LaneStep.accounted (hstep : LaneStep relay lane lane') (h : Accounted relay lane) :
    Accounted relay lane' := by
  obtain ⟨origin, served, h⟩ := h
  cases hstep with
  | skip =>
      exact ⟨origin, served, h.weaken (Nat.le_succ _) (fun _ _ he => he) (fun _ he => he)
        (fun _ he => he) rfl rfl rfl⟩
  | refuse source request result hrefusal => exact ⟨_, _, h.refuse source hrefusal⟩
  | forward source request arrives => exact ⟨_, _, h.forward source request arrives⟩
  | fail source request error arrives =>
      have hforward := h.forward source request arrives
      refine ⟨_, _, hforward.settle ⟨Function.update_self _ _ _, by simp⟩ (fun hmem => ?_)
        ⟨rfl, .inr (.inl ⟨error, rfl⟩)⟩⟩
      exact Nat.lt_irrefl _ (h.servedBounded _ hmem)
  | compute before after query result arrives hqueries hkey =>
      exact ⟨_, _, h.compute arrives hqueries hkey⟩
  | handBack before after result source tag hanswers hentry =>
      obtain ⟨a, i, request, hf, hkey, rfl, hunserved⟩ := h.table _ source tag hentry
      obtain ⟨b, j, other, request', hg, hname, hmem⟩ :=
        h.answers result (by rw [hanswers]; simp)
      have hab : a = b := relay.name_injective (hkey.symm.trans hname)
      subst hab
      have hij : i = j := Option.some.inj (hf.origin.symm.trans hg.origin)
      subst hij
      obtain ⟨rfl, rfl⟩ := Prod.mk.inj (Option.some.inj (hf.taken.symm.trans hg.taken))
      have hlost : Accounts relay {lane with answers := before ++ after} origin served :=
        h.weaken le_rfl (fun _ _ he => he) (fun _ he => he) (removed_subset hanswers) rfl rfl rfl
      rw [hkey]
      exact ⟨_, _, hlost.settle ⟨hf.origin, hf.taken⟩ hunserved
        ⟨rfl, .inr (.inr ⟨_, _, hmem, rfl⟩)⟩⟩
  | loseQuery before after query hqueries =>
      exact ⟨origin, served, h.weaken le_rfl (fun _ _ he => he) (removed_subset hqueries)
        (fun _ he => he) rfl rfl rfl⟩
  | loseAnswer before after result hanswers =>
      exact ⟨origin, served, h.weaken le_rfl (fun _ _ he => he) (fun _ he => he)
        (removed_subset hanswers) rfl rfl rfl⟩

end Relays
