import NormaHarness.Relays

/-!
# Results are younger than their requests

The server of a relay answers from a state of its own that changes all the time. The books
of a relay can also say how much had been computed when a request was taken, and then what
was computed for the request comes after that: no result is older than its request.
-/
namespace Relays
open Std

variable {Source Tag Request Query Result : Type*}
  {relay : Relay Source Tag Request Query Result}
  {lane lane' : Lane Source Tag Request Query Result} {origin : ℕ → Option ℕ} {served : List ℕ}
  {since : ℕ → ℕ}

/-- Books that know how many results there were when a request was taken. -/
structure TimedAccounts (relay : Relay Source Tag Request Query Result)
    (lane : Lane Source Tag Request Query Result) (origin : ℕ → Option ℕ) (served : List ℕ)
    (since : ℕ → ℕ) : Prop extends Accounts relay lane origin served where
  past : ∀ i, since i ≤ lane.computed.length
  answersSince : ∀ result ∈ lane.answers, ∀ a i, origin a = some i →
    relay.key result = relay.name a → ∃ source request, lane.taken[i]? = some (source, request) ∧
      (relay.forward request source (relay.name a), result) ∈ lane.computed.drop (since i)
  servesSince : List.Forall₂ (fun i sent => ∃ taken, lane.taken[i]? = some taken ∧
    Serves relay (lane.computed.drop (since i)) taken sent) served lane.sent

theorem timedAccounts_empty (next : ℕ) :
    TimedAccounts relay ⟨∅, next, [], [], [], [], []⟩ (fun _ => none) [] (fun _ => 0) := by
  constructor
  · constructor <;> simp
  · simp
  · simp
  · simp

theorem Serves.mono {computed computed' : List (Query × Result)} (hsub : computed ⊆ computed')
    {taken : Source × Request} {sent : Source × Result} (h : Serves relay computed taken sent) :
    Serves relay computed' taken sent := by
  refine ⟨h.1, h.2.imp_right fun hlater => hlater.imp_right ?_⟩
  rintro ⟨name, result, hmem, hsent⟩
  exact ⟨name, result, hsub hmem, hsent⟩

theorem drop_subset_append {α : Type*} (l new : List α) (n : ℕ) :
    l.drop n ⊆ (l ++ new).drop n := by
  intro x hx
  rw [List.drop_append]
  exact List.mem_append_left _ hx

namespace TimedAccounts

/-- Messages may get lost and table entries dropped. -/
theorem weaken (h : TimedAccounts relay lane origin served since) (hnext : lane.next ≤ lane'.next)
    (htable : ∀ (key : String) (entry : Source × Tag), lane'.table[key]? = some entry →
      lane.table[key]? = some entry)
    (hqueries : lane'.queries ⊆ lane.queries) (hanswers : lane'.answers ⊆ lane.answers)
    (htaken : lane'.taken = lane.taken) (hcomputed : lane'.computed = lane.computed)
    (hsent : lane'.sent = lane.sent) : TimedAccounts relay lane' origin served since where
  toAccounts := h.toAccounts.weaken hnext htable hqueries hanswers htaken hcomputed hsent
  past i := by rw [hcomputed]; exact h.past i
  answersSince result hresult := by
    rw [htaken, hcomputed]
    exact h.answersSince result (hanswers hresult)
  servesSince := by
    rw [htaken, hcomputed, hsent]
    exact h.servesSince

/-- The books of a request that is taken now begin with what is computed from now on. -/
theorem servesSince_taken (h : TimedAccounts relay lane origin served since)
    (new : Source × Request) :
    List.Forall₂ (fun i sent => ∃ taken, (lane.taken ++ [new])[i]? = some taken ∧
      Serves relay (lane.computed.drop
        (Function.update since lane.taken.length lane.computed.length i)) taken sent)
      served lane.sent := by
  refine h.servesSince.imp ?_
  rintro i sent ⟨taken, htaken, hserves⟩
  obtain ⟨hi, -⟩ := List.getElem?_eq_some_iff.mp htaken
  refine ⟨taken, ?_, ?_⟩
  · rw [List.getElem?_append_left hi, htaken]
  · rwa [Function.update_of_ne hi.ne]

theorem past_taken (h : TimedAccounts relay lane origin served since) (i : ℕ) :
    Function.update since lane.taken.length lane.computed.length i ≤ lane.computed.length := by
  rw [Function.update_apply]
  split_ifs
  · exact le_rfl
  · exact h.past i

theorem answersSince_taken (h : TimedAccounts relay lane origin served since)
    (new : Source × Request) {result : Result} (hresult : result ∈ lane.answers) {a i : ℕ}
    (ha : origin a = some i) (hkey : relay.key result = relay.name a) :
    ∃ source request, (lane.taken ++ [new])[i]? = some (source, request) ∧
      (relay.forward request source (relay.name a), result) ∈
        lane.computed.drop (Function.update since lane.taken.length lane.computed.length i) := by
  obtain ⟨source, request, htaken, hmem⟩ := h.answersSince result hresult a i ha hkey
  have hi := (h.bounded a i ha).2
  refine ⟨source, request, ?_, ?_⟩
  · rw [List.getElem?_append_left hi, htaken]
  · rwa [Function.update_of_ne hi.ne]

theorem refuse (h : TimedAccounts relay lane origin served since) (source : Source)
    {request : Request} {result : Result} (hrefusal : relay.refusal request = some result) :
    TimedAccounts relay {lane with
      taken := lane.taken ++ [(source, request)]
      sent := lane.sent ++ [(source, result)]} origin (served ++ [lane.taken.length])
      (Function.update since lane.taken.length lane.computed.length) where
  toAccounts := h.toAccounts.refuse source hrefusal
  past := h.past_taken
  answersSince result hresult a i ha hkey := h.answersSince_taken _ hresult ha hkey
  servesSince := forall₂_concat (h.servesSince_taken _)
    ⟨(source, request), by simp, rfl, .inl hrefusal⟩

theorem forward (h : TimedAccounts relay lane origin served since) (source : Source)
    (request : Request) (arrives : Bool) :
    TimedAccounts relay {lane with
      table := lane.table.insert (relay.name lane.next) (source, relay.tag request)
      next := lane.next + 1
      queries := lane.queries ++
        inFlight arrives (relay.forward request source (relay.name lane.next))
      taken := lane.taken ++ [(source, request)]}
      (Function.update origin lane.next (some lane.taken.length)) served
      (Function.update since lane.taken.length lane.computed.length) where
  toAccounts := h.toAccounts.forward source request arrives
  past := h.past_taken
  answersSince result hresult a i ha hkey := by
    refine h.answersSince_taken _ hresult ?_ hkey
    -- A result in flight bears an older name than the one that was just drawn.
    obtain ⟨b, j, _, _, hf, hname, -⟩ := h.answers result hresult
    obtain rfl := relay.name_injective (hkey.symm.trans hname)
    rwa [Function.update_of_ne (h.bounded a j hf.origin).1.ne] at ha
  servesSince := h.servesSince_taken _

/-- A forwarded request gets its one result and leaves the table. -/
theorem settle (h : TimedAccounts relay lane origin served since) {a i : ℕ} {source : Source}
    {request : Request} (hf : Forwarded relay lane origin a i source request) (hnew : i ∉ served)
    {result : Result}
    (hserves : Serves relay (lane.computed.drop (since i)) (source, request) (source, result)) :
    TimedAccounts relay {lane with
      table := lane.table.erase (relay.name a)
      sent := lane.sent ++ [(source, result)]} origin (served ++ [i]) since where
  toAccounts := h.toAccounts.settle hf hnew (hserves.mono (List.drop_subset _ _))
  past := h.past
  answersSince := h.answersSince
  servesSince := forall₂_concat h.servesSince ⟨_, hf.taken, hserves⟩

/-- The server computes the result of a query in flight: it is younger than the query. -/
theorem compute (h : TimedAccounts relay lane origin served since) {before after : List Query}
    {query : Query} {result : Result} (arrives : Bool)
    (hqueries : lane.queries = before ++ query :: after)
    (hkey : ∀ request source name, query = relay.forward request source name →
      relay.key result = name) :
    TimedAccounts relay {lane with
      queries := before ++ after
      answers := lane.answers ++ inFlight arrives result
      computed := lane.computed ++ [(query, result)]} origin served since where
  toAccounts := h.toAccounts.compute arrives hqueries hkey
  past i := (h.past i).trans (by simp)
  answersSince other hother a i ha hname := by
    rcases List.mem_append.mp hother with hother | hother
    · obtain ⟨source, request, htaken, hmem⟩ := h.answersSince other hother a i ha hname
      exact ⟨source, request, htaken, drop_subset_append _ _ _ hmem⟩
    · obtain rfl := mem_inFlight hother
      obtain ⟨b, j, source, request, hf, rfl⟩ := h.queries query (by rw [hqueries]; simp)
      obtain rfl := relay.name_injective (hname.symm.trans (hkey request source _ rfl))
      obtain rfl := Option.some.inj (ha.symm.trans hf.origin)
      refine ⟨source, request, hf.taken, ?_⟩
      rw [List.drop_append_of_le_length (h.past i)]
      exact List.mem_append_right _ (List.mem_singleton_self _)
  servesSince := by
    refine h.servesSince.imp ?_
    rintro i sent ⟨taken, htaken, hserves⟩
    exact ⟨taken, htaken, hserves.mono (drop_subset_append _ _ _)⟩

end TimedAccounts

/-- A step keeps the times of old requests, and a request that it takes is taken now. -/
theorem LaneStep.timed (hstep : LaneStep relay lane lane')
    (h : TimedAccounts relay lane origin served since) : ∃ origin' served' since',
    TimedAccounts relay lane' origin' served' since' ∧
      (∀ i < lane.taken.length, since' i = since i) ∧
      ∀ i, lane.taken.length ≤ i → i < lane'.taken.length → since' i = lane.computed.length := by
  have updated : ∀ i < lane.taken.length,
      Function.update since lane.taken.length lane.computed.length i = since i :=
    fun i hi => Function.update_of_ne hi.ne _ _
  have now : ∀ (new : Source × Request) i, lane.taken.length ≤ i →
      i < (lane.taken ++ [new]).length →
      Function.update since lane.taken.length lane.computed.length i = lane.computed.length := by
    intro new i hle hlt
    rw [List.length_append, List.length_singleton] at hlt
    rw [Nat.le_antisymm (Nat.lt_succ_iff.mp hlt) hle, Function.update_self]
  have untaken : ∀ i, lane.taken.length ≤ i → i < lane.taken.length →
      since i = lane.computed.length := fun i hle hlt => absurd hlt (Nat.not_lt.mpr hle)
  cases hstep with
  | skip =>
      exact ⟨_, _, _, h.weaken (Nat.le_succ _) (fun _ _ he => he) (fun _ he => he)
        (fun _ he => he) rfl rfl rfl, fun _ _ => rfl, untaken⟩
  | refuse source request result hrefusal =>
      exact ⟨_, _, _, h.refuse source hrefusal, updated, now _⟩
  | forward source request arrives =>
      exact ⟨_, _, _, h.forward source request arrives, updated, now _⟩
  | fail source request error arrives =>
      have hforward := h.forward source request arrives
      refine ⟨_, _, _, hforward.settle ⟨Function.update_self _ _ _, by simp⟩ (fun hmem => ?_)
        ⟨rfl, .inr (.inl ⟨error, rfl⟩)⟩, updated, now _⟩
      exact Nat.lt_irrefl _ (h.servedBounded _ hmem)
  | compute before after query result arrives hqueries hkey =>
      exact ⟨_, _, _, h.compute arrives hqueries hkey, fun _ _ => rfl, untaken⟩
  | handBack before after result source tag hanswers hentry =>
      obtain ⟨a, i, request, hf, hkey, rfl, hunserved⟩ := h.table _ source tag hentry
      have hresult : result ∈ lane.answers := by rw [hanswers]; simp
      obtain ⟨_, _, htaken, hmem⟩ := h.answersSince result hresult a i hf.origin hkey
      obtain ⟨rfl, rfl⟩ := Prod.mk.inj (Option.some.inj (hf.taken.symm.trans htaken))
      have hlost : TimedAccounts relay {lane with answers := before ++ after} origin served since :=
        h.weaken le_rfl (fun _ _ he => he) (fun _ he => he) (removed_subset hanswers) rfl rfl rfl
      rw [hkey]
      exact ⟨_, _, _, hlost.settle ⟨hf.origin, hf.taken⟩ hunserved
        ⟨rfl, .inr (.inr ⟨_, _, hmem, rfl⟩)⟩, fun _ _ => rfl, untaken⟩
  | loseQuery before after query hqueries =>
      exact ⟨_, _, _, h.weaken le_rfl (fun _ _ he => he) (removed_subset hqueries)
        (fun _ he => he) rfl rfl rfl, fun _ _ => rfl, untaken⟩
  | loseAnswer before after result hanswers =>
      exact ⟨_, _, _, h.weaken le_rfl (fun _ _ he => he) (fun _ he => he)
        (removed_subset hanswers) rfl rfl rfl, fun _ _ => rfl, untaken⟩

end Relays
