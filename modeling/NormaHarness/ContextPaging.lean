import NormaHarness.CursorPaging
import NormaHarness.ContextSnapshot
import NormaHarness.ContextNoninterference

/-!
# Reading a history page by page

A reader follows the cursor of each page while the store goes on growing. What is added
has larger identities than everything before, so no later page sees it: the pages are those
of the list that matched at the first request.
-/
namespace NormaHarness.Chat
open Std Identifiers Contracts LlmProtocol ToolProtocol Media CursorPaging

/-! ## Stores -/

/-- No message has the identity of another, in whatever rooms they are. -/
def DistinctIds (s : RoomStore) : Prop :=
  (s.values.flatMap fun room => room.messages.map ChatMessage.id).Nodup

/-- Between two requests: rooms and messages are added, with larger identities. -/
def Adds (s s' : RoomStore) : Prop :=
  ∃ next, (∀ id room, s.get id = some room → ∀ m ∈ room.messages, m.id < next) ∧
    (∀ id room, s.get id = some room → ∃ room', s'.get id = some room' ∧ Grown next room room') ∧
    ∀ id room, s.get id = none → s'.get id = some room → ∀ m ∈ room.messages, next ≤ m.id

theorem Grown.mono {next next' : ℕ} {room room' : ChatRoom} (h : Grown next room room')
    (hle : next' ≤ next) : Grown next' room room' := by
  obtain ⟨later, hmessages, hlater⟩ := h.messages
  exact ⟨h.id, h.name, h.members, h.incognito, later, hmessages,
    fun m hm => hle.trans (hlater m hm)⟩

namespace Adds

theorem refl (s : RoomStore) (next : ℕ)
    (h : ∀ id room, s.get id = some room → ∀ m ∈ room.messages, m.id < next) : Adds s s := by
  refine ⟨next, h, fun _ room hroom => ⟨room, hroom, .refl _ _⟩, fun _ _ hnone hsome => ?_⟩
  rw [hnone] at hsome
  cases hsome

theorem trans {s t u : RoomStore} (h : Adds s t) (g : Adds t u) : Adds s u := by
  obtain ⟨next, hold, hkept, hadded⟩ := h
  obtain ⟨next', hold', hkept', hadded'⟩ := g
  refine ⟨min next next', fun id room hroom m hm => ?_, fun id room hroom => ?_,
    fun id room hnone hroom m hm => ?_⟩
  · obtain ⟨room', hroom', hgrown⟩ := hkept id room hroom
    obtain ⟨later, hmessages, _⟩ := hgrown.messages
    have hm' : m ∈ room'.messages := hmessages ▸ List.mem_append_left _ hm
    exact lt_min (hold id room hroom m hm) (hold' id room' hroom' m hm')
  · obtain ⟨room', hroom', hgrown⟩ := hkept id room hroom
    obtain ⟨room'', hroom'', hgrown'⟩ := hkept' id room' hroom'
    exact ⟨room'', hroom'', (hgrown.mono (min_le_left _ _)).trans
      (hgrown'.mono (min_le_right _ _)) le_rfl⟩
  · cases hroom' : t.get id with
    | none => exact (min_le_right _ _).trans (hadded' id room hroom' hroom m hm)
    | some room' =>
        obtain ⟨other, hother, hgrown⟩ := hkept' id room' hroom'
        obtain rfl : other = room := Option.some.inj (hother.symm.trans hroom)
        obtain ⟨later, hmessages, hlater⟩ := hgrown.messages
        rw [hmessages] at hm
        rcases List.mem_append.mp hm with hm | hm
        · exact (min_le_left _ _).trans (hadded id room' hnone hroom' m hm)
        · exact (min_le_right _ _).trans (hlater m hm)

/-- What is added while a reader pages on. -/
theorem iterate {stores : ℕ → RoomStore} (h : ∀ n, Adds (stores n) (stores (n + 1))) (n : ℕ) :
    Adds (stores 0) (stores (n + 1)) := by
  induction n with
  | zero => exact h 0
  | succ n ih => exact ih.trans (h (n + 1))

end Adds

/-! ## What matches -/

/-- The same query for what lies before a message. -/
def follow (query : ChatContextQuery) (before : ℕ) : ChatContextQuery :=
  {query with request := {query.request with beforeMessageId := some before}}

/-- A message that a query without a cursor asks for. -/
def Matches (s : RoomStore) (query : ChatContextQuery) (incognito : Bool)
    (event : LlmContextMessage) : Prop :=
  ∃ room, s.get event.roomId = some room ∧ Authorised query incognito room ∧
    ∃ m ∈ visibleMessages query room, event = contextMessage room m

section

variable {s s' : RoomStore} {query : ChatContextQuery} {incognito : Bool}

theorem mem_matching (hstart : query.request.beforeMessageId = none) {event : LlmContextMessage} :
    event ∈ matching s query incognito ↔ Matches s query incognito event := by
  have hroom : ∀ room, event ∈ queryMessages query incognito room ↔
      Authorised query incognito room ∧
        ∃ m ∈ visibleMessages query room, event = contextMessage room m := by
    intro room
    by_cases hauthorised : Authorised query incognito room
    · rw [queryMessages_authorised hauthorised, hstart]
      simp [hauthorised, eq_comm]
    · rw [queryMessages_unauthorised hauthorised]
      simp [hauthorised]
  unfold matching sortById Matches
  rw [List.mem_insertionSort, List.mem_flatMap]
  constructor
  · rintro ⟨room, hvalue, hevent⟩
    obtain ⟨hauthorised, m, hm, rfl⟩ := (hroom room).mp hevent
    exact ⟨room, RoomStore.mem_values.mp hvalue, hauthorised, m, hm, rfl⟩
  · rintro ⟨room, hget, hauthorised, m, hm, rfl⟩
    exact ⟨room, RoomStore.mem_values.mpr hget, (hroom room).mpr ⟨hauthorised, m, hm, rfl⟩⟩

theorem queryMessages_ids (room : ChatRoom) :
    ((queryMessages query incognito room).map LlmContextMessage.id).Sublist
      (room.messages.map ChatMessage.id) := by
  unfold queryMessages
  split_ifs
  · split
    · exact List.nil_sublist _
    · rw [List.map_map]
      exact List.filter_sublist.map ChatMessage.id
  · exact List.nil_sublist _

theorem matching_ids_nodup (h : DistinctIds s) :
    ((matching s query incognito).map LlmContextMessage.id).Nodup := by
  have hids : (s.values.flatMap fun room =>
      (queryMessages query incognito room).map LlmContextMessage.id).Nodup := by
    refine h.sublist ?_
    induction s.values with
    | nil => exact .slnil
    | cons room rooms ih => exact (queryMessages_ids room).append ih
  rw [← List.map_flatMap] at hids
  exact ((List.perm_insertionSort _ _).map LlmContextMessage.id).nodup_iff.mpr hids

/-- The order of the answer is strict, although the sort only promises a weak one. -/
theorem matching_ascending (h : DistinctIds s) :
    (matching s query incognito).Pairwise fun a b => a.id < b.id := by
  have hne : (matching s query incognito).Pairwise fun a b => a.id ≠ b.id :=
    List.pairwise_map.mp (matching_ids_nodup h)
  have _ : Std.Total fun a b : LlmContextMessage => a.id ≤ b.id := ⟨fun a b => le_total a.id b.id⟩
  have _ : IsTrans LlmContextMessage fun a b => a.id ≤ b.id :=
    ⟨fun _ _ _ hab hbc => Nat.le_trans hab hbc⟩
  have hle : (matching s query incognito).Pairwise fun a b => a.id ≤ b.id :=
    List.pairwise_insertionSort _ _
  exact (hle.and hne).imp fun hab => Nat.lt_of_le_of_ne hab.1 hab.2

/-- A cursor cuts what matches without one. -/
theorem queryMessages_follow (hstart : query.request.beforeMessageId = none) (before : ℕ)
    (room : ChatRoom) : queryMessages (follow query before) incognito room =
      (queryMessages query incognito room).filter fun event => decide (event.id < before) := by
  have hsame : inScope (follow query before) incognito room = inScope query incognito room := rfl
  unfold queryMessages
  rw [hsame]
  split_ifs
  · cases hlast : query.request.visibleThrough[room.id]? with
    | none => simp [follow, hlast]
    | some last =>
        simp only [follow, hlast, List.filter_map, List.filter_filter]
        refine congrArg (List.map (contextMessage room)) (List.filter_congr fun m _ => ?_)
        simp only [inPage, hstart, contextMessage, Option.all_none, Option.all_some, Bool.and_true,
          Function.comp_apply]
        exact Bool.and_comm _ _
  · rfl

theorem matching_follow (h : DistinctIds s) (hstart : query.request.beforeMessageId = none)
    (before : ℕ) : matching s (follow query before) incognito =
      (matching s query incognito).filter fun event => decide (event.id < before) := by
  have hasc : (matching s (follow query before) incognito).Pairwise fun a b => a.id < b.id :=
    matching_ascending h
  have hasc' : ((matching s query incognito).filter fun event =>
      decide (event.id < before)).Pairwise fun a b => a.id < b.id :=
    (matching_ascending h).sublist List.filter_sublist
  refine List.Perm.eq_of_pairwise (fun a b _ _ hab hba => absurd hba hab.asymm) hasc hasc' ?_
  refine (List.perm_insertionSort _ _).trans (List.Perm.trans ?_
    ((List.perm_insertionSort _ _).filter _).symm)
  rw [funext (queryMessages_follow hstart before), List.filter_flatMap]

/-! ## What later requests see -/

/-- A room that grew answers a query with an old cursor as it did. -/
theorem queryMessages_added {next before : ℕ} {room room' : ChatRoom}
    (hgrown : Grown next room room') (hbefore : before ≤ next) :
    queryMessages (follow query before) incognito room' =
      queryMessages (follow query before) incognito room := by
  obtain ⟨later, hmessages, hlater⟩ := hgrown.messages
  have hlabel : contextMessage room' = contextMessage room := by
    funext m
    simp [contextMessage, hgrown.id, hgrown.name]
  have hscope : inScope (follow query before) incognito room' =
      inScope (follow query before) incognito room := by
    simp [inScope, hgrown.id, hgrown.members, hgrown.incognito]
  have hhidden : ∀ last, later.filter (inPage (follow query before).request last) = [] := by
    intro last
    refine List.filter_eq_nil_iff.mpr fun m hm => ?_
    have hnew := hlater m hm
    simp only [inPage, follow, Option.all_some, Bool.and_eq_true, decide_eq_true_eq, not_and]
    omega
  unfold queryMessages
  rw [hscope, hgrown.id, hlabel]
  simp only [hmessages, List.filter_append, hhidden, List.append_nil]

theorem queryMessages_fresh {next before : ℕ} {room : ChatRoom}
    (hfresh : ∀ m ∈ room.messages, next ≤ m.id) (hbefore : before ≤ next) :
    queryMessages (follow query before) incognito room = [] := by
  unfold queryMessages
  split_ifs
  · split
    · rfl
    · refine List.map_eq_nil_iff.mpr (List.filter_eq_nil_iff.mpr fun m hm => ?_)
      have hnew := hfresh m hm
      simp only [inPage, follow, Option.all_some, Bool.and_eq_true, decide_eq_true_eq, not_and]
      omega
  · rfl

/-- What is added while a reader pages lies after every cursor it holds. -/
theorem Adds.matching_eq (h : Adds s s') {cursor : LlmContextMessage}
    (hcursor : Matches s query incognito cursor) :
    matching s' (follow query cursor.id) incognito =
      matching s (follow query cursor.id) incognito := by
  obtain ⟨next, hold, hkept, hadded⟩ := h
  obtain ⟨room, hroom, _, m, hm, hevent⟩ := hcursor
  have hbefore : cursor.id ≤ next := by
    rw [hevent]
    exact (hold _ room hroom m (List.mem_of_mem_filter hm)).le
  refine congrArg sortById ((RoomStore.flatMap_values _ _).trans (Eq.trans ?_
    (RoomStore.flatMap_values _ _).symm))
  refine OrderedMaps.listing_congr fun k => ?_
  cases hk : s.get k with
  | some old =>
      obtain ⟨room', hroom', hgrown⟩ := hkept k old hk
      rw [OrderedMaps.contribution_of_some hk, OrderedMaps.contribution_of_some hroom']
      exact queryMessages_added hgrown hbefore
  | none =>
      rw [OrderedMaps.contribution_of_none hk]
      cases hk' : s'.get k with
      | none => exact OrderedMaps.contribution_of_none hk'
      | some room' =>
          rw [OrderedMaps.contribution_of_some hk']
          exact queryMessages_fresh (hadded k room' hk hk') hbefore

end

/-! ## Reading page after page -/

/-- A reader of the history: it takes one page and follows the cursor for as long as there
is an earlier one. Its `n`-th request meets the `n`-th store. -/
def readPages (stores : ℕ → RoomStore) :
    ℕ → ℕ → ChatContextQuery → Option (List ChatContextResult)
  | 0, _, _ => none
  | fuel + 1, n, query => do
      let result ← chatContextFor (stores n) query
      if result.hasEarlier then
        let before ← result.nextBeforeMessageId
        let earlier ← readPages stores fuel (n + 1) (follow query before)
        pure (result :: earlier)
      else pure [result]

theorem page_last {request : ChatContextToolRequest} {messages : List LlmContextMessage}
    (roomName : String) (h : messages.length ≤ request.limit) : page request roomName messages =
      some ⟨request.callId, request.roomId, some roomName, messages, false, none, none⟩ := by
  unfold page
  rw [if_neg (Nat.not_lt_of_le h)]

theorem page_more {request : ChatContextToolRequest} {messages rest : List LlmContextMessage}
    {first : LlmContextMessage} (roomName : String) (h : request.limit < messages.length)
    (hnewest : newest request.limit messages = first :: rest) : page request roomName messages =
      some ⟨request.callId, request.roomId, some roomName, first :: rest, true, some first.id,
        none⟩ := by
  unfold newest at hnewest
  unfold page
  rw [if_pos h, hnewest]

/-- What is read of each page. -/
structure Reads (pages : List (List LlmContextMessage))
    (results : List ChatContextResult) : Prop where
  messages : results.map ChatContextResult.messages = pages
  found : ∀ result ∈ results, result.error = none
  hasEarlier : ∀ k (hk : k < results.length),
    results[k].hasEarlier = true ↔ k + 1 < results.length

theorem Reads.last {result : ChatContextResult} (hfound : result.error = none)
    (hlast : result.hasEarlier = false) : Reads [result.messages] [result] := by
  refine ⟨rfl, fun other hother => ?_, fun k hk => ?_⟩
  · rw [List.mem_singleton.mp hother]
    exact hfound
  · have hzero : k = 0 := Nat.lt_one_iff.mp hk
    subst hzero
    simp [hlast]

theorem Reads.more {pages : List (List LlmContextMessage)}
    {results : List ChatContextResult} {result : ChatContextResult} (h : Reads pages results)
    (hpages : pages ≠ []) (hfound : result.error = none) (hearlier : result.hasEarlier = true) :
    Reads (result.messages :: pages) (result :: results) := by
  refine ⟨congrArg _ h.messages, fun other hother => ?_, fun k hk => ?_⟩
  · rcases List.mem_cons.mp hother with rfl | hother
    · exact hfound
    · exact h.found other hother
  · have hlength : results.length ≠ 0 := by
      rw [← List.length_map ChatContextResult.messages, h.messages]
      exact mt List.length_eq_zero_iff.mp hpages
    cases k with
    | zero => simp only [List.getElem_cons_zero, hearlier, List.length_cons, true_iff]; omega
    | succ k =>
        simp only [List.getElem_cons_succ, List.length_cons, Nat.add_lt_add_iff_right]
        exact h.hasEarlier k (Nat.lt_of_succ_lt_succ hk)

section

variable {stores : ℕ → RoomStore} {query : ChatContextQuery} {room : ChatRoom}

/-- The queried room keeps its heading while it grows. -/
theorem room_kept (hadds : ∀ n, Adds (stores n) (stores (n + 1)))
    (hroom : (stores 0).get query.request.roomId = some room) (n : ℕ) :
    ∃ current, (stores n).get query.request.roomId = some current ∧ SameHeading room current := by
  induction n with
  | zero => exact ⟨room, hroom, rfl, rfl, rfl⟩
  | succ n ih =>
      obtain ⟨current, hcurrent, hname, hmembers, hincognito⟩ := ih
      obtain ⟨_, _, hkept, _⟩ := hadds n
      obtain ⟨current', hcurrent', hgrown⟩ := hkept _ current hcurrent
      exact ⟨current', hcurrent', hname.trans hgrown.name.symm,
        hmembers.trans hgrown.members.symm, hincognito.trans hgrown.incognito.symm⟩

/-- What each request of the reader gets. -/
theorem chatContext_read (hadds : ∀ n, Adds (stores n) (stores (n + 1)))
    (hroom : (stores 0).get query.request.roomId = some room)
    (hmember : query.requester ∈ room.members) (n : ℕ) {q : ChatContextQuery}
    (hq : ∀ before, follow q before = follow query before) :
    q.request.limit = query.request.limit ∧ chatContextFor (stores n) q =
      page q.request room.name (matching (stores n) q room.incognito) := by
  have hfollow := hq 0
  simp only [follow, ChatContextQuery.mk.injEq, ChatContextToolRequest.mk.injEq] at hfollow
  obtain ⟨⟨-, hroomId, -, -, -, hlimit⟩, hrequester⟩ := hfollow
  obtain ⟨current, hcurrent, hname, hmembers, hincognito⟩ := room_kept hadds hroom n
  rw [← hroomId] at hcurrent
  rw [hmembers, ← hrequester] at hmember
  refine ⟨hlimit, ?_⟩
  rw [chatContextFor_readable hcurrent hmember, hname, hincognito]

/-- The first entry of a page splits what matched at the start, and the next request matches
what lies before it. -/
theorem matching_unread (hids : DistinctIds (stores 0))
    (hadds : ∀ n, Adds (stores n) (stores (n + 1)))
    (hstart : query.request.beforeMessageId = none) {old rest : List LlmContextMessage}
    {first : LlmContextMessage}
    (hsplit : matching (stores 0) query room.incognito = old ++ first :: rest) (n : ℕ) :
    matching (stores (n + 1)) (follow query first.id) room.incognito = old := by
  have hfirst : Matches (stores 0) query room.incognito first := by
    refine (mem_matching hstart).mp ?_
    rw [hsplit]
    exact List.mem_append_right _ List.mem_cons_self
  have hasc : (matching (stores 0) query room.incognito).Pairwise fun a b => a.id < b.id :=
    matching_ascending hids
  rw [hsplit] at hasc
  rw [(Adds.iterate hadds n).matching_eq hfirst, matching_follow hids hstart, hsplit]
  exact filter_before hasc

/-- The reader gets the pages of what matches its first request. `l` is what its present
request matches, the part of it that is not yet read. -/
theorem readPages_paged (hids : DistinctIds (stores 0))
    (hadds : ∀ n, Adds (stores n) (stores (n + 1)))
    (hstart : query.request.beforeMessageId = none) (hlimit : 1 ≤ query.request.limit)
    (hroom : (stores 0).get query.request.roomId = some room)
    (hmember : query.requester ∈ room.members) {l : List LlmContextMessage}
    {pages : List (List LlmContextMessage)} (hpages : Paged query.request.limit l pages) :
    ∀ (n : ℕ) (q : ChatContextQuery) (read : List LlmContextMessage),
      (∀ before, follow q before = follow query before) →
      matching (stores n) q room.incognito = l →
      matching (stores 0) query room.incognito = l ++ read →
      ∃ results, (∀ fuel, pages.length ≤ fuel → readPages stores fuel n q = some results) ∧
        Reads pages results := by
  induction hpages with
  | @last l hlast =>
      intro n q read hq hl hmatched
      obtain ⟨hsame, hanswer⟩ := chatContext_read hadds hroom hmember n hq
      rw [hl, page_last room.name (hsame.symm ▸ hlast)] at hanswer
      let answer : ChatContextResult :=
        ⟨q.request.callId, q.request.roomId, some room.name, l, false, none, none⟩
      have hreads : Reads [answer.messages] [answer] := .last rfl rfl
      refine ⟨[answer], fun fuel hfuel => ?_, hreads⟩
      cases fuel with
      | zero => exact absurd hfuel (Nat.not_succ_le_zero 0)
      | succ fuel => simp [readPages, hanswer, answer]
  | @more l pages hmore hpages ih =>
      intro n q read hq hl hmatched
      obtain ⟨hsame, hanswer⟩ := chatContext_read hadds hroom hmember n hq
      obtain ⟨first, rest, hnewest⟩ : ∃ first rest,
          newest query.request.limit l = first :: rest := by
        refine List.exists_cons_of_length_pos ?_
        rw [length_newest hmore.le]
        exact hlimit
      rw [hl, page_more room.name (hsame.symm ▸ hmore) (hsame.symm ▸ hnewest)] at hanswer
      have hsplit : matching (stores 0) query room.incognito =
          older query.request.limit l ++ first :: (rest ++ read) := by
        have hl := older_append_newest query.request.limit l
        rw [hnewest] at hl
        conv_lhs => rw [hmatched, ← hl]
        exact List.append_assoc _ _ _
      have hunread : matching (stores (n + 1)) (follow q first.id) room.incognito =
          older query.request.limit l := by
        rw [hq]
        exact matching_unread hids hadds hstart hsplit n
      obtain ⟨results, hread, hreads⟩ := ih (n + 1) (follow q first.id) (first :: (rest ++ read))
        (fun before => hq before) hunread hsplit
      let answer : ChatContextResult :=
        ⟨q.request.callId, q.request.roomId, some room.name, first :: rest, true, some first.id,
          none⟩
      have hreads' : Reads (answer.messages :: pages) (answer :: results) :=
        hreads.more hpages.ne_nil rfl rfl
      refine ⟨answer :: results, fun fuel hfuel => ?_, hnewest.symm ▸ hreads'⟩
      cases fuel with
      | zero => exact absurd hfuel (Nat.not_succ_le_zero _)
      | succ fuel => simp [readPages, hanswer, hread fuel (Nat.le_of_succ_le_succ hfuel), answer]

/-- Following the cursors of the context tool ends, and gives all that matched at the first
request, once and in order, whatever is added on the way. -/
theorem paging_complete (hids : DistinctIds (stores 0))
    (hadds : ∀ n, Adds (stores n) (stores (n + 1)))
    (hstart : query.request.beforeMessageId = none) (hlimit : 1 ≤ query.request.limit)
    (hroom : (stores 0).get query.request.roomId = some room)
    (hmember : query.requester ∈ room.members) :
    let matched := matching (stores 0) query room.incognito
    (∀ event, event ∈ matched ↔ Matches (stores 0) query room.incognito event) ∧
      matched.Pairwise (fun a b => a.id < b.id) ∧
      (∀ other, inScope query room.incognito other = true →
        other.id ∈ query.request.visibleThrough) ∧
      ∃ results, (∀ fuel, matched.length < fuel → readPages stores fuel 0 query = some results) ∧
        results.reverse.flatMap ChatContextResult.messages = matched ∧
        ∀ k (hk : k < results.length), results[k].error = none ∧
          results[k].messages.Pairwise (fun a b => a.id < b.id) ∧
          results[k].messages.length ≤ query.request.limit ∧
          (results[k].hasEarlier = true ↔
            ∃ event ∈ matched, ∀ result ∈ results.take (k + 1), event ∉ result.messages) := by
  intro matched
  have hasc : matched.Pairwise fun a b => a.id < b.id := matching_ascending hids
  refine ⟨fun event => mem_matching hstart, hasc,
    fun other hother => (inScope_iff.mp hother).2.1, ?_⟩
  obtain ⟨pages, hpages, hlength⟩ := Paged.exists_pages hlimit matched
  obtain ⟨results, hread, hreads⟩ := readPages_paged hids hadds hstart hlimit hroom hmember hpages
    0 query [] (fun _ => rfl) rfl (List.append_nil _).symm
  refine ⟨results, fun fuel hfuel => hread fuel (hlength.trans hfuel), ?_, fun k hk => ?_⟩
  · rw [List.flatMap_def, List.map_reverse, hreads.messages]
    exact hpages.flatten_reverse
  · have hpage : results[k].messages ∈ pages := by
      rw [← hreads.messages]
      exact List.mem_map_of_mem (List.getElem_mem hk)
    have hcount : pages.length = results.length := by
      rw [← hreads.messages, List.length_map]
    refine ⟨hreads.found _ (List.getElem_mem hk), hasc.sublist (hpages.sublist _ hpage),
      hpages.length_le _ hpage, ?_⟩
    have hnodup : matched.Nodup :=
      hasc.imp fun hab heq => absurd (heq ▸ hab) (lt_irrefl _)
    rw [hreads.hasEarlier k hk, ← hcount, ← hpages.unread_iff hnodup (hcount.symm ▸ hk),
      ← hreads.messages, ← List.map_take]
    simp only [List.forall_mem_map]

end

/-- Two rooms with a history, which goes on between the requests of a reader. -/
def pagedMessage (id : ℕ) : ChatMessage := ⟨id, "user", "你", "hello", 1, [], []⟩

def pagedRoom (id : ℕ) (ids : List ℕ) : ChatRoom :=
  ⟨id, "Plans", ["codex"], ids.map pagedMessage, false, none, false, 0, 1, false, false⟩

def pagedStore : RoomStore := (RoomStore.empty.put (pagedRoom 1 [1, 3])).put (pagedRoom 2 [2, 4])

def grownStore : RoomStore := (pagedStore.put (pagedRoom 1 [1, 3, 5])).put (pagedRoom 3 [6])

def pagedStores : ℕ → RoomStore
  | 0 => pagedStore
  | _ + 1 => grownStore

def pagedQuery : ChatContextQuery :=
  ⟨⟨"call-1", 1, ((∅ : ExtTreeMap ℕ ℕ).insert 1 9).insert 2 9, true, none, 2⟩, "codex"⟩

theorem pagedStore_get (k : ℕ) : pagedStore.get k = if 2 = k then some (pagedRoom 2 [2, 4]) else
    if 1 = k then some (pagedRoom 1 [1, 3]) else none := by
  simp only [pagedStore, RoomStore.get_put, RoomStore.get_empty, pagedRoom]

theorem grownStore_get (k : ℕ) : grownStore.get k = if 3 = k then some (pagedRoom 3 [6]) else
    if 1 = k then some (pagedRoom 1 [1, 3, 5]) else pagedStore.get k := by
  simp only [grownStore, RoomStore.get_put, pagedRoom]

theorem pagedStores_adds (n : ℕ) : Adds (pagedStores n) (pagedStores (n + 1)) := by
  have hold : ∀ id room, pagedStore.get id = some room → ∀ m ∈ room.messages, m.id < 5 := by
    intro id room hroom
    rw [pagedStore_get] at hroom
    split_ifs at hroom <;> obtain rfl := Option.some.inj hroom <;> decide
  cases n with
  | zero =>
      refine ⟨5, hold, fun id room hroom => ?_, fun id room hnone hroom => ?_⟩
      · change pagedStore.get id = some room at hroom
        change ∃ room', grownStore.get id = some room' ∧ Grown 5 room room'
        have hget := grownStore_get id
        rw [pagedStore_get] at hroom
        split_ifs at hroom with htwo hone
        · obtain rfl := Option.some.inj hroom
          subst htwo
          exact ⟨_, hget.trans (pagedStore_get 2), .refl _ _⟩
        · obtain rfl := Option.some.inj hroom
          subst hone
          exact ⟨_, hget, rfl, rfl, rfl, rfl, [pagedMessage 5], rfl, by decide⟩
      · change pagedStore.get id = none at hnone
        change grownStore.get id = some room at hroom
        rw [grownStore_get, hnone] at hroom
        rw [pagedStore_get] at hnone
        split_ifs at hroom hnone with hthree hone
        obtain rfl := Option.some.inj hroom
        decide
  | succ n =>
      refine .refl grownStore 7 fun id room hroom m hm => ?_
      rw [grownStore_get] at hroom
      split_ifs at hroom with hthree hone
      · obtain rfl := Option.some.inj hroom
        revert m
        decide
      · obtain rfl := Option.some.inj hroom
        revert m
        decide
      · exact (hold id room hroom m hm).trans (by decide)

/-- Two full pages cover four messages, and the two that were added are in none. -/
theorem paging_complete_grown : ∃ results : List ChatContextResult,
    readPages pagedStores 9 0 pagedQuery = some results ∧
      results.reverse.flatMap (fun result => result.messages.map LlmContextMessage.id) =
        [1, 2, 3, 4] := by
  have hids : DistinctIds (pagedStores 0) := by
    unfold DistinctIds
    decide
  have hroom : (pagedStores 0).get pagedQuery.request.roomId = some (pagedRoom 1 [1, 3]) :=
    pagedStore_get 1
  obtain ⟨-, -, -, results, hread, hmessages, -⟩ :=
    paging_complete hids pagedStores_adds rfl (by decide) hroom (by decide)
  refine ⟨results, hread 9 (by decide), ?_⟩
  rw [← List.map_flatMap, hmessages]
  decide

end NormaHarness.Chat
