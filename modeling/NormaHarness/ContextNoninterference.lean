import NormaHarness.ChatContext

/-!
# Unauthorised rooms cannot influence a query

Two stores agree for a query when its requester cannot tell them apart by the rooms
it is authorised to read, each taken up to its bound. Every room then contributes
the same messages to the answer in both stores, and the answer is made of these
contributions and of the queried room alone.
-/
namespace NormaHarness.Chat
open Std Identifiers Contracts LlmProtocol ToolProtocol

/-- The queried room exists and its requester is a member. -/
def Readable (query : ChatContextQuery) (s : RoomStore) : Prop :=
  ∃ current, s.get query.request.roomId = some current ∧ query.requester ∈ current.members

/-- A room that a query may read, given whether the queried room is incognito. -/
def Authorised (query : ChatContextQuery) (incognito : Bool) (room : ChatRoom) : Prop :=
  query.requester ∈ room.members ∧ room.id ∈ query.request.visibleThrough ∧
    (room.id = query.request.roomId ∨ query.request.scopeAll = true) ∧
    if incognito then room.id = query.request.roomId else room.incognito = false

def AuthorisedAt (query : ChatContextQuery) (incognito : Bool) (s : RoomStore) (k : ℕ) : Prop :=
  ∃ room, s.get k = some room ∧ Authorised query incognito room

/-- The messages of a room up to its bound. -/
def visibleMessages (query : ChatContextQuery) (room : ChatRoom) : List ChatMessage :=
  room.messages.filter fun m =>
    (query.request.visibleThrough[room.id]?).any fun last => decide (m.id ≤ last)

/-- Two versions of the queried room. -/
structure SameHeading (room room' : ChatRoom) : Prop where
  name : room.name = room'.name
  members : room.members = room'.members
  incognito : room.incognito = room'.incognito

/-- The two stores look alike to the requester of a query. -/
structure Agree (query : ChatContextQuery) (s t : RoomStore) : Prop where
  readable : Readable query s ↔ Readable query t
  current : ∀ room room' : ChatRoom, s.get query.request.roomId = some room →
    t.get query.request.roomId = some room' → query.requester ∈ room.members →
    query.requester ∈ room'.members → SameHeading room room'
  authorised : ∀ current : ChatRoom, s.get query.request.roomId = some current →
    query.requester ∈ current.members → ∀ k : ℕ,
      AuthorisedAt query current.incognito s k ↔ AuthorisedAt query current.incognito t k
  contents : ∀ current : ChatRoom, s.get query.request.roomId = some current →
    query.requester ∈ current.members → ∀ (k : ℕ) (room room' : ChatRoom),
      s.get k = some room → t.get k = some room' →
      Authorised query current.incognito room → Authorised query current.incognito room' →
      room.name = room'.name ∧ visibleMessages query room = visibleMessages query room'

theorem inScope_iff {query : ChatContextQuery} {incognito : Bool} {room : ChatRoom} :
    inScope query incognito room = true ↔ Authorised query incognito room := by
  unfold inScope Authorised
  cases incognito <;>
    simp only [Bool.and_eq_true, List.contains_iff_mem, ExtTreeMap.contains_iff_mem,
      Bool.or_eq_true, beq_iff_eq, and_assoc, or_comm, if_true, if_false, Bool.not_eq_true',
      Bool.false_eq_true]

/-- An authorised room contributes those of its visible messages that are on the page. -/
theorem queryMessages_authorised {query : ChatContextQuery} {incognito : Bool} {room : ChatRoom}
    (h : Authorised query incognito room) :
    queryMessages query incognito room =
      ((visibleMessages query room).filter fun m =>
        query.request.beforeMessageId.all fun before => decide (m.id < before)).map
          (contextMessage room) := by
  obtain ⟨last, hlast⟩ :=
    Option.isSome_iff_exists.mp (ExtTreeMap.mem_iff_isSome_getElem?.mp h.2.1)
  unfold queryMessages visibleMessages
  rw [if_pos (inScope_iff.mpr h), hlast, List.filter_filter]
  refine congrArg (List.map (contextMessage room)) (List.filter_congr fun m _ => ?_)
  simp only [inPage, Option.any_some, Bool.and_comm]

theorem queryMessages_unauthorised {query : ChatContextQuery} {incognito : Bool} {room : ChatRoom}
    (h : ¬Authorised query incognito room) : queryMessages query incognito room = [] := by
  unfold queryMessages
  rw [if_neg (mt inScope_iff.mp h)]

section

variable {query : ChatContextQuery} {s t : RoomStore}

/-- What a room contributes to the messages of a query. -/
def contributed (query : ChatContextQuery) (incognito : Bool) (s : RoomStore) (k : ℕ) :
    List LlmContextMessage :=
  OrderedMaps.contribution s.rooms (fun _ room => queryMessages query incognito room) k

theorem contributed_of_not_authorised {incognito : Bool} {k : ℕ}
    (h : ¬AuthorisedAt query incognito s k) : contributed query incognito s k = [] := by
  unfold contributed
  cases hroom : s.get k with
  | none => exact OrderedMaps.contribution_of_none hroom
  | some room =>
      rw [OrderedMaps.contribution_of_some hroom]
      exact queryMessages_unauthorised fun hauthorised => h ⟨room, hroom, hauthorised⟩

theorem Agree.contributed_eq (h : Agree query s t) {current : ChatRoom}
    (hcurrent : s.get query.request.roomId = some current)
    (hmember : query.requester ∈ current.members) (k : ℕ) :
    contributed query current.incognito s k = contributed query current.incognito t k := by
  by_cases hk : AuthorisedAt query current.incognito s k
  · obtain ⟨room', hroom', hauthorised'⟩ := (h.authorised current hcurrent hmember k).mp hk
    obtain ⟨room, hroom, hauthorised⟩ := hk
    obtain ⟨hname, hmessages⟩ := h.contents current hcurrent hmember k room room' hroom hroom'
      hauthorised hauthorised'
    have hid : room.id = room'.id :=
      (RoomStore.id_of_get hroom).trans (RoomStore.id_of_get hroom').symm
    have hlabel : contextMessage room = contextMessage room' := by
      funext m
      simp only [contextMessage, hid, hname]
    unfold contributed
    rw [OrderedMaps.contribution_of_some hroom, OrderedMaps.contribution_of_some hroom',
      queryMessages_authorised hauthorised, queryMessages_authorised hauthorised', hmessages,
      hlabel]
  · rw [contributed_of_not_authorised hk, contributed_of_not_authorised]
    exact mt (h.authorised current hcurrent hmember k).mpr hk

theorem Agree.matching_eq (h : Agree query s t) {current : ChatRoom}
    (hcurrent : s.get query.request.roomId = some current)
    (hmember : query.requester ∈ current.members) :
    matching s query current.incognito = matching t query current.incognito := by
  have hlisting : ∀ u : RoomStore, matching u query current.incognito =
      sortById (OrderedMaps.listing u.rooms fun _ room =>
        queryMessages query current.incognito room) :=
    fun u => congrArg sortById (RoomStore.flatMap_values u _)
  rw [hlisting s, hlisting t]
  exact congrArg sortById (OrderedMaps.listing_congr (h.contributed_eq hcurrent hmember))

/-- A page can be made as soon as the limit admits one message. -/
theorem page_isSome {request : ChatContextToolRequest} (hlimit : 1 ≤ request.limit)
    (roomName : String) (messages : List LlmContextMessage) :
    ∃ result, page request roomName messages = some result := by
  unfold page
  split_ifs with hlong
  · split
    · rename_i hempty
      have hlength := congrArg List.length hempty
      rw [List.length_drop, List.length_nil] at hlength
      omega
    · exact ⟨_, rfl⟩
  · exact ⟨_, rfl⟩

theorem chatContextFor_unreadable (h : ¬Readable query s) :
    chatContextFor s query = some (ChatContextResult.failed query.request
      "room not found or requester is not a member") := by
  unfold chatContextFor
  split
  · rfl
  · rename_i current hcurrent
    rw [if_neg fun hmember => h ⟨current, hcurrent, hmember⟩]

theorem chatContextFor_readable {current : ChatRoom}
    (hcurrent : s.get query.request.roomId = some current)
    (hmember : query.requester ∈ current.members) :
    chatContextFor s query =
      page query.request current.name (matching s query current.incognito) := by
  unfold chatContextFor
  simp only [hcurrent]
  rw [if_pos hmember]

/-- Two stores that agree for a query give the same answer to it. -/
theorem chat_context_noninterference (h : Agree query s t) (hlimit : 1 ≤ query.request.limit) :
    ∃ result, chatContextFor s query = some result ∧ chatContextFor t query = some result := by
  by_cases hreadable : Readable query s
  · obtain ⟨current', hcurrent', hmember'⟩ := h.readable.mp hreadable
    obtain ⟨current, hcurrent, hmember⟩ := hreadable
    obtain ⟨hname, _, hincognito⟩ :=
      h.current current current' hcurrent hcurrent' hmember hmember'
    rw [chatContextFor_readable hcurrent hmember, chatContextFor_readable hcurrent' hmember',
      ← hname, ← hincognito, ← h.matching_eq hcurrent hmember]
    obtain ⟨result, hresult⟩ := page_isSome hlimit current.name
      (matching s query current.incognito)
    exact ⟨result, hresult, hresult⟩
  · exact ⟨_, chatContextFor_unreadable hreadable,
      chatContextFor_unreadable (mt h.readable.mpr hreadable)⟩

end

/-- A room as it is now, as it was one message earlier, and a room of somebody else. -/
def plansRoom (messages : List ChatMessage) : ChatRoom :=
  ⟨1, "Plans", ["codex"], messages, false, none, false, 0, 1, false, false⟩

def greeting : ChatMessage := ⟨1, "user", "你", "hello", 1, [], []⟩
def laterAnswer : ChatMessage := ⟨2, "agent", "codex", "hi", 2, [], []⟩

def secretRoom : ChatRoom :=
  ⟨2, "Secret", ["claude"], [⟨3, "user", "你", "hidden", 3, [], []⟩], false, none, false, 0, 3,
    false, false⟩

def plansQuery : ChatContextQuery :=
  ⟨⟨"call-1", 1, (∅ : ExtTreeMap ℕ ℕ).insert 1 1, true, none, 50⟩, "codex"⟩

def plansStore : RoomStore := RoomStore.empty.put (plansRoom [greeting])

def fullerStore : RoomStore :=
  (RoomStore.empty.put (plansRoom [greeting, laterAnswer])).put secretRoom

theorem plansStore_get {k : ℕ} {room : ChatRoom} (h : plansStore.get k = some room) :
    k = 1 ∧ room = plansRoom [greeting] := by
  rw [plansStore, RoomStore.get_put, RoomStore.get_empty] at h
  split_ifs at h with hk
  exact ⟨hk.symm, (Option.some.inj h).symm⟩

theorem fullerStore_get {k : ℕ} {room : ChatRoom} (h : fullerStore.get k = some room) :
    room = secretRoom ∨ k = 1 ∧ room = plansRoom [greeting, laterAnswer] := by
  rw [fullerStore, RoomStore.get_put, RoomStore.get_put, RoomStore.get_empty] at h
  split_ifs at h with hsecret hk
  · exact .inl (Option.some.inj h).symm
  · exact .inr ⟨hk.symm, (Option.some.inj h).symm⟩

/-- A message past the bound and a room of others make no difference. -/
theorem chat_context_noninterference_plans :
    ∃ result, chatContextFor plansStore plansQuery = some result ∧
      chatContextFor fullerStore plansQuery = some result := by
  have hplans : plansStore.get 1 = some (plansRoom [greeting]) := RoomStore.get_put_self _ _
  have hfuller : fullerStore.get 1 = some (plansRoom [greeting, laterAnswer]) := by rfl
  have hsecret : ¬Authorised plansQuery false secretRoom := by
    rw [← inScope_iff]
    decide
  refine chat_context_noninterference ⟨?_, ?_, ?_, ?_⟩ (by decide)
  · exact iff_of_true ⟨_, hplans, List.mem_cons_self⟩ ⟨_, hfuller, List.mem_cons_self⟩
  · intro room room' hroom hroom' _ _
    obtain rfl := (plansStore_get hroom).2
    obtain rfl := Option.some.inj (hfuller.symm.trans hroom')
    exact ⟨rfl, rfl, rfl⟩
  · intro current hcurrent _ k
    obtain rfl := (plansStore_get hcurrent).2
    constructor
    · rintro ⟨room, hroom, hauthorised⟩
      obtain ⟨rfl, rfl⟩ := plansStore_get hroom
      exact ⟨_, hfuller, inScope_iff.mp (by decide)⟩
    · rintro ⟨room, hroom, hauthorised⟩
      rcases fullerStore_get hroom with rfl | ⟨rfl, rfl⟩
      · exact absurd hauthorised hsecret
      · exact ⟨_, hplans, inScope_iff.mp (by decide)⟩
  · intro current hcurrent _ k room room' hroom hroom' _ hauthorised'
    obtain rfl := (plansStore_get hcurrent).2
    obtain rfl := (plansStore_get hroom).2
    rcases fullerStore_get hroom' with rfl | ⟨_, rfl⟩
    · exact absurd hauthorised' hsecret
    · exact ⟨rfl, by rfl⟩

end NormaHarness.Chat
