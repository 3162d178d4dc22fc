import NormaHarness.MentionScans
import NormaHarness.RoundRooms

/-!
# Addressing a member in braces

Between braces the scan takes everything up to the first closing brace, but it goes on behind
the opening one and looks at every `@` of the key again. So a key can be addressed if it has no
closing brace, is no name of the user, and no `@` in it names somebody else.
-/
namespace NormaHarness.Chat
open Identifiers Media FilePrograms FirstOccurrences

variable {isAlphanumeric : Char → Bool}

/-- An `@` in front of this rest of a key names the user or nobody. -/
def namesNobody : List Char → Bool
  | '{' :: rest => isUserMention (String.ofList rest)
  | rest => (bareKey rest).all isUserMention

/-- Only the key itself is named when it is written between braces. -/
structure Addressable (key : String) : Prop where
  closed : '}' ∉ key.toList
  resident : isUserMention key = false
  alone : ∀ before after, key.toList = before ++ '@' :: after →
    before.getLast?.any isWordChar = true ∨ namesNobody after = true

/-- The text that addresses a key in braces. -/
def braced (key : String) : String := "@\x7b" ++ key ++ "\x7d"

theorem braced_toList (key : String) :
    (braced key).toList = '@' :: '{' :: (key.toList ++ ['}']) := by
  simp [braced]

theorem trim_braced (key : String) : Text.trim (braced key) = braced key := by
  have hends : (braced key).toList = ('@' :: '{' :: key.toList) ++ ['}'] := braced_toList key
  rw [Text.trim, braced_toList, List.dropWhile_cons_of_neg (by decide), ← braced_toList, hends,
    List.rdropWhile_concat_neg _ _ _ (by decide), ← hends, String.ofList_toList]

/-! ## What the scan finds -/

theorem bareKey_concat {c : Char} (h : isKeyChar c = false) (rest : List Char) :
    bareKey (rest ++ [c]) = bareKey rest := by
  have hrun : (rest ++ [c]).takeWhile isKeyChar = rest.takeWhile isKeyChar := by
    rw [List.takeWhile_append]
    split_ifs with hall
    · have hself : rest.takeWhile isKeyChar = rest :=
        (List.takeWhile_prefix isKeyChar).eq_of_length hall
      simp [h, hself]
    · rfl
  simp only [bareKey, hrun]

theorem bareKey_other {c : Char} (h : isKeyChar c = false) (rest : List Char) :
    bareKey (c :: rest) = none := by
  simp [bareKey, h]

variable (isAlphanumeric) in
/-- Without a brace, the user is named or a bare key is. -/
theorem candidateAt_unbraced {rest : List Char} (h : rest.head? ≠ some '{') :
    candidateAt isAlphanumeric rest = bareKey rest ∨
      bareKey rest = none ∧ ∃ name, candidateAt isAlphanumeric rest = some name ∧
        isUserMention name = true := by
  unfold candidateAt
  split
  · exact absurd rfl h
  · split_ifs
    · exact .inr ⟨bareKey_other (by decide) _, _, rfl, by decide⟩
    · exact .inl rfl
  · split_ifs
    · exact .inr ⟨bareKey_other (by decide) _, _, rfl, by decide⟩
    · exact .inl rfl
  · exact .inl rfl

theorem candidateAt_braced {key : List Char} (h : '}' ∉ key) :
    candidateAt isAlphanumeric ('{' :: (key ++ ['}'])) = some (String.ofList key) := by
  have hkey : (key ++ ['}']).takeWhile (· != '}') = key := by
    rw [List.takeWhile_append_of_pos fun c hc => by simpa using fun he : c = '}' => h (he ▸ hc)]
    simp
  simp [candidateAt, hkey]

variable (isAlphanumeric) in
/-- What an `@` inside of the braces names. -/
theorem namesNobody_iff {rest : List Char} (h : '}' ∉ rest) :
    namesNobody rest = true ↔
      ∀ key, candidateAt isAlphanumeric (rest ++ ['}']) = some key → isUserMention key = true := by
  unfold namesNobody
  split
  · rename_i rest
    rw [List.cons_append, candidateAt_braced fun hmem => h (List.mem_cons_of_mem _ hmem)]
    simp
  · rename_i hbrace
    have hhead : (rest ++ ['}']).head? ≠ some '{' := by
      cases rest with
      | nil => decide
      | cons c rest => exact fun he => hbrace rest (congrArg (· :: rest) (Option.some.inj he))
    rw [← bareKey_concat (by decide : isKeyChar '}' = false) rest]
    rcases candidateAt_unbraced isAlphanumeric hhead with
      hbare | ⟨hnone, name, hname, huser⟩
    · rw [hbare]
      cases bareKey (rest ++ ['}']) <;> simp
    · rw [hnone, hname]
      simpa using huser

/-! ## Who is addressed -/

theorem mentionCandidates_braced (key : String) :
    mentionCandidates isAlphanumeric (braced key) =
      (candidateAt isAlphanumeric ('{' :: (key.toList ++ ['}']))).toList ++
        candidatesFrom isAlphanumeric (some '{') (key.toList ++ ['}']) := by
  rw [mentionCandidates, braced_toList, candidatesFrom_cons, if_pos ⟨rfl, rfl⟩,
    candidatesFrom_cons_of_ne (by decide)]

/-- The keys named inside of the braces, by the `@` in front of each. -/
theorem mem_inner {key other : String} :
    other ∈ candidatesFrom isAlphanumeric (some '{') (key.toList ++ ['}']) ↔
      ∃ before after, key.toList = before ++ '@' :: after ∧
        before.getLast?.any isWordChar = false ∧
        candidateAt isAlphanumeric (after ++ ['}']) = some other := by
  have hbrace : ∀ before : List Char, (before.getLast?.or (some '{')).any isWordChar =
      before.getLast?.any isWordChar := by
    intro before
    cases before.getLast? <;> rfl
  rw [mem_candidatesFrom]
  constructor
  · rintro ⟨before, after, htext, hbefore, hafter⟩
    rcases List.eq_nil_or_concat after with rfl | ⟨init, last, rfl⟩
    · exact absurd (List.append_inj' htext rfl).2 (by decide)
    · rw [List.concat_eq_append, ← List.cons_append, ← List.append_assoc] at htext
      obtain ⟨hkey, hlast⟩ := List.append_inj' htext rfl
      obtain rfl := List.singleton_inj.mp hlast
      exact ⟨before, init, hkey, hbrace before ▸ hbefore, by rwa [List.concat_eq_append] at hafter⟩
  · rintro ⟨before, after, hkey, hbefore, hafter⟩
    refine ⟨before, after ++ ['}'], ?_, (hbrace before).trans hbefore, hafter⟩
    rw [hkey, List.append_assoc, List.cons_append]

/-- A key named from the inside is shorter than the key. -/
theorem ne_of_inner {key other : String} {before after : List Char}
    (hkey : key.toList = before ++ '@' :: after)
    (h : candidateAt isAlphanumeric (after ++ ['}']) = some other) : other ≠ key := by
  rintro rfl
  obtain ⟨hsub, hclosed⟩ := candidateAt_some h
  have hall : other.toList.filter (· != '}') = other.toList :=
    List.filter_eq_self.mpr fun c hc => by simpa using fun he : c = '}' => hclosed (he ▸ hc)
  have hrest : (after ++ ['}']).filter (· != '}') = after.filter (· != '}') := by simp
  have hlength := (hsub.filter (· != '}')).length_le
  rw [hall, hrest, hkey, List.length_append, List.length_cons] at hlength
  have hfilter := List.length_filter_le (· != '}') after
  omega

/-- The selection of a text is one member if it names that member and, beside the user, nobody
else. -/
theorem mentionedMembers_singleton_iff {text key : String} {members : List String}
    (hkey : key ∈ members) :
    mentionedMembers isAlphanumeric text members = .ok [key] ↔
      key ∈ addressees (mentionCandidates isAlphanumeric text) ∧
        ∀ other ∈ addressees (mentionCandidates isAlphanumeric text), other = key := by
  rw [mentionedMembers, selectMembers_ok_iff, eq_comm (a := [key]), eraseDups_eq_singleton]
  constructor
  · exact fun h => h.2
  · exact fun h => ⟨fun other hother => h.2 other hother ▸ hkey, h⟩

variable (isAlphanumeric) in
theorem selects_braced_iff {key : String} {members : List String} (hkey : key ∈ members) :
    mentionedMembers isAlphanumeric (braced key) members = .ok [key] ↔ Addressable key := by
  rw [mentionedMembers_singleton_iff hkey, mentionCandidates_braced]
  constructor
  · rintro ⟨hnamed, hothers⟩
    obtain ⟨hnamed, hresident⟩ := mem_addressees.mp hnamed
    have hclosed : '}' ∉ key.toList := by
      rcases List.mem_append.mp hnamed with hnamed | hnamed
      · exact (candidateAt_some (Option.mem_toList.mp hnamed)).2
      · obtain ⟨_, _, _, _, hafter⟩ := mem_inner.mp hnamed
        exact (candidateAt_some hafter).2
    refine ⟨hclosed, hresident, fun before after hsplit => or_iff_not_imp_left.mpr fun hword => ?_⟩
    have hword := Bool.eq_false_iff.mpr hword
    have hafter : '}' ∉ after := fun hmem =>
      hclosed (hsplit ▸ List.mem_append_right before (List.mem_cons_of_mem _ hmem))
    refine (namesNobody_iff isAlphanumeric hafter).mpr fun other hother => ?_
    by_contra huser
    have hinner := mem_inner.mpr ⟨before, after, hsplit, hword, hother⟩
    exact ne_of_inner hsplit hother (hothers other (mem_addressees.mpr
      ⟨List.mem_append_right _ hinner, Bool.eq_false_iff.mpr huser⟩))
  · intro h
    rw [candidateAt_braced h.closed, String.ofList_toList]
    refine ⟨mem_addressees.mpr ⟨List.mem_cons_self, h.resident⟩, fun other hother => ?_⟩
    obtain ⟨hnamed, hresident⟩ := mem_addressees.mp hother
    rcases List.mem_cons.mp hnamed with rfl | hinner
    · rfl
    · obtain ⟨before, after, hsplit, hword, hother⟩ := mem_inner.mp hinner
      have hafter : '}' ∉ after := fun hmem =>
        h.closed (hsplit ▸ List.mem_append_right before (List.mem_cons_of_mem _ hmem))
      rcases h.alone before after hsplit with hbegins | hnobody
      · rw [hword] at hbegins
        cases hbegins
      · rw [(namesNobody_iff isAlphanumeric hafter).mp hnobody other hother] at hresident
        cases hresident

/-- In a group one member is addressed only if the text selects it. -/
theorem addressed_singleton_iff {text key : String} {room : ChatRoom} {addressees : List String}
    (h : addressed isAlphanumeric text room = .ok addressees) (hgroup : 1 < room.members.length) :
    addressees = [key] ↔ mentionedMembers isAlphanumeric text room.members = .ok [key] := by
  unfold addressed at h
  split_ifs at h
  cases hmentioned : mentionedMembers isAlphanumeric text room.members with
  | error error => simp [hmentioned, Except.map] at h
  | ok mentioned =>
      simp only [hmentioned, Except.map, Except.ok.injEq] at h ⊢
      cases mentioned with
      | nil =>
          -- Without a selection everybody is addressed, and that is more than one.
          subst h
          refine ⟨fun he => ?_, fun he => by cases he⟩
          rw [show room.members = [key] from he] at hgroup
          exact absurd hgroup (Nat.lt_irrefl 1)
      | cons first rest =>
          subst h
          exact Iff.rfl

/-- Written between braces, a member is selected alone and addressed alone by the round of a
group exactly if its key is one that can be addressed. -/
theorem braced_addresses_iff (isAlphanumeric : Char → Bool) {members : List ResidentKey}
    {k : ResidentKey} (hk : k ∈ members) :
    (mentionedMembers isAlphanumeric (braced k.asStr) (members.map Identifier.asStr) =
      .ok [k.asStr] ↔ Addressable k.asStr) ∧
    ∀ (faults : SnapshotFaults) (clock : Clock) (id : ℕ) (media : List MediaAsset)
      (chat : ChatResident) (disk : SnapshotDisk) (room : ChatRoom) (round : Round),
      chat.rooms.get id = some room → room.members = members.map Identifier.asStr →
      1 < members.length →
      (sendUserMessageWithMedia isAlphanumeric faults clock id (braced k.asStr) media chat
        disk).2.2.2 = some round →
      (round.members = [k.asStr] ↔ Addressable k.asStr) := by
  have hselects := selects_braced_iff isAlphanumeric
    (List.mem_map_of_mem hk : k.asStr ∈ members.map Identifier.asStr)
  refine ⟨hselects, fun faults clock id media chat disk room round hroom hmembers hgroup h => ?_⟩
  obtain ⟨room', hroom', haddressed, -⟩ := accepted_round h
  obtain rfl := Option.some.inj (hroom.symm.trans hroom')
  rw [trim_braced] at haddressed
  have hmany : 1 < room.members.length := by rwa [hmembers, List.length_map]
  rw [addressed_singleton_iff haddressed hmany, hmembers, hselects]

theorem braced_addresses_iff_model :
    mentionedMembers Char.isAlphanum "@\x7b模型 A\x7d" ["模型 A", "beta"] = .ok ["模型 A"] := by
  have hk : (⟨"模型 A", by decide⟩ : ResidentKey) ∈
      ([⟨"模型 A", by decide⟩, ⟨"beta", by decide⟩] : List ResidentKey) := List.mem_cons_self
  refine (braced_addresses_iff Char.isAlphanum hk).1.mpr ⟨by decide, by decide, ?_⟩
  intro before after hsplit
  have hat : '@' ∉ "模型 A".toList := by decide
  exact absurd (hsplit ▸ List.mem_append_right before List.mem_cons_self) hat

/-- With an `@` inside of its key, a member brings another one in. -/
theorem braced_addresses_others : ¬∀ members : List ResidentKey, members.Nodup →
    ∀ k ∈ members, mentionedMembers Char.isAlphanum (braced k.asStr)
      (members.map Identifier.asStr) = .ok [k.asStr] := by
  intro h
  have hboth : mentionedMembers Char.isAlphanum (braced "ops @beta") ["ops @beta", "beta"] =
      .ok ["ops @beta", "beta"] := by rfl
  have halone := h [⟨"ops @beta", by decide⟩, ⟨"beta", by decide⟩] (by decide) _
    List.mem_cons_self
  exact absurd (hboth.symm.trans halone) (by decide)

end NormaHarness.Chat
