import NormaHarness.FirstOccurrences
import NormaHarness.Mentions

/-!
# Whom a text mentions

The user's messages and the members' answers are scanned in the same way, but they are read
with different rules. The user's own names are skipped in a message and silence an answer;
a stranger ends the selection of a message and is passed over in an answer. Both readings are
the first occurrences of the keys that they accept.
-/
namespace NormaHarness.Chat
open FirstOccurrences

/-- The keys that are not names of the user. -/
def addressees (keys : List String) : List String := keys.filter fun key => !isUserMention key

theorem mem_addressees {keys : List String} {key : String} :
    key ∈ addressees keys ↔ key ∈ keys ∧ isUserMention key = false := by
  simp [addressees]

theorem addressees_of_not_any {keys : List String} (h : keys.any isUserMention = false) :
    addressees keys = keys := by
  refine List.filter_eq_self.mpr fun key hkey => ?_
  simpa using List.any_eq_false.mp h key hkey

theorem selectMembers_eq (members selected keys : List String) :
    selectMembers members selected keys =
      match (addressees keys).find? (· ∉ members) with
      | some key => .error (.invalid s!"@{key} is not a member of this group")
      | none => .ok (selected ++ fresh selected (addressees keys)) := by
  induction keys generalizing selected with
  | nil => simp [selectMembers, addressees]
  | cons key keys ih =>
      unfold selectMembers
      by_cases huser : isUserMention key = true
      · have hskip : addressees (key :: keys) = addressees keys :=
          List.filter_cons_of_neg (by simp [huser])
        rw [if_pos huser, hskip, ih]
      · have hkeep : addressees (key :: keys) = key :: addressees keys :=
          List.filter_cons_of_pos (by simp [huser])
        rw [if_neg huser, hkeep, List.find?_cons]
        by_cases hmember : key ∈ members
        · rw [if_neg (not_not.mpr hmember), decide_eq_false (not_not.mpr hmember)]
          by_cases hselected : key ∈ selected
          · rw [if_pos hselected, fresh_cons_old hselected, ih]
          · rw [if_neg hselected, fresh_cons_new hselected, ih, List.append_assoc]
            rfl
        · rw [if_pos hmember, decide_eq_true hmember]

/-- A selection is made of the first occurrences of the keys that are not the user's. -/
theorem selectMembers_ok_iff {members keys out : List String} :
    selectMembers members [] keys = .ok out ↔
      (∀ key ∈ addressees keys, key ∈ members) ∧ out = (addressees keys).eraseDups := by
  rw [selectMembers_eq]
  cases hfind : (addressees keys).find? (· ∉ members) with
  | none =>
      have hall : ∀ key ∈ addressees keys, key ∈ members := by
        simpa using hfind
      simp only [fresh_none_seen, List.nil_append, Except.ok.injEq]
      exact ⟨fun h => ⟨hall, h.symm⟩, fun h => h.2.symm⟩
  | some key =>
      have hstranger := List.find?_some hfind
      constructor
      · intro h
        cases h
      · intro h
        simp [h.1 key (List.mem_of_find?_eq_some hfind)] at hstranger

theorem enqueueFrom_eq (source : String) (members selected : List String)
    (pending : List (String × String)) (keys : List String) :
    enqueueFrom source members selected pending keys =
      pending ++ (fresh selected (keys.filter fun key => key ≠ source ∧ key ∈ members)).map
        (source, ·) := by
  induction keys generalizing selected pending with
  | nil => simp [enqueueFrom]
  | cons key keys ih =>
      unfold enqueueFrom
      by_cases hasked : key ≠ source ∧ key ∈ members
      · have hkeep : ((key :: keys).filter fun key => key ≠ source ∧ key ∈ members) =
            key :: keys.filter fun key => key ≠ source ∧ key ∈ members :=
          List.filter_cons_of_pos (decide_eq_true hasked)
        rw [hkeep]
        by_cases hselected : key ∈ selected
        · rw [if_neg fun h => h.2.2 hselected, fresh_cons_old hselected, ih]
        · rw [if_pos ⟨hasked.1, hasked.2, hselected⟩, fresh_cons_new hselected, ih,
            List.append_assoc]
          rfl
      · have hskip : ((key :: keys).filter fun key => key ≠ source ∧ key ∈ members) =
            keys.filter fun key => key ≠ source ∧ key ∈ members :=
          List.filter_cons_of_neg (by simpa using hasked)
        rw [hskip, if_neg fun h => hasked ⟨h.1, h.2.1⟩, ih]

/-- Unless an answer names the user, it asks for the first occurrences of other members. -/
theorem enqueueMentions_eq {isAlphanumeric : Char → Bool} {answer : String}
    (h : mentionsUser isAlphanumeric answer = false) (pending : List (String × String))
    (source : String) (members : List String) :
    enqueueMentions isAlphanumeric pending source answer members =
      pending ++ ((((mentionCandidates isAlphanumeric answer).filter (· ∈ members)).eraseDups.filter
        (· ≠ source)).map (source, ·)) := by
  rw [enqueueMentions, if_neg (by simp [h]), enqueueFrom_eq, fresh_none_seen, ← eraseDups_filter,
    List.filter_filter]
  congr 4
  funext key
  simp

theorem enqueueMentions_append (isAlphanumeric : Char → Bool) (pending : List (String × String))
    (source answer : String) (members : List String) :
    enqueueMentions isAlphanumeric pending source answer members =
      pending ++ enqueueMentions isAlphanumeric [] source answer members := by
  unfold enqueueMentions
  split_ifs
  · exact (List.append_nil pending).symm
  · rw [enqueueFrom_eq, enqueueFrom_eq, List.nil_append]

/-- An answer enqueues the members that it mentions, unless it mentions the user. -/
theorem mem_enqueueMentions {isAlphanumeric : Char → Bool} {source answer : String}
    {members : List String} {q : String × String}
    (h : q ∈ enqueueMentions isAlphanumeric [] source answer members) :
    q.1 = source ∧ mentionsUser isAlphanumeric answer = false ∧
      q.2 ∈ mentionCandidates isAlphanumeric answer ∧ q.2 ∈ members ∧ q.2 ≠ source := by
  cases huser : mentionsUser isAlphanumeric answer with
  | true =>
      rw [enqueueMentions, if_pos huser] at h
      cases h
  | false =>
      rw [enqueueMentions_eq huser, List.nil_append] at h
      obtain ⟨key, hkey, rfl⟩ := List.mem_map.mp h
      obtain ⟨hmember, hne⟩ := List.mem_filter.mp hkey
      obtain ⟨hnamed, hmember⟩ := List.mem_filter.mp (List.mem_eraseDups.mp hmember)
      exact ⟨rfl, rfl, hnamed, of_decide_eq_true hmember, of_decide_eq_true hne⟩

/-- Messages and answers that do not name the user are read alike. What a message selects,
an answer asks for, less the one who gave it; where a message fails on a stranger, an answer
asks for the members among the mentioned. -/
theorem enqueueMentions_agrees (isAlphanumeric : Char → Bool) (pending : List (String × String))
    (source text : String) (members : List String) :
    (mentionsUser isAlphanumeric text = true →
      enqueueMentions isAlphanumeric pending source text members = pending) ∧
    (mentionsUser isAlphanumeric text = false →
      (∀ sel, mentionedMembers isAlphanumeric text members = .ok sel →
        enqueueMentions isAlphanumeric pending source text members =
          pending ++ (sel.filter (· ≠ source)).map (source, ·) ∧
        ((sel.filter (· ≠ source)).map (source, ·)).Nodup) ∧
      ∀ error, mentionedMembers isAlphanumeric text members = .error error →
        enqueueMentions isAlphanumeric pending source text members =
          pending ++ ((((mentionCandidates isAlphanumeric text).filter
            (· ∈ members)).eraseDups.filter (· ≠ source)).map (source, ·))) := by
  refine ⟨fun huser => if_pos huser, fun hsilent => ⟨fun sel hsel => ?_, fun _ _ => ?_⟩⟩
  · obtain ⟨hmembers, hout⟩ := selectMembers_ok_iff.mp hsel
    rw [addressees_of_not_any hsilent] at hmembers hout
    have hall : (mentionCandidates isAlphanumeric text).filter (· ∈ members) =
        mentionCandidates isAlphanumeric text :=
      List.filter_eq_self.mpr fun key hkey => decide_eq_true (hmembers key hkey)
    rw [enqueueMentions_eq hsilent, hall, ← hout]
    refine ⟨rfl, List.Nodup.map (fun a b h => congrArg Prod.snd h) (List.Nodup.filter _ ?_)⟩
    rw [hout]
    exact nodup_eraseDups _
  · exact enqueueMentions_eq hsilent pending source members

theorem enqueueMentions_agrees_stranger :
    enqueueMentions (fun _ => false) [("b", "a")] "a" "@stranger @b @a @b" ["a", "b"] =
      [("b", "a"), ("a", "b")] := by
  have hsilent : mentionsUser (fun _ => false) "@stranger @b @a @b" = false := by decide
  have hfails : mentionedMembers (fun _ => false) "@stranger @b @a @b" ["a", "b"] =
      .error (.invalid "@stranger is not a member of this group") := by rfl
  rw [((enqueueMentions_agrees (fun _ => false) [("b", "a")] "a" "@stranger @b @a @b"
    ["a", "b"]).2 hsilent).2 _ hfails]
  decide

end NormaHarness.Chat
