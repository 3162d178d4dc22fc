import NormaHarness.MentionScans
import NormaHarness.MentionSelection

/-!
# Bare mentions in a sentence

A sentence is text without an `@` in which keys are written after an `@`. If the characters
around each key cannot be taken for a part of it, the scan finds the keys as they were
written, whatever the rest of the text is.
-/
namespace NormaHarness.Chat
open FirstOccurrences

variable {isAlphanumeric : Char → Bool}

/-- A key that needs no braces and is not a name of the user. -/
structure BareKey (key : String) : Prop where
  chars : ∀ c ∈ key.toList, isKeyChar c = true
  nonempty : key ≠ ""
  undotted : key.toList.getLast? ≠ some '.'
  resident : key.toList.map toAsciiLower ≠ "user".toList

/-- Text after a key: dots, and then what cannot belong to a key. Dots alone end the text. -/
def Follows (last : Bool) (next : String) : Prop :=
  ∃ dots rest, next.toList = dots ++ rest ∧ (∀ c ∈ dots, c = '.') ∧
    (rest = [] ∧ last = true ∨ ∃ c more, rest = c :: more ∧ isKeyChar c = false)

/-- Text before the first mention, and each key with the text after it. -/
def sentence : String → List (String × String) → String
  | opening, [] => opening
  | opening, (key, next) :: more => opening ++ "@" ++ key ++ sentence next more

def Sentence : String → List (String × String) → Prop
  | opening, [] => '@' ∉ opening.toList
  | opening, (key, next) :: more =>
      '@' ∉ opening.toList ∧ opening.toList.getLast?.any isWordChar = false ∧ BareKey key ∧
        Follows more.isEmpty next ∧ Sentence next more

theorem BareKey.not_user {key : String} (h : BareKey key) : isUserMention key = false := by
  have hyou : key ≠ "你" := by
    rintro rfl
    exact absurd (h.chars '你' (by decide)) (by decide)
  have huser : key ≠ "用户" := by
    rintro rfl
    exact absurd (h.chars '用' (by decide)) (by decide)
  simp only [isUserMention, Bool.or_eq_false_iff, beq_eq_false_iff_ne]
  exact ⟨⟨hyou, huser⟩, h.resident⟩

theorem BareKey.no_at {key : String} (h : BareKey key) : '@' ∉ key.toList :=
  fun hat => absurd (h.chars '@' hat) (by decide)

/-- A bare key is named whatever follows its sentence-ending dots. -/
theorem BareKey.named {key : String} (h : BareKey key) {dots rest : List Char}
    (hdots : ∀ c ∈ dots, c = '.') (hrest : ∀ c ∈ rest.head?, isKeyChar c = false) :
    candidateAt isAlphanumeric (key.toList ++ (dots ++ rest)) = some key := by
  have hne : key.toList ≠ [] := fun he => h.nonempty (String.toList_eq_nil_iff.mp he)
  have hkey := bareKey_append h.chars hne h.undotted hdots hrest
  rw [String.ofList_toList, List.append_assoc] at hkey
  obtain ⟨c, cs, hcs⟩ := List.exists_cons_of_ne_nil hne
  rw [← hkey, hcs]
  exact candidateAt_keyChar (h.chars c (hcs ▸ List.mem_cons_self)) _

theorem sentence_begins (opening : String) (mentions : List (String × String)) :
    ∃ after, (sentence opening mentions).toList = opening.toList ++ after ∧
      (mentions = [] → after = []) := by
  cases mentions with
  | nil => exact ⟨[], (List.append_nil _).symm, fun _ => rfl⟩
  | cons m more =>
      refine ⟨("@" ++ m.1 ++ sentence m.2 more).toList, ?_, fun h => by cases h⟩
      simp [sentence]

theorem Follows.rest {next : String} {more : List (String × String)}
    (h : Follows more.isEmpty next) :
    ∃ dots rest, (sentence next more).toList = dots ++ rest ∧ (∀ c ∈ dots, c = '.') ∧
      ∀ c ∈ rest.head?, isKeyChar c = false := by
  obtain ⟨dots, rest, hnext, hdots, hends⟩ := h
  obtain ⟨after, hsentence, hlast⟩ := sentence_begins next more
  refine ⟨dots, rest ++ after, by rw [hsentence, hnext, List.append_assoc], hdots, ?_⟩
  rcases hends with ⟨rfl, hempty⟩ | ⟨c, tail, rfl, hc⟩
  · rw [hlast (List.isEmpty_iff.mp hempty)]
    exact fun c hc => by cases hc
  · intro d hd
    obtain rfl := Option.some.inj hd
    exact hc

theorem Sentence.opens {opening : String} {mentions : List (String × String)}
    (h : Sentence opening mentions) : '@' ∉ opening.toList := by
  cases mentions with
  | nil => exact h
  | cons m more => exact h.1

/-- Between two keys there is some text, and it does not end in a word. -/
theorem Sentence.between {next : String} {more : List (String × String)}
    (h : Sentence next more) (hnext : Follows more.isEmpty next) (previous : Option Char) :
    more = [] ∨ (next.toList.getLast?.or previous).any isWordChar = false := by
  cases more with
  | nil => exact .inl rfl
  | cons m more =>
      obtain ⟨dots, rest, htext, -, hends⟩ := hnext
      rcases hends with ⟨-, hfalse⟩ | ⟨c, tail, rfl, -⟩
      · cases hfalse
      · have hne : next.toList ≠ [] := by simp [htext]
        have hlast := h.2.1
        rw [List.getLast?_eq_some_getLast hne] at hlast ⊢
        exact .inr hlast

/-- Induction over the mentions; the text before each of them is passed over as a whole. -/
theorem candidatesFrom_sentence {opening : String} {mentions : List (String × String)}
    (h : Sentence opening mentions) {previous : Option Char}
    (hprevious : mentions = [] ∨ (opening.toList.getLast?.or previous).any isWordChar = false) :
    candidatesFrom isAlphanumeric previous (sentence opening mentions).toList =
      mentions.map Prod.fst := by
  induction mentions generalizing opening previous with
  | nil =>
      rw [← List.append_nil (sentence opening []).toList]
      exact candidatesFrom_plain h previous []
  | cons m more ih =>
      obtain ⟨key, next⟩ := m
      obtain ⟨hopening, -, hkey, hnext, hmore⟩ := h
      have htext : (sentence opening ((key, next) :: more)).toList =
          opening.toList ++ '@' :: (key.toList ++ (sentence next more).toList) := by
        simp [sentence]
      obtain ⟨dots, rest, hafter, hdots, hrest⟩ := hnext.rest
      have hnamed : candidateAt isAlphanumeric (key.toList ++ (sentence next more).toList) =
          some key := by
        rw [hafter]
        exact hkey.named hdots hrest
      rw [htext, candidatesFrom_plain hopening, candidatesFrom_cons,
        if_pos ⟨rfl, hprevious.resolve_left (List.cons_ne_nil _ _)⟩, hnamed,
        candidatesFrom_plain hkey.no_at, ih hmore (hmore.between hnext _)]
      rfl

theorem Sentence.bare {opening : String} {mentions : List (String × String)}
    (h : Sentence opening mentions) : ∀ key ∈ mentions.map Prod.fst, BareKey key := by
  induction mentions generalizing opening with
  | nil => exact fun key hkey => absurd hkey List.not_mem_nil
  | cons m more ih =>
      obtain ⟨-, -, hkey, -, hmore⟩ := h
      intro key hmem
      rcases List.mem_cons.mp hmem with rfl | hmem
      · exact hkey
      · exact ih hmore key hmem

/-- The scan of a sentence gives back its keys. The members among them are selected once each
in the order of the sentence, and if there is a stranger, the first one is named. -/
theorem sentence_round_trip (isAlphanumeric : Char → Bool) {opening : String}
    {mentions : List (String × String)} (h : Sentence opening mentions) (members : List String) :
    let keys := mentions.map Prod.fst
    let text := sentence opening mentions
    mentionCandidates isAlphanumeric text = keys ∧
    ((∀ key ∈ keys, key ∈ members) →
      mentionedMembers isAlphanumeric text members = .ok keys.eraseDups) ∧
    (¬(∀ key ∈ keys, key ∈ members) → ∃ before stranger after,
      keys = before ++ stranger :: after ∧ (∀ key ∈ before, key ∈ members) ∧
      stranger ∉ members ∧ mentionedMembers isAlphanumeric text members =
        .error (.invalid s!"@{stranger} is not a member of this group")) := by
  intro keys text
  have hcandidates : mentionCandidates isAlphanumeric text = keys := by
    refine candidatesFrom_sentence h ?_
    cases mentions with
    | nil => exact .inl rfl
    | cons m more => exact .inr (by simpa using h.2.1)
  have haddressees : addressees keys = keys :=
    addressees_of_not_any (List.any_eq_false.mpr fun key hkey => by
      simp [(h.bare key hkey).not_user])
  refine ⟨hcandidates, fun hall => ?_, fun hstranger => ?_⟩
  · rw [mentionedMembers, hcandidates, selectMembers_ok_iff, haddressees]
    exact ⟨hall, rfl⟩
  · cases hfind : keys.find? (· ∉ members) with
    | none => exact absurd (by simpa using hfind) hstranger
    | some stranger =>
        obtain ⟨hnot, before, after, hkeys, hbefore⟩ := List.find?_eq_some_iff_append.mp hfind
        refine ⟨before, stranger, after, hkeys, fun key hkey => ?_, of_decide_eq_true hnot, ?_⟩
        · simpa using hbefore key hkey
        · rw [mentionedMembers, hcandidates, selectMembers_eq, haddressees, hfind]

/-- Two mentions in running text, the second at the end of the sentence. -/
theorem sentence_round_trip_greeting :
    mentionedMembers (fun _ => false) "早上好 @alpha, ask @v1.5-b.." ["v1.5-b", "alpha"] =
      .ok ["alpha", "v1.5-b"] := by
  have halpha : BareKey "alpha" :=
    ⟨List.all_eq_true.mp (by decide), by decide, by decide, by decide⟩
  have hdotted : BareKey "v1.5-b" :=
    ⟨List.all_eq_true.mp (by decide), by decide, by decide, by decide⟩
  have h : Sentence "早上好 " [("alpha", ", ask "), ("v1.5-b", "..")] := by
    refine ⟨by decide, by decide, halpha, ⟨[], ", ask ".toList, rfl, by simp, ?_⟩, by decide,
      by decide, hdotted, ⟨['.', '.'], [], rfl, by simp, .inl ⟨rfl, rfl⟩⟩, ?_⟩
    · exact .inr ⟨',', " ask ".toList, rfl, by decide⟩
    · exact (by decide : '@' ∉ "..".toList)
  have hkeys : ∀ key ∈ ["alpha", "v1.5-b"], key ∈ ["v1.5-b", "alpha"] := by decide
  exact (sentence_round_trip (fun _ => false) h ["v1.5-b", "alpha"]).2.1 hkeys

end NormaHarness.Chat
