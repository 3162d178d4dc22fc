import NormaHarness.Mentions

/-!
# Scanning for mentions

Text without an `@` only moves the character before the cursor. A key is named exactly at the
positions of an `@` that does not follow a letter, a digit or an underscore, so the candidates
of a text are found by cutting it at such a position.
-/
namespace NormaHarness.Chat

variable {isAlphanumeric : Char → Bool}

/-! ## Positions -/

theorem getLast?_cons_or (c : Char) (text : List Char) (previous : Option Char) :
    (c :: text).getLast?.or previous = text.getLast?.or (some c) := by
  rw [List.getLast?_cons]
  cases text.getLast? <;> rfl

/-- What an `@` in front of the cursor names comes before everything named later. -/
theorem candidatesFrom_cons (previous : Option Char) (c : Char) (tail : List Char) :
    candidatesFrom isAlphanumeric previous (c :: tail) =
      (if c = '@' ∧ previous.any isWordChar = false then candidateAt isAlphanumeric tail
        else none).toList ++ candidatesFrom isAlphanumeric (some c) tail := by
  rw [candidatesFrom]
  split_ifs
  · cases candidateAt isAlphanumeric tail <;> rfl
  · rfl

theorem candidatesFrom_cons_of_ne {c : Char} (h : c ≠ '@') (previous : Option Char)
    (tail : List Char) :
    candidatesFrom isAlphanumeric previous (c :: tail) =
      candidatesFrom isAlphanumeric (some c) tail :=
  if_neg fun hat => h hat.1

theorem candidatesFrom_plain {plain : List Char} (h : '@' ∉ plain) (previous : Option Char)
    (text : List Char) :
    candidatesFrom isAlphanumeric previous (plain ++ text) =
      candidatesFrom isAlphanumeric (plain.getLast?.or previous) text := by
  induction plain generalizing previous with
  | nil => rfl
  | cons c plain ih =>
      have hc : c ≠ '@' := fun he => h (he ▸ List.mem_cons_self)
      rw [List.cons_append, candidatesFrom_cons_of_ne hc,
        ih fun hat => h (List.mem_cons_of_mem c hat), getLast?_cons_or]

/-- A text names a key where an `@` that may begin a mention has it in front. -/
theorem mem_candidatesFrom {previous : Option Char} {text : List Char} {key : String} :
    key ∈ candidatesFrom isAlphanumeric previous text ↔
      ∃ before after, text = before ++ '@' :: after ∧
        (before.getLast?.or previous).any isWordChar = false ∧
        candidateAt isAlphanumeric after = some key := by
  induction text generalizing previous with
  | nil => simp [candidatesFrom]
  | cons c tail ih =>
      rw [candidatesFrom_cons, List.mem_append, Option.mem_toList, ih]
      constructor
      · rintro (hkey | ⟨before, after, rfl, hbefore, hafter⟩)
        · split_ifs at hkey with hbegins
          · obtain ⟨rfl, hprevious⟩ := hbegins
            exact ⟨[], tail, rfl, hprevious, hkey⟩
        · exact ⟨c :: before, after, rfl, getLast?_cons_or c before previous ▸ hbefore, hafter⟩
      · rintro ⟨before, after, htext, hbefore, hafter⟩
        cases before with
        | nil =>
            obtain ⟨rfl, rfl⟩ := List.cons.inj htext
            exact .inl ((if_pos ⟨rfl, hbefore⟩).trans hafter)
        | cons d before =>
            obtain ⟨rfl, rfl⟩ := List.cons.inj htext
            rw [getLast?_cons_or] at hbefore
            exact .inr ⟨before, after, rfl, hbefore, hafter⟩

/-! ## What an `@` names -/

theorem candidateAt_keyChar {c : Char} (h : isKeyChar c = true) (tail : List Char) :
    candidateAt isAlphanumeric (c :: tail) = bareKey (c :: tail) := by
  unfold candidateAt
  split
  case h_4 => rfl
  all_goals
    rename_i heq
    rw [(List.cons.inj heq).1] at h
    exact absurd h (by decide)

/-- A bare key ends where its characters end, and dots at its end belong to the sentence. -/
theorem bareKey_append {key dots rest : List Char} (hkey : ∀ c ∈ key, isKeyChar c = true)
    (hne : key ≠ []) (hlast : key.getLast? ≠ some '.') (hdots : ∀ c ∈ dots, c = '.')
    (hrest : ∀ c ∈ rest.head?, isKeyChar c = false) :
    bareKey (key ++ dots ++ rest) = some (String.ofList key) := by
  have hrun : (key ++ dots ++ rest).takeWhile isKeyChar = key ++ dots := by
    rw [List.takeWhile_append_of_pos]
    · cases rest with
      | nil => simp
      | cons c rest => simp [hrest c rfl]
    · intro c hc
      rcases List.mem_append.mp hc with hc | hc
      · exact hkey c hc
      · rw [hdots c hc]
        rfl
  have htrim : (key ++ dots).rdropWhile (· == '.') = key := by
    rw [List.rdropWhile, List.reverse_append, List.dropWhile_append_of_pos]
    · refine List.rdropWhile_eq_self_iff.mpr fun hne => ?_
      rw [List.getLast?_eq_some_getLast hne] at hlast
      simpa using hlast
    · intro c hc
      simp [hdots c (List.mem_reverse.mp hc)]
  simp only [bareKey, hrun, htrim]
  exact if_neg (by simpa using hne)

theorem bareKey_some {tail : List Char} {key : String} (h : bareKey tail = some key) :
    key.toList.Sublist tail ∧ ∀ c ∈ key.toList, isKeyChar c = true := by
  simp only [bareKey] at h
  split_ifs at h
  obtain rfl := Option.some.inj h
  rw [String.toList_ofList]
  have hrun := List.rdropWhile_prefix (· == '.') (l := tail.takeWhile isKeyChar)
  exact ⟨(hrun.trans (List.takeWhile_prefix isKeyChar)).sublist,
    fun c hc => List.mem_takeWhile_imp (hrun.subset hc)⟩

/-- A named key is taken from the text that follows, and never past a closing brace. -/
theorem candidateAt_some {tail : List Char} {key : String}
    (h : candidateAt isAlphanumeric tail = some key) :
    key.toList.Sublist tail ∧ '}' ∉ key.toList := by
  have hbare : ∀ tail, bareKey tail = some key →
      key.toList.Sublist tail ∧ '}' ∉ key.toList := by
    intro tail hkey
    obtain ⟨hsub, hchars⟩ := bareKey_some hkey
    exact ⟨hsub, fun hmem => absurd (hchars _ hmem) (by decide)⟩
  unfold candidateAt at h
  split at h
  · split_ifs at h
    obtain rfl := Option.some.inj h
    rw [String.toList_ofList]
    refine ⟨((List.takeWhile_prefix _).sublist).trans (List.sublist_cons_self _ _), fun hmem => ?_⟩
    simpa using List.mem_takeWhile_imp hmem
  · split_ifs at h
    · obtain rfl := Option.some.inj h
      exact ⟨(List.nil_sublist _).cons_cons _ |>.cons_cons _, by decide⟩
    · exact hbare _ h
  · split_ifs at h
    · obtain rfl := Option.some.inj h
      exact ⟨(List.nil_sublist _).cons_cons _, by decide⟩
    · exact hbare _ h
  · exact hbare _ h

end NormaHarness.Chat
