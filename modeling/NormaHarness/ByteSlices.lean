import Mathlib

/-!
# Slices of a text by byte offsets

A text is a list of characters, and an offset counts the bytes of their encodings. There
is a slice between two offsets if they are in order and both stand between characters.
Searches return such offsets, but two searches need not return them in order.
-/
namespace ByteSlices
open String (utf8Len)

/-- The text before and after an offset, if that stands between characters. -/
def cut : List Char → ℕ → Option (List Char × List Char)
  | text, 0 => some ([], text)
  | [], _ + 1 => none
  | c :: rest, n + 1 =>
      if c.utf8Size ≤ n + 1 then
        (cut rest (n + 1 - c.utf8Size)).map fun p => (c :: p.1, p.2)
      else none

def slice (start stop : ℕ) (text : List Char) : Option (List Char) :=
  if start ≤ stop then (cut text stop).bind fun p => (cut p.1 start).map Prod.snd
  else none

/-- The offset of the first occurrence. -/
def find (c : Char) : List Char → Option ℕ
  | [] => none
  | d :: rest => if d = c then some 0 else (find c rest).map (d.utf8Size + ·)

/-- The offset of the last occurrence. -/
def rfind (c : Char) : List Char → Option ℕ
  | [] => none
  | d :: rest =>
    match rfind c rest with
    | some n => some (d.utf8Size + n)
    | none => if d = c then some 0 else none

theorem cut_append (before after : List Char) :
    cut (before ++ after) (utf8Len before) = some (before, after) := by
  induction before with
  | nil => simp [cut]
  | cons c front ih =>
      have hpos := c.utf8Size_pos
      obtain ⟨n, hn⟩ : ∃ n, utf8Len (c :: front) = n + 1 :=
        Nat.exists_eq_add_one.mpr (by simp [hpos])
      have hrest : n + 1 - c.utf8Size = utf8Len front := by
        rw [← hn, String.utf8Len_cons, Nat.add_sub_cancel]
      have hle : c.utf8Size ≤ n + 1 := by
        rw [← hn, String.utf8Len_cons]
        exact Nat.le_add_left _ _
      rw [hn, List.cons_append, cut, if_pos hle, hrest, ih, Option.map_some]

theorem cut_eq_some_iff {text before after : List Char} {n : ℕ} :
    cut text n = some (before, after) ↔ text = before ++ after ∧ utf8Len before = n := by
  constructor
  · intro h
    induction text generalizing before n with
    | nil =>
        cases n with
        | zero =>
            obtain ⟨rfl, rfl⟩ := Prod.mk.inj (Option.some.inj h)
            exact ⟨rfl, rfl⟩
        | succ n => cases h
    | cons c rest ih =>
        cases n with
        | zero =>
            obtain ⟨rfl, rfl⟩ := Prod.mk.inj (Option.some.inj h)
            exact ⟨rfl, rfl⟩
        | succ n =>
            rw [cut] at h
            split_ifs at h with hle
            obtain ⟨⟨front, back⟩, hcut, heq⟩ := Option.map_eq_some_iff.mp h
            obtain ⟨rfl, rfl⟩ := Prod.mk.inj heq
            obtain ⟨rfl, hlen⟩ := ih hcut
            refine ⟨rfl, ?_⟩
            rw [String.utf8Len_cons, hlen, Nat.sub_add_cancel hle]
  · rintro ⟨rfl, rfl⟩
    exact cut_append before after

/-- Of two ways to split a text, the earlier one splits the front of the later one. -/
theorem append_of_le {front back front' back' : List Char}
    (h : front ++ back = front' ++ back') (hle : utf8Len front ≤ utf8Len front') :
    ∃ middle, front' = front ++ middle ∧ back = middle ++ back' := by
  rcases List.append_eq_append_iff.mp h with ⟨middle, hfront, hback⟩ | ⟨middle, hfront, hback⟩
  · exact ⟨middle, hfront, hback⟩
  · rw [hfront, String.utf8Len_append] at hle
    have hnil : middle = [] := String.utf8Len_eq_zero.mp (by omega)
    subst hnil
    exact ⟨[], by simpa using hfront.symm, by simpa using hback.symm⟩

theorem slice_eq_some_iff {start stop : ℕ} {text middle : List Char} :
    slice start stop text = some middle ↔ ∃ before after,
      text = before ++ middle ++ after ∧ utf8Len before = start ∧
        utf8Len (before ++ middle) = stop := by
  unfold slice
  constructor
  · intro h
    split_ifs at h
    obtain ⟨⟨front, after⟩, hstop, h⟩ := Option.bind_eq_some_iff.mp h
    obtain ⟨⟨before, back⟩, hstart, rfl⟩ := Option.map_eq_some_iff.mp h
    obtain ⟨rfl, hfront⟩ := cut_eq_some_iff.mp hstop
    obtain ⟨rfl, hbefore⟩ := cut_eq_some_iff.mp hstart
    exact ⟨before, after, rfl, hbefore, hfront⟩
  · rintro ⟨before, after, rfl, rfl, rfl⟩
    rw [if_pos (by simp), cut_append, Option.bind_some, cut_append, Option.map_some]

/-- There is a slice if the offsets are valid positions of the text and in order. -/
theorem slice_isSome_iff {start stop : ℕ} {text : List Char} :
    (slice start stop text).isSome ↔ start ≤ stop ∧
      String.Pos.Raw.Valid (String.ofList text) ⟨start⟩ ∧
      String.Pos.Raw.Valid (String.ofList text) ⟨stop⟩ := by
  constructor
  · intro h
    obtain ⟨middle, h⟩ := Option.isSome_iff_exists.mp h
    obtain ⟨before, after, rfl, rfl, rfl⟩ := slice_eq_some_iff.mp h
    refine ⟨by simp, ?_, .mk (before ++ middle) after rfl⟩
    rw [List.append_assoc]
    exact .mk before (middle ++ after) rfl
  · rintro ⟨hle, hstart, hstop⟩
    obtain ⟨before, back, htext, hstart⟩ := hstart.exists
    obtain ⟨front, after, htext', hstop⟩ := hstop.exists
    obtain rfl : start = utf8Len before := congrArg String.Pos.Raw.byteIdx hstart
    obtain rfl : stop = utf8Len front := congrArg String.Pos.Raw.byteIdx hstop
    have hsplit := String.ofList_injective (htext.trans htext'.symm)
    obtain ⟨middle, rfl, rfl⟩ := append_of_le hsplit hle
    obtain rfl := String.ofList_injective htext
    exact Option.isSome_iff_exists.mpr
      ⟨middle, slice_eq_some_iff.mpr ⟨before, after, by rw [List.append_assoc], rfl, rfl⟩⟩

/-! ## Searches -/

theorem find_eq_some_iff {c : Char} {text : List Char} {n : ℕ} :
    find c text = some n ↔
      ∃ before after, text = before ++ c :: after ∧ c ∉ before ∧ utf8Len before = n := by
  constructor
  · intro h
    induction text generalizing n with
    | nil => cases h
    | cons d rest ih =>
        rw [find] at h
        split_ifs at h with hd
        · obtain rfl := Option.some.inj h
          exact ⟨[], rest, by rw [hd, List.nil_append], List.not_mem_nil, rfl⟩
        · obtain ⟨k, hk, rfl⟩ := Option.map_eq_some_iff.mp h
          obtain ⟨before, after, rfl, hbefore, rfl⟩ := ih hk
          refine ⟨d :: before, after, rfl, ?_, ?_⟩
          · exact List.not_mem_cons_of_ne_of_not_mem (Ne.symm hd) hbefore
          · rw [String.utf8Len_cons, Nat.add_comm]
  · rintro ⟨before, after, rfl, hbefore, rfl⟩
    induction before with
    | nil => rw [List.nil_append, find, if_pos rfl, String.utf8Len_nil]
    | cons d front ih =>
        rw [List.mem_cons, not_or] at hbefore
        rw [List.cons_append, find, if_neg (Ne.symm hbefore.1), ih hbefore.2, Option.map_some,
          String.utf8Len_cons, Nat.add_comm]

theorem rfind_eq_none_iff {c : Char} {text : List Char} : rfind c text = none ↔ c ∉ text := by
  induction text with
  | nil => exact iff_of_true rfl List.not_mem_nil
  | cons d rest ih =>
      rw [rfind, List.mem_cons, not_or, ← ih]
      cases rfind c rest with
      | some n => exact iff_of_false (Option.some_ne_none _) fun h => Option.some_ne_none _ h.2
      | none =>
          by_cases hd : d = c
          · simp [hd]
          · simp [hd, Ne.symm hd]

theorem rfind_eq_some_iff {c : Char} {text : List Char} {n : ℕ} :
    rfind c text = some n ↔
      ∃ before after, text = before ++ c :: after ∧ c ∉ after ∧ utf8Len before = n := by
  constructor
  · intro h
    induction text generalizing n with
    | nil => cases h
    | cons d rest ih =>
        rw [rfind] at h
        cases hrest : rfind c rest with
        | some k =>
            rw [hrest] at h
            obtain rfl := Option.some.inj h
            obtain ⟨before, after, rfl, hafter, rfl⟩ := ih hrest
            refine ⟨d :: before, after, rfl, hafter, ?_⟩
            rw [String.utf8Len_cons, Nat.add_comm]
        | none =>
            simp only [hrest] at h
            split_ifs at h with hd
            obtain rfl := Option.some.inj h
            exact ⟨[], rest, by rw [hd, List.nil_append], rfind_eq_none_iff.mp hrest, rfl⟩
  · rintro ⟨before, after, rfl, hafter, rfl⟩
    induction before with
    | nil =>
        rw [List.nil_append, rfind, rfind_eq_none_iff.mpr hafter, String.utf8Len_nil]
        exact if_pos rfl
    | cons d front ih => rw [List.cons_append, rfind, ih, String.utf8Len_cons, Nat.add_comm]

/-! ## From the first of one character to the last of another -/

/-- The last closing character stands before the first opening one, and not directly. -/
def Inverted (opening closing : Char) (text : List Char) : Prop :=
  ∃ before middle after, text = before ++ closing :: (middle ++ opening :: after) ∧
    opening ∉ before ++ middle ∧ closing ∉ middle ++ after ∧ middle ≠ []

variable {opening closing : Char} {text : List Char}

/-- Both searches succeed on such a text, in the wrong order. -/
theorem Inverted.searches (h : Inverted opening closing text) (hne : opening ≠ closing)
    (hsize : closing.utf8Size = 1) : ∃ start last, find opening text = some start ∧
      rfind closing text = some last ∧ last + 1 < start := by
  obtain ⟨before, middle, after, rfl, hopening, hclosing, hmiddle⟩ := h
  rw [List.mem_append, not_or] at hopening hclosing
  refine ⟨utf8Len (before ++ closing :: middle), utf8Len before, ?_, ?_, ?_⟩
  · refine find_eq_some_iff.mpr ⟨before ++ closing :: middle, after, ?_, ?_, rfl⟩
    · rw [List.append_assoc, List.cons_append]
    · simp [hopening, hne]
  · refine rfind_eq_some_iff.mpr ⟨before, middle ++ opening :: after, rfl, ?_, rfl⟩
    simp [hclosing, Ne.symm hne]
  · have hpos : 0 < utf8Len middle :=
      Nat.pos_of_ne_zero fun hzero => hmiddle (String.utf8Len_eq_zero.mp hzero)
    rw [String.utf8Len_append, String.utf8Len_cons, hsize]
    omega

/-- Two searches that succeed give a slice unless the text is inverted. -/
theorem slice_searches {start last : ℕ} (hstart : find opening text = some start)
    (hlast : rfind closing text = some last) (hne : opening ≠ closing)
    (hsize : closing.utf8Size = 1) :
    slice start (last + 1) text = none ↔ Inverted opening closing text := by
  obtain ⟨front, back, htext, hfront, rfl⟩ := find_eq_some_iff.mp hstart
  obtain ⟨before, after, htext', hafter, rfl⟩ := rfind_eq_some_iff.mp hlast
  have hstop : utf8Len before + 1 = utf8Len (before ++ [closing]) := by simp [hsize]
  have hsplit : (before ++ [closing]) ++ after = front ++ opening :: back := by
    rw [← htext, htext', List.append_assoc, List.singleton_append]
  -- both offsets are positions of the text, so only their order can be wrong
  have hnone : slice (utf8Len front) (utf8Len before + 1) text = none ↔
      utf8Len before + 1 < utf8Len front := by
    rw [← Option.not_isSome_iff_eq_none, slice_isSome_iff, ← Nat.not_le, hstop]
    refine not_congr (and_iff_left ⟨?_, ?_⟩)
    · rw [htext]
      exact .mk front (opening :: back) rfl
    · rw [htext, ← hsplit]
      exact .mk (before ++ [closing]) after rfl
  rw [hnone]
  constructor
  · intro hlt
    obtain ⟨middle, rfl, rfl⟩ := append_of_le hsplit (hstop ▸ hlt.le)
    simp only [List.mem_append, List.mem_cons, not_or] at hfront hafter
    refine ⟨before, middle, back, htext', ?_, ?_, ?_⟩
    · rw [List.mem_append, not_or]
      exact ⟨hfront.1.1, hfront.2⟩
    · rw [List.mem_append, not_or]
      exact ⟨hafter.1, hafter.2.2⟩
    · rintro rfl
      rw [List.append_nil, ← hstop] at hlt
      exact lt_irrefl _ hlt
  · intro h
    obtain ⟨start, last, hstart', hlast', hlt⟩ := h.searches hne hsize
    obtain rfl := Option.some.inj (hstart.symm.trans hstart')
    obtain rfl := Option.some.inj (hlast.symm.trans hlast')
    exact hlt

end ByteSlices
