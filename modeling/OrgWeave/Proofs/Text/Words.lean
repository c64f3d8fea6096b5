import OrgWeave.Text.Basic

/-!
# Words

The words of a text are what stands between its white space, and one of them is a text with no
white space that is not empty (`Unbroken`). Splitting goes piece by piece : white space between two
texts puts the words of one behind those of the other (`words_append_cons`), and so words that are
put together with spaces are read again (`words_unwords`).

`word_induction` takes a text apart in the same way, a space or a word at a time.
-/

namespace OrgWeave.Text

variable {c : Char} {r s t v w : Text}

/-- The text is one word. -/
structure Unbroken (w : Text) : Prop where
  ne_nil : w ≠ []
  solid : ∀ c ∈ w, isSpace c = false

instance instDecidableUnbroken (w : Text) : Decidable (Unbroken w) :=
  decidable_of_iff (w ≠ [] ∧ w.all fun c => !isSpace c)
    ⟨fun h => ⟨h.1, fun c hc => by simpa using List.all_eq_true.1 h.2 c hc⟩,
      fun h => ⟨h.ne_nil, List.all_eq_true.2 fun c hc => by simp [h.solid c hc]⟩⟩

/-- No word of what is in front of the text goes on in it. -/
def Apart (t : Text) : Prop := ∀ c ∈ t.head?, isSpace c = true

theorem apart_nil : Apart [] := fun _ h => nomatch h

theorem apart_cons (hc : isSpace c = true) (t : Text) : Apart (c :: t) := by
  rintro _ ⟨⟩
  exact hc

theorem apart_iff : Apart t ↔ t.head?.all isSpace = true :=
  (Option.all_eq_true ..).symm

/-! ## Splitting -/

theorem words_nil : words [] = [] := rfl

/-- White space ends a word. -/
theorem words_append_cons (hc : isSpace c = true) (s t : Text) :
    words (s ++ c :: t) = words s ++ words t := by
  unfold words
  rw [List.splitOnP_append_cons s t hc, List.filter_append]

theorem words_cons (hc : isSpace c = true) (t : Text) : words (c :: t) = words t :=
  words_append_cons hc [] t

theorem words_of_isBlank (h : isBlank t = true) : words t = [] := by
  induction t with
  | nil => rfl
  | cons c t ih =>
    obtain ⟨hc, ht⟩ := List.forall_mem_cons.1 (List.all_eq_true.1 h)
    rw [words_cons hc]
    exact ih (List.all_eq_true.2 ht)

/-- White space behind a text adds no words. -/
theorem words_append_of_isBlank (hs : isBlank s = true) (t : Text) : words (t ++ s) = words t := by
  cases s with
  | nil => rw [List.append_nil]
  | cons c s =>
    have hc : isSpace c = true := List.all_eq_true.1 hs c List.mem_cons_self
    rw [words_append_cons hc, ← words_cons hc s, words_of_isBlank hs, List.append_nil]

/-- A text without white space is its only word. -/
theorem words_of_solid (h : ∀ c ∈ w, isSpace c = false) : words w = [w].filter (· ≠ []) := by
  unfold words
  rw [List.splitOnP_eq_singleton h]
  cases w <;> rfl

theorem Unbroken.words (h : Unbroken w) : words w = [w] := by
  simp [words_of_solid h.solid, h.ne_nil]

/-- A word in front of other text is the first one of them all. -/
theorem Unbroken.words_append (h : Unbroken w) (ht : Apart t) :
    Text.words (w ++ t) = w :: Text.words t := by
  cases t with
  | nil => rw [List.append_nil, h.words, words_nil]
  | cons c t =>
    rw [words_append_cons (ht c rfl), words_cons (ht c rfl), h.words, List.singleton_append]

/-! ## A text word by word -/

/-- Every text begins with the rest of a word, be it empty. -/
theorem exists_solid_append (t : Text) :
    ∃ w r, (∀ c ∈ w, isSpace c = false) ∧ Apart r ∧ t = w ++ r := by
  induction t with
  | nil => exact ⟨[], [], by simp, apart_nil, rfl⟩
  | cons c t ih =>
    obtain ⟨w, r, hw, hr, rfl⟩ := ih
    cases hc : isSpace c with
    | true => exact ⟨[], c :: (w ++ r), by simp, apart_cons hc _, rfl⟩
    | false => exact ⟨c :: w, r, List.forall_mem_cons.2 ⟨hc, hw⟩, hr, rfl⟩

/-- A text can be taken apart into a first word and the rest in one way only. -/
theorem solid_append_inj (hw : ∀ c ∈ w, isSpace c = false) (ht : Apart t)
    (hv : ∀ c ∈ v, isSpace c = false) (hr : Apart r) (h : w ++ t = v ++ r) : w = v := by
  have hlonger : ∀ {s s' rest : Text}, (∀ c ∈ s ++ s', isSpace c = false) → Apart (s' ++ rest) →
      s' = [] := by
    intro s s' rest hsolid hapart
    cases s' with
    | nil => rfl
    | cons c s' =>
      have hspace := hapart c rfl
      rw [hsolid c (by simp)] at hspace
      cases hspace
  rcases List.append_eq_append_iff.1 h with ⟨s, rfl, rfl⟩ | ⟨s, rfl, rfl⟩
  · rw [hlonger hv ht, List.append_nil]
  · rw [hlonger hw hr, List.append_nil]

/-- What holds of nothing, of a text with white space in front if it does of the text, and of a
word followed by what it holds of, holds of every text. -/
theorem word_induction {P : Text → Prop} (nil : P [])
    (space : ∀ c t, isSpace c = true → P t → P (c :: t))
    (word : ∀ w t, Unbroken w → Apart t → P t → P (w ++ t)) (t : Text) : P t := by
  -- with the part of a word that is already seen in front, no word is cut
  have hbehind : ∀ w : Text, (∀ c ∈ w, isSpace c = false) → P (w ++ t) := by
    induction t with
    | nil =>
      intro w hw
      by_cases hne : w = []
      · rw [hne]
        exact nil
      · exact word w [] ⟨hne, hw⟩ apart_nil nil
    | cons c t ih =>
      intro w hw
      cases hc : isSpace c with
      | true =>
        have hspace : P (c :: t) := space c t hc (ih [] (by simp))
        by_cases hne : w = []
        · rw [hne]
          exact hspace
        · exact word w (c :: t) ⟨hne, hw⟩ (apart_cons hc t) hspace
      | false =>
        have hlonger := ih (w ++ [c]) (List.forall_mem_append.2 ⟨hw, by simpa using hc⟩)
        rwa [List.append_assoc] at hlonger
  exact hbehind [] (by simp)

theorem unbroken_of_mem_words (h : w ∈ words t) : Unbroken w := by
  induction t using word_induction with
  | nil => cases h
  | space c t hc ih => exact ih (words_cons hc t ▸ h)
  | word v t hv ht ih =>
    rw [hv.words_append ht] at h
    rcases List.mem_cons.1 h with rfl | h
    · exact hv
    · exact ih h

/-- The texts without words are the blank ones. -/
theorem words_eq_nil_iff : words t = [] ↔ isBlank t = true := by
  refine ⟨fun h => ?_, words_of_isBlank⟩
  induction t using word_induction with
  | nil => rfl
  | space c t hc ih =>
    rw [words_cons hc] at h
    simpa [isBlank, hc] using ih h
  | word w t hw ht ih =>
    rw [hw.words_append ht] at h
    cases h

/-! ## Stripping -/

/-- What is dropped at the end is white space, for one. -/
theorem exists_append_dropRightWhile (p : Char → Bool) :
    ∀ t : Text, ∃ s, t = dropRightWhile p t ++ s ∧ ∀ c ∈ s, p c = true
  | [] => ⟨[], rfl, by simp⟩
  | c :: t => by
    obtain ⟨s, hs, hp⟩ := exists_append_dropRightWhile p t
    rw [dropRightWhile]
    split
    next hnil =>
      rw [hnil, List.nil_append] at hs
      cases hc : p c with
      | true => exact ⟨c :: s, by rw [hs]; rfl, List.forall_mem_cons.2 ⟨hc, hp⟩⟩
      | false => exact ⟨s, by rw [hs]; rfl, hp⟩
    next d ds hcons => exact ⟨s, by rw [← hcons, List.cons_append, ← hs], hp⟩

theorem words_stripLeft (t : Text) : words (stripLeft t) = words t := by
  unfold stripLeft
  induction t with
  | nil => rfl
  | cons c t ih =>
    cases hc : isSpace c with
    | true => rw [List.dropWhile_cons_of_pos hc, words_cons hc, ih]
    | false => rw [List.dropWhile_cons_of_neg (by simp [hc])]

/-- No word of a text is stripped from it. -/
theorem words_strip (t : Text) : words (strip t) = words t := by
  obtain ⟨s, hs, hspaces⟩ := exists_append_dropRightWhile isSpace (stripLeft t)
  have hblank : isBlank s = true := List.all_eq_true.2 hspaces
  calc words (strip t) = words (strip t ++ s) := (words_append_of_isBlank hblank _).symm
    _ = words (stripLeft t) := congrArg words hs.symm
    _ = words t := words_stripLeft t

/-- A stripped text begins with something else than white space. -/
theorem isSpace_of_strip_eq_cons (h : strip t = c :: s) : isSpace c = false := by
  obtain ⟨rest, hrest, -⟩ := exists_append_dropRightWhile isSpace (stripLeft t)
  have hleft : t.dropWhile isSpace = c :: (s ++ rest) := by
    rw [← List.cons_append, ← h]
    exact hrest
  have hhead := List.head?_dropWhile_not isSpace t
  rw [hleft] at hhead
  simpa using hhead

/-- The first word of a text begins where the stripped text does. -/
theorem exists_words_of_strip (h : strip t = c :: s) : ∃ w r, (∀ d ∈ w, isSpace d = false) ∧
    Apart r ∧ s = w ++ r ∧ words t = (c :: w) :: words r := by
  obtain ⟨w, r, hw, hr, rfl⟩ := exists_solid_append s
  have hfirst : Unbroken (c :: w) :=
    ⟨List.cons_ne_nil c w, List.forall_mem_cons.2 ⟨isSpace_of_strip_eq_cons h, hw⟩⟩
  refine ⟨w, r, hw, hr, rfl, ?_⟩
  rw [← words_strip, h, ← List.cons_append, hfirst.words_append hr]

theorem words_strip_ne_nil (h : strip t ≠ []) : words (strip t) ≠ [] := by
  obtain ⟨c, s, hs⟩ := List.exists_cons_of_ne_nil h
  obtain ⟨w, r, -, -, -, hwords⟩ := exists_words_of_strip hs
  rw [words_strip, hwords]
  exact List.cons_ne_nil _ _

/-! ## Joining -/

/-- Texts with spaces in between have the words of all of them. -/
theorem words_unwords : ∀ ts : List Text, words (unwords ts) = ts.flatMap words
  | [] => rfl
  | [t] => by simp [unwords, join]
  | t :: u :: ts => by
    have ih := words_unwords (u :: ts)
    have hjoin : unwords (t :: u :: ts) = t ++ ' ' :: unwords (u :: ts) := by
      simp [unwords, join]
    rw [hjoin, words_append_cons (by decide), ih]
    rfl

end OrgWeave.Text
