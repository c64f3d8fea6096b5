import OrgWeave.Graph.Directive
import OrgWeave.Proofs.Text.Words
import Mathlib.Data.List.Basic
import Mathlib.Data.List.TakeWhile

/-!
# Kinds of lines that exclude one another

Blank lines and headings are no keyword lines, and a keyword line starts with one keyword
only, as two keywords of different first letters do not fit the same text
(`Text.afterKeyword?_eq_none`). So a directive stands on a keyword line, and the lines that
close a block hold none (`Directive.ofLine?_eq_none_of_closesBlock`), nor do the lines that
open a block of another kind than source.

A line that closes a block like one opened by `#+begin_src` also closes a source block
(`closesSource_of_closesBlock`) : the kinds of two blocks are compared in full lower case, and
nothing lowers to the letters of `src` but what the keyword takes for them.
-/

namespace OrgWeave

namespace Text

/-! ## Case -/

/-- Only the ASCII capitals have a lower-case form other than themselves. -/
theorem toNat_toLower (c : Char) :
    c.toLower.toNat = if 0x41 ≤ c.toNat ∧ c.toNat ≤ 0x5a then c.toNat + 0x20 else c.toNat := by
  unfold Char.toLower
  simp only [Char.toNat, ge_iff_le, UInt32.le_iff_toNat_le]
  split
  next h =>
    have hrange : 0x41 ≤ c.val.toNat ∧ c.val.toNat ≤ 0x5a := h
    have hgap : ('a'.val - 'A'.val).toNat = 0x20 := rfl
    rw [if_pos hrange, UInt32.toNat_add]
    omega
  next h =>
    have hrange : ¬(0x41 ≤ c.val.toNat ∧ c.val.toNat ≤ 0x5a) := h
    rw [if_neg hrange]

/-- The character that `c` reads as when case is ignored. -/
def folded (c : Char) : Char :=
  if c = 'ſ' then 's' else if c = 'İ' ∨ c = 'ı' then 'i' else c.toLower

theorem eq_folded_of_folds {k c : Char} (hk : k.toNat < 0x80) (h : folds k c = true) :
    k = folded c := by
  simp only [folds, Bool.or_eq_true, Bool.and_eq_true, beq_iff_eq] at h
  rcases h with (rfl | ⟨rfl, rfl⟩) | ⟨rfl, rfl | rfl⟩
  · -- the other characters are no ASCII characters in lower case, either
    have hne : ∀ d : Char, 0x80 ≤ d.toLower.toNat → c ≠ d := by
      rintro d hd rfl
      omega
    rw [folded, if_neg (hne 'ſ' (by decide)), if_neg]
    exact not_or.2 ⟨hne 'İ' (by decide), hne 'ı' (by decide)⟩
  · rfl
  · rfl
  · rfl

/-- A lower-case letter is the lower-case form of itself and of its capital only. -/
theorem eq_or_eq_of_toLower_eq {k capital c : Char} (hk : capital.toNat + 0x20 = k.toNat)
    (h : c.toLower = k) : c = k ∨ c = capital := by
  rw [← Char.toNat_inj, toNat_toLower] at h
  rw [← Char.toNat_inj, ← Char.toNat_inj]
  split at h <;> omega

/-! ## Keywords -/

/-- A keyword is read in pieces. -/
theorem afterKeyword?_append : ∀ ks ls t : Text,
    afterKeyword? (ks ++ ls) t = (afterKeyword? ks t).bind (afterKeyword? ls)
  | [], _, _ => rfl
  | _ :: _, _, [] => rfl
  | k :: ks, ls, c :: cs => by
    simp only [List.cons_append, afterKeyword?]
    split
    · exact afterKeyword?_append ks ls cs
    · rfl

/-- A text that starts with a keyword starts with its first letter, and the others follow. -/
theorem afterKeyword?_cons_eq_some {k : Char} {ks t rest : Text} :
    afterKeyword? (k :: ks) t = some rest ↔
      ∃ c cs, t = c :: cs ∧ folds k c = true ∧ afterKeyword? ks cs = some rest := by
  cases t with
  | nil => simp [afterKeyword?]
  | cons c cs => simp [afterKeyword?]

/-- A text that starts with a keyword starts with none of another first letter. -/
theorem afterKeyword?_eq_none {k k' : Char} {ks ks' t : Text} (hk : k.toNat < 0x80)
    (hk' : k'.toNat < 0x80) (hne : k ≠ k') (h : (afterKeyword? (k :: ks) t).isSome = true) :
    afterKeyword? (k' :: ks') t = none := by
  cases t with
  | nil => rfl
  | cons c cs =>
    simp only [afterKeyword?] at h ⊢
    split at h
    next hfolds =>
      rw [if_neg]
      intro hfolds'
      exact hne ((eq_folded_of_folds hk hfolds).trans (eq_folded_of_folds hk' hfolds').symm)
    next => simp at h

/-! ## The word `src` -/

/-- Whether a text starts with the whole word `src`, case ignored. -/
def startsSource (t : Text) : Bool :=
  (afterKeyword? "src".toList t).any fun rest => !rest.head?.any isWord

/-- What the word `src` can be in lower case, with a short or a long s. -/
def sourceKinds : List Text := ["src".toList, "ſrc".toList]

-- Tested as lists, as a test of all characters that are on a list would go through all others.
theorem lowercase_mem_sourceKinds : ∀ s ∈ ['s', 'S', 'ſ'], ∀ r ∈ ['r', 'R'], ∀ c ∈ ['c', 'C'],
    ([s, r, c].all isWord && decide (lowercase [s, r, c] ∈ sourceKinds)) = true := by
  have hall : (['s', 'S', 'ſ'].all fun s => ['r', 'R'].all fun r => ['c', 'C'].all fun c =>
      [s, r, c].all isWord && decide (lowercase [s, r, c] ∈ sourceKinds)) = true := by
    decide +kernel
  simpa only [List.all_eq_true] using hall

/-- No run of capitals lowers to a letter of the word. -/
theorem caseRuns_apart : ∀ k ∈ ['s', 'ſ', 'r', 'c'], ∀ run ∈ caseRuns,
    k.toNat < run.target ∨ run.target + (run.last - run.first) < k.toNat := by
  have hall : (['s', 'ſ', 'r', 'c'].all fun k => caseRuns.all fun run =>
      decide (k.toNat < run.target ∨ run.target + (run.last - run.first) < k.toNat)) = true := by
    decide +kernel
  simpa only [List.all_eq_true, decide_eq_true_eq] using hall

theorem eq_toNat_of_ofNat_eq {n : Nat} {k : Char} (hk : k ≠ Char.ofNat 0) (h : Char.ofNat n = k) :
    n = k.toNat := by
  by_cases hn : n.isValidChar
  · rw [← h, Char.ofNat, dif_pos hn]
    rfl
  · refine absurd ?_ hk
    rw [← h, Char.ofNat, dif_neg hn]
    rfl

/-- Only an ASCII capital lowers to a letter of the word, the letters themselves apart. -/
theorem eq_or_toLower_eq_of_lowerChar {k c : Char} (hk : k ∈ ['s', 'ſ', 'r', 'c'])
    (h : lowerChar c = k) : c = k ∨ (c.toNat < 0x80 ∧ c.toLower = k) := by
  unfold lowerChar at h
  split at h
  next hlow => exact Or.inr ⟨hlow, h⟩
  next =>
    cases hrun : caseRuns.findSome? (·.lower? c.toNat) with
    | none =>
      rw [hrun] at h
      exact Or.inl h
    | some n =>
      rw [hrun] at h
      have hnul : k ≠ Char.ofNat 0 := by
        rintro rfl
        revert hk
        decide
      have hn : n = k.toNat := eq_toNat_of_ofNat_eq hnul h
      obtain ⟨run, hmem, hlower⟩ := List.exists_of_findSome?_eq_some hrun
      unfold CaseRun.lower? at hlower
      split at hlower
      next hrange =>
        cases hlower
        have := caseRuns_apart k hk run hmem
        omega
      next => cases hlower

/-- A lowered text that starts with neither a sigma nor an i comes of a text whose first
character lowers to its start. -/
theorem lowerAfter_eq_cons {cased : Bool} {t ks : Text} {k : Char}
    (h : lowerAfter cased t = k :: ks) (hk : k ∉ ['σ', 'ς', 'i']) :
    ∃ c cs cased', t = c :: cs ∧ lowerChar c = k ∧ lowerAfter cased' cs = ks := by
  simp only [List.mem_cons, List.not_mem_nil, or_false, not_or] at hk
  cases t with
  | nil => simp [lowerAfter] at h
  | cons c cs =>
    simp only [lowerAfter] at h
    split at h
    · rw [List.cons.injEq] at h
      split at h
      · exact absurd h.1.symm hk.2.1
      · exact absurd h.1.symm hk.1
    · split at h
      · exact absurd (List.cons.inj h).1.symm hk.2.2
      · exact ⟨c, cs, _, rfl, (List.cons.inj h).1, (List.cons.inj h).2⟩

theorem lowerAfter_eq_nil {cased : Bool} {t : Text} (h : lowerAfter cased t = []) : t = [] := by
  cases t with
  | nil => rfl
  | cons c cs =>
    simp only [lowerAfter] at h
    split at h
    · cases h
    · split at h <;> cases h

theorem folds_of_lowerChar {k c : Char} (hk : k ∈ ['s', 'r', 'c']) (h : lowerChar c = k) :
    folds k c = true := by
  have hmem : k ∈ ['s', 'ſ', 'r', 'c'] := by
    simp only [List.mem_cons] at hk ⊢
    tauto
  have hlower : c.toLower = k := by
    rcases eq_or_toLower_eq_of_lowerChar hmem h with rfl | ⟨-, h⟩
    · revert hk
      simp only [List.mem_cons, List.not_mem_nil, or_false]
      rintro (rfl | rfl | rfl) <;> rfl
    · exact h
  simp [folds, hlower]

/-- Nothing but the long s itself lowers to it. -/
theorem eq_of_lowerChar_eq_long {c : Char} (h : lowerChar c = 'ſ') : c = 'ſ' := by
  rcases eq_or_toLower_eq_of_lowerChar (by simp) h with h | ⟨hlow, h⟩
  · exact h
  · have hlong : 'ſ'.toNat = 0x17f := rfl
    rw [← Char.toNat_inj, toNat_toLower, hlong] at h
    split at h <;> omega

/-- What lowers to the word `src`, with a short or a long s, reads as the keyword. -/
theorem folds_of_lowercase_mem {t : Text} (h : lowercase t ∈ sourceKinds) :
    ∃ s r c, t = [s, r, c] ∧ folds 's' s = true ∧ folds 'r' r = true ∧ folds 'c' c = true := by
  have hkind : lowercase t = ['s', 'r', 'c'] ∨ lowercase t = ['ſ', 'r', 'c'] := by
    simpa [sourceKinds] using h
  have hrest : ∀ {cased : Bool} {t : Text}, lowerAfter cased t = ['r', 'c'] →
      ∃ r c, t = [r, c] ∧ folds 'r' r = true ∧ folds 'c' c = true := by
    intro cased t h
    obtain ⟨r, t, _, rfl, hr, h⟩ := lowerAfter_eq_cons h (by decide)
    obtain ⟨c, t, _, rfl, hc, h⟩ := lowerAfter_eq_cons h (by decide)
    obtain rfl := lowerAfter_eq_nil h
    exact ⟨r, c, rfl, folds_of_lowerChar (by simp) hr, folds_of_lowerChar (by simp) hc⟩
  rcases hkind with h | h
  · obtain ⟨s, t, _, rfl, hs, h⟩ := lowerAfter_eq_cons h (by decide)
    obtain ⟨r, c, rfl, hr, hc⟩ := hrest h
    exact ⟨s, r, c, rfl, folds_of_lowerChar (by simp) hs, hr, hc⟩
  · obtain ⟨s, t, _, rfl, hs, h⟩ := lowerAfter_eq_cons h (by decide)
    obtain ⟨r, c, rfl, hr, hc⟩ := hrest h
    obtain rfl := eq_of_lowerChar_eq_long hs
    exact ⟨'ſ', r, c, rfl, rfl, hr, hc⟩

/-- What reads as the keyword are word characters, and lowers to the word `src`, with a short
or a long s. -/
theorem lowercase_mem_of_folds {s r c : Char} (hs : folds 's' s = true) (hr : folds 'r' r = true)
    (hc : folds 'c' c = true) :
    [s, r, c].all isWord = true ∧ lowercase [s, r, c] ∈ sourceKinds := by
  have hs : s ∈ ['s', 'S', 'ſ'] := by
    simp only [folds, Bool.or_eq_true, Bool.and_eq_true, beq_iff_eq] at hs
    rcases hs with (hs | ⟨-, rfl⟩) | ⟨hs, -⟩
    · have : s = 's' ∨ s = 'S' := eq_or_eq_of_toLower_eq (by decide) hs
      simp only [List.mem_cons]
      tauto
    · simp
    · exact absurd hs (by decide)
  have hr : r ∈ ['r', 'R'] := by
    have hr : r = 'r' ∨ r = 'R' := eq_or_eq_of_toLower_eq (by decide) (by simpa [folds] using hr)
    simpa using hr
  have hc : c ∈ ['c', 'C'] := by
    have hc : c = 'c' ∨ c = 'C' := eq_or_eq_of_toLower_eq (by decide) (by simpa [folds] using hc)
    simpa using hc
  simpa using lowercase_mem_sourceKinds s hs r hr c hc

/-- A text starts with the whole word `src` exactly if its leading word lowers to it. -/
theorem startsSource_iff {t : Text} :
    startsSource t = true ↔ ∃ k ∈ sourceKinds, Org.leadingKind? t = some k := by
  constructor
  · intro h
    obtain ⟨rest, hrest, hword⟩ := (Option.any_eq_true _ _).1 h
    obtain ⟨s, t, rfl, hs, h⟩ := afterKeyword?_cons_eq_some.1 hrest
    obtain ⟨r, t, rfl, hr, h⟩ := afterKeyword?_cons_eq_some.1 h
    obtain ⟨c, t, rfl, hc, h⟩ := afterKeyword?_cons_eq_some.1 h
    cases h
    obtain ⟨hall, hmem⟩ := lowercase_mem_of_folds hs hr hc
    refine ⟨_, hmem, ?_⟩
    have hend : rest.takeWhile isWord = [] := by
      cases rest with
      | nil => rfl
      | cons d ds => simpa [List.takeWhile_cons] using hword
    have htake : (s :: r :: c :: rest).takeWhile isWord = [s, r, c] := by
      simp only [List.all_cons, Bool.and_eq_true] at hall
      simp [hall, hend]
    rw [Org.leadingKind?, htake]
  · rintro ⟨k, hk, h⟩
    unfold Org.leadingKind? at h
    split at h
    · cases h
    · rw [Option.some.injEq] at h
      obtain ⟨s, r, c, htake, hs, hr, hc⟩ := folds_of_lowercase_mem (h ▸ hk)
      have ht : t = s :: r :: c :: t.dropWhile isWord := by
        have := List.takeWhile_append_dropWhile (p := isWord) (l := t)
        rw [htake] at this
        exact this.symm
      have hrest : afterKeyword? "src".toList t = some (t.dropWhile isWord) :=
        afterKeyword?_cons_eq_some.2 ⟨s, _, ht, hs, afterKeyword?_cons_eq_some.2 ⟨r, _, rfl, hr,
          afterKeyword?_cons_eq_some.2 ⟨c, _, rfl, hc, rfl⟩⟩⟩
      refine (Option.any_eq_true _ _).2 ⟨t.dropWhile isWord, hrest, ?_⟩
      have hhead := List.head?_dropWhile_not isWord t
      cases hd : (t.dropWhile isWord).head? with
      | none => rfl
      | some d => simpa [hd] using hhead

end Text

namespace Org

open Text

variable {l m : Line}

/-! ## Source blocks and other blocks -/

theorem isSome_afterWholeKeyword? (ks : Text) (l : Line) :
    (afterWholeKeyword? (ks ++ "src".toList) l).isSome =
      (Org.afterKeyword? ks l).any startsSource := by
  unfold afterWholeKeyword? Org.afterKeyword? startsSource
  cases afterMark? l with
  | none => rfl
  | some t =>
    simp only [Option.bind_some, afterKeyword?_append]
    cases Text.afterKeyword? ks t with
    | none => rfl
    | some rest =>
      simp only [Option.bind_some, Option.any_some]
      cases Text.afterKeyword? "src".toList rest with
      | none => rfl
      | some after => cases hword : after.head?.any isWord <;> simp [Option.filter, hword]

/-- A source block is opened by `begin_` and the word `src`. -/
theorem opensSource_eq (l : Line) :
    opensSource l = (Org.afterKeyword? "begin_".toList l).any startsSource :=
  isSome_afterWholeKeyword? "begin_".toList l

/-- A source block is closed by `end_` and the word `src`. -/
theorem closesSource_eq (l : Line) :
    closesSource l = (Org.afterKeyword? "end_".toList l).any startsSource :=
  isSome_afterWholeKeyword? "end_".toList l

/-- What closes a block of the kind that a source block has closes a source block. -/
theorem closesSource_of_closesBlock (h : opensSource l = true) (hm : closesBlock l m = true) :
    closesSource m = true := by
  rw [opensSource_eq] at h
  obtain ⟨t, ht, hsource⟩ := (Option.any_eq_true _ _).1 h
  obtain ⟨k, hk, hkind⟩ := startsSource_iff.1 hsource
  unfold closesBlock at hm
  split at hm
  · cases hm
  · next kind hclosed =>
    have hopened : openedKind? l = some k := by rw [openedKind?, ht, Option.bind_some, hkind]
    rw [hopened, beq_iff_eq, Option.some.injEq] at hm
    obtain ⟨u, hu, hlead⟩ := Option.bind_eq_some_iff.1 hclosed
    rw [closesSource_eq, hu, Option.any_some]
    exact startsSource_iff.2 ⟨k, hk, hm ▸ hlead⟩

/-! ## Lines that are no keyword lines -/

theorem isKeyword_eq_false_of_isBlank (h : isBlank l = true) : isKeyword l = false := by
  have hnil : stripLeft l = [] := by
    rw [stripLeft, List.dropWhile_eq_nil_iff]
    exact List.all_eq_true.1 h
  rw [isKeyword, afterMark?, hnil]
  rfl

theorem isPrefix_dropRightWhile (p : Char → Bool) (t : Text) : dropRightWhile p t <+: t := by
  obtain ⟨s, hs, -⟩ := exists_append_dropRightWhile p t
  exact ⟨s, hs.symm⟩

/-- A heading starts with a star. -/
theorem head?_of_isHeading (h : isHeading l = true) : ∃ cs, l = '*' :: cs := by
  obtain ⟨heading, h⟩ := Option.isSome_iff_exists.1 h
  unfold Heading.ofLine? at h
  split at h
  · next star stars c cs hstars _ =>
    have hmem : star ∈ (chomp l).takeWhile (· == '*') := hstars ▸ List.mem_cons_self
    have hstar : star = '*' := by simpa using List.mem_takeWhile_imp hmem
    have hfront : star :: stars <+: l := by
      rw [← hstars]
      exact (List.takeWhile_prefix _).trans (isPrefix_dropRightWhile _ l)
    obtain ⟨rest, hrest⟩ := hfront
    exact ⟨stars ++ rest, by rw [← hrest, hstar]; rfl⟩
  · cases h

theorem isKeyword_eq_false_of_isHeading (h : isHeading l = true) : isKeyword l = false := by
  obtain ⟨cs, rfl⟩ := head?_of_isHeading h
  rfl

theorem isKeyword_of_afterKeyword? {ks : Text} (h : (Org.afterKeyword? ks l).isSome = true) :
    isKeyword l = true := by
  unfold Org.afterKeyword? at h
  unfold isKeyword
  cases hmark : afterMark? l with
  | none => simp [hmark] at h
  | some t => rfl

/-- A line that starts with a keyword starts with none of another first letter. -/
theorem afterKeyword?_eq_none {k k' : Char} {ks ks' : Text} (hk : k.toNat < 0x80)
    (hk' : k'.toNat < 0x80) (hne : k ≠ k') (h : (Org.afterKeyword? (k :: ks) l).isSome = true) :
    Org.afterKeyword? (k' :: ks') l = none := by
  unfold Org.afterKeyword? at h ⊢
  cases hmark : afterMark? l with
  | none => rfl
  | some t =>
    rw [hmark, Option.bind_some] at h
    rw [Option.bind_some]
    exact Text.afterKeyword?_eq_none hk hk' hne h

end Org

/-! ## Lines without a directive -/

namespace Directive

open Org

variable {l m : Line}

/-- A line holds no directive exactly if it reads as none of the four. -/
theorem ofLine?_eq_none_iff : ofLine? l = none ↔
    declaredName? l = none ∧ opensSource l = false ∧ dependency? l = none ∧ tangle? l = none := by
  unfold ofLine?
  cases declaredName? l <;> cases opensSource l <;> cases dependency? l <;> cases tangle? l <;> simp

/-- What it takes for a line to hold the directive, whatever else it might hold. -/
def StandsOn (l : Line) : Directive → Prop
  | .name n => declaredName? l = some n
  | .opening => opensSource l = true
  | .depends n params => dependency? l = some (n, params)
  | .tangle n destination => tangle? l = some (n, destination)

/-- A line with a directive behind the keyword of another one holds no name, opening, references
or file, if the keyword starts with another letter than theirs. -/
theorem others_eq_none {k : Char} {ks : Text} (hk : k.toNat < 0x80)
    (h : (Org.afterKeyword? (k :: ks) l).isSome = true) :
    (k ≠ 'n' → declaredName? l = none) ∧ (k ≠ 'b' → opensSource l = false) ∧
      (k ≠ 'd' → dependency? l = none) ∧ (k ≠ 't' → tangle? l = none) := by
  refine ⟨fun hne => ?_, fun hne => ?_, fun hne => ?_, fun hne => ?_⟩
  · have hname : Org.afterKeyword? "name:".toList l = none :=
      afterKeyword?_eq_none hk (by decide) hne h
    rw [declaredName?, hname]
    rfl
  · have hbegin : Org.afterKeyword? "begin_".toList l = none :=
      afterKeyword?_eq_none hk (by decide) hne h
    rw [opensSource_eq, hbegin]
    rfl
  · have hdepends : Org.afterKeyword? "depends:".toList l = none :=
      afterKeyword?_eq_none hk (by decide) hne h
    rw [dependency?, hdepends]
    rfl
  · have htangle : Org.afterKeyword? "tangle:".toList l = none :=
      afterKeyword?_eq_none hk (by decide) hne h
    rw [tangle?, htangle]
    rfl

/-- The directives exclude one another, so that it does not matter in which order a line is tried
for them. -/
theorem ofLine?_eq_some_iff {d : Directive} : ofLine? l = some d ↔ d.StandsOn l := by
  constructor
  · intro h
    unfold ofLine? at h
    split at h
    next hname =>
      cases h
      exact hname
    next =>
      split at h
      next hopens =>
        cases h
        exact hopens
      next =>
        split at h
        next hdepends =>
          cases h
          exact hdepends
        next htangle =>
          cases h
          exact htangle
        next => cases h
  · intro h
    unfold ofLine?
    cases d with
    | name n =>
      have hname : declaredName? l = some n := h
      rw [hname]
    | opening =>
      have hopens : opensSource l = true := h
      obtain ⟨t, ht, -⟩ := (Option.any_eq_true _ _).1 ((opensSource_eq l).symm.trans hopens)
      obtain ⟨hname, -⟩ := others_eq_none (by decide) (Option.isSome_of_eq_some ht)
      rw [hname (by decide)]
      exact if_pos hopens
    | depends n params =>
      have hdepends : dependency? l = some (n, params) := h
      obtain ⟨t, ht, -⟩ := Option.bind_eq_some_iff.1 hdepends
      obtain ⟨hname, hopens, -⟩ := others_eq_none (by decide) (Option.isSome_of_eq_some ht)
      rw [hname (by decide), hopens (by decide), hdepends]
      rfl
    | tangle n destination =>
      have htangle : tangle? l = some (n, destination) := h
      obtain ⟨t, ht, -⟩ := Option.bind_eq_some_iff.1 htangle
      obtain ⟨hname, hopens, hdepends, -⟩ :=
        others_eq_none (by decide) (Option.isSome_of_eq_some ht)
      rw [hname (by decide), hopens (by decide), hdepends (by decide), htangle]
      rfl

theorem ofLine?_eq_none_of_not_isKeyword (h : isKeyword l = false) : ofLine? l = none := by
  have hnone : ∀ ks, Org.afterKeyword? ks l = none := by
    intro ks
    by_contra hne
    have := isKeyword_of_afterKeyword? (Option.isSome_iff_ne_none.2 hne)
    rw [h] at this
    cases this
  rw [ofLine?_eq_none_iff, declaredName?, opensSource_eq, dependency?, tangle?]
  simp only [hnone]
  exact ⟨rfl, rfl, rfl, rfl⟩

/-- The opening of a block that is no source block holds no directive. -/
theorem ofLine?_eq_none_of_opensBlock (h : opensBlock l = true) (hopens : opensSource l = false) :
    ofLine? l = none := by
  have hbegin : (Org.afterKeyword? "begin_".toList l).isSome = true :=
    Option.isSome_of_isSome_bind h
  obtain ⟨hname, -, hdepends, htangle⟩ := others_eq_none (by decide) hbegin
  exact ofLine?_eq_none_iff.2
    ⟨hname (by decide), hopens, hdepends (by decide), htangle (by decide)⟩

/-- The line that ends a block holds no directive. -/
theorem ofLine?_eq_none_of_end (h : (Org.afterKeyword? "end_".toList l).isSome = true) :
    ofLine? l = none := by
  obtain ⟨hname, hopens, hdepends, htangle⟩ := others_eq_none (by decide) h
  exact ofLine?_eq_none_iff.2
    ⟨hname (by decide), hopens (by decide), hdepends (by decide), htangle (by decide)⟩

theorem ofLine?_eq_none_of_closesSource (h : closesSource l = true) : ofLine? l = none := by
  refine ofLine?_eq_none_of_end ?_
  rw [closesSource_eq] at h
  obtain ⟨t, ht, -⟩ := (Option.any_eq_true _ _).1 h
  rw [ht]
  rfl

theorem ofLine?_eq_none_of_closesBlock (h : closesBlock l m = true) : ofLine? m = none := by
  refine ofLine?_eq_none_of_end ?_
  unfold closesBlock at h
  split at h
  · cases h
  · next kind hkind => exact Option.isSome_of_isSome_bind (Option.isSome_of_eq_some hkind)

end Directive

end OrgWeave
