import OrgWeave.Proofs.Text.Words
import OrgWeave.Text.Lowercase
import OrgWeave.Text.Lines
import Mathlib.Data.List.Forall2
import Mathlib.Data.List.TakeWhile

/-!
# Line endings

The characters that end a line are white space and no word characters, and no keyword and no
mark holds one. So what is read off a line does not depend on how the line ends : a function of
lines `IgnoresEnds` if it gives the same for a text with some of these characters behind it, and
so for lines that are the same but for how they end (`SameText`). What reads a mark or a keyword
off the front of a line leaves the ending in the rest (`KeepsEnds`), and what is made of the rest
ignores it.

`withReturns` ends all lines of a text with a carriage return and a newline. Where the text
holds no other carriage returns, its lines stay the same up to their endings
(`returned_splitLines`), so that a function that ignores endings reads them alike
(`IgnoresReturns`).
-/

namespace OrgWeave

namespace Text

/-- Whether a character ends lines. -/
def isEnd (c : Char) : Bool := c == '\r' || c == '\n'

theorem isEnd_iff {c : Char} : isEnd c = true ↔ c = '\r' ∨ c = '\n' := by
  simp [isEnd]

theorem isSpace_of_isEnd {c : Char} (h : isEnd c = true) : isSpace c = true := by
  rcases isEnd_iff.1 h with rfl | rfl <;> rfl

theorem isWord_of_isEnd {c : Char} (h : isEnd c = true) : isWord c = false := by
  rcases isEnd_iff.1 h with rfl | rfl <;> decide

/-- Nothing but itself reads as a character that ends lines. -/
theorem folds_of_isEnd {k c : Char} (h : isEnd c = true) (hk : isEnd k = false) :
    folds k c = false := by
  have hne : c ≠ k := by
    rintro rfl
    rw [h] at hk
    cases hk
  have hlower : c.toLower = c := by rcases isEnd_iff.1 h with rfl | rfl <;> rfl
  rcases isEnd_iff.1 h with rfl | rfl <;> simp [folds, hlower, hne]

/-- A text of characters that end lines. -/
def IsEnding (s : Text) : Prop := ∀ c ∈ s, isEnd c = true

/-- A text without characters that end lines. -/
def EndFree (t : Text) : Prop := ∀ c ∈ t, isEnd c = false

instance instDecidableEndFree (t : Text) : Decidable (EndFree t) :=
  decidable_of_iff (t.all fun c => !isEnd c) (by simp [EndFree])

namespace IsEnding

variable {s : Text}

theorem tail {c : Char} (h : IsEnding (c :: s)) : IsEnding s :=
  fun d hd => h d (List.mem_cons_of_mem c hd)

theorem head {c : Char} (h : IsEnding (c :: s)) : isEnd c = true := h c List.mem_cons_self

theorem isBlank (h : IsEnding s) : isBlank s = true :=
  List.all_eq_true.2 fun c hc => isSpace_of_isEnd (h c hc)

end IsEnding

/-! ## Runs of characters -/

variable {p : Char → Bool} {s t : Text}

theorem dropRightWhile_eq_nil (hs : ∀ c ∈ s, p c = true) : dropRightWhile p s = [] := by
  induction s with
  | nil => rfl
  | cons c s ih =>
    rw [dropRightWhile, ih fun d hd => hs d (List.mem_cons_of_mem c hd)]
    simp [hs c List.mem_cons_self]

theorem dropRightWhile_append (hs : ∀ c ∈ s, p c = true) :
    ∀ t : Text, dropRightWhile p (t ++ s) = dropRightWhile p t
  | [] => dropRightWhile_eq_nil hs
  | c :: t => by rw [List.cons_append, dropRightWhile, dropRightWhile, dropRightWhile_append hs t]

theorem takeWhile_append_of_false (hs : ∀ c ∈ s, p c = false) :
    ∀ t : Text, (t ++ s).takeWhile p = t.takeWhile p
  | [] => by
    cases s with
    | nil => rfl
    | cons c s => simp [hs c List.mem_cons_self]
  | c :: t => by
    rw [List.cons_append, List.takeWhile_cons, List.takeWhile_cons,
      takeWhile_append_of_false hs t]

theorem dropWhile_append_of_false (hs : ∀ c ∈ s, p c = false) :
    ∀ t : Text, (t ++ s).dropWhile p = t.dropWhile p ++ s
  | [] => by
    cases s with
    | nil => rfl
    | cons c s => simp [hs c List.mem_cons_self]
  | c :: t => by
    rw [List.cons_append, List.dropWhile_cons, List.dropWhile_cons]
    split
    · exact dropWhile_append_of_false hs t
    · rfl

theorem stripLeft_eq_nil (hs : isBlank s = true) : stripLeft s = [] :=
  List.dropWhile_eq_nil_iff.2 (List.all_eq_true.1 hs)

/-- White space behind a text stays if anything else is left. -/
theorem stripLeft_append (hs : isBlank s = true) (t : Text) :
    stripLeft (t ++ s) = if stripLeft t = [] then [] else stripLeft t ++ s := by
  have hnil : s.dropWhile isSpace = [] := stripLeft_eq_nil hs
  simp [stripLeft, List.dropWhile_append, hnil]

theorem strip_append (hs : isBlank s = true) (t : Text) : strip (t ++ s) = strip t := by
  have hspaces : ∀ c ∈ s, isSpace c = true := List.all_eq_true.1 hs
  unfold strip
  rw [stripLeft_append hs]
  split
  next h => rw [h]
  next => exact dropRightWhile_append hspaces _

/-! ## Functions of lines -/

/-- How a line ends makes no difference to `f`. -/
def IgnoresEnds {α : Type} (f : Line → α) : Prop := ∀ t s, IsEnding s → f (t ++ s) = f t

/-- How a line ends stays in what `f` gives back of it. -/
def KeepsEnds (f : Text → Option Text) : Prop :=
  ∀ t s, IsEnding s → f (t ++ s) = (f t).map (· ++ s)

variable {α β : Type} {f : Text → Option Text}

theorem ignoresEnds_chomp : IgnoresEnds chomp := fun t _ hs => dropRightWhile_append hs t

theorem ignoresEnds_strip : IgnoresEnds strip := fun t _ hs => strip_append hs.isBlank t

theorem ignoresEnds_isBlank : IgnoresEnds isBlank := by
  intro t s hs
  rw [isBlank, List.all_append]
  exact (congrArg _ hs.isBlank).trans (Bool.and_true _)

theorem IgnoresEnds.comp {f : Line → α} (h : IgnoresEnds f) (g : α → β) :
    IgnoresEnds fun l => g (f l) :=
  fun t s hs => congrArg g (h t s hs)

/-- The lines are the same but for how they end. -/
def SameText (l l' : Line) : Prop := chomp l' = chomp l

theorem IgnoresEnds.apply_chomp {f : Line → α} (h : IgnoresEnds f) (l : Line) :
    f (chomp l) = f l := by
  obtain ⟨s, hs, hends⟩ := exists_append_dropRightWhile (fun c => c == '\r' || c == '\n') l
  calc f (chomp l) = f (chomp l ++ s) := (h (chomp l) s hends).symm
    _ = f l := congrArg f hs.symm

theorem IgnoresEnds.eq_of_sameText {f : Line → α} (h : IgnoresEnds f) {l l' : Line}
    (hl : SameText l l') : f l' = f l := by
  rw [← h.apply_chomp l', hl, h.apply_chomp]

namespace KeepsEnds

theorem bind {g : Text → Option Text} (hf : KeepsEnds f) (hg : KeepsEnds g) :
    KeepsEnds fun l => (f l).bind g := by
  intro t s hs
  simp only [hf t s hs]
  cases f t with
  | none => rfl
  | some rest => exact hg rest s hs

theorem filter {q : Text → Bool} (hf : KeepsEnds f) (hq : IgnoresEnds q) :
    KeepsEnds fun l => (f l).filter q := by
  intro t s hs
  simp only [hf t s hs]
  cases f t with
  | none => rfl
  | some rest => cases hrest : q rest <;> simp [Option.filter, hq rest s hs, hrest]

theorem ignores_isSome (hf : KeepsEnds f) : IgnoresEnds fun l => (f l).isSome := by
  intro t s hs
  simp only [hf t s hs, Option.isSome_map]

theorem ignores_map {g : Text → α} (hf : KeepsEnds f) (hg : IgnoresEnds g) :
    IgnoresEnds fun l => (f l).map g := by
  intro t s hs
  simp only [hf t s hs]
  cases f t with
  | none => rfl
  | some rest => exact congrArg some (hg rest s hs)

theorem ignores_bind {g : Text → Option α} (hf : KeepsEnds f) (hg : IgnoresEnds g) :
    IgnoresEnds fun l => (f l).bind g := by
  intro t s hs
  simp only [hf t s hs]
  cases f t with
  | none => rfl
  | some rest => exact hg rest s hs

end KeepsEnds

/-! ## Marks -/

variable {mark : Text}

theorem isPrefixOf_append (hmark : EndFree mark) (hs : IsEnding s) :
    ∀ t : Text, mark.isPrefixOf (t ++ s) = mark.isPrefixOf t := by
  induction mark with
  | nil => simp
  | cons k mark ih =>
    intro t
    have hk : isEnd k = false := hmark k List.mem_cons_self
    cases t with
    | nil =>
      cases s with
      | nil => rfl
      | cons c s =>
        have hne : k ≠ c := by
          rintro rfl
          rw [hs.head] at hk
          cases hk
        simp [List.isPrefixOf, hne]
    | cons c t =>
      simp only [List.cons_append, List.isPrefixOf]
      rw [ih fun j hj => hmark j (List.mem_cons_of_mem k hj)]

theorem drop_append_of_isPrefixOf (h : mark.isPrefixOf t = true) :
    (t ++ s).drop mark.length = t.drop mark.length ++ s :=
  List.drop_append_of_le_length (List.isPrefixOf_iff_prefix.1 h).length_le

theorem keepsEnds_after? (hmark : EndFree mark) : KeepsEnds (after? mark) := by
  intro t s hs
  unfold after?
  rw [isPrefixOf_append hmark hs]
  split
  next h => rw [drop_append_of_isPrefixOf h, Option.map_some]
  next => rfl

/-- Keywords hold no line endings. -/
theorem keepsEnds_afterKeyword? {ks : Text} (hks : EndFree ks) :
    KeepsEnds (afterKeyword? ks) := by
  intro t s hs
  induction ks generalizing t with
  | nil => rfl
  | cons k ks ih =>
    cases t with
    | nil =>
      cases s with
      | nil => rfl
      | cons c s => simp [afterKeyword?, folds_of_isEnd hs.head (hks k List.mem_cons_self)]
    | cons c t =>
      simp only [List.cons_append, afterKeyword?]
      split
      · exact ih (fun j hj => hks j (List.mem_cons_of_mem k hj)) t
      · rfl

section Split

variable (hmark : EndFree mark) (hne : mark ≠ [])

include hmark hne

theorem isPrefixOf_eq_false (hs : IsEnding s) : mark.isPrefixOf s = false := by
  have h := isPrefixOf_append hmark hs []
  rw [List.nil_append] at h
  rw [h]
  cases mark with
  | nil => exact absurd rfl hne
  | cons k mark => rfl

/-- The ending is behind the first place of a mark. -/
theorem splitFirst?_append (hs : IsEnding s) : ∀ t : Text,
    splitFirst? mark (t ++ s) = (splitFirst? mark t).map fun p => (p.1, p.2 ++ s)
  | [] => by
    have hnone : ∀ {s : Text}, IsEnding s → splitFirst? mark s = none := by
      intro s hs
      induction s with
      | nil => simp [splitFirst?, hne]
      | cons c s ih => simp [splitFirst?, isPrefixOf_eq_false hmark hne hs, ih hs.tail]
    rw [List.nil_append, hnone hs]
    simp [splitFirst?, hne]
  | c :: t => by
    have ih := splitFirst?_append hs t
    have hprefix := isPrefixOf_append hmark hs (c :: t)
    rw [List.cons_append] at hprefix
    rw [List.cons_append, splitFirst?, splitFirst?, hprefix]
    split
    next h => simpa using drop_append_of_isPrefixOf (s := s) h
    next =>
      rw [ih]
      cases splitFirst? mark t <;> rfl

/-- The ending is behind the last place of a mark. -/
theorem splitLast?_append (hs : IsEnding s) : ∀ t : Text,
    splitLast? mark (t ++ s) = (splitLast? mark t).map fun p => (p.1, p.2 ++ s)
  | [] => by
    have hnone : ∀ {s : Text}, IsEnding s → splitLast? mark s = none := by
      intro s hs
      induction s with
      | nil => simp [splitLast?, hne]
      | cons c s ih => simp [splitLast?, isPrefixOf_eq_false hmark hne hs, ih hs.tail]
    rw [List.nil_append, hnone hs]
    simp [splitLast?, hne]
  | c :: t => by
    have ih := splitLast?_append hs t
    have hprefix := isPrefixOf_append hmark hs (c :: t)
    rw [List.cons_append] at hprefix
    rw [List.cons_append, splitLast?, splitLast?, ih, hprefix]
    cases splitLast? mark t with
    | some found => rfl
    | none =>
      dsimp only [Option.map_none]
      split
      next h => simpa using drop_append_of_isPrefixOf (s := s) h
      next => rfl

end Split

/-! ## Carriage returns -/

/-- The text with a carriage return in front of every newline. -/
def withReturns (t : Text) : Text := t.flatMap fun c => if c = '\n' then ['\r', '\n'] else [c]

/-- The second line is the first one, with a carriage return in front of its newline if it has
one. -/
inductive Returned : Line → Line → Prop
  | bare (l : Line) : Returned l l
  | ended {t : Text} (ht : EndFree t) : Returned (t ++ ['\n']) (t ++ ['\r', '\n'])

theorem isEnding_newline : IsEnding ['\n'] := by
  intro c hc
  exact isEnd_iff.2 (Or.inr (List.mem_singleton.1 hc))

theorem isEnding_return : IsEnding ['\r', '\n'] := by
  intro c hc
  exact isEnd_iff.2 (by simpa using hc)

/-- `f` reads a line with a carriage return as it reads the line without it. -/
def IgnoresReturns (f : Line → α) : Prop := ∀ ⦃l l' : Line⦄, Returned l l' → f l' = f l

theorem Returned.sameText {l l' : Line} (h : Returned l l') : SameText l l' := by
  cases h with
  | bare => rfl
  | ended => rw [SameText, ignoresEnds_chomp _ _ isEnding_return,
      ignoresEnds_chomp _ _ isEnding_newline]

theorem IgnoresEnds.ignoresReturns {f : Line → α} (h : IgnoresEnds f) : IgnoresReturns f :=
  fun _ _ hl => h.eq_of_sameText hl.sameText

namespace Returned

variable {l l' : Line}

theorem cons {c : Char} (hc : isEnd c = false) (h : Returned l l') :
    Returned (c :: l) (c :: l') := by
  cases h with
  | bare => exact .bare _
  | @ended t ht =>
    refine .ended (t := c :: t) fun d hd => ?_
    rcases List.mem_cons.1 hd with rfl | hd
    · exact hc
    · exact ht d hd

/-- An indented line stays the same up to its ending. -/
theorem chomp_indent (lead : Text) (h : Returned l l') :
    chomp (indent lead l') = chomp (indent lead l) := by
  cases h with
  | bare => rfl
  | @ended t ht =>
    cases t with
    | nil => rfl
    | cons c t =>
      -- a line that starts with another character is moved
      have hmoved : ∀ s, indent lead (c :: t ++ s) = (lead ++ c :: t) ++ s := by
        intro s
        have hc : isEnd c = false := ht c List.mem_cons_self
        have hreturn : c ≠ '\r' := by
          rintro rfl
          cases hc
        have hnewline : c ≠ '\n' := by
          rintro rfl
          cases hc
        simp [indent, hreturn, hnewline]
      rw [hmoved, hmoved, ignoresEnds_chomp _ _ isEnding_return,
        ignoresEnds_chomp _ _ isEnding_newline]

end Returned

/-- Cut into lines, a text without carriage returns and the text with them have the same lines up
to their endings. -/
theorem returned_splitLines : ∀ {t : Text}, '\r' ∉ t →
    List.Forall₂ Returned (splitLines t) (splitLines (withReturns t))
  | [], _ => .nil
  | c :: t, h => by
    obtain ⟨hc, ht⟩ := not_or.1 (mt List.mem_cons.2 h)
    have ih := returned_splitLines ht
    by_cases hn : c = '\n'
    · subst hn
      have hreturns : withReturns ('\n' :: t) = '\r' :: '\n' :: withReturns t := rfl
      simp only [hreturns, splitLines]
      exact .cons (.ended (t := []) (by decide)) ih
    · have hreturns : withReturns (c :: t) = c :: withReturns t := by simp [withReturns, hn]
      have hend : isEnd c = false := by
        rw [← Bool.not_eq_true, isEnd_iff]
        exact not_or.2 ⟨Ne.symm hc, hn⟩
      rw [hreturns, splitLines, splitLines, if_neg hn, if_neg hn]
      generalize splitLines t = ls, splitLines (withReturns t) = ls' at ih
      cases ih with
      | nil => exact .cons (.bare [c]) .nil
      | cons hl hls => exact .cons (hl.cons hend) hls

end Text

end OrgWeave
