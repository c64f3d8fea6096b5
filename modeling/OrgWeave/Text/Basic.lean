/-!
# Text

A text is the list of its characters, so that every rule of the library is a recursion
on a list. This module holds what the rules below share : white space (`isSpace`),
stripping it from the ends (`strip`), splitting at it (`words`), finding the first or
last place of a mark (`splitFirst?`, `splitLast?`), joining (`join`) and decimal
numerals (`ofNat`, `ofInt`, `toNat?`).
-/

namespace OrgWeave

/-- A text, character by character. -/
abbrev Text := List Char

/-- Texts are the same if they have the same characters. -/
instance instLawfulBEqText : LawfulBEq Text := inferInstanceAs (LawfulBEq (List Char))

namespace Text

/-! ## White space -/

/-- White space : the control characters that separate, the space, and the spaces and
line separators of Unicode. -/
def isSpace (c : Char) : Bool :=
  let n := c.toNat
  (0x09 ≤ n && n ≤ 0x0d) || (0x1c ≤ n && n ≤ 0x20) || n == 0x85 || n == 0xa0 ||
    n == 0x1680 || (0x2000 ≤ n && n ≤ 0x200a) || n == 0x2028 || n == 0x2029 ||
    n == 0x202f || n == 0x205f || n == 0x3000

/-- Drop the longest run of characters satisfying `p` at the end. -/
def dropRightWhile (p : Char → Bool) : Text → Text
  | [] => []
  | c :: cs =>
    match dropRightWhile p cs with
    | [] => if p c then [] else [c]
    | d :: ds => c :: d :: ds

/-- The longest run of characters satisfying `p` at the end. -/
def takeRightWhile (p : Char → Bool) (t : Text) : Text :=
  (t.reverse.takeWhile p).reverse

def stripLeft (t : Text) : Text := t.dropWhile isSpace

def stripRight (t : Text) : Text := dropRightWhile isSpace t

/-- The text without the white space at its two ends. -/
def strip (t : Text) : Text := stripRight (stripLeft t)

/-- Only white space, or nothing at all. -/
def isBlank (t : Text) : Bool := t.all isSpace

/-- The maximal runs of characters that are no white space. -/
def words (t : Text) : List Text := (t.splitOnP isSpace).filter fun w => !w.isEmpty

/-! ## Searching -/

/-- Whether `mark` stands somewhere in the text. -/
def holds (mark : Text) : Text → Bool
  | [] => mark.isEmpty
  | c :: cs => mark.isPrefixOf (c :: cs) || holds mark cs

/-- The text before and after the first place of `mark`. -/
def splitFirst? (mark : Text) : Text → Option (Text × Text)
  | [] => if mark.isEmpty then some ([], []) else none
  | c :: cs =>
    if mark.isPrefixOf (c :: cs) then some ([], (c :: cs).drop mark.length)
    else (splitFirst? mark cs).map fun s => (c :: s.1, s.2)

/-- The text before and after the last place of `mark`. -/
def splitLast? (mark : Text) : Text → Option (Text × Text)
  | [] => if mark.isEmpty then some ([], []) else none
  | c :: cs =>
    match splitLast? mark cs with
    | some s => some (c :: s.1, s.2)
    | none =>
      if mark.isPrefixOf (c :: cs) then some ([], (c :: cs).drop mark.length) else none

/-- The rest of a text after the opening `mark`. -/
def after? (mark t : Text) : Option Text :=
  if mark.isPrefixOf t then some (t.drop mark.length) else none

/-- A text starts with `mark` exactly when it is the mark and the rest. -/
theorem after?_eq_some_iff {mark t rest : Text} : after? mark t = some rest ↔ t = mark ++ rest := by
  unfold after?
  constructor
  · intro h
    split at h
    · rename_i hp
      obtain ⟨s, rfl⟩ := List.isPrefixOf_iff_prefix.1 hp
      simpa using h
    · simp at h
  · rintro rfl
    simp

/-- What is before and after the first place of a mark, with the mark in between, is the
text. -/
theorem eq_of_splitFirst? {mark before rest : Text} :
    ∀ {t : Text}, splitFirst? mark t = some (before, rest) → t = before ++ mark ++ rest
  | [], h => by
    simp only [splitFirst?] at h
    split at h <;> simp_all
  | c :: cs, h => by
    rw [splitFirst?] at h
    split at h
    · rename_i hp
      obtain ⟨s, hs⟩ := List.isPrefixOf_iff_prefix.1 hp
      simp only [← hs, List.drop_left, Option.some.injEq, Prod.mk.injEq] at h
      simp [← hs, ← h.1, ← h.2]
    · obtain ⟨⟨b, r⟩, hb, heq⟩ := Option.map_eq_some_iff.1 h
      cases heq
      simp [eq_of_splitFirst? hb]

/-- What is before and after the last place of a mark, with the mark in between, is the
text. -/
theorem eq_of_splitLast? {mark before rest : Text} :
    ∀ {t : Text}, splitLast? mark t = some (before, rest) → t = before ++ mark ++ rest
  | [], h => by
    simp only [splitLast?] at h
    split at h <;> simp_all
  | c :: cs, h => by
    rw [splitLast?] at h
    split at h
    · rename_i s hs
      cases h
      simp [eq_of_splitLast? hs]
    · split at h
      · rename_i hp
        obtain ⟨s, hs⟩ := List.isPrefixOf_iff_prefix.1 hp
        simp only [← hs, List.drop_left, Option.some.injEq, Prod.mk.injEq] at h
        simp [← hs, ← h.1, ← h.2]
      · simp at h

/-! ## Joining -/

/-- The texts one after another, with `separator` between two neighbours. -/
def join (separator : Text) (ts : List Text) : Text := separator.intercalate ts

/-- The words of a list with one space between two neighbours. -/
def unwords (ws : List Text) : Text := join [' '] ws

/-! ## Order -/

/-- Whether the first text stands before the second or is the same, by code points. -/
def atMost : Text → Text → Bool
  | [], _ => true
  | _ :: _, [] => false
  | c :: s, d :: t => c.toNat < d.toNat || (c == d && atMost s t)

/-- The distinct texts of a list, by code points. -/
def sorted (ts : List Text) : List Text := ts.eraseDups.mergeSort atMost

/-! ## Numerals -/

/-- The decimal numeral of a natural number. -/
def ofNat (n : Nat) : Text := Nat.toDigits 10 n

/-- The decimal numeral of an integer, with a sign only when it is negative. -/
def ofInt : Int → Text
  | .ofNat n => ofNat n
  | .negSucc n => '-' :: ofNat (n + 1)

/-- Read one or more ASCII digits, and nothing else. -/
def toNat? (t : Text) : Option Nat :=
  if t ≠ [] ∧ t.all Char.isDigit then
    some (t.foldl (fun n c => 10 * n + (c.toNat - '0'.toNat)) 0)
  else none

end Text

end OrgWeave
