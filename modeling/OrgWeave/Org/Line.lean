import OrgWeave.Params
import OrgWeave.Text.Lowercase

/-!
# The kinds of Org lines

What a single line of an Org document can be, whatever stands around it : blank, a
heading (stars, a space and a title), a keyword line (`#+` after white space), and among
the keyword lines the ones that open or close a block. A source block is opened and
closed by `#+begin_src` and `#+end_src`, any other block by `#+begin_` and `#+end_` with
the same kind behind them; keywords are read without regard to case.

`Header.ofLine` reads the language and the parameters off the line that opens a source
block.
-/

namespace OrgWeave.Org

open Text

/-! ## Headings -/

/-- A heading : the number of its stars, its title, and the line itself. -/
structure Heading where
  level : Nat
  title : Text
  raw : Line
  level_pos : 0 < level
  deriving DecidableEq, Repr

/-- Read a line of stars, one space and a title that is not empty. -/
def Heading.ofLine? (l : Line) : Option Heading :=
  match (chomp l).takeWhile (· == '*'), (chomp l).dropWhile (· == '*') with
  | _ :: stars, ' ' :: c :: cs =>
    if '\n' ∈ c :: cs then none else some ⟨stars.length + 1, c :: cs, l, Nat.succ_pos _⟩
  | _, _ => none

/-- A heading keeps the line that it was read from. -/
theorem Heading.raw_of_ofLine? {l : Line} {h : Heading} (hl : Heading.ofLine? l = some h) :
    h.raw = l := by
  unfold Heading.ofLine? at hl
  split at hl
  · split at hl
    · cases hl
    · cases hl
      rfl
  · cases hl

/-- The level of a heading, if there can be such a heading. -/
def Heading.checkLevel (level : Int) : Except Error Nat :=
  if level ≤ 0 then .error (.badField (.level level)) else .ok level.toNat

def isHeading (l : Line) : Bool := (Heading.ofLine? l).isSome

/-! ## Keyword lines -/

/-- The rest of a keyword line after white space and `#+`. -/
def afterMark? (l : Line) : Option Text := after? "#+".toList (stripLeft l)

/-- Whether the line is a keyword line. -/
def isKeyword (l : Line) : Bool := (afterMark? l).isSome

/-- The rest of a line after white space, `#+` and the given keyword. -/
def afterKeyword? (keyword : Text) (l : Line) : Option Text :=
  (afterMark? l).bind (Text.afterKeyword? keyword)

/-- The rest of a line after a keyword that is a whole word. -/
def afterWholeKeyword? (keyword : Text) (l : Line) : Option Text :=
  (afterKeyword? keyword l).filter fun rest => !rest.head?.any isWord

/-- The rest of the line that opens a source block. -/
def afterSourceOpening? (l : Line) : Option Text := afterWholeKeyword? "begin_src".toList l

def opensSource (l : Line) : Bool := (afterSourceOpening? l).isSome

def closesSource (l : Line) : Bool := (afterWholeKeyword? "end_src".toList l).isSome

/-- The word that a text starts with, in lower case. -/
def leadingKind? (t : Text) : Option Text :=
  match t.takeWhile isWord with
  | [] => none
  | kind => some (lowercase kind)

/-- The kind of the block that the line opens. -/
def openedKind? (l : Line) : Option Text :=
  (afterKeyword? "begin_".toList l).bind leadingKind?

/-- The kind of the block that the line closes. -/
def closedKind? (l : Line) : Option Text := (afterKeyword? "end_".toList l).bind leadingKind?

/-- Whether the line opens a block, of source or of any other kind. -/
def opensBlock (l : Line) : Bool := (openedKind? l).isSome

/-- Whether the second line closes a block of the kind that the first one opens. -/
def closesBlock (opening l : Line) : Bool :=
  match closedKind? l with
  | none => false
  | some kind => openedKind? opening == some kind

/-! ## Source headers -/

/-- What the opening line of a source block says about it. -/
structure Header where
  language : Text
  params : Params
  deriving DecidableEq, Repr

/-- The text after the first colon that follows white space, with the character before
the text given. -/
def afterSpacedColon? : Char → Text → Option Text
  | _, [] => none
  | before, c :: cs =>
    if isSpace before && c == ':' then some cs else afterSpacedColon? c cs

/-- The language and the parameters on a line. The language is the first word after
`#+begin_src`, or the first word of a line without it; the parameters start at the first
colon after white space, and what stands in between is left out. -/
def Header.ofLine (l : Line) : Header :=
  let rest := strip ((afterSourceOpening? (chomp l)).getD (chomp l))
  match rest, words rest with
  | first :: others, language :: _ =>
    ⟨language, ((afterSpacedColon? first others).map Params.ofSegments).getD []⟩
  | _, _ => ⟨[], []⟩

end OrgWeave.Org
