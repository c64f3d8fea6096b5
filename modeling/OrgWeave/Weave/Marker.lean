import OrgWeave.Text.Lines
import OrgWeave.Text.Letters

/-!
# Markers

A line of a body that holds a marker stands for other lines. A marker opens at the first
`<<` of the line and closes at the last `>>`; what is between is its target, and the white
space right before it the indentation of what replaces the line (`Marker.ofLine?`). The
target is the name of a block, or a call of the self name with request flags in quotes
(`Marker.flags?`).

Lines that would read as Org are written with commas in front, of which `unescape` drops
the first.
-/

namespace OrgWeave

open Text

structure Marker where
  indent : Text
  target : Text
  deriving DecidableEq, Repr

namespace Marker

/-- The marker on a line, if there is one. -/
def ofLine? (l : Line) : Option Marker :=
  match splitFirst? "<<".toList l with
  | none => none
  | some (before, rest) =>
    match splitLast? ">>".toList rest with
    | some (c :: cs, _) => some ⟨takeRightWhile isSpace before, c :: cs⟩
    | _ => none

/-- What a name in a call is made of. -/
def isCallable (c : Char) : Bool := isWord c || c == '.' || c == '-'

/-- The text in front of the closing `mark`. -/
def beforeEnd? (mark t : Text) : Option Text :=
  if mark.isSuffixOf t then some (t.take (t.length - mark.length)) else none

/-- The flags of a call of `selfName`, if the target is such a call. -/
def flags? (selfName : Text) (target : Text) : Option Text :=
  if target.takeWhile isCallable ≠ [] ∧ target.takeWhile isCallable = selfName then
    (after? ['(', '\x22'] (target.dropWhile isCallable)).bind (beforeEnd? ['\x22', ')'])
  else none

/-- What a line of a body is to the weaver. -/
inductive Role
  | text
  | reference (indent : Text) (name : Text)
  | request (indent : Text) (flags : Text)
  deriving DecidableEq, Repr

/-- The role of a line, in a body whose markers are expanded or not. -/
def role (selfName : Text) (expandsMarkers : Bool) (l : Line) : Role :=
  match if expandsMarkers then ofLine? l else none with
  | none => .text
  | some m =>
    match flags? selfName m.target with
    | some flags => .request m.indent flags
    | none => .reference m.indent m.target

end Marker

/-! ## Escapes -/

/-- Whether a line, commas left out, would read as a keyword line or a heading. -/
def readsAsOrg (l : Line) : Bool :=
  match l.dropWhile (· == ',') with
  | '#' :: '+' :: _ => true
  | '*' :: _ => true
  | _ => false

/-- Drop the first of the commas in front of a line that would read as Org. -/
def unescape (l : Line) : Line :=
  match l with
  | ',' :: rest => if readsAsOrg rest then rest else l
  | _ => l

end OrgWeave
