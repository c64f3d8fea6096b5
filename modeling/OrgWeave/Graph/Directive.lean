import OrgWeave.Org.Line
import OrgWeave.Vocabulary

/-!
# Directives

A directive is a line that says something about a name : `#+name:` names the source
block on the next line, the opening of a source block can bind it to a name that other
blocks share, `#+depends:` declares references and `#+tangle:` a file. The name of the
last two follows the keyword without a space and ends at the first white space; the rest
of the line, stripped, is the parameter string or the path of the file.
-/

namespace OrgWeave

open Text Org

inductive Directive
  | name (name : Text)
  | opening
  | depends (name params : Text)
  | tangle (name destination : Text)
  deriving DecidableEq, Repr

namespace Directive

/-- The name on a `#+name:` line, which is all that follows, stripped. -/
def declaredName? (l : Line) : Option Text :=
  ((Org.afterKeyword? "name:".toList l).map strip).filter fun name => !name.isEmpty

/-- A name, white space, and the rest stripped. -/
def namedRest? (t : Text) : Option (Text × Text) :=
  match t.takeWhile (!isSpace ·), t.dropWhile (!isSpace ·) with
  | c :: cs, _ :: rest => some (c :: cs, strip rest)
  | _, _ => none

/-- The name and the parameter string on a `#+depends:` line. -/
def dependency? (l : Line) : Option (Text × Text) :=
  (Org.afterKeyword? "depends:".toList l).bind namedRest?

/-- The name and the file on a `#+tangle:` line. -/
def tangle? (l : Line) : Option (Text × Text) :=
  (Org.afterKeyword? "tangle:".toList l).bind namedRest?

/-- The directive that a line holds, if it holds one. -/
def ofLine? (l : Line) : Option Directive :=
  match declaredName? l with
  | some n => some (.name n)
  | none =>
    if opensSource l then some .opening
    else
      match dependency? l, tangle? l with
      | some (n, params), _ => some (.depends n params)
      | none, some (n, destination) => some (.tangle n destination)
      | none, none => none

end Directive

end OrgWeave
