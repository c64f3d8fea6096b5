import OrgWeave.Text.Basic

/-!
# Paths

A path is a list of names, from the root if it has an anchor and from the current folder
if it has none. Single dots and doubled slashes mean nothing and are dropped when a path
is read; two dots are kept, as only the file system can tell what they lead to.
-/

namespace OrgWeave

/-- An anchor (empty, one slash or exactly two) and the names behind it. -/
structure Path where
  anchor : Text
  names : List Text
  deriving DecidableEq, Repr

namespace Path

/-- The current folder. -/
def here : Path := ⟨[], []⟩

/-- The slashes in front of a text, three or more counting as one. -/
def anchorOf (t : Text) : Text :=
  match t.takeWhile (· == '/') with
  | [] => []
  | ['/', '/'] => ['/', '/']
  | _ => ['/']

def ofText (t : Text) : Path :=
  ⟨anchorOf t, (t.splitOn '/').filter fun name => name ≠ [] ∧ name ≠ ['.']⟩

def toText (p : Path) : Text :=
  if p.anchor = [] ∧ p.names = [] then ['.'] else p.anchor ++ Text.join ['/'] p.names

def isAbsolute (p : Path) : Bool := !p.anchor.isEmpty

/-- The path without its last name. -/
def folder (p : Path) : Path := { p with names := p.names.dropLast }

/-- The path `q` taken from the folder `p`. -/
def append (p q : Path) : Path := if q.isAbsolute then q else ⟨p.anchor, p.names ++ q.names⟩

/-- The path as it reads from a folder that it leads into, as it is otherwise. -/
def relativeTo (p folder : Path) : Path :=
  if p.anchor = folder.anchor ∧ folder.names.isPrefixOf p.names ∧ p.names ≠ folder.names then
    ⟨[], p.names.drop folder.names.length⟩
  else p

end Path

end OrgWeave
