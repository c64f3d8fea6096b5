import OrgWeave.Error
import OrgWeave.Table

/-!
# Parameters

A parameter string is a sequence of segments, a key after a colon and then its values,
all separated by white space : `:exports none :include iostream vector :minipage`. A
colon opens a segment at the start of the string and after white space only, so
`:url http://host` holds one value. Reading (`ofText?`) collects the values of a key at
the first place of the key, and `toText` writes the segments back.

`values?` tells a key without values from a key that is absent; `first?` does not.
-/

namespace OrgWeave

/-- Keys with their lists of values, in the order of first mention. -/
abbrev Params := Table (List Text)

namespace Params

/-- The values of a key, if the key is present. -/
def values? (p : Params) (key : Text) : Option (List Text) := p.get? key

/-- The values of a key, none if the key is absent. -/
def values (p : Params) (key : Text) : List Text := (p.values? key).getD []

/-- The first value of a key. -/
def first? (p : Params) (key : Text) : Option Text := (p.values key).head?

/-- Append `vs` to the values of `key`. -/
def add (p : Params) (key : Text) (vs : List Text) : Params :=
  Table.alter (fun old => old.getD [] ++ vs) key p

/-- Values that are added come after the values that a key has. -/
theorem values?_add_self (p : Params) (key : Text) (vs : List Text) :
    (p.add key vs).values? key = some (p.values key ++ vs) :=
  Table.get?_alter_self _ key p

/-- Values added to one key leave the others alone. -/
theorem values?_add_of_ne (p : Params) {key other : Text} (vs : List Text) (h : other ≠ key) :
    (p.add key vs).values? other = p.values? other :=
  Table.get?_alter_of_ne _ h p

/-! ## Reading -/

/-- Cut a text at each colon that stands at its start or after white space. The flag
tells whether a colon in front would open a segment. -/
def segments : Bool → Text → List Text
  | _, [] => [[]]
  | opens, c :: cs =>
    if opens && c == ':' then [] :: segments false cs
    else
      match segments (Text.isSpace c) cs with
      | [] => [[c]]
      | s :: ss => (c :: s) :: ss

/-- Add what a segment holds : its first word is the key, the others are values. -/
def addSegment (p : Params) (segment : Text) : Params :=
  match Text.words segment with
  | [] => p
  | key :: vs => p.add key vs

/-- The parameters of a text whose leading colon is already taken. -/
def ofSegments (body : Text) : Params := (segments true body).foldl addSegment []

/-- Read a parameter string; its first character after white space has to be a colon. -/
def ofText? (t : Text) : Except Error Params :=
  match Text.strip t with
  | ':' :: body => .ok (ofSegments body)
  | _ => .error (.malformedParameters t)

/-! ## Writing -/

def segmentText (segment : Text × List Text) : Text :=
  Text.unwords ((':' :: segment.1) :: segment.2)

/-- The parameters as a parameter string. -/
def toText (p : Params) : Text := Text.unwords (p.map segmentText)

end Params

end OrgWeave
