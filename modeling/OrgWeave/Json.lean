import OrgWeave.Text.Basic

/-!
# JSON

The JSON values that reports are made of, and their two written forms : on one line
without any space (`compact`), and spread over lines with two spaces for each level
(`pretty`), where an empty list or object stays on its line. An object keeps its fields
in the order given. Characters below the space are escaped, by a letter if they have one,
and all characters from the space on stand for themselves but the quote and the backslash.
-/

namespace OrgWeave

inductive Json
  | bool (b : Bool)
  | int (n : Int)
  | text (t : Text)
  | list (items : List Json)
  | object (fields : List (Text × Json))

namespace Json

/-- A list of texts. -/
def texts (ts : List Text) : Json := .list (ts.map .text)

/-! ## Strings -/

def hexDigits (n : Nat) : Text := [Nat.digitChar (n / 16), Nat.digitChar (n % 16)]

/-- A character as it is written in a string. -/
def charText (c : Char) : Text :=
  if c = '\x22' then ['\\', c]
  else if c = '\\' then ['\\', c]
  else if c = '\n' then "\\n".toList
  else if c = '\r' then "\\r".toList
  else if c = '\t' then "\\t".toList
  else if c = '\x08' then "\\b".toList
  else if c = '\x0c' then "\\f".toList
  else if c.toNat < 0x20 then "\\u00".toList ++ hexDigits c.toNat
  else [c]

def stringText (t : Text) : Text := '\x22' :: t.flatMap charText ++ ['\x22']

/-! ## Values -/

/-- What stands between the parts of a value in one of the two written forms. -/
structure Style where
  /-- The text in front of a part at a level of nesting. -/
  lead : Nat → Text
  afterColon : Text

def compactStyle : Style := ⟨fun _ => [], []⟩

def prettyStyle : Style := ⟨fun level => '\n' :: List.replicate (2 * level) ' ', [' ']⟩

mutual

/-- A value at a level of nesting. -/
def write (s : Style) (level : Nat) : Json → Text
  | .bool true => "true".toList
  | .bool false => "false".toList
  | .int n => Text.ofInt n
  | .text t => stringText t
  | .list [] => "[]".toList
  | .list (item :: items) =>
    '[' :: s.lead (level + 1) ++ write s (level + 1) item ++ writeItems s (level + 1) items ++
      s.lead level ++ [']']
  | .object [] => ['\x7b', '\x7d']
  | .object ((key, value) :: fields) =>
    '\x7b' :: s.lead (level + 1) ++ stringText key ++ ':' :: s.afterColon ++
      write s (level + 1) value ++ writeFields s (level + 1) fields ++ s.lead level ++ ['\x7d']

/-- The items of a list after the first. -/
def writeItems (s : Style) (level : Nat) : List Json → Text
  | [] => []
  | item :: items => ',' :: s.lead level ++ write s level item ++ writeItems s level items

/-- The fields of an object after the first. -/
def writeFields (s : Style) (level : Nat) : List (Text × Json) → Text
  | [] => []
  | (key, value) :: fields =>
    ',' :: s.lead level ++ stringText key ++ ':' :: s.afterColon ++ write s level value ++
      writeFields s level fields

end

def compact (j : Json) : Text := write compactStyle 0 j

def pretty (j : Json) : Text := write prettyStyle 0 j

end Json

end OrgWeave
