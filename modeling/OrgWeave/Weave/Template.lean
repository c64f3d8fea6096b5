import OrgWeave.Error
import OrgWeave.Text.Digits

/-!
# Inclusion templates

A template is a text with fields in braces, of which only `ref` is known, and with
doubled braces for single ones. `renderTemplate` fills the reference in. It reads from
left to right and fails at the first fault : a lone brace, a field that is not closed or
holds another opening brace, or a field of another name.

A field is a name and nothing else here. Conversions, formats, attributes and indices, as in
`ref!s`, `ref:>5`, `ref.title` and `ref[0]`, are not computed, so that what is stated of the lines
of templates is meant of those without such fields (`hasPlainFields`).
-/

namespace OrgWeave

/-- The opening brace of a field. -/
def openBrace : Char := '\x7b'

/-- The closing brace of a field. -/
def closeBrace : Char := '\x7d'

/-- The name of the one known field. -/
def refField : Text := "ref".toList

/-- The known field, as templates hold it. -/
def refPlace : Text := openBrace :: refField ++ [closeBrace]

/-- The largest number that a field can start with. -/
def indexLimit : Nat := 0x7fffffffffffffff

/-- Whether the digits that a field starts with, up to its first other character, make a
number above the limit. -/
def startsHuge (field : Text) : Bool :=
  (Text.digitsValue? (field.takeWhile Text.isDecimal)).any (indexLimit < ·)

/-- What a field stands for. A field of digits alone is a number, any other field a name,
and neither can start with a number above the limit. Only plain fields are told apart : what comes
behind one of the `fieldSigns` is taken for a part of the name. -/
def fieldValue (ref field : Text) : Except Error Text :=
  if field = refField then .ok ref
  else if field = [] then .error (.template (.unnamedField 0))
  else if startsHuge field then .error (.template .hugeIndex)
  else
    match Text.digitsValue? field with
    | some index => .error (.template (.unnamedField index))
    | none => .error (.template (.unknownField field))

/-- Fill `ref` into a template. While a field is read, `field` holds its name so far. -/
def renderFrom (ref : Text) : Option Text → Text → Except Error Text
  | none, [] => .ok []
  | some _, [] => .error (.template .unclosedField)
  | some field, c :: cs =>
    if c = closeBrace then do
      let value ← fieldValue ref field
      let rest ← renderFrom ref none cs
      .ok (value ++ rest)
    else if c = openBrace then .error (.template .nestedField)
    else renderFrom ref (some (field ++ [c])) cs
  | none, [c] =>
    if c = openBrace then .error (.template .loneOpening)
    else if c = closeBrace then .error (.template .loneClosing)
    else .ok [c]
  | none, c :: d :: cs =>
    if (c = openBrace ∨ c = closeBrace) ∧ d = c then do
      let rest ← renderFrom ref none cs
      .ok (c :: rest)
    else if c = openBrace then renderFrom ref (some []) (d :: cs)
    else if c = closeBrace then .error (.template .loneClosing)
    else do
      let rest ← renderFrom ref none (d :: cs)
      .ok (c :: rest)

/-- Fill `ref` into a template. -/
def renderTemplate (template ref : Text) : Except Error Text := renderFrom ref none template

/-- The signs that put a conversion, a format, an attribute or an index behind the name in a
field. -/
def fieldSigns : List Char := ['!', ':', '.', '[']

/-- Whether the fields of a template are names without anything behind them, as far as `renderFrom`
reads it. The flag says that a field is being read. -/
def hasPlainFields : Bool → Text → Bool
  | _, [] => true
  | true, c :: cs =>
    if c = closeBrace then hasPlainFields false cs
    else c = openBrace || (c ∉ fieldSigns && hasPlainFields true cs)
  | false, [_] => true
  | false, c :: d :: cs =>
    if (c = openBrace ∨ c = closeBrace) ∧ d = c then hasPlainFields false cs
    else if c = openBrace then hasPlainFields true (d :: cs)
    else c = closeBrace || hasPlainFields false (d :: cs)

end OrgWeave
