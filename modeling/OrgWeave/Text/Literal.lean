import OrgWeave.Text.Lines

/-!
# String literals

Between two double quotes a backslash and a double quote are written with a backslash in
front (`escape`). Two kinds of literals are written this way : a block as one literal,
the end of each of its lines as a backslash and an `n` (`quoteLines`), and the message of
an error directive (`errorLine`).
-/

namespace OrgWeave.Text

/-- The double quote that opens and closes a literal. -/
def quote : Char := '\x22'

/-- The text with a backslash in front of each backslash and each double quote. -/
def escape : Text → Text
  | [] => []
  | c :: cs => if c = '\\' ∨ c = quote then '\\' :: c :: escape cs else c :: escape cs

/-- A text is escaped piece by piece. -/
theorem escape_append : ∀ s t : Text, escape (s ++ t) = escape s ++ escape t
  | [], _ => rfl
  | c :: s, t => by
    simp only [List.cons_append, escape, escape_append s t]
    split <;> rfl

/-- A line inside a literal : its text escaped, and the escape for its end. -/
def quotedLine (l : Line) : Text := escape (chomp l) ++ "\\n".toList

/-- The lines as one string literal, on a line of its own. -/
def quoteLines (ls : List Line) : Text := quote :: ls.flatMap quotedLine ++ [quote, '\n']

/-- The line that has a compiler report `message` as an error. -/
def errorLine (message : Text) : Line :=
  "#error ".toList ++ quote :: escape message ++ [quote, '\n']

end OrgWeave.Text
