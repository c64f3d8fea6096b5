import OrgWeave.Text.Basic

/-!
# Lines

`splitLines` cuts a text after each newline, so the lines of a text keep their
terminators and put together give the text back. `chomp` takes the terminator off, and
`indent` puts an indentation in front of a line unless nothing but a terminator is there
to be moved.
-/

namespace OrgWeave

/-- A line of a document, with its terminator if it has one. -/
abbrev Line := Text

namespace Text

/-- Cut a text after each newline; form feeds and the like stay inside lines. -/
def splitLines : Text → List Line
  | [] => []
  | c :: cs =>
    if c = '\n' then [c] :: splitLines cs
    else
      match splitLines cs with
      | [] => [[c]]
      | l :: ls => (c :: l) :: ls

/-- The lines of a text put together give the text back. -/
theorem flatten_splitLines : ∀ t : Text, (splitLines t).flatten = t
  | [] => rfl
  | c :: cs => by
    have ih := flatten_splitLines cs
    rw [splitLines]
    split
    · simp [ih]
    · split <;> simp_all

/-- No line of a text is empty. -/
theorem ne_nil_of_mem_splitLines {l : Line} : ∀ t : Text, l ∈ splitLines t → l ≠ []
  | [], h => by simp [splitLines] at h
  | c :: cs, h => by
    have ih := ne_nil_of_mem_splitLines (l := l) cs
    rw [splitLines] at h
    split at h
    · rcases List.mem_cons.1 h with rfl | h
      · simp
      · exact ih h
    · split at h
      · simp_all
      · rename_i heq
        rcases List.mem_cons.1 h with rfl | h
        · simp
        · exact ih (heq ▸ List.mem_cons_of_mem _ h)

/-- The line without the carriage returns and newlines at its end. -/
def chomp (l : Line) : Text := dropRightWhile (fun c => c == '\r' || c == '\n') l

/-- The line after the indentation `lead`; an empty line stays as it is. -/
def indent (lead : Text) (l : Line) : Line :=
  if l = [] ∨ l = ['\n'] ∨ l = ['\r', '\n'] then l else lead ++ l

end Text

end OrgWeave
