import OrgWeave.Error

/-!
# Takers

A taker says how many lines an element takes from the front of a document. `greedy`
takes the run of lines of one kind, `first` a single line, `between` the lines from an
opening to its closing line, and `trailing` a run of lines in which some are optional :
those count only if a line of the core follows, so that none of them is the last taken.
-/

namespace OrgWeave.Org

inductive Taker
  | greedy (takes : Line → Bool)
  | first (takes : Line → Bool)
  | between (opens : Line → Bool) (closes : Line → Line → Bool)
  | trailing (optional core : Line → Bool)

/-- The length of the longest front of optional and core lines that is empty or ends with
a core line. A line of both kinds is optional. -/
def trailingCount (optional core : Line → Bool) : List Line → Nat
  | [] => 0
  | l :: ls =>
    if optional l then
      match trailingCount optional core ls with
      | 0 => 0
      | n + 1 => n + 2
    else if core l then trailingCount optional core ls + 1
    else 0

/-- The number of lines from an opening line `l` to the first line among `ls` that closes
it, both included, or 0 if it is never closed. -/
def closedCount (closes : Line → Bool) (ls : List Line) : Nat :=
  match ls.findIdx? closes with
  | some i => i + 2
  | none => 0

namespace Taker

/-- How many lines the taker takes from the line `l` and those after it. -/
def take (t : Taker) (l : Line) (ls : List Line) : Nat :=
  match t with
  | .greedy takes => ((l :: ls).takeWhile takes).length
  | .first takes => if takes l then 1 else 0
  | .between opens closes => if opens l then closedCount (closes l) ls else 0
  | .trailing optional core => trailingCount optional core (l :: ls)

/-- How many lines the taker takes from any list. Without a line there is nothing that
`first` and `between` could look at. -/
def takeFrom : Taker → List Line → Except Error Nat
  | t, l :: ls => .ok (t.take l ls)
  | .first _, [] => .error .noSuchLine
  | .between _ _, [] => .error .noSuchLine
  | .greedy _, [] => .ok 0
  | .trailing _ _, [] => .ok 0

end Taker

end OrgWeave.Org
