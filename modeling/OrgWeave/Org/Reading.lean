import OrgWeave.Org.Document
import OrgWeave.Org.Window

/-!
# Reading through sequences

A rule gets the lines that are left as a sequence (`Sequence`) : it can ask how many there are, for
all of them front to back, for the one at an index and for those of a slice. A list of lines can be
asked all this (`Sequence.ofList`), and so can a window (`Window.sequence`).

`parseThrough` cuts lines into elements by any rules (`Reader`), which look at the sequences as they
like. `Rule.reader` is a rule of Org in this form, and goes through a sequence in loops
(`Taker.takeIn`).
-/

namespace OrgWeave.Org

/-! ## Lists as sequences -/

/-- An index counted from the front of a list. One that is negative was counted from the end. -/
def fromFront (length : Nat) (index : Int) : Int := if index < 0 then index + length else index

/-- The line at an index. -/
def itemAt? (ls : List Line) (index : Int) : Option Line :=
  if fromFront ls.length index < 0 then none else ls[(fromFront ls.length index).toNat]?

/-- Where a slice of a list of `length` items starts and where it stops. An end that is left out is
an end of the list, and a slice that would start outside the list starts at its end. -/
def sliceEnds (length : Nat) (first last : Option Int) (step : Int) : Int × Int :=
  let start := first.map (fromFront length)
  let stop := last.map (fromFront length)
  if 0 < step then ((start.filter fun n : Int => 0 ≤ n).getD 0, stop.getD length)
  else ((start.filter fun n : Int => n < length).getD (length - 1), stop.getD (-1))

/-- Whether a slice from `start` to `stop` in steps of `step` comes to `i`. -/
def comesTo (start stop step : Int) (i : Nat) : Bool :=
  (i - start) % step = 0 ∧ if 0 < step then start ≤ i ∧ i < stop else i ≤ start ∧ stop < i

/-- The lines that a slice selects, in the direction of its steps. -/
def itemsOf (ls : List Line) (first last step : Option Int) : Except Error (List Line) :=
  let step := step.getD 1
  let (start, stop) := sliceEnds ls.length first last step
  let places := (List.range ls.length).filter (comesTo start stop step)
  if step = 0 then .error .zeroStep
  else .ok ((if 0 < step then places else places.reverse).filterMap (ls[·]?))

/-! ## Sequences -/

/-- Lines in order, by what they can be asked. -/
structure Sequence where
  size : Nat
  readAll : Except Error (List Line)
  get : Int → Except Error Line
  slice : Option Int → Option Int → Option Int → Except Error (List Line)

/-- A list of lines. -/
def Sequence.ofList (ls : List Line) : Sequence where
  size := ls.length
  readAll := .ok ls
  get := fun index => (itemAt? ls index).elim (.error .noSuchLine) .ok
  slice := itemsOf ls

/-- The lines of a window. It has words of its own for a line that it does not hold, which no rule
looks at. -/
def Window.sequence (w : Window) : Sequence where
  size := w.size
  readAll := w.readAll
  get := fun index => (w.get index).mapError fun _ => .noSuchLine
  slice := w.slice

/-! ## Rules -/

/-- A rule by what it does : how many lines it takes of a sequence, and what it makes of lines that
stand at an index. -/
structure Reader where
  take : Sequence → Except Error Int
  make : List Line → Int → Except Error Element

/-- The first rule that takes lines of a sequence, with the number of lines that it takes after the
first one. -/
def firstTaking (s : Sequence) : List Reader → Except Error (Option (Reader × Nat))
  | [] => .ok none
  | rule :: rules => do
    let count ← rule.take s
    match count.toNat with
    | 0 => firstTaking s rules
    | n + 1 => .ok (some (rule, n))

/-- Cut the lines from `pos` on into elements, where the first line of all stands at the index
`start`. Rules get the lines that are left behind a place as `left` shows them. -/
def parseThrough (left : Nat → Sequence) (rules : List Reader) (start : Int) (ls : List Line)
    (pos : Nat) : Except Error (List Element) :=
  if h : pos < ls.length then do
    match ← firstTaking (left pos) rules with
    | none => .error (.unparsableLine (start + pos) ls[pos])
    | some (rule, n) => do
      let taken ← (left pos).slice none (some (n + 1)) none
      let e ← rule.make taken (start + pos)
      let rest ← parseThrough left rules start ls (pos + (n + 1))
      .ok (e :: rest)
  else .ok []
termination_by ls.length - pos

/-- Cut lines by rules that get windows on the lines. -/
def parseWindows (rules : List Reader) (start : Int) (ls : List Line) :
    Except Error (List Element) :=
  parseThrough (fun pos => (Window.mk ls pos).sequence) rules start ls 0

/-- Cut lines by rules that get copies of the lines. -/
def parseCopies (rules : List Reader) (start : Int) (ls : List Line) :
    Except Error (List Element) :=
  parseThrough (fun pos => .ofList (ls.drop pos)) rules start ls 0

/-! ## Rules of Org -/

/-- Look for a line that closes, at `count` indices from `i` on; the number of lines up to it. -/
def closingFrom (closes : Line → Bool) (s : Sequence) : Nat → Nat → Except Error Int
  | 0, _ => .ok 0
  | count + 1, i => do
    let l ← s.get i
    if closes l then .ok (i + 1) else closingFrom closes s count (i + 1)

/-- Go through lines, the first of which is the one at index `i`, where `taken` lines go up to the
last core line before it. -/
def lastCore (optional core : Line → Bool) : Nat → Nat → List Line → Nat
  | taken, _, [] => taken
  | taken, i, l :: ls =>
    if optional l then lastCore optional core taken (i + 1) ls
    else if core l then lastCore optional core (i + 1) (i + 1) ls
    else taken

/-- How many lines the taker takes of a sequence. -/
def Taker.takeIn (s : Sequence) : Taker → Except Error Int
  | .greedy takes => do
    let ls ← s.readAll
    .ok ((ls.findIdx? fun l => !takes l).getD s.size)
  | .first takes => do
    let l ← s.get 0
    .ok (if takes l then 1 else 0)
  | .between opens closes => do
    let l ← s.get 0
    if opens l then closingFrom (closes l) s (s.size - 1) 1 else .ok 0
  | .trailing optional core => do
    let ls ← s.readAll
    .ok (lastCore optional core 0 0 ls)

/-- What a rule makes of any lines. Without a line most rules have nothing to look at. -/
def Rule.makeOf (rule : Rule) (start : Int) : List Line → Except Error Element
  | l :: ls => .ok ⟨start, rule.make l ls⟩
  | [] =>
    match rule with
    | .blank => .ok ⟨start, .blank []⟩
    | .prose => .ok ⟨start, .prose []⟩
    | _ => .error .noSuchLine

/-- The rule by what it does. -/
def Rule.reader (rule : Rule) : Reader where
  take := fun s => rule.taker.takeIn s
  make := fun ls start => rule.makeOf start ls

end OrgWeave.Org
