import OrgWeave.Error
import OrgWeave.Gather

/-!
# Windows

A window shows the lines from a start on without copying them. It is read like the list
of these lines : all of them, one by index, from the end if the index is negative, and some
by slice, whose ends are clamped to the window and whose step may go backwards
(`sliceIndices`).
-/

namespace OrgWeave.Org

/-! ## Slices -/

/-- An end of a slice, counted from the end of the list if it is negative, and clamped
to lie between `low` and `high`. -/
def clampEnd (length : Nat) (low high n : Int) : Int :=
  let n := if n < 0 then n + length else n
  if n < low then low else if high < n then high else n

/-- Whether a slice that goes by `step` up to `stop` still holds `n`. -/
def inSlice (stop step n : Int) : Bool := if 0 < step then n < stop else stop < n

/-- The first `count` positions from `n` on in steps of `step`, as far as they stand
before `stop`. -/
def stepsFrom (stop step : Int) : Nat → Int → List Nat
  | 0, _ => []
  | count + 1, n =>
    if inSlice stop step n then n.toNat :: stepsFrom stop step count (n + step) else []

/-- The positions of a list of `length` items that a slice selects, in order. -/
def sliceIndices (length : Nat) (first last step : Option Int) : Except Error (List Nat) :=
  let step := step.getD 1
  if step = 0 then .error .zeroStep
  else if 0 < step then
    let start := (first.map (clampEnd length 0 length)).getD 0
    let stop := (last.map (clampEnd length 0 length)).getD length
    .ok (stepsFrom stop step length start)
  else
    let start := (first.map (clampEnd length (-1) (length - 1))).getD (length - 1)
    let stop := (last.map (clampEnd length (-1) (length - 1))).getD (-1)
    .ok (stepsFrom stop step length start)

/-! ## Windows -/

/-- The lines from `start` on. A start that is negative counts from the end of the lines, and
the window then goes on with the lines from the first one on. -/
structure Window where
  lines : List Line
  start : Int
  deriving DecidableEq, Repr

namespace Window

def size (w : Window) : Nat := ((w.lines.length : Int) - w.start).toNat

/-- The line at a place of the window, counted from 0. -/
def lineAt (w : Window) (i : Nat) : Except Error Line :=
  let place := w.start + i
  let place := if place < 0 then place + w.lines.length else place
  match if place < 0 then none else w.lines[place.toNat]? with
  | some l => .ok l
  | none => .error .noSuchLine

/-- The lines at places of the window, in the order given. -/
def linesAt (w : Window) (places : List Nat) : Except Error (List Line) :=
  gather (fun i => do
    let l ← w.lineAt i
    .ok [l]) places

/-- The lines of the window, front to back. -/
def readAll (w : Window) : Except Error (List Line) := w.linesAt (List.range w.size)

/-- The line at an index, counted from the end if it is negative. -/
def get (w : Window) (index : Int) : Except Error Line :=
  let index := if index < 0 then index + w.size else index
  if 0 ≤ index ∧ index < w.size then w.lineAt index.toNat else .error .outsideWindow

/-- The lines that a slice selects. -/
def slice (w : Window) (first last step : Option Int) : Except Error (List Line) := do
  let indices ← sliceIndices w.size first last step
  w.linesAt indices

end Window

end OrgWeave.Org
