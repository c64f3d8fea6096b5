import OrgWeave.Error

/-!
# The corpus

A corpus is the lines of all documents, one document after another. Every position in
the library is an index into these lines, counted from 0. Each document keeps the range
of its lines (`DocumentRange`), by which `locate` maps an index back to the document that
holds it and to the line's number there, counted from 1.

Empty documents have the same start as the document after them. `bisectRight` finds the
last document that starts at or before an index, which is the one that holds the line.
-/

namespace OrgWeave

/-- The lines from `start` up to but not including `stop` are those of a document. -/
structure DocumentRange where
  name : Text
  start : Nat
  stop : Nat
  start_le_stop : start ≤ stop
  deriving DecidableEq, Repr

/-- The range with the given ends, if they are in order. -/
def DocumentRange.ofInts (name : Text) (start stop : Int) : Except Error DocumentRange :=
  if start < 0 then .error (.badField (.start start))
  else if h : stop < start then .error (.badField (.stop stop start))
  else .ok ⟨name, start.toNat, stop.toNat, by omega⟩

structure Corpus where
  lines : List Line
  documents : List DocumentRange
  deriving DecidableEq, Repr

namespace Corpus

/-! ## Documents to lines -/

/-- The ranges of documents that stand one after another from `start` on. -/
def rangesFrom (start : Nat) : List (Text × Text) → List DocumentRange
  | [] => []
  | (name, text) :: docs =>
    let stop := start + (Text.splitLines text).length
    ⟨name, start, stop, Nat.le_add_right _ _⟩ :: rangesFrom stop docs

/-- The corpus of named texts, in order. -/
def ofTexts (docs : List (Text × Text)) : Corpus where
  lines := docs.flatMap fun d => Text.splitLines d.2
  documents := rangesFrom 0 docs

/-- All documents as one text. -/
def text (c : Corpus) : Text := c.lines.flatten

/-- The text of a corpus is its documents, one after another. -/
theorem text_ofTexts (docs : List (Text × Text)) :
    (ofTexts docs).text = (docs.map Prod.snd).flatten := by
  unfold text ofTexts
  induction docs with
  | nil => rfl
  | cons d docs ih => simp_all [Text.flatten_splitLines]

/-- The lines from `start` up to but not including `stop`. -/
def slice (c : Corpus) (start stop : Nat) : List Line := (c.lines.drop start).take (stop - start)

/-! ## Lines to documents -/

/-- Halve the positions from `low` to `high` until the first one is found whose start lies
after `index`. -/
def bisectBetween (starts : List Nat) (index low high : Nat) : Nat :=
  if low < high then
    let middle := (low + high) / 2
    if starts[middle]?.any (index < ·) then bisectBetween starts index low middle
    else bisectBetween starts index (middle + 1) high
  else low
termination_by high - low
decreasing_by all_goals omega

/-- How many of the increasing `starts` are at most `index`. -/
def bisectRight (starts : List Nat) (index : Nat) : Nat :=
  bisectBetween starts index 0 starts.length

/-- The document that holds the line at `index`, if one does. -/
def documentAt? (c : Corpus) (index : Nat) : Option DocumentRange :=
  match bisectRight (c.documents.map (·.start)) index with
  | 0 => none
  | n + 1 => c.documents[n]?.filter fun d => decide (index < d.stop)

/-- The name of the document that holds the line at `index`, and the number of the line in
it. A line outside all documents is counted from the start of the corpus. -/
def locate (c : Corpus) (index : Int) : Except Error (Text × Nat) :=
  if 0 ≤ index ∧ index < c.lines.length then
    match c.documentAt? index.toNat with
    | some d => .ok (d.name, index.toNat - d.start + 1)
    | none => .ok ("<corpus>".toList, index.toNat + 1)
  else .error (.outsideCorpus index)

/-- The place of a line as messages show it : document, colon, line number. -/
def describe (c : Corpus) (index : Int) : Except Error Text := do
  let (name, number) ← c.locate index
  .ok (name ++ ':' :: Text.ofNat number)

end Corpus

end OrgWeave
