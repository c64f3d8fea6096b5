import OrgWeave.Graph.Basic
import OrgWeave.Graph.Directive
import OrgWeave.Org.Document

/-!
# Reading the block graph

The graph is read in one pass over directive lines, which fill the tables of a `Scan`.
`Graph.ofLines` looks at every line of the corpus. `Graph.ofElements` looks only at the
elements that can hold a directive, and so skips what reads like a directive inside a
body; the opening of a block that is never closed is a keyword line and is still seen.
`Graph.ofCorpus` parses each document on its own and reads the elements.

A block can be bound to two names, the one on the `#+name:` line in front of it and the
one it shares with other blocks. If they differ, the first name contributes to the
second. The record of an aggregate is completed at the end (`Scan.finish`) : its own
references come first and then those of its contributors, wherever they are declared.
-/

namespace OrgWeave

open Org

/-- The tables filled so far. `declared` pairs the openings of named blocks with their
names, the latest first. -/
structure Scan where
  blocks : Table (List BodySpan)
  dependencies : Table Record
  aggregates : Table (List Text)
  tangles : Table Text
  declared : List (Nat × Text)
  deriving DecidableEq, Repr

namespace Scan

def empty : Scan := ⟨[], [], [], [], []⟩

/-! ## Bodies -/

/-- Whether a block with this header has its markers expanded. -/
def expandsMarkers (header : Header) : Bool :=
  header.params.first? Vocabulary.nestedKey != some "no".toList

/-- The body of the source block that opens at `opening` with the line `l`. -/
def spanAt (c : Corpus) (opening : Nat) (l : Line) : BodySpan where
  opening := opening
  stop := opening + 1 + (c.lines.drop (opening + 1)).findIdx closesSource
  expandsMarkers := expandsMarkers (Header.ofLine l)
  opening_lt_stop := by omega

/-- Bind a body to a name, at most once. -/
def bind (s : Scan) (name : Text) (span : BodySpan) : Scan :=
  let add (old : Option (List BodySpan)) : List BodySpan :=
    if span ∈ old.getD [] then old.getD [] else old.getD [] ++ [span]
  { s with blocks := Table.alter add name s.blocks }

/-! ## Directives -/

/-- Refuse a second declaration, made on the line at `index`. -/
def duplicate (c : Corpus) (what : Declared) (name : Text) (index : Nat) : Except Error Scan := do
  let location ← c.describe index
  .error (.duplicate what name location)

/-- Name the source block that opens right after `index` with the line `l`. -/
def declareName (c : Corpus) (s : Scan) (name : Text) (index : Nat) (l : Line) :
    Except Error Scan :=
  if name ≠ Vocabulary.selfName ∧ s.blocks.has name then duplicate c .block name index
  else
    .ok ({ s with declared := (index + 1, name) :: s.declared }.bind name
      (spanAt c (index + 1) l))

/-- Bind the source block that opens at `index` with the line `l` to the name that it
shares, and let the name declared for it contribute to that name. -/
def openBlock (c : Corpus) (s : Scan) (index : Nat) (l : Line) : Scan :=
  match (Header.ofLine l).params.first? Vocabulary.referenceKey with
  | none => s
  | some reference =>
    let bound := s.bind reference (spanAt c index l)
    match s.declared.lookup index with
    | none => bound
    | some name =>
      if name = reference then bound
      else
        { bound with
          aggregates := Table.alter (fun old => old.getD [] ++ [name]) reference s.aggregates }

/-- Declare the references of a name. -/
def declareDependencies (c : Corpus) (s : Scan) (name params : Text) (index : Nat) :
    Except Error Scan :=
  if s.dependencies.has name then duplicate c .dependency name index
  else do
    let p ← Params.ofText? params
    let r : Record := ⟨p.values Vocabulary.externalKey, p.values Vocabulary.nestedKey⟩
    .ok { s with dependencies := s.dependencies.insert name r }

/-- Declare the file of a name. -/
def declareTangle (c : Corpus) (s : Scan) (name destination : Text) (index : Nat) :
    Except Error Scan :=
  if s.tangles.has name then duplicate c .tangleTarget name index
  else .ok { s with tangles := s.tangles.insert name destination }

/-- Take in the directive on the line at `index`, if there is one. Tangle targets are
passed over unless `collectsTangles`. -/
def step (c : Corpus) (collectsTangles : Bool) (s : Scan) (index : Nat) : Except Error Scan :=
  match c.lines[index]? with
  | none => .ok s
  | some l =>
    match Directive.ofLine? l with
    | none => .ok s
    | some (.name name) =>
      match c.lines[index + 1]? with
      | none => .ok s
      | some next => if opensSource next then declareName c s name index next else .ok s
    | some .opening => .ok (openBlock c s index l)
    | some (.depends name params) => declareDependencies c s name params index
    | some (.tangle name destination) =>
      if collectsTangles then declareTangle c s name destination index else .ok s

/-- Take in the directives on the lines at the given places, in order. -/
def run (c : Corpus) (collectsTangles : Bool) (s : Scan) : List Nat → Except Error Scan
  | [] => .ok s
  | index :: rest => do
    let s ← step c collectsTangles s index
    run c collectsTangles s rest

/-! ## The finished graph -/

/-- The record declared for a name. -/
def ownRecord (s : Scan) (name : Text) : Record := (s.dependencies.get? name).getD .empty

/-- The record of an aggregate : its own, then those of its contributors. -/
def aggregateRecord (s : Scan) (name : Text) (contributors : List Text) : Record :=
  contributors.foldl (fun r contributor => r.append (s.ownRecord contributor)) (s.ownRecord name)

/-- The graph of the tables. -/
def finish (c : Corpus) (s : Scan) : Graph where
  corpus := c
  blocks := s.blocks
  dependencies :=
    s.aggregates.foldl (fun t row => t.insert row.1 (s.aggregateRecord row.1 row.2))
      s.dependencies
  aggregates := s.aggregates
  tangles := s.tangles

end Scan

namespace Graph

/-- The graph of the directives on the lines at the given places. -/
def ofPlaces (c : Corpus) (collectsTangles : Bool) (places : List Nat) : Except Error Graph := do
  let s ← Scan.run c collectsTangles .empty places
  .ok (s.finish c)

/-- The graph of all directive lines of a corpus. -/
def ofLines (c : Corpus) (collectsTangles : Bool) : Except Error Graph :=
  ofPlaces c collectsTangles (List.range c.lines.length)

/-- The graph of the directives that elements of a corpus hold, the elements counted from the
start of the corpus. -/
def ofElements (c : Corpus) (es : List Element) (collectsTangles : Bool) : Except Error Graph :=
  ofPlaces c collectsTangles ((es.filter (·.holdsDirective)).map (·.start.toNat))

/-- The graph of a corpus, each document parsed on its own. -/
def ofCorpus (c : Corpus) (collectsTangles : Bool) : Except Error Graph := do
  let es ← parseCorpus c
  ofElements c es collectsTangles

end Graph

end OrgWeave
