import OrgWeave.Corpus
import OrgWeave.Table

/-!
# The block graph

A block graph holds what the documents declare about names. A name can have bodies
(`BodySpan`, places in the corpus), a record of the references that it depends on
(`Record`), contributors whose bodies are part of its own (an aggregate), and a file to
which it is tangled. A name is known if it has bodies, a record or contributors.
-/

namespace OrgWeave

/-- The body of a source block : the lines after `opening` up to but not including `stop`,
which is the closing line, or the end of the corpus if the block is never closed. -/
structure BodySpan where
  opening : Nat
  stop : Nat
  expandsMarkers : Bool
  opening_lt_stop : opening < stop
  deriving DecidableEq, Repr

namespace BodySpan

/-- The first line of the body. -/
def start (s : BodySpan) : Nat := s.opening + 1

/-- The span with the given places, if they are in order. -/
def ofInts (opening start stop : Int) (expandsMarkers : Bool) : Except Error BodySpan :=
  if _ : opening < 0 then .error (.badField (.opening opening))
  else if _ : start ≠ opening + 1 then .error (.badField .bodyStart)
  else if _ : stop < start then .error (.badField (.stop stop start))
  else .ok ⟨opening.toNat, stop.toNat, expandsMarkers, by omega⟩

end BodySpan

/-- The references that a name depends on, in the order of declaration. -/
structure Record where
  external : List Text
  nested : List Text
  deriving DecidableEq, Repr

namespace Record

def empty : Record := ⟨[], []⟩

/-- The references of the first record, then those of the second. -/
def append (r s : Record) : Record := ⟨r.external ++ s.external, r.nested ++ s.nested⟩

end Record

structure Graph where
  corpus : Corpus
  blocks : Table (List BodySpan)
  dependencies : Table Record
  aggregates : Table (List Text)
  tangles : Table Text
  deriving DecidableEq, Repr

namespace Graph

variable (g : Graph)

/-- Whether anything but a tangle target is declared for the name. -/
def isKnown (name : Text) : Bool :=
  g.blocks.has name || g.dependencies.has name || g.aggregates.has name

def record (name : Text) : Record := (g.dependencies.get? name).getD .empty

def contributors (name : Text) : List Text := (g.aggregates.get? name).getD []

def spans (name : Text) : List BodySpan := (g.blocks.get? name).getD []

/-- A name that has a body is known. -/
theorem isKnown_of_mem_spans {name : Text} {span : BodySpan} (h : span ∈ g.spans name) :
    g.isKnown name = true := by
  unfold spans at h
  cases hget : g.blocks.get? name with
  | none => simp [hget] at h
  | some _ => simp [isKnown, Table.has, hget]

/-- The bodies of a name stand in a row of the table. -/
theorem exists_row_of_mem_spans {name : Text} {span : BodySpan} (h : span ∈ g.spans name) :
    ∃ row ∈ g.blocks, span ∈ row.2 := by
  unfold spans at h
  cases hget : g.blocks.get? name with
  | none => simp [hget] at h
  | some found =>
    obtain ⟨before, after, hrows, -⟩ := List.lookup_eq_some_iff.1 hget
    rw [hget, Option.getD_some] at h
    exact ⟨(name, found), by simp [hrows], h⟩

/-- The lines of a body. -/
def bodyLines (span : BodySpan) : List Line := g.corpus.slice span.start span.stop

/-- The known names, each once, by code points. -/
def knownNames : List Text :=
  Text.sorted (g.blocks.keys ++ g.dependencies.keys ++ g.aggregates.keys)

/-- Refuse a name that is not known. -/
def require (name : Text) : Except Error Unit :=
  if g.isKnown name then .ok () else .error (.unknownBlock name g.knownNames)

end Graph

end OrgWeave
