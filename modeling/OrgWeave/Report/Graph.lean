import OrgWeave.Graph.Basic
import OrgWeave.Json

/-!
# Reports on block graphs

`Graph.toJson` shows all of a graph, and `Graph.summaryJson` counts what it holds and lists
the references that lead to names of which nothing is declared (`undeclaredRefs`). Names
come by code points, tangle targets in the order of declaration.
-/

namespace OrgWeave

namespace Graph

variable (g : Graph)

/-- The nested references to unknown names, each once, by code points. -/
def undeclaredRefs : List Text :=
  let names := g.dependencies.flatMap fun row => row.2.nested
  Text.sorted (names.filter fun name => !g.isKnown name)

/-- The number of bodies, those with several names counted under each. -/
def spanCount : Nat := (g.blocks.map fun row => row.2.length).foldl (· + ·) 0

/-! ## As JSON -/

def spanJson (span : BodySpan) : Except Error Json := do
  let location ← g.corpus.describe span.opening
  .ok
    (.object
      [("opening".toList, .int span.opening), ("start".toList, .int span.start),
        ("end".toList, .int span.stop), ("expand_markers".toList, .bool span.expandsMarkers),
        ("location".toList, .text location)])

def spansJson : List BodySpan → Except Error (List Json)
  | [] => .ok []
  | span :: spans => do
    let j ← g.spanJson span
    let js ← spansJson spans
    .ok (j :: js)

def blocksJson : Table (List BodySpan) → Except Error (List (Text × Json))
  | [] => .ok []
  | (name, spans) :: rows => do
    let js ← g.spansJson spans
    let rest ← blocksJson rows
    .ok ((name, .list js) :: rest)

def recordJson (r : Record) : Json :=
  .object [("external_refs".toList, .texts r.external), ("nested_refs".toList, .texts r.nested)]

def aggregatesJson : Json :=
  .object (g.aggregates.sortByKey.map fun row => (row.1, .texts row.2))

def tanglesJson : Json :=
  .list
    (g.tangles.map fun row =>
      .object [("name".toList, .text row.1), ("destination".toList, .text row.2)])

/-- All of a graph. -/
def toJson : Except Error Json := do
  let blocks ← g.blocksJson g.blocks.sortByKey
  .ok
    (.object
      [("blocks".toList, .object blocks),
        ("dependencies".toList,
          .object (g.dependencies.sortByKey.map fun row => (row.1, recordJson row.2))),
        ("aggregates".toList, g.aggregatesJson), ("tangles".toList, g.tanglesJson)])

/-- The sizes of a graph. -/
def countsJson : Json :=
  .object
    [("line_count".toList, .int g.corpus.lines.length),
      ("document_count".toList, .int g.corpus.documents.length),
      ("block_name_count".toList, .int g.blocks.length),
      ("body_span_count".toList, .int g.spanCount),
      ("dependency_record_count".toList, .int g.dependencies.length),
      ("aggregate_count".toList, .int g.aggregates.length),
      ("tangle_target_count".toList, .int g.tangles.length)]

/-- A graph in short. -/
def summaryJson : Json :=
  .object
    [("graph_stats".toList, g.countsJson), ("aggregates".toList, g.aggregatesJson),
      ("tangles".toList, g.tanglesJson),
      ("undeclared_nested_refs".toList, .texts g.undeclaredRefs)]

end Graph

end OrgWeave
