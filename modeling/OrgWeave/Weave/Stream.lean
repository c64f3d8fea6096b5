import OrgWeave.Text.Literal
import OrgWeave.Weave.Expansion

/-!
# Woven text

A resolved request comes out as one text : the lines that include files, then the blocks
in the order of the closure (`Graph.stream`). Each block is its woven lines, or a string
literal of them. A tangle target is the text of the closure of a single name
(`Graph.targetText`), woven on its own, so that targets do not affect one another.
-/

namespace OrgWeave

/-- The text of a tangle target and the file it goes to. -/
structure Target where
  name : Text
  destination : Text
  text : Text
  deriving DecidableEq, Repr

namespace Graph

/-- A block as text. -/
def blockText (g : Graph) (o : WeaveOptions) (name : Text) : Except Error Text := do
  let ls ← g.weaveBlock o name
  .ok (if o.literal then Text.quoteLines ls else ls.flatten)

/-- The text of the blocks that are not emitted yet, in order, and the names emitted
afterwards. -/
def weaveBlocks (g : Graph) (o : WeaveOptions) (done : Emitted) (names : List Text) :
    Except Error Text × Emitted :=
  emit g (g.blockText o) done names

/-- The text of a resolved request. -/
def stream (g : Graph) (o : WeaveOptions) (r : Resolution) : Except Error Text := do
  let inclusions ← o.inclusionLines [] r.external
  let blocks ← (g.weaveBlocks o [] r.names).1
  .ok (inclusions.flatten ++ blocks)

/-- The text of a name and all that it depends on. -/
def targetText (g : Graph) (o : WeaveOptions) (name : Text) : Except Error Text := do
  g.require name
  let r ← g.resolve [name] [] o.resolutionDepth
  (g.weaveBlocks o [] r.names).1

/-- The declared tangle targets with their texts, in the order of declaration. -/
def targets (g : Graph) (o : WeaveOptions) : Except Error (List Target) :=
  gather (fun row => do
    let text ← g.targetText o row.1
    .ok [⟨row.1, row.2, text⟩]) g.tangles

end Graph

end OrgWeave
