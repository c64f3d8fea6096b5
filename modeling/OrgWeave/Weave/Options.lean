import OrgWeave.Closure
import OrgWeave.Vocabulary
import OrgWeave.Weave.Template

/-!
# Weaving options

How a request is woven : how deep markers may nest, whether a block comes out as a string
literal, which name asks for a request of its own, how a reference to a file is written,
and how deep references between blocks may nest.
-/

namespace OrgWeave

/-- The nesting of markers that is allowed unless another one is asked for. -/
def defaultWeaveDepth : Nat := 3

/-- How a reference to a file is written unless another template is given. -/
def defaultTemplate : Text := "#include <".toList ++ refPlace ++ ">\n".toList

/-- A reference written without another template. -/
theorem renderTemplate_default (ref : Text) : renderTemplate defaultTemplate ref =
    .ok ("#include <".toList ++ ref ++ ">\n".toList) :=
  rfl

structure WeaveOptions where
  maxDepth : Nat := defaultWeaveDepth
  literal : Bool := false
  selfName : Text := Vocabulary.selfName
  template : Text := defaultTemplate
  resolutionDepth : Int := Graph.defaultResolutionDepth
  maxDepth_le : maxDepth ≤ Error.depthLimit := by decide
  template_holds : Text.holds refPlace template = true := by decide
  deriving Repr

namespace WeaveOptions

/-- The options with the given fields, if the depth is within its limits and the template
names the reference. -/
def ofFields (maxDepth : Int) (literal : Bool) (selfName template : Text)
    (resolutionDepth : Int) : Except Error WeaveOptions :=
  if h : 0 ≤ maxDepth ∧ maxDepth ≤ Error.depthLimit then
    if t : Text.holds refPlace template = true then
      .ok
        { maxDepth := maxDepth.toNat, literal, selfName, template, resolutionDepth
          maxDepth_le := by omega
          template_holds := t }
    else .error (.badField .template)
  else .error (.badField (.maxDepth maxDepth))

/-- The lines that include files, each indented by `lead`. -/
def inclusionLines (o : WeaveOptions) (lead : Text) : List Text → Except Error (List Line)
  | [] => .ok []
  | ref :: refs => do
    let l ← renderTemplate o.template ref
    let ls ← inclusionLines o lead refs
    .ok (Text.indent lead l :: ls)

/-- The levels of nesting left for a block at a depth. -/
def levelsAt (o : WeaveOptions) (depth : Int) : Nat := ((o.maxDepth : Int) + 1 - depth).toNat

/-- At the outermost level there is one level more than markers may nest. -/
theorem levelsAt_zero (o : WeaveOptions) : o.levelsAt 0 = o.maxDepth + 1 := by
  unfold levelsAt
  omega

end WeaveOptions

end OrgWeave
