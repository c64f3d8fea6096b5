import OrgWeave.Json
import OrgWeave.Org.Element

/-!
# Reports on elements

The elements of a document as JSON (`elementsJson`) : of each its kind, its place and what
was read off its lines, but not the lines themselves.
-/

namespace OrgWeave.Org

/-- Keys with their values, each a pair of a text and a list. -/
def paramsJson (p : Params) : Json := .list (p.map fun row => .list [.text row.1, .texts row.2])

/-- What was read off the lines of a content. -/
def Content.fields : Content → List (Text × Json)
  | .heading h => [("level".toList, .int h.level), ("title".toList, .text h.title)]
  | .keyword name value _ => [("name".toList, .text name), ("raw_value".toList, .text value)]
  | .block kind _ _ _ => [("kind".toList, .text kind)]
  | .source header _ _ _ =>
    [("language".toList, .text header.language), ("parameters".toList, paramsJson header.params)]
  | .prose _ => []
  | .blank _ => []

def Element.toJson (e : Element) : Json :=
  .object
    (("type".toList, .text e.content.typeName) :: ("start".toList, .int e.start) ::
      ("line_count".toList, .int e.lines.length) :: e.content.fields)

def elementsJson (es : List Element) : Json := .list (es.map (·.toJson))

end OrgWeave.Org
