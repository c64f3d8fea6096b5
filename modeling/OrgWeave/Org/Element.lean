import OrgWeave.Org.Line

/-!
# Elements

A document is a sequence of elements : headings, prose, keyword lines, source blocks,
other blocks and runs of blank lines. An element knows the index of its first line and
keeps the lines it was read from (`Element.lines`), so the lines of all elements put
together are the document again. `Element.outline` is the short form of an element that
people read.
-/

namespace OrgWeave.Org

open Text

/-- What an element is made of. -/
inductive Content
  | heading (heading : Heading)
  | prose (lines : List Line)
  | keyword (name value : Text) (raw : Line)
  | block (kind : Text) (opening : Line) (body : List Line) (closing : Line)
  | source (header : Header) (opening : Line) (body : List Line) (closing : Line)
  | blank (lines : List Line)
  deriving DecidableEq, Repr

/-- A content and the index of its first line. Where the lines of a document are counted from
is up to the reader, so that an index can be negative. -/
structure Element where
  start : Int
  content : Content
  deriving DecidableEq, Repr

/-- The lines that a content was read from. -/
def Content.lines : Content → List Line
  | .heading h => [h.raw]
  | .keyword _ _ raw => [raw]
  | .prose ls => ls
  | .blank ls => ls
  | .block _ opening body closing => opening :: body ++ [closing]
  | .source _ opening body closing => opening :: body ++ [closing]

def Element.lines (e : Element) : List Line := e.content.lines

/-- The lines of a sequence of elements. -/
def elementLines (es : List Element) : List Line := es.flatMap (·.lines)

/-- Whether the element is a line that can hold a directive : a keyword line or the
opening of a source block. -/
def Element.holdsDirective (e : Element) : Bool :=
  match e.content with
  | .keyword .. => true
  | .source .. => true
  | _ => false

/-- The name of the element's kind. -/
def Content.typeName : Content → Text
  | .heading _ => "Section".toList
  | .prose _ => "Prose".toList
  | .keyword .. => "Metadata".toList
  | .block .. => "GenericBlock".toList
  | .source .. => "CodeBlock".toList
  | .blank _ => "Whitespace".toList

/-- The element in short, a few texts without terminators. -/
def Element.outline (e : Element) : List Text :=
  match e.content with
  | .heading h => ["level=".toList ++ ofNat h.level ++ ", title=".toList ++ h.title]
  | .keyword name value _ => [name ++ '=' :: value]
  | .prose ls => ls.map chomp
  | .blank ls => ls.map chomp
  | .block kind _ body _ => ("type=".toList ++ kind) :: body.map chomp
  | .source header _ body _ =>
    ("lang=".toList ++ header.language) :: ("Params=".toList ++ header.params.toText) ::
      body.map chomp

end OrgWeave.Org
