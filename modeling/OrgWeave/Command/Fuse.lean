import OrgWeave.Command.Response
import OrgWeave.Org.Document
import OrgWeave.Report.Elements

/-!
# The fuse command

`fuse DOCUMENT` parses a document and prints its elements put together again, which is
the document. `--dump` prints each element in short instead, and `--json` all of them as
JSON.
-/

namespace OrgWeave.FuseCommand

open Org

def dumpOption : Text := "--dump".toList

def jsonOption : Text := "--json".toList

def options : List OptionSpec :=
  [helpOption, longSwitch dumpOption [jsonOption], longSwitch jsonOption [dumpOption]]

/-- An element in short, its kind in front and each of its texts between marks. -/
def dumpElement (e : Element) : Text :=
  Response.line (e.content.typeName ++ [' ', '\x7b']) ++
    e.outline.flatMap (fun t => Response.line ("    ^".toList ++ t ++ ['$'])) ++
    Response.line ['\x7d']

/-- What the command prints of the elements of a document. -/
def shown (a : Arguments) (es : List Element) : Text :=
  if a.has jsonOption then Response.line (elementsJson es).pretty
  else if a.has dumpOption then es.flatMap dumpElement
  else (elementLines es).flatten

/-- The elements of the document at a path. -/
def elementsAt (read : Reader) (path : Text) : Except Error (List Element) := do
  let text ← read path
  parse Rule.order 0 (Text.splitLines text)

/-- The paths that are read to answer a command line. -/
def sources (args : List Text) : List Text :=
  match Arguments.ofList options args with
  | .ok a => a.positionals.map fun path => (Path.ofText path).toText
  | .error _ => []

/-- The response to a command line. -/
def respond (read : Reader) (args : List Text) : Except Error Response :=
  Response.ofArguments options args fun a =>
    match a.positionals with
    | [path] =>
      match elementsAt read (Path.ofText path).toText with
      | .ok es => .ok (.printing 0 (shown a es))
      | .error e =>
        if e.isDiagnostic then .ok ⟨1, [], Response.line e.message, []⟩ else .error e
    | _ => .ok (.ofStop .misuse)

end OrgWeave.FuseCommand
