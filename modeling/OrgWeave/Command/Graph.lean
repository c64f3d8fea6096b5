import OrgWeave.Command.Response
import OrgWeave.Report.Graph

/-!
# The graph command

`graph DOCUMENTS` prints the summary of the block graph of documents as JSON, or all of
the graph with `--json`. `--report-out` also writes all of it to a file. A diagnostic is
printed as JSON too.
-/

namespace OrgWeave.GraphCommand

def reportOption : Text := "--report-out".toList

def jsonOption : Text := "--json".toList

def options : List OptionSpec := [helpOption, ⟨[reportOption], .value, []⟩, longSwitch jsonOption []]

/-- What is printed of a diagnostic. -/
def failureJson (e : Error) : Json :=
  .object
    [("status".toList, .text "fail".toList), ("kind".toList, .text (e.kind?.getD [])),
      ("message".toList, .text e.message)]

/-- The block graph of the documents at `paths`. -/
def graphAt (read : Reader) (paths : List Text) : Except Error Graph := do
  let docs ← readDocuments read paths
  Graph.ofCorpus (Corpus.ofTexts docs) true

/-- The response on the graph of some documents. -/
def report (a : Arguments) (g : Graph) : Except Error Response := do
  let all ← g.toJson
  let files := ((a.values.get? reportOption).map fun path =>
    (Path.ofText path, Response.line all.pretty)).toList
  .ok ⟨0, Response.line (if a.has jsonOption then all else g.summaryJson).pretty, [], files⟩

/-- The paths that are read to answer a command line. -/
def sources (args : List Text) : List Text :=
  match Arguments.ofList options args with
  | .ok a => a.positionals.map fun path => (Path.ofText path).toText
  | .error _ => []

/-- The response to a command line. -/
def respond (read : Reader) (args : List Text) : Except Error Response :=
  Response.ofArguments options args fun a =>
    match a.runs with
    | [paths] =>
      match graphAt read (paths.map fun path => (Path.ofText path).toText) with
      | .ok g => report a g
      | .error e =>
        if e.isDiagnostic then .ok (.printing 1 (Response.line (failureJson e).pretty)) else .error e
    | _ => .ok (.ofStop .misuse)

end OrgWeave.GraphCommand
