import OrgWeave.Command.Response
import OrgWeave.Text.Literal

/-!
# The include command

`include DOCUMENTS FLAGS` prints what a request comes to over documents, whose paths are
separated by white space in one argument, or writes its tangle targets below `--root`. A
diagnostic is printed as an error directive, so that a compiler that includes the output
reports it; the exit status tells of it only if the flags ask for that.
-/

namespace OrgWeave.IncludeCommand

/-- The exit status of a run that failed and was asked to show it. -/
def errorStatus : Nat := 23

def rootOption : Text := "--root".toList

def options : List OptionSpec :=
  [helpOption, ⟨[rootOption], .value, []⟩, ⟨["-v".toList, "--verbose".toList], .switch, []⟩]

/-- The response to request flags over documents. -/
def answer (read : Reader) (documents flags : Text) (root : Path) : Except Error Response :=
  match run read (Text.words documents) flags root with
  | .ok outcome => .ok ⟨0, outcome.stdout, [], outcome.files⟩
  | .error e =>
    if e.isDiagnostic then
      .ok
        (.printing (if Request.asksForErrorStatus flags then errorStatus else 0)
          (Text.errorLine e.message))
    else .error e

/-- The paths that are read to answer a command line. -/
def sources (args : List Text) : List Text :=
  match Arguments.ofList options args with
  | .ok a =>
    match a.pair? with
    | some (documents, flags) => sourcesOf (Text.words documents) flags
    | none => []
  | .error _ => []

/-- The response to a command line. -/
def respond (read : Reader) (args : List Text) : Except Error Response :=
  Response.ofArguments options args fun a =>
    match a.pair? with
    | some (documents, flags) =>
      answer read documents flags (((a.values.get? rootOption).map Path.ofText).getD .here)
    | none => .ok (.ofStop .misuse)

end OrgWeave.IncludeCommand
