import OrgWeave.Command.Arguments
import OrgWeave.Disk

/-!
# Responses of a command

What a command comes to : an exit status, what goes to standard output and standard error,
and the files to be written before anything is printed.
-/

namespace OrgWeave

structure Response where
  status : Nat
  stdout : Text
  stderr : Text
  files : List (Path × Text)
  deriving DecidableEq, Repr

namespace Response

/-- A response that only prints. -/
def printing (status : Nat) (stdout : Text) : Response := ⟨status, stdout, [], []⟩

/-- The response to a command line that cannot be used, or that asks for help. -/
def ofStop : Stop → Response
  | .help => printing 0 []
  | .misuse => printing 2 []

/-- Answer a command line with the options of a command. -/
def ofArguments (specs : List OptionSpec) (args : List Text)
    (answer : Arguments → Except Error Response) : Except Error Response :=
  match Arguments.ofList specs args with
  | .error stop => .ok (ofStop stop)
  | .ok a => answer a

/-- A text on a line of its own. -/
def line (t : Text) : Text := t ++ ['\n']

end Response

/-- The option that every command has. -/
def helpOption : OptionSpec := ⟨["-h".toList, "--help".toList], .help, []⟩

/-- A switch with a long name that cannot stand beside the switches `excludes`. -/
def longSwitch (name : Text) (excludes : List Text) : OptionSpec := ⟨[name], .switch, excludes⟩

end OrgWeave
