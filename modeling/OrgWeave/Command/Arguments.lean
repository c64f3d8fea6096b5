import OrgWeave.Table
import OrgWeave.Text.Digits

/-!
# Command line arguments

A command has options with short and long names, each a switch or one that takes a value,
and everything else on its command line is positional. `Arguments.ofList` sorts a command
line by these rules.

* A long name can be cut short as long as it fits one option only, and its value can
  follow after an equals sign. Short switches can be run together, with or without an
  equals sign after the first.
* After two dashes everything is positional. Before them, so is a lone dash, a negative
  number, and whatever starts with a dash, holds a space and fits no option.
* Positional arguments come in runs, with options in between. An argument that starts
  with a dash and fits no option is left over.

All arguments are told apart (`classify`) before the first one has an effect, and then
they take effect from left to right, up to the first one that cannot or that asks for help.
-/

namespace OrgWeave

inductive OptionKind
  | help
  | switch
  | value
  deriving DecidableEq, Repr

/-- An option : the names that it answers to, the first of which is its key, and the keys of
the options that cannot stand beside it. -/
structure OptionSpec where
  names : List Text
  kind : OptionKind
  excludes : List Text := []
  deriving DecidableEq, Repr

def OptionSpec.key (o : OptionSpec) : Text := o.names.headD []

/-- Why a command line is not answered in the usual way. -/
inductive Stop
  | help
  | misuse
  deriving DecidableEq, Repr

/-- What follows the name of an option in the same argument. -/
inductive Attached
  | nothing
  | afterLong (t : Text)
  | afterShort (t : Text)
  deriving DecidableEq, Repr

/-- What a single argument is. -/
inductive Argument
  | positional (t : Text)
  | leftover
  | option (spec : OptionSpec) (attached : Attached)
  deriving DecidableEq, Repr

/-- A sorted command line. While it is sorted, `run` is the run of positional arguments that
is still open, and `awaiting` the option whose value comes next. -/
structure Arguments where
  switches : List Text
  values : Table Text
  runs : List (List Text)
  run : List Text
  awaiting : Option Text
  hasLeftover : Bool
  deriving DecidableEq, Repr

namespace Arguments

def empty : Arguments := ⟨[], [], [], [], none, false⟩

def has (a : Arguments) (key : Text) : Bool := a.switches.contains key

def positionals (a : Arguments) : List Text := a.runs.flatten

/-! ## Telling arguments apart -/

/-- Two dashes, which end the options. -/
def endMark : Text := "--".toList

/-- The option that answers to a name. -/
def find? (specs : List OptionSpec) (name : Text) : Option OptionSpec :=
  specs.find? fun o => o.names.contains name

/-- The options with a name that starts with `t`, once for each such name. -/
def startingWith (specs : List OptionSpec) (t : Text) : List OptionSpec :=
  specs.flatMap fun o => (o.names.filter fun name => t.isPrefixOf name).map fun _ => o

/-- Whether a text is a minus sign and a number, whole or with a decimal point, with or
without a newline after it. -/
def isNegativeNumber (t : Text) : Bool :=
  match if t.getLast? = some '\n' then t.dropLast else t with
  | '-' :: digits@(_ :: _) =>
    match Text.splitFirst? ['.'] digits with
    | none => digits.all Text.isDecimal
    | some (whole, part) =>
      whole.all Text.isDecimal && !part.isEmpty && part.all Text.isDecimal
  | _ => false

/-- What follows a name in the same argument. -/
def attach (name t : Text) : Attached :=
  if endMark.isPrefixOf name then .afterLong t else .afterShort t

/-- The name and what is attached to it, on either side of the first equals sign. -/
def atEquals (t : Text) : Text × Attached :=
  match Text.splitFirst? ['='] t with
  | none => (t, .nothing)
  | some (name, value) => (name, attach name value)

/-- The options that an argument can be short for, with what is attached to them. -/
def candidates (specs : List OptionSpec) (t : Text) : List (OptionSpec × Attached) :=
  if endMark.isPrefixOf t then
    (startingWith specs (atEquals t).1).map fun o => (o, (atEquals t).2)
  else
    ((find? specs (t.take 2)).toList.map fun o => (o, .afterShort (t.drop 2))) ++
      (startingWith specs t).map fun o => (o, .nothing)

/-- What an argument in front of the end mark is. -/
def classify (specs : List OptionSpec) (t : Text) : Except Stop Argument :=
  if t.head? ≠ some '-' ∨ t = ['-'] then .ok (.positional t)
  else
    match find? specs t, find? specs (atEquals t).1 with
    | some o, _ => .ok (.option o .nothing)
    | none, some o => .ok (.option o (atEquals t).2)
    | none, none =>
      match candidates specs t with
      | [(o, attached)] => .ok (.option o attached)
      | _ :: _ :: _ => .error .misuse
      | [] => .ok (if isNegativeNumber t ∨ ' ' ∈ t then .positional t else .leftover)

/-! ## Effects -/

/-- End the run of positional arguments. -/
def closeRun (a : Arguments) : Arguments :=
  if a.run = [] then a else { a with runs := a.runs ++ [a.run], run := [] }

def addPositional (a : Arguments) (t : Text) : Arguments := { a with run := a.run ++ [t] }

def addValue (a : Arguments) (key v : Text) : Arguments :=
  { a.closeRun with values := a.values.insert key v, awaiting := none }

def addLeftover (a : Arguments) : Arguments := { a.closeRun with hasLeftover := true }

/-- Let an option take effect that has no value attached to it. -/
def addOption (a : Arguments) (o : OptionSpec) : Except Stop Arguments :=
  match o.kind with
  | .help => .error .help
  | .switch =>
    if o.excludes.any a.has then .error .misuse
    else .ok { a.closeRun with switches := o.key :: a.switches }
  | .value => .ok { a.closeRun with awaiting := some o.key }

def addOptions (a : Arguments) : List OptionSpec → Except Stop Arguments
  | [] => .ok a
  | o :: os => do
    let a ← addOption a o
    addOptions a os

/-- The switches that characters run together stand for. -/
def switchesOf (specs : List OptionSpec) : Text → Except Stop (List OptionSpec)
  | [] => .ok []
  | c :: cs =>
    match find? specs ['-', c] with
    | none => .error .misuse
    | some o => do
      let os ← switchesOf specs cs
      if o.kind = .value then .error .misuse else .ok (o :: os)

/-- Let an option take effect with what is attached to it. -/
def addAttached (specs : List OptionSpec) (a : Arguments) (o : OptionSpec) :
    Attached → Except Stop Arguments
  | .nothing => addOption a o
  | .afterLong t => if o.kind = .value then .ok (a.addValue o.key t) else .error .misuse
  | .afterShort t =>
    if o.kind = .value then .ok (a.addValue o.key t)
    else if t = [] then .error .misuse
    else do
      let os ← switchesOf specs t
      addOptions a (o :: os)

/-- Let arguments take effect, from left to right. -/
def addAll (specs : List OptionSpec) (a : Arguments) : List Argument → Except Stop Arguments
  | [] => .ok a
  | argument :: rest => do
    let a ←
      match a.awaiting, argument with
      | some key, .positional t => .ok (a.addValue key t)
      | some _, _ => .error .misuse
      | none, .positional t => .ok (a.addPositional t)
      | none, .leftover => .ok a.addLeftover
      | none, .option o attached => addAttached specs a o attached
    addAll specs a rest

/-- Take in the end mark and all that follows it. A mark that is next to no positional
argument is left over. -/
def addMarked (a : Arguments) : List Text → Arguments
  | [] => a.closeRun
  | _ :: rest =>
    let a := rest.foldl addPositional a
    if a.run = [] then a.addLeftover else a.closeRun

/-- Sort a command line. A value that is missing or an argument left over makes it
unusable. -/
def ofList (specs : List OptionSpec) (args : List Text) : Except Stop Arguments := do
  let arguments ← (args.takeWhile (· ≠ endMark)).mapM (classify specs)
  let a ← addAll specs empty arguments
  let sorted := a.addMarked (args.dropWhile (· ≠ endMark))
  if a.awaiting.isSome ∨ sorted.hasLeftover then .error .misuse else .ok sorted

/-- The positional arguments, if there are two. An end mark stands for no text if it comes
second in a run. -/
def pair? (a : Arguments) : Option (Text × Text) :=
  match a.runs with
  | [[s], [t]] => some (s, t)
  | [[s, t]] => some (s, if t = endMark then [] else t)
  | _ => none

end Arguments

end OrgWeave
