import OrgWeave.Text.Lines

/-!
# Errors

Everything that can go wrong, by its cause. The first nine causes are diagnostics about
documents, requests and files (`isDiagnostic`), each with the name it is reported under
(`kind`); the others are faults of a caller : a position outside a range, a field that
breaks the invariant of its type, an inclusion template that cannot be filled in, a path
that no file can have, or a refusal of the file system. `message` words all of them.
-/

namespace OrgWeave

/-- What is declared at most once for a name. -/
inductive Declared
  | block
  | dependency
  | tangleTarget
  deriving DecidableEq, Repr

/-- The two recursions with a ceiling. -/
inductive Stage
  | resolution
  | weaving
  deriving DecidableEq, Repr

/-- Flags that exclude one another. -/
inductive Conflict
  | literalWithReferences
  | tangleWithRequest
  deriving DecidableEq, Repr

/-- What a request lacks. -/
inductive Missing
  | flags
  | subject
  deriving DecidableEq, Repr

/-- A field outside the values its type admits. -/
inductive BadField
  | opening (n : Int)
  | bodyStart
  | start (n : Int)
  | stop (stop start : Int)
  | level (n : Int)
  | maxDepth (n : Int)
  | template
  deriving DecidableEq, Repr

/-- Why an inclusion template cannot be filled in. -/
inductive TemplateFault
  | loneOpening
  | loneClosing
  | unclosedField
  | nestedField
  | unnamedField (index : Nat)
  | hugeIndex
  | unknownField (name : Text)
  deriving DecidableEq, Repr

inductive Error
  | malformedParameters (text : Text)
  | duplicate (what : Declared) (name location : Text)
  | unknownBlock (name : Text) (known : List Text)
  | depthExceeded (stage : Stage) (ceiling : Int) (name : Text)
  | conflictingFlags (conflict : Conflict)
  | missingFlags (missing : Missing)
  | invalidMaxDepth (values : List Text)
  | badFilename (path : Text)
  | unparsableLine (index : Int) (line : Line)
  | noSuchLine
  | outsideWindow
  | zeroStep
  | outsideCorpus (index : Int)
  | badField (field : BadField)
  | template (fault : TemplateFault)
  | nulInPath
  | refusedBySystem
  deriving DecidableEq, Repr

namespace Error

/-- The largest nesting ceiling that a request may ask for. -/
def depthLimit : Nat := 100

/-- The text between backticks. -/
def ticked (t : Text) : Text := "`".toList ++ t ++ "`".toList

def declaredText : Declared → Text
  | .block => "named code block".toList
  | .dependency => "dependency".toList
  | .tangleTarget => "tangle target".toList

def stageText : Stage → Text
  | .resolution => "dependency resolution".toList
  | .weaving => "noweb inclusion".toList

def badFieldText : BadField → Text
  | .opening n => "opening must be >= 0, got ".toList ++ Text.ofInt n
  | .bodyStart => "start must directly follow opening".toList
  | .start n => "start must be >= 0, got ".toList ++ Text.ofInt n
  | .stop stop start =>
    "end must be >= start, got ".toList ++ Text.ofInt stop ++ " < ".toList ++ Text.ofInt start
  | .level n => "level must be > 0, got ".toList ++ Text.ofInt n
  | .maxDepth n =>
    "max_depth must be between 0 and ".toList ++ Text.ofNat depthLimit ++ ", got ".toList ++
      Text.ofInt n
  | .template => "inclusion_template must contain \x7bref\x7d".toList

def templateText : TemplateFault → Text
  | .loneOpening => "Single '\x7b' encountered in format string".toList
  | .loneClosing => "Single '\x7d' encountered in format string".toList
  | .unclosedField => "expected '\x7d' before end of string".toList
  | .nestedField => "unexpected '\x7b' in field name".toList
  | .unnamedField index =>
    "Replacement index ".toList ++ Text.ofNat index ++
      " out of range for positional args tuple".toList
  | .hugeIndex => "Too many decimal digits in format string".toList
  | .unknownField name => name

/-- The wording of an error. -/
def message : Error → Text
  | .malformedParameters text =>
    "Parameters string ".toList ++ ticked text ++ " does not start with `:`.".toList
  | .duplicate what name location =>
    "Duplicated ".toList ++ declaredText what ++ [' '] ++ ticked name ++
      (if location = [] then [] else " (".toList ++ location ++ [')']) ++ ['.']
  | .unknownBlock name known =>
    "Cannot find code block named ".toList ++ ticked name ++ ", I only know of [".toList ++
      Text.join ", ".toList (known.map ticked) ++ "].".toList
  | .depthExceeded stage ceiling name =>
    "Maximum ".toList ++ stageText stage ++ " depth reached (".toList ++ Text.ofInt ceiling ++
      ") while expanding ".toList ++ ticked name ++
      ". Check for recursive noweb inclusions or increase :max-depth.".toList
  | .conflictingFlags .literalWithReferences =>
    ":c-string is incompatible with :cpp, it should only be used with :noweb.".toList
  | .conflictingFlags .tangleWithRequest =>
    ":tangle is incompatible with :cpp and :noweb.".toList
  | .missingFlags .flags => "You must provide flags using the noweb syntax.".toList
  | .missingFlags .subject =>
    "At least one of the following flags is required: :cpp, :noweb, :tangle.".toList
  | .invalidMaxDepth values =>
    ":max-depth expects a single integer between 0 and ".toList ++ Text.ofNat depthLimit ++
      ", got ".toList ++ ticked (Text.unwords values) ++ ['.']
  | .badFilename path => "Bad filename (".toList ++ path ++ ").".toList
  | .unparsableLine index line =>
    "Could not parse line ".toList ++ Text.ofInt index ++ ": ".toList ++
      ticked (Text.stripRight line) ++ ['.']
  | .noSuchLine => "list index out of range".toList
  | .outsideWindow => "line view index out of range".toList
  | .zeroStep => "slice step cannot be zero".toList
  | .outsideCorpus index => "corpus index out of range: ".toList ++ Text.ofInt index
  | .badField field => badFieldText field
  | .template fault => templateText fault
  | .nulInPath => "embedded null byte".toList
  | .refusedBySystem => "the file system refused the operation".toList

/-- The name under which a diagnostic is reported; no other error has one. -/
def kind? : Error → Option Text
  | .malformedParameters _ => some "MalformedParameterString".toList
  | .duplicate .. => some "DuplicateDeclaration".toList
  | .unknownBlock .. => some "UnknownBlockName".toList
  | .depthExceeded .. => some "DepthExceeded".toList
  | .conflictingFlags _ => some "ConflictingFlags".toList
  | .missingFlags _ => some "MissingFlags".toList
  | .invalidMaxDepth _ => some "InvalidFlagValue".toList
  | .badFilename _ => some "BadFilename".toList
  | .unparsableLine .. => some "UnparsableLine".toList
  | _ => none

/-- Whether the error is a diagnostic about a document, a request or a file. -/
def isDiagnostic (e : Error) : Bool := e.kind?.isSome

end Error

end OrgWeave
