import OrgWeave.Params
import OrgWeave.Weave.Options

/-!
# Requests

A request is a parameter string of flags : `:noweb` and `:cpp` name the blocks and files
asked for, `:tangle` asks for the tangle targets in their place, `:c-string` for string
literals, `:defs` adds documents, `:max-depth` sets the ceiling of nested markers,
`:debug` and `:exit-with-error` stand alone, and other flags are kept apart.

`Request.ofText?` reads and checks the flags, in this order : there is something, it is a
parameter string, it asks for something, its flags go together, and its ceiling is a
number that is not too large. `asksForErrorStatus` finds `:exit-with-error` in any text,
for errors that come before the flags can be read.
-/

namespace OrgWeave

open Vocabulary

namespace Flag

def literal : Text := "c-string".toList
def tangle : Text := "tangle".toList
def documents : Text := "defs".toList
def maxDepth : Text := "max-depth".toList
def debug : Text := "debug".toList
def errorStatus : Text := "exit-with-error".toList

/-- The flags with a meaning. -/
def known : List Text :=
  [externalKey, nestedKey, literal, tangle, documents, maxDepth, debug, errorStatus]

end Flag

structure Request where
  external : List Text
  nested : List Text
  literal : Bool
  tangle : Bool
  documents : List Text
  maxDepth : Nat
  debug : Bool
  errorStatus : Bool
  unknownFlags : List Text
  maxDepth_le : maxDepth ≤ Error.depthLimit
  deriving DecidableEq, Repr

namespace Request

/-! ## Reading -/

/-- A ceiling of nested markers. -/
abbrev Ceiling := { n : Nat // n ≤ Error.depthLimit }

/-- The ceiling that the values of `:max-depth` ask for. -/
def readMaxDepth : Option (List Text) → Except Error Ceiling
  | none => .ok ⟨defaultWeaveDepth, by decide⟩
  | some values =>
    match values.map Text.toNat? with
    | [some n] => if h : n ≤ Error.depthLimit then .ok ⟨n, h⟩ else .error (.invalidMaxDepth values)
    | _ => .error (.invalidMaxDepth values)

/-- Refuse parameters that ask for nothing, or for things that do not go together. -/
def check (p : Params) : Except Error Unit :=
  let asksExternal := p.values externalKey ≠ []
  let asksNested := p.values nestedKey ≠ []
  if ¬asksExternal ∧ ¬asksNested ∧ ¬p.has Flag.tangle then .error (.missingFlags .subject)
  else if p.has Flag.literal ∧ asksExternal then .error (.conflictingFlags .literalWithReferences)
  else if p.has Flag.tangle ∧ (asksExternal ∨ asksNested) then
    .error (.conflictingFlags .tangleWithRequest)
  else .ok ()

/-- Read and check request flags. -/
def ofText? (flags : Text) : Except Error Request :=
  if Text.isBlank flags then .error (.missingFlags .flags)
  else do
    let p ← Params.ofText? flags
    check p
    let depth ← readMaxDepth (p.values? Flag.maxDepth)
    .ok
      { external := p.values externalKey
        nested := p.values nestedKey
        literal := p.has Flag.literal
        tangle := p.has Flag.tangle
        documents := p.values Flag.documents
        maxDepth := depth.val
        debug := p.has Flag.debug
        errorStatus := p.has Flag.errorStatus
        unknownFlags := p.keys.filter fun key => key ∉ Flag.known
        maxDepth_le := depth.property }

/-- How the request wants its blocks woven. -/
def weaveOptions (r : Request) : WeaveOptions where
  maxDepth := r.maxDepth
  literal := r.literal
  maxDepth_le := r.maxDepth_le

/-! ## Finding a flag in any text -/

/-- Whether `mark` stands in the text as a word, with white space or an end of the text on
either side. The flag tells whether white space or the start stands in front. -/
def holdsWord (mark : Text) : Bool → Text → Bool
  | _, [] => false
  | free, c :: cs =>
    (free && (Text.after? mark (c :: cs)).any fun rest => rest.head?.all Text.isSpace) ||
      holdsWord mark (Text.isSpace c) cs

/-- Whether a text asks for an error status, readable or not. -/
def asksForErrorStatus (flags : Text) : Bool := holdsWord (':' :: Flag.errorStatus) true flags

end Request

end OrgWeave
