import OrgWeave.Command.Graph
import OrgWeave.Command.Fuse
import OrgWeave.Command.Include

/-!
# The program

`orgweave include|fuse|graph ARGUMENTS` answers one command line. What the command is to
read is read first, into a table of texts; the response is computed from the table; then
its files are written and its text is printed.
-/

namespace OrgWeave

/-- The text of a file, if it can be read and its bytes are text. -/
def loadText (path : Text) : IO (Except Error Text) := do
  if path.contains '\x00' then return .error .nulInPath
  try
    let bytes ← IO.FS.readBinFile (String.ofList (Path.ofText path).toText)
    match String.fromUTF8? bytes with
    | some s => return .ok s.toList
    | none => return .error (.badFilename path)
  catch _ => return .error (.badFilename path)

/-- A reader of the files at the given paths. -/
def loadAll (paths : List Text) : IO Reader := do
  let texts ← paths.mapM loadText
  let table := paths.zip texts
  return fun path => (table.lookup path).getD (.error (.badFilename path))

/-- Write a file, with the folders that it needs. -/
def saveText (p : Path) (text : Text) : IO Unit := do
  IO.FS.createDirAll (String.ofList p.folder.toText)
  IO.FS.writeFile (String.ofList p.toText) (String.ofList text)

/-- Carry out a response. -/
def perform (response : Except Error Response) : IO UInt32 := do
  match response with
  | .error e => throw (IO.userError (String.ofList e.message))
  | .ok r =>
    for (path, text) in r.files do
      saveText path text
    IO.print (String.ofList r.stdout)
    IO.eprint (String.ofList r.stderr)
    return r.status.toUInt32

/-- Answer a command line, the name of the command first. -/
def answerArguments (args : List Text) : IO UInt32 := do
  match args with
  | [] => return 2
  | command :: rest =>
    if command = "include".toList then
      let read ← loadAll (IncludeCommand.sources rest)
      perform (IncludeCommand.respond read rest)
    else if command = "fuse".toList then
      let read ← loadAll (FuseCommand.sources rest)
      perform (FuseCommand.respond read rest)
    else if command = "graph".toList then
      let read ← loadAll (GraphCommand.sources rest)
      perform (GraphCommand.respond read rest)
    else return 2

end OrgWeave

def main (args : List String) : IO UInt32 :=
  OrgWeave.answerArguments (args.map String.toList)
