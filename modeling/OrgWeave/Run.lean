import OrgWeave.Graph.Scan
import OrgWeave.Path
import OrgWeave.Request
import OrgWeave.Weave.Stream

/-!
# Runs

A run answers a request over documents : the documents become a corpus, the corpus a
block graph, and the graph either one text or, for a tangling request, the files to be
written (`Outcome`). Tangle targets are read off the documents only when the request
tangles.

A run does not touch any file by itself. It reads documents through a function from
paths to texts, and it hands back what is to be written, once all of it is known.
-/

namespace OrgWeave

/-- Reads the text of the file at a path. -/
abbrev Reader := Text → Except Error Text

/-- What comes out of a run : text for standard output with the resolution it answers, or
files to be written, in order. -/
structure Outcome where
  request : Request
  stdout : Text
  resolution : Option Resolution
  files : List (Path × Text)
  deriving DecidableEq, Repr

namespace Outcome

/-- The files of the targets. A destination that is not absolute is taken from `root`. -/
def filesOf (root : Path) (targets : List Target) : List (Path × Text) :=
  targets.map fun t => (root.append (Path.ofText t.destination), t.text)

/-- Answer a tangling request. -/
def tangled (request : Request) (g : Graph) (root : Path) : Except Error Outcome := do
  let targets ← g.targets request.weaveOptions
  .ok ⟨request, [], none, filesOf root targets⟩

/-- Answer a request for blocks and files. -/
def streamed (request : Request) (g : Graph) : Except Error Outcome := do
  checkAll g.require request.nested
  let r ← g.resolve request.nested request.external Graph.defaultResolutionDepth
  let text ← g.stream request.weaveOptions r
  .ok ⟨request, text, some r, []⟩

/-- Answer a request over a corpus. -/
def ofCorpus (request : Request) (c : Corpus) (root : Path) : Except Error Outcome := do
  let g ← Graph.ofCorpus c request.tangle
  if request.tangle then tangled request g root else streamed request g

end Outcome

/-! ## Documents -/

/-- The names of a list, then those of another, each at its first place only. -/
def mergeNames (names others : List Text) : List Text := (names ++ others).eraseDups

/-- Read documents; the first one that cannot be read is the failure. -/
def readDocuments (read : Reader) (paths : List Text) : Except Error (List (Text × Text)) :=
  gather (fun path => do
    let text ← read path
    .ok [(path, text)]) paths

/-- The paths of all documents that a run over `paths` reads. -/
def sourcesOf (paths : List Text) (flags : Text) : List Text :=
  match Request.ofText? flags with
  | .ok request => mergeNames paths request.documents
  | .error _ => []

/-- Answer request flags over the documents at `paths` and those that the flags add. -/
def run (read : Reader) (paths : List Text) (flags : Text) (root : Path) :
    Except Error Outcome := do
  let request ← Request.ofText? flags
  let docs ← readDocuments read (mergeNames paths request.documents)
  Outcome.ofCorpus request (Corpus.ofTexts docs) root

/-- Answer request flags over the given documents and those that the flags add under
other names. -/
def runTexts (read : Reader) (docs : List (Text × Text)) (flags : Text) (root : Path) :
    Except Error Outcome := do
  let request ← Request.ofText? flags
  let names := docs.map Prod.fst
  let others := (mergeNames names request.documents).filter fun name => name ∉ names
  let extra ← readDocuments read others
  Outcome.ofCorpus request (Corpus.ofTexts (docs ++ extra)) root

end OrgWeave
