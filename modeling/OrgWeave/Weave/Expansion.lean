import OrgWeave.Gather
import OrgWeave.Params
import OrgWeave.Weave.Marker
import OrgWeave.Weave.Options

/-!
# Expanding bodies

`Graph.expand` turns the bodies of a block into lines. A line with a marker is replaced
by the expansion of the block it names, indented by what stands before the marker, or, if
it calls the self name, by the answer to a request of its own (`Graph.selfInclusion`) :
the lines that include files, then each block of its closure. All other lines lose an
escaping comma and are indented.

Each level of nesting takes one from the levels left, and a block that is reached with
none left is an error; so a circle of markers ends in an error too. A name that is not
known is reported first.

`emit` is the walk that weaving in general shares : names in order, each at most once,
where a name that has been emitted covers its contributors.
-/

namespace OrgWeave

/-! ## Emitting names -/

/-- The names emitted so far. -/
abbrev Emitted := List Text

/-- Count a name and its contributors as emitted. -/
def Emitted.mark (g : Graph) (done : Emitted) (name : Text) : Emitted :=
  (name :: g.contributors name).foldl (fun names n => names.insert n) done

variable {α : Type}

/-- What `weave` makes of each name that is not emitted yet, in order, and the names
emitted afterwards. Names without a body add nothing. After a failure, the names before
the failing one are the last ones marked. -/
def emit (g : Graph) (weave : Text → Except Error (List α)) :
    Emitted → List Text → Except Error (List α) × Emitted
  | done, [] => (.ok [], done)
  | done, name :: names =>
    if name ∈ done then emit g weave done names
    else
      match if g.spans name = [] then .ok [] else weave name with
      | .error e => (.error e, done)
      | .ok head =>
        let (tail, after) := emit g weave (done.mark g name) names
        (tail.map (head ++ ·), after)

/-! ## Expansion -/

namespace Graph

/-- The error of a block that is reached without a level left. -/
def tooDeep (o : WeaveOptions) (name : Text) : Error := .depthExceeded .weaving o.maxDepth name

/-- A call of the self name as messages show it. -/
def callText (o : WeaveOptions) (flags : Text) : Text := o.selfName ++ '(' :: flags ++ [')']

/-- The lines that answer a request made inside a body, with `levels` levels left. The
blocks of its closure are woven by `weave`. -/
def selfInclusion (g : Graph) (o : WeaveOptions) (weave : Text → Text → Except Error (List Line))
    (levels : Nat) (lead flags : Text) : Except Error (List Line) :=
  if levels = 0 then .error (tooDeep o (callText o flags))
  else do
    let p ← Params.ofText? flags
    let names := p.values Vocabulary.nestedKey
    checkAll g.require names
    let r ← g.resolve names (p.values Vocabulary.externalKey) o.resolutionDepth
    let inclusions ← o.inclusionLines lead r.external
    let blocks ← (emit g (weave lead) [] r.names).1
    .ok (inclusions ++ blocks)

/-- The lines that a line of a body comes to, with `levels` levels left. What it names is
woven by `weave`. -/
def expandLine (g : Graph) (o : WeaveOptions) (weave : Text → Text → Except Error (List Line))
    (levels : Nat) (lead : Text) (expandsMarkers : Bool) (l : Line) : Except Error (List Line) :=
  match Marker.role o.selfName expandsMarkers l with
  | .text => .ok [Text.indent lead (unescape l)]
  | .reference indent target => weave (lead ++ indent) target
  | .request indent flags => selfInclusion g o weave levels (lead ++ indent) flags

/-- The lines that a body comes to. -/
def expandBody (g : Graph) (o : WeaveOptions) (weave : Text → Text → Except Error (List Line))
    (levels : Nat) (lead : Text) (span : BodySpan) : Except Error (List Line) :=
  gather (g.expandLine o weave levels lead span.expandsMarkers) (g.bodyLines span)

/-- The lines of a block, indented by `lead`, with `levels` levels of nesting left. -/
def expand (g : Graph) (o : WeaveOptions) : Nat → Text → Text → Except Error (List Line)
  | 0, _, name => do
    g.require name
    .error (tooDeep o name)
  | levels + 1, lead, name => do
    g.require name
    gather (g.expandBody o (expand g o levels) levels lead) (g.spans name)

/-- The lines of a block at the outermost level. -/
def weaveBlock (g : Graph) (o : WeaveOptions) (name : Text) : Except Error (List Line) :=
  g.expand o (o.levelsAt 0) [] name

/-- The lines that answer request flags inside a body at a depth. -/
def answer (g : Graph) (o : WeaveOptions) (flags lead : Text) (depth : Int) :
    Except Error (List Line) :=
  g.selfInclusion o (g.expand o (o.levelsAt depth)) (o.levelsAt depth) lead flags

end Graph

end OrgWeave
