import OrgWeave.Graph.Basic

/-!
# Closing a request

`Graph.resolve` closes a list of names over the nested references of their records, depth
first. A name is put into the order after everything that it refers to, and it is visited
once, also when references go round in a circle. References to files are collected in the
order of discovery, and the requested ones come last.

Contributors are printed with their aggregate. Once an aggregate is visited they count
as seen and are not put into the order on their own.

References may not nest deeper than a ceiling. `visit` counts down the levels left.
-/

namespace OrgWeave

/-- The closure of a request : references to files, names in the order of printing, and
those of the names that have no body of their own. -/
structure Resolution where
  external : List Text
  names : List Text
  spontaneous : List Text
  deriving DecidableEq, Repr

/-- A closure in progress. `seen` are the names that need no further visit. -/
structure Trail where
  seen : List Text
  external : List Text
  names : List Text
  spontaneous : List Text
  deriving DecidableEq, Repr

namespace Trail

def empty : Trail := ⟨[], [], [], []⟩

/-- Note a reference to a file, at most once. -/
def addExternal (t : Trail) (ref : Text) : Trail :=
  if ref ∈ t.external then t else { t with external := t.external ++ [ref] }

/-- Arrive at a name that is not seen yet. -/
def enter (g : Graph) (t : Trail) (name : Text) : Trail :=
  let noted := (g.record name).external.foldl addExternal t
  { noted with
    seen := name :: g.contributors name ++ t.seen
    spontaneous := if g.spans name = [] then t.spontaneous ++ [name] else t.spontaneous }

/-- Put a name into the order. -/
def leave (t : Trail) (name : Text) : Trail := { t with names := t.names ++ [name] }

/-- Run `f` on the names, one after another; the first failure wins. -/
def visitAll (f : Trail → Text → Except Error Trail) (t : Trail) : List Text → Except Error Trail
  | [] => .ok t
  | name :: rest => do
    let t ← f t name
    visitAll f t rest

/-- A run over two lists of names is a run over one after the other. -/
theorem visitAll_append (f : Trail → Text → Except Error Trail) (names others : List Text) :
    ∀ t : Trail, visitAll f t (names ++ others) =
      visitAll f t names >>= fun t => visitAll f t others := by
  induction names with
  | nil => exact fun _ => rfl
  | cons name rest ih =>
    intro t
    simp only [List.cons_append, visitAll, bind, Except.bind] at ih ⊢
    cases f t name with
    | error e => rfl
    | ok t => exact ih t

def toResolution (t : Trail) : Resolution := ⟨t.external, t.names, t.spontaneous⟩

end Trail

namespace Graph

/-- Visit a name and all that it refers to, on `levels` nested levels at most. -/
def visit (g : Graph) (ceiling : Int) : Nat → Trail → Text → Except Error Trail
  | 0, t, name =>
    if name ∈ t.seen then .ok t else .error (.depthExceeded .resolution ceiling name)
  | levels + 1, t, name =>
    if name ∈ t.seen then .ok t
    else do
      let t ← Trail.visitAll (visit g ceiling levels) (t.enter g name) (g.record name).nested
      .ok (t.leave name)

/-- Close a request over the graph. References nest on the levels 0 to `ceiling`. -/
def resolve (g : Graph) (names external : List Text) (ceiling : Int) : Except Error Resolution := do
  let t ← Trail.visitAll (g.visit ceiling (ceiling + 1).toNat) .empty names
  .ok (external.foldl Trail.addExternal t).toResolution

/-- The ceiling of references unless another one is asked for. -/
def defaultResolutionDepth : Int := 256

end Graph

end OrgWeave
