import OrgWeave.Run

/-!
# A disk of files and folders

A disk knows folders and files by their places, the lists of names that lead to them from
the root, and has a current folder. A file holds a text, or bytes that are no text. Everything
is in a folder, and there are no links : one place is never another name for what is at a second
one.

`Disk.read` reads the file that a path leads to; each name on the way has to be a folder.
`Disk.write` makes the folders on the way that are missing, from the left, and then
writes the file. It is refused where a file stands in place of a folder or a folder in
place of the file, and for names and paths too long for a file system; folders made and files
written before a refusal stay.

`Disk.run` and `Disk.runTexts` are runs on a disk. They write only after everything has
been woven.
-/

namespace OrgWeave

/-- The names that lead from the root to a file or folder. -/
abbrev Place := List Text

/-- A folder, or a file with its text if its bytes are one. -/
inductive Node
  | folder
  | file (text : Option Text)
  deriving DecidableEq, Repr

namespace Node

/-- What is at a place among nodes. The root is a folder. -/
def at? (nodes : List (Place × Node)) (place : Place) : Option Node :=
  if place = [] then some .folder else nodes.lookup place

def isFolderAt (nodes : List (Place × Node)) (place : Place) : Bool :=
  at? nodes place == some .folder

/-- The nodes with another one at a place. -/
def putAt (nodes : List (Place × Node)) (place : Place) (node : Node) : List (Place × Node) :=
  (place, node) :: nodes.filter fun entry => entry.1 ≠ place

variable {nodes : List (Place × Node)} {place other : Place}

/-- A node is found at the place it was put. -/
theorem at?_putAt_self (nodes : List (Place × Node)) (node : Node) (h : place ≠ []) :
    at? (putAt nodes place node) place = some node := by
  simp [at?, putAt, h]

/-- Entries at one place do not matter at another. -/
theorem lookup_filter_of_ne (h : other ≠ place) : ∀ nodes : List (Place × Node),
    (nodes.filter fun entry => entry.1 ≠ place).lookup other = nodes.lookup other
  | [] => rfl
  | (p, _) :: nodes => by
    have ih := lookup_filter_of_ne h nodes
    by_cases hp : p = place
    · simpa [hp, List.lookup_cons, beq_eq_false_iff_ne.2 h] using ih
    · simp only [ne_eq, decide_not] at ih
      simp [hp, List.lookup_cons, ih]

/-- What is at other places stays. -/
theorem at?_putAt_of_ne (nodes : List (Place × Node)) (node : Node) (h : other ≠ place) :
    at? (putAt nodes place node) other = at? nodes other := by
  unfold at?
  split
  · rfl
  · rw [putAt, List.lookup_cons, beq_eq_false_iff_ne.2 h]
    exact lookup_filter_of_ne h nodes

/-- Folders stay folders if none of them is put away. -/
theorem isFolderAt_putAt (node : Node) (hplace : isFolderAt nodes place = false)
    (hother : isFolderAt nodes other = true) :
    isFolderAt (putAt nodes place node) other = true := by
  have hne : other ≠ place := by
    rintro rfl
    rw [hplace] at hother
    cases hother
  rwa [isFolderAt, at?_putAt_of_ne nodes node hne]

end Node

/-- Files and folders, all of them in folders, and one of the folders as the current one. A node is
at one place and is nothing but a folder or a file : there are no symbolic and no hard links. -/
structure Disk where
  current : Place
  nodes : List (Place × Node)
  isFolder_current : Node.isFolderAt nodes current = true
  isFolder_parent : ∀ entry ∈ nodes, Node.isFolderAt nodes entry.1.dropLast = true
  deriving DecidableEq, Repr

namespace Disk

/-- A disk with nothing on it but its current folder. -/
def empty (folder : Text) : Disk where
  current := [folder]
  nodes := [([folder], .folder)]
  isFolder_current := by simp [Node.isFolderAt, Node.at?]
  isFolder_parent := by simp [Node.isFolderAt, Node.at?]

/-- What is at a place. -/
def node? (d : Disk) (place : Place) : Option Node := Node.at? d.nodes place

def isFolder (d : Disk) (place : Place) : Bool := Node.isFolderAt d.nodes place

/-- Put a node at a place in a folder. A folder stays where it is, and where there is no folder to
put it in, nothing is put. -/
def put (d : Disk) (place : Place) (node : Node) : Disk :=
  if h : d.isFolder place.dropLast = true ∧ d.isFolder place = false then
    { current := d.current
      nodes := Node.putAt d.nodes place node
      isFolder_current := Node.isFolderAt_putAt node h.2 d.isFolder_current
      isFolder_parent := fun entry hentry => by
        rcases List.mem_cons.1 hentry with rfl | hentry
        · exact Node.isFolderAt_putAt node h.2 h.1
        · exact Node.isFolderAt_putAt node h.2
            (d.isFolder_parent entry (List.mem_filter.1 hentry).1) }
  else d

/-- Where a path starts. -/
def startOf (d : Disk) (p : Path) : Place := if p.isAbsolute then [] else d.current

/-- The name that leads to the folder above. -/
def above : Text := "..".toList

/-! ## Reading -/

/-- The place that names lead to from `place`, through folders only. -/
def walk (d : Disk) (place : Place) : List Text → Option Place
  | [] => some place
  | name :: names =>
    if d.isFolder place then
      walk d (if name = above then place.dropLast else place ++ [name]) names
    else none

/-- The node that a path leads to. -/
def nodeAt? (d : Disk) (p : Path) : Option Node := (d.walk (d.startOf p) p.names).bind d.node?

/-- The length of a text in bytes. -/
def byteLength (t : Text) : Nat := (t.map Char.utf8Size).foldl (· + ·) 0

/-- The longest path that a file system takes, in bytes. -/
def pathLimit : Nat := 4095

/-- Whether a path is too long as a whole, whatever it leads to. -/
def isOverlong (p : Path) : Bool := pathLimit < byteLength p.toText

/-- Read the text of the file that a path leads to. -/
def read (d : Disk) : Reader := fun path =>
  if '\x00' ∈ path then .error .nulInPath
  else if isOverlong (Path.ofText path) then .error (.badFilename path)
  else
    match d.nodeAt? (Path.ofText path) with
    | some (.file (some text)) => .ok text
    | _ => .error (.badFilename path)

/-! ## Writing -/

/-- The longest name that a file can have, in bytes. -/
def nameLimit : Nat := 255

def tooLong (name : Text) : Bool := nameLimit < byteLength name

/-- Make the folders on the way from `place` that are missing. The place they lead to is
absent if a file stands in the way. -/
def makeFolders (d : Disk) (place : Place) : List Text → Disk × Option Place
  | [] => (d, some place)
  | name :: names =>
    if name = above then makeFolders d place.dropLast names
    else
      match d.node? (place ++ [name]) with
      | some .folder => makeFolders d (place ++ [name]) names
      | some (.file _) => (d, none)
      | none =>
        if tooLong name then (d, none)
        else makeFolders (d.put (place ++ [name]) .folder) (place ++ [name]) names

/-- Write a file with the given name into the folder at `place`. -/
def writeIn (d : Disk) (place : Place) (name : Text) (content : Option Text) :
    Disk × Except Error Unit :=
  if '\x00' ∈ name then (d, .error .nulInPath)
  else if name = above ∨ tooLong name then (d, .error .refusedBySystem)
  else if d.isFolder (place ++ [name]) then (d, .error .refusedBySystem)
  else (d.put (place ++ [name]) (.file content), .ok ())

/-- Write a file, with the folders that it needs. -/
def writeContent (d : Disk) (p : Path) (content : Option Text) : Disk × Except Error Unit :=
  match p.names.getLast? with
  | none => (d, .error .refusedBySystem)
  | some name =>
    if p.folder.names.any (·.contains '\x00') then (d, .error .nulInPath)
    else if isOverlong p.folder then (d, .error .refusedBySystem)
    else
      match d.makeFolders (d.startOf p) p.folder.names with
      | (d, none) => (d, .error .refusedBySystem)
      | (d, some place) =>
        if '\x00' ∉ name ∧ isOverlong p then (d, .error .refusedBySystem)
        else d.writeIn place name content

def write (d : Disk) (p : Path) (text : Text) : Disk × Except Error Unit :=
  d.writeContent p (some text)

/-- Write files one after another, up to the first refusal. -/
def writeAll (d : Disk) : List (Path × Text) → Disk × Except Error Unit
  | [] => (d, .ok ())
  | (p, text) :: rest =>
    match d.write p text with
    | (d, .error e) => (d, .error e)
    | (d, .ok ()) => writeAll d rest

/-- Write the files that come with a result. -/
def deliver {α : Type} (d : Disk) (files : α → List (Path × Text)) (result : Except Error α) :
    Disk × Except Error α :=
  match result with
  | .error e => (d, .error e)
  | .ok a =>
    match d.writeAll (files a) with
    | (d, .error e) => (d, .error e)
    | (d, .ok ()) => (d, .ok a)

/-! ## Runs -/

/-- Answer request flags over documents on the disk. -/
def run (d : Disk) (paths : List Text) (flags : Text) (root : Path) :
    Disk × Except Error Outcome :=
  d.deliver (·.files) (OrgWeave.run d.read paths flags root)

/-- Answer request flags over the given documents, and those on the disk that the flags
add. -/
def runTexts (d : Disk) (docs : List (Text × Text)) (flags : Text) (root : Path) :
    Disk × Except Error Outcome :=
  d.deliver (·.files) (OrgWeave.runTexts d.read docs flags root)

/-! ## Changes -/

/-- The current folder as a path from the root. -/
def currentPath (d : Disk) : Path := ⟨['/'], d.current⟩

/-- The files in the current folder that are new or changed since `before`, by path. -/
def changes (before d : Disk) : List (Text × Text) :=
  let changed := d.nodes.filterMap fun (place, node) =>
    match node with
    | .file (some text) =>
      if before.node? place = some node ∨ ¬d.current.isPrefixOf place then none
      else some (Text.join ['/'] (place.drop d.current.length), text)
    | _ => none
  changed.mergeSort fun r s => Text.atMost r.1 s.1

end Disk

end OrgWeave
