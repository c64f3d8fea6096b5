import OrgWeave.Disk
import OrgWeave.Gather
import Mathlib.Data.List.Basic

/-!
# What writing leaves behind

As everything on a disk is in a folder and there are no links, it can be told from a path alone
where it leads : two dots go one folder up, and any other name goes into a folder
(`Disk.placeOf`). Writing makes the folders on the way, so that afterwards the path does lead
there.

`Disk.Keeps places d d'` says that between two disks no folder was lost and no file changed but
those at `places`. One write keeps all but the place that it writes to (`Disk.Written`), so of
several writes each path leads to the last text that was written at its place
(`Disk.of_writeAll`). What refuses a write is the file system, or a name that no file can have
(`Disk.refuses_of_writeAll`).
-/

namespace OrgWeave

/-- Where a name leads from a place. -/
def Place.step (place : Place) (name : Text) : Place :=
  if name = Disk.above then place.dropLast else place ++ [name]

namespace Disk

variable {d d' d'' : Disk} {place q : Place} {names : List Text} {name : Text} {p : Path}
  {content : Option Text} {node : Node} {places places' : List Place}

/-- The place that a path leads to if all folders on the way are there. -/
def placeOf (d : Disk) (p : Path) : Place := p.names.foldl Place.step (d.startOf p)

/-! ## Ways through folders -/

theorem isFolder_iff : d.isFolder place = true ↔ d.node? place = some .folder := by
  rw [isFolder, Node.isFolderAt, beq_iff_eq, node?]

/-- Whatever is on the disk is in a folder. -/
theorem isFolder_dropLast (h : d.node? place = some node) : d.isFolder place.dropLast = true := by
  unfold node? Node.at? at h
  split at h
  next hroot =>
    rw [hroot]
    rfl
  next =>
    obtain ⟨before, after, hnodes, -⟩ := List.lookup_eq_some_iff.1 h
    exact d.isFolder_parent (place, node) (by simp [hnodes])

/-- A node is found at the place it was put. -/
theorem node?_put_self (hfolder : d.isFolder place.dropLast = true)
    (hfree : d.isFolder place = false) : (d.put place node).node? place = some node := by
  have hne : place ≠ [] := by
    rintro rfl
    cases hfree
  rw [put, dif_pos ⟨hfolder, hfree⟩, node?, Node.at?_putAt_self d.nodes node hne]

/-- What is at other places stays. -/
theorem node?_put_of_ne (d : Disk) (node : Node) (h : q ≠ place) :
    (d.put place node).node? q = d.node? q := by
  unfold put
  split
  · exact Node.at?_putAt_of_ne d.nodes node h
  · rfl

theorem walk_cons (h : d.isFolder place = true) :
    d.walk place (name :: names) = d.walk (place.step name) names := by
  rw [walk, if_pos h, Place.step]

/-- A path goes where its names lead, one after another. -/
theorem eq_foldl_of_walk (h : d.walk place names = some q) : q = names.foldl Place.step place := by
  induction names generalizing place with
  | nil => exact (Option.some.inj h).symm
  | cons name names ih =>
    by_cases hfolder : d.isFolder place = true
    · rw [walk_cons hfolder] at h
      exact ih h
    · rw [walk, if_neg hfolder] at h
      cases h

theorem walk_append_singleton (h : d.walk place names = some q) (hq : d.isFolder q = true) :
    d.walk place (names ++ [name]) = some (q.step name) := by
  induction names generalizing place with
  | nil =>
    cases h
    rw [List.nil_append, walk_cons hq, walk]
  | cons name' names ih =>
    by_cases hfolder : d.isFolder place = true
    · rw [walk_cons hfolder] at h
      rw [List.cons_append, walk_cons hfolder]
      exact ih h
    · rw [walk, if_neg hfolder] at h
      cases h

/-- The folders on the way are enough to find the way. -/
theorem walk_of_folders (h : d.walk place names = some q)
    (hfolders : ∀ place, d.isFolder place = true → d'.isFolder place = true) :
    d'.walk place names = some q := by
  induction names generalizing place with
  | nil => exact h
  | cons name names ih =>
    by_cases hfolder : d.isFolder place = true
    · rw [walk_cons hfolder] at h
      rw [walk_cons (hfolders place hfolder)]
      exact ih h
    · rw [walk, if_neg hfolder] at h
      cases h

/-- The path can be followed to its place. -/
def Leads (d : Disk) (p : Path) : Prop := d.walk (d.startOf p) p.names = some (d.placeOf p)

theorem Leads.nodeAt? (h : d.Leads p) : d.nodeAt? p = d.node? (d.placeOf p) := by
  rw [Disk.nodeAt?, h, Option.bind_some]

/-! ## What is kept -/

/-- All folders are kept, and all files but those at the places. -/
structure Keeps (places : List Place) (d d' : Disk) : Prop where
  current : d'.current = d.current
  folders : ∀ place, d.isFolder place = true → d'.isFolder place = true
  files : ∀ place ∉ places, ∀ content, d.node? place = some (.file content) →
    d'.node? place = some (.file content)

namespace Keeps

theorem refl (d : Disk) : Keeps [] d d := ⟨rfl, fun _ h => h, fun _ _ _ h => h⟩

theorem trans (h : Keeps places d d') (h' : Keeps places' d' d'') :
    Keeps (places ++ places') d d'' where
  current := h'.current.trans h.current
  folders place hplace := h'.folders place (h.folders place hplace)
  files place hplace content hfile := by
    rw [List.mem_append, not_or] at hplace
    exact h'.files place hplace.2 content (h.files place hplace.1 content hfile)

theorem placeOf (h : Keeps places d d') : d'.placeOf = d.placeOf := by
  funext p
  rw [Disk.placeOf, Disk.placeOf, startOf, startOf, h.current]

theorem leads (h : Keeps places d d') (hp : d.Leads p) : d'.Leads p := by
  have hway := walk_of_folders hp h.folders
  rw [Leads, h.placeOf, startOf, h.current]
  exact hway

end Keeps

/-- Putting something where no folder stands keeps everything else. -/
theorem keeps_put (h : d.isFolder place = false) : Keeps [place] d (d.put place node) where
  current := by
    unfold put
    split <;> rfl
  folders q hq := by
    have hne : q ≠ place := by
      rintro rfl
      rw [h] at hq
      cases hq
    rw [isFolder_iff, node?_put_of_ne d node hne]
    exact isFolder_iff.1 hq
  files q hq content hfile := by
    rw [node?_put_of_ne d node (by simpa using hq)]
    exact hfile

/-! ## One write -/

theorem isFolder_of_node?_eq_none (h : d.node? place = none) : d.isFolder place = false := by
  rw [Bool.eq_false_iff, Ne, isFolder_iff, h]
  exact fun hnode => nomatch hnode

theorem put_folder_isFolder (hfolder : d.isFolder place = true)
    (hfree : d.isFolder (place ++ [name]) = false) :
    (d.put (place ++ [name]) .folder).isFolder (place ++ [name]) = true :=
  isFolder_iff.2 (node?_put_self (by rwa [List.dropLast_concat]) hfree)

/-- Where nothing stands, putting a folder keeps all files. -/
theorem keeps_put_folder (h : d.node? place = none) : Keeps [] d (d.put place .folder) := by
  have hkeeps : Keeps [place] d (d.put place .folder) := keeps_put (isFolder_of_node?_eq_none h)
  refine { hkeeps with files := fun q _ content hfile => ?_ }
  refine hkeeps.files q (fun hq => ?_) content hfile
  rw [List.mem_singleton.1 hq, h] at hfile
  cases hfile

/-- Making folders keeps all files, and the folders lead where they should. -/
theorem of_makeFolders (hplace : d.isFolder place = true)
    (h : d.makeFolders place names = (d', some q)) :
    Keeps [] d d' ∧ d'.isFolder q = true ∧ d'.walk place names = some q := by
  induction names generalizing d place with
  | nil =>
    cases h
    exact ⟨.refl _, hplace, rfl⟩
  | cons name names ih =>
    rw [makeFolders] at h
    split at h
    next habove =>
      have hup : d.isFolder place.dropLast = true := isFolder_dropLast (isFolder_iff.1 hplace)
      obtain ⟨hkeeps, hq, hwalk⟩ := ih hup h
      refine ⟨hkeeps, hq, ?_⟩
      rw [walk_cons (hkeeps.folders _ hplace), Place.step, if_pos habove]
      exact hwalk
    next habove =>
      split at h
      next hfolder =>
        obtain ⟨hkeeps, hq, hwalk⟩ := ih (isFolder_iff.2 hfolder) h
        refine ⟨hkeeps, hq, ?_⟩
        rw [walk_cons (hkeeps.folders _ hplace), Place.step, if_neg habove]
        exact hwalk
      next => cases h
      next hnone =>
        split at h
        · cases h
        · have hmade := put_folder_isFolder hplace (isFolder_of_node?_eq_none hnone)
          obtain ⟨hkeeps, hq, hwalk⟩ := ih hmade h
          have hall := (keeps_put_folder hnone).trans hkeeps
          refine ⟨hall, hq, ?_⟩
          rw [walk_cons (hall.folders _ hplace), Place.step, if_neg habove]
          exact hwalk

/-- A text was written at the path and nothing else was lost. -/
structure Written (p : Path) (content : Option Text) (d d' : Disk) : Prop where
  keeps : Keeps [d.placeOf p] d d'
  leads : d'.Leads p
  node?_eq : d'.node? (d.placeOf p) = some (.file content)

theorem isFolder_startOf (d : Disk) (p : Path) : d.isFolder (d.startOf p) = true := by
  unfold startOf
  split
  · rfl
  · exact d.isFolder_current

theorem written_of_writeContent (h : d.writeContent p content = (d', .ok ())) :
    Written p content d d' := by
  unfold writeContent at h
  split at h
  · cases h
  next name hlast =>
    split at h
    · cases h
    split at h
    · cases h
    split at h
    · cases h
    next d₁ place hfolders =>
      split at h
      · cases h
      unfold writeIn at h
      split at h
      · cases h
      split at h
      · cases h
      next hname =>
        split at h
        · cases h
        next hfree =>
          cases h
          rw [not_or] at hname
          rw [Bool.not_eq_true] at hfree
          obtain ⟨hkeeps, hplace, hwalk⟩ := of_makeFolders (isFolder_startOf d p) hfolders
          have hnames : p.names = p.folder.names ++ [name] :=
            (List.dropLast_append_getLast? name hlast).symm
          have hput : Keeps [place ++ [name]] d₁ (d₁.put (place ++ [name]) (.file content)) :=
            keeps_put hfree
          have hway : d₁.walk (d.startOf p) (p.folder.names ++ [name]) = some (place.step name) :=
            walk_append_singleton hwalk hplace
          rw [← hnames, Place.step, if_neg hname.1] at hway
          have hplaceOf : d.placeOf p = place ++ [name] := (eq_foldl_of_walk hway).symm
          have hleads : d₁.Leads p := by
            rw [Leads, hkeeps.placeOf, hplaceOf, startOf, hkeeps.current]
            exact hway
          have hfile : (d₁.put (place ++ [name]) (.file content)).node? (place ++ [name]) =
              some (.file content) :=
            node?_put_self (by rwa [List.dropLast_concat]) hfree
          rw [← hplaceOf] at hput hfile ⊢
          exact ⟨hkeeps.trans hput, hput.leads hleads, hfile⟩

/-! ## Writing files one after another -/

/-- The file, of those to be written, whose text is left at a place. -/
def lastAt? (d : Disk) (files : List (Path × Text)) (place : Place) : Option (Path × Text) :=
  (files.filter fun file => d.placeOf file.1 = place).getLast?

theorem lastAt?_eq_none_iff {files : List (Path × Text)} :
    d.lastAt? files place = none ↔ place ∉ files.map fun file => d.placeOf file.1 := by
  simp [lastAt?]

/-- The last file at a place is the last one of the others there, or the first file if there are no
others. -/
theorem lastAt?_cons_eq_some {file last : Path × Text} {files : List (Path × Text)}
    (h : d.lastAt? (file :: files) place = some last) : d.lastAt? files place = some last ∨
      d.lastAt? files place = none ∧ d.placeOf file.1 = place ∧ last = file := by
  unfold lastAt? at h ⊢
  by_cases hplace : d.placeOf file.1 = place
  · rw [List.filter_cons_of_pos (by simpa using hplace), List.getLast?_cons,
      Option.some.injEq] at h
    cases hothers : (files.filter fun file => d.placeOf file.1 = place).getLast? with
    | none => exact Or.inr ⟨rfl, hplace, by simpa [hothers] using h.symm⟩
    | some other => exact Or.inl (by simpa [hothers] using h)
  · rw [List.filter_cons_of_neg (by simpa using hplace)] at h
    exact Or.inl h

theorem writeAll_cons_eq_ok {text : Text} {files : List (Path × Text)}
    (h : d.writeAll ((p, text) :: files) = (d', .ok ())) :
    ∃ d₁, d.write p text = (d₁, .ok ()) ∧ d₁.writeAll files = (d', .ok ()) := by
  rw [writeAll] at h
  split at h
  · cases h
  next d₁ hwrite => exact ⟨d₁, hwrite, h⟩

/-- After all files are written, each of their paths can be followed, and what is at a place is
the last text that was written there. -/
theorem of_writeAll {files : List (Path × Text)}
    (h : d.writeAll files = (d', .ok ())) :
    Keeps (files.map fun file => d.placeOf file.1) d d' ∧ (∀ file ∈ files, d'.Leads file.1) ∧
      ∀ place file, d.lastAt? files place = some file →
        d'.node? place = some (.file (some file.2)) := by
  induction files generalizing d with
  | nil =>
    cases h
    exact ⟨.refl _, by simp, by simp [lastAt?]⟩
  | cons file files ih =>
    obtain ⟨p, text⟩ := file
    obtain ⟨d₁, hwrite, hrest⟩ := writeAll_cons_eq_ok h
    have hwritten := written_of_writeContent hwrite
    obtain ⟨hkeeps, hleads, hlast⟩ := ih hrest
    have hsame : d₁.lastAt? = d.lastAt? := by
      funext files place
      rw [lastAt?, lastAt?, hwritten.keeps.placeOf]
    rw [hwritten.keeps.placeOf] at hkeeps
    rw [hsame] at hlast
    refine ⟨hwritten.keeps.trans hkeeps, ?_, fun place file hfile => ?_⟩
    · exact List.forall_mem_cons.2 ⟨hkeeps.leads hwritten.leads, hleads⟩
    · rcases lastAt?_cons_eq_some hfile with hlater | ⟨hnone, rfl, rfl⟩
      · exact hlast place file hlater
      · exact hkeeps.files _ (lastAt?_eq_none_iff.1 hnone) _ hwritten.node?_eq

/-! ## Refusals -/

/-- Why a write can be refused. -/
def Refuses (e : Error) : Prop := e = .nulInPath ∨ e = .refusedBySystem

theorem refuses_of_writeIn {e : Error} (h : (d.writeIn place name content).2 = .error e) :
    Refuses e := by
  unfold writeIn at h
  split at h
  · exact Or.inl (Except.error.inj h).symm
  split at h
  · exact Or.inr (Except.error.inj h).symm
  split at h
  · exact Or.inr (Except.error.inj h).symm
  · cases h

theorem refuses_of_writeContent {e : Error} (h : (d.writeContent p content).2 = .error e) :
    Refuses e := by
  unfold writeContent at h
  split at h
  · exact Or.inr (Except.error.inj h).symm
  split at h
  · exact Or.inl (Except.error.inj h).symm
  split at h
  · exact Or.inr (Except.error.inj h).symm
  split at h
  · exact Or.inr (Except.error.inj h).symm
  split at h
  · exact Or.inr (Except.error.inj h).symm
  · exact refuses_of_writeIn h

theorem refuses_of_writeAll {files : List (Path × Text)} {e : Error}
    (h : (d.writeAll files).2 = .error e) : Refuses e := by
  induction files generalizing d with
  | nil => cases h
  | cons file files ih =>
    rw [writeAll] at h
    split at h
    next hwrite =>
      cases h
      exact refuses_of_writeContent (congrArg Prod.snd hwrite)
    next => exact ih h

end Disk

end OrgWeave
