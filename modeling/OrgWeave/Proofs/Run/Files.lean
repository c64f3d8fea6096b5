import OrgWeave.Proofs.Disk.Writing
import OrgWeave.Proofs.Run.Faults

/-!
# Runs and files

A run writes after everything has been woven. Whatever stops it before that leaves the disk as it
was, and what stops it afterwards is a refusal to write and no diagnostic
(`Disk.diagnosed_keeps`). A run that does not tangle has nothing to write.

Each target of a run that tangles is woven on its own. Nothing keeps two targets from the same
file, though, which they can name in different ways; the later one overwrites the earlier one
(as in `cupboard`). So the file of a target holds the text of the last target that goes to
this file, and its own text if no later one does (`Disk.tangles_last`).
-/

namespace OrgWeave

/-! ## Delivery -/

namespace Disk

variable {α : Type} {d d' : Disk} {files : α → List (Path × Text)} {result : Except Error α}

/-- Delivery ends well if there is a result and its files can be written. -/
theorem deliver_eq_ok {a : α} : d.deliver files result = (d', .ok a) ↔
    result = .ok a ∧ d.writeAll (files a) = (d', .ok ()) := by
  unfold deliver
  cases result with
  | error e => simp
  | ok b =>
    simp only [Except.ok.injEq]
    rcases hwrite : d.writeAll (files b) with ⟨d₁, _ | _⟩
    · constructor
      · rintro ⟨⟩
      · rintro ⟨rfl, h⟩
        rw [hwrite] at h
        cases h
    · constructor
      · rintro ⟨⟩
        exact ⟨rfl, hwrite⟩
      · rintro ⟨rfl, h⟩
        cases hwrite.symm.trans h
        rfl

/-- If delivery fails there was no result, or writing was refused. -/
theorem deliver_error {e : Error} (h : (d.deliver files result).2 = .error e) :
    (result = .error e ∧ (d.deliver files result).1 = d) ∨ Refuses e := by
  unfold deliver at h ⊢
  cases result with
  | error e' =>
    cases h
    exact Or.inl ⟨rfl, rfl⟩
  | ok a =>
    right
    simp only at h
    split at h
    next hwrite =>
      cases h
      exact refuses_of_writeAll (congrArg Prod.snd hwrite)
    next => cases h

/-- A result without files is delivered without a change. -/
theorem deliver_fst_of_nil (h : ∀ a, result = .ok a → files a = []) :
    (d.deliver files result).1 = d := by
  unfold deliver
  cases result with
  | error e => rfl
  | ok a =>
    simp only [h a rfl]
    rfl

end Disk

/-! ## Runs that leave the disk alone -/

/-- An error that refuses a write is no diagnostic. -/
theorem Disk.Refuses.not_isDiagnostic {e : Error} (h : Disk.Refuses e) : e.isDiagnostic = false := by
  rcases h with rfl | rfl <;> rfl

/-- Only a request that tangles comes with files. -/
theorem Outcome.files_ofCorpus {request : Request} {c : Corpus} {root : Path} {out : Outcome}
    (htangle : request.tangle = false) (h : ofCorpus request c root = .ok out) :
    out.files = [] := by
  obtain ⟨g, -, h⟩ := bind_eq_ok.1 h
  rw [htangle] at h
  obtain ⟨_, -, h⟩ := bind_eq_ok.1 h
  obtain ⟨r, -, h⟩ := bind_eq_ok.1 h
  obtain ⟨text, -, h⟩ := bind_eq_ok.1 h
  cases h
  rfl

/-- Flags that do not name `:tangle` make a request that does not tangle. -/
theorem Request.tangle_eq_false {flags : Text} {request : Request}
    (h : Request.ofText? flags = .ok request)
    (hflags : ∀ p, Params.ofText? flags = .ok p → p.has Flag.tangle = false) :
    request.tangle = false := by
  obtain ⟨p, hp, htangle, -⟩ := Request.tangle_documents_of_ofText? h
  exact htangle.trans (hflags p hp)

namespace Disk

/-- A run that ends in a diagnostic leaves the disk as it was, wherever the diagnostic comes from,
and so does a run whose flags do not name `:tangle`. -/
theorem diagnosed_keeps (d : Disk) (paths : List Text) (docs : List (Text × Text)) (flags : Text)
    (root : Path) :
    (∀ e, (d.run paths flags root).2 = .error e → e.isDiagnostic = true →
      (d.run paths flags root).1 = d) ∧
    (∀ e, (d.runTexts docs flags root).2 = .error e → e.isDiagnostic = true →
      (d.runTexts docs flags root).1 = d) ∧
    ((∀ p, Params.ofText? flags = .ok p → p.has Flag.tangle = false) →
      (d.run paths flags root).1 = d ∧ (d.runTexts docs flags root).1 = d) := by
  have hdiagnostic : ∀ {result : Except Error Outcome} e,
      (d.deliver (·.files) result).2 = .error e → e.isDiagnostic = true →
        (d.deliver (·.files) result).1 = d := by
    intro result e he hdiagnostic
    rcases deliver_error he with ⟨-, hkept⟩ | hrefuses
    · exact hkept
    · rw [hrefuses.not_isDiagnostic] at hdiagnostic
      cases hdiagnostic
  refine ⟨fun e => hdiagnostic e, fun e => hdiagnostic e, fun hflags => ?_⟩
  constructor
  · refine deliver_fst_of_nil fun out h => ?_
    obtain ⟨request, hrequest, h⟩ := bind_eq_ok.1 h
    obtain ⟨read, -, h⟩ := bind_eq_ok.1 h
    exact Outcome.files_ofCorpus (Request.tangle_eq_false hrequest hflags) h
  · refine deliver_fst_of_nil fun out h => ?_
    obtain ⟨request, hrequest, h⟩ := bind_eq_ok.1 h
    obtain ⟨extra, -, h⟩ := bind_eq_ok.1 h
    exact Outcome.files_ofCorpus (Request.tangle_eq_false hrequest hflags) h

/-- A target, and one of a block that is not there. -/
def larder : List (Text × Text) :=
  [("d.org".toList, ["#+tangle:jam shelf\n", "#+tangle:rice shelf\n", "#+name: jam\n",
    "#+begin_src x\n", "plum\n", "#+end_src\n"].flatMap String.toList)]

/-- With the second target missing the first one is not written, nor is any file if a document is
missing or only a block is asked for. -/
theorem larder_kept :
    ((Disk.empty "w".toList).runTexts larder ":tangle".toList .here).2 =
        .error (.unknownBlock "rice".toList ["jam".toList]) ∧
      ((Disk.empty "w".toList).runTexts larder ":tangle".toList .here).1 = .empty "w".toList ∧
      ((Disk.empty "w".toList).run ["d.org".toList] ":tangle".toList .here).2 =
        .error (.badFilename "d.org".toList) ∧
      ((Disk.empty "w".toList).run ["d.org".toList] ":tangle".toList .here).1 =
        .empty "w".toList ∧
      (∀ p, Params.ofText? ":noweb jam".toList = .ok p → p.has Flag.tangle = false) ∧
      ((Disk.empty "w".toList).runTexts larder ":noweb jam".toList .here).2.map (·.stdout) =
        .ok "plum\n".toList ∧
      ((Disk.empty "w".toList).runTexts larder ":noweb jam".toList .here).1 =
        .empty "w".toList := by
  have hghost : ((Disk.empty "w".toList).runTexts larder ":tangle".toList .here).2 =
      .error (.unknownBlock "rice".toList ["jam".toList]) := by
    decide +kernel
  have hmissing : ((Disk.empty "w".toList).run ["d.org".toList] ":tangle".toList .here).2 =
      .error (.badFilename "d.org".toList) := by
    decide +kernel
  have hparams : Params.ofText? ":noweb jam".toList =
      .ok [("noweb".toList, ["jam".toList])] := by
    decide +kernel
  have hflags : ∀ p, Params.ofText? ":noweb jam".toList = .ok p →
      p.has Flag.tangle = false := by
    intro p hp
    cases hparams.symm.trans hp
    decide +kernel
  obtain ⟨-, htexts, -⟩ :=
    diagnosed_keeps (.empty "w".toList) [] larder ":tangle".toList .here
  obtain ⟨hpaths, -, -⟩ :=
    diagnosed_keeps (.empty "w".toList) ["d.org".toList] [] ":tangle".toList .here
  obtain ⟨-, -, hstream⟩ :=
    diagnosed_keeps (.empty "w".toList) [] larder ":noweb jam".toList .here
  exact ⟨hghost, htexts _ hghost rfl, hmissing, hpaths _ hmissing rfl, hflags, by decide +kernel,
    (hstream hflags).2⟩

end Disk

/-! ## Runs that tangle -/

namespace Graph

variable {g : Graph} {o : WeaveOptions}

/-- The targets are the declared ones, in order, each with the text of its name. -/
theorem targets_eq_ok {targets : List Target} (h : g.targets o = .ok targets) :
    targets.map (fun t => (t.name, t.destination)) = g.tangles ∧
      ∀ t ∈ targets, g.targetText o t.name = .ok t.text := by
  unfold Graph.targets at h
  generalize g.tangles = rows at h ⊢
  induction rows generalizing targets with
  | nil =>
    cases h
    simp
  | cons row rows ih =>
    obtain ⟨head, tail, hhead, htail, rfl⟩ := gather_cons_eq_ok.1 h
    obtain ⟨text, htext, hhead⟩ := bind_eq_ok.1 hhead
    cases hhead
    obtain ⟨hrows, htexts⟩ := ih htail
    refine ⟨by simp [hrows], ?_⟩
    exact List.forall_mem_cons.2 ⟨htext, htexts⟩

end Graph

/-- Where an item is picked out of a list, there is a last one. -/
theorem exists_getLast?_filter {β : Type} {p : β → Bool} {b : β} {bs : List β} (hb : b ∈ bs)
    (hp : p b = true) : ∃ last ∈ bs, (bs.filter p).getLast? = some last := by
  cases hlast : (bs.filter p).getLast? with
  | none =>
    rw [List.getLast?_eq_none_iff] at hlast
    exact absurd hp (by simpa using List.filter_eq_nil_iff.1 hlast b hb)
  | some last => exact ⟨last, List.mem_of_mem_filter (List.mem_of_getLast? hlast), rfl⟩

/-- The path of a destination, which is taken from `root` if it is not absolute. -/
def Path.ofDestination (root : Path) (destination : Text) : Path :=
  root.append (Path.ofText destination)

namespace Disk

variable {d d' : Disk} {g : Graph} {o : WeaveOptions} {root : Path}

/-- The last declared target whose destination leads to the place. -/
def lastTarget? (d : Disk) (root : Path) (g : Graph) (place : Place) : Option (Text × Text) :=
  (g.tangles.filter fun row => d.placeOf (.ofDestination root row.2) = place).getLast?

/-- The file at the destination of each target holds the text of the last target that goes to the
same place. -/
def HoldsTargets (d : Disk) (g : Graph) (o : WeaveOptions) (root : Path) : Prop :=
  ∀ row ∈ g.tangles, ∃ last text,
    d.lastTarget? root g (d.placeOf (.ofDestination root row.2)) = some last ∧
      g.targetText o last.1 = .ok text ∧
      d.nodeAt? (.ofDestination root row.2) = some (.file (some text))

/-- Writing the files of all targets leaves at each place the text of the last target there. -/
theorem holdsTargets_of_writeAll {targets : List Target}
    (htargets : g.targets o = .ok targets)
    (h : d.writeAll (Outcome.filesOf root targets) = (d', .ok ())) : d'.HoldsTargets g o root := by
  obtain ⟨hrows, htexts⟩ := Graph.targets_eq_ok htargets
  obtain ⟨hkeeps, hleads, hlast⟩ := of_writeAll h
  intro row hrow
  obtain ⟨t, ht, rfl⟩ := List.mem_map.1 (hrows ▸ hrow)
  obtain ⟨last, hmem, hlastOf⟩ := exists_getLast?_filter (p := fun s : Target =>
    d.placeOf (.ofDestination root s.destination) = d.placeOf (.ofDestination root t.destination))
    ht (by simp)
  have htarget : d'.lastTarget? root g (d'.placeOf (.ofDestination root t.destination)) =
      some (last.name, last.destination) := by
    rw [lastTarget?, hkeeps.placeOf, ← hrows, List.filter_map, List.getLast?_map]
    exact congrArg _ hlastOf
  have hfile : d.lastAt? (Outcome.filesOf root targets)
      (d.placeOf (.ofDestination root t.destination)) =
        some (.ofDestination root last.destination, last.text) := by
    rw [lastAt?, Outcome.filesOf, List.filter_map, List.getLast?_map]
    exact congrArg _ hlastOf
  have hfollowed : d'.Leads (.ofDestination root t.destination) :=
    hleads _ (List.mem_map_of_mem ht)
  refine ⟨_, last.text, htarget, htexts last hmem, ?_⟩
  rw [hfollowed.nodeAt?, hkeeps.placeOf]
  exact hlast _ _ hfile

/-- What the files of a corpus leave on the disk if its targets are asked for. -/
theorem holdsTargets_of_ofCorpus {request : Request} {c : Corpus} {out : Outcome}
    (htangle : request.tangle = true) (hout : Outcome.ofCorpus request c root = .ok out)
    (hwrite : d.writeAll out.files = (d', .ok ())) :
    ∃ g, Graph.ofCorpus c true = .ok g ∧ d'.HoldsTargets g request.weaveOptions root := by
  obtain ⟨g, hg, hout⟩ := bind_eq_ok.1 hout
  rw [htangle] at hg hout
  obtain ⟨targets, htargets, hout⟩ := bind_eq_ok.1 hout
  cases hout
  exact ⟨g, hg, holdsTargets_of_writeAll htargets hwrite⟩

/-- After a run that tangles and ends well, each target's file holds the text of the last target
that goes to this file, be the documents on the disk or given with the request. As a disk has no
links, two destinations go to one file only if they lead to one place. -/
theorem tangles_last {flags : Text} {request : Request} {out : Outcome}
    (hrequest : Request.ofText? flags = .ok request) (htangle : request.tangle = true) :
    (∀ paths, d.run paths flags root = (d', .ok out) → ∃ docs g,
      readDocuments d.read (mergeNames paths request.documents) = .ok docs ∧
        Graph.ofCorpus (Corpus.ofTexts docs) true = .ok g ∧
        d'.HoldsTargets g request.weaveOptions root) ∧
    ∀ docs, d.runTexts docs flags root = (d', .ok out) → ∃ extra g,
      readDocuments d.read ((mergeNames (docs.map Prod.fst) request.documents).filter
        fun name => name ∉ docs.map Prod.fst) = .ok extra ∧
        Graph.ofCorpus (Corpus.ofTexts (docs ++ extra)) true = .ok g ∧
        d'.HoldsTargets g request.weaveOptions root := by
  constructor
  · intro paths h
    obtain ⟨hout, hwrite⟩ := deliver_eq_ok.1 h
    obtain ⟨_, hrequest', hout⟩ := bind_eq_ok.1 hout
    cases hrequest.symm.trans hrequest'
    obtain ⟨docs, hdocs, hout⟩ := bind_eq_ok.1 hout
    obtain ⟨g, hg⟩ := holdsTargets_of_ofCorpus htangle hout hwrite
    exact ⟨docs, g, hdocs, hg⟩
  · intro docs h
    obtain ⟨hout, hwrite⟩ := deliver_eq_ok.1 h
    obtain ⟨_, hrequest', hout⟩ := bind_eq_ok.1 hout
    cases hrequest.symm.trans hrequest'
    obtain ⟨extra, hextra, hout⟩ := bind_eq_ok.1 hout
    obtain ⟨g, hg⟩ := holdsTargets_of_ofCorpus htangle hout hwrite
    exact ⟨extra, g, hextra, hg⟩

/-- Three targets; the last one goes to the file of the first one by a longer way. -/
def cupboard : List (Text × Text) :=
  [("d.org".toList, ["#+name: cup\n", "#+begin_src x\n", "handle\n", "#+end_src\n",
    "#+name: jug\n", "#+begin_src x\n", "spout\n", "#+end_src\n", "#+tangle:cup shelf\n",
    "#+tangle:pan hook\n", "#+tangle:jug door/../shelf\n", "#+depends:pan :noweb jug cup\n"].flatMap
      String.toList)]

/-- A run that writes the targets of `cupboard` on an empty disk. -/
def cupboardRun : Disk × Except Error Outcome :=
  (Disk.empty "w".toList).runTexts cupboard ":tangle".toList .here

/-- The run ends well, but what it leaves in the file of `cup` is not the text of `cup`. -/
theorem cupboard_overwritten :
    (∃ out, cupboardRun.2 = .ok out) ∧
      ∃ g, Graph.ofCorpus (Corpus.ofTexts cupboard) true = .ok g ∧
        ("cup".toList, "shelf".toList) ∈ g.tangles ∧
        g.targetText {} "cup".toList = .ok "handle\n".toList ∧
        cupboardRun.1.nodeAt? (.ofDestination .here "shelf".toList) =
          some (.file (some "spout\n".toList)) := by
  have hrun : cupboardRun.2.map (·.files.length) = .ok 3 := by decide +kernel
  have hgraph : (Graph.ofCorpus (Corpus.ofTexts cupboard) true).map (fun g =>
      (decide (("cup".toList, "shelf".toList) ∈ g.tangles), g.targetText {} "cup".toList)) =
        .ok (true, .ok "handle\n".toList) := by
    decide +kernel
  obtain ⟨out, hout, -⟩ := map_eq_ok.1 hrun
  obtain ⟨g, hg, hcup⟩ := map_eq_ok.1 hgraph
  rw [Prod.mk.injEq, decide_eq_true_iff] at hcup
  exact ⟨⟨out, hout⟩, g, hg, hcup.1, hcup.2, by decide +kernel⟩

/-- Each file that the run leaves holds the text of the last target there. -/
theorem cupboard_last :
    ∃ request, Request.ofText? ":tangle".toList = .ok request ∧ request.tangle = true ∧
      ∃ extra g, readDocuments (Disk.empty "w".toList).read ((mergeNames (cupboard.map Prod.fst)
          request.documents).filter fun name => name ∉ cupboard.map Prod.fst) = .ok extra ∧
        Graph.ofCorpus (Corpus.ofTexts (cupboard ++ extra)) true = .ok g ∧
        cupboardRun.1.HoldsTargets g request.weaveOptions .here := by
  have hflags : (Request.ofText? ":tangle".toList).map (·.tangle) = .ok true := by
    decide +kernel
  have hrun : cupboardRun.2.map (·.files.length) = .ok 3 := by decide +kernel
  obtain ⟨request, hrequest, htangle⟩ := map_eq_ok.1 hflags
  obtain ⟨out, hout, -⟩ := map_eq_ok.1 hrun
  have hholds := (tangles_last hrequest htangle).2 cupboard (Prod.ext rfl hout)
  exact ⟨request, hrequest, htangle, hholds⟩

end Disk

end OrgWeave
