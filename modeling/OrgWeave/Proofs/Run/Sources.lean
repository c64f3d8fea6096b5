import Mathlib.Data.List.Basic
import OrgWeave.Disk

/-!
# Documents by path and by text

A run over paths puts together the paths and the documents that the flags add, each at its first
place, and then reads all of them. A run over given documents reads only what the flags add
under other names. Where no path is given twice, the paths keep their places in front and
the others are what the second run reads (`mergeNames_eq_append`), so that both come to the
same documents in the same order, or to the first of the others that cannot be read
(`run_eq_of_read`).
-/

namespace OrgWeave

/-! ## Names -/

/-- Where no name is repeated there is nothing to erase. -/
theorem eraseDups_of_nodup : ∀ {names : List Text}, names.Nodup → names.eraseDups = names
  | [], _ => rfl
  | name :: names, h => by
    obtain ⟨hname, hnames⟩ := List.nodup_cons.1 h
    have hothers : names.filter (fun other => !other == name) = names := by
      refine List.filter_eq_self.2 fun other hother => ?_
      have hne : other ≠ name := by
        rintro rfl
        exact hname hother
      simpa using hne
    rw [List.eraseDups_cons, hothers, eraseDups_of_nodup hnames]

/-- Merged names are the first ones, and then those of them that are none of the first ones. -/
theorem mergeNames_eq_append {names : List Text} (h : names.Nodup) (others : List Text) :
    mergeNames names others =
      names ++ (mergeNames names others).filter fun name => name ∉ names := by
  have hmerged : mergeNames names others = names ++ (others.removeAll names).eraseDups := by
    rw [mergeNames, List.eraseDups_append, eraseDups_of_nodup h]
  have hfront : names.filter (fun name => name ∉ names) = [] := by
    rw [List.filter_eq_nil_iff]
    exact fun name hname => by simpa using hname
  have hothers : (others.removeAll names).eraseDups.filter (fun name => name ∉ names) =
      (others.removeAll names).eraseDups := by
    refine List.filter_eq_self.2 fun name hname => ?_
    have hother := (List.mem_filter.1 (List.mem_eraseDups.1 hname)).2
    simpa using hother
  rw [hmerged, List.filter_append, hfront, List.nil_append, hothers]

/-! ## Reading -/

variable {read : Reader} {docs : List (Text × Text)}

/-- What is read under the names of documents are the documents, if the files hold them. -/
theorem readDocuments_eq_ok (h : ∀ doc ∈ docs, read doc.1 = .ok doc.2) :
    readDocuments read (docs.map Prod.fst) = .ok docs := by
  induction docs with
  | nil => rfl
  | cons doc docs ih =>
    obtain ⟨hdoc, hdocs⟩ := List.forall_mem_cons.1 h
    exact gather_cons_eq_ok.2 ⟨[doc], docs, by rw [hdoc]; rfl, ih hdocs, rfl⟩

/-- Documents in front of which others have been read already. -/
theorem readDocuments_append {paths : List Text} (h : readDocuments read paths = .ok docs)
    (others : List Text) :
    readDocuments read (paths ++ others) = (readDocuments read others).map (docs ++ ·) := by
  unfold readDocuments at h ⊢
  rw [gather_append, h]
  cases gather _ others <;> rfl

/-- A run over paths is the run over the texts of the files that they lead to. -/
theorem run_eq_of_read (hnodup : (docs.map Prod.fst).Nodup)
    (hread : ∀ doc ∈ docs, read doc.1 = .ok doc.2) (flags : Text) (root : Path) :
    run read (docs.map Prod.fst) flags root = runTexts read docs flags root := by
  have hmerged := mergeNames_eq_append hnodup
  have hdocs : ∀ others, readDocuments read (mergeNames (docs.map Prod.fst) others) =
      (readDocuments read ((mergeNames (docs.map Prod.fst) others).filter
        fun name => name ∉ docs.map Prod.fst)).map (docs ++ ·) := by
    intro others
    rw [← readDocuments_append (readDocuments_eq_ok hread), ← hmerged]
  unfold run runTexts
  simp only [hdocs]
  cases Request.ofText? flags with
  | error e => rfl
  | ok request =>
    simp only [bind, Except.bind]
    cases readDocuments read _ <;> rfl

namespace Disk

/-- A run over the paths of files comes to the same as the run over the texts that are in these
files, whatever documents the flags add, and leaves the same on the disk. -/
theorem run_eq_runTexts {d : Disk} (hnodup : (docs.map Prod.fst).Nodup)
    (hread : ∀ doc ∈ docs, d.read doc.1 = .ok doc.2) (flags : Text) (root : Path) :
    d.run (docs.map Prod.fst) flags root = d.runTexts docs flags root := by
  rw [run, runTexts, run_eq_of_read hnodup hread]

/-- Two documents, one with a target and one with its block, which needs a third document. -/
def letters : List (Text × Text) :=
  [("x.org".toList, "#+tangle:a out\n".toList),
    ("y.org".toList, "#+name: a\n#+begin_src x\n<<b>>\n#+end_src\n".toList)]

/-- A disk with the documents of `letters` and the third one in its current folder. -/
def desk : Disk :=
  (letters ++ [("z.org".toList, "#+name: b\n#+begin_src x\none\n#+end_src\n".toList)]).foldl
    (fun d doc => d.put ["w".toList, doc.1] (.file (some doc.2))) (.empty "w".toList)

/-- The flags add the third document and name others again; or they add one that is not there. -/
theorem desk_runs_alike : (letters.map Prod.fst).Nodup ∧
    (∀ doc ∈ letters, desk.read doc.1 = .ok doc.2) ∧
    (∃ out d, desk.run (letters.map Prod.fst) ":tangle :defs y.org z.org z.org x.org".toList .here =
        (d, .ok out) ∧
      desk.runTexts letters ":tangle :defs y.org z.org z.org x.org".toList .here = (d, .ok out) ∧
      d.read "out".toList = .ok "one\n".toList) ∧
    desk.run (letters.map Prod.fst) ":tangle :defs y.org q.org z.org".toList .here =
      (desk, .error (.badFilename "q.org".toList)) := by
  have hnodup : (letters.map Prod.fst).Nodup := by decide
  have hread : ∀ doc ∈ letters, desk.read doc.1 = .ok doc.2 := by decide +kernel
  have hout : (desk.runTexts letters ":tangle :defs y.org z.org z.org x.org".toList .here).2.map
      (·.files.length) = .ok 1 := by decide +kernel
  have hfile : (desk.runTexts letters ":tangle :defs y.org z.org z.org x.org".toList .here).1.read
      "out".toList = .ok "one\n".toList := by decide +kernel
  have hmissing : desk.runTexts letters ":tangle :defs y.org q.org z.org".toList .here =
      (desk, .error (.badFilename "q.org".toList)) := by decide +kernel
  have halike := run_eq_runTexts hnodup hread
  obtain ⟨out, hok, -⟩ := map_eq_ok.1 hout
  refine ⟨hnodup, hread, ⟨out, _, ?_, Prod.ext rfl hok, hfile⟩, (halike _ _).trans hmissing⟩
  exact (halike _ _).trans (Prod.ext rfl hok)

end Disk

end OrgWeave
