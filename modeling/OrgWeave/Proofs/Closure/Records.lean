import OrgWeave.Proofs.Closure.Order
import OrgWeave.Proofs.Graph.Spans

/-!
# Records of printed bodies

A body can be printed under a name that it was not given : the block of a contributor is printed
with the aggregate, and the contributor itself is never visited. What the contributor declares is
then found through the aggregate, whose record ends with those of its contributors
(`Corpus.ownRecords`).

`Resolution.Honours` says that a closure answers for a record. A closure honours the records of the
names in its order (`Graph.Closes.honours`). A block that stands in the order under some name is
given its own name on the line before it, so that its record is that of the name in the order or
part of it, and is honoured, too (`Graph.resolve_honours_records`).
-/

namespace OrgWeave

open Org

/-- The closure has the files that the record refers to, and something that stands for each of the
names. -/
structure Resolution.Honours (r : Resolution) (g : Graph) (record : Record) : Prop where
  external : ∀ x ∈ record.external, x ∈ r.external
  nested : ∀ d ∈ record.nested, ∃ a ∈ r.names, g.StandsFor a d

/-- What honours some records put together honours each of them. -/
theorem Resolution.Honours.of_concat {r : Resolution} {g : Graph} {records : List Record}
    {record : Record} (h : r.Honours g (.concat records)) (hrecord : record ∈ records) :
    r.Honours g record where
  external x hx := h.external x (List.mem_flatMap.2 ⟨record, hrecord, hx⟩)
  nested d hd := h.nested d (List.mem_flatMap.2 ⟨record, hrecord, hd⟩)

namespace Graph

variable {docs : List (Text × Text)} {collects : Bool} {g : Graph} {names external : List Text}
  {ceiling : Int} {r : Resolution}

theorem Closes.honours {n : Text} (h : g.Closes names external r) (hn : n ∈ r.names) :
    r.Honours g (g.record n) where
  external x hx := (h.mem_external x).2 (Or.inl ⟨n, hn, hx⟩)
  nested := h.closed n hn

/-- The record that a name declares is part of the record of each name that its blocks have. -/
theorem Tabulates.exists_records {c : Corpus} {places : List Nat} {o : Nat} {n m : Text}
    (h : Tabulates c collects places g) (hn : c.Binds places o n) (hm : c.NamedAt places o m) :
    ∃ records, g.record n = .concat records ∧
      ∀ record ∈ c.ownRecords places m, record ∈ records := by
  refine ⟨_, h.record_eq n, fun record hrecord => ?_⟩
  by_cases hne : m = n
  · subst hne
    exact List.mem_append_left _ hrecord
  · -- the block shares the name `n`, so `m` contributes to it
    have hcontributes : c.Contributes places m n := by
      rcases hn with hn | ⟨ho, hshares⟩
      · exact absurd (hm.unique hn) hne
      · exact ⟨hne, o, ho, hm, hshares⟩
    have hcontributor : m ∈ c.contributorsOf places n := by
      rw [← h.contributors_eq]
      exact (h.mem_contributors n m).2 hcontributes
    exact List.mem_append_right _ (List.mem_flatMap.2 ⟨m, hcontributor, hrecord⟩)

/-- A closure honours what is declared for the bodies that it prints : for each block with a body
under some name in the order, the record of the name on the line before the block, wherever the
record is declared. -/
theorem resolve_honours_records (h : ofCorpus (Corpus.ofTexts docs) collects = .ok g)
    (hr : g.resolve names external ceiling = .ok r) :
    ∃ es, parseCorpus (Corpus.ofTexts docs) = .ok es ∧
      ∀ n ∈ r.names, ∀ sp ∈ g.spans n, ∀ i m, sp.opening = i + 1 →
        (Corpus.ofTexts docs).Names i m →
          ∀ record ∈ (Corpus.ofTexts docs).ownRecords (directivePlaces es) m,
            r.Honours g record := by
  obtain ⟨es, hes, -, htable⟩ := tabulates_of_ofCorpus h
  refine ⟨es, hes, fun n hn sp hsp i m hopening hnames record hrecord => ?_⟩
  have hcloses := closes_of_resolve hr
  obtain ⟨hbinds, -⟩ := (htable.mem_spans n sp).1 hsp
  rw [hopening] at hbinds
  obtain ⟨-, e, he, hstart⟩ := exists_element_of_binds hes hbinds
  have hplace : i ∈ directivePlaces es :=
    mem_directivePlaces_of_next hes he hstart (by simp [hnames.1])
  obtain ⟨records, hrecords, hown⟩ := htable.exists_records hbinds ⟨i, hplace, rfl, hnames⟩
  have hhonours := hcloses.honours hn
  rw [hrecords] at hhonours
  exact hhonours.of_concat (hown record hrecord)

/-- Two blocks that share `all`. The record of the first one stands in front of its name line and
refers to the other one, whose record stands behind its block in another document. -/
def stew : List (Text × Text) :=
  [("a.org".toList, ("#+depends:c :cpp v :noweb h e\n#+name: c\n#+begin_src x :noweb-ref all\n" ++
      "#+end_src\n").toList),
    ("b.org".toList, ("#+name: e\n#+begin_src x :noweb-ref all\n#+end_src\n" ++
      "#+depends:e :cpp w\n").toList)]

/-- The blocks are printed under `all` only; `e` is not in the order, but contributes to `all`. -/
theorem stew_honours : ∃ g es, ofCorpus (Corpus.ofTexts stew) true = .ok g ∧
    parseCorpus (Corpus.ofTexts stew) = .ok es ∧
    g.resolve ["all".toList] [] 1 =
      .ok ⟨["v".toList, "w".toList], ["h".toList, "all".toList], ["h".toList]⟩ ∧
    (g.spans "all".toList).map (·.opening) = [2, 5] ∧
    (Corpus.ofTexts stew).Names 1 "c".toList ∧
    (Corpus.ofTexts stew).ownRecords (directivePlaces es) "c".toList =
      [⟨["v".toList], ["h".toList, "e".toList]⟩] ∧
    Resolution.Honours ⟨["v".toList, "w".toList], ["h".toList, "all".toList], ["h".toList]⟩ g
      ⟨["v".toList], ["h".toList, "e".toList]⟩ := by
  have hclosed : (ofCorpus (Corpus.ofTexts stew) true >>= fun g =>
      (g.resolve ["all".toList] [] 1).map fun r => (r, (g.spans "all".toList).map (·.opening))) =
        .ok (⟨["v".toList, "w".toList], ["h".toList, "all".toList], ["h".toList]⟩, [2, 5]) := by
    decide +kernel
  obtain ⟨g, hg, hmap⟩ := bind_eq_ok.1 hclosed
  obtain ⟨r, hr, hpair⟩ := map_eq_ok.1 hmap
  obtain ⟨rfl, hspans⟩ := Prod.mk.inj hpair
  obtain ⟨es, hes, hhonours⟩ := resolve_honours_records hg hr
  have hrecords : (parseCorpus (Corpus.ofTexts stew)).map (fun es =>
      (Corpus.ofTexts stew).ownRecords (directivePlaces es) "c".toList) =
        .ok [⟨["v".toList], ["h".toList, "e".toList]⟩] := by
    decide +kernel
  rw [hes, Except.map, Except.ok.injEq] at hrecords
  have hnames : (Corpus.ofTexts stew).Names 1 "c".toList :=
    ⟨by decide +kernel, by decide +kernel⟩
  obtain ⟨sp, hsp, hopening⟩ : ∃ sp ∈ g.spans "all".toList, sp.opening = 2 := by
    rw [← List.mem_map, hspans]
    decide
  refine ⟨g, es, hg, hes, hr, hspans, hnames, hrecords, ?_⟩
  exact hhonours "all".toList (by simp) sp hsp 1 "c".toList hopening hnames _
    (by rw [hrecords]; exact List.mem_cons_self)

end Graph

end OrgWeave
