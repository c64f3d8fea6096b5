import OrgWeave.Proofs.Closure.Ceiling
import OrgWeave.Proofs.Closure.Order
import OrgWeave.Proofs.Graph.Composition
import OrgWeave.Proofs.Run.Causes
import OrgWeave.Proofs.Text.Sorting
import OrgWeave.Report.Graph

/-!
# References to nothing

The report on a graph looks for references to unknown names in all records, one by one. A closure
of all known names looks for them by walking, and it does not walk into contributors : what they
refer to is found only through the aggregates that stand for them. Both find the same names
(`Graph.Merges.mem_undeclaredRefs`, `Graph.Closes.mem_names_of_unknown`).

What carries this is how records are merged (`Graph.Merges`). The record of a name holds what is
declared for the names that it stands for, in one layer : it does not hold what is declared for the
contributors of its contributors. Any reference was declared for some one name, though, the closure
has a name that stands for that one, and finds the reference in its record. Contributors have
bodies (`Scan.Bodied`), so that an unknown name is never passed over as one of them.
-/

namespace OrgWeave

/-- The value of a field of an object. -/
def Json.field? (key : Text) : Json → Option Json
  | .object fields => Table.get? fields key
  | _ => none

namespace Table

variable {α : Type}

/-- A key that comes once has the value in its row. -/
theorem get?_eq_some_iff {key : Text} {v : α} :
    ∀ {t : Table α}, t.keys.Nodup → (t.get? key = some v ↔ (key, v) ∈ t)
  | [], _ => by simp [get?]
  | (k, w) :: t, h => by
    obtain ⟨hk, ht⟩ := List.nodup_cons.1 h
    rw [List.mem_cons, Prod.mk.injEq, get?, List.lookup_cons]
    by_cases hkey : key = k
    · subst hkey
      have habsent : (key, v) ∉ t := fun hmem => hk (List.mem_map.2 ⟨_, hmem, rfl⟩)
      simp [habsent, eq_comm]
    · have hb : (key == k) = false := beq_eq_false_iff_ne.2 hkey
      have ih : t.lookup key = some v ↔ (key, v) ∈ t := get?_eq_some_iff ht
      simp [hb, hkey, ih]

end Table

/-- A block that a place binds to a name opens in the corpus. -/
theorem Corpus.lt_length_of_boundBy? {c : Corpus} {i : Nat} {n : Text} {sp : BodySpan}
    (h : c.boundBy? i n = some sp) : sp.opening < c.lines.length := by
  unfold boundBy? at h
  split at h
  next hname =>
    cases h
    exact Binds.lt_length (Or.inl ⟨i, List.mem_singleton_self i, rfl, name?_eq_some_iff.1 hname⟩)
  next =>
    split at h
    next hshares =>
      cases h
      exact Binds.lt_length (Or.inr ⟨List.mem_singleton_self i, hshares⟩)
    next => cases h

namespace Scan

variable {c : Corpus} {collects : Bool} {s s' : Scan} {i : Nat}

/-- Each name that contributes, or is about to, has a body, and bodies open in the corpus. -/
structure Bodied (c : Corpus) (s : Scan) : Prop extends Keyed s where
  declared : ∀ p ∈ s.declared, s.blocks.has p.2 = true
  contributors : ∀ a, ∀ n ∈ s.contributors a, s.blocks.has n = true
  inside : ∀ n, ∀ sp ∈ s.spans n, sp.opening < c.lines.length

namespace Bodied

theorem empty (c : Corpus) : Bodied c .empty where
  toKeyed := .empty
  declared := by simp [Scan.empty]
  contributors := by simp [Scan.empty, Scan.contributors, Table.get?]
  inside := by simp [Scan.empty, Scan.spans, Table.get?]

theorem step (h : s.Bodied c) (hs : Step c collects s i s') : s'.Bodied c where
  toKeyed := hs.keyed h.toKeyed
  declared p hp := by
    rw [hs.declared, List.mem_append] at hp
    rw [hs.has_block]
    rcases hp with hp | hp
    · obtain ⟨n, hn, rfl⟩ := List.mem_map.1 hp
      exact Or.inr (Or.inl (Corpus.name?_eq_some_iff.1 (Option.mem_toList.1 hn)))
    · exact Or.inl (h.declared p hp)
  contributors a n hn := by
    rw [hs.contributors, List.mem_append] at hn
    rw [hs.has_block]
    rcases hn with hn | hn
    · exact Or.inl (h.contributors a n hn)
    · split at hn
      · have hlookup := Option.mem_toList.1 (List.mem_of_mem_filter hn)
        obtain ⟨before, after, hdeclared, -⟩ := List.lookup_eq_some_iff.1 hlookup
        exact Or.inl (h.declared (i, n) (by simp [hdeclared]))
      · exact absurd hn List.not_mem_nil
  inside n sp hsp := by
    rw [hs.spans, List.mem_append] at hsp
    rcases hsp with hsp | hsp
    · exact h.inside n sp hsp
    · exact Corpus.lt_length_of_boundBy? (Option.mem_toList.1 (List.mem_of_mem_filter hsp))

end Bodied

end Scan

namespace Graph

variable {c : Corpus} {s : Scan} {g : Graph} {own : Text → List Record} {external : List Text}
  {r : Resolution} {n d : Text}

/-- Each of them is finished from the tables of a scan. -/
theorem Built.exists_scan (h : g.Built) : ∃ c s, Scan.Bodied c s ∧ s.finish c = g := by
  obtain ⟨c, collects, places, s, hrun, hfinish⟩ := h.exists_run
  exact ⟨c, s, Scan.run_carries (fun h hs => h.step hs) (Scan.Bodied.empty c) hrun, hfinish⟩

/-- The records of a graph put together what is declared for each name, those of the contributors
behind the own one. -/
structure Merges (own : Text → List Record) (g : Graph) : Prop where
  nodup : g.dependencies.keys.Nodup
  record_eq : ∀ n, g.record n = .concat (own n ++ (g.contributors n).flatMap own)
  known_of_own : ∀ n, own n ≠ [] → g.isKnown n = true
  known_of_contributor : ∀ a, ∀ n ∈ g.contributors a, g.isKnown n = true

theorem merges_finish (h : s.Bodied c) :
    (s.finish c).Merges fun n => (s.dependencies.get? n).toList where
  nodup := Table.nodup_keys_foldl_insert _ _ h.dependencies
  record_eq := Scan.record_finish h.toKeyed
  known_of_own n hn := by
    have hrecord : s.dependencies.has n = true := by
      rwa [Table.has, Option.isSome_iff_ne_none, Ne, ← Option.toList_eq_nil_iff]
    have hfinish : (s.finish c).dependencies.has n = true :=
      (Scan.has_finish h.toKeyed n).2 (Or.inl hrecord)
    simp [isKnown, hfinish]
  known_of_contributor a n hn := by
    have hbody : (s.finish c).blocks.has n = true := h.contributors a n hn
    simp [isKnown, hbody]

namespace Merges

/-- A reference of a name was declared for a name that it stands for. -/
theorem mem_nested_iff (h : g.Merges own) :
    d ∈ (g.record n).nested ↔ ∃ m, g.StandsFor n m ∧ ∃ record ∈ own m, d ∈ record.nested := by
  have hown : own n ++ (g.contributors n).flatMap own = (n :: g.contributors n).flatMap own := rfl
  rw [h.record_eq, hown, Record.concat, List.mem_flatMap]
  constructor
  · rintro ⟨record, hrecord, hd⟩
    obtain ⟨m, hm, hrecord⟩ := List.mem_flatMap.1 hrecord
    exact ⟨m, List.mem_cons.1 hm, record, hrecord, hd⟩
  · rintro ⟨m, hm, record, hrecord, hd⟩
    exact ⟨record, List.mem_flatMap.2 ⟨m, List.mem_cons.2 hm, hrecord⟩, hd⟩

/-- The report finds the references of all names, wherever their records stand. -/
theorem mem_undeclaredRefs (h : g.Merges own) :
    d ∈ g.undeclaredRefs ↔ (∃ n, d ∈ (g.record n).nested) ∧ g.isKnown d = false := by
  have hrow : ∀ row ∈ g.dependencies, g.record row.1 = row.2 := fun row hrow => by
    rw [record, (Table.get?_eq_some_iff h.nodup).2 hrow]
    rfl
  rw [undeclaredRefs, Text.mem_sorted, List.mem_filter, Bool.not_eq_true', List.mem_flatMap]
  refine and_congr_left fun _ => ⟨?_, ?_⟩
  · rintro ⟨row, hmem, hd⟩
    exact ⟨row.1, by rwa [hrow row hmem]⟩
  · rintro ⟨n, hd⟩
    have hkey : n ∈ g.dependencies.keys := by
      by_contra hnot
      rw [nested_eq_nil hnot] at hd
      exact List.not_mem_nil hd
    obtain ⟨row, hmem, rfl⟩ := List.mem_map.1 hkey
    exact ⟨row, hmem, hrow row hmem ▸ hd⟩

end Merges

theorem mem_knownNames : n ∈ g.knownNames ↔ g.isKnown n = true := by
  simp only [knownNames, Text.mem_sorted, List.mem_append, ← Table.has_iff_mem_keys, isKnown,
    Bool.or_eq_true]

/-- A closure of all known names has the unknown names that some name refers to, and no other
unknown ones. -/
theorem Closes.mem_names_of_unknown (h : g.Closes g.knownNames external r) (hg : g.Merges own)
    (hd : g.isKnown d = false) : d ∈ r.names ↔ ∃ n, d ∈ (g.record n).nested := by
  constructor
  · intro hmem
    obtain ⟨root, hroot, hreach⟩ := h.reached d hmem
    -- what is unknown is no root, so the way to it has a last step
    rcases Relation.ReflTransGen.cases_tail hreach with rfl | ⟨n, -, hedge⟩
    · rw [mem_knownNames.1 hroot] at hd
      cases hd
    · exact ⟨n, hedge⟩
  · rintro ⟨n, hn⟩
    obtain ⟨m, -, record, hrecord, hmem⟩ := hg.mem_nested_iff.1 hn
    have hm : m ∈ g.knownNames := mem_knownNames.2 (hg.known_of_own m (List.ne_nil_of_mem hrecord))
    -- `m` itself may never be visited, but some name stands for it
    obtain ⟨a, ha, hfor⟩ := h.requested m hm
    have hda : d ∈ (g.record a).nested := hg.mem_nested_iff.2 ⟨m, hfor, record, hrecord, hmem⟩
    obtain ⟨b, hb, rfl | hcontributor⟩ := h.closed a ha d hda
    · exact hb
    · rw [hg.known_of_contributor b d hcontributor] at hd
      cases hd

/-! ## The report -/

theorem exists_spansJson {spans : List BodySpan}
    (h : ∀ sp ∈ spans, sp.opening < g.corpus.lines.length) : ∃ js, g.spansJson spans = .ok js := by
  induction spans with
  | nil => exact ⟨[], rfl⟩
  | cons sp spans ih =>
    obtain ⟨hsp, hspans⟩ := List.forall_mem_cons.1 h
    obtain ⟨place, hplace⟩ := Corpus.exists_locate hsp
    obtain ⟨js, hjs⟩ := ih hspans
    exact ⟨_, by rw [spansJson, spanJson, Corpus.describe, hplace, hjs]; rfl⟩

theorem exists_blocksJson {rows : Table (List BodySpan)}
    (h : ∀ row ∈ rows, ∀ sp ∈ row.2, sp.opening < g.corpus.lines.length) :
    ∃ fields, g.blocksJson rows = .ok fields := by
  induction rows with
  | nil => exact ⟨[], rfl⟩
  | cons row rows ih =>
    obtain ⟨hrow, hrows⟩ := List.forall_mem_cons.1 h
    obtain ⟨js, hjs⟩ := exists_spansJson hrow
    obtain ⟨fields, hfields⟩ := ih hrows
    exact ⟨_, by rw [blocksJson, hjs, hfields]; rfl⟩

/-- The places of all bodies can be told. -/
theorem exists_toJson (h : s.Bodied c) : ∃ j, (s.finish c).toJson = .ok j := by
  have hrows : ∀ row ∈ s.blocks.sortByKey, ∀ sp ∈ row.2, sp.opening < c.lines.length := by
    intro row hrow sp hsp
    have hget : s.blocks.get? row.1 = some row.2 :=
      (Table.get?_eq_some_iff h.blocks).2 (List.mem_mergeSort.1 hrow)
    exact h.inside row.1 sp (by rwa [Scan.spans, hget])
  obtain ⟨fields, hfields⟩ := exists_blocksJson (g := s.finish c) hrows
  exact ⟨_, bind_eq_ok.2 ⟨fields, hfields, rfl⟩⟩

/-- Every graph that was built can be shown, and the report on it agrees with the closure of all its
known names on what is not declared. This closure succeeds under a ceiling of as many levels as
there are records, and the unknown names in its order are those that the report lists, each once
and by code points. -/
theorem summaryJson_lists_undeclared (h : g.Built) (external : List Text) :
    (∃ j, g.toJson = .ok j) ∧
    (∀ ceiling : Int, g.dependencies.length ≤ ceiling →
      ∃ r, g.resolve g.knownNames external ceiling = .ok r) ∧
    ∀ ceiling r, g.resolve g.knownNames external ceiling = .ok r →
      ∃ refs, g.summaryJson.field? "undeclared_nested_refs".toList = some (.texts refs) ∧
        refs.Nodup ∧ refs.Pairwise Text.Before ∧
        ∀ d, d ∈ refs ↔ d ∈ r.names ∧ g.isKnown d = false := by
  obtain ⟨c, s, hs, rfl⟩ := h.exists_scan
  have hmerges := merges_finish hs
  refine ⟨exists_toJson hs, fun ceiling hceiling => exists_resolve hceiling _ _,
    fun ceiling r hr => ?_⟩
  have hcloses := closes_of_resolve hr
  refine ⟨undeclaredRefs _, rfl, Text.nodup_sorted _, Text.pairwise_sorted _, fun d => ?_⟩
  rw [hmerges.mem_undeclaredRefs]
  exact and_congr_left fun hd => (hcloses.mem_names_of_unknown hmerges hd).symm

/-- An aggregate whose contributor is an aggregate of its own. The inner one and the name that
contributes to it declare one reference each. -/
def attic : List (Text × Text) :=
  [("a.org".toList, ("#+name: all\n#+begin_src x\n#+end_src\n#+name: box\n" ++
      "#+begin_src x :noweb-ref all\n#+end_src\n").toList),
    ("b.org".toList, ("#+name: cup\n#+begin_src x :noweb-ref box\n#+end_src\n" ++
      "#+depends:cup :noweb dust\n#+depends:box :noweb moth\n").toList)]

/-- `box` is passed over, and its record is the only one that holds both references. -/
theorem attic_undeclared : ∃ g, ofCorpus (Corpus.ofTexts attic) true = .ok g ∧
    g.contributors "all".toList = ["box".toList] ∧ g.contributors "box".toList = ["cup".toList] ∧
    (g.record "box".toList).nested = ["moth".toList, "dust".toList] ∧
    g.resolve g.knownNames [] 1 =
      .ok ⟨[], ["moth".toList, "all".toList, "dust".toList, "cup".toList],
        ["moth".toList, "dust".toList]⟩ ∧
    (∃ j, g.toJson = .ok j) ∧ (∃ r, g.resolve g.knownNames [] g.dependencies.length = .ok r) ∧
    ∃ refs, g.summaryJson.field? "undeclared_nested_refs".toList = some (.texts refs) ∧
      refs.Nodup ∧ refs.Pairwise Text.Before ∧
      ∀ d, d ∈ refs ↔ d ∈ ["moth".toList, "all".toList, "dust".toList, "cup".toList] ∧
        g.isKnown d = false := by
  have hclosed : (ofCorpus (Corpus.ofTexts attic) true >>= fun g =>
      (g.resolve ["all".toList, "box".toList, "cup".toList] [] 1).map fun r =>
        (r, [(g.blocks.keys ++ g.dependencies.keys ++ g.aggregates.keys).eraseDups,
          g.contributors "all".toList, g.contributors "box".toList,
          (g.record "box".toList).nested])) =
      .ok (⟨[], ["moth".toList, "all".toList, "dust".toList, "cup".toList],
          ["moth".toList, "dust".toList]⟩,
        [["all".toList, "box".toList, "cup".toList], ["box".toList], ["cup".toList],
          ["moth".toList, "dust".toList]]) := by
    decide +kernel
  obtain ⟨g, hg, hmap⟩ := bind_eq_ok.1 hclosed
  obtain ⟨r, hr, hparts⟩ := map_eq_ok.1 hmap
  simp only [Prod.mk.injEq, List.cons.injEq, and_true] at hparts
  obtain ⟨rfl, hkeys, hall, hbox, hrecord⟩ := hparts
  have hknown : g.knownNames = ["all".toList, "box".toList, "cup".toList] := by
    rw [knownNames, Text.sorted, hkeys]
    exact List.mergeSort_of_pairwise (by decide)
  rw [← hknown] at hr
  obtain ⟨hreported, hsucceeds, hlists⟩ := summaryJson_lists_undeclared (.ofCorpus hg) []
  exact ⟨g, hg, hall, hbox, hrecord, hr, hreported, hsucceeds _ (Int.le_refl _), hlists 1 _ hr⟩

end Graph

end OrgWeave
