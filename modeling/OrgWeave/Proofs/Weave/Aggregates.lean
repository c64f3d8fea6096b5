import Mathlib.Data.List.Sort
import OrgWeave.Proofs.Graph.Spans
import OrgWeave.Proofs.Weave.Emission

/-!
# Aggregates

A block that shares a name is entered twice : its body among those of the shared name, and its own
name among the contributors. Where all bodies of the shared name are blocks with another name of
their own, the two lists go together, body by body
(`Graph.Tabulates.contributors_name_spans`), as both are filled in the order of the blocks. If
besides none of the contributors has a second body, the aggregate is woven as its contributors are,
one after another (`Graph.weaveBlock_aggregate`).

All of it follows from the places that are looked at, as long as they stand in order, and so holds
of the lines of a corpus as of elements. Which blocks share the name depends on the places : a block
inside a quotation is one of its lines, and no element.
-/

namespace OrgWeave

open Org

variable {α β γ : Type}

/-- The items that `f` has a value for other than `r` go together with these values. -/
theorem forall₂_filterMap [DecidableEq β] {f : α → Option β} {r : β} :
    ∀ {as : List α}, (∀ a ∈ as, ∃ b, f a = some b ∧ b ≠ r) →
      List.Forall₂ (fun a b => f a = some b) as ((as.filterMap f).filter (· ≠ r))
  | [], _ => .nil
  | a :: as, h => by
    obtain ⟨⟨b, hb, hne⟩, has⟩ := List.forall_mem_cons.1 h
    rw [List.filterMap_cons_some hb, List.filter_cons_of_pos (by simpa using hne)]
    exact .cons hb (forall₂_filterMap has)

/-- Items that come to the same, one by one, are gathered to the same. -/
theorem gather_eq_of_forall₂ {ε : Type} {f : α → Except ε (List β)} {f' : γ → Except ε (List β)}
    {as : List α} {cs : List γ} (h : List.Forall₂ (fun a c => f a = f' c) as cs) :
    gather f as = gather f' cs := by
  induction h with
  | nil => rfl
  | cons ha _ ih => rw [gather, gather, ha, ih]

theorem gather_singleton {ε : Type} (f : α → Except ε (List β)) (a : α) : gather f [a] = f a := by
  rw [gather, gather]
  cases f a with
  | error e => rfl
  | ok bs => exact congrArg Except.ok (List.append_nil bs)

namespace Graph

variable {collects : Bool} {g : Graph} {r : Text}

/-- The bodies of a name that no block is given on the line before it are those of the blocks that
share it. -/
theorem Tabulates.map_opening {c : Corpus} {places : List Nat} (h : Tabulates c collects places g)
    (hinc : places.Pairwise (· < ·)) (hshared : ∀ sp ∈ g.spans r, ¬c.NamedAt places sp.opening r) :
    (g.spans r).map (·.opening) = places.filter fun i => c.Shares i r := by
  have hopenings := List.pairwise_map.2 (h.increasing r)
  refine List.Pairwise.eq_of_mem_iff hopenings (hinc.filter _) fun i => ?_
  rw [List.mem_map, List.mem_filter, decide_eq_true_iff]
  constructor
  · rintro ⟨sp, hsp, rfl⟩
    exact ((h.mem_spans r sp).1 hsp).1.resolve_left (hshared sp hsp)
  · exact fun hi => ⟨c.bodyAt i, (h.mem_spans r _).2 ⟨Or.inr hi, rfl⟩, rfl⟩

/-- If the blocks of a name have other names of their own, these are its contributors, one for each
body. -/
theorem Tabulates.contributors_name_spans {c : Corpus} {places : List Nat}
    (h : Tabulates c collects places g) (hinc : places.Pairwise (· < ·))
    (hnamed : ∀ sp ∈ g.spans r, ∃ n, n ≠ r ∧ c.NamedAt places sp.opening n) :
    List.Forall₂ (fun sp n => sp ∈ g.spans n) (g.spans r) (g.contributors r) := by
  have hopenings := h.map_opening hinc fun sp hsp hr => by
    obtain ⟨n, hne, hn⟩ := hnamed sp hsp
    exact hne (hn.unique hr)
  have hpairs : List.Forall₂ (fun sp n => sp ∈ g.spans r ∧
      c.declared? places sp.opening = some n) (g.spans r) (g.contributors r) := by
    rw [h.contributors_eq, Corpus.contributorsOf, ← hopenings, List.filterMap_map]
    refine (List.forall₂_and_left _ _).2 ⟨fun sp hsp => hsp, forall₂_filterMap fun sp hsp => ?_⟩
    obtain ⟨n, hne, hn⟩ := hnamed sp hsp
    exact ⟨n, Corpus.declared?_eq_some_iff.2 hn, hne⟩
  refine hpairs.imp ?_
  rintro sp n ⟨hsp, hn⟩
  have hbody := ((h.mem_spans r sp).1 hsp).2
  exact (h.mem_spans n sp).2 ⟨Or.inl (Corpus.declared?_eq_some_iff.1 hn), hbody⟩

/-- An aggregate is what its contributors are, one after another, however the graph is built : from
all lines of a corpus, from elements one behind another, or from the elements of documents. If its
blocks all have other names of their own, and none of these names has a second body, the aggregate
comes to the lines of its contributors in their order, or to the first error among these. -/
theorem weaveBlock_aggregate {c : Corpus} {places : List Nat} (h : BuiltInOrder c places g)
    (hr : g.aggregates.has r = true)
    (hnamed : ∀ sp ∈ g.spans r, ∃ n, n ≠ r ∧ c.NamedAt places sp.opening n)
    (hsingle : ∀ n ∈ g.contributors r, ∃ sp, g.spans n = [sp]) (o : WeaveOptions) :
    g.weaveBlock o r = gather (g.weaveBlock o) (g.contributors r) := by
  obtain ⟨hinc, collects, htable⟩ := h.tabulates
  have hpairs := htable.contributors_name_spans hinc hnamed
  have hbody : g.spans r ≠ [] := by
    rw [htable.has_aggregate, ← htable.contributors_eq] at hr
    intro hnil
    rw [hnil] at hpairs
    cases hcontributors : g.contributors r with
    | nil => exact hr hcontributors
    | cons n ns =>
      rw [hcontributors] at hpairs
      cases hpairs
  rw [weaveBlock_eq_gather hbody]
  have hsingles := (List.forall₂_and_left _ _).2 ⟨hsingle, hpairs.flip⟩
  refine gather_eq_of_forall₂ (hsingles.flip.imp ?_)
  rintro sp n ⟨⟨sp', hn⟩, hsp⟩
  rw [hn, List.mem_singleton] at hsp
  rw [weaveBlock_eq_gather (by simp [hn]), hn, gather_singleton, hsp]

/-- Two blocks of different documents that share `all`. The first one expands a marker; the second
one keeps it, and is in a block of another kind. -/
def choir : List (Text × Text) :=
  [("a.org".toList, ["#+name: a\n", "#+begin_src x :noweb-ref all\n", " <<t>>\n", "#+end_src\n",
      "#+name: t\n", "#+begin_src x\n", "one\n", "#+end_src\n"].flatMap String.toList),
    ("b.org".toList, ["#+begin_quote\n", "#+name: b\n",
      "#+begin_src x :noweb-ref all :noweb no\n", "<<t>>\n", "#+end_src\n",
      "#+end_quote\n"].flatMap String.toList)]

/-- For the lines, the aggregate is both blocks in order; without levels it fails as the first one
does. For the elements, it is the first block alone. -/
theorem choir_aggregate :
    (∃ g, ofLines (Corpus.ofTexts choir) true = .ok g ∧
      g.contributors "all".toList = ["a".toList, "b".toList] ∧
      g.weaveBlock {} "all".toList = .ok [" one\n".toList, "<<t>>\n".toList] ∧
      (∀ o, g.weaveBlock o "all".toList =
        gather (g.weaveBlock o) (g.contributors "all".toList)) ∧
      gather (g.weaveBlock { maxDepth := 0 }) (g.contributors "all".toList) =
        .error (.depthExceeded .weaving 0 "t".toList)) ∧
    ∃ g, ofCorpus (Corpus.ofTexts choir) true = .ok g ∧
      g.contributors "all".toList = ["a".toList] ∧
      ∀ o, g.weaveBlock o "all".toList =
        gather (g.weaveBlock o) (g.contributors "all".toList) := by
  have hnames : (Corpus.ofTexts choir).Names 0 "a".toList ∧
      (Corpus.ofTexts choir).Names 9 "b".toList := by
    rw [← Corpus.name?_eq_some_iff, ← Corpus.name?_eq_some_iff]
    decide +kernel
  constructor
  · have htables : (ofLines (Corpus.ofTexts choir) true).map (fun g =>
        (g.aggregates.has "all".toList, (g.spans "all".toList).map (·.opening),
          g.contributors "all".toList, (g.spans "a".toList).length, (g.spans "b".toList).length)) =
        .ok (true, [1, 10], ["a".toList, "b".toList], 1, 1) := by
      decide +kernel
    have hweaves : (ofLines (Corpus.ofTexts choir) true).map (fun g =>
        (g.weaveBlock {} "all".toList, g.weaveBlock { maxDepth := 0 } "all".toList)) =
        .ok (.ok [" one\n".toList, "<<t>>\n".toList],
          .error (.depthExceeded .weaving 0 "t".toList)) := by
      decide +kernel
    have hlength : (Corpus.ofTexts choir).lines.length = 14 := by
      decide +kernel
    obtain ⟨g, hg, hvalues⟩ := map_eq_ok.1 htables
    rw [hg, Except.map, Except.ok.injEq] at hweaves
    simp only [Prod.mk.injEq] at hvalues hweaves
    obtain ⟨haggregate, hopenings, hcontributors, ha, hb⟩ := hvalues
    have hnamed : ∀ sp ∈ g.spans "all".toList, ∃ n, n ≠ "all".toList ∧
        (Corpus.ofTexts choir).NamedAt (List.range (Corpus.ofTexts choir).lines.length)
          sp.opening n := by
      intro sp hsp
      have hopening : sp.opening ∈ [1, 10] := hopenings ▸ List.mem_map_of_mem hsp
      simp only [List.mem_cons, List.not_mem_nil, or_false] at hopening
      rcases hopening with hopening | hopening
      · exact ⟨_, by decide, 0, by simp [hlength], hopening, hnames.1⟩
      · exact ⟨_, by decide, 9, by simp [hlength], hopening, hnames.2⟩
    have hsingle : ∀ n ∈ g.contributors "all".toList, ∃ sp, g.spans n = [sp] := by
      rw [hcontributors]
      intro n hn
      simp only [List.mem_cons, List.not_mem_nil, or_false] at hn
      rcases hn with rfl | rfl
      · exact List.length_eq_one_iff.1 ha
      · exact List.length_eq_one_iff.1 hb
    have hall := weaveBlock_aggregate (.ofLines hg) haggregate hnamed hsingle
    exact ⟨g, hg, hcontributors, hweaves.1, hall, (hall _).symm.trans hweaves.2⟩
  · have htables : (ofCorpus (Corpus.ofTexts choir) true).map (fun g =>
        (g.aggregates.has "all".toList, (g.spans "all".toList).map (·.opening),
          g.contributors "all".toList, (g.spans "a".toList).length)) =
        .ok (true, [1], ["a".toList], 1) := by
      decide +kernel
    obtain ⟨g, hg, hvalues⟩ := map_eq_ok.1 htables
    simp only [Prod.mk.injEq] at hvalues
    obtain ⟨haggregate, hopenings, hcontributors, ha⟩ := hvalues
    obtain ⟨es, hes, -, htable⟩ := tabulates_of_ofCorpus hg
    have hnamed : ∀ sp ∈ g.spans "all".toList, ∃ n, n ≠ "all".toList ∧
        (Corpus.ofTexts choir).NamedAt (directivePlaces es) sp.opening n := by
      intro sp hsp
      have hopening : sp.opening ∈ [1] := hopenings ▸ List.mem_map_of_mem hsp
      rw [List.mem_singleton] at hopening
      have hbinds := ((htable.mem_spans _ sp).1 hsp).1
      rw [hopening] at hbinds ⊢
      exact ⟨_, by decide, namedAt_of_names hes hbinds hnames.1⟩
    have hsingle : ∀ n ∈ g.contributors "all".toList, ∃ sp, g.spans n = [sp] := by
      rw [hcontributors]
      intro n hn
      rw [List.mem_singleton.1 hn]
      exact List.length_eq_one_iff.1 ha
    exact ⟨g, hg, hcontributors, weaveBlock_aggregate (.ofCorpus hes hg) haggregate hnamed hsingle⟩

end Graph

end OrgWeave
