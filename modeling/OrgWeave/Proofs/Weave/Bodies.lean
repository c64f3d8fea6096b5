import OrgWeave.Proofs.Closure.Ceiling
import OrgWeave.Proofs.Closure.Order
import OrgWeave.Proofs.Graph.Places
import OrgWeave.Proofs.Weave.Emission

/-!
# Bodies of a request

A requested name can be left out of a closure because an aggregate that it contributes to
is printed for it. That loses none of its bodies exactly if each of them is a body of the
aggregate, too (`Graph.ContributorsCovered`, `ContributorsCovered.keepsBodies`). A name that
both contributes to an aggregate and is one itself, or that several blocks are named by, can
have bodies that the aggregate does not have.

A body that has two names is woven under both of them exactly if the contributor is
printed before its aggregate, since a name is passed over only after what stands for it
(`WellBound.count_woven`).
-/

namespace OrgWeave.Graph

variable {g : Graph} {n a : Text} {names external : List Text} {ceiling : Int} {r : Resolution}
  {span : BodySpan}

/-! ## Bodies that are kept -/

/-- All bodies of a contributor are bodies of its aggregate. -/
def ContributorsCovered (g : Graph) : Prop :=
  ∀ a n, n ∈ g.contributors a → g.spans n ⊆ g.spans a

/-- The closure `r` of a request for `names` keeps all their bodies, and leaves a name out only
for an aggregate that has all its bodies. -/
structure KeepsBodies (g : Graph) (names : List Text) (r : Resolution) : Prop where
  held : ∀ n ∈ names, ∀ span ∈ g.spans n, ∃ m ∈ r.names, span ∈ g.spans m
  woven : ∀ n ∈ names, ∀ span ∈ g.spans n, span ∈ g.woven r.names
  streamed : ∀ n ∈ names, ∀ span ∈ g.spans n, ∀ o t, g.stream o r = .ok t →
    ∃ ls, g.weaveBody o span = .ok ls ∧ o.written ls <:+: t
  dropped : ∀ n ∈ names, n ∉ r.names →
    ∃ a ∈ r.names, n ∈ g.contributors a ∧ g.spans n ⊆ g.spans a

theorem ContributorsCovered.spans_subset (h : g.ContributorsCovered) (hfor : g.StandsFor a n) :
    g.spans n ⊆ g.spans a := by
  rcases hfor with rfl | hn
  · exact List.Subset.refl _
  · exact h a n hn

/-- Bodies of a requested name are woven, under a name that stands for what stands for it. -/
theorem ContributorsCovered.mem_woven (h : g.ContributorsCovered)
    (hr : g.resolve names external ceiling = .ok r) (hn : n ∈ names) (hspan : span ∈ g.spans n) :
    span ∈ g.woven r.names := by
  obtain ⟨a, ha, hfor⟩ := (closes_of_resolve hr).requested n hn
  have hcovering : a ∈ ([] : Emitted) ∨ ∃ m ∈ r.names,
      g.StandsFor m a ∧ (g.spans m ≠ [] → m ∈ g.printed [] r.names) := exists_covering ha
  obtain hnil | ⟨m, -, hfor', hprinted⟩ := hcovering
  · exact absurd hnil List.not_mem_nil
  · have hm : span ∈ g.spans m := h.spans_subset hfor' (h.spans_subset hfor hspan)
    exact Graph.mem_woven.2 ⟨m, hprinted (List.ne_nil_of_mem hm), hm⟩

theorem ContributorsCovered.keepsBodies (h : g.ContributorsCovered)
    (hr : g.resolve names external ceiling = .ok r) : g.KeepsBodies names r where
  held n hn span hspan := by
    obtain ⟨a, ha, hfor⟩ := (closes_of_resolve hr).requested n hn
    exact ⟨a, ha, h.spans_subset hfor hspan⟩
  woven n hn span hspan := h.mem_woven hr hn hspan
  streamed n hn span hspan o t ht := infix_stream ht (h.mem_woven hr hn hspan)
  dropped n hn hdropped := by
    obtain ⟨a, ha, rfl | hna⟩ := (closes_of_resolve hr).requested n hn
    · exact absurd ha hdropped
    · exact ⟨a, ha, hna, h a n hna⟩

/-- A contributor that is asked for after its aggregate is left out. -/
theorem not_mem_names_of_contributor (hna : n ∈ g.contributors a) (hne : n ≠ a)
    (hr : g.resolve [a, n] external ceiling = .ok r) : n ∉ r.names := by
  obtain ⟨t, hw, hnames, -⟩ := exists_walk_of_resolve hr
  rw [hnames]
  cases hw with
  | pass seen _ => exact absurd seen List.not_mem_nil
  | @visit _ u _ _ _ _ inner rest =>
    have hseen : n ∈ (Trail.empty.enter g a).seen :=
      (Trail.mem_enter_seen g _ _).2 (Or.inl (Or.inr hna))
    have hinner : n ∉ u.names :=
      inner.not_mem_names hseen (by simp [Trail.enter_names, Trail.empty])
    refine rest.not_mem_names (inner.seen_subset hseen) ?_
    simp [Trail.leave, hinner, hne]

/-- No request for known names loses a body exactly if all bodies of each contributor are
bodies of its aggregate. -/
theorem requests_keep_bodies_iff {docs : List (Text × Text)} {collects : Bool}
    (hg : ofCorpus (Corpus.ofTexts docs) collects = .ok g) :
    g.ContributorsCovered ↔ ∀ names external ceiling r, (∀ n ∈ names, g.isKnown n = true) →
      g.resolve names external ceiling = .ok r → g.KeepsBodies names r := by
  have hbound := wellBound_of_ofCorpus hg
  refine ⟨fun h names external ceiling r _ hr => h.keepsBodies hr, fun h a n hna => ?_⟩
  -- the aggregate is asked for first, under a ceiling that is never in the way
  obtain ⟨hne, span, hspan, hspan'⟩ := hbound.shared hna
  obtain ⟨r, hr⟩ := exists_resolve (Int.le_refl g.dependencies.length) [a, n] []
  have hknown : ∀ m ∈ [a, n], g.isKnown m = true := by
    intro m hm
    simp only [List.mem_cons, List.not_mem_nil, or_false] at hm
    rcases hm with rfl | rfl
    · exact g.isKnown_of_mem_spans hspan'
    · exact g.isKnown_of_mem_spans hspan
  obtain ⟨b, -, hnb, hsub⟩ := (h [a, n] [] _ r hknown hr).dropped n (by simp)
    (not_mem_names_of_contributor hna hne hr)
  -- what it is left out for has the body that it shares, so it is the aggregate
  rcases hbound.two_names hspan hspan' (hsub hspan) with heq | heq | rfl
  · exact absurd heq hne
  · exact absurd heq (hbound.shared hnb).1
  · exact hsub

/-- A block that is named `c` and shares the name `all`, and one that shares the name `c`. -/
def divided : List (Text × Text) :=
  [("d.org".toList, ("#+name: c\n#+begin_src x :noweb-ref all\none\n#+end_src\n" ++
    "#+begin_src x :noweb-ref c\ntwo\n#+end_src\n").toList)]

/-- The graph of `divided`, in which the contributor `c` has one body more than `all`. -/
def dividedGraph : Graph where
  corpus := Corpus.ofTexts divided
  blocks :=
    [("c".toList, [⟨1, 3, true, by decide⟩, ⟨4, 6, true, by decide⟩]),
      ("all".toList, [⟨1, 3, true, by decide⟩])]
  dependencies := [("all".toList, .empty)]
  aggregates := [("all".toList, ["c".toList])]
  tangles := []

theorem ofCorpus_divided : ofCorpus (Corpus.ofTexts divided) false = .ok dividedGraph := by
  decide +kernel

theorem contributors_dividedGraph (h : n ∈ dividedGraph.contributors a) :
    n = "c".toList ∧ a = "all".toList := by
  by_cases ha : a = "all".toList
  · subst ha
    exact ⟨List.mem_singleton.1 h, rfl⟩
  · have hnone : dividedGraph.aggregates.get? a = none := by
      rw [Table.get?, List.lookup_eq_none_iff]
      intro row hrow
      rw [List.mem_singleton.1 hrow]
      exact bne_iff_ne.2 ha
    simp [contributors, hnone] at h

/-- Asked for after `all`, the name `c` is left out together with its second body. -/
theorem divided_loses_body :
    (ofCorpus (Corpus.ofTexts divided) false = .ok dividedGraph ∧
      dividedGraph.resolve ["all".toList, "c".toList] [] 256 = .ok ⟨[], ["all".toList], []⟩ ∧
      (⟨4, 6, true, by decide⟩ : BodySpan) ∈ dividedGraph.spans "c".toList ∧
      (⟨4, 6, true, by decide⟩ : BodySpan) ∉ dividedGraph.spans "all".toList) ∧
    ¬∀ names external ceiling r, (∀ n ∈ names, dividedGraph.isKnown n = true) →
      dividedGraph.resolve names external ceiling = .ok r → dividedGraph.KeepsBodies names r := by
  have hin : (⟨4, 6, true, by decide⟩ : BodySpan) ∈ dividedGraph.spans "c".toList := by decide
  have hout : (⟨4, 6, true, by decide⟩ : BodySpan) ∉ dividedGraph.spans "all".toList := by decide
  have hnot : ¬dividedGraph.ContributorsCovered :=
    fun h => hout (h "all".toList "c".toList (by decide) hin)
  exact ⟨⟨ofCorpus_divided, by decide, hin, hout⟩,
    fun h => hnot ((requests_keep_bodies_iff ofCorpus_divided).2 h)⟩

/-! ## Bodies that are repeated -/

/-- Those of the names that have the body, in order. -/
def holders (g : Graph) (span : BodySpan) (names : List Text) : List Text :=
  names.filter fun n => decide (span ∈ g.spans n)

theorem mem_holders : n ∈ g.holders span names ↔ n ∈ names ∧ span ∈ g.spans n := by
  simp [holders]

/-- A body stands once among the bodies of names for each of them that has it. -/
theorem WellBound.count_flatMap_spans (h : g.WellBound) (span : BodySpan) (names : List Text) :
    (names.flatMap g.spans).count span = (g.holders span names).length := by
  induction names with
  | nil => rfl
  | cons n names ih =>
    rw [List.flatMap_cons, List.count_append, ih, holders, holders, List.filter_cons]
    by_cases hspan : span ∈ g.spans n
    · rw [List.count_eq_one_of_mem (h.nodup n) hspan, if_pos (by simpa using hspan),
        List.length_cons, Nat.add_comm]
    · rw [List.count_eq_zero_of_not_mem hspan, if_neg (by simpa using hspan), Nat.zero_add]

/-- A body is printed under no name, or under one, or under a contributor and then under its
aggregate. -/
theorem WellBound.holders_printed (h : g.WellBound) (span : BodySpan) (names : List Text) :
    (g.holders span (g.printed [] names)).length ≤ 1 ∨
      ∃ n a, n ∈ g.contributors a ∧ g.holders span (g.printed [] names) = [n, a] := by
  have hpair : (g.holders span (g.printed [] names)).Pairwise fun m n => ¬g.StandsFor m n :=
    (g.printed_pairwise [] names).filter _
  have hmem : ∀ n ∈ g.holders span (g.printed [] names), span ∈ g.spans n :=
    fun n hn => (mem_holders.1 hn).2
  match hholders : g.holders span (g.printed [] names) with
  | [] => exact Or.inl (Nat.zero_le 1)
  | [_] => exact Or.inl (Nat.le_refl 1)
  | n :: a :: rest =>
    rw [hholders] at hpair hmem
    have hn : span ∈ g.spans n := hmem n (by simp)
    have ha : span ∈ g.spans a := hmem a (by simp)
    obtain ⟨hfirst, hpair⟩ := List.pairwise_cons.1 hpair
    have hna : ¬g.StandsFor n a := hfirst a (by simp)
    have hcontributes : n ∈ g.contributors a := by
      rcases h.contributes hn ha with rfl | hna' | han
      · exact absurd (Or.inl rfl) hna
      · exact hna'
      · exact absurd (Or.inr han) hna
    cases rest with
    | nil => exact Or.inr ⟨n, a, hcontributes, rfl⟩
    | cons k rest =>
      -- a body that is printed three times would have three names
      have hnk : ¬g.StandsFor n k := hfirst k (by simp)
      have hak : ¬g.StandsFor a k := (List.pairwise_cons.1 hpair).1 k (by simp)
      rcases h.two_names hn ha (hmem k (by simp)) with heq | heq | heq
      · exact absurd (Or.inl heq.symm) hna
      · exact absurd (Or.inl heq.symm) hnk
      · exact absurd (Or.inl heq.symm) hak

/-- A body is woven twice if it has two names and the contributor is printed first. -/
theorem WellBound.count_woven (h : g.WellBound) (span : BodySpan) (names : List Text) :
    (g.woven names).count span ≤ 2 ∧
      ((g.woven names).count span = 2 ↔ ∃ n a, n ∈ g.contributors a ∧
        [n, a].Sublist (g.printed [] names) ∧ span ∈ g.spans n ∧ span ∈ g.spans a) := by
  have hcount : (g.woven names).count span = (g.holders span (g.printed [] names)).length :=
    h.count_flatMap_spans span _
  have htwo : ∀ n a, [n, a].Sublist (g.printed [] names) → span ∈ g.spans n → span ∈ g.spans a →
      2 ≤ (g.holders span (g.printed [] names)).length := by
    intro n a hsub hn ha
    have hfilter : (g.holders span [n, a]).length ≤ (g.holders span (g.printed [] names)).length :=
      (hsub.filter _).length_le
    simpa [holders, hn, ha] using hfilter
  rw [hcount]
  rcases h.holders_printed span names with hle | ⟨n, a, hna, hholders⟩
  · refine ⟨by omega, by omega, ?_⟩
    rintro ⟨n, a, -, hsub, hn, ha⟩
    have := htwo n a hsub hn ha
    omega
  · rw [hholders]
    refine ⟨Nat.le_refl 2, fun _ => ⟨n, a, hna, ?_, ?_, ?_⟩, fun _ => rfl⟩
    · rw [← hholders]
      exact List.filter_sublist
    · exact (mem_holders.1 (hholders ▸ List.mem_cons_self)).2
    · exact (mem_holders.1 (hholders ▸ List.mem_cons_of_mem n List.mem_cons_self)).2

/-- Weaving names from the start weaves the bodies of the printed names. No name is printed
twice or after an aggregate that it contributes to. So no body is woven more than twice, and
one that is woven twice has a contributor printed before its aggregate; if no contributor
stands before its aggregate among the names then no body is woven twice. -/
theorem weaveBlocks_bodies {docs : List (Text × Text)} {collects : Bool}
    (hg : ofCorpus (Corpus.ofTexts docs) collects = .ok g) (o : WeaveOptions)
    (names : List Text) :
    (g.weaveBlocks o [] names).1 = gather (fun n =>
        gather (g.weaveBody o) (g.spans n) >>= fun ls =>
          .ok (if o.literal then Text.quoteLines ls else ls.flatten)) (g.printed [] names) ∧
      (g.printed [] names).Sublist names ∧
      (g.printed [] names).Pairwise (fun m n => ¬g.StandsFor m n) ∧
      ∀ span, (g.woven names).count span ≤ 2 ∧
        ((g.woven names).count span = 2 ↔ ∃ n a, n ∈ g.contributors a ∧
          [n, a].Sublist (g.printed [] names) ∧ span ∈ g.spans n ∧ span ∈ g.spans a) ∧
        ((∀ n a, n ∈ g.contributors a → ¬[n, a].Sublist names) →
          (g.woven names).count span ≤ 1) := by
  have hbound := wellBound_of_ofCorpus hg
  refine ⟨?_, printed_sublist [] names, g.printed_pairwise [] names, fun span => ?_⟩
  · rw [weaveBlocks, emit_eq_gather]
    exact gather_congr fun n hn => blockText_eq (of_mem_printed hn).2
  · obtain ⟨hle, htwo⟩ := hbound.count_woven span names
    refine ⟨hle, htwo, fun hbefore => ?_⟩
    have hne : (g.woven names).count span ≠ 2 := by
      intro heq
      obtain ⟨n, a, hna, hsub, -⟩ := htwo.1 heq
      exact hbefore n a hna (hsub.trans (printed_sublist [] names))
    omega

/-- Asked for before `all`, the name `c` has its first body woven twice. -/
theorem divided_repeats_body :
    ofCorpus (Corpus.ofTexts divided) false = .ok dividedGraph ∧
      dividedGraph.resolve ["c".toList, "all".toList] [] 256 =
        .ok ⟨[], ["c".toList, "all".toList], []⟩ ∧
      (dividedGraph.weaveBlocks {} [] ["c".toList, "all".toList]).1 =
        .ok "one\ntwo\none\n".toList ∧
      ¬(dividedGraph.woven ["c".toList, "all".toList]).count ⟨1, 3, true, by decide⟩ ≤ 1 := by
  exact ⟨ofCorpus_divided, by decide, by decide +kernel, by decide⟩

/-- In the other order no body is woven twice. -/
theorem divided_weaves_once :
    ofCorpus (Corpus.ofTexts divided) false = .ok dividedGraph ∧
      (dividedGraph.woven ["c".toList, "all".toList]).count ⟨1, 3, true, by decide⟩ = 2 ∧
      ∀ span, (dividedGraph.woven ["all".toList, "c".toList]).count span ≤ 1 := by
  have hbefore : ∀ n a, n ∈ dividedGraph.contributors a →
      ¬[n, a].Sublist ["all".toList, "c".toList] := by
    intro n a hna
    obtain ⟨rfl, rfl⟩ := contributors_dividedGraph hna
    decide
  obtain ⟨-, -, -, hcount⟩ := weaveBlocks_bodies ofCorpus_divided {} ["c".toList, "all".toList]
  obtain ⟨-, -, -, honce⟩ := weaveBlocks_bodies ofCorpus_divided {} ["all".toList, "c".toList]
  refine ⟨ofCorpus_divided, (hcount _).2.1.2 ?_, fun span => (honce span).2.2 hbefore⟩
  exact ⟨"c".toList, "all".toList, by decide, by decide, by decide, by decide⟩

end OrgWeave.Graph
