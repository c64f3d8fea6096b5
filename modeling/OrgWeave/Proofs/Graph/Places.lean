import OrgWeave.Proofs.Document.Tiling
import OrgWeave.Proofs.Graph.Bindings

/-!
# The places of directives

The elements of a corpus tile it, document after document (`tiles_of_parseCorpus`), so the
directive lines among them are looked at in increasing order. The graph of a corpus
therefore holds what these places bind (`Graph.binds_of_ofCorpus`).

A block is bound to two names at most, the one that it is given and the one that it shares,
and if it has both the first one contributes to the second. `Graph.WellBound` says this of
the finished graph.
-/

namespace OrgWeave

open Org Text

namespace Org

/-- Documents that stand behind `before` are parsed into elements that tile them. -/
theorem tiles_of_gather {c : Corpus} (docs : List (Text × Text)) :
    ∀ (before : List Line) {es : List Element},
      c.lines = before ++ docs.flatMap (fun d => splitLines d.2) →
      gather (fun d => parse Rule.order d.start (c.slice d.start d.stop))
        (Corpus.rangesFrom before.length docs) = .ok es →
      Tiles before.length c.lines.length es := by
  induction docs with
  | nil =>
    intro before es hlines h
    cases h
    simp [Tiles, hlines]
  | cons d docs ih =>
    intro before es hlines h
    obtain ⟨head, tail, hhead, htail, rfl⟩ := gather_cons_eq_ok.1 h
    have hslice : c.slice before.length (before.length + (splitLines d.2).length) =
        splitLines d.2 := by
      simp [Corpus.slice, hlines]
    have hread := reads_of_parse hhead
    rw [hslice] at hread
    have hheadLines : elementLines head = splitLines d.2 := by simpa using hread.lines
    have htiles := hread.tiles
    rw [hheadLines] at htiles
    refine htiles.append ?_
    have hnext : Tiles (before ++ splitLines d.2).length c.lines.length tail :=
      ih (before ++ splitLines d.2) (by simp [hlines]) (by simpa using htail)
    simpa using hnext

theorem tiles_of_parseCorpus {docs : List (Text × Text)} {es : List Element}
    (h : parseCorpus (Corpus.ofTexts docs) = .ok es) :
    Tiles 0 (Corpus.ofTexts docs).lines.length es :=
  tiles_of_gather docs [] rfl h

/-- Every corpus can be parsed. -/
theorem exists_parseCorpus (c : Corpus) : ∃ es, parseCorpus c = .ok es :=
  exists_gather fun _ _ => exists_parse_order _ _

/-- The first lines of the elements that can hold a directive, in order. -/
def directivePlaces (es : List Element) : List Nat :=
  (es.filter (·.holdsDirective)).map (·.start.toNat)

/-- Elements that tile a corpus hold their directives one after another. -/
theorem Tiles.increasing_directivePlaces {es : List Element} {stop : Int} (h : Tiles 0 stop es) :
    (directivePlaces es).Pairwise (· < ·) := by
  refine List.pairwise_map.2 ((h.increasing.filter _).imp_of_mem ?_)
  intro e e' he he' hlt
  have := h.le_start e (List.mem_of_mem_filter he)
  omega

theorem lt_length_of_mem_directivePlaces {es : List Element} {length : Nat}
    (h : Tiles 0 length es) : ∀ i ∈ directivePlaces es, i < length := by
  intro i hi
  obtain ⟨e, he, rfl⟩ := List.mem_map.1 hi
  have hmem := List.mem_of_mem_filter he
  have := h.le_start e hmem
  have := h.start_lt e hmem
  omega

end Org

namespace Graph

/-- The directive places of a corpus, from the first to the last, with what they bind. -/
theorem binds_of_ofCorpus {docs : List (Text × Text)} {collects : Bool} {g : Graph}
    (h : ofCorpus (Corpus.ofTexts docs) collects = .ok g) :
    ∃ places, Binds (Corpus.ofTexts docs) places g := by
  obtain ⟨es, hes, h⟩ := bind_eq_ok.1 h
  exact ⟨directivePlaces es,
    binds_of_ofPlaces (tiles_of_parseCorpus hes).increasing_directivePlaces h⟩

/-- A body is bound once to each of its names. It has two names at most, and if it has two
then one of them contributes to the other. -/
structure WellBound (g : Graph) : Prop where
  nodup : ∀ n, (g.spans n).Nodup
  contributes : ∀ {sp : BodySpan} {n m : Text}, sp ∈ g.spans n → sp ∈ g.spans m →
    n = m ∨ n ∈ g.contributors m ∨ m ∈ g.contributors n
  two_names : ∀ {sp : BodySpan} {n m k : Text}, sp ∈ g.spans n → sp ∈ g.spans m →
    sp ∈ g.spans k → n = m ∨ n = k ∨ m = k
  /-- A contributor is not the aggregate, and shares a body with it. -/
  shared : ∀ {n a : Text}, n ∈ g.contributors a → n ≠ a ∧ ∃ sp ∈ g.spans n, sp ∈ g.spans a

/-- A block is bound by the name in front of it or by the name that it shares. -/
theorem Binds.wellBound {c : Corpus} {places : List Nat} {g : Graph} (h : Binds c places g) :
    g.WellBound where
  nodup n := (h.increasing n).imp fun hlt heq => by
    rw [heq] at hlt
    exact Nat.lt_irrefl _ hlt
  contributes {sp n m} hn hm := by
    rw [h.mem_contributors, h.mem_contributors]
    obtain ⟨hn, -⟩ := (h.mem_spans n sp).1 hn
    obtain ⟨hm, -⟩ := (h.mem_spans m sp).1 hm
    by_cases hnm : n = m
    · exact Or.inl hnm
    · rcases hn with hn | ⟨ho, hn⟩ <;> rcases hm with hm | ⟨ho', hm⟩
      · exact absurd (hn.unique hm) hnm
      · exact Or.inr (Or.inl ⟨hnm, _, ho', hn, hm⟩)
      · exact Or.inr (Or.inr ⟨Ne.symm hnm, _, ho, hm, hn⟩)
      · exact absurd (hn.unique hm) hnm
  two_names {sp n m k} hn hm hk := by
    obtain ⟨hn, -⟩ := (h.mem_spans n sp).1 hn
    obtain ⟨hm, -⟩ := (h.mem_spans m sp).1 hm
    obtain ⟨hk, -⟩ := (h.mem_spans k sp).1 hk
    -- two of the three are bound in the same way
    rcases hn with hn | ⟨-, hn⟩ <;> rcases hm with hm | ⟨-, hm⟩
    · exact Or.inl (hn.unique hm)
    · rcases hk with hk | ⟨-, hk⟩
      · exact Or.inr (Or.inl (hn.unique hk))
      · exact Or.inr (Or.inr (hm.unique hk))
    · rcases hk with hk | ⟨-, hk⟩
      · exact Or.inr (Or.inr (hm.unique hk))
      · exact Or.inr (Or.inl (hn.unique hk))
    · exact Or.inl (hn.unique hm)
  shared {n a} hna := by
    obtain ⟨hne, o, ho, hn, ha⟩ := (h.mem_contributors a n).1 hna
    exact ⟨hne, c.bodyAt o, (h.mem_spans n _).2 ⟨Or.inl hn, rfl⟩,
      (h.mem_spans a _).2 ⟨Or.inr ⟨ho, ha⟩, rfl⟩⟩

theorem wellBound_of_ofCorpus {docs : List (Text × Text)} {collects : Bool} {g : Graph}
    (h : ofCorpus (Corpus.ofTexts docs) collects = .ok g) : g.WellBound := by
  obtain ⟨places, hbinds⟩ := binds_of_ofCorpus h
  exact hbinds.wellBound

end Graph

end OrgWeave
