import OrgWeave.Proofs.Graph.Boundaries
import OrgWeave.Proofs.Graph.Meaning

/-!
# Bodies and elements

The scan finds a body without the parser : it opens behind a name line or on a scanned opening
line, and ends at the first line of the corpus that closes a source block. The parser finds it as
the body of an element, which ends in its own document.

`Org.Element.StandsAt` puts an element in its place in the corpus, as the grammar admits it there.
An element at a line that opens a source block is the block with the body of the scan, or the line
alone (`Org.Element.StandsAt.fits`). Every bound block opens where an element starts : the line
behind a name line starts the next element, as a scanned line that gives a name is an element of
its own (`Org.exists_element_of_binds`). So bodies and elements agree
(`Graph.spans_fit_elements`), except for a block that is not closed in its document : the parser
leaves its opening line alone, and the scan goes on into the next documents and stops at the first
line there that closes a block, if there is one (`Graph.unclosed_spans_stop`).
-/

namespace OrgWeave

open Org

/-- A body goes up to the first line behind its opening that closes a source block. -/
theorem Corpus.stop_bodyAt {c : Corpus} {o : Nat} {body more : List Line} {closing : Line}
    (h : c.lines.drop (o + 1) = body ++ closing :: more)
    (hbody : ∀ m ∈ body, closesSource m = false) (hcloses : closesSource closing = true) :
    (c.bodyAt o).stop = o + 1 + body.length := by
  have hstop : (c.bodyAt o).stop = o + 1 + (c.lines.drop (o + 1)).findIdx closesSource := rfl
  rw [hstop, h, List.findIdx_append, List.findIdx_eq_length.2 hbody, List.findIdx_cons, hcloses]
  simp

/-- A document ends where its lines do, at the latest with the corpus. -/
theorem Corpus.stop_le_of_mem_rangesFrom {d : DocumentRange} :
    ∀ {docs : List (Text × Text)} {start : Nat}, d ∈ rangesFrom start docs →
      d.stop ≤ start + (docs.flatMap fun d => Text.splitLines d.2).length
  | (name, text) :: docs, start, h => by
    rw [List.flatMap_cons, List.length_append, ← Nat.add_assoc]
    rcases List.mem_cons.1 h with rfl | h
    · exact Nat.le_add_right _ _
    · exact stop_le_of_mem_rangesFrom h

namespace Org

/-- The element stands at line `o`, in the document `d` and in front of the lines `rest` of that
document, as the grammar admits it, and holds what is read off its lines. -/
structure Element.StandsAt (c : Corpus) (d : DocumentRange) (o : Nat) (rest : List Line)
    (e : Element) : Prop where
  start : e.start = o
  holds : d.Holds o
  lines : c.slice o d.stop = e.lines ++ rest
  admits : e.content.rule.Admits e.lines rest
  made : ∃ l ms, e.lines = l :: ms ∧ e.content = e.content.rule.make l ms

/-- Every element of a corpus stands in one of its documents. -/
theorem exists_standsAt {c : Corpus} {es : List Element} (h : parseCorpus c = .ok es) :
    ∀ e ∈ es, ∃ d ∈ c.documents, ∃ o rest, e.StandsAt c d o rest := by
  intro e he
  obtain ⟨d, hd, part, hpart, he⟩ := exists_of_mem_gather h he
  obtain ⟨k, rule, l, ms, n, hstart, hdrop, hchosen, hcontent⟩ :=
    (reads_of_parse hpart).exists_choice e he
  obtain ⟨-, htake⟩ := Rule.take_of_choose? hchosen
  have hlines : e.lines = l :: ms.take n := by rw [Element.lines, hcontent, Rule.lines_make htake]
  have hrule : e.content.rule = rule := by rw [hcontent, Rule.rule_make htake]
  have hslice : c.slice (d.start + k) d.stop = l :: ms := by
    rw [← hdrop, Corpus.slice, Corpus.slice, List.drop_take, List.drop_drop, Nat.sub_sub]
  have hlt : d.start + k < d.stop := by
    by_contra hge
    rw [Corpus.slice, Nat.sub_eq_zero_of_le (Nat.le_of_not_lt hge), List.take_zero] at hslice
    cases hslice
  refine ⟨d, hd, d.start + k, ms.drop n, ?_, ⟨Nat.le_add_right _ _, hlt⟩, ?_, ?_, ?_⟩
  · rw [hstart]
    omega
  · rw [hslice, hlines, List.cons_append, List.take_append_drop]
  · rw [hrule, hlines]
    exact Rule.admits_of_choose? hchosen
  · exact ⟨l, ms.take n, hlines, by rw [hrule, hcontent]⟩

namespace Element.StandsAt

variable {c : Corpus} {d : DocumentRange} {o : Nat} {rest : List Line} {e : Element}

/-- The lines from the element on, up to the end of its document. -/
theorem getElem? (h : e.StandsAt c d o rest) {p : Nat} (hp : o + p < d.stop) :
    c.lines[o + p]? = (e.lines ++ rest)[p]? := by
  rw [← h.lines, Corpus.slice, List.getElem?_take, if_pos (by omega), List.getElem?_drop]

theorem exists_drop (h : e.StandsAt c d o rest) : ∃ more, c.lines.drop o = e.lines ++ more := by
  refine ⟨rest ++ (c.lines.drop o).drop (d.stop - o), ?_⟩
  rw [← List.append_assoc, ← h.lines, Corpus.slice, List.take_append_drop]

theorem lineAt_eq {l : Line} {ms : List Line} (h : e.StandsAt c d o rest)
    (hlines : e.lines = l :: ms) : c.lineAt o = l := by
  have hline := h.getElem? (p := 0) h.holds.2
  rw [hlines, Nat.add_zero] at hline
  rw [Corpus.lineAt, hline]
  rfl

/-- A source block closes where the body that the scan finds behind its opening line ends. -/
theorem source {header : Header} {opening closing : Line} {body : List Line}
    (h : e.StandsAt c d o rest) (hcontent : e.content = .source header opening body closing) :
    header = Header.ofLine (c.lineAt o) ∧ (c.bodyAt o).stop + 1 = o + e.lines.length ∧
      c.slice (o + 1) (c.bodyAt o).stop = body ∧ c.lines[(c.bodyAt o).stop]? = some closing := by
  have hlines : e.lines = opening :: (body ++ [closing]) := by rw [Element.lines, hcontent]; rfl
  obtain ⟨l, ms, hmade, hmake⟩ := h.made
  obtain ⟨rfl, -⟩ := List.cons.inj (hlines.symm.trans hmade)
  rw [hcontent] at hmake
  have hadmits := h.admits
  rw [hcontent, hlines] at hadmits
  obtain ⟨-, hinside, hcloses⟩ := Rule.admits_source_iff.1 hadmits
  obtain ⟨more, hdrop⟩ := h.exists_drop
  have hbehind : c.lines.drop (o + 1) = body ++ closing :: more := by
    rw [← List.tail_drop, hdrop, hlines]
    simp
  have hstop : (c.bodyAt o).stop = o + 1 + body.length := Corpus.stop_bodyAt hbehind hinside hcloses
  refine ⟨?_, ?_, ?_, ?_⟩
  · rw [h.lineAt_eq hlines]
    exact (Content.source.inj hmake).1
  · rw [hstop, hlines]
    simp
    omega
  · rw [hstop, Corpus.slice, hbehind, Nat.add_sub_cancel_left, List.take_left]
  · rw [hstop, ← List.getElem?_drop, hbehind, List.getElem?_append_right (Nat.le_refl _)]
    simp

end Element.StandsAt

/-! ## Bodies -/

/-- Whether the element is a line that opens a source block which is not closed in its document. -/
def Element.opensOnly (e : Element) : Bool :=
  match e.content with
  | .keyword _ _ l => opensSource l
  | _ => false

/-- The element is a source block, the span its body, and the line behind the span its closing line;
its parameters say whether markers are expanded. -/
def Element.Encloses (e : Element) (g : Graph) (sp : BodySpan) : Prop :=
  ∃ header opening body closing, e.content = .source header opening body closing ∧
    g.bodyLines sp = body ∧ g.corpus.lines[sp.stop]? = some closing ∧
      (sp.expandsMarkers = true ↔
        header.params.first? Vocabulary.nestedKey ≠ some "no".toList)

theorem Content.exists_of_rule_eq_source {content : Content} (h : content.rule = .source) :
    ∃ header opening body closing, content = .source header opening body closing := by
  cases content with
  | source header opening body closing => exact ⟨header, opening, body, closing, rfl⟩
  | _ => cases h

theorem Content.exists_of_rule_eq_keyword {content : Content} (h : content.rule = .keyword) :
    ∃ name value l, content = .keyword name value l := by
  cases content with
  | keyword name value l => exact ⟨name, value, l, rfl⟩
  | _ => cases h

/-- An element at an opening line is that line alone or the block with the body that the scan finds
there. -/
theorem Element.StandsAt.fits {c : Corpus} {d : DocumentRange} {o : Nat} {rest : List Line}
    {e : Element} {g : Graph} (h : e.StandsAt c d o rest) (hopens : c.opens o = true)
    (hcorpus : g.corpus = c) : e.opensOnly = true ∨ e.Encloses g (c.bodyAt o) := by
  obtain ⟨l, ms, hlines, -⟩ := h.made
  have hl : opensSource l = true := by
    obtain ⟨l', hl', hopens⟩ := (Option.any_eq_true _ _).1 hopens
    rw [← h.lineAt_eq hlines, Corpus.lineAt, hl']
    exact hopens
  have hadmits := h.admits
  rw [hlines] at hadmits
  rcases hadmits.of_opensSource hl with hrule | hrule
  · obtain ⟨header, opening, body, closing, hcontent⟩ := Content.exists_of_rule_eq_source hrule
    obtain ⟨hheader, -, hbody, hclosing⟩ := h.source hcontent
    refine Or.inr ⟨header, opening, body, closing, hcontent, ?_, ?_, ?_⟩
    · rw [Graph.bodyLines, hcorpus]
      exact hbody
    · rw [hcorpus]
      exact hclosing
    · rw [hheader]
      exact bne_iff_ne
  · obtain ⟨name, value, l', hcontent⟩ := Content.exists_of_rule_eq_keyword hrule
    have hraw : e.lines = [l'] := by rw [Element.lines, hcontent]; rfl
    obtain ⟨rfl, -⟩ := List.cons.inj (hlines.symm.trans hraw)
    exact Or.inl (by rw [Element.opensOnly, hcontent]; exact hl)

/-- No line of its document closes a block of which the opening line stands alone. -/
theorem Element.StandsAt.unclosed {c : Corpus} {d : DocumentRange} {o : Nat} {rest : List Line}
    {e : Element} (h : e.StandsAt c d o rest) (hopens : e.opensOnly = true) :
    ∀ j, o < j → j < d.stop → c.closes j = false := by
  intro j hj hlt
  unfold Element.opensOnly at hopens
  split at hopens
  next name value l hcontent =>
    have hlines : e.lines = [l] := by rw [Element.lines, hcontent]; rfl
    have hadmits := h.admits
    rw [hcontent, hlines] at hadmits
    obtain ⟨-, hunclosed⟩ := Rule.admits_keyword_iff.1 hadmits
    obtain ⟨p, rfl⟩ := Nat.exists_eq_add_of_lt hj
    have hline := h.getElem? (p := p + 1) hlt
    rw [hlines, List.cons_append, List.nil_append, List.getElem?_cons_succ, ← Nat.add_assoc]
      at hline
    rw [Corpus.closes, hline]
    cases hm : rest[p]? with
    | none => rfl
    | some m =>
      refine Bool.eq_false_iff.2 fun hcloses => hunclosed ?_
      exact ⟨m, List.mem_of_getElem? hm, Or.inl ⟨hopens, hcloses⟩⟩
  next => cases hopens

theorem Element.holdsDirective_iff {e : Element} : e.holdsDirective = true ↔
    e.content.rule = .source ∨ e.content.rule = .keyword := by
  unfold Element.holdsDirective
  cases e.content <;> simp [Content.rule]

/-- A scanned line that gives a name is an element of its own. -/
theorem Element.StandsAt.length_eq_one {c : Corpus} {d : DocumentRange} {o : Nat}
    {rest : List Line} {e : Element} {n : Text} (h : e.StandsAt c d o rest)
    (hholds : e.holdsDirective = true) (hd : c.directive? o = some (.name n)) :
    e.lines.length = 1 := by
  rcases Element.holdsDirective_iff.1 hholds with hrule | hrule
  · obtain ⟨header, opening, body, closing, hcontent⟩ := Content.exists_of_rule_eq_source hrule
    have hlines : e.lines = opening :: (body ++ [closing]) := by rw [Element.lines, hcontent]; rfl
    have hadmits := h.admits
    rw [hrule, hlines] at hadmits
    obtain ⟨hopens, -⟩ := Rule.admits_source_iff.1 hadmits
    obtain ⟨l, hl, hname⟩ := Option.bind_eq_some_iff.1 hd
    have hline := h.lineAt_eq hlines
    rw [Corpus.lineAt, hl, Option.getD_some] at hline
    have hopening : Directive.ofLine? l = some .opening :=
      Directive.ofLine?_eq_some_iff.2 (by rw [hline]; exact hopens)
    rw [hname] at hopening
    cases hopening
  · obtain ⟨name, value, l, hcontent⟩ := Content.exists_of_rule_eq_keyword hrule
    rw [Element.lines, hcontent]
    rfl

/-! ## The places of bodies -/

section

variable {docs : List (Text × Text)} {es : List Element}

theorem exists_of_mem_directivePlaces (hes : parseCorpus (Corpus.ofTexts docs) = .ok es) {i : Nat}
    (hi : i ∈ directivePlaces es) : ∃ e ∈ es, e.holdsDirective = true ∧ e.start = i := by
  obtain ⟨e, he, rfl⟩ := List.mem_map.1 hi
  obtain ⟨he, hholds⟩ := List.mem_filter.1 he
  have := (tiles_of_parseCorpus hes).le_start e he
  exact ⟨e, he, hholds, by omega⟩

/-- A bound block opens with an element : the one that is scanned, or the one behind the line that
names it. -/
theorem exists_element_of_binds (hes : parseCorpus (Corpus.ofTexts docs) = .ok es) {o : Nat}
    {n : Text} (h : (Corpus.ofTexts docs).Binds (directivePlaces es) o n) :
    (Corpus.ofTexts docs).opens o = true ∧ ∃ e ∈ es, e.start = o := by
  have hlt := h.lt_length
  rcases h with ⟨i, hi, rfl, hnames⟩ | ⟨ho, hshares⟩
  · refine ⟨hnames.2, ?_⟩
    obtain ⟨e, he, hholds, hstart⟩ := exists_of_mem_directivePlaces hes hi
    obtain ⟨d, -, o, rest, hstands⟩ := exists_standsAt hes e he
    obtain rfl : i = o := Int.ofNat_inj.1 (hstart.symm.trans hstands.start)
    have hlength := hstands.length_eq_one hholds hnames.1
    obtain ⟨e', he', hnext⟩ := (tiles_of_parseCorpus hes).exists_next e he (by omega)
    exact ⟨e', he', by omega⟩
  · obtain ⟨e, he, -, hstart⟩ := exists_of_mem_directivePlaces hes ho
    exact ⟨(Corpus.shares_iff.1 hshares).1, e, he, hstart⟩

/-- A directive on the last line of an element is scanned : it cannot be inside a block, nor be the
line that closes one. -/
theorem mem_directivePlaces_of_last (hes : parseCorpus (Corpus.ofTexts docs) = .ok es) {e : Element}
    (he : e ∈ es) {i : Nat} (hle : e.start ≤ i) (hend : e.start + e.lines.length = i + 1)
    (hd : (Corpus.ofTexts docs).directive? i ≠ none) : i ∈ directivePlaces es := by
  obtain ⟨d, -, o, rest, hstands⟩ := exists_standsAt hes e he
  rw [hstands.start] at hle hend
  obtain ⟨p, rfl⟩ := Nat.exists_eq_add_of_le (Int.ofNat_le.1 hle)
  obtain ⟨more, hdrop⟩ := hstands.exists_drop
  obtain ⟨directive, hd⟩ := Option.ne_none_iff_exists'.1 hd
  obtain ⟨m, hm, hline⟩ := Option.bind_eq_some_iff.1 hd
  rw [← List.getElem?_drop, hdrop, List.getElem?_append_left (by omega)] at hm
  rcases hstands.admits.directive_place hm (by simp [hline]) with ⟨rfl, hrule⟩ | ⟨-, -, hinside⟩
  · have hholds : e.holdsDirective = true := Element.holdsDirective_iff.2 hrule
    refine List.mem_map.2 ⟨e, List.mem_filter.2 ⟨he, hholds⟩, ?_⟩
    rw [hstands.start]
    rfl
  · omega

/-- A directive right in front of an element is scanned. -/
theorem mem_directivePlaces_of_next (hes : parseCorpus (Corpus.ofTexts docs) = .ok es) {e : Element}
    (he : e ∈ es) {i : Nat} (hstart : e.start = i + 1)
    (hd : (Corpus.ofTexts docs).directive? i ≠ none) : i ∈ directivePlaces es := by
  have htiles := tiles_of_parseCorpus hes
  have hlt := htiles.start_lt e he
  obtain ⟨e', he', hle, hend⟩ := htiles.exists_covering (i := i) (by omega) (by omega)
  have hlast := htiles.end_le_start e' he' e he (by omega)
  exact mem_directivePlaces_of_last hes he' hle (by omega) hd

/-- The name in front of a bound block is scanned, whatever the block is bound to. -/
theorem namedAt_of_names (hes : parseCorpus (Corpus.ofTexts docs) = .ok es) {i : Nat} {n m : Text}
    (h : (Corpus.ofTexts docs).Binds (directivePlaces es) (i + 1) m)
    (hn : (Corpus.ofTexts docs).Names i n) :
    (Corpus.ofTexts docs).NamedAt (directivePlaces es) (i + 1) n := by
  obtain ⟨-, e, he, hstart⟩ := exists_element_of_binds hes h
  exact ⟨i, mem_directivePlaces_of_next hes he hstart (by simp [hn.1]), rfl, hn⟩

/-- A directive on the last line of all is scanned. -/
theorem mem_directivePlaces_of_end (hes : parseCorpus (Corpus.ofTexts docs) = .ok es) {i : Nat}
    (hlength : (Corpus.ofTexts docs).lines.length = i + 1)
    (hd : (Corpus.ofTexts docs).directive? i ≠ none) : i ∈ directivePlaces es := by
  have htiles := tiles_of_parseCorpus hes
  obtain ⟨e, he, hle, hend⟩ := htiles.exists_covering (i := i) (by omega) (by omega)
  have hlast := htiles.end_le e he
  exact mem_directivePlaces_of_last hes he hle (by omega) hd

/-- The body of a source block ends with the last line of the block. -/
theorem stop_of_source (hes : parseCorpus (Corpus.ofTexts docs) = .ok es) {e : Element}
    (he : e ∈ es) {o : Nat} (hstart : e.start = o) (hrule : e.content.rule = .source) :
    (((Corpus.ofTexts docs).bodyAt o).stop : Int) + 1 = e.start + e.lines.length := by
  obtain ⟨d, -, o', rest, hstands⟩ := exists_standsAt hes e he
  obtain rfl : o = o' := Int.ofNat_inj.1 (hstart.symm.trans hstands.start)
  obtain ⟨header, opening, body, closing, hcontent⟩ := Content.exists_of_rule_eq_source hrule
  obtain ⟨-, hstop, -⟩ := hstands.source hcontent
  omega

end

end Org

namespace Graph

variable {docs : List (Text × Text)} {collects : Bool} {g : Graph}

/-- The graph of documents agrees with their elements. Each body opens where an element starts,
which is the opening line of a block that its document does not close, or the source block with
this body. Two source blocks with different bodies have no line in common. -/
theorem spans_fit_elements (h : ofCorpus (Corpus.ofTexts docs) collects = .ok g) :
    ∃ es, parseCorpus (Corpus.ofTexts docs) = .ok es ∧
      (∀ n, ∀ sp ∈ g.spans n, ∃ e ∈ es, e.start = sp.opening ∧
        (e.opensOnly = true ∨ e.Encloses g sp)) ∧
      ∀ n n', ∀ sp ∈ g.spans n, ∀ sp' ∈ g.spans n', sp ≠ sp' →
        (∃ e ∈ es, e.start = sp.opening ∧ e.content.rule = .source) →
        (∃ e ∈ es, e.start = sp'.opening ∧ e.content.rule = .source) →
        sp.stop < sp'.opening ∨ sp'.stop < sp.opening := by
  obtain ⟨es, hes, -, htable⟩ := tabulates_of_ofCorpus h
  have htiles := tiles_of_parseCorpus hes
  refine ⟨es, hes, fun n sp hsp => ?_, fun n n' sp hsp sp' hsp' hne => ?_⟩
  · obtain ⟨hbinds, hbody⟩ := (htable.mem_spans n sp).1 hsp
    obtain ⟨hopens, e, he, hstart⟩ := exists_element_of_binds hes hbinds
    obtain ⟨d, -, o, rest, hstands⟩ := exists_standsAt hes e he
    obtain rfl : sp.opening = o := Int.ofNat_inj.1 (hstart.symm.trans hstands.start)
    rw [hbody]
    exact ⟨e, he, hstart, hstands.fits hopens htable.corpus⟩
  · rintro ⟨e, he, hstart, hrule⟩ ⟨e', he', hstart', hrule'⟩
    have hbody := ((htable.mem_spans n sp).1 hsp).2
    have hbody' := ((htable.mem_spans n' sp').1 hsp').2
    have hstop := stop_of_source hes he hstart hrule
    have hstop' := stop_of_source hes he' hstart' hrule'
    rw [← hbody] at hstop
    rw [← hbody'] at hstop'
    rcases Int.lt_trichotomy e.start e'.start with hlt | heq | hlt
    · have := htiles.end_le_start e he e' he' hlt
      exact Or.inl (by omega)
    · have hopening : sp.opening = sp'.opening := by omega
      exact absurd (by rw [hbody, hbody', hopening]) hne
    · have := htiles.end_le_start e' he' e he hlt
      exact Or.inr (by omega)

/-- A name line inside a block of another kind, a block in other cases whose markers are not
expanded, one that shares a name, and, behind an empty document, one that is never closed and gets
its name from the last line of the first document. -/
def pantry : List (Text × Text) :=
  [("a.org".toList, ("#+begin_q\n#+name: x\n#+end_q\n#+NAME: a\n#+Begin_Src x :noweb no\none\n" ++
      "#+END_SRC\n#+begin_src y :noweb-ref s\n#+end_src\n#+name: b\n").toList),
    ("b.org".toList, []), ("c.org".toList, "#+begin_src x :noweb-ref s\ntwo\n".toList)]

theorem pantry_fits : ∃ g es, ofCorpus (Corpus.ofTexts pantry) true = .ok g ∧
    parseCorpus (Corpus.ofTexts pantry) = .ok es ∧
    (g.blocks.map fun row =>
        (row.1, row.2.map fun sp => (sp.opening, sp.stop, sp.expandsMarkers))) =
      [("a".toList, [(4, 6, false)]), ("s".toList, [(7, 8, true), (10, 12, true)]),
        ("b".toList, [(10, 12, true)])] ∧
    ∀ n, ∀ sp ∈ g.spans n, ∃ e ∈ es, e.start = sp.opening ∧
      (e.opensOnly = true ∨ e.Encloses g sp) := by
  have hrows : (ofCorpus (Corpus.ofTexts pantry) true).map (fun g => g.blocks.map fun row =>
      (row.1, row.2.map fun sp => (sp.opening, sp.stop, sp.expandsMarkers))) =
        .ok [("a".toList, [(4, 6, false)]), ("s".toList, [(7, 8, true), (10, 12, true)]),
          ("b".toList, [(10, 12, true)])] := by
    decide +kernel
  obtain ⟨g, hg, hrows⟩ := map_eq_ok.1 hrows
  obtain ⟨es, hes, hfits, -⟩ := spans_fit_elements hg
  exact ⟨g, es, hg, hes, hrows, hfits⟩

/-- A block that its document does not close is closed by the first line of a later document that
closes a source block. Its body ends there, and it ends with the corpus exactly if there is no such
line. -/
theorem unclosed_spans_stop (h : ofCorpus (Corpus.ofTexts docs) collects = .ok g) :
    ∃ es, parseCorpus (Corpus.ofTexts docs) = .ok es ∧
      ∀ e ∈ es, e.opensOnly = true → ∃ d ∈ (Corpus.ofTexts docs).documents,
        (∃ o : Nat, e.start = o ∧ d.Holds o) ∧
        ∀ n, ∀ sp ∈ g.spans n, sp.opening = e.start →
          (∀ j, sp.opening < j → j < d.stop → (Corpus.ofTexts docs).closes j = false) ∧
          d.stop ≤ sp.stop ∧ (Corpus.ofTexts docs).Delimits sp ∧
          (sp.stop = (Corpus.ofTexts docs).lines.length ↔
            ∀ j, d.stop ≤ j → (Corpus.ofTexts docs).closes j = false) := by
  obtain ⟨es, hes, -, htable⟩ := tabulates_of_ofCorpus h
  refine ⟨es, hes, fun e he hopens => ?_⟩
  obtain ⟨d, hd, o, rest, hstands⟩ := exists_standsAt hes e he
  refine ⟨d, hd, ⟨o, hstands.start, hstands.holds⟩, fun n sp hsp hopening => ?_⟩
  obtain rfl : sp.opening = o := Int.ofNat_inj.1 (hopening.trans hstands.start)
  have hdelimits := htable.delimits n sp hsp
  have hown := hstands.unclosed hopens
  have hbound : d.stop ≤ (Corpus.ofTexts docs).lines.length := by
    simpa [Corpus.ofTexts] using Corpus.stop_le_of_mem_rangesFrom hd
  have hle : d.stop ≤ sp.stop := by
    by_contra hlt
    have hclosed := hdelimits.closed (by omega)
    rw [hown sp.stop sp.opening_lt_stop (by omega)] at hclosed
    cases hclosed
  refine ⟨hown, hle, hdelimits, fun hstop j hj => ?_, fun hlater => ?_⟩
  · rcases Nat.lt_or_ge j sp.stop with hlt | hge
    · exact hdelimits.unclosed j (Nat.lt_of_lt_of_le hstands.holds.2 hj) hlt
    · rw [Corpus.closes, List.getElem?_eq_none (hstop ▸ hge)]
      rfl
  · by_contra hne
    have hclosed := hdelimits.closed (Nat.lt_of_le_of_ne hdelimits.stop_le hne)
    rw [hlater sp.stop hle] at hclosed
    cases hclosed

/-- A block that is not closed in its document, with a closing line in the next one. -/
def leftover : List (Text × Text) :=
  [("a.org".toList, "#+name: a\n#+begin_src x\none\n".toList),
    ("b.org".toList, "two\n#+end_src\nthree\n".toList)]

/-- The body ends in front of the last two lines of the corpus. -/
theorem leftover_stops_early : ∃ g es, ofCorpus (Corpus.ofTexts leftover) true = .ok g ∧
    parseCorpus (Corpus.ofTexts leftover) = .ok es ∧
    (g.spans "a".toList).map (fun sp => (sp.opening, sp.stop)) = [(1, 4)] ∧
    (Corpus.ofTexts leftover).lines.length = 6 ∧
    ∃ e ∈ es, e.start = 1 ∧ e.opensOnly = true ∧
      ∃ d ∈ (Corpus.ofTexts leftover).documents, ∀ sp ∈ g.spans "a".toList, d.stop ≤ sp.stop ∧
        ¬∀ j, d.stop ≤ j → (Corpus.ofTexts leftover).closes j = false := by
  have hspans : (ofCorpus (Corpus.ofTexts leftover) true).map (fun g =>
      (g.spans "a".toList).map fun sp => (sp.opening, sp.stop)) = .ok [(1, 4)] := by
    decide +kernel
  have helement : (parseCorpus (Corpus.ofTexts leftover)).map (fun es =>
      decide (∃ e ∈ es, e.start = 1 ∧ e.opensOnly = true)) = .ok true := by
    decide +kernel
  have hlength : (Corpus.ofTexts leftover).lines.length = 6 := by decide +kernel
  obtain ⟨g, hg, hspans⟩ := map_eq_ok.1 hspans
  obtain ⟨es, hes, hstop⟩ := unclosed_spans_stop hg
  rw [hes, Except.map, Except.ok.injEq, decide_eq_true_iff] at helement
  obtain ⟨e, he, hstart, hopens⟩ := helement
  obtain ⟨d, hd, -, hspan⟩ := hstop e he hopens
  refine ⟨g, es, hg, hes, hspans, hlength, e, he, hstart, hopens, d, hd, fun sp hsp => ?_⟩
  have hplaces : (sp.opening, sp.stop) ∈ [(1, 4)] := hspans ▸ List.mem_map.2 ⟨sp, hsp, rfl⟩
  obtain ⟨hopening, hend⟩ := Prod.mk.inj (List.mem_singleton.1 hplaces)
  obtain ⟨-, hle, -, hiff⟩ := hspan _ sp hsp (by rw [hopening, hstart]; rfl)
  refine ⟨hle, fun hnone => ?_⟩
  have := hiff.2 hnone
  omega

end Graph

end OrgWeave
