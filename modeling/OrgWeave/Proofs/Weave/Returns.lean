import OrgWeave.Proofs.Document.Returns
import OrgWeave.Proofs.Graph.Endings
import OrgWeave.Proofs.Graph.Meaning
import OrgWeave.Proofs.Weave.Emission

/-!
# Weaving with carriage returns

A carriage return in front of every newline of the documents changes nothing but the endings of
woven lines. The directives of both corpora stand at the same places and say the same, so the
graphs have the same tables (`Graph.ofCorpus_returned`); the lines of a body have the same roles,
and what is text among them stays the same up to its ending (`Graph.endsAlike_expand`). A block
that comes out as a literal has no line endings of its own (`Graph.withReturns_weaves_alike`).
-/

namespace OrgWeave

open Text

/-! ## The same graph -/

namespace Graph

/-- Documents with carriage returns hold the same directives. -/
theorem ofCorpus_returned {c c' : Corpus} (h : c.Returned c') (collects : Bool) :
    ofCorpus c' collects = (ofCorpus c collects).map (·.onCorpus c') :=
  ofCorpus_sameText h.sameText h.directive? collects

end Graph

/-! ## Roles of lines -/

namespace Text

theorem readsAsOrg_eq (l : Line) : readsAsOrg l =
    (['#', '+'].isPrefixOf (l.dropWhile (· == ',')) ||
      ['*'].isPrefixOf (l.dropWhile (· == ','))) := by
  have hnot : ∀ mark t : Text, (∀ rest, t = mark ++ rest → False) → mark.isPrefixOf t = false := by
    intro mark t h
    refine Bool.eq_false_iff.2 fun hprefix => ?_
    obtain ⟨rest, hrest⟩ := List.isPrefixOf_iff_prefix.1 hprefix
    exact h rest hrest.symm
  unfold readsAsOrg
  split
  next heq => simp [heq]
  next heq => simp [heq]
  next hkeyword hstar => rw [hnot _ _ hkeyword, hnot _ _ hstar, Bool.or_false]

theorem ignoresEnds_readsAsOrg : IgnoresEnds readsAsOrg := by
  intro t s hs
  have hcomma : ∀ c ∈ s, (c == ',') = false := fun c hc => by
    rcases isEnd_iff.1 (hs c hc) with rfl | rfl <;> rfl
  rw [readsAsOrg_eq, readsAsOrg_eq, dropWhile_append_of_false hcomma,
    isPrefixOf_append (by decide) hs, isPrefixOf_append (by decide) hs]

theorem unescape_cons (c : Char) (l : Line) :
    unescape (c :: l) = if c = ',' ∧ readsAsOrg l = true then l else c :: l := by
  by_cases hc : c = ','
  · subst hc
    simp [unescape]
  · simp [unescape, hc]

/-- Escapes stand at the front of a line. -/
theorem Returned.unescape {l l' : Line} (h : Returned l l') :
    Returned (unescape l) (unescape l') := by
  cases h with
  | bare => exact .bare _
  | @ended t ht =>
    cases t with
    | nil => exact .ended ht
    | cons c t =>
      rw [List.cons_append, List.cons_append, unescape_cons, unescape_cons,
        ignoresEnds_readsAsOrg t _ isEnding_newline, ignoresEnds_readsAsOrg t _ isEnding_return]
      split
      · exact .ended fun d hd => ht d (List.mem_cons_of_mem c hd)
      · exact .ended ht

theorem ignoresEnds_marker : IgnoresEnds Marker.ofLine? := by
  intro t s hs
  unfold Marker.ofLine?
  rw [splitFirst?_append (by decide) (by decide) hs]
  cases splitFirst? "<<".toList t with
  | none => rfl
  | some found =>
    rw [Option.map_some]
    dsimp only
    rw [splitLast?_append (by decide) (by decide) hs]
    cases splitLast? ">>".toList found.2 with
    | none => rfl
    | some last => rcases last with ⟨_ | ⟨c, cs⟩, after⟩ <;> rfl

theorem ignoresEnds_role (self : Text) (expandsMarkers : Bool) :
    IgnoresEnds (Marker.role self expandsMarkers) := by
  intro t s hs
  rw [Marker.role, Marker.role, ignoresEnds_marker t s hs]

end Text

/-! ## Woven lines -/

/-- The same error, or as many lines, which are the same without their endings. -/
def EndsAlike (x x' : Except Error (List Line)) : Prop :=
  x'.map (List.map chomp) = x.map (List.map chomp)

namespace EndsAlike

variable {α : Type} {x x' : Except Error (List Line)}

theorem refl (x : Except Error (List Line)) : EndsAlike x x := rfl

theorem bind {y : Except Error α} {f f' : α → Except Error (List Line)}
    (h : ∀ a, EndsAlike (f a) (f' a)) : EndsAlike (y >>= f) (y >>= f') := by
  cases y with
  | error e => exact refl _
  | ok a => exact h a

theorem append_left (ls : List Line) (h : EndsAlike x x') :
    EndsAlike (x >>= fun ms => .ok (ls ++ ms)) (x' >>= fun ms => .ok (ls ++ ms)) := by
  rcases cases_of_map_eq_map h with ⟨e, rfl, rfl⟩ | ⟨ms, ms', rfl, rfl, hlines⟩
  · exact refl _
  · refine congrArg Except.ok ?_
    rw [List.map_append, List.map_append, hlines]

/-- What is gathered stays the same up to endings if it does item by item. -/
theorem gather {R : α → α → Prop} {f f' : α → Except Error (List Line)} {as as' : List α}
    (h : List.Forall₂ R as as') (hf : ∀ a a', R a a' → EndsAlike (f a) (f' a')) :
    EndsAlike (OrgWeave.gather f as) (OrgWeave.gather f' as') := by
  unfold EndsAlike
  have happend : ∀ ls ms : List Line, (ls ++ ms).map chomp = ls.map chomp ++ ms.map chomp :=
    fun _ _ => List.map_append
  rw [← gather_map rfl happend, ← gather_map rfl happend]
  induction h with
  | nil => rfl
  | @cons a a' _ _ ha _ ih => rw [OrgWeave.gather, OrgWeave.gather, hf a a' ha, ih]

end EndsAlike

namespace Graph

variable {g : Graph} {c' : Corpus} {o : WeaveOptions}

theorem visit_onCorpus (ceiling : Int) (levels : Nat) :
    (g.onCorpus c').visit ceiling levels = g.visit ceiling levels := by
  induction levels with
  | zero => rfl
  | succ levels ih =>
    funext t n
    rw [visit, visit, ih]
    rfl

theorem resolve_onCorpus (names external : List Text) (ceiling : Int) :
    (g.onCorpus c').resolve names external ceiling = g.resolve names external ceiling := by
  rw [resolve, resolve, visit_onCorpus]

theorem printed_onCorpus (done : Emitted) (names : List Text) :
    (g.onCorpus c').printed done names = g.printed done names := by
  induction names generalizing done with
  | nil => rfl
  | cons n names ih =>
    have hmark : Emitted.mark (g.onCorpus c') done n = Emitted.mark g done n := rfl
    have hspans : (g.onCorpus c').spans n = g.spans n := rfl
    rw [printed, printed, hmark, hspans, ih, ih]

/-- The lines of a body, and those of the same body with carriage returns. -/
theorem bodyLines_onCorpus (h : g.corpus.Returned c') (span : BodySpan) :
    List.Forall₂ Returned (g.bodyLines span) ((g.onCorpus c').bodyLines span) :=
  h.slice span.start span.stop

section Nested

variable {weave weave' : Text → Text → Except Error (List Line)} {levels : Nat}

theorem endsAlike_emit {weave weave' : Text → Except Error (List Line)}
    (hweave : ∀ n, EndsAlike (weave n) (weave' n)) (done : Emitted) (names : List Text) :
    EndsAlike (emit g weave done names).1 (emit (g.onCorpus c') weave' done names).1 := by
  rw [emit_eq_gather, emit_eq_gather, printed_onCorpus]
  refine EndsAlike.gather (List.forall₂_same.2 fun _ _ => rfl) ?_
  rintro n _ rfl
  exact hweave n

variable (hweave : ∀ lead n, EndsAlike (weave lead n) (weave' lead n))

include hweave

theorem endsAlike_selfInclusion (lead flags : Text) :
    EndsAlike (g.selfInclusion o weave levels lead flags)
      ((g.onCorpus c').selfInclusion o weave' levels lead flags) := by
  have hrequire : (g.onCorpus c').require = g.require := rfl
  unfold selfInclusion
  split
  · exact EndsAlike.refl _
  · simp only [hrequire, resolve_onCorpus]
    refine EndsAlike.bind fun p => EndsAlike.bind fun _ => EndsAlike.bind fun r => ?_
    exact EndsAlike.bind fun ls => (endsAlike_emit (hweave lead) [] r.names).append_left ls

theorem endsAlike_expandBody (h : g.corpus.Returned c') (lead : Text) (span : BodySpan) :
    EndsAlike (g.expandBody o weave levels lead span)
      ((g.onCorpus c').expandBody o weave' levels lead span) := by
  refine EndsAlike.gather (bodyLines_onCorpus h span) fun l l' hl => ?_
  unfold expandLine
  rw [(ignoresEnds_role _ _).ignoresReturns hl]
  cases Marker.role o.selfName span.expandsMarkers l with
  | text => exact congrArg (fun t => Except.ok [t]) (hl.unescape.chomp_indent lead)
  | reference indent n => exact hweave _ n
  | request indent flags => exact endsAlike_selfInclusion hweave _ flags

end Nested

/-- A block comes to the same lines with carriage returns, up to their endings. -/
theorem endsAlike_expand (h : g.corpus.Returned c') (levels : Nat) (lead n : Text) :
    EndsAlike (g.expand o levels lead n) ((g.onCorpus c').expand o levels lead n) := by
  have hrequire : (g.onCorpus c').require n = g.require n := rfl
  induction levels generalizing lead n with
  | zero =>
    rw [expand, expand, hrequire]
    exact EndsAlike.refl _
  | succ levels ih =>
    rw [expand, expand, hrequire]
    refine EndsAlike.bind fun _ => EndsAlike.gather (List.forall₂_same.2 fun _ _ => rfl) ?_
    rintro span _ rfl
    exact endsAlike_expandBody (ih · · rfl) h lead span

theorem endsAlike_weaveBlock (h : g.corpus.Returned c') (n : Text) :
    EndsAlike (g.weaveBlock o n) ((g.onCorpus c').weaveBlock o n) :=
  endsAlike_expand h _ _ _

/-- Literals have line endings of their own. -/
theorem blockText_onCorpus (h : g.corpus.Returned c') (hliteral : o.literal = true) (n : Text) :
    (g.onCorpus c').blockText o n = g.blockText o n := by
  have hquote : ∀ ls, quoteLines ls =
      quote :: (ls.map chomp).flatMap (fun t => escape t ++ "\\n".toList) ++ [quote, '\n'] := by
    intro ls
    rw [quoteLines, List.flatMap_map]
    rfl
  rw [blockText, blockText, hliteral]
  rcases cases_of_map_eq_map (endsAlike_weaveBlock (o := o) h n) with
    ⟨e, herr, herr'⟩ | ⟨ls, ls', hok, hok', hlines⟩
  · rw [herr, herr']
  · have htext : quoteLines ls' = quoteLines ls := by rw [hquote, hquote, hlines]
    rw [hok, hok']
    exact congrArg Except.ok htext

/-- A carriage return in front of every newline changes nothing but the endings of woven lines :
the elements show the same in reports, the graph has the same tables or is refused with the same
error, and each block comes to the same lines up to their endings, the same literal, or the same
error. -/
theorem withReturns_weaves_alike {docs : List (Text × Text)} (h : ∀ d ∈ docs, '\r' ∉ d.2) :
    (∃ es es', Org.parseCorpus (Corpus.ofTexts docs) = .ok es ∧
      Org.parseCorpus (Corpus.ofTexts (Corpus.withReturns docs)) = .ok es' ∧
      es'.map (·.toJson) = es.map (·.toJson)) ∧
    ∀ collects,
      (∀ e, ofCorpus (Corpus.ofTexts docs) collects = .error e ↔
        ofCorpus (Corpus.ofTexts (Corpus.withReturns docs)) collects = .error e) ∧
      ∀ g, ofCorpus (Corpus.ofTexts docs) collects = .ok g →
        ∃ g', ofCorpus (Corpus.ofTexts (Corpus.withReturns docs)) collects = .ok g' ∧
          g'.blocks = g.blocks ∧ g'.dependencies = g.dependencies ∧
          g'.aggregates = g.aggregates ∧ g'.tangles = g.tangles ∧
          ∀ (o : WeaveOptions) (n : Text),
            EndsAlike (g.weaveBlock o n) (g'.weaveBlock o n) ∧
            (o.literal = true → g'.blockText o n = g.blockText o n) := by
  have hreturned := Corpus.returned_ofTexts h
  refine ⟨?_, fun collects => ?_⟩
  · obtain ⟨es, hes⟩ := Org.exists_parseCorpus (Corpus.ofTexts docs)
    obtain ⟨es', hes'⟩ := Org.exists_parseCorpus (Corpus.ofTexts (Corpus.withReturns docs))
    have hreports := Org.map_toJson_parseCorpus hreturned.sameText
    rw [hes, hes', Except.map, Except.map, Except.ok.injEq] at hreports
    exact ⟨es, es', hes, hes', hreports⟩
  · have hgraph := ofCorpus_returned hreturned collects
    cases hg : ofCorpus (Corpus.ofTexts docs) collects with
    | error e =>
      rw [hg, Except.map] at hgraph
      simp [hgraph]
    | ok g =>
      rw [hg, Except.map] at hgraph
      refine ⟨by simp [hgraph], fun g' hg' => ?_⟩
      cases hg'
      have hcorpus : g.corpus.Returned (Corpus.ofTexts (Corpus.withReturns docs)) :=
        (corpus_of_ofCorpus hg).symm ▸ hreturned
      exact ⟨_, hgraph, rfl, rfl, rfl, rfl, fun o n =>
        ⟨endsAlike_weaveBlock hcorpus n, fun hliteral => blockText_onCorpus hcorpus hliteral n⟩⟩

/-- A block that indents another one, with an empty line and an escaped heading behind it. -/
def brew : List (Text × Text) :=
  [("d.org".toList, ["#+depends:brew :cpp pot\n", "#+name: brew\n", "#+begin_src x\n",
    "  <<leaf>>\n", "\n", ",* stir\n", "#+end_src\n", "#+name: leaf\n", "#+begin_src x\n",
    "green\n", "#+end_src\n"].flatMap String.toList)]

/-- The graph of `brew`. -/
def brewGraph : Graph where
  corpus := Corpus.ofTexts brew
  blocks :=
    [("brew".toList, [⟨2, 6, true, by decide⟩]), ("leaf".toList, [⟨8, 10, true, by decide⟩])]
  dependencies := [("brew".toList, ⟨["pot".toList], []⟩)]
  aggregates := []
  tangles := []

/-- With carriage returns the block comes to its lines up to their endings, and to its literal. -/
theorem brew_weaves_alike :
    (∀ d ∈ brew, '\r' ∉ d.2) ∧ ofCorpus (Corpus.ofTexts brew) true = .ok brewGraph ∧
    ∃ g', ofCorpus (Corpus.ofTexts (Corpus.withReturns brew)) true = .ok g' ∧
      g'.blocks = brewGraph.blocks ∧
      (∃ ls, g'.weaveBlock {} "brew".toList = .ok ls ∧
        ls.map chomp = ["  green".toList, [], "* stir".toList]) ∧
      g'.blockText { literal := true } "brew".toList =
        .ok ("\x22  green\\n\\n* stir\\n\x22\n").toList := by
  have hfree : ∀ d ∈ brew, '\r' ∉ d.2 := by decide +kernel
  have hg : ofCorpus (Corpus.ofTexts brew) true = .ok brewGraph := by decide +kernel
  have hlines : brewGraph.weaveBlock {} "brew".toList =
      .ok ["  green\n".toList, ['\n'], "* stir\n".toList] := by decide +kernel
  have hliteral : brewGraph.blockText { literal := true } "brew".toList =
      .ok ("\x22  green\\n\\n* stir\\n\x22\n").toList := by decide +kernel
  obtain ⟨g', hg', hblocks, -, -, -, hweaves⟩ := ((withReturns_weaves_alike hfree).2 true).2 _ hg
  refine ⟨hfree, hg, g', hg', hblocks, ?_, ((hweaves _ _).2 rfl).trans hliteral⟩
  rcases cases_of_map_eq_map (hweaves {} "brew".toList).1 with
    ⟨e, herr, -⟩ | ⟨ls, ls', hok, hok', hls⟩
  · cases hlines.symm.trans herr
  · cases hlines.symm.trans hok
    exact ⟨ls', hok', hls⟩

end Graph

end OrgWeave
