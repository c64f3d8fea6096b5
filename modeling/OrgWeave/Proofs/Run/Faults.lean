import OrgWeave.Proofs.Request.Checks
import OrgWeave.Proofs.Run.Causes
import OrgWeave.Proofs.Weave.Answer
import OrgWeave.Proofs.Weave.Ceilings

/-!
# What a run can fail with

A run that puts out text can only be stopped by what its documents and flags say : flags that are
missing, malformed or do not go together, a name that is declared twice or not at all, and
references or markers that nest too deep (`Error.isContentFault`). `FailsByContent` says this of
a computation, and each stage of a run is one of these (`runTexts_failsByContent`).

The other errors belong to checks that a run always passes (`Corpus.Checked`). Ranges, headings
and bodies are built in order, every rule is tried on a line, a line that the heading rule takes
is a heading, and each place that the scan looks at lies in the corpus, so that it can be told.
-/

namespace OrgWeave

open Org

variable {α β : Type}

/-- Whether an error is a fault in what documents or flags say. -/
def Error.isContentFault : Error → Bool
  | .missingFlags _ => true
  | .malformedParameters _ => true
  | .conflictingFlags _ => true
  | .invalidMaxDepth _ => true
  | .duplicate .. => true
  | .unknownBlock .. => true
  | .depthExceeded .. => true
  | _ => false

/-- Whatever `x` fails with is a fault in what documents or flags say. -/
def FailsByContent (x : Except Error α) : Prop := ∀ e, x = .error e → e.isContentFault = true

namespace FailsByContent

theorem error {e : Error} (h : e.isContentFault = true) :
    FailsByContent (.error e : Except Error α) :=
  FailsWith.error h

theorem bind {x : Except Error α} {f : α → Except Error β} (h : FailsByContent x)
    (hf : ∀ a, x = .ok a → FailsByContent (f a)) : FailsByContent (x >>= f) :=
  FailsWith.bind h hf

end FailsByContent

theorem Request.failsByContent_ofText? (flags : Text) : FailsByContent (ofText? flags) :=
  (failsWith_ofText? flags).mono fun _ h => by cases h <;> rfl

theorem Graph.failsByContent_ofCorpus (docs : List (Text × Text)) (collects : Bool) :
    FailsByContent (Graph.ofCorpus (Corpus.ofTexts docs) collects) :=
  (failsWith_ofCorpus _ collects).mono fun _ h => by cases h <;> rfl

/-- Whatever names weaving is led to, they can only be unknown or nest too deep. -/
theorem Outcome.failsByContent_streamed (request : Request) (g : Graph) :
    FailsByContent (Outcome.streamed request g) := by
  have hkeeps : g.Keeps Vocabulary.selfName (fun _ => True) fun _ => True :=
    ⟨by simp, by simp, by simp, by simp⟩
  exact (failsWith_streamed hkeeps fun _ _ => trivial).mono fun _ h => by cases h <;> rfl

/-! ## Checks that pass -/

/-- A body passes the check of its places. -/
theorem BodySpan.ofInts_self (s : BodySpan) :
    BodySpan.ofInts s.opening s.start s.stop s.expandsMarkers = .ok s := by
  have := s.opening_lt_stop
  unfold ofInts start
  rw [dif_neg (by omega), dif_neg (by omega), dif_neg (by omega)]
  simp

theorem DocumentRange.ofInts_self (d : DocumentRange) :
    DocumentRange.ofInts d.name d.start d.stop = .ok d := by
  have := d.start_le_stop
  unfold ofInts
  rw [if_neg (by omega), dif_neg (by omega)]
  simp

theorem Org.Heading.checkLevel_self (h : Heading) : checkLevel h.level = .ok h.level := by
  have := h.level_pos
  unfold checkLevel
  rw [if_neg (by omega)]
  simp

/-- The checks that the parts of a corpus are built under, and the places where a line, a word or
a rule is taken for granted. -/
structure Corpus.Checked (c : Corpus) (es : List Element) : Prop where
  ranges : ∀ d ∈ c.documents, DocumentRange.ofInts d.name d.start d.stop = .ok d
  /-- A rule is tried on lines, and the heading rule makes a heading. -/
  elements : ∀ e ∈ es, ∃ rule rest, rule.taker.takeFrom (e.lines ++ rest) = .ok e.lines.length ∧
    (rule = Rule.heading → ∃ h, e.content = .heading h ∧ Heading.checkLevel h.level = .ok h.level)
  places : ∀ i ∈ directivePlaces es, ∃ place, c.locate i = .ok place
  /-- The body behind an opening line. -/
  bodies : ∀ (o : Nat) l, c.lines[o]? = some l →
    BodySpan.ofInts o (o + 1) (Scan.spanAt c o l).stop (Scan.spanAt c o l).expandsMarkers =
      .ok (Scan.spanAt c o l)
  /-- The language of an opening line, if anything stands behind its keyword. -/
  headers : ∀ l ∈ c.lines, ∀ rest, rest = Text.strip ((afterSourceOpening? (Text.chomp l)).getD
    (Text.chomp l)) → rest ≠ [] → Text.words rest ≠ []

/-- Each element was taken by a rule that a line was there for. -/
theorem Org.Reads.checked {rules : List Rule} {start : Int} {ls rest : List Line}
    {es : List Element} (h : Reads rules start ls es rest) : ∀ e ∈ es, ∃ rule rest,
      rule.taker.takeFrom (e.lines ++ rest) = .ok e.lines.length ∧ (rule = Rule.heading →
        ∃ h, e.content = .heading h ∧ Heading.checkLevel h.level = .ok h.level) := by
  intro e he
  obtain ⟨-, rule, l, ls, n, -, -, hchosen, hcontent⟩ := h.exists_choice e he
  obtain ⟨-, htake⟩ := Rule.take_of_choose? hchosen
  have hlines : e.lines = l :: ls.take n := by rw [Element.lines, hcontent, Rule.lines_make htake]
  have hlength : e.lines.length = n + 1 := by
    rw [Element.lines, hcontent, Rule.length_lines_make htake]
  refine ⟨rule, ls.drop n, ?_, ?_⟩
  · rw [hlength, hlines, List.cons_append, List.take_append_drop, Taker.takeFrom, htake]
  · rintro rfl
    obtain ⟨-, hheading⟩ := Taker.take_first_eq_succ_iff.1 htake
    obtain ⟨h, hh⟩ := Option.isSome_iff_exists.1 hheading
    exact ⟨h, by rw [hcontent, Rule.make, hh], h.checkLevel_self⟩

/-- The corpus of a run is checked, and so are its elements. -/
theorem Corpus.exists_checked (docs : List (Text × Text)) :
    ∃ es, parseCorpus (Corpus.ofTexts docs) = .ok es ∧ (Corpus.ofTexts docs).Checked es := by
  obtain ⟨es, hes⟩ := exists_parseCorpus (Corpus.ofTexts docs)
  refine ⟨es, hes, ⟨fun d _ => d.ofInts_self, ?_, ?_, fun o l _ => ?_, ?_⟩⟩
  · intro e he
    obtain ⟨d, -, part, hpart, hmem⟩ := exists_of_mem_gather hes he
    exact (reads_of_parse hpart).checked e hmem
  · intro i hi
    exact exists_locate (lt_length_of_mem_directivePlaces (tiles_of_parseCorpus hes) i hi)
  · exact (Scan.spanAt _ o l).ofInts_self
  · rintro l - _ rfl hne
    exact Text.words_strip_ne_nil hne

/-! ## Runs -/

/-- What an accepted request does apart from its names stands in its parameters, too. -/
theorem Request.tangle_documents_of_ofText? {flags : Text} {request : Request}
    (h : ofText? flags = .ok request) : ∃ p, Params.ofText? flags = .ok p ∧
      request.tangle = p.has Flag.tangle ∧ request.documents = p.values Flag.documents := by
  unfold ofText? at h
  split at h
  · cases h
  · obtain ⟨p, hp, h⟩ := bind_eq_ok.1 h
    obtain ⟨_, -, h⟩ := bind_eq_ok.1 h
    obtain ⟨depth, -, h⟩ := bind_eq_ok.1 h
    cases h
    exact ⟨p, hp, rfl, rfl⟩

/-- A key that is not there has no values. -/
theorem Params.values_eq_nil {p : Params} {key : Text} (h : p.has key = false) :
    p.values key = [] := by
  have hnone : p.get? key = none := by simpa [Table.has] using h
  rw [values, values?, hnone]
  rfl

/-- A run whose flags name neither `:tangle` nor `:defs` puts out a text or fails by a fault in
what its documents and flags say, since its documents, elements, places, bodies and options pass
all checks. -/
theorem runTexts_failsByContent {flags : Text} (hflags : ∀ p, Params.ofText? flags = .ok p →
      p.has Flag.tangle = false ∧ p.has Flag.documents = false)
    (read : Reader) (docs : List (Text × Text)) (root : Path) :
    ((∃ out, runTexts read docs flags root = .ok out) ∨
      ∃ e, runTexts read docs flags root = .error e ∧ e.isContentFault = true) ∧
    (∃ es, parseCorpus (Corpus.ofTexts docs) = .ok es ∧ (Corpus.ofTexts docs).Checked es) ∧
    ∀ request, Request.ofText? flags = .ok request →
      WeaveOptions.ofFields request.maxDepth request.literal Vocabulary.selfName defaultTemplate
        Graph.defaultResolutionDepth = .ok request.weaveOptions := by
  have hfails : FailsByContent (runTexts read docs flags root) := by
    cases hrequest : Request.ofText? flags with
    | error e =>
      have hrun : runTexts read docs flags root = .error e := by
        rw [runTexts, hrequest]
        rfl
      rw [hrun]
      exact .error (Request.failsByContent_ofText? flags e hrequest)
    | ok request =>
      obtain ⟨p, hp, htangle, hdocs⟩ := Request.tangle_documents_of_ofText? hrequest
      obtain ⟨hnotangle, hnodocs⟩ := hflags p hp
      rw [runTexts_of_documents_eq_nil hrequest (hdocs.trans (Params.values_eq_nil hnodocs)),
        Outcome.ofCorpus, htangle, hnotangle]
      exact (Graph.failsByContent_ofCorpus docs false).bind fun g _ =>
        Outcome.failsByContent_streamed request g
  refine ⟨?_, Corpus.exists_checked docs, fun request _ => request.ofFields_weaveOptions⟩
  cases hout : runTexts read docs flags root with
  | ok out => exact Or.inl ⟨out, rfl⟩
  | error e => exact Or.inr ⟨e, rfl, hfails e hout⟩

/-- Under a ceiling of no nesting, the call inside a block is what stops the run for it. -/
theorem kettle_failsByContent :
    (∀ p, Params.ofText? ":noweb tea :max-depth 0".toList = .ok p →
      p.has Flag.tangle = false ∧ p.has Flag.documents = false) ∧
    runTexts (fun path => .error (.badFilename path)) Graph.kettle
        ":noweb tea :max-depth 0".toList Path.here =
      .error (.depthExceeded .weaving 0 "include(:noweb pot)".toList) ∧
    ∃ e, runTexts (fun path => .error (.badFilename path)) Graph.kettle
        ":noweb tea :max-depth 0".toList Path.here = .error e ∧ e.isContentFault = true := by
  have hparams : Params.ofText? ":noweb tea :max-depth 0".toList =
      .ok [("noweb".toList, ["tea".toList]), ("max-depth".toList, ["0".toList])] := by
    decide +kernel
  have hflags : ∀ p, Params.ofText? ":noweb tea :max-depth 0".toList = .ok p →
      p.has Flag.tangle = false ∧ p.has Flag.documents = false := by
    intro p hp
    cases hparams.symm.trans hp
    decide +kernel
  have hrun : runTexts (fun path => .error (.badFilename path)) Graph.kettle
        ":noweb tea :max-depth 0".toList Path.here =
      .error (.depthExceeded .weaving 0 "include(:noweb pot)".toList) := by
    decide +kernel
  refine ⟨hflags, hrun, ?_⟩
  rcases (runTexts_failsByContent hflags (fun path => .error (.badFilename path)) Graph.kettle
    Path.here).1 with ⟨out, hout⟩ | hfails
  · cases hrun.symm.trans hout
  · exact hfails

end OrgWeave
