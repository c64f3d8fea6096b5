import OrgWeave.Proofs.Graph.Lines

/-!
# Documents one by one and all at once

Prose and blank lines are running text : where one document ends in it and the next one starts
with it, a reading of all lines at once makes one element of what a reading document by document
keeps apart. The other elements are the landmarks of a document. A line that is a heading or a
keyword line starts a landmark wherever a reading gets to it, and running text never goes past
such a line (`Org.Rule.Admits.text_or_landmark`), so that two readings are in step again at the next
landmark.

`Org.landmarks` are the landmarks of lines, read line by line. They are those of every parse
(`Org.Reads.filter_eq_landmarks`), and those of lines in two parts are those of each part if no
block goes over the boundary (`Org.landmarks_append`). So the landmarks of a corpus do not depend
on its documents, nor does the graph (`Graph.ofCorpus_eq_ofElements`).
-/

namespace OrgWeave

open Text

namespace Org

/-! ## Running text -/

/-- Whether the line is no heading and no keyword line. -/
def isRunning (l : Line) : Bool := !isHeading l && !isKeyword l

/-- Whether a content is prose or blank lines. -/
def Content.isText : Content → Bool
  | .prose _ => true
  | .blank _ => true
  | _ => false

/-- Whether a content is a block, of source or of any other kind. -/
def Content.isBlock : Content → Bool
  | .source .. => true
  | .block .. => true
  | _ => false

variable {l : Line} {ls ms : List Line} {n : Nat} {rule : Rule} {rules : List Rule}

theorem isRunning_of_isBlank (h : isBlank l = true) : isRunning l = true := by
  rw [isRunning, isHeading_eq_false_of_isBlank h, isKeyword_eq_false_of_isBlank h]
  rfl

theorem isRunning_eq_false_of_isKeyword (h : isKeyword l = true) : isRunning l = false := by
  rw [isRunning, h, Bool.not_true, Bool.and_false]

/-- An element is running text of running lines only, or a landmark whose first line is not
running. -/
theorem Rule.Admits.text_or_landmark (h : rule.Admits (l :: ms) ls) :
    ((rule = .prose ∨ rule = .blank) ∧ ∀ m ∈ l :: ms, isRunning m = true) ∨
      (rule ≠ .prose ∧ rule ≠ .blank ∧ isRunning l = false) := by
  cases h with
  | heading hl =>
    refine Or.inr ⟨by decide, by decide, ?_⟩
    rw [isRunning, hl]
    rfl
  | source hopens =>
    exact Or.inr ⟨by decide, by decide,
      isRunning_eq_false_of_isKeyword (isKeyword_of_opensSource hopens)⟩
  | block hopens =>
    exact Or.inr ⟨by decide, by decide,
      isRunning_eq_false_of_isKeyword (isKeyword_of_opensBlock hopens)⟩
  | keyword hl => exact Or.inr ⟨by decide, by decide, isRunning_eq_false_of_isKeyword hl⟩
  | blank hms => exact Or.inl ⟨Or.inr rfl, fun m hm => isRunning_of_isBlank (hms m hm)⟩
  | prose _ _ hplain =>
    refine Or.inl ⟨Or.inl rfl, fun m hm => ?_⟩
    obtain ⟨hheading, hkeyword⟩ := hplain m hm
    rw [isRunning, hheading, hkeyword]
    rfl

theorem Content.isText_eq (c : Content) :
    c.isText = true ↔ c.rule = .prose ∨ c.rule = .blank := by
  cases c <;> simp [isText, rule]

/-! ## Landmarks -/

/-- The elements of lines that are not running text, the first line counted as `start`. -/
def landmarks (start : Int) : List Line → List Element
  | [] => []
  | l :: ls =>
    if isRunning l then landmarks (start + 1) ls
    else
      match Rule.choose? Rule.order l ls with
      | none => []
      | some (rule, n) =>
        ⟨start, rule.make l (ls.take n)⟩ :: landmarks (start + n + 1) (ls.drop n)
termination_by ls => ls.length
decreasing_by all_goals simp only [List.length_drop, List.length_cons]; omega

theorem landmarks_running_append {start : Int} (h : ∀ m ∈ ms, isRunning m = true) :
    landmarks start (ms ++ ls) = landmarks (start + ms.length) ls := by
  induction ms generalizing start with
  | nil => simp
  | cons m ms ih =>
    obtain ⟨hm, hms⟩ := List.forall_mem_cons.1 h
    rw [List.cons_append, landmarks, if_pos hm, ih hms, List.length_cons]
    congr 1
    omega

/-- The landmarks that a rule reads are the one that it makes, if it makes one, and those behind
it. -/
theorem landmarks_of_choose? {start : Int} (h : Rule.choose? Rule.order l ls = some (rule, n)) :
    landmarks start (l :: ls) =
      [⟨start, rule.make l (ls.take n)⟩].filter (!·.content.isText) ++
        landmarks (start + n + 1) (ls.drop n) := by
  obtain ⟨-, htake⟩ := Rule.take_of_choose? h
  have hmake := Rule.rule_make htake
  have htext := (rule.make l (ls.take n)).isText_eq
  rw [hmake] at htext
  rcases (Rule.admits_of_choose? h).text_or_landmark with ⟨hrule, hrunning⟩ | ⟨hprose, hblank, hl⟩
  · have hlength : (l :: ls.take n).length = n + 1 := by
      rw [← Rule.lines_make htake, Rule.length_lines_make htake]
    have happend : l :: ls = (l :: ls.take n) ++ ls.drop n := by simp
    rw [happend, landmarks_running_append hrunning, hlength]
    simp [htext.2 hrule, Int.add_assoc]
  · have hnot : (rule.make l (ls.take n)).isText = false :=
      Bool.eq_false_iff.2 fun h => (htext.1 h).elim hprose hblank
    rw [landmarks, if_neg (by simp [hl]), h]
    simp [hnot]

/-- The landmarks are the elements of every reading to the end, running text left out. -/
theorem Reads.filter_eq_landmarks {start : Int} {es : List Element}
    (h : Reads Rule.order start ls es []) :
    es.filter (!·.content.isText) = landmarks start ls := by
  generalize hrest : ([] : List Line) = rest at h
  induction h with
  | stop =>
    subst hrest
    rw [landmarks]
    rfl
  | @element start l ls rule n es rest chosen tail ih =>
    rw [landmarks_of_choose? chosen, ← ih hrest, ← List.filter_append, List.singleton_append]

/-! ## Lines in two parts -/

/-- Further lines do not matter to a block that is closed without them. -/
theorem closedCount_append (closes : Line → Bool) (ls ms : List Line) :
    closedCount closes (ls ++ ms) = closedCount closes ls ∨
      ls.length + 1 < closedCount closes (ls ++ ms) := by
  unfold closedCount
  rw [List.findIdx?_append]
  cases ls.findIdx? closes with
  | some i => exact Or.inl rfl
  | none =>
    cases ms.findIdx? closes with
    | none => exact Or.inl rfl
    | some i =>
      right
      simp only [Option.map_some, Option.none_or]
      omega

theorem take_between_append (opens : Line → Bool) (closes : Line → Line → Bool) (l : Line)
    (ls ms : List Line) :
    (Taker.between opens closes).take l (ls ++ ms) = (Taker.between opens closes).take l ls ∨
      ls.length + 1 < (Taker.between opens closes).take l (ls ++ ms) := by
  simp only [Taker.take]
  split
  · exact closedCount_append (closes l) ls ms
  · exact Or.inl rfl

namespace Rule

/-- Behind a line that is not running, further lines matter only to a block that is not closed
without them. -/
theorem take_append (rule : Rule) (h : isRunning l = false) (ls ms : List Line) :
    rule.taker.take l (ls ++ ms) = rule.taker.take l ls ∨
      (rule = .source ∨ rule = .block) ∧ ls.length + 1 < rule.taker.take l (ls ++ ms) := by
  have hblank : isBlank l = false := by
    refine Bool.eq_false_iff.2 fun hblank => ?_
    rw [isRunning_of_isBlank hblank] at h
    cases h
  cases rule with
  | heading => exact Or.inl rfl
  | source => exact (take_between_append ..).imp_right fun hlt => ⟨Or.inl rfl, hlt⟩
  | block => exact (take_between_append ..).imp_right fun hlt => ⟨Or.inr rfl, hlt⟩
  | keyword => exact Or.inl rfl
  | blank =>
    left
    simp [taker, Taker.take, hblank]
  | prose =>
    have hcore : (!isHeading l && !isKeyword l) = false := h
    left
    simp [taker, Taker.take, trailingCount, hblank, hcore]

/-- The same rule is chosen for as many lines when more lines follow, unless a block goes on into
these. -/
theorem choose?_append (h : isRunning l = false) (rules : List Rule) (ls ms : List Line) :
    choose? rules l (ls ++ ms) = choose? rules l ls ∨ ∃ rule n,
      choose? rules l (ls ++ ms) = some (rule, n) ∧ (rule = .source ∨ rule = .block) ∧
        ls.length < n := by
  induction rules with
  | nil => exact Or.inl rfl
  | cons rule rules ih =>
    rw [choose?_cons, choose?_cons]
    rcases rule.take_append h ls ms with htake | ⟨hblock, hlt⟩
    · rw [htake]
      cases rule.taker.take l ls with
      | zero => exact ih
      | succ n => exact Or.inl rfl
    · obtain ⟨n, hn⟩ := Nat.exists_eq_add_of_lt (Nat.zero_lt_of_lt hlt)
      rw [Nat.zero_add] at hn
      rw [hn] at hlt ⊢
      exact Or.inr ⟨rule, n, rfl, hblock, by omega⟩

end Rule

/-- The landmarks of two parts are those of the first one and those of the second one, if no block
goes over the boundary. -/
theorem landmarks_append {start boundary : Int} (hlength : start + ls.length = boundary)
    (hwhole : ∀ e ∈ landmarks start (ls ++ ms), e.content.isBlock = true → e.start < boundary →
      e.start + e.lines.length ≤ boundary) :
    landmarks start (ls ++ ms) = landmarks start ls ++ landmarks boundary ms := by
  induction start, ls using landmarks.induct with
  | case1 start =>
    rw [landmarks, List.nil_append, List.nil_append, ← hlength, List.length_nil, Int.natCast_zero,
      Int.add_zero]
  | case2 start l ls hrunning ih =>
    rw [List.length_cons] at hlength
    rw [List.cons_append, landmarks, if_pos hrunning] at hwhole ⊢
    rw [landmarks, if_pos hrunning]
    exact ih (by omega) hwhole
  | case3 start l ls _ hnone => exact absurd hnone (Rule.choose?_order l ls)
  | case4 start l ls hrunning rule n hsome ih =>
    rw [List.length_cons] at hlength
    have hle : n ≤ ls.length := by
      have htake := (Rule.take_of_choose? hsome).2
      have := rule.taker.take_le l ls
      omega
    rcases Rule.choose?_append (Bool.eq_false_iff.2 hrunning) Rule.order ls ms with
      hsame | ⟨rule', n', hsome', hblock, hlt⟩
    · rw [hsome] at hsame
      rw [List.cons_append, landmarks, if_neg hrunning, hsame] at hwhole ⊢
      rw [landmarks, if_neg hrunning, hsome]
      simp only [List.take_append_of_le_length hle, List.drop_append_of_le_length hle,
        List.cons_append] at hwhole ⊢
      rw [ih (by simp; omega) fun e he => hwhole e (List.mem_cons_of_mem _ he)]
    · -- the block that starts here would end behind the boundary
      have hlines := Rule.length_lines_make (Rule.take_of_choose? hsome').2
      rw [List.cons_append, landmarks, if_neg hrunning, hsome'] at hwhole
      have hends := hwhole _ List.mem_cons_self
        (by rcases hblock with rfl | rfl <;> rfl) (by simp; omega)
      rw [Element.lines, hlines] at hends
      simp only at hends
      omega

/-- A landmark has its lines among those that it is read from. -/
theorem bounds_of_mem_landmarks {start : Int} {e : Element} (h : e ∈ landmarks start ls) :
    start ≤ e.start ∧ e.start + e.lines.length ≤ start + ls.length := by
  obtain ⟨es, hes⟩ := exists_parse_order start ls
  have hreads := reads_of_parse hes
  have htiles := hreads.tiles
  have hlines : elementLines es = ls := by simpa using hreads.lines
  rw [hlines] at htiles
  rw [← hreads.filter_eq_landmarks] at h
  have hmem := List.mem_of_mem_filter h
  exact ⟨htiles.le_start e hmem, htiles.end_le e hmem⟩

end Org

/-! ## Documents -/

/-- Whether the document holds line `i`. -/
def DocumentRange.Holds (d : DocumentRange) (i : Nat) : Prop := d.start ≤ i ∧ i < d.stop

/-- Every line behind the first `start` ones is held by a document. -/
theorem Corpus.exists_holds {i : Nat} : ∀ {docs : List (Text × Text)} {start : Nat}, start ≤ i →
    i < start + (docs.flatMap fun d => splitLines d.2).length →
    ∃ d ∈ rangesFrom start docs, d.Holds i
  | [], start, hle, hlt => by
    simp at hlt
    omega
  | (name, text) :: docs, start, hle, hlt => by
    rw [List.flatMap_cons, List.length_append, ← Nat.add_assoc] at hlt
    rcases Nat.lt_or_ge i (start + (splitLines text).length) with hin | hout
    · exact ⟨_, List.mem_cons_self, hle, hin⟩
    · obtain ⟨d, hd, hholds⟩ := exists_holds hout hlt
      exact ⟨d, List.mem_cons_of_mem _ hd, hholds⟩

namespace Org

/-- Whether line `i` is one of the element's. -/
def Element.Covers (e : Element) (i : Nat) : Prop := e.start ≤ i ∧ i < e.start + e.lines.length

/-- The element has lines of two documents. -/
def Element.Straddles (e : Element) (documents : List DocumentRange) : Prop :=
  ∃ d ∈ documents, ∃ d' ∈ documents, d ≠ d' ∧
    (∃ i, e.Covers i ∧ d.Holds i) ∧ ∃ i, e.Covers i ∧ d'.Holds i

/-- The places where two ranges of lines start and end tell whether they have a line in common. -/
theorem Element.exists_covers_iff {e : Element} {d : DocumentRange} :
    (∃ i, e.Covers i ∧ d.Holds i) ↔
      max e.start d.start < min (e.start + e.lines.length) d.stop := by
  constructor
  · rintro ⟨i, ⟨hstart, hend⟩, hle, hlt⟩
    omega
  · intro h
    exact ⟨(max e.start d.start).toNat, ⟨by omega, by omega⟩, by omega, by omega⟩

instance (e : Element) (d : DocumentRange) : Decidable (∃ i, e.Covers i ∧ d.Holds i) :=
  decidable_of_iff _ Element.exists_covers_iff.symm

instance (e : Element) (ds : List DocumentRange) : Decidable (e.Straddles ds) :=
  inferInstanceAs (Decidable (∃ d ∈ ds, ∃ d' ∈ ds, d ≠ d' ∧
    (∃ i, e.Covers i ∧ d.Holds i) ∧ ∃ i, e.Covers i ∧ d'.Holds i))

/-- An element that starts in the first document ends in it, if it has no lines of two. -/
theorem Element.end_le_of_not_straddles {e : Element} {start : Nat} {d : Text × Text}
    {docs : List (Text × Text)} (hle : start ≤ e.start)
    (hend : e.start + e.lines.length ≤
      start + ((splitLines d.2).length + (docs.flatMap fun d => splitLines d.2).length : Nat))
    (h : ¬e.Straddles (Corpus.rangesFrom start (d :: docs)))
    (hlt : e.start < start + (splitLines d.2).length) :
    e.start + e.lines.length ≤ start + (splitLines d.2).length := by
  by_contra hover
  -- the first line behind the document is in another one
  obtain ⟨d', hd', hholds⟩ : ∃ d' ∈ Corpus.rangesFrom (start + (splitLines d.2).length) docs,
      d'.Holds (start + (splitLines d.2).length) :=
    Corpus.exists_holds (Nat.le_refl _) (by omega)
  refine h ⟨_, List.mem_cons_self, d', List.mem_cons_of_mem _ hd', ?_, ?_, ?_⟩
  · rintro rfl
    exact Nat.lt_irrefl _ hholds.2
  · have hfirst : start ≤ e.start.toNat ∧ e.start.toNat < start + (splitLines d.2).length := by
      omega
    exact ⟨e.start.toNat, ⟨by omega, by omega⟩, hfirst⟩
  · exact ⟨_, ⟨by omega, by omega⟩, hholds⟩

theorem Element.Straddles.cons {e : Element} {d : DocumentRange} {ds : List DocumentRange}
    (h : e.Straddles ds) : e.Straddles (d :: ds) := by
  obtain ⟨d₁, h₁, d₂, h₂, hstraddles⟩ := h
  exact ⟨d₁, List.mem_cons_of_mem d h₁, d₂, List.mem_cons_of_mem d h₂, hstraddles⟩

/-- Documents that stand behind `before` have the landmarks of their lines, if no block has lines
of two of them. -/
theorem filter_eq_landmarks_of_gather {c : Corpus} (docs : List (Text × Text)) :
    ∀ (before : List Line) {es : List Element},
      c.lines = before ++ docs.flatMap (fun d => splitLines d.2) →
      (∀ e ∈ landmarks before.length (docs.flatMap fun d => splitLines d.2),
        e.content.isBlock = true → ¬e.Straddles (Corpus.rangesFrom before.length docs)) →
      gather (fun d => parse Rule.order d.start (c.slice d.start d.stop))
        (Corpus.rangesFrom before.length docs) = .ok es →
      es.filter (!·.content.isText) =
        landmarks before.length (docs.flatMap fun d => splitLines d.2) := by
  induction docs with
  | nil =>
    intro before es _ _ h
    cases h
    rw [List.flatMap_nil, landmarks]
    rfl
  | cons d docs ih =>
    intro before es hlines hwhole h
    obtain ⟨head, tail, hhead, htail, rfl⟩ := gather_cons_eq_ok.1 h
    have hslice : c.slice before.length (before.length + (splitLines d.2).length) =
        splitLines d.2 := by
      simp [Corpus.slice, hlines]
    have hread := reads_of_parse hhead
    rw [hslice] at hread
    have hsplit : landmarks before.length
        (splitLines d.2 ++ docs.flatMap fun d => splitLines d.2) =
        landmarks before.length (splitLines d.2) ++
          landmarks (before ++ splitLines d.2).length (docs.flatMap fun d => splitLines d.2) := by
      rw [List.length_append, Int.natCast_add]
      refine landmarks_append rfl fun e he hblock hlt => ?_
      have hbounds := bounds_of_mem_landmarks he
      rw [List.length_append] at hbounds
      exact Element.end_le_of_not_straddles hbounds.1 hbounds.2 (hwhole e he hblock) hlt
    rw [List.flatMap_cons, hsplit] at hwhole ⊢
    rw [List.filter_append, hread.filter_eq_landmarks]
    refine congrArg _ (ih _ (by simp [hlines]) (fun e he hblock hover => ?_) (by simpa using htail))
    have hcons := hover.cons (d := ⟨d.1, before.length, before.length + (splitLines d.2).length,
      Nat.le_add_right _ _⟩)
    exact hwhole e (List.mem_append_right _ he) hblock (by simpa [Corpus.rangesFrom] using hcons)

/-- The directive places stand among the landmarks. -/
theorem directivePlaces_filter (es : List Element) :
    directivePlaces (es.filter (!·.content.isText)) = directivePlaces es := by
  unfold directivePlaces
  rw [List.filter_filter]
  refine congrArg _ (List.filter_congr fun e _ => ?_)
  cases hcontent : e.content <;> simp [Element.holdsDirective, Content.isText, hcontent]

end Org

namespace Graph

open Org

/-- Documents parsed one by one and all their lines parsed at once have the same elements, running
text left out, and give the same graph or fail in the same way, if no block of the lines has lines
of two documents. -/
theorem ofCorpus_eq_ofElements (docs : List (Text × Text)) :
    ∃ es es', parse Rule.order 0 (Corpus.ofTexts docs).lines = .ok es ∧
      parseCorpus (Corpus.ofTexts docs) = .ok es' ∧
      ((∀ e ∈ es, e.content.isBlock = true → ¬e.Straddles (Corpus.ofTexts docs).documents) →
        es'.filter (!·.content.isText) = es.filter (!·.content.isText) ∧
        ∀ collects, ofCorpus (Corpus.ofTexts docs) collects =
          ofElements (Corpus.ofTexts docs) es collects) := by
  obtain ⟨es, hes⟩ := exists_parse_order 0 (Corpus.ofTexts docs).lines
  obtain ⟨es', hes'⟩ := exists_parseCorpus (Corpus.ofTexts docs)
  refine ⟨es, es', hes, hes', fun hwhole => ?_⟩
  have hlandmarks := (reads_of_parse hes).filter_eq_landmarks
  have hsame : es'.filter (!·.content.isText) = es.filter (!·.content.isText) := by
    rw [hlandmarks]
    refine filter_eq_landmarks_of_gather docs [] rfl (fun e he => hwhole e ?_) hes'
    rw [List.length_nil, Int.natCast_zero] at he
    exact List.mem_of_mem_filter (hlandmarks ▸ he)
  refine ⟨hsame, fun collects => ?_⟩
  have hplaces : directivePlaces es' = directivePlaces es := by
    rw [← directivePlaces_filter es', hsame, directivePlaces_filter]
  calc ofCorpus (Corpus.ofTexts docs) collects
      = ofPlaces (Corpus.ofTexts docs) collects (directivePlaces es') := by
        rw [ofCorpus, hes']
        rfl
    _ = ofElements (Corpus.ofTexts docs) es collects := by
        rw [hplaces]
        rfl

/-- Running text on either side of an empty document, a record, and at the end the block that it is
for, which shares a name and is never closed. -/
def tea : List (Text × Text) :=
  [("a.org".toList, "tea\n\n".toList), ("b.org".toList, []),
    ("c.org".toList, ["\n", "water\n", "#+name: pot\n", "#+begin_src x\n", "hot\n", "and\n",
      "black\n", "#+end_src\n"].flatMap String.toList),
    ("d.org".toList, ["#+depends:cup :cpp v :noweb pot\n", "#+name: cup\n",
      "#+begin_src x :noweb-ref all\n"].flatMap String.toList)]

def teaGraph : Graph where
  corpus := Corpus.ofTexts tea
  blocks := [("pot".toList, [⟨5, 9, true, by decide⟩]), ("cup".toList, [⟨12, 13, true, by decide⟩]),
    ("all".toList, [⟨12, 13, true, by decide⟩])]
  dependencies :=
    [("cup".toList, ⟨["v".toList], ["pot".toList]⟩), ("all".toList, ⟨["v".toList], ["pot".toList]⟩)]
  aggregates := [("all".toList, ["cup".toList])]
  tangles := []

/-- The running text is one element for all lines and four for the documents; the graphs are the
same. -/
theorem tea_reads_alike :
    ∃ es es', parse Rule.order 0 (Corpus.ofTexts tea).lines = .ok es ∧
      parseCorpus (Corpus.ofTexts tea) = .ok es' ∧
      (∀ e ∈ es, e.content.isBlock = true → ¬e.Straddles (Corpus.ofTexts tea).documents) ∧
      es.length = 6 ∧ es'.length = 9 ∧
      ofCorpus (Corpus.ofTexts tea) true = ofElements (Corpus.ofTexts tea) es true ∧
      ofElements (Corpus.ofTexts tea) es true = .ok teaGraph := by
  obtain ⟨es, es', hes, hes', h⟩ := ofCorpus_eq_ofElements tea
  have hflat : (parse Rule.order 0 (Corpus.ofTexts tea).lines).map (fun es =>
      (es.length, decide (∀ e ∈ es, e.content.isBlock = true →
        ¬e.Straddles (Corpus.ofTexts tea).documents))) = .ok (6, true) := by
    decide +kernel
  have hlength : (parseCorpus (Corpus.ofTexts tea)).map (·.length) = .ok 9 := by decide +kernel
  rw [hes, Except.map, Except.ok.injEq, Prod.mk.injEq, decide_eq_true_iff] at hflat
  rw [hes', Except.map, Except.ok.injEq] at hlength
  have hgraph := (h hflat.2).2 true
  refine ⟨es, es', hes, hes', hflat.2, hflat.1, hlength, hgraph, ?_⟩
  rw [← hgraph]
  decide +kernel

end Graph

end OrgWeave
