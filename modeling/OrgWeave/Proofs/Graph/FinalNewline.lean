import OrgWeave.Proofs.Graph.Endings
import OrgWeave.Proofs.Graph.Spans

/-!
# Texts that do not end in a newline

A newline behind a text that does not end in one ends its last line and changes no other
(`Text.splitLines_newline`). So the text is cut into the same elements, and all lines but the last
hold the same directives.

The last line does not always. A name behind the keyword of references or of a file needs white
space behind it, and the newline is white space : a line with the name alone holds no directive
at the end of a text, and one that says nothing in front of a newline (`Directive.Unended`). The
line is scanned last of all (`Graph.last_step_cases`), so that the newline makes no difference
to the graph exactly if the graph is refused without it, or no such directive is taken in
(`Graph.newline_reads_alike_iff`).
-/

namespace OrgWeave

open Text Org

/-! ## The last line -/

namespace Text

/-- Anything but a newline stands on the first line of what follows. -/
theorem splitLines_cons_of_ne {c : Char} (hc : c ≠ '\n') {t : Text} {l : Line} {ls : List Line}
    (h : splitLines t = l :: ls) : splitLines (c :: t) = (c :: l) :: ls := by
  rw [splitLines, if_neg hc, h]

/-- A newline behind a text that does not end in one ends its last line. -/
theorem splitLines_newline : ∀ {t : Text}, t ≠ [] → t.getLast? ≠ some '\n' →
    ∃ ls l, splitLines t = ls ++ [l] ∧ splitLines (t ++ ['\n']) = ls ++ [l ++ ['\n']]
  | [], hne, _ => absurd rfl hne
  | [c], _, hlast => by
    have hc : c ≠ '\n' := fun heq => hlast (congrArg some heq)
    exact ⟨[], [c], by simp [splitLines, hc], by simp [splitLines, hc]⟩
  | c :: d :: t, _, hlast => by
    obtain ⟨ls, l, hlines, hended⟩ := splitLines_newline (List.cons_ne_nil d t) hlast
    by_cases hc : c = '\n'
    · refine ⟨[c] :: ls, l, ?_, ?_⟩
      · rw [splitLines, if_pos hc, hlines, List.cons_append]
      · rw [List.cons_append, splitLines, if_pos hc, hended, List.cons_append]
    · cases ls with
      | nil =>
        exact ⟨[], c :: l, splitLines_cons_of_ne hc hlines, splitLines_cons_of_ne hc hended⟩
      | cons m ls =>
        exact ⟨(c :: m) :: ls, l, splitLines_cons_of_ne hc hlines,
          splitLines_cons_of_ne hc hended⟩

/-- A word goes on up to the end of the text. -/
theorem Unbroken.span {w : Text} (h : Unbroken w) :
    w.takeWhile (!isSpace ·) = w ∧ w.dropWhile (!isSpace ·) = [] := by
  have hsolid : ∀ c ∈ w, (!isSpace c) = true := fun c hc => by simp [h.solid c hc]
  exact ⟨List.takeWhile_eq_self_iff.2 hsolid, List.dropWhile_eq_nil_iff.2 hsolid⟩

end Text

namespace Directive

variable {l : Line} {t n : Text} {d : Directive}

/-- A name alone is no name with a rest, and in front of a newline one with nothing as its rest. -/
theorem namedRest?_newline (t : Text) :
    namedRest? (t ++ ['\n']) = if Unbroken t then some (t, []) else namedRest? t := by
  rw [namedRest?_append isEnding_newline (by simp)]
  by_cases h : Unbroken t
  · rw [if_pos h, h.span.1, h.span.2]
    cases t with
    | nil => exact absurd rfl h.ne_nil
    | cons c t => rfl
  · rw [if_neg h, namedRest?]
    cases htake : t.takeWhile (!isSpace ·) with
    | nil => rfl
    | cons c cs =>
      cases hdrop : t.dropWhile (!isSpace ·) with
      | nil =>
        refine absurd ⟨?_, fun d hd => ?_⟩ h
        · rintro rfl
          cases htake
        · simpa using List.dropWhile_eq_nil_iff.1 hdrop d hd
      | cons d rest => rfl

theorem namedRest?_eq_none (h : Unbroken t) : namedRest? t = none := by
  rw [namedRest?, h.span.2]
  cases t.takeWhile (!isSpace ·) <;> rfl

/-- The line would hold the directive if it ended : the name of references or of a file stands at
its very end, and nothing is said about it. -/
inductive Unended (l : Line) : Directive → Prop
  | depends {n : Text} (hafter : Org.afterKeyword? "depends:".toList l = some n)
      (hn : Unbroken n) : Unended l (.depends n [])
  | tangle {n : Text} (hafter : Org.afterKeyword? "tangle:".toList l = some n)
      (hn : Unbroken n) : Unended l (.tangle n [])

/-- What reads a name and a rest behind a keyword, reads a name alone in front of a newline. -/
theorem bind_namedRest?_newline {keyword rest : Text} (hkeyword : EndFree keyword) :
    (Org.afterKeyword? keyword (l ++ ['\n'])).bind namedRest? = some (n, rest) ↔
      (Org.afterKeyword? keyword l).bind namedRest? = some (n, rest) ∨
        Org.afterKeyword? keyword l = some n ∧ Unbroken n ∧ rest = [] := by
  rw [Org.keepsEnds_afterKeyword? hkeyword l _ isEnding_newline]
  cases Org.afterKeyword? keyword l with
  | none => simp
  | some t =>
    rw [Option.map_some, Option.bind_some, Option.bind_some, namedRest?_newline]
    split
    next h =>
      rw [namedRest?_eq_none h, Option.some.injEq, Prod.mk.injEq, Option.some.injEq]
      constructor
      · rintro ⟨rfl, rfl⟩
        exact Or.inr ⟨rfl, h, rfl⟩
      · rintro (⟨⟨⟩⟩ | ⟨rfl, -, rfl⟩)
        exact ⟨rfl, rfl⟩
    next h =>
      refine (or_iff_left ?_).symm
      rintro ⟨⟨⟩, hn, -⟩
      exact h hn

/-- A line that ends holds the directive it held before, or the one it lacked the ending for. -/
theorem ofLine?_newline : ofLine? (l ++ ['\n']) = some d ↔ ofLine? l = some d ∨ Unended l d := by
  rw [ofLine?_eq_some_iff, ofLine?_eq_some_iff]
  cases d with
  | name n =>
    rw [StandsOn, StandsOn, ignoresEnds_declaredName? l _ isEnding_newline]
    exact (or_iff_left nofun).symm
  | opening =>
    rw [StandsOn, StandsOn, ignoresEnds_opensSource l _ isEnding_newline]
    exact (or_iff_left nofun).symm
  | depends n params =>
    refine (bind_namedRest?_newline (by decide)).trans (or_congr_right ⟨?_, ?_⟩)
    · rintro ⟨hafter, hn, rfl⟩
      exact .depends hafter hn
    · intro h
      cases h with
      | depends hafter hn => exact ⟨hafter, hn, rfl⟩
  | tangle n destination =>
    refine (bind_namedRest?_newline (by decide)).trans (or_congr_right ⟨?_, ?_⟩)
    · rintro ⟨hafter, hn, rfl⟩
      exact .tangle hafter hn
    · intro h
      cases h with
      | tangle hafter hn => exact ⟨hafter, hn, rfl⟩

/-- At the end of a text, the line holds no directive. -/
theorem Unended.ofLine?_eq_none (h : Unended l d) : ofLine? l = none := by
  cases h with
  | depends hafter hn =>
    obtain ⟨hname, hopens, -, htangle⟩ :=
      others_eq_none (by decide) (Option.isSome_of_eq_some hafter)
    refine ofLine?_eq_none_iff.2
      ⟨hname (by decide), hopens (by decide), ?_, htangle (by decide)⟩
    rw [dependency?, hafter, Option.bind_some, namedRest?_eq_none hn]
  | tangle hafter hn =>
    obtain ⟨hname, hopens, hdepends, -⟩ :=
      others_eq_none (by decide) (Option.isSome_of_eq_some hafter)
    refine ofLine?_eq_none_iff.2
      ⟨hname (by decide), hopens (by decide), hdepends (by decide), ?_⟩
    rw [tangle?, hafter, Option.bind_some, namedRest?_eq_none hn]

/-- Whether a scan takes the directive in. -/
def isTaken (collects : Bool) : Directive → Bool
  | .tangle _ _ => collects
  | _ => true

end Directive

/-! ## The last step -/

/-- Both corpora have the lines `ls` and one more, which ends in the second one only. -/
structure Corpus.EndsLast (ls : List Line) (l : Line) (c c' : Corpus) : Prop where
  lines : c.lines = ls ++ [l]
  ended : c'.lines = ls ++ [l ++ ['\n']]
  documents : c'.documents = c.documents

namespace Corpus.EndsLast

variable {ls : List Line} {l : Line} {c c' : Corpus} {d : Directive}

theorem sameText (h : EndsLast ls l c c') : c.SameText c' where
  lines := by
    have hsame : List.Forall₂ Text.SameText ls ls := List.forall₂_same.2 fun _ _ => rfl
    have hl : Text.SameText l (l ++ ['\n']) := ignoresEnds_chomp l _ isEnding_newline
    rw [h.lines, h.ended]
    exact List.rel_append hsame (.cons hl .nil)
  documents := h.documents

/-- All other lines hold the same directives. -/
theorem directive?_eq (h : EndsLast ls l c c') {i : Nat} (hi : i ≠ ls.length) :
    c'.directive? i = c.directive? i := by
  rw [Corpus.directive?, Corpus.directive?, h.lines, h.ended]
  rcases Nat.lt_or_gt_of_ne hi with hlt | hgt
  · rw [List.getElem?_append_left hlt, List.getElem?_append_left hlt]
  · rw [List.getElem?_eq_none (by simp; omega), List.getElem?_eq_none (by simp; omega)]

theorem directive?_last (h : EndsLast ls l c c') :
    c.directive? ls.length = Directive.ofLine? l ∧
      c'.directive? ls.length = Directive.ofLine? (l ++ ['\n']) := by
  rw [Corpus.directive?, Corpus.directive?, h.lines, h.ended]
  simp

/-- The last line holds the directive that it lacks the ending for once it ends, and none before. -/
theorem directive?_of_unended (h : EndsLast ls l c c') (hd : Directive.Unended l d) :
    c.directive? ls.length = none ∧ c'.directive? ls.length = some d := by
  obtain ⟨hlast, hlast'⟩ := h.directive?_last
  exact ⟨hlast.trans hd.ofLine?_eq_none,
    hlast'.trans (Directive.ofLine?_newline.2 (Or.inr hd))⟩

end Corpus.EndsLast

/-- A document and the same with a newline behind it. -/
theorem Corpus.endsLast_ofTexts (name : Text) {t : Text} (hne : t ≠ [])
    (hlast : t.getLast? ≠ some '\n') : ∃ ls l, (splitLines t).getLast? = some l ∧
      EndsLast ls l (ofTexts [(name, t)]) (ofTexts [(name, t ++ ['\n'])]) := by
  obtain ⟨ls, l, hlines, hended⟩ := splitLines_newline hne hlast
  refine ⟨ls, l, by simp [hlines], ⟨?_, ?_, ?_⟩⟩
  · simp [ofTexts, hlines]
  · simp [ofTexts, hended]
  · simp [ofTexts, rangesFrom, hlines, hended]

namespace Scan

variable {c : Corpus} {s : Scan}

/-- References without a parameter string are always refused. -/
theorem declareDependencies_nil (c : Corpus) (s : Scan) (n : Text) (i : Nat) :
    ∃ e, declareDependencies c s n [] i = .error e := by
  cases hx : declareDependencies c s n [] i with
  | error e => exact ⟨e, rfl⟩
  | ok s' =>
    unfold declareDependencies at hx
    split at hx
    · exact absurd hx duplicate_ne_ok
    · cases hx

/-- A file is refused exactly if the name has one already. -/
theorem declareTangle_cases (c : Corpus) (s : Scan) (n destination : Text) (i : Nat) :
    (s.tangles.has n = true ∧ ∃ e, declareTangle c s n destination i = .error e) ∨
      (s.tangles.has n = false ∧ declareTangle c s n destination i =
        .ok { s with tangles := s.tangles ++ [(n, destination)] }) := by
  unfold declareTangle
  split
  next hhas =>
    refine Or.inl ⟨hhas, ?_⟩
    cases hx : duplicate c .tangleTarget n i with
    | error e => exact ⟨e, rfl⟩
    | ok s' => exact absurd hx duplicate_ne_ok
  next hfresh =>
    refine Or.inr ⟨by simpa using hfresh, ?_⟩
    rw [Table.insert, Table.alter_of_not_mem _ (mt Table.has_iff_mem_keys.2 hfresh)]

end Scan

namespace Graph

variable {docs docs' : List (Text × Text)} {ls : List Line} {l : Line} {d : Directive}

/-- What stands in increasing order up to a place ends with it. -/
theorem exists_append_of_increasing {places : List Nat} {k : Nat}
    (hinc : places.Pairwise (· < ·)) (hk : k ∈ places) (hle : ∀ i ∈ places, i ≤ k) :
    ∃ before, places = before ++ [k] ∧ ∀ i ∈ before, i < k := by
  obtain ⟨before, after, rfl⟩ := List.append_of_mem hk
  obtain ⟨-, htail, hbefore⟩ := List.pairwise_append.1 hinc
  cases after with
  | nil => exact ⟨before, rfl, fun i hi => hbefore i hi k List.mem_cons_self⟩
  | cons j after =>
    have hlt : k < j := (List.pairwise_cons.1 htail).1 j List.mem_cons_self
    have hge : j ≤ k := hle j (by simp)
    omega

/-- If the last line lacks the ending for a directive, both graphs are refused before that line, or
the directive is what one of the scans takes in last and the other one does not. -/
theorem last_step_cases (h : Corpus.EndsLast ls l (.ofTexts docs) (.ofTexts docs'))
    (hd : Directive.Unended l d) (collects : Bool) :
    (∃ e, ofCorpus (.ofTexts docs) collects = .error e ∧
      ofCorpus (.ofTexts docs') collects = .error e) ∨
    ∃ s : Scan, ofCorpus (.ofTexts docs) collects = .ok (s.finish (.ofTexts docs)) ∧
      ofCorpus (.ofTexts docs') collects =
        (Scan.step (.ofTexts docs') collects s ls.length).map (·.finish (.ofTexts docs')) := by
  obtain ⟨es, es', hes, hes', hplaces⟩ := h.sameText.exists_places
  obtain ⟨hlast, hlast'⟩ := h.directive?_of_unended hd
  have hlength : (Corpus.ofTexts docs').lines.length = ls.length + 1 := by simp [h.ended]
  have hmem : ls.length ∈ directivePlaces es' :=
    mem_directivePlaces_of_end hes' hlength (by simp [hlast'])
  have htiles := tiles_of_parseCorpus hes'
  have hle : ∀ i ∈ directivePlaces es', i ≤ ls.length := fun i hi => by
    have := lt_length_of_mem_directivePlaces htiles i hi
    omega
  obtain ⟨before, hbefore, hlt⟩ :=
    exists_append_of_increasing htiles.increasing_directivePlaces hmem hle
  have hsilent : ∀ s, Scan.run (.ofTexts docs) collects s [ls.length] = .ok s := fun s => by
    rw [Scan.run, Scan.step_eq, hlast]
    rfl
  have hstep : ∀ s, Scan.run (.ofTexts docs') collects s [ls.length] =
      Scan.step (.ofTexts docs') collects s ls.length := fun s => bind_pure _
  have hsame : Scan.run (.ofTexts docs') collects .empty before =
      Scan.run (.ofTexts docs) collects .empty before :=
    Scan.run_sameText h.sameText collects (fun i hi => h.directive?_eq (hlt i hi).ne) .empty
  rw [ofCorpus_of_parseCorpus hes, ofCorpus_of_parseCorpus hes', ← hplaces, hbefore,
    Scan.run_append, Scan.run_append, hsame]
  cases Scan.run (.ofTexts docs) collects .empty before with
  | error e => exact Or.inl ⟨e, rfl, rfl⟩
  | ok s =>
    refine Or.inr ⟨s, ?_, ?_⟩
    · exact congrArg (Except.map _) (hsilent s)
    · exact congrArg (Except.map _) (hstep s)

/-! ## The graph -/

/-- The tables of a graph, without the corpus. -/
def tables (g : Graph) : Table (List BodySpan) × Table Record × Table (List Text) × Table Text :=
  (g.blocks, g.dependencies, g.aggregates, g.tangles)

/-- Both graphs have the same tables, or both were refused with the same error. -/
def TablesAlike (x x' : Except Error Graph) : Prop := x'.map tables = x.map tables

/-- What becomes of a graph over the corpus `c` by a directive that says nothing about its name :
references are refused, and a file is one more row, unless the name has one already. -/
inductive Declares (c : Corpus) (g : Graph) : Directive → Except Error Graph → Prop
  | refused {n : Text} {e : Error} : Declares c g (.depends n []) (.error e)
  | repeated {n : Text} {e : Error} (h : g.tangles.has n = true) :
      Declares c g (.tangle n []) (.error e)
  | added {n : Text} (h : g.tangles.has n = false) : Declares c g (.tangle n [])
      (.ok { g with corpus := c, tangles := g.tangles ++ [(n, [])] })

/-- The directive shows in the tables. -/
theorem Declares.not_tablesAlike {c : Corpus} {g : Graph} {x : Except Error Graph}
    (h : Declares c g d x) : ¬TablesAlike (.ok g) x := by
  intro halike
  cases h with
  | refused => cases halike
  | repeated => cases halike
  | added =>
    simp [TablesAlike, Except.map, tables] at halike

section EndsLast

variable {collects : Bool} (h : Corpus.EndsLast ls l (.ofTexts docs) (.ofTexts docs'))

include h

/-- A directive that is passed over makes no difference, nor does any if the graph is refused
before the last line. -/
theorem tablesAlike_of_endsLast (hpassed : ∀ g, ofCorpus (.ofTexts docs) collects = .ok g →
    ∀ d, Directive.Unended l d → d.isTaken collects = false) :
    TablesAlike (ofCorpus (.ofTexts docs) collects) (ofCorpus (.ofTexts docs') collects) := by
  by_cases hunended : ∃ d, Directive.Unended l d
  · obtain ⟨d, hd⟩ := hunended
    rcases last_step_cases h hd collects with ⟨e, he, he'⟩ | ⟨s, hs, hs'⟩
    · rw [he, he']
      rfl
    · have hskip : d.isTaken collects = false := hpassed _ hs d hd
      have hstep : Scan.step (.ofTexts docs') collects s ls.length = .ok s := by
        rw [Scan.step_eq, (h.directive?_of_unended hd).2]
        cases hd with
        | depends => cases hskip
        | tangle =>
          cases hskip
          rfl
      rw [hs, hs', hstep]
      rfl
  · -- without such a directive, all lines hold what they held
    have hsame : ∀ i, (Corpus.ofTexts docs').directive? i = (Corpus.ofTexts docs).directive? i := by
      intro i
      by_cases hi : i = ls.length
      · obtain ⟨hlast, hlast'⟩ := h.directive?_last
        rw [hi, hlast, hlast']
        refine Option.ext fun d => Directive.ofLine?_newline.trans (or_iff_left fun hd => ?_)
        exact hunended ⟨d, hd⟩
      · exact h.directive?_eq hi
    rw [TablesAlike, ofCorpus_sameText h.sameText hsame]
    cases ofCorpus (.ofTexts docs) collects <;> rfl

/-- A directive that is taken in is the last thing that the graph is made of. -/
theorem declares_of_endsLast {g : Graph} (hg : ofCorpus (.ofTexts docs) collects = .ok g)
    (hd : Directive.Unended l d) (htaken : d.isTaken collects = true) :
    Declares (.ofTexts docs') g d (ofCorpus (.ofTexts docs') collects) := by
  obtain ⟨e, he, -⟩ | ⟨s, hs, hs'⟩ := last_step_cases h hd collects
  · cases he.symm.trans hg
  cases hs.symm.trans hg
  rw [hs', Scan.step_eq, (h.directive?_of_unended hd).2]
  cases hd with
  | @depends n hafter hn =>
    obtain ⟨e, he⟩ := Scan.declareDependencies_nil (.ofTexts docs') s n ls.length
    dsimp only
    rw [he]
    exact .refused
  | @tangle n hafter hn =>
    obtain rfl : collects = true := htaken
    dsimp only
    rw [if_pos rfl]
    rcases Scan.declareTangle_cases (.ofTexts docs') s n [] ls.length with
      ⟨hhas, e, he⟩ | ⟨hfresh, hok⟩
    · rw [he]
      exact .repeated hhas
    · rw [hok]
      exact .added hfresh

end EndsLast

/-- A newline behind a text that does not end in one makes no difference to the tables of its graph
and to the error that the graph is refused with, unless the graph is not refused without it and the
last line lacks the ending for a directive that is taken in. Then this directive is declared. -/
theorem newline_reads_alike_iff (name : Text) {t : Text} (hne : t ≠ [])
    (hlast : t.getLast? ≠ some '\n') (collects : Bool) :
    ∃ l, (splitLines t).getLast? = some l ∧
      (TablesAlike (ofCorpus (.ofTexts [(name, t)]) collects)
          (ofCorpus (.ofTexts [(name, t ++ ['\n'])]) collects) ↔
        ∀ g, ofCorpus (.ofTexts [(name, t)]) collects = .ok g →
          ∀ d, Directive.Unended l d → d.isTaken collects = false) ∧
      ∀ g, ofCorpus (.ofTexts [(name, t)]) collects = .ok g →
        ∀ d, Directive.Unended l d → d.isTaken collects = true →
          Declares (.ofTexts [(name, t ++ ['\n'])]) g d
            (ofCorpus (.ofTexts [(name, t ++ ['\n'])]) collects) := by
  obtain ⟨ls, l, hl, hends⟩ := Corpus.endsLast_ofTexts name hne hlast
  refine ⟨l, hl, ⟨fun halike g hg d hd => ?_, tablesAlike_of_endsLast hends⟩,
    fun g hg d => declares_of_endsLast hends hg⟩
  by_contra htaken
  rw [hg] at halike
  exact (declares_of_endsLast hends hg hd (by simpa using htaken)).not_tablesAlike halike

/-- The name of a file, and nothing else. -/
def tart : Text := "#+tangle:tart".toList

/-- With a newline, the name has a file without a path, unless files are passed over. -/
theorem tart_reads_otherwise : tart ≠ [] ∧ tart.getLast? ≠ some '\n' ∧
    ¬TablesAlike (ofCorpus (.ofTexts [("d.org".toList, tart)]) true)
      (ofCorpus (.ofTexts [("d.org".toList, tart ++ ['\n'])]) true) ∧
    TablesAlike (ofCorpus (.ofTexts [("d.org".toList, tart)]) false)
      (ofCorpus (.ofTexts [("d.org".toList, tart ++ ['\n'])]) false) := by
  have hne : tart ≠ [] := by decide
  have hlast : tart.getLast? ≠ some '\n' := by decide
  have hline : (splitLines tart).getLast? = some tart := by decide
  have hunended : Directive.Unended tart (.tangle "tart".toList []) :=
    .tangle (by decide) (by decide)
  have hempty : (ofCorpus (.ofTexts [("d.org".toList, tart)]) true).map (·.tangles) = .ok [] := by
    decide +kernel
  obtain ⟨g, hg, -⟩ := map_eq_ok.1 hempty
  refine ⟨hne, hlast, fun halike => ?_, ?_⟩
  · obtain ⟨l, hl, hiff, -⟩ := newline_reads_alike_iff "d.org".toList hne hlast true
    obtain rfl : tart = l := Option.some.inj (hline.symm.trans hl)
    cases hiff.1 halike g hg _ hunended
  · obtain ⟨l, hl, hiff, -⟩ := newline_reads_alike_iff "d.org".toList hne hlast false
    obtain rfl : tart = l := Option.some.inj (hline.symm.trans hl)
    refine hiff.2 fun g _ d hd => ?_
    cases hd with
    | depends hafter =>
      have hnone : Org.afterKeyword? "depends:".toList tart = none := by decide
      rw [hnone] at hafter
      cases hafter
    | tangle => rfl

end Graph

end OrgWeave
