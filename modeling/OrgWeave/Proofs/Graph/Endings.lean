import OrgWeave.Proofs.Document.Endings

/-!
# Graphs and the ends of lines

Corpora with the same lines but for how they end have their directives at the same places, and
their blocks open and close at the same lines. So both are scanned alike, as far as the lines that
are looked at hold the same directives (`Scan.run_sameText`), and if all of them do, the graphs
have the same tables (`Graph.ofCorpus_sameText`).
-/

namespace OrgWeave

open Org

/-! ## The same places -/

namespace Corpus.SameText

variable {c c' : Corpus}

/-- Both corpora have a line at an index, or none of them has. -/
theorem line_cases (h : c.SameText c') (i : Nat) :
    (c.lines[i]? = none ∧ c'.lines[i]? = none) ∨
      ∃ l l', c.lines[i]? = some l ∧ c'.lines[i]? = some l' ∧ Text.SameText l l' := by
  have hlines := h.lines
  generalize c.lines = ls, c'.lines = ls' at hlines
  induction hlines generalizing i with
  | nil => exact Or.inl ⟨rfl, rfl⟩
  | @cons l l' _ _ hl _ ih =>
    cases i with
    | zero => exact Or.inr ⟨l, l', rfl, rfl, hl⟩
    | succ i => simpa only [List.getElem?_cons_succ] using ih i

theorem lineAt (h : c.SameText c') (i : Nat) : Text.SameText (c.lineAt i) (c'.lineAt i) := by
  rw [Corpus.lineAt, Corpus.lineAt]
  rcases h.line_cases i with ⟨hnone, hnone'⟩ | ⟨l, l', hsome, hsome', hl⟩
  · rw [hnone, hnone']
    rfl
  · rw [hsome, hsome']
    exact hl

theorem opens (h : c.SameText c') (i : Nat) : c'.opens i = c.opens i := by
  rw [Corpus.opens, Corpus.opens]
  rcases h.line_cases i with ⟨hnone, hnone'⟩ | ⟨l, l', hsome, hsome', hl⟩
  · rw [hnone, hnone']
  · rw [hsome, hsome']
    exact ignoresEnds_opensSource.eq_of_sameText hl

theorem describe (h : c.SameText c') : c'.describe = c.describe := by
  funext i
  have hdocument : c'.documentAt? = c.documentAt? := by
    funext i
    rw [documentAt?, documentAt?, h.documents]
  rw [Corpus.describe, Corpus.describe, locate, locate, h.lines.length_eq, hdocument]

/-- The elements of both corpora hold their directives at the same places. -/
theorem exists_places (h : c.SameText c') : ∃ es es', parseCorpus c = .ok es ∧
    parseCorpus c' = .ok es' ∧ directivePlaces es' = directivePlaces es := by
  obtain ⟨es, hes⟩ := exists_parseCorpus c
  obtain ⟨es', hes'⟩ := exists_parseCorpus c'
  have hreports := map_toJson_parseCorpus h
  rw [hes, hes', Except.map, Except.map, Except.ok.injEq] at hreports
  exact ⟨es, es', hes, hes', directivePlaces_congr hreports⟩

end Corpus.SameText

/-! ## The same scan -/

namespace Scan

variable {c c' : Corpus} {l l' : Line}

theorem spanAt_sameText (h : c.SameText c') (opening : Nat) (hl : Text.SameText l l') :
    spanAt c' opening l' = spanAt c opening l := by
  have hstop := findIdx_sameText ignoresEnds_closesSource
    (List.forall₂_drop (opening + 1) h.lines)
  simp only [spanAt, hstop, ignoresEnds_header.eq_of_sameText hl]

/-- A place is taken in alike if it holds the same directive. -/
theorem step_sameText (h : c.SameText c') (collects : Bool) (s : Scan) {i : Nat}
    (hd : c'.directive? i = c.directive? i) : step c' collects s i = step c collects s i := by
  have hduplicate : duplicate c' = duplicate c := by
    funext what name i
    rw [duplicate, duplicate, h.describe]
  rw [step_eq, step_eq, hd, h.opens]
  cases c.directive? i with
  | none => rfl
  | some d =>
    cases d with
    | name n => simp only [declareName, hduplicate, spanAt_sameText h _ (h.lineAt (i + 1))]
    | opening =>
      simp only [openBlock, ignoresEnds_header.eq_of_sameText (h.lineAt i),
        spanAt_sameText h _ (h.lineAt i)]
    | depends n params => simp only [declareDependencies, hduplicate]
    | tangle n destination => simp only [declareTangle, hduplicate]

theorem run_sameText (h : c.SameText c') (collects : Bool) {places : List Nat}
    (hd : ∀ i ∈ places, c'.directive? i = c.directive? i) (s : Scan) :
    run c' collects s places = run c collects s places := by
  induction places generalizing s with
  | nil => rfl
  | cons i places ih =>
    rw [run, run, step_sameText h collects s (hd i List.mem_cons_self)]
    exact bind_congr fun s => ih (fun j hj => hd j (List.mem_cons_of_mem i hj)) s

end Scan

/-! ## The same tables -/

namespace Graph

/-- The tables of a graph over another corpus. -/
def onCorpus (g : Graph) (c : Corpus) : Graph := { g with corpus := c }

/-- The graph of a corpus is what a scan of the directive places of its elements makes. -/
theorem ofCorpus_of_parseCorpus {c : Corpus} {es : List Element} (h : parseCorpus c = .ok es)
    (collects : Bool) : ofCorpus c collects =
      (Scan.run c collects .empty (directivePlaces es)).map (·.finish c) := by
  rw [ofCorpus, h]
  change ofElements c es collects = _
  rw [ofElements, ofPlaces, directivePlaces]
  cases Scan.run c collects .empty _ <;> rfl

/-- Corpora with the same lines but for how they end are refused with the same error, or their
graphs have the same tables, if their lines hold the same directives. -/
theorem ofCorpus_sameText {c c' : Corpus} (h : c.SameText c')
    (hd : ∀ i, c'.directive? i = c.directive? i) (collects : Bool) :
    ofCorpus c' collects = (ofCorpus c collects).map (·.onCorpus c') := by
  obtain ⟨es, es', hes, hes', hplaces⟩ := h.exists_places
  rw [ofCorpus_of_parseCorpus hes, ofCorpus_of_parseCorpus hes', hplaces,
    Scan.run_sameText h collects fun i _ => hd i]
  cases Scan.run c collects .empty (directivePlaces es) <;> rfl

end Graph

end OrgWeave
