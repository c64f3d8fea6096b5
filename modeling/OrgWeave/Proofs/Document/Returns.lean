import OrgWeave.Proofs.Document.Endings

/-!
# Documents with carriage returns

Documents with a carriage return in front of every newline have the same lines but for how they
end (`Corpus.returned_ofTexts`). All lines that end still do, so that each of them holds the same
directive as before (`Directive.ignoresReturns_ofLine?`).
-/

namespace OrgWeave

open Text

namespace Directive

/-- The name and the rest behind a keyword are the same with a carriage return. -/
theorem ignoresReturns_namedRest? {f : Line → Option Text} (hf : KeepsEnds f) :
    IgnoresReturns fun l => (f l).bind namedRest? := by
  rintro _ _ (l | @⟨t, _⟩)
  · rfl
  · simp only [hf t _ isEnding_return, hf t _ isEnding_newline]
    cases f t with
    | none => rfl
    | some rest =>
      rw [Option.map_some, Option.map_some, Option.bind_some, Option.bind_some,
        namedRest?_append isEnding_return (by simp), namedRest?_append isEnding_newline (by simp)]

theorem ignoresReturns_ofLine? : IgnoresReturns ofLine? := by
  intro l l' h
  have hdependency : dependency? l' = dependency? l :=
    ignoresReturns_namedRest? (Org.keepsEnds_afterKeyword? (by decide)) h
  have htangle : tangle? l' = tangle? l :=
    ignoresReturns_namedRest? (Org.keepsEnds_afterKeyword? (by decide)) h
  rw [ofLine?, ofLine?, ignoresEnds_declaredName?.ignoresReturns h,
    Org.ignoresEnds_opensSource.ignoresReturns h, hdependency, htangle]

end Directive

/-! ## Corpora -/

namespace Corpus

/-- The documents with a carriage return in front of every newline. -/
def withReturns (docs : List (Text × Text)) : List (Text × Text) :=
  docs.map fun d => (d.1, Text.withReturns d.2)

/-- The second corpus is the first one, with a carriage return in front of every newline. -/
structure Returned (c c' : Corpus) : Prop where
  lines : List.Forall₂ Text.Returned c.lines c'.lines
  documents : c'.documents = c.documents

variable {c c' : Corpus}

/-- Documents without carriage returns, and the same with them. -/
theorem returned_ofTexts {docs : List (Text × Text)} (h : ∀ d ∈ docs, '\r' ∉ d.2) :
    (ofTexts docs).Returned (ofTexts (withReturns docs)) where
  lines := by
    induction docs with
    | nil => exact .nil
    | cons d docs ih =>
      have hd := returned_splitLines (h d List.mem_cons_self)
      exact List.rel_append hd (ih fun d' hd' => h d' (List.mem_cons_of_mem d hd'))
  documents := by
    have hranges : ∀ start, rangesFrom start (withReturns docs) = rangesFrom start docs := by
      induction docs with
      | nil => exact fun _ => rfl
      | cons d docs ih =>
        intro start
        have hlength := (returned_splitLines (h d List.mem_cons_self)).length_eq
        have hcons : withReturns (d :: docs) =
            (d.1, Text.withReturns d.2) :: withReturns docs := rfl
        simp only [hcons, rangesFrom, ← hlength,
          ih fun d' hd' => h d' (List.mem_cons_of_mem d hd')]
    exact hranges 0

theorem Returned.sameText (h : c.Returned c') : c.SameText c' where
  lines := h.lines.imp fun _ _ hl => hl.sameText
  documents := h.documents

/-- All lines hold the same directives with carriage returns. -/
theorem Returned.directive? (h : c.Returned c') (i : Nat) : c'.directive? i = c.directive? i := by
  rw [Corpus.directive?, Corpus.directive?]
  have hlines := h.lines
  generalize c.lines = ls, c'.lines = ls' at hlines
  induction hlines generalizing i with
  | nil => rfl
  | cons hl _ ih =>
    cases i with
    | zero => exact Directive.ignoresReturns_ofLine? hl
    | succ i => exact ih i

theorem Returned.slice (h : c.Returned c') (start stop : Nat) :
    List.Forall₂ Text.Returned (c.slice start stop) (c'.slice start stop) :=
  List.forall₂_take _ (List.forall₂_drop _ h.lines)

end Corpus

end OrgWeave
