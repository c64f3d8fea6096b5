import OrgWeave.Proofs.Document.Grammar
import OrgWeave.Proofs.Graph.Places

/-!
# Directives line by line

A directive that stands outside all bodies is the first line of an element, and the element
is one that can hold it : prose, headings and blank lines hold no keyword line, the closing
line of a block is no directive, and a block that opens like a source block is a source block
or is never closed (`Org.Reads.holdsDirective_or_mem_body`).

A place without a directive leaves the scan as it is, so that such places can be left out
(`Scan.run_filter`). If no body holds a directive, what is left of all lines are the
directive places of the elements, and the two ways to read a graph come to the same
(`Graph.ofLines_eq_ofElements`).
-/

namespace OrgWeave

open Text

namespace Org

variable {l m : Line} {ls : List Line} {n p : Nat}

/-! ## The lines of an element -/

/-- The lines of a block between its opening and its closing line. -/
def Content.body : Content → List Line
  | .block _ _ body _ => body
  | .source _ _ body _ => body
  | _ => []

/-- A line of a block is the one that opens it, or is inside, or is the one that closes it. -/
theorem place_in_block {closing : Line} {body : List Line}
    (hm : (l :: (body ++ [closing]))[p]? = some m) : (p = 0 ∧ m = l) ∨
      (0 < p ∧ p + 1 < (l :: (body ++ [closing])).length) ∨ m = closing := by
  cases p with
  | zero => exact Or.inl ⟨rfl, by simpa using hm.symm⟩
  | succ p =>
    right
    rw [List.getElem?_cons_succ] at hm
    rcases Nat.lt_or_ge p body.length with hlt | hge
    · exact Or.inl ⟨Nat.succ_pos p, by simp; omega⟩
    · rw [List.getElem?_append_right hge] at hm
      exact Or.inr (List.mem_singleton.1 (List.mem_of_getElem? hm))

/-- A directive in an element is on the first line of one that can hold it, or inside a block. -/
theorem Rule.Admits.directive_place {r : Rule} {ms rest : List Line} (h : r.Admits ms rest)
    (hm : ms[p]? = some m) (hd : Directive.ofLine? m ≠ none) :
    (p = 0 ∧ (r = .source ∨ r = .keyword)) ∨
      ((r = .source ∨ r = .block) ∧ 0 < p ∧ p + 1 < ms.length) := by
  have hkeyword : isKeyword m ≠ false := fun hnot =>
    hd (Directive.ofLine?_eq_none_of_not_isKeyword hnot)
  have hmem : m ∈ ms := List.mem_of_getElem? hm
  cases h with
  | heading hl =>
    rw [List.mem_singleton.1 hmem] at hkeyword
    exact absurd (isKeyword_eq_false_of_isHeading hl) hkeyword
  | source _ _ hcloses =>
    rcases place_in_block hm with ⟨hp, -⟩ | hinside | rfl
    · exact Or.inl ⟨hp, Or.inl rfl⟩
    · exact Or.inr ⟨Or.inl rfl, hinside⟩
    · exact absurd (Directive.ofLine?_eq_none_of_closesSource hcloses) hd
  | block hopens hother _ hcloses =>
    rcases place_in_block hm with ⟨-, rfl⟩ | hinside | rfl
    · exact absurd (Directive.ofLine?_eq_none_of_opensBlock hopens hother) hd
    · exact Or.inr ⟨Or.inr rfl, hinside⟩
    · exact absurd (Directive.ofLine?_eq_none_of_closesBlock hcloses) hd
  | keyword =>
    obtain ⟨hlt, -⟩ := List.getElem?_eq_some_iff.1 hm
    exact Or.inl ⟨by simpa using hlt, Or.inr rfl⟩
  | blank hms => exact absurd (isKeyword_eq_false_of_isBlank (hms m hmem)) hkeyword
  | prose _ _ hplain => exact absurd (hplain m hmem).2 hkeyword

/-- Of the lines that a rule takes, the first one holds a directive if the rule makes an element
that can, and all others with a directive are in the body of a block. -/
theorem Rule.holdsDirective_or_mem_body {rule : Rule} {start : Int}
    (h : choose? order l ls = some (rule, n)) (hm : (l :: ls.take n)[p]? = some m)
    (hd : Directive.ofLine? m ≠ none) :
    (p = 0 ∧ (Element.mk start (rule.make l (ls.take n))).holdsDirective = true) ∨
      m ∈ (rule.make l (ls.take n)).body := by
  rcases (admits_of_choose? h).directive_place hm hd with ⟨hp, hrule⟩ | ⟨hrule, hpos, hlt⟩
  · exact Or.inl ⟨hp, by rcases hrule with rfl | rfl <;> rfl⟩
  · have hbody : (rule.make l (ls.take n)).body = (ls.take n).dropLast := by
      rcases hrule with rfl | rfl <;> rfl
    obtain ⟨k, rfl⟩ := Nat.exists_eq_add_of_lt hpos
    rw [List.length_cons] at hlt
    rw [Nat.zero_add, List.getElem?_cons_succ] at hm
    rw [hbody]
    refine Or.inr (List.mem_of_getElem? (i := k) ?_)
    rw [List.getElem?_dropLast, if_pos (by omega), hm]

/-- Every directive among lines that are read to their end is the first line of an element that
can hold one, or is in the body of a block. -/
theorem Reads.holdsDirective_or_mem_body {start : Int} {es : List Element}
    (h : Reads Rule.order start ls es []) (hm : ls[p]? = some m)
    (hd : Directive.ofLine? m ≠ none) :
    (∃ e ∈ es, e.holdsDirective = true ∧ e.start = start + p) ∨ ∃ e ∈ es, m ∈ e.content.body := by
  generalize hrest : ([] : List Line) = rest at h
  induction h generalizing p with
  | stop =>
    subst hrest
    simp at hm
  | @element start l ls rule n es rest chosen tail ih =>
    rcases Nat.lt_or_ge n p with hlt | hle
    · obtain ⟨k, rfl⟩ := Nat.exists_eq_add_of_lt hlt
      have hk : (ls.drop n)[k]? = some m := by
        rw [List.getElem?_drop, ← hm, List.getElem?_cons_succ]
      rcases ih hk hrest with ⟨e, he, hholds, hstart⟩ | ⟨e, he, hbody⟩
      · exact Or.inl ⟨e, List.mem_cons_of_mem _ he, hholds, by omega⟩
      · exact Or.inr ⟨e, List.mem_cons_of_mem _ he, hbody⟩
    · have hp : (l :: ls.take n)[p]? = some m := by
        rw [← List.take_succ_cons, List.getElem?_take, if_pos (Nat.lt_succ_of_le hle), hm]
      rcases Rule.holdsDirective_or_mem_body chosen hp hd with ⟨rfl, hholds⟩ | hbody
      · exact Or.inl ⟨_, List.mem_cons_self, hholds, by simp⟩
      · exact Or.inr ⟨_, List.mem_cons_self, hbody⟩

/-- If no body holds a directive, the directive lines are among the directive places. -/
theorem Reads.mem_directivePlaces {ls : List Line} {es : List Element}
    (h : Reads Rule.order 0 ls es []) (hquiet : ∀ e ∈ es, ∀ l ∈ e.content.body,
      Directive.ofLine? l = none) (hm : ls[p]? = some m) (hd : Directive.ofLine? m ≠ none) :
    p ∈ directivePlaces es := by
  rcases h.holdsDirective_or_mem_body hm hd with ⟨e, he, hholds, hstart⟩ | ⟨e, he, hbody⟩
  · refine List.mem_map.2 ⟨e, List.mem_filter.2 ⟨he, hholds⟩, ?_⟩
    omega
  · exact absurd (hquiet e he m hbody) hd

end Org

/-! ## Places without a directive -/

namespace Scan

variable {c : Corpus} {collects : Bool}

/-- Places without a directive can be left out of a scan. -/
theorem run_filter (places : List Nat) (s : Scan) :
    run c collects s (places.filter fun i => (c.directive? i).isSome) =
      run c collects s places := by
  induction places generalizing s with
  | nil => rfl
  | cons i places ih =>
    cases hd : c.directive? i with
    | some d =>
      rw [List.filter_cons_of_pos (by simp [hd]), run, run]
      exact bind_congr ih
    | none =>
      have hstep : step c collects s i = .ok s := by simp only [step_eq, hd]
      rw [List.filter_cons_of_neg (by simp [hd]), ih, run, hstep]
      rfl

end Scan

/-- Increasing lists with the same members are the same. -/
theorem eq_of_increasing {xs ys : List Nat} (hx : xs.Pairwise (· < ·)) (hy : ys.Pairwise (· < ·))
    (h : ∀ i, i ∈ xs ↔ i ∈ ys) : xs = ys := by
  have hperm : xs.Perm ys :=
    (List.perm_ext_iff_of_nodup (hx.imp Nat.ne_of_lt) (hy.imp Nat.ne_of_lt)).2 h
  exact hperm.eq_of_pairwise (fun i j _ _ hij hji => absurd hij (Nat.lt_asymm hji)) hx hy

namespace Graph

open Org

/-- Places with the same directives give the same graph, or fail in the same way. -/
theorem ofPlaces_congr {c : Corpus} {collects : Bool} {xs ys : List Nat}
    (hx : xs.Pairwise (· < ·)) (hy : ys.Pairwise (· < ·))
    (h : ∀ i, c.directive? i ≠ none → (i ∈ xs ↔ i ∈ ys)) :
    ofPlaces c collects xs = ofPlaces c collects ys := by
  have hplaces : xs.filter (fun i => (c.directive? i).isSome) =
      ys.filter fun i => (c.directive? i).isSome := by
    refine eq_of_increasing (hx.filter _) (hy.filter _) fun i => ?_
    rw [List.mem_filter, List.mem_filter, Option.isSome_iff_ne_none]
    exact and_congr_left (h i)
  rw [ofPlaces, ofPlaces, ← Scan.run_filter xs, hplaces, Scan.run_filter ys]

/-- All lines of a corpus and its elements give the same graph, or fail in the same way, if no
body holds a directive. -/
theorem ofLines_eq_ofElements (c : Corpus) (collects : Bool) :
    ∃ es, parse Rule.order 0 c.lines = .ok es ∧
      ((∀ e ∈ es, ∀ l ∈ e.content.body, Directive.ofLine? l = none) →
        ofLines c collects = ofElements c es collects) := by
  obtain ⟨es, rest, hreads, ⟨rfl, hok⟩ | ⟨l, ms, -, hnone, -⟩⟩ :=
    parse_outcome Rule.order 0 c.lines
  · refine ⟨es, hok, fun hquiet => ?_⟩
    have htiles : Tiles 0 (elementLines es).length es := by simpa using hreads.tiles
    refine ofPlaces_congr List.pairwise_lt_range htiles.increasing_directivePlaces fun i hd => ?_
    obtain ⟨d, hd⟩ := Option.ne_none_iff_exists'.1 hd
    obtain ⟨m, hm, hline⟩ := Option.bind_eq_some_iff.1 hd
    have hlt : i < c.lines.length := (List.getElem?_eq_some_iff.1 hm).1
    have hplace : i ∈ directivePlaces es :=
      hreads.mem_directivePlaces hquiet hm (Option.ne_none_iff_exists'.2 ⟨d, hline⟩)
    exact ⟨fun _ => hplace, fun _ => List.mem_range.2 hlt⟩
  · exact absurd hnone (Rule.choose?_order l ms)

/-- Elements of all kinds, a block of another kind than source, a source block that is
never closed, and one with a record that shares a name. -/
def tour : Corpus :=
  Corpus.ofTexts [("d.org".toList, ["* t\n", "p\n", "\n", "#+tangle:a o\n", "#+name: a\n",
    "#+begin_src x :noweb-ref s\n", "\n", "\n", "#+end_src\n", "#+begin_q\n", "#+t\n", "#+end_q\n",
    "#+depends:a :cpp v :noweb b\n", "#+name: b\n", "#+begin_src\n"].flatMap String.toList)]

def tourGraph : Graph where
  corpus := tour
  blocks := [("a".toList, [⟨5, 8, true, by decide⟩]), ("s".toList, [⟨5, 8, true, by decide⟩]),
    ("b".toList, [⟨14, 15, true, by decide⟩])]
  dependencies :=
    [("a".toList, ⟨["v".toList], ["b".toList]⟩), ("s".toList, ⟨["v".toList], ["b".toList]⟩)]
  aggregates := [("s".toList, ["a".toList])]
  tangles := [("a".toList, "o".toList)]

/-- Both ways give this graph. -/
theorem tour_reads_alike :
    ∃ es, parse Rule.order 0 tour.lines = .ok es ∧
      (∀ e ∈ es, ∀ l ∈ e.content.body, Directive.ofLine? l = none) ∧
      ofLines tour true = ofElements tour es true ∧
      ofElements tour es true = .ok tourGraph := by
  obtain ⟨es, hes, h⟩ := ofLines_eq_ofElements tour true
  have hquiet : (parse Rule.order 0 tour.lines).map (fun es =>
      decide (∀ e ∈ es, ∀ l ∈ e.content.body, Directive.ofLine? l = none)) = .ok true := by
    decide +kernel
  rw [hes, Except.map, Except.ok.injEq, decide_eq_true_iff] at hquiet
  refine ⟨es, hes, hquiet, h hquiet, ?_⟩
  rw [← h hquiet]
  decide +kernel

end Graph

end OrgWeave
