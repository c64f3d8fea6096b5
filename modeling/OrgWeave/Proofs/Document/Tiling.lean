import OrgWeave.Org.Document
import OrgWeave.Proofs.Document.Takers
import Mathlib.Data.List.Basic
import Mathlib.Tactic.Convert

/-!
# Elements tile their document

`Reads rules start ls es rest` says that `rules` read the elements `es` off the front of
the lines `ls`, which start at the index `start`, and stop in front of `rest`. Every
reading keeps the lines (`Reads.lines`) and lays the elements side by side
(`Reads.tiles`), because whatever a rule takes it also keeps (`Rule.lines_make`).

`parse` reads on until nothing is left or no rule takes the next line, and in the second
case it fails there (`parse_outcome`). A line is blank, or a heading, or a keyword line,
or none of these, so that `Rule.order` always reads on (`Rule.choose?_order`).
-/

namespace OrgWeave.Org

open Text

/-! ## What a rule takes -/

namespace Rule

variable {rules : List Rule} {rule : Rule} {l : Line} {ls : List Line} {n : Nat}

/-- The rule that is chosen is one of the rules and takes the lines that it is chosen for. -/
theorem take_of_choose? (h : choose? rules l ls = some (rule, n)) :
    rule ∈ rules ∧ rule.taker.take l ls = n + 1 := by
  obtain ⟨r, hr, hsome⟩ := List.exists_of_findSome?_eq_some h
  split at hsome
  · cases hsome
  · rename_i k hk
    cases hsome
    exact ⟨hr, hk⟩

/-- No rule is chosen exactly when none takes a line. -/
theorem choose?_eq_none_iff :
    choose? rules l ls = none ↔ ∀ rule ∈ rules, rule.taker.take l ls = 0 := by
  unfold choose?
  rw [List.findSome?_eq_none_iff]
  refine forall₂_congr fun rule _ => ?_
  cases rule.taker.take l ls <;> simp

/-- A rule keeps the lines that it takes : its element gives them back. -/
theorem lines_make (h : rule.taker.take l ls = n + 1) :
    (rule.make l (ls.take n)).lines = l :: ls.take n := by
  cases rule with
  | heading =>
    obtain ⟨rfl, hh⟩ := Taker.take_first_eq_succ_iff.1 h
    obtain ⟨heading, hsome⟩ := Option.isSome_iff_exists.1 hh
    simp [make, hsome, Content.lines, Heading.raw_of_ofLine? hsome]
  | source =>
    obtain ⟨-, body, closing, rest, rfl, rfl, -⟩ := Taker.take_between_eq_succ_iff.1 h
    rw [List.take_left]
    simp [make, Content.lines]
  | block =>
    obtain ⟨-, body, closing, rest, rfl, rfl, -⟩ := Taker.take_between_eq_succ_iff.1 h
    rw [List.take_left]
    simp [make, Content.lines]
  | keyword =>
    obtain ⟨rfl, -⟩ := Taker.take_first_eq_succ_iff.1 h
    rfl
  | blank => rfl
  | prose => rfl

theorem length_lines_make (h : rule.taker.take l ls = n + 1) :
    (rule.make l (ls.take n)).lines.length = n + 1 := by
  have := rule.taker.take_le l ls
  rw [lines_make h, List.length_cons, List.length_take]
  omega

/-- `order` chooses a rule at every line : a line is blank, a heading, a keyword line, or
prose if it is none of these. -/
theorem choose?_order (l : Line) (ls : List Line) : choose? order l ls ≠ none := by
  rw [Ne, choose?_eq_none_iff]
  intro h
  have hblank : isBlank l = false := by
    have := h .blank (by decide)
    by_contra hb
    rw [Bool.not_eq_false] at hb
    simp [taker, Taker.take, hb] at this
  have hheading : isHeading l = false := by
    have := h .heading (by decide)
    by_contra hh
    rw [Bool.not_eq_false] at hh
    simp [taker, Taker.take, hh] at this
  have hkeyword : isKeyword l = false := by
    have := h .keyword (by decide)
    by_contra hk
    rw [Bool.not_eq_false] at hk
    simp [taker, Taker.take, hk] at this
  have := h .prose (by decide)
  simp [taker, Taker.take, trailingCount, hblank, hheading, hkeyword] at this

end Rule

/-! ## Readings -/

/-- The elements lie one after another from `start` to `stop`, and none of them is empty. -/
def Tiles : Int → Int → List Element → Prop
  | start, stop, [] => start = stop
  | start, stop, e :: es => e.start = start ∧ e.lines ≠ [] ∧ Tiles (start + e.lines.length) stop es

namespace Tiles

variable {start middle stop : Int} {es fs : List Element}

theorem append : ∀ {es : List Element} {start : Int}, Tiles start middle es →
    Tiles middle stop fs → Tiles start stop (es ++ fs)
  | [], _, h, h' => by
    rw [Tiles] at h
    subst h
    exact h'
  | _ :: _, _, ⟨hstart, hne, h⟩, h' => ⟨hstart, hne, append h h'⟩

theorem le_start : ∀ {es : List Element} {start : Int}, Tiles start stop es →
    ∀ e ∈ es, start ≤ e.start
  | _ :: _, _, ⟨hstart, _, h⟩, e, he => by
    rcases List.mem_cons.1 he with rfl | he
    · exact Int.le_of_eq hstart.symm
    · have := le_start h e he
      omega

theorem le_stop : ∀ {es : List Element} {start : Int}, Tiles start stop es → start ≤ stop
  | [], _, h => Int.le_of_eq h
  | e :: es, _, ⟨_, _, h⟩ => by
    have := le_stop h
    omega

/-- Elements that tile start in front of the end. -/
theorem start_lt : ∀ {es : List Element} {start : Int}, Tiles start stop es →
    ∀ e ∈ es, e.start < stop
  | _ :: _, _, ⟨hstart, hne, h⟩, e, he => by
    rcases List.mem_cons.1 he with rfl | he
    · have hle := le_stop h
      have hpos := List.length_pos_iff.2 hne
      omega
    · exact start_lt h e he

/-- Elements that tile end in front of the end, or with it. -/
theorem end_le : ∀ {es : List Element} {start : Int}, Tiles start stop es →
    ∀ e ∈ es, e.start + e.lines.length ≤ stop
  | _ :: _, _, ⟨hstart, _, h⟩, e, he => by
    rcases List.mem_cons.1 he with rfl | he
    · rw [hstart]
      exact le_stop h
    · exact end_le h e he

/-- Elements that tile start one after another. -/
theorem increasing : ∀ {es : List Element} {start : Int}, Tiles start stop es →
    es.Pairwise fun e e' => e.start < e'.start
  | [], _, _ => List.Pairwise.nil
  | e :: es, _, ⟨hstart, hne, h⟩ => by
    refine List.pairwise_cons.2 ⟨fun e' he' => ?_, increasing h⟩
    have hle := le_start h e' he'
    have hpos := List.length_pos_iff.2 hne
    omega

/-- Of two elements that tile, the one that starts first ends before the other one starts. -/
theorem end_le_start : ∀ {es : List Element} {start : Int}, Tiles start stop es →
    ∀ e ∈ es, ∀ e' ∈ es, e.start < e'.start → e.start + e.lines.length ≤ e'.start
  | _ :: _, _, ⟨hstart, _, h⟩, e, he, e', he', hlt => by
    rcases List.mem_cons.1 he with rfl | hmem <;> rcases List.mem_cons.1 he' with rfl | hmem'
    · exact absurd hlt (Int.lt_irrefl _)
    · rw [hstart]
      exact le_start h e' hmem'
    · have := le_start h e hmem
      omega
    · exact end_le_start h e hmem e' hmem' hlt

/-- Elements that tile leave no line between them. -/
theorem exists_covering : ∀ {es : List Element} {start : Int}, Tiles start stop es → ∀ {i : Int},
    start ≤ i → i < stop → ∃ e ∈ es, e.start ≤ i ∧ i < e.start + e.lines.length
  | [], _, h, _, hle, hlt => by
    have hstop : _ = stop := h
    omega
  | e :: _, start, ⟨hstart, _, h⟩, i, hle, hlt => by
    rcases Int.lt_or_le i (start + e.lines.length) with hin | hout
    · exact ⟨e, List.mem_cons_self, by omega, by omega⟩
    · obtain ⟨e', he', hcovers⟩ := exists_covering h hout hlt
      exact ⟨e', List.mem_cons_of_mem e he', hcovers⟩

/-- Where an element that tiles ends, the next one starts, unless it is the last. -/
theorem exists_next : ∀ {es : List Element} {start : Int}, Tiles start stop es → ∀ e ∈ es,
    e.start + e.lines.length < stop → ∃ e' ∈ es, e'.start = e.start + e.lines.length
  | [e], _, ⟨hstart, _, h⟩, e', he', hlt => by
    have hstop : _ = stop := h
    rw [List.mem_singleton.1 he', hstart] at hlt
    omega
  | e :: f :: es, _, ⟨hstart, _, h⟩, e', he', hlt => by
    rcases List.mem_cons.1 he' with rfl | he'
    · exact ⟨f, by simp, by rw [h.1, hstart]⟩
    · obtain ⟨e'', he'', hnext⟩ := exists_next h e' he' hlt
      exact ⟨e'', List.mem_cons_of_mem _ he'', hnext⟩

end Tiles

theorem elementLines_cons (e : Element) (es : List Element) :
    elementLines (e :: es) = e.lines ++ elementLines es :=
  List.flatMap_cons

/-- `rules` read `es` off the front of the lines and leave the rest. -/
inductive Reads (rules : List Rule) : Int → List Line → List Element → List Line → Prop
  | stop (start : Int) (ls : List Line) : Reads rules start ls [] ls
  | element {start : Int} {l : Line} {ls : List Line} {rule : Rule} {n : Nat} {es : List Element}
      {rest : List Line} (chosen : Rule.choose? rules l ls = some (rule, n))
      (tail : Reads rules (start + n + 1) (ls.drop n) es rest) :
      Reads rules start (l :: ls) (⟨start, rule.make l (ls.take n)⟩ :: es) rest

namespace Reads

variable {rules : List Rule} {start : Int} {ls rest : List Line} {es : List Element}

/-- The lines of the elements, with the rest behind them, are the lines. -/
theorem lines (h : Reads rules start ls es rest) : elementLines es ++ rest = ls := by
  induction h with
  | stop => rfl
  | @element start l ls rule n es rest chosen _ ih =>
    have hmake := Rule.lines_make (Rule.take_of_choose? chosen).2
    rw [elementLines_cons, Element.lines, hmake, List.append_assoc, ih, List.cons_append,
      List.take_append_drop]

/-- The elements tile the lines that they were read from. -/
theorem tiles (h : Reads rules start ls es rest) :
    Tiles start (start + (elementLines es).length) es := by
  induction h with
  | stop => simp [Tiles, elementLines]
  | @element start l ls rule n es rest chosen _ ih =>
    obtain ⟨-, htake⟩ := Rule.take_of_choose? chosen
    have hlen := Rule.length_lines_make htake
    refine ⟨rfl, by simp [Element.lines, Rule.lines_make htake], ?_⟩
    rw [elementLines_cons, List.length_append, Element.lines, hlen]
    convert ih using 1 <;> omega

/-- Each element is what a rule makes of the lines that it takes from those that are left. -/
theorem exists_choice (h : Reads rules start ls es rest) : ∀ e ∈ es, ∃ (k : Nat) (rule : Rule)
    (l : Line) (ms : List Line) (n : Nat), e.start = start + k ∧ ls.drop k = l :: ms ∧
      Rule.choose? rules l ms = some (rule, n) ∧ e.content = rule.make l (ms.take n) := by
  induction h with
  | stop => simp
  | @element start l ls rule n es rest chosen _ ih =>
    intro e he
    rcases List.mem_cons.1 he with rfl | he
    · exact ⟨0, rule, l, ls, n, by simp, rfl, chosen, rfl⟩
    · obtain ⟨k, rule', l', ms, n', hstart, hdrop, hchosen, hcontent⟩ := ih e he
      refine ⟨n + k + 1, rule', l', ms, n', by omega, ?_, hchosen, hcontent⟩
      rw [List.drop_succ_cons, ← List.drop_drop, hdrop]

end Reads

/-- `parse` reads until nothing is left, or until no rule takes the next line. -/
theorem parse_outcome (rules : List Rule) (start : Int) (ls : List Line) :
    ∃ es rest, Reads rules start ls es rest ∧
      ((rest = [] ∧ parse rules start ls = .ok es) ∨
        ∃ l ms, rest = l :: ms ∧ Rule.choose? rules l ms = none ∧
          parse rules start ls =
            .error (.unparsableLine (start + (elementLines es).length) l)) := by
  induction start, ls using parse.induct rules with
  | case1 start => exact ⟨[], [], .stop start [], Or.inl ⟨rfl, by rw [parse]⟩⟩
  | case2 start l ls hnone =>
    refine ⟨[], l :: ls, .stop start _, Or.inr ⟨l, ls, rfl, hnone, ?_⟩⟩
    simp [parse, hnone, elementLines]
  | case3 start l ls rule n hsome ih =>
    obtain ⟨es, rest, hreads, hout⟩ := ih
    refine ⟨_, rest, .element hsome hreads, ?_⟩
    rcases hout with ⟨rfl, hok⟩ | ⟨l', ms, rfl, hnone, herr⟩
    · exact Or.inl ⟨rfl, by simp [parse, hsome, hok, bind, Except.bind]⟩
    · have hlen := Rule.length_lines_make (Rule.take_of_choose? hsome).2
      have hindex : start + n + 1 + (elementLines es).length =
          start + (elementLines (⟨start, rule.make l (ls.take n)⟩ :: es)).length := by
        rw [elementLines_cons, List.length_append, Element.lines, hlen]
        omega
      refine Or.inr ⟨l', ms, rfl, hnone, ?_⟩
      rw [← hindex]
      simp [parse, hsome, herr, bind, Except.bind]

/-- What `parse` reads off lines that it reads to the end. -/
theorem reads_of_parse {rules : List Rule} {start : Int} {ls : List Line} {es : List Element}
    (h : parse rules start ls = .ok es) : Reads rules start ls es [] := by
  obtain ⟨es', rest, hreads, ⟨rfl, hok⟩ | ⟨l, ms, -, -, herr⟩⟩ := parse_outcome rules start ls
  · rw [h] at hok
    cases hok
    exact hreads
  · rw [h] at herr
    cases herr

/-- All rules in order read to the end. -/
theorem exists_parse_order (start : Int) (ls : List Line) :
    ∃ es, parse Rule.order start ls = .ok es := by
  obtain ⟨es, -, -, ⟨-, hok⟩ | ⟨l, ms, -, hnone, -⟩⟩ := parse_outcome Rule.order start ls
  · exact ⟨es, hok⟩
  · exact absurd hnone (Rule.choose?_order l ms)

/-- Parsing keeps every line. Whatever the rules, it ends with elements that tile the lines
and give them back, or it fails at a line that no rule takes, all lines in front of which
are read; with all rules in order it never fails. -/
theorem parse_lossless :
    (∀ (rules : List Rule) (start : Int) (ls : List Line),
      (∃ es, parse rules start ls = .ok es ∧ Tiles start (start + ls.length) es ∧
        elementLines es = ls) ∨
      ∃ p, ∃ hp : p < ls.length,
        parse rules start ls = .error (.unparsableLine (start + p) ls[p]) ∧
        (∃ es, Reads rules start ls es (ls.drop p) ∧ Tiles start (start + p) es ∧
          elementLines es = ls.take p) ∧
        ∀ rule ∈ rules, rule.taker.take ls[p] (ls.drop (p + 1)) = 0) ∧
    (∀ (start : Int) (ls : List Line), ∃ es, parse Rule.order start ls = .ok es) ∧
    ∀ t : Text, ∃ es, parse Rule.order 0 (splitLines t) = .ok es ∧
      (elementLines es).flatten = t := by
  have htotal : ∀ (start : Int) (ls : List Line), ∃ es, parse Rule.order start ls = .ok es := by
    intro start ls
    obtain ⟨es, -, -, ⟨-, hok⟩ | ⟨l, ms, -, hnone, -⟩⟩ := parse_outcome Rule.order start ls
    · exact ⟨es, hok⟩
    · exact absurd hnone (Rule.choose?_order l ms)
  refine ⟨fun rules start ls => ?_, htotal, fun t => ?_⟩
  · obtain ⟨es, rest, hreads, ⟨rfl, hok⟩ | ⟨l, ms, rfl, hnone, herr⟩⟩ :=
      parse_outcome rules start ls
    · have hlines : elementLines es = ls := by simpa using hreads.lines
      exact Or.inl ⟨es, hok, hlines ▸ hreads.tiles, hlines⟩
    · have hlines := hreads.lines
      subst hlines
      refine Or.inr ⟨(elementLines es).length, by simp, by simpa using herr,
        ⟨es, by simpa using hreads, hreads.tiles, by simp⟩, ?_⟩
      simpa using Rule.choose?_eq_none_iff.1 hnone
  · obtain ⟨es, hok⟩ := htotal 0 (splitLines t)
    have hlines : elementLines es = splitLines t := by simpa using (reads_of_parse hok).lines
    exact ⟨es, hok, by rw [hlines, flatten_splitLines]⟩

end OrgWeave.Org
