import OrgWeave.Proofs.Document.Kinds
import OrgWeave.Proofs.Document.Tiling

/-!
# The grammar of documents

What an element looks like can be said without takers and without an order of rules.
`Rule.Admits rule ms rest` says that the lines `ms`, in front of the lines `rest`, are an element
of the kind that `rule` reads. A block goes from the line that opens it to the first line behind
that closes it. A keyword line stands alone if no block starts with it. Running text goes up to
the next heading or keyword line, or to the end, without the blank lines in front of that.

The rules in order choose what the grammar admits (`Rule.admits_of_choose?`), and all that it
admits is chosen (`Rule.Admits.choose?_eq`). So the grammar has one reading for any lines, which is
the one that `parse` finds (`parse_canonical`). A line that closes a block like one opened by
`#+begin_src` also closes a source block; otherwise a source block that is never closed could be
read as a block of another kind, too.
-/

namespace OrgWeave.Org

open Text

variable {l : Line} {ls ms rest : List Line} {n : Nat} {r : Rule} {rules : List Rule}

/-! ## The grammar -/

/-- The kind of a content, by the rule that reads it. -/
def Content.rule : Content → Rule
  | .heading _ => .heading
  | .prose _ => .prose
  | .keyword .. => .keyword
  | .block .. => .block
  | .source .. => .source
  | .blank _ => .blank

/-- A block that starts with the line `l` is closed among the lines. -/
def ClosedAmong (l : Line) (ls : List Line) : Prop :=
  ∃ m ∈ ls, (opensSource l = true ∧ closesSource m = true) ∨ closesBlock l m = true

namespace Rule

/-- The lines `ms` are an element of the kind that the rule reads, if they stand in front of the
lines `rest`. -/
inductive Admits : Rule → List Line → List Line → Prop
  | heading {l : Line} {rest : List Line} (heading : isHeading l = true) : Admits .heading [l] rest
  | source {l closing : Line} {body rest : List Line} (opens : opensSource l = true)
      (inside : ∀ m ∈ body, closesSource m = false) (closes : closesSource closing = true) :
      Admits .source (l :: (body ++ [closing])) rest
  | block {l closing : Line} {body rest : List Line} (opens : opensBlock l = true)
      (other : opensSource l = false) (inside : ∀ m ∈ body, closesBlock l m = false)
      (closes : closesBlock l closing = true) : Admits .block (l :: (body ++ [closing])) rest
  | keyword {l : Line} {rest : List Line} (keyword : isKeyword l = true)
      (unclosed : ¬ClosedAmong l rest) : Admits .keyword [l] rest
  | blank {l : Line} {ms rest : List Line} (blank : ∀ m ∈ l :: ms, isBlank m = true)
      (next : ∀ m ∈ rest.head?, isBlank m = false) : Admits .blank (l :: ms) rest
  | prose {l : Line} {ms gap rest : List Line} (first : isBlank l = false)
      (last : isBlank (ms.getLastD l) = false)
      (plain : ∀ m ∈ l :: ms, isHeading m = false ∧ isKeyword m = false)
      (blank : ∀ m ∈ gap, isBlank m = true)
      (next : ∀ m ∈ rest.head?, isHeading m = true ∨ isKeyword m = true) :
      Admits .prose (l :: ms) (gap ++ rest)

/-! ## The rules in order -/

theorem choose?_cons (rule : Rule) (rules : List Rule) (l : Line) (ls : List Line) :
    choose? (rule :: rules) l ls =
      match rule.taker.take l ls with
      | 0 => choose? rules l ls
      | n + 1 => some (rule, n) := by
  rw [choose?, List.findSome?_cons]
  cases rule.taker.take l ls <;> rfl

/-- A rule is chosen if it takes a line and none of those in front of it does. -/
theorem choose?_eq_some_iff : choose? rules l ls = some (r, n) ↔
    r ∈ rules ∧ r.taker.take l ls = n + 1 ∧
      ∀ r' ∈ rules.takeWhile (· ≠ r), r'.taker.take l ls = 0 := by
  induction rules with
  | nil => simp [choose?]
  | cons r' rules ih =>
    rw [choose?_cons]
    by_cases hr : r' = r
    · subst hr
      cases htake : r'.taker.take l ls with
      | zero => simp [ih, htake]
      | succ k => simp
    · have hmem : r ∈ r' :: rules ↔ r ∈ rules := by simp [Ne.symm hr]
      rw [List.takeWhile_cons_of_pos (by simpa using hr), hmem]
      cases htake : r'.taker.take l ls with
      | zero => simp [ih, htake]
      | succ k => simp [hr, htake]

end Rule

theorem isHeading_eq_false_of_isBlank (h : isBlank l = true) : isHeading l = false := by
  refine Bool.eq_false_iff.2 fun hheading => ?_
  obtain ⟨cs, rfl⟩ := head?_of_isHeading hheading
  exact absurd (List.all_eq_true.1 h '*' List.mem_cons_self) (by decide)

theorem isBlank_eq_false (h : isHeading l = true ∨ isKeyword l = true) : isBlank l = false := by
  refine Bool.eq_false_iff.2 fun hblank => ?_
  rw [isHeading_eq_false_of_isBlank hblank, isKeyword_eq_false_of_isBlank hblank] at h
  simp at h

theorem isHeading_eq_false_of_isKeyword (h : isKeyword l = true) : isHeading l = false := by
  refine Bool.eq_false_iff.2 fun hheading => ?_
  rw [isKeyword_eq_false_of_isHeading hheading] at h
  cases h

theorem isKeyword_of_opensSource (h : opensSource l = true) : isKeyword l = true := by
  rw [opensSource_eq] at h
  obtain ⟨t, ht, -⟩ := (Option.any_eq_true _ _).1 h
  exact isKeyword_of_afterKeyword? (Option.isSome_of_eq_some ht)

theorem isKeyword_of_opensBlock (h : opensBlock l = true) : isKeyword l = true :=
  isKeyword_of_afterKeyword? (Option.isSome_of_isSome_bind h)

namespace Rule

theorem take_heading_eq_zero (h : isHeading l = false) : Rule.heading.taker.take l ls = 0 := by
  simp [taker, Taker.take, h]

theorem take_source_eq_zero_iff :
    Rule.source.taker.take l ls = 0 ↔ opensSource l = true → ∀ m ∈ ls, closesSource m = false :=
  Taker.take_between_eq_zero_iff

theorem take_block_eq_zero_iff :
    Rule.block.taker.take l ls = 0 ↔ opensBlock l = true → ∀ m ∈ ls, closesBlock l m = false :=
  Taker.take_between_eq_zero_iff

theorem opensBlock_of_closesBlock {m : Line} (h : closesBlock l m = true) :
    opensBlock l = true := by
  unfold closesBlock at h
  split at h
  next => cases h
  next kind _ => rw [opensBlock, eq_of_beq h, Option.isSome_some]

/-- No block is read where none is closed. -/
theorem not_closedAmong_iff : ¬ClosedAmong l ls ↔
    Rule.source.taker.take l ls = 0 ∧ Rule.block.taker.take l ls = 0 := by
  rw [take_source_eq_zero_iff, take_block_eq_zero_iff]
  constructor
  · intro h
    refine ⟨fun hopens m hm => ?_, fun _ m hm => ?_⟩
    · exact Bool.eq_false_iff.2 fun hcloses => h ⟨m, hm, Or.inl ⟨hopens, hcloses⟩⟩
    · exact Bool.eq_false_iff.2 fun hcloses => h ⟨m, hm, Or.inr hcloses⟩
  · rintro ⟨hsource, hblock⟩ ⟨m, hm, ⟨hopens, hcloses⟩ | hcloses⟩
    · rw [hsource hopens m hm] at hcloses
      cases hcloses
    · rw [hblock (opensBlock_of_closesBlock hcloses) m hm] at hcloses
      cases hcloses

/-- No block and no keyword line is read where no keyword line is. -/
theorem take_eq_zero_of_not_isKeyword (h : isKeyword l = false) (ls : List Line) :
    Rule.source.taker.take l ls = 0 ∧ Rule.block.taker.take l ls = 0 ∧
      Rule.keyword.taker.take l ls = 0 := by
  have hsource : opensSource l = false := by
    refine Bool.eq_false_iff.2 fun hopens => ?_
    rw [isKeyword_of_opensSource hopens] at h
    cases h
  have hblock : opensBlock l = false := by
    refine Bool.eq_false_iff.2 fun hopens => ?_
    rw [isKeyword_of_opensBlock hopens] at h
    cases h
  simp [taker, Taker.take, hsource, hblock, h]

/-- What is chosen is what the grammar admits. -/
theorem admits_of_choose? (h : choose? order l ls = some (r, n)) :
    r.Admits (l :: ls.take n) (ls.drop n) := by
  obtain ⟨-, htake, hbefore⟩ := choose?_eq_some_iff.1 h
  cases r with
  | heading =>
    obtain ⟨rfl, hl⟩ := Taker.take_first_eq_succ_iff.1 htake
    exact .heading hl
  | source =>
    obtain ⟨hopens, body, closing, rest, rfl, rfl, hbody, hcloses⟩ :=
      Taker.take_between_eq_succ_iff.1 htake
    rw [List.take_left, List.drop_left]
    exact .source hopens hbody hcloses
  | block =>
    obtain ⟨hopens, body, closing, rest, rfl, rfl, hbody, hcloses⟩ :=
      Taker.take_between_eq_succ_iff.1 htake
    have hother : opensSource l = false := by
      refine Bool.eq_false_iff.2 fun hsource => ?_
      have hunclosed := take_source_eq_zero_iff.1 (hbefore .source (by decide)) hsource closing
        (by simp)
      rw [closesSource_of_closesBlock hsource hcloses] at hunclosed
      cases hunclosed
    rw [List.take_left, List.drop_left]
    exact .block hopens hother hbody hcloses
  | keyword =>
    obtain ⟨rfl, hl⟩ := Taker.take_first_eq_succ_iff.1 htake
    exact .keyword hl (not_closedAmong_iff.2
      ⟨hbefore .source (by decide), hbefore .block (by decide)⟩)
  | blank =>
    obtain ⟨ms, rest, rfl, rfl, hms, hnext⟩ := Taker.take_greedy_eq_succ_iff.1 htake
    rw [List.take_left, List.drop_left]
    exact .blank hms hnext
  | prose =>
    obtain ⟨l', ms, rest, hls, rfl, hms, hlast, hrest⟩ := trailingCount_eq_succ_iff.1 htake
    rw [List.cons_append, List.cons.injEq] at hls
    obtain ⟨rfl, rfl⟩ := hls
    obtain ⟨gap, rest, rfl, hgap, hnext⟩ := trailingCount_eq_zero_iff.1 hrest
    have hfirst : isBlank l = false := Taker.take_greedy_eq_zero_iff.1 (hbefore .blank (by decide))
    rw [List.take_left, List.drop_left]
    refine .prose hfirst hlast (fun m hm => ?_) hgap fun m hm => ?_
    · rcases hms m hm with hblank | hcore
      · exact ⟨isHeading_eq_false_of_isBlank hblank, isKeyword_eq_false_of_isBlank hblank⟩
      · simpa using hcore
    · have hcore := (hnext m hm).2
      cases hheading : isHeading m <;> simp_all

/-- What the grammar admits is chosen. -/
theorem Admits.choose?_eq (h : r.Admits (l :: ms) rest) :
    choose? order l (ms ++ rest) = some (r, ms.length) := by
  rw [choose?_eq_some_iff]
  refine ⟨by cases r <;> decide, ?_⟩
  cases h with
  | heading hl => exact ⟨Taker.take_first_eq_succ_iff.2 ⟨rfl, hl⟩, by simp [order]⟩
  | @source _ closing body _ hopens hbody hcloses =>
    have hheading := isHeading_eq_false_of_isKeyword (isKeyword_of_opensSource hopens)
    refine ⟨Taker.take_between_eq_succ_iff.2
      ⟨hopens, body, closing, rest, rfl, rfl, hbody, hcloses⟩, ?_⟩
    simp [order, take_heading_eq_zero hheading]
  | @block _ closing body _ hopens hother hbody hcloses =>
    have hheading := isHeading_eq_false_of_isKeyword (isKeyword_of_opensBlock hopens)
    refine ⟨Taker.take_between_eq_succ_iff.2
      ⟨hopens, body, closing, rest, rfl, rfl, hbody, hcloses⟩, ?_⟩
    simp [order, take_heading_eq_zero hheading, take_source_eq_zero_iff, hother]
  | keyword hl hunclosed =>
    have hheading := isHeading_eq_false_of_isKeyword hl
    obtain ⟨hsource, hblock⟩ := not_closedAmong_iff.1 hunclosed
    refine ⟨Taker.take_first_eq_succ_iff.2 ⟨rfl, hl⟩, ?_⟩
    simp [order, take_heading_eq_zero hheading, hsource, hblock]
  | blank hms hnext =>
    have hblank := hms l List.mem_cons_self
    obtain ⟨hsource, hblock, hkeyword⟩ :=
      take_eq_zero_of_not_isKeyword (isKeyword_eq_false_of_isBlank hblank) (ms ++ rest)
    refine ⟨Taker.take_greedy_eq_succ_iff.2 ⟨ms, rest, rfl, rfl, hms, hnext⟩, ?_⟩
    simp [order, take_heading_eq_zero (isHeading_eq_false_of_isBlank hblank), hsource, hblock,
      hkeyword]
  | @prose _ _ gap rest hfirst hlast hplain hgap hnext =>
    obtain ⟨hheading, hnot⟩ := hplain l List.mem_cons_self
    obtain ⟨hsource, hblock, hkeyword⟩ :=
      take_eq_zero_of_not_isKeyword hnot (ms ++ (gap ++ rest))
    refine ⟨trailingCount_eq_succ_iff.2 ⟨l, ms, gap ++ rest, rfl, rfl, fun m hm => ?_, hlast,
      trailingCount_eq_zero_iff.2 ⟨gap, rest, rfl, hgap, fun m hm => ?_⟩⟩, ?_⟩
    · obtain ⟨hm, hm'⟩ := hplain m hm
      simp [hm, hm']
    · refine ⟨isBlank_eq_false (hnext m hm), ?_⟩
      rcases hnext m hm with hm | hm <;> simp [hm]
    · have hblank : Rule.blank.taker.take l (ms ++ (gap ++ rest)) = 0 :=
        Taker.take_greedy_eq_zero_iff.2 hfirst
      simp [order, take_heading_eq_zero hheading, hsource, hblock, hkeyword, hblank]

theorem Admits.exists_cons (h : r.Admits ms rest) : ∃ l ms', ms = l :: ms' := by
  cases h <;> exact ⟨_, _, rfl⟩

theorem admits_source_iff {closing : Line} {body : List Line} :
    Rule.source.Admits (l :: (body ++ [closing])) rest ↔ opensSource l = true ∧
      (∀ m ∈ body, closesSource m = false) ∧ closesSource closing = true := by
  constructor
  · intro h
    generalize hms : l :: (body ++ [closing]) = ms at h
    cases h with
    | source hopens hinside hcloses =>
      obtain ⟨rfl, hbody⟩ := List.cons.inj hms
      obtain ⟨rfl, hclosing⟩ := List.append_inj' hbody rfl
      rw [List.singleton_inj.1 hclosing]
      exact ⟨hopens, hinside, hcloses⟩
  · rintro ⟨hopens, hinside, hcloses⟩
    exact .source hopens hinside hcloses

theorem admits_keyword_iff :
    Rule.keyword.Admits [l] rest ↔ isKeyword l = true ∧ ¬ClosedAmong l rest := by
  constructor
  · intro h
    cases h with
    | keyword hl hunclosed => exact ⟨hl, hunclosed⟩
  · rintro ⟨hl, hunclosed⟩
    exact .keyword hl hunclosed

/-- What starts with the opening line of a source block is that block, or the line alone. -/
theorem Admits.of_opensSource (h : r.Admits (l :: ms) rest) (hl : opensSource l = true) :
    r = .source ∨ r = .keyword := by
  have hkeyword := isKeyword_of_opensSource hl
  cases h with
  | heading hheading =>
    rw [isKeyword_eq_false_of_isHeading hheading] at hkeyword
    cases hkeyword
  | source => exact Or.inl rfl
  | block _ hother =>
    rw [hl] at hother
    cases hother
  | keyword => exact Or.inr rfl
  | blank hms =>
    rw [isKeyword_eq_false_of_isBlank (hms l List.mem_cons_self)] at hkeyword
    cases hkeyword
  | prose _ _ hplain =>
    rw [(hplain l List.mem_cons_self).2] at hkeyword
    cases hkeyword

/-- At the front of given lines, the grammar admits one element. -/
theorem Admits.unique {r' : Rule} {ms' rest' : List Line} (h : r.Admits ms rest)
    (h' : r'.Admits ms' rest') (hlines : ms ++ rest = ms' ++ rest') :
    r = r' ∧ ms = ms' ∧ rest = rest' := by
  obtain ⟨l, ms, rfl⟩ := h.exists_cons
  obtain ⟨l', ms', rfl⟩ := h'.exists_cons
  rw [List.cons_append, List.cons_append, List.cons.injEq] at hlines
  obtain ⟨rfl, hlines⟩ := hlines
  have hchosen := h.choose?_eq
  rw [hlines, h'.choose?_eq, Option.some.injEq, Prod.mk.injEq] at hchosen
  obtain ⟨rfl, hlength⟩ := hchosen
  obtain ⟨rfl, rfl⟩ := List.append_inj hlines hlength.symm
  exact ⟨rfl, rfl, rfl⟩

/-- What a rule makes of the lines that it takes is of its kind. -/
theorem rule_make (h : r.taker.take l ls = n + 1) : (r.make l (ls.take n)).rule = r := by
  cases r with
  | heading =>
    obtain ⟨-, hl⟩ := Taker.take_first_eq_succ_iff.1 h
    obtain ⟨heading, hsome⟩ := Option.isSome_iff_exists.1 hl
    rw [make, hsome]
    rfl
  | _ => rfl

end Rule

/-! ## The one reading -/

/-- The grammar admits each element in front of the lines of those behind it. -/
def Admitted : List Element → Prop
  | [] => True
  | e :: es => e.content.rule.Admits e.lines (elementLines es) ∧ Admitted es

/-- The elements tile the lines, which start at `start`, and the grammar admits them there. -/
structure Canonical (start : Int) (ls : List Line) (es : List Element) : Prop where
  tiles : Tiles start (start + ls.length) es
  lines : elementLines es = ls
  admitted : Admitted es

/-- Where an element starts, its kind, and its lines. -/
def Element.place (e : Element) : Int × Rule × List Line := (e.start, e.content.rule, e.lines)

theorem Reads.admitted {start : Int} {es : List Element} (h : Reads Rule.order start ls es []) :
    Admitted es := by
  generalize hrest : ([] : List Line) = rest at h
  induction h with
  | stop => trivial
  | @element start l ls r n es rest chosen tail ih =>
    subst hrest
    obtain ⟨-, htake⟩ := Rule.take_of_choose? chosen
    have hlines : elementLines es = ls.drop n := by simpa using tail.lines
    refine ⟨?_, ih rfl⟩
    rw [Element.lines, Rule.lines_make htake, Rule.rule_make htake, hlines]
    exact Rule.admits_of_choose? chosen

theorem canonical_of_parse {start : Int} {es : List Element}
    (h : parse Rule.order start ls = .ok es) : Canonical start ls es := by
  have hreads := reads_of_parse h
  have hlines : elementLines es = ls := by simpa using hreads.lines
  exact ⟨hlines ▸ hreads.tiles, hlines, hreads.admitted⟩

/-- Elements that the grammar admits over the same lines, from the same start on, are the same but
for what is read off these lines. -/
theorem map_place_eq {start stop stop' : Int} : ∀ {es es' : List Element}, Tiles start stop es →
    Tiles start stop' es' → Admitted es → Admitted es' → elementLines es = elementLines es' →
    es.map Element.place = es'.map Element.place
  | [], [], _, _, _, _, _ => rfl
  | [], e' :: es', _, h', _, _, hlines => by
    rw [elementLines_cons] at hlines
    exact absurd (List.append_eq_nil_iff.1 hlines.symm).1 h'.2.1
  | e :: es, [], h, _, _, _, hlines => by
    rw [elementLines_cons] at hlines
    exact absurd (List.append_eq_nil_iff.1 hlines).1 h.2.1
  | e :: es, e' :: es', ⟨hstart, _, htiles⟩, ⟨hstart', _, htiles'⟩, ⟨hadmits, hadmitted⟩,
      ⟨hadmits', hadmitted'⟩, hlines => by
    rw [elementLines_cons, elementLines_cons] at hlines
    obtain ⟨hrule, hhead, htail⟩ := hadmits.unique hadmits' hlines
    have hplace : e.place = e'.place := by
      rw [Element.place, Element.place, hstart, hstart', hrule, hhead]
    rw [← hhead] at htiles'
    rw [List.map_cons, List.map_cons, hplace,
      map_place_eq htiles htiles' hadmitted hadmitted' htail]

/-- Parsing lays elements over the lines as the grammar says, and this is the only way to do so :
any other elements that the grammar admits there have the same kinds, the same starts and the same
lines. -/
theorem parse_canonical (start : Int) (ls : List Line) :
    ∃ es, parse Rule.order start ls = .ok es ∧ Canonical start ls es ∧
      ∀ es', Canonical start ls es' → es'.map Element.place = es.map Element.place := by
  obtain ⟨es, hes⟩ := exists_parse_order start ls
  have h := canonical_of_parse hes
  refine ⟨es, hes, h, fun es' h' => ?_⟩
  exact map_place_eq h'.tiles h.tiles h'.admitted h.admitted (h'.lines.trans h.lines.symm)

end OrgWeave.Org
