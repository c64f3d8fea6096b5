import OrgWeave.Proofs.Weave.Nesting
import OrgWeave.Proofs.Weave.Emission

/-!
# Indentation and depth

A block that is expanded inside another one is indented by what stands in front of its marker, and
has fewer levels of nesting left. Neither reaches into the block. Its lines are those that it has at
the outermost level, under a ceiling that is lower by its depth, each indented
(`Graph.expand_indented`). If it cannot be expanded in one of the two places, it cannot be in the
other, for the same reason; only the ceiling that the message tells can be another one
(`Indented`).

The lines of nested blocks are indented step by step, from the inside, while expansion puts the
indentations together on the way in. Both come to the same as a line that is not moved by one of
them is not moved by the other (`Text.indent_indent`).
-/

namespace OrgWeave

/-! ## Errors without their ceiling -/

/-- The error without the ceiling that it tells. -/
def Error.withoutCeiling : Error → Error
  | .depthExceeded stage _ name => .depthExceeded stage 0 name
  | e => e

theorem Error.kind?_withoutCeiling (e : Error) : e.withoutCeiling.kind? = e.kind? := by
  cases e <;> rfl

/-! ## Indented lines -/

namespace Text

/-- The lines that an indentation does not move are the ends of an empty line. -/
theorem indent_eq (lead : Text) (l : Line) :
    indent lead l = if l <:+ ['\r', '\n'] then l else lead ++ l := by
  have hempty : l = [] ∨ l = ['\n'] ∨ l = ['\r', '\n'] ↔ l <:+ ['\r', '\n'] := by
    simp only [List.suffix_cons_iff, List.suffix_nil]
    tauto
  simp only [indent, hempty]

/-- Two indentations are one, as a line that was moved by the inner one is moved by the outer
one. -/
theorem indent_indent (outer inner : Text) (l : Line) :
    indent outer (indent inner l) = indent (outer ++ inner) l := by
  simp only [indent_eq]
  split
  next => rfl
  next hmoved =>
    have hstill : ¬inner ++ l <:+ ['\r', '\n'] :=
      fun h => hmoved ((List.suffix_append inner l).trans h)
    rw [if_neg hstill, List.append_assoc]

end Text

/-- The second result is the lines of the first one, each indented, or the same error up to its
ceiling. -/
inductive Indented (lead : Text) : Except Error (List Line) → Except Error (List Line) → Prop
  | ok (ls : List Line) : Indented lead (.ok ls) (.ok (ls.map (Text.indent lead)))
  | error {e e' : Error} (h : e'.withoutCeiling = e.withoutCeiling) :
      Indented lead (.error e) (.error e')

namespace Indented

variable {α : Type} {lead : Text} {x x' y y' : Except Error (List Line)}

theorem eq_ok {ls : List Line} (h : Indented lead (.ok ls) x) :
    x = .ok (ls.map (Text.indent lead)) := by
  cases h
  rfl

/-- Both fail with errors of one kind, or none does. -/
theorem mapError_kind? (h : Indented lead x x') : x'.mapError Error.kind? =
    (x.map (List.map (Text.indent lead))).mapError Error.kind? := by
  cases h with
  | ok ls => rfl
  | @error e e' he =>
    exact congrArg Except.error (by rw [← e'.kind?_withoutCeiling, he, e.kind?_withoutCeiling])

/-- A line under two indentations is an indented line. -/
theorem line (outer inner : Text) (l : Line) :
    Indented outer (.ok [Text.indent inner l]) (.ok [Text.indent (outer ++ inner) l]) := by
  rw [← Text.indent_indent]
  exact .ok [Text.indent inner l]

/-- What comes first may fail, in both places alike. -/
theorem bind {a : Except Error α} {f f' : α → Except Error (List Line)}
    (h : ∀ b, Indented lead (f b) (f' b)) : Indented lead (a >>= f) (a >>= f') := by
  cases a with
  | error e => exact .error rfl
  | ok b => exact h b

/-- Lines stay indented lines with others behind them. -/
theorem append (h : Indented lead x x') (h' : Indented lead y y') :
    Indented lead (x >>= fun ls => y >>= fun ms => .ok (ls ++ ms))
      (x' >>= fun ls => y' >>= fun ms => .ok (ls ++ ms)) := by
  cases h with
  | error he => exact .error he
  | ok ls =>
    cases h' with
    | error he => exact .error he
    | ok ms =>
      change Indented lead (.ok (ls ++ ms))
        (.ok (ls.map (Text.indent lead) ++ ms.map (Text.indent lead)))
      rw [← List.map_append]
      exact .ok _

theorem gather {f f' : α → Except Error (List Line)} {as : List α}
    (h : ∀ a ∈ as, Indented lead (f a) (f' a)) :
    Indented lead (gather f as) (gather f' as) := by
  induction as with
  | nil => exact .ok []
  | cons a as ih =>
    exact (h a List.mem_cons_self).append (ih fun b hb => h b (List.mem_cons_of_mem a hb))

end Indented

namespace WeaveOptions

/-- The second options are the first ones with any ceiling of nested markers. -/
structure SameButCeiling (o o' : WeaveOptions) : Prop where
  literal : o'.literal = o.literal
  selfName : o'.selfName = o.selfName
  template : o'.template = o.template
  resolutionDepth : o'.resolutionDepth = o.resolutionDepth

/-- The same options with a lower ceiling of nested markers. -/
def lowered (o : WeaveOptions) (depth : Nat) : WeaveOptions :=
  { o with
    maxDepth := o.maxDepth - depth
    maxDepth_le := Nat.le_trans (Nat.sub_le o.maxDepth depth) o.maxDepth_le }

theorem sameButCeiling_lowered (o : WeaveOptions) (depth : Nat) :
    (o.lowered depth).SameButCeiling o :=
  ⟨rfl, rfl, rfl, rfl⟩

/-- Down to a depth there are as many levels left as under the lowered ceiling at the top. -/
theorem levelsAt_lowered (o : WeaveOptions) {depth : Nat} (h : depth ≤ o.maxDepth) :
    (o.lowered depth).levelsAt 0 = o.levelsAt depth := by
  rw [levelsAt_zero]
  simp only [lowered, levelsAt]
  omega

variable {o o' : WeaveOptions}

theorem indented_inclusionLines (h : o.SameButCeiling o') (outer inner : Text) (refs : List Text) :
    Indented outer (o.inclusionLines inner refs) (o'.inclusionLines (outer ++ inner) refs) := by
  induction refs with
  | nil => exact .ok []
  | cons ref refs ih =>
    rw [inclusionLines, inclusionLines, h.template]
    exact Indented.bind fun l => (Indented.line outer inner l).append ih

end WeaveOptions

namespace Graph

variable {g : Graph} {o o' : WeaveOptions}

/-! ## Expansion -/

section Nested

variable {weave weave' : Text → Text → Except Error (List Line)} {outer : Text}
  (h : o.SameButCeiling o')
  (hweave : ∀ inner n, Indented outer (weave inner n) (weave' (outer ++ inner) n))

include h hweave

theorem indented_selfInclusion (levels : Nat) (inner flags : Text) :
    Indented outer (g.selfInclusion o weave levels inner flags)
      (g.selfInclusion o' weave' levels (outer ++ inner) flags) := by
  unfold selfInclusion
  split
  · rw [callText, callText, h.selfName]
    exact .error rfl
  · rw [h.resolutionDepth]
    refine Indented.bind fun p => Indented.bind fun _ => Indented.bind fun r => ?_
    refine (o.indented_inclusionLines h outer inner r.external).append ?_
    rw [emit_eq_gather, emit_eq_gather]
    exact Indented.gather fun n _ => hweave inner n

theorem indented_expandLine (levels : Nat) (inner : Text) (expandsMarkers : Bool) (l : Line) :
    Indented outer (g.expandLine o weave levels inner expandsMarkers l)
      (g.expandLine o' weave' levels (outer ++ inner) expandsMarkers l) := by
  unfold expandLine
  rw [h.selfName]
  cases Marker.role o.selfName expandsMarkers l with
  | text => exact Indented.line outer inner (unescape l)
  | reference indent n =>
    dsimp only
    rw [List.append_assoc]
    exact hweave (inner ++ indent) n
  | request indent flags =>
    dsimp only
    rw [List.append_assoc]
    exact indented_selfInclusion h hweave levels (inner ++ indent) flags

end Nested

/-- An indentation in front of another one indents the lines that a block has under the other one,
whatever the ceiling, if as many levels are left. -/
theorem indented_expand (h : o.SameButCeiling o') (levels : Nat) (outer inner n : Text) :
    Indented outer (g.expand o levels inner n) (g.expand o' levels (outer ++ inner) n) := by
  induction levels generalizing inner n with
  | zero => exact Indented.bind fun _ => .error rfl
  | succ levels ih =>
    refine Indented.bind fun _ => Indented.gather fun span _ => Indented.gather fun l _ => ?_
    exact indented_expandLine h ih levels inner span.expandsMarkers l

/-- A block at a depth, under an indentation, comes to the lines that it has at the outermost level
under a ceiling that is lower by the depth, each indented; or both fail alike, up to the ceiling
that the message tells. So does the answer to a request inside a body. -/
theorem expand_indented (g : Graph) (o : WeaveOptions) {depth : Nat} (h : depth ≤ o.maxDepth)
    (lead : Text) :
    (∀ n, Indented lead (g.weaveBlock (o.lowered depth) n) (g.expand o (o.levelsAt depth) lead n)) ∧
      ∀ flags, Indented lead (g.answer (o.lowered depth) flags [] 0)
        (g.answer o flags lead depth) := by
  have hsame := o.sameButCeiling_lowered depth
  have hlevels := o.levelsAt_lowered h
  have hexpand := indented_expand (g := g) hsame (o.levelsAt depth) lead
  constructor
  · intro n
    have hn := hexpand [] n
    rw [List.append_nil] at hn
    rwa [weaveBlock, hlevels]
  · intro flags
    have hflags := indented_selfInclusion (g := g) hsame hexpand (o.levelsAt depth) [] flags
    rw [List.append_nil] at hflags
    rwa [answer, hlevels]

/-- A shelf with empty lines, an escape, a crate behind a tabulator and a call for the crate. -/
def cellar : List (Text × Text) :=
  [("d.org".toList, ["#+name: shelf\n", "#+begin_src x\n", "jar\n", "\r\n", "\n", ",* lid\n",
    "\t<<crate>>\n", " <<include(\x22:noweb crate :cpp cask\x22)>>\n", "#+end_src\n",
    "#+name: crate\n", "#+begin_src x\n", "straw\n", "\n", "#+end_src\n"].flatMap String.toList)]

/-- The graph of `cellar`. -/
def cellarGraph : Graph where
  corpus := Corpus.ofTexts cellar
  blocks :=
    [("shelf".toList, [⟨1, 8, true, by decide⟩]), ("crate".toList, [⟨10, 13, true, by decide⟩])]
  dependencies := []
  aggregates := []
  tangles := []

/-- What the shelf of `cellar` comes to. -/
def shelfLines : List Line :=
  ["jar\n", "\r\n", "\n", "* lid\n", "\tstraw\n", "\n", " #include <cask>\n", " straw\n",
    "\n"].map String.toList

/-- Two levels down, the shelf has the lines that it has under a ceiling of one, indented; three
levels down there is no room for its crate, as there is none under a ceiling of no nesting. -/
theorem cellar_indented : ofCorpus (Corpus.ofTexts cellar) true = .ok cellarGraph ∧
    2 ≤ WeaveOptions.maxDepth {} ∧
    cellarGraph.weaveBlock (.lowered {} 2) "shelf".toList = .ok shelfLines ∧
    cellarGraph.expand {} (WeaveOptions.levelsAt {} 2) "> ".toList "shelf".toList =
      .ok (shelfLines.map (Text.indent "> ".toList)) ∧
    cellarGraph.weaveBlock (.lowered {} 3) "shelf".toList =
      .error (.depthExceeded .weaving 0 "crate".toList) ∧
    cellarGraph.expand {} (WeaveOptions.levelsAt {} 3) "> ".toList "shelf".toList =
      .error (.depthExceeded .weaving 3 "crate".toList) := by
  have hdepth : 2 ≤ WeaveOptions.maxDepth {} := by decide
  have hwoven : cellarGraph.weaveBlock (.lowered {} 2) "shelf".toList = .ok shelfLines := by
    decide +kernel
  have hindented := (expand_indented cellarGraph {} hdepth "> ".toList).1 "shelf".toList
  rw [hwoven] at hindented
  exact ⟨by decide +kernel, hdepth, hwoven, hindented.eq_ok, by decide +kernel, by decide +kernel⟩

end Graph

end OrgWeave
