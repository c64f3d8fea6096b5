import OrgWeave.Gather
import OrgWeave.Weave.Options
import Mathlib.Data.List.Infix

/-!
# Templates that can be filled in

A template that can be filled in is made of characters that are no braces, of doubled braces and of
places for the reference (`Template.Piece`). Filling the reference in goes piece by piece, and there
is no other way to a line (`Template.render_eq_ok_iff`), so that it depends on the template alone
whether references can be written.

Options are accepted if `{ref}` stands somewhere in the template. This does not make it a template
of such pieces, as there can be other braces around, nor does it make the letters a place for the
reference, as they also stand in `{{ref}}` (`WeaveOptions.inclusionLines_ok_iff`).

Templates whose fields are more than names are left out throughout.
-/

namespace OrgWeave

namespace Template

/-- What a template is made of. -/
inductive Piece
  | plain (c : Char) (hplain : c ≠ openBrace ∧ c ≠ closeBrace)
  | brace (c : Char) (hbrace : c = openBrace ∨ c = closeBrace)
  | place
  deriving DecidableEq

/-- A piece as the template holds it. -/
def Piece.written : Piece → Text
  | .plain c _ => [c]
  | .brace c _ => [c, c]
  | .place => refPlace

/-- A piece as it comes out with the reference filled in. -/
def Piece.filled (ref : Text) : Piece → Text
  | .plain c _ => [c]
  | .brace c _ => [c]
  | .place => ref

/-- The template of pieces. -/
def spell (ps : List Piece) : Text := ps.flatMap Piece.written

/-- The line that pieces come to. -/
def fill (ref : Text) (ps : List Piece) : Text := ps.flatMap (Piece.filled ref)

variable {ref t field value out : Text} {ps : List Piece}

theorem fieldValue_eq_ok_iff :
    fieldValue ref field = .ok value ↔ field = refField ∧ value = ref := by
  unfold fieldValue
  split
  next h => simp [h, eq_comm]
  next h =>
    simp only [h, false_and, iff_false]
    repeat' split
    all_goals simp

/-- A piece at the front of a template is filled in. -/
theorem renderFrom_written_append (p : Piece) (t : Text) : renderFrom ref none (p.written ++ t) =
    renderFrom ref none t >>= fun rest => .ok (p.filled ref ++ rest) := by
  cases p with
  | plain c hplain =>
    cases t with
    | nil => simp [Piece.written, Piece.filled, renderFrom, hplain, bind, Except.bind]
    | cons d t => simp [Piece.written, Piece.filled, renderFrom, hplain]
  | brace c hbrace => simp [Piece.written, Piece.filled, renderFrom, hbrace]
  | place => rfl

theorem render_spell (ref : Text) :
    ∀ ps : List Piece, renderTemplate (spell ps) ref = .ok (fill ref ps)
  | [] => rfl
  | p :: ps => by
    have ih := render_spell ref ps
    unfold renderTemplate at ih ⊢
    rw [spell, List.flatMap_cons, renderFrom_written_append, ← spell, ih]
    rfl

/-- What is left of a template is made of pieces; while a field is read, of the rest of the place
for the reference and then of pieces. -/
def MadeOfPieces (ref : Text) : Option Text → Text → Text → Prop
  | none, t, out => ∃ ps, t = spell ps ∧ out = fill ref ps
  | some field, t, out => ∃ rest ps, field ++ rest = refField ∧
      t = rest ++ closeBrace :: spell ps ∧ out = ref ++ fill ref ps

/-- One more piece in front of others. -/
theorem MadeOfPieces.cons (p : Piece) (h : MadeOfPieces ref none t out) :
    MadeOfPieces ref none (p.written ++ t) (p.filled ref ++ out) := by
  obtain ⟨ps, rfl, rfl⟩ := h
  exact ⟨p :: ps, rfl, rfl⟩

/-- Whatever can be filled in is made of pieces. -/
theorem madeOfPieces_of_renderFrom {state : Option Text} (h : renderFrom ref state t = .ok out) :
    MadeOfPieces ref state t out := by
  fun_induction renderFrom ref state t generalizing out with
  | case1 =>
    cases h
    exact ⟨[], rfl, rfl⟩
  | case3 field cs ih =>
    obtain ⟨value, hvalue, h⟩ := bind_eq_ok.1 h
    obtain ⟨rest, hrest, h⟩ := bind_eq_ok.1 h
    obtain ⟨rfl, rfl⟩ := fieldValue_eq_ok_iff.1 hvalue
    obtain ⟨ps, rfl, rfl⟩ := ih hrest
    cases h
    exact ⟨[], ps, rfl, rfl, rfl⟩
  | case5 field c cs hclose hopen ih =>
    obtain ⟨rest, ps, hfield, rfl, rfl⟩ := ih h
    exact ⟨c :: rest, ps, by rw [← hfield, List.append_assoc]; rfl, rfl, rfl⟩
  | case8 c hopen hclose =>
    cases h
    exact MadeOfPieces.cons (.plain c ⟨hopen, hclose⟩) ⟨[], rfl, rfl⟩
  | case9 c d cs hbrace ih =>
    obtain ⟨rest, hrest, h⟩ := bind_eq_ok.1 h
    obtain ⟨hc, rfl⟩ := hbrace
    cases h
    exact (ih hrest).cons (.brace d hc)
  | case10 d cs hnot ih =>
    obtain ⟨rest, ps, hfield, heq, rfl⟩ := ih h
    rw [List.nil_append] at hfield
    rw [heq, hfield]
    exact MadeOfPieces.cons .place ⟨ps, rfl, rfl⟩
  | case12 c d cs hnot hopen hclose ih =>
    obtain ⟨rest, hrest, h⟩ := bind_eq_ok.1 h
    cases h
    exact (ih hrest).cons (.plain c ⟨hopen, hclose⟩)
  | _ => cases h

/-- To fill a reference in is to write its template in pieces and to fill them in. -/
theorem render_eq_ok_iff :
    renderTemplate t ref = .ok out ↔ ∃ ps, t = spell ps ∧ out = fill ref ps := by
  constructor
  · exact madeOfPieces_of_renderFrom
  · rintro ⟨ps, rfl, rfl⟩
    exact render_spell ref ps

/-! ## Lines that hold the reference -/

/-- Without a place the line is the same for all references. -/
theorem fill_congr (h : .place ∉ ps) (ref ref' : Text) : fill ref ps = fill ref' ps := by
  refine List.flatMap_congr fun p hp => ?_
  cases p with
  | place => exact absurd hp h
  | _ => rfl

theorem infix_fill (h : .place ∈ ps) (ref : Text) : ref <:+: fill ref ps := by
  obtain ⟨before, after, rfl⟩ := List.append_of_mem h
  exact ⟨fill ref before, fill ref after, by simp [fill, Piece.filled]⟩

/-- A line holds every reference, however long it is, only by a place for it. -/
theorem infix_indent_fill_iff :
    (∀ lead ref, ref <:+: Text.indent lead (fill ref ps)) ↔ .place ∈ ps := by
  constructor
  · intro hall
    by_contra hplace
    have hlong := (hall [] (List.replicate ((fill [] ps).length + 1) 'x')).length_le
    have hsame : Text.indent [] (fill [] ps) = fill [] ps := by
      unfold Text.indent
      split <;> rfl
    rw [fill_congr hplace (List.replicate ((fill [] ps).length + 1) 'x') [], hsame,
      List.length_replicate] at hlong
    omega
  · intro hplace lead ref
    refine (infix_fill hplace ref).trans ?_
    unfold Text.indent
    split
    · exact List.infix_refl _
    · exact (List.suffix_append lead _).isInfix

end Template

namespace WeaveOptions

open Template

variable {o : WeaveOptions}

theorem inclusionLines_spell {ps : List Piece} (h : o.template = spell ps) (lead : Text)
    (refs : List Text) : o.inclusionLines lead refs =
      .ok (refs.map fun ref => Text.indent lead (fill ref ps)) := by
  induction refs with
  | nil => rfl
  | cons ref refs ih =>
    rw [inclusionLines, ih, h, render_spell]
    rfl

/-- References to files can be written, be they one or many, exactly if the accepted template is
made of pieces. The lines are then the pieces filled in, and they hold all references exactly if
there is a place for the reference among the pieces. This is so of all templates that have no field
with a conversion, a format, an attribute or an index. -/
theorem inclusionLines_ok_iff (o : WeaveOptions)
    (_hplain : hasPlainFields false o.template = true) :
    (∀ lead ref refs, (∃ ls, o.inclusionLines lead (ref :: refs) = .ok ls) ↔
      ∃ ps, o.template = spell ps) ∧
    ∀ ps, o.template = spell ps →
      (∀ lead refs, o.inclusionLines lead refs =
        .ok (refs.map fun ref => Text.indent lead (fill ref ps))) ∧
      ((∀ lead ref, ref <:+: Text.indent lead (fill ref ps)) ↔ .place ∈ ps) := by
  refine ⟨fun lead ref refs => ⟨?_, ?_⟩, fun ps hps => ⟨?_, infix_indent_fill_iff⟩⟩
  · rintro ⟨ls, hls⟩
    obtain ⟨l, hl, -⟩ := bind_eq_ok.1 hls
    obtain ⟨ps, hps, -⟩ := render_eq_ok_iff.1 hl
    exact ⟨ps, hps⟩
  · rintro ⟨ps, hps⟩
    exact ⟨_, inclusionLines_spell hps lead (ref :: refs)⟩
  · exact inclusionLines_spell hps

theorem defaultWeaveDepth_le : defaultWeaveDepth ≤ Error.depthLimit := by decide

/-- The letters of the place between doubled braces. -/
def bracedOptions : WeaveOptions where
  template := "\x7b\x7bref\x7d\x7d\n".toList
  maxDepth_le := defaultWeaveDepth_le

/-- A place with a lone brace behind it. -/
def loneOptions : WeaveOptions where
  template := "\x7bref\x7d \x7b\n".toList
  maxDepth_le := defaultWeaveDepth_le

/-- The first template in pieces. -/
def bracedPieces : List Piece :=
  [.brace openBrace (by decide), .plain 'r' (by decide), .plain 'e' (by decide),
    .plain 'f' (by decide), .brace closeBrace (by decide), .plain '\n' (by decide)]

/-- Both templates are accepted. The one is made of pieces without a place, so that its lines do
not hold every reference, and the other one is not made of pieces, so that it has no line. -/
theorem braced_lines_lack_reference :
    hasPlainFields false bracedOptions.template = true ∧
      bracedOptions.template = spell bracedPieces ∧
      bracedOptions.inclusionLines [] ["os".toList] = .ok ["\x7bref\x7d\n".toList] ∧
      ¬"os".toList <:+: "\x7bref\x7d\n".toList ∧
      (¬∀ lead ref, ref <:+: Text.indent lead (fill ref bracedPieces)) ∧
      hasPlainFields false loneOptions.template = true ∧
      loneOptions.inclusionLines [] ["os".toList] = .error (.template .unclosedField) ∧
      ¬∃ ps, loneOptions.template = spell ps := by
  have hbraced : hasPlainFields false bracedOptions.template = true := by decide +kernel
  have hpieces : bracedOptions.template = spell bracedPieces := rfl
  obtain ⟨hlines, hplace⟩ := (inclusionLines_ok_iff bracedOptions hbraced).2 bracedPieces hpieces
  have hloneplain : hasPlainFields false loneOptions.template = true := by decide +kernel
  have hlone : loneOptions.inclusionLines [] ["os".toList] = .error (.template .unclosedField) := by
    decide +kernel
  refine ⟨hbraced, hpieces, hlines [] ["os".toList], by decide, ?_, hloneplain, hlone, ?_⟩
  · rw [hplace]
    decide
  · intro h
    obtain ⟨ls, hls⟩ := ((inclusionLines_ok_iff loneOptions hloneplain).1 [] "os".toList []).2 h
    cases hlone.symm.trans hls

end WeaveOptions

end OrgWeave
