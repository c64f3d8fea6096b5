import OrgWeave.Proofs.Document.Returns
import OrgWeave.Proofs.Params.Grammar

/-!
# Parameters on opening lines

The parameters of a source block begin at a colon on its opening line, with white space in front of
it. `ReadsSpaced t p` says that `p` is read from the first such colon of a text, and is nothing if
there is none. What stands in front, a language and switches, does not matter.

The text behind the keyword is stripped before it is searched, though. Where nothing but white
space stands between the keyword and a colon, this colon is at the front of the stripped text, with
nothing before it, and is passed over : the first word of the parameters is taken for a language,
and they begin at the next colon only. Behind anything else they begin where they should
(`opensSource_reads`).
-/

namespace OrgWeave

open Text

/-! ## Ends of parameter strings -/

namespace Params

/-- White space behind a parameter string adds nothing to it. -/
theorem ofSegments_append {s : Text} (hs : isBlank s = true) (t : Text) :
    ofSegments (t ++ s) = ofSegments t := by
  obtain ⟨w, r, hw, hr, rfl⟩ := exists_solid_append t
  have hapart : Apart (r ++ s) := by
    cases r with
    | nil => exact fun c hc => List.all_eq_true.1 hs c (List.mem_of_head? hc)
    | cons c r => exact hr
  rw [ofSegments_eq, ofSegments_eq, List.append_assoc, filterMap_mention?_segments hw hapart,
    filterMap_mention?_segments hw hr, words_append_of_isBlank hs]

/-- A parameter string is read behind its first colon. -/
theorem ofText?_colon (t : Text) : ofText? (':' :: t) = .ok (ofSegments t) := by
  obtain ⟨s, hs, hspaces⟩ := exists_append_dropRightWhile isSpace (':' :: t)
  have hleft : stripLeft (':' :: t) = ':' :: t := rfl
  have hcolon : dropRightWhile isSpace (':' :: t) ≠ [] := by
    intro hnil
    rw [hnil, List.nil_append] at hs
    have hspace := hspaces ':' (hs ▸ List.mem_cons_self)
    cases hspace
  obtain ⟨c, body, hbody⟩ := List.exists_cons_of_ne_nil hcolon
  rw [hbody, List.cons_append, List.cons.injEq] at hs
  obtain ⟨rfl, rfl⟩ := hs
  rw [ofText?, strip, hleft, stripRight, hbody, ofSegments_append (List.all_eq_true.2 hspaces)]
  rfl

end Params

namespace Org

/-! ## Colons behind white space -/

/-- A colon of the text follows white space. -/
structure SpacedColon (t before after : Text) : Prop where
  eq : t = before ++ ':' :: after
  spaced : before.getLast?.any isSpace = true

/-- The colon is the first one of the text that follows white space. -/
structure FirstSpacedColon (t before after : Text) : Prop extends SpacedColon t before after where
  first : ∀ b a, SpacedColon t b a → before.length ≤ b.length

/-- The parameters are those from the first colon that follows white space on, or none without such
a colon. -/
inductive ReadsSpaced (t : Text) : Params → Prop
  | colon {before after : Text} {p : Params} (hfirst : FirstSpacedColon t before after)
      (hp : Params.ofText? (':' :: after) = .ok p) : ReadsSpaced t p
  | none (h : ∀ before after, ¬SpacedColon t before after) : ReadsSpaced t []

variable {t s before after : Text} {c : Char} {p : Params}

theorem SpacedColon.ne_nil (h : SpacedColon t before after) : before ≠ [] := by
  rintro rfl
  cases h.spaced

/-- A character in front of the text makes no difference, unless it is white space in front of a
colon. -/
theorem spacedColon_cons (h : isSpace c = true → t.head? ≠ some ':') :
    SpacedColon (c :: t) before after ↔ ∃ b, before = c :: b ∧ SpacedColon t b after := by
  constructor
  · intro hcolon
    obtain ⟨d, b, rfl⟩ := List.exists_cons_of_ne_nil hcolon.ne_nil
    obtain ⟨heq, hspaced⟩ := hcolon
    obtain ⟨rfl, rfl⟩ := List.cons.inj heq
    cases b with
    | nil => exact absurd rfl (h (by simpa using hspaced))
    | cons d b => exact ⟨d :: b, rfl, rfl, by simpa using hspaced⟩
  · rintro ⟨b, rfl, hcolon⟩
    obtain ⟨d, b, rfl⟩ := List.exists_cons_of_ne_nil hcolon.ne_nil
    obtain ⟨rfl, hspaced⟩ := hcolon
    exact ⟨rfl, by simpa using hspaced⟩

namespace ReadsSpaced

theorem cons (hread : ReadsSpaced t p) (h : isSpace c = true → t.head? ≠ some ':') :
    ReadsSpaced (c :: t) p := by
  cases hread with
  | @colon before after _ hfirst hp =>
    refine .colon ⟨(spacedColon_cons h).2 ⟨before, rfl, hfirst.toSpacedColon⟩, ?_⟩ hp
    intro b a hba
    obtain ⟨b, rfl, hb⟩ := (spacedColon_cons h).1 hba
    exact Nat.succ_le_succ (hfirst.first b a hb)
  | none hnone =>
    refine .none fun b a hba => ?_
    obtain ⟨b, rfl, hb⟩ := (spacedColon_cons h).1 hba
    exact hnone b a hb

/-- White space in front of the text makes no difference, unless a colon comes first. -/
theorem append_left (hread : ReadsSpaced t p) (hs : isBlank s = true) (ht : t.head? ≠ some ':') :
    ReadsSpaced (s ++ t) p := by
  induction s with
  | nil => exact hread
  | cons c s ih =>
    obtain ⟨hc, hs⟩ := List.forall_mem_cons.1 (List.all_eq_true.1 hs)
    refine (ih (List.all_eq_true.2 hs)).cons fun _ => ?_
    cases s with
    | nil => exact ht
    | cons d s =>
      rintro ⟨⟩
      cases hs ':' List.mem_cons_self

end ReadsSpaced

/-! ## Searching for the colon -/

/-- The parameters from the first colon behind white space, where the text has characters. -/
def spacedParams : Text → Params
  | [] => []
  | c :: t => ((afterSpacedColon? c t).map Params.ofSegments).getD []

theorem readsSpaced_spacedParams (t : Text) : ReadsSpaced t (spacedParams t) := by
  have hnil : ReadsSpaced [] [] := .none fun before after h => by simpa using h.eq
  cases t with
  | nil => exact hnil
  | cons c t =>
    induction t generalizing c with
    | nil => exact hnil.cons fun _ => by simp
    | cons d t ih =>
      rw [spacedParams, afterSpacedColon?]
      split
      next hcolon =>
        obtain ⟨hc, rfl⟩ : isSpace c = true ∧ d = ':' := by simpa using hcolon
        have hfirst : FirstSpacedColon (c :: ':' :: t) [c] t :=
          ⟨⟨rfl, by simpa using hc⟩, fun b a hba => List.length_pos_of_ne_nil hba.ne_nil⟩
        exact .colon hfirst (Params.ofText?_colon t)
      next hnot =>
        refine (ih d).cons fun hc hd => hnot ?_
        simpa [hc] using hd

/-- There is no colon in white space. -/
theorem afterSpacedColon?_of_isBlank (hs : isBlank s = true) (c : Char) :
    afterSpacedColon? c s = none := by
  induction s generalizing c with
  | nil => rfl
  | cons d s ih =>
    obtain ⟨hd, hs⟩ := List.forall_mem_cons.1 (List.all_eq_true.1 hs)
    have hne : d ≠ ':' := by
      rintro rfl
      cases hd
    rw [afterSpacedColon?, if_neg (by simp [hne])]
    exact ih (List.all_eq_true.2 hs) d

theorem afterSpacedColon?_append (hs : isBlank s = true) (c : Char) (t : Text) :
    afterSpacedColon? c (t ++ s) = (afterSpacedColon? c t).map (· ++ s) := by
  induction t generalizing c with
  | nil => exact afterSpacedColon?_of_isBlank hs c
  | cons d t ih =>
    rw [List.cons_append, afterSpacedColon?, afterSpacedColon?]
    split
    · rfl
    · exact ih d

/-- White space behind the text makes no difference. -/
theorem spacedParams_append (hs : isBlank s = true) (t : Text) :
    spacedParams (t ++ s) = spacedParams t := by
  cases t with
  | nil =>
    cases s with
    | nil => rfl
    | cons c s =>
      have hrest := (List.forall_mem_cons.1 (List.all_eq_true.1 hs)).2
      rw [List.nil_append, spacedParams, spacedParams,
        afterSpacedColon?_of_isBlank (List.all_eq_true.2 hrest)]
      rfl
  | cons c t =>
    have hsegments : Params.ofSegments ∘ (· ++ s) = Params.ofSegments :=
      funext (Params.ofSegments_append hs)
    rw [List.cons_append, spacedParams, spacedParams, afterSpacedColon?_append hs, Option.map_map,
      hsegments]

/-! ## Opening lines -/

/-- The header of a line is read off the stripped text behind the keyword. -/
theorem header_eq {l : Line} (h : afterSourceOpening? (chomp l) = some t) :
    (Header.ofLine l).language = (words t).headD [] ∧
      (Header.ofLine l).params = spacedParams (stripLeft t) := by
  have hparams : spacedParams (stripLeft t) = spacedParams (strip t) := by
    obtain ⟨s, hs, hspaces⟩ := exists_append_dropRightWhile isSpace (stripLeft t)
    have hstrip : stripLeft t = strip t ++ s := hs
    rw [hstrip, spacedParams_append (List.all_eq_true.2 hspaces)]
  rw [hparams, ← words_strip t]
  unfold Header.ofLine
  rw [h, Option.getD_some]
  cases hstrip : strip t with
  | nil => exact ⟨rfl, rfl⟩
  | cons first others =>
    obtain ⟨w, r, -, -, -, hwords⟩ := exists_words_of_strip hstrip
    rw [← words_strip, hstrip] at hwords
    simp only [hwords]
    exact ⟨rfl, rfl⟩

/-- Nothing but white space stands in front of a colon, but this does. -/
structure Unlabelled (t s u : Text) : Prop where
  eq : t = s ++ ':' :: u
  ne_nil : s ≠ []
  blank : isBlank s = true

namespace Unlabelled

variable {u : Text}

theorem firstSpacedColon (h : Unlabelled t s u) : FirstSpacedColon t s u := by
  have hspaces : ∀ c ∈ s, isSpace c = true := List.all_eq_true.1 h.blank
  refine ⟨⟨h.eq, ?_⟩, fun b a hba => ?_⟩
  · rw [List.getLast?_eq_some_getLast h.ne_nil]
    exact hspaces _ (List.getLast_mem h.ne_nil)
  · by_contra hlt
    rcases List.append_eq_append_iff.1 (h.eq.symm.trans hba.eq) with ⟨r, hb, -⟩ | ⟨r, hs, hr⟩
    · simp [hb] at hlt
    · -- a colon that comes earlier stands in the white space
      cases r with
      | nil => simp [hs] at hlt
      | cons c r =>
        obtain ⟨rfl, -⟩ := List.cons.inj hr
        cases hspaces ':' (by simp [hs])

theorem stripLeft_eq (h : Unlabelled t s u) : stripLeft t = ':' :: u := by
  rw [h.eq, stripLeft, List.dropWhile_append_of_pos (List.all_eq_true.1 h.blank)]
  rfl

/-- The first word begins with the colon. -/
theorem head?_words (h : Unlabelled t s u) : ((words t).headD []).head? = some ':' := by
  obtain ⟨w, r, hw, hr, rfl⟩ := exists_solid_append u
  have hfirst : Unbroken (':' :: w) :=
    ⟨List.cons_ne_nil _ _, List.forall_mem_cons.2 ⟨rfl, hw⟩⟩
  rw [← words_stripLeft, h.stripLeft_eq, ← List.cons_append, hfirst.words_append hr]
  rfl

end Unlabelled

/-- The parameters of a line that opens a source block are those from the first colon behind white
space on, if a language or anything else stands in front of it. If nothing does, this colon is
passed over, the word that it begins is the language, and the parameters are those from the next
colon behind white space on. -/
theorem opensSource_reads {l : Line} (h : opensSource l = true) :
    ∃ t, afterSourceOpening? (chomp l) = some t ∧
      ((∀ s u, ¬Unlabelled t s u) → ReadsSpaced t (Header.ofLine l).params) ∧
      ∀ s u, Unlabelled t s u → FirstSpacedColon t s u ∧
        ReadsSpaced (':' :: u) (Header.ofLine l).params ∧
        (Header.ofLine l).language.head? = some ':' := by
  have hchomp : opensSource (chomp l) = true := by
    obtain ⟨s, hs, hends⟩ := exists_append_dropRightWhile (fun c => c == '\r' || c == '\n') l
    rwa [← ignoresEnds_opensSource (chomp l) s hends, chomp, ← hs]
  obtain ⟨t, ht⟩ := Option.isSome_iff_exists.1 hchomp
  obtain ⟨hlanguage, hparams⟩ := header_eq ht
  have hread := readsSpaced_spacedParams (stripLeft t)
  have hsplit : t.takeWhile isSpace ++ stripLeft t = t := List.takeWhile_append_dropWhile
  have hblank : isBlank (t.takeWhile isSpace) = true :=
    List.all_eq_true.2 fun c hc => List.mem_takeWhile_imp hc
  rw [hparams, hlanguage]
  refine ⟨t, ht, fun hlabelled => ?_, fun s u hunlabelled => ?_⟩
  · by_cases hfront : t.takeWhile isSpace = []
    · rw [hfront, List.nil_append] at hsplit
      rwa [hsplit] at hread ⊢
    · have hcolon : (stripLeft t).head? ≠ some ':' := by
        intro hcolon
        obtain ⟨u, hu⟩ := List.head?_eq_some_iff.1 hcolon
        exact hlabelled _ u ⟨by rw [← hu, hsplit], hfront, hblank⟩
      have hwhole := hread.append_left hblank hcolon
      rwa [hsplit] at hwhole
  · rw [hunlabelled.stripLeft_eq] at hread ⊢
    exact ⟨hunlabelled.firstSpacedColon, hread, hunlabelled.head?_words⟩

/-- Behind switches both parameters of the line are read; right behind the keyword the first one is
lost to the language. -/
theorem bare_header_reads :
    opensSource "#+begin_src -n :noweb no :tangle t\r\n".toList = true ∧
    Header.ofLine "#+begin_src -n :noweb no :tangle t\r\n".toList =
      ⟨"-n".toList, [("noweb".toList, ["no".toList]), ("tangle".toList, ["t".toList])]⟩ ∧
    opensSource "#+begin_src :noweb no :tangle t\n".toList = true ∧
    Unlabelled " :noweb no :tangle t".toList [' '] "noweb no :tangle t".toList ∧
    FirstSpacedColon " :noweb no :tangle t".toList [' '] "noweb no :tangle t".toList ∧
    ReadsSpaced ":noweb no :tangle t".toList [("tangle".toList, ["t".toList])] ∧
    Header.ofLine "#+begin_src :noweb no :tangle t\n".toList =
      ⟨":noweb".toList, [("tangle".toList, ["t".toList])]⟩ := by
  have hopens : opensSource "#+begin_src :noweb no :tangle t\n".toList = true := by
    decide +kernel
  have hheader : Header.ofLine "#+begin_src :noweb no :tangle t\n".toList =
      ⟨":noweb".toList, [("tangle".toList, ["t".toList])]⟩ := by
    decide +kernel
  have hrest : afterSourceOpening? (chomp "#+begin_src :noweb no :tangle t\n".toList) =
      some " :noweb no :tangle t".toList := by
    decide +kernel
  have hbare : Unlabelled " :noweb no :tangle t".toList [' '] "noweb no :tangle t".toList :=
    ⟨rfl, by decide, by decide⟩
  obtain ⟨t, ht, -, hunlabelled⟩ := opensSource_reads hopens
  obtain rfl : " :noweb no :tangle t".toList = t := Option.some.inj (hrest.symm.trans ht)
  obtain ⟨hfirst, hread, -⟩ := hunlabelled _ _ hbare
  rw [hheader] at hread
  exact ⟨by decide +kernel, by decide +kernel, hopens, hbare, hfirst, hread, hheader⟩

end Org

end OrgWeave
