import OrgWeave.Graph.Directive
import OrgWeave.Report.Elements
import OrgWeave.Proofs.Graph.Places
import OrgWeave.Proofs.Text.Endings

/-!
# Documents and the ends of their lines

What kind of line a line is, what its keywords say and the name it gives are read with no regard
to how it ends. So each rule takes as many lines of a document as of a document with the same lines
but for how they end, and makes elements of them that show the same in reports
(`Org.map_toJson_parseCorpus`).

One function looks for the end of a line : the name of a directive at the very end of a text is
no name with a parameter string, while one in front of a newline is
(`Directive.namedRest?_append`).
-/

namespace OrgWeave

open Text

namespace Org

/-! ## Kinds of lines -/

theorem keepsEnds_afterMark? : KeepsEnds afterMark? := by
  intro t s hs
  unfold afterMark?
  rw [stripLeft_append hs.isBlank]
  split
  next h =>
    rw [h]
    rfl
  next => exact keepsEnds_after? (by decide) _ s hs

variable {keyword : Text}

theorem keepsEnds_afterKeyword? (h : EndFree keyword) : KeepsEnds (Org.afterKeyword? keyword) :=
  keepsEnds_afterMark?.bind (Text.keepsEnds_afterKeyword? h)

/-- The ending is no word character, so a keyword in front of it is a whole word. -/
theorem keepsEnds_afterWholeKeyword? (h : EndFree keyword) :
    KeepsEnds (afterWholeKeyword? keyword) := by
  refine (keepsEnds_afterKeyword? h).filter fun t s hs => ?_
  cases t with
  | cons c t => rfl
  | nil =>
    cases s with
    | nil => rfl
    | cons c s => simp [isWord_of_isEnd hs.head]

theorem ignoresEnds_isKeyword : IgnoresEnds isKeyword := keepsEnds_afterMark?.ignores_isSome

theorem ignoresEnds_opensSource : IgnoresEnds opensSource :=
  (keepsEnds_afterWholeKeyword? (by decide)).ignores_isSome

theorem ignoresEnds_closesSource : IgnoresEnds closesSource :=
  (keepsEnds_afterWholeKeyword? (by decide)).ignores_isSome

theorem ignoresEnds_leadingKind? : IgnoresEnds leadingKind? := by
  intro t s hs
  rw [leadingKind?, leadingKind?,
    takeWhile_append_of_false fun c hc => isWord_of_isEnd (hs c hc)]

theorem ignoresEnds_openedKind? : IgnoresEnds openedKind? :=
  (keepsEnds_afterKeyword? (by decide)).ignores_bind ignoresEnds_leadingKind?

theorem ignoresEnds_closedKind? : IgnoresEnds closedKind? :=
  (keepsEnds_afterKeyword? (by decide)).ignores_bind ignoresEnds_leadingKind?

theorem ignoresEnds_opensBlock : IgnoresEnds opensBlock :=
  ignoresEnds_openedKind?.comp Option.isSome

theorem ignoresEnds_closesBlock : IgnoresEnds closesBlock := by
  intro t s hs
  funext l
  rw [closesBlock, closesBlock, ignoresEnds_openedKind? t s hs]

theorem ignoresEnds_closesBlock_left (opening : Line) : IgnoresEnds (closesBlock opening) := by
  intro t s hs
  rw [closesBlock, closesBlock, ignoresEnds_closedKind? t s hs]

/-- The number of stars and the title of a heading are read off the line without its ending. -/
theorem ignoresEnds_heading :
    IgnoresEnds fun l => (Heading.ofLine? l).map fun h => (h.level, h.title) := by
  intro t s hs
  simp only [Heading.ofLine?, ignoresEnds_chomp t s hs]
  split
  · split <;> rfl
  · rfl

theorem ignoresEnds_isHeading : IgnoresEnds isHeading := by
  intro t s hs
  have hsome := congrArg Option.isSome (ignoresEnds_heading t s hs)
  rwa [Option.isSome_map, Option.isSome_map] at hsome

theorem ignoresEnds_keywordParts : IgnoresEnds Rule.keywordParts := by
  intro t s hs
  rw [Rule.keywordParts, Rule.keywordParts, ignoresEnds_chomp t s hs]

theorem ignoresEnds_header : IgnoresEnds Header.ofLine := by
  intro t s hs
  rw [Header.ofLine, Header.ofLine, ignoresEnds_chomp t s hs]

end Org

/-! ## Directives -/

namespace Directive

theorem ignoresEnds_declaredName? : IgnoresEnds declaredName? :=
  ((Org.keepsEnds_afterKeyword? (by decide)).ignores_map ignoresEnds_strip).comp _

/-- A name in front of an ending is followed by white space, whatever the ending is. -/
theorem namedRest?_append {s : Text} (hs : IsEnding s) (hne : s ≠ []) (t : Text) :
    namedRest? (t ++ s) =
      match t.takeWhile (!isSpace ·) with
      | [] => none
      | c :: cs => some (c :: cs, strip (t.dropWhile (!isSpace ·)).tail) := by
  have hspace : ∀ c ∈ s, (!isSpace c) = false := fun c hc => by
    rw [isSpace_of_isEnd (hs c hc)]
    rfl
  rw [namedRest?, takeWhile_append_of_false hspace, dropWhile_append_of_false hspace]
  have hrest : ∃ d rest, t.dropWhile (!isSpace ·) ++ s = d :: rest ∧
      strip rest = strip (t.dropWhile (!isSpace ·)).tail := by
    cases t.dropWhile (!isSpace ·) with
    | cons d rest => exact ⟨d, rest ++ s, rfl, ignoresEnds_strip rest s hs⟩
    | nil =>
      cases s with
      | nil => exact absurd rfl hne
      | cons d s => exact ⟨d, s, rfl, ignoresEnds_strip [] s hs.tail⟩
  obtain ⟨d, rest, hdrop, hstrip⟩ := hrest
  rw [hdrop, ← hstrip]
  cases t.takeWhile (!isSpace ·) <;> rfl

end Directive

/-! ## Takers -/

namespace Org

variable {ls ls' : List Line} {l l' : Line} {f : Line → Bool}

theorem length_takeWhile_sameText (hf : IgnoresEnds f) (h : List.Forall₂ SameText ls ls') :
    (ls'.takeWhile f).length = (ls.takeWhile f).length := by
  induction h with
  | nil => rfl
  | cons hl _ ih =>
    rw [List.takeWhile_cons, List.takeWhile_cons, hf.eq_of_sameText hl]
    split
    · exact congrArg (· + 1) ih
    · rfl

theorem findIdx?_sameText (hf : IgnoresEnds f) (h : List.Forall₂ SameText ls ls') :
    ls'.findIdx? f = ls.findIdx? f := by
  induction h with
  | nil => rfl
  | cons hl _ ih => rw [List.findIdx?_cons, List.findIdx?_cons, hf.eq_of_sameText hl, ih]

theorem findIdx_sameText (hf : IgnoresEnds f) (h : List.Forall₂ SameText ls ls') :
    ls'.findIdx f = ls.findIdx f := by
  induction h with
  | nil => rfl
  | cons hl _ ih => rw [List.findIdx_cons, List.findIdx_cons, hf.eq_of_sameText hl, ih]

theorem trailingCount_sameText {optional core : Line → Bool} (hoptional : IgnoresEnds optional)
    (hcore : IgnoresEnds core) (h : List.Forall₂ SameText ls ls') :
    trailingCount optional core ls' = trailingCount optional core ls := by
  induction h with
  | nil => rfl
  | cons hl _ ih =>
    rw [trailingCount, trailingCount, hoptional.eq_of_sameText hl, hcore.eq_of_sameText hl, ih]

/-- Each rule takes as many lines if they end in other ways. -/
theorem Rule.take_sameText (rule : Rule) (hl : SameText l l') (h : List.Forall₂ SameText ls ls') :
    rule.taker.take l' ls' = rule.taker.take l ls := by
  cases rule with
  | heading => simp only [taker, Taker.take, ignoresEnds_isHeading.eq_of_sameText hl]
  | keyword => simp only [taker, Taker.take, ignoresEnds_isKeyword.eq_of_sameText hl]
  | source =>
    simp only [taker, Taker.take, closedCount, ignoresEnds_opensSource.eq_of_sameText hl,
      findIdx?_sameText ignoresEnds_closesSource h]
  | block =>
    simp only [taker, Taker.take, closedCount, ignoresEnds_opensBlock.eq_of_sameText hl,
      ignoresEnds_closesBlock.eq_of_sameText hl,
      findIdx?_sameText (ignoresEnds_closesBlock_left l) h]
  | blank => exact length_takeWhile_sameText ignoresEnds_isBlank (.cons hl h)
  | prose =>
    refine trailingCount_sameText ignoresEnds_isBlank (fun t s hs => ?_) (.cons hl h)
    simp only [ignoresEnds_isHeading t s hs, ignoresEnds_isKeyword t s hs]

theorem Rule.choose?_sameText (rules : List Rule) (hl : SameText l l')
    (h : List.Forall₂ SameText ls ls') : choose? rules l' ls' = choose? rules l ls := by
  simp only [choose?, take_sameText _ hl h]

/-! ## Elements -/

/-- Elements at the same place show the same in reports if their contents do. -/
theorem Element.toJson_congr (start : Int) {x x' : Content} (htype : x'.typeName = x.typeName)
    (hlines : x'.lines.length = x.lines.length) (hfields : x'.fields = x.fields) :
    (Element.mk start x').toJson = (Element.mk start x).toJson := by
  rw [toJson, toJson, lines, lines, htype, hlines, hfields]

/-- What a rule makes of lines shows the same in reports if they end in other ways. -/
theorem Rule.toJson_make_sameText (rule : Rule) (start : Int) (hl : SameText l l')
    (h : List.Forall₂ SameText ls ls') :
    (Element.mk start (rule.make l' ls')).toJson = (Element.mk start (rule.make l ls)).toJson := by
  have hlength : ls'.length = ls.length := h.length_eq.symm
  have hblock : (l' :: ls'.dropLast ++ [ls'.getLastD l']).length =
      (l :: ls.dropLast ++ [ls.getLastD l]).length := by simp [hlength]
  have hlines : (l' :: ls').length = (l :: ls).length := congrArg (· + 1) hlength
  cases rule with
  | heading =>
    have hheading := ignoresEnds_heading.eq_of_sameText hl
    simp only [make]
    cases hm : Heading.ofLine? l with
    | none =>
      rw [hm, Option.map_none, Option.map_eq_none_iff] at hheading
      rw [hheading]
      exact Element.toJson_congr start rfl hlines rfl
    | some heading =>
      rw [hm, Option.map_some, Option.map_eq_some_iff] at hheading
      obtain ⟨heading', hm', heq⟩ := hheading
      obtain ⟨hlevel, htitle⟩ := Prod.mk.inj heq
      rw [hm']
      refine Element.toJson_congr start rfl rfl ?_
      rw [Content.fields, Content.fields, hlevel, htitle]
  | source =>
    refine Element.toJson_congr start rfl hblock ?_
    simp only [make, Content.fields, ignoresEnds_header.eq_of_sameText hl]
  | block =>
    refine Element.toJson_congr start rfl hblock ?_
    simp only [make, Content.fields, ignoresEnds_openedKind?.eq_of_sameText hl]
  | keyword =>
    refine Element.toJson_congr start rfl rfl ?_
    simp only [make, Content.fields, ignoresEnds_keywordParts.eq_of_sameText hl]
  | blank => exact Element.toJson_congr start rfl hlines rfl
  | prose => exact Element.toJson_congr start rfl hlines rfl

/-- A document is cut into elements that show the same in reports if its lines end in other
ways. -/
theorem map_toJson_parse (h : List.Forall₂ SameText ls ls') (start : Int) :
    (parse Rule.order start ls').map (List.map Element.toJson) =
      (parse Rule.order start ls).map (List.map Element.toJson) := by
  induction start, ls using parse.induct Rule.order generalizing ls' with
  | case1 start =>
    cases h
    rfl
  | case2 start l ls hnone => exact absurd hnone (Rule.choose?_order l ls)
  | case3 start l ls rule n hsome ih =>
    cases h with
    | @cons _ l' _ ls' hl hls =>
      have hmake := rule.toJson_make_sameText start hl (List.forall₂_take n hls)
      have htail := ih (List.forall₂_drop n hls)
      rw [parse, parse, Rule.choose?_sameText Rule.order hl hls, hsome]
      dsimp only
      rcases cases_of_map_eq_map htail with ⟨e, herr, herr'⟩ | ⟨es, es', hok, hok', hes⟩
      · rw [herr, herr']
        rfl
      · rw [hok, hok']
        exact congrArg Except.ok (congrArg₂ List.cons hmake hes)

/-- The report on an element says whether it can hold a directive, and where it starts. -/
theorem Element.of_toJson_eq {e e' : Element} (h : e'.toJson = e.toJson) :
    e'.holdsDirective = e.holdsDirective ∧ e'.start = e.start := by
  have htypes : ∀ e : Element, e.holdsDirective =
      decide (e.content.typeName ∈ ["Metadata".toList, "CodeBlock".toList]) := by
    rintro ⟨start, content⟩
    cases content <;> rfl
  simp only [toJson, Json.object.injEq, List.cons.injEq, Prod.mk.injEq, true_and,
    Json.text.injEq, Json.int.injEq] at h
  obtain ⟨htype, hstart, -⟩ := h
  rw [htypes, htypes, htype]
  exact ⟨rfl, hstart⟩

/-- Elements that show the same in reports hold their directives at the same places. -/
theorem directivePlaces_congr : ∀ {es es' : List Element},
    es'.map Element.toJson = es.map Element.toJson → directivePlaces es' = directivePlaces es
  | [], [], _ => rfl
  | e :: es, e' :: es', h => by
    obtain ⟨hhead, htail⟩ := List.cons.inj h
    obtain ⟨hholds, hstart⟩ := Element.of_toJson_eq hhead
    have ih := directivePlaces_congr htail
    unfold directivePlaces at ih ⊢
    rw [List.filter_cons, List.filter_cons, hholds]
    split
    · rw [List.map_cons, List.map_cons, hstart, ih]
    · exact ih

end Org

/-! ## Corpora -/

/-- Both corpora have the same documents, and the same lines but for how they end. -/
structure Corpus.SameText (c c' : Corpus) : Prop where
  lines : List.Forall₂ Text.SameText c.lines c'.lines
  documents : c'.documents = c.documents

theorem Corpus.SameText.slice {c c' : Corpus} (h : c.SameText c') (start stop : Nat) :
    List.Forall₂ Text.SameText (c.slice start stop) (c'.slice start stop) :=
  List.forall₂_take _ (List.forall₂_drop _ h.lines)

/-- A corpus is cut into elements that show the same in reports if its lines end in other
ways. -/
theorem Org.map_toJson_parseCorpus {c c' : Corpus} (h : c.SameText c') :
    (parseCorpus c').map (List.map Element.toJson) =
      (parseCorpus c).map (List.map Element.toJson) := by
  have happend : ∀ es fs : List Element,
      (es ++ fs).map Element.toJson = es.map Element.toJson ++ fs.map Element.toJson :=
    fun _ _ => List.map_append
  rw [parseCorpus, parseCorpus, h.documents, ← gather_map rfl happend, ← gather_map rfl happend]
  exact gather_congr fun d _ => map_toJson_parse (h.slice d.start d.stop) d.start

end OrgWeave
