import OrgWeave.Proofs.Closure.Order
import OrgWeave.Proofs.Graph.Meaning
import OrgWeave.Proofs.Text.Literals
import OrgWeave.Proofs.Text.Words
import OrgWeave.Proofs.Weave.Returns

/-!
# Blocks as literals

A block can come out as one string literal instead of its lines. The lines are woven first, so that
both fail alike, and the literal is read as the lines if each of them ends with its newline and
holds nothing else that ends a line (`Graph.weaveBlocks_literal`).

A woven line comes from a line of a document or refers to a file. Where the lines of the documents
are ended, a line stays so without its escape and behind an indentation, and the indentation is
taken from in front of a marker, where no line ends. A reference to a file is a word of a
parameter string, be it in a record or in a call (`Params.endFree_of_mem_values`). This holds of
records from the first step of a scan on (`Scan.Worded`), whatever lines it looks at. `YieldsEnded`
says of a computation that its lines are ended, and each level of nesting hands it on
(`Graph.yieldsEnded_expand`).
-/

namespace OrgWeave

open Text

variable {α β : Type}

/-! ## References to files -/

namespace Text

theorem endFree_of_mem_words {t w : Text} (h : w ∈ words t) : EndFree w := by
  intro c hc
  rw [← Bool.not_eq_true]
  intro hend
  have := (unbroken_of_mem_words h).solid c hc
  rw [isSpace_of_isEnd hend] at this
  cases this

end Text

namespace Params

variable {p : Params} {t key v : Text}

theorem mem_values_add {other : Text} {vs : List Text} (h : v ∈ (p.add key vs).values other) :
    v ∈ p.values other ∨ v ∈ vs := by
  by_cases hkey : other = key
  · subst hkey
    rw [values, values?_add_self, Option.getD_some] at h
    exact List.mem_append.1 h
  · rw [values, values?_add_of_ne p vs hkey] at h
    exact Or.inl h

/-- The values that segments hold are words. -/
theorem endFree_of_mem_values_ofSegments {body : Text} (hv : v ∈ (ofSegments body).values key) :
    EndFree v := by
  have hsegments : ∀ (segments : List Text) (p : Params), (∀ v ∈ p.values key, EndFree v) →
      ∀ v ∈ (segments.foldl addSegment p).values key, EndFree v := by
    intro segments
    induction segments with
    | nil => exact fun _ hp => hp
    | cons segment segments ih =>
      refine fun p hp => ih _ fun v hv => ?_
      unfold addSegment at hv
      split at hv
      next => exact hp v hv
      next vs hwords =>
        rcases mem_values_add hv with hv | hv
        · exact hp v hv
        · exact endFree_of_mem_words (hwords ▸ List.mem_cons_of_mem _ hv)
  exact hsegments _ [] (fun _ hv => nomatch hv) v hv

/-- The values of parameters are words. -/
theorem endFree_of_mem_values (h : ofText? t = .ok p) (hv : v ∈ p.values key) : EndFree v := by
  unfold ofText? at h
  split at h
  next =>
    cases h
    exact endFree_of_mem_values_ofSegments hv
  next => cases h

end Params

/-- What records refer to together, one of them refers to. -/
theorem Record.exists_of_mem_concat {rs : List Record} {ref : Text}
    (h : ref ∈ (concat rs).external ++ (concat rs).nested) :
    ∃ r ∈ rs, ref ∈ r.external ++ r.nested := by
  rcases List.mem_append.1 h with h | h
  · obtain ⟨r, hr, href⟩ := List.mem_flatMap.1 h
    exact ⟨r, hr, List.mem_append_left _ href⟩
  · obtain ⟨r, hr, href⟩ := List.mem_flatMap.1 h
    exact ⟨r, hr, List.mem_append_right _ href⟩

/-- A record that is read off a line refers to words. -/
theorem Corpus.endFree_of_record? {c : Corpus} {n : Text} {i : Nat} {r : Record}
    (h : c.record? n i = some r) : ∀ ref ∈ r.external ++ r.nested, EndFree ref := by
  unfold record? at h
  split at h
  next m params _ =>
    split at h
    next =>
      obtain ⟨p, hp, rfl⟩ := Option.map_eq_some_iff.1 h
      cases hparams : Params.ofText? params with
      | error e =>
        rw [hparams] at hp
        cases hp
      | ok q =>
        rw [hparams] at hp
        cases hp
        intro ref href
        rcases List.mem_append.1 href with href | href <;>
          exact Params.endFree_of_mem_values hparams href
    next => cases h
  next => cases h

namespace Scan

/-- The records that are declared so far refer to words. -/
structure Worded (s : Scan) : Prop extends Keyed s where
  endFree : ∀ {n : Text} {r : Record}, s.dependencies.get? n = some r →
    ∀ ref ∈ r.external ++ r.nested, EndFree ref

namespace Worded

variable {c : Corpus} {collects : Bool} {s s' : Scan} {i : Nat}

theorem empty : Worded .empty where
  toKeyed := .empty
  endFree h := nomatch h

theorem step (h : s.Worded) (hs : Step c collects s i s') : s'.Worded where
  toKeyed := hs.keyed h.toKeyed
  endFree {n r} hr := by
    have hmem : r ∈ (s'.dependencies.get? n).toList := Option.mem_toList.2 hr
    rw [hs.dependencies, List.mem_append] at hmem
    rcases hmem with hmem | hmem
    · exact h.endFree (Option.mem_toList.1 hmem)
    · exact Corpus.endFree_of_record? (Option.mem_toList.1 hmem)

end Worded

end Scan

/-- What can stand on a line in a graph : its lines are ended, and no reference to a file holds
what ends a line. -/
structure Graph.Lined (g : Graph) : Prop where
  lines : ∀ l ∈ g.corpus.lines, Ended l
  external : ∀ n, ∀ ref ∈ (g.record n).external, EndFree ref

namespace Graph

variable {docs : List (Text × Text)} {g : Graph}

/-- All references that are declared for a graph are words, wherever they stand. -/
theorem endFree_of_mem_record (h : g.Built) {n ref : Text}
    (href : ref ∈ (g.record n).external ++ (g.record n).nested) : EndFree ref := by
  obtain ⟨c, collects, places, s, hrun, rfl⟩ := h.exists_run
  have hs : s.Worded := Scan.run_carries (fun h hs => h.step hs) .empty hrun
  rw [Scan.record_finish hs.toKeyed] at href
  obtain ⟨r, hr, href⟩ := Record.exists_of_mem_concat href
  have hdeclared : ∃ m, s.dependencies.get? m = some r := by
    rcases List.mem_append.1 hr with hr | hr
    · exact ⟨n, Option.mem_toList.1 hr⟩
    · obtain ⟨m, -, hr⟩ := List.mem_flatMap.1 hr
      exact ⟨m, Option.mem_toList.1 hr⟩
  obtain ⟨m, hr⟩ := hdeclared
  exact hs.endFree hr ref href

theorem lined_of_built (hdocs : ∀ d ∈ docs, '\r' ∉ d.2 ∧ (d.2 = [] ∨ d.2.getLast? = some '\n'))
    (h : g.Built) (hcorpus : g.corpus = Corpus.ofTexts docs) : g.Lined where
  lines l hl := by
    rw [hcorpus] at hl
    obtain ⟨d, hd, hl⟩ := List.mem_flatMap.1 hl
    exact ended_of_mem_splitLines (hdocs d hd).1 (hdocs d hd).2 l hl
  external _ _ href := endFree_of_mem_record h (List.mem_append_left _ href)

end Graph

/-! ## Lines of a body -/

namespace Text

theorem Ended.unescape {l : Line} (h : Ended l) : Ended (unescape l) := by
  obtain ⟨t, ht, rfl⟩ := h
  cases t with
  | nil => exact ⟨[], ht, rfl⟩
  | cons c t =>
    have hrest : EndFree t := fun d hd => ht d (List.mem_cons_of_mem c hd)
    rw [List.cons_append, unescape_cons]
    split
    · exact ⟨t, hrest, rfl⟩
    · exact ⟨c :: t, ht, rfl⟩

end Text

namespace Marker

/-- The indentation of what replaces a line. -/
def Role.indent : Role → Text
  | .text => []
  | .reference indent _ => indent
  | .request indent _ => indent

theorem endFree_indent {l : Line} {m : Marker} (hl : Ended l) (h : ofLine? l = some m) :
    EndFree m.indent := by
  obtain ⟨t, ht, rfl⟩ := hl
  rw [ignoresEnds_marker t _ isEnding_newline] at h
  unfold ofLine? at h
  split at h
  next => cases h
  next before rest hsplit =>
    have hbefore : ∀ c ∈ before, c ∈ t := fun c hc => by simp [eq_of_splitFirst? hsplit, hc]
    split at h
    next =>
      cases h
      intro c hc
      have hrun := (List.takeWhile_subset _) (List.mem_reverse.1 hc)
      exact ht c (hbefore c (List.mem_reverse.1 hrun))
    next => cases h

/-- A line without a marker stays text. One with a marker is a reference to its target, unless this
is a call. -/
theorem role_cases (selfName : Text) (expandsMarkers : Bool) (l : Line) :
    role selfName expandsMarkers l = .text ∨ ∃ m, ofLine? l = some m ∧
      (role selfName expandsMarkers l = .reference m.indent m.target ∨
        ∃ flags, flags? selfName m.target = some flags ∧
          role selfName expandsMarkers l = .request m.indent flags) := by
  unfold role
  split
  next => exact Or.inl rfl
  next m hm =>
    rw [Option.ite_none_right_eq_some] at hm
    refine Or.inr ⟨m, hm.2, ?_⟩
    split
    next flags hflags => exact Or.inr ⟨flags, hflags, rfl⟩
    next => exact Or.inl rfl

theorem endFree_indent_role {l : Line} (hl : Ended l) (self : Text) (expandsMarkers : Bool) :
    EndFree (role self expandsMarkers l).indent := by
  rcases role_cases self expandsMarkers l with h | ⟨m, hm, h | ⟨flags, -, h⟩⟩ <;> rw [h]
  · exact fun _ hc => nomatch hc
  · exact endFree_indent hl hm
  · exact endFree_indent hl hm

end Marker

/-! ## Woven lines -/

/-- All lines that `x` comes to are ended. -/
def YieldsEnded (x : Except Error (List Line)) : Prop := ∀ ls, x = .ok ls → ∀ l ∈ ls, Ended l

namespace YieldsEnded

variable {x y : Except Error (List Line)}

theorem ok {ls : List Line} (h : ∀ l ∈ ls, Ended l) : YieldsEnded (.ok ls) := by
  rintro _ ⟨⟩
  exact h

theorem error (e : Error) : YieldsEnded (.error e) := fun _ h => nomatch h

theorem bind {y : Except Error α} {f : α → Except Error (List Line)}
    (h : ∀ a, y = .ok a → YieldsEnded (f a)) : YieldsEnded (y >>= f) := by
  intro ls hls
  obtain ⟨a, ha, hls⟩ := bind_eq_ok.1 hls
  exact h a ha ls hls

theorem gather {f : α → Except Error (List Line)} {as : List α}
    (h : ∀ a ∈ as, YieldsEnded (f a)) : YieldsEnded (gather f as) := by
  intro ls hls l hl
  obtain ⟨a, ha, ms, hms, hl⟩ := exists_of_mem_gather hls hl
  exact h a ha ms hms l hl

theorem append (hx : YieldsEnded x) (hy : YieldsEnded y) :
    YieldsEnded (x >>= fun ls => y >>= fun ms => .ok (ls ++ ms)) := by
  refine bind fun ls hls => bind fun ms hms => ok fun l hl => ?_
  rcases List.mem_append.1 hl with hl | hl
  · exact hx ls hls l hl
  · exact hy ms hms l hl

end YieldsEnded

namespace Graph

variable {g : Graph} {o : WeaveOptions} {weave : Text → Text → Except Error (List Line)}
  {levels : Nat} {lead : Text}

theorem yieldsEnded_inclusionLines (ho : o.template = defaultTemplate) (hlead : EndFree lead) :
    ∀ {refs : List Text}, (∀ ref ∈ refs, EndFree ref) → YieldsEnded (o.inclusionLines lead refs)
  | [], _ => .ok fun _ hl => nomatch hl
  | ref :: refs, h => by
    obtain ⟨href, hrefs⟩ := List.forall_mem_cons.1 h
    rw [WeaveOptions.inclusionLines, ho, renderTemplate_default]
    have hline : Ended ("#include <".toList ++ ref ++ ">\n".toList) :=
      ⟨"#include <".toList ++ ref ++ ['>'], (EndFree.append (by decide) href).append (by decide),
        by simp⟩
    have htail := yieldsEnded_inclusionLines ho hlead hrefs
    change YieldsEnded (o.inclusionLines lead refs >>= fun ls => .ok (Text.indent lead _ :: ls))
    refine .bind fun ls hls => .ok fun l hl => ?_
    rcases List.mem_cons.1 hl with rfl | hl
    · exact hline.indent hlead
    · exact htail ls hls l hl

section Nested

variable (hg : g.Lined) (ho : o.template = defaultTemplate)
  (hweave : ∀ lead n, EndFree lead → YieldsEnded (weave lead n)) (hlead : EndFree lead)

include hg ho hweave hlead

theorem yieldsEnded_selfInclusion (flags : Text) :
    YieldsEnded (g.selfInclusion o weave levels lead flags) := by
  unfold selfInclusion
  split
  · exact .error _
  · refine .bind fun p hp => .bind fun _ _ => .bind fun r hr => ?_
    have hrefs : ∀ ref ∈ r.external, EndFree ref := fun ref href => by
      rcases ((closes_of_resolve hr).mem_external ref).1 href with ⟨n, -, href⟩ | href
      · exact hg.external n ref href
      · exact Params.endFree_of_mem_values hp href
    refine (yieldsEnded_inclusionLines ho hlead hrefs).append ?_
    rw [emit_eq_gather]
    exact .gather fun n _ => hweave lead n hlead

theorem yieldsEnded_expandBody (span : BodySpan) :
    YieldsEnded (g.expandBody o weave levels lead span) := by
  refine .gather fun l hl => ?_
  have hl : Ended l := hg.lines l (List.mem_of_mem_drop (List.mem_of_mem_take hl))
  have hindent := hlead.append (Marker.endFree_indent_role hl o.selfName span.expandsMarkers)
  unfold expandLine
  generalize Marker.role o.selfName span.expandsMarkers l = role at hindent
  cases role with
  | text => exact .ok (by simpa using hl.unescape.indent hlead)
  | reference indent n => exact hweave _ n hindent
  | request indent flags => exact yieldsEnded_selfInclusion hg ho hweave hindent flags

end Nested

theorem yieldsEnded_expand (hg : g.Lined) (ho : o.template = defaultTemplate) :
    ∀ (levels : Nat) {lead : Text} (n : Text), EndFree lead → YieldsEnded (g.expand o levels lead n)
  | 0, _, _, _ => .bind fun _ _ => .error _
  | levels + 1, _, _, hlead => .bind fun _ _ => .gather fun span _ =>
      yieldsEnded_expandBody hg ho (fun _ n h => yieldsEnded_expand hg ho levels n h) hlead span

/-! ## Blocks -/

theorem inclusionLines_literal (literal : Bool) (refs : List Text) :
    WeaveOptions.inclusionLines { o with literal := literal } lead refs =
      o.inclusionLines lead refs := by
  induction refs with
  | nil => rfl
  | cons ref refs ih => rw [WeaveOptions.inclusionLines, WeaveOptions.inclusionLines, ih]

theorem expandBody_literal (literal : Bool) :
    g.expandBody { o with literal := literal } = g.expandBody o := by
  have hself : g.selfInclusion { o with literal := literal } = g.selfInclusion o := by
    funext weave levels lead flags
    unfold selfInclusion
    simp only [inclusionLines_literal]
    rfl
  unfold expandBody expandLine
  rw [hself]

/-- Lines are woven before they come out as a literal or not. -/
theorem weaveBlock_literal (literal : Bool) (n : Text) :
    g.weaveBlock { o with literal := literal } n = g.weaveBlock o n := by
  have hexpand : ∀ levels, g.expand { o with literal := literal } levels = g.expand o levels := by
    intro levels
    induction levels with
    | zero => rfl
    | succ levels ih =>
      funext lead n
      rw [expand, expand, expandBody_literal, ih]
  exact congrFun (congrFun (hexpand _) []) n

/-- What is collected of items is what each of them comes to. -/
theorem forall₂_of_mapM {f : α → Except Error β} : ∀ {as : List α} {bs : List β},
    as.mapM f = .ok bs → List.Forall₂ (fun a b => f a = .ok b) as bs
  | [], _, h => by
    cases h
    exact .nil
  | a :: as, _, h => by
    rw [List.mapM_cons] at h
    obtain ⟨b, hb, h⟩ := bind_eq_ok.1 h
    obtain ⟨bs, hbs, h⟩ := bind_eq_ok.1 h
    cases h
    exact .cons hb (forall₂_of_mapM hbs)

/-- The woven blocks are collected, and then come out one after another. -/
theorem weaveBlocks_eq (done : Emitted) (names : List Text) : (g.weaveBlocks o done names).1 =
    ((g.printed done names).mapM (g.weaveBlock o)).map
      (·.flatMap fun ls => if o.literal then quoteLines ls else ls.flatten) := by
  have hblock : g.blockText o = fun n => (g.weaveBlock o n).map fun ls =>
      if o.literal then quoteLines ls else ls.flatten := by
    funext n
    rw [blockText]
    cases g.weaveBlock o n <;> rfl
  rw [weaveBlocks, emit_eq_gather, hblock, gather_map_eq_mapM]

/-- Literals and plain text say the same, in every graph that is built of documents, be it of
their lines or of elements. Where the documents have no carriage returns and their last lines end,
and references to files are written with the default template, the names come out as literals unless
they come to an error as plain text, which is then the same; and the literals, one line for each
block that is printed, are read as the plain text. -/
theorem weaveBlocks_literal {docs : List (Text × Text)}
    (hdocs : ∀ d ∈ docs, '\r' ∉ d.2 ∧ (d.2 = [] ∨ d.2.getLast? = some '\n')) (hg : g.Built)
    (hcorpus : g.corpus = Corpus.ofTexts docs) (ho : o.template = defaultTemplate)
    (done : Emitted) (names : List Text) :
    (∀ e, (g.weaveBlocks { o with literal := true } done names).1 = .error e ↔
      (g.weaveBlocks { o with literal := false } done names).1 = .error e) ∧
    ∀ text, (g.weaveBlocks { o with literal := true } done names).1 = .ok text →
      ∃ bodies plain, (g.weaveBlocks { o with literal := false } done names).1 = .ok plain ∧
        Spells text bodies plain ∧
        List.Forall₂ (fun n body => ∃ ls, g.weaveBlock o n = .ok ls ∧
          unquote? body = some ls.flatten) (g.printed done names) bodies := by
  simp only [weaveBlocks_eq, funext (weaveBlock_literal _), if_true, Bool.false_eq_true, if_false]
  have hlined := lined_of_built hdocs hg hcorpus
  have hended : ∀ n, YieldsEnded (g.weaveBlock o n) :=
    fun n => yieldsEnded_expand hlined ho _ n fun _ hc => nomatch hc
  cases hwoven : (g.printed done names).mapM (g.weaveBlock o) with
  | error e => exact ⟨fun _ => Iff.rfl, fun _ htext => nomatch htext⟩
  | ok lss =>
    refine ⟨fun e => ⟨fun he => (nomatch he), fun he => (nomatch he)⟩, fun text htext => ?_⟩
    cases htext
    have hblocks : List.Forall₂ (fun ls n => (∀ l ∈ ls, Ended l) ∧ g.weaveBlock o n = .ok ls) lss
        (g.printed done names) :=
      (forall₂_of_mapM hwoven).flip.imp fun ls n hn => ⟨hended n ls hn, hn⟩
    have hlines := ((List.forall₂_and_left _ _).1 hblocks).1
    refine ⟨_, _, rfl, spells_flatMap hlines, List.forall₂_map_right_iff.2 ?_⟩
    exact hblocks.flip.imp fun n ls ⟨hls, hn⟩ => ⟨ls, hn, unquote?_flatMap_quotedLine hls⟩

/-- A block with an escape of its own, a block inside it and a reference to a file, in a block of
another kind. -/
def quip : List (Text × Text) :=
  [("a.org".toList, ["#+begin_quote\n", "#+name: w\n", "#+begin_src c\n", "say \x22\\n\x22\n",
    "  <<v>>\n", "<<include(\x22:cpp q\x22)>>\n", "#+end_src\n", "#+end_quote\n", "#+name: v\n",
    "#+begin_src c\n", ",* \\\n", "#+end_src\n"].flatMap String.toList)]

/-- The block is one for the lines alone. It comes to one literal, which is read as its three
lines. -/
theorem quip_spells : (∀ d ∈ quip, '\r' ∉ d.2 ∧ (d.2 = [] ∨ d.2.getLast? = some '\n')) ∧
    (ofCorpus (Corpus.ofTexts quip) true).map (·.isKnown "w".toList) = .ok false ∧
    ∃ g bodies, ofLines (Corpus.ofTexts quip) true = .ok g ∧ g.corpus = Corpus.ofTexts quip ∧
      (g.weaveBlocks { literal := true } [] ["w".toList]).1 =
        .ok ("\x22say \\\x22\\\\n\\\x22\\n  * \\\\\\n#include <q>\\n\x22\n").toList ∧
      Spells ("\x22say \\\x22\\\\n\\\x22\\n  * \\\\\\n#include <q>\\n\x22\n").toList bodies
        "say \x22\\n\x22\n  * \\\n#include <q>\n".toList ∧
      bodies.length = 1 := by
  have hdocs : ∀ d ∈ quip, '\r' ∉ d.2 ∧ (d.2 = [] ∨ d.2.getLast? = some '\n') := by
    decide +kernel
  have hwoven : (ofLines (Corpus.ofTexts quip) true).map (fun g =>
      ((g.weaveBlocks { literal := true } [] ["w".toList]).1,
        (g.weaveBlocks { literal := false } [] ["w".toList]).1,
        (g.printed [] ["w".toList]).length)) =
      .ok (.ok ("\x22say \\\x22\\\\n\\\x22\\n  * \\\\\\n#include <q>\\n\x22\n").toList,
        .ok "say \x22\\n\x22\n  * \\\n#include <q>\n".toList, 1) := by
    decide +kernel
  obtain ⟨g, hg, hvalues⟩ := map_eq_ok.1 hwoven
  obtain ⟨hliteral, hvalues⟩ := Prod.mk.inj hvalues
  obtain ⟨hplain, hprinted⟩ := Prod.mk.inj hvalues
  have hcorpus : g.corpus = Corpus.ofTexts quip := corpus_of_ofPlaces hg
  obtain ⟨bodies, plain, hok, hspells, hblocks⟩ :=
    (weaveBlocks_literal (o := {}) hdocs (.ofLines hg) hcorpus rfl [] ["w".toList]).2 _ hliteral
  cases hplain.symm.trans hok
  exact ⟨hdocs, by decide +kernel, g, bodies, hg, hcorpus, hliteral, hspells,
    hblocks.length_eq.symm.trans hprinted⟩

end Graph

end OrgWeave
