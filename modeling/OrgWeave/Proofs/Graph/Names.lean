import OrgWeave.Proofs.Run.Causes
import OrgWeave.Proofs.Text.Sorting
import OrgWeave.Proofs.Weave.Literals

/-!
# Names on one line

No name that is read off documents holds a newline, nor do the flags of a call. In a line of a
document a newline can only stand at the end (`Text.IsLine`), and this end is never part of what is
read off the line : a directive strips it or stops at white space before it, a marker needs its
closing signs behind the target, and what stands in a parameter string is a word.

So all names that a graph knows are on one line, and weaving does not lead out of such names
(`Graph.keeps_oneLine`).
-/

namespace OrgWeave

open Text

namespace Text

variable {l s t : Text}

/-- No newline stands in the text. -/
def OneLine (t : Text) : Prop := '\n' ∉ t

/-- No newline stands in the line but at its end. -/
def IsLine (l : Line) : Prop := OneLine l.dropLast

theorem OneLine.subset (h : OneLine t) (hs : s ⊆ t) : OneLine s := fun hmem => h (hs hmem)

theorem EndFree.oneLine (h : EndFree t) : OneLine t := h.newline_not_mem

theorem isLine_of_mem_splitLines : ∀ {t : Text}, ∀ l ∈ splitLines t, IsLine l
  | [], _, hl => nomatch hl
  | c :: t, l, hl => by
    have ih := isLine_of_mem_splitLines (t := t)
    have hsingle : IsLine [c] := List.not_mem_nil
    rw [splitLines] at hl
    split at hl
    next =>
      rcases List.mem_cons.1 hl with rfl | hl
      · exact hsingle
      · exact ih l hl
    next hc =>
      split at hl
      next => rwa [List.mem_singleton.1 hl]
      next m ls hcons =>
        rw [hcons] at ih
        obtain ⟨hm, hls⟩ := List.forall_mem_cons.1 ih
        rcases List.mem_cons.1 hl with rfl | hl
        · cases m with
          | nil => exact hsingle
          | cons d m => exact List.not_mem_cons_of_ne_of_not_mem (Ne.symm hc) hm
        · exact hls l hl

theorem IsLine.suffix (h : IsLine l) (hs : s <:+ l) : IsLine s := by
  obtain ⟨r, rfl⟩ := hs
  by_cases hnil : s = []
  · rw [hnil]
    exact List.not_mem_nil
  · rw [IsLine, List.dropLast_append_of_ne_nil hnil] at h
    exact h.subset (List.subset_append_right r _)

/-- What stands behind a part of a line cannot be but at its end. -/
theorem IsLine.of_append_cons {c : Char} (h : IsLine (s ++ c :: t)) : OneLine s := by
  rw [IsLine, List.dropLast_append_of_ne_nil (List.cons_ne_nil c t)] at h
  exact h.subset (List.subset_append_left s _)

theorem dropRightWhile_subset (p : Char → Bool) (t : Text) : dropRightWhile p t ⊆ t := by
  obtain ⟨s, hs, -⟩ := exists_append_dropRightWhile p t
  intro c hc
  rw [hs]
  exact List.mem_append_left s hc

/-- A newline at the end is stripped. -/
theorem IsLine.strip (h : IsLine l) : OneLine (strip l) := by
  have hleft : IsLine (stripLeft l) := h.suffix (List.dropWhile_suffix _)
  unfold Text.strip stripRight
  rcases List.eq_nil_or_concat (stripLeft l) with hnil | ⟨t, c, heq⟩
  · rw [hnil]
    exact List.not_mem_nil
  · rw [heq, List.concat_eq_append] at hleft ⊢
    have ht : OneLine t := hleft.of_append_cons
    by_cases hc : isSpace c = true
    · rw [dropRightWhile_append (by simpa using hc)]
      exact ht.subset (dropRightWhile_subset _ _)
    · have hline : OneLine (t ++ [c]) := by
        simp only [OneLine, List.mem_append, List.mem_singleton, not_or]
        refine ⟨ht, ?_⟩
        rintro rfl
        exact hc rfl
      exact hline.subset (dropRightWhile_subset _ _)

theorem oneLine_takeWhile (t : Text) : OneLine (t.takeWhile (!isSpace ·)) := by
  intro hmem
  have hspace := List.mem_takeWhile_imp hmem
  cases hspace

theorem suffix_of_after? {mark rest : Text} (h : after? mark t = some rest) : rest <:+ t :=
  ⟨mark, (after?_eq_some_iff.1 h).symm⟩

theorem suffix_of_afterKeyword? : ∀ {ks t rest : Text}, Text.afterKeyword? ks t = some rest →
    rest <:+ t
  | [], _, _, h => by
    cases h
    exact List.suffix_refl _
  | _ :: _, _, _, h => by
    obtain ⟨c, cs, rfl, -, h⟩ := afterKeyword?_cons_eq_some.1 h
    exact (suffix_of_afterKeyword? h).trans (List.suffix_cons c cs)

end Text

/-! ## Directives -/

theorem Org.suffix_of_afterKeyword? {keyword rest : Text} {l : Line}
    (h : Org.afterKeyword? keyword l = some rest) : rest <:+ l := by
  obtain ⟨s, hs, h⟩ := Option.bind_eq_some_iff.1 h
  exact ((Text.suffix_of_afterKeyword? h).trans (suffix_of_after? hs)).trans
    (List.dropWhile_suffix _)

namespace Directive

variable {l : Line} {d : Directive} {t n rest : Text}

/-- The texts that a directive holds. -/
def texts : Directive → List Text
  | .name n => [n]
  | .opening => []
  | .depends n params => [n, params]
  | .tangle n destination => [n, destination]

theorem subject?_mem_texts (h : d.subject? = some n) : n ∈ d.texts := by
  cases d <;> cases h <;> exact List.mem_cons_self

theorem oneLine_of_namedRest? (ht : IsLine t) (h : namedRest? t = some (n, rest)) :
    OneLine n ∧ OneLine rest := by
  unfold namedRest? at h
  split at h
  next c cs d rest hname hrest =>
    cases h
    have hsuffix : rest <:+ t :=
      (List.suffix_cons d rest).trans (hrest ▸ List.dropWhile_suffix _)
    exact ⟨hname ▸ oneLine_takeWhile t, (ht.suffix hsuffix).strip⟩
  next => cases h

/-- The texts that are read off a line. -/
theorem oneLine_texts (hl : IsLine l) (h : ofLine? l = some d) : ∀ t ∈ d.texts, OneLine t := by
  have hnamed : ∀ {keyword n rest : Text},
      (Org.afterKeyword? keyword l).bind namedRest? = some (n, rest) →
        ∀ t ∈ [n, rest], OneLine t := by
    intro keyword n rest hbind
    obtain ⟨s, hs, hbind⟩ := Option.bind_eq_some_iff.1 hbind
    simpa using oneLine_of_namedRest? (hl.suffix (Org.suffix_of_afterKeyword? hs)) hbind
  unfold ofLine? at h
  split at h
  next n hname =>
    cases h
    obtain ⟨hname, -⟩ := Option.filter_eq_some_iff.1 hname
    obtain ⟨s, hs, rfl⟩ := Option.map_eq_some_iff.1 hname
    exact List.forall_mem_singleton.2 (hl.suffix (Org.suffix_of_afterKeyword? hs)).strip
  next =>
    split at h
    · cases h
      exact fun _ ht => nomatch ht
    · split at h
      next hdependency =>
        cases h
        exact hnamed hdependency
      next htangle =>
        cases h
        exact hnamed htangle
      next => cases h

end Directive

/-! ## Markers -/

namespace Marker

variable {l : Line} {m : Marker}

theorem oneLine_target (hl : IsLine l) (h : ofLine? l = some m) : OneLine m.target := by
  unfold ofLine? at h
  split at h
  next => cases h
  next before rest hfirst =>
    split at h
    next c cs after hlast =>
      cases h
      have hrest : rest = (c :: cs) ++ '>' :: '>' :: after := by
        simpa using eq_of_splitLast? hlast
      have hsuffix : rest <:+ l := ⟨before ++ "<<".toList, (eq_of_splitFirst? hfirst).symm⟩
      exact IsLine.of_append_cons (hrest ▸ hl.suffix hsuffix)
    next => cases h

theorem flags?_subset {selfName target flags : Text} (h : flags? selfName target = some flags) :
    flags ⊆ target := by
  unfold flags? at h
  split at h
  next =>
    obtain ⟨rest, hrest, h⟩ := Option.bind_eq_some_iff.1 h
    unfold beforeEnd? at h
    split at h
    next =>
      cases h
      have hsuffix := (suffix_of_after? hrest).trans (List.dropWhile_suffix _)
      exact fun c hc => hsuffix.subset (List.take_subset _ _ hc)
    next => cases h
  next => cases h

/-- The name and the flags that the role of a line gives. -/
def Role.target? : Role → Option Text
  | .text => none
  | .reference _ n => some n
  | .request _ flags => some flags

theorem oneLine_target_role (hl : IsLine l) {selfName target : Text} {expands : Bool}
    (h : (role selfName expands l).target? = some target) : OneLine target := by
  rcases role_cases selfName expands l with hrole | ⟨m, hm, hrole | ⟨flags, hflags, hrole⟩⟩ <;>
    rw [hrole] at h <;> cases h
  · exact oneLine_target hl hm
  · exact (oneLine_target hl hm).subset (flags?_subset hflags)

end Marker

/-! ## Graphs -/

namespace Corpus

variable {docs : List (Text × Text)} {c : Corpus} {i o : Nat} {n : Text}

theorem isLine_of_mem_lines : ∀ l ∈ (ofTexts docs).lines, IsLine l := by
  intro l hl
  obtain ⟨d, -, hl⟩ := List.mem_flatMap.1 hl
  exact isLine_of_mem_splitLines l hl

theorem oneLine_texts {d : Directive} (h : (ofTexts docs).directive? i = some d) :
    ∀ t ∈ d.texts, OneLine t := by
  obtain ⟨l, hl, hd⟩ := Option.bind_eq_some_iff.1 h
  exact Directive.oneLine_texts (isLine_of_mem_lines l (List.mem_of_getElem? hl)) hd

/-- A name that a block shares is a word. -/
theorem Shares.oneLine (h : c.Shares o n) : OneLine n := by
  have hvalue : n ∈ (Org.Header.ofLine (c.lineAt o)).params.values Vocabulary.referenceKey :=
    List.mem_of_mem_head? h.2
  unfold Org.Header.ofLine at hvalue
  dsimp only at hvalue
  split at hvalue
  next first others language _ _ _ =>
    cases hbody : Org.afterSpacedColon? first others with
    | none =>
      rw [hbody] at hvalue
      cases hvalue
    | some body =>
      rw [hbody] at hvalue
      exact (Params.endFree_of_mem_values_ofSegments hvalue).oneLine
  next => cases hvalue

theorem Names.oneLine (h : (ofTexts docs).Names i n) : OneLine n :=
  oneLine_texts h.1 n List.mem_cons_self

theorem oneLine_of_ownRecords {places : List Nat}
    (h : (ofTexts docs).ownRecords places n ≠ []) : OneLine n := by
  obtain ⟨r, hr⟩ := List.exists_mem_of_ne_nil _ h
  obtain ⟨i, -, hi⟩ := List.mem_filterMap.1 hr
  unfold record? at hi
  split at hi
  next hd =>
    split at hi
    next heq => exact heq ▸ oneLine_texts hd _ List.mem_cons_self
    next => cases hi
  next => cases hi

theorem oneLine_of_contributorsOf {places : List Nat} (h : c.contributorsOf places n ≠ []) :
    OneLine n := by
  obtain ⟨m, hm⟩ := List.exists_mem_of_ne_nil _ h
  obtain ⟨o, ho, -⟩ := List.mem_filterMap.1 (List.mem_of_mem_filter hm)
  exact Shares.oneLine (of_decide_eq_true (List.mem_filter.1 ho).2)

end Corpus

namespace Graph

variable {docs : List (Text × Text)} {collects : Bool} {g : Graph}
  (h : ofCorpus (Corpus.ofTexts docs) collects = .ok g)

include h

theorem oneLine_of_mem_knownNames : ∀ n ∈ g.knownNames, OneLine n := by
  obtain ⟨es, -, -, htable⟩ := tabulates_of_ofCorpus h
  intro n hn
  rw [knownNames, mem_sorted, List.mem_append, List.mem_append,
    ← Table.has_iff_mem_keys, ← Table.has_iff_mem_keys, ← Table.has_iff_mem_keys,
    htable.has_block, htable.has_dependency, htable.has_aggregate] at hn
  rcases hn with (⟨o, ⟨i, -, -, hnames⟩ | ⟨-, hshares⟩⟩ | hown | hcontributors) | hcontributors
  · exact hnames.oneLine
  · exact hshares.oneLine
  · exact Corpus.oneLine_of_ownRecords hown
  · exact Corpus.oneLine_of_contributorsOf hcontributors
  · exact Corpus.oneLine_of_contributorsOf hcontributors

theorem oneLine_of_mem_tangles : ∀ row ∈ g.tangles, OneLine row.1 := by
  obtain ⟨es, -, -, htable⟩ := tabulates_of_ofCorpus h
  intro row hrow
  rw [htable.tangles_eq] at hrow
  split at hrow
  next =>
    obtain ⟨i, -, hi⟩ := List.mem_filterMap.1 hrow
    unfold Corpus.target? at hi
    split at hi
    next hd =>
      cases hi
      exact Corpus.oneLine_texts hd _ List.mem_cons_self
    next => cases hi
  next => cases hrow

/-- Names and calls on one line lead to nothing else. -/
theorem keeps_oneLine (selfName : Text) : g.Keeps selfName OneLine OneLine where
  nested _ _ hm := (endFree_of_mem_record (.ofCorpus h) (List.mem_append_right _ hm)).oneLine
  reference l hl _ _ _ hrole := by
    rw [corpus_of_ofCorpus h] at hl
    exact Marker.oneLine_target_role (Corpus.isLine_of_mem_lines l hl) (congrArg _ hrole)
  request l hl _ _ _ hrole := by
    rw [corpus_of_ofCorpus h] at hl
    exact Marker.oneLine_target_role (Corpus.isLine_of_mem_lines l hl) (congrArg _ hrole)
  asked _ hp _ hn := (Params.endFree_of_mem_values hp hn).oneLine

end Graph

end OrgWeave
