import OrgWeave.Proofs.Graph.Boundaries
import OrgWeave.Proofs.Graph.Names

/-!
# Positions in the corpus

The ranges of the documents stand side by side and can be empty (`DocumentRange.Tile`). A document
that holds a line therefore ends in front of all documents behind it, and those in front of it end
where it starts at the latest. So the starts of the documents are cut in two by the line : those up
to the holder are not behind it, and all others are, however many documents start at the same place.
Halving finds this cut (`Corpus.bisectRight_eq`), whatever is around it.

`Corpus.LeadsBack` says what this comes to for the corpus of some documents : it holds their lines
in order, and a position in it leads back to the document that holds it.
-/

namespace OrgWeave

open Text

/-! ## Lines of documents -/

/-- Each line of a text but the last one ends with a newline. -/
theorem Text.getLast?_of_mem_dropLast_splitLines :
    ∀ {t : Text}, ∀ l ∈ (splitLines t).dropLast, l.getLast? = some '\n'
  | [], _, h => nomatch h
  | c :: t, l, h => by
    have ih := getLast?_of_mem_dropLast_splitLines (t := t)
    rw [splitLines] at h
    split at h
    next hc =>
      cases hsplit : splitLines t with
      | nil =>
        rw [hsplit] at h
        cases h
      | cons m ls =>
        rw [hsplit, List.dropLast_cons_of_ne_nil (List.cons_ne_nil m ls), ← hsplit] at h
        rcases List.mem_cons.1 h with rfl | h
        · rw [hc, List.getLast?_singleton]
        · exact ih l h
    next =>
      split at h
      next => cases h
      next m ls hsplit =>
        rw [hsplit] at ih
        cases ls with
        | nil => cases h
        | cons m' ls =>
          rw [List.dropLast_cons_of_ne_nil (List.cons_ne_nil m' ls)] at h ih
          rcases List.mem_cons.1 h with rfl | h
          · -- the line goes on as `m`, which another line follows
            have hm := ih m List.mem_cons_self
            rw [List.getLast?_cons, hm, Option.getD_some]
          · exact ih l (List.mem_cons_of_mem m h)

/-! ## Ranges side by side -/

namespace DocumentRange

/-- The ranges lie one after another from `start` to `stop`. -/
def Tile : Nat → Nat → List DocumentRange → Prop
  | start, stop, [] => start = stop
  | start, stop, d :: ds => d.start = start ∧ Tile d.stop stop ds

namespace Tile

theorem le_start : ∀ {ds : List DocumentRange} {start stop : Nat}, Tile start stop ds →
    ∀ d ∈ ds, start ≤ d.start
  | d :: _, _, _, ⟨hstart, h⟩, d', hd' => by
    rcases List.mem_cons.1 hd' with rfl | hd'
    · exact Nat.le_of_eq hstart.symm
    · have := d.start_le_stop
      have := le_start h d' hd'
      omega

/-- Of two ranges the first one ends where the second one starts at the latest. -/
theorem pairwise : ∀ {ds : List DocumentRange} {start stop : Nat}, Tile start stop ds →
    ds.Pairwise fun d d' => d.stop ≤ d'.start
  | [], _, _, _ => List.Pairwise.nil
  | _ :: _, _, _, ⟨_, h⟩ => List.pairwise_cons.2 ⟨le_start h, pairwise h⟩

end Tile

end DocumentRange

namespace Corpus

variable {c : Corpus} {i : Nat}

theorem tile_rangesFrom : ∀ (docs : List (Text × Text)) (start : Nat),
    DocumentRange.Tile start (start + (docs.flatMap fun d => splitLines d.2).length)
      (rangesFrom start docs)
  | [], _ => rfl
  | doc :: docs, start => by
    refine ⟨rfl, ?_⟩
    rw [List.flatMap_cons, List.length_append, ← Nat.add_assoc]
    exact tile_rangesFrom docs _

/-- In the range of each document stand the lines of its text. -/
theorem forall₂_rangesFrom : ∀ (docs : List (Text × Text)) (before : List Line),
    c.lines = before ++ docs.flatMap (fun d => splitLines d.2) →
    List.Forall₂ (fun d doc => d.name = doc.1 ∧ c.slice d.start d.stop = splitLines doc.2)
      (rangesFrom before.length docs) docs
  | [], _, _ => List.Forall₂.nil
  | doc :: docs, before, hlines => by
    have hslice : c.slice before.length (before.length + (splitLines doc.2).length) =
        splitLines doc.2 := by
      simp [slice, hlines]
    have hrest := forall₂_rangesFrom docs (before ++ splitLines doc.2) (by simp [hlines])
    rw [List.length_append] at hrest
    exact List.Forall₂.cons ⟨rfl, hslice⟩ hrest

/-! ## Halving -/

/-- Halving finds where the starts up to an index end, if those behind it all come later. -/
theorem bisectBetween_eq {before after : List Nat} {low high : Nat}
    (hbefore : ∀ s ∈ before, s ≤ i) (hafter : ∀ s ∈ after, i < s)
    (hlow : low ≤ before.length) (hhigh : before.length ≤ high)
    (hend : high ≤ (before ++ after).length) :
    bisectBetween (before ++ after) i low high = before.length := by
  fun_induction bisectBetween (before ++ after) i low high with
  | case1 low high hlt middle hbehind ih =>
    -- the start in the middle lies behind the index, so it is not one of the first
    refine ih hlow ?_ (by omega)
    by_contra hin
    rw [List.getElem?_append_left (by omega), List.getElem?_eq_getElem (by omega),
      Option.any_some, decide_eq_true_eq] at hbehind
    exact Nat.not_lt.2 (hbefore _ (List.getElem_mem _)) hbehind
  | case2 low high hlt middle hup ih =>
    refine ih ?_ hhigh hend
    by_contra hout
    rw [List.getElem?_append_right (by omega), List.getElem?_eq_getElem (by grind),
      Option.any_some, decide_eq_true_eq] at hup
    exact hup (hafter _ (List.getElem_mem _))
  | case3 low high hle => omega

theorem bisectRight_eq {before after : List Nat} (hbefore : ∀ s ∈ before, s ≤ i)
    (hafter : ∀ s ∈ after, i < s) : bisectRight (before ++ after) i = before.length :=
  bisectBetween_eq hbefore hafter (Nat.zero_le _) (by simp) (Nat.le_refl _)

/-! ## Lines to documents -/

/-- The document that is found for a line is the one that holds it. -/
theorem documentAt?_eq_some {d : DocumentRange}
    (hpairwise : c.documents.Pairwise fun d d' => d.stop ≤ d'.start) (hmem : d ∈ c.documents)
    (hd : d.Holds i) : c.documentAt? i = some d := by
  obtain ⟨hstart, hstop⟩ := hd
  obtain ⟨before, after, hsplit⟩ := List.append_of_mem hmem
  rw [hsplit] at hpairwise
  obtain ⟨-, htail, hbefore⟩ := List.pairwise_append.1 hpairwise
  obtain ⟨hafter, -⟩ := List.pairwise_cons.1 htail
  have hfound : bisectRight (c.documents.map (·.start)) i = before.length + 1 := by
    have hcut : c.documents.map (·.start) =
        (before ++ [d]).map (·.start) ++ after.map (·.start) := by
      simp [hsplit]
    rw [hcut, bisectRight_eq]
    · simp
    · rw [List.forall_mem_map, List.forall_mem_append, List.forall_mem_singleton]
      refine ⟨fun d' hd' => ?_, hstart⟩
      have := d'.start_le_stop
      have := hbefore d' hd' d List.mem_cons_self
      omega
    · rw [List.forall_mem_map]
      exact fun d' hd' => Nat.lt_of_lt_of_le hstop (hafter d' hd')
  rw [documentAt?, hfound]
  simp [hsplit, hstop]

/-- At most one document holds a line. -/
theorem eq_of_holds (hpairwise : c.documents.Pairwise fun d d' => d.stop ≤ d'.start) {k k' : Nat}
    {d d' : DocumentRange} (hk : c.documents[k]? = some d) (hk' : c.documents[k']? = some d')
    (hd : d.Holds i) (hd' : d'.Holds i) : k' = k := by
  obtain ⟨hlt, rfl⟩ := List.getElem?_eq_some_iff.1 hk
  obtain ⟨hlt', rfl⟩ := List.getElem?_eq_some_iff.1 hk'
  have hordered := List.pairwise_iff_getElem.1 hpairwise
  obtain ⟨hstart, hstop⟩ := hd
  obtain ⟨hstart', hstop'⟩ := hd'
  rcases Nat.lt_trichotomy k k' with hkk' | hkk' | hkk'
  · have := hordered k k' hlt hlt' hkk'
    omega
  · exact hkk'.symm
  · have := hordered k' k hlt' hlt hkk'
    omega

/-- A line of a range, counted from the start of the corpus. -/
theorem getElem?_slice {d : DocumentRange} (hd : d.Holds i) :
    (c.slice d.start d.stop)[i - d.start]? = c.lines[i]? := by
  obtain ⟨hstart, hstop⟩ := hd
  rw [slice, List.getElem?_take, if_pos (by omega), List.getElem?_drop, Nat.add_sub_cancel' hstart]

/-! ## The corpus of documents -/

/-- The corpus holds the lines of the documents in order, and its positions lead back to them. -/
structure LeadsBack (c : Corpus) (docs : List (Text × Text)) : Prop where
  tile : DocumentRange.Tile 0 c.lines.length c.documents
  slices : List.Forall₂ (fun d doc => d.name = doc.1 ∧ c.slice d.start d.stop = splitLines doc.2)
    c.documents docs
  line : ∀ l ∈ c.lines, l ≠ [] ∧ IsLine l
  ended : ∀ d ∈ c.documents, ∀ l ∈ (c.slice d.start d.stop).dropLast, l.getLast? = some '\n'
  text : c.text = (docs.map Prod.snd).flatten
  /-- The line at a position is one of the lines of the only document that holds it. -/
  locate : ∀ i < c.lines.length, ∃ (k : Nat) (d : DocumentRange) (doc : Text × Text),
    c.documents[k]? = some d ∧ docs[k]? = some doc ∧ d.Holds i ∧
    (∀ (k' : Nat) (d' : DocumentRange), c.documents[k']? = some d' → d'.Holds i → k' = k) ∧
    c.locate i = .ok (doc.1, i - d.start + 1) ∧ (splitLines doc.2)[i - d.start]? = c.lines[i]?
  outside : ∀ index : Int, index < 0 ∨ c.lines.length ≤ index →
    c.locate index = .error (.outsideCorpus index)

/-- The range of a document has its name and its lines. -/
theorem exists_document {docs : List (Text × Text)} {k : Nat} {d : DocumentRange}
    (hslices : List.Forall₂
      (fun d doc => d.name = doc.1 ∧ c.slice d.start d.stop = splitLines doc.2) c.documents docs)
    (hk : c.documents[k]? = some d) :
    ∃ doc, docs[k]? = some doc ∧ d.name = doc.1 ∧ c.slice d.start d.stop = splitLines doc.2 := by
  obtain ⟨hlt, rfl⟩ := List.getElem?_eq_some_iff.1 hk
  obtain ⟨hlength, hget⟩ := List.forall₂_iff_get.1 hslices
  exact ⟨docs[k], List.getElem?_eq_getElem _, hget k hlt (hlength ▸ hlt)⟩

/-- The documents of a corpus can have any texts, empty ones among them, and the last lines of
these texts need not end with a newline. -/
theorem ofTexts_leadsBack (docs : List (Text × Text)) : (ofTexts docs).LeadsBack docs := by
  have htile : DocumentRange.Tile 0 (ofTexts docs).lines.length (ofTexts docs).documents := by
    simpa [ofTexts] using tile_rangesFrom docs 0
  have hslices : List.Forall₂ (fun d doc => d.name = doc.1 ∧
      (ofTexts docs).slice d.start d.stop = splitLines doc.2) (ofTexts docs).documents docs :=
    forall₂_rangesFrom docs [] rfl
  refine ⟨htile, hslices, fun l hl => ?_, fun d hd => ?_, text_ofTexts docs, fun i hi => ?_,
    fun index hindex => ?_⟩
  · obtain ⟨doc, -, hl⟩ := List.mem_flatMap.1 hl
    exact ⟨ne_nil_of_mem_splitLines doc.2 hl, isLine_of_mem_splitLines l hl⟩
  · obtain ⟨k, hk⟩ := List.mem_iff_getElem?.1 hd
    obtain ⟨doc, -, -, hslice⟩ := exists_document hslices hk
    rw [hslice]
    exact getLast?_of_mem_dropLast_splitLines
  · obtain ⟨d, hd, hholds⟩ : ∃ d ∈ (ofTexts docs).documents, d.Holds i :=
      exists_holds (Nat.zero_le i) (by simpa [ofTexts] using hi)
    obtain ⟨k, hk⟩ := List.mem_iff_getElem?.1 hd
    obtain ⟨doc, hdoc, hname, hslice⟩ := exists_document hslices hk
    refine ⟨k, d, doc, hk, hdoc, hholds, fun k' d' hk' hd' => ?_, ?_, ?_⟩
    · exact eq_of_holds htile.pairwise hk hk' hholds hd'
    · rw [Corpus.locate, if_pos (by omega), Int.toNat_natCast,
        documentAt?_eq_some htile.pairwise hd hholds, ← hname]
    · rw [← hslice, getElem?_slice hholds]
  · rw [Corpus.locate, if_neg (by omega)]

/-- Empty documents in front, in the middle and at the end share their starts with others. -/
example : ((List.range 3).map fun i =>
    (ofTexts [("a".toList, []), ("b".toList, "x\ny".toList), ("c".toList, []), ("d".toList, []),
      ("e".toList, "z".toList), ("f".toList, [])]).locate i) =
    [.ok ("b".toList, 1), .ok ("b".toList, 2), .ok ("e".toList, 1)] := by
  decide +kernel

end Corpus

end OrgWeave
