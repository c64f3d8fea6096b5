import Mathlib.Data.List.Forall2
import OrgWeave.Proofs.Graph.Spans

/-!
# Graphs of several documents

One scan reads the lines of all documents, and all of them write into the same tables. A document
is self-contained if it closes the source blocks that it opens and does not end with a name for a
block (`Org.SelfContained`). Such a document declares the same wherever it stands : its elements are
those that it has alone, further down (`Org.parse_slice_moved`), and so are the bodies that it binds
(`Corpus.Repeats`).

A scan that comes to the document at line `k` has seen nothing that reaches line `k`
(`Scan.EndsBefore`). What it writes from there on is what a scan of the document alone writes, `k`
lines further down (`Scan.Extends`), and where the scan of the document alone fails it fails as
well : names that are taken by earlier documents can only make more names clash. Document by document
this gives `Graph.ofCorpus_composes` : the graph of all documents is put together from their own
graphs, in order.
-/

namespace OrgWeave

open Org Text

/-- The body, `k` lines further down. -/
def BodySpan.moved (k : Nat) (sp : BodySpan) : BodySpan where
  opening := k + sp.opening
  stop := k + sp.stop
  expandsMarkers := sp.expandsMarkers
  opening_lt_stop := Nat.add_lt_add_left sp.opening_lt_stop k

theorem BodySpan.moved_injective (k : Nat) : Function.Injective (moved k) := by
  intro sp sp' h
  obtain ⟨hopening, hstop, hexpands⟩ := BodySpan.mk.inj h
  cases sp
  cases sp'
  simp only [BodySpan.mk.injEq]
  exact ⟨Nat.add_left_cancel hopening, Nat.add_left_cancel hstop, hexpands⟩

namespace Org

/-- The element, `k` lines further down. -/
def Element.moved (k : Int) (e : Element) : Element := { e with start := k + e.start }

/-- Lines that stand `k` lines further down are cut into the same elements. -/
theorem parse_moved {rules : List Rule} {start : Int} {ls : List Line} {es : List Element} (k : Int)
    (h : parse rules start ls = .ok es) :
    parse rules (k + start) ls = .ok (es.map (·.moved k)) := by
  induction start, ls using parse.induct rules generalizing es with
  | case1 start =>
    rw [parse] at h ⊢
    cases h
    rfl
  | case2 start l ls hnone =>
    rw [parse, hnone] at h
    cases h
  | case3 start l ls rule n hsome ih =>
    rw [parse, hsome] at h
    obtain ⟨rest, hrest, h⟩ := bind_eq_ok.1 h
    cases h
    have htail := ih hrest
    rw [← Int.add_assoc, ← Int.add_assoc] at htail
    rw [parse, hsome]
    exact bind_eq_ok.2 ⟨_, htail, rfl⟩

/-- The directives stand at the same places, `k` lines further down. -/
theorem directivePlaces_moved {es : List Element} (k : Nat) (h : ∀ e ∈ es, 0 ≤ e.start) :
    directivePlaces (es.map (·.moved k)) = (directivePlaces es).map (k + ·) := by
  unfold directivePlaces
  rw [List.filter_map, List.map_map, List.map_map]
  refine List.map_congr_left fun e he => ?_
  have := h e (List.mem_of_mem_filter he)
  simp only [Function.comp_apply, Element.moved]
  omega

end Org

/-! ## Lines of a larger corpus -/

namespace Corpus

variable {c d : Corpus} {k i o : Nat} {n : Text}

/-- The lines of `d` stand in `c` from line `k` on. -/
def HoldsFrom (c : Corpus) (k : Nat) (d : Corpus) : Prop :=
  ∃ before after, before.length = k ∧ c.lines = before ++ (d.lines ++ after)

namespace HoldsFrom

theorem exists_drop (h : c.HoldsFrom k d) (hi : i ≤ d.lines.length) :
    ∃ after, c.lines.drop (k + i) = d.lines.drop i ++ after := by
  obtain ⟨before, after, rfl, hlines⟩ := h
  refine ⟨after, ?_⟩
  rw [hlines, ← List.drop_drop, List.drop_left, List.drop_append_of_le_length hi]

theorem getElem? (h : c.HoldsFrom k d) (hi : i < d.lines.length) :
    c.lines[k + i]? = d.lines[i]? := by
  obtain ⟨before, after, rfl, hlines⟩ := h
  rw [hlines, List.getElem?_append_right (Nat.le_add_right _ _), Nat.add_sub_cancel_left,
    List.getElem?_append_left hi]

/-- A body that `d` closes is the same in `c`. -/
theorem bodyAt (h : c.HoldsFrom k d) (hclosed : (d.bodyAt o).stop < d.lines.length) :
    c.bodyAt (k + o) = (d.bodyAt o).moved k := by
  have hstop : (d.bodyAt o).stop = o + 1 + (d.lines.drop (o + 1)).findIdx closesSource := rfl
  have ho : o + 1 ≤ d.lines.length := by omega
  have hline : c.lineAt (k + o) = d.lineAt o := by rw [lineAt, lineAt, h.getElem? ho]
  obtain ⟨after, hdrop⟩ := h.exists_drop ho
  have hfind : (c.lines.drop (k + o + 1)).findIdx closesSource =
      (d.lines.drop (o + 1)).findIdx closesSource := by
    rw [Nat.add_assoc, hdrop, List.findIdx_append, if_pos]
    rw [List.length_drop]
    omega
  simp only [Corpus.bodyAt, Scan.spanAt, BodySpan.moved, hline, hfind, BodySpan.mk.injEq]
  exact ⟨trivial, by omega, trivial⟩

end HoldsFrom

/-- Line `k + i` of `c` declares what line `i` of `d` does. -/
structure Repeats (c : Corpus) (k : Nat) (d : Corpus) (i : Nat) : Prop where
  directive : c.directive? (k + i) = d.directive? i
  line : c.lineAt (k + i) = d.lineAt i
  opens : ∀ n, d.directive? i = some (.name n) → c.opens (k + i + 1) = d.opens (i + 1)
  body : ∀ o n, d.Binds [i] o n → c.bodyAt (k + o) = (d.bodyAt o).moved k

end Corpus

namespace Org

/-- A document that closes the source blocks that it opens, and does not end with a name for a
block. -/
structure SelfContained (doc : Text × Text) : Prop where
  closed : ∀ es, parseCorpus (Corpus.ofTexts [doc]) = .ok es → ∀ e ∈ es, e.opensOnly = false
  goesOn : ∀ es, parseCorpus (Corpus.ofTexts [doc]) = .ok es → ∀ i ∈ directivePlaces es,
    Directive.declaredName? ((Corpus.ofTexts [doc]).lineAt i) ≠ none →
      i + 1 < (Corpus.ofTexts [doc]).lines.length

variable {doc : Text × Text} {es : List Element} {c : Corpus} {k i o : Nat} {n : Text}

theorem lines_ofTexts_singleton (doc : Text × Text) :
    (Corpus.ofTexts [doc]).lines = splitLines doc.2 := by
  simp [Corpus.ofTexts]

theorem SelfContained.stop_lt (h : SelfContained doc)
    (hes : parseCorpus (Corpus.ofTexts [doc]) = .ok es)
    (hbinds : (Corpus.ofTexts [doc]).Binds (directivePlaces es) o n) :
    ((Corpus.ofTexts [doc]).bodyAt o).stop < (Corpus.ofTexts [doc]).lines.length := by
  obtain ⟨hopens, e, he, hstart⟩ := exists_element_of_binds hes hbinds
  obtain ⟨d, -, o', rest, hstands⟩ := exists_standsAt hes e he
  obtain rfl : o = o' := Int.ofNat_inj.1 (hstart.symm.trans hstands.start)
  rcases hstands.fits (g := Scan.empty.finish (Corpus.ofTexts [doc])) hopens rfl with
    honly | ⟨-, -, -, closing, -, -, hclosing, -⟩
  · rw [h.closed es hes e he] at honly
    cases honly
  · exact (List.getElem?_eq_some_iff.1 hclosing).1

/-- A document that is self-contained declares the same wherever it stands. -/
theorem SelfContained.repeats (h : SelfContained doc)
    (hes : parseCorpus (Corpus.ofTexts [doc]) = .ok es)
    (hc : c.HoldsFrom k (Corpus.ofTexts [doc])) (hi : i ∈ directivePlaces es) :
    c.Repeats k (Corpus.ofTexts [doc]) i := by
  have hlt := lt_length_of_mem_directivePlaces (tiles_of_parseCorpus hes) i hi
  refine ⟨?_, ?_, fun n hd => ?_, fun o n hbinds => ?_⟩
  · rw [Corpus.directive?, Corpus.directive?, hc.getElem? hlt]
  · rw [Corpus.lineAt, Corpus.lineAt, hc.getElem? hlt]
  · obtain ⟨l, hl, hline⟩ := Option.bind_eq_some_iff.1 hd
    have hdeclares : Directive.declaredName? ((Corpus.ofTexts [doc]).lineAt i) = some n := by
      rw [Corpus.lineAt, hl]
      exact Directive.ofLine?_eq_some_iff.1 hline
    have hnext := h.goesOn es hes i hi (by simp [hdeclares])
    rw [Corpus.opens, Corpus.opens, Nat.add_assoc, hc.getElem? hnext]
  · refine hc.bodyAt (h.stop_lt hes (n := n) ?_)
    rcases hbinds with ⟨j, hj, hn⟩ | ⟨ho, hs⟩
    · exact Or.inl ⟨j, List.mem_singleton.1 hj ▸ hi, hn⟩
    · exact Or.inr ⟨List.mem_singleton.1 ho ▸ hi, hs⟩

end Org

/-! ## One place in two corpora -/

namespace Corpus

variable {c d : Corpus} {k i : Nat} {n : Text}

/-- The body that line `i` binds to the name `n`. -/
def boundBy? (c : Corpus) (i : Nat) (n : Text) : Option BodySpan :=
  if c.name? i = some n then some (c.bodyAt (i + 1))
  else if c.Shares i n then some (c.bodyAt i)
  else none

namespace Repeats

theorem name? (h : c.Repeats k d i) : c.name? (k + i) = d.name? i := by
  rw [Corpus.name?, Corpus.name?, h.directive]
  split
  next n hd => rw [h.opens n hd]
  next => rfl

theorem shares_iff (h : c.Repeats k d i) : c.Shares (k + i) n ↔ d.Shares i n := by
  rw [Shares, Shares, h.directive, h.line]

theorem target? (h : c.Repeats k d i) : c.target? (k + i) = d.target? i := by
  rw [Corpus.target?, Corpus.target?, h.directive]

theorem record? (h : c.Repeats k d i) : c.record? n (k + i) = d.record? n i := by
  rw [Corpus.record?, Corpus.record?, h.directive]

theorem boundBy? (h : c.Repeats k d i) (n : Text) :
    c.boundBy? (k + i) n = (d.boundBy? i n).map (·.moved k) := by
  simp only [Corpus.boundBy?, h.name?, h.shares_iff]
  split
  next hn =>
    have hnamed : d.NamedAt [i] (i + 1) n :=
      ⟨i, List.mem_singleton_self i, rfl, name?_eq_some_iff.1 hn⟩
    exact congrArg some (h.body (i + 1) n (Or.inl hnamed))
  next =>
    split
    next hs => exact congrArg some (h.body i n (Or.inr ⟨List.mem_singleton_self i, hs⟩))
    next => rfl

end Repeats

end Corpus

namespace Scan

variable {c d : Corpus} {k i : Nat} {collects : Bool} {b s s' t t' : Scan} {n : Text}

theorem spans_bind_eq (s : Scan) (m : Text) (sp : BodySpan) (n : Text) : (s.bind m sp).spans n =
    s.spans n ++ if n = m then [sp].filter (· ∉ s.spans n) else [] := by
  rw [spans_bind]
  by_cases hn : n = m
  · subst hn
    by_cases hsp : sp ∈ s.spans n <;> simp [hsp]
  · simp [hn]

theorem spans_openBlock {l : Line} (n : Text) : (openBlock c s i l).spans n = s.spans n ++
    if (Header.ofLine l).params.first? Vocabulary.referenceKey = some n then
      [spanAt c i l].filter (· ∉ s.spans n) else [] := by
  cases ha : (Header.ofLine l).params.first? Vocabulary.referenceKey with
  | none => simp [openBlock, ha]
  | some a =>
    rw [spans, openBlock_blocks ha, ← spans, spans_bind_eq]
    simp only [Option.some.injEq, eq_comm]

namespace Step

/-- A body comes last among those of its name, unless it is one of them. -/
theorem spans (h : Step c collects s i s') (n : Text) :
    s'.spans n = s.spans n ++ (c.boundBy? i n).toList.filter (· ∉ s.spans n) := by
  cases h with
  | @name m hd hopens _ =>
    have hname : c.name? i = some m := Corpus.name?_eq_some_iff.2 ⟨hd, hopens⟩
    have hshares : ¬c.Shares i n := fun hs => by
      cases hd.symm.trans hs.1
    have hbound : c.boundBy? i n = if n = m then some (c.bodyAt (i + 1)) else none := by
      rw [Corpus.boundBy?, hname, if_neg hshares]
      simp only [Option.some.injEq, eq_comm]
    rw [hbound]
    refine (spans_bind_eq ..).trans ?_
    by_cases hn : n = m
    · rw [if_pos hn, if_pos hn]
      rfl
    · rw [if_neg hn, if_neg hn]
      rfl
  | opening hd =>
    have hname : c.name? i ≠ some n := fun hn => by
      cases hd.symm.trans (Corpus.name?_eq_some_iff.1 hn).1
    rw [spans_openBlock, Corpus.boundBy?, if_neg hname]
    by_cases hs : c.Shares i n
    · rw [if_pos hs, if_pos hs.2]
      rfl
    · rw [if_neg hs, if_neg fun ha => hs ⟨hd, ha⟩]
      rfl
  | _ => simp [Scan.spans, Corpus.boundBy?, Corpus.name?, Corpus.Shares, *]

/-- Only a name line declares a name, for the block behind it. -/
theorem declared (h : Step c collects s i s') :
    s'.declared = (c.name? i).toList.map (Prod.mk (i + 1)) ++ s.declared := by
  cases h with
  | @name m hd hopens _ =>
    rw [Corpus.name?_eq_some_iff.2 ⟨hd, hopens⟩]
    rfl
  | opening hd => simp [Corpus.name?, hd]
  | _ => simp [Corpus.name?, *]

end Step

/-! ## One document behind others -/

/-- Nothing that the tables hold reaches line `k` or the lines behind it. -/
structure EndsBefore (s : Scan) (k : Nat) : Prop where
  opening_lt : ∀ n, ∀ sp ∈ s.spans n, sp.opening < k
  undeclared : ∀ o, s.declared.lookup (k + o) = none

/-- The tables `s` hold what `b` holds and then, `k` lines further down, what `t` holds. -/
structure Extends (k : Nat) (b t s : Scan) : Prop where
  spans : ∀ n, s.spans n = b.spans n ++ (t.spans n).map (·.moved k)
  contributors : ∀ n, s.contributors n = b.contributors n ++ t.contributors n
  tangles : s.tangles = b.tangles ++ t.tangles
  declared : ∀ o, s.declared.lookup (k + o) = t.declared.lookup o
  has_block : ∀ n, t.blocks.has n = true → s.blocks.has n = true
  dependencies : ∀ n, (s.dependencies.get? n).toList =
    (b.dependencies.get? n).toList ++ (t.dependencies.get? n).toList

namespace Extends

theorem start (hb : b.EndsBefore k) : Extends k b .empty b where
  spans _ := (List.append_nil _).symm
  contributors _ := (List.append_nil _).symm
  tangles := (List.append_nil _).symm
  declared := hb.undeclared
  has_block _ h := nomatch h
  dependencies _ := (List.append_nil _).symm

theorem has_dependency (h : Extends k b t s) (hn : t.dependencies.has n = true) :
    s.dependencies.has n = true := by
  obtain ⟨r, hr⟩ := Option.isSome_iff_exists.1 hn
  have hrecords := h.dependencies n
  rw [hr] at hrecords
  cases hs : s.dependencies.get? n with
  | none => simp [hs] at hrecords
  | some _ => rw [Table.has, hs, Option.isSome_some]

/-- What a place is refused for alone it is refused for behind other documents. -/
theorem exists_step (h : Extends k b t s) (hi : c.Repeats k d i)
    (hs : Step c collects s (k + i) s') : ∃ t', Step d collects t i t' := by
  have habsent : ∀ {x y : Bool}, (x = true → y = true) → y = false → x = false := by decide
  cases hs with
  | silent hd => exact ⟨t, .silent (hi.directive ▸ hd)⟩
  | unused hd hopens =>
    rw [hi.directive] at hd
    exact ⟨t, .unused hd (hi.opens _ hd ▸ hopens)⟩
  | @name n hd hopens fresh =>
    rw [hi.directive] at hd
    exact ⟨_, .name hd (hi.opens n hd ▸ hopens) (fresh.imp_right (habsent (h.has_block n)))⟩
  | opening hd => exact ⟨_, .opening (hi.directive ▸ hd)⟩
  | @depends n params p hd fresh hp =>
    exact ⟨_, .depends (hi.directive ▸ hd) (habsent h.has_dependency fresh) hp⟩
  | passed hd hcollects => exact ⟨t, .passed (hi.directive ▸ hd) hcollects⟩
  | @tangle n destination hd hcollects fresh =>
    refine ⟨_, .tangle (hi.directive ▸ hd) hcollects (habsent (fun hn => ?_) fresh)⟩
    rw [Table.has_iff_mem_keys] at hn ⊢
    rw [h.tangles, Table.keys, List.map_append]
    exact List.mem_append_right _ hn

/-- Each place keeps the tables in line. -/
theorem step (h : Extends k b t s) (hb : b.EndsBefore k) (hi : c.Repeats k d i)
    (hs : Step c collects s (k + i) s') (ht : Step d collects t i t') : Extends k b t' s' where
  spans n := by
    have hmem : ∀ sp : BodySpan, sp.moved k ∈ s.spans n ↔ sp ∈ t.spans n := by
      intro sp
      rw [h.spans, List.mem_append, List.mem_map_of_injective (BodySpan.moved_injective k),
        or_iff_right]
      exact fun hbefore => Nat.not_lt.2 (Nat.le_add_right k _) (hb.opening_lt n _ hbefore)
    rw [hs.spans, ht.spans, hi.boundBy?, List.map_append, ← List.append_assoc, ← h.spans]
    cases d.boundBy? i n with
    | none => rfl
    | some sp => by_cases hsp : sp ∈ t.spans n <;> simp [hmem, hsp]
  contributors n := by
    rw [hs.contributors, ht.contributors, h.contributors, h.declared]
    simp only [hi.shares_iff, List.append_assoc]
  tangles := by rw [hs.tangles, ht.tangles, h.tangles, hi.target?, List.append_assoc]
  declared o := by
    rw [hs.declared, ht.declared, hi.name?]
    cases d.name? i with
    | none => exact h.declared o
    | some m =>
      have hsame : (k + o == k + i + 1) = (o == i + 1) := by
        rw [Bool.eq_iff_iff, beq_iff_eq, beq_iff_eq]
        omega
      simp only [Option.toList_some, List.map_singleton, List.singleton_append, List.lookup_cons,
        hsame, h.declared]
  has_block n := by
    rw [hs.has_block, ht.has_block, hi.shares_iff, ← Corpus.name?_eq_some_iff,
      ← Corpus.name?_eq_some_iff, hi.name?]
    exact Or.imp_left (h.has_block n)
  dependencies n := by
    rw [hs.dependencies, ht.dependencies, h.dependencies, hi.record?, List.append_assoc]

theorem run {places : List Nat} (h : Extends k b t s) (hb : b.EndsBefore k)
    (hplaces : ∀ i ∈ places, c.Repeats k d i)
    (hrun : Scan.run c collects s (places.map (k + ·)) = .ok s') :
    ∃ t', Scan.run d collects t places = .ok t' ∧ Extends k b t' s' := by
  induction places generalizing s t with
  | nil =>
    cases hrun
    exact ⟨t, rfl, h⟩
  | cons i places ih =>
    obtain ⟨hi, hrest⟩ := List.forall_mem_cons.1 hplaces
    obtain ⟨s₁, hs, hrun⟩ := bind_eq_ok.1 hrun
    have hs := step_of_ok hs
    obtain ⟨t₁, ht⟩ := h.exists_step hi hs
    obtain ⟨t', hrun', h'⟩ := ih (h.step hb hi hs ht) hrest hrun
    exact ⟨t', bind_eq_ok.2 ⟨t₁, step_eq_ok_iff.2 ht, hrun'⟩, h'⟩

/-- Nothing that the document declares reaches the lines behind it. -/
theorem endsBefore {places : List Nat} (h : Extends k b t s) (hb : b.EndsBefore k)
    (ht : Reads d places t) : s.EndsBefore (k + d.lines.length) where
  opening_lt n sp hsp := by
    rw [h.spans, List.mem_append] at hsp
    rcases hsp with hsp | hsp
    · exact Nat.lt_add_right _ (hb.opening_lt n sp hsp)
    · obtain ⟨sp', hsp', rfl⟩ := List.mem_map.1 hsp
      exact Nat.add_lt_add_left ((ht.mem_spans n sp').1 hsp').1.lt_length k
  undeclared o := by
    rw [Nat.add_assoc, h.declared]
    cases hlookup : t.declared.lookup (d.lines.length + o) with
    | none => rfl
    | some n =>
      have hbinds : d.Binds places (d.lines.length + o) n :=
        Or.inl ((ht.mem_declared _ n).1 (ht.lookup_eq_some_iff.1 hlookup))
      have := hbinds.lt_length
      omega

end Extends

end Scan

/-! ## All documents -/

namespace Graph

/-- The bodies, contributors and targets of the graph `g` are those of the graphs `parts`, one after
another, the bodies of each as many lines further down as its document starts at. -/
structure Composes (g : Graph) (documents : List DocumentRange) (parts : List Graph) : Prop where
  spans : ∀ n, g.spans n =
    (List.zipWith (fun d part => (part.spans n).map (·.moved d.start)) documents parts).flatten
  contributors : ∀ n, g.contributors n = parts.flatMap (·.contributors n)
  /-- The names that contributors are listed for. -/
  has_aggregate : ∀ n, g.aggregates.has n = true ↔ ∃ part ∈ parts, part.aggregates.has n = true
  tangles : g.tangles = parts.flatMap (·.tangles)

/-- The names with contributors are those of the table. -/
theorem has_aggregate_iff {docs : List (Text × Text)} {collects : Bool} {g : Graph}
    (h : ofCorpus (Corpus.ofTexts docs) collects = .ok g) (n : Text) :
    g.aggregates.has n = true ↔ g.contributors n ≠ [] := by
  obtain ⟨es, -, -, htable⟩ := tabulates_of_ofCorpus h
  rw [htable.has_aggregate, htable.contributors_eq]

end Graph

namespace Org

/-- A document is cut into the same elements wherever it stands. -/
theorem parse_slice_moved {c : Corpus} {k : Nat} {doc : Text × Text} {es : List Element}
    (hc : c.HoldsFrom k (Corpus.ofTexts [doc])) (hes : parseCorpus (Corpus.ofTexts [doc]) = .ok es) :
    parse Rule.order k (c.slice k (k + (splitLines doc.2).length)) = .ok (es.map (·.moved k)) := by
  obtain ⟨after, hdrop⟩ := hc.exists_drop (Nat.zero_le _)
  obtain ⟨part, rest, hpart, hrest, rfl⟩ := gather_cons_eq_ok.1 hes
  cases hrest
  rw [Nat.add_zero, List.drop_zero, lines_ofTexts_singleton] at hdrop
  have hslice : c.slice k (k + (splitLines doc.2).length) = splitLines doc.2 := by
    rw [Corpus.slice, hdrop, Nat.add_sub_cancel_left, List.take_left]
  have halone : (Corpus.ofTexts [doc]).slice 0 (0 + (splitLines doc.2).length) =
      splitLines doc.2 := by
    rw [Corpus.slice, lines_ofTexts_singleton, List.drop_zero, Nat.zero_add, Nat.sub_zero,
      List.take_length]
  have hpart : parse Rule.order 0 (splitLines doc.2) = .ok part := halone ▸ hpart
  rw [hslice, List.append_nil, ← Int.add_zero (k : Int)]
  exact parse_moved k hpart

end Org

namespace Scan

/-- The tables `s'` hold what `s` holds and then what the graphs `parts` hold, the bodies of each
as many lines further down as its document starts at. -/
structure Continues (documents : List DocumentRange) (parts : List Graph) (s s' : Scan) : Prop where
  spans : ∀ n, s'.spans n = s.spans n ++
    (List.zipWith (fun d part => (part.spans n).map (·.moved d.start)) documents parts).flatten
  contributors : ∀ n, s'.contributors n = s.contributors n ++ parts.flatMap (·.contributors n)
  tangles : s'.tangles = s.tangles ++ parts.flatMap (·.tangles)

namespace Continues

variable {documents : List DocumentRange} {parts : List Graph} {s s' t b : Scan}

theorem nil (documents : List DocumentRange) (s : Scan) : Continues documents [] s s where
  spans n := by rw [List.zipWith_nil_right, List.flatten_nil, List.append_nil]
  contributors _ := (List.append_nil _).symm
  tangles := (List.append_nil _).symm

/-- The tables of one document come in front of those of the others. -/
theorem cons {d : DocumentRange} {c : Corpus} (h : Extends d.start b t s)
    (hrest : Continues documents parts s s') :
    Continues (d :: documents) (t.finish c :: parts) b s' where
  spans n := by
    rw [hrest.spans, h.spans, List.append_assoc]
    rfl
  contributors n := by
    rw [hrest.contributors, h.contributors, List.append_assoc]
    rfl
  tangles := by
    rw [hrest.tangles, h.tangles, List.append_assoc]
    rfl

end Continues

/-- A scan of documents adds what each of them declares alone. -/
theorem run_documents {c : Corpus} {collects : Bool} (docs : List (Text × Text)) :
    ∀ (before : List Line) {es : List Element} {s s' : Scan},
      c.lines = before ++ docs.flatMap (fun d => splitLines d.2) →
      (∀ doc ∈ docs, SelfContained doc) → s.EndsBefore before.length →
      gather (fun d => parse Rule.order d.start (c.slice d.start d.stop))
        (Corpus.rangesFrom before.length docs) = .ok es →
      run c collects s (directivePlaces es) = .ok s' →
      ∃ parts, List.Forall₂ (fun doc part => Graph.ofCorpus (Corpus.ofTexts [doc]) collects =
          .ok part) docs parts ∧
        Continues (Corpus.rangesFrom before.length docs) parts s s' := by
  induction docs with
  | nil =>
    intro before es s s' _ _ _ hes hrun
    cases hes
    cases hrun
    exact ⟨[], .nil, .nil _ s⟩
  | cons doc docs ih =>
    intro before es s s' hlines hdocs hs hes hrun
    obtain ⟨hdoc, hdocs⟩ := List.forall_mem_cons.1 hdocs
    obtain ⟨head, tail, hhead, htail, rfl⟩ := gather_cons_eq_ok.1 hes
    have hc : c.HoldsFrom before.length (Corpus.ofTexts [doc]) :=
      ⟨before, docs.flatMap fun d => splitLines d.2, rfl, by
        rw [lines_ofTexts_singleton, hlines, List.flatMap_cons]⟩
    obtain ⟨alone, halone⟩ := exists_parseCorpus (Corpus.ofTexts [doc])
    have htiles := tiles_of_parseCorpus halone
    obtain rfl : head = alone.map (·.moved before.length) :=
      Except.ok.inj (hhead.symm.trans (parse_slice_moved hc halone))
    have hplaces : directivePlaces (alone.map (·.moved before.length) ++ tail) =
        (directivePlaces alone).map (before.length + ·) ++ directivePlaces tail := by
      rw [← directivePlaces_moved before.length htiles.le_start, directivePlaces,
        List.filter_append, List.map_append]
      rfl
    -- first the places of this document, then those of the others
    rw [hplaces, run_append] at hrun
    obtain ⟨s₁, hrun₁, hrun⟩ := bind_eq_ok.1 hrun
    obtain ⟨t, ht, hext⟩ := (Extends.start hs).run hs
      (fun i hi => hdoc.repeats halone hc hi) hrun₁
    have hreads := (Reads.empty (Corpus.ofTexts [doc])).run
      (by simpa using htiles.increasing_directivePlaces) ht
    rw [List.nil_append] at hreads
    have hends := hext.endsBefore hs hreads
    rw [lines_ofTexts_singleton, ← List.length_append] at hends
    obtain ⟨parts, hparts, hrest⟩ :=
      ih (before ++ splitLines doc.2) (by simp [hlines]) hdocs hends (by simpa using htail) hrun
    rw [List.length_append] at hrest
    refine ⟨t.finish (Corpus.ofTexts [doc]) :: parts, .cons ?_ hparts, .cons hext hrest⟩
    exact bind_eq_ok.2 ⟨alone, halone, bind_eq_ok.2 ⟨t, ht, rfl⟩⟩

end Scan

namespace Graph

/-- Self-contained documents that have a graph together have one each, and the graph of all is
composed of these. -/
theorem ofCorpus_composes {docs : List (Text × Text)} {collects : Bool} {g : Graph}
    (hdocs : ∀ doc ∈ docs, SelfContained doc)
    (h : ofCorpus (Corpus.ofTexts docs) collects = .ok g) :
    ∃ parts, List.Forall₂ (fun doc part => ofCorpus (Corpus.ofTexts [doc]) collects = .ok part)
        docs parts ∧ g.Composes (Corpus.ofTexts docs).documents parts := by
  have haggregate := has_aggregate_iff h
  obtain ⟨es, hes, h⟩ := bind_eq_ok.1 h
  obtain ⟨s, hrun, h⟩ := bind_eq_ok.1 h
  cases h
  have hempty : Scan.empty.EndsBefore 0 := ⟨fun _ _ hsp => (nomatch hsp), fun _ => rfl⟩
  obtain ⟨parts, hparts, hall⟩ := Scan.run_documents docs [] rfl hdocs hempty hes hrun
  have hcontributors : ∀ n, (s.finish (Corpus.ofTexts docs)).contributors n =
      parts.flatMap (·.contributors n) := hall.contributors
  refine ⟨parts, hparts, hall.spans, hcontributors, fun n => ?_, hall.tangles⟩
  have heach : ∀ part ∈ parts, (part.aggregates.has n = true ↔ part.contributors n ≠ []) :=
    ((List.forall₂_and_left _ _).1
      (hparts.flip.imp fun _ _ hpart => ⟨has_aggregate_iff hpart n, hpart⟩)).1
  have hsome : ∀ part, part ∈ parts ∧ part.aggregates.has n = true ↔
      part ∈ parts ∧ part.contributors n ≠ [] := fun part => and_congr_right (heach part)
  rw [haggregate, hcontributors, Ne, List.flatMap_eq_nil_iff]
  simp only [hsome, not_forall, exists_prop, ne_eq]

/-- Three documents that share a name. The first one does not end with a newline, the second one is
empty, and the third one starts with prose. -/
def chapters : List (Text × Text) :=
  [("a.org".toList, "#+name: a\n#+begin_src x :noweb-ref s\none\n#+end_src\n#+tangle:a out".toList),
    ("b.org".toList, []),
    ("c.org".toList, "two\n#+name: c\n#+begin_src x :noweb-ref s\n#+end_src\n#+tangle:c o\n".toList)]

/-- The second body of the shared name is the only one of its document, five lines further down. -/
theorem chapters_composes : ∃ g parts, ofCorpus (Corpus.ofTexts chapters) true = .ok g ∧
    List.Forall₂ (fun doc part => ofCorpus (Corpus.ofTexts [doc]) true = .ok part) chapters parts ∧
    g.Composes (Corpus.ofTexts chapters).documents parts ∧
    (Corpus.ofTexts chapters).documents.map (·.start) = [0, 5, 5] ∧
    (g.spans "s".toList).map (·.opening) = [1, 7] ∧
    g.contributors "s".toList = ["a".toList, "c".toList] ∧
    g.tangles = [("a".toList, "out".toList), ("c".toList, "o".toList)] := by
  have hcheck : ∀ doc ∈ chapters, (parseCorpus (Corpus.ofTexts [doc])).map (fun es => decide
      ((∀ e ∈ es, e.opensOnly = false) ∧ ∀ i ∈ directivePlaces es,
        Directive.declaredName? ((Corpus.ofTexts [doc]).lineAt i) ≠ none →
          i + 1 < (Corpus.ofTexts [doc]).lines.length)) = .ok true := by
    decide +kernel
  have hdocs : ∀ doc ∈ chapters, SelfContained doc := by
    intro doc hdoc
    obtain ⟨es, hes, hall⟩ := map_eq_ok.1 (hcheck doc hdoc)
    obtain ⟨hclosed, hgoesOn⟩ := of_decide_eq_true hall
    refine ⟨fun es' hes' => ?_, fun es' hes' => ?_⟩
    all_goals cases hes.symm.trans hes'
    · exact hclosed
    · exact hgoesOn
  have hgraph : (ofCorpus (Corpus.ofTexts chapters) true).map (fun g =>
      ((g.spans "s".toList).map (·.opening), g.contributors "s".toList, g.tangles)) =
      .ok ([1, 7], ["a".toList, "c".toList], [("a".toList, "out".toList), ("c".toList, "o".toList)]) := by
    decide +kernel
  have hstarts : (Corpus.ofTexts chapters).documents.map (·.start) = [0, 5, 5] := by decide +kernel
  obtain ⟨g, hg, hvalues⟩ := map_eq_ok.1 hgraph
  obtain ⟨hspans, hvalues⟩ := Prod.mk.inj hvalues
  obtain ⟨hcontributors, htangles⟩ := Prod.mk.inj hvalues
  obtain ⟨parts, hparts, hcomposes⟩ := ofCorpus_composes hdocs hg
  exact ⟨g, parts, hg, hparts, hcomposes, hstarts, hspans, hcontributors, htangles⟩

end Graph

end OrgWeave
