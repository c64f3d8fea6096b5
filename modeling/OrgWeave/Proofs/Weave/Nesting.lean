import OrgWeave.Graph.Scan
import OrgWeave.Weave.Expansion
import Mathlib.Data.List.Basic

/-!
# How deep markers nest

`Graph.Chain self k n m` says that `k` markers lead from the block `n` to the block `m`, each of
them in a body of the block that the one before it names. Only markers in bodies that expand
them count, and calls of the self name are no such markers.

Expansion follows the chains : it succeeds exactly if all of them end at known names and none
is longer than there are levels (`exists_expand_iff`), and what it fails with names the end of
a chain (`of_expand_eq_error`). As a circle of markers has chains of every length, a block that
leads into one cannot be woven, however high the ceiling (`weaveBlock_ends_iff`).
-/

namespace OrgWeave.Graph

/-! ## Chains of markers -/

/-- A body of `n` holds a marker with the name `m`. -/
def Marks (g : Graph) (self n m : Text) : Prop :=
  ∃ span ∈ g.spans n, ∃ l ∈ g.bodyLines span, ∃ indent,
    Marker.role self span.expandsMarkers l = .reference indent m

/-- A body of `n` holds a call of the self name. -/
def Calls (g : Graph) (self n : Text) : Prop :=
  ∃ span ∈ g.spans n, ∃ l ∈ g.bodyLines span, ∃ indent flags,
    Marker.role self span.expandsMarkers l = .request indent flags

/-- A chain of `k` markers leads from one name to another. -/
inductive Chain (g : Graph) (self : Text) : Nat → Text → Text → Prop
  | here (n : Text) : Chain g self 0 n n
  | cons {k : Nat} {n m p : Text} (marks : g.Marks self n m) (rest : Chain g self k m p) :
      Chain g self (k + 1) n p

variable {g : Graph} {self : Text} {k j : Nat} {n m p : Text}

namespace Chain

theorem append (h : g.Chain self j n m) (h' : g.Chain self k m p) : g.Chain self (j + k) n p := by
  induction h with
  | here n => rwa [Nat.zero_add]
  | @cons j n q m marks _ ih =>
    rw [Nat.add_right_comm]
    exact .cons marks (ih h')

/-- What holds of all chains from a name holds of its own end and of all that its markers
lead to. -/
theorem forall_iff {q : Nat → Text → Prop} : (∀ k m, g.Chain self k n m → q k m) ↔
    q 0 n ∧ ∀ p, g.Marks self n p → ∀ k m, g.Chain self k p m → q (k + 1) m := by
  constructor
  · intro h
    exact ⟨h 0 n (.here n), fun p hp k m hchain => h (k + 1) m (.cons hp hchain)⟩
  · rintro ⟨hhere, hcons⟩ k m (_ | ⟨marks, rest⟩)
    · exact hhere
    · exact hcons _ marks _ _ rest

/-- Going round in a circle takes as many markers as one likes. -/
theorem exists_longer (h : g.Chain self j n m) (hcircle : g.Chain self (k + 1) m m) (limit : Nat) :
    ∃ i, limit < i ∧ g.Chain self i n m := by
  induction limit with
  | zero => exact ⟨j + (k + 1), by omega, h.append hcircle⟩
  | succ limit ih =>
    obtain ⟨i, hlt, hchain⟩ := ih
    exact ⟨i + (k + 1), by omega, hchain.append hcircle⟩

end Chain

/-! ## Expansion along the chains -/

variable {o : WeaveOptions} {levels : Nat} {lead : Text}

theorem expand_succ_of_known (h : g.isKnown n = true) : g.expand o (levels + 1) lead n =
    gather (g.expandBody o (g.expand o levels) levels lead) (g.spans n) := by
  rw [expand, require, if_pos h]
  rfl

/-- A name that is not known is refused on every level. -/
theorem expand_of_unknown (h : g.isKnown n = false) :
    g.expand o levels lead n = .error (.unknownBlock n g.knownNames) := by
  cases levels <;> simp [expand, require, h, bind, Except.bind]

theorem expand_zero_of_known (h : g.isKnown n = true) :
    g.expand o 0 lead n = .error (tooDeep o n) := by
  rw [expand, require, if_pos h]
  rfl

/-- A block without calls can be expanded on one more level if it is known and all that its
markers name can be expanded, under whatever indentation. -/
theorem exists_expand_succ_iff (hcalls : ¬g.Calls o.selfName n) :
    (∃ ls, g.expand o (levels + 1) lead n = .ok ls) ↔
      g.isKnown n = true ∧ ∀ span ∈ g.spans n, ∀ l ∈ g.bodyLines span, ∀ indent m,
        Marker.role o.selfName span.expandsMarkers l = .reference indent m →
          ∃ ls, g.expand o levels (lead ++ indent) m = .ok ls := by
  cases hknown : g.isKnown n with
  | false => simp [expand_of_unknown hknown]
  | true =>
    rw [expand_succ_of_known hknown, exists_gather_iff]
    refine (iff_of_eq (true_and _)).symm.trans (and_congr (by simp) ?_)
    refine forall₂_congr fun span hspan => ?_
    rw [expandBody, exists_gather_iff]
    refine forall₂_congr fun l hl => ?_
    cases hrole : Marker.role o.selfName span.expandsMarkers l with
    | text => simp [expandLine, hrole]
    | reference indent m => simp [expandLine, hrole]
    | request indent flags => exact absurd ⟨span, hspan, l, hl, indent, flags, hrole⟩ hcalls

/-- Expansion succeeds exactly if all chains end at known names before the levels do. -/
theorem exists_expand_iff (hcalls : ∀ k m, g.Chain o.selfName k n m → ¬g.Calls o.selfName m) :
    (∃ ls, g.expand o levels lead n = .ok ls) ↔
      ∀ k m, g.Chain o.selfName k n m → g.isKnown m = true ∧ k < levels := by
  induction levels generalizing lead n with
  | zero =>
    refine iff_of_false ?_ fun h => Nat.not_lt_zero 0 (h 0 n (.here n)).2
    rintro ⟨ls, hls⟩
    cases hknown : g.isKnown n with
    | false => simp [expand_of_unknown hknown] at hls
    | true => simp [expand_zero_of_known hknown] at hls
  | succ levels ih =>
    obtain ⟨hhere, hnested⟩ := Chain.forall_iff.1 hcalls
    have hnext : ∀ p, g.Marks o.selfName n p → ∀ lead, (∃ ls, g.expand o levels lead p = .ok ls) ↔
        ∀ k m, g.Chain o.selfName k p m → g.isKnown m = true ∧ k + 1 < levels + 1 := by
      intro p hp lead
      simpa only [Nat.add_lt_add_iff_right] using ih (hnested p hp)
    rw [exists_expand_succ_iff hhere, Chain.forall_iff]
    refine and_congr (by simp) ⟨?_, ?_⟩
    · rintro h p ⟨span, hspan, l, hl, indent, hrole⟩
      exact (hnext p ⟨span, hspan, l, hl, indent, hrole⟩ _).1 (h span hspan l hl indent p hrole)
    · intro h span hspan l hl indent m hrole
      have hm : g.Marks o.selfName n m := ⟨span, hspan, l, hl, indent, hrole⟩
      exact (hnext m hm _).2 (h m hm)

/-- A known block without calls fails as the expansion of some marker in it does. -/
theorem exists_marks_of_expand_eq_error {e : Error} (hcalls : ¬g.Calls o.selfName n)
    (hknown : g.isKnown n = true) (h : g.expand o (levels + 1) lead n = .error e) :
    ∃ m, g.Marks o.selfName n m ∧ ∃ lead, g.expand o levels lead m = .error e := by
  rw [expand_succ_of_known hknown] at h
  obtain ⟨span, hspan, h⟩ := exists_of_gather_eq_error h
  obtain ⟨l, hl, h⟩ := exists_of_gather_eq_error h
  cases hrole : Marker.role o.selfName span.expandsMarkers l with
  | text => simp [expandLine, hrole] at h
  | reference indent m =>
    rw [expandLine, hrole] at h
    exact ⟨m, ⟨span, hspan, l, hl, indent, hrole⟩, _, h⟩
  | request indent flags => exact absurd ⟨span, hspan, l, hl, indent, flags, hrole⟩ hcalls

/-- What expansion fails with : the name at the end of a chain is not known, or no level is left
for it. -/
theorem of_expand_eq_error {e : Error}
    (hcalls : ∀ k m, g.Chain o.selfName k n m → ¬g.Calls o.selfName m)
    (h : g.expand o levels lead n = .error e) :
    (∃ k m, g.Chain o.selfName k n m ∧ g.isKnown m = false ∧ e = .unknownBlock m g.knownNames) ∨
      ∃ m, g.Chain o.selfName levels n m ∧ e = tooDeep o m := by
  induction levels generalizing lead n with
  | zero =>
    cases hknown : g.isKnown n with
    | false =>
      rw [expand_of_unknown hknown] at h
      cases h
      exact Or.inl ⟨0, n, .here n, hknown, rfl⟩
    | true =>
      rw [expand_zero_of_known hknown] at h
      cases h
      exact Or.inr ⟨n, .here n, rfl⟩
  | succ levels ih =>
    obtain ⟨hhere, hnested⟩ := Chain.forall_iff.1 hcalls
    cases hknown : g.isKnown n with
    | false =>
      rw [expand_of_unknown hknown] at h
      cases h
      exact Or.inl ⟨0, n, .here n, hknown, rfl⟩
    | true =>
      obtain ⟨p, hp, lead, h⟩ := exists_marks_of_expand_eq_error hhere hknown h
      rcases ih (hnested p hp) h with ⟨k, m, hchain, hm⟩ | ⟨m, hchain, he⟩
      · exact Or.inl ⟨k + 1, m, .cons hp hchain, hm⟩
      · exact Or.inr ⟨m, .cons hp hchain, he⟩

/-! ## Blocks at the outermost level -/

/-- Weaving a block that does not lead to calls of the self name succeeds exactly if all names
that its markers lead to are known and no chain of markers is longer than the ceiling. It fails
with a name of a chain that is not known, or with one that takes a chain just above the ceiling.
So a block that leads into a circle of markers fails under every ceiling. -/
theorem weaveBlock_ends_iff {g : Graph} {o : WeaveOptions} {n : Text}
    (hcalls : ∀ k m, g.Chain o.selfName k n m → ¬g.Calls o.selfName m) :
    ((∃ ls, g.weaveBlock o n = .ok ls) ↔
      (∀ k m, g.Chain o.selfName k n m → g.isKnown m = true) ∧
        ∀ k m, g.Chain o.selfName k n m → k ≤ o.maxDepth) ∧
    (∀ e, g.weaveBlock o n = .error e →
      (∃ k m, g.Chain o.selfName k n m ∧ g.isKnown m = false ∧
        e = .unknownBlock m g.knownNames) ∨
      ∃ m, g.Chain o.selfName (o.maxDepth + 1) n m ∧
        e = .depthExceeded .weaving o.maxDepth m) ∧
    ∀ j k m, g.Chain o.selfName j n m → g.Chain o.selfName (k + 1) m m →
      ∃ e, g.weaveBlock o n = .error e := by
  have hends : (∃ ls, g.weaveBlock o n = .ok ls) ↔
      (∀ k m, g.Chain o.selfName k n m → g.isKnown m = true) ∧
        ∀ k m, g.Chain o.selfName k n m → k ≤ o.maxDepth := by
    rw [weaveBlock, o.levelsAt_zero, exists_expand_iff hcalls]
    simp only [Nat.lt_succ_iff, forall_and]
  refine ⟨hends, fun e he => ?_, fun j k m hj hcircle => ?_⟩
  · rw [weaveBlock, o.levelsAt_zero] at he
    exact of_expand_eq_error hcalls he
  · cases hout : g.weaveBlock o n with
    | error e => exact ⟨e, rfl⟩
    | ok ls =>
      obtain ⟨i, hlt, hchain⟩ := hj.exists_longer hcircle o.maxDepth
      have := (hends.1 ⟨ls, hout⟩).2 i m hchain
      omega

/-- A ladder of two blocks, and a block that leads into a circle. -/
def ladder : List (Text × Text) :=
  [("d.org".toList, ["#+name: top\n", "#+begin_src x\n", "  <<step>>\n", "up\n", "#+end_src\n",
    "#+name: step\n", "#+begin_src x :noweb no\n", "<<gone>>\n", "<<ring>>\n", "#+end_src\n",
    "#+name: door\n", "#+begin_src x\n", "<<ring>>\n", "#+end_src\n",
    "#+name: ring\n", "#+begin_src x\n", "no\n", "<<ring>>\n", "#+end_src\n"].flatMap
      String.toList)]

/-- The graph of `ladder`. -/
def ladderGraph : Graph where
  corpus := Corpus.ofTexts ladder
  blocks :=
    [("top".toList, [⟨1, 4, true, by decide⟩]), ("step".toList, [⟨6, 9, false, by decide⟩]),
      ("door".toList, [⟨11, 13, true, by decide⟩]), ("ring".toList, [⟨15, 18, true, by decide⟩])]
  dependencies := []
  aggregates := []
  tangles := []

/-- The ladder is woven under a ceiling of one, and no chain of it is longer; the block that
leads into the circle is not woven under the highest ceiling. -/
theorem ladder_ends :
    ofCorpus (Corpus.ofTexts ladder) true = .ok ladderGraph ∧
      (∀ n, ¬ladderGraph.Calls Vocabulary.selfName n) ∧
      ladderGraph.weaveBlock { maxDepth := 1 } "top".toList =
        .ok ["  <<gone>>\n".toList, "  <<ring>>\n".toList, "up\n".toList] ∧
      (∀ k m, ladderGraph.Chain Vocabulary.selfName k "top".toList m → k ≤ 1) ∧
      ∃ e, ladderGraph.weaveBlock { maxDepth := 100 } "door".toList = .error e := by
  have hroles : ∀ row ∈ ladderGraph.blocks, ∀ span ∈ row.2, ∀ l ∈ ladderGraph.bodyLines span,
      Marker.role Vocabulary.selfName span.expandsMarkers l ∈
        [.text, .reference [' ', ' '] "step".toList, .reference [] "ring".toList] := by
    decide +kernel
  have hnone : ∀ n, ¬ladderGraph.Calls Vocabulary.selfName n := by
    rintro n ⟨span, hspan, l, hl, indent, flags, hrole⟩
    obtain ⟨row, hrow, hmem⟩ := ladderGraph.exists_row_of_mem_spans hspan
    have := hroles row hrow span hmem l hl
    rw [hrole] at this
    simp at this
  have htop : ladderGraph.weaveBlock { maxDepth := 1 } "top".toList =
      .ok ["  <<gone>>\n".toList, "  <<ring>>\n".toList, "up\n".toList] := by
    decide +kernel
  have hring : ladderGraph.Marks Vocabulary.selfName "ring".toList "ring".toList :=
    ⟨⟨15, 18, true, by decide⟩, by decide, "<<ring>>\n".toList, by decide +kernel, [],
      by decide +kernel⟩
  have hdoor : ladderGraph.Marks Vocabulary.selfName "door".toList "ring".toList :=
    ⟨⟨11, 13, true, by decide⟩, by decide, "<<ring>>\n".toList, by decide +kernel, [],
      by decide +kernel⟩
  refine ⟨by decide +kernel, hnone, htop, ?_, ?_⟩
  · exact ((weaveBlock_ends_iff (o := { maxDepth := 1 }) fun _ m _ => hnone m).1.1 ⟨_, htop⟩).2
  · exact (weaveBlock_ends_iff (o := { maxDepth := 100 }) fun _ m _ => hnone m).2.2 1 0 _
      (.cons hdoor (.here _)) (.cons hring (.here _))

end OrgWeave.Graph
