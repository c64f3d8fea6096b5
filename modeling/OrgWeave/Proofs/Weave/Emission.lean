import OrgWeave.Proofs.Closure.Walk
import OrgWeave.Weave.Stream

/-!
# What is emitted

`Graph.printed g done names` are the names whose bodies are put out when `names` are
emitted after `done`. Emission weaves exactly these and nothing else (`emit_eq_gather`), so
that what is printed does not depend on how it is woven. No name is printed after itself or
after an aggregate that stands for it (`printed_pairwise`), and every name is accounted for :
something that stands for it is printed, or has no body (`exists_covering`).

The text of a block is its bodies, each expanded on its own (`blockText_eq`), so that the
bodies of the printed names are the bodies woven at the outermost level (`Graph.woven`).
-/

namespace OrgWeave

variable {g : Graph} {done : Emitted} {names : List Text} {n : Text}

theorem Emitted.mem_mark {d : Text} : d ∈ Emitted.mark g done n ↔ d ∈ done ∨ g.StandsFor n d := by
  have hfold : ∀ (ms : List Text) (done : Emitted),
      d ∈ ms.foldl (fun names m => names.insert m) done ↔ d ∈ done ∨ d ∈ ms := by
    intro ms
    induction ms with
    | nil => simp
    | cons m ms ih =>
      intro done
      rw [List.foldl_cons, ih, List.mem_insert_iff, List.mem_cons, or_assoc, or_left_comm]
  rw [Emitted.mark, hfold, List.mem_cons, Graph.StandsFor]

theorem Emitted.mem_mark_of_mem {d : Text} (h : d ∈ done) : d ∈ Emitted.mark g done n :=
  Emitted.mem_mark.2 (Or.inl h)

theorem Emitted.mem_mark_self : n ∈ Emitted.mark g done n :=
  Emitted.mem_mark.2 (Or.inr (Or.inl rfl))

namespace Graph

/-! ## The printed names -/

/-- The names with a body that are emitted when `done` are emitted already. -/
def printed (g : Graph) : Emitted → List Text → List Text
  | _, [] => []
  | done, n :: names =>
    if n ∈ done then g.printed done names
    else if g.spans n = [] then g.printed (done.mark g n) names
    else n :: g.printed (done.mark g n) names

variable {α : Type} {weave : Text → Except Error (List α)}

/-- A name that has no body is emitted without being woven. -/
theorem emit_of_spans_eq_nil (hn : n ∉ done) (hbare : g.spans n = []) :
    (emit g weave done (n :: names)).1 = (emit g weave (done.mark g n) names).1 := by
  have hid : ∀ x : Except Error (List α), x.map ([] ++ ·) = x := by
    intro x
    cases x <;> rfl
  simp only [emit, hn, hbare, if_false, if_true, hid]

/-- A name that has a body is woven, and then the others are emitted. -/
theorem emit_of_spans_ne_nil (hn : n ∉ done) (hbody : g.spans n ≠ []) :
    (emit g weave done (n :: names)).1 =
      weave n >>= fun head =>
        (emit g weave (done.mark g n) names).1 >>= fun tail => .ok (head ++ tail) := by
  simp only [emit, hn, hbody, if_false]
  cases weave n with
  | error e => rfl
  | ok head => cases (emit g weave (done.mark g n) names).1 <;> rfl

/-- Emission weaves the printed names, one after another, until the first failure. -/
theorem emit_eq_gather (weave : Text → Except Error (List α)) (done : Emitted)
    (names : List Text) : (emit g weave done names).1 = gather weave (g.printed done names) := by
  fun_induction printed g done names with
  | case1 done => rfl
  | case2 done n names hn ih =>
    rw [← ih]
    simp only [emit, hn, if_true]
  | case3 done n names hn hbare ih => rw [emit_of_spans_eq_nil hn hbare, ih]
  | case4 done n names hn hbody ih => rw [emit_of_spans_ne_nil hn hbody, ih, gather]

theorem printed_sublist (done : Emitted) (names : List Text) :
    (g.printed done names).Sublist names := by
  fun_induction printed g done names with
  | case1 done => exact List.Sublist.refl []
  | case2 done n names _ ih => exact ih.cons n
  | case3 done n names _ _ ih => exact ih.cons n
  | case4 done n names _ _ ih => exact ih.cons_cons n

/-- What is printed is not emitted already, and has a body. -/
theorem of_mem_printed (h : n ∈ g.printed done names) : n ∉ done ∧ g.spans n ≠ [] := by
  fun_induction printed g done names with
  | case1 done => exact absurd h List.not_mem_nil
  | case2 done m names _ ih => exact ih h
  | case3 done m names _ _ ih =>
    obtain ⟨hn, hbody⟩ := ih h
    exact ⟨fun hdone => hn (Emitted.mem_mark_of_mem hdone), hbody⟩
  | case4 done m names hm hbody ih =>
    rcases List.mem_cons.1 h with rfl | h
    · exact ⟨hm, hbody⟩
    · obtain ⟨hn, hbody⟩ := ih h
      exact ⟨fun hdone => hn (Emitted.mem_mark_of_mem hdone), hbody⟩

/-- A name is not printed again, and not after an aggregate that it contributes to. -/
theorem printed_pairwise (g : Graph) (done : Emitted) (names : List Text) :
    (g.printed done names).Pairwise fun m n => ¬g.StandsFor m n := by
  fun_induction printed g done names with
  | case1 done => exact List.Pairwise.nil
  | case2 done m names _ ih => exact ih
  | case3 done m names _ _ ih => exact ih
  | case4 done m names _ _ ih =>
    refine List.pairwise_cons.2 ⟨fun n hn hfor => ?_, ih⟩
    exact (of_mem_printed hn).1 (Emitted.mem_mark.2 (Or.inr hfor))

/-- What covers a name once `k` is emitted covers it before, if `k` is among the names. -/
theorem covering_of_mark {k : Text} {ps qs : List Text} (hk : g.spans k ≠ [] → k ∈ qs)
    (hsub : ps ⊆ qs) (h : n ∈ done.mark g k ∨
      ∃ m ∈ names, g.StandsFor m n ∧ (g.spans m ≠ [] → m ∈ ps)) :
    n ∈ done ∨ ∃ m ∈ k :: names, g.StandsFor m n ∧ (g.spans m ≠ [] → m ∈ qs) := by
  rcases h with hmark | ⟨m, hm, hfor, hprinted⟩
  · exact (Emitted.mem_mark.1 hmark).imp_right fun hfor => ⟨k, List.mem_cons_self, hfor, hk⟩
  · exact Or.inr ⟨m, List.mem_cons_of_mem k hm, hfor, fun hbody => hsub (hprinted hbody)⟩

/-- Each name that is to be emitted is covered : by what was emitted before, or by a name
that stands for it and that is printed if it has a body. -/
theorem exists_covering (h : n ∈ names) :
    n ∈ done ∨ ∃ m ∈ names, g.StandsFor m n ∧ (g.spans m ≠ [] → m ∈ g.printed done names) := by
  fun_induction printed g done names with
  | case1 done => exact absurd h List.not_mem_nil
  | case2 done k names hk ih =>
    rcases List.mem_cons.1 h with rfl | h
    · exact Or.inl hk
    · exact (ih h).imp_right fun ⟨m, hm, hfor⟩ => ⟨m, List.mem_cons_of_mem k hm, hfor⟩
  | case3 done k names _ hbare ih =>
    refine covering_of_mark (fun hbody => absurd hbare hbody) (List.Subset.refl _) ?_
    rcases List.mem_cons.1 h with rfl | h
    · exact Or.inl Emitted.mem_mark_self
    · exact ih h
  | case4 done k names _ _ ih =>
    refine covering_of_mark (fun _ => List.mem_cons_self) (List.subset_cons_self k _) ?_
    rcases List.mem_cons.1 h with rfl | h
    · exact Or.inl Emitted.mem_mark_self
    · exact ih h

/-! ## The woven bodies -/

/-- The lines of a body at the outermost level. -/
def weaveBody (g : Graph) (o : WeaveOptions) (span : BodySpan) : Except Error (List Line) :=
  g.expandBody o (g.expand o o.maxDepth) o.maxDepth [] span

/-- The bodies that are woven at the outermost level when the names are emitted, in order. -/
def woven (g : Graph) (names : List Text) : List BodySpan :=
  (g.printed [] names).flatMap g.spans

theorem mem_woven {span : BodySpan} :
    span ∈ g.woven names ↔ ∃ n ∈ g.printed [] names, span ∈ g.spans n :=
  List.mem_flatMap

/-- A block with a body is its bodies, one after another. -/
theorem weaveBlock_eq_gather {o : WeaveOptions} (h : g.spans n ≠ []) :
    g.weaveBlock o n = gather (g.weaveBody o) (g.spans n) := by
  obtain ⟨span, hspan⟩ := List.exists_mem_of_ne_nil _ h
  rw [weaveBlock, o.levelsAt_zero, expand, require, if_pos (g.isKnown_of_mem_spans hspan)]
  rfl

theorem blockText_eq {o : WeaveOptions} (h : g.spans n ≠ []) :
    g.blockText o n = gather (g.weaveBody o) (g.spans n) >>= fun ls =>
      .ok (if o.literal then Text.quoteLines ls else ls.flatten) := by
  rw [blockText, weaveBlock_eq_gather h]

end Graph

/-- Lines as they stand in the text of a block. -/
def WeaveOptions.written (o : WeaveOptions) (ls : List Line) : Text :=
  if o.literal then ls.flatMap Text.quotedLine else ls.flatten

theorem WeaveOptions.written_infix {o : WeaveOptions} {ls ms : List Line} (h : ls <:+: ms) :
    o.written ls <:+: o.written ms := by
  obtain ⟨before, after, rfl⟩ := h
  refine ⟨o.written before, o.written after, ?_⟩
  unfold written
  split <;> simp

namespace Graph

variable {o : WeaveOptions} {span : BodySpan} {t : Text}

/-- The text of a block holds each of its bodies. -/
theorem infix_blockText (h : g.blockText o n = .ok t) (hspan : span ∈ g.spans n) :
    ∃ ls, g.weaveBody o span = .ok ls ∧ o.written ls <:+: t := by
  rw [blockText_eq (List.ne_nil_of_mem hspan)] at h
  obtain ⟨ms, hms, ht⟩ := bind_eq_ok.1 h
  obtain ⟨ls, hls, hinfix⟩ := infix_of_gather hms hspan
  refine ⟨ls, hls, (WeaveOptions.written_infix hinfix).trans ?_⟩
  cases ht
  unfold WeaveOptions.written
  split
  · exact ⟨[Text.quote], [Text.quote, '\n'], by simp [Text.quoteLines]⟩
  · exact List.infix_refl _

/-- The text of a request holds each woven body. -/
theorem infix_stream {r : Resolution} (h : g.stream o r = .ok t) (hspan : span ∈ g.woven r.names) :
    ∃ ls, g.weaveBody o span = .ok ls ∧ o.written ls <:+: t := by
  obtain ⟨n, hn, hspan⟩ := mem_woven.1 hspan
  obtain ⟨inclusions, -, h⟩ := bind_eq_ok.1 h
  obtain ⟨blocks, hblocks, ht⟩ := bind_eq_ok.1 h
  rw [weaveBlocks, emit_eq_gather] at hblocks
  obtain ⟨block, hblock, hinfix⟩ := infix_of_gather hblocks hn
  obtain ⟨ls, hls, hwritten⟩ := infix_blockText hblock hspan
  refine ⟨ls, hls, (hwritten.trans hinfix).trans ?_⟩
  cases ht
  exact (List.suffix_append _ blocks).isInfix

end Graph

end OrgWeave
