import OrgWeave.Proofs.Weave.Emission
import OrgWeave.Run

/-!
# Requests inside a body

A body can ask for blocks by a call of the self name, and a user can ask for them by a run.
Both read the same flags, refuse the same names and close the same request; the run then
puts one text together, block by block, where the call keeps the lines apart. As the text of
a block is its lines, the text of the run is the lines of the call, and what stops the one
stops the other (`Graph.map_stdout_streamed`, `run_answers`).
-/

namespace OrgWeave

/-! ## Texts of lines -/

namespace Graph

variable {g : Graph} {o : WeaveOptions}

/-- A block that is no literal is the text of its lines. -/
theorem blockText_of_plain (hplain : o.literal = false) (n : Text) :
    g.blockText o n = (g.weaveBlock o n).map List.flatten := by
  rw [blockText, hplain]
  cases g.weaveBlock o n <;> rfl

/-- The text of blocks that are no literals is the text of all their lines. -/
theorem weaveBlocks_of_plain (hplain : o.literal = false) (done : Emitted) (names : List Text) :
    (g.weaveBlocks o done names).1 =
      (emit g (g.weaveBlock o) done names).1.map List.flatten := by
  have htexts : g.blockText o = fun n => (g.weaveBlock o n).map List.flatten :=
    funext fun n => blockText_of_plain hplain n
  rw [weaveBlocks, emit_eq_gather, emit_eq_gather, htexts]
  exact gather_map List.flatten_nil (fun ls ms => List.flatten_append) _ _

/-- The text of a closed request is the text of the lines that include its files and of the
lines of its blocks. -/
theorem stream_of_plain (hplain : o.literal = false) (r : Resolution) :
    g.stream o r = (do
      let inclusions ← o.inclusionLines [] r.external
      let blocks ← (emit g (g.weaveBlock o) [] r.names).1
      .ok (inclusions ++ blocks)).map List.flatten := by
  rw [stream, weaveBlocks_of_plain hplain]
  cases o.inclusionLines [] r.external with
  | error e => rfl
  | ok inclusions =>
    cases (emit g (g.weaveBlock o) [] r.names).1 with
    | error e => rfl
    | ok blocks => exact congrArg Except.ok List.flatten_append.symm

end Graph

/-! ## The same request in two ways -/

namespace Request

/-- What an accepted request asks for stands in its parameters. -/
theorem of_ofText? {flags : Text} {request : Request} (h : ofText? flags = .ok request) :
    ∃ p, Params.ofText? flags = .ok p ∧ request.nested = p.values Vocabulary.nestedKey ∧
      request.external = p.values Vocabulary.externalKey := by
  unfold ofText? at h
  split at h
  · cases h
  · obtain ⟨p, hp, h⟩ := bind_eq_ok.1 h
    obtain ⟨_, -, h⟩ := bind_eq_ok.1 h
    obtain ⟨depth, -, h⟩ := bind_eq_ok.1 h
    cases h
    exact ⟨p, hp, rfl, rfl⟩

end Request

namespace Graph

variable {g : Graph} {flags : Text} {request : Request}

/-- The lines that answer a request with the given parameters. -/
def linesFor (g : Graph) (o : WeaveOptions) (p : Params) : Except Error (List Line) := do
  checkAll g.require (p.values Vocabulary.nestedKey)
  let r ← g.resolve (p.values Vocabulary.nestedKey) (p.values Vocabulary.externalKey)
    o.resolutionDepth
  let inclusions ← o.inclusionLines [] r.external
  let blocks ← (emit g (g.weaveBlock o) [] r.names).1
  .ok (inclusions ++ blocks)

/-- A call at the outermost level has levels left, so it answers its request. -/
theorem answer_outermost (o : WeaveOptions) {p : Params} (hp : Params.ofText? flags = .ok p) :
    g.answer o flags [] 0 = g.linesFor o p := by
  have hlevels : o.levelsAt 0 ≠ 0 := by
    rw [o.levelsAt_zero]
    exact Nat.succ_ne_zero _
  rw [answer, selfInclusion, if_neg hlevels, hp]
  rfl

/-- A run puts out the text of the lines that answer its request, if it is not for literals. -/
theorem map_stdout_streamed (hplain : request.literal = false) {p : Params}
    (hnested : request.nested = p.values Vocabulary.nestedKey)
    (hexternal : request.external = p.values Vocabulary.externalKey) :
    (Outcome.streamed request g).map (·.stdout) =
      (g.linesFor request.weaveOptions p).map List.flatten := by
  rw [Outcome.streamed, linesFor, hnested, hexternal]
  cases checkAll g.require (p.values Vocabulary.nestedKey) with
  | error e => rfl
  | ok _ =>
    have hdepth : request.weaveOptions.resolutionDepth = defaultResolutionDepth := rfl
    rw [hdepth]
    cases g.resolve (p.values Vocabulary.nestedKey) (p.values Vocabulary.externalKey)
        defaultResolutionDepth with
    | error e => rfl
    | ok r =>
      simp only [bind, Except.bind, stream_of_plain (o := request.weaveOptions) hplain]
      cases request.weaveOptions.inclusionLines [] r.external with
      | error e => rfl
      | ok inclusions => cases (emit g (g.weaveBlock request.weaveOptions) [] r.names).1 <;> rfl

end Graph

/-! ## Runs -/

/-- A run over documents that its flags add nothing to. -/
theorem runTexts_of_documents_eq_nil {flags : Text} {request : Request}
    (h : Request.ofText? flags = .ok request) (hdocs : request.documents = []) (read : Reader)
    (docs : List (Text × Text)) (root : Path) :
    runTexts read docs flags root = Outcome.ofCorpus request (Corpus.ofTexts docs) root := by
  have hothers : (mergeNames (docs.map Prod.fst) request.documents).filter
      (fun name => name ∉ docs.map Prod.fst) = [] := by
    rw [List.filter_eq_nil_iff, hdocs]
    intro name hname
    simpa [mergeNames, List.mem_eraseDups] using hname
  have hread : readDocuments read [] = .ok [] := rfl
  simp only [runTexts, h, hothers, hread, bind, Except.bind, List.append_nil]

/-- Two computations with the same outcome once `f` is read off the one and `f'` off the other
succeed alike and fail alike. -/
theorem outcomes_of_map_eq_map {ε α α' β : Type} {f : α → β} {f' : α' → β} {x : Except ε α}
    {x' : Except ε α'} (h : x.map f = x'.map f') :
    (∀ b, (∃ a, x = .ok a ∧ f a = b) ↔ ∃ a', x' = .ok a' ∧ f' a' = b) ∧
      ∀ e, x = .error e ↔ x' = .error e := by
  cases x <;> cases x' <;> simp_all [Except.map]

/-- A request that does not tangle, asks for no literals and adds no documents is answered by a
run as by a call of the self name at the outermost level : the run puts out a text exactly if
the call comes to lines that make up the text, and each error of the one is the error of the
other. -/
theorem run_answers {docs : List (Text × Text)} {flags : Text} {request : Request} {g : Graph}
    (h : Request.ofText? flags = .ok request) (htangle : request.tangle = false)
    (hplain : request.literal = false) (hdocs : request.documents = [])
    (hg : Graph.ofCorpus (Corpus.ofTexts docs) false = .ok g) (read : Reader) (root : Path) :
    (∀ s, (∃ out, runTexts read docs flags root = .ok out ∧ out.stdout = s) ↔
      ∃ ls, g.answer request.weaveOptions flags [] 0 = .ok ls ∧ ls.flatten = s) ∧
    ∀ e, runTexts read docs flags root = .error e ↔
      g.answer request.weaveOptions flags [] 0 = .error e := by
  obtain ⟨p, hp, hnested, hexternal⟩ := Request.of_ofText? h
  have hrun : runTexts read docs flags root = Outcome.streamed request g := by
    rw [runTexts_of_documents_eq_nil h hdocs, Outcome.ofCorpus, htangle, hg]
    rfl
  rw [hrun, Graph.answer_outermost _ hp]
  exact outcomes_of_map_eq_map (Graph.map_stdout_streamed hplain hnested hexternal)

/-- A block that includes another one twice, once by name and once by a call. -/
def soup : List (Text × Text) :=
  [("d.org".toList, ("#+depends:soup :cpp pot :noweb stock\n#+name: soup\n#+begin_src x\n" ++
    "  <<stock>>\n<<include(\x22:noweb stock\x22)>>\n#+end_src\n" ++
    "#+name: stock\n#+begin_src x\nwater\n#+end_src\n").toList)]

/-- The graph of `soup`. -/
def soupGraph : Graph where
  corpus := Corpus.ofTexts soup
  blocks :=
    [("soup".toList, [⟨2, 5, true, by decide⟩]), ("stock".toList, [⟨7, 9, true, by decide⟩])]
  dependencies := [("soup".toList, ⟨["pot".toList], ["stock".toList]⟩)]
  aggregates := []
  tangles := []

/-- A request for the block `soup` and for files. -/
def soupRequest (external : List Text) (maxDepth : Nat) (h : maxDepth ≤ Error.depthLimit) :
    Request where
  external := external
  nested := ["soup".toList]
  literal := false
  tangle := false
  documents := []
  maxDepth := maxDepth
  debug := false
  errorStatus := false
  unknownFlags := []
  maxDepth_le := h

/-- A run for `soup` puts out the lines of the call for it, and fails as the call does if it
must not nest. -/
theorem soup_answers :
    (Request.ofText? ":noweb soup :cpp spoon".toList =
        .ok (soupRequest ["spoon".toList] 3 (by decide)) ∧
      Request.ofText? ":noweb soup :max-depth 0".toList = .ok (soupRequest [] 0 (by decide)) ∧
      Graph.ofCorpus (Corpus.ofTexts soup) false = .ok soupGraph) ∧
    (∃ out, runTexts (fun path => .error (.badFilename path)) soup
        ":noweb soup :cpp spoon".toList Path.here = .ok out ∧
      out.stdout = "#include <pot>\n#include <spoon>\nwater\n  water\nwater\n".toList) ∧
    runTexts (fun path => .error (.badFilename path)) soup
        ":noweb soup :max-depth 0".toList Path.here =
      .error (.depthExceeded .weaving 0 "stock".toList) := by
  have hspoon : Request.ofText? ":noweb soup :cpp spoon".toList =
      .ok (soupRequest ["spoon".toList] 3 (by decide)) := by decide +kernel
  have hflat : Request.ofText? ":noweb soup :max-depth 0".toList =
      .ok (soupRequest [] 0 (by decide)) := by decide +kernel
  have hg : Graph.ofCorpus (Corpus.ofTexts soup) false = .ok soupGraph := by decide +kernel
  refine ⟨⟨hspoon, hflat, hg⟩, ((run_answers hspoon rfl rfl rfl hg _ _).1 _).2 ?_,
    ((run_answers hflat rfl rfl rfl hg _ _).2 _).2 (by decide +kernel)⟩
  exact ⟨["#include <pot>\n".toList, "#include <spoon>\n".toList, "water\n".toList,
    "  water\n".toList, "water\n".toList], by decide +kernel, by decide +kernel⟩

end OrgWeave
