import OrgWeave.Proofs.Closure.Order
import OrgWeave.Proofs.Graph.Duplicates
import OrgWeave.Proofs.Weave.Emission
import OrgWeave.Run

/-!
# What stops a run

Each stage of a run has its own ways to fail, and each of these can be told from what the stage
works on : flags are refused for what they say (`Request.Stops`), a graph cannot be read because of
a directive on some line (`Scan.Stops`), and weaving is stopped by a name or by flags that it is
led to (`Graph.Stops`).

`FailsWith P` says of a computation that it fails with such errors only. It passes through
everything that is done in steps (`FailsWith.bind`, `FailsWith.gather`). Expansion goes from one
name to others, by records, markers and calls, so that what is known of the names that a request
starts with has to hold of those, too (`Graph.Keeps`).
-/

namespace OrgWeave

open Org

variable {α β : Type} {P Q : Error → Prop}

/-- Whatever `x` fails with satisfies `P`. -/
def FailsWith (P : Error → Prop) (x : Except Error α) : Prop := ∀ e, x = .error e → P e

namespace FailsWith

theorem ok (a : α) : FailsWith P (.ok a) := fun _ h => nomatch h

theorem error {e : Error} (h : P e) : FailsWith P (.error e : Except Error α) := by
  rintro _ ⟨⟩
  exact h

theorem mono {x : Except Error α} (h : FailsWith P x) (hPQ : ∀ e, P e → Q e) : FailsWith Q x :=
  fun e he => hPQ e (h e he)

theorem bind {x : Except Error α} {f : α → Except Error β} (h : FailsWith P x)
    (hf : ∀ a, x = .ok a → FailsWith P (f a)) : FailsWith P (x >>= f) := by
  intro e he
  rcases bind_eq_error.1 he with he | ⟨a, ha, he⟩
  · exact h e he
  · exact hf a ha e he

theorem gather {f : α → Except Error (List β)} {as : List α} (h : ∀ a ∈ as, FailsWith P (f a)) :
    FailsWith P (gather f as) := by
  intro e he
  obtain ⟨a, ha, hfa⟩ := exists_of_gather_eq_error he
  exact h a ha e hfa

theorem checkAll {f : α → Except Error Unit} :
    ∀ {as : List α}, (∀ a ∈ as, FailsWith P (f a)) → FailsWith P (checkAll f as)
  | [], _ => ok ()
  | a :: as, h => by
    obtain ⟨ha, has⟩ := List.forall_mem_cons.1 h
    exact ha.bind fun _ _ => checkAll has

theorem visitAll {f : Trail → Text → Except Error Trail} :
    ∀ {names : List Text}, (∀ t, ∀ n ∈ names, FailsWith P (f t n)) →
      ∀ t : Trail, FailsWith P (Trail.visitAll f t names)
  | [], _, t => ok t
  | n :: names, h, t => by
    have hrest : ∀ t, ∀ m ∈ names, FailsWith P (f t m) :=
      fun t m hm => h t m (List.mem_cons_of_mem n hm)
    exact (h t n List.mem_cons_self).bind fun u _ => visitAll hrest u

end FailsWith

/-! ## Flags -/

theorem Params.ofText?_eq_error {t : Text} {e : Error} (h : Params.ofText? t = .error e) :
    e = .malformedParameters t := by
  unfold Params.ofText? at h
  split at h
  · cases h
  · cases h
    rfl

namespace Request

/-- What flags can be refused for. -/
inductive Stops (flags : Text) : Error → Prop
  | missing (what : Missing) : Stops flags (.missingFlags what)
  | malformed : Stops flags (.malformedParameters flags)
  | conflicting (conflict : Conflict) : Stops flags (.conflictingFlags conflict)
  | ceiling {p : Params} {values : List Text} (hp : Params.ofText? flags = .ok p)
      (hvalues : p.values? Flag.maxDepth = some values) : Stops flags (.invalidMaxDepth values)

variable {flags : Text}

theorem failsWith_readMaxDepth {p : Params} (hp : Params.ofText? flags = .ok p) :
    FailsWith (Stops flags) (readMaxDepth (p.values? Flag.maxDepth)) := by
  cases hvalues : p.values? Flag.maxDepth with
  | none => exact .ok _
  | some values =>
    have hceiling := Stops.ceiling hp hvalues
    unfold readMaxDepth
    split
    next heq => cases heq
    next heq =>
      cases heq
      split
      · split
        · exact .ok _
        · exact .error hceiling
      · exact .error hceiling

theorem failsWith_check (p : Params) : FailsWith (Stops flags) (check p) := by
  unfold check
  dsimp only
  split
  · exact .error (.missing _)
  · split
    · exact .error (.conflicting _)
    · split
      · exact .error (.conflicting _)
      · exact .ok _

theorem failsWith_ofText? (flags : Text) : FailsWith (Stops flags) (ofText? flags) := by
  unfold ofText?
  split
  · exact .error (.missing _)
  · refine .bind (fun e he => ?_) fun p hp => (failsWith_check p).bind fun _ _ => ?_
    · rw [Params.ofText?_eq_error he]
      exact .malformed
    · exact (failsWith_readMaxDepth hp).bind fun _ _ => .ok _

end Request

/-! ## Reading the graph -/

/-- The name that a directive declares something for. -/
def Directive.subject? : Directive → Option Text
  | .name n => some n
  | .opening => none
  | .depends n _ => some n
  | .tangle n _ => some n

/-- A line of the corpus can be told. -/
theorem Corpus.exists_locate {c : Corpus} {i : Nat} (hi : i < c.lines.length) :
    ∃ place, c.locate i = .ok place := by
  unfold locate
  rw [if_pos (by omega)]
  split <;> exact ⟨_, rfl⟩

theorem Corpus.lt_length_of_directive? {c : Corpus} {i : Nat} {d : Directive}
    (h : c.directive? i = some d) : i < c.lines.length := by
  obtain ⟨l, hl, -⟩ := Option.bind_eq_some_iff.1 h
  exact (List.getElem?_eq_some_iff.1 hl).1

namespace Scan

/-- What the directives of a corpus can be refused for. -/
inductive Stops (c : Corpus) : Error → Prop
  | duplicate {i : Nat} {d : Directive} {n location : Text} (what : Declared)
      (hd : c.directive? i = some d) (hsubject : d.subject? = some n)
      (hplace : c.describe i = .ok location) : Stops c (.duplicate what n location)
  | malformed {i : Nat} {n params : Text} (hd : c.directive? i = some (.depends n params)) :
      Stops c (.malformedParameters params)

variable {c : Corpus} {collects : Bool} {s : Scan} {i : Nat}

theorem failsWith_duplicate {d : Directive} {n : Text} (hd : c.directive? i = some d)
    (hsubject : d.subject? = some n) (what : Declared) :
    FailsWith (Stops c) (duplicate c what n i) := by
  obtain ⟨place, hplace⟩ := Corpus.exists_locate (Corpus.lt_length_of_directive? hd)
  have hdescribe : FailsWith (Stops c) (c.describe i) := by
    rw [Corpus.describe, hplace]
    exact .ok _
  exact hdescribe.bind fun location hlocation => .error (.duplicate what hd hsubject hlocation)

theorem failsWith_step : FailsWith (Stops c) (step c collects s i) := by
  rw [step_eq]
  split
  next => exact .ok _
  next hd =>
    split
    · unfold declareName
      split
      · exact failsWith_duplicate hd rfl _
      · exact .ok _
    · exact .ok _
  next => exact .ok _
  next hd =>
    unfold declareDependencies
    split
    · exact failsWith_duplicate hd rfl _
    · refine .bind (fun e he => ?_) fun _ _ => .ok _
      rw [Params.ofText?_eq_error he]
      exact .malformed hd
  next hd =>
    split
    · unfold declareTangle
      split
      · exact failsWith_duplicate hd rfl _
      · exact .ok _
    · exact .ok _

theorem failsWith_run (places : List Nat) (s : Scan) :
    FailsWith (Stops c) (run c collects s places) := by
  intro e he
  obtain ⟨before, i, after, s', -, -, hstep⟩ := run_eq_error_iff.1 he
  exact failsWith_step e hstep

end Scan

theorem Graph.failsWith_ofCorpus (c : Corpus) (collects : Bool) :
    FailsWith (Scan.Stops c) (Graph.ofCorpus c collects) := by
  obtain ⟨es, hes⟩ := exists_parseCorpus c
  rw [Graph.ofCorpus, hes]
  exact (Scan.failsWith_run _ _).bind fun _ _ => .ok _

/-! ## Weaving -/

namespace Graph

/-- Weaving does not lead out of the names with `N` and the flags with `F`, neither by the records
of names nor by the markers of bodies nor by the flags of calls. -/
structure Keeps (g : Graph) (selfName : Text) (N F : Text → Prop) : Prop where
  nested : ∀ n, ∀ m ∈ (g.record n).nested, N m
  reference : ∀ l ∈ g.corpus.lines, ∀ {expands indent n},
    Marker.role selfName expands l = .reference indent n → N n
  request : ∀ l ∈ g.corpus.lines, ∀ {expands indent flags},
    Marker.role selfName expands l = .request indent flags → F flags
  asked : ∀ {flags p}, F flags → Params.ofText? flags = .ok p →
    ∀ n ∈ p.values Vocabulary.nestedKey, N n

/-- What can stop weaving at names with `N` and flags with `F`. -/
inductive Stops (g : Graph) (o : WeaveOptions) (N F : Text → Prop) : Error → Prop
  | unknown {n : Text} (hn : N n) : Stops g o N F (.unknownBlock n g.knownNames)
  | references {n : Text} (ceiling : Int) (hn : N n) :
      Stops g o N F (.depthExceeded .resolution ceiling n)
  | markers {n : Text} (hn : N n) : Stops g o N F (tooDeep o n)
  | call {flags : Text} (hflags : F flags) : Stops g o N F (tooDeep o (callText o flags))
  | malformed {flags : Text} (hflags : F flags) : Stops g o N F (.malformedParameters flags)

variable {g : Graph} {o : WeaveOptions} {N F : Text → Prop} {n : Text} {names : List Text}

theorem failsWith_require (hn : N n) : FailsWith (g.Stops o N F) (g.require n) := by
  unfold require
  split
  · exact .ok _
  · exact .error (.unknown hn)

section Closure

variable (hnested : ∀ n, ∀ m ∈ (g.record n).nested, N m) {ceiling : Int}

include hnested

theorem failsWith_visit : ∀ (levels : Nat) (t : Trail) {n : Text}, N n →
    FailsWith (g.Stops o N F) (g.visit ceiling levels t n)
  | 0, t, n, hn => by
    rw [visit]
    split
    · exact .ok _
    · exact .error (.references ceiling hn)
  | levels + 1, t, n, hn => by
    rw [visit]
    split
    · exact .ok _
    · have hall := FailsWith.visitAll fun u m hm =>
        failsWith_visit levels u (hnested n m hm)
      exact (hall _).bind fun _ _ => .ok _

theorem failsWith_resolve (hnames : ∀ n ∈ names, N n) (external : List Text) :
    FailsWith (g.Stops o N F) (g.resolve names external ceiling) :=
  (FailsWith.visitAll (fun t _ hn => failsWith_visit hnested _ t (hnames _ hn)) .empty).bind
    fun _ _ => .ok _

/-- A request leads to the names that it asks for and to references of others. -/
theorem keeps_resolve {external : List Text} {r : Resolution} (hnames : ∀ n ∈ names, N n)
    (hr : g.resolve names external ceiling = .ok r) : ∀ n ∈ r.names, N n := by
  intro n hn
  obtain ⟨root, hroot, hreach⟩ := (closes_of_resolve hr).reached n hn
  cases hreach with
  | refl => exact hnames n hroot
  | tail _ hedge => exact hnested _ n hedge

end Closure

/-- Inclusion lines with the default template can be written. -/
theorem failsWith_inclusionLines (ho : o.template = defaultTemplate) (lead : Text) :
    ∀ refs : List Text, FailsWith P (o.inclusionLines lead refs)
  | [] => .ok _
  | ref :: refs => by
    rw [WeaveOptions.inclusionLines, ho, renderTemplate_default]
    exact (failsWith_inclusionLines ho lead refs).bind fun _ _ => .ok _

theorem failsWith_emit {weave : Text → Except Error (List α)} (done : Emitted)
    (h : ∀ n ∈ names, FailsWith P (weave n)) : FailsWith P (emit g weave done names).1 := by
  rw [emit_eq_gather]
  exact .gather fun n hn => h n ((printed_sublist done names).subset hn)

section Nested

variable {weave : Text → Text → Except Error (List Line)} (hg : g.Keeps o.selfName N F)
  (ho : o.template = defaultTemplate)
  (hweave : ∀ lead n, N n → FailsWith (g.Stops o N F) (weave lead n)) (levels : Nat) (lead : Text)

include hg ho hweave

theorem failsWith_selfInclusion {flags : Text} (hflags : F flags) :
    FailsWith (g.Stops o N F) (g.selfInclusion o weave levels lead flags) := by
  unfold selfInclusion
  split
  · exact .error (.call hflags)
  · refine .bind (fun e he => ?_) fun p hp => ?_
    · rw [Params.ofText?_eq_error he]
      exact .malformed hflags
    · have hnames := hg.asked hflags hp
      refine (FailsWith.checkAll fun n hn => failsWith_require (hnames n hn)).bind fun _ _ => ?_
      refine (failsWith_resolve hg.nested hnames _).bind fun r hr => ?_
      refine (failsWith_inclusionLines ho _ _).bind fun _ _ => ?_
      refine (failsWith_emit _ fun n hn => ?_).bind fun _ _ => .ok _
      exact hweave lead n (keeps_resolve hg.nested hnames hr n hn)

theorem failsWith_expandBody (span : BodySpan) :
    FailsWith (g.Stops o N F) (g.expandBody o weave levels lead span) := by
  refine .gather fun l hl => ?_
  have hl : l ∈ g.corpus.lines := List.mem_of_mem_drop (List.mem_of_mem_take hl)
  unfold expandLine
  split
  next => exact .ok _
  next indent n hrole => exact hweave _ n (hg.reference l hl hrole)
  next indent flags hrole =>
    exact failsWith_selfInclusion hg ho hweave levels _ (hg.request l hl hrole)

end Nested

section Blocks

variable (hg : g.Keeps o.selfName N F) (ho : o.template = defaultTemplate)

include hg ho

theorem failsWith_expand : ∀ (levels : Nat) (lead n : Text), N n →
    FailsWith (g.Stops o N F) (g.expand o levels lead n)
  | 0, _, n, hn => (failsWith_require hn).bind fun _ _ => .error (.markers hn)
  | levels + 1, lead, n, hn => by
    refine (failsWith_require hn).bind fun _ _ => .gather fun span _ => ?_
    exact failsWith_expandBody hg ho (failsWith_expand levels) levels lead span

theorem failsWith_weaveBlocks (done : Emitted) (hnames : ∀ n ∈ names, N n) :
    FailsWith (g.Stops o N F) (g.weaveBlocks o done names).1 := by
  refine failsWith_emit done fun n hn => ?_
  exact (failsWith_expand hg ho _ _ n (hnames n hn)).bind fun _ _ => .ok _

theorem failsWith_stream {r : Resolution} (hnames : ∀ n ∈ r.names, N n) :
    FailsWith (g.Stops o N F) (g.stream o r) := by
  refine (failsWith_inclusionLines ho _ _).bind fun _ _ => ?_
  exact (failsWith_weaveBlocks hg ho _ hnames).bind fun _ _ => .ok _

theorem failsWith_targets (htargets : ∀ row ∈ g.tangles, N row.1) :
    FailsWith (g.Stops o N F) (g.targets o) := by
  refine .gather fun row hrow => .bind ?_ fun _ _ => .ok _
  have hn : ∀ n ∈ [row.1], N n := List.forall_mem_singleton.2 (htargets row hrow)
  refine (failsWith_require (htargets row hrow)).bind fun _ _ => ?_
  refine (failsWith_resolve hg.nested hn _).bind fun r hr => ?_
  exact failsWith_weaveBlocks hg ho _ (keeps_resolve hg.nested hn hr)

end Blocks

end Graph

namespace Outcome

variable {request : Request} {N F : Text → Prop}

theorem failsWith_streamed {g : Graph} (hg : g.Keeps Vocabulary.selfName N F)
    (hnames : ∀ n ∈ request.nested, N n) :
    FailsWith (g.Stops request.weaveOptions N F) (streamed request g) := by
  refine (FailsWith.checkAll fun n hn => Graph.failsWith_require (hnames n hn)).bind fun _ _ => ?_
  refine (Graph.failsWith_resolve hg.nested hnames _).bind fun r hr => ?_
  have hr := Graph.keeps_resolve hg.nested hnames hr
  exact (Graph.failsWith_stream hg rfl hr).bind fun _ _ => .ok _

/-- A request over a corpus is stopped when the graph is read, or at a name that it leads to. -/
theorem failsWith_ofCorpus {c : Corpus} (root : Path) (hnames : ∀ n ∈ request.nested, N n)
    (hg : ∀ g, Graph.ofCorpus c request.tangle = .ok g →
      g.Keeps Vocabulary.selfName N F ∧ ∀ row ∈ g.tangles, N row.1) :
    FailsWith (fun e => Scan.Stops c e ∨ ∃ g, Graph.ofCorpus c request.tangle = .ok g ∧
      g.Stops request.weaveOptions N F e) (ofCorpus request c root) := by
  refine ((Graph.failsWith_ofCorpus c _).mono fun _ => Or.inl).bind fun g hgraph => ?_
  obtain ⟨hkeeps, htargets⟩ := hg g hgraph
  refine FailsWith.mono (P := g.Stops request.weaveOptions N F) ?_
    fun e he => Or.inr ⟨g, hgraph, he⟩
  split
  · exact (Graph.failsWith_targets hkeeps rfl htargets).bind fun _ _ => .ok _
  · exact failsWith_streamed hkeeps hnames

end Outcome

end OrgWeave
