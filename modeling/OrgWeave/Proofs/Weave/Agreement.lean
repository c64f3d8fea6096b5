import OrgWeave.Graph.Scan
import OrgWeave.Proofs.Closure.Order
import OrgWeave.Proofs.Weave.Emission
import Mathlib.Data.Set.Defs

/-!
# What an answer depends on

A name uses other names in three ways : its record refers to them, a line of its bodies is a marker
for one of them, or such a line is a call that asks for them (`Graph.uses`). A set of names confines
a graph if no name in it uses one outside (`Graph.Confines`).

What a request for names of the set comes to depends on no other name. A second graph that has the
same to say about each name of the set (`Graph.AgreesOn`), wherever its bodies stand, closes
the request alike and weaves it to the same text (`Graph.request_alike`). If the first graph fails,
so does the second one, with the same error; only the listing of all known names, which comes with
the error of a name that is not known, can be another one (`Alike`).
-/

namespace OrgWeave

variable {α β : Type}

/-! ## Errors without their listing -/

/-- The error without the known names that it lists. -/
def Error.withoutListing : Error → Error
  | .unknownBlock name _ => .unknownBlock name []
  | e => e

/-- The same result, or the same error up to the known names that it lists. -/
inductive Alike : Except Error α → Except Error α → Prop
  | ok (a : α) : Alike (.ok a) (.ok a)
  | error {e e' : Error} (h : e'.withoutListing = e.withoutListing) : Alike (.error e) (.error e')

namespace Alike

variable {x x' : Except Error α}

theorem refl (x : Except Error α) : Alike x x := by
  cases x with
  | ok a => exact .ok a
  | error e => exact .error rfl

theorem eq_ok {a : α} (h : Alike (.ok a) x) : x = .ok a := by
  cases h
  rfl

/-- The listing does not belong to the kind of an error. -/
theorem mapError_kind? (h : Alike x x') : x'.mapError Error.kind? = x.mapError Error.kind? := by
  have hkind : ∀ e : Error, e.withoutListing.kind? = e.kind? := fun e => by cases e <;> rfl
  cases h with
  | ok a => rfl
  | @error e e' he => exact congrArg Except.error (by rw [← hkind e', he, hkind])

theorem bind {f f' : α → Except Error β} (h : Alike x x')
    (hf : ∀ a, x = .ok a → Alike (f a) (f' a)) : Alike (x >>= f) (x' >>= f') := by
  cases h with
  | ok a => exact hf a rfl
  | error he => exact .error he

theorem gather {f f' : α → Except Error (List β)} {as : List α}
    (h : ∀ a ∈ as, Alike (f a) (f' a)) : Alike (gather f as) (gather f' as) := by
  induction as with
  | nil => exact .ok []
  | cons a as ih =>
    have has := ih fun b hb => h b (List.mem_cons_of_mem a hb)
    exact (h a List.mem_cons_self).bind fun _ _ => has.bind fun _ _ => .ok _

theorem checkAll {f f' : α → Except Error Unit} {as : List α}
    (h : ∀ a ∈ as, Alike (f a) (f' a)) : Alike (checkAll f as) (checkAll f' as) := by
  induction as with
  | nil => exact .ok ()
  | cons a as ih =>
    exact (h a List.mem_cons_self).bind fun _ _ => ih fun b hb => h b (List.mem_cons_of_mem a hb)

end Alike

/-! ## Names that a name uses -/

/-- The names that a line leads to. -/
def Marker.Role.names : Marker.Role → List Text
  | .text => []
  | .reference _ name => [name]
  | .request _ flags =>
    match Params.ofText? flags with
    | .ok p => p.values Vocabulary.nestedKey
    | .error _ => []

namespace Graph

/-- The bodies of a name : whether their markers are expanded, and their lines. -/
def bodies (g : Graph) (name : Text) : List (Bool × List Line) :=
  (g.spans name).map fun span => (span.expandsMarkers, g.bodyLines span)

/-- The names that the record and the bodies of a name lead to. -/
def uses (g : Graph) (self name : Text) : List Text :=
  (g.record name).nested ++ (g.bodies name).flatMap fun body =>
    body.2.flatMap fun l => (Marker.role self body.1 l).names

/-- What the names of the set use is in the set, too. -/
def Confines (g : Graph) (self : Text) (names : Set Text) : Prop :=
  ∀ n ∈ names, ∀ m ∈ g.uses self n, m ∈ names

/-- Both graphs have the same bodies, the same record and the same contributors for the name, and it
is known to both or to none. -/
structure AgreesOn (g g' : Graph) (name : Text) : Prop where
  bodies : g'.bodies name = g.bodies name
  record : g'.record name = g.record name
  contributors : g'.contributors name = g.contributors name
  isKnown : g'.isKnown name = g.isKnown name

instance (g g' : Graph) (name : Text) : Decidable (g.AgreesOn g' name) :=
  decidable_of_iff (g'.bodies name = g.bodies name ∧ g'.record name = g.record name ∧
      g'.contributors name = g.contributors name ∧ g'.isKnown name = g.isKnown name)
    ⟨fun ⟨hbodies, hrecord, hcontributors, hknown⟩ => ⟨hbodies, hrecord, hcontributors, hknown⟩,
      fun h => ⟨h.bodies, h.record, h.contributors, h.isKnown⟩⟩

variable {g g' : Graph} {self n : Text} {S : Set Text} {o : WeaveOptions}

namespace AgreesOn

theorem spans_eq_nil_iff (h : g.AgreesOn g' n) : g'.spans n = [] ↔ g.spans n = [] := by
  have hbodies := h.bodies
  unfold Graph.bodies at hbodies
  rw [← List.map_eq_nil_iff, hbodies, List.map_eq_nil_iff]

theorem require (h : g.AgreesOn g' n) : Alike (g.require n) (g'.require n) := by
  unfold Graph.require
  rw [h.isKnown]
  split
  · exact .ok ()
  · exact .error rfl

theorem enter (h : g.AgreesOn g' n) (t : Trail) : t.enter g' n = t.enter g n := by
  simp only [Trail.enter, h.record, h.contributors, h.spans_eq_nil_iff]

theorem mark (h : g.AgreesOn g' n) (done : Emitted) : done.mark g' n = done.mark g n := by
  rw [Emitted.mark, Emitted.mark, h.contributors]

end AgreesOn

namespace Confines

variable (h : g.Confines self S)

include h

theorem nested (hn : n ∈ S) : ∀ m ∈ (g.record n).nested, m ∈ S :=
  fun m hm => h n hn m (List.mem_append_left _ hm)

theorem line (hn : n ∈ S) {body : Bool × List Line} (hbody : body ∈ g.bodies n) {l : Line}
    (hl : l ∈ body.2) : ∀ m ∈ (Marker.role self body.1 l).names, m ∈ S := by
  intro m hm
  refine h n hn m (List.mem_append_right _ ?_)
  exact List.mem_flatMap.2 ⟨body, hbody, List.mem_flatMap.2 ⟨l, hl, hm⟩⟩

/-- References do not lead out of the set. -/
theorem reached {names : List Text} (hnames : ∀ m ∈ names, m ∈ S) (hn : g.ReachedFrom names n) :
    n ∈ S := by
  obtain ⟨root, hroot, hreach⟩ := hn
  induction hreach with
  | refl => exact hnames root hroot
  | tail _ hedge ih => exact h.nested ih _ hedge

/-- The closure of names of the set stays in the set. -/
theorem resolved {names external : List Text} {ceiling : Int} {r : Resolution}
    (hnames : ∀ m ∈ names, m ∈ S) (hr : g.resolve names external ceiling = .ok r) :
    ∀ m ∈ r.names, m ∈ S :=
  fun m hm => h.reached hnames ((closes_of_resolve hr).reached m hm)

end Confines

/-- The bodies of a name hold all that expansion reads of its spans. -/
theorem gather_expandBody (g : Graph) (o : WeaveOptions)
    (weave : Text → Text → Except Error (List Line)) (levels : Nat) (lead n : Text) :
    gather (g.expandBody o weave levels lead) (g.spans n) =
      gather (fun body => gather (g.expandLine o weave levels lead body.1) body.2) (g.bodies n) := by
  rw [bodies, gather_comp]
  rfl

/-! ## Closures -/

theorem visitAll_congr {f f' : Trail → Text → Except Error Trail} {names : List Text}
    (h : ∀ n ∈ names, ∀ t, f' t n = f t n) (t : Trail) :
    Trail.visitAll f' t names = Trail.visitAll f t names := by
  induction names generalizing t with
  | nil => rfl
  | cons n names ih =>
    rw [Trail.visitAll, Trail.visitAll, h n List.mem_cons_self]
    exact congrArg _ (funext (ih fun m hm => h m (List.mem_cons_of_mem n hm)))

section Confined

variable (hconfines : g.Confines o.selfName S) (hagree : ∀ n ∈ S, g.AgreesOn g' n)

include hconfines hagree

theorem visit_of_agree (ceiling : Int) (levels : Nat) (hn : n ∈ S) (t : Trail) :
    g'.visit ceiling levels t n = g.visit ceiling levels t n := by
  induction levels generalizing n t with
  | zero => rfl
  | succ levels ih =>
    rw [visit, visit, (hagree n hn).enter, (hagree n hn).record,
      visitAll_congr fun m hm => ih (hconfines.nested hn m hm)]

theorem resolve_of_agree {names : List Text} (hnames : ∀ n ∈ names, n ∈ S) (external : List Text)
    (ceiling : Int) : g'.resolve names external ceiling = g.resolve names external ceiling := by
  rw [resolve, resolve, visitAll_congr fun n hn =>
    visit_of_agree hconfines hagree ceiling _ (hnames n hn)]

/-! ## Expansion -/

omit hconfines

theorem printed_of_agree {names : List Text} (hnames : ∀ n ∈ names, n ∈ S) (done : Emitted) :
    g'.printed done names = g.printed done names := by
  induction names generalizing done with
  | nil => rfl
  | cons n names ih =>
    obtain ⟨hn, hnames⟩ := List.forall_mem_cons.1 hnames
    simp only [printed, (hagree n hn).mark, (hagree n hn).spans_eq_nil_iff, ih hnames]

theorem alike_emit {weave weave' : Text → Except Error (List α)} {names : List Text}
    (hnames : ∀ n ∈ names, n ∈ S) (hweave : ∀ n ∈ S, Alike (weave n) (weave' n))
    (done : Emitted) : Alike (emit g weave done names).1 (emit g' weave' done names).1 := by
  rw [emit_eq_gather, emit_eq_gather, printed_of_agree hagree hnames]
  exact Alike.gather fun n hn => hweave n (hnames n ((printed_sublist done names).subset hn))

include hconfines

section Calls

variable {weave weave' : Text → Text → Except Error (List Line)} {levels : Nat}
  (hweave : ∀ lead, ∀ n ∈ S, Alike (weave lead n) (weave' lead n))

include hweave

/-- A call that asks for names of the set is answered alike. -/
theorem alike_selfInclusion (lead : Text) {flags : Text}
    (hflags : ∀ p, Params.ofText? flags = .ok p → ∀ m ∈ p.values Vocabulary.nestedKey, m ∈ S) :
    Alike (g.selfInclusion o weave levels lead flags)
      (g'.selfInclusion o weave' levels lead flags) := by
  unfold selfInclusion
  split
  · exact .refl _
  refine (Alike.refl _).bind fun p hp => ?_
  have hnames := hflags p hp
  refine (Alike.checkAll fun n hn => (hagree n (hnames n hn)).require).bind fun _ _ => ?_
  rw [resolve_of_agree hconfines hagree hnames]
  refine (Alike.refl _).bind fun r hr => (Alike.refl _).bind fun inclusions _ => ?_
  exact (alike_emit hagree (hconfines.resolved hnames hr) (hweave lead) []).bind fun _ _ => .ok _

/-- A line that leads to names of the set is expanded alike. -/
theorem alike_expandLine (lead : Text) (expandsMarkers : Bool) {l : Line}
    (hl : ∀ m ∈ (Marker.role o.selfName expandsMarkers l).names, m ∈ S) :
    Alike (g.expandLine o weave levels lead expandsMarkers l)
      (g'.expandLine o weave' levels lead expandsMarkers l) := by
  unfold expandLine
  cases hrole : Marker.role o.selfName expandsMarkers l with
  | text => exact .refl _
  | reference indent m =>
    rw [hrole] at hl
    exact hweave _ m (hl m List.mem_cons_self)
  | request indent flags =>
    refine alike_selfInclusion hconfines hagree hweave _ fun p hp m hm => hl m ?_
    rw [hrole, Marker.Role.names, hp]
    exact hm

end Calls

/-- A name of the set is expanded alike, under every indentation and with any levels left. -/
theorem alike_expand (levels : Nat) (lead : Text) (hn : n ∈ S) :
    Alike (g.expand o levels lead n) (g'.expand o levels lead n) := by
  -- what the lines of a body lead to is in the set again, with one level less
  induction levels generalizing lead n with
  | zero => exact (hagree n hn).require.bind fun _ _ => .refl _
  | succ levels ih =>
    refine (hagree n hn).require.bind fun _ _ => ?_
    rw [gather_expandBody, gather_expandBody, (hagree n hn).bodies]
    refine Alike.gather fun body hbody => Alike.gather fun l hl => ?_
    exact alike_expandLine hconfines hagree (fun lead m hm => ih lead hm) lead body.1
      (hconfines.line hn hbody hl)

theorem alike_blockText (hn : n ∈ S) : Alike (g.blockText o n) (g'.blockText o n) :=
  (alike_expand hconfines hagree _ [] hn).bind fun _ _ => .ok _

theorem alike_stream {r : Resolution} (hr : ∀ n ∈ r.names, n ∈ S) :
    Alike (g.stream o r) (g'.stream o r) := by
  refine (Alike.refl _).bind fun inclusions _ => ?_
  exact (alike_emit hagree hr (fun n hn => alike_blockText hconfines hagree hn) []).bind
    fun _ _ => .ok _

end Confined

/-- On graphs that agree on a set of names which confines the first of them, a request for names of
the set is closed alike, and its closure comes to the same text, or fails with the same error up
to the known names that it lists. -/
theorem request_alike {g g' : Graph} {o : WeaveOptions} {S : Set Text}
    (hconfines : g.Confines o.selfName S) (hagree : ∀ n ∈ S, g.AgreesOn g' n) {names : List Text}
    (hnames : ∀ n ∈ names, n ∈ S) (external : List Text) (ceiling : Int) :
    g'.resolve names external ceiling = g.resolve names external ceiling ∧
      ∀ r, g.resolve names external ceiling = .ok r → Alike (g.stream o r) (g'.stream o r) :=
  ⟨resolve_of_agree hconfines hagree hnames external ceiling,
    fun _ hr => alike_stream hconfines hagree (hconfines.resolved hnames hr)⟩

/-- Soup with a stock that is made of bones, and a stew that lacks the lamb. -/
def broth : List (Text × Text) :=
  [("d.org".toList, ["* Soup\n", "#+depends:soup :cpp pot :noweb stock\n", "\n",
    "#+name: soup\n", "#+begin_src x\n", "  <<stock>>\n", "<<include(\x22:noweb stock\x22)>>\n",
    "#+end_src\n", "#+name: bones\n", "#+begin_src x :noweb-ref stock\n", "water\n", "salt\n",
    "#+end_src\n", "#+name: stew\n", "#+begin_src x\n", "<<lamb>>\n", "#+end_src\n"].flatMap
      String.toList)]

/-- The graph of `broth`. -/
def brothGraph : Graph where
  corpus := Corpus.ofTexts broth
  blocks :=
    [("soup".toList, [⟨4, 7, true, by decide⟩]), ("bones".toList, [⟨9, 12, true, by decide⟩]),
      ("stock".toList, [⟨9, 12, true, by decide⟩]), ("stew".toList, [⟨14, 16, true, by decide⟩])]
  dependencies :=
    [("soup".toList, ⟨["pot".toList], ["stock".toList]⟩), ("stock".toList, ⟨[], []⟩)]
  aggregates := [("stock".toList, ["bones".toList])]
  tangles := []

/-- The same dishes at other places in two documents, and a roast. -/
def tavern : List (Text × Text) :=
  [("e.org".toList, ["* Roast\n", "\n", "#+name: roast\n", "#+begin_src x\n", "<<oven>>\n",
    "dark\n", "#+end_src\n", "\n", "#+name: stew\n", "#+begin_src x\n", "<<lamb>>\n",
    "#+end_src\n"].flatMap String.toList),
    ("f.org".toList, ["#+name: bones\n", "#+begin_src x :noweb-ref stock\n", "water\n", "salt\n",
    "#+end_src\n", "#+name: soup\n", "#+begin_src x\n", "  <<stock>>\n",
    "<<include(\x22:noweb stock\x22)>>\n", "#+end_src\n",
    "#+depends:soup :cpp pot :noweb stock\n"].flatMap String.toList)]

/-- The graph of `tavern`. -/
def tavernGraph : Graph where
  corpus := Corpus.ofTexts tavern
  blocks :=
    [("roast".toList, [⟨3, 6, true, by decide⟩]), ("stew".toList, [⟨9, 11, true, by decide⟩]),
      ("bones".toList, [⟨13, 16, true, by decide⟩]), ("stock".toList, [⟨13, 16, true, by decide⟩]),
      ("soup".toList, [⟨18, 21, true, by decide⟩])]
  dependencies :=
    [("soup".toList, ⟨["pot".toList], ["stock".toList]⟩), ("stock".toList, ⟨[], []⟩)]
  aggregates := [("stock".toList, ["bones".toList])]
  tangles := []

/-- Four names of which both of them say the same. -/
def dishes : List Text := ["soup".toList, "stock".toList, "stew".toList, "lamb".toList]

/-- Both graphs weave the same soup, and the stew of neither is woven, as the lamb is not known. -/
theorem broth_alike :
    ofCorpus (Corpus.ofTexts broth) true = .ok brothGraph ∧
      ofCorpus (Corpus.ofTexts tavern) true = .ok tavernGraph ∧
      brothGraph.Confines Vocabulary.selfName {n | n ∈ dishes} ∧
      (∀ n ∈ dishes, brothGraph.AgreesOn tavernGraph n) ∧
      tavernGraph.resolve ["soup".toList] [] 1 =
        .ok ⟨["pot".toList], ["stock".toList, "soup".toList], []⟩ ∧
      tavernGraph.stream {} ⟨["pot".toList], ["stock".toList, "soup".toList], []⟩ =
        .ok "#include <pot>\nwater\nsalt\n  water\n  salt\nwater\nsalt\n".toList ∧
      (tavernGraph.stream {} ⟨[], ["stew".toList], []⟩).mapError Error.kind? =
        .error (some "UnknownBlockName".toList) := by
  have hconfines : brothGraph.Confines Vocabulary.selfName {n | n ∈ dishes} :=
    (by decide +kernel :
      ∀ n ∈ dishes, ∀ m ∈ brothGraph.uses Vocabulary.selfName n, m ∈ dishes)
  have hagree : ∀ n ∈ dishes, brothGraph.AgreesOn tavernGraph n := by decide +kernel
  have hsoup : brothGraph.resolve ["soup".toList] [] 1 =
      .ok ⟨["pot".toList], ["stock".toList, "soup".toList], []⟩ := by
    decide +kernel
  have htext : brothGraph.stream {} ⟨["pot".toList], ["stock".toList, "soup".toList], []⟩ =
      .ok "#include <pot>\nwater\nsalt\n  water\n  salt\nwater\nsalt\n".toList := by
    decide +kernel
  have hstew : brothGraph.resolve ["stew".toList] [] 1 = .ok ⟨[], ["stew".toList], []⟩ := by
    decide +kernel
  have hlamb : (brothGraph.stream {} ⟨[], ["stew".toList], []⟩).mapError Error.kind? =
      .error (some "UnknownBlockName".toList) := by
    decide +kernel
  have hsoups : ∀ n ∈ ["soup".toList], n ∈ dishes := by decide +kernel
  have hstews : ∀ n ∈ ["stew".toList], n ∈ dishes := by decide +kernel
  obtain ⟨hresolve, hstream⟩ := request_alike (o := {}) hconfines hagree hsoups [] 1
  obtain ⟨-, hfails⟩ := request_alike (o := {}) hconfines hagree hstews [] 1
  have halike := hstream _ hsoup
  rw [htext] at halike
  exact ⟨by decide +kernel, by decide +kernel, hconfines, hagree, hresolve.trans hsoup,
    halike.eq_ok, (hfails _ hstew).mapError_kind?.trans hlamb⟩

end Graph

end OrgWeave
