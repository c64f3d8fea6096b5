import OrgWeave.Proofs.Document.Kinds
import OrgWeave.Proofs.Graph.Places
import Mathlib.Data.List.Induction

/-!
# What the graph means

What a block graph says about a name can be stated without the pass that fills its tables.
The contributors of a name are the names of the blocks that share it
(`Corpus.contributorsOf`), its record is what it declares itself and then what its
contributors declare, wherever these lines stand (`Corpus.ownRecords`), and the tangle targets
are those of the `#+tangle:` lines. `Graph.Tabulates` says so of all tables at once, together
with the bodies (`Graph.Binds`), and that the tables hold nothing else.

Each table is followed through the scan on its own. What one step does to it is read off
`Scan.Step`, and `Scan.Tabulates` is what all of them carry on from place to place. The
records of aggregates are the exception : they are put together once the scan is over.

A graph can be built of all lines of a corpus, of elements, or of the elements of all documents
(`Graph.Built`). Where the places that are looked at stand in order (`Graph.BuiltInOrder`), it holds
what they declare.
-/

namespace OrgWeave

open Org

namespace Record

/-- The references that the parameters of a `#+depends:` line declare. -/
def ofParams (p : Params) : Record :=
  ⟨p.values Vocabulary.externalKey, p.values Vocabulary.nestedKey⟩

/-- The references of records, one record after another. -/
def concat (rs : List Record) : Record := ⟨rs.flatMap (·.external), rs.flatMap (·.nested)⟩

theorem concat_append (rs ss : List Record) :
    concat (rs ++ ss) = (concat rs).append (concat ss) := by
  simp [concat, append]

theorem concat_toList : ∀ r : Option Record, concat r.toList = r.getD .empty
  | none => rfl
  | some r => by simp [concat]

end Record

namespace Corpus

variable (c : Corpus)

/-- The name that line `i` gives to the source block on the next line. -/
def name? (i : Nat) : Option Text :=
  match c.directive? i with
  | some (.name n) => if c.opens (i + 1) then some n else none
  | _ => none

/-- The name that one of the places gives to the source block at a line. -/
def declared? (places : List Nat) : Nat → Option Text
  | 0 => none
  | i + 1 => if i ∈ places then c.name? i else none

instance (o : Nat) (n : Text) : Decidable (c.Shares o n) := inferInstanceAs (Decidable (_ ∧ _))

/-- The other names of the blocks that share `n`, in the order of the blocks. -/
def contributorsOf (places : List Nat) (n : Text) : List Text :=
  ((places.filter fun o => c.Shares o n).filterMap (c.declared? places)).filter (· ≠ n)

/-- The references that line `i` declares for `n`. -/
def record? (n : Text) (i : Nat) : Option Record :=
  match c.directive? i with
  | some (.depends m params) =>
    if m = n then (Params.ofText? params).toOption.map Record.ofParams else none
  | _ => none

/-- The records that the places declare for `n`. -/
def ownRecords (places : List Nat) (n : Text) : List Record := places.filterMap (c.record? n)

/-- The name and the file on a `#+tangle:` line. -/
def target? (i : Nat) : Option (Text × Text) :=
  match c.directive? i with
  | some (.tangle n destination) => some (n, destination)
  | _ => none

variable {c} {i o : Nat} {n : Text} {places : List Nat}

/-- A block shares a name exactly if its opening line gives one to share : no line that opens a
block is tried for a name first. -/
theorem shares_iff : c.Shares o n ↔ c.opens o = true ∧
    (Header.ofLine (c.lineAt o)).params.first? Vocabulary.referenceKey = some n := by
  refine and_congr_left fun _ => ?_
  rw [directive?, opens, Option.bind_eq_some_iff, Option.any_eq_true]
  exact exists_congr fun l => and_congr_right fun _ => Directive.ofLine?_eq_some_iff

theorem name?_eq_some_iff : c.name? i = some n ↔ c.Names i n := by
  unfold name? Names
  split
  next m hd => cases c.opens (i + 1) <;> simp [hd]
  next hnot =>
    constructor
    · rintro ⟨⟩
    · exact fun h => absurd h.1 (hnot n)

theorem declared?_eq_some_iff : c.declared? places o = some n ↔ c.NamedAt places o n := by
  cases o with
  | zero => simp [declared?, NamedAt]
  | succ i =>
    rw [declared?, Option.ite_none_right_eq_some, name?_eq_some_iff]
    constructor
    · rintro ⟨hi, hn⟩
      exact ⟨i, hi, rfl, hn⟩
    · rintro ⟨j, hj, hij, hn⟩
      obtain rfl : i = j := by omega
      exact ⟨hj, hn⟩

/-- A place names no block before the next line. -/
theorem declared?_append (ho : o ≤ i) : c.declared? (places ++ [i]) o = c.declared? places o := by
  cases o with
  | zero => rfl
  | succ j =>
    have hne : j ≠ i := by omega
    simp [declared?, hne]

/-- What one more place contributes, if it comes after all the others. -/
theorem contributorsOf_append (hlt : ∀ j ∈ places, j < i) :
    c.contributorsOf (places ++ [i]) n = c.contributorsOf places n ++
      if c.Shares i n then (c.declared? places i).toList.filter (· ≠ n) else [] := by
  have hbefore : (places.filter fun o => c.Shares o n).filterMap (c.declared? (places ++ [i])) =
      (places.filter fun o => c.Shares o n).filterMap (c.declared? places) :=
    List.filterMap_congr fun o ho =>
      declared?_append (Nat.le_of_lt (hlt o (List.mem_of_mem_filter ho)))
  rw [contributorsOf, List.filter_append, List.filterMap_append, List.filter_append, hbefore,
    ← contributorsOf]
  by_cases hs : c.Shares i n
  · cases hd : c.declared? places i <;> simp [hs, declared?_append, hd]
  · simp [hs]

end Corpus

namespace Scan

variable {c : Corpus} {collects : Bool} {s s' : Scan} {i : Nat} {l : Line} {n : Text}

/-! ## One step, table by table -/

@[simp]
theorem openBlock_dependencies : (openBlock c s i l).dependencies = s.dependencies := by
  rcases openBlock_cases c s i l with ⟨-, h⟩ | ⟨a, -, ⟨-, h⟩ | ⟨m, -, h⟩⟩ <;> rw [h] <;> rfl

@[simp]
theorem openBlock_tangles : (openBlock c s i l).tangles = s.tangles := by
  rcases openBlock_cases c s i l with ⟨-, h⟩ | ⟨a, -, ⟨-, h⟩ | ⟨m, -, h⟩⟩ <;> rw [h] <;> rfl

theorem has_bind {name : Text} {span : BodySpan} :
    (s.bind name span).blocks.has n = true ↔ n = name ∨ s.blocks.has n = true :=
  Table.has_alter _ name s.blocks n

theorem has_openBlock : (openBlock c s i l).blocks.has n = true ↔
    s.blocks.has n = true ∨ (Header.ofLine l).params.first? Vocabulary.referenceKey = some n := by
  rcases openBlock_cases c s i l with ⟨ha, h⟩ | ⟨a, ha, -⟩
  · simp [h, ha]
  · rw [openBlock_blocks ha, has_bind, ha, Option.some.injEq, eq_comm, or_comm]

theorem has_aggregate_openBlock (hs : ∀ n, s.aggregates.has n = true ↔ s.contributors n ≠ [])
    (n : Text) : (openBlock c s i l).aggregates.has n = true ↔
      (openBlock c s i l).contributors n ≠ [] := by
  rcases openBlock_cases c s i l with ⟨-, h⟩ | ⟨a, -, ⟨-, h⟩ | ⟨m, -, h⟩⟩ <;> rw [h]
  · exact hs n
  · exact hs n
  · rw [Table.has_alter, contributors]
    by_cases hn : n = a
    · subst hn
      simp [Table.get?_alter_self]
    · rw [Table.get?_alter_of_ne _ hn, or_iff_right hn]
      exact hs n

/-- Each table has a key once. -/
structure Keyed (s : Scan) : Prop where
  blocks : s.blocks.keys.Nodup
  dependencies : s.dependencies.keys.Nodup
  aggregates : s.aggregates.keys.Nodup
  tangles : s.tangles.keys.Nodup

theorem Keyed.empty : Scan.empty.Keyed :=
  ⟨List.nodup_nil, List.nodup_nil, List.nodup_nil, List.nodup_nil⟩

theorem Keyed.bind (h : s.Keyed) (name : Text) (span : BodySpan) : (s.bind name span).Keyed :=
  { h with blocks := Table.nodup_keys_alter _ name h.blocks }

theorem Keyed.openBlock (h : s.Keyed) : (openBlock c s i l).Keyed := by
  rcases openBlock_cases c s i l with ⟨-, heq⟩ | ⟨a, -, ⟨-, heq⟩ | ⟨m, -, heq⟩⟩ <;> rw [heq]
  · exact h
  · exact h.bind a _
  · exact { h.bind a _ with aggregates := Table.nodup_keys_alter _ a h.aggregates }

namespace Step

/-- Only a name line and an opening bind a block. -/
theorem has_block (h : Step c collects s i s') : s'.blocks.has n = true ↔
    s.blocks.has n = true ∨ c.Names i n ∨ c.Shares i n := by
  cases h with
  | name hd hopens _ =>
    have hnames : c.Names i n ↔ n = _ := Corpus.Names.iff_eq ⟨hd, hopens⟩
    rw [has_bind, or_comm, hnames]
    simp [Corpus.Shares, hd]
  | opening hd => simp [has_openBlock, Corpus.Names, Corpus.Shares, hd]
  | _ => simp [Corpus.Names, Corpus.Shares, *]

/-- Only an opening contributes, by the name declared for its block. -/
theorem contributors (h : Step c collects s i s') (n : Text) : s'.contributors n =
    s.contributors n ++
      if c.Shares i n then (s.declared.lookup i).toList.filter (· ≠ n) else [] := by
  cases h with
  | opening hd => simp [contributors_openBlock, Corpus.Shares, hd]
  | _ => simp [Scan.contributors, Scan.bind, Corpus.Shares, *]

/-- A name that contributes makes an aggregate, and nothing else does. -/
theorem has_aggregate (h : Step c collects s i s')
    (hs : ∀ n, s.aggregates.has n = true ↔ s.contributors n ≠ []) (n : Text) :
    s'.aggregates.has n = true ↔ s'.contributors n ≠ [] := by
  cases h with
  | opening hd => exact has_aggregate_openBlock hs n
  | _ => exact hs n

/-- A name has one record at most, that of its `#+depends:` line. -/
theorem dependencies (h : Step c collects s i s') (n : Text) :
    (s'.dependencies.get? n).toList =
      (s.dependencies.get? n).toList ++ (c.record? n i).toList := by
  cases h with
  | @depends m params p hd fresh hp =>
    by_cases hn : n = m
    · subst hn
      have habsent : s.dependencies.get? n = none := by simpa [Table.has] using fresh
      simp [Table.insert, Table.get?_alter_self, habsent, Corpus.record?, hd, hp,
        Except.toOption, Record.ofParams]
    · simp [Table.insert, Table.get?_alter_of_ne _ hn, Corpus.record?, hd, Ne.symm hn]
  | _ => simp [Scan.bind, Corpus.record?, *]

/-- The parameters of a `#+depends:` line are read on the way. -/
theorem readable (h : Step c collects s i s') {params : Text}
    (hd : c.directive? i = some (.depends n params)) : ∃ p, Params.ofText? params = .ok p := by
  cases h with
  | @depends m params' p hd' _ hp =>
    obtain ⟨rfl, rfl⟩ : m = n ∧ params' = params := by simpa using hd'.symm.trans hd
    exact ⟨p, hp⟩
  | _ => simp_all

/-- A tangle target comes behind those before it, unless they are passed over. -/
theorem tangles (h : Step c collects s i s') :
    s'.tangles = s.tangles ++ if collects then (c.target? i).toList else [] := by
  cases h with
  | @tangle m destination hd hcollects fresh =>
    have habsent : m ∉ s.tangles.keys := fun hm => by
      rw [Table.has_iff_mem_keys.2 hm] at fresh
      cases fresh
    simp [Table.insert, Table.alter_of_not_mem _ habsent, Corpus.target?, hd, hcollects]
  | _ => simp [Scan.bind, Corpus.target?, *]

theorem keyed (h : Step c collects s i s') (hs : s.Keyed) : s'.Keyed := by
  cases h with
  | name => exact { hs with blocks := Table.nodup_keys_alter _ _ hs.blocks }
  | opening => exact hs.openBlock
  | depends => exact { hs with dependencies := Table.nodup_keys_alter _ _ hs.dependencies }
  | tangle => exact { hs with tangles := Table.nodup_keys_alter _ _ hs.tangles }
  | _ => exact hs

end Step

/-! ## What the tables hold -/

/-- The tables hold what the places `done` declare of each name, and nothing else. -/
structure Tabulates (c : Corpus) (collects : Bool) (done : List Nat) (s : Scan) : Prop
    extends Reads c done s, Keyed s where
  has_block : ∀ n, s.blocks.has n = true ↔ ∃ o, c.Binds done o n
  contributors_eq : ∀ n, s.contributors n = c.contributorsOf done n
  has_aggregate : ∀ n, s.aggregates.has n = true ↔ s.contributors n ≠ []
  own : ∀ n, (s.dependencies.get? n).toList = c.ownRecords done n
  readable : ∀ i ∈ done, ∀ n params, c.directive? i = some (.depends n params) →
    ∃ p, Params.ofText? params = .ok p
  tangles_eq : s.tangles = if collects then done.filterMap c.target? else []

namespace Tabulates

variable {done : List Nat}

theorem empty (c : Corpus) (collects : Bool) : Tabulates c collects [] Scan.empty :=
  { Reads.empty c, Keyed.empty with
    has_block := by simp [Scan.empty, Table.has, Table.get?, Corpus.Binds, Corpus.NamedAt]
    contributors_eq := fun _ => rfl
    has_aggregate := by simp [Scan.empty, Table.has, Table.get?, contributors]
    own := fun _ => rfl
    readable := by simp
    tangles_eq := by simp [Scan.empty] }

/-- The name remembered for an opening is the one declared for it. -/
theorem lookup_declared (h : Reads c done s) (o : Nat) :
    s.declared.lookup o = c.declared? done o := by
  refine Option.ext fun n => ?_
  rw [Corpus.declared?_eq_some_iff, ← h.mem_declared]
  exact h.lookup_eq_some_iff

/-- Every place keeps the tables in line with what the places declare. -/
theorem step (h : Tabulates c collects done s) (hlt : ∀ j ∈ done, j < i)
    (hs : Step c collects s i s') : Tabulates c collects (done ++ [i]) s' where
  toReads := h.toReads.step hlt hs
  toKeyed := hs.keyed h.toKeyed
  has_block n := by
    simp only [hs.has_block, h.has_block, Corpus.binds_append, exists_or, exists_eq_left]
  contributors_eq n := by
    rw [hs.contributors, h.contributors_eq, Corpus.contributorsOf_append hlt,
      lookup_declared h.toReads]
  has_aggregate := hs.has_aggregate h.has_aggregate
  own n := by
    rw [hs.dependencies, h.own, Corpus.ownRecords, Corpus.ownRecords, List.filterMap_append]
    cases hr : c.record? n i <;> simp [hr]
  readable j hj n params hd := by
    rcases List.mem_append.1 hj with hj | hj
    · exact h.readable j hj n params hd
    · rw [List.mem_singleton.1 hj] at hd
      exact hs.readable hd
  tangles_eq := by
    rw [hs.tangles, h.tangles_eq]
    cases collects
    · simp
    · cases ht : c.target? i <;> simp [ht]

theorem run (h : Tabulates c collects done s) {places : List Nat}
    (hinc : (done ++ places).Pairwise (· < ·)) (hrun : Scan.run c collects s places = .ok s') :
    Tabulates c collects (done ++ places) s' :=
  run_keeps (fun hlt h hs => h.step hlt hs) h hinc hrun

end Tabulates

/-! ## The finished graph -/

/-- The record of an aggregate puts the records of its contributors behind its own. -/
theorem aggregateRecord_eq (s : Scan) (n : Text) (ns : List Text) : s.aggregateRecord n ns =
    .concat ((s.dependencies.get? n).toList ++
      ns.flatMap fun m => (s.dependencies.get? m).toList) := by
  induction ns using List.reverseRecOn with
  | nil => simp [aggregateRecord, ownRecord, Record.concat_toList]
  | append_singleton ns m ih =>
    have hsnoc : s.aggregateRecord n (ns ++ [m]) =
        (s.aggregateRecord n ns).append (s.ownRecord m) := by
      simp [aggregateRecord]
    rw [hsnoc, ih, ownRecord, ← Record.concat_toList, ← Record.concat_append]
    simp

theorem get?_finish (h : s.Keyed) (n : Text) : (s.finish c).dependencies.get? n =
    ((s.aggregates.get? n).map (s.aggregateRecord n)).or (s.dependencies.get? n) :=
  Table.get?_foldl_insert s.aggregateRecord n s.aggregates s.dependencies h.aggregates

theorem record_finish (h : s.Keyed) (n : Text) : (s.finish c).record n =
    .concat ((s.dependencies.get? n).toList ++
      (s.contributors n).flatMap fun m => (s.dependencies.get? m).toList) := by
  rw [Graph.record, get?_finish h, contributors]
  cases s.aggregates.get? n with
  | none => simp [Record.concat_toList]
  | some ns => simp [aggregateRecord_eq]

theorem has_finish (h : s.Keyed) (n : Text) : (s.finish c).dependencies.has n = true ↔
    s.dependencies.has n = true ∨ s.aggregates.has n = true := by
  rw [Table.has, get?_finish h, Table.has, Table.has]
  cases s.aggregates.get? n <;> simp

end Scan

namespace Corpus

/-- Whether line `j` closes a source block. -/
def closes (c : Corpus) (j : Nat) : Bool := (c.lines[j]?).any closesSource

/-- The span starts right behind its opening and ends in front of the first line that closes a
source block, or with the corpus if there is none. -/
structure Delimits (c : Corpus) (sp : BodySpan) : Prop where
  start : sp.start = sp.opening + 1
  stop_le : sp.stop ≤ c.lines.length
  unclosed : ∀ j, sp.opening < j → j < sp.stop → c.closes j = false
  closed : sp.stop < c.lines.length → c.closes sp.stop = true

variable {c : Corpus} {places : List Nat} {o : Nat} {n : Text}

theorem Binds.lt_length (h : c.Binds places o n) : o < c.lines.length := by
  by_contra hlt
  have hnone : c.lines[o]? = none := List.getElem?_eq_none (Nat.le_of_not_lt hlt)
  rcases h with ⟨i, -, rfl, hn⟩ | ⟨-, hs⟩
  · have := hn.2
    simp [opens, hnone] at this
  · have := hs.1
    simp [directive?, hnone] at this

theorem delimits_bodyAt (ho : o < c.lines.length) : c.Delimits (c.bodyAt o) := by
  have hstop : (c.bodyAt o).stop = o + 1 + (c.lines.drop (o + 1)).findIdx closesSource := rfl
  have hle : (c.lines.drop (o + 1)).findIdx closesSource ≤ (c.lines.drop (o + 1)).length :=
    List.findIdx_le_length
  rw [List.length_drop] at hle
  refine ⟨rfl, by omega, fun j hj hjstop => ?_, fun hlt => ?_⟩
  · have hj : o < j := hj
    obtain ⟨k, rfl⟩ := Nat.exists_eq_add_of_lt hj
    have hk : k < (c.lines.drop (o + 1)).findIdx closesSource := by omega
    have hclosed := List.not_of_lt_findIdx hk
    rw [List.getElem_drop] at hclosed
    have hj' : o + k + 1 < c.lines.length := by omega
    rw [closes, List.getElem?_eq_getElem hj', Option.any_some]
    simpa [show o + 1 + k = o + k + 1 by omega] using hclosed
  · have hk : (c.lines.drop (o + 1)).findIdx closesSource < (c.lines.drop (o + 1)).length := by
      rw [List.length_drop]
      omega
    have hclosed := List.findIdx_getElem (w := hk)
    rw [List.getElem_drop] at hclosed
    rw [closes, List.getElem?_eq_getElem hlt, Option.any_some]
    exact hclosed

end Corpus

namespace Graph

/-- The tables of the graph hold what the places declare of each name, and nothing else. -/
structure Tabulates (c : Corpus) (collects : Bool) (places : List Nat) (g : Graph) : Prop
    extends Binds c places g where
  corpus : g.corpus = c
  has_block : ∀ n, g.blocks.has n = true ↔ ∃ o, c.Binds places o n
  delimits : ∀ n, ∀ sp ∈ g.spans n, c.Delimits sp
  contributors_eq : ∀ n, g.contributors n = c.contributorsOf places n
  has_aggregate : ∀ n, g.aggregates.has n = true ↔ c.contributorsOf places n ≠ []
  /-- A name has one record of its own at most. -/
  own : ∀ n, (c.ownRecords places n).length ≤ 1
  readable : ∀ i ∈ places, ∀ n params, c.directive? i = some (.depends n params) →
    ∃ p, Params.ofText? params = .ok p
  record_eq : ∀ n, g.record n =
    .concat (c.ownRecords places n ++ (c.contributorsOf places n).flatMap (c.ownRecords places))
  has_dependency : ∀ n, g.dependencies.has n = true ↔
    c.ownRecords places n ≠ [] ∨ c.contributorsOf places n ≠ []
  tangles_eq : g.tangles = if collects then places.filterMap c.target? else []
  nodup_blocks : g.blocks.keys.Nodup
  nodup_dependencies : g.dependencies.keys.Nodup
  nodup_aggregates : g.aggregates.keys.Nodup
  nodup_tangles : g.tangles.keys.Nodup

theorem tabulates_of_ofPlaces {c : Corpus} {collects : Bool} {places : List Nat} {g : Graph}
    (hinc : places.Pairwise (· < ·)) (h : ofPlaces c collects places = .ok g) :
    Tabulates c collects places g := by
  have hbinds := binds_of_ofPlaces hinc h
  obtain ⟨s, hrun, h⟩ := bind_eq_ok.1 h
  cases h
  have hs := (Scan.Tabulates.empty c collects).run (by simpa using hinc) hrun
  rw [List.nil_append] at hs
  have hrecords : ∀ n, s.dependencies.has n = true ↔ c.ownRecords places n ≠ [] := by
    intro n
    rw [← hs.own, Table.has, Option.isSome_iff_ne_none, Ne, Ne, Option.toList_eq_nil_iff]
  exact {
    hbinds with
    corpus := rfl
    has_block := hs.has_block
    delimits := by
      intro n sp hsp
      obtain ⟨hbound, hsp⟩ := (hbinds.mem_spans n sp).1 hsp
      rw [hsp]
      exact Corpus.delimits_bodyAt hbound.lt_length
    contributors_eq := hs.contributors_eq
    has_aggregate := by
      intro n
      rw [← hs.contributors_eq]
      exact hs.has_aggregate n
    own := by
      intro n
      rw [← hs.own, Option.length_toList]
      split <;> decide
    readable := hs.readable
    record_eq := by
      intro n
      simp only [Scan.record_finish hs.toKeyed, hs.own, hs.contributors_eq]
    has_dependency := by
      intro n
      rw [Scan.has_finish hs.toKeyed, hrecords, hs.has_aggregate, hs.contributors_eq]
    tangles_eq := hs.tangles_eq
    nodup_blocks := hs.blocks
    nodup_dependencies := Table.nodup_keys_foldl_insert _ _ hs.dependencies
    nodup_aggregates := hs.aggregates
    nodup_tangles := hs.tangles }

/-- The graph of a corpus holds what its directive places declare, whatever the order. -/
theorem tabulates_of_ofCorpus {docs : List (Text × Text)} {collects : Bool} {g : Graph}
    (h : ofCorpus (Corpus.ofTexts docs) collects = .ok g) :
    ∃ es, parseCorpus (Corpus.ofTexts docs) = .ok es ∧
      (directivePlaces es).Pairwise (· < ·) ∧
      Tabulates (Corpus.ofTexts docs) collects (directivePlaces es) g := by
  obtain ⟨es, hes, h⟩ := bind_eq_ok.1 h
  have hinc := (tiles_of_parseCorpus hes).increasing_directivePlaces
  exact ⟨es, hes, hinc, tabulates_of_ofPlaces hinc h⟩

/-! ## Ways to build a graph -/

/-- A graph is over the corpus whose lines are looked at. -/
theorem corpus_of_ofPlaces {c : Corpus} {collects : Bool} {places : List Nat} {g : Graph}
    (h : ofPlaces c collects places = .ok g) : g.corpus = c := by
  obtain ⟨s, -, h⟩ := bind_eq_ok.1 h
  cases h
  rfl

theorem corpus_of_ofCorpus {c : Corpus} {collects : Bool} {g : Graph}
    (h : ofCorpus c collects = .ok g) : g.corpus = c := by
  obtain ⟨es, -, h⟩ := bind_eq_ok.1 h
  exact corpus_of_ofPlaces h

/-- The graphs that can be built : from all lines of a corpus, from some elements, or from the
elements of all documents. -/
inductive Built : Graph → Prop
  | ofLines {c : Corpus} {collects : Bool} {g : Graph} (h : ofLines c collects = .ok g) : Built g
  | ofElements {c : Corpus} {es : List Org.Element} {collects : Bool} {g : Graph}
      (h : ofElements c es collects = .ok g) : Built g
  | ofCorpus {c : Corpus} {collects : Bool} {g : Graph} (h : ofCorpus c collects = .ok g) : Built g

/-- Each of them is what a scan of some places comes to. -/
theorem Built.exists_run {g : Graph} (h : g.Built) :
    ∃ c collects places s, Scan.run c collects .empty places = .ok s ∧ s.finish c = g := by
  have hplaces : ∃ c collects places, ofPlaces c collects places = .ok g := by
    cases h with
    | ofLines h => exact ⟨_, _, _, h⟩
    | ofElements h => exact ⟨_, _, _, h⟩
    | ofCorpus h =>
      obtain ⟨es, -, h⟩ := bind_eq_ok.1 h
      exact ⟨_, _, _, h⟩
  obtain ⟨c, collects, places, h⟩ := hplaces
  obtain ⟨s, hrun, h⟩ := bind_eq_ok.1 h
  cases h
  exact ⟨c, collects, places, s, hrun, rfl⟩

/-- The graphs that are built front to back, with the places where directives are looked for : from
all lines of a corpus, from elements one behind another, or from the elements of all documents. -/
inductive BuiltInOrder : Corpus → List Nat → Graph → Prop
  | ofLines {c : Corpus} {collects : Bool} {g : Graph} (h : ofLines c collects = .ok g) :
      BuiltInOrder c (List.range c.lines.length) g
  | ofElements {c : Corpus} {es : List Org.Element} {collects : Bool} {g : Graph}
      (hinc : (directivePlaces es).Pairwise (· < ·)) (h : ofElements c es collects = .ok g) :
      BuiltInOrder c (directivePlaces es) g
  | ofCorpus {docs : List (Text × Text)} {es : List Org.Element} {collects : Bool} {g : Graph}
      (hes : parseCorpus (Corpus.ofTexts docs) = .ok es)
      (h : ofCorpus (Corpus.ofTexts docs) collects = .ok g) :
      BuiltInOrder (Corpus.ofTexts docs) (directivePlaces es) g

/-- Each of them holds what these places declare. -/
theorem BuiltInOrder.tabulates {c : Corpus} {places : List Nat} {g : Graph}
    (h : BuiltInOrder c places g) :
    places.Pairwise (· < ·) ∧ ∃ collects, Tabulates c collects places g := by
  cases h with
  | ofLines h => exact ⟨List.pairwise_lt_range, _, tabulates_of_ofPlaces List.pairwise_lt_range h⟩
  | ofElements hinc h => exact ⟨hinc, _, tabulates_of_ofPlaces hinc h⟩
  | ofCorpus hes h =>
    obtain ⟨es', hes', hinc, htable⟩ := tabulates_of_ofCorpus h
    cases hes.symm.trans hes'
    exact ⟨hinc, _, htable⟩

/-- Two blocks share `s`, the second one under the name that can be given again and never closed;
the records and the target come after the blocks. -/
def late : List (Text × Text) :=
  [("d.org".toList, ("#+name: a\n#+begin_src x :noweb-ref s\n#+end_src\n#+name: include\n" ++
    "#+begin_src x :noweb-ref s\n#+depends:a :noweb b\n#+depends:s :cpp v\n" ++
    "#+tangle:a o\n").toList)]

def lateGraph : Graph where
  corpus := Corpus.ofTexts late
  blocks := [("a".toList, [⟨1, 2, true, by decide⟩]),
    ("s".toList, [⟨1, 2, true, by decide⟩, ⟨4, 8, true, by decide⟩]),
    ("include".toList, [⟨4, 8, true, by decide⟩])]
  dependencies := [("a".toList, ⟨[], ["b".toList]⟩), ("s".toList, ⟨["v".toList], ["b".toList]⟩)]
  aggregates := [("s".toList, ["a".toList, "include".toList])]
  tangles := [("a".toList, "o".toList)]

theorem late_tabulates : ofCorpus (Corpus.ofTexts late) true = .ok lateGraph ∧
    ∃ es, parseCorpus (Corpus.ofTexts late) = .ok es ∧ directivePlaces es = [0, 1, 3, 4, 5, 6, 7] ∧
      Tabulates (Corpus.ofTexts late) true (directivePlaces es) lateGraph := by
  have hgraph : ofCorpus (Corpus.ofTexts late) true = .ok lateGraph := by decide +kernel
  obtain ⟨es, hes, -, htable⟩ := tabulates_of_ofCorpus hgraph
  have hplaces : (parseCorpus (Corpus.ofTexts late)).map directivePlaces =
      .ok [0, 1, 3, 4, 5, 6, 7] := by
    decide +kernel
  rw [hes, Except.map, Except.ok.injEq] at hplaces
  exact ⟨hgraph, es, hes, hplaces, htable⟩

end Graph

end OrgWeave
