import OrgWeave.Gather
import OrgWeave.Graph.Scan
import Mathlib.Data.List.Basic

/-!
# What the documents bind

What a block graph says about bodies can be read off the corpus without running the scan.
Line `i` names the block that opens on the next line (`Corpus.Names`), and an opening line
shares its block with a name (`Corpus.Shares`). `Corpus.Binds places o n` says that one of
the places that are looked at binds the block at `o` to `n`, in one of these two ways.

`Scan.Step` spells out what a single place can do to the tables, one case for each
directive. If the places come in increasing order, each of them keeps `Scan.Reads`, by which
the tables hold exactly what the places so far bind (`Scan.Reads.run`). A block that opens
right after a name line is looked at after that line, so that its name is known by then;
this is where the order of the places matters.
-/

namespace OrgWeave

open Org

namespace Corpus

variable (c : Corpus)

def directive? (i : Nat) : Option Directive := (c.lines[i]?).bind Directive.ofLine?

def lineAt (i : Nat) : Line := (c.lines[i]?).getD []

/-- Whether a source block opens at `o`. -/
def opens (o : Nat) : Bool := (c.lines[o]?).any opensSource

/-- The body of the source block that opens at `o`. -/
def bodyAt (o : Nat) : BodySpan := Scan.spanAt c o (c.lineAt o)

/-- Line `i` gives the name `n` to the source block that opens on the next line. -/
def Names (i : Nat) (n : Text) : Prop := c.directive? i = some (.name n) ∧ c.opens (i + 1) = true

/-- The source block that opens at `o` shares the name `n`. -/
def Shares (o : Nat) (n : Text) : Prop :=
  c.directive? o = some .opening ∧
    (Header.ofLine (c.lineAt o)).params.first? Vocabulary.referenceKey = some n

/-- One of the places names the source block that opens at `o`. -/
def NamedAt (places : List Nat) (o : Nat) (n : Text) : Prop :=
  ∃ i ∈ places, o = i + 1 ∧ c.Names i n

/-- One of the places binds the source block that opens at `o` to the name `n`. -/
def Binds (places : List Nat) (o : Nat) (n : Text) : Prop :=
  c.NamedAt places o n ∨ (o ∈ places ∧ c.Shares o n)

/-- A block that is named `n` shares the other name `a`. -/
def Contributes (places : List Nat) (n a : Text) : Prop :=
  n ≠ a ∧ ∃ o ∈ places, c.NamedAt places o n ∧ c.Shares o a

variable {c} {i o : Nat} {n m a : Text} {places : List Nat}

theorem Names.unique (h : c.Names i n) (h' : c.Names i m) : n = m := by
  have := h.1.symm.trans h'.1
  simpa using this

theorem Shares.unique (h : c.Shares i n) (h' : c.Shares i m) : n = m := by
  have := h.2.symm.trans h'.2
  simpa using this

theorem Names.iff_eq (h : c.Names i n) : c.Names i m ↔ m = n :=
  ⟨fun hm => hm.unique h, fun hm => hm ▸ h⟩

theorem Shares.iff_eq (h : c.Shares i n) : c.Shares i m ↔ m = n :=
  ⟨fun hm => hm.unique h, fun hm => hm ▸ h⟩

theorem Names.not_shares (h : c.Names i n) : ¬c.Shares i m := by
  intro h'
  have := h.1.symm.trans h'.1
  simp at this

theorem NamedAt.unique (h : c.NamedAt places o n) (h' : c.NamedAt places o m) : n = m := by
  obtain ⟨i, -, hi, hn⟩ := h
  obtain ⟨j, -, hj, hm⟩ := h'
  obtain rfl : i = j := by omega
  exact hn.unique hm

/-- What one more place names. -/
theorem namedAt_append :
    c.NamedAt (places ++ [i]) o n ↔ c.NamedAt places o n ∨ (o = i + 1 ∧ c.Names i n) := by
  simp [NamedAt, or_and_right, exists_or]

/-- What one more place binds. -/
theorem binds_append : c.Binds (places ++ [i]) o n ↔
    c.Binds places o n ∨ (o = i + 1 ∧ c.Names i n) ∨ (o = i ∧ c.Shares i n) := by
  have hshares : o = i ∧ c.Shares o n ↔ o = i ∧ c.Shares i n :=
    and_congr_right fun ho => by rw [ho]
  rw [Binds, Binds, namedAt_append, List.mem_append, List.mem_singleton, or_and_right, hshares]
  tauto

/-- What one more place contributes, if it comes after all the others : only an opening
does, by the name on the line before it. -/
theorem contributes_append (hlt : ∀ j ∈ places, j < i) : c.Contributes (places ++ [i]) n a ↔
    c.Contributes places n a ∨ (n ≠ a ∧ c.Shares i a ∧ c.NamedAt places i n) := by
  simp only [Contributes, namedAt_append, List.mem_append, List.mem_singleton]
  constructor
  · rintro ⟨hne, o, ho | rfl, hn | ⟨hi, -⟩, hs⟩
    · exact Or.inl ⟨hne, o, ho, hn, hs⟩
    · have := hlt o ho
      omega
    · exact Or.inr ⟨hne, hs, hn⟩
    · omega
  · rintro (⟨hne, o, ho, hn, hs⟩ | ⟨hne, hs, hn⟩)
    · exact ⟨hne, o, Or.inl ho, Or.inl hn, hs⟩
    · exact ⟨hne, i, Or.inr rfl, Or.inl hn, hs⟩

end Corpus

namespace Scan

variable {c : Corpus} {collects : Bool} {s s' : Scan} {i : Nat}

/-- The bodies bound to a name so far. -/
def spans (s : Scan) (n : Text) : List BodySpan := (s.blocks.get? n).getD []

/-- The contributors of a name so far. -/
def contributors (s : Scan) (n : Text) : List Text := (s.aggregates.get? n).getD []

theorem spans_bind (s : Scan) (name : Text) (span : BodySpan) (n : Text) :
    (s.bind name span).spans n =
      if n = name ∧ span ∉ s.spans name then s.spans name ++ [span] else s.spans n := by
  by_cases hn : n = name
  · subst hn
    simp only [spans, Scan.bind, Table.get?_alter_self, Option.getD_some, true_and]
    split <;> simp_all
  · simp [spans, Scan.bind, Table.get?_alter_of_ne _ hn, hn]

theorem mem_spans_bind {name n : Text} {span sp : BodySpan} :
    sp ∈ (s.bind name span).spans n ↔ sp ∈ s.spans n ∨ (n = name ∧ sp = span) := by
  rw [spans_bind]
  split
  · rename_i h
    simp [h.1]
  · rename_i h
    constructor
    · exact Or.inl
    · rintro (hsp | ⟨rfl, rfl⟩)
      · exact hsp
      · by_contra hnot
        exact h ⟨rfl, hnot⟩

/-- A body that opens behind all others can be bound behind them. -/
theorem increasing_bind_self {o : Nat} {n : Text}
    (hinc : (s.spans n).Pairwise fun sp sp' => sp.opening < sp'.opening)
    (ho : ∀ sp ∈ s.spans n, sp ≠ c.bodyAt o → sp.opening < o) :
    ((s.bind n (c.bodyAt o)).spans n).Pairwise fun sp sp' => sp.opening < sp'.opening := by
  rw [spans_bind]
  split
  · rename_i hn
    refine List.pairwise_append.2 ⟨hinc, List.pairwise_singleton _ _, ?_⟩
    intro sp hsp sp' hsp'
    rw [List.mem_singleton.1 hsp']
    exact ho sp hsp fun heq => hn.2 (heq ▸ hsp)
  · exact hinc

/-! ## One step -/

/-- The opening of a block leaves the tables alone, binds the block, or binds it and lets a
name contribute. -/
theorem openBlock_cases (c : Corpus) (s : Scan) (i : Nat) (l : Line) :
    ((Header.ofLine l).params.first? Vocabulary.referenceKey = none ∧ openBlock c s i l = s) ∨
      ∃ a, (Header.ofLine l).params.first? Vocabulary.referenceKey = some a ∧
        (((s.declared.lookup i).toList.filter (· ≠ a) = [] ∧
            openBlock c s i l = s.bind a (spanAt c i l)) ∨
          ∃ m, (s.declared.lookup i).toList.filter (· ≠ a) = [m] ∧
            openBlock c s i l = { s.bind a (spanAt c i l) with
              aggregates := Table.alter (fun old => old.getD [] ++ [m]) a s.aggregates }) := by
  unfold openBlock
  split
  next hnone => exact Or.inl ⟨hnone, rfl⟩
  next a hsome =>
    refine Or.inr ⟨a, hsome, ?_⟩
    dsimp only
    split
    next hnone => exact Or.inl ⟨by simp [hnone], rfl⟩
    next m hm =>
      split
      next hma => exact Or.inl ⟨by simp [hm, hma], rfl⟩
      next hma => exact Or.inr ⟨m, by simp [hm, hma], rfl⟩

@[simp]
theorem openBlock_declared {l : Line} : (openBlock c s i l).declared = s.declared := by
  rcases openBlock_cases c s i l with ⟨-, h⟩ | ⟨a, -, ⟨-, h⟩ | ⟨m, -, h⟩⟩ <;> rw [h] <;> rfl

theorem openBlock_blocks {l : Line} {a : Text}
    (ha : (Header.ofLine l).params.first? Vocabulary.referenceKey = some a) :
    (openBlock c s i l).blocks = (s.bind a (spanAt c i l)).blocks := by
  rcases openBlock_cases c s i l with ⟨hnone, -⟩ | ⟨b, hb, h⟩
  · rw [ha] at hnone
    cases hnone
  · obtain rfl : a = b := Option.some.inj (ha.symm.trans hb)
    rcases h with ⟨-, h⟩ | ⟨m, -, h⟩ <;> rw [h]

/-- The name of a block contributes to the name that the block shares, and to no other. -/
theorem contributors_openBlock {l : Line} {n : Text} : (openBlock c s i l).contributors n =
    s.contributors n ++
      if (Header.ofLine l).params.first? Vocabulary.referenceKey = some n then
        (s.declared.lookup i).toList.filter (· ≠ n) else [] := by
  rcases openBlock_cases c s i l with ⟨ha, h⟩ | ⟨a, ha, hbound⟩
  · simp [h, ha]
  · by_cases hn : n = a
    · subst hn
      rw [if_pos ha]
      rcases hbound with ⟨hm, h⟩ | ⟨m, hm, h⟩
      · rw [h, hm, List.append_nil]
        rfl
      · rw [h, hm, contributors, Table.get?_alter_self]
        rfl
    · rw [if_neg fun heq => hn (Option.some.inj (heq.symm.trans ha)), List.append_nil]
      rcases hbound with ⟨-, h⟩ | ⟨m, -, h⟩
      · rw [h]
        rfl
      · rw [h, contributors, Table.get?_alter_of_ne _ hn]
        rfl

/-- What the directive at place `i` makes of the tables. -/
inductive Step (c : Corpus) (collects : Bool) (s : Scan) (i : Nat) : Scan → Prop
  | silent (hd : c.directive? i = none) : Step c collects s i s
  | unused {n : Text} (hd : c.directive? i = some (.name n)) (hopens : c.opens (i + 1) = false) :
      Step c collects s i s
  | name {n : Text} (hd : c.directive? i = some (.name n)) (hopens : c.opens (i + 1) = true)
      (fresh : n = Vocabulary.selfName ∨ s.blocks.has n = false) :
      Step c collects s i
        ({ s with declared := (i + 1, n) :: s.declared }.bind n (c.bodyAt (i + 1)))
  | opening (hd : c.directive? i = some .opening) :
      Step c collects s i (openBlock c s i (c.lineAt i))
  | depends {n params : Text} {p : Params} (hd : c.directive? i = some (.depends n params))
      (fresh : s.dependencies.has n = false) (hp : Params.ofText? params = .ok p) :
      Step c collects s i { s with
        dependencies := s.dependencies.insert n
          ⟨p.values Vocabulary.externalKey, p.values Vocabulary.nestedKey⟩ }
  | passed {n destination : Text} (hd : c.directive? i = some (.tangle n destination))
      (hcollects : collects = false) : Step c collects s i s
  | tangle {n destination : Text} (hd : c.directive? i = some (.tangle n destination))
      (hcollects : collects = true) (fresh : s.tangles.has n = false) :
      Step c collects s i { s with tangles := s.tangles.insert n destination }

/-- A refused declaration is never a success. -/
theorem duplicate_ne_ok {what : Declared} {name : Text} : duplicate c what name i ≠ .ok s := by
  unfold duplicate
  intro h
  obtain ⟨location, -, h⟩ := bind_eq_ok.1 h
  cases h

/-- A step goes by the directive of its place, if the place has one. -/
theorem step_eq (c : Corpus) (collects : Bool) (s : Scan) (i : Nat) : step c collects s i =
    match c.directive? i with
    | none => .ok s
    | some (.name n) =>
      if c.opens (i + 1) then declareName c s n i (c.lineAt (i + 1)) else .ok s
    | some .opening => .ok (openBlock c s i (c.lineAt i))
    | some (.depends n params) => declareDependencies c s n params i
    | some (.tangle n destination) =>
      if collects then declareTangle c s n destination i else .ok s := by
  unfold step Corpus.directive? Corpus.lineAt Corpus.opens
  cases c.lines[i]? with
  | none => rfl
  | some l =>
    simp only [Option.bind_some, Option.getD_some]
    cases Directive.ofLine? l with
    | none => rfl
    | some d =>
      cases d with
      | name n => cases c.lines[i + 1]? <;> rfl
      | opening => rfl
      | depends n params => rfl
      | tangle n destination => rfl

theorem step_of_ok (h : step c collects s i = .ok s') : Step c collects s i s' := by
  rw [step_eq] at h
  split at h
  next hd =>
    cases h
    exact .silent hd
  next n hd =>
    split at h
    next hopens =>
      unfold declareName at h
      split at h
      next => exact absurd h duplicate_ne_ok
      next hfresh =>
        cases h
        rw [not_and_or, not_not, Bool.not_eq_true] at hfresh
        exact .name hd hopens hfresh
    next hopens =>
      cases h
      exact .unused hd (by simpa using hopens)
  next hd =>
    cases h
    exact .opening hd
  next n params hd =>
    unfold declareDependencies at h
    split at h
    next => exact absurd h duplicate_ne_ok
    next hfresh =>
      obtain ⟨p, hp, h⟩ := bind_eq_ok.1 h
      cases h
      exact .depends hd (by simpa using hfresh) hp
  next n destination hd =>
    split at h
    next hcollects =>
      unfold declareTangle at h
      split at h
      next => exact absurd h duplicate_ne_ok
      next hfresh =>
        cases h
        exact .tangle hd hcollects (by simpa using hfresh)
    next hcollects =>
      cases h
      exact .passed hd (by simpa using hcollects)

/-- The steps of the scan are these and no others. -/
theorem step_eq_ok_iff : step c collects s i = .ok s' ↔ Step c collects s i s' := by
  refine ⟨step_of_ok, fun h => ?_⟩
  rw [step_eq]
  cases h with
  | silent hd => simp only [hd]
  | unused hd hopens => simp [hd, hopens]
  | name hd hopens fresh =>
    have hfree : ¬(_ ≠ Vocabulary.selfName ∧ s.blocks.has _ = true) := fun h => by
      rcases fresh with heq | hnot
      · exact h.1 heq
      · rw [hnot] at h
        cases h.2
    simp only [hd, hopens, declareName, if_neg hfree, if_true]
    rfl
  | opening hd => simp only [hd]
  | depends hd fresh hp =>
    simp only [hd, declareDependencies, fresh, hp]
    rfl
  | passed hd hcollects => simp [hd, hcollects]
  | tangle hd hcollects fresh => simp [hd, hcollects, declareTangle, fresh]

theorem run_append (xs ys : List Nat) (s : Scan) : run c collects s (xs ++ ys) =
    run c collects s xs >>= fun s => run c collects s ys := by
  induction xs generalizing s with
  | nil => rfl
  | cons i xs ih =>
    rw [List.cons_append, run, run, bind_assoc]
    exact bind_congr ih

/-- What every step carries on, a scan of places in any order carries on. -/
theorem run_carries {P : Scan → Prop}
    (hstep : ∀ {i : Nat} {s s' : Scan}, P s → Step c collects s i s' → P s')
    {places : List Nat} (h : P s) (hrun : run c collects s places = .ok s') : P s' := by
  induction places generalizing s with
  | nil =>
    cases hrun
    exact h
  | cons i places ih =>
    obtain ⟨t, hi, hrest⟩ := bind_eq_ok.1 hrun
    exact ih (hstep h (step_of_ok hi)) hrest

/-- What every step carries on from the places before it to the places up to it, a scan of
places in increasing order carries on. -/
theorem run_keeps {P : List Nat → Scan → Prop}
    (hstep : ∀ {done : List Nat} {i : Nat} {s s' : Scan}, (∀ j ∈ done, j < i) → P done s →
      Step c collects s i s' → P (done ++ [i]) s')
    {done places : List Nat} (h : P done s) (hinc : (done ++ places).Pairwise (· < ·))
    (hrun : run c collects s places = .ok s') : P (done ++ places) s' := by
  induction places generalizing done s with
  | nil =>
    cases hrun
    simpa using h
  | cons i places ih =>
    obtain ⟨t, hi, hrest⟩ := bind_eq_ok.1 hrun
    have hlt : ∀ j ∈ done, j < i := fun j hj => (List.pairwise_append.1 hinc).2.2 j hj i (by simp)
    have happend : done ++ i :: places = done ++ [i] ++ places := by simp
    rw [happend] at hinc ⊢
    exact ih (hstep hlt h (step_of_ok hi)) hinc hrest

/-! ## What the tables hold -/

/-- The tables hold what the places `done` bind, the bodies of a name from the first to the
last. -/
structure Reads (c : Corpus) (done : List Nat) (s : Scan) : Prop where
  mem_spans : ∀ n sp, sp ∈ s.spans n ↔ c.Binds done sp.opening n ∧ sp = c.bodyAt sp.opening
  increasing : ∀ n, (s.spans n).Pairwise fun sp sp' => sp.opening < sp'.opening
  mem_declared : ∀ o n, (o, n) ∈ s.declared ↔ c.NamedAt done o n
  mem_contributors : ∀ a n, n ∈ s.contributors a ↔ c.Contributes done n a

namespace Reads

variable {done : List Nat} {n : Text}

theorem empty (c : Corpus) : Reads c [] Scan.empty where
  mem_spans := by simp [spans, Scan.empty, Table.get?, Corpus.Binds, Corpus.NamedAt]
  increasing := by simp [spans, Scan.empty, Table.get?]
  mem_declared := by simp [Scan.empty, Corpus.NamedAt]
  mem_contributors := by simp [contributors, Scan.empty, Table.get?, Corpus.Contributes]

/-- A place that binds nothing may change other tables. -/
theorem silent (h : Reads c done s) (hlt : ∀ j ∈ done, j < i) (hblocks : s'.blocks = s.blocks)
    (hdeclared : s'.declared = s.declared) (haggregates : s'.aggregates = s.aggregates)
    (hnames : ∀ n, ¬c.Names i n) (hshares : ∀ n, ¬c.Shares i n) : Reads c (done ++ [i]) s' := by
  have hspans : ∀ n, s'.spans n = s.spans n := fun n => by rw [spans, hblocks, spans]
  refine ⟨fun n sp => ?_, fun n => ?_, fun o n => ?_, fun a n => ?_⟩
  · simp [hspans, Corpus.binds_append, hnames, hshares, h.mem_spans]
  · rw [hspans]
    exact h.increasing n
  · simp [hdeclared, h.mem_declared, Corpus.namedAt_append, hnames]
  · rw [contributors, haggregates, ← contributors, h.mem_contributors,
      Corpus.contributes_append hlt]
    simp [hshares]

/-- So may a place whose directive neither names the block behind it nor opens one. -/
theorem quiet (h : Reads c done s) (hlt : ∀ j ∈ done, j < i) (hblocks : s'.blocks = s.blocks)
    (hdeclared : s'.declared = s.declared) (haggregates : s'.aggregates = s.aggregates)
    (hname : ∀ n, c.directive? i = some (.name n) → c.opens (i + 1) = false)
    (hopening : c.directive? i ≠ some .opening) : Reads c (done ++ [i]) s' := by
  refine h.silent hlt hblocks hdeclared haggregates (fun n hn => ?_) fun n hs => hopening hs.1
  have := hn.2.symm.trans (hname n hn.1)
  simp at this

/-- Blocks that are bound before place `i` open there at the latest. -/
theorem opening_le (h : Reads c done s) (hlt : ∀ j ∈ done, j < i) {sp : BodySpan}
    (hsp : sp ∈ s.spans n) : sp.opening ≤ i := by
  obtain ⟨⟨j, hj, ho, -⟩ | ⟨ho, -⟩, -⟩ := (h.mem_spans n sp).1 hsp
  · have := hlt j hj
    omega
  · exact Nat.le_of_lt (hlt _ ho)

/-- A binding changes no other name. -/
theorem increasing_bind (h : Reads c done s) {o : Nat}
    (ho : ∀ sp ∈ s.spans n, sp ≠ c.bodyAt o → sp.opening < o) (m : Text) :
    ((s.bind n (c.bodyAt o)).spans m).Pairwise fun sp sp' => sp.opening < sp'.opening := by
  by_cases hm : m = n
  · subst hm
    exact increasing_bind_self (h.increasing m) ho
  · rw [spans_bind, if_neg fun hc => hm hc.1]
    exact h.increasing m

/-- A line that names a block binds it and is remembered. -/
theorem name (h : Reads c done s) (hlt : ∀ j ∈ done, j < i) (hn : c.Names i n) :
    Reads c (done ++ [i])
      ({ s with declared := (i + 1, n) :: s.declared }.bind n (c.bodyAt (i + 1))) := by
  refine ⟨fun m sp => ?_, fun m => ?_, fun o m => ?_, fun a m => ?_⟩
  · rw [mem_spans_bind, Corpus.binds_append, hn.iff_eq, or_and_right]
    refine or_congr (h.mem_spans m sp) ⟨?_, ?_⟩
    · rintro ⟨rfl, rfl⟩
      exact ⟨Or.inl ⟨rfl, rfl⟩, rfl⟩
    · rintro ⟨⟨ho, rfl⟩ | ⟨-, hs⟩, hsp⟩
      · exact ⟨rfl, ho ▸ hsp⟩
      · exact absurd hs hn.not_shares
  · exact h.increasing_bind (fun sp hsp _ => Nat.lt_succ_of_le (h.opening_le hlt hsp)) m
  · simp only [Scan.bind, List.mem_cons, Prod.mk.injEq, h.mem_declared, Corpus.namedAt_append,
      hn.iff_eq]
    exact or_comm
  · refine (h.mem_contributors a m).trans ?_
    simp [Corpus.contributes_append hlt, hn.not_shares]

/-- A block that shares a name is bound to it, and a name of its own contributes to it. -/
theorem shared {a : Text} (h : Reads c done s) (hlt : ∀ j ∈ done, j < i) (hs : c.Shares i a)
    (hblocks : s'.blocks = (s.bind a (c.bodyAt i)).blocks) (hdeclared : s'.declared = s.declared)
    (hcontributors : ∀ b n, n ∈ s'.contributors b ↔
      n ∈ s.contributors b ∨ (n ≠ b ∧ b = a ∧ (i, n) ∈ s.declared)) :
    Reads c (done ++ [i]) s' := by
  have hspans : ∀ n, s'.spans n = (s.bind a (c.bodyAt i)).spans n := by
    intro n
    rw [spans, hblocks, spans]
  refine ⟨fun n sp => ?_, fun n => ?_, fun o n => ?_, fun b n => ?_⟩
  · rw [hspans, mem_spans_bind, Corpus.binds_append, hs.iff_eq, or_and_right]
    refine or_congr (h.mem_spans n sp) ⟨?_, ?_⟩
    · rintro ⟨rfl, rfl⟩
      exact ⟨Or.inr ⟨rfl, rfl⟩, rfl⟩
    · rintro ⟨⟨-, hn⟩ | ⟨ho, rfl⟩, hsp⟩
      · exact absurd hs hn.not_shares
      · exact ⟨rfl, ho ▸ hsp⟩
  · rw [hspans]
    refine h.increasing_bind (fun sp hsp hne => ?_) n
    refine Nat.lt_of_le_of_ne (h.opening_le hlt hsp) fun heq => hne ?_
    rw [← heq]
    exact ((h.mem_spans a sp).1 hsp).2
  · rw [hdeclared, h.mem_declared, Corpus.namedAt_append]
    exact (or_iff_left fun hn => hn.2.not_shares hs).symm
  · rw [hcontributors, Corpus.contributes_append hlt, h.mem_contributors, hs.iff_eq,
      h.mem_declared]

/-- An opening has one name that is remembered. -/
theorem lookup_eq_some_iff (h : Reads c done s) {o : Nat} :
    s.declared.lookup o = some n ↔ (o, n) ∈ s.declared := by
  have hmem : ∀ {m : Text}, s.declared.lookup o = some m → (o, m) ∈ s.declared := by
    intro m hm
    obtain ⟨l₁, l₂, hl, -⟩ := List.lookup_eq_some_iff.1 hm
    simp [hl]
  refine ⟨hmem, fun hn => ?_⟩
  cases hm : s.declared.lookup o with
  | none => simpa using List.lookup_eq_none_iff.1 hm _ hn
  | some m => rw [((h.mem_declared o m).1 (hmem hm)).unique ((h.mem_declared o n).1 hn)]

/-- The opening of a block. -/
theorem opening (h : Reads c done s) (hlt : ∀ j ∈ done, j < i)
    (hd : c.directive? i = some .opening) :
    Reads c (done ++ [i]) (openBlock c s i (c.lineAt i)) := by
  cases ha : (Header.ofLine (c.lineAt i)).params.first? Vocabulary.referenceKey with
  | none =>
    have hsame : openBlock c s i (c.lineAt i) = s := by
      unfold openBlock
      rw [ha]
    have hnames : ∀ n, ¬c.Names i n := by
      intro n hn
      have := hn.1.symm.trans hd
      simp at this
    have hshares : ∀ a, ¬c.Shares i a := by
      intro a hs
      have := hs.2.symm.trans ha
      simp at this
    rw [hsame]
    exact h.silent hlt rfl rfl rfl hnames hshares
  | some a =>
    refine h.shared hlt ⟨hd, ha⟩ (openBlock_blocks ha) openBlock_declared fun b n => ?_
    rw [contributors_openBlock, ha, List.mem_append, ← h.lookup_eq_some_iff]
    refine or_congr_right ?_
    by_cases hb : a = b
    · subst hb
      simp [and_comm]
    · simp [hb, Ne.symm hb]

/-- Every place keeps the tables in line with what the places bind. -/
theorem step (h : Reads c done s) (hlt : ∀ j ∈ done, j < i) (hs : Step c collects s i s') :
    Reads c (done ++ [i]) s' := by
  cases hs with
  | silent hd => exact h.quiet hlt rfl rfl rfl (by simp [hd]) (by simp [hd])
  | unused hd hopens => exact h.quiet hlt rfl rfl rfl (fun _ _ => hopens) (by simp [hd])
  | name hd hopens _ => exact h.name hlt ⟨hd, hopens⟩
  | opening hd => exact h.opening hlt hd
  | depends hd _ _ => exact h.quiet hlt rfl rfl rfl (by simp [hd]) (by simp [hd])
  | passed hd _ => exact h.quiet hlt rfl rfl rfl (by simp [hd]) (by simp [hd])
  | tangle hd _ _ => exact h.quiet hlt rfl rfl rfl (by simp [hd]) (by simp [hd])

/-- A scan of places in increasing order reads off what they bind. -/
theorem run (h : Reads c done s) {places : List Nat}
    (hinc : (done ++ places).Pairwise (· < ·)) (hrun : Scan.run c collects s places = .ok s') :
    Reads c (done ++ places) s' :=
  run_keeps (fun hlt h hs => h.step hlt hs) h hinc hrun

end Reads

end Scan

namespace Graph

/-- The graph `g` holds the bodies and the contributors that the places bind. -/
structure Binds (c : Corpus) (places : List Nat) (g : Graph) : Prop where
  mem_spans : ∀ n sp, sp ∈ g.spans n ↔ c.Binds places sp.opening n ∧ sp = c.bodyAt sp.opening
  increasing : ∀ n, (g.spans n).Pairwise fun sp sp' => sp.opening < sp'.opening
  mem_contributors : ∀ a n, n ∈ g.contributors a ↔ c.Contributes places n a

theorem binds_of_ofPlaces {c : Corpus} {collects : Bool} {places : List Nat} {g : Graph}
    (hinc : places.Pairwise (· < ·)) (h : ofPlaces c collects places = .ok g) :
    Binds c places g := by
  obtain ⟨s, hrun, h⟩ := bind_eq_ok.1 h
  cases h
  have hreads := (Scan.Reads.empty c).run (by simpa using hinc) hrun
  exact ⟨hreads.mem_spans, hreads.increasing, hreads.mem_contributors⟩

end Graph

end OrgWeave
