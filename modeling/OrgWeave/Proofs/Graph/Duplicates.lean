import OrgWeave.Proofs.Graph.Meaning

/-!
# Names given twice

A name line is refused if its name is in the table of bodies already. That table is filled by
name lines and by blocks that share a name, so a block can be refused under the only name that
any line gives, if an earlier block shares it (`Corpus.Renames`); the other way round both blocks
are taken in. The name that asks for a request of its own is never refused.

A scan fails at the first place whose step does (`Scan.run_eq_error_iff`). The place where a name
is refused can be told from the places before it, which the scan got through
(`Graph.ofPlaces_eq_duplicate_iff`).
-/

namespace OrgWeave

open Org

namespace Corpus

variable {c : Corpus} {i : Nat} {n : Text} {before after places : List Nat}

/-- Line `i` names a block, and one of the places before it has bound a block to the name. -/
def Renames (c : Corpus) (places : List Nat) (i : Nat) (n : Text) : Prop :=
  n ≠ Vocabulary.selfName ∧ c.Names i n ∧ ∃ j ∈ places, j < i ∧ (c.Names j n ∨ c.Shares j n)

theorem exists_binds_iff :
    (∃ o, c.Binds places o n) ↔ ∃ j ∈ places, c.Names j n ∨ c.Shares j n := by
  constructor
  · rintro ⟨o, ⟨i, hi, -, hn⟩ | ⟨ho, hs⟩⟩
    · exact ⟨i, hi, Or.inl hn⟩
    · exact ⟨o, ho, Or.inr hs⟩
  · rintro ⟨j, hj, hn | hs⟩
    · exact ⟨j + 1, Or.inl ⟨j, hj, rfl, hn⟩⟩
    · exact ⟨j, Or.inr ⟨hj, hs⟩⟩

/-- What stands before a place in increasing order are the smaller places. -/
theorem renames_iff (hinc : (before ++ i :: after).Pairwise (· < ·)) :
    c.Renames (before ++ i :: after) i n ↔
      n ≠ Vocabulary.selfName ∧ c.Names i n ∧ ∃ o, c.Binds before o n := by
  obtain ⟨-, htail, hbefore⟩ := List.pairwise_append.1 hinc
  have hafter := (List.pairwise_cons.1 htail).1
  rw [Renames, exists_binds_iff]
  refine and_congr_right fun _ => and_congr_right fun _ => exists_congr fun j => ?_
  constructor
  · rintro ⟨hj, hlt, hbound⟩
    rcases List.mem_append.1 hj with hj | hj
    · exact ⟨hj, hbound⟩
    · rcases List.mem_cons.1 hj with rfl | hj
      · exact absurd hlt (Nat.lt_irrefl j)
      · exact absurd hlt (Nat.lt_asymm (hafter j hj))
  · rintro ⟨hj, hbound⟩
    exact ⟨List.mem_append_left _ hj, hbefore j hj i List.mem_cons_self, hbound⟩

/-- The place of a line is told unless there is no such line. -/
theorem describe_eq_error {index : Int} {e : Error} (h : c.describe index = .error e) :
    e = .outsideCorpus index := by
  unfold describe locate at h
  split at h
  · split at h <;> cases h
  · cases h
    rfl

end Corpus

namespace Scan

variable {c : Corpus} {collects : Bool} {s : Scan} {i : Nat} {n location : Text} {e : Error}

/-- A scan fails as the step at some place does, after it got through the places before. -/
theorem run_eq_error_iff {places : List Nat} : run c collects s places = .error e ↔
    ∃ before i after s', places = before ++ i :: after ∧ run c collects s before = .ok s' ∧
      step c collects s' i = .error e := by
  constructor
  · intro h
    induction places generalizing s with
    | nil => cases h
    | cons i places ih =>
      rcases bind_eq_error.1 h with hi | ⟨t, hi, hrest⟩
      · exact ⟨[], i, places, s, rfl, rfl, hi⟩
      · obtain ⟨before, j, after, s', rfl, hrun, hj⟩ := ih hrest
        exact ⟨i :: before, j, after, s', rfl, bind_eq_ok.2 ⟨t, hi, hrun⟩, hj⟩
  · rintro ⟨before, i, after, s', rfl, hrun, hstep⟩
    rw [run_append, bind_eq_error]
    exact Or.inr ⟨s', hrun, bind_eq_error.2 (Or.inl hstep)⟩

theorem duplicate_eq_error_iff {what what' : Declared} {name : Text} :
    duplicate c what name i = .error (.duplicate what' n location) ↔
      what = what' ∧ name = n ∧ c.describe i = .ok location := by
  rw [duplicate, bind_eq_error]
  constructor
  · rintro (hplace | ⟨t, hplace, heq⟩)
    · cases Corpus.describe_eq_error hplace
    · cases heq
      exact ⟨rfl, rfl, hplace⟩
  · rintro ⟨rfl, rfl, hplace⟩
    exact Or.inr ⟨location, hplace, rfl⟩

theorem declareDependencies_ne {what : Declared} {name params : Text} (hwhat : what ≠ .dependency) :
    declareDependencies c s name params i ≠ .error (.duplicate what n location) := by
  unfold declareDependencies
  split
  · rw [Ne, duplicate_eq_error_iff]
    exact fun h => hwhat h.1.symm
  · rw [Ne, bind_eq_error]
    rintro (hp | ⟨p, -, ⟨⟩⟩)
    unfold Params.ofText? at hp
    split at hp <;> cases hp

theorem declareTangle_ne {name destination : Text} :
    declareTangle c s name destination i ≠ .error (.duplicate .block n location) := by
  unfold declareTangle
  split
  · rw [Ne, duplicate_eq_error_iff]
    simp
  · simp

/-- Only a name line is refused for the name of a block, and only if the name is bound. -/
theorem step_eq_duplicate_iff :
    step c collects s i = .error (.duplicate .block n location) ↔
      n ≠ Vocabulary.selfName ∧ c.Names i n ∧ s.blocks.has n = true ∧
        c.describe i = .ok location := by
  rw [step_eq, Corpus.Names]
  split
  next hd => simp [hd]
  next m hd =>
    rw [hd]
    split
    next hopens =>
      unfold declareName
      split
      next hbound =>
        rw [duplicate_eq_error_iff]
        constructor
        · rintro ⟨-, rfl, hplace⟩
          exact ⟨hbound.1, ⟨rfl, hopens⟩, hbound.2, hplace⟩
        · rintro ⟨-, ⟨⟨⟩, -⟩, -, hplace⟩
          exact ⟨rfl, rfl, hplace⟩
      next hfresh =>
        constructor
        · rintro ⟨⟩
        · rintro ⟨hself, ⟨⟨⟩, -⟩, hbound, -⟩
          exact absurd ⟨hself, hbound⟩ hfresh
    next hopens => simp [hopens]
  next hd => simp [hd]
  next hd => simp [hd, declareDependencies_ne]
  next hd =>
    rw [hd]
    split
    · simp [declareTangle_ne]
    · simp

end Scan

namespace Graph

variable {c : Corpus} {collects : Bool} {places : List Nat} {g : Graph} {i : Nat}
  {n location : Text}

/-- Once the places before one are scanned, the names that have bodies are those that they bind. -/
theorem has_block_of_run {before after : List Nat} {s : Scan}
    (hinc : (before ++ i :: after).Pairwise (· < ·))
    (hrun : Scan.run c collects .empty before = .ok s) :
    s.blocks.has n = true ↔ ∃ o, c.Binds before o n :=
  ((Scan.Tabulates.empty c collects).run (List.pairwise_append.1 hinc).1 hrun).has_block n

/-- The block behind a name line is refused if the places before it can be read and one of them
has bound the name. -/
theorem ofPlaces_eq_duplicate_iff (hinc : places.Pairwise (· < ·)) :
    ofPlaces c collects places = .error (.duplicate .block n location) ↔
      ∃ before i after, places = before ++ i :: after ∧
        (∃ g, ofPlaces c collects before = .ok g) ∧ c.Renames places i n ∧
          c.describe i = .ok location := by
  have hfinish : ∀ {e : Error}, ofPlaces c collects places = .error e ↔
      Scan.run c collects .empty places = .error e := by
    intro e
    rw [ofPlaces, bind_eq_error]
    exact or_iff_left fun ⟨_, _, h⟩ => nomatch h
  rw [hfinish, Scan.run_eq_error_iff]
  constructor
  · rintro ⟨before, i, after, s, rfl, hrun, hstep⟩
    obtain ⟨hself, hn, hbound, hplace⟩ := Scan.step_eq_duplicate_iff.1 hstep
    refine ⟨before, i, after, rfl, ⟨_, bind_eq_ok.2 ⟨s, hrun, rfl⟩⟩, ?_, hplace⟩
    exact (Corpus.renames_iff hinc).2 ⟨hself, hn, (has_block_of_run hinc hrun).1 hbound⟩
  · rintro ⟨before, i, after, rfl, ⟨g, hg⟩, hrenames, hplace⟩
    obtain ⟨s, hrun, -⟩ := bind_eq_ok.1 hg
    obtain ⟨hself, hn, hbound⟩ := (Corpus.renames_iff hinc).1 hrenames
    refine ⟨before, i, after, s, rfl, hrun, Scan.step_eq_duplicate_iff.2 ?_⟩
    exact ⟨hself, hn, (has_block_of_run hinc hrun).2 hbound, hplace⟩

/-- A graph that is built refuses no block. -/
theorem not_renames_of_ofPlaces (hinc : places.Pairwise (· < ·))
    (h : ofPlaces c collects places = .ok g) (hi : i ∈ places) : ¬c.Renames places i n := by
  intro hrenames
  obtain ⟨before, after, rfl⟩ := List.append_of_mem hi
  obtain ⟨hself, hn, hbound⟩ := (Corpus.renames_iff hinc).1 hrenames
  obtain ⟨s, hrun, -⟩ := bind_eq_ok.1 h
  rw [Scan.run_append] at hrun
  obtain ⟨t, hbefore, hrest⟩ := bind_eq_ok.1 hrun
  obtain ⟨u, hstep, -⟩ := bind_eq_ok.1 hrest
  rw [Scan.step_eq, hn.1] at hstep
  dsimp only at hstep
  have hhas := (has_block_of_run hinc hbefore).2 hbound
  rw [if_pos hn.2, Scan.declareName, if_pos ⟨hself, hhas⟩] at hstep
  exact Scan.duplicate_ne_ok hstep

/-- On documents with no other error, a block is refused for its name exactly if an earlier place
binds the name, be it that the line there gives it too or that a block there shares it. -/
theorem refuses_name_iff {docs : List (Text × Text)} {collects : Bool}
    (hother : ∀ e, ofCorpus (Corpus.ofTexts docs) collects = .error e →
      ∃ n location, e = .duplicate .block n location) :
    ∃ es, parseCorpus (Corpus.ofTexts docs) = .ok es ∧
      ((∃ n location,
          ofCorpus (Corpus.ofTexts docs) collects = .error (.duplicate .block n location)) ↔
        ∃ n, ∃ i ∈ directivePlaces es, (Corpus.ofTexts docs).Renames (directivePlaces es) i n) := by
  obtain ⟨es, hes⟩ := exists_parseCorpus (Corpus.ofTexts docs)
  have hinc := (tiles_of_parseCorpus hes).increasing_directivePlaces
  have hplaces : ofCorpus (Corpus.ofTexts docs) collects =
      ofPlaces (Corpus.ofTexts docs) collects (directivePlaces es) := by
    rw [ofCorpus, hes]
    rfl
  refine ⟨es, hes, ?_⟩
  rw [hplaces] at hother ⊢
  constructor
  · rintro ⟨n, location, herr⟩
    obtain ⟨before, i, after, hsplit, -, hrenames, -⟩ := (ofPlaces_eq_duplicate_iff hinc).1 herr
    exact ⟨n, i, by simp [hsplit], hrenames⟩
  · rintro ⟨n, i, hi, hrenames⟩
    cases hout : ofPlaces (Corpus.ofTexts docs) collects (directivePlaces es) with
    | ok g => exact absurd hrenames (not_renames_of_ofPlaces hinc hout hi)
    | error e =>
      obtain ⟨m, location, rfl⟩ := hother e hout
      exact ⟨m, location, rfl⟩

/-- A block that shares the name `c`, then one that is given it. -/
def sharedFirst : List (Text × Text) :=
  [("d.org".toList, ("#+begin_src x :noweb-ref c\none\n#+end_src\n" ++
    "#+name: c\n#+begin_src x\ntwo\n#+end_src\n").toList)]

/-- The same blocks the other way round. -/
def namedFirst : List (Text × Text) :=
  [("d.org".toList, ("#+name: c\n#+begin_src x\ntwo\n#+end_src\n" ++
    "#+begin_src x :noweb-ref c\none\n#+end_src\n").toList)]

/-- The one name line is refused after the block that shares the name, and taken in before it. -/
theorem sharedFirst_refused :
    ofCorpus (Corpus.ofTexts sharedFirst) true =
        .error (.duplicate .block "c".toList "d.org:4".toList) ∧
      (∃ es, parseCorpus (Corpus.ofTexts sharedFirst) = .ok es ∧
        (directivePlaces es).filterMap (Corpus.ofTexts sharedFirst).name? = ["c".toList] ∧
        ∃ n, ∃ i ∈ directivePlaces es,
          (Corpus.ofTexts sharedFirst).Renames (directivePlaces es) i n) ∧
      (ofCorpus (Corpus.ofTexts namedFirst) true).map (fun g => g.blocks.keys) =
        .ok ["c".toList] := by
  have herr : ofCorpus (Corpus.ofTexts sharedFirst) true =
      .error (.duplicate .block "c".toList "d.org:4".toList) := by
    decide +kernel
  have hother : ∀ e, ofCorpus (Corpus.ofTexts sharedFirst) true = .error e →
      ∃ n location, e = .duplicate .block n location := by
    intro e he
    exact ⟨_, _, Except.error.inj (he.symm.trans herr)⟩
  obtain ⟨es, hes, hiff⟩ := refuses_name_iff hother
  have hnames : (parseCorpus (Corpus.ofTexts sharedFirst)).map (fun es =>
      (directivePlaces es).filterMap (Corpus.ofTexts sharedFirst).name?) = .ok ["c".toList] := by
    decide +kernel
  rw [hes, Except.map, Except.ok.injEq] at hnames
  exact ⟨herr, ⟨es, hes, hnames, hiff.1 ⟨_, _, herr⟩⟩, by decide +kernel⟩

end Graph

end OrgWeave
