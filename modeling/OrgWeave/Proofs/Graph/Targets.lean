import OrgWeave.Proofs.Run.Causes

/-!
# Graphs without targets

A graph can be read with the `#+tangle:` lines passed over. All other lines are then read as they
are with these lines taken in, since nothing but the table of targets tells whether they were :
each step looks at this table only to refuse a second target for a name.

`Forgets f x' x` compares two outcomes in this way. What `x'` comes to is `x` once `f` has left the
targets out, be it a result or an error, unless a second target stops `x'`. A step of the scan has
this property (`Scan.forgets_step`), and it passes through a whole scan (`Scan.forgets_run`).
-/

namespace OrgWeave

open Org

variable {α β : Type}

/-- `x` comes to the same as `x'` without what `f` leaves out, unless a second target for some name
stops `x'`. -/
def Forgets (f : α → α) (x' x : Except Error α) : Prop :=
  x'.map f = x ∨ ∃ n location, x' = .error (.duplicate .tangleTarget n location)

theorem Forgets.bind {f : α → α} {r : β → β} {x' x : Except Error α} {k' k : α → Except Error β}
    (h : Forgets f x' x) (hk : ∀ a, Forgets r (k' a) (k (f a))) :
    Forgets r (x' >>= k') (x >>= k) := by
  rcases h with rfl | ⟨n, location, rfl⟩
  · cases x' with
    | error e => exact Or.inl rfl
    | ok a => exact hk a
  · exact Or.inr ⟨n, location, rfl⟩

namespace Scan

variable {c : Corpus} {s : Scan} {i : Nat} {l : Line} {n m location : Text}

/-- The tables without the targets. -/
def withoutTargets (s : Scan) : Scan := { s with tangles := [] }

theorem duplicate_withoutTargets (what : Declared) :
    (duplicate c what n i).map withoutTargets = duplicate c what n i := by
  unfold duplicate
  cases c.describe i <;> rfl

theorem declareName_withoutTargets : (declareName c s n i l).map withoutTargets =
    declareName c s.withoutTargets n i l := by
  unfold declareName
  rw [apply_ite (Except.map withoutTargets), duplicate_withoutTargets]
  rfl

theorem openBlock_withoutTargets :
    (openBlock c s i l).withoutTargets = openBlock c s.withoutTargets i l := by
  unfold openBlock withoutTargets
  split
  · rfl
  · dsimp only
    split
    · rfl
    · split <;> rfl

theorem declareDependencies_withoutTargets {params : Text} :
    (declareDependencies c s n params i).map withoutTargets =
      declareDependencies c s.withoutTargets n params i := by
  unfold declareDependencies
  rw [apply_ite (Except.map withoutTargets), duplicate_withoutTargets]
  cases Params.ofText? params <;> rfl

/-- A target is noted in the table that is left out, or refused. -/
theorem declareTangle_forgets {destination : Text} (hi : i < c.lines.length) :
    Forgets withoutTargets (declareTangle c s n destination i) (.ok s.withoutTargets) := by
  unfold declareTangle
  split
  · obtain ⟨place, hplace⟩ := Corpus.exists_locate hi
    exact Or.inr ⟨n, _, by rw [duplicate, Corpus.describe, hplace]; rfl⟩
  · exact Or.inl rfl

theorem forgets_step (c : Corpus) (s : Scan) (i : Nat) :
    Forgets withoutTargets (step c true s i) (step c false s.withoutTargets i) := by
  rw [step_eq, step_eq]
  split
  next => exact Or.inl rfl
  next =>
    split
    · exact Or.inl declareName_withoutTargets
    · exact Or.inl rfl
  next => exact Or.inl (congrArg Except.ok openBlock_withoutTargets)
  next => exact Or.inl declareDependencies_withoutTargets
  next hd => exact declareTangle_forgets (Corpus.lt_length_of_directive? hd)

theorem forgets_run (c : Corpus) (places : List Nat) : ∀ s : Scan,
    Forgets withoutTargets (run c true s places) (run c false s.withoutTargets places) := by
  induction places with
  | nil => exact fun _ => Or.inl rfl
  | cons i places ih => exact fun s => (forgets_step c s i).bind ih

/-! ## Second targets -/

theorem declareName_ne :
    declareName c s n i l ≠ .error (.duplicate .tangleTarget m location) := by
  unfold declareName
  split
  · rw [Ne, duplicate_eq_error_iff]
    simp
  · simp

/-- A step refuses a target only for a name that has one. -/
theorem of_step_eq_target {collects : Bool}
    (h : step c collects s i = .error (.duplicate .tangleTarget n location)) :
    (∃ destination, c.target? i = some (n, destination)) ∧ s.tangles.has n = true ∧
      c.describe i = .ok location := by
  rw [step_eq] at h
  split at h
  next => cases h
  next =>
    split at h
    · exact absurd h declareName_ne
    · cases h
  next => cases h
  next => exact absurd h (declareDependencies_ne (by decide))
  next m destination hd =>
    split at h
    · unfold declareTangle at h
      split at h
      next hhas =>
        obtain ⟨-, rfl, hplace⟩ := duplicate_eq_error_iff.1 h
        exact ⟨⟨destination, by rw [Corpus.target?, hd]⟩, hhas, hplace⟩
      next => cases h
    · cases h

end Scan

/-- Two of the places give the name a target, and the second one is at `location`. -/
def Corpus.Retargets (c : Corpus) (places : List Nat) (n location : Text) : Prop :=
  ∃ j ∈ places, ∃ i ∈ places, j < i ∧ (∃ destination, c.target? j = some (n, destination)) ∧
    (∃ destination, c.target? i = some (n, destination)) ∧ c.describe i = .ok location

/-- What a scan refuses for its target has been given one before. -/
theorem Scan.retargets_of_run {c : Corpus} {collects : Bool} {places : List Nat} {n location : Text}
    (hinc : places.Pairwise (· < ·))
    (h : run c collects .empty places = .error (.duplicate .tangleTarget n location)) :
    c.Retargets places n location := by
  obtain ⟨before, i, after, s, rfl, hrun, hstep⟩ := run_eq_error_iff.1 h
  obtain ⟨hi, hhas, hplace⟩ := of_step_eq_target hstep
  obtain ⟨hbefore, -, hlt⟩ := List.pairwise_append.1 hinc
  have htable := (Tabulates.empty c collects).run hbefore hrun
  obtain ⟨⟨m, destination⟩, hrow, rfl⟩ := List.mem_map.1 (Table.has_iff_mem_keys.1 hhas)
  rw [htable.tangles_eq] at hrow
  split at hrow
  · obtain ⟨j, hj, htarget⟩ := List.mem_filterMap.1 hrow
    exact ⟨j, List.mem_append_left _ hj, i, by simp, hlt j hj i List.mem_cons_self,
      ⟨destination, htarget⟩, hi, hplace⟩
  · cases hrow

namespace Graph

/-- The graph without the targets. -/
def withoutTargets (g : Graph) : Graph := { g with tangles := [] }

theorem forgets_ofPlaces (c : Corpus) (places : List Nat) :
    Forgets withoutTargets (ofPlaces c true places) (ofPlaces c false places) :=
  (Scan.forgets_run c places .empty).bind fun _ => Or.inl rfl

/-- The targets of the documents cannot be read, because two lines give a target to one name. -/
def RefusesTarget (docs : List (Text × Text)) : Prop :=
  ∃ es n location, parseCorpus (Corpus.ofTexts docs) = .ok es ∧
    (Corpus.ofTexts docs).Retargets (directivePlaces es) n location ∧
    ofCorpus (Corpus.ofTexts docs) true = .error (.duplicate .tangleTarget n location)

theorem forgets_ofCorpus (docs : List (Text × Text)) :
    (ofCorpus (Corpus.ofTexts docs) true).map withoutTargets =
        ofCorpus (Corpus.ofTexts docs) false ∨
      RefusesTarget docs := by
  obtain ⟨es, hes⟩ := exists_parseCorpus (Corpus.ofTexts docs)
  have hplaces : ∀ collects, ofCorpus (Corpus.ofTexts docs) collects =
      ofPlaces (Corpus.ofTexts docs) collects (directivePlaces es) := by
    intro collects
    rw [ofCorpus, hes]
    rfl
  rw [hplaces, hplaces]
  refine (forgets_ofPlaces _ _).imp_right ?_
  rintro ⟨n, location, herror⟩
  refine ⟨es, n, location, hes, ?_, (hplaces true).trans herror⟩
  have hinc := (tiles_of_parseCorpus hes).increasing_directivePlaces
  rcases bind_eq_error.1 herror with hrun | ⟨_, _, ⟨⟩⟩
  exact Scan.retargets_of_run hinc hrun

/-- Passing over the lines of targets changes nothing else about a graph. If they are taken in, the
graph has targets as well, or the same error stops it, unless two of these lines give a target to
one name, which then stops it earlier. -/
theorem ofCorpus_withoutTargets (docs : List (Text × Text)) :
    (∀ g, ofCorpus (Corpus.ofTexts docs) false = .ok g →
      (∃ g', ofCorpus (Corpus.ofTexts docs) true = .ok g' ∧ g'.blocks = g.blocks ∧
        g'.dependencies = g.dependencies ∧ g'.aggregates = g.aggregates) ∨ RefusesTarget docs) ∧
    (∀ e, ofCorpus (Corpus.ofTexts docs) false = .error e →
      ofCorpus (Corpus.ofTexts docs) true = .error e ∨ RefusesTarget docs) ∧
    ∀ g', ofCorpus (Corpus.ofTexts docs) true = .ok g' →
      ofCorpus (Corpus.ofTexts docs) false = .ok { g' with tangles := [] } := by
  refine ⟨fun g hg => ?_, fun e he => ?_, fun g' hg' => ?_⟩
  · refine (forgets_ofCorpus docs).imp_left fun hsame => ?_
    obtain ⟨g', hg', rfl⟩ := map_eq_ok.1 (hsame.trans hg)
    exact ⟨g', hg', rfl, rfl, rfl⟩
  · refine (forgets_ofCorpus docs).imp_left fun hsame => ?_
    exact map_eq_error.1 (hsame.trans he)
  · rcases forgets_ofCorpus docs with hsame | ⟨es, n, location, -, -, herror⟩
    · rw [← hsame, hg']
      rfl
    · cases hg'.symm.trans herror

/-- A block with a target and a record, and then some other line. -/
def tins (line : Line) : List (Text × Text) :=
  [("d.org".toList, ("#+tangle:a x\n#+name: a\n#+begin_src c :noweb-ref all\n#+end_src\n" ++
    "#+depends:a :noweb b\n").toList ++ line)]

/-- The graph where the other line is empty. -/
def tinsGraph : Graph where
  corpus := Corpus.ofTexts (tins ['\n'])
  blocks := [("a".toList, [⟨2, 3, true, by decide⟩]), ("all".toList, [⟨2, 3, true, by decide⟩])]
  dependencies := [("a".toList, ⟨[], ["b".toList]⟩), ("all".toList, ⟨[], ["b".toList]⟩)]
  aggregates := [("all".toList, ["a".toList])]
  tangles := [("a".toList, "x".toList)]

/-- With an empty line behind the block both ways of reading succeed and give this graph but for the
target, and a second record stops both. A second target stops the one that takes targets in. -/
theorem tins_withoutTargets :
    (ofCorpus (Corpus.ofTexts (tins ['\n'])) true = .ok tinsGraph ∧
      ofCorpus (Corpus.ofTexts (tins ['\n'])) false = .ok { tinsGraph with tangles := [] }) ∧
    (ofCorpus (Corpus.ofTexts (tins "#+depends:a :cpp c\n".toList)) false =
        .error (.duplicate .dependency "a".toList "d.org:6".toList) ∧
      ofCorpus (Corpus.ofTexts (tins "#+depends:a :cpp c\n".toList)) true =
        .error (.duplicate .dependency "a".toList "d.org:6".toList)) ∧
    (∃ g, ofCorpus (Corpus.ofTexts (tins "#+tangle:a y\n".toList)) false = .ok g) ∧
      RefusesTarget (tins "#+tangle:a y\n".toList) := by
  have hboth : ofCorpus (Corpus.ofTexts (tins ['\n'])) true = .ok tinsGraph := by
    decide +kernel
  have hrecord : ∀ collects,
      ofCorpus (Corpus.ofTexts (tins "#+depends:a :cpp c\n".toList)) collects =
        .error (.duplicate .dependency "a".toList "d.org:6".toList) := by
    decide +kernel
  have hpassed : (ofCorpus (Corpus.ofTexts (tins "#+tangle:a y\n".toList)) false).map (·.tangles) =
      .ok [] := by
    decide +kernel
  have hrefused :
      (ofCorpus (Corpus.ofTexts (tins "#+tangle:a y\n".toList)) true).toOption = none := by
    decide +kernel
  obtain ⟨g, hg, -⟩ := map_eq_ok.1 hpassed
  refine ⟨⟨hboth, (ofCorpus_withoutTargets _).2.2 _ hboth⟩, ⟨hrecord false, ?_⟩, ⟨g, hg⟩, ?_⟩
  · refine ((ofCorpus_withoutTargets _).2.1 _ (hrecord false)).resolve_right ?_
    rintro ⟨es, n, location, -, -, herror⟩
    cases (hrecord true).symm.trans herror
  · refine ((ofCorpus_withoutTargets _).1 g hg).resolve_left ?_
    rintro ⟨g', hg', -⟩
    rw [hg'] at hrefused
    cases hrefused

end Graph

end OrgWeave
