import OrgWeave.Proofs.Weave.Emission
import Mathlib.Data.List.Induction

/-!
# Weaving over a shared state

Texts can be woven one after another with the names that are emitted handed on from each to the
next (`Emission.andThen`). To weave two lists of names in this way comes to weaving them as one
list, whether it succeeds or not (`emit_append`).

So a list can be followed name by name. A name that is emitted already is passed over. Any other
name is taken up (`Graph.TakesUp`), and it is marked together with its contributors once its block
is woven. What is emitted in the end are therefore the names of the list and the contributors of
those taken up (`Graph.Emits`). If a block cannot be woven, its name is not marked, and what is
emitted are the marks of the names in front of it (`Graph.exists_of_weaveBlocks_eq_error`).
-/

namespace OrgWeave

variable {g : Graph} {α : Type} {weave : Text → Except Error (List α)} {done mid after : Emitted}
  {names : List Text} {n d : Text} {e : Error}

/-! ## One emission after another -/

/-- What emitting names comes to : what is put out, or the first failure, and the names that are
emitted by then. -/
abbrev Emission (α : Type) : Type := Except Error (List α) × Emitted

namespace Emission

variable {x : Emission α} {f : Emitted → Emission α} {out : List α}

/-- Emit more after an emission that succeeds. -/
def andThen (x : Emission α) (f : Emitted → Emission α) : Emission α :=
  match x with
  | (.error e, mid) => (.error e, mid)
  | (.ok head, mid) => ((f mid).1.map (head ++ ·), (f mid).2)

theorem andThen_eq_ok : x.andThen f = (.ok out, after) ↔
    ∃ head tail mid, x = (.ok head, mid) ∧ f mid = (.ok tail, after) ∧ out = head ++ tail := by
  obtain ⟨e | head, mid⟩ := x
  · simp [andThen]
  · rcases hf : f mid with ⟨e | tail, last⟩
    · simp [andThen, hf, Except.map]
    · simp [andThen, hf, Except.map, eq_comm, and_comm]

theorem andThen_eq_error : x.andThen f = (.error e, after) ↔
    x = (.error e, after) ∨ ∃ head mid, x = (.ok head, mid) ∧ f mid = (.error e, after) := by
  obtain ⟨e' | head, mid⟩ := x
  · simp [andThen]
  · rcases hf : f mid with ⟨e' | tail, last⟩ <;> simp [andThen, hf, Except.map]

theorem nil_andThen (mid : Emitted) (f : Emitted → Emission α) :
    andThen (.ok [], mid) f = f mid := by
  rcases hf : f mid with ⟨e | tail, last⟩ <;> simp [andThen, hf, Except.map]

theorem andThen_assoc (x : Emission α) (f k : Emitted → Emission α) :
    (x.andThen f).andThen k = x.andThen fun mid => (f mid).andThen k := by
  obtain ⟨e | head, mid⟩ := x
  · rfl
  · rcases hf : f mid with ⟨e | tail, after⟩
    · simp [andThen, hf, Except.map]
    · rcases hk : k after with ⟨e | rest, last⟩ <;> simp [andThen, hf, hk, Except.map]

end Emission

theorem emit_cons (weave : Text → Except Error (List α)) (done : Emitted) (n : Text)
    (names : List Text) : emit g weave done (n :: names) =
      Emission.andThen (emit g weave done [n]) fun mid => emit g weave mid names := by
  by_cases hn : n ∈ done
  · simp only [emit, if_pos hn, Emission.nil_andThen]
  · simp only [emit, if_neg hn]
    cases (if g.spans n = [] then .ok [] else weave n : Except Error (List α)) with
    | error e => rfl
    | ok head => simp [Emission.andThen, Except.map]

/-- The names that are emitted by a list are handed on to the list behind it. -/
theorem emit_append (weave : Text → Except Error (List α)) (xs ys : List Text) :
    ∀ done : Emitted, emit g weave done (xs ++ ys) =
      Emission.andThen (emit g weave done xs) fun mid => emit g weave mid ys := by
  induction xs with
  | nil => exact fun done => by rw [List.nil_append, emit, Emission.nil_andThen]
  | cons n xs ih =>
    intro done
    rw [List.cons_append, emit_cons, emit_cons weave done n xs, Emission.andThen_assoc]
    simp only [ih]

/-- A name is passed over, or it is marked. -/
theorem emit_singleton_eq_ok {out : List α} (h : emit g weave done [n] = (.ok out, after)) :
    (n ∈ done ∧ after = done) ∨ (n ∉ done ∧ after = done.mark g n) := by
  by_cases hn : n ∈ done
  · rw [emit, if_pos hn] at h
    cases h
    exact Or.inl ⟨hn, rfl⟩
  · rw [emit, if_neg hn] at h
    split at h
    next => cases h
    next =>
      cases h
      exact Or.inr ⟨hn, rfl⟩

/-- A name whose block cannot be woven is not marked. -/
theorem emit_singleton_eq_error (h : emit g weave done [n] = (.error e, after)) :
    n ∉ done ∧ after = done ∧ g.spans n ≠ [] ∧ weave n = .error e := by
  by_cases hn : n ∈ done
  · rw [emit, if_pos hn] at h
    cases h
  · rw [emit, if_neg hn] at h
    split at h
    next e' he =>
      cases h
      split at he
      next => cases he
      next hbody => exact ⟨hn, rfl, hbody, he⟩
    next => cases h

/-! ## What is emitted afterwards -/

namespace Graph

variable {o : WeaveOptions} {t : Text}

/-- The name stands in the list at a place where it is not emitted yet. -/
def TakesUp (g : Graph) (o : WeaveOptions) (done : Emitted) (names : List Text) (n : Text) : Prop :=
  ∃ before after, names = before ++ n :: after ∧ n ∉ (g.weaveBlocks o done before).2

/-- The names emitted afterwards are those emitted before, the names of the list and the
contributors of those that are taken up. -/
def Emits (g : Graph) (o : WeaveOptions) (done : Emitted) (names : List Text) (after : Emitted) :
    Prop :=
  ∀ d, d ∈ after ↔
    d ∈ done ∨ d ∈ names ∨ ∃ n, g.TakesUp o done names n ∧ d ∈ g.contributors n

/-- One more name is taken up if it is not emitted by the others. -/
theorem takesUp_append_singleton {m : Text} : g.TakesUp o done (names ++ [n]) m ↔
    g.TakesUp o done names m ∨ (m = n ∧ n ∉ (g.weaveBlocks o done names).2) := by
  constructor
  · rintro ⟨before, rest, hsplit, hm⟩
    rcases List.eq_nil_or_concat rest with rfl | ⟨rest', k, rfl⟩
    · obtain ⟨rfl, hmn⟩ := List.append_inj' hsplit rfl
      obtain rfl := List.singleton_inj.1 hmn
      exact Or.inr ⟨rfl, hm⟩
    · rw [List.concat_eq_append, ← List.cons_append, ← List.append_assoc] at hsplit
      exact Or.inl ⟨before, rest', (List.append_inj' hsplit rfl).1, hm⟩
  · rintro (⟨before, rest, rfl, hm⟩ | ⟨rfl, hn⟩)
    · exact ⟨before, rest ++ [n], by simp, hm⟩
    · exact ⟨names, [], rfl, hn⟩

/-- A list whose blocks can all be woven marks its names, and its contributors as far as their
aggregates are taken up. -/
theorem emits_of_weaveBlocks (h : g.weaveBlocks o done names = (.ok t, after)) :
    g.Emits o done names after := by
  induction names using List.reverseRecOn generalizing t after with
  | nil =>
    cases h
    intro d
    simp [TakesUp]
  | append_singleton names n ih =>
    rw [weaveBlocks, emit_append, Emission.andThen_eq_ok] at h
    obtain ⟨head, tail, mid, hnames, hn, -⟩ := h
    have hmid : (g.weaveBlocks o done names).2 = mid := congrArg Prod.snd hnames
    intro d
    have hd := ih hnames d
    rw [List.mem_append, List.mem_singleton]
    simp only [takesUp_append_singleton, hmid, or_and_right, exists_or, and_assoc, exists_eq_left]
    rcases emit_singleton_eq_ok hn with ⟨hin, rfl⟩ | ⟨hout, rfl⟩
    · have hself : d = n → d ∈ after := fun heq => heq ▸ hin
      simp only [hin, not_true, false_and, or_false, or_assoc]
      rw [or_left_comm (b := d = n), or_left_comm (b := d = n), ← hd, or_iff_right_of_imp hself]
    · simp only [Emitted.mem_mark, StandsFor, hd, hout, not_false_eq_true, true_and, or_assoc,
        or_left_comm]

/-- If a block cannot be woven, the names in front of it are marked and no others. -/
theorem exists_of_weaveBlocks_eq_error (h : g.weaveBlocks o done names = (.error e, after)) :
    ∃ before n rest t, names = before ++ n :: rest ∧ g.weaveBlocks o done before = (.ok t, after) ∧
      n ∉ after ∧ g.spans n ≠ [] ∧ g.blockText o n = .error e := by
  induction names using List.reverseRecOn with
  | nil => cases h
  | append_singleton names n ih =>
    rw [weaveBlocks, emit_append, Emission.andThen_eq_error] at h
    rcases h with h | ⟨head, mid, hnames, hn⟩
    · obtain ⟨before, m, rest, t, rfl, hm⟩ := ih h
      exact ⟨before, m, rest ++ [n], t, by simp, hm⟩
    · obtain ⟨hnot, rfl, hbody, he⟩ := emit_singleton_eq_error hn
      exact ⟨names, n, [], head, rfl, hnames, hnot, hbody, he⟩

/-- Weaving two lists, the second one with the names emitted by the first, comes to weaving them as
one list. Its names are marked if all its blocks can be woven, and the names in front of the block
that fails if one cannot. -/
theorem weaveBlocks_append (g : Graph) (o : WeaveOptions) (done : Emitted) (xs ys : List Text) :
    ((g.weaveBlocks o done (xs ++ ys)).1 = do
      let head ← (g.weaveBlocks o done xs).1
      let tail ← (g.weaveBlocks o (g.weaveBlocks o done xs).2 ys).1
      .ok (head ++ tail)) ∧
    (∀ head, (g.weaveBlocks o done xs).1 = .ok head → (g.weaveBlocks o done (xs ++ ys)).2 =
      (g.weaveBlocks o (g.weaveBlocks o done xs).2 ys).2) ∧
    (∀ t, (g.weaveBlocks o done (xs ++ ys)).1 = .ok t →
      g.Emits o done (xs ++ ys) (g.weaveBlocks o done (xs ++ ys)).2) ∧
    ∀ e, (g.weaveBlocks o done (xs ++ ys)).1 = .error e → ∃ before n rest t,
      xs ++ ys = before ++ n :: rest ∧ (g.weaveBlocks o done before).1 = .ok t ∧
        g.spans n ≠ [] ∧ g.blockText o n = .error e ∧
        g.Emits o done before (g.weaveBlocks o done (xs ++ ys)).2 ∧
        n ∉ (g.weaveBlocks o done (xs ++ ys)).2 := by
  have happend : g.weaveBlocks o done (xs ++ ys) = Emission.andThen (g.weaveBlocks o done xs)
      fun mid => g.weaveBlocks o mid ys := emit_append _ xs ys done
  refine ⟨?_, fun head hhead => ?_, fun t ht => ?_, fun e he => ?_⟩
  · rw [happend]
    obtain ⟨e | head, mid⟩ := g.weaveBlocks o done xs
    · rfl
    · simp only [Emission.andThen]
      rcases g.weaveBlocks o mid ys with ⟨e | tail, after⟩ <;> rfl
  · rcases hxs : g.weaveBlocks o done xs with ⟨_, mid⟩
    rw [hxs] at happend hhead
    cases hhead
    rw [happend]
    rfl
  · exact emits_of_weaveBlocks (Prod.ext ht rfl)
  · obtain ⟨before, n, rest, t, hsplit, hbefore, hn, hbody, hblock⟩ :=
      exists_of_weaveBlocks_eq_error (Prod.ext he rfl)
    exact ⟨before, n, rest, t, hsplit, congrArg Prod.fst hbefore, hbody, hblock,
      emits_of_weaveBlocks hbefore, hn⟩

/-- A block that contributes to `all`, another one, and one that leads back to itself. -/
def relay : Graph where
  corpus := ⟨["#+begin_src x\n", "one\n", "two\n", "#+begin_src x\n", "three\n", "#+begin_src x\n",
    "<<b>>\n"].map String.toList, []⟩
  blocks := [("c".toList, [⟨0, 3, true, by decide⟩]), ("all".toList, [⟨0, 3, true, by decide⟩]),
    ("a".toList, [⟨3, 5, true, by decide⟩]), ("b".toList, [⟨5, 7, true, by decide⟩])]
  dependencies := []
  aggregates := [("all".toList, ["c".toList])]
  tangles := []

/-- The block of `c` comes out with `all` and is passed over afterwards; `h` has none. The block of
`b` fails, so that `b` and the name behind it are not marked. -/
theorem relay_shares :
    relay.weaveBlocks {} [] ["all".toList, "h".toList] =
      (.ok "one\ntwo\n".toList, ["h".toList, "c".toList, "all".toList]) ∧
    relay.weaveBlocks {} ["h".toList, "c".toList, "all".toList] ["c".toList, "a".toList] =
      (.ok "three\n".toList, ["a".toList, "h".toList, "c".toList, "all".toList]) ∧
    relay.weaveBlocks {} [] (["all".toList, "h".toList] ++ ["c".toList, "a".toList]) =
      (.ok "one\ntwo\nthree\n".toList, ["a".toList, "h".toList, "c".toList, "all".toList]) ∧
    relay.Emits {} [] (["all".toList, "h".toList] ++ ["c".toList, "a".toList])
      ["a".toList, "h".toList, "c".toList, "all".toList] ∧
    relay.weaveBlocks {} ["a".toList] (["all".toList, "a".toList] ++ ["b".toList, "h".toList]) =
      (.error (.depthExceeded .weaving 3 "b".toList), ["c".toList, "all".toList, "a".toList]) ∧
    ∃ before n rest,
      ["all".toList, "a".toList] ++ ["b".toList, "h".toList] = before ++ n :: rest ∧
        n ∉ ["c".toList, "all".toList, "a".toList] ∧
        relay.Emits {} ["a".toList] before ["c".toList, "all".toList, "a".toList] := by
  have hxs : relay.weaveBlocks {} [] ["all".toList, "h".toList] =
      (.ok "one\ntwo\n".toList, ["h".toList, "c".toList, "all".toList]) := by decide +kernel
  have hys : relay.weaveBlocks {} ["h".toList, "c".toList, "all".toList] ["c".toList, "a".toList] =
      (.ok "three\n".toList, ["a".toList, "h".toList, "c".toList, "all".toList]) := by
    decide +kernel
  have hfails : relay.weaveBlocks {} ["a".toList]
      (["all".toList, "a".toList] ++ ["b".toList, "h".toList]) =
      (.error (.depthExceeded .weaving 3 "b".toList), ["c".toList, "all".toList, "a".toList]) := by
    decide +kernel
  obtain ⟨htext, hafter, hmarks, -⟩ := weaveBlocks_append relay {} [] ["all".toList, "h".toList]
    ["c".toList, "a".toList]
  rw [hxs, hys] at htext hafter
  have hboth : relay.weaveBlocks {} [] (["all".toList, "h".toList] ++ ["c".toList, "a".toList]) =
      (.ok "one\ntwo\nthree\n".toList, ["a".toList, "h".toList, "c".toList, "all".toList]) :=
    Prod.ext htext (hafter _ rfl)
  obtain ⟨-, -, -, herror⟩ := weaveBlocks_append relay {} ["a".toList] ["all".toList, "a".toList]
    ["b".toList, "h".toList]
  obtain ⟨before, n, rest, -, hsplit, -, -, -, hbefore, hn⟩ := herror _ (congrArg Prod.fst hfails)
  rw [hfails] at hbefore hn
  refine ⟨hxs, hys, hboth, ?_, hfails, before, n, rest, hsplit, hn, hbefore⟩
  have hmarked := hmarks _ (congrArg Prod.fst hboth)
  rwa [hboth] at hmarked

end Graph

end OrgWeave
