import OrgWeave.Proofs.Weave.Emission
import OrgWeave.Proofs.Weave.Nesting

/-!
# Higher ceilings

Two ceilings can stop the answer to a request, the one of nested markers and the one of nested
references. `GoesOn x y` says that `y` ends as `x` does, with the same result or the same error,
unless a ceiling stopped `x`. It passes through everything that is done in steps
(`GoesOn.bind`, `GoesOn.gather`, `GoesOn.visitAll`), since the steps before a ceiling are the
same.

So closing a request goes on under a higher ceiling (`goesOn_resolve`), and so does expansion,
in which each level can close requests of its own (`goesOn_expand`). Both together make up the
text of a request (`request_goesOn`).
-/

namespace OrgWeave

variable {α β : Type}

/-- `y` ends as `x` does, unless a ceiling stops `x`. -/
def GoesOn (x y : Except Error α) : Prop :=
  (∀ stage ceiling n, x ≠ .error (.depthExceeded stage ceiling n)) → y = x

namespace GoesOn

variable {x x' : Except Error α} {f f' : α → Except Error β}

theorem refl (x : Except Error α) : GoesOn x x := fun _ => rfl

theorem of_eq (h : x' = x) : GoesOn x x' := fun _ => h

/-- Whatever a ceiling stops goes on in any way. -/
theorem stopped (stage : Stage) (ceiling : Int) (n : Text) :
    GoesOn (.error (.depthExceeded stage ceiling n)) x :=
  fun h => absurd rfl (h stage ceiling n)

theorem bind (h : GoesOn x x') (hf : ∀ a, GoesOn (f a) (f' a)) :
    GoesOn (x >>= f) (x' >>= f') := by
  intro hne
  cases x with
  | error e =>
    have hx : x' = .error e := by
      refine h fun stage ceiling n heq => hne stage ceiling n ?_
      rw [heq]
      rfl
    rw [hx]
    rfl
  | ok a =>
    have hx : x' = .ok a := h fun _ _ _ heq => nomatch heq
    rw [hx]
    exact hf a hne

/-- What is gathered goes on if it does for every item. -/
theorem gather {f f' : α → Except Error (List β)} {as : List α}
    (h : ∀ a ∈ as, GoesOn (f a) (f' a)) : GoesOn (gather f as) (gather f' as) := by
  induction as with
  | nil => exact refl _
  | cons a as ih =>
    have has := ih fun b hb => h b (List.mem_cons_of_mem a hb)
    exact (h a List.mem_cons_self).bind fun _ => has.bind fun _ => refl _

/-- A run over names goes on if each visit does. -/
theorem visitAll {f f' : Trail → Text → Except Error Trail}
    (h : ∀ t n, GoesOn (f t n) (f' t n)) (names : List Text) (t : Trail) :
    GoesOn (Trail.visitAll f t names) (Trail.visitAll f' t names) := by
  induction names generalizing t with
  | nil => exact refl _
  | cons n names ih => exact (h t n).bind ih

end GoesOn

namespace Graph

variable {g : Graph}

/-! ## Closures -/

/-- A visit goes on under a higher ceiling with more levels left. -/
theorem goesOn_visit {ceiling ceiling' : Int} {levels levels' : Nat} (h : levels ≤ levels')
    (t : Trail) (n : Text) :
    GoesOn (g.visit ceiling levels t n) (g.visit ceiling' levels' t n) := by
  induction levels generalizing levels' t n with
  | zero =>
    by_cases hseen : n ∈ t.seen
    · cases levels' <;> simp [visit, hseen, GoesOn.refl]
    · rw [visit, if_neg hseen]
      exact GoesOn.stopped _ _ _
  | succ levels ih =>
    obtain ⟨k, rfl⟩ : ∃ k, levels' = k + 1 := ⟨levels' - 1, by omega⟩
    rw [visit, visit]
    split
    · exact GoesOn.refl _
    · exact (GoesOn.visitAll (ih (Nat.le_of_succ_le_succ h)) _ _).bind fun _ => GoesOn.refl _

theorem goesOn_resolve {ceiling ceiling' : Int} (h : ceiling ≤ ceiling')
    (names external : List Text) :
    GoesOn (g.resolve names external ceiling) (g.resolve names external ceiling') := by
  have hlevels : (ceiling + 1).toNat ≤ (ceiling' + 1).toNat := by omega
  exact (GoesOn.visitAll (goesOn_visit hlevels) names .empty).bind fun _ => GoesOn.refl _

end Graph

/-! ## Expansion -/

/-- The second options are the first ones with ceilings that are at least as high. -/
structure WeaveOptions.Raised (o o' : WeaveOptions) : Prop where
  maxDepth : o.maxDepth ≤ o'.maxDepth
  resolutionDepth : o.resolutionDepth ≤ o'.resolutionDepth
  literal : o'.literal = o.literal
  selfName : o'.selfName = o.selfName
  template : o'.template = o.template

namespace Graph

variable {g : Graph} {o o' : WeaveOptions} {levels levels' : Nat}

/-- Lines that include files do not depend on ceilings. -/
theorem inclusionLines_of_raised (h : o.Raised o') (lead : Text) (refs : List Text) :
    o'.inclusionLines lead refs = o.inclusionLines lead refs := by
  induction refs with
  | nil => rfl
  | cons ref refs ih =>
    rw [WeaveOptions.inclusionLines, WeaveOptions.inclusionLines, h.template, ih]

/-- Emission goes on if weaving does. -/
theorem goesOn_emit {weave weave' : Text → Except Error (List α)}
    (h : ∀ n, GoesOn (weave n) (weave' n)) (done : Emitted) (names : List Text) :
    GoesOn (emit g weave done names).1 (emit g weave' done names).1 := by
  rw [emit_eq_gather, emit_eq_gather]
  exact GoesOn.gather fun n _ => h n

section Nested

variable {weave weave' : Text → Text → Except Error (List Line)} (h : o.Raised o')
  (hweave : ∀ lead n, GoesOn (weave lead n) (weave' lead n)) (hlevels : levels ≤ levels')

include h hweave hlevels

/-- A call goes on under higher ceilings, with more levels left. -/
theorem goesOn_selfInclusion (lead flags : Text) :
    GoesOn (g.selfInclusion o weave levels lead flags)
      (g.selfInclusion o' weave' levels' lead flags) := by
  unfold selfInclusion
  by_cases hnone : levels = 0
  · rw [if_pos hnone]
    exact GoesOn.stopped _ _ _
  · rw [if_neg hnone, if_neg (by omega)]
    refine (GoesOn.refl _).bind fun p => (GoesOn.refl _).bind fun _ => ?_
    refine (goesOn_resolve h.resolutionDepth _ _).bind fun r => ?_
    refine (GoesOn.of_eq (inclusionLines_of_raised h _ _)).bind fun _ => ?_
    exact (goesOn_emit (hweave lead) _ _).bind fun _ => GoesOn.refl _

theorem goesOn_expandBody (lead : Text) (span : BodySpan) :
    GoesOn (g.expandBody o weave levels lead span) (g.expandBody o' weave' levels' lead span) := by
  refine GoesOn.gather fun l _ => ?_
  unfold expandLine
  rw [h.selfName]
  cases Marker.role o.selfName span.expandsMarkers l with
  | text => exact GoesOn.refl _
  | reference indent n => exact hweave _ n
  | request indent flags => exact goesOn_selfInclusion h hweave hlevels _ flags

end Nested

/-- Expansion goes on under higher ceilings, with more levels left. -/
theorem goesOn_expand (h : o.Raised o') (hlevels : levels ≤ levels') (lead n : Text) :
    GoesOn (g.expand o levels lead n) (g.expand o' levels' lead n) := by
  induction levels generalizing levels' lead n with
  | zero =>
    cases hknown : g.isKnown n with
    | false =>
      rw [expand_of_unknown hknown, expand_of_unknown hknown]
      exact GoesOn.refl _
    | true =>
      rw [expand_zero_of_known hknown]
      exact GoesOn.stopped _ _ _
  | succ levels ih =>
    obtain ⟨k, rfl⟩ : ∃ k, levels' = k + 1 := ⟨levels' - 1, by omega⟩
    have hk : levels ≤ k := Nat.le_of_succ_le_succ hlevels
    rw [expand, expand]
    refine (GoesOn.refl _).bind fun _ => GoesOn.gather fun span _ => ?_
    exact goesOn_expandBody h (ih hk) hk lead span

theorem goesOn_blockText (h : o.Raised o') (n : Text) :
    GoesOn (g.blockText o n) (g.blockText o' n) := by
  have hlevels : o.levelsAt 0 ≤ o'.levelsAt 0 := by
    rw [o.levelsAt_zero, o'.levelsAt_zero]
    exact Nat.succ_le_succ h.maxDepth
  refine (goesOn_expand h hlevels [] n).bind fun ls => ?_
  rw [h.literal]
  exact GoesOn.refl _

theorem goesOn_stream (h : o.Raised o') (r : Resolution) :
    GoesOn (g.stream o r) (g.stream o' r) := by
  refine (GoesOn.of_eq (inclusionLines_of_raised h _ _)).bind fun _ => ?_
  exact (goesOn_emit (goesOn_blockText h) _ _).bind fun _ => GoesOn.refl _

/-- A request ends under higher ceilings as it does under lower ones, with the same text or the
same error, unless one of the lower ones stops it. -/
theorem request_goesOn {g : Graph} {o o' : WeaveOptions} (h : o.Raised o')
    (names external : List Text)
    (hends : ∀ stage ceiling n, (g.resolve names external o.resolutionDepth >>= g.stream o) ≠
      .error (.depthExceeded stage ceiling n)) :
    (g.resolve names external o'.resolutionDepth >>= g.stream o') =
      (g.resolve names external o.resolutionDepth >>= g.stream o) :=
  (goesOn_resolve h.resolutionDepth names external).bind (goesOn_stream h) hends

/-- A block that calls for another one, which it also refers to. -/
def kettle : List (Text × Text) :=
  [("d.org".toList, ["#+depends:tea :cpp cup :noweb pot\n", "#+name: tea\n", "#+begin_src x\n",
    " <<include(\x22:noweb pot\x22)>>\n", "#+end_src\n", "#+name: pot\n", "#+begin_src x\n",
    "hot\n", "#+end_src\n"].flatMap String.toList)]

/-- The graph of `kettle`. -/
def kettleGraph : Graph where
  corpus := Corpus.ofTexts kettle
  blocks :=
    [("tea".toList, [⟨2, 4, true, by decide⟩]), ("pot".toList, [⟨6, 8, true, by decide⟩])]
  dependencies := [("tea".toList, ⟨["cup".toList], ["pot".toList]⟩)]
  aggregates := []
  tangles := []

/-- One level of markers and one of references are enough for the request, so that it comes to the
same under the highest ceiling of markers; no level of markers is not. -/
theorem kettle_goesOn :
    ofCorpus (Corpus.ofTexts kettle) true = .ok kettleGraph ∧
      (do let r ← kettleGraph.resolve ["tea".toList] [] 1
          kettleGraph.stream { maxDepth := 1, resolutionDepth := 1 } r) =
        .ok "#include <cup>\nhot\n hot\n".toList ∧
      (do let r ← kettleGraph.resolve ["tea".toList] [] 256
          kettleGraph.stream { maxDepth := 100, resolutionDepth := 256 } r) =
        .ok "#include <cup>\nhot\n hot\n".toList ∧
      (do let r ← kettleGraph.resolve ["tea".toList] [] 1
          kettleGraph.stream { maxDepth := 0, resolutionDepth := 1 } r) =
        .error (.depthExceeded .weaving 0 "include(:noweb pot)".toList) := by
  have hlow : (do
      let r ← kettleGraph.resolve ["tea".toList] [] 1
      kettleGraph.stream { maxDepth := 1, resolutionDepth := 1 } r) =
        .ok "#include <cup>\nhot\n hot\n".toList := by
    decide +kernel
  have hraised : WeaveOptions.Raised { maxDepth := 1, resolutionDepth := 1 }
      { maxDepth := 100, resolutionDepth := 256 } := ⟨by decide, by decide, rfl, rfl, rfl⟩
  refine ⟨by decide +kernel, hlow, ?_, by decide +kernel⟩
  refine (request_goesOn hraised _ _ fun _ _ _ heq => ?_).trans hlow
  cases hlow.symm.trans heq

end Graph

end OrgWeave
