import OrgWeave.Proofs.Params.Writing
import OrgWeave.Request

/-!
# What flags have to satisfy

Flags are accepted if they satisfy a list of conditions, on the text and on what its tokens mention
(`conditions`), and the first condition that fails decides the error (`firstFailed_decides`). An
accepted request asks for what is mentioned (`Request.AsksFor`), its unknown flags are the other
keys, each of them once, and its weaving options pass their own check (`ofFields_weaveOptions`).
-/

namespace OrgWeave.Request

open Vocabulary Text

/-! ## Conditions -/

/-- A condition on flags, and the error of flags that fail it. -/
structure Condition where
  holds : Bool
  error : Error

/-- What flags mention, token by token. -/
def mentioned (flags : Text) : Params.Mentions := Params.mentions (words flags)

/-- There is something, and a colon in front. -/
def textConditions (flags : Text) : List Condition :=
  [⟨¬isBlank flags, .missingFlags .flags⟩,
    ⟨flags.find? (fun c => !isSpace c) = some ':', .malformedParameters flags⟩]

/-- Something is asked for, and nothing that does not go with it. -/
def subjectConditions (ms : Params.Mentions) : List Condition :=
  let files := ms.valuesOf externalKey ≠ []
  let blocks := ms.valuesOf nestedKey ≠ []
  [⟨files ∨ blocks ∨ ms.has Flag.tangle, .missingFlags .subject⟩,
    ⟨¬(ms.has Flag.literal ∧ files), .conflictingFlags .literalWithReferences⟩,
    ⟨¬(ms.has Flag.tangle ∧ (files ∨ blocks)), .conflictingFlags .tangleWithRequest⟩]

/-- Whether the values of `:max-depth` are a single number within the limit. -/
def isCeiling : List Text → Bool
  | [v] => v.all Char.isDigit && decide (Nat.ofDigitChars 10 v 0 ≤ Error.depthLimit)
  | _ => false

/-- If a ceiling is asked for, it is one. -/
def depthCondition (ms : Params.Mentions) : Condition :=
  ⟨ms.has Flag.maxDepth → isCeiling (ms.valuesOf Flag.maxDepth),
    .invalidMaxDepth (ms.valuesOf Flag.maxDepth)⟩

/-- The conditions on flags, in the order in which they are checked. -/
def conditions (flags : Text) : List Condition :=
  textConditions flags ++ subjectConditions (mentioned flags) ++ [depthCondition (mentioned flags)]

/-- The first condition that fails. -/
def firstFailed? (cs : List Condition) : Option Condition := cs.find? fun c => !c.holds

/-- The request is the one that is mentioned. -/
structure AsksFor (r : Request) (ms : Params.Mentions) : Prop where
  external : r.external = ms.valuesOf externalKey
  nested : r.nested = ms.valuesOf nestedKey
  literal : r.literal = ms.has Flag.literal
  tangle : r.tangle = ms.has Flag.tangle
  documents : r.documents = ms.valuesOf Flag.documents
  maxDepth : r.maxDepth =
    (ms.valuesOf Flag.maxDepth).head?.elim defaultWeaveDepth (Nat.ofDigitChars 10 · 0)
  debug : r.debug = ms.has Flag.debug
  errorStatus : r.errorStatus = ms.has Flag.errorStatus
  unknownFlags : r.unknownFlags = ms.keys.filter fun key => key ∉ Flag.known

variable {flags : Text} {ms : Params.Mentions} {c : Condition} {cs : List Condition}

theorem firstFailed?_cons_of_fails (h : c.holds = false) (cs : List Condition) :
    firstFailed? (c :: cs) = some c :=
  List.find?_cons_of_pos (by simpa using h)

theorem firstFailed?_cons_of_holds (h : c.holds = true) (cs : List Condition) :
    firstFailed? (c :: cs) = firstFailed? cs :=
  List.find?_cons_of_neg (by simpa using h)

theorem firstFailed?_append (cs ds : List Condition) :
    firstFailed? (cs ++ ds) = (firstFailed? cs).or (firstFailed? ds) :=
  List.find?_append

/-! ## Checks -/

/-- Flags are a parameter string if they begin with a colon. -/
theorem opens_words_iff (flags : Text) :
    Params.opens (words flags) = true ↔ flags.find? (fun c => !isSpace c) = some ':' := by
  induction flags using word_induction with
  | nil => decide
  | space c t hc ih => rw [words_cons hc, ih, List.find?_cons_of_neg (by simp [hc])]
  | word w t hw ht ih =>
    obtain ⟨c, v, rfl⟩ := List.exists_cons_of_ne_nil hw.ne_nil
    have hc : isSpace c = false := (List.forall_mem_cons.1 hw.solid).1
    rw [hw.words_append ht, List.cons_append, List.find?_cons_of_pos (by simp [hc]),
      Params.opens_iff]
    simp

theorem check_collect (ms : Params.Mentions) : check ms.collect =
    (firstFailed? (subjectConditions ms)).elim (.ok ()) fun c => .error c.error := by
  unfold check
  simp only [Params.Mentions.values_collect, Params.Mentions.has_collect, subjectConditions]
  split
  next hnothing =>
    rw [firstFailed?_cons_of_fails (decide_eq_false (by simpa only [not_or] using hnothing))]
    rfl
  next hsomething =>
    rw [firstFailed?_cons_of_holds
      (decide_eq_true (by simpa only [not_and_or, not_not] using hsomething))]
    split
    next hliteral =>
      rw [firstFailed?_cons_of_fails (decide_eq_false (not_not_intro hliteral))]
      rfl
    next hliteral =>
      rw [firstFailed?_cons_of_holds (decide_eq_true hliteral)]
      split
      next htangle =>
        rw [firstFailed?_cons_of_fails (decide_eq_false (not_not_intro htangle))]
        rfl
      next htangle =>
        rw [firstFailed?_cons_of_holds (decide_eq_true htangle)]
        rfl

/-- A numeral is read as its value. -/
theorem toNat?_eq {v : Text} (h : v ≠ []) :
    toNat? v = if v.all Char.isDigit then some (Nat.ofDigitChars 10 v 0) else none :=
  if_congr (and_iff_right h) rfl rfl

/-- Values of `:max-depth` are refused unless they are a ceiling, which is then read. -/
theorem readMaxDepth_some {values : List Text} (h : ∀ v ∈ values, v ≠ []) :
    if isCeiling values then ∃ v depth, values = [v] ∧
      readMaxDepth (some values) = .ok depth ∧ depth.val = Nat.ofDigitChars 10 v 0
    else readMaxDepth (some values) = .error (.invalidMaxDepth values) := by
  match values with
  | [] => rfl
  | [v] =>
    have hread := toNat?_eq (h v List.mem_cons_self)
    cases hdigits : v.all Char.isDigit with
    | false => simp [isCeiling, readMaxDepth, hread, hdigits]
    | true =>
      by_cases hle : Nat.ofDigitChars 10 v 0 ≤ Error.depthLimit
      · simp [isCeiling, readMaxDepth, hread, hdigits, hle]
      · simp [isCeiling, readMaxDepth, hread, hdigits, hle]
  | v :: w :: rest => simp [isCeiling, readMaxDepth]

/-- The ceiling is read exactly if its condition holds. -/
theorem readMaxDepth_collect (h : ms.Plain) : if (depthCondition ms).holds then
      ∃ depth, readMaxDepth (ms.collect.values? Flag.maxDepth) = .ok depth ∧ depth.val =
        (ms.valuesOf Flag.maxDepth).head?.elim defaultWeaveDepth (Nat.ofDigitChars 10 · 0)
    else readMaxDepth (ms.collect.values? Flag.maxDepth) = .error (depthCondition ms).error := by
  rw [Params.Mentions.values?_collect]
  cases hhas : ms.has Flag.maxDepth with
  | false =>
    have hholds : (depthCondition ms).holds = true := by simp [depthCondition, hhas]
    rw [if_pos hholds, Params.Mentions.valuesOf_eq_nil hhas]
    exact ⟨_, rfl, rfl⟩
  | true =>
    have hholds : (depthCondition ms).holds = isCeiling (ms.valuesOf Flag.maxDepth) := by
      simp [depthCondition, hhas]
    have hvalues : ∀ v ∈ ms.valuesOf Flag.maxDepth, v ≠ [] := by
      intro v hv
      obtain ⟨m, hm, hv⟩ := List.mem_flatMap.1 hv
      exact ((h m (List.mem_filter.1 hm).1).values v hv).unbroken.ne_nil
    have hread := readMaxDepth_some hvalues
    rw [hholds, if_pos rfl]
    cases hceiling : isCeiling (ms.valuesOf Flag.maxDepth) with
    | false =>
      rw [hceiling] at hread
      exact hread
    | true =>
      rw [hceiling] at hread
      obtain ⟨v, depth, hsingle, hok, hval⟩ := hread
      refine ⟨depth, hok, ?_⟩
      rw [hsingle, hval]
      rfl

/-! ## Requests -/

theorem ofFields_weaveOptions (r : Request) :
    WeaveOptions.ofFields r.maxDepth r.literal Vocabulary.selfName defaultTemplate
      Graph.defaultResolutionDepth = .ok r.weaveOptions := by
  have := r.maxDepth_le
  unfold WeaveOptions.ofFields
  rw [dif_pos (by omega), dif_pos (by decide)]
  simp [weaveOptions]

theorem plain_mentioned (flags : Text) : (mentioned flags).Plain :=
  Params.plain_mentions fun _ hw => unbroken_of_mem_words hw

theorem isBlank_of_opens (h : Params.opens (words flags) = true) : isBlank flags = false := by
  rw [← Bool.not_eq_true, ← words_eq_nil_iff]
  intro hnil
  rw [hnil] at h
  cases h

/-- Flags that begin with a colon are checked, and then make the request that they mention. -/
theorem ofText?_of_opens (hopens : Params.opens (words flags) = true) :
    ∃ make : Ceiling → Request,
      (ofText? flags = check (mentioned flags).collect >>= fun _ =>
        (readMaxDepth ((mentioned flags).collect.values? Flag.maxDepth)).map make) ∧
      ∀ depth, depth.val = ((mentioned flags).valuesOf Flag.maxDepth).head?.elim defaultWeaveDepth
        (Nat.ofDigitChars 10 · 0) → (make depth).AsksFor (mentioned flags) := by
  have hparams : Params.ofText? flags = .ok (mentioned flags).collect :=
    Params.ofText?_of_opens hopens
  refine ⟨fun depth =>
    { external := (mentioned flags).collect.values externalKey
      nested := (mentioned flags).collect.values nestedKey
      literal := (mentioned flags).collect.has Flag.literal
      tangle := (mentioned flags).collect.has Flag.tangle
      documents := (mentioned flags).collect.values Flag.documents
      maxDepth := depth.val
      debug := (mentioned flags).collect.has Flag.debug
      errorStatus := (mentioned flags).collect.has Flag.errorStatus
      unknownFlags := (mentioned flags).collect.keys.filter fun key => key ∉ Flag.known
      maxDepth_le := depth.property }, ?_, fun depth hdepth => ?_⟩
  · rw [ofText?, isBlank_of_opens hopens, if_neg Bool.false_ne_true, hparams]
    rfl
  · exact
      { external := Params.Mentions.values_collect _ _
        nested := Params.Mentions.values_collect _ _
        literal := Params.Mentions.has_collect _ _
        tangle := Params.Mentions.has_collect _ _
        documents := Params.Mentions.values_collect _ _
        maxDepth := hdepth
        debug := Params.Mentions.has_collect _ _
        errorStatus := Params.Mentions.has_collect _ _
        unknownFlags := congrArg (List.filter _) (Params.Mentions.keys_collect _) }

/-- Where flags begin with a colon, the conditions on what they mention decide. -/
theorem ofText?_mentioned (hopens : Params.opens (words flags) = true) :
    match firstFailed? (subjectConditions (mentioned flags) ++
      [depthCondition (mentioned flags)]) with
    | some c => ofText? flags = .error c.error
    | none => ∃ r, ofText? flags = .ok r ∧ r.AsksFor (mentioned flags) := by
  obtain ⟨make, hmake, hasks⟩ := ofText?_of_opens hopens
  have hcheck := check_collect (mentioned flags)
  have hdepth := readMaxDepth_collect (plain_mentioned flags)
  rw [firstFailed?_append]
  cases hsubject : firstFailed? (subjectConditions (mentioned flags)) with
  | some c =>
    rw [hmake, hcheck, hsubject]
    rfl
  | none =>
    rw [hsubject] at hcheck
    cases hholds : (depthCondition (mentioned flags)).holds with
    | false =>
      rw [hholds, if_neg Bool.false_ne_true] at hdepth
      rw [firstFailed?_cons_of_fails hholds, hmake, hcheck, hdepth]
      rfl
    | true =>
      rw [hholds, if_pos rfl] at hdepth
      obtain ⟨depth, hread, hval⟩ := hdepth
      rw [firstFailed?_cons_of_holds hholds]
      refine ⟨make depth, ?_, hasks depth hval⟩
      rw [hmake, hcheck, hread]
      rfl

/-- An accepted request is the one that is mentioned. -/
theorem asksFor_of_ofText? {r : Request} (h : ofText? flags = .ok r) :
    Params.opens (words flags) = true ∧ r.AsksFor (mentioned flags) := by
  have hopens : Params.opens (words flags) = true := by
    by_contra hopens
    rw [ofText?, Params.ofText?_of_not_opens hopens] at h
    split at h <;> cases h
  have hdecides := ofText?_mentioned hopens
  rw [h] at hdecides
  split at hdecides
  next => cases hdecides
  next =>
    obtain ⟨_, ⟨⟩, hasks⟩ := hdecides
    exact ⟨hopens, hasks⟩

/-- Flags are refused exactly if one of the conditions fails, with the error of the first one; and
an accepted request is the one that is mentioned, with options that can be woven with. -/
theorem firstFailed_decides (flags : Text) :
    match firstFailed? (conditions flags) with
    | some c => ofText? flags = .error c.error
    | none => ∃ r, ofText? flags = .ok r ∧ r.AsksFor (mentioned flags) ∧
        WeaveOptions.ofFields r.maxDepth r.literal selfName defaultTemplate
          Graph.defaultResolutionDepth = .ok r.weaveOptions := by
  rw [conditions, textConditions, List.append_assoc, List.cons_append, List.cons_append]
  cases hblank : isBlank flags with
  | true =>
    rw [firstFailed?_cons_of_fails rfl, ofText?, hblank]
    rfl
  | false =>
    rw [firstFailed?_cons_of_holds rfl]
    cases hopens : Params.opens (words flags) with
    | false =>
      have hcolon : ¬flags.find? (fun c => !isSpace c) = some ':' := by
        simp [← opens_words_iff, hopens]
      rw [firstFailed?_cons_of_fails (decide_eq_false hcolon), ofText?, hblank,
        Params.ofText?_of_not_opens (Bool.not_eq_true _ ▸ hopens)]
      rfl
    | true =>
      have hdecides := ofText?_mentioned hopens
      rw [firstFailed?_cons_of_holds (decide_eq_true ((opens_words_iff flags).1 hopens)),
        List.nil_append]
      split at hdecides
      next => exact hdecides
      next =>
        obtain ⟨r, hr, hasks⟩ := hdecides
        exact ⟨r, hr, hasks, ofFields_weaveOptions r⟩

end OrgWeave.Request
