import Mathlib.Data.List.Basic
import OrgWeave.Proofs.Params.Grammar

/-!
# Parameters that are written and read

What is read of a parameter string are words, and no value begins with a colon, which would have
opened a segment (`Mentions.Plain`, `plain_of_ofText?`). Written, such parameters have the tokens
that they are mentioned by (`words_toText`), each key with a colon in front. They are read again as
they were, except for a first key that itself begins with a colon : the first token of a text
loses two (`ofText?_toText`). So writing and reading gives the parameters back exactly if their
first key begins with something else (`reads_back_iff`).
-/

namespace OrgWeave.Params

open Text

/-! ## What is read -/

/-- A word that opens no segment. -/
structure IsValue (v : Text) : Prop where
  unbroken : Unbroken v
  head?_ne : v.head? ≠ some ':'

/-- A key is a word, and its values are words that open no segment. -/
structure PlainMention (m : Text × List Text) : Prop where
  key : Unbroken m.1
  values : ∀ v ∈ m.2, IsValue v

/-- All that is mentioned is plain. -/
def Mentions.Plain (ms : Mentions) : Prop := ∀ m ∈ ms, PlainMention m

variable {t w key : Text} {p : Params} {vs tokens : List Text} {ms : Mentions}
  {m : Text × List Text}

/-- What is plain stays so when the values of equal keys are put together. -/
theorem Mentions.Plain.collect (h : ms.Plain) : Plain ms.collect := by
  intro row hrow
  obtain ⟨key, hkey, rfl⟩ := List.mem_map.1 hrow
  constructor
  · obtain ⟨m, hm, rfl⟩ := List.mem_map.1 (has_iff.1 (mem_keys.1 hkey))
    exact (h m hm).key
  · intro v hv
    obtain ⟨m, hm, hv⟩ := List.mem_flatMap.1 hv
    exact (h m (List.mem_filter.1 hm).1).values v hv

theorem kept_eq_self (h : ∀ v ∈ vs, IsValue v) : kept vs = vs :=
  List.filter_eq_self.2 fun v hv => by simpa using (h v hv).unbroken.ne_nil

theorem kept_cons_of_ne_nil (hw : w ≠ []) (h : ∀ v ∈ vs, IsValue v) : kept (w :: vs) = w :: vs := by
  rw [kept, List.filter_cons_of_pos (by simpa using hw), ← kept, kept_eq_self h]

theorem mention?_cons_of_ne_nil (hw : w ≠ []) (h : ∀ v ∈ vs, IsValue v) :
    mention? (w :: vs) = some (w, vs) := by
  rw [mention?, kept_cons_of_ne_nil hw h]

theorem mention?_nil_cons (vs : List Text) : mention? ([] :: vs) = mention? vs := rfl

/-- A segment mentions words, though the colon may be all that there is of its first token. -/
theorem plain_of_mention? (hw : ∀ c ∈ w, isSpace c = false) (h : ∀ v ∈ vs, IsValue v)
    (hm : mention? (w :: vs) = some m) : PlainMention m := by
  by_cases hne : w = []
  · rw [hne, mention?_nil_cons] at hm
    cases vs with
    | nil => cases hm
    | cons v vs =>
      obtain ⟨hv, hvs⟩ := List.forall_mem_cons.1 h
      rw [mention?_cons_of_ne_nil hv.unbroken.ne_nil hvs] at hm
      cases hm
      exact ⟨hv.unbroken, hvs⟩
  · rw [mention?_cons_of_ne_nil hne h] at hm
    cases hm
    exact ⟨⟨hne, hw⟩, h⟩

/-- Behind the token that opens it, a segment holds values. -/
theorem of_mem_cut (h : ∀ w ∈ tokens, Unbroken w) : (∀ v ∈ (cut tokens).1, IsValue v) ∧
    ∀ segment ∈ (cut tokens).2, ∃ w vs, segment = w :: vs ∧ (∀ c ∈ w, isSpace c = false) ∧
      ∀ v ∈ vs, IsValue v := by
  induction tokens with
  | nil => simp [cut]
  | cons w tokens ih =>
    obtain ⟨hw, htokens⟩ := List.forall_mem_cons.1 h
    obtain ⟨hopen, hsegments⟩ := ih htokens
    by_cases hcolon : w.head? = some ':'
    · obtain ⟨rest, rfl⟩ := List.head?_eq_some_iff.1 hcolon
      have hrest : ∀ c ∈ rest, isSpace c = false := (List.forall_mem_cons.1 hw.solid).2
      rw [cut]
      exact ⟨by simp, List.forall_mem_cons.2 ⟨⟨rest, _, rfl, hrest, hopen⟩, hsegments⟩⟩
    · rw [cut_cons_of_ne hcolon]
      exact ⟨List.forall_mem_cons.2 ⟨⟨hw, hcolon⟩, hopen⟩, hsegments⟩

theorem solid_dropColon (h : ∀ c ∈ w, isSpace c = false) :
    ∀ c ∈ dropColon w, isSpace c = false := by
  by_cases hcolon : w.head? = some ':'
  · obtain ⟨rest, rfl⟩ := List.head?_eq_some_iff.1 hcolon
    exact (List.forall_mem_cons.1 h).2
  · rwa [dropColon_of_ne hcolon]

/-- The tokens of a text mention what is plain. -/
theorem plain_mentions (h : ∀ w ∈ tokens, Unbroken w) : (mentions tokens).Plain := by
  unfold mentions
  split
  next first tokens =>
    obtain ⟨hfirst, htokens⟩ := List.forall_mem_cons.1 h
    obtain ⟨hopen, hsegments⟩ := of_mem_cut htokens
    have hw := solid_dropColon (List.forall_mem_cons.1 hfirst.solid).2
    intro m hm
    obtain ⟨segment, hsegment, hm⟩ := List.mem_filterMap.1 hm
    rcases List.mem_cons.1 hsegment with rfl | hsegment
    · exact plain_of_mention? hw hopen hm
    · obtain ⟨w, vs, rfl, hw, hvs⟩ := hsegments segment hsegment
      exact plain_of_mention? hw hvs hm
  next => exact fun _ hm => absurd hm List.not_mem_nil

/-- What is read of a text is plain, and no key is there twice. -/
theorem plain_of_ofText? (h : ofText? t = .ok p) : Mentions.Plain p ∧ p.keys.Nodup := by
  by_cases hopens : opens (words t) = true
  · rw [ofText?_of_opens hopens] at h
    cases h
    rw [Mentions.keys_collect]
    exact ⟨(plain_mentions fun w hw => unbroken_of_mem_words hw).collect, Mentions.nodup_keys _⟩
  · rw [ofText?_of_not_opens hopens] at h
    cases h

/-! ## What is written -/

/-- The tokens that mention a key and its values. -/
def tokensOf (m : Text × List Text) : List Text := (':' :: m.1) :: m.2

theorem PlainMention.unbroken (h : PlainMention m) : ∀ w ∈ tokensOf m, Unbroken w :=
  List.forall_mem_cons.2 ⟨⟨List.cons_ne_nil _ _, List.forall_mem_cons.2 ⟨by decide, h.key.solid⟩⟩,
    fun v hv => (h.values v hv).unbroken⟩

/-- Plain parameters are written as the tokens that mention them. -/
theorem words_toText (h : Mentions.Plain p) : words (toText p) = p.flatMap tokensOf := by
  have hrow : ∀ m ∈ p, words (segmentText m) = tokensOf m := by
    intro m hm
    have hword : ∀ w ∈ tokensOf m, words w = [w] := fun w hw => ((h m hm).unbroken w hw).words
    rw [segmentText, words_unwords, ← tokensOf, List.flatMap_congr hword, List.flatMap_singleton']
  rw [toText, words_unwords, List.flatMap_map]
  exact List.flatMap_congr hrow

theorem cut_append (h : ∀ v ∈ vs, IsValue v) (tokens : List Text) :
    cut (vs ++ tokens) = (vs ++ (cut tokens).1, (cut tokens).2) := by
  induction vs with
  | nil => rfl
  | cons v vs ih =>
    obtain ⟨hv, hvs⟩ := List.forall_mem_cons.1 h
    rw [List.cons_append, cut_cons_of_ne hv.head?_ne, ih hvs]
    rfl

/-- The tokens that mention something are cut into what they mention. -/
theorem cut_flatMap_tokensOf (h : ms.Plain) :
    cut (ms.flatMap tokensOf) = ([], ms.map fun m => m.1 :: m.2) := by
  induction ms with
  | nil => rfl
  | cons m ms ih =>
    obtain ⟨hm, hms⟩ := List.forall_mem_cons.1 h
    rw [List.flatMap_cons, tokensOf, List.cons_append, cut, cut_append hm.values, ih hms,
      List.append_nil]
    rfl

/-- Written parameters are read as they were, but for a colon at the front of the first key. -/
theorem ofText?_toText (h : Mentions.Plain (m :: ms)) : ofText? (toText (m :: ms)) =
    .ok (Mentions.collect ((mention? (dropColon m.1 :: m.2)).toList ++ ms)) := by
  obtain ⟨hm, hms⟩ := List.forall_mem_cons.1 h
  have hrest : (ms.map fun m => m.1 :: m.2).filterMap mention? = ms := by
    rw [List.filterMap_map]
    refine (List.filterMap_congr fun m hm => ?_).trans List.filterMap_some
    exact mention?_cons_of_ne_nil (hms m hm).key.ne_nil (hms m hm).values
  have hmentions : mentions (words (toText (m :: ms))) =
      (mention? (dropColon m.1 :: m.2)).toList ++ ms := by
    rw [words_toText h, List.flatMap_cons, tokensOf, List.cons_append, mentions,
      cut_append hm.values, cut_flatMap_tokensOf hms, List.append_nil, List.filterMap_cons, hrest]
    cases mention? (dropColon m.1 :: m.2) <;> rfl
  have hopens : opens (words (toText (m :: ms))) = true := by
    rw [words_toText h]
    rfl
  rw [ofText?_of_opens hopens, hmentions]

/-- Without the colon at its front, the key is not mentioned any more. -/
theorem ne_of_mention?_dropColon (hcolon : key.head? = some ':') (hvs : ∀ v ∈ vs, IsValue v)
    (hm : mention? (dropColon key :: vs) = some m) : m.1 ≠ key := by
  obtain ⟨rest, rfl⟩ := List.head?_eq_some_iff.1 hcolon
  by_cases hrest : rest = []
  · -- the first value becomes the key, and no value begins with a colon
    rw [hrest, dropColon, mention?_nil_cons] at hm
    cases vs with
    | nil => cases hm
    | cons v vs =>
      obtain ⟨hv, hvs⟩ := List.forall_mem_cons.1 hvs
      rw [mention?_cons_of_ne_nil hv.unbroken.ne_nil hvs] at hm
      cases hm
      rintro rfl
      exact hv.head?_ne hcolon
  · rw [dropColon, mention?_cons_of_ne_nil hrest hvs] at hm
    cases hm
    exact (List.cons_ne_self ':' rest).symm

/-- Parameters that are read of a text are read again once they are written, and come out as they
were exactly if their first key does not begin with a colon. -/
theorem reads_back_iff (h : ofText? t = .ok p) (hp : p ≠ []) :
    (∃ q, ofText? (toText p) = .ok q) ∧
      (ofText? (toText p) = .ok p ↔ ∀ key ∈ p.keys.head?, key.head? ≠ some ':') := by
  obtain ⟨hplain, hnodup⟩ := plain_of_ofText? h
  obtain ⟨m, ms, rfl⟩ := List.exists_cons_of_ne_nil hp
  obtain ⟨hm, hms⟩ := List.forall_mem_cons.1 hplain
  refine ⟨⟨_, ofText?_toText hplain⟩, ?_⟩
  rw [ofText?_toText hplain]
  constructor
  · -- the first key would have to be one of the others, and no key is there twice
    rintro hback _ ⟨⟩ hcolon
    have hkey : m.1 ∈ Mentions.keys ((mention? (dropColon m.1 :: m.2)).toList ++ ms) := by
      rw [← Mentions.keys_collect, Except.ok.inj hback]
      exact List.mem_cons_self
    have hmention := Mentions.has_iff.1 (Mentions.mem_keys.1 hkey)
    rw [List.map_append, List.mem_append] at hmention
    rcases hmention with hfirst | hlater
    · obtain ⟨m', hm', heq⟩ := List.mem_map.1 hfirst
      exact ne_of_mention?_dropColon hcolon hm.values (Option.mem_toList.1 hm') heq
    · exact (List.nodup_cons.1 hnodup).1 hlater
  · intro hkey
    rw [dropColon_of_ne (hkey m.1 rfl), mention?_cons_of_ne_nil hm.key.ne_nil hm.values]
    exact congrArg Except.ok (Mentions.collect_eq_self hnodup)

/-- A lid with a colon of its own. -/
def lid : Params := [(":lid".toList, ["pot".toList, "pan".toList]), ("cup".toList, [])]

/-- Two colons stand in front of the lid when it is written, and both are lost. -/
theorem lid_read_without_colon : ofText? ":::lid pot :cup ::lid pan".toList = .ok lid ∧ lid ≠ [] ∧
    ofText? (toText lid) = .ok [("lid".toList, ["pot".toList, "pan".toList]), ("cup".toList, [])] ∧
    ofText? (toText lid) ≠ .ok lid := by
  have hread : ofText? ":::lid pot :cup ::lid pan".toList = .ok lid := by decide +kernel
  have hne : lid ≠ [] := List.cons_ne_nil _ _
  have hback : ofText? (toText lid) =
      .ok [("lid".toList, ["pot".toList, "pan".toList]), ("cup".toList, [])] := by decide +kernel
  exact ⟨hread, hne, hback, fun heq => (reads_back_iff hread hne).2.1 heq _ rfl rfl⟩

end OrgWeave.Params
