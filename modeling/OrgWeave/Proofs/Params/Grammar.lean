import OrgWeave.Proofs.Params.Mentions
import OrgWeave.Proofs.Text.Words

/-!
# Parameter strings token by token

A parameter string is read by its tokens, the words of the text. `cut` puts them together in
segments : a token with a colon in front opens one and loses the colon, and other tokens go on with
the segment that is open. Of the tokens of a segment that are not empty, the first one is a key and
the others are its values (`mention?`). The first token of all has to open a segment (`opens`), and
loses another colon if it has one (`mentions`).

Reading cuts the stripped text behind its first colon, character by character, and splits each
segment at its white space. The words of these segments are the tokens of the segments of `cut`
(`map_words_segments`), by induction on the text a word at a time, so that reading the text is
reading its tokens (`reads_tokens`).
-/

namespace OrgWeave.Params

open Text

/-! ## Tokens -/

/-- The tokens in front of the first one that opens a segment, and the segments from there on. -/
def cut : List Text → List Text × List (List Text)
  | [] => ([], [])
  | (':' :: rest) :: tokens => ([], (rest :: (cut tokens).1) :: (cut tokens).2)
  | token :: tokens => (token :: (cut tokens).1, (cut tokens).2)

/-- The tokens of a segment that are not empty. -/
def kept (segment : List Text) : List Text := segment.filter (· ≠ [])

/-- What a segment mentions, if anything is kept of it. -/
def mention? (segment : List Text) : Option (Text × List Text) :=
  match kept segment with
  | [] => none
  | key :: vs => some (key, vs)

/-- A token without the colon in front, if there is one. -/
def dropColon : Text → Text
  | ':' :: rest => rest
  | token => token

/-- Whether there is a first token and a colon in front of it. -/
def opens : List Text → Bool
  | (':' :: _) :: _ => true
  | _ => false

/-- What the tokens of a parameter string mention, segment by segment. -/
def mentions : List Text → Mentions
  | (':' :: first) :: tokens =>
    ((dropColon first :: (cut tokens).1) :: (cut tokens).2).filterMap mention?
  | _ => []

variable {w t : Text} {tokens : List Text}

theorem opens_iff : opens tokens = true ↔ ∃ first rest, tokens = (':' :: first) :: rest := by
  constructor
  · intro h
    unfold opens at h
    split at h
    · exact ⟨_, _, rfl⟩
    · cases h
  · rintro ⟨first, rest, rfl⟩
    rfl

theorem cut_cons_of_ne (h : w.head? ≠ some ':') (tokens : List Text) :
    cut (w :: tokens) = (w :: (cut tokens).1, (cut tokens).2) := by
  rw [cut]
  rintro rest rfl
  exact h rfl

theorem dropColon_of_ne (h : w.head? ≠ some ':') : dropColon w = w := by
  unfold dropColon
  split
  · exact absurd rfl h
  · rfl

/-- What is kept of a token is what it has of words. -/
theorem kept_cons (hw : ∀ c ∈ w, isSpace c = false) (tokens : List Text) :
    kept (w :: tokens) = words w ++ kept tokens := by
  rw [words_of_solid hw, kept, kept, ← List.filter_append]
  rfl

theorem kept_words (t : Text) : kept (words t) = words t :=
  List.filter_eq_self.2 fun w hw => by simpa using (unbroken_of_mem_words hw).ne_nil

theorem mention?_kept (segment : List Text) : mention? (kept segment) = mention? segment := by
  simp [mention?, kept]

/-! ## Segments of a text -/

theorem segments_ne_nil (b : Bool) (t : Text) : segments b t ≠ [] := by
  cases t with
  | nil => simp [segments]
  | cons c t =>
    rw [segments]
    split
    · simp
    · split <;> simp

/-- A character that does not cut goes to the first segment. -/
theorem segments_cons_of_ne {b : Bool} {c : Char} (h : b = false ∨ c ≠ ':') (t : Text) :
    segments b (c :: t) = (segments (isSpace c) t).modifyHead (c :: ·) := by
  have hcut : (b && c == ':') = false := by
    rcases h with rfl | h
    · rfl
    · simp [h]
  rw [segments, hcut, if_neg Bool.false_ne_true]
  split
  next hnil => exact absurd hnil (segments_ne_nil _ _)
  next hcons => rw [hcons]; rfl

theorem segments_cons_of_isSpace {c : Char} (hc : isSpace c = true) (b : Bool) (t : Text) :
    segments b (c :: t) = (segments true t).modifyHead (c :: ·) := by
  have hne : c ≠ ':' := by
    rintro rfl
    cases hc
  rw [segments_cons_of_ne (Or.inr hne), hc]

theorem segments_colon (t : Text) : segments true (':' :: t) = [] :: segments false t := rfl

/-- What stands in front of a text matters for a colon at its front only. -/
theorem segments_true_of_ne (h : t.head? ≠ some ':') : segments true t = segments false t := by
  cases t with
  | nil => rfl
  | cons c t =>
    have hne : c ≠ ':' := fun heq => h (congrArg some heq)
    rw [segments_cons_of_ne (Or.inr hne), segments_cons_of_ne (Or.inl rfl)]

/-- No segment opens in the middle of a word. -/
theorem segments_solid_append (hw : ∀ c ∈ w, isSpace c = false) (t : Text) :
    segments false (w ++ t) = (segments false t).modifyHead (w ++ ·) := by
  induction w with
  | nil => exact (congrFun List.modifyHead_id _).symm
  | cons c w ih =>
    obtain ⟨hc, hw⟩ := List.forall_mem_cons.1 hw
    rw [List.cons_append, segments_cons_of_ne (Or.inl rfl), hc, ih hw, List.modifyHead_modifyHead]
    rfl

/-- The end of a word in front of a text is one more token of the first segment. -/
theorem map_words_segments_append (hw : ∀ c ∈ w, isSpace c = false) (ht : Apart t)
    {segment : List Text} {rest : List (List Text)}
    (h : (segments true t).map words = (segment :: rest).map kept) :
    (segments false (w ++ t)).map words = ((w :: segment) :: rest).map kept := by
  have hfront : (segments false (w ++ t)).map words =
      ((segments true t).map words).modifyHead (words w ++ ·) := by
    rw [segments_solid_append hw]
    cases t with
    | nil => simp [segments, words_nil]
    | cons c t =>
      have hc : isSpace c = true := ht c rfl
      obtain ⟨s, ss, hs⟩ := List.exists_cons_of_ne_nil (segments_ne_nil true t)
      rw [segments_cons_of_isSpace hc, segments_cons_of_isSpace hc, hs]
      simp [words_append_cons hc, words_cons hc]
  rw [hfront, h, List.map_cons, List.map_cons, kept_cons hw]
  rfl

/-- The words of the segments of a text are its tokens in segments. -/
theorem map_words_segments (t : Text) :
    (segments true t).map words = ((cut (words t)).1 :: (cut (words t)).2).map kept := by
  induction t using word_induction with
  | nil => rfl
  | space c t hc ih =>
    obtain ⟨s, ss, hs⟩ := List.exists_cons_of_ne_nil (segments_ne_nil true t)
    rw [words_cons hc, ← ih, segments_cons_of_isSpace hc, hs]
    simp [words_cons hc]
  | word w t hw ht ih =>
    rw [hw.words_append ht]
    obtain ⟨c, v, rfl⟩ := List.exists_cons_of_ne_nil hw.ne_nil
    by_cases hcolon : c = ':'
    · subst hcolon
      have hv : ∀ c ∈ v, isSpace c = false := (List.forall_mem_cons.1 hw.solid).2
      rw [List.cons_append, segments_colon, List.map_cons, map_words_segments_append hv ht ih, cut]
      rfl
    · have hhead : ∀ s : Text, (c :: s).head? ≠ some ':' :=
        fun s heq => hcolon (Option.some.inj heq)
      rw [cut_cons_of_ne (hhead v), ← map_words_segments_append hw.solid ht ih, List.cons_append,
        segments_true_of_ne (hhead _)]

/-! ## Reading -/

/-- Reading a segment adds what its words mention. -/
theorem addSegment_eq (p : Params) (segment : Text) : addSegment p segment =
    (mention? (words segment)).elim p fun m => p.add m.1 m.2 := by
  rw [addSegment, mention?, kept_words]
  cases words segment <;> rfl

/-- Reading segments one after another collects what they mention. -/
theorem ofSegments_eq (body : Text) :
    ofSegments body = Mentions.collect (((segments true body).map words).filterMap mention?) := by
  have hfold : ∀ (segments : List Text) (p : Params), segments.foldl addSegment p =
      ((segments.map words).filterMap mention?).foldl (fun p m => p.add m.1 m.2) p := by
    intro segments
    induction segments with
    | nil => exact fun _ => rfl
    | cons segment segments ih =>
      intro p
      rw [List.foldl_cons, ih, addSegment_eq, List.map_cons, List.filterMap_cons]
      cases mention? (words segment) <;> rfl
  rw [ofSegments, hfold, Mentions.foldl_add]

/-- The segments behind the first colon of a text mention what its tokens do. -/
theorem filterMap_mention?_segments (hw : ∀ c ∈ w, isSpace c = false) (ht : Apart t) :
    ((segments true (w ++ t)).map words).filterMap mention? =
      mentions ((':' :: w) :: words t) := by
  have hkept : ∀ segments : List (List Text),
      (segments.map kept).filterMap mention? = segments.filterMap mention? := fun segments => by
    rw [List.filterMap_map]
    exact congrArg (segments.filterMap ·) (funext mention?_kept)
  rw [mentions]
  by_cases hcolon : w.head? = some ':'
  · -- a second colon opens a segment at once, and the one in front of it mentions nothing
    obtain ⟨v, rfl⟩ := List.head?_eq_some_iff.1 hcolon
    have hv : ∀ c ∈ v, isSpace c = false := (List.forall_mem_cons.1 hw).2
    rw [List.cons_append, segments_colon, List.map_cons,
      map_words_segments_append hv ht (map_words_segments t), List.filterMap_cons, words_nil, hkept]
    rfl
  · have hfront : (w ++ t).head? ≠ some ':' := by
      cases w with
      | nil => exact fun heq => nomatch ht ':' heq
      | cons c w => exact hcolon
    rw [segments_true_of_ne hfront, map_words_segments_append hw ht (map_words_segments t), hkept,
      dropColon_of_ne hcolon]

/-- A text whose first token opens a segment holds what its tokens mention. -/
theorem ofText?_of_opens (h : opens (words t) = true) :
    ofText? t = .ok (mentions (words t)).collect := by
  have hne : strip t ≠ [] := by
    intro hnil
    rw [← words_strip, hnil] at h
    cases h
  obtain ⟨c, s, hs⟩ := List.exists_cons_of_ne_nil hne
  obtain ⟨w, r, hw, hr, rfl, hwords⟩ := exists_words_of_strip hs
  obtain ⟨first, rest, htokens⟩ := opens_iff.1 h
  obtain rfl : c = ':' := by
    rw [hwords] at htokens
    cases htokens
    rfl
  rw [ofText?, hs, hwords, ← filterMap_mention?_segments hw hr, ← ofSegments_eq]
  rfl

theorem ofText?_of_not_opens (h : ¬opens (words t) = true) :
    ofText? t = .error (.malformedParameters t) := by
  unfold ofText?
  split
  next body hbody =>
    obtain ⟨w, r, -, -, -, hwords⟩ := exists_words_of_strip hbody
    rw [hwords] at h
    exact absurd rfl h
  next => rfl

/-- A parameter string is refused exactly if it has no token or a first one without a colon in
front, and else it holds what its tokens mention. -/
theorem reads_tokens (t : Text) : ofText? t =
    if opens (words t) then .ok (mentions (words t)).collect
    else .error (.malformedParameters t) := by
  split
  next h => exact ofText?_of_opens h
  next h => exact ofText?_of_not_opens h

example : ofText? ":: oat : rye ::bran x:y :oat z".toList = .ok [("oat".toList, ["z".toList]),
    ("rye".toList, []), (":bran".toList, ["x:y".toList])] := by decide +kernel

end OrgWeave.Params
