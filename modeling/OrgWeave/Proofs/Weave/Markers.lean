import OrgWeave.Proofs.Graph.Names

/-!
# Where markers stand

A marker can be found in three ways. `Marker.ofLine?` cuts the line at the first `<<` and what
is behind it at the last `>>`. By places, the first `<<` of the line stands at `i` and the last
`>>` at `k`, the target is between them (`Marker.Encloses`), and the indentation is the longest run
of white space that ends at `i` (`Text.EndsInSpaces`). By a search for white space, `<<`, the target
and `>>` (`Marker.Fits`), the match that begins first is taken, of these the one with the most white
space, and of these the one with the longest target (`Marker.Found`).

All three find the same (`Marker.found_by_places`), for a match can be moved to any other pair
of places with room between them (`Marker.Fits.of_standsAt`). This is why a search that finds
nothing behind the first `<<` finds nothing behind a later one either.
-/

namespace OrgWeave

open Text

/-! ## Places of a mark -/

namespace Text

variable {mark t before rest : Text} {i : Nat}

/-- The mark stands at the place. -/
def StandsAt (mark t : Text) (i : Nat) : Prop := mark <+: t.drop i

theorem standsAt_append (before mark rest : Text) :
    StandsAt mark (before ++ mark ++ rest) before.length := by
  simp [StandsAt]

theorem standsAt_append_left (before : Text) (h : before.length ≤ i) :
    StandsAt mark (before ++ t) i ↔ StandsAt mark t (i - before.length) := by
  rw [StandsAt, StandsAt, List.drop_append, List.drop_eq_nil_of_le h, List.nil_append]

/-- What stands between two places. -/
theorem drop_take_append {front middle : Text} {j : Nat} (hi : front.length = i)
    (hj : i + middle.length = j) (rest : Text) :
    ((front ++ middle ++ rest).take j).drop i = middle := by
  rw [List.take_left' (by rw [List.length_append]; omega), List.drop_left' hi]

/-- A text is what stands before a mark, the mark and what stands behind it. -/
theorem StandsAt.eq_append (h : StandsAt mark t i) :
    t = t.take i ++ mark ++ t.drop (i + mark.length) := by
  obtain ⟨rest, hrest⟩ := h
  have hdrop : t.drop (i + mark.length) = rest := by
    rw [← List.drop_drop, ← hrest, List.drop_left]
  rw [hdrop, List.append_assoc, hrest, List.take_append_drop]

theorem StandsAt.take {k : Nat} (h : StandsAt mark t i) (hk : i + mark.length ≤ k) :
    StandsAt mark (t.take k) i := by
  rw [StandsAt, List.drop_take]
  exact List.prefix_take_iff.2 ⟨h, by omega⟩

theorem StandsAt.lt_length (h : StandsAt mark t i) (hmark : mark ≠ []) : i < t.length := by
  have hle := h.length_le
  have hpos := List.length_pos_iff.2 hmark
  rw [List.length_drop] at hle
  omega

theorem StandsAt.getElem? {c : Char} (h : StandsAt (c :: mark) t i) : t[i]? = some c := by
  obtain ⟨rest, hrest⟩ := h
  rw [← List.head?_drop, ← hrest]
  rfl

theorem splitFirst?_ne_none (hmark : mark ≠ []) : ∀ {t : Text} {i : Nat}, StandsAt mark t i →
    splitFirst? mark t ≠ none
  | [], i, h => absurd (h.lt_length hmark) (Nat.not_lt_zero i)
  | c :: t, 0, h => by
    have hstands : mark.isPrefixOf (c :: t) = true := List.isPrefixOf_iff_prefix.2 h
    simp [splitFirst?, hstands]
  | c :: t, i + 1, h => by
    have ih : splitFirst? mark t ≠ none := splitFirst?_ne_none hmark (i := i) h
    rw [splitFirst?]
    split
    · exact Option.some_ne_none _
    · simpa using ih

/-- The place where a text is cut first is the first place of the mark. -/
theorem length_le_of_splitFirst? : ∀ {t before rest : Text} {i : Nat},
    splitFirst? mark t = some (before, rest) → StandsAt mark t i → before.length ≤ i
  | [], _, _, i, h, _ => by
    rw [splitFirst?] at h
    split at h
    · cases h
      exact Nat.zero_le i
    · cases h
  | c :: t, before, rest, i, h, hi => by
    rw [splitFirst?] at h
    split at h
    next =>
      cases h
      exact Nat.zero_le i
    next hstands =>
      obtain ⟨⟨b, r⟩, hsplit, heq⟩ := Option.map_eq_some_iff.1 h
      cases heq
      cases i with
      | zero => exact absurd (List.isPrefixOf_iff_prefix.2 hi) hstands
      | succ i => exact Nat.succ_le_succ (length_le_of_splitFirst? hsplit hi)

theorem splitLast?_ne_none (hmark : mark ≠ []) : ∀ {t : Text} {i : Nat}, StandsAt mark t i →
    splitLast? mark t ≠ none
  | [], i, h => absurd (h.lt_length hmark) (Nat.not_lt_zero i)
  | c :: t, i, h => by
    rw [splitLast?]
    split
    next => exact Option.some_ne_none _
    next hnone =>
      cases i with
      | zero =>
        have hstands : mark.isPrefixOf (c :: t) = true := List.isPrefixOf_iff_prefix.2 h
        simp [hstands]
      | succ i => exact absurd hnone (splitLast?_ne_none hmark (i := i) h)

/-- The place where a text is cut last is the last place of the mark. -/
theorem le_length_of_splitLast? (hmark : mark ≠ []) : ∀ {t before rest : Text} {i : Nat},
    splitLast? mark t = some (before, rest) → StandsAt mark t i → i ≤ before.length
  | [], _, _, i, _, hi => absurd (hi.lt_length hmark) (Nat.not_lt_zero i)
  | c :: t, before, rest, i, h, hi => by
    rw [splitLast?] at h
    split at h
    next s hs =>
      cases h
      cases i with
      | zero => exact Nat.zero_le _
      | succ i => exact Nat.succ_le_succ (le_length_of_splitLast? hmark hs hi)
    next hnone =>
      cases i with
      | zero => exact Nat.zero_le _
      | succ i => exact absurd hnone (splitLast?_ne_none hmark (i := i) hi)

/-! ## White space at the end -/

/-- `spaces` is the longest run of white space that ends with the text. -/
structure EndsInSpaces (t spaces : Text) : Prop where
  isSuffix : spaces <:+ t
  all : ∀ c ∈ spaces, isSpace c = true
  longest : ∀ s, s <:+ t → (∀ c ∈ s, isSpace c = true) → s.length ≤ spaces.length

theorem endsInSpaces_takeRightWhile (t : Text) : EndsInSpaces t (takeRightWhile isSpace t) where
  isSuffix := by
    rw [takeRightWhile, ← List.reverse_prefix, List.reverse_reverse]
    exact List.takeWhile_prefix _
  all := fun c hc => List.mem_takeWhile_imp (List.mem_reverse.1 hc)
  longest := by
    rintro s ⟨r, rfl⟩ hs
    have hrun : ∀ c ∈ s.reverse, isSpace c = true := fun c hc => hs c (List.mem_reverse.1 hc)
    rw [takeRightWhile, List.reverse_append, List.takeWhile_append_of_pos hrun]
    simp

/-- There is one longest run. -/
theorem EndsInSpaces.unique {spaces spaces' : Text} (h : EndsInSpaces t spaces)
    (h' : EndsInSpaces t spaces') : spaces = spaces' := by
  have hle := h'.longest spaces h.isSuffix h.all
  exact (List.suffix_of_suffix_length_le h.isSuffix h'.isSuffix hle).eq_of_length_le
    (h.longest spaces' h'.isSuffix h'.all)

end Text

/-! ## Markers by their places -/

namespace Marker

variable {l : Line} {m : Marker} {before after spaces : Text} {i k : Nat}

/-- The first `<<` of the line stands at `i` and the last `>>` at `k`, with something in between. -/
structure Encloses (l : Line) (i k : Nat) : Prop where
  opens : StandsAt "<<".toList l i
  first : ∀ j, StandsAt "<<".toList l j → i ≤ j
  closes : StandsAt ">>".toList l k
  last : ∀ j, StandsAt ">>".toList l j → j ≤ k
  room : i + 3 ≤ k

theorem encloses_of_ofLine? (h : ofLine? l = some m) : ∃ i k, Encloses l i k ∧
    m.target = (l.take k).drop (i + 2) ∧ EndsInSpaces (l.take i) m.indent := by
  unfold ofLine? at h
  split at h
  next => cases h
  next before rest hfirst =>
    split at h
    next c cs after hlast =>
      cases h
      have hline : l = before ++ "<<".toList ++ rest := eq_of_splitFirst? hfirst
      have hrest : rest = c :: cs ++ ">>".toList ++ after := eq_of_splitLast? hlast
      have hopening : (before ++ "<<".toList).length = before.length + 2 := List.length_append
      refine ⟨before.length, before.length + 2 + (c :: cs).length,
        ⟨?_, fun j => length_le_of_splitFirst? hfirst, ?_, fun j hj => ?_, ?_⟩, ?_, ?_⟩
      · rw [hline]
        exact standsAt_append before _ rest
      · have hcloses := standsAt_append (before ++ "<<".toList ++ c :: cs) ">>".toList after
        rw [List.length_append, hopening] at hcloses
        rwa [hline, hrest, ← List.append_assoc, ← List.append_assoc]
      · rcases Nat.lt_or_ge j (before.length + 2) with hlt | hge
        · omega
        · rw [hline, standsAt_append_left _ (hopening ▸ hge), hopening] at hj
          have hle := le_length_of_splitLast? (by decide) hlast hj
          omega
      · simp only [List.length_cons]
        omega
      · rw [hline, hrest, List.append_assoc (c :: cs), ← List.append_assoc _ (c :: cs)]
        exact (drop_take_append hopening rfl _).symm
      · rw [hline, List.append_assoc, List.take_left]
        exact endsInSpaces_takeRightWhile before
    next => cases h

theorem Encloses.ofLine? (h : Encloses l i k) (htarget : m.target = (l.take k).drop (i + 2))
    (hindent : EndsInSpaces (l.take i) m.indent) : Marker.ofLine? l = some m := by
  obtain ⟨⟨before, rest⟩, hfirst⟩ :=
    Option.ne_none_iff_exists'.1 (splitFirst?_ne_none (by decide) h.opens)
  have hline : l = before ++ "<<".toList ++ rest := eq_of_splitFirst? hfirst
  have hi : before.length = i := by
    refine Nat.le_antisymm (length_le_of_splitFirst? hfirst h.opens) (h.first _ ?_)
    rw [hline]
    exact standsAt_append before _ rest
  have hroom := h.room
  have hopening : (before ++ "<<".toList).length = i + 2 := by
    rw [← hi]
    exact List.length_append
  have hcloses : StandsAt ">>".toList rest (k - (i + 2)) := by
    have hk := h.closes
    rwa [hline, standsAt_append_left _ (by omega), hopening] at hk
  obtain ⟨⟨target, after⟩, hlast⟩ :=
    Option.ne_none_iff_exists'.1 (splitLast?_ne_none (by decide) hcloses)
  have hrest : rest = target ++ ">>".toList ++ after := eq_of_splitLast? hlast
  have hk : target.length = k - (i + 2) := by
    refine Nat.le_antisymm ?_ (le_length_of_splitLast? (by decide) hlast hcloses)
    have hle := h.last (i + 2 + target.length) ?_
    · omega
    · rw [hline, standsAt_append_left _ (by omega), hopening, Nat.add_sub_cancel_left, hrest]
      exact standsAt_append target _ after
  have hbetween : (l.take k).drop (i + 2) = target := by
    rw [List.drop_take, hline, List.drop_left' hopening, hrest, List.append_assoc, ← hk,
      List.take_left]
  have hbefore : l.take i = before := by
    rw [hline, List.append_assoc, List.take_left' hi]
  obtain ⟨c, cs, rfl⟩ : ∃ c cs, target = c :: cs :=
    List.exists_cons_of_ne_nil (List.ne_nil_of_length_pos (by omega))
  have hspaces : takeRightWhile isSpace before = m.indent :=
    (endsInSpaces_takeRightWhile before).unique (hbefore ▸ hindent)
  unfold Marker.ofLine?
  rw [hfirst]
  dsimp only
  rw [hlast]
  dsimp only
  rw [hspaces, ← hbetween, ← htarget]

/-- A marker is found between the first `<<` and the last `>>`, behind all the white space that
stands before it. -/
theorem ofLine?_eq_some_iff : ofLine? l = some m ↔ ∃ i k, Encloses l i k ∧
    m.target = (l.take k).drop (i + 2) ∧ EndsInSpaces (l.take i) m.indent :=
  ⟨encloses_of_ofLine?, fun ⟨_, _, h, htarget, hindent⟩ => h.ofLine? htarget hindent⟩

/-! ## Markers by a search -/

/-- The line is some text, white space, `<<`, a target without a newline, `>>` and some more
text. -/
structure Fits (l : Line) (before : Text) (m : Marker) (after : Text) : Prop where
  eq : l = before ++ m.indent ++ "<<".toList ++ m.target ++ ">>".toList ++ after
  spaces : ∀ c ∈ m.indent, isSpace c = true
  target_ne_nil : m.target ≠ []
  oneLine : OneLine m.target

/-- Whether a search comes to the first one of two matches first : it begins first, or has more
white space, or else no shorter target. -/
def Prefers (before : Text) (m : Marker) (before' : Text) (m' : Marker) : Prop :=
  before.length < before'.length ∨ before.length = before'.length ∧
    (m'.indent.length < m.indent.length ∨
      m'.indent.length = m.indent.length ∧ m'.target.length ≤ m.target.length)

/-- The match that a search finds. -/
structure Found (l : Line) (before : Text) (m : Marker) (after : Text) : Prop where
  fits : Fits l before m after
  best : ∀ before' m' after', Fits l before' m' after' → Prefers before m before' m'

theorem Prefers.length_le {before' : Text} {m' : Marker} (h : Prefers before m before' m') :
    before.length ≤ before'.length := by
  rcases h with hlt | ⟨heq, -⟩
  · exact hlt.le
  · exact heq.le

namespace Fits

/-- Where the signs of a match stand, and what they have in front and between them. -/
theorem places (h : Fits l before m after) : ∃ i k, i = before.length + m.indent.length ∧
    k = i + 2 + m.target.length ∧ StandsAt "<<".toList l i ∧ StandsAt ">>".toList l k ∧
    l.take i = before ++ m.indent ∧ m.target = (l.take k).drop (i + 2) := by
  have hfront : (before ++ m.indent).length = before.length + m.indent.length :=
    List.length_append
  have hopening : (before ++ m.indent ++ "<<".toList).length =
      before.length + m.indent.length + 2 := by
    rw [List.length_append, hfront]
    rfl
  refine ⟨_, _, rfl, rfl, ?_, ?_, ?_, ?_⟩
  · have hopens := standsAt_append (before ++ m.indent) "<<".toList
      (m.target ++ ">>".toList ++ after)
    rw [hfront] at hopens
    rw [h.eq]
    simpa using hopens
  · have hcloses := standsAt_append (before ++ m.indent ++ "<<".toList ++ m.target) ">>".toList
      after
    rw [List.length_append, hopening] at hcloses
    rwa [h.eq]
  · have hline : l = before ++ m.indent ++ ("<<".toList ++ m.target ++ ">>".toList ++ after) := by
      rw [h.eq]
      simp only [List.append_assoc]
    rw [hline, List.take_left' hfront]
  · rw [h.eq, List.append_assoc (_ ++ m.target)]
    exact (drop_take_append hopening rfl _).symm

/-- A match can be moved to any two places of the signs with room between them. -/
theorem of_standsAt (hl : IsLine l) (hi : StandsAt "<<".toList l i) (hk : StandsAt ">>".toList l k)
    (hroom : i + 3 ≤ k) (hfront : l.take i = before ++ spaces)
    (hspaces : ∀ c ∈ spaces, isSpace c = true) :
    Fits l before ⟨spaces, (l.take k).drop (i + 2)⟩ (l.drop (k + 2)) := by
  have hlt := hk.lt_length (by decide)
  have htake : l.take k = l.take i ++ "<<".toList ++ (l.take k).drop (i + 2) := by
    have hsplit := (hi.take (k := k) (show i + 2 ≤ k by omega)).eq_append
    rwa [List.take_take, Nat.min_eq_left (by omega)] at hsplit
  have hline : l = l.take k ++ '>' :: '>' :: l.drop (k + 2) := by
    simpa using hk.eq_append
  refine ⟨?_, hspaces, ?_, ?_⟩
  · calc l = l.take k ++ ">>".toList ++ l.drop (k + 2) := hk.eq_append
      _ = before ++ spaces ++ "<<".toList ++ (l.take k).drop (i + 2) ++ ">>".toList ++
          l.drop (k + 2) := by rw [← hfront, ← htake]
  · refine List.ne_nil_of_length_pos ?_
    rw [List.length_drop, List.length_take_of_le hlt.le]
    omega
  · rw [hline] at hl
    exact hl.of_append_cons.subset (List.drop_subset _ _)

/-- The white space of a match holds no sign. -/
theorem length_le_of_standsAt {j : Nat} (h : Fits l before m after)
    (hj : StandsAt "<<".toList l j) (hle : before.length ≤ j) :
    before.length + m.indent.length ≤ j := by
  obtain ⟨i, k, rfl, -, -, -, hfront, -⟩ := h.places
  by_contra hlt
  have hsign : l[j]? = some '<' := hj.getElem?
  rw [← List.getElem?_take_of_lt (Nat.lt_of_not_le hlt), hfront,
    List.getElem?_append_right hle] at hsign
  have hspace := h.spaces _ (List.mem_of_getElem? hsign)
  cases hspace

end Fits

/-- The first `<<` with the last `>>` is the match that a search finds. -/
theorem Encloses.found (hl : IsLine l) (h : Encloses l i k)
    (htarget : m.target = (l.take k).drop (i + 2)) (hindent : EndsInSpaces (l.take i) m.indent) :
    ∃ before after, Found l before m after := by
  obtain ⟨before, hbefore⟩ := hindent.isSuffix
  have hroom := h.room
  have hlt := h.closes.lt_length (by decide)
  have hlength : m.target.length = k - (i + 2) := by
    rw [htarget, List.length_drop, List.length_take_of_le hlt.le]
  have hi : before.length + m.indent.length = i := by
    rw [← List.length_append, hbefore, List.length_take_of_le (by omega)]
  refine ⟨before, l.drop (k + 2), ?_, fun before' m' after' h' => ?_⟩
  · have hfits := Fits.of_standsAt hl h.opens h.closes hroom hbefore.symm hindent.all
    rwa [← htarget] at hfits
  · obtain ⟨i', k', hi', hk', hopens', hcloses', hfront', -⟩ := h'.places
    have hfirst := h.first i' hopens'
    have hlast := h.last k' hcloses'
    rcases Nat.lt_or_ge before.length before'.length with hbehind | hbegins
    · exact Or.inl hbehind
    · -- a match that begins no later has its `<<` at the same place
      have hsame : i' = i := by
        have := h'.length_le_of_standsAt h.opens (by omega)
        omega
      rw [hsame] at hfront'
      have hrun := hindent.longest m'.indent ⟨before', hfront'.symm⟩ h'.spaces
      exact Or.inr ⟨by omega, Or.inr ⟨by omega, by omega⟩⟩

/-- A search finds the first `<<` with the last `>>`. -/
theorem Found.encloses (hl : IsLine l) (h : Found l before m after) : ∃ i k, Encloses l i k ∧
    m.target = (l.take k).drop (i + 2) ∧ EndsInSpaces (l.take i) m.indent := by
  obtain ⟨i, k, hi, hk, hopens, hcloses, hfront, htarget⟩ := h.fits.places
  have hpos := List.length_pos_iff.2 h.fits.target_ne_nil
  have hroom : i + 3 ≤ k := by omega
  refine ⟨i, k, ⟨hopens, fun j hj => ?_, hcloses, fun j hj => ?_, hroom⟩, htarget,
    ⟨⟨before, hfront.symm⟩, h.fits.spaces, ?_⟩⟩
  · -- a match with an earlier `<<` would begin earlier, too
    by_contra hearlier
    have hmoved : Fits l (l.take j) ⟨[], (l.take k).drop (j + 2)⟩ (l.drop (k + 2)) :=
      .of_standsAt hl hj hcloses (by omega) (List.append_nil _).symm (by simp)
    have hbegins := (h.best _ _ _ hmoved).length_le
    rw [List.length_take] at hbegins
    have := h.fits.length_le_of_standsAt hj (by omega)
    omega
  · -- a match with a later `>>` would have a longer target
    by_contra hlater
    have hmoved : Fits l before ⟨m.indent, (l.take j).drop (i + 2)⟩ (l.drop (j + 2)) :=
      .of_standsAt hl hopens hj (by omega) hfront h.fits.spaces
    have hlt := hj.lt_length (by decide)
    have hbest := h.best _ _ _ hmoved
    simp only [Prefers, Nat.lt_irrefl, true_and, false_or, List.length_drop,
      List.length_take_of_le hlt.le] at hbest
    omega
  · -- a match with more white space would begin earlier
    rintro s ⟨r, hr⟩ hs
    have hbegins := (h.best _ _ _ (.of_standsAt hl hopens hcloses hroom hr.symm hs)).length_le
    have hlength := congrArg List.length (hr.trans hfront)
    rw [List.length_append, List.length_append] at hlength
    omega

/-! ## Calls -/

theorem beforeEnd?_eq_some_iff {mark s t : Text} : beforeEnd? mark t = some s ↔ t = s ++ mark := by
  unfold beforeEnd?
  constructor
  · intro h
    split at h
    next hsuffix =>
      obtain ⟨r, rfl⟩ := List.isSuffixOf_iff_suffix.1 hsuffix
      simpa using h
    next => cases h
  · rintro rfl
    simp

/-- A call is the self name with flags behind it, in quotes and parentheses. -/
theorem flags?_eq_some_iff {selfName target flags : Text} (hne : selfName ≠ [])
    (hname : ∀ c ∈ selfName, isCallable c = true) : flags? selfName target = some flags ↔
      target = selfName ++ ['(', '\x22'] ++ flags ++ ['\x22', ')'] := by
  unfold flags?
  constructor
  · intro h
    split at h
    next hself =>
      obtain ⟨rest, hrest, hflags⟩ := Option.bind_eq_some_iff.1 h
      have hcall := after?_eq_some_iff.1 hrest
      rw [beforeEnd?_eq_some_iff.1 hflags] at hcall
      calc target = target.takeWhile isCallable ++ target.dropWhile isCallable :=
            List.takeWhile_append_dropWhile.symm
        _ = selfName ++ ['(', '\x22'] ++ flags ++ ['\x22', ')'] := by
          rw [hself.2, hcall]
          simp only [List.append_assoc]
    next => cases h
  · rintro rfl
    have hparenthesis : isCallable '(' = false := by decide
    have htake : (selfName ++ ['(', '\x22'] ++ flags ++ ['\x22', ')']).takeWhile isCallable =
        selfName := by
      simp [List.takeWhile_append_of_pos hname, hparenthesis]
    have hdrop : (selfName ++ ['(', '\x22'] ++ flags ++ ['\x22', ')']).dropWhile isCallable =
        ['(', '\x22'] ++ (flags ++ ['\x22', ')']) := by
      simp [List.dropWhile_append_of_pos hname, hparenthesis]
    rw [htake, hdrop, if_pos ⟨hne, rfl⟩, after?_eq_some_iff.2 rfl]
    exact beforeEnd?_eq_some_iff.2 rfl

theorem role_eq_request_iff {selfName indent flags : Text} :
    role selfName true l = .request indent flags ↔
      ∃ m, ofLine? l = some m ∧ m.indent = indent ∧ flags? selfName m.target = some flags := by
  unfold role
  rw [if_pos rfl]
  cases ofLine? l with
  | none => simp
  | some m => cases hflags : flags? selfName m.target <;> simp [hflags]

/-! ## Lines of a text -/

/-- A line holds a marker exactly if there is room between its first `<<` and its last `>>`. The
target is what is between them and the indentation all the white space in front of them, which is
the match that a search for the longest white space and the longest target finds. The line is a call
of a name of word characters, dots and hyphens exactly if the target is the name with a text
behind it that is in quotes and parentheses, and this text is the flags. -/
theorem found_by_places {t : Text} {l : Line} (hl : l ∈ splitLines t) :
    ((∃ m, ofLine? l = some m) ↔ ∃ i k, Encloses l i k) ∧
    (∀ m, ofLine? l = some m ↔ ∃ i k, Encloses l i k ∧ m.target = (l.take k).drop (i + 2) ∧
      EndsInSpaces (l.take i) m.indent) ∧
    (∀ m, ofLine? l = some m ↔ ∃ before after, Found l before m after) ∧
    ∀ selfName, selfName ≠ [] → (∀ c ∈ selfName, isCallable c = true) → ∀ indent flags,
      role selfName true l = .request indent flags ↔ ∃ m, ofLine? l = some m ∧
        m.indent = indent ∧ m.target = selfName ++ ['(', '\x22'] ++ flags ++ ['\x22', ')'] := by
  have hline : IsLine l := isLine_of_mem_splitLines l hl
  refine ⟨⟨?_, ?_⟩, fun m => ofLine?_eq_some_iff, fun m => ⟨fun h => ?_, ?_⟩,
    fun selfName hne hname indent flags => ?_⟩
  · rintro ⟨m, hm⟩
    obtain ⟨i, k, h, -⟩ := encloses_of_ofLine? hm
    exact ⟨i, k, h⟩
  · rintro ⟨i, k, h⟩
    exact ⟨⟨_, _⟩, h.ofLine? rfl (endsInSpaces_takeRightWhile _)⟩
  · obtain ⟨i, k, h, htarget, hindent⟩ := encloses_of_ofLine? h
    exact h.found hline htarget hindent
  · rintro ⟨before, after, h⟩
    exact ofLine?_eq_some_iff.2 (h.encloses hline)
  · rw [role_eq_request_iff]
    simp only [flags?_eq_some_iff hne hname]

/-- A call with a `>>` in its flags and a second `<<` behind it. -/
def crowded : Line := " <<include(\x22:tag a>> <<b\x22)>>\n".toList

/-- The target goes up to the last `>>`, so that the flags have the other marks in them. -/
theorem crowded_found :
    crowded ∈ splitLines crowded ∧ Vocabulary.selfName ≠ [] ∧
      (∀ c ∈ Vocabulary.selfName, isCallable c = true) ∧
      (∃ i k, Encloses crowded i k) ∧
      role Vocabulary.selfName true crowded = .request [' '] ":tag a>> <<b".toList := by
  have hl : crowded ∈ splitLines crowded := by decide +kernel
  have hne : Vocabulary.selfName ≠ [] := by decide
  have hname : ∀ c ∈ Vocabulary.selfName, isCallable c = true :=
    List.all_eq_true.1 (by decide +kernel)
  have hm : ofLine? crowded = some ⟨[' '], "include(\x22:tag a>> <<b\x22)".toList⟩ := by
    decide +kernel
  obtain ⟨hplaces, -, -, hcalls⟩ := found_by_places hl
  exact ⟨hl, hne, hname, hplaces.1 ⟨_, hm⟩,
    (hcalls _ hne hname _ _).2 ⟨_, hm, rfl, by decide +kernel⟩⟩

end Marker

end OrgWeave
