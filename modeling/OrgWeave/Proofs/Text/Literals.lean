import OrgWeave.Proofs.Text.Endings
import OrgWeave.Text.Literal

/-!
# Reading literals

A line is ended if a newline ends it and nothing else in it ends a line (`Ended`). The lines of a
text are, if it has no carriage return and no last line without a newline
(`ended_of_mem_splitLines`).

`unquote?` reads what stands between the quotes of a literal : an escape is the character that it
stands for, and quotes and newlines stand for nothing themselves. It reads the literal of ended
lines as these lines (`unquote?_flatMap_quotedLine`). Literals one behind the other can be told
apart, as each takes one line (`spells_flatMap`).
-/

namespace OrgWeave.Text

/-! ## Ended lines -/

/-- A newline ends the line, and nothing else in the line does. -/
def Ended (l : Line) : Prop := ∃ t, EndFree t ∧ l = t ++ ['\n']

variable {l : Line} {t : Text}

theorem EndFree.append {s : Text} (hs : EndFree s) (ht : EndFree t) : EndFree (s ++ t) :=
  fun c hc => (List.mem_append.1 hc).elim (hs c) (ht c)

theorem EndFree.newline_not_mem (h : EndFree t) : '\n' ∉ t := fun hmem => nomatch h '\n' hmem

/-- What is put in front of an ended line leaves it ended. -/
theorem Ended.append {s : Text} (hs : EndFree s) (h : Ended l) : Ended (s ++ l) := by
  obtain ⟨t, ht, rfl⟩ := h
  exact ⟨s ++ t, hs.append ht, (List.append_assoc ..).symm⟩

theorem Ended.indent {lead : Text} (hlead : EndFree lead) (h : Ended l) :
    Ended (indent lead l) := by
  unfold Text.indent
  split
  · exact h
  · exact h.append hlead

theorem dropRightWhile_eq_self {p : Char → Bool} :
    ∀ {t : Text}, (∀ c ∈ t, p c = false) → dropRightWhile p t = t
  | [], _ => rfl
  | c :: t, h => by
    obtain ⟨hc, ht⟩ := List.forall_mem_cons.1 h
    rw [dropRightWhile, dropRightWhile_eq_self ht]
    cases t <;> simp [hc]

theorem chomp_append_newline (h : EndFree t) : chomp (t ++ ['\n']) = t := by
  rw [ignoresEnds_chomp t _ isEnding_newline]
  exact dropRightWhile_eq_self h

/-- Lines end with the newlines of the text. -/
theorem ended_of_mem_splitLines : ∀ {t : Text}, '\r' ∉ t → (t = [] ∨ t.getLast? = some '\n') →
    ∀ l ∈ splitLines t, Ended l
  | [], _, _, _, hl => nomatch hl
  | c :: t, hreturn, hlast, l, hl => by
    obtain ⟨hc, ht⟩ := not_or.1 (mt List.mem_cons.2 hreturn)
    have hrest : t = [] ∨ t.getLast? = some '\n' := by
      cases t with
      | nil => exact Or.inl rfl
      | cons d t => simpa using hlast
    have ih := ended_of_mem_splitLines ht hrest
    rw [splitLines] at hl
    split at hl
    next hn =>
      rcases List.mem_cons.1 hl with rfl | hl
      · exact ⟨[], by decide, by rw [hn, List.nil_append]⟩
      · exact ih l hl
    next hn =>
      have hfree : EndFree [c] := fun d hd => by
        rw [List.mem_singleton.1 hd, ← Bool.not_eq_true, isEnd_iff]
        exact not_or.2 ⟨Ne.symm hc, hn⟩
      split at hl
      next hnil =>
        -- nothing is behind `c`, so that it is the last character
        have hempty : t = [] := by rw [← flatten_splitLines t, hnil, List.flatten_nil]
        rw [hempty] at hlast
        simp [hn] at hlast
      next m ls hcons =>
        rw [hcons] at ih
        obtain ⟨hm, hls⟩ := List.forall_mem_cons.1 ih
        rcases List.mem_cons.1 hl with rfl | hl
        · exact hm.append hfree
        · exact hls l hl

/-- A text up to its first newline is a line. -/
theorem splitLines_append (rest : Text) : ∀ {t : Text}, '\n' ∉ t →
    splitLines (t ++ '\n' :: rest) = (t ++ ['\n']) :: splitLines rest
  | [], _ => by rw [List.nil_append, splitLines, if_pos rfl, List.nil_append]
  | c :: t, h => by
    obtain ⟨hc, ht⟩ := not_or.1 (mt List.mem_cons.2 h)
    rw [List.cons_append, splitLines, if_neg (Ne.symm hc), splitLines_append rest ht]
    rfl

/-! ## Escapes -/

/-- The character that an escape stands for, `c` being what follows the backslash. -/
def escaped? (c : Char) : Option Char :=
  if c = '\\' ∨ c = quote then some c else if c = 'n' then some '\n' else none

/-- What a text between the quotes of a literal stands for. There is no literal with quotes and
newlines that are not escaped, or with other escapes than those of `escaped?`. -/
def unquote? : Text → Option Text
  | [] => some []
  | c :: cs =>
    if c = '\\' then
      match cs with
      | [] => none
      | d :: ds => (escaped? d).bind fun e => (unquote? ds).map (e :: ·)
    else if c = quote ∨ c = '\n' then none
    else (unquote? cs).map (c :: ·)

/-- Whether a double quote stands in the text that no backslash escapes. -/
def bareQuote : Text → Bool
  | [] => false
  | c :: cs =>
    if c = '\\' then
      match cs with
      | [] => false
      | _ :: ds => bareQuote ds
    else c == quote || bareQuote cs

theorem unquote?_cons {c : Char} (hc : c ≠ '\\') (cs : Text) : unquote? (c :: cs) =
    if c = quote ∨ c = '\n' then none else (unquote? cs).map (c :: ·) := by
  cases cs <;> exact if_neg hc

theorem bareQuote_cons {c : Char} (hc : c ≠ '\\') (cs : Text) :
    bareQuote (c :: cs) = (c == quote || bareQuote cs) := by
  cases cs <;> exact if_neg hc

/-- What can be read stands on one line between its quotes. -/
theorem of_unquote?_eq_some {body : Text} (h : unquote? body = some t) :
    '\n' ∉ body ∧ bareQuote body = false := by
  induction body using unquote?.induct generalizing t with
  | case1 => exact ⟨List.not_mem_nil, rfl⟩
  | case2 => cases h
  | case3 d ds ih =>
    rw [unquote?, if_pos rfl, Option.bind_eq_some_iff] at h
    obtain ⟨e, he, h⟩ := h
    obtain ⟨u, hu, -⟩ := Option.map_eq_some_iff.1 h
    obtain ⟨hnewline, hbare⟩ := ih hu
    have hd : '\n' ≠ d := by
      rintro rfl
      cases he
    refine ⟨?_, by rw [bareQuote, if_pos rfl, hbare]⟩
    simpa [hd] using hnewline
  | case4 c cs hc hstop =>
    rw [unquote?_cons hc, if_pos hstop] at h
    cases h
  | case5 c cs hc hgo ih =>
    rw [unquote?_cons hc, if_neg hgo] at h
    obtain ⟨u, hu, -⟩ := Option.map_eq_some_iff.1 h
    obtain ⟨hnewline, hbare⟩ := ih hu
    obtain ⟨hquote, hn⟩ := not_or.1 hgo
    refine ⟨fun hmem => (List.mem_cons.1 hmem).elim (fun heq => hn heq.symm) hnewline, ?_⟩
    rw [bareQuote_cons hc, hbare, Bool.or_false, beq_eq_false_iff_ne]
    exact hquote

/-- An escaped text is read as the text. -/
theorem unquote?_escape_append (rest : Text) : ∀ {t : Text}, '\n' ∉ t →
    unquote? (escape t ++ rest) = (unquote? rest).map (t ++ ·)
  | [], _ => by simp [escape]
  | c :: t, h => by
    obtain ⟨hc, ht⟩ := not_or.1 (mt List.mem_cons.2 h)
    have ih := unquote?_escape_append rest ht
    rw [escape]
    split
    next hescape =>
      simp only [List.cons_append, unquote?, if_true, escaped?, hescape, Option.bind_some, ih,
        Option.map_map]
      rfl
    next hplain =>
      obtain ⟨hslash, hquote⟩ := not_or.1 hplain
      have hgo : ¬(c = quote ∨ c = '\n') := not_or.2 ⟨hquote, Ne.symm hc⟩
      rw [List.cons_append, unquote?_cons hslash, if_neg hgo, ih, Option.map_map]
      rfl

/-- A line inside a literal is read as the line. -/
theorem unquote?_quotedLine_append (hl : Ended l) (rest : Text) :
    unquote? (quotedLine l ++ rest) = (unquote? rest).map (l ++ ·) := by
  obtain ⟨t, ht, rfl⟩ := hl
  have hnewline : unquote? ("\\n".toList ++ rest) = (unquote? rest).map ('\n' :: ·) := rfl
  rw [quotedLine, chomp_append_newline ht, List.append_assoc,
    unquote?_escape_append _ ht.newline_not_mem, hnewline, Option.map_map]
  simp only [Function.comp_def, List.append_assoc, List.singleton_append]

/-- The literal of lines is read as the lines. -/
theorem unquote?_flatMap_quotedLine :
    ∀ {ls : List Line}, (∀ l ∈ ls, Ended l) → unquote? (ls.flatMap quotedLine) = some ls.flatten
  | [], _ => rfl
  | l :: ls, h => by
    obtain ⟨hl, hls⟩ := List.forall_mem_cons.1 h
    rw [List.flatMap_cons, unquote?_quotedLine_append hl, unquote?_flatMap_quotedLine hls]
    rfl

/-! ## Literals one behind the other -/

/-- The text is literals, one a line, with the given texts between their quotes, and these are read
as `plain`, one after another. -/
structure Spells (text : Text) (bodies : List Text) (plain : Text) : Prop where
  lines : splitLines text = bodies.map fun body => quote :: body ++ [quote, '\n']
  inside : ∀ body ∈ bodies, '\n' ∉ body ∧ bareQuote body = false
  reads : (bodies.mapM unquote?).map List.flatten = some plain

/-- Each literal is read as its lines. -/
theorem spells_flatMap {lss : List (List Line)} (h : ∀ ls ∈ lss, ∀ l ∈ ls, Ended l) :
    Spells (lss.flatMap quoteLines) (lss.map (·.flatMap quotedLine)) (lss.flatMap List.flatten) where
  lines := by
    induction lss with
    | nil => rfl
    | cons ls lss ih =>
      obtain ⟨hls, hlss⟩ := List.forall_mem_cons.1 h
      have hbody := (of_unquote?_eq_some (unquote?_flatMap_quotedLine hls)).1
      have hline : '\n' ∉ quote :: ls.flatMap quotedLine ++ [quote] := by
        simpa [show '\n' ≠ quote by decide] using hbody
      have hliteral : quoteLines ls = (quote :: ls.flatMap quotedLine ++ [quote]) ++ ['\n'] := by
        simp [quoteLines]
      rw [List.flatMap_cons, hliteral, List.append_assoc, List.singleton_append,
        splitLines_append _ hline, ih hlss]
      simp
  inside := by
    intro body hbody
    obtain ⟨ls, hls, rfl⟩ := List.mem_map.1 hbody
    exact of_unquote?_eq_some (unquote?_flatMap_quotedLine (h ls hls))
  reads := by
    have hmap : (lss.map (·.flatMap quotedLine)).mapM unquote? = some (lss.map List.flatten) := by
      induction lss with
      | nil => rfl
      | cons ls lss ih =>
        obtain ⟨hls, hlss⟩ := List.forall_mem_cons.1 h
        rw [List.map_cons, List.mapM_cons, unquote?_flatMap_quotedLine hls, ih hlss]
        rfl
    rw [hmap, Option.map_some, List.flatMap_def]

end OrgWeave.Text
