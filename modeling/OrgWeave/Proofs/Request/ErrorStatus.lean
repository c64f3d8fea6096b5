import OrgWeave.Gather
import OrgWeave.Proofs.Params.Keys
import OrgWeave.Proofs.Request.Checks

/-!
# Asking for an error status

Whether flags ask for an error status is looked up in their text, as they need not be readable : it
is whether `:exit-with-error` is one of their words (`holdsWord_iff_mem_words`). Reading finds the
flag there, too, but also where its colon is apart from it, or has another one behind it at the
beginning of the text (`Params.Detached`, `Params.has_mentions_iff`). So the look-up finds no more
than reading does, and for accepted flags both agree exactly unless the flag is mentioned in these
ways only (`asksForErrorStatus_eq_iff`).
-/

namespace OrgWeave.Request

open Text

/-! ## Words of a text -/

variable {mark t w : Text} {c : Char}

/-- No word begins with white space. -/
theorem holdsWord_cons_of_isSpace (hmark : Unbroken mark) (hc : isSpace c = true) (free : Bool)
    (t : Text) : holdsWord mark free (c :: t) = holdsWord mark true t := by
  have hnone : after? mark (c :: t) = none := by
    obtain ⟨d, s, rfl⟩ := List.exists_cons_of_ne_nil hmark.ne_nil
    rw [Option.eq_none_iff_forall_ne_some]
    intro rest hrest
    obtain ⟨rfl, -⟩ := List.cons_eq_cons.1 (after?_eq_some_iff.1 hrest)
    rw [hmark.solid c List.mem_cons_self] at hc
    cases hc
  rw [holdsWord, hnone, hc]
  simp

/-- The end of a word is no word. -/
theorem holdsWord_solid_append (hmark : Unbroken mark) (hw : ∀ c ∈ w, isSpace c = false)
    (ht : Apart t) : holdsWord mark false (w ++ t) = holdsWord mark true t := by
  induction w with
  | nil =>
    cases t with
    | nil => rfl
    | cons c t =>
      rw [List.nil_append, holdsWord_cons_of_isSpace hmark (ht c rfl),
        holdsWord_cons_of_isSpace hmark (ht c rfl)]
  | cons c w ih =>
    obtain ⟨hc, hw⟩ := List.forall_mem_cons.1 hw
    rw [List.cons_append, holdsWord, hc, ih hw]
    simp

/-- A word is looked up word by word. -/
theorem holdsWord_word_append (hmark : Unbroken mark) (hw : Unbroken w) (ht : Apart t) :
    holdsWord mark true (w ++ t) = true ↔ w = mark ∨ holdsWord mark true t = true := by
  have hfirst :
      ((after? mark (w ++ t)).any fun rest => rest.head?.all isSpace) = true ↔ w = mark := by
    rw [Option.any_eq_true]
    constructor
    · rintro ⟨rest, hrest, hapart⟩
      have hrest : w ++ t = mark ++ rest := after?_eq_some_iff.1 hrest
      exact solid_append_inj hw.solid ht hmark.solid (apart_iff.2 hapart) hrest
    · rintro rfl
      exact ⟨t, after?_eq_some_iff.2 rfl, apart_iff.1 ht⟩
  obtain ⟨c, v, rfl⟩ := List.exists_cons_of_ne_nil hw.ne_nil
  obtain ⟨hc, hv⟩ := List.forall_mem_cons.1 hw.solid
  rw [List.cons_append, holdsWord, hc, holdsWord_solid_append hmark hv ht, Bool.true_and,
    Bool.or_eq_true, ← List.cons_append, hfirst]

/-- What is looked up as a word of a text is one of its words. -/
theorem holdsWord_iff_mem_words (hmark : Unbroken mark) (t : Text) :
    holdsWord mark true t = true ↔ mark ∈ words t := by
  induction t using word_induction with
  | nil => simp [holdsWord, words_nil]
  | space c t hc ih => rw [holdsWord_cons_of_isSpace hmark hc, words_cons hc, ih]
  | word w t hw ht ih =>
    rw [holdsWord_word_append hmark hw ht, hw.words_append ht, List.mem_cons, ih, eq_comm]

/-! ## Flags -/

variable {flags : Text} {r : Request}

/-- Flags that ask for an error status do so once they are read, and both ways to find this out
agree exactly unless the flag is only mentioned apart from its colon. -/
theorem asksForErrorStatus_eq_iff (h : ofText? flags = .ok r) :
    (asksForErrorStatus flags = true → r.errorStatus = true) ∧
      (asksForErrorStatus flags = r.errorStatus ↔
        (Params.Detached Flag.errorStatus (words flags) →
          (':' :: Flag.errorStatus) ∈ words flags)) := by
  obtain ⟨hopens, hasks⟩ := asksFor_of_ofText? h
  have hkey : Params.IsValue Flag.errorStatus := ⟨by decide, by decide⟩
  have hfound : asksForErrorStatus flags = true ↔ (':' :: Flag.errorStatus) ∈ words flags :=
    holdsWord_iff_mem_words (by decide) flags
  have hread : r.errorStatus = true ↔ (':' :: Flag.errorStatus) ∈ words flags ∨
      Params.Detached Flag.errorStatus (words flags) := by
    rw [hasks.errorStatus]
    exact Params.has_mentions_iff hkey (fun w hw => unbroken_of_mem_words hw) hopens
  refine ⟨fun hasks => hread.2 (Or.inl (hfound.1 hasks)), ?_⟩
  rw [Bool.eq_iff_iff, hfound, hread]
  exact iff_comm.trans or_iff_left_iff_imp

/-- A request for an error status with white space behind the colon is read but not found. -/
theorem apart_not_found : ∃ r, ofText? ":noweb tea : exit-with-error".toList = .ok r ∧
    r.errorStatus = true ∧ asksForErrorStatus ":noweb tea : exit-with-error".toList = false ∧
    Params.Detached Flag.errorStatus (words ":noweb tea : exit-with-error".toList) ∧
    (':' :: Flag.errorStatus) ∉ words ":noweb tea : exit-with-error".toList := by
  have hread : (ofText? ":noweb tea : exit-with-error".toList).map (·.errorStatus) = .ok true := by
    decide +kernel
  have hfound : asksForErrorStatus ":noweb tea : exit-with-error".toList = false := by
    decide +kernel
  obtain ⟨r, hr, hstatus⟩ := map_eq_ok.1 hread
  have hdiffer : asksForErrorStatus ":noweb tea : exit-with-error".toList ≠ r.errorStatus := by
    rw [hfound, hstatus]
    decide
  obtain ⟨hdetached, habsent⟩ := Classical.not_imp.1 (mt (asksForErrorStatus_eq_iff hr).2.2 hdiffer)
  exact ⟨r, hr, hstatus, hfound, hdetached, habsent⟩

end OrgWeave.Request
