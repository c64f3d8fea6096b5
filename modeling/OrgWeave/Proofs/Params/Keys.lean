import OrgWeave.Proofs.Params.Writing

/-!
# Keys and their colons

A parameter string mentions a key by a colon with the key behind it, as one token. The colon may
also be apart, as the key of a segment is the first token that is kept of it, and at the beginning
of the text one more colon is lost (`Detached`). There is no other way (`has_mentions_iff`) : the
segments of `cut` are gone through one opening token after another (`exists_segment_iff`).
-/

namespace OrgWeave.Params

open Text

variable {key w : Text} {vs tokens : List Text}

/-- Tokens that mention the key without being it behind one colon : behind two at the beginning, or
behind a token of colons, of which there may be two at the beginning. -/
def Detached (key : Text) (tokens : List Text) : Prop :=
  [':' :: ':' :: key] <+: tokens ∨ [[':', ':'], key] <+: tokens ∨ [[':'], key] <:+: tokens

theorem singleton_isPrefix_iff {l : List Text} : [w] <+: l ↔ l.head? = some w := by
  cases l <;> simp [eq_comm]

/-- The key of a segment is its first token, or the next one if this one is empty. -/
theorem head?_kept_cons (hkey : key ≠ []) (h : ∀ v ∈ vs, IsValue v) :
    (kept (w :: vs)).head? = some key ↔ w = key ∨ (w = [] ∧ vs.head? = some key) := by
  by_cases hw : w = []
  · have hkept : kept (w :: vs) = vs := by
      rw [hw]
      exact kept_eq_self h
    rw [hkept]
    simp [hw, hkey.symm]
  · rw [kept_cons_of_ne_nil hw h]
    simp [hw]

/-- A token that opens no segment is the first of all tokens or of none. -/
theorem head?_cut (hkey : key.head? ≠ some ':') (tokens : List Text) :
    (cut tokens).1.head? = some key ↔ tokens.head? = some key := by
  cases tokens with
  | nil => rfl
  | cons w tokens =>
    by_cases hcolon : w.head? = some ':'
    · obtain ⟨rest, rfl⟩ := List.head?_eq_some_iff.1 hcolon
      have hne : ':' :: rest ≠ key := by
        rintro rfl
        exact hkey rfl
      simp [cut, hne]
    · rw [cut_cons_of_ne hcolon]
      rfl

/-- A segment behind the first ones has the key if the key stands behind a colon, which may be
apart. -/
theorem exists_segment_iff (hkey : IsValue key) (h : ∀ w ∈ tokens, Unbroken w) :
    (∃ segment ∈ (cut tokens).2, (kept segment).head? = some key) ↔
      (':' :: key) ∈ tokens ∨ [[':'], key] <:+: tokens := by
  induction tokens with
  | nil => simp [cut]
  | cons w tokens ih =>
    obtain ⟨hw, htokens⟩ := List.forall_mem_cons.1 h
    have hopen := (of_mem_cut htokens).1
    by_cases hcolon : w.head? = some ':'
    · obtain ⟨rest, rfl⟩ := List.head?_eq_some_iff.1 hcolon
      rw [cut, List.exists_mem_cons_iff, head?_kept_cons hkey.unbroken.ne_nil hopen,
        head?_cut hkey.head?_ne, ih htokens, List.mem_cons, List.infix_cons_iff,
        List.cons_prefix_cons, singleton_isPrefix_iff]
      have htoken : ':' :: key = ':' :: rest ↔ rest = key := by simp [eq_comm]
      have hcolons : [':'] = ':' :: rest ↔ rest = [] := by simp [eq_comm]
      -- both sides say : this segment, by its token or behind its colon, or a later one
      rw [htoken, hcolons]
      grind
    · rw [cut_cons_of_ne hcolon, ih htokens, List.mem_cons, List.infix_cons_iff,
        List.cons_prefix_cons]
      have hne : ∀ v : Text, ':' :: v ≠ w := by
        rintro v rfl
        exact hcolon rfl
      simp [hne]

theorem dropColon_eq_iff {v : Text} (hv : v.head? ≠ some ':') :
    dropColon w = v ↔ w = v ∨ w = ':' :: v := by
  by_cases hcolon : w.head? = some ':'
  · obtain ⟨rest, rfl⟩ := List.head?_eq_some_iff.1 hcolon
    have hne : ':' :: rest ≠ v := by
      rintro rfl
      exact hv rfl
    simp [dropColon, hne]
  · have hne : w ≠ ':' :: v := by
      rintro rfl
      exact hcolon rfl
    simp [dropColon_of_ne hcolon, hne]

/-- What is mentioned are the first tokens that segments keep. -/
theorem mem_keys_filterMap_mention? {segments : List (List Text)} :
    key ∈ (segments.filterMap mention?).map Prod.fst ↔
      ∃ segment ∈ segments, (kept segment).head? = some key := by
  have hfirst : ∀ segment : List Text, (mention? segment).map Prod.fst = (kept segment).head? := by
    intro segment
    unfold mention?
    cases kept segment <;> rfl
  simp only [List.map_filterMap, hfirst, List.mem_filterMap]

/-- A key is mentioned behind its colon, or apart from it. -/
theorem has_mentions_iff (hkey : IsValue key) (h : ∀ w ∈ tokens, Unbroken w)
    (hopens : opens tokens = true) :
    (mentions tokens).has key = true ↔ (':' :: key) ∈ tokens ∨ Detached key tokens := by
  obtain ⟨first, rest, rfl⟩ := opens_iff.1 hopens
  obtain ⟨-, hrest⟩ := List.forall_mem_cons.1 h
  rw [Mentions.has_iff, mentions, mem_keys_filterMap_mention?, List.exists_mem_cons_iff,
    head?_kept_cons hkey.unbroken.ne_nil (of_mem_cut hrest).1, head?_cut hkey.head?_ne,
    exists_segment_iff hkey hrest, dropColon_eq_iff hkey.head?_ne, dropColon_eq_iff (by simp),
    Detached, List.mem_cons, List.infix_cons_iff, List.cons_prefix_cons, List.cons_prefix_cons,
    List.cons_prefix_cons, singleton_isPrefix_iff]
  -- what is behind the colon of the first token is the key, or nothing, or so after one more colon
  simp only [List.cons.injEq, true_and, List.nil_prefix, and_true]
  grind

end OrgWeave.Params
