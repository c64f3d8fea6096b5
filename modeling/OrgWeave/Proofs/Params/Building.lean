import OrgWeave.Proofs.Params.Writing

/-!
# Parameters that are built

Parameters need not be read off a text : they can be built by adding values to keys, one mention
after another (`Mentions.built`). Whatever is added, every key stands where it was added first, with
all values that were added to it (`Mentions.BuiltUp`). So two mentions of different keys side by
side can change places, and the values of no key change with it.

Such parameters can hold texts that no parameter string holds. Exactly those are read as they were
once they are written that are plain and do not begin with a key in a colon
(`built_multimap`), as what is read is always plain.
-/

namespace OrgWeave.Params

open Text

namespace Mentions

variable {ms before after : Mentions} {m m' : Text × List Text} {key : Text}

/-- The parameters that come of adding what is mentioned, one mention after another. -/
def built (ms : Mentions) : Params := ms.foldl (fun p m => p.add m.1 m.2) []

theorem built_eq_collect (ms : Mentions) : ms.built = ms.collect := foldl_add ms

/-! ## Keys in order -/

/-- Of two keys, the one that is mentioned first stands first. -/
theorem pairwise_keys (ms : Mentions) : ms.keys.Pairwise fun key key' =>
    ∃ front, front <+: ms.map Prod.fst ∧ key ∈ front ∧ key' ∉ front := by
  induction ms using List.reverseRecOn with
  | nil => exact List.Pairwise.nil
  | append_singleton ms m ih =>
    rw [List.map_append]
    have hlonger : (keys ms).Pairwise fun key key' => ∃ front,
        front <+: ms.map Prod.fst ++ [m].map Prod.fst ∧ key ∈ front ∧ key' ∉ front := by
      refine ih.imp ?_
      rintro key key' ⟨front, hfront, hkeys⟩
      exact ⟨front, hfront.trans (List.prefix_append _ _), hkeys⟩
    rw [keys_append_singleton]
    split
    next => exact hlonger
    next hnew =>
      refine List.pairwise_append.2
        ⟨hlonger, List.pairwise_singleton _ _, fun key hkey key' h => ?_⟩
      rw [List.mem_singleton.1 h]
      exact ⟨ms.map Prod.fst, List.prefix_append _ _, has_iff.1 (mem_keys.1 hkey),
        mt has_iff.2 hnew⟩

/-- The first key is the one of the first mention. -/
theorem head?_keys_collect (m : Text × List Text) (ms : Mentions) :
    (collect (m :: ms)).keys.head? = some m.1 := by
  rw [keys_collect, keys, List.map_cons, List.eraseDups_cons, List.head?_cons]

/-! ## Values -/

theorem valuesOf_append (ms ms' : Mentions) (key : Text) :
    valuesOf (ms ++ ms') key = ms.valuesOf key ++ ms'.valuesOf key := by
  simp [valuesOf]

/-- Of two mentions of different keys, one at most is of a given key. -/
theorem valuesOf_swap (h : m.1 ≠ m'.1) (key : Text) :
    valuesOf [m, m'] key = valuesOf [m', m] key := by
  by_cases hm : m.1 = key
  · have hm' : m'.1 ≠ key := fun heq => h (hm.trans heq.symm)
    simp [valuesOf, hm, hm']
  · simp [valuesOf, hm, List.filter_cons]

/-- Two mentions of different keys can change places. -/
theorem values?_built_swap (before after : Mentions) (h : m.1 ≠ m'.1) (key : Text) :
    (built (before ++ m :: m' :: after)).values? key =
      (built (before ++ m' :: m :: after)).values? key := by
  have hhas : has (before ++ m :: m' :: after) key = has (before ++ m' :: m :: after) key := by
    simp [has, Bool.or_left_comm]
  have hvalues : valuesOf (before ++ [m, m'] ++ after) key =
      valuesOf (before ++ [m', m] ++ after) key := by
    simp only [valuesOf_append, valuesOf_swap h]
  rw [List.append_assoc, List.append_assoc] at hvalues
  rw [built_eq_collect, built_eq_collect, values?_collect, values?_collect, hhas]
  exact if_congr Iff.rfl (congrArg some hvalues) rfl

/-- The parameters hold what was added to each key, in the order in which keys were added first. -/
structure BuiltUp (ms : Mentions) (p : Params) : Prop where
  nodup : p.keys.Nodup
  mem_keys : ∀ key, key ∈ p.keys ↔ key ∈ ms.map Prod.fst
  ordered : p.keys.Pairwise fun key key' =>
    ∃ front, front <+: ms.map Prod.fst ∧ key ∈ front ∧ key' ∉ front
  absent : ∀ key, p.values? key = none ↔ key ∉ ms.map Prod.fst
  values? : ∀ key ∈ ms.map Prod.fst,
    p.values? key = some ((ms.filter fun m => m.1 = key).flatMap Prod.snd)
  without : ∀ key, p.values? key = some [] ↔
    key ∈ ms.map Prod.fst ∧ ∀ m ∈ ms, m.1 = key → m.2 = []

theorem builtUp_built (ms : Mentions) : ms.BuiltUp ms.built := by
  have hvalues : ∀ key, ms.built.values? key =
      if key ∈ ms.map Prod.fst then some (ms.valuesOf key) else none := by
    intro key
    rw [built_eq_collect, values?_collect]
    exact if_congr has_iff rfl rfl
  have hkeys : ms.built.keys = ms.keys := by rw [built_eq_collect, keys_collect]
  refine ⟨?_, fun key => ?_, ?_, fun key => ?_, fun key hkey => ?_, fun key => ?_⟩
  · rw [hkeys]
    exact nodup_keys ms
  · rw [hkeys, Mentions.mem_keys, has_iff]
  · rw [hkeys]
    exact pairwise_keys ms
  · rw [hvalues]
    split <;> simp_all
  · rw [hvalues, if_pos hkey]
    rfl
  · rw [hvalues]
    split
    next hkey => simp [hkey, valuesOf, List.flatMap_eq_nil_iff]
    next hkey => simp [hkey]

end Mentions

/-! ## Writing and reading -/

variable {p : Params} {ms : Mentions} {m : Text × List Text}

/-- Plain parameters with no key twice are read as they were written exactly if their first key does
not begin with a colon. -/
theorem ofText?_toText_eq_self_iff (hplain : Mentions.Plain (m :: ms))
    (hnodup : (Table.keys (m :: ms)).Nodup) :
    ofText? (toText (m :: ms)) = .ok (m :: ms) ↔ m.1.head? ≠ some ':' := by
  obtain ⟨hm, -⟩ := List.forall_mem_cons.1 hplain
  have hms : Mentions.collect ms = ms := Mentions.collect_eq_self (List.nodup_cons.1 hnodup).2
  rw [ofText?_toText hplain, Except.ok.injEq]
  constructor
  · intro hback hcolon
    cases hfirst : mention? (dropColon m.1 :: m.2) with
    | none =>
      rw [hfirst, Option.toList_none, List.nil_append, hms] at hback
      exact List.cons_ne_self m ms hback.symm
    | some m' =>
      -- what the first token mentions would be the first key
      have hhead := Mentions.head?_keys_collect m' ms
      rw [hfirst, Option.toList_some, List.singleton_append] at hback
      rw [hback] at hhead
      exact ne_of_mention?_dropColon hcolon hm.values hfirst (Option.some.inj hhead).symm
  · intro hkey
    rw [dropColon_of_ne hkey, mention?_cons_of_ne_nil hm.key.ne_nil hm.values]
    exact Mentions.collect_eq_self hnodup

/-- Parameters with no key twice are read as they were written exactly if there are some, they are
plain and the first key does not begin with a colon. -/
theorem ofText?_toText_iff (hnodup : p.keys.Nodup) : ofText? (toText p) = .ok p ↔
    p ≠ [] ∧ Mentions.Plain p ∧ ∀ key ∈ p.keys.head?, key.head? ≠ some ':' := by
  cases p with
  | nil =>
    refine iff_of_false (fun h => ?_) fun h => h.1 rfl
    cases h
  | cons m ms =>
    constructor
    · intro h
      have hplain := (plain_of_ofText? h).1
      have hkey := (ofText?_toText_eq_self_iff hplain hnodup).1 h
      exact ⟨List.cons_ne_nil m ms, hplain, by simpa [Table.keys] using hkey⟩
    · rintro ⟨-, hplain, hkey⟩
      exact (ofText?_toText_eq_self_iff hplain hnodup).2 (hkey m.1 rfl)

/-- Parameters that are built hold each key once, where it was added first, with all values that
were added to it in order; two mentions side by side that are of different keys can change places
for all that is looked up; and the parameters are read as they were written exactly if there are
some, all keys and values are words, no value begins with a colon and the first key does not. -/
theorem built_multimap (ms before after : Mentions) (m m' : Text × List Text) :
    ms.BuiltUp ms.built ∧
    (m.1 ≠ m'.1 → ∀ key, (Mentions.built (before ++ m :: m' :: after)).values? key =
      (Mentions.built (before ++ m' :: m :: after)).values? key) ∧
    (ofText? (toText ms.built) = .ok ms.built ↔ ms.built ≠ [] ∧ Mentions.Plain ms.built ∧
      ∀ key ∈ ms.built.keys.head?, key.head? ≠ some ':') := by
  have hbuilt := ms.builtUp_built
  exact ⟨hbuilt, Mentions.values?_built_swap before after, ofText?_toText_iff hbuilt.nodup⟩

/-- Spices that are added in turn, a key with white space among them. -/
def spices : Mentions :=
  [("mace".toList, ["whole".toList]), ("salt".toList, []), ("mace".toList, ["ground".toList]),
    ("bay leaf".toList, [])]

/-- The mace stands in front of the salt wherever it is added again, and a key of two words is not
read as it was written. -/
theorem spices_built :
    spices.built = [("mace".toList, ["whole".toList, "ground".toList]), ("salt".toList, []),
      ("bay leaf".toList, [])] ∧
    "salt".toList ≠ "mace".toList ∧
    (∀ key, (Mentions.built ([("mace".toList, ["whole".toList])] ++ ("salt".toList, []) ::
        ("mace".toList, ["ground".toList]) :: [("bay leaf".toList, [])])).values? key =
      (Mentions.built ([("mace".toList, ["whole".toList])] ++ ("mace".toList, ["ground".toList]) ::
        ("salt".toList, []) :: [("bay leaf".toList, [])])).values? key) ∧
    ofText? (toText spices.built) ≠ .ok spices.built := by
  have hne : "salt".toList ≠ "mace".toList := by decide
  obtain ⟨-, hswap, hback⟩ := built_multimap spices [("mace".toList, ["whole".toList])]
    [("bay leaf".toList, [])] ("salt".toList, []) ("mace".toList, ["ground".toList])
  have hspices : spices.built = [("mace".toList, ["whole".toList, "ground".toList]),
      ("salt".toList, []), ("bay leaf".toList, [])] := by decide
  refine ⟨hspices, hne, hswap hne, fun h => ?_⟩
  obtain ⟨-, hplain, -⟩ := hback.1 h
  rw [hspices] at hplain
  have hword : Unbroken "bay leaf".toList := (hplain ("bay leaf".toList, []) (by simp)).key
  exact absurd hword (by decide +kernel)

end OrgWeave.Params
