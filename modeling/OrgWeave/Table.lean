import OrgWeave.Text.Basic

/-!
# Tables

A table pairs each of its keys with a value and remembers the order in which the keys
came. `get?` looks a key up and `alter` changes the value of a key where it stands, or
appends the key at the end.
-/

namespace OrgWeave

/-- Keys with their values, in the order of first insertion. -/
abbrev Table (α : Type) := List (Text × α)

namespace Table

variable {α : Type}

def get? (t : Table α) (key : Text) : Option α := t.lookup key

def has (t : Table α) (key : Text) : Bool := (t.get? key).isSome

def keys (t : Table α) : List Text := t.map Prod.fst

/-- Replace the value of `key` by `f` of it, or append `key` with `f none`. -/
def alter (f : Option α → α) (key : Text) : Table α → Table α
  | [] => [(key, f none)]
  | (k, v) :: rest => if k = key then (k, f (some v)) :: rest else (k, v) :: alter f key rest

/-- After a change of `key`, it has the changed value. -/
theorem get?_alter_self (f : Option α → α) (key : Text) :
    ∀ t : Table α, get? (alter f key t) key = some (f (get? t key))
  | [] => by simp [alter, get?]
  | (k, v) :: rest => by
    have ih := get?_alter_self f key rest
    by_cases h : k = key
    · simp [alter, get?, h]
    · have hb : (key == k) = false := beq_eq_false_iff_ne.2 (Ne.symm h)
      simpa [alter, get?, h, List.lookup_cons, hb] using ih

/-- A change of `key` keeps the values of all other keys. -/
theorem get?_alter_of_ne (f : Option α → α) {key other : Text} (h : other ≠ key) :
    ∀ t : Table α, get? (alter f key t) other = get? t other
  | [] => by simp [alter, get?, List.lookup_cons, beq_eq_false_iff_ne.2 h]
  | (k, v) :: rest => by
    have ih := get?_alter_of_ne f h rest
    simp only [get?] at ih
    by_cases hk : k = key
    · simp [alter, get?, List.lookup_cons, hk, beq_eq_false_iff_ne.2 h]
    · simp [alter, get?, List.lookup_cons, hk, ih]

/-- A key is in a table exactly if it is one of its keys. -/
theorem has_iff_mem_keys {t : Table α} {key : Text} : t.has key = true ↔ key ∈ t.keys := by
  rw [has, get?, Option.isSome_iff_ne_none, Ne, List.lookup_eq_none_iff, keys, List.mem_map]
  constructor
  · intro h
    refine Classical.byContradiction fun hnot => h fun row hrow => ?_
    exact bne_iff_ne.2 fun heq => hnot ⟨row, hrow, heq.symm⟩
  · rintro ⟨row, hrow, rfl⟩ h
    simpa using h row hrow

/-- A change of an absent key puts it at the end. -/
theorem alter_of_not_mem (f : Option α → α) {key : Text} :
    ∀ {t : Table α}, key ∉ t.keys → alter f key t = t ++ [(key, f none)]
  | [], _ => rfl
  | (k, v) :: rest, h => by
    have hne : k ≠ key := fun heq => h (heq ▸ List.mem_cons_self)
    rw [alter, if_neg hne, alter_of_not_mem f fun hmem => h (List.mem_cons_of_mem k hmem)]
    rfl

/-- A change of a key that is there keeps all keys where they are. -/
theorem keys_alter_of_mem (f : Option α → α) {key : Text} :
    ∀ {t : Table α}, key ∈ t.keys → (alter f key t).keys = t.keys
  | (k, v) :: rest, h => by
    rw [alter]
    split
    · rfl
    · rename_i hne
      have hmem : key ∈ keys rest := (List.mem_cons.1 h).resolve_left (Ne.symm hne)
      exact congrArg (k :: ·) (keys_alter_of_mem f hmem)

/-- A change of a key adds no other key. -/
theorem has_alter (f : Option α → α) (key : Text) (t : Table α) (other : Text) :
    (alter f key t).has other = true ↔ other = key ∨ t.has other = true := by
  by_cases h : other = key
  · subst h
    simp [has, get?_alter_self]
  · simp [has, get?_alter_of_ne f h, h]

/-- A change of a key repeats no key. -/
theorem nodup_keys_alter (f : Option α → α) (key : Text) {t : Table α} (h : t.keys.Nodup) :
    (alter f key t).keys.Nodup := by
  by_cases hmem : key ∈ t.keys
  · rw [keys_alter_of_mem f hmem]
    exact h
  · have hkeys : (alter f key t).keys = t.keys ++ [key] := by
      rw [alter_of_not_mem f hmem, keys, List.map_append]
      rfl
    rw [hkeys, List.nodup_append]
    refine ⟨h, by simp, fun k hk k' hk' heq => hmem ?_⟩
    rw [← List.mem_singleton.1 hk', ← heq]
    exact hk

/-- Give `key` the value `v`. -/
def insert (t : Table α) (key : Text) (v : α) : Table α := alter (fun _ => v) key t

/-- Inserting what `f` makes of rows of different keys gives these keys new values and leaves
the others alone. -/
theorem get?_foldl_insert {β : Type} (f : Text → β → α) (key : Text) :
    ∀ (rows : Table β) (t : Table α), rows.keys.Nodup →
      (rows.foldl (fun t row => t.insert row.1 (f row.1 row.2)) t).get? key =
        ((rows.get? key).map (f key)).or (t.get? key)
  | [], t, _ => rfl
  | (k, b) :: rows, t, h => by
    obtain ⟨hk, hrows⟩ := List.nodup_cons.1 h
    rw [List.foldl_cons, get?_foldl_insert f key rows _ hrows]
    by_cases hkey : key = k
    · subst hkey
      have habsent : get? rows key = none := by
        rw [← Option.not_isSome_iff_eq_none]
        exact fun hhas => hk (has_iff_mem_keys.1 hhas)
      rw [habsent, insert, get?_alter_self]
      simp [get?]
    · rw [insert, get?_alter_of_ne _ hkey]
      simp [get?, List.lookup_cons, beq_eq_false_iff_ne.2 hkey]

theorem nodup_keys_foldl_insert {β : Type} (f : Text → β → α) :
    ∀ (rows : Table β) {t : Table α}, t.keys.Nodup →
      (rows.foldl (fun t row => t.insert row.1 (f row.1 row.2)) t).keys.Nodup
  | [], _, h => h
  | row :: rows, _, h => nodup_keys_foldl_insert f rows (nodup_keys_alter _ row.1 h)

/-- The rows of a table by the code points of their keys. -/
def sortByKey (t : Table α) : Table α := t.mergeSort fun r s => Text.atMost r.1 s.1

end Table

end OrgWeave
