import Mathlib.Data.List.Induction
import OrgWeave.Params

/-!
# Keys that are mentioned again

A parameter string may mention a key in several segments. `Mentions` are the keys with their
values segment by segment, and `collect` puts the values of equal keys together, at the first place
of the key. To add what is mentioned one after another comes to the same (`foldl_add`), so that all
that parameters hold can be said of the mentions (`values?_collect`).
-/

namespace OrgWeave

/-- A change of a key in a table that `g` fills. -/
theorem Table.alter_map {α : Type} (f : Option α → α) (g : Text → α) {key : Text} :
    ∀ {names : List Text}, names.Nodup → key ∈ names →
      alter f key (names.map fun name => (name, g name)) =
        names.map fun name => (name, if name = key then f (some (g name)) else g name)
  | name :: names, hnodup, hkey => by
    obtain ⟨hname, hnames⟩ := List.nodup_cons.1 hnodup
    rw [List.map_cons, alter]
    split
    next heq =>
      have hothers : ∀ other ∈ names, other ≠ key := by
        rintro _ hother rfl
        exact hname (heq ▸ hother)
      rw [List.map_cons, if_pos heq]
      refine congrArg _ (List.map_congr_left fun other hother => ?_)
      rw [if_neg (hothers other hother)]
    next hne =>
      have hlater : key ∈ names := (List.mem_cons.1 hkey).resolve_left (Ne.symm hne)
      rw [alter_map f g hnames hlater, List.map_cons, if_neg hne]

theorem Table.get?_map {α : Type} (g : Text → α) (key : Text) : ∀ names : List Text,
    get? (names.map fun name => (name, g name)) key = if key ∈ names then some (g key) else none
  | [] => rfl
  | name :: names => by
    have ih := get?_map g key names
    by_cases h : key = name
    · simp [get?, h]
    · rw [get?] at ih
      simp [get?, List.lookup_cons, beq_eq_false_iff_ne.2 h, ih, h]

namespace Params

/-- Keys with values, one mention after another. -/
abbrev Mentions := List (Text × List Text)

namespace Mentions

/-- Whether the key is mentioned. -/
def has (ms : Mentions) (key : Text) : Bool := ms.any fun m => m.1 = key

/-- The values of all mentions of a key. -/
def valuesOf (ms : Mentions) (key : Text) : List Text :=
  (ms.filter fun m => m.1 = key).flatMap Prod.snd

/-- The keys in the order of their first mentions. -/
def keys (ms : Mentions) : List Text := (ms.map Prod.fst).eraseDups

/-- The keys, each with the values of all its mentions. -/
def collect (ms : Mentions) : Params := ms.keys.map fun key => (key, ms.valuesOf key)

variable {ms : Mentions} {m : Text × List Text} {key : Text}

theorem has_iff : ms.has key = true ↔ key ∈ ms.map Prod.fst := by
  simp [has]

theorem mem_keys : key ∈ ms.keys ↔ ms.has key = true := by
  rw [keys, List.mem_eraseDups, has_iff]

theorem valuesOf_eq_nil (h : ms.has key = false) : ms.valuesOf key = [] := by
  have hnone : ms.filter (fun m => m.1 = key) = [] := by
    rw [List.filter_eq_nil_iff]
    exact List.any_eq_false.1 h
  rw [valuesOf, hnone, List.flatMap_nil]

/-! ## Another mention -/

theorem valuesOf_append_singleton (ms : Mentions) (m : Text × List Text) (key : Text) :
    valuesOf (ms ++ [m]) key = ms.valuesOf key ++ if m.1 = key then m.2 else [] := by
  by_cases h : m.1 = key <;> simp [valuesOf, h]

theorem keys_append_singleton (ms : Mentions) (m : Text × List Text) :
    keys (ms ++ [m]) = if ms.has m.1 then ms.keys else ms.keys ++ [m.1] := by
  rw [keys, List.map_append, List.map_singleton, List.eraseDups_append, ← keys, List.removeAll]
  by_cases h : m.1 ∈ ms.map Prod.fst
  · rw [if_pos (has_iff.2 h), List.filter_cons_of_neg (by simpa using h)]
    exact List.append_nil _
  · rw [if_neg (mt has_iff.1 h), List.filter_cons_of_pos (by simpa using h)]
    rfl

theorem keys_collect (ms : Mentions) : ms.collect.keys = ms.keys := by
  simp [collect, Table.keys, Function.comp_def]

/-- One more mention adds its values to those of its key. -/
theorem collect_append_singleton (hnodup : ms.keys.Nodup) :
    collect (ms ++ [m]) = ms.collect.add m.1 m.2 := by
  rw [collect, keys_append_singleton, add]
  cases h : ms.has m.1 with
  | true =>
    rw [if_pos rfl, collect, Table.alter_map _ _ hnodup (mem_keys.2 h)]
    refine List.map_congr_left fun key _ => ?_
    rw [valuesOf_append_singleton]
    by_cases hkey : key = m.1
    · rw [if_pos hkey, if_pos hkey.symm, Option.getD_some]
    · rw [if_neg hkey, if_neg (Ne.symm hkey), List.append_nil]
  | false =>
    have habsent : m.1 ∉ ms.keys := fun hmem => by simp [mem_keys.1 hmem] at h
    have hothers : ∀ key ∈ ms.keys, m.1 ≠ key := by
      rintro _ hmem rfl
      exact habsent hmem
    rw [Table.alter_of_not_mem _ (ms.keys_collect ▸ habsent), if_neg Bool.false_ne_true,
      List.map_append, List.map_singleton, valuesOf_append_singleton, valuesOf_eq_nil h, if_pos rfl]
    refine congrArg (· ++ _) (List.map_congr_left fun key hkey => ?_)
    rw [valuesOf_append_singleton, if_neg (hothers key hkey), List.append_nil]

theorem nodup_keys (ms : Mentions) : ms.keys.Nodup := by
  induction ms using List.reverseRecOn with
  | nil => exact List.nodup_nil
  | append_singleton ms m ih =>
    rw [← keys_collect, collect_append_singleton ih]
    exact Table.nodup_keys_alter _ _ ((keys_collect ms).symm ▸ ih)

/-- To add one mention after another is to collect them. -/
theorem foldl_add (ms : Mentions) :
    ms.foldl (fun (p : Params) m => p.add m.1 m.2) [] = ms.collect := by
  induction ms using List.reverseRecOn with
  | nil => rfl
  | append_singleton ms m ih =>
    rw [List.foldl_append, ih, collect_append_singleton (nodup_keys ms)]
    rfl

/-- Where no key is mentioned twice, there is nothing to put together. -/
theorem collect_eq_self : ∀ {ms : Mentions}, (ms.map Prod.fst).Nodup → ms.collect = ms := by
  intro ms
  induction ms using List.reverseRecOn with
  | nil => exact fun _ => rfl
  | append_singleton ms m ih =>
    intro h
    rw [List.map_append, List.nodup_append] at h
    obtain ⟨hnodup, -, hdisjoint⟩ := h
    have habsent : m.1 ∉ Table.keys ms := fun hmem => hdisjoint m.1 hmem m.1 (by simp) rfl
    rw [collect_append_singleton (nodup_keys ms), ih hnodup, add, Table.alter_of_not_mem _ habsent]
    rfl

/-! ## What is collected -/

theorem values?_collect (ms : Mentions) (key : Text) :
    ms.collect.values? key = if ms.has key then some (ms.valuesOf key) else none := by
  rw [values?, collect, Table.get?_map]
  exact if_congr mem_keys rfl rfl

theorem values_collect (ms : Mentions) (key : Text) : ms.collect.values key = ms.valuesOf key := by
  rw [values, values?_collect]
  cases h : ms.has key with
  | true => rfl
  | false => exact (valuesOf_eq_nil h).symm

theorem has_collect (ms : Mentions) (key : Text) : Table.has ms.collect key = ms.has key := by
  rw [Table.has, ← values?, values?_collect]
  cases ms.has key <;> rfl

end Mentions

end Params

end OrgWeave
