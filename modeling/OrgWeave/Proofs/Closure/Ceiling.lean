import OrgWeave.Proofs.Closure.Walk

/-!
# Ceilings that suffice

Only a name with a record refers to others, and each of them is entered once. So a
closure never nests deeper than there are records, and a ceiling of as many levels is
never in its way (`exists_resolve`). The levels that a visit needs are counted by the
names with a record that are not seen yet (`Graph.pending`).
-/

namespace OrgWeave.Graph

variable {g : Graph} {t u : Trail} {n : Text}

/-- The names with a record that are not seen. -/
def pending (g : Graph) (t : Trail) : List Text :=
  g.dependencies.keys.filter fun n => decide (n ∉ t.seen)

/-- A name without a record refers to nothing. -/
theorem nested_eq_nil (h : n ∉ g.dependencies.keys) : (g.record n).nested = [] := by
  have hnone : g.dependencies.get? n = none := by
    rw [Table.get?, List.lookup_eq_none_iff]
    intro row hrow
    have hne : n ≠ row.1 := fun heq => h (heq ▸ List.mem_map_of_mem hrow)
    simpa using hne
  rw [record, hnone]
  rfl

theorem pending_sublist (h : t.seen ⊆ u.seen) : (g.pending u).Sublist (g.pending t) := by
  refine List.monotone_filter_right _ fun m hm => ?_
  simp only [decide_eq_true_eq] at hm ⊢
  exact fun hseen => hm (h hseen)

/-- Entering a fresh name with a record leaves one name less pending. -/
theorem length_pending_enter_lt (hkey : n ∈ g.dependencies.keys) (hfresh : n ∉ t.seen) :
    (g.pending (t.enter g n)).length < (g.pending t).length := by
  have hsub : (g.pending (t.enter g n)).Sublist (g.pending t) :=
    pending_sublist fun d hd => (Trail.mem_enter_seen g t n).2 (Or.inr hd)
  refine Nat.lt_of_le_of_ne hsub.length_le fun heq => ?_
  have hin : n ∈ g.pending t := by simp [pending, hkey, hfresh]
  have hout : n ∉ g.pending (t.enter g n) := by
    simp [pending, (Trail.mem_enter_seen g t n).2 (Or.inl (Or.inl rfl))]
  rw [← hsub.eq_of_length heq] at hin
  exact hout hin

/-- A visit succeeds if there are more levels than names pending. -/
theorem exists_visitAll {ceiling : Int} {levels : Nat} {names : List Text}
    (h : (g.pending t).length < levels) :
    ∃ u, Trail.visitAll (g.visit ceiling levels) t names = .ok u := by
  induction levels generalizing t names with
  | zero => omega
  | succ levels ihl =>
    induction names generalizing t with
    | nil => exact ⟨t, rfl⟩
    | cons n names ih =>
      have hvisit : ∃ v, g.visit ceiling (levels + 1) t n = .ok v := by
        by_cases hseen : n ∈ t.seen
        · exact ⟨t, visit_eq_ok.2 (Or.inl ⟨hseen, rfl⟩)⟩
        · have hinner : ∃ v, Trail.visitAll (g.visit ceiling levels) (t.enter g n)
              (g.record n).nested = .ok v := by
            by_cases hkey : n ∈ g.dependencies.keys
            · have := length_pending_enter_lt hkey hseen
              exact ihl (by omega)
            · exact ⟨_, by rw [nested_eq_nil hkey]; rfl⟩
          obtain ⟨v, hv⟩ := hinner
          exact ⟨v.leave n, visit_eq_ok.2 (Or.inr ⟨hseen, levels, v, rfl, hv, rfl⟩)⟩
      obtain ⟨v, hv⟩ := hvisit
      have hwalk : Walk g t [n] v := walk_of_visitAll (bind_eq_ok.2 ⟨v, hv, rfl⟩)
      obtain ⟨u, hu⟩ := ih (Nat.lt_of_le_of_lt (pending_sublist hwalk.seen_subset).length_le h)
      exact ⟨u, bind_eq_ok.2 ⟨v, hv, hu⟩⟩

/-- A closure under a ceiling of as many levels as there are records succeeds. -/
theorem exists_resolve {ceiling : Int} (h : g.dependencies.length ≤ ceiling)
    (names external : List Text) : ∃ r, g.resolve names external ceiling = .ok r := by
  have hpending : (g.pending .empty).length < (ceiling + 1).toNat := by
    have hle : (g.pending .empty).length ≤ g.dependencies.keys.length := List.length_filter_le _ _
    rw [Table.keys, List.length_map] at hle
    omega
  have hvisit : ∃ t, Trail.visitAll (g.visit ceiling (ceiling + 1).toNat) .empty names = .ok t :=
    exists_visitAll hpending
  obtain ⟨t, ht⟩ := hvisit
  exact ⟨_, bind_eq_ok.2 ⟨t, ht, rfl⟩⟩

end OrgWeave.Graph
