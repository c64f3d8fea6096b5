import Mathlib.Data.List.Induction
import OrgWeave.Text.Basic

/-!
# Sorted texts

`Text.atMost` orders texts by their code points, as words in a dictionary : the first characters
in which two texts differ decide, and a text stands before all that it begins (`Text.Before`).
The order is total, so that `Text.sorted` lists the texts of a list from the first to the last,
each of them once (`mem_sorted`, `nodup_sorted`, `pairwise_sorted`).
-/

namespace OrgWeave.Text

/-- The first text stands before the second, by code points. -/
def Before : Text → Text → Prop := List.Lex fun c d : Char => c.toNat < d.toNat

theorem atMost_trans :
    ∀ {s t u : Text}, atMost s t = true → atMost t u = true → atMost s u = true
  | [], _, _, _, _ => rfl
  | _ :: _, [], _, hst, _ => by cases hst
  | _ :: _, _ :: _, [], _, htu => by cases htu
  | c :: s, d :: t, e :: u, hst, htu => by
    simp only [atMost, Bool.or_eq_true, decide_eq_true_eq, Bool.and_eq_true, beq_iff_eq]
      at hst htu ⊢
    rcases hst with hcd | ⟨rfl, hst⟩ <;> rcases htu with hde | ⟨rfl, htu⟩
    · exact Or.inl (Nat.lt_trans hcd hde)
    · exact Or.inl hcd
    · exact Or.inl hde
    · exact Or.inr ⟨rfl, atMost_trans hst htu⟩

/-- Of two texts one stands before the other, or they are the same. -/
theorem atMost_total : ∀ s t : Text, (atMost s t || atMost t s) = true
  | [], _ => rfl
  | _ :: _, [] => rfl
  | c :: s, d :: t => by
    have ih := atMost_total s t
    simp only [atMost, Bool.or_eq_true, decide_eq_true_eq, Bool.and_eq_true, beq_iff_eq] at ih ⊢
    rcases Nat.lt_trichotomy c.toNat d.toNat with hlt | heq | hgt
    · exact Or.inl (Or.inl hlt)
    · obtain rfl := Char.toNat_inj.1 heq
      exact ih.imp (fun h => Or.inr ⟨rfl, h⟩) fun h => Or.inr ⟨rfl, h⟩
    · exact Or.inr (Or.inl hgt)

theorem before_of_atMost : ∀ {s t : Text}, atMost s t = true → s ≠ t → Before s t
  | [], [], _, hne => absurd rfl hne
  | [], _ :: _, _, _ => .nil
  | _ :: _, [], h, _ => by cases h
  | c :: s, d :: t, h, hne => by
    simp only [atMost, Bool.or_eq_true, decide_eq_true_eq, Bool.and_eq_true, beq_iff_eq] at h
    rcases h with hlt | ⟨rfl, h⟩
    · exact .rel hlt
    · exact .cons (before_of_atMost h fun heq => hne (congrArg (c :: ·) heq))

/-- Erasing repetitions leaves none. -/
theorem nodup_eraseDups (ts : List Text) : ts.eraseDups.Nodup := by
  induction ts using List.reverseRecOn with
  | nil => exact List.nodup_nil
  | append_singleton ts t ih =>
    rw [List.eraseDups_append]
    by_cases ht : t ∈ ts
    · simpa [List.removeAll, ht] using ih
    · have hlast : ([t].removeAll ts).eraseDups = [t] := by
        simp [List.removeAll, ht, List.eraseDups_cons]
      rw [hlast]
      refine (List.perm_append_singleton t _).nodup_iff.2 (List.nodup_cons.2 ⟨?_, ih⟩)
      rwa [List.mem_eraseDups]

theorem mem_sorted {ts : List Text} {t : Text} : t ∈ sorted ts ↔ t ∈ ts := by
  rw [sorted, List.mem_mergeSort, List.mem_eraseDups]

theorem nodup_sorted (ts : List Text) : (sorted ts).Nodup :=
  (List.mergeSort_perm _ _).nodup_iff.2 (nodup_eraseDups ts)

/-- The texts come from the first to the last. -/
theorem pairwise_sorted (ts : List Text) : (sorted ts).Pairwise Before := by
  have hordered : (sorted ts).Pairwise fun s t => atMost s t = true :=
    @List.pairwise_mergeSort Text atMost (fun _ _ _ => atMost_trans) atMost_total ts.eraseDups
  exact (hordered.and (nodup_sorted ts)).imp fun h => before_of_atMost h.1 h.2

end OrgWeave.Text
