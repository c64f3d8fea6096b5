import OrgWeave.Closure
import OrgWeave.Gather
import Mathlib.Logic.Relation
import Mathlib.Data.List.Nodup

/-!
# Walks over references

`Walk g t names u` is what visiting `names`, one after another, makes of the trail `t`
when no ceiling stands in the way : a name that is seen is passed over, any other name is
entered, its references are walked, and it is left. A closure that succeeds is such a walk
(`walk_of_visitAll`), so that what holds of walks holds of closures under every ceiling.
A walk forgets nothing that is seen and sees all that it is asked to visit (`Walk.mem_seen`).
-/

namespace OrgWeave

namespace Graph

variable (g : Graph)

/-- The record of `a` refers to `b`. -/
def Edge (a b : Text) : Prop := b ∈ (g.record a).nested

/-- Nested references lead from `a` to `b`, which can be `a` itself. -/
def Reaches : Text → Text → Prop := Relation.ReflTransGen g.Edge

/-- `b` is one of the names or nested references lead there from one of them. -/
def ReachedFrom (names : List Text) (b : Text) : Prop := ∃ a ∈ names, g.Reaches a b

/-- `r` stands for `d` : it is `d`, or an aggregate that `d` contributes to. -/
def StandsFor (r d : Text) : Prop := d = r ∨ d ∈ g.contributors r

end Graph

open OrgWeave.Graph

variable {g : Graph}

namespace Trail

theorem mem_addExternal {t : Trail} {ref x : Text} :
    x ∈ (t.addExternal ref).external ↔ x ∈ t.external ∨ x = ref := by
  unfold addExternal
  split
  · exact ⟨Or.inl, fun h => h.elim id fun hx => hx ▸ ‹ref ∈ t.external›⟩
  · simp

theorem nodup_addExternal {t : Trail} (h : t.external.Nodup) (ref : Text) :
    (t.addExternal ref).external.Nodup := by
  unfold addExternal
  split
  · exact h
  · rename_i hnot
    exact List.nodup_append_comm.1 (List.nodup_cons.2 ⟨hnot, h⟩)

/-- Noting references keeps whatever noting one of them keeps. -/
theorem foldl_addExternal_eq {α : Type} {f : Trail → α} (hf : ∀ t ref, f (addExternal t ref) = f t)
    (refs : List Text) : ∀ t : Trail, f (refs.foldl addExternal t) = f t := by
  induction refs with
  | nil => exact fun _ => rfl
  | cons ref refs ih => exact fun t => (ih _).trans (hf t ref)

theorem addExternal_names (t : Trail) (ref : Text) : (t.addExternal ref).names = t.names := by
  unfold addExternal
  split <;> rfl

theorem addExternal_spontaneous (t : Trail) (ref : Text) :
    (t.addExternal ref).spontaneous = t.spontaneous := by
  unfold addExternal
  split <;> rfl

theorem mem_foldl_addExternal {refs : List Text} {x : Text} : ∀ {t : Trail},
    x ∈ (refs.foldl addExternal t).external ↔ x ∈ t.external ∨ x ∈ refs := by
  induction refs with
  | nil => simp
  | cons ref refs ih =>
    intro t
    rw [List.foldl_cons, ih, mem_addExternal, List.mem_cons, or_assoc]

theorem nodup_foldl_addExternal {refs : List Text} : ∀ {t : Trail}, t.external.Nodup →
    (refs.foldl addExternal t).external.Nodup := by
  induction refs with
  | nil => exact id
  | cons ref refs ih => exact fun h => ih (nodup_addExternal h ref)

/-! ## Entering -/

variable (g) (t : Trail) (n : Text)

theorem mem_enter_seen {d : Text} : d ∈ (t.enter g n).seen ↔ g.StandsFor n d ∨ d ∈ t.seen := by
  simp only [enter, StandsFor, List.mem_append, List.mem_cons, or_assoc]

theorem enter_names : (t.enter g n).names = t.names :=
  foldl_addExternal_eq addExternal_names _ t

theorem enter_spontaneous : (t.enter g n).spontaneous =
    if g.spans n = [] then t.spontaneous ++ [n] else t.spontaneous := rfl

theorem enter_external :
    (t.enter g n).external = ((g.record n).external.foldl addExternal t).external := rfl

end Trail

/-! ## Walks -/

/-- Visiting the names, one after another, leads from one trail to another. -/
inductive Walk (g : Graph) : Trail → List Text → Trail → Prop
  | done (t : Trail) : Walk g t [] t
  | pass {t u : Trail} {n : Text} {names : List Text} (seen : n ∈ t.seen)
      (rest : Walk g t names u) : Walk g t (n :: names) u
  | visit {t u v : Trail} {n : Text} {names : List Text} (fresh : n ∉ t.seen)
      (inner : Walk g (t.enter g n) (g.record n).nested u)
      (rest : Walk g (u.leave n) names v) : Walk g t (n :: names) v

namespace Graph

variable {ceiling : Int} {levels : Nat} {t u : Trail}

/-- A visit that succeeds passes over a seen name, or enters the name, visits all that it
refers to on one level less, and leaves it. -/
theorem visit_eq_ok {n : Text} : g.visit ceiling levels t n = .ok u ↔
    (n ∈ t.seen ∧ u = t) ∨ (n ∉ t.seen ∧ ∃ k v, levels = k + 1 ∧
      Trail.visitAll (g.visit ceiling k) (t.enter g n) (g.record n).nested = .ok v ∧
      u = v.leave n) := by
  by_cases hseen : n ∈ t.seen
  · cases levels <;> simp [visit, hseen, eq_comm]
  · cases levels with
    | zero => simp [visit, hseen]
    | succ k =>
      simp only [visit, hseen, if_false, bind_eq_ok, false_and, false_or, not_false_eq_true,
        true_and, Except.ok.injEq]
      constructor
      · rintro ⟨v, hv, rfl⟩
        exact ⟨k, v, rfl, hv, rfl⟩
      · rintro ⟨_, v, hk, hv, rfl⟩
        cases hk
        exact ⟨v, hv, rfl⟩

/-- Names that are seen are passed over on every level. -/
theorem visitAll_of_seen {names : List Text} (h : ∀ n ∈ names, n ∈ t.seen) :
    Trail.visitAll (g.visit ceiling levels) t names = .ok t := by
  induction names with
  | nil => rfl
  | cons n names ih =>
    have hpass : g.visit ceiling levels t n = .ok t :=
      visit_eq_ok.2 (Or.inl ⟨h n List.mem_cons_self, rfl⟩)
    exact bind_eq_ok.2 ⟨t, hpass, ih fun m hm => h m (List.mem_cons_of_mem n hm)⟩

/-- A closure that succeeds is a walk, whatever its ceiling. -/
theorem walk_of_visitAll {names : List Text}
    (h : Trail.visitAll (g.visit ceiling levels) t names = .ok u) : Walk g t names u := by
  induction levels generalizing t names u with
  | zero =>
    induction names generalizing t with
    | nil =>
      cases h
      exact .done _
    | cons n names ih =>
      obtain ⟨v, hn, hrest⟩ := bind_eq_ok.1 h
      obtain ⟨hseen, rfl⟩ | ⟨-, k, -, hk, -⟩ := visit_eq_ok.1 hn
      · exact .pass hseen (ih hrest)
      · omega
  | succ levels ihl =>
    induction names generalizing t with
    | nil =>
      cases h
      exact .done _
    | cons n names ih =>
      obtain ⟨v, hn, hrest⟩ := bind_eq_ok.1 h
      obtain ⟨hseen, rfl⟩ | ⟨hfresh, k, w, hk, hw, rfl⟩ := visit_eq_ok.1 hn
      · exact .pass hseen (ih hrest)
      · cases hk
        exact .visit hfresh (ihl hw) (ih hrest)

end Graph

namespace Walk

variable {t u : Trail} {names : List Text}

/-- A walk forgets nothing. -/
theorem seen_subset (h : Walk g t names u) : t.seen ⊆ u.seen := by
  induction h with
  | done => exact List.Subset.refl _
  | pass _ _ ih => exact ih
  | visit _ _ _ ihi ihr =>
    intro d hd
    exact ihr (ihi ((Trail.mem_enter_seen g _ _).2 (Or.inr hd)))

/-- A walk sees all the names that it visits. -/
theorem mem_seen (h : Walk g t names u) : ∀ n ∈ names, n ∈ u.seen := by
  induction h with
  | done => simp
  | pass seen rest ih =>
    intro m hm
    rcases List.mem_cons.1 hm with rfl | hm
    · exact rest.seen_subset seen
    · exact ih m hm
  | visit _ inner rest _ ihr =>
    intro m hm
    rcases List.mem_cons.1 hm with rfl | hm
    · exact rest.seen_subset
        (inner.seen_subset ((Trail.mem_enter_seen g _ _).2 (Or.inl (Or.inl rfl))))
    · exact ihr m hm

/-- A walk never enters what is seen already. -/
theorem not_mem_names (h : Walk g t names u) {d : Text} (hseen : d ∈ t.seen)
    (hd : d ∉ t.names) : d ∉ u.names := by
  induction h with
  | done => exact hd
  | pass _ _ ih => exact ih hseen hd
  | @visit t u v n names fresh inner rest ihi ihr =>
    have hne : d ≠ n := fun heq => fresh (heq ▸ hseen)
    have hseen' : d ∈ (t.enter g n).seen := (Trail.mem_enter_seen g t n).2 (Or.inr hseen)
    have hinner : d ∉ u.names := by
      refine ihi hseen' ?_
      rw [Trail.enter_names]
      exact hd
    refine ihr (inner.seen_subset hseen') ?_
    simp [Trail.leave, hinner, hne]

end Walk

end OrgWeave
