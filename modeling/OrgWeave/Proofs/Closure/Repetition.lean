import OrgWeave.Proofs.Closure.Ceiling
import OrgWeave.Proofs.Closure.Order

/-!
# Requests that go on

A trail only grows : whatever a walk does, it appends to the three lists that it collects
(`Walk.grows`). So a request that goes on with more names starts with what it comes to without
them, and names that are in the order already add nothing (`resolve_append`).

Where no references go round in a circle and nothing is printed with an aggregate, all that a
name refers to stands in front of it. A request of such an order finds, name by name, that all
references are seen, and so comes to the same order without going down a single level
(`resolve_names_again`).
-/

namespace OrgWeave

open OrgWeave.Graph

variable {g : Graph} {t u v : Trail} {names : List Text}

/-! ## Growing trails -/

namespace Trail

/-- `u` has collected what `t` has, in the same order, and all else behind it. -/
structure Grows (t u : Trail) : Prop where
  external : t.external <+: u.external
  names : t.names <+: u.names
  spontaneous : t.spontaneous <+: u.spontaneous

namespace Grows

theorem refl (t : Trail) : Grows t t := ⟨List.prefix_rfl, List.prefix_rfl, List.prefix_rfl⟩

theorem trans (h : Grows t u) (h' : Grows u v) : Grows t v where
  external := h.external.trans h'.external
  names := h.names.trans h'.names
  spontaneous := h.spontaneous.trans h'.spontaneous

end Grows

theorem prefix_foldl_addExternal (refs : List Text) :
    ∀ t : Trail, t.external <+: (refs.foldl addExternal t).external := by
  induction refs with
  | nil => exact fun t => List.prefix_rfl
  | cons ref refs ih =>
    intro t
    refine List.IsPrefix.trans ?_ (ih _)
    rw [addExternal]
    split
    · exact List.prefix_rfl
    · exact List.prefix_append _ _

theorem grows_enter (g : Graph) (t : Trail) (n : Text) : Grows t (t.enter g n) where
  external := prefix_foldl_addExternal _ t
  names := ⟨[], (List.append_nil _).trans (enter_names g t n).symm⟩
  spontaneous := by
    rw [enter_spontaneous]
    split
    · exact List.prefix_append _ _
    · exact List.prefix_rfl

theorem grows_leave (t : Trail) (n : Text) : Grows t (t.leave n) where
  external := List.prefix_rfl
  names := List.prefix_append _ _
  spontaneous := List.prefix_rfl

end Trail

/-- A walk appends to what is collected. -/
theorem Walk.grows (h : Walk g t names u) : t.Grows u := by
  induction h with
  | done => exact .refl _
  | pass _ _ ih => exact ih
  | visit _ _ _ ihi ihr =>
    exact ((Trail.grows_enter g _ _).trans ihi).trans ((Trail.grows_leave _ _).trans ihr)

namespace Graph

variable {external : List Text} {ceiling : Int} {r : Resolution}

/-- A request that goes on fails as it does without the further names, or starts with what it
comes to without them. Names that are in the order add nothing. -/
theorem resolve_append (g : Graph) (names others : List Text) (ceiling : Int) :
    (∀ e, g.resolve names [] ceiling = .error e →
      g.resolve (names ++ others) [] ceiling = .error e) ∧
    ∀ r, g.resolve names [] ceiling = .ok r →
      (∀ r', g.resolve (names ++ others) [] ceiling = .ok r' →
        r.external <+: r'.external ∧ r.names <+: r'.names ∧ r.spontaneous <+: r'.spontaneous) ∧
      ((∀ n ∈ others, n ∈ r.names) → g.resolve (names ++ others) [] ceiling = .ok r) := by
  refine ⟨fun e h => ?_, fun r h => ?_⟩
  · rcases bind_eq_error.1 h with hvisits | ⟨t, -, hdone⟩
    · refine bind_eq_error.2 (Or.inl ?_)
      rw [Trail.visitAll_append]
      exact bind_eq_error.2 (Or.inl hvisits)
    · cases hdone
  · obtain ⟨t, ht, rfl⟩ := resolve_eq_ok.1 h
    refine ⟨fun r' h' => ?_, fun hothers => ?_⟩
    · obtain ⟨u, hu, rfl⟩ := resolve_eq_ok.1 h'
      rw [Trail.visitAll_append] at hu
      obtain ⟨v, hv, hu⟩ := bind_eq_ok.1 hu
      cases ht.symm.trans hv
      have hgrows := (walk_of_visitAll hu).grows
      exact ⟨hgrows.external, hgrows.names, hgrows.spontaneous⟩
    · have hseen : ∀ n ∈ others, n ∈ t.seen := fun n hn =>
        ((Trail.Sound.of_walk (walk_of_visitAll ht)).mem_seen n).2 ⟨n, hothers n hn, Or.inl rfl⟩
      refine resolve_eq_ok.2 ⟨t, ?_, rfl⟩
      rw [Trail.visitAll_append]
      exact bind_eq_ok.2 ⟨t, ht, visitAll_of_seen hseen⟩

/-- Names without circles. -/
def picnic : Graph where
  corpus := ⟨[], []⟩
  blocks := [("pie".toList, [⟨2, 9, true, by decide⟩])]
  dependencies :=
    [("pie".toList, ⟨["knife".toList], ["dough".toList, "fruit".toList]⟩),
      ("dough".toList, ⟨["bowl".toList], ["flour".toList]⟩),
      ("bread".toList, ⟨["bowl".toList, "oven".toList], ["flour".toList, "dough".toList]⟩)]
  aggregates := []
  tangles := []

/-- The closure of the pie. -/
def pieClosure : Resolution where
  external := ["knife".toList, "bowl".toList]
  names := ["flour".toList, "dough".toList, "fruit".toList, "pie".toList]
  spontaneous := ["dough".toList, "flour".toList, "fruit".toList]

/-- The closure of the pie and the bread. -/
def picnicClosure : Resolution where
  external := ["knife".toList, "bowl".toList, "oven".toList]
  names := ["flour".toList, "dough".toList, "fruit".toList, "pie".toList, "bread".toList]
  spontaneous := ["dough".toList, "flour".toList, "fruit".toList, "bread".toList]

theorem picnic_append :
    (picnic.resolve ["pie".toList] [] 0 = .error (.depthExceeded .resolution 0 "dough".toList) ∧
      picnic.resolve (["pie".toList] ++ ["bread".toList]) [] 0 =
        .error (.depthExceeded .resolution 0 "dough".toList)) ∧
    picnic.resolve ["pie".toList] [] 2 = .ok pieClosure ∧
      (picnic.resolve (["pie".toList] ++ ["bread".toList]) [] 2 = .ok picnicClosure ∧
        pieClosure.external <+: picnicClosure.external ∧
        pieClosure.names <+: picnicClosure.names ∧
        pieClosure.spontaneous <+: picnicClosure.spontaneous) ∧
      picnic.resolve (["pie".toList] ++ ["fruit".toList, "dough".toList]) [] 2 =
        .ok pieClosure := by
  have hstopped : picnic.resolve ["pie".toList] [] 0 =
      .error (.depthExceeded .resolution 0 "dough".toList) := by decide
  have hpie : picnic.resolve ["pie".toList] [] 2 = .ok pieClosure := by decide
  have hpicnic : picnic.resolve (["pie".toList] ++ ["bread".toList]) [] 2 =
      .ok picnicClosure := by decide
  exact ⟨⟨hstopped, (resolve_append _ _ _ 0).1 _ hstopped⟩, hpie,
    ⟨hpicnic, ((resolve_append _ _ _ 2).2 _ hpie).1 _ hpicnic⟩,
    ((resolve_append _ _ _ 2).2 _ hpie).2 (by decide)⟩

/-! ## Orders that are requested again -/

/-- All that a name of the list refers to stands in front of it. -/
def InOrder (g : Graph) (names : List Text) : Prop :=
  ∀ before n after, names = before ++ n :: after → ∀ d ∈ (g.record n).nested, d ∈ before

/-- What stands before a name that is not repeated is in front of it. -/
theorem mem_of_pair_sublist {before after : List Text} {d n : Text}
    (hnodup : (before ++ n :: after).Nodup) (h : [d, n].Sublist (before ++ n :: after)) :
    d ∈ before := by
  obtain ⟨front, back, hpair, hfront, hback⟩ := List.sublist_append_iff.1 h
  cases front with
  | cons m front =>
    obtain ⟨rfl, -⟩ := List.cons.inj hpair
    exact hfront.subset List.mem_cons_self
  | nil =>
    -- otherwise `n` would stand behind itself
    have hn : n ∉ after := (List.nodup_cons.1 (List.nodup_append.1 hnodup).2.1).1
    rw [List.nil_append] at hpair
    rw [← hpair] at hback
    have hafter : [n].Sublist after := by
      rcases List.sublist_cons_iff.1 hback with hback | ⟨_, heq, hback⟩
      · exact (List.sublist_cons_self d [n]).trans hback
      · cases heq
        exact hback
    exact absurd (List.singleton_sublist.1 hafter) hn

/-- A closure without circles and contributors puts all that a name refers to in front of it. -/
theorem Closes.inOrder (h : g.Closes names external r)
    (hacyclic : ∀ n, g.ReachedFrom names n → ¬Relation.TransGen g.Edge n n)
    (hplain : ∀ n, g.ReachedFrom names n → g.contributors n = []) : g.InOrder r.names := by
  intro before n after hnames d hd
  have hn : n ∈ r.names := by simp [hnames]
  obtain ⟨a, ha, hfor, horder⟩ := h.ordered n hn d hd
  obtain rfl : d = a := hfor.resolve_right (by simp [hplain a (h.reached a ha)])
  rcases horder with hbefore | hcircle
  · have hnodup := h.nodup
    rw [hnames] at hnodup hbefore
    exact mem_of_pair_sublist hnodup hbefore
  · exact absurd (Relation.TransGen.head' hd hcircle) (hacyclic n (h.reached n hn))

/-- Visits of names in order, of which those in `before` are seen, put them into the order as
they are. -/
theorem exists_visitAll_inOrder {levels : Nat} {before after : List Text}
    (hnodup : (before ++ after).Nodup) (hplain : ∀ n ∈ after, g.contributors n = [])
    (horder : g.InOrder (before ++ after)) (hseen : ∀ d, d ∈ t.seen ↔ d ∈ before) :
    ∃ u, Trail.visitAll (g.visit ceiling (levels + 1)) t after = .ok u ∧
      u.names = t.names ++ after := by
  induction after generalizing before t with
  | nil => exact ⟨t, rfl, (List.append_nil _).symm⟩
  | cons n after ih =>
    have hfresh : n ∉ t.seen := fun hmem =>
      (List.nodup_append.1 hnodup).2.2 n ((hseen n).1 hmem) n List.mem_cons_self rfl
    have hnested : ∀ d ∈ (g.record n).nested, d ∈ (t.enter g n).seen := fun d hd =>
      (Trail.mem_enter_seen g t n).2 (Or.inr ((hseen d).2 (horder before n after rfl d hd)))
    have hvisit : g.visit ceiling (levels + 1) t n = .ok ((t.enter g n).leave n) :=
      visit_eq_ok.2 (Or.inr ⟨hfresh, levels, _, rfl, visitAll_of_seen hnested, rfl⟩)
    have hnext : ∀ d, d ∈ ((t.enter g n).leave n).seen ↔ d ∈ before ++ [n] := by
      intro d
      refine (Trail.mem_enter_seen g t n).trans ?_
      simp [StandsFor, hplain n List.mem_cons_self, hseen, or_comm]
    rw [List.append_cons] at hnodup horder
    obtain ⟨u, hu, hnames⟩ := ih hnodup (fun m hm => hplain m (List.mem_cons_of_mem n hm)) horder
      hnext
    refine ⟨u, bind_eq_ok.2 ⟨_, hvisit, hu⟩, ?_⟩
    rw [hnames, Trail.leave, Trail.enter_names, List.append_assoc]
    rfl

/-- Where references do not go round in a circle and nothing has contributors, a request of the
names in the order of a closure has the same order, under every ceiling. -/
theorem resolve_names_again (h : g.resolve names external ceiling = .ok r)
    (hacyclic : ∀ n, g.ReachedFrom names n → ¬Relation.TransGen g.Edge n n)
    (hplain : ∀ n, g.ReachedFrom names n → g.contributors n = []) (others : List Text)
    {depth : Int} (hdepth : 0 ≤ depth) :
    ∃ r', g.resolve r.names others depth = .ok r' ∧ r'.names = r.names := by
  have hcloses := closes_of_resolve h
  obtain ⟨levels, rfl⟩ := Int.eq_ofNat_of_zero_le hdepth
  have hnodup : ([] ++ r.names).Nodup := hcloses.nodup
  have horder : g.InOrder ([] ++ r.names) := hcloses.inOrder hacyclic hplain
  have hwalk : ∃ u, Trail.visitAll (g.visit levels (levels + 1)) .empty r.names = .ok u ∧
      u.names = Trail.empty.names ++ r.names :=
    exists_visitAll_inOrder hnodup (fun n hn => hplain n (hcloses.reached n hn)) horder
      (by simp [Trail.empty])
  obtain ⟨t, ht, hnames⟩ := hwalk
  refine ⟨_, resolve_eq_ok.2 ⟨t, ht, rfl⟩, ?_⟩
  exact (Trail.foldl_addExternal_eq Trail.addExternal_names others t).trans hnames

/-- Where each reference leads to a lower name, all that references lead to is lower. -/
theorem lower_of_transGen {rank : Text → Nat} (h : ∀ a b, g.Edge a b → rank b < rank a)
    {a b : Text} (hab : Relation.TransGen g.Edge a b) : rank b < rank a := by
  induction hab with
  | single hb => exact h _ _ hb
  | tail _ hb ih => exact Nat.lt_trans (h _ _ hb) ih

/-- The picnic in its order needs no level below the names that are asked for. -/
theorem picnic_again :
    picnic.resolve ["pie".toList, "bread".toList] ["cloth".toList] 2 =
        .ok { picnicClosure with external := picnicClosure.external ++ ["cloth".toList] } ∧
      (∀ n, picnic.ReachedFrom ["pie".toList, "bread".toList] n →
        ¬Relation.TransGen picnic.Edge n n ∧ picnic.contributors n = []) ∧
      ∃ r, picnic.resolve picnicClosure.names [] 0 = .ok r ∧ r.names = picnicClosure.names := by
  have hpicnic : picnic.resolve ["pie".toList, "bread".toList] ["cloth".toList] 2 =
      .ok { picnicClosure with external := picnicClosure.external ++ ["cloth".toList] } := by
    decide
  have hkeys : ∀ a ∈ picnic.dependencies.keys, ∀ b ∈ (picnic.record a).nested,
      picnicClosure.names.idxOf b < picnicClosure.names.idxOf a := by decide
  -- references lead to names that stand earlier in the order
  have hlower : ∀ a b, picnic.Edge a b →
      picnicClosure.names.idxOf b < picnicClosure.names.idxOf a := by
    intro a b hb
    by_cases ha : a ∈ picnic.dependencies.keys
    · exact hkeys a ha b hb
    · rw [Edge, nested_eq_nil ha] at hb
      exact absurd hb List.not_mem_nil
  have hacyclic : ∀ n, ¬Relation.TransGen picnic.Edge n n := fun n h =>
    Nat.lt_irrefl _ (lower_of_transGen hlower h)
  have hplain : ∀ n, picnic.contributors n = [] := fun _ => rfl
  exact ⟨hpicnic, fun n _ => ⟨hacyclic n, hplain n⟩,
    resolve_names_again hpicnic (fun n _ => hacyclic n) (fun n _ => hplain n) []
      (Int.le_refl 0)⟩

end Graph

end OrgWeave
