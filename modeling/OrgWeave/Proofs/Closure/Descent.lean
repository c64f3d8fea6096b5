import OrgWeave.Proofs.Closure.Order
import Mathlib.Data.List.Chain
import Mathlib.Data.List.Perm.Subperm

/-!
# How far closures go down

The names that a closure has entered and not left stand one below another : the first one is
requested, each refers to the next one, and since a name counts as seen once it is entered, no
two of them are the same. `Graph.Descent` says this of a list of names.

A visit stands at the lower end of a descent, with as many levels left as the ceiling allows
below it. What stops it is the end of a descent that is one level too long
(`exists_descent_of_visitAll_eq_error`), and what it puts into the order ends a descent within
the ceiling (`exists_descent_of_visitAll_eq_ok`). So a ceiling is in the way of a request only
if there is a descent below it, and references that go round in a circle are not enough for that
(`resolve_descends`).
-/

namespace OrgWeave

open OrgWeave.Graph

variable {g : Graph} {roots : List Text}

namespace Graph

/-! ## Descents -/

/-- References lead down the names : the first one is a root, each name refers to the next one,
and no name comes twice. -/
structure Descent (g : Graph) (roots names : List Text) : Prop where
  starts : ∃ a ∈ roots, names.head? = some a
  linked : names.IsChain g.Edge
  nodup : names.Nodup

namespace Descent

variable {above : List Text} {n d : Text}

theorem root (h : n ∈ roots) : g.Descent roots [n] where
  starts := ⟨n, h, rfl⟩
  linked := List.isChain_singleton n
  nodup := List.nodup_singleton n

/-- A descent goes on to a reference that is not on it. -/
theorem step (h : g.Descent roots (above ++ [n])) (hd : g.Edge n d) (hnew : d ∉ above ++ [n]) :
    g.Descent roots (above ++ [n] ++ [d]) where
  starts := by
    obtain ⟨a, ha, hhead⟩ := h.starts
    exact ⟨a, ha, by rw [List.head?_append, hhead, Option.some_or]⟩
  linked := by
    refine List.isChain_append.2 ⟨h.linked, List.isChain_singleton d, ?_⟩
    simpa using hd
  nodup := List.nodup_append_comm.1 (List.nodup_cons.2 ⟨hnew, h.nodup⟩)

/-- The roots lead to all names of a descent. -/
theorem reached {names : List Text} (h : g.Descent roots names) :
    ∀ n ∈ names, g.ReachedFrom roots n := by
  obtain ⟨⟨a, ha, hhead⟩, hlinked, -⟩ := h
  refine hlinked.induction (g.ReachedFrom roots) names ?_ fun hne => ?_
  · rintro n d hd ⟨r, hr, hreach⟩
    exact ⟨r, hr, hreach.tail hd⟩
  · rw [List.head?_eq_some_head hne, Option.some.injEq] at hhead
    exact ⟨a, ha, hhead ▸ Relation.ReflTransGen.refl⟩

end Descent

/-! ## Visits that fail -/

variable {ceiling : Int} {levels : Nat} {t u : Trail} {names above : List Text} {n : Text}
  {e : Error}

/-- A run over names fails as the visit of one of them does, after the visits of those in front
of it. -/
theorem visitAll_eq_error {f : Trail → Text → Except Error Trail}
    (h : Trail.visitAll f t names = .error e) :
    ∃ before n after u, names = before ++ n :: after ∧ Trail.visitAll f t before = .ok u ∧
      f u n = .error e := by
  induction names generalizing t with
  | nil => cases h
  | cons m names ih =>
    rcases bind_eq_error.1 h with hm | ⟨v, hv, hrest⟩
    · exact ⟨[], m, names, t, rfl, rfl, hm⟩
    · obtain ⟨before, n, after, u, rfl, hbefore, hn⟩ := ih hrest
      exact ⟨m :: before, n, after, u, rfl, bind_eq_ok.2 ⟨v, hv, hbefore⟩, hn⟩

/-- A visit that fails is of a name that is not seen, and either has no level left for it or
fails below it. -/
theorem visit_eq_error (h : g.visit ceiling levels t n = .error e) : n ∉ t.seen ∧
    ((levels = 0 ∧ e = .depthExceeded .resolution ceiling n) ∨ ∃ k, levels = k + 1 ∧
      Trail.visitAll (g.visit ceiling k) (t.enter g n) (g.record n).nested = .error e) := by
  by_cases hseen : n ∈ t.seen
  · cases levels <;> simp [visit, hseen] at h
  · refine ⟨hseen, ?_⟩
    cases levels with
    | zero =>
      rw [visit, if_neg hseen] at h
      cases h
      exact Or.inl ⟨rfl, rfl⟩
    | succ k =>
      rw [visit, if_neg hseen] at h
      rcases bind_eq_error.1 h with hinner | ⟨v, -, hleave⟩
      · exact Or.inr ⟨k, rfl, hinner⟩
      · cases hleave

/-! ## Visits at the end of a descent -/

/-- The trail has seen the names of `above`, and `names` are roots or references that go on from
there, as far as they are not seen. -/
structure Below (g : Graph) (roots above : List Text) (t : Trail) (names : List Text) : Prop where
  seen : above ⊆ t.seen
  descends : ∀ n ∈ names, n ∉ t.seen → g.Descent roots (above ++ [n])

namespace Below

theorem start (g : Graph) (roots : List Text) : g.Below roots [] .empty roots where
  seen := List.nil_subset _
  descends _ hn _ := .root hn

/-- The references of a name that is entered go on from it. -/
theorem enter (h : g.Below roots above t names) (hn : n ∈ names) (hfresh : n ∉ t.seen) :
    g.Below roots (above ++ [n]) (t.enter g n) (g.record n).nested where
  seen d hd := by
    rw [Trail.mem_enter_seen]
    rcases List.mem_append.1 hd with hd | hd
    · exact Or.inr (h.seen hd)
    · exact Or.inl (Or.inl (List.mem_singleton.1 hd))
  descends d hd hnew := by
    rw [Trail.mem_enter_seen, not_or] at hnew
    refine (h.descends n hn hfresh).step hd fun hmem => ?_
    rcases List.mem_append.1 hmem with hmem | hmem
    · exact hnew.2 (h.seen hmem)
    · exact hnew.1 (Or.inl (List.mem_singleton.1 hmem))

/-- A walk that sees more leaves what is to be visited where it is. -/
theorem later (h : g.Below roots above t names) (hseen : t.seen ⊆ u.seen) :
    g.Below roots above u names where
  seen _ hd := hseen (h.seen hd)
  descends n hn hnew := h.descends n hn fun hmem => hnew (hseen hmem)

theorem tail (h : g.Below roots above t (n :: names)) : g.Below roots above t names where
  seen := h.seen
  descends d hd := h.descends d (List.mem_cons_of_mem n hd)

end Below

/-- What stops visits is the end of a descent that is as long as there are levels, and one name
more. -/
theorem exists_descent_of_visitAll_eq_error (hbelow : g.Below roots above t names)
    (h : Trail.visitAll (g.visit ceiling levels) t names = .error e) :
    ∃ path x, e = .depthExceeded .resolution ceiling x ∧ g.Descent roots (path ++ [x]) ∧
      path.length = above.length + levels := by
  induction levels using Nat.strong_induction_on generalizing t names above with
  | _ levels ih =>
    obtain ⟨before, n, after, u, rfl, hbefore, hn⟩ := visitAll_eq_error h
    have hmem : n ∈ before ++ n :: after := List.mem_append_right before List.mem_cons_self
    have hu := hbelow.later (walk_of_visitAll hbefore).seen_subset
    obtain ⟨hfresh, ⟨rfl, rfl⟩ | ⟨k, rfl, hinner⟩⟩ := visit_eq_error hn
    · exact ⟨above, n, rfl, hu.descends n hmem hfresh, rfl⟩
    · obtain ⟨path, x, he, hdescent, hlength⟩ :=
        ih k (Nat.lt_succ_self k) (hu.enter hmem hfresh) hinner
      refine ⟨path, x, he, hdescent, ?_⟩
      rw [hlength, List.length_append, List.length_singleton]
      omega

/-- What visits put into the order ends a descent that is no longer than there are levels. -/
theorem exists_descent_of_visitAll_eq_ok (hbelow : g.Below roots above t names)
    (h : Trail.visitAll (g.visit ceiling levels) t names = .ok u) :
    ∀ m ∈ u.names, m ∈ t.names ∨
      ∃ path, g.Descent roots (path ++ [m]) ∧ path.length < above.length + levels := by
  induction levels using Nat.strong_induction_on generalizing t u names above with
  | _ levels ihl =>
    induction names generalizing t with
    | nil =>
      cases h
      exact fun m hm => Or.inl hm
    | cons n names ih =>
      obtain ⟨v, hn, hrest⟩ := bind_eq_ok.1 h
      have hwalk : Walk g t [n] v := walk_of_visitAll (bind_eq_ok.2 ⟨v, hn, rfl⟩)
      intro m hm
      refine (ih (hbelow.tail.later hwalk.seen_subset) hrest m hm).elim (fun hm => ?_) Or.inr
      obtain ⟨-, rfl⟩ | ⟨hfresh, k, w, rfl, hinner, rfl⟩ := visit_eq_ok.1 hn
      · exact Or.inl hm
      · -- `m` is left below `n`, or is `n` itself
        rcases List.mem_append.1 hm with hm | hm
        · have hw := ihl k (Nat.lt_succ_self k) (hbelow.enter List.mem_cons_self hfresh) hinner m hm
          rw [Trail.enter_names] at hw
          refine hw.imp_right fun ⟨path, hdescent, hlt⟩ => ⟨path, hdescent, ?_⟩
          rw [List.length_append, List.length_singleton] at hlt
          omega
        · rw [List.mem_singleton.1 hm]
          refine Or.inr ⟨above, hbelow.descends n List.mem_cons_self hfresh, ?_⟩
          omega

/-! ## Requests -/

/-- A closure that fails was stopped at the end of a descent with one level more than the ceiling
allows, so that it succeeds if all descents are within the ceiling. All names in its order end
descents within the ceiling. -/
theorem resolve_descends (g : Graph) (names external : List Text) (ceiling : Nat) :
    (∀ e, g.resolve names external ceiling = .error e → ∃ path x,
      e = .depthExceeded .resolution ceiling x ∧ g.Descent names (path ++ [x]) ∧
        path.length = ceiling + 1) ∧
    ((∀ path x, g.Descent names (path ++ [x]) → path.length ≤ ceiling) →
      ∃ r, g.resolve names external ceiling = .ok r) ∧
    ∀ r, g.resolve names external ceiling = .ok r → ∀ n ∈ r.names,
      ∃ path, g.Descent names (path ++ [n]) ∧ path.length ≤ ceiling := by
  have hlevels : ((ceiling : Int) + 1).toNat = ceiling + 1 := rfl
  have hfails : ∀ e, g.resolve names external ceiling = .error e → ∃ path x,
      e = .depthExceeded .resolution ceiling x ∧ g.Descent names (path ++ [x]) ∧
        path.length = ceiling + 1 := by
    intro e h
    rcases bind_eq_error.1 h with hvisits | ⟨t, -, hdone⟩
    · obtain ⟨path, x, he, hdescent, hlength⟩ :=
        exists_descent_of_visitAll_eq_error (Below.start g names) hvisits
      refine ⟨path, x, he, hdescent, ?_⟩
      rw [hlength, hlevels, List.length_nil, Nat.zero_add]
    · cases hdone
  refine ⟨hfails, fun hshort => ?_, fun r h n hn => ?_⟩
  · cases hr : g.resolve names external ceiling with
    | ok r => exact ⟨r, rfl⟩
    | error e =>
      obtain ⟨path, x, -, hdescent, hlength⟩ := hfails e hr
      have := hshort path x hdescent
      omega
  · obtain ⟨t, ht, rfl⟩ := resolve_eq_ok.1 h
    have hnames : n ∈ t.names := by
      rwa [← Trail.foldl_addExternal_eq Trail.addExternal_names external t]
    rcases exists_descent_of_visitAll_eq_ok (Below.start g names) ht n hnames with
      hempty | ⟨path, hdescent, hlt⟩
    · cases hempty
    · refine ⟨path, hdescent, ?_⟩
      rw [hlevels, List.length_nil] at hlt
      omega

/-- Under the lowest ceiling `circle` is stopped at its first reference. It has no more than four
names to go down, so that a ceiling of three is in nobody's way, and its order ends descents of a
single reference. -/
theorem circle_descends :
    (circle.resolve ["a".toList] [] 0 = .error (.depthExceeded .resolution 0 "b".toList) ∧
      ∃ path, circle.Descent ["a".toList] (path ++ ["b".toList]) ∧ path.length = 1) ∧
    ((∀ path x, circle.Descent ["a".toList] (path ++ [x]) → path.length ≤ 3) ∧
      ∃ r, circle.resolve ["a".toList] [] 3 = .ok r) ∧
    circle.resolve ["a".toList] [] 1 = .ok ⟨["x".toList, "y".toList],
        ["b".toList, "all".toList, "a".toList], ["b".toList, "all".toList]⟩ ∧
      ∀ n ∈ ["b".toList, "all".toList, "a".toList],
        ∃ path, circle.Descent ["a".toList] (path ++ [n]) ∧ path.length ≤ 1 := by
  have hstopped : circle.resolve ["a".toList] [] 0 =
      .error (.depthExceeded .resolution 0 "b".toList) := by decide
  have hclosed : circle.resolve ["a".toList] [] 1 = .ok ⟨["x".toList, "y".toList],
      ["b".toList, "all".toList, "a".toList], ["b".toList, "all".toList]⟩ := by decide
  have hedges : ∀ n ∈ ["a".toList, "b".toList, "all".toList, "part".toList],
      ∀ d ∈ (circle.record n).nested,
        d ∈ ["a".toList, "b".toList, "all".toList, "part".toList] := by decide
  have hreached : ∀ n, circle.ReachedFrom ["a".toList] n →
      n ∈ ["a".toList, "b".toList, "all".toList, "part".toList] := by
    rintro n ⟨a, ha, hreach⟩
    induction hreach with
    | refl =>
      rw [List.mem_singleton.1 ha]
      decide
    | tail _ hd ih => exact hedges _ ih _ hd
  have hshort : ∀ path x, circle.Descent ["a".toList] (path ++ [x]) → path.length ≤ 3 := by
    intro path x hdescent
    have hle := (hdescent.nodup.subperm
      fun n hn => hreached n (hdescent.reached n hn)).length_le
    rw [List.length_append, List.length_singleton] at hle
    exact Nat.le_of_succ_le_succ hle
  refine ⟨⟨hstopped, ?_⟩, ⟨hshort, (resolve_descends circle _ _ 3).2.1 hshort⟩, hclosed,
    (resolve_descends circle _ _ 1).2.2 _ hclosed⟩
  obtain ⟨path, x, he, hdescent, hlength⟩ := (resolve_descends circle _ _ 0).1 _ hstopped
  cases he
  exact ⟨path, hdescent, hlength⟩

end Graph

end OrgWeave
