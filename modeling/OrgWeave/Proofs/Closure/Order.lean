import OrgWeave.Proofs.Closure.Walk

/-!
# The order of a closure

`Trail.Sound g roots path t` is what holds of a trail in the middle of a closure of
`roots`. The names on `path` are entered and not left yet; together with the names that
are in the order already they account for all that is seen, without repetition. A
reference of a name in the order stands before it, itself or through an aggregate, unless
the name is part of what that reference leads back to.

Entering a name and leaving it keep a trail sound (`Sound.enter`, `Sound.leave`), so a walk
does (`Sound.walk`), and a closure starts from the empty trail. `Graph.Closes` says what
this comes to for the closed request (`closes_of_resolve`).
-/

namespace OrgWeave

open OrgWeave.Graph

variable {g : Graph} {roots path : List Text} {t u : Trail} {n : Text}

/-- The names entered so far are those on `path` and those in the order. -/
structure Trail.Sound (g : Graph) (roots path : List Text) (t : Trail) : Prop where
  nodup : (path ++ t.names).Nodup
  mem_seen : ∀ d, d ∈ t.seen ↔ ∃ r ∈ path ++ t.names, g.StandsFor r d
  reached : ∀ r ∈ path ++ t.names, g.ReachedFrom roots r
  ordered : ∀ m ∈ t.names, ∀ d ∈ (g.record m).nested, ∃ r ∈ path ++ t.names,
    g.StandsFor r d ∧ ([r, m].Sublist t.names ∨ g.Reaches r m)
  nodup_spontaneous : t.spontaneous.Nodup
  mem_spontaneous : ∀ r, r ∈ t.spontaneous ↔ r ∈ path ++ t.names ∧ g.spans r = []
  nodup_external : t.external.Nodup
  mem_external : ∀ x, x ∈ t.external ↔ ∃ r ∈ path ++ t.names, x ∈ (g.record r).external

namespace Trail.Sound

theorem empty (g : Graph) (roots : List Text) : Sound g roots [] Trail.empty where
  nodup := by simp [Trail.empty]
  mem_seen := by simp [Trail.empty]
  reached := by simp [Trail.empty]
  ordered := by simp [Trail.empty]
  nodup_spontaneous := by simp [Trail.empty]
  mem_spontaneous := by simp [Trail.empty]
  nodup_external := by simp [Trail.empty]
  mem_external := by simp [Trail.empty]

/-- A name that is not seen is not entered. -/
theorem not_mem_of_fresh (h : Sound g roots path t) (hn : n ∉ t.seen) : n ∉ path ++ t.names :=
  fun hmem => hn ((h.mem_seen n).2 ⟨n, hmem, Or.inl rfl⟩)

/-- Entering a fresh name that the roots lead to. -/
theorem enter (h : Sound g roots path t) (hn : n ∉ t.seen) (hroot : g.ReachedFrom roots n) :
    Sound g roots (n :: path) (t.enter g n) where
  nodup := by
    rw [enter_names, List.cons_append, List.nodup_cons]
    exact ⟨h.not_mem_of_fresh hn, h.nodup⟩
  mem_seen d := by
    rw [mem_enter_seen, h.mem_seen, enter_names, List.cons_append, List.exists_mem_cons_iff]
  reached r hr := by
    rw [enter_names, List.cons_append] at hr
    rcases List.mem_cons.1 hr with rfl | hr
    · exact hroot
    · exact h.reached r hr
  ordered m hm d hd := by
    rw [enter_names] at hm ⊢
    obtain ⟨r, hr, hfor⟩ := h.ordered m hm d hd
    exact ⟨r, List.mem_cons_of_mem n hr, hfor⟩
  nodup_spontaneous := by
    rw [enter_spontaneous]
    split
    · have hnot : n ∉ t.spontaneous :=
        fun hmem => h.not_mem_of_fresh hn ((h.mem_spontaneous n).1 hmem).1
      exact List.nodup_append_comm.1 (List.nodup_cons.2 ⟨hnot, h.nodup_spontaneous⟩)
    · exact h.nodup_spontaneous
  mem_spontaneous r := by
    rw [enter_spontaneous, enter_names, List.cons_append, List.mem_cons]
    by_cases hr : r = n
    · subst hr
      have hnot : r ∉ t.spontaneous :=
        fun hmem => h.not_mem_of_fresh hn ((h.mem_spontaneous r).1 hmem).1
      split <;> simp_all
    · split <;> simp [h.mem_spontaneous, hr]
  nodup_external := by
    rw [enter_external]
    exact nodup_foldl_addExternal h.nodup_external
  mem_external x := by
    rw [enter_external, mem_foldl_addExternal, h.mem_external, enter_names, List.cons_append,
      List.exists_mem_cons_iff, or_comm]

/-- Leaving a name keeps it entered. -/
theorem mem_entered_leave {r : Text} :
    r ∈ path ++ (u.leave n).names ↔ r ∈ n :: path ++ u.names := by
  simp only [Trail.leave, List.mem_append, List.mem_cons, List.not_mem_nil, or_false]
  tauto

/-- Leaving the name at the end of the path, once its references are seen. -/
theorem leave (h : Sound g roots (n :: path) u) (hpath : ∀ m ∈ path, g.Reaches m n)
    (hseen : ∀ d ∈ (g.record n).nested, d ∈ u.seen) : Sound g roots path (u.leave n) where
  nodup := by
    have hperm : (path ++ (u.leave n).names).Perm (n :: path ++ u.names) := by
      rw [Trail.leave, ← List.append_assoc]
      exact List.perm_append_singleton n _
    exact hperm.nodup_iff.2 h.nodup
  mem_seen d := (h.mem_seen d).trans (by simp only [mem_entered_leave])
  reached r hr := h.reached r (mem_entered_leave.1 hr)
  ordered m hm d hd := by
    rcases List.mem_append.1 hm with hm | hm
    · obtain ⟨r, hr, hfor, hbefore⟩ := h.ordered m hm d hd
      exact ⟨r, mem_entered_leave.2 hr, hfor,
        hbefore.imp_left fun hb => hb.trans (List.sublist_append_left _ _)⟩
    · rw [List.mem_singleton.1 hm] at hd ⊢
      obtain ⟨r, hr, hfor⟩ := (h.mem_seen d).1 (hseen d hd)
      refine ⟨r, mem_entered_leave.2 hr, hfor, ?_⟩
      -- `r` is `n` itself, or on the path to it, or left before it
      rcases List.mem_append.1 hr with hr | hr
      · rcases List.mem_cons.1 hr with rfl | hr
        · exact Or.inr Relation.ReflTransGen.refl
        · exact Or.inr (hpath r hr)
      · exact Or.inl ((List.singleton_sublist.2 hr).append (List.Sublist.refl [n]))
  nodup_spontaneous := h.nodup_spontaneous
  mem_spontaneous r := (h.mem_spontaneous r).trans (by rw [mem_entered_leave])
  nodup_external := h.nodup_external
  mem_external x := (h.mem_external x).trans (by simp only [mem_entered_leave])

/-- A walk keeps a trail sound, if the roots and all names on the path lead to what it
visits. -/
theorem walk {names : List Text} (hw : Walk g t names u) (h : Sound g roots path t)
    (hroots : ∀ n ∈ names, g.ReachedFrom roots n)
    (hpath : ∀ m ∈ path, ∀ n ∈ names, g.Reaches m n) : Sound g roots path u := by
  induction hw generalizing path with
  | done => exact h
  | pass _ _ ih =>
    exact ih h (fun m hm => hroots m (List.mem_cons_of_mem _ hm))
      fun m hm k hk => hpath m hm k (List.mem_cons_of_mem _ hk)
  | @visit t u v n names fresh inner rest ihi ihr =>
    have hn := hroots n List.mem_cons_self
    have hpathn : ∀ m ∈ path, g.Reaches m n := fun m hm => hpath m hm n List.mem_cons_self
    have hinner : Sound g roots (n :: path) u := by
      refine ihi (h.enter fresh hn) (fun d hd => ?_) fun m hm d hd => ?_
      · obtain ⟨a, ha, hreach⟩ := hn
        exact ⟨a, ha, hreach.tail hd⟩
      · rcases List.mem_cons.1 hm with rfl | hm
        · exact Relation.ReflTransGen.single hd
        · exact (hpathn m hm).tail hd
    have hseen : ∀ d ∈ (g.record n).nested, d ∈ u.seen := inner.mem_seen
    exact ihr (hinner.leave hpathn hseen) (fun m hm => hroots m (List.mem_cons_of_mem _ hm))
      fun m hm k hk => hpath m hm k (List.mem_cons_of_mem _ hk)

/-- What a walk of the roots from nothing leaves behind is sound. -/
theorem of_walk (hw : Walk g .empty roots t) : Sound g roots [] t :=
  (empty g roots).walk hw (fun n hn => ⟨n, hn, Relation.ReflTransGen.refl⟩) (by simp)

end Trail.Sound

namespace Graph

variable {names external : List Text} {ceiling : Int} {r : Resolution}

theorem resolve_eq_ok : g.resolve names external ceiling = .ok r ↔
    ∃ t, Trail.visitAll (g.visit ceiling (ceiling + 1).toNat) .empty names = .ok t ∧
      (external.foldl Trail.addExternal t).toResolution = r := by
  simp only [resolve, bind_eq_ok, Except.ok.injEq]

/-- A closed request is what a walk from nothing leaves behind, with the requested files. -/
theorem exists_walk_of_resolve (h : g.resolve names external ceiling = .ok r) :
    ∃ t, Walk g .empty names t ∧ r.names = t.names ∧ r.spontaneous = t.spontaneous ∧
      r.external = (external.foldl Trail.addExternal t).external := by
  obtain ⟨t, ht, rfl⟩ := resolve_eq_ok.1 h
  exact ⟨t, walk_of_visitAll ht, Trail.foldl_addExternal_eq Trail.addExternal_names _ t,
    Trail.foldl_addExternal_eq Trail.addExternal_spontaneous _ t, rfl⟩

/-- `r` closes the request of `names` and of the files `external`. -/
structure Closes (g : Graph) (names external : List Text) (r : Resolution) : Prop where
  nodup : r.names.Nodup
  reached : ∀ n ∈ r.names, g.ReachedFrom names n
  requested : ∀ n ∈ names, ∃ a ∈ r.names, g.StandsFor a n
  closed : ∀ n ∈ r.names, ∀ d ∈ (g.record n).nested, ∃ a ∈ r.names, g.StandsFor a d
  /-- What stands for a reference of `n` comes before `n`, or leads back to `n`. -/
  ordered : ∀ n ∈ r.names, ∀ d ∈ (g.record n).nested, ∃ a ∈ r.names,
    g.StandsFor a d ∧ ([a, n].Sublist r.names ∨ g.Reaches a n)
  nodup_spontaneous : r.spontaneous.Nodup
  mem_spontaneous : ∀ n, n ∈ r.spontaneous ↔ n ∈ r.names ∧ g.spans n = []
  nodup_external : r.external.Nodup
  mem_external : ∀ x, x ∈ r.external ↔
    (∃ n ∈ r.names, x ∈ (g.record n).external) ∨ x ∈ external

theorem closes_of_resolve (h : g.resolve names external ceiling = .ok r) :
    g.Closes names external r := by
  obtain ⟨t, hw, hnames, hspontaneous, hexternal⟩ := exists_walk_of_resolve h
  have hs := Trail.Sound.of_walk hw
  have hordered := hs.ordered
  simp only [List.nil_append, ← hnames] at hordered
  refine ⟨?_, ?_, fun n hn => ?_, fun n hn d hd => ?_, hordered, ?_, ?_, ?_, fun x => ?_⟩
  · simpa [hnames] using hs.nodup
  · simpa [hnames] using hs.reached
  · simpa [hnames] using (hs.mem_seen n).1 (hw.mem_seen n hn)
  · obtain ⟨a, ha, hfor, -⟩ := hordered n hn d hd
    exact ⟨a, ha, hfor⟩
  · rw [hspontaneous]
    exact hs.nodup_spontaneous
  · simpa [hnames, hspontaneous] using hs.mem_spontaneous
  · rw [hexternal]
    exact Trail.nodup_foldl_addExternal hs.nodup_external
  · rw [hexternal, Trail.mem_foldl_addExternal, hs.mem_external, List.nil_append, hnames]

/-- If nothing that the request leads to has contributors, the order holds exactly what it
leads to. -/
theorem Closes.mem_names_iff (h : g.Closes names external r)
    (hplain : ∀ n, g.ReachedFrom names n → g.contributors n = []) (n : Text) :
    n ∈ r.names ↔ g.ReachedFrom names n := by
  have hself : ∀ a ∈ r.names, ∀ d, g.StandsFor a d → d ∈ r.names := by
    rintro a ha d (rfl | hd)
    · exact ha
    · rw [hplain a (h.reached a ha)] at hd
      exact absurd hd List.not_mem_nil
  refine ⟨h.reached n, ?_⟩
  rintro ⟨root, hroot, hreach⟩
  induction hreach with
  | refl =>
    obtain ⟨a, ha, hfor⟩ := h.requested root hroot
    exact hself a ha root hfor
  | tail _ hedge ih =>
    obtain ⟨a, ha, hfor⟩ := h.closed _ ih _ hedge
    exact hself a ha _ hfor

/-- A closure that succeeds closes its request, and without contributors it holds exactly
what the request leads to, in whatever order it asks. -/
theorem resolve_closes (h : g.resolve names external ceiling = .ok r) :
    g.Closes names external r ∧
      ((∀ n, g.ReachedFrom names n → g.contributors n = []) →
        ∀ n, n ∈ r.names ↔ g.ReachedFrom names n) :=
  ⟨closes_of_resolve h, (closes_of_resolve h).mem_names_iff⟩

/-- Two names in a circle, one of which refers to an aggregate that refers to one of them
and to its own contributor. -/
def circle : Graph where
  corpus := ⟨[], []⟩
  blocks := [("a".toList, [⟨0, 2, true, by decide⟩])]
  dependencies :=
    [("a".toList, ⟨["x".toList], ["b".toList, "all".toList]⟩), ("b".toList, ⟨[], ["a".toList]⟩),
      ("all".toList, ⟨["y".toList, "x".toList], ["part".toList, "b".toList]⟩)]
  aggregates := [("all".toList, ["part".toList])]
  tangles := []

/-- The same names with the aggregate dissolved. -/
def ring : Graph := { circle with aggregates := [] }

theorem circle_closes :
    (circle.resolve ["a".toList, "part".toList] ["z".toList] 2 = .ok
        ⟨["x".toList, "y".toList, "z".toList], ["b".toList, "all".toList, "a".toList],
          ["b".toList, "all".toList]⟩ ∧
      circle.Closes ["a".toList, "part".toList] ["z".toList]
        ⟨["x".toList, "y".toList, "z".toList], ["b".toList, "all".toList, "a".toList],
          ["b".toList, "all".toList]⟩) ∧
    ring.resolve ["all".toList] [] 2 = .ok
        ⟨["y".toList, "x".toList],
          ["part".toList, "a".toList, "b".toList, "all".toList],
          ["all".toList, "part".toList, "b".toList]⟩ ∧
      ∀ n, n ∈ ["part".toList, "a".toList, "b".toList, "all".toList] ↔
        ring.ReachedFrom ["all".toList] n := by
  have hcircle : circle.resolve ["a".toList, "part".toList] ["z".toList] 2 = .ok
      ⟨["x".toList, "y".toList, "z".toList], ["b".toList, "all".toList, "a".toList],
        ["b".toList, "all".toList]⟩ := by decide
  have hring : ring.resolve ["all".toList] [] 2 = .ok ⟨["y".toList, "x".toList],
      ["part".toList, "a".toList, "b".toList, "all".toList],
      ["all".toList, "part".toList, "b".toList]⟩ := by decide
  have hplain : ∀ n, ring.ReachedFrom ["all".toList] n → ring.contributors n = [] :=
    fun _ _ => rfl
  exact ⟨⟨hcircle, (resolve_closes hcircle).1⟩, hring, (resolve_closes hring).2 hplain⟩

end Graph

end OrgWeave
