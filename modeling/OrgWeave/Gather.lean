/-!
# Gathering

`gather f` runs `f` on every item of a list and puts the outcomes one after another. The
first failure, from the left, is the failure of the whole.
-/

namespace OrgWeave

variable {ε α β : Type}

/-- Two steps succeed exactly when the first one does and the second one does after it. -/
theorem bind_eq_ok {x : Except ε α} {f : α → Except ε β} {b : β} :
    x >>= f = .ok b ↔ ∃ a, x = .ok a ∧ f a = .ok b := by
  cases x with
  | error e => simp [bind, Except.bind]
  | ok a => simp [bind, Except.bind]

/-- Two steps fail as the first one does, or as the second one does after it. -/
theorem bind_eq_error {x : Except ε α} {f : α → Except ε β} {e : ε} :
    x >>= f = .error e ↔ x = .error e ∨ ∃ a, x = .ok a ∧ f a = .error e := by
  cases x with
  | error e' => simp [bind, Except.bind]
  | ok a => simp [bind, Except.bind]

theorem map_eq_ok {x : Except ε α} {f : α → β} {b : β} :
    x.map f = .ok b ↔ ∃ a, x = .ok a ∧ f a = b := by
  cases x with
  | error e => simp [Except.map]
  | ok a => simp [Except.map]

theorem map_eq_error {x : Except ε α} {f : α → β} {e : ε} : x.map f = .error e ↔ x = .error e := by
  cases x <;> simp [Except.map]

/-- Two computations that look the same through `f` fail alike, or succeed with results that look
the same. -/
theorem cases_of_map_eq_map {f : α → β} {x x' : Except ε α} (h : x'.map f = x.map f) :
    (∃ e, x = .error e ∧ x' = .error e) ∨ ∃ a a', x = .ok a ∧ x' = .ok a' ∧ f a' = f a := by
  cases x with
  | error e =>
    cases x' with
    | error e' =>
      cases h
      exact Or.inl ⟨e, rfl, rfl⟩
    | ok a' => cases h
  | ok a =>
    cases x' with
    | error e' => cases h
    | ok a' => exact Or.inr ⟨a, a', rfl, rfl, Except.ok.inj h⟩

/-- The outcomes of `f` on every item, one after another; the first failure wins. -/
def gather (f : α → Except ε (List β)) : List α → Except ε (List β)
  | [] => .ok []
  | a :: as => do
    let head ← f a
    let tail ← gather f as
    .ok (head ++ tail)

theorem gather_cons_eq_ok {f : α → Except ε (List β)} {a : α} {as : List α} {bs : List β} :
    gather f (a :: as) = .ok bs ↔
      ∃ head tail, f a = .ok head ∧ gather f as = .ok tail ∧ bs = head ++ tail := by
  simp only [gather, bind_eq_ok, Except.ok.injEq, eq_comm (a := bs)]
  constructor
  · rintro ⟨head, hhead, tail, htail, heq⟩
    exact ⟨head, tail, hhead, htail, heq⟩
  · rintro ⟨head, tail, hhead, htail, heq⟩
    exact ⟨head, hhead, tail, htail, heq⟩

/-- Gathering succeeds if it does on every item. -/
theorem exists_gather {f : α → Except ε (List β)} {as : List α}
    (h : ∀ a ∈ as, ∃ bs, f a = .ok bs) : ∃ bs, gather f as = .ok bs := by
  induction as with
  | nil => exact ⟨[], rfl⟩
  | cons a as ih =>
    obtain ⟨head, hhead⟩ := h a List.mem_cons_self
    obtain ⟨tail, htail⟩ := ih fun b hb => h b (List.mem_cons_of_mem a hb)
    exact ⟨head ++ tail, gather_cons_eq_ok.2 ⟨head, tail, hhead, htail, rfl⟩⟩

/-- Functions that agree on the items gather the same. -/
theorem gather_congr {f f' : α → Except ε (List β)} {as : List α} (h : ∀ a ∈ as, f a = f' a) :
    gather f as = gather f' as := by
  induction as with
  | nil => rfl
  | cons a as ih =>
    rw [gather, gather, h a List.mem_cons_self, ih fun b hb => h b (List.mem_cons_of_mem a hb)]

/-- What `f` gives for an item stands in one piece in what is gathered. -/
theorem infix_of_gather {f : α → Except ε (List β)} {a : α} {as : List α} {bs : List β}
    (h : gather f as = .ok bs) (ha : a ∈ as) : ∃ cs, f a = .ok cs ∧ cs <:+: bs := by
  induction as generalizing bs with
  | nil => exact absurd ha List.not_mem_nil
  | cons b as ih =>
    obtain ⟨head, tail, hhead, htail, rfl⟩ := gather_cons_eq_ok.1 h
    rcases List.mem_cons.1 ha with rfl | ha
    · exact ⟨head, hhead, (List.prefix_append head tail).isInfix⟩
    · obtain ⟨cs, hcs, hinfix⟩ := ih htail ha
      exact ⟨cs, hcs, hinfix.trans (List.suffix_append head tail).isInfix⟩

/-- Gathering succeeds exactly if it does on every item. -/
theorem exists_gather_iff {f : α → Except ε (List β)} {as : List α} :
    (∃ bs, gather f as = .ok bs) ↔ ∀ a ∈ as, ∃ bs, f a = .ok bs := by
  refine ⟨?_, exists_gather⟩
  rintro ⟨bs, hbs⟩ a ha
  obtain ⟨cs, hcs, -⟩ := infix_of_gather hbs ha
  exact ⟨cs, hcs⟩

/-- What is gathered comes from some item. -/
theorem exists_of_mem_gather {f : α → Except ε (List β)} {as : List α} {bs : List β} {b : β}
    (h : gather f as = .ok bs) (hb : b ∈ bs) : ∃ a ∈ as, ∃ cs, f a = .ok cs ∧ b ∈ cs := by
  induction as generalizing bs with
  | nil =>
    cases h
    exact absurd hb List.not_mem_nil
  | cons a as ih =>
    obtain ⟨head, tail, hhead, htail, rfl⟩ := gather_cons_eq_ok.1 h
    rcases List.mem_append.1 hb with hb | hb
    · exact ⟨a, List.mem_cons_self, head, hhead, hb⟩
    · obtain ⟨a', ha', found⟩ := ih htail hb
      exact ⟨a', List.mem_cons_of_mem a ha', found⟩

/-- Gathering fails as it does on some item. -/
theorem exists_of_gather_eq_error {f : α → Except ε (List β)} {as : List α} {e : ε}
    (h : gather f as = .error e) : ∃ a ∈ as, f a = .error e := by
  induction as with
  | nil => cases h
  | cons a as ih =>
    rcases bind_eq_error.1 h with ha | ⟨head, -, h⟩
    · exact ⟨a, List.mem_cons_self, ha⟩
    · rcases bind_eq_error.1 h with has | ⟨tail, -, h⟩
      · obtain ⟨b, hb, hfb⟩ := ih has
        exact ⟨b, List.mem_cons_of_mem a hb, hfb⟩
      · cases h

/-- Gathering over two lists is gathering over one after the other. -/
theorem gather_append (f : α → Except ε (List β)) :
    ∀ as bs : List α, gather f (as ++ bs) = do
      let head ← gather f as
      let tail ← gather f bs
      .ok (head ++ tail)
  | [], bs => by
    simp only [List.nil_append, gather, bind, Except.bind]
    cases gather f bs <;> rfl
  | a :: as, bs => by
    simp only [List.cons_append, gather, gather_append f as bs, bind, Except.bind]
    cases f a <;> simp only []
    cases gather f as <;> simp only []
    cases gather f bs <;> simp

/-- Rewriting each outcome before they are put together is rewriting all of them at once, if it
goes piece by piece. -/
theorem gather_map {γ : Type} {r : List β → List γ} (hnil : r [] = [])
    (happend : ∀ bs bs' : List β, r (bs ++ bs') = r bs ++ r bs') (f : α → Except ε (List β)) :
    ∀ as : List α, gather (fun a => (f a).map r) as = (gather f as).map r
  | [] => by rw [gather, gather, Except.map, hnil]
  | a :: as => by
    rw [gather, gather, gather_map hnil happend f as]
    cases f a with
    | error e => rfl
    | ok head =>
      cases gather f as with
      | error e => rfl
      | ok tail => exact congrArg Except.ok (happend head tail).symm

/-- To gather what `r` makes of single outcomes is to collect the outcomes first. -/
theorem gather_map_eq_mapM {γ : Type} (f : α → Except ε γ) (r : γ → List β) :
    ∀ as : List α, gather (fun a => (f a).map r) as = (as.mapM f).map (·.flatMap r)
  | [] => rfl
  | a :: as => by
    rw [gather, gather_map_eq_mapM f r as, List.mapM_cons]
    cases f a with
    | error e => rfl
    | ok c => cases as.mapM f <;> rfl

/-- Gathering over images of items is gathering over the items. -/
theorem gather_comp {γ : Type} (f : α → Except ε (List β)) (h : γ → α) :
    ∀ cs : List γ, gather f (cs.map h) = gather (fun c => f (h c)) cs
  | [] => rfl
  | c :: cs => by rw [List.map_cons, gather, gather, gather_comp f h cs]

/-- Run `f` on every item for its failures only; the first one wins. -/
def checkAll (f : α → Except ε Unit) : List α → Except ε Unit
  | [] => .ok ()
  | a :: as => do
    f a
    checkAll f as

end OrgWeave
