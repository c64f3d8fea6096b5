import OrgWeave.Org.Reading
import OrgWeave.Proofs.Graph.Lines

/-!
# What a slice selects

`sliceIndices` clamps the ends of a slice to the list and then goes step by step from one to the
other. It comes to the places of the list between the ends that are a number of steps from the
start, and it does not matter that the ends were clamped (`sliceIndices_eq`), so that it selects
what the slice of a list does (`itemsOf_eq`).

Steps go on in one direction, so that it is enough to know which places they come to
(`EndsInside.stepsFrom_eq`). These are the places of the list as long as no step goes over its front
(`StaysInside`).
-/

namespace OrgWeave.Org

variable {start stop step n : Int} {count i length : Nat}

/-! ## Steps of a slice -/

theorem add_steps (n step : Int) (k : Nat) : n + step + k * step = n + (k + 1 : Nat) * step := by
  rw [Int.natCast_add, Int.add_mul]
  omega

/-- No step from `n` on that is in front of the stop leaves the front of the list. -/
def StaysInside (stop step n : Int) : Prop :=
  ∀ k : Nat, inSlice stop step (n + k * step) = true → 0 ≤ n + k * step

namespace StaysInside

theorem next (h : StaysInside stop step n) : StaysInside stop step (n + step) := by
  intro k hk
  rw [add_steps] at hk ⊢
  exact h (k + 1) hk

theorem toNat (h : StaysInside stop step n) (hn : inSlice stop step n = true) :
    (n.toNat : Int) = n := by
  have hnonneg := h 0
  rw [Int.natCast_zero, Int.zero_mul, Int.add_zero] at hnonneg
  exact Int.toNat_of_nonneg (hnonneg hn)

theorem of_up (hstep : 0 < step) (hn : 0 ≤ n) : StaysInside stop step n := fun k _ =>
  Int.add_nonneg hn (Int.mul_nonneg (Int.natCast_nonneg k) (Int.le_of_lt hstep))

theorem of_down (hstep : step < 0) (hstop : -1 ≤ stop) : StaysInside stop step n := by
  intro k hk
  rw [inSlice, if_neg (by omega), decide_eq_true_eq] at hk
  omega

end StaysInside

/-- Steps that have not come to the stop yet had not before either. -/
theorem inSlice_of_later {k : Nat} (h : inSlice stop step (n + k * step) = true) :
    inSlice stop step n = true := by
  unfold inSlice at h ⊢
  split at h
  next hup =>
    have hk := Int.mul_nonneg (Int.natCast_nonneg k) (Int.le_of_lt hup)
    rw [decide_eq_true_eq] at h
    rw [if_pos hup, decide_eq_true_eq]
    omega
  next hdown =>
    have hk := Int.mul_nonpos_of_nonneg_of_nonpos (Int.natCast_nonneg k) (Int.not_lt.1 hdown)
    rw [decide_eq_true_eq] at h
    rw [if_neg hdown, decide_eq_true_eq]
    omega

/-- Where steps lead that stay in front of the stop. -/
theorem mem_stepsFrom (h : StaysInside stop step n) : i ∈ stepsFrom stop step count n ↔
    ∃ k : Nat, k < count ∧ (i : Int) = n + k * step ∧ inSlice stop step i = true := by
  induction count generalizing n with
  | zero => simp [stepsFrom]
  | succ count ih =>
    rw [stepsFrom]
    split
    next hin =>
      have hn := h.toNat hin
      rw [List.mem_cons, ih h.next]
      constructor
      · rintro (rfl | ⟨k, hk, hi, hslice⟩)
        · exact ⟨0, Nat.succ_pos count, by omega, by rwa [hn]⟩
        · exact ⟨k + 1, Nat.succ_lt_succ hk, by rw [hi, add_steps], hslice⟩
      · rintro ⟨k, hk, hi, hslice⟩
        cases k with
        | zero => exact Or.inl (by omega)
        | succ k => exact Or.inr ⟨k, Nat.lt_of_succ_lt_succ hk, by rw [hi, add_steps], hslice⟩
    next hout =>
      refine iff_of_false List.not_mem_nil ?_
      rintro ⟨k, -, hi, hslice⟩
      rw [hi] at hslice
      exact hout (inSlice_of_later hslice)

/-- Steps lead on and on. -/
theorem pairwise_stepsFrom (count : Nat) (h : StaysInside stop step n) :
    (stepsFrom stop step count n).Pairwise fun i j : Nat =>
      ∃ k : Nat, (j : Int) = i + (k + 1 : Nat) * step := by
  induction count generalizing n with
  | zero => exact List.Pairwise.nil
  | succ count ih =>
    rw [stepsFrom]
    split
    next hin =>
      refine List.pairwise_cons.2 ⟨fun j hj => ?_, ih h.next⟩
      obtain ⟨k, -, hj, -⟩ := (mem_stepsFrom h.next).1 hj
      exact ⟨k, by rw [hj, add_steps, h.toNat hin]⟩
    next => exact List.Pairwise.nil

/-- A distance in the direction of the steps that is a multiple of a step is a number of steps. -/
theorem exists_steps (hdiff : (i - start) % step = 0)
    (hdirection : (0 < step ∧ start ≤ i) ∨ (step < 0 ∧ (i : Int) ≤ start)) :
    ∃ k : Nat, (i : Int) = start + k * step ∧ k ≤ ((i : Int) - start).natAbs := by
  obtain ⟨q, hq⟩ := Int.dvd_of_emod_eq_zero hdiff
  have hnonneg : 0 ≤ q := by
    by_contra hneg
    rcases hdirection with ⟨hup, hi⟩ | ⟨hdown, hi⟩
    · have := Int.mul_neg_of_pos_of_neg hup (Int.not_le.1 hneg)
      omega
    · have := Int.mul_pos_of_neg_of_neg hdown (Int.not_le.1 hneg)
      omega
  refine ⟨q.toNat, ?_, ?_⟩
  · rw [Int.toNat_of_nonneg hnonneg, Int.mul_comm, ← hq]
    omega
  · have hpos : 0 < step.natAbs := by omega
    have := Nat.le_mul_of_pos_left q.natAbs hpos
    rw [hq, Int.natAbs_mul]
    omega

/-! ## Places of a slice -/

theorem comesTo_up (hup : 0 < step) : comesTo start stop step i = true ↔
    (i - start) % step = 0 ∧ start ≤ i ∧ i < stop := by
  rw [comesTo, decide_eq_true_eq, if_pos hup]

theorem comesTo_down (hdown : step < 0) : comesTo start stop step i = true ↔
    (i - start) % step = 0 ∧ (i : Int) ≤ start ∧ stop < i := by
  rw [comesTo, decide_eq_true_eq, if_neg (by omega)]

/-- Steps to the right from the front on and up to the end at most, or steps to the left from the
end on and up to the front at most. -/
def EndsInside (length : Nat) (start stop step : Int) : Prop :=
  (0 < step ∧ 0 ≤ start ∧ stop ≤ length) ∨ (step < 0 ∧ start < length ∧ -1 ≤ stop)

namespace EndsInside

theorem staysInside (h : EndsInside length start stop step) : StaysInside stop step start := by
  rcases h with ⟨hup, hstart, -⟩ | ⟨hdown, -, hstop⟩
  · exact .of_up hup hstart
  · exact .of_down hdown hstop

/-- The steps go through the places that the slice comes to. -/
theorem mem_stepsFrom_iff (h : EndsInside length start stop step) :
    i ∈ stepsFrom stop step length start ↔ i < length ∧ comesTo start stop step i = true := by
  have hmultiple : ∀ k : Nat, (i : Int) = start + k * step → (i - start) % step = 0 := by
    intro k hi
    have hdiff : (i : Int) - start = k * step := by omega
    rw [hdiff, Int.mul_emod_left]
  rw [mem_stepsFrom h.staysInside]
  rcases h with ⟨hup, hstart, hstop⟩ | ⟨hdown, hstart, hstop⟩
  · rw [comesTo_up hup]
    simp only [inSlice, if_pos hup, decide_eq_true_eq]
    constructor
    · rintro ⟨k, -, hi, hlt⟩
      have := Int.mul_nonneg (Int.natCast_nonneg k) (Int.le_of_lt hup)
      exact ⟨by omega, hmultiple k hi, by omega, hlt⟩
    · rintro ⟨hi, hdiff, hle, hlt⟩
      obtain ⟨k, hk, hcount⟩ := exists_steps hdiff (Or.inl ⟨hup, hle⟩)
      exact ⟨k, by omega, hk, hlt⟩
  · rw [comesTo_down hdown]
    simp only [inSlice, if_neg (show ¬0 < step by omega), decide_eq_true_eq]
    constructor
    · rintro ⟨k, -, hi, hlt⟩
      have := Int.mul_nonpos_of_nonneg_of_nonpos (Int.natCast_nonneg k) (Int.le_of_lt hdown)
      exact ⟨by omega, hmultiple k hi, by omega, hlt⟩
    · rintro ⟨hi, hdiff, hle, hlt⟩
      obtain ⟨k, hk, hcount⟩ := exists_steps hdiff (Or.inr ⟨hdown, hle⟩)
      exact ⟨k, by omega, hk, hlt⟩

/-- The steps go through these places in their direction. -/
theorem stepsFrom_eq (h : EndsInside length start stop step) :
    stepsFrom stop step length start =
      if 0 < step then (List.range length).filter (comesTo start stop step)
      else ((List.range length).filter (comesTo start stop step)).reverse := by
  have hsteps := pairwise_stepsFrom length h.staysInside
  have hplaces : ((List.range length).filter (comesTo start stop step)).Pairwise (· < ·) :=
    List.pairwise_lt_range.filter _
  have hmem : ∀ i, i ∈ stepsFrom stop step length start ↔
      i ∈ (List.range length).filter (comesTo start stop step) := by
    intro i
    rw [h.mem_stepsFrom_iff, List.mem_filter, List.mem_range]
  rcases h with ⟨hup, -⟩ | ⟨hdown, -⟩
  · rw [if_pos hup]
    refine eq_of_increasing (hsteps.imp ?_) hplaces hmem
    rintro i j ⟨k, hk⟩
    have hpos : 0 < (k + 1 : Nat) * step := Int.mul_pos (Int.natCast_pos.2 k.succ_pos) hup
    omega
  · rw [if_neg (by omega), ← List.reverse_eq_iff]
    refine eq_of_increasing (List.pairwise_reverse.2 (hsteps.imp ?_)) hplaces fun i => ?_
    · rintro i j ⟨k, hk⟩
      have hneg : (k + 1 : Nat) * step < 0 :=
        Int.mul_neg_of_pos_of_neg (Int.natCast_pos.2 k.succ_pos) hdown
      omega
    · rw [List.mem_reverse, hmem]

end EndsInside

/-! ## Clamped ends -/

/-- An end that is clamped is the end itself, or stands for one that is too low or too high. -/
theorem clampEnd_cases (length : Nat) (low high n : Int) :
    (clampEnd length low high n = fromFront length n ∧ low ≤ fromFront length n ∧
      fromFront length n ≤ high) ∨
    (clampEnd length low high n = low ∧ fromFront length n < low) ∨
    (clampEnd length low high n = high ∧ high < fromFront length n) := by
  have heq : clampEnd length low high n = if fromFront length n < low then low
    else if high < fromFront length n then high else fromFront length n := rfl
  rw [heq]
  split
  · exact Or.inr (Or.inl ⟨rfl, ‹_›⟩)
  · split <;> omega

/-- Where a slice to the right starts that is clamped to the list. -/
theorem clampedStart_up (hup : 0 < step) (length : Nat) (first last : Option Int) :
    let clamped := (first.map (clampEnd length 0 length)).getD 0
    let start := (sliceEnds length first last step).1
    0 ≤ clamped ∧ (clamped = start ∨ (length ≤ clamped ∧ length ≤ start)) := by
  rw [sliceEnds, if_pos hup]
  cases first with
  | none => simp
  | some n =>
    have hclamp := clampEnd_cases length 0 length n
    simp only [Option.map_some, Option.getD_some, Option.filter_some, decide_eq_true_eq]
    split <;> simp only [Option.getD_some, Option.getD_none] <;> omega

theorem clampedStop_up (hup : 0 < step) (length : Nat) (first last : Option Int) :
    let clamped := (last.map (clampEnd length 0 length)).getD length
    let stop := (sliceEnds length first last step).2
    clamped ≤ length ∧ ∀ i < length, (i : Int) < clamped ↔ i < stop := by
  rw [sliceEnds, if_pos hup]
  cases last with
  | none => simp
  | some n =>
    have hclamp := clampEnd_cases length 0 length n
    simp only [Option.map_some, Option.getD_some]
    exact ⟨by omega, fun i hi => by omega⟩

theorem clampedStart_down (hdown : step < 0) (length : Nat) (first last : Option Int) :
    let clamped := (first.map (clampEnd length (-1) (length - 1))).getD (length - 1)
    let start := (sliceEnds length first last step).1
    clamped < length ∧ (clamped = start ∨ (clamped < 0 ∧ start < 0)) := by
  rw [sliceEnds, if_neg (by omega)]
  cases first with
  | none => exact ⟨Int.sub_one_lt_iff.2 (Int.le_refl _), Or.inl rfl⟩
  | some n =>
    have hclamp := clampEnd_cases length (-1) (length - 1) n
    simp only [Option.map_some, Option.getD_some, Option.filter_some, decide_eq_true_eq]
    split <;> simp only [Option.getD_some, Option.getD_none] <;> omega

theorem clampedStop_down (hdown : step < 0) (length : Nat) (first last : Option Int) :
    let clamped := (last.map (clampEnd length (-1) (length - 1))).getD (-1)
    let stop := (sliceEnds length first last step).2
    clamped ≥ -1 ∧ ∀ i < length, clamped < i ↔ stop < i := by
  rw [sliceEnds, if_neg (by omega)]
  cases last with
  | none => simp
  | some n =>
    have hclamp := clampEnd_cases length (-1) (length - 1) n
    simp only [Option.map_some, Option.getD_some]
    exact ⟨by omega, fun i hi => by omega⟩

/-- The ends of a slice count as they do when they are clamped to the list. -/
theorem sliceIndices_eq (length : Nat) (first last step : Option Int) :
    sliceIndices length first last step =
      let step := step.getD 1
      let (start, stop) := sliceEnds length first last step
      let places := (List.range length).filter (comesTo start stop step)
      if step = 0 then .error .zeroStep
      else .ok (if 0 < step then places else places.reverse) := by
  unfold sliceIndices
  generalize step.getD 1 = step
  dsimp only
  split
  next => rfl
  next hne =>
    split
    next hup =>
      obtain ⟨hfront, hstart⟩ := clampedStart_up hup length first last
      obtain ⟨hend, hstop⟩ := clampedStop_up hup length first last
      rw [EndsInside.stepsFrom_eq (Or.inl ⟨hup, hfront, hend⟩), if_pos hup]
      refine congrArg Except.ok (List.filter_congr fun i hi => Bool.eq_iff_iff.2 ?_)
      have hi := List.mem_range.1 hi
      rw [comesTo_up hup, comesTo_up hup, hstop i hi]
      rcases hstart with hstart | ⟨hbehind, hbehind'⟩
      · rw [hstart]
      · exact iff_of_false (by omega) (by omega)
    next hdown =>
      have hdown : step < 0 := by omega
      obtain ⟨hend, hstart⟩ := clampedStart_down hdown length first last
      obtain ⟨hfront, hstop⟩ := clampedStop_down hdown length first last
      rw [EndsInside.stepsFrom_eq (Or.inr ⟨hdown, hend, hfront⟩), if_neg (by omega)]
      refine congrArg Except.ok (congrArg List.reverse
        (List.filter_congr fun i hi => Bool.eq_iff_iff.2 ?_))
      have hi := List.mem_range.1 hi
      rw [comesTo_down hdown, comesTo_down hdown, hstop i hi]
      rcases hstart with hstart | ⟨hbefore, hbefore'⟩
      · rw [hstart]
      · exact iff_of_false (by omega) (by omega)

/-! ## Slices of lists -/

theorem filterMap_range (ls : List Line) : ∀ k : Nat, (List.range k).filterMap (ls[·]?) = ls.take k
  | 0 => rfl
  | k + 1 => by
    rw [List.range_succ, List.filterMap_append, filterMap_range ls k, List.take_add_one]
    cases h : ls[k]? <;> simp [h]

theorem itemsOf_eq (ls : List Line) (first last step : Option Int) : itemsOf ls first last step =
    (sliceIndices ls.length first last step).map fun places => places.filterMap (ls[·]?) := by
  rw [sliceIndices_eq, itemsOf]
  dsimp only
  split <;> rfl

/-- A slice that only stops somewhere is a front of the list. -/
theorem itemsOf_none_some (ls : List Line) (k : Nat) :
    itemsOf ls none (some k) none = .ok (ls.take k) := by
  have hends : sliceEnds ls.length none (some k) 1 = (0, (k : Int)) := by
    rw [sliceEnds, if_pos (by decide), Option.map_some, fromFront, if_neg (by omega)]
    rfl
  have hplaces : (List.range ls.length).filter (comesTo 0 k 1) =
      List.range (min k ls.length) := by
    refine eq_of_increasing (List.pairwise_lt_range.filter _) List.pairwise_lt_range fun i => ?_
    rw [List.mem_filter, List.mem_range, List.mem_range, comesTo_up (by decide)]
    omega
  have hitems : itemsOf ls none (some k) none =
      .ok (((List.range ls.length).filter (comesTo 0 k 1)).filterMap (ls[·]?)) := by
    rw [itemsOf, Option.getD_none, hends]
    rfl
  rw [hitems, hplaces, filterMap_range, ← List.take_eq_take_min]

/-- Places that a slice comes to are places of the list. -/
theorem lt_of_mem_sliceIndices {first last step : Option Int} {places : List Nat}
    (h : sliceIndices length first last step = .ok places) : ∀ i ∈ places, i < length := by
  intro i hi
  rw [sliceIndices_eq] at h
  dsimp only at h
  split at h
  next => cases h
  next =>
    cases h
    split at hi
    next => exact List.mem_range.1 (List.mem_filter.1 hi).1
    next => exact List.mem_range.1 (List.mem_filter.1 (List.mem_reverse.1 hi)).1

end OrgWeave.Org
