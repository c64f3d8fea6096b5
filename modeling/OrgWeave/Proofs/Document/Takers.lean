import OrgWeave.Org.Reading
import Mathlib.Data.List.TakeWhile
import Mathlib.Order.Bounds.Defs

/-!
# What a taker takes

What each taker takes off the front of lines, as a split of these lines. A run goes up to the first
line of another kind (`Taker.take_greedy_eq_succ_iff`), a block up to the first line behind its
opening line that closes it (`Taker.take_between_eq_succ_iff`), and a run in which some lines are
optional up to a line of its core, behind which it does not go on to another one
(`trailingCount_eq_succ_iff`). This run is the longest of all that end in this way
(`Taker.takes_longest_trailing`).
-/

namespace OrgWeave.Org

variable {l : Line} {ls : List Line} {n : Nat}

/-! ## Counts -/

theorem trailingCount_le (optional core : Line → Bool) :
    ∀ ls : List Line, trailingCount optional core ls ≤ ls.length
  | [] => Nat.le_refl 0
  | l :: ls => by
    have ih := trailingCount_le optional core ls
    simp only [trailingCount, List.length_cons]
    split
    · split <;> omega
    · split <;> omega

/-- Nothing counts if no line of the core follows the optional lines at the front. -/
theorem trailingCount_eq_zero_iff {optional core : Line → Bool} :
    trailingCount optional core ls = 0 ↔ ∃ ms rest, ls = ms ++ rest ∧
      (∀ m ∈ ms, optional m = true) ∧ ∀ m ∈ rest.head?, optional m = false ∧ core m = false := by
  constructor
  · intro h
    induction ls with
    | nil => exact ⟨[], [], rfl, by simp, by simp⟩
    | cons l ls ih =>
      rw [trailingCount] at h
      split at h
      next hoptional =>
        split at h
        next hzero =>
          obtain ⟨ms, rest, rfl, hms, hrest⟩ := ih hzero
          exact ⟨l :: ms, rest, rfl, List.forall_mem_cons.2 ⟨hoptional, hms⟩, hrest⟩
        next => cases h
      next hoptional =>
        split at h
        next => cases h
        next hcore => exact ⟨[], l :: ls, rfl, by simp, by simp [hoptional, hcore]⟩
  · rintro ⟨ms, rest, rfl, hms, hrest⟩
    induction ms with
    | nil =>
      cases rest with
      | nil => rfl
      | cons m rest =>
        obtain ⟨hoptional, hcore⟩ := hrest m rfl
        simp [trailingCount, hoptional, hcore]
    | cons m ms ih =>
      obtain ⟨hm, hms⟩ := List.forall_mem_cons.1 hms
      simp [trailingCount, hm, ih hms]

theorem exists_of_trailingCount_eq_succ {optional core : Line → Bool}
    (h : trailingCount optional core ls = n + 1) :
    ∃ l ms rest, ls = l :: ms ++ rest ∧ n = ms.length ∧
      (∀ m ∈ l :: ms, optional m = true ∨ core m = true) ∧ optional (ms.getLastD l) = false ∧
        trailingCount optional core rest = 0 := by
  induction ls generalizing n with
  | nil => cases h
  | cons l ls ih =>
    rw [trailingCount] at h
    split at h
    next hoptional =>
      split at h
      next => cases h
      next k hk =>
        -- an optional line counts with the lines behind it, and has their last line
        obtain ⟨m, ms, rest, rfl, rfl, hms, hlast, hrest⟩ := ih hk
        refine ⟨l, m :: ms, rest, rfl, (Nat.succ.inj h).symm, ?_, ?_, hrest⟩
        · exact List.forall_mem_cons.2 ⟨Or.inl hoptional, hms⟩
        · rwa [List.getLastD_cons]
    next hoptional =>
      split at h
      next hcore =>
        have hcount := Nat.succ.inj h
        cases n with
        | zero =>
          refine ⟨l, [], ls, rfl, rfl, ?_, by simpa using hoptional, hcount⟩
          simp [hcore]
        | succ k =>
          obtain ⟨m, ms, rest, rfl, rfl, hms, hlast, hrest⟩ := ih hcount
          refine ⟨l, m :: ms, rest, rfl, rfl, ?_, ?_, hrest⟩
          · exact List.forall_mem_cons.2 ⟨Or.inr hcore, hms⟩
          · rwa [List.getLastD_cons]
      next => cases h

theorem trailingCount_append {optional core : Line → Bool} {ms rest : List Line}
    (hms : ∀ m ∈ l :: ms, optional m = true ∨ core m = true)
    (hlast : optional (ms.getLastD l) = false) (hrest : trailingCount optional core rest = 0) :
    trailingCount optional core (l :: ms ++ rest) = ms.length + 1 := by
  induction ms generalizing l with
  | nil =>
    have hoptional : optional l = false := hlast
    have hcore : core l = true := by simpa [hoptional] using hms
    simp [trailingCount, hoptional, hcore, hrest]
  | cons m ms ih =>
    obtain ⟨hl, hms⟩ := List.forall_mem_cons.1 hms
    rw [List.getLastD_cons] at hlast
    rw [List.cons_append, trailingCount, ih hms hlast]
    cases hoptional : optional l with
    | false =>
      have hcore : core l = true := by simpa [hoptional] using hl
      simp [hcore]
    | true => simp

/-- What counts ends with a line of the core, behind which nothing more counts. -/
theorem trailingCount_eq_succ_iff {optional core : Line → Bool} :
    trailingCount optional core ls = n + 1 ↔ ∃ l ms rest, ls = l :: ms ++ rest ∧ n = ms.length ∧
      (∀ m ∈ l :: ms, optional m = true ∨ core m = true) ∧ optional (ms.getLastD l) = false ∧
        trailingCount optional core rest = 0 := by
  constructor
  · exact exists_of_trailingCount_eq_succ
  · rintro ⟨l, ms, rest, rfl, rfl, hms, hlast, hrest⟩
    exact trailingCount_append hms hlast hrest

/-- A block that is closed goes up to the first line that closes it. -/
theorem closedCount_eq_succ_iff {closes : Line → Bool} :
    closedCount closes ls = n + 1 ↔ ∃ body closing rest, ls = body ++ [closing] ++ rest ∧
      n = (body ++ [closing]).length ∧ (∀ m ∈ body, closes m = false) ∧ closes closing = true := by
  unfold closedCount
  constructor
  · intro h
    split at h
    next i hi =>
      obtain ⟨hlt, hcloses, hbefore⟩ := List.findIdx?_eq_some_iff_getElem.1 hi
      have hlength : (ls.take i).length = i := List.length_take_of_le (Nat.le_of_lt hlt)
      refine ⟨ls.take i, ls[i], ls.drop (i + 1), by simp, by simp; omega, fun m hm => ?_, hcloses⟩
      obtain ⟨j, hj, rfl⟩ := List.mem_iff_getElem.1 hm
      rw [List.getElem_take]
      exact Bool.eq_false_iff.2 (hbefore j (by omega))
    next => cases h
  · rintro ⟨body, closing, rest, rfl, rfl, hbody, hcloses⟩
    simp [List.findIdx?_append, List.findIdx?_eq_none_iff.2 hbody, List.findIdx?_cons, hcloses]

theorem closedCount_eq_zero_iff {closes : Line → Bool} :
    closedCount closes ls = 0 ↔ ∀ m ∈ ls, closes m = false := by
  unfold closedCount
  rw [← List.findIdx?_eq_none_iff]
  cases ls.findIdx? closes <;> simp

/-! ## The longest front -/

/-- The first `k` lines are optional lines and core lines, and the last one of them, if there is
one, is a core line that is not optional. -/
structure EndsInCore (optional core : Line → Bool) (ls : List Line) (k : Nat) : Prop where
  kinds : ∀ l ∈ ls.take k, optional l = true ∨ core l = true
  last : k ≠ 0 → ∃ l, ls[k - 1]? = some l ∧ core l = true ∧ optional l = false

namespace EndsInCore

variable {optional core : Line → Bool}

theorem zero (optional core : Line → Bool) (ls : List Line) : EndsInCore optional core ls 0 where
  kinds := by simp
  last := fun h => absurd rfl h

theorem not_nil : ¬EndsInCore optional core [] (n + 1) := by
  intro h
  obtain ⟨l, hl, -⟩ := h.last (Nat.succ_ne_zero n)
  cases hl

/-- A front of several lines goes on behind the first one, and a single line has to be of the core
alone. -/
theorem cons_succ_iff : EndsInCore optional core (l :: ls) (n + 1) ↔
    (optional l = true ∨ core l = true) ∧ EndsInCore optional core ls n ∧
      (n = 0 → core l = true ∧ optional l = false) := by
  constructor
  · rintro ⟨hkinds, hlast⟩
    obtain ⟨hl, hls⟩ := List.forall_mem_cons.1 hkinds
    refine ⟨hl, ⟨hls, fun hn => ?_⟩, ?_⟩
    · obtain ⟨k, rfl⟩ := Nat.exists_eq_succ_of_ne_zero hn
      simpa using hlast
    · rintro rfl
      simpa using hlast
  · rintro ⟨hl, ⟨hkinds, hlast⟩, hsingle⟩
    refine ⟨List.forall_mem_cons.2 ⟨hl, hkinds⟩, fun _ => ?_⟩
    cases n with
    | zero => exact ⟨l, rfl, hsingle rfl⟩
    | succ k => simpa using hlast

/-- No front that ends in the core is longer than what counts. -/
theorem le_trailingCount {k : Nat} (h : EndsInCore optional core ls k) :
    k ≤ trailingCount optional core ls := by
  induction ls generalizing k with
  | nil =>
    cases k with
    | zero => exact Nat.le_refl 0
    | succ n => exact absurd h not_nil
  | cons l ls ih =>
    cases k with
    | zero => exact Nat.zero_le _
    | succ n =>
      obtain ⟨hl, hrest, hsingle⟩ := cons_succ_iff.1 h
      have hle := ih hrest
      rw [trailingCount]
      split
      next hoptional =>
        -- an optional line is not the last one, so that others count behind it
        have hn : n ≠ 0 := by
          intro hn
          simp [(hsingle hn).2] at hoptional
        split <;> omega
      next hoptional =>
        have hcore : core l = true := hl.resolve_left hoptional
        rw [if_pos hcore]
        exact Nat.succ_le_succ hle

end EndsInCore

/-- What counts is a front that ends in the core. -/
theorem endsInCore_trailingCount (optional core : Line → Bool) (ls : List Line) :
    EndsInCore optional core ls (trailingCount optional core ls) := by
  fun_induction trailingCount optional core ls with
  | case1 => exact .zero optional core []
  | case2 l ls => exact .zero optional core (l :: ls)
  | case3 l ls hoptional n hn ih =>
    rw [hn] at ih
    exact EndsInCore.cons_succ_iff.2 ⟨Or.inl hoptional, ih, nofun⟩
  | case4 l ls hoptional hcore ih =>
    have hsingle : core l = true ∧ optional l = false := ⟨hcore, by simpa using hoptional⟩
    exact EndsInCore.cons_succ_iff.2 ⟨Or.inr hcore, ih, fun _ => hsingle⟩
  | case5 l ls => exact .zero optional core (l :: ls)

/-- Going through lines with the last core line in mind comes to what counts. -/
theorem lastCore_eq (optional core : Line → Bool) : ∀ (ls : List Line) (taken i : Nat),
    lastCore optional core taken i ls =
      if trailingCount optional core ls = 0 then taken else i + trailingCount optional core ls
  | [], _, _ => rfl
  | l :: ls, taken, i => by
    have ih := lastCore_eq optional core ls
    rw [lastCore, trailingCount]
    split
    next =>
      rw [ih taken (i + 1)]
      cases trailingCount optional core ls with
      | zero => rfl
      | succ n => simp only [Nat.succ_ne_zero, if_false]; omega
    next =>
      split
      next =>
        rw [ih (i + 1) (i + 1)]
        split <;> simp only [Nat.succ_ne_zero, if_false] <;> omega
      next => rfl

/-! ## Takers -/

namespace Taker

theorem take_first_eq_succ_iff {takes : Line → Bool} :
    (first takes).take l ls = n + 1 ↔ n = 0 ∧ takes l = true := by
  cases htakes : takes l <;> simp [take, htakes, eq_comm]

theorem take_between_eq_succ_iff {opens : Line → Bool} {closes : Line → Line → Bool} :
    (between opens closes).take l ls = n + 1 ↔ opens l = true ∧ ∃ body closing rest,
      ls = body ++ [closing] ++ rest ∧ n = (body ++ [closing]).length ∧
        (∀ m ∈ body, closes l m = false) ∧ closes l closing = true := by
  rw [← closedCount_eq_succ_iff]
  cases hopens : opens l <;> simp [take, hopens]

theorem take_between_eq_zero_iff {opens : Line → Bool} {closes : Line → Line → Bool} :
    (between opens closes).take l ls = 0 ↔ opens l = true → ∀ m ∈ ls, closes l m = false := by
  rw [← closedCount_eq_zero_iff]
  cases hopens : opens l <;> simp [take, hopens]

theorem take_greedy_eq_zero_iff {takes : Line → Bool} :
    (greedy takes).take l ls = 0 ↔ takes l = false := by
  cases htakes : takes l <;> simp [take, htakes]

theorem take_greedy_eq_succ_iff {takes : Line → Bool} :
    (greedy takes).take l ls = n + 1 ↔ ∃ ms rest, ls = ms ++ rest ∧ n = ms.length ∧
      (∀ m ∈ l :: ms, takes m = true) ∧ ∀ m ∈ rest.head?, takes m = false := by
  constructor
  · intro h
    have htakes : takes l = true := by
      by_contra hnot
      simp [take, hnot] at h
    refine ⟨ls.takeWhile takes, ls.dropWhile takes, List.takeWhile_append_dropWhile.symm, ?_,
      List.forall_mem_cons.2 ⟨htakes, fun m => List.mem_takeWhile_imp⟩, fun m hm => ?_⟩
    · simpa [take, htakes] using h.symm
    · have hhead := List.head?_dropWhile_not takes ls
      rwa [hm] at hhead
  · rintro ⟨ms, rest, rfl, rfl, hms, hrest⟩
    have hstop : rest.takeWhile takes = [] := by
      cases rest with
      | nil => rfl
      | cons m rest => simp [hrest m rfl]
    rw [take, ← List.cons_append, List.takeWhile_append_of_pos hms, hstop]
    simp

/-- No taker takes more lines than there are. -/
theorem take_le (t : Taker) (l : Line) (ls : List Line) : t.take l ls ≤ ls.length + 1 := by
  cases t with
  | greedy takes => exact (List.takeWhile_sublist takes).length_le
  | first takes =>
    rw [take]
    split <;> omega
  | between opens closes =>
    cases h : (between opens closes).take l ls with
    | zero => omega
    | succ n =>
      obtain ⟨-, body, closing, rest, rfl, rfl, -⟩ := take_between_eq_succ_iff.1 h
      exact Nat.succ_le_succ (List.sublist_append_left _ rest).length_le
  | trailing optional core => exact trailingCount_le optional core (l :: ls)

/-- The loop of the taker over a list comes to what counts. -/
theorem takeIn_trailing (optional core : Line → Bool) (ls : List Line) :
    (trailing optional core).takeIn (.ofList ls) = .ok (trailingCount optional core ls) := by
  refine congrArg Except.ok ?_
  rw [lastCore_eq, Nat.zero_add]
  split <;> simp_all

/-- The taker takes the longest front of optional and core lines that ends with a line of the core
alone, and no line exactly if there is no such front. So does its loop, which only has the last core
line in mind. -/
theorem takes_longest_trailing (optional core : Line → Bool) (ls : List Line) :
    ∃ k, (trailing optional core).takeFrom ls = .ok k ∧
      (trailing optional core).takeIn (.ofList ls) = .ok k ∧
      IsGreatest {k | EndsInCore optional core ls k} k ∧
      (k = 0 ↔ ∀ n, ¬EndsInCore optional core ls (n + 1)) := by
  have hfront := endsInCore_trailingCount optional core ls
  refine ⟨trailingCount optional core ls, by cases ls <;> rfl, takeIn_trailing optional core ls,
    ⟨hfront, fun _ hk => hk.le_trailingCount⟩, ?_⟩
  constructor
  · intro hzero n hn
    have hle := hn.le_trailingCount
    omega
  · intro hnone
    by_contra hne
    obtain ⟨n, hn⟩ := Nat.exists_eq_succ_of_ne_zero hne
    rw [hn] at hfront
    exact hnone n hfront

/-- Optional lines count only in front of a line of the core. -/
example : (trailing (fun l => l = []) fun l => l.head? = some 'x').takeFrom
    [['x'], [], ['x', 'y'], [], ['y']] = .ok 3 := by decide

end Taker

end OrgWeave.Org
