import OrgWeave.Proofs.Document.Slices
import OrgWeave.Proofs.Document.Takers

/-!
# Windows read like copies

A window reads like the list of the lines that it shows (`Window.ReadsLike`) : it has the same
length and the same lines front to back, the same line at every index, counted from either end, and
the same lines in every slice, and where the list fails it fails, too. Rules that only ask for these
cannot tell one from the other, so that they cut lines alike with windows and with copies. The rules
of Org cut them as `parse` does (`windows_read_like_copies`), as their loops over a sequence come to
the counts of their takers (`Taker.takeIn_ofList`).
-/

namespace OrgWeave.Org

variable {ls : List Line}

/-! ## Windows -/

namespace Window

variable (ls : List Line) (start : Nat)

theorem size_mk : (Window.mk ls start).size = (ls.drop start).length := by
  simp only [size, List.length_drop]
  omega

theorem lineAt_mk (i : Nat) : (Window.mk ls start).lineAt i =
    (ls.drop start)[i]?.elim (.error .noSuchLine) .ok := by
  have hplace : ¬(start : Int) + i < 0 := by omega
  have hnat : ((start : Int) + i).toNat = start + i := by omega
  rw [lineAt, if_neg hplace, if_neg hplace, hnat, List.getElem?_drop]
  cases ls[start + i]? <;> rfl

theorem linesAt_mk {places : List Nat} (h : ∀ i ∈ places, i < (ls.drop start).length) :
    (Window.mk ls start).linesAt places = .ok (places.filterMap ((ls.drop start)[·]?)) := by
  induction places with
  | nil => rfl
  | cons i places ih =>
    obtain ⟨hi, hplaces⟩ := List.forall_mem_cons.1 h
    have hline := List.getElem?_eq_getElem hi
    rw [linesAt, gather_cons_eq_ok]
    refine ⟨[(ls.drop start)[i]], _, ?_, ih hplaces, by rw [List.filterMap_cons_some hline]; rfl⟩
    rw [lineAt_mk, hline]
    rfl

theorem readAll_mk : (Window.mk ls start).readAll = .ok (ls.drop start) := by
  rw [readAll, size_mk, linesAt_mk ls start fun i => List.mem_range.1, filterMap_range,
    List.take_length]

theorem get_mk (index : Int) : (Window.mk ls start).get index =
    (itemAt? (ls.drop start) index).elim (.error .outsideWindow) .ok := by
  have hplace : (if index < 0 then index + ((ls.drop start).length : Int) else index) =
      fromFront (ls.drop start).length index := rfl
  rw [get, itemAt?, size_mk, hplace]
  generalize fromFront (ls.drop start).length index = place
  split
  next hinside =>
    rw [if_neg (Int.not_lt.2 hinside.1), lineAt_mk, List.getElem?_eq_getElem (by omega)]
    rfl
  next houtside =>
    split
    next => rfl
    next => rw [List.getElem?_eq_none (by omega), Option.elim_none]

theorem slice_mk (first last step : Option Int) :
    (Window.mk ls start).slice first last step = itemsOf (ls.drop start) first last step := by
  rw [slice, size_mk, itemsOf_eq]
  cases h : sliceIndices (ls.drop start).length first last step with
  | error e => rfl
  | ok places => exact linesAt_mk ls start (lt_of_mem_sliceIndices h)

/-- A window gives the same length, lines, line at an index and slice as a list, and it fails where
the list does. -/
structure ReadsLike (w : Window) (ls : List Line) : Prop where
  size : w.size = ls.length
  readAll : w.readAll = .ok ls
  get : ∀ index, w.get index = (itemAt? ls index).elim (.error .outsideWindow) .ok
  slice : ∀ first last step, w.slice first last step = itemsOf ls first last step

theorem readsLike_drop : (Window.mk ls start).ReadsLike (ls.drop start) where
  size := size_mk ls start
  readAll := readAll_mk ls start
  get := get_mk ls start
  slice := slice_mk ls start

theorem ReadsLike.sequence_eq {w : Window} {ls : List Line} (h : w.ReadsLike ls) :
    w.sequence = .ofList ls := by
  have hget : (fun index => (w.get index).mapError fun _ => Error.noSuchLine) =
      fun index => (itemAt? ls index).elim (.error .noSuchLine) .ok := by
    funext index
    rw [h.get]
    cases itemAt? ls index <;> rfl
  have hslice : w.slice = itemsOf ls := funext fun first => funext fun last => funext fun step =>
    h.slice first last step
  rw [sequence, Sequence.ofList, h.size, h.readAll, hget, hslice]

end Window

/-! ## Takers -/

theorem get_ofList {i : Nat} {l : Line} (h : ls[i]? = some l) :
    (Sequence.ofList ls).get i = .ok l := by
  have hitem : itemAt? ls i = some l := by
    rw [itemAt?, fromFront, if_neg (by omega), if_neg (by omega), Int.toNat_natCast, h]
  have hget : (Sequence.ofList ls).get i = (itemAt? ls i).elim (.error .noSuchLine) .ok := rfl
  rw [hget, hitem, Option.elim_some]

/-- Looking for a line that closes stops at the first one of the rest. -/
theorem closingFrom_ofList (closes : Line → Bool) : ∀ {rest : List Line} {i : Nat},
    ls.drop i = rest → closingFrom closes (.ofList ls) rest.length i =
      .ok ((rest.findIdx? closes).elim 0 fun n => ((i + n + 1 : Nat) : Int))
  | [], _, _ => rfl
  | l :: rest, i, h => by
    have hget : ls[i]? = some l := by
      rw [← Nat.add_zero i, ← List.getElem?_drop, h]
      rfl
    have hrest : ls.drop (i + 1) = rest := by
      rw [← List.drop_drop, h]
      rfl
    have ih := closingFrom_ofList closes hrest
    rw [List.length_cons, closingFrom, get_ofList hget, List.findIdx?_cons]
    dsimp only [bind, Except.bind]
    split
    next => rfl
    next =>
      rw [ih]
      cases rest.findIdx? closes with
      | none => rfl
      | some n =>
        have hcount : i + 1 + n + 1 = i + (n + 1) + 1 := by omega
        exact congrArg (fun count : Nat => Except.ok (count : Int)) hcount

/-- The loops of the takers come to what they take. -/
theorem Taker.takeIn_ofList (t : Taker) (l : Line) (ls : List Line) :
    t.takeIn (.ofList (l :: ls)) = .ok (t.take l ls) := by
  have hget : (Sequence.ofList (l :: ls)).get 0 = .ok l := get_ofList rfl
  cases t with
  | greedy takes =>
    have hcount : ((l :: ls).takeWhile takes).length = (l :: ls).findIdx fun l => !takes l := by
      rw [List.takeWhile_eq_take_findIdx_not, List.length_take_of_le List.findIdx_le_length]
    rw [take, hcount, List.findIdx_eq_getD_findIdx?]
    rfl
  | first takes =>
    rw [takeIn, hget, take]
    dsimp only [bind, Except.bind]
    split <;> rfl
  | between opens closes =>
    have hclosing : closingFrom (closes l) (.ofList (l :: ls)) ls.length 1 = _ :=
      closingFrom_ofList (closes l) rfl
    rw [takeIn, hget, take]
    dsimp only [bind, Except.bind]
    split
    next =>
      refine hclosing.trans ?_
      rw [closedCount]
      cases ls.findIdx? (closes l) with
      | none => rfl
      | some n =>
        have hcount : 1 + n + 1 = n + 2 := by omega
        exact congrArg (fun count : Nat => Except.ok (count : Int)) hcount
    next => rfl
  | trailing optional core => exact takeIn_trailing optional core (l :: ls)

/-! ## Rules -/

/-- The first rule that takes lines is the one that is chosen. -/
theorem firstTaking_ofList (l : Line) (ls : List Line) : ∀ rules : List Rule,
    firstTaking (.ofList (l :: ls)) (rules.map Rule.reader) =
      .ok ((Rule.choose? rules l ls).map fun chosen => (chosen.1.reader, chosen.2))
  | [] => rfl
  | rule :: rules => by
    have ih := firstTaking_ofList l ls rules
    have htake : rule.reader.take (.ofList (l :: ls)) = .ok (rule.taker.take l ls : Int) :=
      rule.taker.takeIn_ofList l ls
    rw [List.map_cons, firstTaking, htake]
    unfold Rule.choose? at ih ⊢
    rw [List.findSome?_cons]
    dsimp only [bind, Except.bind]
    rw [Int.toNat_natCast]
    cases rule.taker.take l ls with
    | zero => exact ih
    | succ n => rfl

/-- Rules of Org that look at lists cut lines as `parse` does. -/
theorem parseThrough_reader (rules : List Rule) (start : Int) (ls : List Line) (pos : Nat) :
    parseThrough (fun pos => .ofList (ls.drop pos)) (rules.map Rule.reader) start ls pos =
      parse rules (start + pos) (ls.drop pos) := by
  rw [parseThrough]
  split
  next h =>
    rw [List.drop_eq_getElem_cons h, firstTaking_ofList, parse]
    cases Rule.choose? rules ls[pos] (ls.drop (pos + 1)) with
    | none => rfl
    | some chosen =>
      obtain ⟨rule, n⟩ := chosen
      have ih := parseThrough_reader rules start ls (pos + (n + 1))
      have hslice : (Sequence.ofList (ls[pos] :: ls.drop (pos + 1))).slice none (some (n + 1))
          none = .ok (ls[pos] :: (ls.drop (pos + 1)).take n) :=
        itemsOf_none_some _ (n + 1)
      have hdrop : ls.drop (pos + (n + 1)) = (ls.drop (pos + 1)).drop n := by
        rw [List.drop_drop]
        congr 1
        omega
      have hstart : start + (pos + (n + 1) : Nat) = start + pos + n + 1 := by omega
      rw [hdrop, hstart] at ih
      dsimp only [bind, Except.bind, Option.map_some]
      rw [hslice, ih]
      rfl
  next h =>
    rw [List.drop_eq_nil_of_le (Nat.le_of_not_lt h), parse]
termination_by ls.length - pos

/-- A window gives the length, the lines, the line at any index and any slice as a list of its lines
does, or fails where the list does, also if it starts behind the last line. Any rules, which can
only ask for these, cut lines with windows as they do with copies, and the rules of Org cut them as
`parse` does. -/
theorem windows_read_like_copies :
    (∀ (ls : List Line) (start : Nat), (Window.mk ls start).ReadsLike (ls.drop start)) ∧
    (∀ rules start ls, parseWindows rules start ls = parseCopies rules start ls) ∧
    ∀ (rules : List Rule) start ls,
      parseWindows (rules.map Rule.reader) start ls = parse rules start ls := by
  have hcopies : ∀ rules start ls, parseWindows rules start ls = parseCopies rules start ls := by
    intro rules start ls
    rw [parseWindows, parseCopies, funext fun pos => (Window.readsLike_drop ls pos).sequence_eq]
  refine ⟨Window.readsLike_drop, hcopies, fun rules start ls => ?_⟩
  rw [hcopies, parseCopies, parseThrough_reader, Int.natCast_zero, Int.add_zero, List.drop_zero]

/-- A slice backwards from the end, with an end in front of the window. -/
example : (Window.mk [['a'], ['b'], ['c'], ['d']] 1).slice none (some (-9)) (some (-2)) =
    .ok [['d'], ['b']] := by decide

end OrgWeave.Org
