import Mathlib.Data.List.Basic
import Mathlib.Logic.Function.Basic

/-!
# Linked lists in a memory

`Linked next x as`: the links lead from the node `x` over the nodes `as` to the end. A node is
linked in behind another one by two assignments (`Linked.insert`).
-/

namespace Links

variable {α : Type*}

/-- From a cell the links go through these cells and end behind the last one. -/
def Linked (next : α → Option α) : α → List α → Prop
  | x, [] => next x = none
  | x, a :: as => next x = some a ∧ Linked next a as

variable {next next' : α → Option α} {x a n : α} {as bs : List α}

/-- From a cell on the way the links go through the rest. -/
theorem Linked.suffix (h : Linked next x (as ++ a :: bs)) : Linked next a bs := by
  induction as generalizing x with
  | nil => exact h.2
  | cons b as ih => exact ih h.2

/-- A link leads to the first of the cells behind it. -/
theorem Linked.head (h : Linked next x as) : next x = as.head? := by
  cases as with
  | nil => exact h
  | cons a as => exact h.1

/-- The link of the last node of `as`. -/
theorem Linked.last (h : Linked next x (as ++ bs)) : next (as.getLastD x) = bs.head? := by
  induction as generalizing x with
  | nil => exact h.head
  | cons a as ih =>
    rw [List.getLastD_cons]
    exact ih h.2

/-- Links of other nodes may change. -/
theorem Linked.congr (h : Linked next x as) (heq : ∀ y ∈ x :: as, next' y = next y) :
    Linked next' x as := by
  induction as generalizing x with
  | nil => exact (heq x List.mem_cons_self).trans h
  | cons a as ih =>
    exact ⟨(heq x List.mem_cons_self).trans h.1,
      ih h.2 fun y hy => heq y (List.mem_cons_of_mem x hy)⟩

/-- The last of some elements, or the one before them, is one of them all. -/
theorem getLastD_mem (x : α) (as : List α) : as.getLastD x ∈ x :: as := by
  cases as with
  | nil => exact List.mem_cons_self
  | cons a as =>
    rw [List.getLastD_cons, List.getLastD_eq_getLast?]
    cases hlast : as.getLast? with
    | none => simp
    | some b => simp [List.mem_of_getLast? hlast]

/-- A new node behind the last one of `as`. -/
theorem Linked.insert [DecidableEq α] (h : Linked next x (as ++ bs))
    (hnodup : (x :: (as ++ bs)).Nodup) (hn : n ∉ x :: (as ++ bs)) :
    Linked (Function.update (Function.update next n (next (as.getLastD x))) (as.getLastD x) (some n))
      x (as ++ n :: bs) := by
  induction as generalizing x with
  | nil =>
    have hnx : n ≠ x := List.ne_of_not_mem_cons hn
    rw [List.getLastD_nil]
    refine ⟨Function.update_self .., ?_⟩
    have hnew : Function.update (Function.update next n (next x)) x (some n) n = next x := by
      rw [Function.update_of_ne hnx, Function.update_self]
    cases bs with
    | nil => exact hnew.trans h
    | cons b bs =>
      refine ⟨hnew.trans h.1, h.2.congr fun y hy => ?_⟩
      have hyx : y ≠ x := by
        rintro rfl
        exact (List.nodup_cons.1 hnodup).1 hy
      have hyn : y ≠ n := by
        rintro rfl
        exact hn (List.mem_cons_of_mem x hy)
      rw [Function.update_of_ne hyx, Function.update_of_ne hyn]
  | cons a as ih =>
    rw [List.getLastD_cons]
    have hxn : x ≠ n := (List.ne_of_not_mem_cons hn).symm
    have hxlast : x ≠ as.getLastD a := by
      intro heq
      have hmem := getLastD_mem a as
      rw [← heq] at hmem
      exact (List.nodup_cons.1 hnodup).1 (List.mem_append_left bs hmem)
    refine ⟨?_, ih h.2 (List.nodup_cons.1 hnodup).2 (List.not_mem_of_not_mem_cons hn)⟩
    rw [Function.update_of_ne hxlast, Function.update_of_ne hxn]
    exact h.1

end Links
