import Mathlib.Algebra.BigOperators.Group.Finset.Basic
import Mathlib.Data.Fintype.BigOperators

/-!
# Counting over finitely many parties

A quantity that finitely many parties hold together is a sum over the parties. A step that changes
one party changes the sum by the difference at that party; stated without subtraction, so that it
also serves for natural numbers.
-/

namespace Accounting

open Finset

variable {ι α M : Type*} [Fintype ι] [DecidableEq ι] [AddCommMonoid M]

/-- Replacing one party's value moves the total by what that party gains and loses. -/
theorem sum_update_add (g : α → M) (f : ι → α) (i : ι) (b : α) :
    ∑ x, g (Function.update f i b x) + g (f i) = ∑ x, g (f x) + g b := by
  have hnew : ∑ x, g (Function.update f i b x) = g b + ∑ x ∈ univ \ {i}, g (f x) := by
    rw [← sum_update_of_mem (mem_univ i) (fun x => g (f x)) (g b)]
    refine sum_congr rfl ?_
    intro x _
    rcases eq_or_ne x i with rfl | h
    · simp
    · simp [h]
  have hold : ∑ x, g (f x) = g (f i) + ∑ x ∈ univ \ {i}, g (f x) := by
    rw [← sum_update_of_mem (mem_univ i) (fun x => g (f x)) (g (f i))]
    refine sum_congr rfl ?_
    intro x _
    rcases eq_or_ne x i with rfl | h
    · simp
    · simp [h]
  rw [hnew, hold, add_assoc, add_comm (g b), add_comm (∑ x ∈ _, _)]

end Accounting
