import Mathlib.Data.List.Nodup
import Mathlib.Data.List.Range
import Mathlib.Data.List.Perm.Subperm
import Mathlib.Data.Nat.ModEq
import Mathlib.Logic.Function.Basic

/-!
# Circular tables

A table of `n` slots, used from an index `head` on and around its end. `Layout` says that the slots
hold a list in this order and are empty after it; it grows at both ends (`Layout.append`,
`Layout.cons`) and shrinks at its head (`Layout.tail`). What the slots hold, in the order of the
table, is a permutation of the list (`Layout.perm`).
-/

namespace Ring

variable {α : Type*} {n head : ℕ} {table : ℕ → Option α} {l : List α} {x : α}

/-- The index before `head`. -/
def pred (n head : ℕ) : ℕ := if head = 0 then n - 1 else head - 1

/-- The place in front of another one is a place. -/
theorem pred_lt (h : head < n) : pred n head < n := by
  unfold pred
  split <;> omega

/-- Places counted from one place earlier. -/
theorem pred_add_succ_mod (h : head < n) (i : ℕ) :
    (pred n head + (i + 1)) % n = (head + i) % n := by
  unfold pred
  split
  · next h0 =>
    rw [show n - 1 + (i + 1) = n + i by omega, Nat.add_mod_left, h0, Nat.zero_add]
  · rw [show head - 1 + (i + 1) = head + i by omega]

/-- Two offsets below `n` from the same index are the same slot only if they are equal. -/
theorem add_mod_inj {i j : ℕ} (hi : i < n) (hj : j < n) :
    (head + i) % n = (head + j) % n ↔ i = j := by
  constructor
  · intro h
    have hmod : i ≡ j [MOD n] := Nat.ModEq.add_left_cancel' head h
    rwa [Nat.ModEq, Nat.mod_eq_of_lt hi, Nat.mod_eq_of_lt hj] at hmod
  · rintro rfl
    rfl

/-- The `n` slots from `head` on hold the list and are empty after it. -/
structure Layout (n : ℕ) (table : ℕ → Option α) (head : ℕ) (l : List α) : Prop where
  head_lt : head < n
  length_le : l.length ≤ n
  slot : ∀ i < n, table ((head + i) % n) = l[i]?

/-- A table without entries holds the empty list. -/
theorem layout_empty (hn : 0 < n) (h : ∀ i, table i = none) : Layout n table 0 [] where
  head_lt := hn
  length_le := Nat.zero_le n
  slot i _ := by rw [h, List.getElem?_nil]

/-- The head of the list is at the head. -/
theorem Layout.slot_head (h : Layout n table head l) : table head = l.head? := by
  have hslot := h.slot 0 (Nat.zero_lt_of_lt h.head_lt)
  rwa [Nat.add_zero, Nat.mod_eq_of_lt h.head_lt, ← List.head?_eq_getElem?] at hslot

/-- The slot behind the list is empty. -/
theorem Layout.slot_behind (h : Layout n table head l) (hlt : l.length < n) :
    table ((head + l.length) % n) = none := by
  rw [h.slot _ hlt, List.getElem?_eq_none_iff]

/-- The slot before the list is empty. -/
theorem Layout.slot_before (h : Layout n table head l) (hlt : l.length < n) :
    table (pred n head) = none := by
  have hslot := h.slot (n - 1) (by omega)
  have hidx : (head + (n - 1)) % n = pred n head := by
    rw [← pred_add_succ_mod h.head_lt, Nat.sub_add_cancel (by omega), Nat.add_mod_right,
      Nat.mod_eq_of_lt (pred_lt h.head_lt)]
  rw [← hidx, hslot, List.getElem?_eq_none_iff]
  omega

/-- An element is put behind the others. -/
theorem Layout.append (h : Layout n table head l) (hlt : l.length < n) (x : α) :
    Layout n (Function.update table ((head + l.length) % n) (some x)) head (l ++ [x]) where
  head_lt := h.head_lt
  length_le := by
    rw [List.length_append]
    exact hlt
  slot i hi := by
    rcases eq_or_ne i l.length with rfl | hne
    · rw [Function.update_self, List.getElem?_concat_length]
    · rw [Function.update_of_ne (fun heq => hne ((add_mod_inj hi hlt).1 heq)), h.slot i hi]
      rcases Nat.lt_or_gt_of_ne hne with hi' | hi'
      · rw [List.getElem?_append_left hi']
      · rw [List.getElem?_eq_none_iff.2 (by omega), List.getElem?_eq_none_iff.2 (by simp; omega)]

/-- An element is put in front of the others. -/
theorem Layout.cons (h : Layout n table head l) (hlt : l.length < n) (x : α) :
    Layout n (Function.update table (pred n head) (some x)) (pred n head) (x :: l) where
  head_lt := pred_lt h.head_lt
  length_le := hlt
  slot i hi := by
    have hhead : pred n head = (pred n head + 0) % n := by
      rw [Nat.add_zero, Nat.mod_eq_of_lt (pred_lt h.head_lt)]
    cases i with
    | zero => rw [← hhead, Function.update_self, List.getElem?_cons_zero]
    | succ i =>
      have hne : (pred n head + (i + 1)) % n ≠ pred n head := by
        intro heq
        rw [hhead, Nat.mod_add_mod, Nat.add_zero] at heq
        have := (add_mod_inj hi (Nat.zero_lt_of_lt hi)).1 heq
        omega
      rw [Function.update_of_ne hne, pred_add_succ_mod h.head_lt, h.slot i (Nat.lt_of_succ_lt hi),
        List.getElem?_cons_succ]

/-- The first element is taken out. -/
theorem Layout.tail (h : Layout n table head (x :: l)) :
    Layout n (Function.update table head none) ((head + 1) % n) l where
  head_lt := Nat.mod_lt _ (Nat.zero_lt_of_lt h.head_lt)
  length_le := Nat.le_of_succ_le h.length_le
  slot i hi := by
    have hhead : head = (head + 0) % n := by rw [Nat.add_zero, Nat.mod_eq_of_lt h.head_lt]
    rw [Nat.mod_add_mod, Nat.add_assoc, Nat.add_comm 1 i]
    rcases Nat.lt_or_eq_of_le (Nat.succ_le_of_lt hi) with hi' | rfl
    · have hne : (head + (i + 1)) % n ≠ head := by
        intro heq
        rw [hhead, Nat.mod_add_mod, Nat.add_zero] at heq
        have := (add_mod_inj hi' (Nat.zero_lt_of_lt hi)).1 heq
        omega
      rw [Function.update_of_ne hne, h.slot _ hi', List.getElem?_cons_succ]
    · rw [Nat.add_mod_right, Nat.mod_eq_of_lt h.head_lt, Function.update_self,
        List.getElem?_eq_none_iff.2]
      exact Nat.le_of_succ_le_succ h.length_le

/-- The slots from an index on, around the end of the table, are all its slots. -/
theorem rotate_perm (hn : 0 < n) :
    ((List.range n).map fun i => (head + i) % n).Perm (List.range n) := by
  refine List.Subperm.perm_of_length_le ?_ (by simp)
  refine List.subperm_of_subset ?_ ?_
  · refine List.Nodup.map_on ?_ List.nodup_range
    intro i hi j hj heq
    exact (add_mod_inj (List.mem_range.1 hi) (List.mem_range.1 hj)).1 heq
  · intro j hj
    obtain ⟨i, -, rfl⟩ := List.mem_map.1 hj
    exact List.mem_range.2 (Nat.mod_lt _ hn)

/-- A list read place by place. -/
theorem filterMap_range_getElem? (l : List α) (hle : l.length ≤ n) :
    ((List.range n).filterMap fun i => l[i]?) = l := by
  induction l generalizing n with
  | nil => simp
  | cons x l ih =>
    obtain ⟨m, rfl⟩ : ∃ m, n = m + 1 := ⟨n - 1, by rw [List.length_cons] at hle; omega⟩
    rw [List.range_succ_eq_map, List.filterMap_cons_some (List.getElem?_cons_zero),
      List.filterMap_map]
    congr 1
    exact ih (Nat.le_of_succ_le_succ hle)

/-- What the table holds, slot by slot, is what the list holds. -/
theorem Layout.perm (h : Layout n table head l) : ((List.range n).filterMap table).Perm l := by
  have hlist : ((List.range n).map fun i => (head + i) % n).filterMap table = l := by
    rw [List.filterMap_map]
    refine Eq.trans (List.filterMap_congr ?_) (filterMap_range_getElem? l h.length_le)
    intro i hi
    exact h.slot i (List.mem_range.1 hi)
  exact ((rotate_perm (Nat.zero_lt_of_lt h.head_lt)).symm.filterMap table).trans (.of_eq hlist)

end Ring
